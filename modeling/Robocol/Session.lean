import Robocol.WorkerSteps

/-! Sessions: what lies between a connected and the next disconnected event, and what a new
session starts with. -/
namespace Robocol
namespace Client

open Cmd Runs Relation Worker

/-- The peer after one more entry. -/
def sessionStep (peer : Option SocketAddr) : Entry → Option SocketAddr
  | .event (.connected src) => some src
  | .event .disconnected => none
  | _ => peer

/-- The peer of the session a history ends in, if it ends in one. -/
def sessionOf (log : List Entry) : Option SocketAddr := log.foldl sessionStep none

def lastStateStep (state : Option RobotState) : Entry → Option RobotState
  | .event (.connected _) => none
  | .event .disconnected => none
  | .event (.robotState s) => some s
  | _ => state

/-- The last robot state reported in the session a history ends in. -/
def lastState (log : List Entry) : Option RobotState := log.foldl lastStateStep none

/-- What an entry may be, given those before it. -/
def SessionLaw (before : List Entry) : Entry → Prop
  | .event (.connected _) => sessionOf before = none
  | .event .disconnected => sessionOf before ≠ none
  | .event (.peerBusy _) => sessionOf before = none
  | .event (.robotState s) => sessionOf before ≠ none ∧ lastState before ≠ some s
  | .event (.telemetry t) => sessionOf before ≠ none ∧ lastState before = some t.robotState
  | .event e => e.isReport = true → sessionOf before ≠ none
  | .sent dst packet =>
    sessionOf before = some dst ∧ IsControl packet ∨
      sessionOf before = none ∧ packet = .peerDiscovery {}
  | .transmitted dst _ _ _ => sessionOf before = some dst
  | _ => True

/-- The entries that have no part in a session. -/
def Entry.inert : Entry → Bool
  | .dropped _ _ _ | .queued _ _ _ | .acked _ _ | .discarded _ | .lost _ => true
  | _ => false

/-- Nothing of a session is there. -/
structure Fresh (w : Worker) : Prop where
  robotState : w.robotState = none
  seen : w.seen = []
  webcamFrames : w.webcamFrames = ∅
  webcamAvailable : w.webcamAvailable = false
  webcamPendingRequest : w.webcamPendingRequest = false

structure SessionInv (w : Worker) : Prop where
  law : Each SessionLaw w.log
  session : sessionOf w.log = w.peer
  state : lastState w.log = w.robotState
  fresh : w.peer = none → Fresh w

variable {env : Env} {good : Worker → Packet → Prop} {w w' : Worker} {log xs : List Entry}

section Histories

@[simp] theorem sessionOf_snoc (log : List Entry) (e : Entry) :
    sessionOf (log ++ [e]) = sessionStep (sessionOf log) e := by
  simp [sessionOf]

@[simp] theorem lastState_snoc (log : List Entry) (e : Entry) :
    lastState (log ++ [e]) = lastStateStep (lastState log) e := by
  simp [lastState]

theorem sessionOf_inert (hx : ∀ e ∈ xs, e.inert = true) : sessionOf (log ++ xs) = sessionOf log := by
  induction xs using List.reverseRecOn with
  | nil => rw [List.append_nil]
  | append_singleton xs e ih =>
    have he : e.inert = true := hx e (by simp)
    rw [← List.append_assoc,sessionOf_snoc,ih fun x h => hx x (by simp [h])]
    cases e <;> first | rfl | exact absurd he Bool.false_ne_true

theorem lastState_inert (hx : ∀ e ∈ xs, e.inert = true) : lastState (log ++ xs) = lastState log := by
  induction xs using List.reverseRecOn with
  | nil => rw [List.append_nil]
  | append_singleton xs e ih =>
    have he : e.inert = true := hx e (by simp)
    rw [← List.append_assoc,lastState_snoc,ih fun x h => hx x (by simp [h])]
    cases e <;> first | rfl | exact absurd he Bool.false_ne_true

theorem SessionLaw.inert {e : Entry} (he : e.inert = true) : SessionLaw log e := by
  cases e <;> trivial

theorem law_inert (h : Each SessionLaw log) (hx : ∀ e ∈ xs, e.inert = true) :
    Each SessionLaw (log ++ xs) :=
  h.append xs fun _ e _ heq => .inert (hx e (by simp [heq]))

end Histories

section Moves

/-- What a session is made of, besides the history. -/
def sessionFields (w : Worker) :
    Option SocketAddr × Option RobotState × List (String × Int64) × Frames × Bool × Bool :=
  (w.peer,w.robotState,w.seen,w.webcamFrames,w.webcamAvailable,w.webcamPendingRequest)

theorem Fresh.of_fields (h : Fresh w) (heq : sessionFields w' = sessionFields w) : Fresh w' := by
  simp only [sessionFields,Prod.mk.injEq] at heq
  obtain ⟨-,hs,hseen,hframes,hav,hpend⟩ := heq
  exact ⟨hs.trans h.robotState,hseen.trans h.seen,hframes.trans h.webcamFrames,
    hav.trans h.webcamAvailable,hpend.trans h.webcamPendingRequest⟩

theorem SessionInv.idle (h : SessionInv w) (xs : List Entry) (hx : ∀ e ∈ xs, e.inert = true)
    (hlog : w'.log = w.log ++ xs) (heq : sessionFields w' = sessionFields w) : SessionInv w' := by
  have hpeer : w'.peer = w.peer := congrArg Prod.fst heq
  have hstate : w'.robotState = w.robotState := congrArg (fun x => x.2.1) heq
  refine ⟨?_,?_,?_,fun hn => (h.fresh (hpeer ▸ hn)).of_fields heq⟩
  · rw [hlog]
    exact law_inert h.law hx
  · rw [hlog,sessionOf_inert hx,h.session,hpeer]
  · rw [hlog,lastState_inert hx,h.state,hstate]

/-- An entry that leaves the session as it is. -/
theorem SessionInv.note (h : SessionInv w) {e : Entry} (he : SessionLaw w.log e)
    (hs : sessionStep (sessionOf w.log) e = sessionOf w.log)
    (hl : lastStateStep (lastState w.log) e = lastState w.log) : SessionInv (w.note e) :=
  ⟨h.law.snoc he,(sessionOf_snoc _ e).trans (hs.trans h.session),
    (lastState_snoc _ e).trans (hl.trans h.state),fun hn => (h.fresh hn).of_fields rfl⟩

theorem evict_eq (w : Worker) :
    ∃ pending r xs, (∀ e ∈ xs, (∃ id name, e = Entry.dropped id name .capped) ∨
        ∃ id, e = .lost id ∧ w.receiver ≠ none) ∧
      w.evict = { w with pending := pending, receiver := r, log := w.log ++ xs } := by
  rcases evict_cases w with ⟨he,-⟩|⟨p,rest,e,r,-,-,-,rfl|⟨rfl,hr⟩,he⟩
  · exact ⟨w.pending,w.receiver,[],by simp,by simp [he]⟩
  · exact ⟨rest,r,_,by simp,he⟩
  · exact ⟨rest,r,_,by simp [hr],he⟩

/-- The log grows by entries that satisfy `P`. -/
def Writes (P : Entry → Prop) (w w' : Worker) : Prop := ∃ xs, w'.log = w.log ++ xs ∧ ∀ e ∈ xs, P e

/-- The entries of a command that is queued, and of the one that makes room for it. -/
def Entry.isQueueing : Entry → Bool
  | .queued _ _ _ | .dropped _ _ .capped | .lost _ => true
  | _ => false

section Writes

variable {P Q : Entry → Prop} {u : Worker}

theorem Writes.refl (P : Entry → Prop) (w : Worker) : Writes P w w :=
  ⟨[],(List.append_nil _).symm,by simp⟩

theorem Writes.trans (h : Writes P w w') (h' : Writes P w' u) : Writes P w u := by
  obtain ⟨xs,hxs,hx⟩ := h
  obtain ⟨ys,hys,hy⟩ := h'
  refine ⟨xs ++ ys,by rw [hys,hxs,List.append_assoc],fun e he => ?_⟩
  rcases List.mem_append.mp he with he|he
  · exact hx e he
  · exact hy e he

theorem Writes.mono (h : Writes P w w') (hPQ : ∀ e, P e → Q e) : Writes Q w w' := by
  obtain ⟨xs,hxs,hx⟩ := h
  exact ⟨xs,hxs,fun e he => hPQ e (hx e he)⟩

theorem writes_one {e : Entry} (he : P e) (hlog : w'.log = w.log ++ [e]) : Writes P w w' := by
  refine ⟨[e],hlog,fun x hx => ?_⟩
  rwa [List.mem_singleton.mp hx]

/-- An event goes into the log, or the receiver is gone. -/
theorem emit_writes {e : Entry} (he : P e) (hlog : u.log = w.log) :
    Ends (Writes P w) (Writes P w) (u.emit e) := by
  rcases emit_cases u e with ⟨r,-,hemit⟩|⟨-,hemit⟩
  · rw [hemit]
    exact writes_one he (by simp only [note,hlog])
  · rw [hemit]
    exact ⟨[],by rw [hlog,List.append_nil],by simp⟩

/-- With a live receiver no event is lost. -/
theorem push_writes (w : Worker) (origin : Origin) (c : Command) :
    Writes (fun e => e.isQueueing = true ∧ ∀ id, e = .lost id → w.receiver ≠ none) w
      (w.evict.push origin c) := by
  obtain ⟨pending,r,xs,hx,he⟩ := evict_eq w
  refine ⟨xs ++ [.queued w.queuedCount origin c],by simp [he,push],fun e hmem => ?_⟩
  rcases List.mem_append.mp hmem with hmem|hmem
  · rcases hx e hmem with ⟨id,name,rfl⟩|⟨id,rfl,hr⟩
    · exact ⟨rfl,by simp⟩
    · exact ⟨rfl,fun _ _ => hr⟩
  · rw [List.mem_singleton.mp hmem]
    exact ⟨rfl,by simp⟩

theorem retire_writes (w : Worker) (c : Command) :
    Writes (fun e => ∃ p ∈ w.pending, (p.command.name = c.name ∧ p.command.timestamp = c.timestamp) ∧
      e = .acked p.id c) w (w.retire c) := by
  refine ⟨_,rfl,fun e hmem => ?_⟩
  obtain ⟨p,hp,rfl⟩ := List.mem_map.mp hmem
  obtain ⟨hp,hnames⟩ := List.mem_filter.mp hp
  exact ⟨p,hp,of_decide_eq_true hnames,rfl⟩

end Writes

theorem SessionInv.queue (h : SessionInv w) (origin : Origin) (command : Command) :
    SessionInv (w.evict.push origin command) := by
  obtain ⟨xs,hxs,hx⟩ := push_writes w origin command
  refine h.idle xs (fun e hmem => ?_) hxs ?_
  · obtain ⟨hq,-⟩ := hx e hmem
    cases e <;> first | rfl | exact absurd hq Bool.false_ne_true
  · obtain ⟨pending,r,ys,-,he⟩ := evict_eq w
    rw [he]
    rfl

theorem SessionInv.retire (h : SessionInv w) (c : Command) : SessionInv (w.retire c) := by
  refine h.idle _ (fun e he => ?_) rfl rfl
  obtain ⟨p,-,rfl⟩ := List.mem_map.mp he
  rfl

theorem Event.isReport_law {e : Event} (he : e.isReport = true) (ht : ∀ t, e ≠ .telemetry t)
    (hs : sessionOf log ≠ none) : SessionLaw log (.event e) := by
  cases e <;> first | exact absurd he Bool.false_ne_true | exact absurd rfl (ht _) | exact fun _ => hs

theorem Event.isReport_step {e : Event} (he : e.isReport = true) (peer : Option SocketAddr)
    (state : Option RobotState) :
    sessionStep peer (.event e) = peer ∧ lastStateStep state (.event e) = state := by
  cases e <;> first | exact absurd he Bool.false_ne_true | exact ⟨rfl,rfl⟩

theorem Move.session (h : SessionInv w) (hm : Move env good w w') : SessionInv w' := by
  have hpeer : ∀ peer, w.peer = some peer → sessionOf w.log = some peer :=
    fun peer hp => h.session.trans hp
  cases hm with
  | book => exact h.idle [] (by simp) (by simp) rfl
  | notice text => exact h.note nofun rfl rfl
  | busy src hp => exact h.note (h.session.trans hp) rfl rfl
  | connect src hp =>
    refine ⟨h.law.snoc (h.session.trans hp),by simp [Worker.note,sessionStep],?_,nofun⟩
    simp [Worker.note,lastStateStep,(h.fresh hp).robotState]
  | disconnect peer hp =>
    have hx : ∀ e ∈ w.pending.map fun p => Entry.discarded p.id, e.inert = true := by
      intro e he
      obtain ⟨p,-,rfl⟩ := List.mem_map.mp he
      rfl
    refine ⟨(law_inert h.law hx).snoc ?_,?_,?_,fun _ => ⟨rfl,rfl,rfl,rfl,rfl⟩⟩
    · simp [SessionLaw,sessionOf_inert hx,hpeer peer hp]
    · exact sessionOf_snoc _ _
    · exact lastState_snoc _ _
  | robotState peer packet state hp hok hs hne =>
    refine ⟨h.law.snoc ⟨by simp [hpeer peer hp],h.state ▸ hne⟩,?_,?_,
      fun hn => absurd (hp.symm.trans hn) (Option.some_ne_none peer)⟩
    · simp [Worker.note,sessionStep,h.session]
    · simp [Worker.note,lastStateStep]
  | telemetry peer t hp ht => exact h.note ⟨by simp [hpeer peer hp],h.state.trans ht⟩ rfl rfl
  | report peer e hp he ht =>
    obtain ⟨hs,hl⟩ := e.isReport_step he (sessionOf w.log) (lastState w.log)
    exact h.note (e.isReport_law he ht (by simp [hpeer peer hp])) hs hl
  | discover dst hp => exact h.note (.inr ⟨h.session.trans hp,rfl⟩) rfl rfl
  | send peer packet hp hc => exact h.note (.inl ⟨hpeer peer hp,hc⟩) rfl rfl
  | accept peer c hp => exact ⟨h.law,h.session,h.state,fun hn => by simp [acceptKey,hp] at hn⟩
  | webcam available frames pendingRequest hkeep =>
    refine ⟨h.law,h.session,h.state,fun hn => ?_⟩
    obtain ⟨hav,hpend,hframes⟩ := hkeep hn
    have hf := h.fresh hn
    refine ⟨hf.robotState,hf.seen,?_,?_,?_⟩
    · rcases hframes with rfl|rfl
      · exact hf.webcamFrames
      · rfl
    · by_contra hc
      simpa [hf.webcamAvailable] using hav (by simpa using hc)
    · by_contra hc
      simpa [hf.webcamAvailable,hf.webcamPendingRequest] using hpend (by simpa using hc)
  | queue origin command => exact h.queue origin command
  | ack peer c => exact h.retire c
  | restart peer c command => exact (h.retire c).queue .worker command
  | transmit peer before after p reads hp =>
    have hi : SessionInv { w with
        pending := before ++ p.sentAt (env.clock reads) :: after
        clockReads := reads+1, seq := w.seq+1 } := h.idle [] (by simp) (by simp) rfl
    exact hi.note (hpeer peer hp) rfl rfl
  | expire peer before after p =>
    exact h.idle [.dropped p.id p.command.name .exhausted] (by simp [Entry.inert]) rfl rfl

end Moves

section FirstReport

theorem Move.grows (hm : Move env good w w') : w.log <+: w'.log := by
  cases hm with
  | disconnect =>
    exact (List.prefix_append _ _).trans (List.prefix_append _ _)
  | queue origin command =>
    obtain ⟨pending,r,xs,-,he⟩ := evict_eq w
    rw [he]
    exact (List.prefix_append _ _).trans (List.prefix_append _ _)
  | restart peer c command =>
    obtain ⟨pending,r,xs,-,he⟩ := evict_eq (w.retire c)
    rw [he]
    exact ((List.prefix_append _ _).trans (List.prefix_append _ _)).trans (List.prefix_append _ _)
  | book => exact List.prefix_rfl
  | accept => exact List.prefix_rfl
  | webcam => exact List.prefix_rfl
  | _ => exact List.prefix_append _ _

theorem Moves.grows (h : Moves env good w w') : w.log <+: w'.log := by
  induction h with
  | refl => exact List.prefix_rfl
  | tail _ hm ih => exact ih.trans hm.grows

theorem Follows.grows {r : Except Worker Worker} (h : Follows env good w r) :
    Ends (fun v => w.log <+: v.log) (fun v => w.log <+: v.log) r := by
  refine Ends.mono h (fun v hv => Moves.grows hv) ?_
  rintro v ⟨u,hu,hlog|hlog,-⟩
  · exact hlog ▸ Moves.grows hu
  · exact hlog ▸ (Moves.grows hu).trans (List.prefix_append _ _)

/-- Only a packet that reports a robot state sets one. -/
theorem Move.silent (h : w.robotState = none) (hgood : ∀ v p, good v p → robotStateOf p = none)
    (hm : Move env good w w') : w'.robotState = none := by
  cases hm with
  | robotState peer packet state hp hok hs =>
    exact absurd (hs.symm.trans (hgood w packet hok)) (Option.some_ne_none state)
  | disconnect => rfl
  | queue origin command => exact (evict_robotState w).trans h
  | restart peer c command => exact (evict_robotState _).trans h
  | _ => exact h

theorem updateRobotState_reports (w : Worker) (state : RobotState) (h : w.robotState = none) :
    Ends (fun u => w.log ++ [.event (.robotState state)] <+: u.log)
      (fun _ => w.receiver = some 0) (w.updateRobotState state) := by
  have hne : w.robotState ≠ some state := by simp [h]
  rw [updateRobotState,if_neg hne,send]
  rcases emit_cases { w with robotState := some state } (.event (.robotState state)) with
    ⟨r,-,hemit⟩|⟨hr,hemit⟩
  · rw [hemit]
    exact List.prefix_rfl
  · rw [hemit]
    exact hr

theorem dispatch_reports (w : Worker) (packet : Packet) (src : SocketAddr) (state : RobotState)
    (hs : robotStateOf packet = some state) (h : w.robotState = none) :
    Ends (fun u => w.log ++ [.event (.robotState state)] <+: u.log)
      (fun u => w.log ++ [.event (.robotState state)] <+: u.log ∨ w.receiver = some 0)
      (w.dispatch env packet src) := by
  cases packet with
  | heartbeat hb =>
    obtain rfl := Option.some.inj hs
    exact (updateRobotState_reports w _ h).mono (fun _ hu => hu) fun _ hu => .inr hu
  | telemetry t =>
    obtain rfl := Option.some.inj hs
    refine Ends.bind ((updateRobotState_reports w _ h).mono (fun _ hu => hu) fun _ hu => .inr hu)
      fun u hu => ?_
    rcases emit_cases u (.event (.telemetry t)) with ⟨r,-,hemit⟩|⟨-,hemit⟩
    · rw [send,hemit]
      exact hu.trans (List.prefix_append _ _)
    · rw [send,hemit]
      exact .inl hu
  | peerDiscovery => exact absurd hs.symm (Option.some_ne_none state)
  | gamepad => exact absurd hs.symm (Option.some_ne_none state)
  | keepAlive => exact absurd hs.symm (Option.some_ne_none state)
  | command => exact absurd hs.symm (Option.some_ne_none state)

/-- After any run in which no packet reported a robot state, the first one that does yields its
event; it does not only where the receiver is gone. -/
def FirstReport (env : Env) (w : Worker) : Prop :=
  ∀ js w' i v packet state, run env w js = .ok w' →
    Along (step env) (Offers env fun _ p => robotStateOf p = none) w js →
    Dispatches env w' i v packet → robotStateOf packet = some state →
    w'.log <+: v.log ∧ Ends (fun u => v.log ++ [.event (.robotState state)] <+: u.log)
      (fun u => v.log ++ [.event (.robotState state)] <+: u.log ∨ v.receiver = some 0)
      (step env w' i)

theorem step_reports (w v : Worker) (i : Input) (packet : Packet) (state : RobotState)
    (hv : Dispatches env w i v packet) (hs : robotStateOf packet = some state)
    (h : w.robotState = none) :
    w.log <+: v.log ∧ Ends (fun u => v.log ++ [.event (.robotState state)] <+: u.log)
      (fun u => v.log ++ [.event (.robotState state)] <+: u.log ∨ v.receiver = some 0)
      (step env w i) := by
  obtain ⟨data,src,rfl,hin⟩ := hv
  have hadmit : Ends (Admitted env (fun _ _ => False) w src) (Stopped env (fun _ _ => False) w)
      (w.intake env data src) := intake_ends w data src
  rw [hin] at hadmit
  have hmoves : Moves env (fun _ _ => False) w v := hadmit.1
  have hsilent : v.robotState = none := by
    clear hin hadmit
    induction hmoves with
    | refl => exact h
    | tail _ hm ih => exact hm.silent ih fun _ _ hf => hf.elim
  refine ⟨hmoves.grows,?_⟩
  have hreceive : receive env w (.datagram data src) = v.dispatch env packet src := by
    simp only [receive,handleDatagram,hin]
    rfl
  simp only [step,socketStep,hreceive]
  refine Ends.bind (dispatch_reports v packet src state hs hsilent) fun u hu => ?_
  have htail : Follows env (fun _ _ => True) u (do
      let w ← checkTimeout env u
      ((beat env w).webcamTimers env).retransmitPending env) :=
    Follows.bind (checkTimeout_follows u) fun x _ =>
      Follows.trans ((beat_moves x).trans (webcamTimers_moves _)) (retransmitPending_follows _)
  exact htail.grows.mono (fun x hx => hu.trans hx) fun x hx => .inl (hu.trans hx)

theorem firstReport (w : Worker) (h : w.robotState = none) : FirstReport env w := by
  intro js w' i v packet state hrun hquiet hv hs
  have hkeep (v v' : Worker) (hv : v.robotState = none)
      (hm : Move env (fun _ p => robotStateOf p = none) v v') : v'.robotState = none :=
    hm.silent hv fun _ _ hp => hp
  have hsilent := run_invariant hkeep w js h hquiet
  rw [hrun] at hsilent
  exact step_reports w' v i packet state hv hs hsilent

end FirstReport

theorem start_session (env : Env) (receiver : Option ℕ) : SessionInv (start env receiver) :=
  ⟨each_nil,rfl,rfl,fun _ => ⟨rfl,rfl,rfl,rfl,rfl⟩⟩

/-- Every run is a sequence of sessions, each of them with the peer its connected event names,
and a session starts with nothing of the one before. -/
theorem session_discipline (env : Env) (receiver : Option ℕ) (inputs : List Input) :
    Ends (fun w => SessionInv w ∧ (w.peer = none → FirstReport env w))
      (fun w => Each SessionLaw w.log) (run env (start env receiver) inputs) := by
  have hall : Along (step env) (Offers env fun _ _ => True) (start env receiver) inputs :=
    Along.of_forall (fun _ _ _ _ _ => trivial) _ inputs
  refine (run_invariant (fun _ _ hw hm => Move.session hw hm) _ inputs (start_session env receiver)
    hall).mono (fun w hw => ⟨hw,fun hn => firstReport w (hw.fresh hn).robotState⟩) ?_
  rintro w ⟨v,hv,hlog|hlog,-⟩
  · exact hlog ▸ hv.law
  · refine hlog ▸ law_inert hv.law fun e he => ?_
    obtain ⟨p,-,rfl⟩ := List.mem_map.mp he
    rfl

end Client
end Robocol
