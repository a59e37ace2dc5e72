import Robocol.Notifications

/-! Silence: a worker that was told to disconnect, or found its peer busy, neither sends nor
reports anything until it is told to connect again. -/
namespace Robocol
namespace Client

open Cmd Runs Relation Worker

/-- What a silent worker may still write: that a command was queued, that the queue overflowed,
and that the socket failed. -/
inductive Silent (inputs : List Input) : Entry → Prop
  | queued (id : ℕ) (origin : Origin) (c : Command) : Silent inputs (.queued id origin c)
  | overflow (id : ℕ) (name : String) : Silent inputs (.dropped id name .capped)
  | lost (id : ℕ) : Silent inputs (.lost id)
  | failed (error : String) (h : .socket (.failed error) ∈ inputs) :
      Silent inputs (.event (.protocolError s!"socket recv failed: {error}"))

/-- Neither connected nor looking for a peer. -/
structure Paused (w : Worker) : Prop where
  peer : w.peer = none
  discovering : w.discovering = false
  webcamAvailable : w.webcamAvailable = false
  webcamPendingRequest : w.webcamPendingRequest = false

def Entry.isBusy : Entry → Bool
  | .event (.peerBusy _) => true
  | _ => false

/-- Behind the first refusal there is silence. -/
def Hushed (inputs : List Input) (xs : List Entry) : Prop :=
  (∀ e ∈ xs, e.isBusy = false) ∨ ∃ before src after,
    xs = before ++ .event (.peerBusy src) :: after ∧ (∀ e ∈ before, e.isBusy = false) ∧
      ∀ e ∈ after, Silent inputs e

variable {env : Env} {w w' : Worker} {inputs : List Input} {xs ys : List Entry}

section Entries

theorem Silent.of_isQueueing {e : Entry} (h : e.isQueueing = true) : Silent inputs e := by
  cases e with
  | queued id origin c => exact .queued id origin c
  | lost id => exact .lost id
  | dropped id name cause =>
    cases cause with
    | capped => exact .overflow id name
    | exhausted => exact absurd h Bool.false_ne_true
  | _ => exact absurd h Bool.false_ne_true

theorem Silent.isBusy {e : Entry} (h : Silent inputs e) : e.isBusy = false := by
  cases h <;> rfl

theorem Silent.mono {e : Entry} {more : List Input} (h : Silent inputs e) (hsub : inputs ⊆ more) :
    Silent more e := by
  cases h with
  | queued id origin c => exact .queued id origin c
  | overflow id name => exact .overflow id name
  | lost id => exact .lost id
  | failed error h => exact .failed error (hsub h)

theorem Entry.isBusy_of_closes {e : Entry} (h : e.closes = false) : e.isBusy = false := by
  cases e with
  | event e => cases e <;> first | rfl | exact h
  | _ => rfl

theorem Hushed.quiet (h : ∀ e ∈ ys, e.isBusy = false) (hx : ∀ e ∈ xs, e.isBusy = false) :
    Hushed inputs (xs ++ ys) := by
  refine .inl fun e he => ?_
  rcases List.mem_append.mp he with he|he
  · exact hx e he
  · exact h e he

theorem Hushed.silent (h : Hushed inputs xs) (hy : ∀ e ∈ ys, Silent inputs e) :
    Hushed inputs (xs ++ ys) := by
  rcases h with hx|⟨before,src,after,rfl,hb,ha⟩
  · exact .quiet (fun e he => (hy e he).isBusy) hx
  · refine .inr ⟨before,src,after ++ ys,by simp,hb,fun e he => ?_⟩
    rcases List.mem_append.mp he with he|he
    · exact ha e he
    · exact hy e he

theorem Hushed.behind {before after : List Entry} {src : SocketAddr} (h : Hushed inputs xs)
    (hxs : xs = before ++ .event (.peerBusy src) :: after) : ∀ e ∈ after, Silent inputs e := by
  rcases h with hnone|⟨before',src',after',hfirst,hb,ha⟩
  · have hbusy : (Entry.event (.peerBusy src)).isBusy = false := hnone _ (by simp [hxs])
    exact absurd hbusy.symm Bool.false_ne_true
  · rcases List.append_eq_append_iff.mp (hfirst.symm.trans hxs) with ⟨zs,-,hz⟩|⟨zs,hz,htail⟩
    · cases zs with
      | nil =>
        obtain ⟨-,rfl⟩ := List.cons.inj hz
        exact ha
      | cons z zs =>
        obtain ⟨-,rfl⟩ := List.cons.inj hz
        exact fun e he => ha e (by simp [he])
    · cases zs with
      | nil =>
        obtain ⟨-,rfl⟩ := List.cons.inj htail
        exact ha
      | cons z zs =>
        obtain ⟨rfl,-⟩ := List.cons.inj htail
        have hbusy : (Entry.event (.peerBusy src)).isBusy = false := hb _ (by simp [hz])
        exact absurd hbusy.symm Bool.false_ne_true

end Entries

section Pauses

/-- In a pause the rest of a pass does no more than read the clock. -/
theorem windUp_paused (hw : Paused w) :
    ∃ v, windUp env w = .ok v ∧ Paused v ∧ v.log = w.log := by
  obtain ⟨hpeer,hdiscovering,havailable,hpending⟩ := hw
  have hcheck : checkTimeout env w = .ok w := by simp [checkTimeout,hpeer]
  obtain ⟨n,hbeat⟩ : ∃ n t, beat env w = { w with clockReads := w.clockReads+n, lastBeat := t } := by
    obtain ⟨n,hdue⟩ := isDue_eq env w w.lastBeat env.cfg.heartbeatInterval
    simp only [beat,hdue]
    split
    · exact ⟨n+1,some (env.clock (w.clockReads+n)),by simp [tick,now,hpeer,hdiscovering,Nat.add_assoc]⟩
    · exact ⟨n,w.lastBeat,rfl⟩
  obtain ⟨t,hbeat⟩ := hbeat
  refine ⟨beat env w,?_,?_,by rw [hbeat]⟩
  · rw [windUp,hcheck]
    show ((beat env w).webcamTimers env).retransmitPending env = .ok (beat env w)
    rw [hbeat]
    simp [webcamTimers,retransmitPending,hpeer,havailable,hpending]
  · rw [hbeat]
    exact ⟨hpeer,hdiscovering,havailable,hpending⟩

theorem queueCommand_paused (hw : Paused w) (origin : Origin) (c : Command) :
    Paused (w.queueCommand env origin c) := by
  obtain ⟨n,d,hstamp,-⟩ := stamp_eq env w c
  obtain ⟨pending,r,xs,-,hevict⟩ := evict_eq { w with wallReads := w.wallReads+n }
  simp only [queueCommand,hstamp,hevict,push]
  exact ⟨hw.peer,hw.discovering,hw.webcamAvailable,hw.webcamPendingRequest⟩

theorem receive_paused (hw : Paused w) (r : Received) :
    Ends (fun v => Paused v ∧ Writes (Silent [.socket r]) w v) (Writes (Silent [.socket r]) w)
      (receive env w r) := by
  cases r with
  | timedOut => exact ⟨hw,.refl _ w⟩
  | datagram data src =>
    have hdone : w.intake env data src = .ok (.done w) := by
      simp [intake,hw.peer,hw.discovering]
    simp only [receive,handleDatagram,hdone]
    exact ⟨hw,.refl _ w⟩
  | failed error =>
    have hfailed : Silent [.socket (.failed error)]
        (.event (.protocolError s!"socket recv failed: {error}")) := .failed error (by simp)
    rw [receive,send]
    rcases emit_cases w (.event (.protocolError s!"socket recv failed: {error}")) with
      ⟨r,-,hemit⟩|⟨-,hemit⟩
    · rw [hemit]
      exact ⟨⟨hw.peer,hw.discovering,hw.webcamAvailable,hw.webcamPendingRequest⟩,
        writes_one hfailed rfl⟩
    · rw [hemit]
      exact .refl _ w

theorem step_paused (hw : Paused w) (i : Input) (hi : i ≠ .control .connect) :
    Ends (fun v => Paused v ∧ Writes (Silent [i]) w v) (Writes (Silent [i]) w) (step env w i) := by
  cases i with
  | socket r =>
    refine Ends.bind (receive_paused hw r) fun v hv => ?_
    obtain ⟨u,hrun,hu,hlog⟩ : ∃ u, windUp env v = .ok u ∧ Paused u ∧ u.log = v.log :=
      windUp_paused hv.1
    show Ends _ _ (windUp env v)
    rw [hrun]
    refine ⟨hu,?_⟩
    rw [Writes,hlog]
    exact hv.2
  | control c =>
    cases c with
    | connect => exact absurd rfl hi
    | shutdown => exact .refl _ w
    | sendCommand command =>
      exact ⟨queueCommand_paused hw .client command,
        (queueCommand_writes w .client command).mono fun _ => Silent.of_isQueueing⟩
    | sendGamepad gamepad =>
      simp only [step,controlStep,transmitGamepad,hw.peer]
      exact ⟨hw,.refl _ w⟩
    | disconnect =>
      simp only [step,controlStep,hw.peer]
      exact ⟨⟨rfl,rfl,hw.webcamAvailable,hw.webcamPendingRequest⟩,.refl _ _⟩

end Pauses

section Refusals

theorem dropPeer_hushes (v : Worker) (hv : v.log = w.log) :
    Ends (Writes (fun e => e.isBusy = false) w) (Writes (fun e => e.isBusy = false) w)
      (v.dropPeer.send .disconnected) := by
  have hdiscard : Writes (fun e => e.isBusy = false) w v.dropPeer := by
    refine ⟨v.pending.map fun p => .discarded p.id,by simp [dropPeer,hv],fun e he => ?_⟩
    obtain ⟨p,-,rfl⟩ := List.mem_map.mp he
    rfl
  have hsend : Ends (Writes (fun e => e.isBusy = false) v.dropPeer)
      (Writes (fun e => e.isBusy = false) v.dropPeer) (v.dropPeer.send .disconnected) :=
    emit_writes rfl rfl
  exact hsend.mono (fun _ h => hdiscard.trans h) fun _ h => hdiscard.trans h

theorem windUp_writes (w : Worker) :
    Ends (Writes (fun e => e.isBusy = false) w) (Writes (fun e => e.isBusy = false) w) (windUp env w) := by
  have hcheck : Ends (Writes (fun e => e.isBusy = false) w) (Writes (fun e => e.isBusy = false) w)
      (checkTimeout env w) := by
    exact .ite (fun _ => .ite (fun _ => dropPeer_hushes { w with clockReads := w.clockReads+1 } rfl)
      fun _ => .refl _ w) fun _ => .refl _ w
  refine Ends.bind hcheck fun v hv => ?_
  have hunmarked {u u' : Worker} (h : Unmarked u u') : Writes (fun e => e.isBusy = false) u u' :=
    h.mono fun _ he => Entry.isBusy_of_closes (Entry.isMark_closes he)
  exact (timers_unmarked v).mono (fun _ h => hv.trans (hunmarked h)) fun _ h => hv.trans (hunmarked h)

theorem receive_hushes (hw : SessionInv w) (r : Received) :
    Ends (fun v => Writes (fun e => e.isBusy = false) w v ∨
        ∃ src, v.log = w.log ++ [.event (.peerBusy src)] ∧ Paused v)
      (Writes (fun e => e.isBusy = false) w) (receive env w r) := by
  cases r with
  | timedOut => exact .inl (.refl _ w)
  | failed error =>
    have hsend : Ends (Writes (fun e => e.isBusy = false) w) (Writes (fun e => e.isBusy = false) w)
        (w.send (.protocolError s!"socket recv failed: {error}")) := emit_writes rfl rfl
    exact hsend.mono (fun _ h => .inl h) fun _ h => h
  | datagram data src =>
    have hclosed {v : Worker} (h : Writes (fun e => e.closes = false) w v) :
        Writes (fun e => e.isBusy = false) w v := h.mono fun _ => Entry.isBusy_of_closes
    refine Ends.bind ((intake_admits env w data src).mono (fun _ h => h) fun _ h => hclosed h)
      fun intake hin => ?_
    cases intake with
    | done v =>
      rcases hin with hwrites|⟨u,hu,hbusy⟩
      · exact .inl (hclosed hwrites)
      · obtain rfl : v = u := by simpa using hu
        have hfresh := hw.fresh hbusy.before
        exact .inr ⟨src,hbusy.log,hbusy.peer,hbusy.discovering,
          hbusy.webcamAvailable.trans hfresh.webcamAvailable,
          hbusy.webcamPendingRequest.trans hfresh.webcamPendingRequest⟩
    | packet p v =>
      rcases hin with hwrites|⟨u,hu,-⟩
      · have hmark {u : Worker} (h : Unmarked v u) : Writes (fun e => e.isBusy = false) w u :=
          (hclosed hwrites).trans (h.mono fun _ he => Entry.isBusy_of_closes (Entry.isMark_closes he))
        exact (dispatch_unmarked env v p src).mono (fun _ h => .inl (hmark h)) fun _ h => hmark h
      · cases hu

theorem controlStep_hushes (w : Worker) (c : Control) :
    Ends (Writes (fun e => e.isBusy = false) w) (Writes (fun e => e.isBusy = false) w)
      (controlStep env w c) := by
  cases c with
  | shutdown => exact .refl _ w
  | connect => exact .refl _ w
  | sendCommand command =>
    exact (queueCommand_writes w .client command).mono fun e he => by cases e <;> first | rfl | cases he
  | sendGamepad gamepad =>
    cases hp : w.peer with
    | none =>
      simp only [controlStep,transmitGamepad,hp]
      exact .refl _ w
    | some peer =>
      simp only [controlStep,transmitGamepad,hp,nextSeq]
      split <;> exact writes_one rfl rfl
  | disconnect =>
    refine .ite (fun _ => ?_) fun _ => .refl _ w
    exact dropPeer_hushes { w with discovering := false } rfl

/-- A step refuses nobody, or its refusal is the last thing it writes and begins a pause. -/
theorem step_hushes (hw : SessionInv w) (i : Input) :
    Ends (fun v => Writes (fun e => e.isBusy = false) w v ∨
        ∃ src, v.log = w.log ++ [.event (.peerBusy src)] ∧ Paused v)
      (Writes (fun e => e.isBusy = false) w) (step env w i) := by
  cases i with
  | control c => exact (controlStep_hushes w c).mono (fun _ h => .inl h) fun _ h => h
  | socket r =>
    refine Ends.bind (receive_hushes hw r) fun v hv => ?_
    show Ends _ _ (windUp env v)
    rcases hv with hwrites|⟨src,hlog,hpaused⟩
    · exact (windUp_writes v).mono (fun _ h => .inl (hwrites.trans h)) fun _ h => hwrites.trans h
    · obtain ⟨u,hrun,hu,hsame⟩ : ∃ u, windUp env v = .ok u ∧ Paused u ∧ u.log = v.log :=
        windUp_paused hpaused
      rw [hrun]
      exact .inr ⟨src,hsame.trans hlog,hu⟩

end Refusals

section Runs

/-- What was written since `w` is hushed, and a refusal among it has begun a pause. -/
structure Quieted (inputs : List Input) (w v : Worker) : Prop where
  inv : SessionInv v
  log : ∃ xs, v.log = w.log ++ xs ∧ Hushed inputs xs ∧ ((∃ e ∈ xs, e.isBusy = true) → Paused v)

theorem step_quieted {v : Worker} (hv : Quieted inputs w v) (i : Input) (hmem : i ∈ inputs)
    (hi : i ≠ .control .connect) :
    Ends (Quieted inputs w) (fun u => ∃ xs, u.log = w.log ++ xs ∧ Hushed inputs xs) (step env v i) := by
  have hinv : Ends SessionInv (fun _ => True) (step env v i) := by
    have hfollows : Follows env (fun _ _ => True) v (step env v i) :=
      step_follows v i fun _ _ _ => trivial
    exact hfollows.mono (fun _ h => Moves.sessionInv h hv.inv) fun _ _ => trivial
  obtain ⟨xs,hxs,hhushed,hpaused⟩ := hv.log
  by_cases hbusy : ∃ e ∈ xs, e.isBusy = true
  · have hmore {ys : List Entry} (hy : ∀ e ∈ ys, Silent [i] e) : Hushed inputs (xs ++ ys) :=
      hhushed.silent fun e he => (hy e he).mono fun j hj => by simpa [List.mem_singleton.mp hj] using hmem
    refine ((step_paused (hpaused hbusy) i hi).and hinv).mono ?_ ?_
    · rintro u ⟨⟨hu,ys,hys,hy⟩,hsession⟩
      exact ⟨hsession,xs ++ ys,by rw [hys,hxs,List.append_assoc],hmore hy,fun _ => hu⟩
    · rintro u ⟨⟨ys,hys,hy⟩,-⟩
      exact ⟨xs ++ ys,by rw [hys,hxs,List.append_assoc],hmore hy⟩
  · have hnone : ∀ e ∈ xs, e.isBusy = false := by
      intro e he
      by_contra h
      exact hbusy ⟨e,he,by simpa using h⟩
    refine ((step_hushes hv.inv i).and hinv).mono ?_ ?_
    · rintro u ⟨⟨ys,hys,hy⟩|⟨src,hlog,hu⟩,hsession⟩
      · refine ⟨hsession,xs ++ ys,by rw [hys,hxs,List.append_assoc],.quiet hy hnone,?_⟩
        rintro ⟨e,he,hb⟩
        rcases List.mem_append.mp he with he|he
        · exact absurd ⟨e,he,hb⟩ hbusy
        · exact absurd ((hy e he).symm.trans hb) Bool.false_ne_true
      · exact ⟨hsession,xs ++ [.event (.peerBusy src)],by rw [hlog,hxs,List.append_assoc],
          .inr ⟨xs,src,[],rfl,hnone,by simp⟩,fun _ => hu⟩
    · rintro u ⟨⟨ys,hys,hy⟩,-⟩
      exact ⟨xs ++ ys,by rw [hys,hxs,List.append_assoc],.quiet hy hnone⟩

/-- A run without a connect: silent from the start if it is paused there, else behind its first
refusal. -/
theorem run_quieted (env : Env) (hw : SessionInv w) (hconnect : .control .connect ∉ inputs) :
    ∃ xs, (final (run env w inputs)).log = w.log ++ xs ∧ Hushed inputs xs := by
  have hrun : Ends (Quieted inputs w) (fun u => ∃ xs, u.log = w.log ++ xs ∧ Hushed inputs xs)
      (run env w inputs) :=
    run_ends (fun v i hv hi => step_quieted hv i hi.1 hi.2) w inputs
      ⟨hw,[],(List.append_nil _).symm,.inl (by simp),by simp⟩
      (Along.of_mem (P := fun _ i => i ∈ inputs ∧ i ≠ .control .connect)
        (fun i hi _ => ⟨hi,fun h => hconnect (h ▸ hi)⟩) w)
  refine hrun.at_final (fun v hv => ?_) fun _ h => h
  obtain ⟨xs,hxs,hx,-⟩ := hv.log
  exact ⟨xs,hxs,hx⟩

theorem run_paused (env : Env) (hw : Paused w) (hconnect : .control .connect ∉ inputs) :
    Writes (Silent inputs) w (final (run env w inputs)) := by
  have hstep (v : Worker) (i : Input) (hv : Paused v ∧ Writes (Silent inputs) w v)
      (hi : i ∈ inputs ∧ i ≠ .control .connect) :
      Ends (fun v => Paused v ∧ Writes (Silent inputs) w v) (Writes (Silent inputs) w) (step env v i) := by
    have hmore {u : Worker} (h : Writes (Silent [i]) v u) : Writes (Silent inputs) w u :=
      hv.2.trans (h.mono fun e he => he.mono fun j hj => by simpa [List.mem_singleton.mp hj] using hi.1)
    exact (step_paused hv.1 i hi.2).mono (fun _ h => ⟨h.1,hmore h.2⟩) fun _ h => hmore h
  have hrun : Ends (fun v => Paused v ∧ Writes (Silent inputs) w v) (Writes (Silent inputs) w)
      (run env w inputs) :=
    run_ends hstep w inputs ⟨hw,.refl _ w⟩
      (Along.of_mem (fun i hi _ => ⟨hi,fun h => hconnect (h ▸ hi)⟩) w)
  exact hrun.at_final (fun _ h => h.2) fun _ h => h

theorem disconnect_pauses (env : Env) (hw : SessionInv w) :
    ∃ xs, xs <+: (w.pending.map fun p => .discarded p.id) ++ [.event .disconnected] ∧
      Ends (fun v => v.log = w.log ++ xs ∧ Paused v) (fun v => v.log = w.log ++ xs)
        (step env w (.control .disconnect)) := by
  cases hp : w.peer with
  | none =>
    have hfresh := hw.fresh hp
    refine ⟨[],List.nil_prefix,?_⟩
    simp only [step,controlStep,hp]
    exact ⟨(List.append_nil _).symm,rfl,rfl,hfresh.webcamAvailable,hfresh.webcamPendingRequest⟩
  | some peer =>
    simp only [step,controlStep,hp,Option.isSome_some,if_true,send]
    rcases emit_cases { w with peer := some peer, discovering := false }.dropPeer (.event .disconnected)
      with ⟨r,-,hemit⟩|⟨-,hemit⟩
    · rw [hemit]
      exact ⟨_,List.prefix_rfl,by simp [note,dropPeer],rfl,rfl,rfl,rfl⟩
    · rw [hemit]
      exact ⟨_,List.prefix_append _ _,rfl⟩

/-- Whatever came before, and whatever comes in but a connect: behind a disconnect nothing is
written but what closes the session and what a silent worker may write, and so it is behind
every refusal. -/
theorem silent_until_connect (env : Env) (receiver : Option ℕ) (earlier : List Input) (w : Worker)
    (h : run env (start env receiver) earlier = .ok w) (inputs : List Input)
    (hconnect : .control .connect ∉ inputs) :
    (∃ closing xs, (final (run env w (.control .disconnect :: inputs))).log = w.log ++ closing ++ xs ∧
      closing <+: (w.pending.map fun p => .discarded p.id) ++ [.event .disconnected] ∧
      ∀ e ∈ xs, Silent inputs e) ∧
    ∃ xs, (final (run env w inputs)).log = w.log ++ xs ∧
      ∀ before src after, xs = before ++ .event (.peerBusy src) :: after →
        ∀ e ∈ after, Silent inputs e := by
  have hinv : SessionInv w := by
    have hsession := session_discipline env receiver earlier
    rw [h] at hsession
    exact hsession.1
  constructor
  · obtain ⟨closing,hclosing,hstep⟩ := disconnect_pauses env hinv
    rw [run,List.foldlM_cons]
    cases hr : step env w (.control .disconnect) with
    | error v =>
      rw [hr] at hstep
      exact ⟨closing,[],by rw [List.append_nil]; exact hstep,hclosing,by simp⟩
    | ok v =>
      rw [hr] at hstep
      obtain ⟨hlog,hpaused⟩ := hstep
      obtain ⟨xs,hxs,hx⟩ := run_paused env hpaused hconnect
      exact ⟨closing,xs,by rw [← hlog]; exact hxs,hclosing,hx⟩
  · obtain ⟨xs,hxs,hhushed⟩ := run_quieted env hinv hconnect
    exact ⟨xs,hxs,fun before src after hcut => hhushed.behind hcut⟩

/-- The robot still talks, and the user still queues. -/
def ignored : List Input :=
  [fromRobot (.keepAlive {}),.control (.sendCommand (Command.new INIT_OP_MODE "A" 7)),
    .socket .timedOut,.socket (.failed "closed")]

theorem ignored_in_silence :
    let w := final (run sampleEnv (start sampleEnv none) [fromRobot (.keepAlive {})])
    w.pending ≠ [] ∧
      ∃ closing xs, (final (run sampleEnv w (.control .disconnect :: ignored))).log =
          w.log ++ closing ++ xs ∧
        closing <+: (w.pending.map fun p => .discarded p.id) ++ [.event .disconnected] ∧
        ∀ e ∈ xs, Silent ignored e := by
  have hok : (run sampleEnv (start sampleEnv none) [fromRobot (.keepAlive {})]).isOk = true := by
    decide +kernel
  exact ⟨by decide +kernel,
    (silent_until_connect sampleEnv none _ _ (ok_final hok) ignored (by decide +kernel)).1⟩

end Runs

end Client
end Robocol
