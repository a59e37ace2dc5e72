import Robocol.Notifications

/-! The pace of the webcam requests. A worker asks for a frame on four occasions, and all
of them go through one function, so a run is a sequence of requests between which the
worker does what leaves the time of the last one alone. -/
namespace Robocol
namespace Client

open Cmd Runs Worker

/-- The entry of a frame request that the worker queued by itself. -/
def Entry.isFrameRequest : Entry → Bool
  | .queued _ .worker command => command.name == REQUEST_FRAME
  | _ => false

/-- The clock may have been read, and no frame was asked for. -/
structure Quiet (w w' : Worker) : Prop where
  last : w'.lastWebcamRequest = w.lastWebcamRequest
  clock : w.clockReads ≤ w'.clockReads
  writes : Writes (fun e => e.isFrameRequest = false) w w'

/-- What a worker knows of the stream is as it was. -/
structure Calm (w w' : Worker) : Prop extends Quiet w w' where
  peer : w'.peer = w.peer
  available : w'.webcamAvailable = w.webcamAvailable
  pendingRequest : w'.webcamPendingRequest = w.webcamPendingRequest

/-- The worker asks for a frame: of the stream of a peer, and not too soon. -/
structure Asks (env : Env) (w : Worker) (_ : Unit) (w' : Worker) : Prop where
  peer : w.peer ≠ none
  available : w.webcamAvailable = true
  due : ∀ t, w.lastWebcamRequest = some t → t+env.cfg.webcamMinFrameInterval ≤ env.clock w.clockReads
  sends : w' = w.sendWebcamRequest env

/-- A deferred request needs a stream, a stream needs a peer and a request, and the last
request lies in the past. -/
structure WebcamInv (env : Env) (w : Worker) : Prop where
  pendingRequest : w.webcamPendingRequest = true → w.webcamAvailable = true
  peer : w.webcamAvailable = true → w.peer ≠ none
  last : w.webcamAvailable = true → w.lastWebcamRequest ≠ none
  past : ∀ t, w.lastWebcamRequest = some t → t ≤ env.clock w.clockReads

/-- From a worker with the invariant to one with it, by requests that keep the pace. -/
def Goes (env : Env) (w w' : Worker) : Prop :=
  WebcamInv env w → WebcamInv env w' ∧ ∃ hs, Feed Quiet (Asks env) w hs w'

variable {env : Env} {w w' u : Worker} {src : SocketAddr}

section Relations

theorem Quiet.refl (w : Worker) : Quiet w w := ⟨rfl,le_rfl,.refl _ w⟩

theorem Quiet.trans (h : Quiet w w') (h' : Quiet w' u) : Quiet w u :=
  ⟨h'.last.trans h.last,h.clock.trans h'.clock,h.writes.trans h'.writes⟩

theorem Calm.refl (w : Worker) : Calm w w := ⟨.refl w,rfl,rfl,rfl⟩

theorem Calm.trans (h : Calm w w') (h' : Calm w' u) : Calm w u :=
  ⟨h.toQuiet.trans h'.toQuiet,h'.peer.trans h.peer,h'.available.trans h.available,
    h'.pendingRequest.trans h.pendingRequest⟩

theorem Goes.refl (w : Worker) : Goes env w w := fun hw => ⟨hw,[],.start w⟩

theorem Goes.trans (h : Goes env w w') (h' : Goes env w' u) : Goes env w u := by
  intro hw
  obtain ⟨hw',hs,hfeed⟩ := h hw
  obtain ⟨hu,hs',hfeed'⟩ := h' hw'
  exact ⟨hu,hs ++ hs',hfeed.trans hfeed'⟩

theorem Goes.of_quiet (h : Quiet w w') (hinv : WebcamInv env w → WebcamInv env w') : Goes env w w' :=
  fun hw => ⟨hinv hw,[],(Feed.start w).idle h⟩

/-- Time goes on. -/
theorem Quiet.past (h : Quiet w w') (hw : ∀ t, w.lastWebcamRequest = some t → t ≤ env.clock w.clockReads) :
    ∀ t, w'.lastWebcamRequest = some t → t ≤ env.clock w'.clockReads := fun t ht =>
  (hw t (h.last ▸ ht)).trans (env.clock_mono h.clock)

theorem Calm.goes (h : Calm w w') : Goes env w w' := by
  refine .of_quiet h.toQuiet fun hw => ⟨?_,?_,?_,h.toQuiet.past hw.past⟩
  · rw [h.pendingRequest,h.available]
    exact hw.pendingRequest
  · rw [h.available,h.peer]
    exact hw.peer
  · rw [h.available,h.last]
    exact hw.last

/-- Nothing of the stream is known any more. -/
theorem Goes.of_unavailable (h : Quiet w w') (hav : w'.webcamAvailable = false)
    (hpend : w'.webcamPendingRequest = false) : Goes env w w' := by
  refine .of_quiet h fun hw => ⟨?_,?_,?_,h.past hw.past⟩
  · exact fun hp => absurd (hpend.symm.trans hp) Bool.false_ne_true
  · exact fun ha => absurd (hav.symm.trans ha) Bool.false_ne_true
  · exact fun ha => absurd (hav.symm.trans ha) Bool.false_ne_true

end Relations

section Requests

/-- What a queued command leaves alone. -/
theorem queueCommand_fields (w : Worker) (origin : Origin) (c : Command) :
    (w.queueCommand env origin c).peer = w.peer ∧
      (w.queueCommand env origin c).webcamAvailable = w.webcamAvailable ∧
      (w.queueCommand env origin c).webcamPendingRequest = w.webcamPendingRequest ∧
      (w.queueCommand env origin c).lastWebcamRequest = w.lastWebcamRequest ∧
      (w.queueCommand env origin c).clockReads = w.clockReads := by
  obtain ⟨n,d,hstamp,-⟩ := stamp_eq env w c
  obtain ⟨pending,r,xs,-,he⟩ := evict_eq { w with wallReads := w.wallReads+n }
  simp only [queueCommand,hstamp,push,he]
  exact ⟨trivial,trivial,trivial,trivial,trivial⟩

theorem sendWebcamRequest_fields (w : Worker) :
    (w.sendWebcamRequest env).peer = w.peer ∧
      (w.sendWebcamRequest env).webcamAvailable = w.webcamAvailable ∧
      (w.sendWebcamRequest env).webcamPendingRequest = w.webcamPendingRequest ∧
      (w.sendWebcamRequest env).lastWebcamRequest = some (env.clock w.clockReads) ∧
      (w.sendWebcamRequest env).clockReads = w.clockReads+1 :=
  queueCommand_fields { w with
    clockReads := w.clockReads+1, lastWebcamRequest := some (env.clock w.clockReads) } .worker _

/-- A request that is due keeps the pace. -/
theorem sendWebcamRequest_goes (hp : w.peer ≠ none) (hav : w.webcamAvailable = true)
    (hdue : ∀ t, w.lastWebcamRequest = some t → t+env.cfg.webcamMinFrameInterval ≤ env.clock w.clockReads) :
    WebcamInv env (w.sendWebcamRequest env) ∧ Feed Quiet (Asks env) w [⟨(),w,w.sendWebcamRequest env⟩]
      (w.sendWebcamRequest env) := by
  obtain ⟨hpeer,havail,-,hlast,hclock⟩ := @sendWebcamRequest_fields env w
  refine ⟨⟨fun _ => havail.trans hav,fun _ => hpeer ▸ hp,fun _ => ?_,fun t ht => ?_⟩,
    (Feed.start w).handle () ⟨hp,hav,hdue,rfl⟩⟩
  · rw [hlast]
    exact Option.some_ne_none _
  · rw [hlast,Option.some.injEq] at ht
    rw [hclock,← ht]
    exact env.clock_mono (Nat.le_succ _)

/-- A deadline from `t` that is due has passed when the clock is read next. -/
theorem isDue_spec (w : Worker) (t : Option ℕ) (interval : ℕ)
    (hpast : ∀ s, t = some s → s ≤ env.clock w.clockReads) :
    ∃ n, (w.isDue env t interval).2 = { w with clockReads := w.clockReads+n } ∧
      ((w.isDue env t interval).1 = true → ∀ s, t = some s → s+interval ≤ env.clock (w.clockReads+n)) ∧
      ((w.isDue env t interval).1 = false → ∃ s, t = some s ∧ env.clock w.clockReads < s+interval) := by
  cases t with
  | none => exact ⟨0,rfl,by simp,fun h => by cases h⟩
  | some s =>
    have hs := hpast s rfl
    refine ⟨1,rfl,fun hdue s' hs' => ?_,fun hdue => ⟨s,rfl,?_⟩⟩
    swap
    · have hlt : ¬interval ≤ env.clock w.clockReads-s := of_decide_eq_false hdue
      omega
    obtain rfl := Option.some.inj hs'
    have hle : interval ≤ env.clock w.clockReads-s := of_decide_eq_true hdue
    have hmono : env.clock w.clockReads ≤ env.clock (w.clockReads+1) := env.clock_mono (Nat.le_succ _)
    omega

theorem readClock_calm (w : Worker) (n : ℕ) : Calm w { w with clockReads := w.clockReads+n } :=
  ⟨⟨rfl,Nat.le_add_right _ _,.refl _ w⟩,rfl,rfl,rfl⟩

/-- Asked for while there is a stream, a request goes out now or is deferred. -/
theorem requestWebcamFramePaced_goes (hp : w.peer ≠ none) (hav : w.webcamAvailable = true)
    (hpast : ∀ t, w.lastWebcamRequest = some t → t ≤ env.clock w.clockReads) :
    WebcamInv env (w.requestWebcamFramePaced env) ∧
      ∃ hs, Feed Quiet (Asks env) w hs (w.requestWebcamFramePaced env) := by
  obtain ⟨n,hread,hdue,hnot⟩ := isDue_spec w w.lastWebcamRequest env.cfg.webcamMinFrameInterval hpast
  have hidle : Feed Quiet (Asks env) w [] { w with clockReads := w.clockReads+n } :=
    (Feed.start w).idle (readClock_calm w n).toQuiet
  rw [requestWebcamFramePaced]
  generalize w.isDue env w.lastWebcamRequest env.cfg.webcamMinFrameInterval = x at hread hdue hnot
  obtain ⟨due,v⟩ := x
  obtain rfl : v = { w with clockReads := w.clockReads+n } := hread
  cases due with
  | true =>
    obtain ⟨hinv,hfeed⟩ := sendWebcamRequest_goes (w := { w with clockReads := w.clockReads+n }) hp hav
      (hdue rfl)
    exact ⟨hinv,_,hidle.trans hfeed⟩
  | false =>
    have hquiet : Quiet w { w with clockReads := w.clockReads+n, webcamPendingRequest := true } :=
      ⟨rfl,Nat.le_add_right _ _,.refl _ w⟩
    obtain ⟨t,ht,-⟩ := hnot rfl
    have hlast : w.lastWebcamRequest ≠ none := by
      rw [ht]
      exact Option.some_ne_none t
    exact ⟨⟨fun _ => hav,fun _ => hp,fun _ => hlast,hquiet.past hpast⟩,[],(Feed.start w).idle hquiet⟩

end Requests

section Calm

theorem note_calm (w : Worker) (e : Entry) (he : e.isFrameRequest = false) : Calm w (w.note e) :=
  ⟨⟨rfl,le_rfl,writes_one he rfl⟩,rfl,rfl,rfl⟩

theorem emit_calm (h : Calm w u) {e : Entry} (he : e.isFrameRequest = false) :
    Ends (Calm w) (Calm w) (u.emit e) := by
  rcases emit_cases u e with ⟨r,-,hemit⟩|⟨-,hemit⟩
  · rw [hemit]
    exact h.trans ⟨⟨rfl,le_rfl,writes_one he rfl⟩,rfl,rfl,rfl⟩
  · rw [hemit]
    exact h

theorem queueCommand_calm (w : Worker) (origin : Origin) (c : Command)
    (h : origin = .worker → c.name ≠ REQUEST_FRAME) : Calm w (w.queueCommand env origin c) := by
  obtain ⟨hpeer,hav,hpend,hlast,hclock⟩ := @queueCommand_fields env w origin c
  refine ⟨⟨hlast,hclock.ge,?_⟩,hpeer,hav,hpend⟩
  obtain ⟨n,d,hstamp,hname,-⟩ := stamp_eq env w c
  obtain ⟨pending,r,xs,hx,he⟩ := evict_eq { w with wallReads := w.wallReads+n }
  simp only [queueCommand,hstamp]
  refine ⟨xs ++ [.queued w.queuedCount origin d],by simp [he,push],fun e hmem => ?_⟩
  rcases List.mem_append.mp hmem with hmem|hmem
  · rcases hx e hmem with ⟨id,name,rfl⟩|⟨id,rfl,-⟩
    · rfl
    · rfl
  · rw [List.mem_singleton.mp hmem]
    cases origin with
    | client => rfl
    | worker => exact beq_eq_false_iff_ne.mpr (hname ▸ h rfl)

theorem requestOverview_calm (w : Worker) : Calm w (w.requestOverview env) := by
  rw [requestOverview]
  exact ((queueCommand_calm w .worker _ fun _ => by decide).trans
    (queueCommand_calm _ .worker _ fun _ => by decide)).trans
    (queueCommand_calm _ .worker _ fun _ => by decide)

theorem retire_calm (w : Worker) (c : Command) : Calm w (w.retire c) := by
  refine ⟨⟨rfl,le_rfl,(retire_writes w c).mono fun e he => ?_⟩,rfl,rfl,rfl⟩
  obtain ⟨p,-,-,rfl⟩ := he
  rfl

theorem handleAck_calm (w : Worker) (c : Command) : Calm w (w.handleAck env c) := by
  rw [handleAck]
  split
  · exact (retire_calm w c).trans (queueCommand_calm _ .worker _ fun _ => by decide)
  · exact retire_calm w c

theorem updateRobotState_calm (w : Worker) (state : RobotState) :
    Ends (Calm w) (Calm w) (w.updateRobotState state) := by
  rw [updateRobotState]
  split
  · exact .refl w
  · have hset : Calm w { w with robotState := some state } := ⟨⟨rfl,le_rfl,.refl _ w⟩,rfl,rfl,rfl⟩
    exact emit_calm (e := .event (.robotState state)) hset rfl

theorem transmitGamepad_calm (w : Worker) (gamepad : Gamepad) :
    Calm w (w.transmitGamepad env gamepad) := by
  rw [transmitGamepad]
  split
  · exact .refl w
  · simp only [nextSeq]
    split <;> exact ⟨⟨rfl,le_rfl,writes_one rfl rfl⟩,rfl,rfl,rfl⟩

theorem tick_calm (w : Worker) : Calm w (w.tick env) := by
  cases hp : w.peer with
  | none =>
    rw [tick_alone hp]
    refine ⟨⟨rfl,le_rfl,_,rfl,fun e he => ?_⟩,rfl,rfl,rfl⟩
    obtain ⟨addr,-,rfl⟩ := mem_calls he
    rfl
  | some peer =>
    rw [tick,hp]
    exact ⟨⟨rfl,le_rfl,writes_one rfl rfl⟩,rfl,rfl,rfl⟩

theorem beat_calm (w : Worker) : Calm w (beat env w) := by
  obtain ⟨n,hdue⟩ := isDue_eq env w w.lastBeat env.cfg.heartbeatInterval
  simp only [beat,hdue]
  split
  · have hbook : Calm w { w with
        clockReads := w.clockReads+n+1, lastBeat := some (env.clock (w.clockReads+n)) } :=
      ⟨⟨rfl,Nat.le_add_right w.clockReads (n+1),.refl _ w⟩,rfl,rfl,rfl⟩
    exact hbook.trans (tick_calm _)
  · exact readClock_calm w n

theorem sweep_reads (reads : ℕ) (ps : List PendingCommand) : reads ≤ (sweep env reads ps).2 := by
  induction ps generalizing reads with
  | nil => exact le_rfl
  | cons p ps ih =>
    rcases sweep_cons env reads p ps with ⟨n,-,hs⟩|⟨n,-,hs⟩|⟨n,-,-,hs⟩
    · rw [hs]
      exact (Nat.le_add_right _ _).trans (ih _)
    · rw [hs]
      exact (Nat.le_add_right _ _).trans (ih _)
    · rw [hs]
      exact (Nat.le_add_right reads (n+1)).trans (ih _)

theorem retransmitPending_calm (w : Worker) :
    Ends (Calm w) (Calm w) (w.retransmitPending env) := by
  have hsend (peer : SocketAddr) (ps : List PendingCommand) (v : Worker) :
      Calm v (ps.foldl (transmit peer) v) := by
    induction ps generalizing v with
    | nil => exact .refl v
    | cons p ps ih =>
      have hone : Calm v (v.transmit peer p) := ⟨⟨rfl,le_rfl,writes_one rfl rfl⟩,rfl,rfl,rfl⟩
      exact hone.trans (ih _)
  have hround (v : Worker) (p : PendingCommand) (hv : Calm w v) :
      Ends (Calm w) (Calm w) (v.reportDropped p) := emit_calm hv rfl
  cases hp : w.peer with
  | none => simpa only [retransmitPending,hp] using .refl w
  | some peer =>
    simp only [retransmitPending,hp]
    have hsweep : Calm w { w with
        pending := (sweep env w.clockReads w.pending).1.kept
        clockReads := (sweep env w.clockReads w.pending).2 } :=
      ⟨⟨rfl,sweep_reads _ _,.refl _ w⟩,rfl,rfl,rfl⟩
    have hsent := hsweep.trans (hsend peer (sweep env w.clockReads w.pending).1.toSend _)
    rw [hp] at hsent
    exact foldlM_ends hround _ _ hsent

end Calm

section Handlers

/-- Computations that keep the pace, however they end. -/
abbrev Keeps (env : Env) (w : Worker) : Except Worker Worker → Prop := Ends (Goes env w) (Goes env w)

theorem keeps_of_calm {r : Except Worker Worker} (h : Ends (Calm w) (Calm w) r) : Keeps env w r :=
  h.mono (fun _ => Calm.goes) fun _ => Calm.goes

theorem Keeps.after {r : Except Worker Worker} (h : Goes env w w') (hr : Keeps env w' r) :
    Keeps env w r := hr.mono (fun _ => h.trans) fun _ => h.trans

theorem Keeps.bind {r : Except Worker Worker} {f : Worker → Except Worker Worker} (h : Keeps env w r)
    (hf : ∀ v, Keeps env v (f v)) : Keeps env w (r >>= f) :=
  Ends.bind h fun v hv => (hf v).after hv

/-- A stream that begins is asked for a frame; one that ends is forgotten. -/
theorem handleStreamChange_goes (hp : w.peer ≠ none) (extra : String) :
    Goes env w (w.handleStreamChange env extra).2 := by
  rw [handleStreamChange]
  generalize (StdText.trim extra.toList == "true".toList) = available
  cases available with
  | true =>
    intro hw
    have hbegin : Quiet w { w with webcamAvailable := true } := ⟨rfl,le_rfl,.refl _ w⟩
    obtain ⟨hinv,hs,hfeed⟩ := requestWebcamFramePaced_goes (w := { w with webcamAvailable := true }) hp rfl
      hw.past
    exact ⟨hinv,_,((Feed.start w).idle hbegin).trans hfeed⟩
  | false => exact .of_unavailable ⟨rfl,le_rfl,.refl _ w⟩ rfl rfl

theorem handleFrameChunk_goes (extra : String) : Goes env w (w.handleFrameChunk env extra).2 := by
  obtain ⟨frames,hchunk⟩ := handleFrameChunk_eq env w extra
  have hframes : Calm w { w with webcamFrames := frames } := ⟨⟨rfl,le_rfl,.refl _ w⟩,rfl,rfl,rfl⟩
  rcases hchunk with hnone|⟨data,hshow|⟨hav,hask⟩⟩
  · rw [hnone]
    exact hframes.goes
  · rw [hshow]
    exact hframes.goes
  · rw [hask]
    intro hw
    obtain ⟨hinv,hs,hfeed⟩ := requestWebcamFramePaced_goes (w := { w with webcamFrames := frames })
      (hw.peer hav) hav hw.past
    exact ⟨hinv,_,((Feed.start w).idle hframes.toQuiet).trans hfeed⟩

theorem commandEvent_goes (hp : w.peer ≠ none) (c : Command) : Goes env w (w.commandEvent env c).2 := by
  have hite {b : Prop} [Decidable b] {r s : Option Event × Worker} (hr : Goes env w r.2)
      (hs : Goes env w s.2) : Goes env w (if b then r else s).2 :=
    iteInduction (motive := fun r : Option Event × Worker => Goes env w r.2) (fun _ => hr) fun _ => hs
  have hbegin : Goes env w (w.handleFrameBegin env c.extra) := by
    rw [handleFrameBegin]
    split
    · exact .refl w
    · exact Calm.goes ⟨⟨rfl,le_rfl,.refl _ w⟩,rfl,rfl,rfl⟩
  unfold commandEvent
  iterate 10 refine hite (.refl w) ?_
  refine hite (handleStreamChange_goes hp c.extra) (hite hbegin ?_)
  exact hite (handleFrameChunk_goes c.extra) (.refl w)

theorem handleCommand_keeps (hp : w.peer ≠ none) (c : Command) (src : SocketAddr) :
    Keeps env w (w.handleCommand env c src) := by
  rw [handleCommand]
  refine Ends.ite (fun _ => (handleAck_calm w c).goes) fun _ => ?_
  have hsent : Calm w (w.sendTo src (.command (Command.ackOf c))) := note_calm w _ rfl
  refine Ends.ite (fun _ => hsent.goes) fun _ => ?_
  have hkey : Calm w (if isFrameCommand c = true then w.sendTo src (.command (Command.ackOf c))
      else (w.sendTo src (.command (Command.ackOf c))).acceptKey (c.name,c.timestamp)) := by
    split
    · exact hsent
    · exact ⟨⟨rfl,le_rfl,writes_one rfl rfl⟩,rfl,rfl,rfl⟩
  generalize (if isFrameCommand c = true then w.sendTo src (.command (Command.ackOf c))
      else (w.sendTo src (.command (Command.ackOf c))).acceptKey (c.name,c.timestamp)) = v at hkey ⊢
  dsimp only
  have hevent : Goes env v (v.commandEvent env c).2 := commandEvent_goes (hkey.peer ▸ hp) c
  generalize v.commandEvent env c = r at hevent ⊢
  obtain ⟨event,x⟩ := r
  have hx : Goes env w x := hkey.goes.trans hevent
  cases event with
  | none => exact hx
  | some e => exact Keeps.after hx (keeps_of_calm (emit_calm (e := .event e) (.refl x) rfl))

theorem dispatch_keeps (hp : w.peer ≠ none) (packet : Packet) (src : SocketAddr) :
    Keeps env w (w.dispatch env packet src) := by
  cases packet with
  | heartbeat hb => exact keeps_of_calm (updateRobotState_calm w hb.robotState)
  | telemetry t =>
    refine Keeps.bind (keeps_of_calm (updateRobotState_calm w t.robotState)) fun v => ?_
    exact keeps_of_calm (emit_calm (e := .event (.telemetry t)) (.refl v) rfl)
  | command c => exact handleCommand_keeps hp c src
  | peerDiscovery => exact Goes.refl w
  | gamepad => exact Goes.refl w
  | keepAlive => exact Goes.refl w

/-- A new peer has no stream yet. -/
theorem connect_goes (hp : w.peer = none) (src : SocketAddr) : Goes env w { w with peer := some src } := by
  refine .of_quiet ⟨rfl,le_rfl,.refl _ w⟩ fun hw => ⟨hw.pendingRequest,fun hav => ?_,hw.last,hw.past⟩
  exact absurd hp (hw.peer hav)

theorem latch_keeps (hp : w.peer = none) (packet : Packet) (src : SocketAddr) :
    Ends (fun r => Goes env w r.worker) (Goes env w) (w.latch env packet src) := by
  rw [latch]
  split
  · have hpause : Calm w { w with discovering := false } := ⟨⟨rfl,le_rfl,.refl _ w⟩,rfl,rfl,rfl⟩
    have hsend : Keeps env w ({ w with discovering := false }.send (.peerBusy src)) :=
      keeps_of_calm (emit_calm (e := .event (.peerBusy src)) hpause rfl)
    exact Ends.map hsend fun _ hv => hv
  · have hsend : Keeps env w ({ w with peer := some src }.send (.connected src)) :=
      Keeps.after (connect_goes hp src)
        (keeps_of_calm (emit_calm (e := .event (.connected src)) (.refl _) rfl))
    exact Ends.bind hsend fun v hv => hv.trans (requestOverview_calm v).goes

theorem intake_keeps (w : Worker) (data : List UInt8) (src : SocketAddr) :
    Ends (fun r => Goes env w r.worker) (Goes env w) (w.intake env data src) := by
  have hnotice {v : Worker} (hv : Calm w v) (text : String) :
      Ends (fun r : Intake => Goes env w r.worker) (Goes env w)
        (Intake.done <$> v.send (.protocolError text)) :=
    Ends.map (keeps_of_calm (emit_calm (e := .event (.protocolError text)) hv rfl)) fun _ h => h
  rw [intake]
  split
  · exact hnotice (.refl w) _
  · split
    · exact Goes.refl w
    · have hread : Calm w { w with clockReads := w.clockReads+1, lastRx := env.clock w.clockReads } :=
        ⟨⟨rfl,Nat.le_succ _,.refl _ w⟩,rfl,rfl,rfl⟩
      simp only [now]
      split
      · exact hnotice hread _
      · rename_i packet _
        refine Ends.ite (fun hnone => ?_) fun _ => hread.goes
        have hp : { w with clockReads := w.clockReads+1, lastRx := env.clock w.clockReads }.peer = none :=
          Option.isNone_iff_eq_none.mp hnone
        exact (latch_keeps hp packet src).mono (fun _ h => hread.goes.trans h) fun _ h => hread.goes.trans h

theorem handleDatagram_keeps (w : Worker) (data : List UInt8) (src : SocketAddr) :
    Keeps env w (w.handleDatagram env data src) := by
  have hin : Ends _ _ (w.intake env data src) := @intake_keeps env w data src
  have hpeer : Ends (Admitted env (fun _ _ => True) w src) _ (w.intake env data src) :=
    intake_ends w data src
  rw [handleDatagram]
  cases hr : w.intake env data src with
  | error v =>
    rw [hr] at hin
    exact hin
  | ok r =>
    rw [hr] at hin hpeer
    cases r with
    | done v => exact hin
    | packet p v =>
      have hset : v.peer ≠ none := by
        rw [hpeer.2]
        exact Option.some_ne_none src
      exact (dispatch_keeps hset p src).after hin

theorem dropPeer_goes (w : Worker) : Goes env w w.dropPeer := by
  refine .of_unavailable ⟨rfl,le_rfl,_,rfl,fun e he => ?_⟩ rfl rfl
  obtain ⟨p,-,rfl⟩ := List.mem_map.mp he
  rfl

theorem disconnect_keeps (h : Calm w u) : Keeps env w (u.dropPeer.send .disconnected) :=
  Keeps.after (h.goes.trans (dropPeer_goes u))
    (keeps_of_calm (emit_calm (e := .event .disconnected) (.refl _) rfl))

theorem checkTimeout_keeps_pace (w : Worker) : Keeps env w (checkTimeout env w) := by
  rw [checkTimeout]
  refine Ends.ite (fun _ => ?_) fun _ => Goes.refl w
  exact Ends.ite (fun _ => disconnect_keeps (readClock_calm w 1)) fun _ => (readClock_calm w 1).goes

theorem controlStep_keeps (w : Worker) (c : Control) : Keeps env w (controlStep env w c) := by
  have hset (discovering : Bool) (lastBeat : Option ℕ) :
      Calm w { w with discovering := discovering, lastBeat := lastBeat } :=
    ⟨⟨rfl,le_rfl,.refl _ w⟩,rfl,rfl,rfl⟩
  cases c with
  | shutdown => exact Goes.refl w
  | sendCommand command =>
    exact (queueCommand_calm w .client command fun h => absurd h (by decide)).goes
  | sendGamepad gamepad => exact (transmitGamepad_calm w gamepad).goes
  | connect => exact (hset true none).goes
  | disconnect =>
    exact Ends.ite (fun _ => disconnect_keeps (hset false w.lastBeat)) fun _ => (hset false w.lastBeat).goes

end Handlers

section Timers

/-- The two webcam timers: a deferred request that is due, and a stalled stream. -/
inductive Timed (env : Env) (w : Worker) : Worker → Prop
  | deferred (n : ℕ) (hpend : w.webcamPendingRequest = true)
      (hdue : ∀ t, w.lastWebcamRequest = some t →
        t+env.cfg.webcamMinFrameInterval ≤ env.clock (w.clockReads+n)) :
      Timed env w ({ w with
        clockReads := w.clockReads+n, webcamPendingRequest := false }.sendWebcamRequest env)
  | stalled (hav : w.webcamAvailable = true) (hpend : w.webcamPendingRequest = false)
      (hlast : w.lastWebcamRequest ≠ none) :
      Timed env w ({ w with
        clockReads := w.clockReads+1, webcamFrames := ∅ }.requestWebcamFramePaced env)
  | waits (n : ℕ) (hpend : w.webcamPendingRequest = true → ∃ t, w.lastWebcamRequest = some t ∧
        env.clock w.clockReads < t+env.cfg.webcamMinFrameInterval)
      (hstall : w.webcamPendingRequest = false → w.webcamAvailable = true →
        ∀ t, w.lastWebcamRequest = some t → env.clock w.clockReads < t+WEBCAM_STALL_TIMEOUT) :
      Timed env w { w with clockReads := w.clockReads+n }

theorem webcamTimers_timed (hpast : ∀ t, w.lastWebcamRequest = some t → t ≤ env.clock w.clockReads) :
    Timed env w (w.webcamTimers env) := by
  by_cases hpend : w.webcamPendingRequest = true
  · obtain ⟨n,hread,hdue,hnot⟩ := isDue_spec w w.lastWebcamRequest env.cfg.webcamMinFrameInterval hpast
    rw [webcamTimers,if_pos hpend]
    generalize w.isDue env w.lastWebcamRequest env.cfg.webcamMinFrameInterval = x at hread hdue hnot
    obtain ⟨due,v⟩ := x
    obtain rfl : v = { w with clockReads := w.clockReads+n } := hread
    dsimp only
    cases due with
    | true => exact .deferred n hpend (hdue rfl)
    | false =>
      have hno : ¬(w.webcamAvailable && !w.webcamPendingRequest) = true := by simp [hpend]
      rw [if_neg Bool.false_ne_true,if_neg hno]
      exact .waits n (fun _ => hnot rfl) fun h => absurd hpend (h ▸ Bool.false_ne_true)
  · have hwaits (n : ℕ) (hstall : w.webcamAvailable = true → ∀ t, w.lastWebcamRequest = some t →
        env.clock w.clockReads < t+WEBCAM_STALL_TIMEOUT) :
        Timed env w { w with clockReads := w.clockReads+n } :=
      .waits n (fun h => absurd h hpend) fun _ => hstall
    rw [webcamTimers,if_neg hpend]
    dsimp only
    rw [if_neg Bool.false_ne_true]
    by_cases hav : w.webcamAvailable = true
    · have hyes : (w.webcamAvailable && !w.webcamPendingRequest) = true := by simp [hpend,hav]
      rw [if_pos hyes]
      cases hl : w.lastWebcamRequest with
      | none => exact hwaits 0 fun _ t ht => absurd (hl.symm.trans ht) (Option.some_ne_none t).symm
      | some t =>
        have ht := hpast t hl
        simp only [elapsed]
        have hlast : w.lastWebcamRequest ≠ none := by
          rw [hl]
          exact Option.some_ne_none t
        refine iteInduction (motive := Timed env w)
          (fun _ => .stalled hav (by simpa using hpend) hlast) fun hstall => hwaits 1 fun _ s hs => ?_
        obtain rfl := Option.some.inj (hl.symm.trans hs)
        omega
    · have hno : ¬(w.webcamAvailable && !w.webcamPendingRequest) = true := by simp [hav]
      rw [if_neg hno]
      exact hwaits 0 fun h => absurd h hav

theorem webcamTimers_goes (w : Worker) : Goes env w (w.webcamTimers env) := by
  intro hw
  have htimed := webcamTimers_timed hw.past
  generalize w.webcamTimers env = v at htimed ⊢
  cases htimed with
  | deferred n hpend hdue =>
    have hav := hw.pendingRequest hpend
    have hidle : Quiet w { w with clockReads := w.clockReads+n, webcamPendingRequest := false } :=
      ⟨rfl,Nat.le_add_right _ _,.refl _ w⟩
    obtain ⟨hinv,hfeed⟩ := sendWebcamRequest_goes
      (w := { w with clockReads := w.clockReads+n, webcamPendingRequest := false }) (hw.peer hav) hav hdue
    exact ⟨hinv,_,((Feed.start w).idle hidle).trans hfeed⟩
  | stalled hav hpend hlast =>
    have hidle : Quiet w { w with clockReads := w.clockReads+1, webcamFrames := ∅ } :=
      ⟨rfl,Nat.le_succ _,.refl _ w⟩
    obtain ⟨hinv,hs,hfeed⟩ := requestWebcamFramePaced_goes
      (w := { w with clockReads := w.clockReads+1, webcamFrames := ∅ }) (hw.peer hav) hav
      (hidle.past hw.past)
    exact ⟨hinv,_,((Feed.start w).idle hidle).trans hfeed⟩
  | waits n hpend hstall => exact (readClock_calm w n).goes hw

theorem receive_keeps (w : Worker) (r : Received) : Keeps env w (receive env w r) := by
  cases r with
  | datagram data src => exact handleDatagram_keeps w data src
  | timedOut => exact Goes.refl w
  | failed error =>
    exact keeps_of_calm (emit_calm (e := .event (.protocolError s!"socket recv failed: {error}"))
      (.refl w) rfl)

theorem step_keeps (w : Worker) (i : Input) : Keeps env w (step env w i) := by
  cases i with
  | control c => exact controlStep_keeps w c
  | socket r =>
    refine (receive_keeps w r).bind fun v => (checkTimeout_keeps_pace v).bind fun v => ?_
    exact Keeps.after ((beat_calm v).goes.trans (webcamTimers_goes _)) (keeps_of_calm (retransmitPending_calm _))

theorem run_keeps (w : Worker) (inputs : List Input) : Keeps env w (run env w inputs) :=
  run_ends (P := fun _ _ => True) (fun v i hv _ => (step_keeps v i).after hv) w inputs (.refl w)
    (.of_forall (fun _ _ => trivial) w inputs)

end Timers

section Pace

/-- How many frames a worker has asked for by itself. -/
def requestCount (w : Worker) : ℕ := w.log.countP Entry.isFrameRequest

/-- When the requests of a history were made, in order. -/
def requestTimes (env : Env) (hs : List (Handled Worker Unit)) : List ℕ :=
  hs.map fun x => env.clock x.before.clockReads

theorem Quiet.count (h : Quiet w w') : requestCount w' = requestCount w := by
  obtain ⟨xs,hlog,hx⟩ := h.writes
  have hnone : xs.countP Entry.isFrameRequest = 0 := by
    rw [List.countP_eq_zero]
    exact fun e he => Bool.eq_false_iff.mp (hx e he)
  rw [requestCount,hlog,List.countP_append,hnone,Nat.add_zero,requestCount]

theorem sendWebcamRequest_count (env : Env) (w : Worker) :
    requestCount (w.sendWebcamRequest env) = requestCount w+1 := by
  let v := { w with clockReads := w.clockReads+1, lastWebcamRequest := some (env.clock w.clockReads) }
  obtain ⟨n,d,hstamp,hname,-⟩ := stamp_eq env v (Command.new REQUEST_FRAME "" 0)
  obtain ⟨pending,r,xs,hx,he⟩ := evict_eq { v with wallReads := v.wallReads+n }
  have hnone : xs.countP Entry.isFrameRequest = 0 := by
    rw [List.countP_eq_zero]
    intro e hmem
    rcases hx e hmem with ⟨id,name,rfl⟩|⟨id,rfl,-⟩
    · exact Bool.false_ne_true
    · exact Bool.false_ne_true
  have hone : [Entry.queued w.queuedCount .worker d].countP Entry.isFrameRequest = 1 := by
    simp [Entry.isFrameRequest,hname,Command.new]
  have hlog : (w.sendWebcamRequest env).log = w.log ++ xs ++ [.queued w.queuedCount .worker d] := by
    simp only [sendWebcamRequest,now,queueCommand]
    rw [hstamp]
    simp only [push,he,v]
  rw [requestCount,hlog,List.countP_append,List.countP_append,hnone,hone,requestCount]

/-- A paced request goes out where the last one is old enough. -/
theorem requestWebcamFramePaced_count
    (hdue : ∀ t, w.lastWebcamRequest = some t → t+env.cfg.webcamMinFrameInterval ≤ env.clock w.clockReads) :
    requestCount (w.requestWebcamFramePaced env) = requestCount w+1 := by
  have hpast (t : ℕ) (ht : w.lastWebcamRequest = some t) : t ≤ env.clock w.clockReads :=
    (Nat.le_add_right _ _).trans (hdue t ht)
  obtain ⟨n,hread,-,hnot⟩ := isDue_spec w w.lastWebcamRequest env.cfg.webcamMinFrameInterval hpast
  rw [requestWebcamFramePaced]
  generalize w.isDue env w.lastWebcamRequest env.cfg.webcamMinFrameInterval = x at hread hnot
  obtain ⟨due,v⟩ := x
  obtain rfl : v = { w with clockReads := w.clockReads+n } := hread
  cases due with
  | true => exact sendWebcamRequest_count env { w with clockReads := w.clockReads+n }
  | false =>
    obtain ⟨t,ht,hlt⟩ := hnot rfl
    exact absurd (hdue t ht) (Nat.not_le_of_lt hlt)

/-- Every request of the log is one of the history, the last one's time is remembered, and
any two are the interval apart. -/
structure Counted (env : Env) (hs : List (Handled Worker Unit)) (w : Worker) : Prop where
  count : requestCount w = hs.length
  last : w.lastWebcamRequest = (requestTimes env hs).getLast?
  apart : (requestTimes env hs).Pairwise fun s t => s+env.cfg.webcamMinFrameInterval ≤ t

/-- No request was made after the last one. -/
theorem Counted.le_last {hs : List (Handled Worker Unit)} (h : Counted env hs w) {s t : ℕ}
    (hs' : s ∈ requestTimes env hs) (ht : w.lastWebcamRequest = some t) : s ≤ t := by
  rw [h.last] at ht
  obtain ⟨ts,hts⟩ := List.getLast?_eq_some_iff.1 ht
  have hapart := h.apart
  rw [hts] at hs' hapart
  rcases List.mem_append.1 hs' with hmem|hmem
  · have hle := (List.pairwise_append.1 hapart).2.2 s hmem t (by simp)
    omega
  · exact (List.mem_singleton.1 hmem).le

theorem Counted.asks {hs : List (Handled Worker Unit)} (h : Counted env hs w) (ha : Asks env w () w') :
    Counted env (hs ++ [⟨(),w,w'⟩]) w' := by
  obtain ⟨-,-,hdue,rfl⟩ := ha
  have htimes : requestTimes env (hs ++ [⟨(),w,w.sendWebcamRequest env⟩]) =
      requestTimes env hs ++ [env.clock w.clockReads] := by simp [requestTimes]
  refine ⟨?_,?_,?_⟩
  · rw [sendWebcamRequest_count,h.count,List.length_append,List.length_singleton]
  · rw [htimes,List.getLast?_concat]
    exact (sendWebcamRequest_fields w).2.2.2.1
  · rw [htimes,List.pairwise_append]
    refine ⟨h.apart,List.pairwise_singleton _ _,fun s hs' t ht => ?_⟩
    obtain rfl := List.mem_singleton.mp ht
    cases hlast : w.lastWebcamRequest with
    | none =>
      rw [h.last,List.getLast?_eq_none_iff] at hlast
      rw [hlast] at hs'
      cases hs'
    | some last =>
      have hle := h.le_last hs' hlast
      have hapart := hdue last hlast
      omega

theorem feed_counted {hs : List (Handled Worker Unit)} {w₀ : Worker} (hcount : requestCount w₀ = 0)
    (hlast : w₀.lastWebcamRequest = none) (h : Feed Quiet (Asks env) w₀ hs w) : Counted env hs w := by
  refine h.invariant (P := fun _ => True) (fun _ _ => trivial) ⟨hcount,hlast,List.Pairwise.nil⟩ ?_ ?_
  · intro hs t u ht hidle
    exact ⟨hidle.count.trans ht.count,hidle.last.trans ht.last,ht.apart⟩
  · intro hs t i u ht ha _
    exact ht.asks ha

/-- The stall timer runs: every pass looks at it, and it counts from the last request. -/
def StallArmed (w : Worker) : Prop :=
  w.webcamAvailable = true ∧ w.webcamPendingRequest = false ∧ w.lastWebcamRequest ≠ none

/-- What holds of the webcam requests of a worker, and that a stream never waits for ever. -/
structure WebcamPaced (env : Env) (w₀ w : Worker) : Prop extends WebcamInv env w where
  requests : ∃ hs, Feed Quiet (Asks env) w₀ hs w ∧ Counted env hs w
  awake : w.webcamAvailable = true → w.webcamPendingRequest = true ∨ StallArmed w
  wakes : w.webcamAvailable = true → ∀ t, w.lastWebcamRequest = some t →
    t+max WEBCAM_STALL_TIMEOUT env.cfg.webcamMinFrameInterval ≤ env.clock w.clockReads →
      requestCount (w.webcamTimers env) = requestCount w+1

theorem WebcamInv.wakes (hw : WebcamInv env w) (hav : w.webcamAvailable = true) {t : ℕ}
    (ht : w.lastWebcamRequest = some t)
    (hlong : t+max WEBCAM_STALL_TIMEOUT env.cfg.webcamMinFrameInterval ≤ env.clock w.clockReads) :
    requestCount (w.webcamTimers env) = requestCount w+1 := by
  have htimed := webcamTimers_timed hw.past
  generalize w.webcamTimers env = v at htimed ⊢
  cases htimed with
  | deferred n hpend hdue =>
    exact sendWebcamRequest_count env { w with clockReads := w.clockReads+n, webcamPendingRequest := false }
  | stalled _ hpend hlast =>
    refine requestWebcamFramePaced_count
      (w := { w with clockReads := w.clockReads+1, webcamFrames := ∅ }) fun s hs => ?_
    obtain rfl := Option.some.inj (ht.symm.trans hs)
    have hmono : env.clock w.clockReads ≤ env.clock (w.clockReads+1) := env.clock_mono (Nat.le_succ _)
    have hmax := le_max_right WEBCAM_STALL_TIMEOUT env.cfg.webcamMinFrameInterval
    exact ((Nat.add_le_add_left hmax t).trans hlong).trans hmono
  | waits n hpend hstall =>
    by_cases hp : w.webcamPendingRequest = true
    · obtain ⟨s,hs,hlt⟩ := hpend hp
      obtain rfl := Option.some.inj (ht.symm.trans hs)
      have hmax := le_max_right WEBCAM_STALL_TIMEOUT env.cfg.webcamMinFrameInterval
      omega
    · have hlt := hstall (by simpa using hp) hav t ht
      have hmax := le_max_left WEBCAM_STALL_TIMEOUT env.cfg.webcamMinFrameInterval
      omega

theorem webcamInv_start (env : Env) (receiver : Option ℕ) : WebcamInv env (start env receiver) :=
  ⟨fun h => absurd h Bool.false_ne_true,fun h => absurd h Bool.false_ne_true,
    fun h => absurd h Bool.false_ne_true,fun t h => absurd h.symm (Option.some_ne_none t)⟩

/-- In whatever state a run ends, the requests made by the worker itself, for the stream of
a peer each, are the frame interval apart, and while there is a stream another one comes. -/
theorem webcam_paced (env : Env) (receiver : Option ℕ) (inputs : List Input) :
    WebcamPaced env (start env receiver) (final (run env (start env receiver) inputs)) := by
  have hgoes : Goes env (start env receiver) (final (run env (start env receiver) inputs)) := by
    have hrun : Keeps env _ (run env (start env receiver) inputs) := run_keeps (start env receiver) inputs
    exact hrun.at_final (fun _ h => h) fun _ h => h
  obtain ⟨hinv,hs,hfeed⟩ := hgoes (webcamInv_start env receiver)
  refine ⟨hinv,⟨hs,hfeed,feed_counted rfl rfl hfeed⟩,fun hav => ?_,fun hav t ht => hinv.wakes hav ht⟩
  cases hp : (final (run env (start env receiver) inputs)).webcamPendingRequest with
  | true => exact .inl rfl
  | false => exact .inr ⟨hav,hp,hinv.last hav⟩

end Pace

end Client
end Robocol
