import Robocol.Acks
import Robocol.Notifications

/-! Where the entries of the history come from. Each is written while one input is handled: a report
while the packet of the session's peer is that tells it, an ack while the command is that it answers,
a command while the user asks for it, and the worker's own words in a pass of its loop. -/
namespace Robocol
namespace Client

open Cmd Runs Relation Worker

/-- The events that a packet of the peer tells. -/
inductive Tells (env : Env) : Packet → Event → Prop
  | state {p : Packet} {state : RobotState} (h : robotStateOf p = some state) :
      Tells env p (.robotState state)
  | telemetry (t : Telemetry) : Tells env (.telemetry t) (.telemetry t)
  | command {c : Command} {e : Event} (w : Worker) (hack : c.acknowledged = false)
      (h : (w.commandEvent env c).1 = some e) : Tells env (.command c) e

/-- The commands the worker queues by itself. -/
def ownCommands : List String :=
  [REQUEST_ACTIVE_CONFIG,REQUEST_CONFIGURATIONS,REQUEST_OP_MODE_LIST,REQUEST_FRAME,RESTART_ROBOT]

/-- The input is this packet. -/
def Hears (i : Input) (src : SocketAddr) (p : Packet) : Prop :=
  ∃ data, i = .socket (.datagram data src) ∧ Packet.parse data = .ok p

/-- What an input makes the worker send: the ack of a command to its sender, the gamepad of the user,
and in a pass a heartbeat, or a discovery packet to a configured address. -/
inductive Prompts (cfg : ClientConfig) (i : Input) : SocketAddr → Packet → Prop
  | answer {src : SocketAddr} {c : Command} (h : Hears i src (.command c))
      (hack : c.acknowledged = false) : Prompts cfg i src (.command (Command.ackOf c))
  | gamepad {g : Gamepad} (dst : SocketAddr) (seq : UInt16) (timestamp : Int64)
      (h : i = .control (.sendGamepad g)) :
      Prompts cfg i dst (.gamepad { g with seq := seq, timestamp := timestamp })
  | heartbeat {r : Received} {hb : Heartbeat} (dst : SocketAddr) (h : i = .socket r)
      (hstate : hb.robotState = .notStarted) : Prompts cfg i dst (.heartbeat hb)
  | discovery {r : Received} {addr : UInt8 × UInt8 × UInt8 × UInt8} (h : i = .socket r)
      (haddr : addr ∈ cfg.peerAddrs) : Prompts cfg i ⟨addr,cfg.peerPort⟩ (.peerDiscovery {})

/-- What there is to complain of in an input: a receive error, a packet of a stranger to the session,
or one that cannot be read. -/
inductive Complains (i : Input) (before : List Entry) : String → Prop
  | failed (error : String) (h : i = .socket (.failed error)) :
      Complains i before s!"socket recv failed: {error}"
  | stranger {data : List UInt8} {src peer : SocketAddr} (h : i = .socket (.datagram data src))
      (hpeer : sessionOf before = some peer) (hne : peer ≠ src) : Complains i before
        s!"ignored packet from {src.display}: connected peer is {peer.display}"
  | unreadable {data : List UInt8} {src : SocketAddr} {e : Error}
      (h : i = .socket (.datagram data src)) (hparse : Packet.parse data = .error e) :
      Complains i before e.display

/-- A pass of the worker's loop. -/
def Input.IsPass (i : Input) : Prop := ∃ r, i = .socket r

/-- What the handling of an input may write behind a history. -/
def SourceLaw (env : Env) (i : Input) (before : List Entry) : Entry → Prop
  | .event (.connected src) => ∃ p, Hears i src p ∧ isBusyReply p = false
  | .event (.peerBusy src) => ∃ p, Hears i src p ∧ isBusyReply p = true
  | .event (.protocolError text) => Complains i before text
  | .event .disconnected | .discarded _ => i.IsPass ∨ i = .control .disconnect
  | .event e => ∃ src p, Hears i src p ∧ sessionOf before = some src ∧ Tells env p e
  | .queued _ .client c =>
    ∃ d, i = .control (.sendCommand d) ∧ c.name = d.name ∧ c.extra = d.extra
  | .queued _ .worker c => i.IsPass ∧ c.name ∈ ownCommands ∧ c.extra = ""
  | .sent dst packet => Prompts env.cfg i dst packet
  | .acked _ ack => ∃ src, Hears i src (.command ack) ∧ sessionOf before = some src
  | .transmitted _ _ _ _ | .dropped _ _ .exhausted => i.IsPass
  | .dropped _ _ .capped | .lost _ => i.IsPass ∨ ∃ d, i = .control (.sendCommand d)

/-- The entries of what the worker does by itself in a pass. -/
def Entry.Own (cfg : ClientConfig) : Entry → Prop
  | .queued _ origin c => origin = .worker ∧ c.name ∈ ownCommands ∧ c.extra = ""
  | .sent dst packet => ∀ r, Prompts cfg (.socket r) dst packet
  | .event _ | .acked _ _ | .discarded _ => False
  | .transmitted _ _ _ _ | .dropped _ _ _ | .lost _ => True

/-- What is written while a packet is dispatched. -/
inductive Spoken (env : Env) (src : SocketAddr) (p : Packet) : Entry → Prop
  | own {e : Entry} (h : e.Own env.cfg) : Spoken env src p e
  | tells {event : Event} (h : Tells env p event) : Spoken env src p (.event event)
  | answer {c : Command} (h : p = .command c) (hack : c.acknowledged = false) :
      Spoken env src p (.sent src (.command (Command.ackOf c)))
  | retires {ack : Command} (id : ℕ) (h : p = .command ack) : Spoken env src p (.acked id ack)

variable {env : Env} {w w' : Worker} {c : Command} {i : Input} {src : SocketAddr} {p : Packet}
  {before log : List Entry} {e : Entry}

section Own

theorem Entry.Own.law {r : Received} (h : e.Own env.cfg) : SourceLaw env (.socket r) before e := by
  cases e with
  | event e => exact h.elim
  | acked id ack => exact h.elim
  | discarded id => exact h.elim
  | sent dst packet => exact h r
  | queued id origin c =>
    obtain ⟨rfl,hc⟩ := h
    exact ⟨⟨r,rfl⟩,hc⟩
  | transmitted dst id c t => exact ⟨r,rfl⟩
  | lost id => exact .inl ⟨r,rfl⟩
  | dropped id name cause =>
    cases cause with
    | capped => exact .inl ⟨r,rfl⟩
    | exhausted => exact ⟨r,rfl⟩

theorem queueCommand_as {P : Entry → Prop} (w : Worker) (origin : Origin) (c : Command)
    (hcommand : ∀ id d, d.name = c.name → d.extra = c.extra → P (.queued id origin d))
    (hroom : ∀ id name, P (.dropped id name .capped)) (hlost : ∀ id, P (.lost id)) :
    Writes P w (w.queueCommand env origin c) := by
  obtain ⟨n,d,hstamp,hname,hextra,-⟩ := stamp_eq env w c
  obtain ⟨pending,r,xs,hevict,he⟩ := evict_eq { w with wallReads := w.wallReads+n }
  refine ⟨xs ++ [.queued w.queuedCount origin d],by simp [queueCommand,hstamp,he,push],fun e hmem => ?_⟩
  rcases List.mem_append.mp hmem with hmem|hmem
  · obtain ⟨id,name,rfl⟩|⟨id,rfl,-⟩ := hevict e hmem
    · exact hroom id name
    · exact hlost id
  · rw [List.mem_singleton.mp hmem]
    exact hcommand _ d hname hextra

theorem queueCommand_own (w : Worker) (hname : c.name ∈ ownCommands) (hextra : c.extra = "") :
    Writes (Entry.Own env.cfg) w (w.queueCommand env .worker c) :=
  queueCommand_as w .worker c (fun _ _ hd hx => ⟨rfl,hd ▸ hname,hx.trans hextra⟩)
    (fun _ _ => trivial) fun _ => trivial

theorem sendWebcamRequest_own (w : Worker) : Writes (Entry.Own env.cfg) w (w.sendWebcamRequest env) :=
  queueCommand_own { w with
    clockReads := w.clockReads+1, lastWebcamRequest := some (env.clock w.clockReads) } (by decide) rfl

theorem requestWebcamFramePaced_own (w : Worker) :
    Writes (Entry.Own env.cfg) w (w.requestWebcamFramePaced env) := by
  obtain ⟨n,hpaced|hpaced⟩ := requestWebcamFramePaced_eq env w
  · rw [hpaced]
    exact sendWebcamRequest_own { w with clockReads := w.clockReads+n }
  · rw [hpaced]
    exact .refl _ w

theorem webcamTimers_own (w : Worker) : Writes (Entry.Own env.cfg) w (w.webcamTimers env) := by
  obtain ⟨n,hsend|hwait|⟨-,hstall⟩⟩ := webcamTimers_eq env w
  · rw [hsend]
    exact sendWebcamRequest_own { w with clockReads := w.clockReads+n, webcamPendingRequest := false }
  · rw [hwait]
    exact .refl _ w
  · rw [hstall]
    exact requestWebcamFramePaced_own { w with clockReads := w.clockReads+n, webcamFrames := ∅ }

theorem timers_own (w : Worker) :
    Ends (Writes (Entry.Own env.cfg) w) (Writes (Entry.Own env.cfg) w)
      (((beat env w).webcamTimers env).retransmitPending env) := by
  have hbeat : Writes (Entry.Own env.cfg) w (beat env w) :=
    beat_as w (fun _ haddr _ => .discovery rfl haddr) fun dst _ hstate _ => .heartbeat dst rfl hstate
  have hbefore : Writes (Entry.Own env.cfg) w ((beat env w).webcamTimers env) :=
    hbeat.trans (webcamTimers_own _)
  exact (retransmitPending_as _ (fun _ _ _ _ => trivial) fun _ _ => trivial).mono
    (fun _ h => hbefore.trans h) fun _ h => hbefore.trans h

theorem requestOverview_own (w : Worker) : Writes (Entry.Own env.cfg) w (w.requestOverview env) := by
  rw [requestOverview]
  exact ((queueCommand_own w (by decide) rfl).trans (queueCommand_own _ (by decide) rfl)).trans
    (queueCommand_own _ (by decide) rfl)

theorem handleAck_spoken (w : Worker) (c : Command) (src : SocketAddr) :
    Writes (Spoken env src (.command c)) w (w.handleAck env c) := by
  have hretire : Writes (Spoken env src (.command c)) w (w.retire c) := by
    refine (retire_writes w c).mono fun e he => ?_
    obtain ⟨q,-,-,rfl⟩ := he
    exact .retires q.id rfl
  rw [handleAck]
  split
  · exact hretire.trans ((queueCommand_own (w.retire c) (by decide) rfl).mono fun _ => .own)
  · exact hretire

end Own

section Dispatch

theorem own_ite {b : Prop} [Decidable b] {r s : Option Event × Worker}
    (hr : b → Writes (Entry.Own env.cfg) w r.2) (hs : ¬b → Writes (Entry.Own env.cfg) w s.2) :
    Writes (Entry.Own env.cfg) w (if b then r else s).2 := by
  split
  · exact hr ‹_›
  · exact hs ‹_›

theorem commandEvent_own (w : Worker) (c : Command) : Writes (Entry.Own env.cfg) w (w.commandEvent env c).2 := by
  have hstream : Writes (Entry.Own env.cfg) w (w.handleStreamChange env c.extra).2 := by
    rw [handleStreamChange]
    generalize (StdText.trim c.extra.toList == "true".toList) = available
    cases available with
    | true => exact requestWebcamFramePaced_own { w with webcamAvailable := true }
    | false => exact .refl _ w
  have hbegin : Writes (Entry.Own env.cfg) w (w.handleFrameBegin env c.extra) := by
    rw [handleFrameBegin]
    split <;> exact .refl _ w
  have hchunk : Writes (Entry.Own env.cfg) w (w.handleFrameChunk env c.extra).2 := by
    obtain ⟨frames,hnone|⟨data,hshow|⟨-,hask⟩⟩⟩ := handleFrameChunk_eq env w c.extra
    · rw [hnone]
      exact .refl _ w
    · rw [hshow]
      exact .refl _ w
    · rw [hask]
      exact requestWebcamFramePaced_own { w with webcamFrames := frames }
  unfold commandEvent
  iterate 10 refine own_ite (fun _ => .refl _ w) fun _ => ?_
  refine own_ite (fun _ => hstream) fun _ => ?_
  refine own_ite (fun _ => hbegin) fun _ => ?_
  exact own_ite (fun _ => hchunk) fun _ => .refl _ w

theorem commandEvent_ne (w : Worker) (c : Command) (text : String) :
    (w.commandEvent env c).1 ≠ some (.protocolError text) := by
  cases hframe : isFrameCommand c with
  | false =>
    obtain ⟨⟨e,he,hreport⟩,-⟩ : Reports w (w.commandEvent env c) := commandEvent_reports hframe w
    rw [he]
    rintro ⟨⟩
    cases hreport
  | true =>
    have hname : c.name = RECEIVE_FRAME_BEGIN ∨ c.name = RECEIVE_FRAME_CHUNK := by
      simpa [isFrameCommand] using hframe
    rcases hname with hname|hname
    · simp [commandEvent_begin hname]
    · rw [commandEvent_chunk hname]
      obtain ⟨frames,hnone|⟨data,hshow|⟨-,hask⟩⟩⟩ := handleFrameChunk_eq env w c.extra
      · simp [hnone]
      · simp [hshow]
      · simp [hask]

theorem handleCommand_spoken (w : Worker) (c : Command) (src : SocketAddr) :
    Ends (Writes (Spoken env src (.command c)) w) (Writes (Spoken env src (.command c)) w)
      (w.handleCommand env c src) := by
  have hown {u v : Worker} (h : Writes (Entry.Own env.cfg) u v) : Writes (Spoken env src (.command c)) u v :=
    h.mono fun _ => .own
  rw [handleCommand]
  refine Ends.ite (fun _ => handleAck_spoken w c src) fun hack => ?_
  have hsent : Writes (Spoken env src (.command c)) w (w.sendTo src (.command (Command.ackOf c))) :=
    writes_one (e := .sent src (.command (Command.ackOf c))) (.answer rfl (by simpa using hack)) rfl
  refine Ends.ite (fun _ => hsent) fun _ => ?_
  obtain ⟨v,hv,hlog⟩ : ∃ v, (if isFrameCommand c = true then w.sendTo src (.command (Command.ackOf c))
      else (w.sendTo src (.command (Command.ackOf c))).acceptKey (c.name,c.timestamp)) = v ∧
      v.log = (w.sendTo src (.command (Command.ackOf c))).log := by
    refine ⟨_,rfl,?_⟩
    split <;> rfl
  rw [hv]
  have hbefore : Writes (Spoken env src (.command c)) w v := by
    obtain ⟨xs,hxs,hx⟩ := hsent
    exact ⟨xs,hlog.trans hxs,hx⟩
  have htells (event : Event) (he : (v.commandEvent env c).1 = some event) :
      Tells env (.command c) event := .command v (by simpa using hack) he
  have hevent : Writes (Entry.Own env.cfg) v (v.commandEvent env c).2 := commandEvent_own v c
  have hwrites := hbefore.trans (hown hevent)
  simp only
  generalize v.commandEvent env c = r at htells hwrites ⊢
  obtain ⟨event,u⟩ := r
  cases event with
  | none => exact hwrites
  | some event =>
    have hsend : Ends (Writes (Spoken env src (.command c)) u) (Writes (Spoken env src (.command c)) u)
        (u.send event) := emit_writes (.tells (htells event rfl)) rfl
    exact hsend.mono (fun _ h => hwrites.trans h) fun _ h => hwrites.trans h

theorem dispatch_spoken (w : Worker) (p : Packet) (src : SocketAddr) :
    Ends (Writes (Spoken env src p) w) (Writes (Spoken env src p) w) (w.dispatch env p src) := by
  have hstate (state : RobotState) (hs : robotStateOf p = some state) :
      Ends (Writes (Spoken env src p) w) (Writes (Spoken env src p) w) (w.updateRobotState state) := by
    rw [updateRobotState]
    refine Ends.ite (fun _ => .refl _ w) fun _ => ?_
    exact emit_writes (.tells (.state hs)) rfl
  cases p with
  | heartbeat hb => exact hstate hb.robotState rfl
  | telemetry t =>
    refine Ends.bind (hstate t.robotState rfl) fun v hv => ?_
    have hsend : Ends (Writes (Spoken env src (.telemetry t)) v) (Writes (Spoken env src (.telemetry t)) v)
        (v.send (.telemetry t)) := emit_writes (.tells (.telemetry t)) rfl
    exact hsend.mono (fun _ h => hv.trans h) fun _ h => hv.trans h
  | command c => exact handleCommand_spoken w c src
  | peerDiscovery => exact .refl _ w
  | gamepad => exact .refl _ w
  | keepAlive => exact .refl _ w

end Dispatch

section Steps

/-- Behind `w'` the history goes on by what the input explains. -/
abbrev Sourced (env : Env) (i : Input) (w w' : Worker) : Prop :=
  Extends (SourceLaw env i) w.log w'.log

theorem extends_one {P : List Entry → Entry → Prop} (he : P w.log e) (hlog : w'.log = w.log ++ [e]) :
    Extends P w.log w'.log := by
  refine ⟨[e],hlog,fun pre x post heq => ?_⟩
  rcases pre with -|⟨y,pre⟩
  · rw [List.append_nil,← (List.cons.inj heq).1]
    exact he
  · simp at heq

theorem sourced_same (hlog : w'.log = w.log) : Sourced env i w w' := by
  rw [Sourced,hlog]
  exact .refl _ _

theorem Writes.sourced {r : Received} (h : Writes (Entry.Own env.cfg) w w') :
    Sourced env (.socket r) w w' := by
  obtain ⟨xs,hxs,hx⟩ := h
  exact ⟨xs,hxs,fun pre e post heq => (hx e (by simp [heq])).law⟩

theorem spoken_sourced (hi : Hears i src p) (hs : sessionOf w.log = some src)
    (h : Writes (Spoken env src p) w w') (hmark : Unmarked w w') : Sourced env i w w' := by
  obtain ⟨xs,hxs,hx⟩ := h
  obtain ⟨ys,hys,hy⟩ := hmark
  obtain rfl := List.append_cancel_left (hxs.symm.trans hys)
  refine ⟨xs,hxs,fun pre e post heq => ?_⟩
  have hmem : e ∈ xs := by simp [heq]
  have hsession : sessionOf (w.log ++ pre) = some src :=
    (sessionOf_unmarked fun x hpre => hy x (by simp [heq,hpre])).trans hs
  cases hx e hmem with
  | own hown =>
    obtain ⟨data,rfl,-⟩ := hi
    exact hown.law
  | answer hp hack =>
    subst hp
    exact .answer hi hack
  | retires id hp =>
    subst hp
    exact ⟨src,hi,hsession⟩
  | @tells event htells =>
    have hno := hy _ hmem
    cases event with
    | connected => exact absurd hno.symm Bool.false_ne_true
    | peerBusy => exact absurd hno.symm Bool.false_ne_true
    | disconnected => exact absurd hno.symm Bool.false_ne_true
    | protocolError text =>
      cases htells with
      | command v _ h => exact absurd h (commandEvent_ne v _ text)
    | _ => exact ⟨src,p,hi,hsession,htells⟩

variable (w') in
theorem emit_sourced {e : Event} (hlog : w'.log = w.log) (he : SourceLaw env i w.log (.event e)) :
    Ends (Sourced env i w) (Sourced env i w) (w'.send e) := by
  rcases emit_cases w' (.event e) with ⟨r,-,hemit⟩|⟨-,hemit⟩
  · rw [send,hemit]
    exact extends_one he (by simp only [note,hlog])
  · rw [send,hemit]
    exact sourced_same hlog

/-- A packet without a peer is a busy reply or connects its sender. -/
theorem latch_sourced (w : Worker) {data : List UInt8} (hparse : Packet.parse data = .ok p) :
    Ends (fun r : Intake => Sourced env (.socket (.datagram data src)) w r.worker)
      (Sourced env (.socket (.datagram data src)) w) (w.latch env p src) := by
  have hears : Hears (.socket (.datagram data src)) src p := ⟨data,rfl,hparse⟩
  rw [latch]
  refine Ends.ite (fun hbusy => ?_) fun hbusy => ?_
  · have he : SourceLaw env (.socket (.datagram data src)) w.log (.event (.peerBusy src)) :=
      ⟨p,hears,hbusy⟩
    exact (emit_sourced { w with discovering := false } rfl he).map fun _ h => h
  · have he : SourceLaw env (.socket (.datagram data src)) w.log (.event (.connected src)) :=
      ⟨p,hears,by simpa using hbusy⟩
    refine Ends.bind (emit_sourced { w with peer := some src } rfl he) fun v hv => ?_
    exact hv.trans (requestOverview_own v).sourced

theorem intake_sourced (hw : SessionInv w) (data : List UInt8) (src : SocketAddr) :
    Ends (fun r : Intake => Sourced env (.socket (.datagram data src)) w r.worker)
      (Sourced env (.socket (.datagram data src)) w) (w.intake env data src) := by
  have hnotice (v : Worker) (text : String) (hv : v.log = w.log)
      (hcause : Complains (.socket (.datagram data src)) w.log text) :
      Ends (fun r : Intake => Sourced env (.socket (.datagram data src)) w r.worker)
        (Sourced env (.socket (.datagram data src)) w)
        (Intake.done <$> v.send (.protocolError text)) :=
    (emit_sourced (e := .protocolError text) v hv hcause).map fun _ h => h
  rw [intake]
  split
  · rename_i peer hfilter
    obtain ⟨hpeer,hne⟩ := Option.filter_eq_some_iff.mp hfilter
    exact hnotice w _ rfl (.stranger rfl (hw.session.trans hpeer) (by simpa using hne))
  refine Ends.ite (fun _ => Extends.refl _ _) fun _ => ?_
  have hlog : { w with clockReads := w.clockReads+1, lastRx := env.clock w.clockReads }.log = w.log := rfl
  simp only [now]
  generalize { w with clockReads := w.clockReads+1, lastRx := env.clock w.clockReads } = u at hlog ⊢
  cases hparse : Packet.parse data with
  | error e => exact hnotice u _ hlog (.unreadable rfl hparse)
  | ok packet =>
    refine Ends.ite (fun _ => ?_) fun _ => sourced_same hlog
    have hfront {v : Worker} (h : Sourced env (.socket (.datagram data src)) u v) :
        Sourced env (.socket (.datagram data src)) w v := by rwa [Sourced,← hlog]
    exact (latch_sourced u hparse).mono (fun _ h => hfront h) fun _ h => hfront h

theorem dispatch_sourced (hi : Hears i src p) (hs : sessionOf w.log = some src) :
    Ends (Sourced env i w) (Sourced env i w) (w.dispatch env p src) :=
  ((dispatch_spoken w p src).and (dispatch_unmarked env w p src)).mono
    (fun _ h => spoken_sourced hi hs h.1 h.2) fun _ h => spoken_sourced hi hs h.1 h.2

theorem receive_sourced (hw : SessionInv w) (r : Received) :
    Ends (Sourced env (.socket r) w) (Sourced env (.socket r) w) (receive env w r) := by
  cases r with
  | timedOut => exact .refl _ _
  | failed error => exact emit_sourced w rfl (Complains.failed error rfl)
  | datagram data src =>
    have hsourced : Ends (fun r : Intake => Sourced env (.socket (.datagram data src)) w r.worker)
        (Sourced env (.socket (.datagram data src)) w) (w.intake env data src) :=
      intake_sourced hw data src
    have hadmits : Ends (Admitted env (fun _ _ => True) w src) (Stopped env (fun _ _ => True) w)
        (w.intake env data src) := intake_ends w data src
    rw [receive,handleDatagram]
    cases hin : w.intake env data src with
    | error v =>
      rw [hin] at hsourced
      exact hsourced
    | ok r =>
      rw [hin] at hsourced hadmits
      cases r with
      | done v => exact hsourced
      | packet p v =>
        obtain ⟨hmoves,hpeer⟩ := hadmits
        have hears : Hears (.socket (.datagram data src)) src p := ⟨data,rfl,(intake_parse hin).1⟩
        have hs : sessionOf v.log = some src := (Moves.sessionInv hmoves hw).session.trans hpeer
        exact (dispatch_sourced hears hs).mono (fun _ h => hsourced.trans h) fun _ h => hsourced.trans h

theorem dropPeer_sourced (w : Worker) (hi : i.IsPass ∨ i = .control .disconnect) :
    Ends (Sourced env i w) (Sourced env i w) (w.dropPeer.send .disconnected) := by
  have hdrop : Sourced env i w w.dropPeer := by
    refine ⟨_,rfl,fun pre e post heq => ?_⟩
    have hmem : e ∈ w.pending.map fun q => Entry.discarded q.id := by simp [heq]
    obtain ⟨q,-,rfl⟩ := List.mem_map.mp hmem
    exact hi
  have hsend : Ends (Sourced env i w.dropPeer) (Sourced env i w.dropPeer) (w.dropPeer.send .disconnected) :=
    emit_sourced w.dropPeer rfl hi
  exact hsend.mono (fun _ h => hdrop.trans h) fun _ h => hdrop.trans h

theorem windUp_sourced (w : Worker) (r : Received) :
    Ends (Sourced env (.socket r) w) (Sourced env (.socket r) w) (windUp env w) := by
  have hcheck : Ends (Sourced env (.socket r) w) (Sourced env (.socket r) w) (checkTimeout env w) := by
    rw [checkTimeout]
    refine Ends.ite (fun _ => ?_) fun _ => .refl _ _
    refine Ends.ite (fun _ => ?_) fun _ => sourced_same rfl
    exact dropPeer_sourced { w with clockReads := w.clockReads+1 } (.inl ⟨r,rfl⟩)
  refine Ends.bind hcheck fun v hv => ?_
  exact (timers_own v).mono (fun _ h => hv.trans h.sourced) fun _ h => hv.trans h.sourced

theorem controlStep_sourced (w : Worker) (c : Control) :
    Ends (Sourced env (.control c) w) (Sourced env (.control c) w) (controlStep env w c) := by
  cases c with
  | shutdown => exact sourced_same rfl
  | connect => exact sourced_same rfl
  | disconnect =>
    refine Ends.ite (fun _ => ?_) fun _ => sourced_same rfl
    exact dropPeer_sourced { w with discovering := false } (.inr rfl)
  | sendGamepad gamepad =>
    have hprompts (dst : SocketAddr) (seq : UInt16) (timestamp : Int64) :
        Prompts env.cfg (.control (.sendGamepad gamepad)) dst
          (.gamepad { gamepad with seq := seq, timestamp := timestamp }) := .gamepad dst seq timestamp rfl
    have hsent : Sourced env (.control (.sendGamepad gamepad)) w (w.transmitGamepad env gamepad) := by
      rw [transmitGamepad]
      split
      · exact .refl _ _
      · simp only [nextSeq]
        split
        · exact extends_one (e := .sent _ _) (hprompts _ _ _) rfl
        · exact extends_one (e := .sent _ _) (hprompts _ _ gamepad.timestamp) rfl
    exact hsent
  | sendCommand command =>
    have hqueue : Writes (fun e => ∀ before, SourceLaw env (.control (.sendCommand command)) before e) w
        (w.queueCommand env .client command) :=
      queueCommand_as w .client command (fun _ _ hd hx _ => ⟨command,rfl,hd,hx⟩)
        (fun _ _ _ => .inr ⟨command,rfl⟩) fun _ _ => .inr ⟨command,rfl⟩
    obtain ⟨xs,hxs,hx⟩ := hqueue
    exact ⟨xs,hxs,fun pre e post heq => hx e (by simp [heq]) _⟩

theorem step_sourced (hw : SessionInv w) (i : Input) :
    Ends (Sourced env i w) (Sourced env i w) (step env w i) := by
  cases i with
  | control c => exact controlStep_sourced w c
  | socket r =>
    refine Ends.bind (receive_sourced hw r) fun v hv => ?_
    exact (windUp_sourced v r).mono (fun _ h => hv.trans h) fun _ h => hv.trans h

end Steps

section Runs

theorem run_sourced (env : Env) (receiver : Option ℕ) (inputs : List Input) :
    Written (step env) Worker.log (SourceLaw env) (start env receiver) inputs := by
  have hstep (w : Worker) (i : Input) (hw : SessionInv w) :
      Ends (fun v => SessionInv v ∧ Extends (SourceLaw env i) w.log v.log)
        (fun v => Extends (SourceLaw env i) w.log v.log) (step env w i) := by
    have hfollows : Follows env (fun _ _ => True) w (step env w i) :=
      step_follows w i fun _ _ _ => trivial
    exact (hfollows.and (step_sourced hw i)).mono (fun _ h => ⟨Moves.sessionInv h.1 hw,h.2⟩) fun _ h => h.2
  exact run_written hstep inputs (start_session env receiver) rfl

/-- What the history says of the queue and of the session is in order, also where the worker found
its receiver gone. -/
theorem run_entries (env : Env) (receiver : Option ℕ) (inputs : List Input) :
    Each (fun before e => SessionLaw before e ∧ EntryLaw env.cfg before e)
      (final (run env (start env receiver) inputs)).log := by
  have hgood : Along (step env) (Offers env fun _ _ => True) (start env receiver) inputs :=
    .of_forall (fun _ _ _ _ _ => trivial) _ _
  have hlaws {v : Worker} (hv : QueueInv env v) :
      Each (fun before e => SessionLaw before e ∧ EntryLaw env.cfg before e) v.log :=
    hv.session.law.and hv.entries
  have hrun : Ends _ _ (run env (start env receiver) inputs) :=
    run_invariant (fun _ _ h hm => hm.queueInv h) _ inputs (start_queueInv env receiver) hgood
  cases hr : run env (start env receiver) inputs with
  | ok w =>
    rw [hr] at hrun
    exact hlaws hrun
  | error w =>
    rw [hr] at hrun
    obtain ⟨v,hv,hlog|hlog,-⟩ := hrun
    · exact (congrArg _ hlog).mp (hlaws hv)
    · refine (congrArg _ hlog).mp ((hlaws hv).append _ fun pre e post heq => ?_)
      have hmem : e ∈ v.pending.map fun q => Entry.discarded q.id := by simp [heq]
      obtain ⟨p,hp,rfl⟩ := List.mem_map.mp hmem
      obtain ⟨origin,c,hc,-⟩ := enter_trace.mp (hv.ledger.payload p.item (List.mem_map_of_mem hp))
      exact ⟨trivial,origin,c,List.mem_append_left _ hc⟩

/-- Whatever is received and asked for, each entry of the history was written while one input was
handled, which accounts for it: what the worker reports, the packet told that it was handling, in
the session with its sender; what it sends and queues, the user asked for, a command of its peer
called for, or it is one of the worker's own heartbeats, discovery packets and five commands. -/
theorem history_explained (env : Env) (receiver : Option ℕ) (inputs : List Input) :
    Written (step env) Worker.log
      (fun i before e => SourceLaw env i before e ∧ SessionLaw before e ∧ EntryLaw env.cfg before e)
      (start env receiver) inputs :=
  (run_sourced env receiver inputs).and_each (run_entries env receiver inputs)

end Runs

end Client
end Robocol
