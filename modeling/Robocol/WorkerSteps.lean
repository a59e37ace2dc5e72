import Robocol.Client
import Robocol.PacketRoundTrip
import Robocol.Runs

/-! What the worker can do, in single moves. Every handler is a sequence of them, so an
invariant of the worker is shown for each move and holds between any two. -/
namespace Robocol
namespace Client

open Cmd Runs Relation Worker

/-- The events that report something of the connected robot. -/
def Event.isReport : Event → Bool
  | .telemetry _ | .opModeList _ | .opModeInited _ | .opModeRunning _ | .activeConfiguration _
  | .configurationList _ | .configuration _ | .userDeviceList _ | .scanResult _ | .lynxModules _
  | .stacktrace _ | .command _ _ | .webcamAvailable _ | .webcamFrame _ => true
  | _ => false

/-- The robot state a packet reports. -/
def robotStateOf : Packet → Option RobotState
  | .heartbeat hb => some hb.robotState
  | .telemetry t => some t.robotState
  | _ => none

/-- The packets a worker sends to its peer besides commands: their strings fit, and of the
commands only acks are among them. -/
def IsControl : Packet → Prop
  | .command c => ∃ d, c = Command.ackOf d
  | p => p.Fits

/-- One move. `good` is what is known of a packet in the state it is dispatched in. -/
inductive Move (env : Env) (good : Worker → Packet → Prop) : Worker → Worker → Prop
  | book (w : Worker) (lastRx : ℕ) (lastBeat : Option ℕ) (seq : UInt16) (discovering : Bool)
      (clockReads wallReads : ℕ) (lastWebcamRequest receiver : Option ℕ)
      (hc : w.clockReads ≤ clockReads) (hr : w.receiver = none → receiver = none) :
      Move env good w { w with
        lastRx := lastRx, lastBeat := lastBeat, seq := seq, discovering := discovering
        clockReads := clockReads, wallReads := wallReads
        lastWebcamRequest := lastWebcamRequest, receiver := receiver }
  | notice (w : Worker) (text : String) : Move env good w (w.note (.event (.protocolError text)))
  | busy (w : Worker) (src : SocketAddr) (h : w.peer = none) :
      Move env good w (w.note (.event (.peerBusy src)))
  | connect (w : Worker) (src : SocketAddr) (h : w.peer = none) :
      Move env good w ({ w with peer := some src }.note (.event (.connected src)))
  | disconnect (w : Worker) (peer : SocketAddr) (h : w.peer = some peer) :
      Move env good w (w.dropPeer.note (.event .disconnected))
  | robotState (w : Worker) (peer : SocketAddr) (packet : Packet) (state : RobotState)
      (h : w.peer = some peer) (hok : good w packet) (hs : robotStateOf packet = some state)
      (hne : w.robotState ≠ some state) :
      Move env good w ({ w with robotState := some state }.note (.event (.robotState state)))
  | telemetry (w : Worker) (peer : SocketAddr) (t : Telemetry) (h : w.peer = some peer)
      (ht : w.robotState = some t.robotState) : Move env good w (w.note (.event (.telemetry t)))
  | report (w : Worker) (peer : SocketAddr) (e : Event) (h : w.peer = some peer)
      (he : e.isReport = true) (ht : ∀ t, e ≠ .telemetry t) : Move env good w (w.note (.event e))
  | discover (w : Worker) (dst : SocketAddr) (h : w.peer = none) :
      Move env good w (w.sendTo dst (.peerDiscovery {}))
  | send (w : Worker) (peer : SocketAddr) (packet : Packet) (h : w.peer = some peer)
      (hp : IsControl packet) : Move env good w (w.sendTo peer packet)
  | accept (w : Worker) (peer : SocketAddr) (c : Command) (h : w.peer = some peer)
      (hok : ∃ v, good v (.command c)) (hack : c.acknowledged = false)
      (hframe : isFrameCommand c = false) : Move env good w (w.acceptKey (c.name,c.timestamp))
  | webcam (w : Worker) (available : Bool) (frames : Frames) (pendingRequest : Bool)
      (h : w.peer = none → (available = true → w.webcamAvailable = true) ∧
        (pendingRequest = true → w.webcamPendingRequest = true ∨ w.webcamAvailable = true) ∧
        (frames = w.webcamFrames ∨ frames = ∅))
      (hf : frames = w.webcamFrames ∨ frames = ∅ ∨ ∃ v c, good v (.command c) ∧
        c.acknowledged = false ∧ isFrameCommand c = true) :
      Move env good w { w with
        webcamAvailable := available, webcamFrames := frames, webcamPendingRequest := pendingRequest }
  | queue (w : Worker) (origin : Origin) (command : Command)
      (h : origin = .worker → command.name ≠ RESTART_ROBOT) :
      Move env good w (w.evict.push origin command)
  | ack (w : Worker) (peer : SocketAddr) (c : Command) (h : w.peer = some peer)
      (hok : good w (.command c)) (hack : c.acknowledged = true) : Move env good w (w.retire c)
  | restart (w : Worker) (peer : SocketAddr) (c command : Command) (h : w.peer = some peer)
      (hok : good w (.command c)) (hack : c.acknowledged = true)
      (hc : c.name = ACTIVATE_CONFIGURATION) (hr : command.name = RESTART_ROBOT) :
      Move env good w ((w.retire c).evict.push .worker command)
  | transmit (w : Worker) (peer : SocketAddr) (before after : List PendingCommand)
      (p : PendingCommand) (reads : ℕ) (h : w.peer = some peer)
      (hp : w.pending = before ++ p :: after) (hreads : w.clockReads ≤ reads)
      (hattempts : p.attempts < env.cfg.commandMaxAttempts)
      (hdue : ∀ t, p.lastSent = some t → env.cfg.commandRetryInterval ≤ env.clock reads-t)
      (hbefore : ∀ q ∈ before, q.lastSent ≠ none ∨ env.cfg.commandMaxAttempts ≤ q.attempts) :
      Move env good w ({ w with
        pending := before ++ p.sentAt (env.clock reads) :: after
        clockReads := reads+1 }.transmit peer (p.sentAt (env.clock reads)))
  | expire (w : Worker) (peer : SocketAddr) (before after : List PendingCommand)
      (p : PendingCommand) (h : w.peer = some peer) (hp : w.pending = before ++ p :: after)
      (hattempts : env.cfg.commandMaxAttempts ≤ p.attempts) :
      Move env good w ({ w with pending := before ++ after }.note
        (.dropped p.id p.command.name .exhausted))

/-- Any number of moves. -/
abbrev Moves (env : Env) (good : Worker → Packet → Prop) : Worker → Worker → Prop :=
  ReflTransGen (Move env good)

/-- A worker that returned: it has done no more than some moves, and may have dropped its peer
without saying so. With a live receiver it stands where the moves lead. -/
def Stopped (env : Env) (good : Worker → Packet → Prop) (w w' : Worker) : Prop :=
  ∃ v, Moves env good w v ∧ (v.log = w'.log ∨ v.dropPeer.log = w'.log) ∧
    (w.receiver = none → v = w')

/-- A computation that does nothing but moves. -/
def Follows (env : Env) (good : Worker → Packet → Prop) (w : Worker) :
    Except Worker Worker → Prop :=
  Ends (Moves env good w) (Stopped env good w)

variable {env : Env} {good : Worker → Packet → Prop} {w w' : Worker} {peer src : SocketAddr}

section Basics

theorem emit_cases (w : Worker) (e : Entry) :
    (∃ r, (w.receiver = none → r = none) ∧ w.emit e = .ok { w.note e with receiver := r }) ∨
      w.receiver = some 0 ∧ w.emit e = .error w := by
  cases hr : w.receiver with
  | none => exact .inl ⟨none,fun _ => rfl,by simp [emit,hr,note]⟩
  | some n =>
    cases n with
    | zero => exact .inr ⟨rfl,by simp [emit,hr]⟩
    | succ n => exact .inl ⟨some n,by simp,by simp [emit,hr]⟩

theorem evict_cases (w : Worker) :
    (w.evict = w ∧ w.pending.length < MAX_PENDING_COMMANDS) ∨
    ∃ p rest e r, w.pending = p :: rest ∧ MAX_PENDING_COMMANDS ≤ w.pending.length ∧
      (w.receiver = none → r = none) ∧
      (e = .dropped p.id p.command.name .capped ∨ e = .lost p.id ∧ w.receiver = some 0) ∧
      w.evict = { ({ w with pending := rest }.note e) with receiver := r } := by
  by_cases hcap : MAX_PENDING_COMMANDS ≤ w.pending.length
  · right
    cases hp : w.pending with
    | nil =>
      rw [hp] at hcap
      exact absurd hcap (by decide)
    | cons p rest =>
      have hlen : MAX_PENDING_COMMANDS ≤ (p :: rest).length := hp ▸ hcap
      rcases emit_cases { w with pending := rest } (.dropped p.id p.command.name .capped) with
        ⟨r,hr,hemit⟩|⟨hr,hemit⟩
      · refine ⟨p,rest,_,r,rfl,hlen,hr,.inl rfl,?_⟩
        rw [evict,if_pos hcap]
        simp only [hp,hemit]
      · refine ⟨p,rest,_,w.receiver,rfl,hlen,id,.inr ⟨rfl,hr⟩,?_⟩
        rw [evict,if_pos hcap]
        simp only [hp,hemit]
        rfl
  · exact .inl ⟨by simp [evict,hcap],Nat.lt_of_not_le hcap⟩

theorem evict_live (h : w.receiver = none) : w.evict.receiver = none := by
  rcases evict_cases w with ⟨he,-⟩|⟨p,rest,e,r,-,-,hr,-,he⟩
  · rw [he,h]
  · rw [he]
    exact hr h

/-- A live receiver stays live. -/
theorem Move.live (h : Move env good w w') (hr : w.receiver = none) : w'.receiver = none := by
  cases h with
  | book _ _ _ _ _ _ _ _ _ hr' => exact hr' hr
  | queue => exact evict_live (w := w) hr
  | restart _ c => exact evict_live (w := w.retire c) hr
  | _ => exact hr

theorem Moves.live (h : Moves env good w w') (hr : w.receiver = none) : w'.receiver = none := by
  induction h with
  | refl => exact hr
  | tail _ hm ih => exact hm.live ih

theorem Follows.trans {r : Except Worker Worker} (h : Moves env good w w')
    (hr : Follows env good w' r) : Follows env good w r := by
  refine Ends.mono hr (fun v hv => h.trans hv) ?_
  rintro v ⟨u,hu,hlog,hlive⟩
  exact ⟨u,h.trans hu,hlog,fun hw => hlive (Moves.live h hw)⟩

theorem Follows.bind {r : Except Worker Worker} {f : Worker → Except Worker Worker}
    (h : Follows env good w r) (hf : ∀ v, Moves env good w v → Follows env good v (f v)) :
    Follows env good w (r >>= f) :=
  Ends.bind h fun v hv => Follows.trans hv (hf v hv)

theorem Follows.ite {c : Prop} [Decidable c] {r s : Except Worker Worker}
    (hr : c → Follows env good w r) (hs : ¬c → Follows env good w s) :
    Follows env good w (if c then r else s) :=
  Ends.ite hr hs

theorem setReceiver (w : Worker) (r : Option ℕ) (hr : w.receiver = none → r = none) :
    Move env good w { w with receiver := r } :=
  .book w w.lastRx w.lastBeat w.seq w.discovering w.clockReads w.wallReads w.lastWebcamRequest r
    le_rfl hr

theorem readClock (w : Worker) (n : ℕ) : Move env good w { w with clockReads := w.clockReads+n } :=
  .book w w.lastRx w.lastBeat w.seq w.discovering (w.clockReads+n) w.wallReads w.lastWebcamRequest
    w.receiver (by omega) id

theorem readWall (w : Worker) (n : ℕ) : Move env good w { w with wallReads := w.wallReads+n } :=
  .book w w.lastRx w.lastBeat w.seq w.discovering w.clockReads (w.wallReads+n) w.lastWebcamRequest
    w.receiver le_rfl id

/-- An event whose note is a move, sent from a state that differs in nothing but what the
move changes. -/
theorem Follows.emit {v : Worker} {e : Entry} (hlog : w.log = v.log) (hr : w.receiver = v.receiver)
    (h : Move env good w (v.note e)) : Follows env good w (v.emit e) := by
  rcases emit_cases v e with ⟨r,hlive,hemit⟩|⟨hr0,hemit⟩
  · rw [hemit]
    exact (ReflTransGen.single h).tail (setReceiver (v.note e) r hlive)
  · rw [hemit]
    exact ⟨w,.refl,.inl hlog,fun hn => by simp [hn,hr0] at hr⟩

end Basics

section Handlers

theorem stamp_eq (env : Env) (w : Worker) (command : Command) :
    ∃ n c, w.stamp env command = (c,{ w with wallReads := w.wallReads+n }) ∧
      c.name = command.name ∧ c.extra = command.extra ∧
      (command.timestamp = 0 → c.timestamp = Int64.ofNat (env.wall w.wallReads) ∧ n = 1) ∧
      (command.timestamp ≠ 0 → c = command ∧ n = 0) := by
  by_cases ht : command.timestamp = 0
  · exact ⟨1,{ command with timestamp := Int64.ofNat (env.wall w.wallReads) },
      by simp only [stamp,if_pos ht,nowNanos],rfl,rfl,fun _ => ⟨rfl,rfl⟩,fun h => absurd ht h⟩
  · exact ⟨0,command,by simp only [stamp,if_neg ht]; rfl,rfl,rfl,fun h => absurd h ht,
      fun _ => ⟨rfl,rfl⟩⟩

theorem isDue_eq (env : Env) (w : Worker) (t : Option ℕ) (interval : ℕ) :
    ∃ n, (w.isDue env t interval).2 = { w with clockReads := w.clockReads+n } := by
  cases t with
  | none => exact ⟨0,rfl⟩
  | some t => exact ⟨1,rfl⟩

theorem queueCommand_moves (w : Worker) (origin : Origin) (command : Command)
    (h : origin = .worker → command.name ≠ RESTART_ROBOT) :
    Moves env good w (w.queueCommand env origin command) := by
  obtain ⟨n,c,hstamp,hname,-⟩ := stamp_eq env w command
  simp only [queueCommand,hstamp]
  exact (ReflTransGen.single (readWall w n)).tail (.queue _ origin c (hname ▸ h))

theorem sendWebcamRequest_moves (w : Worker) : Moves env good w (w.sendWebcamRequest env) := by
  have hbook : Move env good w
      { w with clockReads := w.clockReads+1, lastWebcamRequest := some (env.clock w.clockReads) } :=
    .book w w.lastRx w.lastBeat w.seq w.discovering (w.clockReads+1) w.wallReads
      (some (env.clock w.clockReads)) w.receiver (by omega) id
  have hname : REQUEST_FRAME ≠ RESTART_ROBOT := by decide
  exact (ReflTransGen.single hbook).trans
    (queueCommand_moves _ .worker (Command.new REQUEST_FRAME "" 0) fun _ => hname)

/-- A paced request is sent at once or deferred. -/
theorem requestWebcamFramePaced_eq (env : Env) (w : Worker) : ∃ n,
    w.requestWebcamFramePaced env = { w with clockReads := w.clockReads+n }.sendWebcamRequest env ∨
    w.requestWebcamFramePaced env =
      { w with clockReads := w.clockReads+n, webcamPendingRequest := true } := by
  obtain ⟨n,hdue⟩ := isDue_eq env w w.lastWebcamRequest env.cfg.webcamMinFrameInterval
  refine ⟨n,?_⟩
  simp only [requestWebcamFramePaced,hdue]
  split
  · exact .inl rfl
  · exact .inr rfl

/-- A deferred request needs a stream. -/
theorem requestWebcamFramePaced_moves (w : Worker)
    (h : w.peer = none → w.webcamAvailable = true) :
    Moves env good w (w.requestWebcamFramePaced env) := by
  obtain ⟨n,hpaced⟩ := requestWebcamFramePaced_eq env w
  have hread : Moves env good w { w with clockReads := w.clockReads+n } := .single (readClock w n)
  rcases hpaced with hpaced|hpaced
  · rw [hpaced]
    exact hread.trans (sendWebcamRequest_moves _)
  · rw [hpaced]
    refine hread.tail (.webcam _ w.webcamAvailable w.webcamFrames true (fun hp => ?_) (.inl rfl))
    exact ⟨id,fun _ => .inr (h hp),.inl rfl⟩

theorem clearFrames_move (w : Worker) : Move env good w { w with webcamFrames := ∅ } :=
  .webcam w w.webcamAvailable ∅ w.webcamPendingRequest (fun _ => ⟨id,.inl,.inr rfl⟩) (.inr (.inl rfl))

/-- The timers send a deferred request, do nothing, or ask a stalled stream again. -/
theorem webcamTimers_eq (env : Env) (w : Worker) : ∃ n,
    w.webcamTimers env = { w with
      clockReads := w.clockReads+n, webcamPendingRequest := false }.sendWebcamRequest env ∨
    w.webcamTimers env = { w with clockReads := w.clockReads+n } ∨
    w.webcamAvailable = true ∧ w.webcamTimers env = { w with
      clockReads := w.clockReads+n, webcamFrames := ∅ }.requestWebcamFramePaced env := by
  obtain ⟨n,hdue⟩ : ∃ n, (if w.webcamPendingRequest = true then
      w.isDue env w.lastWebcamRequest env.cfg.webcamMinFrameInterval else (false,w)).2 =
      { w with clockReads := w.clockReads+n } := by
    split
    · exact isDue_eq env w _ _
    · exact ⟨0,rfl⟩
  rw [webcamTimers]
  generalize (if w.webcamPendingRequest = true then
      w.isDue env w.lastWebcamRequest env.cfg.webcamMinFrameInterval else (false,w)) = x at hdue ⊢
  obtain ⟨due,v⟩ := x
  obtain rfl : v = { w with clockReads := w.clockReads+n } := hdue
  by_cases hd : due = true
  · exact ⟨n,.inl (by simp only [if_pos hd])⟩
  · simp only [if_neg hd]
    split
    · rename_i hav
      simp only [Bool.and_eq_true] at hav
      split
      · exact ⟨n,.inr (.inl rfl)⟩
      · rename_i t _
        simp only [elapsed]
        by_cases hstall : WEBCAM_STALL_TIMEOUT ≤ env.clock (w.clockReads+n)-t
        · exact ⟨n+1,.inr (.inr ⟨hav.1,if_pos hstall⟩)⟩
        · exact ⟨n+1,.inr (.inl (if_neg hstall))⟩
    · exact ⟨n,.inr (.inl rfl)⟩

theorem webcamTimers_moves (w : Worker) : Moves env good w (w.webcamTimers env) := by
  obtain ⟨n,htimers⟩ := webcamTimers_eq env w
  have hread : Moves env good w { w with clockReads := w.clockReads+n } := .single (readClock w n)
  rcases htimers with hsend|hwait|⟨hav,hstall⟩
  · have hdefer : Move env good { w with clockReads := w.clockReads+n }
        { w with clockReads := w.clockReads+n, webcamPendingRequest := false } :=
      .webcam _ w.webcamAvailable w.webcamFrames false
        (fun _ => ⟨id,fun h => absurd h Bool.false_ne_true,.inl rfl⟩) (.inl rfl)
    rw [hsend]
    exact (hread.tail hdefer).trans (sendWebcamRequest_moves _)
  · rw [hwait]
    exact hread
  · rw [hstall]
    exact (hread.tail (clearFrames_move _)).trans (requestWebcamFramePaced_moves _ fun _ => hav)

/-- A chunk changes the frames alone, or completes one, which is reported, and asks for the next
where a stream is on. -/
theorem handleFrameChunk_eq (env : Env) (w : Worker) (extra : String) : ∃ frames,
    w.handleFrameChunk env extra = (none,{ w with webcamFrames := frames }) ∨
    ∃ data, w.handleFrameChunk env extra = (some (.webcamFrame data),{ w with webcamFrames := frames }) ∨
      w.webcamAvailable = true ∧ w.handleFrameChunk env extra =
        (some (.webcamFrame data),{ w with webcamFrames := frames }.requestWebcamFramePaced env) := by
  cases hb : chunkPayload env.json extra with
  | none => exact ⟨w.webcamFrames,.inl (by simp only [handleFrameChunk,hb])⟩
  | some payload =>
    obtain ⟨frameNum,index,bytes⟩ := payload
    cases hput : putChunk w.webcamFrames frameNum index bytes with
    | mk complete frames =>
      refine ⟨frames,?_⟩
      cases complete with
      | none => exact .inl (by simp only [handleFrameChunk,hb,hput])
      | some data =>
        simp only [handleFrameChunk,hb,hput]
        by_cases hav : w.webcamAvailable = true
        · exact .inr ⟨data,.inr ⟨hav,by rw [if_pos hav]⟩⟩
        · exact .inr ⟨data,.inl (by rw [if_neg hav])⟩

theorem transmitGamepad_moves (w : Worker) (gamepad : Gamepad) :
    Moves env good w (w.transmitGamepad env gamepad) := by
  cases hp : w.peer with
  | none =>
    simp only [transmitGamepad,hp]
    exact .refl
  | some peer =>
    obtain ⟨n,g,hg⟩ : ∃ n g, w.transmitGamepad env gamepad =
        { w with seq := w.seq+1, wallReads := w.wallReads+n }.sendTo peer (.gamepad g) := by
      simp only [transmitGamepad,hp,nextSeq]
      by_cases ht : gamepad.timestamp = 0
      · exact ⟨1,_,by simp only [ht,if_true]; rfl⟩
      · exact ⟨0,_,by simp only [ht,if_false]; rfl⟩
    rw [hg]
    have hbook : Move env good w { w with seq := w.seq+1, wallReads := w.wallReads+n } :=
      .book w w.lastRx w.lastBeat (w.seq+1) w.discovering w.clockReads (w.wallReads+n)
        w.lastWebcamRequest w.receiver le_rfl id
    exact (ReflTransGen.single hbook).tail
      (.send { w with seq := w.seq+1, wallReads := w.wallReads+n } peer _ hp trivial)

/-- The calls of a worker to the addresses in its list. -/
def calls (env : Env) : List Entry :=
  env.cfg.peerAddrs.map fun addr => .sent ⟨addr,env.cfg.peerPort⟩ (.peerDiscovery {})

theorem tick_alone (hp : w.peer = none) :
    w.tick env = { w with log := w.log ++ if w.discovering then calls env else [] } := by
  have hall (addrs : List (UInt8 × UInt8 × UInt8 × UInt8)) (v : Worker) : addrs.foldl
      (fun v addr => v.sendTo ⟨addr,env.cfg.peerPort⟩ (.peerDiscovery {})) v =
        { v with log := v.log ++ addrs.map fun addr => .sent ⟨addr,env.cfg.peerPort⟩ (.peerDiscovery {}) } := by
    induction addrs generalizing v with
    | nil => rw [List.foldl_nil,List.map_nil,List.append_nil]
    | cons addr addrs ih =>
      rw [List.foldl_cons,ih]
      simp [sendTo,note]
  simp only [tick,hp]
  split
  · rw [hall,← hp]
    rfl
  · rw [List.append_nil,← hp]

theorem mem_calls {e : Entry} (h : e ∈ if w.discovering then calls env else []) :
    ∃ addr ∈ env.cfg.peerAddrs, .sent ⟨addr,env.cfg.peerPort⟩ (.peerDiscovery {}) = e := by
  split at h
  · exact List.mem_map.mp h
  · cases h

theorem tick_moves (w : Worker) : Moves env good w (w.tick env) := by
  cases hp : w.peer with
  | none =>
    simp only [tick,hp]
    split
    · have hall (addrs : List (UInt8 × UInt8 × UInt8 × UInt8)) (v : Worker) (hv : v.peer = none) :
          Moves env good v (addrs.foldl
            (fun v addr => v.sendTo ⟨addr,env.cfg.peerPort⟩ (.peerDiscovery {})) v) := by
        induction addrs generalizing v with
        | nil => exact .refl
        | cons addr addrs ih => exact (ReflTransGen.single (.discover v _ hv)).trans (ih _ hv)
      exact hall _ w hp
    · exact .refl
  | some peer =>
    obtain ⟨hb,htick,hfit⟩ : ∃ hb, w.tick env =
        { w with seq := w.seq+1, wallReads := w.wallReads+1+1 }.sendTo peer (.heartbeat hb) ∧
          (Packet.heartbeat hb).Fits := by
      refine ⟨{
        seq := w.seq+1, timestamp := Int64.ofNat (env.wall w.wallReads), robotState := .notStarted
        t0 := Int64.ofNat (env.wall (w.wallReads+1)/10^6) },?_,?_⟩
      · simp only [tick,hp,nextSeq,nowNanos,nowMillis]
      · show (utf8 "GMT").length ≤ 255
        decide
    rw [htick]
    have hbook : Move env good w { w with seq := w.seq+1, wallReads := w.wallReads+1+1 } :=
      .book w w.lastRx w.lastBeat (w.seq+1) w.discovering w.clockReads (w.wallReads+1+1)
        w.lastWebcamRequest w.receiver le_rfl id
    exact (ReflTransGen.single hbook).tail
      (.send { w with seq := w.seq+1, wallReads := w.wallReads+1+1 } peer _ hp hfit)

theorem beat_moves (w : Worker) : Moves env good w (beat env w) := by
  obtain ⟨n,hdue⟩ := isDue_eq env w w.lastBeat env.cfg.heartbeatInterval
  simp only [beat,hdue]
  split
  · have hbook : Move env good w { w with
        clockReads := w.clockReads+n+1
        lastBeat := some (env.clock (w.clockReads+n)) } :=
      .book w w.lastRx (some (env.clock (w.clockReads+n))) w.seq w.discovering (w.clockReads+n+1)
        w.wallReads w.lastWebcamRequest w.receiver (by omega) id
    exact (ReflTransGen.single hbook).trans (tick_moves _)
  · exact .single (readClock w n)

end Handlers

section Retransmission

/-- One command of the retransmission pass: kept as it is, dropped, or sent once more. -/
theorem sweep_cons (env : Env) (reads : ℕ) (p : PendingCommand) (ps : List PendingCommand) :
    (∃ n, p.lastSent ≠ none ∧ sweep env reads (p :: ps) =
      ({ (sweep env (reads+n) ps).1 with kept := p :: (sweep env (reads+n) ps).1.kept },
        (sweep env (reads+n) ps).2)) ∨
    (∃ n, env.cfg.commandMaxAttempts ≤ p.attempts ∧ sweep env reads (p :: ps) =
      ({ (sweep env (reads+n) ps).1 with dropped := p :: (sweep env (reads+n) ps).1.dropped },
        (sweep env (reads+n) ps).2)) ∨
    ∃ n, p.attempts < env.cfg.commandMaxAttempts ∧
      (∀ t, p.lastSent = some t → env.cfg.commandRetryInterval ≤ env.clock (reads+n)-t) ∧
      sweep env reads (p :: ps) =
        ({ (sweep env (reads+n+1) ps).1 with
            kept := p.sentAt (env.clock (reads+n)) :: (sweep env (reads+n+1) ps).1.kept
            toSend := p.sentAt (env.clock (reads+n)) :: (sweep env (reads+n+1) ps).1.toSend },
          (sweep env (reads+n+1) ps).2) := by
  cases hl : p.lastSent with
  | none =>
    by_cases hmax : env.cfg.commandMaxAttempts ≤ p.attempts
    · exact .inr (.inl ⟨0,hmax,by simp [sweep,hl,hmax]⟩)
    · exact .inr (.inr ⟨0,Nat.lt_of_not_le hmax,by simp,by simp [sweep,hl,hmax]⟩)
  | some t =>
    by_cases hfresh : env.clock reads-t < env.cfg.commandRetryInterval
    · exact .inl ⟨1,by simp,by simp [sweep,hl,hfresh]⟩
    · by_cases hmax : env.cfg.commandMaxAttempts ≤ p.attempts
      · exact .inr (.inl ⟨1,hmax,by simp [sweep,hl,hfresh,hmax]⟩)
      · refine .inr (.inr ⟨1,Nat.lt_of_not_le hmax,fun u hu => ?_,by simp [sweep,hl,hfresh,hmax]⟩)
        obtain rfl := Option.some.inj hu
        have hmono : env.clock reads ≤ env.clock (reads+1) := env.clock_mono (by omega)
        have hle := Nat.le_of_not_lt hfresh
        omega

/-- A list with its exhausted commands, what is left of it, and these commands. -/
inductive Expires (env : Env) :
    List PendingCommand → List PendingCommand → List PendingCommand → Prop
  | nil : Expires env [] [] []
  | keep {mid kept dropped : List PendingCommand} (p : PendingCommand)
      (h : Expires env mid kept dropped) : Expires env (p :: mid) (p :: kept) dropped
  | drop {mid kept dropped : List PendingCommand} (p : PendingCommand)
      (hp : env.cfg.commandMaxAttempts ≤ p.attempts) (h : Expires env mid kept dropped) :
      Expires env (p :: mid) kept (p :: dropped)

theorem transmit_foldl (peer : SocketAddr) (ps X : List PendingCommand) (c : ℕ) (v : Worker) :
    ps.foldl (transmit peer) { v with pending := X, clockReads := c } =
      { ps.foldl (transmit peer) v with pending := X, clockReads := c } := by
  induction ps generalizing v with
  | nil => rfl
  | cons p ps ih => exact ih (v.transmit peer p)

theorem foldl_transmit_peer (peer : SocketAddr) (ps : List PendingCommand) (v : Worker) :
    (ps.foldl (transmit peer) v).peer = v.peer := by
  induction ps generalizing v with
  | nil => rfl
  | cons p ps ih => exact ih (v.transmit peer p)

/-- The transmissions come one by one, in queue order, before any command is given up. -/
theorem sweep_moves (ps before : List PendingCommand) (v : Worker) (reads : ℕ)
    (hpeer : v.peer = some peer) (hp : v.pending = before ++ ps) (hc : v.clockReads ≤ reads)
    (hbefore : ∀ q ∈ before, q.lastSent ≠ none ∨ env.cfg.commandMaxAttempts ≤ q.attempts) :
    ∃ mid, Expires env mid (sweep env reads ps).1.kept (sweep env reads ps).1.dropped ∧
      Moves env good v { (sweep env reads ps).1.toSend.foldl (transmit peer) v with
        pending := before ++ mid, clockReads := (sweep env reads ps).2 } := by
  induction ps generalizing before v reads with
  | nil =>
    refine ⟨[],.nil,.single ?_⟩
    have hbook : Move env good v { v with clockReads := reads } :=
      .book v v.lastRx v.lastBeat v.seq v.discovering reads v.wallReads v.lastWebcamRequest
        v.receiver hc id
    simpa only [sweep,List.foldl_nil,← hp] using hbook
  | cons p ps ih =>
    have hsnoc (q : PendingCommand) (hq : q.lastSent ≠ none ∨ env.cfg.commandMaxAttempts ≤ q.attempts) :
        ∀ x ∈ before ++ [q], x.lastSent ≠ none ∨ env.cfg.commandMaxAttempts ≤ x.attempts := by
      intro x hx
      rcases List.mem_append.mp hx with hx|hx
      · exact hbefore x hx
      · rwa [List.mem_singleton.mp hx]
    rcases sweep_cons env reads p ps with ⟨n,hl,hs⟩|⟨n,hmax,hs⟩|⟨n,hatt,hdue,hs⟩
    · obtain ⟨mid,hexp,hmoves⟩ := ih (before ++ [p]) v (reads+n) hpeer (by simpa using hp) (by omega)
        (hsnoc p (.inl hl))
      refine ⟨p :: mid,?_,?_⟩
      · rw [hs]
        exact .keep p hexp
      · rw [hs]
        simpa only [List.append_assoc,List.singleton_append] using hmoves
    · obtain ⟨mid,hexp,hmoves⟩ := ih (before ++ [p]) v (reads+n) hpeer (by simpa using hp) (by omega)
        (hsnoc p (.inr hmax))
      refine ⟨p :: mid,?_,?_⟩
      · rw [hs]
        exact .drop p hmax hexp
      · rw [hs]
        simpa only [List.append_assoc,List.singleton_append] using hmoves
    · let q := p.sentAt (env.clock (reads+n))
      let v1 := { v with pending := before ++ q :: ps, clockReads := reads+n+1 }.transmit peer q
      have hsend : Move env good v v1 :=
        .transmit v peer before ps p (reads+n) hpeer hp (by omega) hatt hdue hbefore
      have hq : q.lastSent ≠ none := by simp [q,PendingCommand.sentAt]
      obtain ⟨mid,hexp,hmoves⟩ := ih (before ++ [q]) v1 (reads+n+1) hpeer
        (by rw [List.append_assoc]; rfl) le_rfl (hsnoc q (.inl hq))
      have hfold : (sweep env (reads+n+1) ps).1.toSend.foldl (transmit peer) v1 =
          { (sweep env (reads+n+1) ps).1.toSend.foldl (transmit peer) (v.transmit peer q) with
            pending := before ++ q :: ps, clockReads := reads+n+1 } :=
        transmit_foldl peer _ _ _ (v.transmit peer q)
      rw [hfold,List.append_assoc] at hmoves
      refine ⟨q :: mid,?_,?_⟩
      · rw [hs]
        exact .keep q hexp
      · rw [hs]
        exact (ReflTransGen.single hsend).trans hmoves

/-- The exhausted commands go one by one, each with its event. -/
theorem expire_follows {mid kept dropped : List PendingCommand} (h : Expires env mid kept dropped)
    (before : List PendingCommand) (v : Worker) (hpeer : v.peer = some peer) :
    Follows env good { v with pending := before ++ mid }
      (dropped.foldlM reportDropped { v with pending := before ++ kept }) := by
  induction h generalizing before v with
  | nil => exact .refl
  | keep p h ih => simpa using ih (before ++ [p]) v hpeer
  | @drop mid kept dropped p hp h ih =>
    rw [List.foldlM_cons]
    have hmove : Move env good { v with pending := before ++ p :: mid }
        ({ v with pending := before ++ mid }.note (.dropped p.id p.command.name .exhausted)) :=
      .expire { v with pending := before ++ p :: mid } peer before mid p hpeer rfl hp
    rcases emit_cases { v with pending := before ++ kept } (.dropped p.id p.command.name .exhausted)
      with ⟨r,hr,hemit⟩|⟨hr,hemit⟩
    · rw [reportDropped,hemit]
      refine Follows.trans ((ReflTransGen.single hmove).tail (setReceiver _ r hr)) ?_
      exact ih before { v.note (.dropped p.id p.command.name .exhausted) with receiver := r } hpeer
    · rw [reportDropped,hemit]
      exact ⟨_,.refl,.inl rfl,fun hn => absurd (hn.symm.trans hr) (Option.some_ne_none 0).symm⟩

theorem retransmitPending_follows (w : Worker) : Follows env good w (w.retransmitPending env) := by
  cases hp : w.peer with
  | none =>
    simp only [retransmitPending,hp]
    exact .refl
  | some peer =>
    obtain ⟨mid,hexp,hmoves⟩ : ∃ mid, Expires env mid (sweep env w.clockReads w.pending).1.kept
          (sweep env w.clockReads w.pending).1.dropped ∧
        Moves env good w { (sweep env w.clockReads w.pending).1.toSend.foldl (transmit peer) w with
          pending := mid, clockReads := (sweep env w.clockReads w.pending).2 } :=
      sweep_moves w.pending [] w w.clockReads hp rfl le_rfl (by simp)
    refine Follows.trans hmoves ?_
    have hpeer : ((sweep env w.clockReads w.pending).1.toSend.foldl (transmit peer) w).peer =
        some peer := by rw [foldl_transmit_peer,hp]
    have hrun : w.retransmitPending env = (sweep env w.clockReads w.pending).1.dropped.foldlM
        reportDropped { (sweep env w.clockReads w.pending).1.toSend.foldl (transmit peer) w with
          pending := (sweep env w.clockReads w.pending).1.kept
          clockReads := (sweep env w.clockReads w.pending).2 } := by
      rw [← transmit_foldl]
      simp only [retransmitPending,hp]
    rw [hrun]
    exact expire_follows hexp []
      { (sweep env w.clockReads w.pending).1.toSend.foldl (transmit peer) w with
        clockReads := (sweep env w.clockReads w.pending).2 } hpeer

end Retransmission

section Datagrams

@[simp] theorem evict_peer (w : Worker) : w.evict.peer = w.peer := by
  rcases evict_cases w with ⟨he,-⟩|⟨p,rest,e,r,-,-,-,-,he⟩
  all_goals simp only [he,note]

@[simp] theorem evict_robotState (w : Worker) : w.evict.robotState = w.robotState := by
  rcases evict_cases w with ⟨he,-⟩|⟨p,rest,e,r,-,-,-,-,he⟩
  all_goals simp only [he,note]

@[simp] theorem queueCommand_peer (w : Worker) (origin : Origin) (c : Command) :
    (w.queueCommand env origin c).peer = w.peer := by
  obtain ⟨n,d,hstamp,-⟩ := stamp_eq env w c
  simp [queueCommand,hstamp,push]

@[simp] theorem queueCommand_robotState (w : Worker) (origin : Origin) (c : Command) :
    (w.queueCommand env origin c).robotState = w.robotState := by
  obtain ⟨n,d,hstamp,-⟩ := stamp_eq env w c
  simp [queueCommand,hstamp,push]

@[simp] theorem requestWebcamFramePaced_peer (w : Worker) :
    (w.requestWebcamFramePaced env).peer = w.peer := by
  obtain ⟨n,hpaced|hpaced⟩ := requestWebcamFramePaced_eq env w
  · simp [hpaced,sendWebcamRequest,now]
  · rw [hpaced]

/-- What handling a command of the peer may do, and the event it gives. -/
structure Handles (env : Env) (good : Worker → Packet → Prop) (w : Worker)
    (r : Option Event × Worker) : Prop where
  moves : Moves env good w r.2
  peer : r.2.peer = w.peer
  report : ∀ e, r.1 = some e → e.isReport = true ∧ ∀ t, e ≠ .telemetry t

theorem Handles.event (w : Worker) (e : Event) (he : e.isReport = true)
    (ht : ∀ t, e ≠ .telemetry t) : Handles env good w (some e,w) :=
  ⟨.refl,rfl,fun _ h => Option.some.inj h ▸ ⟨he,ht⟩⟩

theorem Handles.nothing (w : Worker) : Handles env good w (none,w) :=
  ⟨.refl,rfl,fun _ h => by simp at h⟩

theorem Handles.ite {c : Prop} [Decidable c] {r s : Option Event × Worker}
    (hr : c → Handles env good w r) (hs : Handles env good w s) :
    Handles env good w (if c then r else s) :=
  iteInduction (motive := Handles env good w) hr fun _ => hs

theorem setWebcam (w : Worker) (available : Bool) (frames : Frames) (pendingRequest : Bool)
    (h : w.peer = some peer) (hf : frames = w.webcamFrames ∨ frames = ∅ ∨ ∃ v c,
      good v (.command c) ∧ c.acknowledged = false ∧ isFrameCommand c = true) :
    Move env good w { w with
      webcamAvailable := available, webcamFrames := frames, webcamPendingRequest := pendingRequest } :=
  .webcam w available frames pendingRequest (fun hn => by simp [h] at hn) hf

theorem handleStreamChange_handles (w : Worker) (extra : String) (h : w.peer = some peer) :
    Handles env good w (some (w.handleStreamChange env extra).1,(w.handleStreamChange env extra).2) := by
  rw [handleStreamChange]
  generalize (StdText.trim extra.toList == "true".toList) = available
  have hset : Move env good w { w with webcamAvailable := available } :=
    setWebcam w available w.webcamFrames w.webcamPendingRequest h (.inl rfl)
  cases available with
  | true =>
    refine ⟨(ReflTransGen.single hset).trans (requestWebcamFramePaced_moves _ fun _ => rfl),by simp,
      fun e he => ?_⟩
    obtain rfl := Option.some.inj he
    exact ⟨rfl,by simp⟩
  | false =>
    refine ⟨.single (setWebcam w false ∅ false h (.inr (.inl rfl))),rfl,fun e he => ?_⟩
    obtain rfl := Option.some.inj he
    exact ⟨rfl,by simp⟩

section Frames

variable {v : Worker} {command : Command} (hok : good v (.command command))
  (hack : command.acknowledged = false)

include hok hack

theorem handleFrameBegin_moves (w : Worker) (h : w.peer = some peer)
    (hname : command.name = RECEIVE_FRAME_BEGIN) :
    Moves env good w (w.handleFrameBegin env command.extra) ∧
      (w.handleFrameBegin env command.extra).peer = w.peer := by
  have hframe : isFrameCommand command = true := by simp [isFrameCommand,hname]
  rw [handleFrameBegin]
  split
  · exact ⟨.refl,rfl⟩
  · exact ⟨.single (setWebcam w w.webcamAvailable _ w.webcamPendingRequest h
      (.inr (.inr ⟨v,command,hok,hack,hframe⟩))),rfl⟩

theorem handleFrameChunk_handles (w : Worker) (h : w.peer = some peer)
    (hname : command.name = RECEIVE_FRAME_CHUNK) :
    Handles env good w (w.handleFrameChunk env command.extra) := by
  have hframe : isFrameCommand command = true := by simp [isFrameCommand,hname]
  obtain ⟨frames,hnone|⟨data,hshow|⟨hav,hask⟩⟩⟩ := handleFrameChunk_eq env w command.extra
  all_goals
    have hset : Move env good w { w with webcamFrames := frames } :=
      setWebcam w w.webcamAvailable _ w.webcamPendingRequest h
        (.inr (.inr ⟨v,command,hok,hack,hframe⟩))
  · rw [hnone]
    exact ⟨.single hset,rfl,fun _ he => by simp at he⟩
  · rw [hshow]
    exact ⟨.single hset,rfl,fun e he => Option.some.inj he ▸ ⟨rfl,by simp⟩⟩
  · rw [hask]
    exact ⟨(ReflTransGen.single hset).trans (requestWebcamFramePaced_moves _ fun _ => hav),by simp,
      fun e he => Option.some.inj he ▸ ⟨rfl,by simp⟩⟩

theorem commandEvent_handles (w : Worker) (h : w.peer = some peer) :
    Handles env good w (w.commandEvent env command) := by
  unfold commandEvent
  iterate 10 refine .ite (fun _ => .event w _ rfl nofun) ?_
  refine .ite (fun _ => handleStreamChange_handles w _ h) (.ite (fun hname => ?_) ?_)
  · obtain ⟨hbegin,hpeer⟩ : Moves env good w (w.handleFrameBegin env command.extra) ∧
        (w.handleFrameBegin env command.extra).peer = w.peer :=
      handleFrameBegin_moves hok hack w h hname
    exact ⟨hbegin,hpeer,nofun⟩
  · exact .ite (fun hname => handleFrameChunk_handles hok hack w h hname) (.event w _ rfl nofun)

end Frames

theorem updateRobotState_ends (w : Worker) (packet : Packet) (state : RobotState)
    (h : w.peer = some peer) (hok : good w packet) (hs : robotStateOf packet = some state) :
    Ends (fun v => Moves env good w v ∧ v.peer = some peer ∧ v.robotState = some state)
      (Stopped env good w) (w.updateRobotState state) := by
  by_cases heq : w.robotState = some state
  · simpa only [updateRobotState,if_pos heq] using ⟨.refl,h,heq⟩
  · simp only [updateRobotState,if_neg heq,send]
    have hmove : Move env good w
        ({ w with robotState := some state }.note (.event (.robotState state))) :=
      .robotState w peer packet state h hok hs heq
    rcases emit_cases { w with robotState := some state } (.event (.robotState state)) with
      ⟨r,hr,hemit⟩|⟨hr,hemit⟩
    · rw [hemit]
      exact ⟨(ReflTransGen.single hmove).tail (setReceiver _ r hr),h,rfl⟩
    · rw [hemit]
      exact ⟨w,.refl,.inl rfl,fun hn => absurd (hn.symm.trans hr) (Option.some_ne_none 0).symm⟩

theorem evict_wallReads (w : Worker) (n : ℕ) :
    { w with wallReads := n }.evict = { w.evict with wallReads := n } := by
  by_cases hcap : MAX_PENDING_COMMANDS ≤ w.pending.length
  · cases hp : w.pending with
    | nil =>
      rw [hp] at hcap
      exact absurd hcap (by decide)
    | cons p rest =>
      cases hr : w.receiver with
      | none => simp only [evict,hp,hp ▸ hcap,if_true,emit,hr,note]
      | some k =>
        cases k with
        | zero => simp only [evict,hp,hp ▸ hcap,if_true,emit,hr,note]
        | succ k => simp only [evict,hp,hp ▸ hcap,if_true,emit,hr,note]
  · simp only [evict,if_neg hcap]

theorem handleAck_moves (w : Worker) (command : Command) (h : w.peer = some peer)
    (hok : good w (.command command)) (hack : command.acknowledged = true) :
    Moves env good w (w.handleAck env command) := by
  by_cases hname : command.name = ACTIVATE_CONFIGURATION
  · obtain ⟨n,c,hstamp,hc,-⟩ := stamp_eq env (w.retire command) (Command.new RESTART_ROBOT "" 0)
    have hrun : w.handleAck env command =
        { (w.retire command).evict.push .worker c with wallReads := w.wallReads+n } := by
      simp only [handleAck,if_pos hname,queueCommand,hstamp,evict_wallReads]
      rfl
    have hrestart : Move env good w ((w.retire command).evict.push .worker c) :=
      .restart w peer command c h hok hack hname hc
    have hwall : ((w.retire command).evict.push .worker c).wallReads = w.wallReads := by
      rcases evict_cases (w.retire command) with ⟨he,-⟩|⟨p,rest,e,r,-,-,-,-,he⟩
      all_goals rw [he]; rfl
    rw [hrun,← hwall]
    exact (ReflTransGen.single hrestart).tail (readWall _ n)
  · simp only [handleAck,if_neg hname]
    exact .single (.ack w peer command h hok hack)

theorem handleCommand_follows (w : Worker) (command : Command) (h : w.peer = some src)
    (hok : good w (.command command)) :
    Follows env good w (w.handleCommand env command src) := by
  by_cases hack : command.acknowledged = true
  · simp only [handleCommand,if_pos hack]
    exact handleAck_moves w command h hok hack
  · simp only [handleCommand,if_neg hack]
    have hnack : command.acknowledged = false := by simpa using hack
    have hsend : Move env good w (w.sendTo src (.command (Command.ackOf command))) :=
      .send w src _ h ⟨command,rfl⟩
    refine Follows.trans (.single hsend) ?_
    have hpeer : (w.sendTo src (.command (Command.ackOf command))).peer = some src := h
    generalize w.sendTo src (.command (Command.ackOf command)) = v at *
    split
    · exact .refl
    · obtain ⟨u,hu,hmoves,hupeer⟩ : ∃ u, (if isFrameCommand command = true then v else
          v.acceptKey (command.name,command.timestamp)) = u ∧ Moves env good v u ∧
          u.peer = some src := by
        split
        · exact ⟨v,rfl,.refl,hpeer⟩
        · rename_i hframe
          have haccept : Move env good v (v.acceptKey (command.name,command.timestamp)) :=
            .accept v src command hpeer ⟨w,hok⟩ hnack (by simpa using hframe)
          exact ⟨_,rfl,.single haccept,hpeer⟩
      rw [hu]
      refine Follows.trans hmoves ?_
      have hevent : Handles env good u (u.commandEvent env command) :=
        commandEvent_handles hok hnack u hupeer
      generalize u.commandEvent env command = r at hevent ⊢
      obtain ⟨event,x⟩ := r
      refine Follows.trans hevent.moves ?_
      cases event with
      | none => exact .refl
      | some e =>
        obtain ⟨he,ht⟩ := hevent.report e rfl
        exact Follows.emit rfl rfl (.report x src e (hevent.peer.trans hupeer) he ht)

theorem requestOverview_moves (w : Worker) : Moves env good w (w.requestOverview env) := by
  have hqueue (name : String) (hname : name ≠ RESTART_ROBOT) (v : Worker) :
      Moves env good v (v.queueCommand env .worker (Command.new name "" 0)) :=
    queueCommand_moves v .worker _ fun _ => hname
  rw [requestOverview]
  refine (hqueue REQUEST_ACTIVE_CONFIG (by decide) w).trans ?_
  refine (hqueue REQUEST_CONFIGURATIONS (by decide) _).trans ?_
  exact hqueue REQUEST_OP_MODE_LIST (by decide) _

theorem dispatch_follows (w : Worker) (packet : Packet) (h : w.peer = some src)
    (hok : good w packet) :
    Follows env good w (w.dispatch env packet src) := by
  cases packet with
  | peerDiscovery => exact .refl
  | gamepad => exact .refl
  | keepAlive => exact .refl
  | heartbeat hb =>
    exact (updateRobotState_ends w _ hb.robotState h hok rfl).mono (fun _ hv => hv.1) fun _ hv => hv
  | telemetry t =>
    refine Ends.bind (updateRobotState_ends w _ t.robotState h hok rfl) ?_
    rintro v ⟨hv,hpeer,hstate⟩
    exact Follows.trans hv (Follows.emit rfl rfl (.telemetry v src t hpeer hstate))
  | command c => exact handleCommand_follows w c h hok

/-- What is left to do after the front half of a datagram's handling. -/
def Admitted (env : Env) (good : Worker → Packet → Prop) (w : Worker) (src : SocketAddr) :
    Intake → Prop
  | .done v => Moves env good w v
  | .packet _ v => Moves env good w v ∧ v.peer = some src

theorem Admitted.trans {r : Except Worker Intake} (h : Moves env good w w')
    (hr : Ends (Admitted env good w' src) (Stopped env good w') r) :
    Ends (Admitted env good w src) (Stopped env good w) r := by
  refine Ends.mono hr (fun v hv => ?_) fun v hv => ?_
  · cases v with
    | done v => exact h.trans hv
    | packet p v => exact ⟨h.trans hv.1,hv.2⟩
  · obtain ⟨u,hu,hlog,hlive⟩ := hv
    exact ⟨u,h.trans hu,hlog,fun hw => hlive (Moves.live h hw)⟩

theorem latch_ends (w : Worker) (packet : Packet) (src : SocketAddr) (h : w.peer = none) :
    Ends (Admitted env good w src) (Stopped env good w) (w.latch env packet src) := by
  by_cases hbusy : isBusyReply packet = true
  · simp only [latch,if_pos hbusy,send]
    have hpause : Move env good w { w with discovering := false } :=
      .book w w.lastRx w.lastBeat w.seq false w.clockReads w.wallReads w.lastWebcamRequest
        w.receiver le_rfl id
    exact (Follows.trans (.single hpause) (Follows.emit rfl rfl
      (.busy { w with discovering := false } src h))).map fun _ hv => hv
  · simp only [latch,if_neg hbusy,send]
    have hconnect : Move env good w ({ w with peer := some src }.note (.event (.connected src))) :=
      .connect w src h
    rcases emit_cases { w with peer := some src } (.event (.connected src)) with
      ⟨r,hr,hemit⟩|⟨hr,hemit⟩
    · rw [hemit]
      refine ⟨(ReflTransGen.single hconnect).tail (setReceiver _ r hr) |>.trans
        (requestOverview_moves _),?_⟩
      simp [requestOverview,note]
    · rw [hemit]
      exact ⟨w,.refl,.inl rfl,fun hn => absurd (hn.symm.trans hr) (Option.some_ne_none 0).symm⟩

theorem intake_ends (w : Worker) (data : List UInt8) (src : SocketAddr) :
    Ends (Admitted env good w src) (Stopped env good w) (w.intake env data src) := by
  have hnotice (v : Worker) (text : String) :
      Ends (Admitted env good v src) (Stopped env good v)
        (Intake.done <$> v.send (.protocolError text)) :=
    Ends.map (Follows.emit rfl rfl (.notice v text)) fun _ hv => hv
  unfold intake
  split
  · exact hnotice w _
  · rename_i hp
    split
    · exact .refl
    · have hread : Moves env good w
          { w with clockReads := w.clockReads+1, lastRx := env.clock w.clockReads } :=
        .single (.book w (env.clock w.clockReads) w.lastBeat w.seq w.discovering (w.clockReads+1)
          w.wallReads w.lastWebcamRequest w.receiver (by omega) id)
      refine Admitted.trans hread ?_
      have hpeer : { w with clockReads := w.clockReads+1, lastRx := env.clock w.clockReads }.peer =
        w.peer := rfl
      simp only [now]
      generalize { w with clockReads := w.clockReads+1, lastRx := env.clock w.clockReads } = v at *
      split
      · exact hnotice v _
      · rename_i packet _
        cases hv : v.peer with
        | none =>
          have hw : w.peer = none := hpeer.symm.trans hv
          simp only [hw,Option.isNone_none,if_true]
          exact latch_ends v packet src hv
        | some peer =>
          have hw : w.peer = some peer := hpeer.symm.trans hv
          have hsrc : peer = src := by simpa [hw] using hp
          simp only [hw,Option.isNone_some]
          exact ⟨.refl,by rw [hv,hsrc]⟩

theorem handleDatagram_follows (w : Worker) (data : List UInt8) (src : SocketAddr)
    (hok : ∀ p v, w.intake env data src = .ok (.packet p v) → good v p) :
    Follows env good w (w.handleDatagram env data src) := by
  have hin : Ends (Admitted env good w src) (Stopped env good w) (w.intake env data src) :=
    intake_ends w data src
  rw [handleDatagram]
  cases hr : w.intake env data src with
  | error v =>
    rw [hr] at hin
    exact hin
  | ok r =>
    rw [hr] at hin
    cases r with
    | done v => exact hin
    | packet p v =>
      obtain ⟨hmoves,hpeer⟩ := hin
      exact Follows.trans hmoves (dispatch_follows v p hpeer (hok p v hr))

end Datagrams

section Steps

/-- The packet a step dispatches, and the state it does so in. -/
def Dispatches (env : Env) (w : Worker) (i : Input) (v : Worker) (packet : Packet) : Prop :=
  ∃ data src, i = .socket (.datagram data src) ∧ w.intake env data src = .ok (.packet packet v)

theorem dropPeer_follows (w : Worker) (h : w.peer = some peer) :
    Follows env good w (w.dropPeer.send .disconnected) := by
  rcases emit_cases w.dropPeer (.event .disconnected) with ⟨r,hr,hemit⟩|⟨hr,hemit⟩
  · rw [send,hemit]
    exact (ReflTransGen.single (.disconnect w peer h)).tail (setReceiver _ r hr)
  · rw [send,hemit]
    exact ⟨w,.refl,.inr rfl,fun hn => absurd (hn.symm.trans hr) (Option.some_ne_none 0).symm⟩

theorem checkTimeout_follows (w : Worker) : Follows env good w (checkTimeout env w) := by
  have hread : Moves env good w { w with clockReads := w.clockReads+1 } := .single (readClock w 1)
  refine Follows.ite (fun hset => Follows.trans hread ?_) fun _ => .refl
  obtain ⟨peer,hp⟩ := Option.isSome_iff_exists.mp hset
  exact Follows.ite (fun _ => dropPeer_follows { w with clockReads := w.clockReads+1 } hp)
    fun _ => .refl

theorem controlStep_follows (w : Worker) (c : Control) : Follows env good w (controlStep env w c) := by
  cases c with
  | sendCommand command =>
    exact queueCommand_moves w .client command fun h => absurd h (by decide)
  | sendGamepad gamepad => exact transmitGamepad_moves w gamepad
  | connect =>
    exact .single (.book w w.lastRx none w.seq true w.clockReads w.wallReads w.lastWebcamRequest
      w.receiver le_rfl id)
  | disconnect =>
    have hpause : Moves env good w { w with discovering := false } :=
      .single (.book w w.lastRx w.lastBeat w.seq false w.clockReads w.wallReads w.lastWebcamRequest
        w.receiver le_rfl id)
    refine Follows.trans hpause (Follows.ite (fun hset => ?_) fun _ => .refl)
    obtain ⟨peer,hp⟩ := Option.isSome_iff_exists.mp hset
    exact dropPeer_follows { w with discovering := false } hp
  | shutdown => exact ⟨w,.refl,.inl rfl,fun _ => rfl⟩

/-- A step is a sequence of moves, if what they need to know of the packet is so. -/
theorem step_follows (w : Worker) (i : Input)
    (hok : ∀ v p, Dispatches env w i v p → good v p) :
    Follows env good w (step env w i) := by
  cases i with
  | control c => exact controlStep_follows w c
  | socket r =>
    have hreceive : Follows env good w (receive env w r) := by
      cases r with
      | datagram data src =>
        exact handleDatagram_follows w data src fun p v hin => hok v p ⟨data,src,rfl,hin⟩
      | timedOut => exact .refl
      | failed error => exact Follows.emit rfl rfl (.notice w _)
    refine Follows.bind hreceive fun v _ => ?_
    refine Follows.bind (checkTimeout_follows v) fun v _ => ?_
    exact Follows.trans ((beat_moves v).trans (webcamTimers_moves _)) (retransmitPending_follows _)

/-- What the packets of a step satisfy. -/
def Offers (env : Env) (good : Worker → Packet → Prop) (w : Worker) (i : Input) : Prop :=
  ∀ v p, Dispatches env w i v p → good v p

instance decidableOffers [∀ v p, Decidable (good v p)] (w : Worker) :
    (i : Input) → Decidable (Offers env good w i)
  | .control _ => .isTrue (by rintro v p ⟨data,src,hi,-⟩; cases hi)
  | .socket .timedOut => .isTrue (by rintro v p ⟨data,src,hi,-⟩; cases hi)
  | .socket (.failed _) => .isTrue (by rintro v p ⟨data,src,hi,-⟩; cases hi)
  | .socket (.datagram data src) =>
    match hin : w.intake env data src with
    | .error _ => .isTrue (by rintro v p ⟨data',src',hi,h⟩; cases hi; simp [hin] at h)
    | .ok (.done _) => .isTrue (by rintro v p ⟨data',src',hi,h⟩; cases hi; simp [hin] at h)
    | .ok (.packet p v) =>
      decidable_of_iff (good v p) ⟨fun h => by
        rintro v' p' ⟨data',src',hi,h'⟩
        cases hi
        cases hin.symm.trans h'
        exact h,fun h => h v p ⟨data,src,rfl,hin⟩⟩

theorem Moves.keep {Inv : Worker → Prop} (hmove : ∀ w w', Inv w → Move env good w w' → Inv w')
    (hw : Inv w) (h : Moves env good w w') : Inv w' := by
  induction h with
  | refl => exact hw
  | tail _ hm ih => exact hmove _ _ ih hm

/-- An invariant of the moves is one of the runs. A worker that returned has a log that was
reached; with a live receiver it was reached itself. -/
theorem run_invariant {Inv : Worker → Prop}
    (hmove : ∀ w w', Inv w → Move env good w w' → Inv w') (w : Worker) (is : List Input)
    (hw : Inv w) (hgood : Along (step env) (Offers env good) w is) :
    Ends Inv (fun w' => ∃ v, Inv v ∧ (v.log = w'.log ∨ v.dropPeer.log = w'.log) ∧
      (w.receiver = none → v = w')) (run env w is) := by
  have hstep (v : Worker) (i : Input) (hv : Inv v ∧ (w.receiver = none → v.receiver = none))
      (hi : Offers env good v i) :
      Ends (fun v' => Inv v' ∧ (w.receiver = none → v'.receiver = none))
        (fun w' => ∃ u, Inv u ∧ (u.log = w'.log ∨ u.dropPeer.log = w'.log) ∧
          (w.receiver = none → u = w')) (step env v i) := by
    refine Ends.mono (step_follows v i hi) (fun v' h => ?_) fun w' h => ?_
    · exact ⟨Moves.keep hmove hv.1 h,fun hw => h.live (hv.2 hw)⟩
    · obtain ⟨u,hu,hlog,hlive⟩ := h
      exact ⟨u,Moves.keep hmove hv.1 hu,hlog,fun hw => hlive (hv.2 hw)⟩
  exact (run_ends hstep w is ⟨hw,id⟩ hgood).mono (fun _ h => h.1) fun _ h => h

end Steps

end Client
end Robocol
