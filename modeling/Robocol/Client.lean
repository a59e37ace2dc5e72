import Mathlib.Order.Monotone.Defs
import Robocol.Frames
import Robocol.Packets

/-! The client worker: discovery, heartbeats, acks, retransmission and webcam frames, as
one function from an input to the next state. Clocks and JSON are parameters; the log
and the command ids are ghost state, which no branch reads. -/
namespace Robocol
namespace Client

open Cmd

/-- The socket is an IPv4 one. -/
structure SocketAddr where
  ip : UInt8 × UInt8 × UInt8 × UInt8
  port : UInt16
  deriving DecidableEq

def SocketAddr.display (a : SocketAddr) : String :=
  s!"{a.ip.1}.{a.ip.2.1}.{a.ip.2.2.1}.{a.ip.2.2.2}:{a.port}"

def ROBOCOL_PORT : UInt16 := 20884

/-- Durations in nanoseconds. -/
structure ClientConfig where
  peerAddrs : List (UInt8 × UInt8 × UInt8 × UInt8) := [(192,168,43,1),(192,168,49,1)]
  peerPort : UInt16 := ROBOCOL_PORT
  heartbeatInterval : ℕ := 200*10^6
  disconnectTimeout : ℕ := 3*10^9
  commandRetryInterval : ℕ := 500*10^6
  commandMaxAttempts : ℕ := 10
  webcamMinFrameInterval : ℕ := 33333333
  deriving DecidableEq

def MAX_PENDING_COMMANDS : ℕ := 64
def WEBCAM_STALL_TIMEOUT : ℕ := 500*10^6

/-- What the worker cannot compute: the JSON codec, and what the `i`-th reading of each
clock gives, in nanoseconds. The monotonic one never goes back. -/
structure Env where
  cfg : ClientConfig
  json : Json
  clock : ℕ → ℕ
  clock_mono : Monotone clock
  wall : ℕ → ℕ

inductive Event
  | connected (peer : SocketAddr)
  | disconnected
  | peerBusy (peer : SocketAddr)
  | robotState (state : RobotState)
  | telemetry (t : Telemetry)
  | opModeList (list : List OpModeMeta)
  | opModeInited (name : String)
  | opModeRunning (name : String)
  | activeConfiguration (config : String)
  | configurationList (list : String)
  | configuration (config : String)
  | userDeviceList (list : String)
  | scanResult (result : String)
  | lynxModules (list : String)
  | stacktrace (text : String)
  | command (name extra : String)
  | commandDropped (name : String)
  | protocolError (text : String)
  | webcamAvailable (available : Bool)
  | webcamFrame (data : List UInt8)
  deriving DecidableEq

inductive Control
  | sendCommand (command : Command)
  | sendGamepad (gamepad : Gamepad)
  | connect
  | disconnect
  | shutdown
  deriving DecidableEq

/-- Who queued a command: the user through the client, or the worker by itself. -/
inductive Origin
  | client | worker
  deriving DecidableEq

inductive DropCause
  | capped | exhausted
  deriving DecidableEq

/-- What happened, in order. An event stands here when it was sent, a datagram when it was
handed to the socket; a `dropped` entry is the `CommandDropped` event of one command, a `lost`
one stands for such an event that nobody took. -/
inductive Entry
  | event (e : Event)
  | dropped (id : ℕ) (name : String) (cause : DropCause)
  | sent (dst : SocketAddr) (packet : Packet)
  | transmitted (dst : SocketAddr) (id : ℕ) (command : Command) (time : ℕ)
  | queued (id : ℕ) (origin : Origin) (command : Command)
  | acked (id : ℕ) (ack : Command)
  | discarded (id : ℕ)
  | lost (id : ℕ)
  deriving DecidableEq

/-- The event an entry is, if it is one. -/
def Entry.event? : Entry → Option Event
  | .event e => some e
  | .dropped _ name _ => some (.commandDropped name)
  | _ => none

/-- The datagram an entry is, if it is one. -/
def Entry.datagram? : Entry → Option (SocketAddr × Packet)
  | .sent dst packet => some (dst,packet)
  | .transmitted dst _ command _ => some (dst,.command command)
  | _ => none

structure PendingCommand where
  command : Command
  lastSent : Option ℕ
  attempts : ℕ
  id : ℕ
  deriving DecidableEq

/-- One more transmission, at time `t`. -/
def PendingCommand.sentAt (p : PendingCommand) (t : ℕ) : PendingCommand :=
  { p with attempts := p.attempts+1, lastSent := some t }

/-- `receiver` is how many more events the receiver lives to take, `none` for ever. -/
structure Worker where
  peer : Option SocketAddr := none
  discovering : Bool := true
  robotState : Option RobotState := none
  lastRx : ℕ
  lastBeat : Option ℕ := none
  seq : UInt16 := 0
  pending : List PendingCommand := []
  seen : List (String × Int64) := []
  webcamAvailable : Bool := false
  webcamFrames : Frames := ∅
  webcamPendingRequest : Bool := false
  lastWebcamRequest : Option ℕ := none
  clockReads : ℕ
  wallReads : ℕ := 0
  receiver : Option ℕ
  queuedCount : ℕ := 0
  log : List Entry := []
  deriving DecidableEq

/-- The worker `RobocolClient::start` spawns. -/
def start (env : Env) (receiver : Option ℕ) : Worker :=
  { lastRx := env.clock 0, clockReads := 1, receiver := receiver }

namespace Worker

section Ghost

def note (w : Worker) (e : Entry) : Worker := { w with log := w.log ++ [e] }

/-- Sends an event. An error is the state in which the worker finds the receiver dropped. -/
def emit (w : Worker) (e : Entry) : Except Worker Worker :=
  match w.receiver with
  | none => .ok (w.note e)
  | some 0 => .error w
  | some (n+1) => .ok { w.note e with receiver := some n }

def send (w : Worker) (e : Event) : Except Worker Worker := w.emit (.event e)

def sendTo (w : Worker) (dst : SocketAddr) (packet : Packet) : Worker := w.note (.sent dst packet)

end Ghost

section Clocks

/-- `Instant::now`, and the state after the reading. -/
def now (env : Env) (w : Worker) : ℕ × Worker :=
  (env.clock w.clockReads,{ w with clockReads := w.clockReads+1 })

/-- `t.elapsed()`. -/
def elapsed (env : Env) (w : Worker) (t : ℕ) : ℕ × Worker :=
  (env.clock w.clockReads-t,{ w with clockReads := w.clockReads+1 })

def nowNanos (env : Env) (w : Worker) : Int64 × Worker :=
  (Int64.ofNat (env.wall w.wallReads),{ w with wallReads := w.wallReads+1 })

def nowMillis (env : Env) (w : Worker) : Int64 × Worker :=
  (Int64.ofNat (env.wall w.wallReads/10^6),{ w with wallReads := w.wallReads+1 })

/-- Whether a deadline counted from `t` is due; without a `t` it is. -/
def isDue (env : Env) (w : Worker) (t : Option ℕ) (interval : ℕ) : Bool × Worker :=
  match t with
  | none => (true,w)
  | some t =>
    let (d,w) := w.elapsed env t
    (interval ≤ d,w)

def nextSeq (w : Worker) : UInt16 × Worker := (w.seq+1,{ w with seq := w.seq+1 })

end Clocks

section Commands

def dropPeer (w : Worker) : Worker :=
  { w with
    peer := none
    robotState := none
    pending := []
    seen := []
    webcamFrames := ∅
    webcamAvailable := false
    webcamPendingRequest := false
    log := w.log ++ w.pending.map fun p => .discarded p.id }

/-- A command without a timestamp gets the time it is queued. -/
def stamp (env : Env) (w : Worker) (command : Command) : Command × Worker :=
  if command.timestamp = 0 then
    let (t,w) := w.nowNanos env
    ({ command with timestamp := t },w)
  else (command,w)

/-- Makes room at the cap: the oldest command goes, whether its event is taken or not. -/
def evict (w : Worker) : Worker :=
  if MAX_PENDING_COMMANDS ≤ w.pending.length then
    match w.pending with
    | [] => w
    | p :: rest =>
      match { w with pending := rest }.emit (.dropped p.id p.command.name .capped) with
      | .ok w => w
      | .error w => w.note (.lost p.id)
  else w

def push (w : Worker) (origin : Origin) (command : Command) : Worker :=
  { w with
    pending := w.pending ++ [⟨command,none,0,w.queuedCount⟩]
    queuedCount := w.queuedCount+1
    log := w.log ++ [.queued w.queuedCount origin command] }

def queueCommand (env : Env) (w : Worker) (origin : Origin) (command : Command) : Worker :=
  let (command,w) := w.stamp env command
  w.evict.push origin command

structure Sweep where
  kept : List PendingCommand := []
  toSend : List PendingCommand := []
  dropped : List PendingCommand := []

/-- The `retain_mut` pass of `retransmit_pending`, with the number of clock readings. -/
def sweep (env : Env) (reads : ℕ) : List PendingCommand → Sweep × ℕ
  | [] => ({},reads)
  | p :: ps =>
    let (fresh,reads) := match p.lastSent with
      | none => (false,reads)
      | some t => (decide (env.clock reads-t < env.cfg.commandRetryInterval),reads+1)
    if fresh then
      let (s,reads) := sweep env reads ps
      ({ s with kept := p :: s.kept },reads)
    else if env.cfg.commandMaxAttempts ≤ p.attempts then
      let (s,reads) := sweep env reads ps
      ({ s with dropped := p :: s.dropped },reads)
    else
      let p := p.sentAt (env.clock reads)
      let (s,reads) := sweep env (reads+1) ps
      ({ s with kept := p :: s.kept, toSend := p :: s.toSend },reads)

def transmit (peer : SocketAddr) (w : Worker) (p : PendingCommand) : Worker :=
  let (seq,w) := w.nextSeq
  w.note (.transmitted peer p.id { p.command with seq := seq } (p.lastSent.getD 0))

def reportDropped (w : Worker) (p : PendingCommand) : Except Worker Worker :=
  w.emit (.dropped p.id p.command.name .exhausted)

def retransmitPending (env : Env) (w : Worker) : Except Worker Worker :=
  match w.peer with
  | none => .ok w
  | some peer =>
    let (s,reads) := sweep env w.clockReads w.pending
    let w := { w with pending := s.kept, clockReads := reads }
    let w := s.toSend.foldl (transmit peer) w
    s.dropped.foldlM reportDropped w

def transmitGamepad (env : Env) (w : Worker) (gamepad : Gamepad) : Worker :=
  match w.peer with
  | none => w
  | some peer =>
    let (seq,w) := w.nextSeq
    let gamepad := { gamepad with seq := seq }
    let (gamepad,w) :=
      if gamepad.timestamp = 0 then
        let (t,w) := w.nowMillis env
        ({ gamepad with timestamp := t },w)
      else (gamepad,w)
    w.sendTo peer (.gamepad gamepad)

def tick (env : Env) (w : Worker) : Worker :=
  match w.peer with
  | none =>
    if w.discovering then
      env.cfg.peerAddrs.foldl
        (fun w addr => w.sendTo ⟨addr,env.cfg.peerPort⟩ (.peerDiscovery {})) w
    else w
  | some peer =>
    let (seq,w) := w.nextSeq
    let (timestamp,w) := w.nowNanos env
    let (t0,w) := w.nowMillis env
    w.sendTo peer (.heartbeat
      { seq := seq, timestamp := timestamp, robotState := .notStarted, t0 := t0 })

end Commands

section Webcam

def sendWebcamRequest (env : Env) (w : Worker) : Worker :=
  let (t,w) := w.now env
  { w with lastWebcamRequest := some t }.queueCommand env .worker (Command.new REQUEST_FRAME "" 0)

def requestWebcamFramePaced (env : Env) (w : Worker) : Worker :=
  let (due,w) := w.isDue env w.lastWebcamRequest env.cfg.webcamMinFrameInterval
  if due then w.sendWebcamRequest env else { w with webcamPendingRequest := true }

def handleStreamChange (env : Env) (w : Worker) (extra : String) : Event × Worker :=
  let available := StdText.trim extra.toList == "true".toList
  let w := { w with webcamAvailable := available }
  (.webcamAvailable available,
    if available then w.requestWebcamFramePaced env
    else { w with webcamFrames := ∅, webcamPendingRequest := false })

def handleFrameBegin (env : Env) (w : Worker) (extra : String) : Worker :=
  match beginPayload env.json extra with
  | none => w
  | some (frameNum,length) => { w with webcamFrames := openFrame w.webcamFrames frameNum length }

def handleFrameChunk (env : Env) (w : Worker) (extra : String) : Option Event × Worker :=
  match chunkPayload env.json extra with
  | none => (none,w)
  | some (frameNum,index,bytes) =>
    let (complete,frames) := putChunk w.webcamFrames frameNum index bytes
    let w := { w with webcamFrames := frames }
    match complete with
    | none => (none,w)
    | some data =>
      (some (.webcamFrame data),if w.webcamAvailable then w.requestWebcamFramePaced env else w)

/-- The webcam timers of the main loop. -/
def webcamTimers (env : Env) (w : Worker) : Worker :=
  let (due,w) :=
    if w.webcamPendingRequest then
      w.isDue env w.lastWebcamRequest env.cfg.webcamMinFrameInterval
    else (false,w)
  if due then { w with webcamPendingRequest := false }.sendWebcamRequest env
  else if w.webcamAvailable && !w.webcamPendingRequest then
    match w.lastWebcamRequest with
    | none => w
    | some t =>
      let (d,w) := w.elapsed env t
      if WEBCAM_STALL_TIMEOUT ≤ d then { w with webcamFrames := ∅ }.requestWebcamFramePaced env
      else w
  else w

end Webcam

section Datagrams

def updateRobotState (w : Worker) (state : RobotState) : Except Worker Worker :=
  if w.robotState = some state then .ok w
  else { w with robotState := some state }.send (.robotState state)

/-- Removes the pending commands an ack names. -/
def retire (w : Worker) (ack : Command) : Worker :=
  let hit := fun p : PendingCommand =>
    p.command.name = ack.name ∧ p.command.timestamp = ack.timestamp
  { w with
    pending := w.pending.filter fun p => ¬hit p
    log := w.log ++ (w.pending.filter hit).map fun p => .acked p.id ack }

def handleAck (env : Env) (w : Worker) (command : Command) : Worker :=
  let w := w.retire command
  if command.name = ACTIVATE_CONFIGURATION then
    w.queueCommand env .worker (Command.new RESTART_ROBOT "" 0)
  else w

def isFrameCommand (command : Command) : Bool :=
  command.name == RECEIVE_FRAME_BEGIN || command.name == RECEIVE_FRAME_CHUNK

/-- Remembers the last 64 accepted keys. -/
def acceptKey (w : Worker) (key : String × Int64) : Worker :=
  let seen := w.seen ++ [key]
  { w with seen := if 64 < seen.length then seen.tail else seen }

/-- The event a command gives, and the state after handling it. -/
def commandEvent (env : Env) (w : Worker) (command : Command) : Option Event × Worker :=
  let name := command.name
  let extra := command.extra
  if name = NOTIFY_OP_MODE_LIST then (some (.opModeList (parseOpmodeList env.json extra)),w)
  else if name = NOTIFY_INIT_OP_MODE then (some (.opModeInited extra),w)
  else if name = NOTIFY_RUN_OP_MODE then (some (.opModeRunning extra),w)
  else if name = NOTIFY_ACTIVE_CONFIGURATION then (some (.activeConfiguration extra),w)
  else if name = REQUEST_CONFIGURATIONS_RESP then (some (.configurationList extra),w)
  else if name = REQUEST_PARTICULAR_CONFIGURATION_RESP then (some (.configuration extra),w)
  else if name = NOTIFY_USER_DEVICE_LIST then (some (.userDeviceList extra),w)
  else if name = SCAN_RESP then (some (.scanResult extra),w)
  else if name = DISCOVER_LYNX_MODULES_RESP then (some (.lynxModules extra),w)
  else if name = SHOW_STACKTRACE then (some (.stacktrace extra),w)
  else if name = STREAM_CHANGE then
    let (e,w) := w.handleStreamChange env extra
    (some e,w)
  else if name = RECEIVE_FRAME_BEGIN then (none,w.handleFrameBegin env extra)
  else if name = RECEIVE_FRAME_CHUNK then w.handleFrameChunk env extra
  else (some (.command name extra),w)

def handleCommand (env : Env) (w : Worker) (command : Command) (src : SocketAddr) :
    Except Worker Worker :=
  if command.acknowledged then .ok (w.handleAck env command)
  else
    let w := w.sendTo src (.command (Command.ackOf command))
    let key := (command.name,command.timestamp)
    if !isFrameCommand command && w.seen.contains key then .ok w
    else
      let w := if isFrameCommand command then w else w.acceptKey key
      let (event,w) := w.commandEvent env command
      match event with
      | some e => w.send e
      | none => .ok w

/-- What the front half of `handle_datagram` leaves to do. -/
inductive Intake
  | done (w : Worker)
  | packet (p : Packet) (w : Worker)

/-- The commands a new connection asks for. -/
def requestOverview (env : Env) (w : Worker) : Worker :=
  let w := w.queueCommand env .worker (Command.new REQUEST_ACTIVE_CONFIG "" 0)
  let w := w.queueCommand env .worker (Command.new REQUEST_CONFIGURATIONS "" 0)
  w.queueCommand env .worker (Command.new REQUEST_OP_MODE_LIST "" 0)

def isBusyReply (packet : Packet) : Bool :=
  match packet with
  | .peerDiscovery reply => reply.peerType == .notConnectedDueToPreexistingConnection
  | _ => false

/-- A packet while no peer is set: a busy reply pauses discovery, any other one connects. -/
def latch (env : Env) (w : Worker) (packet : Packet) (src : SocketAddr) : Except Worker Intake :=
  if isBusyReply packet then .done <$> { w with discovering := false }.send (.peerBusy src)
  else do
    let w ← { w with peer := some src }.send (.connected src)
    return .packet packet (w.requestOverview env)

/-- The part of `handle_datagram` before the packet is dispatched. -/
def intake (env : Env) (w : Worker) (data : List UInt8) (src : SocketAddr) :
    Except Worker Intake :=
  match w.peer.filter (· ≠ src) with
  | some peer => .done <$> w.send (.protocolError
      s!"ignored packet from {src.display}: connected peer is {peer.display}")
  | none =>
    if w.peer.isNone && !w.discovering then .ok (.done w)
    else
      let (t,w) := w.now env
      let w := { w with lastRx := t }
      match Packet.parse data with
      | .error e => .done <$> w.send (.protocolError e.display)
      | .ok packet =>
        if w.peer.isNone then w.latch env packet src else .ok (.packet packet w)

/-- The part of `handle_datagram` behind the connection. -/
def dispatch (env : Env) (w : Worker) (packet : Packet) (src : SocketAddr) :
    Except Worker Worker :=
  match packet with
  | .peerDiscovery _ | .gamepad _ | .keepAlive _ => .ok w
  | .heartbeat hb => w.updateRobotState hb.robotState
  | .telemetry t => do
    let w ← w.updateRobotState t.robotState
    w.send (.telemetry t)
  | .command c => w.handleCommand env c src

def handleDatagram (env : Env) (w : Worker) (data : List UInt8) (src : SocketAddr) :
    Except Worker Worker := do
  match ← w.intake env data src with
  | .done w => return w
  | .packet p w => w.dispatch env p src

end Datagrams

end Worker

/-- What `recv_from` returns. -/
inductive Received
  | datagram (data : List UInt8) (src : SocketAddr)
  | timedOut
  | failed (error : String)
  deriving DecidableEq

/-- One control message, or one pass of the loop from `recv_from` to its end. -/
inductive Input
  | control (c : Control)
  | socket (r : Received)
  deriving DecidableEq

open Worker

def controlStep (env : Env) (w : Worker) : Control → Except Worker Worker
  | .shutdown => .error w
  | .sendCommand command => .ok (w.queueCommand env .client command)
  | .sendGamepad gamepad => .ok (w.transmitGamepad env gamepad)
  | .connect => .ok { w with discovering := true, lastBeat := none }
  | .disconnect =>
    let w := { w with discovering := false }
    if w.peer.isSome then w.dropPeer.send .disconnected else .ok w

def receive (env : Env) (w : Worker) : Received → Except Worker Worker
  | .datagram data src => w.handleDatagram env data src
  | .timedOut => .ok w
  | .failed error => w.send (.protocolError s!"socket recv failed: {error}")

def checkTimeout (env : Env) (w : Worker) : Except Worker Worker :=
  if w.peer.isSome then
    let (d,w) := w.elapsed env w.lastRx
    if env.cfg.disconnectTimeout < d then w.dropPeer.send .disconnected else .ok w
  else .ok w

def beat (env : Env) (w : Worker) : Worker :=
  let (due,w) := w.isDue env w.lastBeat env.cfg.heartbeatInterval
  if due then
    let (t,w) := w.now env
    { w with lastBeat := some t }.tick env
  else w

def socketStep (env : Env) (w : Worker) (r : Received) : Except Worker Worker := do
  let w ← receive env w r
  let w ← checkTimeout env w
  ((beat env w).webcamTimers env).retransmitPending env

/-- An error is a worker that has returned, with the state it returned in. -/
def step (env : Env) (w : Worker) : Input → Except Worker Worker
  | .control c => controlStep env w c
  | .socket r => socketStep env w r

def run (env : Env) (w : Worker) (inputs : List Input) : Except Worker Worker :=
  inputs.foldlM (step env) w

namespace RobocolClient

def sendCommand (name extra : String) : Control := .sendCommand (Command.new name extra 0)

def initOpmode (name : String) : Control := sendCommand INIT_OP_MODE name
def runOpmode (name : String) : Control := sendCommand RUN_OP_MODE name

/-- Stopping is initing the idle OpMode. -/
def stopOpmode : Control := initOpmode DEFAULT_OP_MODE

def sendConfigCommand (json : Json) (command : String) (config : ConfigMeta) : Option Control :=
  (json.configMetaText config).map (sendCommand command)

def activateConfiguration (json : Json) (config : ConfigMeta) : Option Control :=
  sendConfigCommand json ACTIVATE_CONFIGURATION config

end RobocolClient

section Samples

def noJson : Json where
  frameBegin _ := none
  frameChunk _ := none
  opModeMetas _ := none
  strings _ := none
  configMetaText _ := none
  frameBeginText _ := ""
  frameChunkText _ := ""

def beginText (b : FrameBegin) : String :=
  "\x7b\"frameNum\":" ++ toString b.frameNum ++ ",\"length\":" ++ toString b.length ++ "\x7d"

def chunkText (c : FrameChunk) : String :=
  "\x7b\"frameNum\":" ++ toString c.frameNum ++ ",\"chunkNum\":" ++ toString c.chunkNum ++
    ",\"encodedData\":\"" ++ c.encodedData ++ "\"\x7d"

/-- The texts of frame payloads, decoded by looking them up among some. -/
def frameJson (begins : List FrameBegin) (chunks : List FrameChunk) : Json :=
  { noJson with
    frameBegin := fun text => begins.find? (beginText · == text)
    frameChunk := fun text => chunks.find? (chunkText · == text)
    frameBeginText := beginText
    frameChunkText := chunkText }

/-- Clocks that gain a tenth of a second with each reading, and one wall clock that stands. -/
def sampleEnv : Env where
  cfg := {}
  json := noJson
  clock n := n*10^8
  clock_mono _ _ h := Nat.mul_le_mul_right _ h
  wall _ := 7

def frameEnv (begins : List FrameBegin) (chunks : List FrameChunk) : Env :=
  { sampleEnv with json := frameJson begins chunks }

def robot : SocketAddr := ⟨(192,168,43,1),ROBOCOL_PORT⟩

/-- A datagram of the robot. -/
def fromRobot (packet : Packet) : Input := .socket (.datagram (packet.serialize.getD []) robot)

end Samples

end Client
end Robocol
