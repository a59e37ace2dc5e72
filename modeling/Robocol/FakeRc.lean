import Mathlib.Logic.Function.Basic
import Robocol.CannedTexts
import Robocol.Client

/-! The fake controller: one loop that receives a datagram, answers it and sends its telemetry.
One pass of the loop sees one time. The codecs of serde, the picture and what the telemetry
shows of the time are parameters. -/
namespace Robocol

open ByteLayout Cmd StdText Client

namespace FakeRc

/-- Durations in nanoseconds. -/
def DS_TIMEOUT : ℕ := 3*10^9
def CRASH_DELAY : ℕ := 2*10^9
def TELEMETRY_INTERVAL : ℕ := 100*10^6
def RC_BATTERY_INTERVAL : ℕ := 10^9

def CRASH_OPMODE : String := "Crash Test"
def BATTERY_LEVEL_KEY : String := "$Robot$Battery$Level$"
def SYSTEM_KEY_PREFIX : String := "$System$"
def RC_BATTERY_STATUS_KEY : String := "$RobotController$Battery$Status$"

/-- The receive buffer; what is behind it of a datagram is cut off. -/
def BUF_LEN : ℕ := 4096

/-- Location and name. -/
abbrev Key := String × String

def configKey (config : ConfigMeta) : Key := (config.location,config.name)

def practiceBot : ConfigMeta := ⟨false,"LOCAL_STORAGE","practice_bot",1⟩
def starterBot : ConfigMeta := ⟨false,"RESOURCE","goBILDA Starter Bot",2132017159⟩
def noConfig : ConfigMeta := ⟨false,"NONE","<No Config Set>",0⟩

end FakeRc

open FakeRc

/-- The state of the loop. `sent` is what was handed to the socket, before it is serialized. -/
structure FakeRc where
  ds : Option SocketAddr := none
  dsSeen : ℕ
  phantomUntil : Option ℕ := none
  state : RobotState := .notStarted
  opmode : String := ""
  alliance : String := "RED"
  startPosition : String := "LEFT"
  prevX : Bool := false
  prevY : Bool := false
  leftStickY : F32 := ⟨0⟩
  seq : UInt16 := 0
  started : ℕ
  runStarted : Option ℕ := none
  configs : List ConfigMeta := [practiceBot,starterBot]
  activeConfig : ConfigMeta := noConfig
  savedXml : Key → Option String := fun _ => none
  nextResourceId : Int64 := 1
  pendingActivation : Option ConfigMeta := none
  webcamAvailable : Bool := false
  webcamFrameNum : Int32 := 0
  lastTelemetry : ℕ
  lastRcBattery : ℕ
  sent : List (SocketAddr × Packet) := []

namespace FakeRc

/-- What the fake controller takes from elsewhere: `serde_json` on its types, the picture of a
frame, and the values of the telemetry, which are functions of the time since the start. -/
structure Env where
  configMeta : String → Option ConfigMeta
  configMetaText : ConfigMeta → String
  configsText : List ConfigMeta → String
  frameBeginText : FrameBegin → String
  frameChunkText : FrameChunk → String
  renderFrame : Int32 → List UInt8
  batteryLevel : ℕ → String
  runNumbers : ℕ → Numbers
  busCurrent : ℕ → String
  fieldDemo : ℕ → List String

/-- The state `main` starts the loop in. -/
def start (now : ℕ) (phantomUntil : Option ℕ) : FakeRc :=
  { dsSeen := now, phantomUntil := phantomUntil, started := now, lastTelemetry := now,
    lastRcBattery := now }

section Sends

def heldAgainst (rc : FakeRc) (now : ℕ) (src : SocketAddr) : Bool :=
  rc.phantomUntil.any (fun t => now < t) ||
    rc.ds.any (fun ds => ds != src && decide (now-rc.dsSeen < DS_TIMEOUT))

def nextSeq (rc : FakeRc) : UInt16 × FakeRc := (rc.seq+1,{ rc with seq := rc.seq+1 })

def sendTo (rc : FakeRc) (dst : SocketAddr) (packet : Packet) : FakeRc :=
  { rc with sent := rc.sent ++ [(dst,packet)] }

def send (rc : FakeRc) (packet : Packet) : FakeRc :=
  match rc.ds with
  | none => rc
  | some ds => rc.sendTo ds packet

/-- `started.elapsed().as_nanos() as i64` -/
def uptime (rc : FakeRc) (now : ℕ) : Int64 := Int64.ofNat (now-rc.started)

def sendCommand (rc : FakeRc) (now : ℕ) (name extra : String) : FakeRc :=
  let (seq,rc) := rc.nextSeq
  rc.send (.command { Command.new name extra (rc.uptime now) with seq := seq })

def setWebcamAvailable (rc : FakeRc) (now : ℕ) (available : Bool) : FakeRc :=
  if rc.webcamAvailable = available then rc
  else
    { rc with webcamAvailable := available }.sendCommand now STREAM_CHANGE
      (if available then "true" else "false")

def sendWebcamFrame (env : Env) (rc : FakeRc) (now : ℕ) : FakeRc :=
  let frameNum := rc.webcamFrameNum
  let rc := { rc with webcamFrameNum := rc.webcamFrameNum+1 }
  let jpeg := env.renderFrame frameNum
  let rc := rc.sendCommand now RECEIVE_FRAME_BEGIN
    (env.frameBeginText ⟨frameNum.toInt,(Int32.ofNat jpeg.length).toInt⟩)
  (chunks FRAME_CHUNK_SIZE jpeg).zipIdx.foldl (fun rc (chunk,chunkNum) =>
    rc.sendCommand now RECEIVE_FRAME_CHUNK (env.frameChunkText
      ⟨frameNum.toInt,(Int32.ofNat chunkNum).toInt,Base64.encode chunk⟩)) rc

end Sends

section Commands

/-- The entry of its key becomes the configuration, or it is a new one. -/
def putConfig : List ConfigMeta → ConfigMeta → List ConfigMeta
  | [], config => [config]
  | c :: cs, config => if configKey c = configKey config then config :: cs else c :: putConfig cs config

/-- A configuration without an id gets the next one. -/
def assignId (rc : FakeRc) (config : ConfigMeta) : ConfigMeta × FakeRc :=
  if config.resourceId = 0 then
    ({ config with resourceId := rc.nextResourceId+1 },
      { rc with nextResourceId := rc.nextResourceId+1 })
  else (config,rc)

def storeConfig (rc : FakeRc) (config : ConfigMeta) (xml : String) : FakeRc :=
  { rc with
    savedXml := Function.update rc.savedXml (configKey config) (some xml)
    configs := putConfig rc.configs config
    activeConfig := config }

/-- `{meta JSON};{device XML}`, split at the first separator. -/
def saveConfiguration (env : Env) (rc : FakeRc) (now : ℕ) (extra : String) : FakeRc :=
  match splitOnce ';' extra.toList with
  | none => rc
  | some (metaJson,xml) =>
    match env.configMeta (String.ofList metaJson) with
    | none => rc
    | some config =>
      let (config,rc) := rc.assignId config
      (rc.storeConfig config (String.ofList xml)).sendCommand now NOTIFY_ACTIVE_CONFIGURATION
        (env.configMetaText config)

/-- The activation takes effect on the restart that follows. -/
def activateConfiguration (env : Env) (rc : FakeRc) (extra : String) : FakeRc :=
  match env.configMeta extra with
  | none => rc
  | some config => { rc with pendingActivation := some config }

def deleteConfiguration (env : Env) (rc : FakeRc) (extra : String) : FakeRc :=
  match env.configMeta extra with
  | none => rc
  | some config =>
    { rc with configs := rc.configs.filter fun c => configKey c ≠ configKey config }

/-- The XML served for the configuration a request names. -/
def requestedXml (env : Env) (rc : FakeRc) (extra : String) : String :=
  ((env.configMeta extra).bind fun config => rc.savedXml (configKey config)).getD FAKE_CONFIG_XML

def initOpMode (rc : FakeRc) (now : ℕ) (name : String) : FakeRc :=
  let rc := { rc with runStarted := none }
  let rc :=
    if name = DEFAULT_OP_MODE then
      { rc with state := .stopped, opmode := "" }.setWebcamAvailable now false
    else { rc with state := .init, opmode := name }.setWebcamAvailable now true
  rc.sendCommand now NOTIFY_INIT_OP_MODE name

def restartRobot (env : Env) (rc : FakeRc) (now : ℕ) : FakeRc :=
  let rc := { rc with state := .notStarted, opmode := "" }.setWebcamAvailable now false
  match rc.pendingActivation with
  | none => rc
  | some config =>
    { rc with pendingActivation := none, activeConfig := config }.sendCommand now
      NOTIFY_ACTIVE_CONFIGURATION (env.configMetaText config)

/-- What a command does behind its ack. -/
def performCommand (env : Env) (rc : FakeRc) (now : ℕ) (command : Command) : FakeRc :=
  let name := command.name
  let extra := command.extra
  if name = REQUEST_OP_MODE_LIST then rc.sendCommand now NOTIFY_OP_MODE_LIST OPMODES
  else if name = INIT_OP_MODE then rc.initOpMode now extra
  else if name = RUN_OP_MODE then
    { rc with state := .running, opmode := extra, runStarted := some now }.sendCommand now
      NOTIFY_RUN_OP_MODE extra
  else if name = RESTART_ROBOT then rc.restartRobot env now
  else if name = REQUEST_FRAME then if rc.webcamAvailable then rc.sendWebcamFrame env now else rc
  else if name = REQUEST_ACTIVE_CONFIG then
    rc.sendCommand now NOTIFY_ACTIVE_CONFIGURATION (env.configMetaText rc.activeConfig)
  else if name = REQUEST_CONFIGURATIONS then
    rc.sendCommand now REQUEST_CONFIGURATIONS_RESP (env.configsText rc.configs)
  else if name = REQUEST_PARTICULAR_CONFIGURATION then
    rc.sendCommand now REQUEST_PARTICULAR_CONFIGURATION_RESP (rc.requestedXml env extra)
  else if name = REQUEST_USER_DEVICE_TYPES then
    rc.sendCommand now NOTIFY_USER_DEVICE_LIST USER_DEVICE_TYPES
  else if name = SCAN then rc.sendCommand now Cmd.SCAN_RESP SCAN_RESP
  else if name = ACTIVATE_CONFIGURATION then rc.activateConfiguration env extra
  else if name = SAVE_CONFIGURATION then rc.saveConfiguration env now extra
  else if name = DELETE_CONFIGURATION then rc.deleteConfiguration env extra
  else rc

def handleCommand (env : Env) (rc : FakeRc) (now : ℕ) (command : Command) : FakeRc :=
  if command.acknowledged then rc
  else (rc.send (.command (Command.ackOf command))).performCommand env now command

end Commands

section Loop

/-- The first gamepad steers what the telemetry shows. -/
def handleGamepad (rc : FakeRc) (gp : Gamepad) : FakeRc :=
  if gp.user = 1 then
    let rc := { rc with leftStickY := gp.leftStickY }
    let rc :=
      if rc.state = .init then
        let rc :=
          if gp.x ∧ ¬rc.prevX then
            { rc with alliance := if rc.alliance = "RED" then "BLUE" else "RED" }
          else rc
        if gp.y ∧ ¬rc.prevY then
          { rc with startPosition := if rc.startPosition = "LEFT" then "RIGHT" else "LEFT" }
        else rc
      else rc
    { rc with prevX := gp.x, prevY := gp.y }
  else rc

/-- A packet that was parsed. -/
def handlePacket (env : Env) (rc : FakeRc) (now : ℕ) (packet : Packet) (src : SocketAddr) : FakeRc :=
  match packet with
  | .peerDiscovery _ =>
    if rc.heldAgainst now src then
      rc.sendTo src (.peerDiscovery { peerType := .notConnectedDueToPreexistingConnection })
    else
      let rc := if rc.ds ≠ some src then { rc with ds := some src } else rc
      rc.sendTo src (.peerDiscovery {})
  | .heartbeat hb =>
    if rc.ds = some src then
      let (seq,rc) := rc.nextSeq
      rc.sendTo src (.heartbeat { hb with robotState := rc.state, seq := seq })
    else rc
  | .command command => if rc.ds = some src then rc.handleCommand env now command else rc
  | .gamepad gp => rc.handleGamepad gp
  | .telemetry _ | .keepAlive _ => rc

/-- What `recv_from` returned, handled. -/
def receive (env : Env) (rc : FakeRc) (now : ℕ) : Received → FakeRc
  | .datagram data src =>
    let rc := if rc.ds = some src then { rc with dsSeen := now } else rc
    match Packet.parse (data.take BUF_LEN) with
    | .error _ => rc
    | .ok packet => rc.handlePacket env now packet src
  | .timedOut => rc
  | .failed _ => rc

/-- A crashing OpMode reports the exception and is torn down. -/
def crashTick (rc : FakeRc) (now : ℕ) : FakeRc :=
  if rc.opmode ≠ CRASH_OPMODE ∨ rc.state ≠ .running then rc
  else if rc.runStarted.all (fun t => decide (now-t < CRASH_DELAY)) then rc
  else
    let rc := { rc with runStarted := none }.sendCommand now SHOW_STACKTRACE CRASH_STACKTRACE
    let rc := { rc with state := .stopped, opmode := "" }.setWebcamAvailable now false
    rc.sendCommand now NOTIFY_INIT_OP_MODE DEFAULT_OP_MODE

/-- The lines of an OpMode. -/
def stateLines (env : Env) (rc : FakeRc) (elapsed : ℕ) : List String :=
  if rc.state = .init then
    ["00 OpMode : " ++ rc.opmode,"01 Alliance : " ++ rc.alliance,
      "02 Start Position : " ++ rc.startPosition,"03 Hint : X toggles alliance, Y toggles start"]
  else if rc.state = .running then
    ["State : DRIVING","Servo Bus Current : " ++ env.busCurrent elapsed ++ " A"] ++
      env.fieldDemo elapsed
  else []

def telemetryTick (env : Env) (rc : FakeRc) (now : ℕ) : FakeRc :=
  let (seq,rc) := rc.nextSeq
  let elapsed := now-rc.started
  rc.send (.telemetry {
    seq := seq
    timestamp := rc.uptime now
    isSorted := true
    robotState := rc.state
    tag := "TELEMETRY_DATA"
    strings := (BATTERY_LEVEL_KEY,env.batteryLevel elapsed) ::
      (SYSTEM_KEY_PREFIX ++ "i2c","1 device on the I2C bus") ::
      (rc.stateLines env elapsed).map ("",·)
    numbers := if rc.state = .running then
      (env.runNumbers elapsed).insert "left_stick_y" rc.leftStickY else ∅ })

def rcBatteryTick (rc : FakeRc) (now : ℕ) : FakeRc :=
  let (seq,rc) := rc.nextSeq
  rc.send (.telemetry {
    seq := seq
    timestamp := rc.uptime now
    isSorted := true
    robotState := rc.state
    tag := RC_BATTERY_STATUS_KEY
    strings := [(RC_BATTERY_STATUS_KEY,"100.0|true")] })

/-- `if last_telemetry.elapsed() >= Duration::from_millis(100)` -/
def telemetryDue (env : Env) (rc : FakeRc) (now : ℕ) : FakeRc :=
  if TELEMETRY_INTERVAL ≤ now-rc.lastTelemetry then
    { rc with lastTelemetry := now }.telemetryTick env now
  else rc

/-- `if last_rc_battery.elapsed() >= Duration::from_secs(1)` -/
def rcBatteryDue (rc : FakeRc) (now : ℕ) : FakeRc :=
  if RC_BATTERY_INTERVAL ≤ now-rc.lastRcBattery then
    { rc with lastRcBattery := now }.rcBatteryTick now
  else rc

/-- The part of a pass behind the reception. -/
def ticks (env : Env) (rc : FakeRc) (now : ℕ) : FakeRc :=
  ((rc.crashTick now).telemetryDue env now).rcBatteryDue now

/-- What a pass of the loop finds: the time, and what `recv_from` returns. -/
structure Arrival where
  now : ℕ
  received : Received

def pass (env : Env) (rc : FakeRc) (a : Arrival) : FakeRc :=
  (rc.receive env a.now a.received).ticks env a.now

def run (env : Env) (rc : FakeRc) (as : List Arrival) : FakeRc := as.foldl (pass env) rc

end Loop

section Records

variable {env : Env} {rc : FakeRc} {now : ℕ}

/-- Who is connected, since when it was heard from, and the configurations. -/
def records (rc : FakeRc) :
    Option SocketAddr × ℕ × Option ℕ × List ConfigMeta × (Key → Option String) :=
  (rc.ds,rc.dsSeen,rc.phantomUntil,rc.configs,rc.savedXml)

/-- What both branches keep is kept. -/
theorem kept_ite {β : Type} (view : FakeRc → β) {v : β} {c : Prop} [Decidable c] {x y : FakeRc}
    (hx : view x = v) (hy : view y = v) : view (if c then x else y) = v := by
  split
  · exact hx
  · exact hy

@[simp] theorem records_sendTo (rc : FakeRc) (dst : SocketAddr) (packet : Packet) :
    (rc.sendTo dst packet).records = rc.records := rfl

@[simp] theorem records_send (rc : FakeRc) (packet : Packet) : (rc.send packet).records = rc.records := by
  rw [send]
  split <;> rfl

@[simp] theorem records_sendCommand (rc : FakeRc) (name extra : String) :
    (rc.sendCommand now name extra).records = rc.records :=
  records_send { rc with seq := rc.seq+1 } _

@[simp] theorem records_setWebcamAvailable (rc : FakeRc) (available : Bool) :
    (rc.setWebcamAvailable now available).records = rc.records := by
  rw [setWebcamAvailable]
  split
  · rfl
  · exact records_sendCommand _ _ _

theorem records_sendWebcamFrame : (rc.sendWebcamFrame env now).records = rc.records := by
  have hfold (cs : List (List UInt8 × ℕ)) (text : List UInt8 × ℕ → String) (rc : FakeRc) :
      (cs.foldl (fun rc c => rc.sendCommand now RECEIVE_FRAME_CHUNK (text c)) rc).records =
        rc.records := by
    induction cs generalizing rc with
    | nil => rfl
    | cons c cs ih => rw [List.foldl_cons,ih,records_sendCommand]
  rw [sendWebcamFrame]
  exact (hfold _ _ _).trans (records_sendCommand _ _ _)

theorem records_initOpMode (name : String) : (rc.initOpMode now name).records = rc.records := by
  simp only [initOpMode,records_sendCommand]
  split <;> exact records_setWebcamAvailable _ _

theorem records_restartRobot : (rc.restartRobot env now).records = rc.records := by
  have hstopped : ({ rc with state := .notStarted, opmode := "" }.setWebcamAvailable now false).records =
    rc.records := records_setWebcamAvailable _ _
  simp only [restartRobot]
  split
  · exact hstopped
  · exact (records_sendCommand _ _ _).trans hstopped

theorem records_crashTick : (rc.crashTick now).records = rc.records := by
  rw [crashTick]
  split
  · rfl
  · split
    · rfl
    · rw [records_sendCommand,records_setWebcamAvailable]
      exact records_sendCommand _ _ _

theorem records_assignId (config : ConfigMeta) : (rc.assignId config).2.records = rc.records := by
  rw [assignId]
  split <;> rfl

theorem records_activateConfiguration (extra : String) :
    (rc.activateConfiguration env extra).records = rc.records := by
  rw [activateConfiguration]
  split <;> rfl

/-- What `rc'` can be behind the command: only a save and a delete touch the records. -/
def Touched (env : Env) (rc : FakeRc) (now : ℕ) (command : Command) (rc' : FakeRc) : Prop :=
  rc'.records = rc.records ∨
  (command.name = SAVE_CONFIGURATION ∧ rc' = rc.saveConfiguration env now command.extra) ∨
  (command.name = DELETE_CONFIGURATION ∧ rc' = rc.deleteConfiguration env command.extra)

theorem performCommand_touched (env : Env) (rc : FakeRc) (now : ℕ) (command : Command) :
    Touched env rc now command (rc.performCommand env now command) := by
  have hsend (name extra : String) : (rc.sendCommand now name extra).records = rc.records :=
    records_sendCommand _ _ _
  rw [performCommand]
  refine iteInduction (fun _ => .inl (hsend _ _)) fun _ => ?_
  refine iteInduction (fun _ => .inl (records_initOpMode _)) fun _ => ?_
  refine iteInduction (fun _ => .inl (records_sendCommand _ _ _)) fun _ => ?_
  refine iteInduction (fun _ => .inl records_restartRobot) fun _ => ?_
  refine iteInduction (fun _ => .inl (kept_ite records records_sendWebcamFrame rfl)) fun _ => ?_
  refine iteInduction (fun _ => .inl (hsend _ _)) fun _ => ?_
  refine iteInduction (fun _ => .inl (hsend _ _)) fun _ => ?_
  refine iteInduction (fun _ => .inl (hsend _ _)) fun _ => ?_
  refine iteInduction (fun _ => .inl (hsend _ _)) fun _ => ?_
  refine iteInduction (fun _ => .inl (hsend _ _)) fun _ => ?_
  refine iteInduction (fun _ => .inl (records_activateConfiguration _)) fun _ => ?_
  refine iteInduction (fun hsave => .inr (.inl ⟨hsave,rfl⟩)) fun _ => ?_
  exact iteInduction (fun hdelete => .inr (.inr ⟨hdelete,rfl⟩)) fun _ => .inl rfl

theorem records_handleGamepad (gp : Gamepad) : (rc.handleGamepad gp).records = rc.records := by
  rw [handleGamepad]
  refine kept_ite records ?_ rfl
  refine kept_ite records ?_ rfl
  refine kept_ite records ?_ ?_ <;> exact kept_ite records rfl rfl

theorem records_ticks : (rc.ticks env now).records = rc.records := by
  have htelemetry (rc : FakeRc) : (rc.telemetryDue env now).records = rc.records := by
    rw [telemetryDue]
    split
    · exact records_send { rc with lastTelemetry := now, seq := rc.seq+1 } _
    · rfl
  have hbattery (rc : FakeRc) : (rc.rcBatteryDue now).records = rc.records := by
    rw [rcBatteryDue]
    split
    · exact records_send { rc with lastRcBattery := now, seq := rc.seq+1 } _
    · rfl
  rw [ticks,hbattery,htelemetry,records_crashTick]

end Records

section Sent

variable {env : Env} {rc rc' rc'' : FakeRc} {a : SocketAddr} {said said' : List (String × String)}

theorem sent_sendCommand (rc : FakeRc) (hds : rc.ds = some a) (now : ℕ) (name extra : String) :
    (rc.sendCommand now name extra).sent =
      rc.sent ++ [(a,.command ⟨rc.seq+1,rc.uptime now,false,name,extra⟩)] := by
  simp only [sendCommand,nextSeq,send,hds]
  rfl

/-- The name and the payload of a command. -/
def named : SocketAddr × Packet → Option (String × String)
  | (_,.command c) => some (c.name,c.extra)
  | _ => none

/-- The commands that were said to the connected station on the way. -/
def Says (a : SocketAddr) (said : List (String × String)) (rc rc' : FakeRc) : Prop :=
  rc.ds = some a → rc'.ds = some a ∧ ∃ packets, rc'.sent = rc.sent ++ packets ∧
    (∀ p ∈ packets, p.1 = a) ∧ packets.filterMap named = said

theorem Says.trans (h : Says a said rc rc') (h' : Says a said' rc' rc'') :
    Says a (said ++ said') rc rc'' := by
  intro hds
  obtain ⟨hds',xs,hsent,hto,hxs⟩ := h hds
  obtain ⟨hds'',ys,hsent',hto',hys⟩ := h' hds'
  refine ⟨hds'',xs ++ ys,by rw [hsent',hsent,List.append_assoc],?_,by rw [List.filterMap_append,hxs,hys]⟩
  intro p hp
  exact (List.mem_append.1 hp).elim (hto p) (hto' p)

theorem says_sendCommand (rc : FakeRc) (now : ℕ) (name extra : String) :
    Says a [(name,extra)] rc (rc.sendCommand now name extra) := by
  intro hds
  have hrecords := congrArg (·.1) (@records_sendCommand now rc name extra)
  refine ⟨hrecords.trans hds,_,sent_sendCommand rc hds now name extra,by simp,rfl⟩

/-- A frame is one announcement and its chunks, in order. -/
theorem says_sendWebcamFrame (env : Env) (rc : FakeRc) (now : ℕ) :
    Says a ((RECEIVE_FRAME_BEGIN,env.frameBeginText ⟨rc.webcamFrameNum.toInt,
        (Int32.ofNat (env.renderFrame rc.webcamFrameNum).length).toInt⟩) ::
      (chunks FRAME_CHUNK_SIZE (env.renderFrame rc.webcamFrameNum)).zipIdx.map fun c =>
        (RECEIVE_FRAME_CHUNK,env.frameChunkText ⟨rc.webcamFrameNum.toInt,
          (Int32.ofNat c.2).toInt,Base64.encode c.1⟩)) rc (rc.sendWebcamFrame env now) := by
  have hfold (cs : List (List UInt8 × ℕ)) (text : List UInt8 × ℕ → String) (rc : FakeRc) :
      Says a (cs.map fun c => (RECEIVE_FRAME_CHUNK,text c)) rc
        (cs.foldl (fun rc c => rc.sendCommand now RECEIVE_FRAME_CHUNK (text c)) rc) := by
    induction cs generalizing rc with
    | nil => exact fun hds => ⟨hds,[],by simp,by simp,rfl⟩
    | cons c cs ih => exact (says_sendCommand rc now _ _).trans (ih _)
  rw [sendWebcamFrame]
  exact (says_sendCommand { rc with webcamFrameNum := rc.webcamFrameNum+1 } now _ _).trans (hfold _ _ _)

end Sent

end FakeRc
end Robocol
