import Std.Data.ExtTreeMap.Lemmas
import Robocol.Wire

/-! The six packet codecs, byte for byte: every serializer writes absolute offsets
into a sized buffer and every parser reads absolute offsets back. -/
namespace Robocol

open Wire

/-- Robot lifecycle state reported in Heartbeat and Telemetry. -/
inductive RobotState
  | unknown | notStarted | init | running | stopped | emergencyStop
  deriving DecidableEq

def RobotState.fromByte (b : UInt8) : RobotState :=
  match b.toInt8.toInt with
  | 0 => .notStarted
  | 1 => .init
  | 2 => .running
  | 3 => .stopped
  | 4 => .emergencyStop
  | _ => .unknown

def RobotState.toByte : RobotState → UInt8
  | .unknown => (-1 : Int8).toUInt8
  | .notStarted => 0
  | .init => 1
  | .running => 2
  | .stopped => 3
  | .emergencyStop => 4

@[simp] theorem RobotState.fromByte_toByte (s : RobotState) : fromByte s.toByte = s := by
  cases s <;> decide

/-- Physical controller type advertised in Gamepad packets. -/
inductive GamepadType
  | unknown | logitechF310 | xbox360 | sonyPs4 | sonyPs4Kernel
  deriving DecidableEq

/-- `gamepad_type as u8`. -/
def GamepadType.toByte : GamepadType → UInt8
  | .unknown => 0
  | .logitechF310 => 1
  | .xbox360 => 2
  | .sonyPs4 => 3
  | .sonyPs4Kernel => 4

/-- The `match type_byte` of `Gamepad::parse`. -/
def GamepadType.fromByte (b : UInt8) : GamepadType :=
  if b = 1 then .logitechF310
  else if b = 2 then .xbox360
  else if b = 3 then .sonyPs4
  else if b = 4 then .sonyPs4Kernel
  else .unknown

@[simp] theorem GamepadType.fromByte_toByte (g : GamepadType) : fromByte g.toByte = g := by
  cases g <;> decide

def GAMEPAD_ID_SYNTHETIC : Int32 := -2

def UID_HEARTBEAT : UInt8 := 1
def UID_GAMEPAD : UInt8 := 2
def UID_PEER_DISCOVERY : UInt8 := 3
def UID_COMMAND : UInt8 := 4
def UID_TELEMETRY : UInt8 := 5
def UID_KEEP_ALIVE : UInt8 := 6

structure Heartbeat where
  seq : UInt16 := 0
  timestamp : Int64 := 0
  robotState : RobotState := .unknown
  t0 : Int64 := 0
  t1 : Int64 := 0
  t2 : Int64 := 0
  timezoneId : String := "GMT"
  deriving DecidableEq

def Heartbeat.serialize (hb : Heartbeat) : Option (List UInt8) := do
  let tz := utf8 hb.timezoneId
  let buf ← withHeader UID_HEARTBEAT (34+tz.length) hb.seq
  let buf ← putI64 buf 5 hb.timestamp
  let buf ← putU8 buf 13 hb.robotState.toByte
  let buf ← putI64 buf 14 hb.t0
  let buf ← putI64 buf 22 hb.t1
  let buf ← putI64 buf 30 hb.t2
  let (buf,_) ← putStrU8 buf 38 tz
  return buf

def Heartbeat.parse (buf : List UInt8) : Except Error Heartbeat := do
  return {
    seq := ← getU16 buf 3
    timestamp := ← getI64 buf 5
    robotState := RobotState.fromByte (← getU8 buf 13)
    t0 := ← getI64 buf 14
    t1 := ← getI64 buf 22
    t2 := ← getI64 buf 30
    timezoneId := (← getStrU8 buf 38).1 }

structure Gamepad where
  seq : UInt16 := 0
  version : UInt8 := 5
  user : UInt8 := 1
  id : Int32 := GAMEPAD_ID_SYNTHETIC
  timestamp : Int64 := 0
  gamepadType : GamepadType := .unknown
  leftStickX : F32 := ⟨0⟩
  leftStickY : F32 := ⟨0⟩
  rightStickX : F32 := ⟨0⟩
  rightStickY : F32 := ⟨0⟩
  leftTrigger : F32 := ⟨0⟩
  rightTrigger : F32 := ⟨0⟩
  dpadUp : Bool := false
  dpadDown : Bool := false
  dpadLeft : Bool := false
  dpadRight : Bool := false
  a : Bool := false
  b : Bool := false
  x : Bool := false
  y : Bool := false
  guide : Bool := false
  start : Bool := false
  back : Bool := false
  leftBumper : Bool := false
  rightBumper : Bool := false
  leftStickButton : Bool := false
  rightStickButton : Bool := false
  touchpad : Bool := false
  touchpadFinger1 : Bool := false
  touchpadFinger2 : Bool := false
  touchpadFinger1X : F32 := ⟨0⟩
  touchpadFinger1Y : F32 := ⟨0⟩
  touchpadFinger2X : F32 := ⟨0⟩
  touchpadFinger2Y : F32 := ⟨0⟩
  deriving DecidableEq

/-- `(x as u32) << i`. -/
def bit (x : Bool) (i : UInt32) : UInt32 := x.toUInt32 <<< i

/-- `buttons & (1 << i) != 0`. -/
def hasBit (buttons i : UInt32) : Bool := buttons &&& (1 <<< i) != 0

def Gamepad.buttonsBitfield (g : Gamepad) : UInt32 :=
  0 ||| bit g.touchpadFinger1 17 ||| bit g.touchpadFinger2 16 ||| bit g.touchpad 15
    ||| bit g.leftStickButton 14 ||| bit g.rightStickButton 13 ||| bit g.dpadUp 12
    ||| bit g.dpadDown 11 ||| bit g.dpadLeft 10 ||| bit g.dpadRight 9 ||| bit g.a 8
    ||| bit g.b 7 ||| bit g.x 6 ||| bit g.y 5 ||| bit g.guide 4 ||| bit g.start 3
    ||| bit g.back 2 ||| bit g.leftBumper 1 ||| bit g.rightBumper 0

def Gamepad.serialize (g : Gamepad) : Option (List UInt8) := do
  let buf ← withHeader UID_GAMEPAD 60 g.seq
  let buf ← putU8 buf 5 g.version
  let buf ← putI32 buf 6 g.id
  let buf ← putI64 buf 10 g.timestamp
  let buf ← putF32 buf 18 g.leftStickX
  let buf ← putF32 buf 22 g.leftStickY
  let buf ← putF32 buf 26 g.rightStickX
  let buf ← putF32 buf 30 g.rightStickY
  let buf ← putF32 buf 34 g.leftTrigger
  let buf ← putF32 buf 38 g.rightTrigger
  let buf ← putU32 buf 42 g.buttonsBitfield
  let buf ← putU8 buf 46 g.user
  let buf ← putU8 buf 47 g.gamepadType.toByte
  let buf ← putU8 buf 48 g.gamepadType.toByte
  let buf ← putF32 buf 49 g.touchpadFinger1X
  let buf ← putF32 buf 53 g.touchpadFinger1Y
  let buf ← putF32 buf 57 g.touchpadFinger2X
  putF32 buf 61 g.touchpadFinger2Y

def Gamepad.parse (buf : List UInt8) : Except Error Gamepad := do
  let buttons ← getU32 buf 42
  let typeByte ← match getU8 buf 48 with
    | .ok b => .ok b
    | .error _ => getU8 buf 47
  return {
    seq := ← getU16 buf 3
    version := ← getU8 buf 5
    id := ← getI32 buf 6
    timestamp := ← getI64 buf 10
    leftStickX := ← getF32 buf 18
    leftStickY := ← getF32 buf 22
    rightStickX := ← getF32 buf 26
    rightStickY := ← getF32 buf 30
    leftTrigger := ← getF32 buf 34
    rightTrigger := ← getF32 buf 38
    touchpadFinger1 := hasBit buttons 17
    touchpadFinger2 := hasBit buttons 16
    touchpad := hasBit buttons 15
    leftStickButton := hasBit buttons 14
    rightStickButton := hasBit buttons 13
    dpadUp := hasBit buttons 12
    dpadDown := hasBit buttons 11
    dpadLeft := hasBit buttons 10
    dpadRight := hasBit buttons 9
    a := hasBit buttons 8
    b := hasBit buttons 7
    x := hasBit buttons 6
    y := hasBit buttons 5
    guide := hasBit buttons 4
    start := hasBit buttons 3
    back := hasBit buttons 2
    leftBumper := hasBit buttons 1
    rightBumper := hasBit buttons 0
    user := ← getU8 buf 46
    gamepadType := GamepadType.fromByte typeByte
    touchpadFinger1X := ← getF32 buf 49
    touchpadFinger1Y := ← getF32 buf 53
    touchpadFinger2X := ← getF32 buf 57
    touchpadFinger2Y := ← getF32 buf 61 }

inductive PeerType
  | unset | peer | groupOwner | notConnectedDueToPreexistingConnection
  deriving DecidableEq

def PeerType.fromByte (b : UInt8) : PeerType :=
  if b = 1 then .peer
  else if b = 2 then .groupOwner
  else if b = 3 then .notConnectedDueToPreexistingConnection
  else .unset

/-- `peer_type as u8`. -/
def PeerType.toByte : PeerType → UInt8
  | .unset => 0
  | .peer => 1
  | .groupOwner => 2
  | .notConnectedDueToPreexistingConnection => 3

@[simp] theorem PeerType.fromByte_toByte (p : PeerType) : fromByte p.toByte = p := by
  cases p <;> decide

structure PeerDiscovery where
  seq : UInt16 := 0
  robocolVersion : UInt8 := 124
  peerType : PeerType := .peer
  sdkBuildMonth : UInt8 := 7
  sdkBuildYear : UInt16 := 2026
  sdkMajorVersion : UInt8 := 11
  sdkMinorVersion : UInt8 := 2
  deriving DecidableEq

def PeerDiscovery.TOTAL_LEN : ℕ := 13

def PeerDiscovery.serialize (p : PeerDiscovery) : Option (List UInt8) := do
  let buf := List.replicate TOTAL_LEN (0 : UInt8)
  let buf ← putU8 buf 0 UID_PEER_DISCOVERY
  let buf ← putU16 buf 1 10
  let buf ← putU8 buf 3 p.robocolVersion
  let buf ← putU8 buf 4 p.peerType.toByte
  let buf ← putU16 buf 5 p.seq
  let buf ← putU8 buf 7 p.sdkBuildMonth
  let buf ← putU16 buf 8 p.sdkBuildYear
  let buf ← putU8 buf 10 p.sdkMajorVersion
  putU8 buf 11 p.sdkMinorVersion

def PeerDiscovery.parse (buf : List UInt8) : Except Error PeerDiscovery := do
  return {
    robocolVersion := ← getU8 buf 3
    peerType := PeerType.fromByte (← getU8 buf 4)
    seq := ← getU16 buf 5
    sdkBuildMonth := ← getU8 buf 7
    sdkBuildYear := ← getU16 buf 8
    sdkMajorVersion := ← getU8 buf 10
    sdkMinorVersion := ← getU8 buf 11 }

structure Command where
  seq : UInt16
  timestamp : Int64
  acknowledged : Bool
  name : String
  extra : String
  deriving DecidableEq

def Command.new (name extra : String) (timestamp : Int64) : Command :=
  ⟨0,timestamp,false,name,extra⟩

def Command.ackOf (other : Command) : Command :=
  ⟨other.seq,other.timestamp,true,other.name,""⟩

def Command.serialize (c : Command) : Option (List UInt8) := do
  let name := utf8 c.name
  let extra := utf8 c.extra
  let payload := 11+name.length+if c.acknowledged then 0 else 2+extra.length
  let buf ← withHeader UID_COMMAND payload c.seq
  let buf ← putI64 buf 5 c.timestamp
  let buf ← putU8 buf 13 c.acknowledged.toUInt8
  let (buf,off) ← putStrU16 buf 14 name
  if c.acknowledged then return buf
  else
    let (buf,_) ← putStrU16 buf off extra
    return buf

def Command.parse (buf : List UInt8) : Except Error Command := do
  let acknowledged := (← getU8 buf 13) != 0
  let (name,off) ← getStrU16 buf 14
  let extra ← if acknowledged then pure "" else Prod.fst <$> getStrU16 buf off
  return {
    seq := ← getU16 buf 3
    timestamp := ← getI64 buf 5
    acknowledged := acknowledged
    name := name
    extra := extra }

/-- `BTreeMap<String, f32>`: `compare` on strings is the byte order of their UTF-8. -/
abbrev Numbers := Std.ExtTreeMap String F32 compare

structure Telemetry where
  seq : UInt16 := 0
  timestamp : Int64 := 0
  isSorted : Bool := false
  robotState : RobotState := .unknown
  tag : String := ""
  strings : List (String × String) := []
  numbers : Numbers := ∅
  deriving DecidableEq

/-- One round of the string loop of `Telemetry::serialize`. -/
def Telemetry.putString (s : List UInt8 × ℕ) (kv : String × String) : Option (List UInt8 × ℕ) := do
  let (buf,off) ← putStrU16 s.1 s.2 (utf8 kv.1)
  putStrU16 buf off (utf8 kv.2)

/-- One round of the number loop of `Telemetry::serialize`. -/
def Telemetry.putNumber (s : List UInt8 × ℕ) (kv : String × F32) : Option (List UInt8 × ℕ) := do
  let (buf,off) ← putStrU16 s.1 s.2 (utf8 kv.1)
  let buf ← putF32 buf off kv.2
  return (buf,off+4)

def Telemetry.serialize (t : Telemetry) : Option (List UInt8) := do
  let tag := utf8 t.tag
  let payload := 13+tag.length
  let payload := t.strings.foldl (fun n kv => n+(4+(utf8 kv.1).length+(utf8 kv.2).length)) payload
  let payload := t.numbers.toList.foldl (fun n kv => n+(6+(utf8 kv.1).length)) payload
  let buf ← withHeader UID_TELEMETRY payload t.seq
  let buf ← putI64 buf 5 t.timestamp
  let buf ← putU8 buf 13 t.isSorted.toUInt8
  let buf ← putU8 buf 14 t.robotState.toByte
  let (buf,off) ← putStrU8 buf 15 tag
  let buf ← putU8 buf off (UInt8.ofNat t.strings.length)
  let (buf,off) ← t.strings.foldlM putString (buf,off+1)
  let buf ← putU8 buf off (UInt8.ofNat t.numbers.size)
  let (buf,_) ← t.numbers.toList.foldlM putNumber (buf,off+1)
  return buf

def Telemetry.parseStrings (buf : List UInt8) :
    ℕ → ℕ → List (String × String) → Except Error (List (String × String) × ℕ)
  | 0, off, strings => return (strings,off)
  | n+1, off, strings => do
    let (key,o) ← getStrU16 buf off
    let (value,next) ← getStrU16 buf o
    parseStrings buf n next (strings ++ [(key,value)])

def Telemetry.parseNumbers (buf : List UInt8) : ℕ → ℕ → Numbers → Except Error Numbers
  | 0, _, numbers => return numbers
  | n+1, off, numbers => do
    let (key,o) ← getStrU16 buf off
    let value ← getF32 buf o
    parseNumbers buf n (o+4) (numbers.insert key value)

def Telemetry.parse (buf : List UInt8) : Except Error Telemetry := do
  let seq ← getU16 buf 3
  let timestamp ← getI64 buf 5
  let isSorted := (← getU8 buf 13) != 0
  let robotState := RobotState.fromByte (← getU8 buf 14)
  let (tag,off) ← getStrU8 buf 15
  let stringCount ← getU8 buf off
  let (strings,off) ← parseStrings buf stringCount.toNat (off+1) []
  let numberCount ← getU8 buf off
  let numbers ← parseNumbers buf numberCount.toNat (off+1) ∅
  return ⟨seq,timestamp,isSorted,robotState,tag,strings,numbers⟩

structure KeepAlive where
  seq : UInt16 := 0
  id : UInt8 := 0
  deriving DecidableEq

def KeepAlive.serialize (k : KeepAlive) : Option (List UInt8) := do
  let buf ← withHeader UID_KEEP_ALIVE 1 k.seq
  putU8 buf 5 k.id

def KeepAlive.parse (buf : List UInt8) : Except Error KeepAlive := do
  return { seq := ← getU16 buf 3, id := ← getU8 buf 5 }

inductive Packet
  | heartbeat (hb : Heartbeat)
  | gamepad (g : Gamepad)
  | peerDiscovery (p : PeerDiscovery)
  | command (c : Command)
  | telemetry (t : Telemetry)
  | keepAlive (k : KeepAlive)
  deriving DecidableEq

def Packet.parse (buf : List UInt8) : Except Error Packet := do
  let uid ← getU8 buf 0
  if uid = UID_HEARTBEAT then return .heartbeat (← Heartbeat.parse buf)
  else if uid = UID_GAMEPAD then return .gamepad (← Gamepad.parse buf)
  else if uid = UID_PEER_DISCOVERY then return .peerDiscovery (← PeerDiscovery.parse buf)
  else if uid = UID_COMMAND then return .command (← Command.parse buf)
  else if uid = UID_TELEMETRY then return .telemetry (← Telemetry.parse buf)
  else if uid = UID_KEEP_ALIVE then return .keepAlive (← KeepAlive.parse buf)
  else throw (.unknownPacketType uid)

/-- The serializer of each kind. -/
def Packet.serialize : Packet → Option (List UInt8)
  | .heartbeat hb => hb.serialize
  | .gamepad g => g.serialize
  | .peerDiscovery p => p.serialize
  | .command c => c.serialize
  | .telemetry t => t.serialize
  | .keepAlive k => k.serialize

end Robocol
