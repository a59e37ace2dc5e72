import Std.Data.ExtTreeSet
import Robocol.Cmd
import Robocol.Datagrams
import Robocol.Packets

/-! What the end-of-run report gathers from the datagrams of a capture, and the lines it
prints. JSON values come from outside the repository, as the typed decoders do. -/
namespace Robocol
namespace Capture

open ByteLayout Cmd
open Std (ExtTreeMap ExtTreeSet)

section Endpoints

abbrev Endpoint := IpAddr × UInt16

/-- The version and the octets of an address, in the order addresses are compared by. -/
def IpAddr.octets : IpAddr → List UInt8
  | .v4 (a,b,c,d) => [4,a,b,c,d]
  | .v6 bytes => 6 :: bytes

def endpointCmp : Endpoint → Endpoint → Ordering :=
  compareLex (compareOn fun e => e.1.octets) (compareOn fun e => e.2)

instance : Std.TransCmp endpointCmp :=
  inferInstanceAs (Std.TransCmp (compareLex _ _))

abbrev EndpointSet := ExtTreeSet Endpoint endpointCmp

def Datagram.sender (dg : Datagram) : Endpoint := (dg.src,dg.sport)
def Datagram.receiver (dg : Datagram) : Endpoint := (dg.dst,dg.dport)

def ipv4Text (a : Ipv4Addr) : String :=
  ".".intercalate [toString a.1,toString a.2.1,toString a.2.2.1,toString a.2.2.2]

def segments : List UInt8 → List ℕ
  | a :: b :: bytes => ofBE [a,b] :: segments bytes
  | _ => []

/-- The start and the length of the longest run of zeros, the first of them if there are several. -/
def zeroes (segs : List ℕ) : ℕ × ℕ :=
  (segs.zipIdx.foldl (fun (longest,current) (seg,i) =>
    if seg = 0 then
      let current : ℕ × ℕ := (if current.2 = 0 then i else current.1,current.2+1)
      (if longest.2 < current.2 then current else longest,current)
    else (longest,(0,0))) (((0,0),(0,0)) : (ℕ × ℕ) × (ℕ × ℕ))).1

def subsliceText (segs : List ℕ) : String :=
  ":".intercalate (segs.map fun seg => String.ofList (Nat.toDigits 16 seg))

def ipv6Text (bytes : List UInt8) : String :=
  let segs := segments bytes
  match segs with
  | [0,0,0,0,0,0xffff,hi,lo] =>
    "::ffff:" ++ ipv4Text (UInt8.ofNat (hi/256),UInt8.ofNat hi,UInt8.ofNat (lo/256),UInt8.ofNat lo)
  | _ =>
    let (start,len) := zeroes segs
    if 1 < len then subsliceText (segs.take start) ++ "::" ++ subsliceText (segs.drop (start+len))
    else subsliceText segs

def IpAddr.display : IpAddr → String
  | .v4 a => ipv4Text a
  | .v6 bytes => ipv6Text bytes

def dir (dg : Datagram) (rc : EndpointSet) : String :=
  if rc.contains dg.sender then "RC->DS"
  else if rc.contains dg.receiver then "DS->RC"
  else
    dg.src.display ++ ":" ++ toString dg.sport ++ "->" ++ dg.dst.display ++ ":" ++ toString dg.dport

end Endpoints

section Known

def KNOWN_COMMANDS : List String := [
  REQUEST_OP_MODE_LIST, INIT_OP_MODE, RUN_OP_MODE, REQUEST_ACTIVE_CONFIG, REQUEST_CONFIGURATIONS,
  REQUEST_PARTICULAR_CONFIGURATION, REQUEST_USER_DEVICE_TYPES, SAVE_CONFIGURATION,
  ACTIVATE_CONFIGURATION, DELETE_CONFIGURATION, RESTART_ROBOT, SCAN, DISCOVER_LYNX_MODULES,
  REQUEST_FRAME, NOTIFY_OP_MODE_LIST, NOTIFY_INIT_OP_MODE, NOTIFY_RUN_OP_MODE,
  NOTIFY_ACTIVE_CONFIGURATION, NOTIFY_USER_DEVICE_LIST, REQUEST_CONFIGURATIONS_RESP,
  REQUEST_PARTICULAR_CONFIGURATION_RESP, SCAN_RESP, DISCOVER_LYNX_MODULES_RESP, SHOW_STACKTRACE,
  STREAM_CHANGE, RECEIVE_FRAME_BEGIN, RECEIVE_FRAME_CHUNK]

def KNOWN_OPMODE_FIELDS : List String := ["name", "flavor", "group"]

def isKnown (name : String) : Bool := KNOWN_COMMANDS.contains name

end Known

section Texts

def startsWith (s front : String) : Bool := front.toList.isPrefixOf s.toList

def oneLine (s : String) : String :=
  String.ofList (s.toList.flatMap fun c =>
    if c = '\n' then ['\\','n'] else if c = '\r' then [] else [c])

def clip (s : String) (max : ℕ) : String :=
  let s := oneLine s
  if max = 0 ∨ s.length ≤ max then s
  else String.ofList (s.toList.take max) ++ "... [" ++ toString s.length ++ " chars total]"

/-- `{s:<width}`. -/
def padded (width : ℕ) (s : String) : String :=
  s ++ String.ofList (List.replicate (width-s.length) ' ')

abbrev TextSet := ExtTreeSet String compare

def join (set : TextSet) : String :=
  if set.isEmpty then "(none)" else ", ".intercalate set.toList

def PeerType.debug : PeerType → String
  | .unset => "Unset"
  | .peer => "Peer"
  | .groupOwner => "GroupOwner"
  | .notConnectedDueToPreexistingConnection => "NotConnectedDueToPreexistingConnection"

/-- What a discovery packet is filed under. -/
def peerKey (p : PeerDiscovery) : String :=
  "robocol=" ++ toString p.robocolVersion ++ " sdk=" ++ toString p.sdkMajorVersion ++ "."
    ++ toString p.sdkMinorVersion ++ " build=" ++ toString p.sdkBuildMonth ++ "/"
    ++ toString p.sdkBuildYear ++ " type=" ++ PeerType.debug p.peerType

end Texts

section Observe

/-- `serde_json::Value`. -/
inductive Value
  | null
  | bool (b : Bool)
  | number (text : String)
  | string (s : String)
  | array (items : List Value)
  | object (fields : List (String × Value))

/-- `serde_json` with its untyped values. -/
structure SerdeJson extends Json where
  value : String → Option Value
  render : Value → String

structure OpModeFindings where
  lists : ℕ := 0
  flavors : TextSet := ∅
  groups : TextSet := ∅
  droppedFields : TextSet := ∅
  jsonEntries : ℕ := 0
  parsedEntries : ℕ := 0
  unparsable : List String := []

/-- The order of the pairs of a name and a direction. -/
def pairCmp : String × String → String × String → Ordering :=
  compareLex (compareOn Prod.fst) (compareOn Prod.snd)

instance : Std.TransCmp pairCmp :=
  inferInstanceAs (Std.TransCmp (compareLex _ _))

structure Report where
  rc : EndpointSet
  commands : ExtTreeMap (String × String) ℕ pairCmp := ∅
  peers : ExtTreeMap String (String × ℕ) compare := ∅
  opmodes : OpModeFindings := {}
  inited : TextSet := ∅
  ran : TextSet := ∅
  packets : ℕ := 0
  reassembled : ℕ := 0
  undecodable : ExtTreeMap String ℕ compare := ∅

def OpModeFindings.field (json : SerdeJson) (f : OpModeFindings) (kv : String × Value) :
    OpModeFindings :=
  if kv.1 = "flavor" then { f with flavors := f.flavors.insert (json.render kv.2) }
  else if kv.1 = "group" then { f with groups := f.groups.insert (json.render kv.2) }
  else if KNOWN_OPMODE_FIELDS.contains kv.1 then f
  else { f with droppedFields :=
    f.droppedFields.insert (kv.1 ++ " (e.g. " ++ json.render kv.2 ++ ")") }

def OpModeFindings.item (json : SerdeJson) (f : OpModeFindings) : Value → OpModeFindings
  | .object fields => fields.foldl (OpModeFindings.field json) f
  | _ => f

def observeOpmodeList (json : SerdeJson) (f : OpModeFindings) (extra : String) : OpModeFindings :=
  let f := { f with
    lists := f.lists+1
    parsedEntries := max f.parsedEntries (parseOpmodeList json.toJson extra).length }
  match json.value extra with
  | some (.array items) =>
    items.foldl (OpModeFindings.item json) { f with jsonEntries := max f.jsonEntries items.length }
  | _ => { f with unparsable := f.unparsable ++ [clip extra 200] }

def Report.observeCommand (json : SerdeJson) (r : Report) (dg : Datagram) (c : Command) : Report :=
  let key := (c.name,dir dg r.rc)
  let r := { r with commands := r.commands.insert key (r.commands.getD key 0+1) }
  if c.name = NOTIFY_OP_MODE_LIST then
    { r with opmodes := observeOpmodeList json r.opmodes c.extra }
  else if c.name = NOTIFY_INIT_OP_MODE then { r with inited := r.inited.insert c.extra }
  else if c.name = NOTIFY_RUN_OP_MODE then { r with ran := r.ran.insert c.extra }
  else r

def Report.observePeer (r : Report) (dg : Datagram) (p : PeerDiscovery) : Report :=
  let entry := r.peers.getD (peerKey p) (dir dg r.rc,0)
  { r with peers := r.peers.insert (peerKey p) (entry.1,entry.2+1) }

def Report.observe (json : SerdeJson) (r : Report) (dg : Datagram) (parsed : Except Error Packet) :
    Report :=
  let r := { r with
    packets := r.packets+1
    reassembled := if dg.fragmented then r.reassembled+1 else r.reassembled }
  match parsed with
  | .error err =>
    { r with undecodable := r.undecodable.insert err.display (r.undecodable.getD err.display 0+1) }
  | .ok (.command c) => if c.acknowledged then r else r.observeCommand json dg c
  | .ok (.peerDiscovery p) => r.observePeer dg p
  | .ok _ => r

/-- The report on a capture, as `main` fills it. -/
def report (json : SerdeJson) (rc : EndpointSet) (dgs : List Datagram) : Report :=
  dgs.foldl (fun r dg => r.observe json dg (Packet.parse dg.payload)) { rc := rc }

end Observe

section Effects

variable (json : SerdeJson)

/-- The discovery packet a datagram brings. -/
def discovery (dg : Datagram) : Option PeerDiscovery :=
  match Packet.parse dg.payload with
  | .ok (.peerDiscovery p) => some p
  | _ => none

/-- The OpMode list a datagram brings. -/
def opmodeList (dg : Datagram) : Option String :=
  match Packet.parse dg.payload with
  | .ok (.command c) =>
    if c.acknowledged = false ∧ c.name = NOTIFY_OP_MODE_LIST then some c.extra else none
  | _ => none

theorem observeCommand_frame (r : Report) (dg : Datagram) (c : Command) :
    (r.observeCommand json dg c).rc = r.rc ∧ (r.observeCommand json dg c).peers = r.peers ∧
      (r.observeCommand json dg c).opmodes =
        if c.name = NOTIFY_OP_MODE_LIST then observeOpmodeList json r.opmodes c.extra else r.opmodes := by
  unfold Report.observeCommand
  by_cases hlist : c.name = NOTIFY_OP_MODE_LIST
  · simp only [if_pos hlist,and_self]
  · by_cases hinit : c.name = NOTIFY_INIT_OP_MODE
    · simp only [if_neg hlist,if_pos hinit,and_self]
    · by_cases hran : c.name = NOTIFY_RUN_OP_MODE
      · simp only [if_neg hlist,if_neg hinit,if_pos hran,and_self]
      · simp only [if_neg hlist,if_neg hinit,if_neg hran,and_self]

/-- The endpoints stay, a discovery packet changes the peers, a list changes the findings. -/
theorem observe_frame (r : Report) (dg : Datagram) :
    (r.observe json dg (Packet.parse dg.payload)).rc = r.rc ∧
      (r.observe json dg (Packet.parse dg.payload)).peers =
        ((discovery dg).elim r.peers fun p => (r.observePeer dg p).peers) ∧
      (r.observe json dg (Packet.parse dg.payload)).opmodes =
        ((opmodeList dg).elim r.opmodes fun extra => observeOpmodeList json r.opmodes extra) := by
  unfold Report.observe discovery opmodeList
  cases Packet.parse dg.payload with
  | error err => simp
  | ok packet =>
    cases packet with
    | command c =>
      cases hack : c.acknowledged with
      | true => simp [hack]
      | false =>
        obtain ⟨hrc,hpeers,hopmodes⟩ := observeCommand_frame json { r with
          packets := r.packets+1
          reassembled := if dg.fragmented then r.reassembled+1 else r.reassembled } dg c
        by_cases hlist : c.name = NOTIFY_OP_MODE_LIST
        · simp [hack,hrc,hpeers,hopmodes,hlist]
        · simp [hack,hrc,hpeers,hopmodes,hlist]
    | peerDiscovery p => simp [Report.observePeer]
    | _ => simp

end Effects

section Print

def ours : PeerDiscovery := {}

def oursText : String :=
  "robocol=" ++ toString ours.robocolVersion ++ " sdk=" ++ toString ours.sdkMajorVersion ++ "."
    ++ toString ours.sdkMinorVersion

/-- An action item, with what its message is put together from. -/
inductive Action
  | parseLoss (dropped entries : ℕ)
  | notAnArray (head : String)
  | droppedFields (fields : TextSet)
  | newFlavors (flavors : List String)
  | newCommands (n : ℕ)
  | bump (peer : String)
  | undecodable (rows : List (String × ℕ))

def Action.text : Action → String
  | .parseLoss dropped entries =>
    "OpMode list PARSE LOSS: " ++ toString dropped ++ " of " ++ toString entries
      ++ " entries dropped by cmd::parse_opmode_list (cmd.rs) — the JSON shape changed."
  | .notAnArray head => "OpMode list payload is not a JSON array; raw head: " ++ head
  | .droppedFields fields => "OpMode JSON has fields OpModeMeta drops: " ++ join fields
  | .newFlavors flavors =>
    "New OpMode flavor(s) " ++ ", ".intercalate flavors
      ++ " — opmodes_page.gd:168 treats anything != AUTONOMOUS as TeleOp."
  | .newCommands n =>
    toString n ++ " command name(s) not in robocol::cmd — see the * rows above."
  | .bump peer =>
    "RC advertises " ++ peer ++ "; we advertise " ++ oursText
      ++ " — consider bumping PeerDiscovery::default()."
  | .undecodable rows =>
    "Packets the wire codecs rejected: "
      ++ ", ".intercalate (rows.map fun (err,n) => err ++ " x" ++ toString n)

def KNOWN_FLAVORS : List String := ["\x22TELEOP\x22", "\x22AUTONOMOUS\x22", "\x22SYSTEM\x22"]

def Report.newCommands (r : Report) : TextSet :=
  ExtTreeSet.ofList ((r.commands.toList.map fun entry => entry.1.1).filter fun name => !isKnown name)

def Report.unknownFlavors (r : Report) : List String :=
  r.opmodes.flavors.toList.filter fun flavor => !KNOWN_FLAVORS.contains flavor

/-- The action item on one row of the peers. -/
def bumpAction (row : String × String × ℕ) : Option Action :=
  if row.2.1 = "RC->DS" ∧ startsWith row.1 oursText = false then some (.bump row.1) else none

/-- `x`, if `b`. -/
def only {α : Type} (b : Bool) (x : α) : List α := if b then [x] else []

/-- What `print` hands to `action`, in order. -/
def Report.actions (r : Report) : List Action :=
  let f := r.opmodes
  only (0 < f.lists && f.parsedEntries < f.jsonEntries)
      (.parseLoss (f.jsonEntries-f.parsedEntries) f.jsonEntries)
    ++ (f.unparsable.head?.map Action.notAnArray).toList
    ++ only (!f.droppedFields.isEmpty) (.droppedFields f.droppedFields)
    ++ only (!r.unknownFlavors.isEmpty) (.newFlavors r.unknownFlavors)
    ++ only (!r.newCommands.isEmpty) (.newCommands r.newCommands.size)
    ++ r.peers.toList.filterMap bumpAction
    ++ only (!r.undecodable.isEmpty) (.undecodable r.undecodable.toList)

def Report.captureLines (r : Report) (frames skipped : ℕ) : List String :=
  ["=== capture ===",
    toString frames ++ " frames, " ++ toString r.packets ++ " Robocol packets ("
      ++ toString r.reassembled ++ " reassembled from IP fragments), " ++ toString skipped
      ++ " non-IP/unsupported frames",
    if r.rc.isEmpty then
      "Robot Controller NOT inferred (no telemetry seen) — directions shown as endpoints"
    else
      "Robot Controller endpoint(s): "
        ++ ", ".intercalate (r.rc.toList.map fun e => e.1.display ++ ":" ++ toString e.2)]

def Report.peerLines (r : Report) : List String :=
  ["\n=== peer discovery (advertised versions) ==="]
    ++ only r.peers.isEmpty "  none seen"
    ++ r.peers.toList.map (fun (key,direction,count) =>
      "  " ++ padded 7 direction ++ " " ++ key ++ "  x" ++ toString count)
    ++ ["  we advertise: " ++ oursText ++ " build=" ++ toString ours.sdkBuildMonth ++ "/"
      ++ toString ours.sdkBuildYear ++ "  <- peer_discovery.rs, hardcoded"]

def Report.commandLines (r : Report) : List String :=
  ["\n=== commands ==="]
    ++ r.commands.toList.map (fun ((name,direction),count) =>
      "  " ++ (if isKnown name then " " else "*") ++ " " ++ padded 7 direction ++ " "
        ++ padded 45 name ++ " x" ++ toString count)
    ++ only r.commands.isEmpty "  none seen"
    ++ (if r.newCommands.isEmpty then [] else
      "\n  * NEW — not declared in robocol::cmd:"
        :: r.newCommands.toList.map fun name => "      " ++ name)

def Report.opmodeLines (r : Report) : List String :=
  let f := r.opmodes
  "\n=== opmodes ===" :: if f.lists = 0 then
    ["  no CMD_NOTIFY_OP_MODE_LIST seen — did you run \x60opmodes\x60 in ds_cli?"]
  else
    ["  " ++ toString f.lists ++ " list(s); " ++ toString f.jsonEntries ++ " entries in JSON, "
        ++ toString f.parsedEntries ++ " survived cmd::parse_opmode_list",
      "  flavors seen: " ++ join f.flavors, "  groups seen:  " ++ join f.groups]
      ++ only (!r.inited.isEmpty) ("  inited: " ++ join r.inited)
      ++ only (!r.ran.isEmpty) ("  ran:    " ++ join r.ran)

/-- One `println!`: a text, or an action item under its number. -/
inductive Line
  | text (s : String)
  | action (number : ℕ) (a : Action)

def Line.display : Line → String
  | .text s => s
  | .action number a => "  " ++ toString number ++ ". " ++ a.text

/-- What `print` prints, one line for each `println!`. -/
def Report.print (r : Report) (frames skipped : ℕ) : List Line :=
  (r.captureLines frames skipped ++ r.peerLines ++ r.commandLines ++ r.opmodeLines
      ++ ["\n=== action items ==="]).map Line.text
    ++ (r.actions.zipIdx 1).map (fun (a,number) => .action number a)
    ++ (only r.actions.isEmpty
      "  none — nothing in this capture is unknown to the current crate.").map Line.text

/-- The action item is among the lines. -/
def Lists (lines : List Line) (a : Action) : Prop := ∃ number, .action number a ∈ lines

theorem lists_print (r : Report) (frames skipped : ℕ) (a : Action) :
    Lists (r.print frames skipped) a ↔ a ∈ r.actions := by
  have htext (xs : List String) (number : ℕ) : Line.action number a ∉ xs.map Line.text := by simp
  simp only [Lists,Report.print,List.mem_append,htext,false_or,or_false,List.mem_map]
  constructor
  · rintro ⟨number,⟨b,n⟩,hmem,hline⟩
    obtain ⟨rfl,rfl⟩ := Line.action.inj hline
    exact List.fst_mem_of_mem_zipIdx hmem
  · intro ha
    obtain ⟨i,hi,rfl⟩ := List.mem_iff_getElem.mp ha
    exact ⟨1+i,(r.actions[i],1+i),List.mk_add_mem_zipIdx_iff_getElem?.mpr (by simp [hi]),rfl⟩

end Print

end Capture
end Robocol
