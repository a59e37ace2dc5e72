import Mathlib.Data.List.Induction
import Robocol.ParseLoss
import Robocol.VersionAlarm

/-! What the report holds at the end of a capture, each field as a count or a collection of what the
datagrams bring, and when it has nothing to say. -/
namespace Robocol

/-! Counting with an ordered map. -/
namespace Tally

open Std (ExtTreeMap)

variable {κ : Type} {cmp : κ → κ → Ordering} [Std.TransCmp cmp]
  {m : ExtTreeMap κ ℕ cmp} {k k' : κ} {n : ℕ}

/-- The entry of what was counted `n` times. -/
def row (n : ℕ) : Option ℕ := if n = 0 then none else some n

@[simp] theorem row_zero : row 0 = none := rfl
@[simp] theorem row_succ (n : ℕ) : row (n+1) = some (n+1) := rfl

theorem row_eq_none : row n = none ↔ n = 0 := by
  cases n <;> simp

theorem row_getD (n : ℕ) : (row n).getD 0 = n := by
  cases n <;> rfl

/-- `*m.entry(k).or_default() += 1` -/
def bump (m : ExtTreeMap κ ℕ cmp) (k : κ) : ExtTreeMap κ ℕ cmp := m.insert k (m.getD k 0+1)

theorem bump_same (h : m[k]? = row n) : (bump m k)[k]? = row (n+1) := by
  rw [bump,ExtTreeMap.getElem?_insert_self,ExtTreeMap.getD_eq_getD_getElem?,h,row_getD,row_succ]

theorem bump_other [Std.LawfulEqCmp cmp] (hne : k ≠ k') : (bump m k)[k']? = m[k']? := by
  rw [bump,ExtTreeMap.getElem?_insert,if_neg (by rwa [Std.LawfulEqCmp.compare_eq_iff_eq])]

/-- Counting what may have a key. -/
theorem bump_row [Std.LawfulEqCmp cmp] [DecidableEq κ] (h : m[k]? = row n) (o : Option κ) :
    (o.elim m (bump m))[k]? = row (n+(decide (o = some k)).toNat) := by
  cases o with
  | none => exact h
  | some k' =>
    by_cases hk : k' = k
    · subst hk
      rw [Option.elim_some,bump_same h,decide_eq_true rfl]
      rfl
    · rw [Option.elim_some,bump_other hk,h,decide_eq_false fun he => hk (Option.some.inj he)]
      rfl

end Tally

namespace Capture

open Std (ExtTreeMap ExtTreeSet)
open Cmd Tally

instance : Std.LawfulEqCmp pairCmp := by
  refine ⟨fun {a b} h => ?_⟩
  simp only [pairCmp,compareLex_eq_eq,compareOn,Std.LawfulEqOrd.compare_eq_iff_eq] at h
  exact Prod.ext h.1 h.2

section Fields

variable (json : SerdeJson) {rc : EndpointSet} {dgs : List Datagram} {dg : Datagram} {c : Command}

/-- The command a datagram brings, unless it is an acknowledgement. -/
def commandIn (dg : Datagram) : Option Command :=
  match Packet.parse dg.payload with
  | .ok (.command c) => if c.acknowledged then none else some c
  | _ => none

/-- Why a datagram is not decoded. -/
def rejection (dg : Datagram) : Option Error :=
  match Packet.parse dg.payload with
  | .error e => some e
  | .ok _ => none

theorem observeCommand_counts (r : Report) (dg : Datagram) (c : Command) :
    (r.observeCommand json dg c).packets = r.packets ∧
      (r.observeCommand json dg c).reassembled = r.reassembled ∧
      (r.observeCommand json dg c).commands = bump r.commands (c.name,dir dg r.rc) ∧
      (r.observeCommand json dg c).undecodable = r.undecodable := by
  unfold Report.observeCommand bump
  by_cases hlist : c.name = NOTIFY_OP_MODE_LIST
  · simp only [if_pos hlist,and_self]
  · by_cases hinit : c.name = NOTIFY_INIT_OP_MODE
    · simp only [if_neg hlist,if_pos hinit,and_self]
    · by_cases hran : c.name = NOTIFY_RUN_OP_MODE
      · simp only [if_neg hlist,if_neg hinit,if_pos hran,and_self]
      · simp only [if_neg hlist,if_neg hinit,if_neg hran,and_self]

theorem observeCommand_names (r : Report) (dg : Datagram) (c : Command) :
    (r.observeCommand json dg c).inited =
        (if c.name = NOTIFY_INIT_OP_MODE then r.inited.insert c.extra else r.inited) ∧
      (r.observeCommand json dg c).ran =
        (if c.name = NOTIFY_RUN_OP_MODE then r.ran.insert c.extra else r.ran) := by
  have hlistInit : NOTIFY_OP_MODE_LIST ≠ NOTIFY_INIT_OP_MODE := by decide
  have hlistRun : NOTIFY_OP_MODE_LIST ≠ NOTIFY_RUN_OP_MODE := by decide
  have hinitRun : NOTIFY_INIT_OP_MODE ≠ NOTIFY_RUN_OP_MODE := by decide
  unfold Report.observeCommand
  by_cases hlist : c.name = NOTIFY_OP_MODE_LIST
  · simp only [hlist,if_true,if_neg hlistInit,if_neg hlistRun,and_self]
  · by_cases hinit : c.name = NOTIFY_INIT_OP_MODE
    · simp only [hinit,if_neg hlistInit.symm,if_true,if_neg hinitRun,and_self]
    · by_cases hran : c.name = NOTIFY_RUN_OP_MODE
      · simp only [hran,if_neg hlistRun.symm,if_neg hinitRun.symm,if_true,and_self]
      · simp only [if_neg hlist,if_neg hinit,if_neg hran,and_self]

/-- What a datagram changes in the numbers. -/
theorem observe_counts (r : Report) (dg : Datagram) :
    (r.observe json dg (Packet.parse dg.payload)).packets = r.packets+1 ∧
      (r.observe json dg (Packet.parse dg.payload)).reassembled = r.reassembled+dg.fragmented.toNat ∧
      (r.observe json dg (Packet.parse dg.payload)).commands =
        (((commandIn dg).map fun c => (c.name,dir dg r.rc)).elim r.commands (bump r.commands)) ∧
      (r.observe json dg (Packet.parse dg.payload)).undecodable =
        (((rejection dg).map Error.display).elim r.undecodable (bump r.undecodable)) := by
  have hmark : (if dg.fragmented then r.reassembled+1 else r.reassembled) =
      r.reassembled+dg.fragmented.toNat := by cases dg.fragmented <;> rfl
  unfold Report.observe commandIn rejection
  rw [hmark]
  cases Packet.parse dg.payload with
  | error err => simp [bump]
  | ok packet =>
    cases packet with
    | command c =>
      obtain ⟨hpackets,hreassembled,hcommands,hundecodable⟩ := observeCommand_counts json { r with
        packets := r.packets+1
        reassembled := r.reassembled+dg.fragmented.toNat } dg c
      cases hack : c.acknowledged <;> simp [hack,hpackets,hreassembled,hcommands,hundecodable]
    | peerDiscovery p => simp [Report.observePeer]
    | _ => simp

/-- What a datagram changes in the OpModes that were inited and ran. -/
theorem observe_names (r : Report) (dg : Datagram) :
    (r.observe json dg (Packet.parse dg.payload)).inited =
        ((commandIn dg).elim r.inited fun c =>
          if c.name = NOTIFY_INIT_OP_MODE then r.inited.insert c.extra else r.inited) ∧
      (r.observe json dg (Packet.parse dg.payload)).ran =
        ((commandIn dg).elim r.ran fun c =>
          if c.name = NOTIFY_RUN_OP_MODE then r.ran.insert c.extra else r.ran) := by
  unfold Report.observe commandIn
  cases Packet.parse dg.payload with
  | error err => simp
  | ok packet =>
    cases packet with
    | command c =>
      obtain ⟨hinited,hran⟩ := observeCommand_names json { r with
        packets := r.packets+1
        reassembled := if dg.fragmented then r.reassembled+1 else r.reassembled } dg c
      cases hack : c.acknowledged <;> simp [hack,hinited,hran]
    | peerDiscovery p => simp [Report.observePeer]
    | _ => simp

end Fields

section Findings

variable {json : SerdeJson} {f : OpModeFindings} {kv : String × Value} {kvs : List (String × Value)}
  {text : String}

/-- The fields of the items of a payload. -/
def fieldsIn (json : SerdeJson) (extra : String) : List (String × Value) :=
  match json.value extra with
  | some (.array items) => items.flatMap fun
    | .object fields => fields
    | _ => []
  | _ => []

/-- The payload is no JSON array. -/
def notArray (json : SerdeJson) (extra : String) : Bool :=
  match json.value extra with
  | some (.array _) => false
  | _ => true

/-- How a field is told of that `OpModeMeta` drops. -/
def dropNote (json : SerdeJson) (kv : String × Value) : String := kv.1 ++ " (e.g. " ++ json.render kv.2 ++ ")"

theorem item_eq (f : OpModeFindings) (v : Value) : f.item json v =
    (match v with | .object fields => fields | _ => []).foldl (OpModeFindings.field json) f := by
  cases v <;> rfl

variable (json) in
/-- A list is observed field by field, once it is counted. -/
theorem observeOpmodeList_fields (f : OpModeFindings) (extra : String) :
    ∃ g : OpModeFindings, observeOpmodeList json f extra = (fieldsIn json extra).foldl (OpModeFindings.field json) g ∧
      g.flavors = f.flavors ∧ g.groups = f.groups ∧ g.droppedFields = f.droppedFields ∧
      g.unparsable = f.unparsable ++ only (notArray json extra) (clip extra 200) := by
  unfold observeOpmodeList fieldsIn notArray
  cases json.value extra with
  | none => exact ⟨_,rfl,rfl,rfl,rfl,rfl⟩
  | some v =>
    cases v with
    | array items =>
      refine ⟨{ f with
        lists := f.lists+1
        parsedEntries := max f.parsedEntries (parseOpmodeList json.toJson extra).length
        jsonEntries := max f.jsonEntries items.length },?_,rfl,rfl,rfl,(List.append_nil _).symm⟩
      simp only [List.foldl_flatMap,← item_eq]
    | _ => exact ⟨_,rfl,rfl,rfl,rfl,rfl⟩

variable (json) in
/-- What a field adds. -/
theorem mem_field (f : OpModeFindings) (kv : String × Value) (text : String) :
    (text ∈ (f.field json kv).flavors ↔ text ∈ f.flavors ∨ (kv.1 = "flavor" ∧ json.render kv.2 = text)) ∧
      (text ∈ (f.field json kv).groups ↔ text ∈ f.groups ∨ (kv.1 = "group" ∧ json.render kv.2 = text)) ∧
      (text ∈ (f.field json kv).droppedFields ↔
        text ∈ f.droppedFields ∨ (kv.1 ∉ KNOWN_OPMODE_FIELDS ∧ dropNote json kv = text)) ∧
      (f.field json kv).unparsable = f.unparsable := by
  have hflavor : "flavor" ∈ KNOWN_OPMODE_FIELDS := by decide
  have hgroup : "group" ∈ KNOWN_OPMODE_FIELDS := by decide
  have hne : "flavor" ≠ "group" := by decide
  unfold OpModeFindings.field
  by_cases h1 : kv.1 = "flavor"
  · simp [h1,hflavor,hne,or_comm]
  · by_cases h2 : kv.1 = "group"
    · simp [h2,hgroup,hne.symm,or_comm]
    · by_cases h3 : kv.1 ∈ KNOWN_OPMODE_FIELDS
      · simp [h1,h2,h3]
      · simp [h1,h2,h3,dropNote,or_comm]

variable (json) in
theorem mem_fields (f : OpModeFindings) (kvs : List (String × Value)) (text : String) :
    (text ∈ (kvs.foldl (OpModeFindings.field json) f).flavors ↔
        text ∈ f.flavors ∨ ∃ kv ∈ kvs, kv.1 = "flavor" ∧ json.render kv.2 = text) ∧
      (text ∈ (kvs.foldl (OpModeFindings.field json) f).groups ↔
        text ∈ f.groups ∨ ∃ kv ∈ kvs, kv.1 = "group" ∧ json.render kv.2 = text) ∧
      (text ∈ (kvs.foldl (OpModeFindings.field json) f).droppedFields ↔
        text ∈ f.droppedFields ∨ ∃ kv ∈ kvs, kv.1 ∉ KNOWN_OPMODE_FIELDS ∧ dropNote json kv = text) ∧
      (kvs.foldl (OpModeFindings.field json) f).unparsable = f.unparsable := by
  induction kvs generalizing f with
  | nil => simp
  | cons kv kvs ih =>
    obtain ⟨hflavors,hgroups,hdropped,hunparsable⟩ := mem_field json f kv text
    obtain ⟨ihflavors,ihgroups,ihdropped,ihunparsable⟩ := ih (f.field json kv)
    rw [List.foldl_cons,ihflavors,ihgroups,ihdropped,ihunparsable,hflavors,hgroups,hdropped]
    simp only [List.mem_cons,exists_eq_or_imp,or_assoc,hunparsable,and_self]

end Findings

section Report

variable {json : SerdeJson} {rc : EndpointSet} {dgs : List Datagram}

/-- The datagram brings a command of the name, in the direction. -/
def Orders (rc : EndpointSet) (name d : String) (dg : Datagram) : Bool :=
  ((commandIn dg).map fun c => (c.name,dir dg rc)) = some (name,d)

def RejectedAs (err : String) (dg : Datagram) : Bool := (rejection dg).map Error.display = some err

/-- The datagram brings a command of the name with this extra. -/
def Notifies (name extra : String) (dg : Datagram) : Prop :=
  ∃ c, commandIn dg = some c ∧ c.name = name ∧ c.extra = extra

/-- The fields of all items of all lists. -/
def fieldsSeen (json : SerdeJson) (dgs : List Datagram) : List (String × Value) :=
  (opmodeLists dgs).flatMap (fieldsIn json)

/-- The report holds what the datagrams bring, and nothing else. -/
structure Exact (json : SerdeJson) (rc : EndpointSet) (dgs : List Datagram) (r : Report) : Prop where
  endpoints : r.rc = rc
  packets : r.packets = dgs.length
  reassembled : r.reassembled = dgs.countP Datagram.fragmented
  commands : ∀ name d, r.commands[(name,d)]? = row (dgs.countP (Orders rc name d))
  peers : ∀ key, r.peers[key]? =
    (dgs.find? (FiledUnder key)).map fun dg => (dir dg rc,dgs.countP (FiledUnder key))
  undecodable : ∀ err, r.undecodable[err]? = row (dgs.countP (RejectedAs err))
  inited : ∀ name, name ∈ r.inited ↔ ∃ dg ∈ dgs, Notifies NOTIFY_INIT_OP_MODE name dg
  ran : ∀ name, name ∈ r.ran ↔ ∃ dg ∈ dgs, Notifies NOTIFY_RUN_OP_MODE name dg
  lists : r.opmodes.lists = (opmodeLists dgs).length
  jsonEntries : r.opmodes.jsonEntries =
    runningMax (fun extra => (itemCount json extra).getD 0) 0 (opmodeLists dgs)
  parsedEntries : r.opmodes.parsedEntries = runningMax (parsedCount json) 0 (opmodeLists dgs)
  flavors : ∀ text, text ∈ r.opmodes.flavors ↔
    ∃ kv ∈ fieldsSeen json dgs, kv.1 = "flavor" ∧ json.render kv.2 = text
  groups : ∀ text, text ∈ r.opmodes.groups ↔
    ∃ kv ∈ fieldsSeen json dgs, kv.1 = "group" ∧ json.render kv.2 = text
  droppedFields : ∀ text, text ∈ r.opmodes.droppedFields ↔
    ∃ kv ∈ fieldsSeen json dgs, kv.1 ∉ KNOWN_OPMODE_FIELDS ∧ dropNote json kv = text
  unparsable : r.opmodes.unparsable =
    ((opmodeLists dgs).filter (notArray json)).map fun extra => clip extra 200

theorem countP_snoc {α : Type} (p : α → Bool) (xs : List α) (x : α) :
    (xs ++ [x]).countP p = xs.countP p+(p x).toNat := by
  rw [List.countP_append,List.countP_singleton]
  cases p x <;> rfl

theorem report_numbers : (report json rc dgs).packets = dgs.length ∧
    (report json rc dgs).reassembled = dgs.countP Datagram.fragmented := by
  induction dgs using List.reverseRecOn with
  | nil => exact ⟨rfl,rfl⟩
  | append_singleton dgs dg ih =>
    obtain ⟨hpackets,hreassembled,-,-⟩ := observe_counts json (report json rc dgs) dg
    rw [report_snoc,hpackets,hreassembled,ih.1,ih.2,countP_snoc,List.length_append]
    exact ⟨rfl,rfl⟩

theorem report_commands (name d : String) :
    (report json rc dgs).commands[(name,d)]? = row (dgs.countP (Orders rc name d)) := by
  induction dgs using List.reverseRecOn with
  | nil => simp [report]
  | append_singleton dgs dg ih =>
    rw [report_snoc,(observe_counts json _ dg).2.2.1,report_rc,countP_snoc]
    exact bump_row ih _

theorem report_undecodable (err : String) :
    (report json rc dgs).undecodable[err]? = row (dgs.countP (RejectedAs err)) := by
  induction dgs using List.reverseRecOn with
  | nil => simp [report]
  | append_singleton dgs dg ih =>
    rw [report_snoc,(observe_counts json _ dg).2.2.2,countP_snoc]
    exact bump_row ih _

theorem observePeer_counts (r : Report) (dg : Datagram) (p : PeerDiscovery) {key : String} {n : ℕ}
    (h : r.peers[key]?.map Prod.snd = row n) :
    (r.observePeer dg p).peers[key]?.map Prod.snd = row (n+(decide (some (peerKey p) = some key)).toNat) := by
  rw [Report.observePeer,ExtTreeMap.getElem?_insert]
  by_cases hkey : peerKey p = key
  · subst hkey
    have hcount : (r.peers.getD (peerKey p) (dir dg r.rc,0)).2 = n := by
      rw [ExtTreeMap.getD_eq_getD_getElem?,← row_getD n,← h]
      cases r.peers[peerKey p]? <;> rfl
    simp [hcount]
  · simpa [hkey] using h

theorem report_peer_counts (key : String) :
    (report json rc dgs).peers[key]?.map Prod.snd = row (dgs.countP (FiledUnder key)) := by
  induction dgs using List.reverseRecOn with
  | nil => simp [report]
  | append_singleton dgs dg ih =>
    rw [report_snoc,(observe_frame json _ dg).2.1,countP_snoc]
    unfold FiledUnder at ih ⊢
    cases hp : discovery dg with
    | none => exact ih
    | some p => exact observePeer_counts _ dg p ih

/-- A row of the peers has the direction of the first datagram that is filed there, and counts all. -/
theorem report_peer (key : String) : (report json rc dgs).peers[key]? =
    (dgs.find? (FiledUnder key)).map fun dg => (dir dg rc,dgs.countP (FiledUnder key)) := by
  have hdir : (report json rc dgs).peers[key]?.map Prod.fst = _ := report_peers key
  have hcount : (report json rc dgs).peers[key]?.map Prod.snd = _ := report_peer_counts key
  cases hfind : dgs.find? (FiledUnder key) with
  | none =>
    rw [hfind] at hdir
    simpa using hdir
  | some first =>
    rw [hfind] at hdir
    obtain ⟨⟨d,n⟩,hrow,rfl⟩ := Option.map_eq_some_iff.1 hdir
    have hpos : dgs.countP (FiledUnder key) ≠ 0 :=
      (List.countP_pos_iff.2 ⟨first,List.mem_of_find?_eq_some hfind,List.find?_some hfind⟩).ne'
    rw [hrow,row,if_neg hpos] at hcount
    obtain rfl := Option.some.inj hcount
    exact hrow

theorem exists_snoc {α : Type} {xs : List α} {x : α} {P : α → Prop} :
    (∃ y ∈ xs ++ [x], P y) ↔ (∃ y ∈ xs, P y) ∨ P x := by
  simp only [List.mem_append,List.mem_singleton,or_and_right,exists_or,exists_eq_left]

theorem report_names (name : String) :
    (name ∈ (report json rc dgs).inited ↔ ∃ dg ∈ dgs, Notifies NOTIFY_INIT_OP_MODE name dg) ∧
      (name ∈ (report json rc dgs).ran ↔ ∃ dg ∈ dgs, Notifies NOTIFY_RUN_OP_MODE name dg) := by
  have hadd (set : TextSet) (note : String) (dg : Datagram) :
      name ∈ (commandIn dg).elim set (fun c => if c.name = note then set.insert c.extra else set) ↔
        name ∈ set ∨ Notifies note name dg := by
    unfold Notifies
    cases commandIn dg with
    | none => simp
    | some c => by_cases hnote : c.name = note <;> simp [hnote,or_comm]
  induction dgs using List.reverseRecOn with
  | nil => simp [report]
  | append_singleton dgs dg ih =>
    obtain ⟨hinited,hran⟩ := observe_names json (report json rc dgs) dg
    rw [report_snoc,hinited,hran,hadd,hadd,exists_snoc,exists_snoc,ih.1,ih.2]
    exact ⟨.rfl,.rfl⟩

theorem report_findings (text : String) :
    (text ∈ (report json rc dgs).opmodes.flavors ↔
        ∃ kv ∈ fieldsSeen json dgs, kv.1 = "flavor" ∧ json.render kv.2 = text) ∧
      (text ∈ (report json rc dgs).opmodes.groups ↔
        ∃ kv ∈ fieldsSeen json dgs, kv.1 = "group" ∧ json.render kv.2 = text) ∧
      (text ∈ (report json rc dgs).opmodes.droppedFields ↔
        ∃ kv ∈ fieldsSeen json dgs, kv.1 ∉ KNOWN_OPMODE_FIELDS ∧ dropNote json kv = text) ∧
      (report json rc dgs).opmodes.unparsable =
        ((opmodeLists dgs).filter (notArray json)).map fun extra => clip extra 200 := by
  induction dgs using List.reverseRecOn with
  | nil => simp [report,fieldsSeen,opmodeLists]
  | append_singleton dgs dg ih =>
    rw [report_snoc,(observe_frame json _ dg).2.2]
    cases hlist : opmodeList dg with
    | none => simpa [fieldsSeen,opmodeLists,List.filterMap_append,hlist] using ih
    | some extra =>
      have hlists : opmodeLists (dgs ++ [dg]) = opmodeLists dgs ++ [extra] := by
        simp [opmodeLists,List.filterMap_append,hlist]
      have hfields : fieldsSeen json (dgs ++ [dg]) = fieldsSeen json dgs ++ fieldsIn json extra := by
        simp [fieldsSeen,hlists]
      obtain ⟨g,hobserve,hflavors,hgroups,hdropped,hunparsable⟩ :=
        observeOpmodeList_fields json (report json rc dgs).opmodes extra
      obtain ⟨kflavors,kgroups,kdropped,kunparsable⟩ :=
        mem_fields json g (fieldsIn json extra) text
      obtain ⟨ihflavors,ihgroups,ihdropped,ihunparsable⟩ := ih
      rw [Option.elim_some,hobserve,kflavors,kgroups,kdropped,kunparsable,hflavors,hgroups,hdropped,
        hunparsable,ihflavors,ihgroups,ihdropped,ihunparsable,hfields,hlists,List.filter_append,
        List.map_append]
      simp only [List.mem_append,or_and_right,exists_or,List.append_cancel_left_eq,true_and]
      cases harray : notArray json extra <;> simp [only,harray]

/-- Every field of the report is what its name says, over any capture, readable or not. -/
theorem report_exact (json : SerdeJson) (rc : EndpointSet) (dgs : List Datagram) :
    Exact json rc dgs (report json rc dgs) := by
  have hcounts := report_counts json rc dgs
  simp only [OpModeFindings.counts,Prod.mk.injEq] at hcounts
  exact {
    endpoints := report_rc json rc dgs
    packets := report_numbers.1
    reassembled := report_numbers.2
    commands := report_commands
    peers := report_peer
    undecodable := report_undecodable
    inited := fun name => (report_names name).1
    ran := fun name => (report_names name).2
    lists := hcounts.1
    jsonEntries := hcounts.2.1
    parsedEntries := hcounts.2.2
    flavors := fun text => (report_findings text).1
    groups := fun text => (report_findings text).2.1
    droppedFields := fun text => (report_findings text).2.2.1
    unparsable := (report_findings "").2.2.2 }

end Report

section Silence

variable {json : SerdeJson} {rc : EndpointSet} {dgs : List Datagram}

/-- Nothing in the capture is new to the client, as far as the report can tell. -/
structure NothingNew (json : SerdeJson) (rc : EndpointSet) (dgs : List Datagram) : Prop where
  entries : ∀ extra ∈ opmodeLists dgs, ¬OutnumbersAll json (opmodeLists dgs) extra
  arrays : ∀ extra ∈ opmodeLists dgs, notArray json extra = false
  fields : ∀ kv ∈ fieldsSeen json dgs, kv.1 ∈ KNOWN_OPMODE_FIELDS
  flavors : ∀ kv ∈ fieldsSeen json dgs, kv.1 = "flavor" → json.render kv.2 ∈ KNOWN_FLAVORS
  commands : ∀ dg ∈ dgs, ∀ c, commandIn dg = some c → isKnown c.name = true
  versions : ∀ dg ∈ dgs, ∀ p, discovery dg = some p → FirstFromRc rc dgs p → ReadsAsOurs p
  packets : ∀ dg ∈ dgs, rejection dg = none

theorem only_eq_nil {α : Type} {b : Bool} {x : α} : only b x = [] ↔ b = false := by
  cases b <;> simp [only]

theorem no_loss_iff : (0 < (report json rc dgs).opmodes.lists &&
    (report json rc dgs).opmodes.parsedEntries < (report json rc dgs).opmodes.jsonEntries) = false ↔
      ∀ extra ∈ opmodeLists dgs, ¬OutnumbersAll json (opmodeLists dgs) extra := by
  have hlisted : (∃ dropped entries, Lists ((report json rc dgs).print 0 0) (.parseLoss dropped entries)) ↔
      ∃ extra ∈ opmodeLists dgs, OutnumbersAll json (opmodeLists dgs) extra := parseLoss_listed_iff
  simp only [lists_print,parseLoss_mem_iff] at hlisted
  rw [← Bool.not_eq_true,Bool.and_eq_true,decide_eq_true_eq,decide_eq_true_eq,hlisted]
  simp

theorem no_unparsable_iff : (report json rc dgs).opmodes.unparsable = [] ↔
    ∀ extra ∈ opmodeLists dgs, notArray json extra = false := by
  rw [(report_findings "").2.2.2,List.map_eq_nil_iff,List.filter_eq_nil_iff]
  simp

theorem no_dropped_iff : (report json rc dgs).opmodes.droppedFields.isEmpty = true ↔
    ∀ kv ∈ fieldsSeen json dgs, kv.1 ∈ KNOWN_OPMODE_FIELDS := by
  rw [ExtTreeSet.isEmpty_iff,ExtTreeSet.eq_empty_iff_forall_not_mem]
  simp only [(report_findings _).2.2.1]
  constructor
  · intro h kv hkv
    by_contra hnot
    exact h _ ⟨kv,hkv,hnot,rfl⟩
  · rintro h text ⟨kv,hkv,hnot,-⟩
    exact hnot (h kv hkv)

theorem no_flavors_iff : (report json rc dgs).unknownFlavors = [] ↔
    ∀ kv ∈ fieldsSeen json dgs, kv.1 = "flavor" → json.render kv.2 ∈ KNOWN_FLAVORS := by
  rw [Report.unknownFlavors,List.filter_eq_nil_iff]
  simp only [ExtTreeSet.mem_toList,(report_findings _).1,Bool.not_eq_true',Bool.not_eq_false,
    List.contains_iff_mem]
  constructor
  · intro h kv hkv hflavor
    exact h _ ⟨kv,hkv,hflavor,rfl⟩
  · rintro h flavor ⟨kv,hkv,hflavor,rfl⟩
    exact h kv hkv hflavor

theorem row_isSome {n : ℕ} : (∃ k, row n = some k) ↔ n ≠ 0 := by
  cases n <;> simp

theorem no_commands_iff : (report json rc dgs).newCommands.isEmpty = true ↔
    ∀ dg ∈ dgs, ∀ c, commandIn dg = some c → isKnown c.name = true := by
  have hrow (name d : String) : (∃ n, (report json rc dgs).commands[(name,d)]? = some n) ↔
      ∃ dg ∈ dgs, ∃ c, commandIn dg = some c ∧ c.name = name ∧ dir dg rc = d := by
    rw [report_commands,row_isSome,← Nat.pos_iff_ne_zero,List.countP_pos_iff]
    simp [Orders]
  rw [ExtTreeSet.isEmpty_iff,ExtTreeSet.eq_empty_iff_forall_not_mem]
  simp only [Report.newCommands,ExtTreeSet.mem_ofList,List.contains_iff_mem,List.mem_filter,List.mem_map,
    Bool.not_eq_true',not_and,Bool.not_eq_false]
  constructor
  · intro h dg hdg c hc
    obtain ⟨n,hn⟩ := (hrow c.name (dir dg rc)).2 ⟨dg,hdg,c,hc,rfl,rfl⟩
    exact h c.name ⟨((c.name,dir dg rc),n),ExtTreeMap.mem_toList_iff_getElem?_eq_some.2 hn,rfl⟩
  · rintro h name ⟨⟨⟨name',d⟩,n⟩,hmem,rfl⟩
    obtain ⟨dg,hdg,c,hc,rfl,-⟩ := (hrow name' d).1 ⟨n,ExtTreeMap.mem_toList_iff_getElem?_eq_some.1 hmem⟩
    exact h dg hdg c hc

theorem no_bumps_iff : (report json rc dgs).peers.toList.filterMap bumpAction = [] ↔
    ∀ dg ∈ dgs, ∀ p, discovery dg = some p → FirstFromRc rc dgs p → ReadsAsOurs p := by
  have hbump (p : PeerDiscovery) : Action.bump (peerKey p) ∈ (report json rc dgs).actions ↔
      FirstFromRc rc dgs p ∧ ¬ReadsAsOurs p := by
    rw [← lists_print (report json rc dgs) 0 0,bump_listed_iff]
  have hmem {key : String} {d : String} {n : ℕ} (hrow : (key,d,n) ∈ (report json rc dgs).peers.toList) :
      ∃ dg ∈ dgs, ∃ p, discovery dg = some p ∧ peerKey p = key := by
    rw [ExtTreeMap.mem_toList_iff_getElem?_eq_some,report_peer,Option.map_eq_some_iff] at hrow
    obtain ⟨dg,hfind,-⟩ := hrow
    have hfiled := List.find?_some hfind
    rw [FiledUnder,decide_eq_true_eq,Option.map_eq_some_iff] at hfiled
    exact ⟨dg,List.mem_of_find?_eq_some hfind,hfiled⟩
  rw [List.filterMap_eq_nil_iff]
  constructor
  · intro h dg hdg p hp hfirst
    by_contra hnot
    obtain ⟨hrow,hstarts⟩ := (bump_mem_iff _ _).1 ((hbump p).2 ⟨hfirst,hnot⟩)
    obtain ⟨⟨d,n⟩,hget,rfl⟩ := Option.map_eq_some_iff.1 hrow
    have hnone := h _ (ExtTreeMap.mem_toList_iff_getElem?_eq_some.2 hget)
    simp [bumpAction,hstarts] at hnone
  · rintro h ⟨key,d,n⟩ hrow
    obtain ⟨dg,hdg,p,hp,rfl⟩ := hmem hrow
    rw [bumpAction]
    refine if_neg fun hdir => ?_
    have hget := ExtTreeMap.mem_toList_iff_getElem?_eq_some.1 hrow
    obtain ⟨hfirst,hnot⟩ := (hbump p).1 ((bump_mem_iff _ _).2 ⟨by rw [hget,← hdir.1]; rfl,hdir.2⟩)
    exact hnot (h dg hdg p hp hfirst)

theorem no_rejections_iff : (report json rc dgs).undecodable.isEmpty = true ↔
    ∀ dg ∈ dgs, rejection dg = none := by
  rw [ExtTreeMap.isEmpty_iff,ExtTreeMap.eq_empty_iff_forall_not_mem]
  simp only [← ExtTreeMap.isSome_getElem?_iff_mem,report_undecodable,Option.not_isSome_iff_eq_none,row_eq_none,
    List.countP_eq_zero,RejectedAs,decide_eq_true_eq]
  constructor
  · intro h dg hdg
    cases he : rejection dg with
    | none => rfl
    | some e => exact absurd (by rw [he]; rfl) (h e.display dg hdg)
  · intro h err dg hdg
    simp [h dg hdg]

/-- There is no action item exactly where nothing is new. -/
theorem no_actions_iff (json : SerdeJson) (rc : EndpointSet) (dgs : List Datagram) :
    (report json rc dgs).actions = [] ↔ NothingNew json rc dgs := by
  have hhead {xs : List String} : (xs.head?.map Action.notAnArray).toList = [] ↔ xs = [] := by
    cases xs <;> simp
  simp only [Report.actions,List.append_eq_nil_iff,only_eq_nil,hhead,no_loss_iff,no_unparsable_iff,
    Bool.not_eq_false',no_dropped_iff,List.isEmpty_iff,no_flavors_iff,no_commands_iff,no_bumps_iff,
    no_rejections_iff]
  constructor
  · rintro ⟨⟨⟨⟨⟨⟨h1,h2⟩,h3⟩,h4⟩,h5⟩,h6⟩,h7⟩
    exact ⟨h1,h2,h3,h4,h5,h6,h7⟩
  · rintro ⟨h1,h2,h3,h4,h5,h6,h7⟩
    exact ⟨⟨⟨⟨⟨⟨h1,h2⟩,h3⟩,h4⟩,h5⟩,h6⟩,h7⟩

end Silence

end Capture
end Robocol
