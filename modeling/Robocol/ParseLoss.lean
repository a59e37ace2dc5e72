import Robocol.VersionAlarm

/-! When the report tells that entries of an OpMode list were lost in parsing. -/
namespace Robocol
namespace Capture

open Cmd

section RunningMax

variable {α : Type} {f : α → ℕ} {xs : List α} {m n : ℕ}

/-- The greatest value met so far, or `m`. -/
def runningMax (f : α → ℕ) (m : ℕ) (xs : List α) : ℕ := xs.foldl (fun m x => max m (f x)) m

theorem runningMax_lt_iff : runningMax f m xs < n ↔ m < n ∧ ∀ x ∈ xs, f x < n := by
  induction xs generalizing m with
  | nil => simp [runningMax]
  | cons x xs ih =>
    have hcons : runningMax f m (x :: xs) = runningMax f (max m (f x)) xs := rfl
    rw [hcons,ih,Nat.max_lt,List.forall_mem_cons,and_assoc]

theorem lt_runningMax_iff : n < runningMax f m xs ↔ n < m ∨ ∃ x ∈ xs, n < f x := by
  rw [← not_iff_not,Nat.not_lt,← Nat.lt_succ_iff,runningMax_lt_iff]
  simp only [Nat.lt_succ_iff,not_or,not_exists,not_and,Nat.not_lt]

/-- One running maximum stays below another exactly when one value of the other is above
everything that the first one met. -/
theorem runningMax_lt_runningMax {g : α → ℕ} :
    runningMax g 0 xs < runningMax f 0 xs ↔ ∃ x ∈ xs, ∀ y ∈ xs, g y < f x := by
  rw [lt_runningMax_iff]
  constructor
  · rintro (hlt|⟨x,hx,hlt⟩)
    · exact absurd hlt (Nat.not_lt_zero _)
    · exact ⟨x,hx,(runningMax_lt_iff.mp hlt).2⟩
  · rintro ⟨x,hx,hall⟩
    exact .inr ⟨x,hx,runningMax_lt_iff.mpr ⟨Nat.zero_lt_of_lt (hall x hx),hall⟩⟩

end RunningMax

section Findings

variable {json : SerdeJson} {rc : EndpointSet} {dgs : List Datagram} {extra : String}

/-- How many items a payload has that is a JSON array. -/
def itemCount (json : SerdeJson) (extra : String) : Option ℕ :=
  match json.value extra with
  | some (.array items) => some items.length
  | _ => none

def parsedCount (json : SerdeJson) (extra : String) : ℕ :=
  (parseOpmodeList json.toJson extra).length

/-- The payloads of the OpMode lists of a capture. -/
def opmodeLists (dgs : List Datagram) : List String := dgs.filterMap opmodeList

def OpModeFindings.counts (f : OpModeFindings) : ℕ × ℕ × ℕ := (f.lists,f.jsonEntries,f.parsedEntries)

theorem field_counts (f : OpModeFindings) (kv : String × Value) : (f.field json kv).counts = f.counts := by
  unfold OpModeFindings.field
  split
  · rfl
  · split
    · rfl
    · split <;> rfl

theorem foldl_counts {β : Type} {step : OpModeFindings → β → OpModeFindings}
    (hstep : ∀ f x, (step f x).counts = f.counts) (f : OpModeFindings) (xs : List β) :
    (xs.foldl step f).counts = f.counts := by
  induction xs generalizing f with
  | nil => rfl
  | cons x xs ih => rw [List.foldl_cons,ih,hstep]

theorem item_counts (f : OpModeFindings) (v : Value) : (f.item json v).counts = f.counts := by
  cases v with
  | object fields => exact foldl_counts field_counts f fields
  | _ => rfl

theorem observeOpmodeList_counts (f : OpModeFindings) : (observeOpmodeList json f extra).counts =
    (f.lists+1,max f.jsonEntries ((itemCount json extra).getD 0),
      max f.parsedEntries (parsedCount json extra)) := by
  unfold observeOpmodeList itemCount
  cases json.value extra with
  | none => simp [OpModeFindings.counts,parsedCount]
  | some v =>
    cases v with
    | array items =>
      rw [foldl_counts item_counts]
      rfl
    | _ => simp [OpModeFindings.counts,parsedCount]

theorem report_counts (json : SerdeJson) (rc : EndpointSet) (dgs : List Datagram) :
    (report json rc dgs).opmodes.counts = ((opmodeLists dgs).length,
    runningMax (fun extra => (itemCount json extra).getD 0) 0 (opmodeLists dgs),
    runningMax (parsedCount json) 0 (opmodeLists dgs)) := by
  induction dgs using List.reverseRecOn with
  | nil => rfl
  | append_singleton dgs dg ih =>
    rw [report_snoc,(observe_frame json _ dg).2.2,opmodeLists,List.filterMap_append]
    cases hlist : opmodeList dg with
    | none => simpa [hlist,opmodeLists] using ih
    | some extra =>
      rw [Option.elim_some,observeOpmodeList_counts]
      simp only [OpModeFindings.counts,Prod.mk.injEq] at ih
      obtain ⟨hlists,hjson,hparsed⟩ := ih
      rw [hlists,hjson,hparsed]
      simp [hlist,opmodeLists,runningMax,List.foldl_append]

end Findings

section Alarm

variable {json : SerdeJson} {rc : EndpointSet} {dgs : List Datagram} {extra : String}

/-- The payload is a JSON array with more items than the client reads in it. -/
def Lossy (json : SerdeJson) (extra : String) : Prop :=
  ∃ n, itemCount json extra = some n ∧ parsedCount json extra < n

/-- The payload is a JSON array with more items than the client reads in any of the lists. -/
def OutnumbersAll (json : SerdeJson) (lists : List String) (extra : String) : Prop :=
  ∃ n, itemCount json extra = some n ∧ ∀ list ∈ lists, parsedCount json list < n

/-- Where a list loses entries, the report has the action item. -/
def AlarmsOnLoss (json : SerdeJson) (rc : EndpointSet) (dgs : List Datagram) (frames skipped : ℕ) :
    Prop :=
  (∃ extra ∈ opmodeLists dgs, Lossy json extra) → ∃ dropped entries,
    Lists ((report json rc dgs).print frames skipped) (.parseLoss dropped entries)

theorem parseLoss_mem_iff (r : Report) :
    (∃ dropped entries, Action.parseLoss dropped entries ∈ r.actions) ↔
      0 < r.opmodes.lists ∧ r.opmodes.parsedEntries < r.opmodes.jsonEntries := by
  simp [Report.actions,only,bumpAction]

theorem outnumbersAll_iff {lists : List String} (hmem : extra ∈ lists) :
    OutnumbersAll json lists extra ↔
      ∀ list ∈ lists, parsedCount json list < (itemCount json extra).getD 0 := by
  constructor
  · rintro ⟨n,hn,hall⟩ list hlist
    rw [hn,Option.getD_some]
    exact hall list hlist
  · intro hall
    cases hn : itemCount json extra with
    | none =>
      have hlt := hall extra hmem
      rw [hn] at hlt
      exact absurd hlt (Nat.not_lt_zero _)
    | some n => exact ⟨n,hn,fun list hlist => by simpa [hn] using hall list hlist⟩

theorem parseLoss_listed_iff {frames skipped : ℕ} :
    (∃ dropped entries,
      Lists ((report json rc dgs).print frames skipped) (.parseLoss dropped entries)) ↔
        ∃ extra ∈ opmodeLists dgs, OutnumbersAll json (opmodeLists dgs) extra := by
  have hcounts := report_counts json rc dgs
  simp only [OpModeFindings.counts,Prod.mk.injEq] at hcounts
  obtain ⟨hlists,hjson,hparsed⟩ := hcounts
  simp only [lists_print]
  rw [parseLoss_mem_iff,hlists,hjson,hparsed,runningMax_lt_runningMax]
  constructor
  · rintro ⟨-,extra,hextra,hall⟩
    exact ⟨extra,hextra,(outnumbersAll_iff hextra).mpr hall⟩
  · rintro ⟨extra,hextra,hall⟩
    exact ⟨List.length_pos_of_mem hextra,extra,hextra,(outnumbersAll_iff hextra).mp hall⟩

theorem alarmsOnLoss_iff (json : SerdeJson) (rc : EndpointSet) (dgs : List Datagram)
    (frames skipped : ℕ) : AlarmsOnLoss json rc dgs frames skipped ↔ (∀ extra ∈ opmodeLists dgs, ¬Lossy json extra) ∨
      ∃ extra ∈ opmodeLists dgs, OutnumbersAll json (opmodeLists dgs) extra := by
  rw [AlarmsOnLoss,parseLoss_listed_iff]
  constructor
  · intro h
    by_cases hloss : ∃ extra ∈ opmodeLists dgs, Lossy json extra
    · exact .inr (h hloss)
    · exact .inl fun extra hextra hlossy => hloss ⟨extra,hextra,hlossy⟩
  · rintro (hnone|hall) ⟨extra,hextra,hlossy⟩
    · exact absurd hlossy (hnone extra hextra)
    · exact hall

/-- JSON that reads the two lists `["A","B","C"]` and `[1,2]`, and nothing else. -/
def twoListsJson : SerdeJson :=
  { unaskedJson with
    strings := fun extra => if extra = "[\x22A\x22,\x22B\x22,\x22C\x22]" then some ["A","B","C"] else none
    value := fun extra =>
      if extra = "[\x22A\x22,\x22B\x22,\x22C\x22]" then some (.array [.string "A",.string "B",.string "C"])
      else if extra = "[1,2]" then some (.array [.number "1",.number "2"]) else none }

def intactList : Datagram :=
  carrying rcEnd dsEnd (.command (.new NOTIFY_OP_MODE_LIST "[\x22A\x22,\x22B\x22,\x22C\x22]" 1))

def lostList : Datagram := carrying rcEnd dsEnd (.command (.new NOTIFY_OP_MODE_LIST "[1,2]" 2))

/-- A list that is lost altogether stays unseen behind a longer one that is intact. -/
theorem lost_unlisted : ¬AlarmsOnLoss twoListsJson onlyRc [intactList,lostList] 2 0 := by
  have hlists : opmodeLists [intactList,lostList] = ["[\x22A\x22,\x22B\x22,\x22C\x22]","[1,2]"] := by decide
  rw [AlarmsOnLoss,parseLoss_listed_iff,hlists]
  intro h
  obtain ⟨extra,hextra,n,hn,hall⟩ := h ⟨"[1,2]",by simp,2,by decide,by decide⟩
  have hlt := hall "[\x22A\x22,\x22B\x22,\x22C\x22]" (by simp)
  have hread : parsedCount twoListsJson "[\x22A\x22,\x22B\x22,\x22C\x22]" = 3 := by decide
  rw [hread] at hlt
  rcases List.mem_pair.mp hextra with rfl|rfl
  · have hthree : itemCount twoListsJson "[\x22A\x22,\x22B\x22,\x22C\x22]" = some 3 := by decide
    rw [hthree] at hn
    cases hn
    exact absurd hlt (by decide)
  · have htwo : itemCount twoListsJson "[1,2]" = some 2 := by decide
    rw [htwo] at hn
    cases hn
    exact absurd hlt (by decide)

end Alarm

end Capture
end Robocol
