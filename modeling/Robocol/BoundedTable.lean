import Mathlib.Data.List.Perm.Subperm
import Mathlib.Order.Lattice
import Mathlib.Order.Nat
import Std.Data.ExtTreeMap

/-! A table over ordered keys that never holds more than `cap` entries: an entry too many
costs the smallest key. What each operation does is said once, by what a look-up then gives. -/
namespace Robocol

open Std (ExtTreeMap)

variable {κ ν : Type} [LinearOrder κ] {cap : ℕ}

namespace BoundedTable

theorem isLE_compare (a b : κ) : (compare a b).isLE ↔ a ≤ b := by
  rw [← compare_le_iff_le,← Ordering.ne_gt_iff_isLE]

theorem head?_keys_iff {t : ExtTreeMap κ ν compare} {k : κ} :
    t.keys.head? = some k ↔ k ∈ t ∧ ∀ j ∈ t, k ≤ j := by
  rw [← ExtTreeMap.minKey?_eq_head?_keys,ExtTreeMap.minKey?_eq_some_iff_mem_and_forall]
  simp only [isLE_compare]

/-- `while len > cap { remove the first key }`. -/
def trim (cap : ℕ) : ℕ → ExtTreeMap κ ν compare → ExtTreeMap κ ν compare
  | 0, t => t
  | fuel+1, t =>
    if cap < t.size then
      match t.keys.head? with
      | none => t
      | some oldest => trim cap fuel (t.erase oldest)
    else t

theorem trim_of_le {t : ExtTreeMap κ ν compare} (h : t.size ≤ cap) (fuel : ℕ) :
    trim cap fuel t = t := by
  cases fuel with
  | zero => rfl
  | succ fuel => rw [trim,if_neg (by omega)]

/-- A table with an entry has a first key, and is one smaller without it. -/
theorem first_of_pos {t : ExtTreeMap κ ν compare} (h : 0 < t.size) :
    ∃ k, t.keys.head? = some k ∧ (t.erase k).size = t.size-1 := by
  cases hk : t.keys.head? with
  | none =>
    rw [List.head?_eq_none_iff,← List.length_eq_zero_iff,ExtTreeMap.length_keys] at hk
    omega
  | some k =>
    have hmem : t.contains k = true := ExtTreeMap.contains_iff_mem.mpr (head?_keys_iff.mp hk).1
    exact ⟨k,rfl,by rw [ExtTreeMap.size_erase,if_pos hmem]⟩

/-- As many rounds as there are entries are enough. -/
theorem trim_size {fuel : ℕ} {t : ExtTreeMap κ ν compare} (h : t.size ≤ fuel) :
    (trim cap fuel t).size ≤ cap := by
  induction fuel generalizing t with
  | zero => exact h.trans (Nat.zero_le cap)
  | succ fuel ih =>
    by_cases hcap : cap < t.size
    · obtain ⟨k,hk,hsize⟩ := first_of_pos (Nat.zero_lt_of_lt hcap)
      rw [trim,if_pos hcap]
      simp only [hk]
      exact ih (by omega)
    · rw [trim_of_le (Nat.le_of_not_lt hcap)]
      exact Nat.le_of_not_lt hcap

/-- One entry too many costs exactly the smallest key. -/
theorem trim_succ {fuel : ℕ} {t : ExtTreeMap κ ν compare} {k : κ} (h : t.size = cap+1)
    (hk : t.keys.head? = some k) : trim cap (fuel+1) t = t.erase k := by
  obtain ⟨k',hk',hsize⟩ := first_of_pos (t := t) (by omega)
  obtain rfl : k = k' := Option.some.inj (hk.symm.trans hk')
  rw [trim,if_pos (by omega)]
  simp only [hk]
  exact trim_of_le (by omega) fuel

end BoundedTable

/-- A table of at most `cap` entries. -/
structure BoundedTable (cap : ℕ) (κ ν : Type) [LinearOrder κ] where
  entries : ExtTreeMap κ ν compare
  size_le : entries.size ≤ cap

namespace BoundedTable

variable {t u : BoundedTable cap κ ν} {j k : κ} {v : ν}

instance [DecidableEq ν] : DecidableEq (BoundedTable cap κ ν) := fun t u =>
  decidable_of_iff (t.entries = u.entries)
    ⟨fun h => by cases t; cases u; cases h; rfl,fun h => by rw [h]⟩

instance : EmptyCollection (BoundedTable cap κ ν) := ⟨⟨∅,Nat.zero_le cap⟩⟩

def get? (t : BoundedTable cap κ ν) (k : κ) : Option ν := t.entries[k]?

def size (t : BoundedTable cap κ ν) : ℕ := t.entries.size

/-- A new value under `k`, and the smallest key out where there is no room. -/
def insert (t : BoundedTable cap κ ν) (k : κ) (v : ν) : BoundedTable cap κ ν :=
  ⟨trim cap (t.entries.insert k v).size (t.entries.insert k v),trim_size le_rfl⟩

/-- Another value under a key of the table. -/
def replace (t : BoundedTable cap κ ν) (k : κ) (v : ν) (h : k ∈ t.entries) :
    BoundedTable cap κ ν :=
  ⟨t.entries.insert k v,by
    rw [ExtTreeMap.size_insert,if_pos (ExtTreeMap.contains_iff_mem.mpr h)]
    exact t.size_le⟩

/-- `remove(k)`, then `retain(|key| key > k)`. -/
def dropThrough (t : BoundedTable cap κ ν) (k : κ) : BoundedTable cap κ ν :=
  ⟨(t.entries.erase k).filter fun j _ => k < j,
    ExtTreeMap.size_filter_le_size.trans (ExtTreeMap.size_erase_le.trans t.size_le)⟩

theorem ext_get? (h : ∀ k, t.get? k = u.get? k) : t = u := by
  have hentries : t.entries = u.entries := ExtTreeMap.ext_getElem? fun k => h k
  cases t
  cases u
  cases hentries
  rfl

@[simp] theorem get?_empty (k : κ) : (∅ : BoundedTable cap κ ν).get? k = none :=
  ExtTreeMap.getElem?_empty

theorem mem_entries : k ∈ t.entries ↔ t.get? k ≠ none := by
  rw [ExtTreeMap.mem_iff_isSome_getElem?,Option.isSome_iff_ne_none]
  rfl

theorem get?_replace (h : k ∈ t.entries) (j : κ) :
    (t.replace k v h).get? j = if k = j then some v else t.get? j := by
  simp only [get?,replace,ExtTreeMap.getElem?_insert,compare_eq_iff_eq]

theorem get?_dropThrough (t : BoundedTable cap κ ν) (k j : κ) :
    (t.dropThrough k).get? j = if k < j then t.get? j else none := by
  simp only [get?,dropThrough,ExtTreeMap.getElem?_filter',ExtTreeMap.getElem?_erase,compare_eq_iff_eq]
  by_cases hlt : k < j
  · rw [if_pos hlt,if_neg hlt.ne]
    cases t.entries[j]? <;> simp [hlt]
  · rw [if_neg hlt]
    cases (if k = j then none else t.entries[j]?) <;> simp [hlt]

/-- Inserting `k` costs the table its key `j`: it is full, `k` is new and `j` the smallest. -/
def Evicts (t : BoundedTable cap κ ν) (k j : κ) : Prop :=
  t.size = cap ∧ t.get? k = none ∧ j ≤ k ∧ ∀ i, t.get? i ≠ none → j ≤ i

theorem Evicts.unique (h : t.Evicts k j) {m : κ} (hm : t.Evicts k m)
    (hj : k = j ∨ t.get? j ≠ none) : m ≤ j := by
  rcases hj with rfl|hj
  · exact hm.2.2.1
  · exact hm.2.2.2 j hj

theorem insert_entries (t : BoundedTable cap κ ν) (k : κ) (v : ν) :
    (t.insert k v).entries = t.entries.insert k v ∧ (∀ j, ¬t.Evicts k j) ∨
    ∃ m, (t.insert k v).entries = (t.entries.insert k v).erase m ∧ t.Evicts k m ∧
      (k = m ∨ t.get? m ≠ none) := by
  by_cases hroom : (t.entries.insert k v).size ≤ cap
  · refine .inl ⟨trim_of_le hroom _,?_⟩
    rintro j ⟨hsize,hnone,-⟩
    have hmem : ¬t.entries.contains k = true := by simp [mem_entries,hnone]
    rw [ExtTreeMap.size_insert,if_neg hmem] at hroom
    rw [size] at hsize
    omega
  · have hmem : ¬t.entries.contains k = true := by
      intro hmem
      rw [ExtTreeMap.size_insert,if_pos hmem] at hroom
      exact hroom t.size_le
    have hnone : t.get? k = none := by simpa [mem_entries] using hmem
    have hsize : (t.entries.insert k v).size = t.entries.size+1 := by
      rw [ExtTreeMap.size_insert,if_neg hmem]
    have hle := t.size_le
    obtain ⟨m,hm,-⟩ := first_of_pos (t := t.entries.insert k v) (by omega)
    have htrim : trim cap (t.entries.size+1) (t.entries.insert k v) = (t.entries.insert k v).erase m :=
      trim_succ (by omega) hm
    have hmin := head?_keys_iff.mp hm
    simp only [ExtTreeMap.mem_insert,compare_eq_iff_eq,mem_entries] at hmin
    refine .inr ⟨m,?_,⟨?_,hnone,hmin.2 k (.inl rfl),fun i hi => hmin.2 i (.inr hi)⟩,hmin.1⟩
    · simp only [insert,hsize,htrim]
    · rw [size]
      omega

theorem get?_insert (t : BoundedTable cap κ ν) (k j : κ) (v : ν) [Decidable (t.Evicts k j)] :
    (t.insert k v).get? j = if t.Evicts k j then none else if k = j then some v else t.get? j := by
  have hplain : (t.entries.insert k v)[j]? = if k = j then some v else t.get? j := by
    simp only [ExtTreeMap.getElem?_insert,compare_eq_iff_eq,get?]
  rcases t.insert_entries k v with ⟨he,hstay⟩|⟨m,he,hev,hm⟩
  · rw [if_neg (hstay j),← hplain,get?,he]
  · have hget : (t.insert k v).get? j = if m = j then none else (t.entries.insert k v)[j]? := by
      simp only [get?,he,ExtTreeMap.getElem?_erase,compare_eq_iff_eq]
    rw [hget,hplain]
    by_cases hmj : m = j
    · subst hmj
      rw [if_pos rfl,if_pos hev]
    · rw [if_neg hmj]
      by_cases hj : t.Evicts k j
      · have hout : ¬(k = j ∨ t.get? j ≠ none) := fun h =>
          hmj (le_antisymm (hj.unique hev h) (hev.unique hj hm))
        rw [if_pos hj,if_neg fun h => hout (.inl h)]
        exact not_not.mp fun h => hout (.inr h)
      · rw [if_neg hj]

/-- An entry after an insert is the inserted one, or was there. -/
theorem get?_insert_some {v' : ν} (h : (t.insert k v).get? j = some v') :
    k = j ∧ v = v' ∨ k ≠ j ∧ t.get? j = some v' := by
  classical
  rw [get?_insert] at h
  by_cases hev : t.Evicts k j
  · rw [if_pos hev] at h
    cases h
  · rw [if_neg hev] at h
    by_cases hkj : k = j
    · rw [if_pos hkj] at h
      exact .inl ⟨hkj,Option.some.inj h⟩
    · rw [if_neg hkj] at h
      exact .inr ⟨hkj,h⟩

theorem get?_insert_self (h : ¬t.Evicts k k) : (t.insert k v).get? k = some v := by
  classical
  rw [get?_insert,if_neg h,if_pos rfl]

/-- A key above the inserted one keeps its entry. -/
theorem get?_insert_of_lt (h : k < j) : (t.insert k v).get? j = t.get? j := by
  classical
  have hev : ¬t.Evicts k j := fun hev => absurd hev.2.2.1 (not_le.mpr h)
  rw [get?_insert,if_neg hev,if_neg h.ne]

section Size

theorem exists_key (h : 0 < t.size) : ∃ k, t.get? k ≠ none := by
  obtain ⟨k,hk,-⟩ := first_of_pos h
  exact ⟨k,mem_entries.mp (head?_keys_iff.mp hk).1⟩

theorem size_le_of_keys (h : ∀ j, u.get? j ≠ none → t.get? j ≠ none) : u.size ≤ t.size := by
  have hsub : u.entries.keys ⊆ t.entries.keys := by
    intro j hj
    rw [ExtTreeMap.mem_keys,mem_entries] at hj ⊢
    exact h j hj
  have hlen := (ExtTreeMap.nodup_keys.subperm hsub).length_le
  rwa [ExtTreeMap.length_keys,ExtTreeMap.length_keys] at hlen

theorem size_lt_of_keys (h : ∀ j, u.get? j ≠ none → t.get? j ≠ none) (hk : t.get? k ≠ none)
    (hno : u.get? k = none) : u.size < t.size := by
  have hnew : k ∉ u.entries.keys := by
    rw [ExtTreeMap.mem_keys,mem_entries]
    exact fun h => h hno
  have hsub : k :: u.entries.keys ⊆ t.entries.keys := by
    intro j hj
    rw [ExtTreeMap.mem_keys,mem_entries]
    rcases List.mem_cons.mp hj with rfl|hj
    · exact hk
    · rw [ExtTreeMap.mem_keys,mem_entries] at hj
      exact h j hj
  have hlen := ((List.nodup_cons.mpr ⟨hnew,ExtTreeMap.nodup_keys⟩).subperm hsub).length_le
  rw [List.length_cons,ExtTreeMap.length_keys,ExtTreeMap.length_keys] at hlen
  exact hlen

end Size

/-- Inserting changes nothing where the value is there already, or is itself what has to go. -/
theorem insert_eq_self : t.insert k v = t ↔ t.get? k = some v ∨ t.Evicts k k := by
  classical
  constructor
  · intro h
    have hk := t.get?_insert k k v
    rw [h,if_pos rfl] at hk
    by_cases hev : t.Evicts k k
    · exact .inr hev
    · exact .inl (hk.trans (if_neg hev))
  · intro h
    apply ext_get?
    intro j
    rw [t.get?_insert k j v]
    rcases h with h|h
    · have hev : ¬t.Evicts k j := fun hev => absurd (hev.2.1.symm.trans h) (Option.some_ne_none v).symm
      rw [if_neg hev]
      by_cases hkj : k = j
      · rw [if_pos hkj,← hkj,h]
      · rw [if_neg hkj]
    · by_cases hev : t.Evicts k j
      · rw [if_pos hev]
        by_contra hj
        have hkj : k = j := le_antisymm (h.2.2.2 j (Ne.symm hj)) hev.2.2.1
        exact hj (hkj ▸ h.2.1.symm)
      · have hkj : k ≠ j := fun hkj => hev (hkj ▸ h)
        rw [if_neg hev,if_neg hkj]

end BoundedTable
end Robocol
