import Mathlib.Data.List.Basic

/-! Longest borders. A text ends in some front part of a pattern; appending one
element either extends the longest such part or falls back along the borders of the
pattern itself. This is all that string matching by failure tables rests on. -/
namespace Robocol
namespace Borders

variable {α : Type*} {p P : List α} {c : α} {f j k n : ℕ}

/-- The text ends in the first `k` elements of the pattern. -/
def EndsIn (p P : List α) (k : ℕ) : Prop := k ≤ p.length ∧ p.take k <:+ P

/-- The text ends in the first `k` elements of the pattern, and in no longer part of it. -/
def Longest (p P : List α) (k : ℕ) : Prop := EndsIn p P k ∧ ∀ j, EndsIn p P j → j ≤ k

/-- Whatever `c` extends, it extends a part of length at most `k`. -/
def Bounds (p P : List α) (c : α) (k : ℕ) : Prop :=
  EndsIn p P k ∧ ∀ j, EndsIn p (P ++ [c]) (j+1) → j ≤ k

/-- The first `n` entries of a table are the longest proper borders of the pattern's prefixes. -/
def TableTo (p : List α) (table : List ℕ) (n : ℕ) : Prop :=
  ∀ i < n, ∃ f, table[i]? = some f ∧ Longest p (p.take (i+1)).tail f

theorem endsIn_zero (p P : List α) : EndsIn p P 0 := ⟨by omega,by simp⟩

theorem EndsIn.le_length (h : EndsIn p P k) : k ≤ P.length := by
  have hlen := h.2.length_le
  rw [List.length_take,Nat.min_eq_left h.1] at hlen
  exact hlen

theorem longest_nil (p : List α) : Longest p [] 0 :=
  ⟨endsIn_zero p [],fun _ hj => hj.le_length⟩

theorem endsIn_snoc : EndsIn p (P ++ [c]) (j+1) ↔ EndsIn p P j ∧ p[j]? = some c := by
  constructor
  · rintro ⟨hle,hs⟩
    have hget : p[j]? = some p[j] := List.getElem?_eq_getElem (by omega)
    rw [List.take_add_one,hget,Option.toList_some,List.suffix_concat_iff] at hs
    rcases hs with hnil|⟨t,ht,hs⟩
    · exact absurd hnil (List.append_ne_nil_of_right_ne_nil _ (List.cons_ne_nil _ _))
    · obtain ⟨rfl,hc⟩ := List.append_inj' ht rfl
      exact ⟨⟨by omega,hs⟩,by rw [hget,List.singleton_inj.mp hc]⟩
  · rintro ⟨⟨-,hs⟩,hget⟩
    obtain ⟨hj,-⟩ := List.getElem?_eq_some_iff.mp hget
    refine ⟨by omega,?_⟩
    rw [List.take_add_one,hget,Option.toList_some]
    exact List.suffix_concat_iff.mpr (.inr ⟨_,rfl,hs⟩)

theorem suffix_tail_of_lt {xs ys : List α} (h : xs <:+ ys) (hlt : xs.length < ys.length) :
    xs <:+ ys.tail := by
  cases ys with
  | nil => simp at hlt
  | cons y ys =>
    rcases List.suffix_cons_iff.mp h with rfl|h
    · simp at hlt
    · exact h

/-- A shorter part that the text ends in is a proper border of a longer one. -/
theorem EndsIn.border (hj : EndsIn p P j) (hk : EndsIn p P k) (hlt : j < k) :
    EndsIn p (p.take k).tail j := by
  have hkp := hk.1
  refine ⟨hj.1,suffix_tail_of_lt (List.suffix_of_suffix_length_le hj.2 hk.2 ?_) ?_⟩
  all_goals simp only [List.length_take]; omega

/-- A proper border of a part that the text ends in is a shorter such part. -/
theorem EndsIn.of_border (hk : EndsIn p P k) (hj : EndsIn p (p.take k).tail j) (h0 : 0 < k) :
    EndsIn p P j ∧ j < k := by
  have hle := hj.le_length
  rw [List.length_tail,List.length_take] at hle
  exact ⟨⟨hj.1,(hj.2.trans (List.tail_suffix _)).trans hk.2⟩,by omega⟩

theorem Longest.bounds (h : Longest p P k) (c : α) : Bounds p P c k :=
  ⟨h.1,fun j hj => h.2 j (endsIn_snoc.mp hj).1⟩

theorem Bounds.fallback (h : Bounds p P c k) (hc : p[k]? ≠ some c) (h0 : 0 < k)
    (hf : Longest p (p.take k).tail f) : Bounds p P c f ∧ f < k := by
  obtain ⟨hfP,hlt⟩ := h.1.of_border hf.1 h0
  refine ⟨⟨hfP,fun j hj => ?_⟩,hlt⟩
  obtain ⟨hjP,hjc⟩ := endsIn_snoc.mp hj
  have hne : j ≠ k := by
    rintro rfl
    exact hc hjc
  have hle := h.2 j hj
  exact hf.2 j (hjP.border h.1 (by omega))

theorem Bounds.extend (h : Bounds p P c k) (hc : p[k]? = some c) : Longest p (P ++ [c]) (k+1) := by
  refine ⟨endsIn_snoc.mpr ⟨h.1,hc⟩,fun j hj => ?_⟩
  cases j with
  | zero => omega
  | succ j =>
    have hle := h.2 j hj
    omega

theorem Bounds.stop (h : Bounds p P c 0) (hc : p[0]? ≠ some c) : Longest p (P ++ [c]) 0 := by
  refine ⟨endsIn_zero _ _,fun j hj => ?_⟩
  cases j with
  | zero => omega
  | succ j =>
    have hle := h.2 j hj
    obtain rfl : j = 0 := by omega
    exact absurd (endsIn_snoc.mp hj).2 hc

theorem Longest.eq_length_iff (h : Longest p P k) : k = p.length ↔ p <:+ P := by
  constructor
  · rintro rfl
    simpa using h.1.2
  · intro hs
    have hle := h.2 p.length ⟨Nat.le_refl _,by simpa using hs⟩
    have hk := h.1.1
    omega

theorem TableTo.lookup {table : List ℕ} (h : TableTo p table n) (h0 : 0 < k) (hk : k ≤ n) :
    ∃ f, table[k-1]? = some f ∧ Longest p (p.take k).tail f := by
  obtain ⟨f,hf,hl⟩ := h (k-1) (by omega)
  rw [Nat.sub_add_cancel h0] at hl
  exact ⟨f,hf,hl⟩

theorem TableTo.mono {table : List ℕ} {m : ℕ} (h : TableTo p table n) (hm : m ≤ n) :
    TableTo p table m := fun i hi => h i (by omega)

end Borders
end Robocol
