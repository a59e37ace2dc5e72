import Robocol.Pieces

/-! Pieces laid over each other. Each piece comes with the position it starts at, a later piece
hides an earlier one, and a piece may stick out of whatever it is laid on. -/
namespace Robocol
namespace Overlays

open ByteLayout

variable {α : Type} {c : ℕ × List α} {cs ds : List (ℕ × List α)} {q n : ℕ} {x : α} {xs whole : List α}

/-- What a piece shows at a position. -/
def showsAt (c : ℕ × List α) (q : ℕ) : Option α := if c.1 ≤ q then c.2[q-c.1]? else none

/-- What is seen at a position: the last piece that reaches it. -/
def seen : List (ℕ × List α) → ℕ → Option α
  | [], _ => none
  | c :: cs, q => (seen cs q).or (showsAt c q)

@[simp] theorem seen_nil (q : ℕ) : seen ([] : List (ℕ × List α)) q = none := rfl

@[simp] theorem seen_append (cs ds : List (ℕ × List α)) (q : ℕ) :
    seen (cs ++ ds) q = (seen ds q).or (seen cs q) := by
  induction cs with
  | nil => simp
  | cons c cs ih => rw [List.cons_append,seen,ih,seen,Option.or_assoc]

@[simp] theorem seen_singleton (c : ℕ × List α) (q : ℕ) : seen [c] q = showsAt c q := rfl

theorem showsAt_isSome : (showsAt c q).isSome ↔ c.1 ≤ q ∧ q < c.1+c.2.length := by
  by_cases h : c.1 ≤ q
  · simp [showsAt,h]
    omega
  · simp [showsAt,h]

/-- Writing a piece into a buffer lays it over what is there. -/
theorem write_showsAt {buf buf' : List α} {off : ℕ} (h : write buf off xs = some buf') (q : ℕ) :
    buf'[q]? = (showsAt (off,xs) q).or buf[q]? := by
  rw [Pieces.write_getElem? h,showsAt]
  by_cases hq : off ≤ q
  · by_cases hlt : q < off+xs.length
    · rw [if_pos ⟨hq,hlt⟩,if_pos hq,List.getElem?_eq_getElem (by omega),Option.some_or]
    · have hnone : xs[q-off]? = none := List.getElem?_eq_none (by omega)
      rw [if_neg (by omega),if_pos hq,hnone,Option.none_or]
  · rw [if_neg (by omega),if_neg hq,Option.none_or]

theorem showsAt_take (off : ℕ) (xs : List α) (hq : q < n) :
    showsAt (off,xs.take (n-off)) q = showsAt (off,xs) q := by
  by_cases h : off ≤ q
  · simp only [showsAt,if_pos h]
    exact List.getElem?_take_of_lt (by omega)
  · simp only [showsAt,if_neg h]

theorem showsAt_replicate {β : Type} (y : β) (off : ℕ) (xs : List α) (q : ℕ) :
    showsAt (off,List.replicate xs.length y) q = (showsAt (off,xs) q).map fun _ => y := by
  by_cases h : off ≤ q
  · by_cases hlt : q-off < xs.length
    · simp [showsAt,h,hlt]
    · simp [showsAt,h,hlt]
  · simp [showsAt,h]

theorem seen_isSome : (seen cs q).isSome ↔ ∃ c ∈ cs, (showsAt c q).isSome := by
  induction cs with
  | nil => simp
  | cons c cs ih => simp [seen,ih,or_comm]

theorem exists_showsAt (h : seen cs q = some x) : ∃ c ∈ cs, showsAt c q = some x := by
  induction cs with
  | nil => simp at h
  | cons c cs ih =>
    rw [seen,Option.or_eq_some_iff] at h
    rcases h with h|⟨-,h⟩
    · obtain ⟨d,hd,hx⟩ := ih h
      exact ⟨d,List.mem_cons_of_mem c hd,hx⟩
    · exact ⟨c,List.mem_cons_self,h⟩

/-- A piece of `whole`, at its place there. -/
def PieceOf (whole : List α) (c : ℕ × List α) : Prop :=
  ∀ q x, showsAt c q = some x → whole[q]? = some x

/-- Pieces of one whole show that whole, wherever they reach. -/
theorem seen_piecesOf (h : ∀ c ∈ cs, PieceOf whole c) (hq : seen cs q = some x) :
    whole[q]? = some x := by
  obtain ⟨c,hc,hx⟩ := exists_showsAt hq
  exact h c hc q x hx

/-- Some piece reaches each of the first `n` positions. -/
def Covered (cs : List (ℕ × List α)) (n : ℕ) : Prop := ∀ q < n, (seen cs q).isSome

instance (cs : List (ℕ × List α)) (n : ℕ) : Decidable (Covered cs n) :=
  inferInstanceAs (Decidable (∀ q < n, (seen cs q).isSome))

/-- What is seen from position 0 on is `xs`. -/
def Shows (cs : List (ℕ × List α)) (xs : List α) : Prop := ∀ q < xs.length, seen cs q = xs[q]?

theorem Shows.covered (h : Shows cs xs) : Covered cs xs.length := by
  intro q hq
  rw [h q hq,List.getElem?_eq_getElem hq]
  rfl

theorem Shows.unique {ys : List α} (h : Shows cs xs) (h' : Shows cs ys) (hlen : xs.length = ys.length) :
    xs = ys := by
  apply List.ext_getElem?
  intro q
  by_cases hq : q < xs.length
  · rw [← h q hq,h' q (hlen ▸ hq)]
  · rw [List.getElem?_eq_none (by omega),List.getElem?_eq_none (by omega)]

theorem Covered.shows (h : Covered cs whole.length) (hcs : ∀ c ∈ cs, PieceOf whole c) :
    Shows cs whole := by
  intro q hq
  obtain ⟨x,hx⟩ := Option.isSome_iff_exists.mp (h q hq)
  rw [hx,seen_piecesOf hcs hx]

theorem Shows.over (h : Shows ds xs) (cs : List (ℕ × List α)) : Shows (cs ++ ds) xs := by
  intro q hq
  rw [seen_append,h q hq,List.getElem?_eq_getElem hq]
  rfl

section Placed

variable {ps : List (List α)} {d : ℕ × List α} {m : ℕ}

/-- The pieces one behind the other, from position `m` on. -/
def placed : ℕ → List (List α) → List (ℕ × List α)
  | _, [] => []
  | m, p :: ps => (m,p) :: placed (m+p.length) ps

theorem le_of_mem_placed (h : c ∈ placed m ps) : m ≤ c.1 := by
  induction ps generalizing m with
  | nil => cases h
  | cons p ps ih =>
    rcases List.mem_cons.mp h with rfl|h
    · exact Nat.le_refl m
    · have hle := ih h
      omega

theorem showsAt_placed (h : c ∈ placed m ps) (hq : showsAt c q = some x) :
    m ≤ q ∧ ps.flatten[q-m]? = some x := by
  induction ps generalizing m with
  | nil => cases h
  | cons p ps ih =>
    rcases List.mem_cons.mp h with rfl|h
    · simp only [showsAt,Option.ite_none_right_eq_some] at hq
      obtain ⟨hlt,-⟩ := List.getElem?_eq_some_iff.mp hq.2
      refine ⟨hq.1,?_⟩
      rw [List.flatten_cons,List.getElem?_append_left hlt,hq.2]
    · obtain ⟨hle,hx⟩ := ih h
      refine ⟨by omega,?_⟩
      rw [List.flatten_cons,List.getElem?_append_right (by omega),← hx]
      congr 1
      omega

theorem pieceOf_placed (h : c ∈ placed 0 ps) : PieceOf ps.flatten c :=
  fun _ _ hq => (showsAt_placed h hq).2

theorem placed_covers (h : m ≤ q) (hq : q < m+ps.flatten.length) :
    ∃ c ∈ placed m ps, (showsAt c q).isSome := by
  induction ps generalizing m with
  | nil =>
    simp only [List.flatten_nil,List.length_nil] at hq
    omega
  | cons p ps ih =>
    rw [List.flatten_cons,List.length_append] at hq
    by_cases hp : q < m+p.length
    · exact ⟨(m,p),List.mem_cons_self,showsAt_isSome.mpr ⟨h,hp⟩⟩
    · obtain ⟨c,hc,hs⟩ := ih (m := m+p.length) (by omega) (by omega)
      exact ⟨c,List.mem_cons_of_mem _ hc,hs⟩

theorem placed_unique (hc : c ∈ placed m ps) (hd : d ∈ placed m ps) (hcq : (showsAt c q).isSome)
    (hdq : (showsAt d q).isSome) : c = d := by
  rw [showsAt_isSome] at hcq hdq
  induction ps generalizing m with
  | nil => cases hc
  | cons p ps ih =>
    rcases List.mem_cons.mp hc with rfl|hc
    · rcases List.mem_cons.mp hd with rfl|hd
      · rfl
      · have hle := le_of_mem_placed hd
        exact absurd hcq.2 (by simp only; omega)
    · rcases List.mem_cons.mp hd with rfl|hd
      · have hle := le_of_mem_placed hc
        exact absurd hdq.2 (by simp only; omega)
      · exact ih hc hd

/-- A selection of the pieces that covers them all leaves no piece out. -/
theorem mem_of_covered (hcs : ∀ c ∈ cs, c ∈ placed 0 ps) (hcov : Covered cs ps.flatten.length)
    (hd : d ∈ placed 0 ps) (hne : d.2 ≠ []) : d ∈ cs := by
  have hpos := List.length_pos_iff.mpr hne
  have hself : (showsAt d d.1).isSome := showsAt_isSome.mpr ⟨Nat.le_refl _,by omega⟩
  obtain ⟨x,hx⟩ := Option.isSome_iff_exists.mp hself
  obtain ⟨hlt,-⟩ := List.getElem?_eq_some_iff.mp (pieceOf_placed hd _ _ hx)
  obtain ⟨c,hc,hcq⟩ := seen_isSome.mp (hcov d.1 hlt)
  rw [placed_unique hd (hcs c hc) hself hcq]
  exact hc

theorem covered_of_placed (h : ∀ c ∈ placed 0 ps, c ∈ cs) : Covered cs ps.flatten.length := by
  intro q hq
  obtain ⟨c,hc,hs⟩ := placed_covers (Nat.zero_le q) (Nat.zero_add ps.flatten.length ▸ hq)
  exact seen_isSome.mpr ⟨c,h c hc,hs⟩

end Placed

end Overlays
end Robocol
