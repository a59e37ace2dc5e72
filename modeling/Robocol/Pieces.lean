import Mathlib.Data.Nat.Basic
import Robocol.ByteLayout

/-! A buffer put together from numbered pieces. The place of piece `i` is the `k` positions
from `i*k` on; a piece may be written that is shorter or longer than its place. -/
namespace Robocol
namespace Pieces

open ByteLayout

variable {α : Type*} {k i q L : ℕ}

/-- How many places of length `k` cover `L` positions. -/
def count (k L : ℕ) : ℕ := (L+k-1)/k

theorem div_lt_count (hk : 0 < k) (h : q < L) : q/k < count k L := by
  rw [count,Nat.lt_div_iff_mul_lt hk]
  have hdiv : k*(q/k) ≤ q := Nat.mul_div_le q k
  rw [Nat.mul_comm] at hdiv
  omega

theorem start_lt_of_lt_count (hk : 0 < k) (h : i < count k L) : i*k < L := by
  rw [count,Nat.lt_div_iff_mul_lt hk,Nat.mul_comm] at h
  rw [Nat.mul_comm]
  omega

section Write

variable {buf buf' bs : List α} {off : ℕ}

theorem write_length (h : write buf off bs = some buf') : buf'.length = buf.length := by
  simp only [write,Option.ite_none_right_eq_some,Option.some.injEq] at h
  obtain ⟨hle,rfl⟩ := h
  simp
  omega

theorem write_getElem? (h : write buf off bs = some buf') (q : ℕ) :
    buf'[q]? = if off ≤ q ∧ q < off+bs.length then bs[q-off]? else buf[q]? := by
  simp only [write,Option.ite_none_right_eq_some,Option.some.injEq] at h
  obtain ⟨hle,rfl⟩ := h
  have htake : (buf.take off).length = off := by simp; omega
  by_cases hlow : q < off
  · rw [if_neg (by omega),List.append_assoc,List.getElem?_append_left (by omega),
      List.getElem?_take_of_lt hlow]
  · by_cases hmid : q < off+bs.length
    · rw [if_pos ⟨by omega,hmid⟩,List.getElem?_append_left (by simp; omega),
        List.getElem?_append_right (by omega),htake]
    · rw [if_neg (by omega),List.getElem?_append_right (by simp; omega),List.getElem?_drop]
      congr 1
      simp
      omega

end Write

/-- The place of each piece that is there shows the piece. -/
def Holds (k : ℕ) (piece : ℕ → List α → Prop) (buf : List α) : Prop :=
  ∀ q p, piece (q/k) p → q < buf.length → p[q-q/k*k]? = buf[q]?

/-- The piece covers its place in a buffer of length `L`. -/
def Covers (k L i : ℕ) (bs : List α) : Prop := ∀ q < L, q/k = i → q < i*k+bs.length

/-- Where the piece runs out of its place, it shows what the places of the pieces `got` held. -/
def Spares (k : ℕ) (got : ℕ → Prop) (buf : List α) (i : ℕ) (bs : List α) : Prop :=
  ∀ q, got (q/k) → q/k ≠ i → i*k ≤ q → q < i*k+bs.length → bs[q-i*k]? = buf[q]?

variable {piece piece' : ℕ → List α → Prop} {buf buf' bs : List α}

theorem holds_none (h : ∀ i p, ¬piece i p) (buf : List α) : Holds k piece buf :=
  fun _ p hp => absurd hp (h _ p)

theorem Holds.write (h : Holds k piece buf) (hw : write buf (i*k) bs = some buf')
    (hcovers : Covers k buf.length i bs) (hspares : Spares k (fun j => ∃ p, piece j p) buf i bs)
    (hnew : ∀ p, piece' i p → p = bs) (hold : ∀ j p, j ≠ i → piece' j p → piece j p) :
    Holds k piece' buf' := by
  intro q p hp hq
  rw [write_length hw] at hq
  rw [write_getElem? hw q]
  by_cases hi : q/k = i
  · subst hi
    rw [if_pos ⟨Nat.div_mul_le_self q k,hcovers q hq rfl⟩,hnew p hp]
  · have hp' : piece (q/k) p := hold (q/k) p hi hp
    by_cases hin : i*k ≤ q ∧ q < i*k+bs.length
    · rw [if_pos hin,hspares q ⟨p,hp'⟩ hi hin.1 hin.2]
      exact h q p hp' hq
    · rw [if_neg hin]
      exact h q p hp' hq

section Whole

variable (k) (xs : List α)

/-- What belongs into place `i`, cut out of the whole. -/
def cut (i : ℕ) : List α := (xs.drop (i*k)).take k

variable {k xs}

theorem cut_getElem? (hk : 0 < k) (q : ℕ) : (cut k xs (q/k))[q-q/k*k]? = xs[q]? := by
  have hle : q/k*k ≤ q := Nat.div_mul_le_self q k
  have hlt : q-q/k*k < k := by
    rw [Nat.mul_comm,← Nat.mod_eq_sub]
    exact Nat.mod_lt q hk
  rw [cut,List.getElem?_take_of_lt hlt,List.getElem?_drop]
  congr 1
  omega

theorem cut_covers (hk : 0 < k) (i : ℕ) : Covers k xs.length i (cut k xs i) := by
  rintro q hq rfl
  have hle : q/k*k ≤ q := Nat.div_mul_le_self q k
  have hsome : (cut k xs (q/k))[q-q/k*k]?.isSome := by
    rw [cut_getElem? hk]
    simpa using hq
  have hlt : q-q/k*k < (cut k xs (q/k)).length := by simpa using hsome
  omega

theorem cut_spares (got : ℕ → Prop) (buf : List α) (i : ℕ) :
    Spares k got buf i (cut k xs i) := by
  intro q _ hi hlow hhigh
  have hlen : (cut k xs i).length ≤ k := List.length_take_le k _
  exact absurd (Nat.div_eq_of_lt_le hlow (by rw [Nat.succ_mul]; omega)) hi

theorem cut_fits (hk : 0 < k) (h : i < count k xs.length) :
    i*k+(cut k xs i).length ≤ xs.length := by
  have hlt := start_lt_of_lt_count hk h
  simp only [cut,List.length_take,List.length_drop]
  omega

theorem chunks_eq (k : ℕ) (xs : List α) :
    chunks k xs = (List.range (count k xs.length)).map (cut k xs) := rfl

theorem Holds.whole (hk : 0 < k) (h : Holds k piece buf) (hlen : buf.length = xs.length)
    (hall : ∀ i < count k xs.length, piece i (cut k xs i)) : buf = xs := by
  apply List.ext_getElem?
  intro q
  by_cases hq : q < xs.length
  · rw [← h q _ (hall _ (div_lt_count hk hq)) (hlen ▸ hq),cut_getElem? hk]
  · rw [List.getElem?_eq_none (by omega),List.getElem?_eq_none (by omega)]

end Whole

end Pieces
end Robocol
