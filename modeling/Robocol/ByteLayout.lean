import Mathlib.Data.List.Basic
import Mathlib.Data.List.Induction
import Mathlib.Tactic.Ring

/-! Big-endian numerals and absolute-offset access to flat buffers.
Nothing here is about one format: a format writes its fields one after the other
into a blank buffer, and a reader looks at absolute offsets. -/
namespace Robocol
namespace ByteLayout

/-- The `w` low bytes of a number, most significant first. -/
def toBE : ℕ → ℕ → List UInt8
  | 0, _ => []
  | w+1, n => UInt8.ofNat (n/256^w) :: toBE w n

/-- The number a big-endian byte string spells. -/
def ofBE (bs : List UInt8) : ℕ := bs.foldl (fun n b => n*256+b.toNat) 0

@[simp] theorem length_toBE (w n : ℕ) : (toBE w n).length = w := by
  induction w <;> simp_all [toBE]

theorem foldl_toBE (w n a : ℕ) :
    (toBE w n).foldl (fun n b => n*256+b.toNat) a = a*256^w+n%256^w := by
  induction w generalizing a with
  | zero => simp [toBE,Nat.mod_one]
  | succ w ih =>
    have hb : (UInt8.ofNat (n/256^w)).toNat = n/256^w%256 := by simp
    have hm : n%256^(w+1) = n%256^w+256^w*(n/256^w%256) := by rw [pow_succ,Nat.mod_mul]
    rw [toBE,List.foldl_cons,ih,hb,hm]
    ring

theorem ofBE_toBE (w n : ℕ) : ofBE (toBE w n) = n%256^w := by
  simp [ofBE,foldl_toBE]

theorem toBE_snoc (w n : ℕ) : toBE (w+1) n = toBE w (n/256) ++ [UInt8.ofNat n] := by
  induction w with
  | zero => simp [toBE]
  | succ w ih =>
    have hhead : n/256^(w+1) = n/256/256^w := by rw [Nat.div_div_eq_div_mul,pow_succ']
    rw [toBE,ih,toBE,hhead,List.cons_append]

theorem toBE_ofBE (bs : List UInt8) : toBE bs.length (ofBE bs) = bs := by
  induction bs using List.reverseRecOn with
  | nil => rfl
  | append_singleton bs b ih =>
    have hval : ofBE (bs ++ [b]) = b.toNat+256*ofBE bs := by
      rw [ofBE,List.foldl_append,List.foldl_cons,List.foldl_nil,← ofBE]
      ring
    have hdiv : (b.toNat+256*ofBE bs)/256 = ofBE bs := by
      have hb := b.toNat_lt
      omega
    have hlast : UInt8.ofNat (b.toNat+256*ofBE bs) = b := by
      apply UInt8.toNat_inj.mp
      simp
    rw [List.length_append,List.length_singleton,toBE_snoc,hval,hdiv,ih,hlast]

section Buffers

variable {α : Type*}

/-- A checked sub-range read: `none` where the range leaves the buffer. -/
def read (buf : List α) (off len : ℕ) : Option (List α) :=
  if off+len ≤ buf.length then some ((buf.drop off).take len) else none

/-- A checked sub-range overwrite: `none` where the range leaves the buffer. -/
def write (buf : List α) (off : ℕ) (bs : List α) : Option (List α) :=
  if off+bs.length ≤ buf.length then
    some (buf.take off ++ bs ++ buf.drop (off+bs.length))
  else none

/-- The buffer from `off` on is exactly `xs`. -/
def At (buf : List α) (off : ℕ) (xs : List α) : Prop := off ≤ buf.length ∧ buf.drop off = xs

theorem at_append (pre xs : List α) : At (pre ++ xs) pre.length xs := by simp [At]

theorem At.length {buf xs : List α} {off : ℕ} (h : At buf off xs) : off+xs.length = buf.length := by
  have hlen := congrArg List.length h.2
  rw [List.length_drop] at hlen
  have hoff := h.1
  omega

theorem At.read {buf fld rest : List α} {off len : ℕ} (h : At buf off (fld ++ rest))
    (hl : fld.length = len) : read buf off len = some fld := by
  have hlen := congrArg List.length h.2
  simp only [List.length_drop,List.length_append] at hlen
  have hoff := h.1
  rw [ByteLayout.read,if_pos (by omega),h.2,← hl,List.take_left]

theorem At.next {buf fld rest : List α} {off len : ℕ} (h : At buf off (fld ++ rest))
    (hl : fld.length = len) : At buf (off+len) rest := by
  have hlen := congrArg List.length h.2
  simp only [List.length_drop,List.length_append] at hlen
  have hoff := h.1
  exact ⟨by omega,by rw [← List.drop_drop,h.2,← hl,List.drop_left]⟩

theorem At.tail {buf rest : List α} {x : α} {off : ℕ} (h : At buf off (x :: rest)) :
    At buf (off+1) rest := by
  have hx : At buf off ([x] ++ rest) := h
  exact hx.next rfl

theorem at_of_read {buf fld : List α} {off len : ℕ} (h : read buf off len = some fld) :
    At buf off (fld ++ buf.drop (off+len)) := by
  simp only [read,Option.ite_none_right_eq_some,Option.some.injEq] at h
  obtain ⟨hle,rfl⟩ := h
  refine ⟨by omega,?_⟩
  rw [← List.drop_drop,List.take_append_drop]

/-- On a cut buffer a read either leaves it or does not notice the cut. -/
theorem read_take (buf : List α) (k off len : ℕ) :
    read (buf.take k) off len = none ∨ read (buf.take k) off len = read buf off len := by
  by_cases hle : off+len ≤ (buf.take k).length
  · have hlen : off+len ≤ buf.length := by
      rw [List.length_take] at hle
      omega
    have hk : off+len ≤ k := by
      rw [List.length_take] at hle
      omega
    refine .inr ?_
    rw [read,read,if_pos hle,if_pos hlen,List.drop_take,List.take_take]
    congr 2
    omega
  · exact .inl (if_neg hle)

theorem read_length {buf fld : List α} {off len : ℕ} (h : read buf off len = some fld) :
    fld.length = len := by
  simp only [read,Option.ite_none_right_eq_some,Option.some.injEq] at h
  obtain ⟨hle,rfl⟩ := h
  simp
  omega

theorem write_next (done fld : List α) (z : α) {off n : ℕ} (hoff : done.length = off)
    (hn : fld.length ≤ n) :
    write (done ++ List.replicate n z) off fld =
      some ((done ++ fld) ++ List.replicate (n-fld.length) z) := by
  subst hoff
  simp [write,hn,List.drop_append]

/-- Writing the items of a list one after the other writes their concatenation,
when each round writes its own item at the first blank position. -/
theorem foldlM_write {β : Type*} (f : List α × ℕ → β → Option (List α × ℕ)) (fld : β → List α) (z : α)
    (hf : ∀ (done : List α) (off n : ℕ) (x : β), done.length = off → (fld x).length ≤ n →
      f (done ++ List.replicate n z,off) x =
        some ((done ++ fld x) ++ List.replicate (n-(fld x).length) z,off+(fld x).length))
    (xs : List β) (done : List α) (off n : ℕ) (hoff : done.length = off)
    (hn : (xs.flatMap fld).length ≤ n) :
    xs.foldlM f (done ++ List.replicate n z,off) =
      some ((done ++ xs.flatMap fld) ++ List.replicate (n-(xs.flatMap fld).length) z,
        off+(xs.flatMap fld).length) := by
  induction xs generalizing done off n with
  | nil => simp
  | cons x xs ih =>
    simp only [List.flatMap_cons,List.length_append] at hn ⊢
    rw [List.foldlM_cons,hf done off n x hoff (by omega)]
    have h := ih (done ++ fld x) (off+(fld x).length) (n-(fld x).length) (by simp [hoff]) (by omega)
    simpa only [Option.bind_eq_bind,Option.bind_some,List.append_assoc,Nat.sub_sub,Nat.add_assoc] using h

theorem foldl_add_length {β : Type*} (fld : β → List α) (g : β → ℕ) (hg : ∀ x, g x = (fld x).length)
    (xs : List β) (n : ℕ) : xs.foldl (fun n x => n+g x) n = n+(xs.flatMap fld).length := by
  induction xs generalizing n with
  | nil => simp
  | cons x xs ih =>
    rw [List.foldl_cons,ih,hg,List.flatMap_cons,List.length_append,Nat.add_assoc]

end Buffers

section Chunks

variable {α : Type*} {n : ℕ}

/-- `slice::chunks`: pieces of length `n`, the last one perhaps shorter. -/
def chunks (n : ℕ) (xs : List α) : List (List α) :=
  (List.range ((xs.length+n-1)/n)).map fun i => (xs.drop (i*n)).take n

@[simp] theorem chunks_nil (hn : 0 < n) : chunks n ([] : List α) = [] := by
  simp [chunks,Nat.div_eq_of_lt (Nat.sub_lt hn Nat.one_pos)]

theorem chunks_append (hn : 0 < n) {xs : List α} (hx : xs.length = n) (ys : List α) :
    chunks n (xs ++ ys) = xs :: chunks n ys := by
  have hcount : ((xs ++ ys).length+n-1)/n = (ys.length+n-1)/n+1 := by
    rw [← Nat.add_div_right _ hn,List.length_append,hx]
    congr 1
    omega
  rw [chunks,hcount,List.range_succ_eq_map,List.map_cons,List.map_map]
  congr 1
  · rw [Nat.zero_mul,List.drop_zero,← hx,List.take_left]
  · apply List.map_congr_left
    intro i hi
    have hdrop : (xs ++ ys).drop ((i+1)*n) = ys.drop (i*n) := by
      rw [Nat.succ_mul,Nat.add_comm,← List.drop_drop,← hx,List.drop_left]
    simp only [Function.comp_apply,Nat.succ_eq_add_one,hdrop]

theorem chunks_short {xs : List α} (h0 : xs ≠ []) (hx : xs.length ≤ n) : chunks n xs = [xs] := by
  have hpos := List.length_pos_iff.mpr h0
  have hcount : (xs.length+n-1)/n = 1 := by
    apply Nat.div_eq_of_lt_le <;> omega
  simp [chunks,hcount,List.take_of_length_le hx]

end Chunks

end ByteLayout
end Robocol
