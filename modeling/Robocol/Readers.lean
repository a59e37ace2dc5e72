import Mathlib.Order.Filter.AtTopBot.Basic

/-! Byte readers after `std::io::Read` and `BufRead`. A reader is a state with a read
operation; what it still has to give is said by a delivery relation, which the laws
below carry from an inner reader to a buffered one. Loops run on fuel, and a result
holds of all large enough amounts of it. -/
namespace Robocol
namespace Readers

open Filter

inductive ErrorKind
  | interrupted | unexpectedEof | invalidData | notFound | timedOut | connectionReset | other
  deriving DecidableEq

structure IoError where
  kind : ErrorKind
  message : String
  deriving DecidableEq

/-- A run of a fallible operation: its result and the state after it, or `none` where the
fuel ran out. -/
abbrev Run (ρ α : Type) := Option (Except IoError α × ρ)

/-- `read fuel r n` fills a buffer of `n` bytes as far as one call does. -/
class Read (ρ : Type) where
  read : ℕ → ρ → ℕ → Run ρ (List UInt8)

class BufRead (ρ : Type) extends Read ρ where
  fillBuf : ℕ → ρ → Run ρ (List UInt8)
  consume : ρ → ℕ → ρ

theorem eventually_of_succ {P : ℕ → Prop} (h : ∀ᶠ n in atTop, P (n+1)) : ∀ᶠ n in atTop, P n := by
  rw [← map_add_atTop_eq_nat 1]
  exact eventually_map.mpr h

section Fronts

variable {α : Type} {xs ys front rest : List α}

theorem front_split (h : front ++ rest = xs ++ ys) (hle : xs.length ≤ front.length) :
    ∃ tail, front = xs ++ tail ∧ ys = tail ++ rest := by
  obtain ⟨tail,rfl⟩ : xs <+: front :=
    List.prefix_of_prefix_length_le ⟨ys,h.symm⟩ (List.prefix_append front rest) hle
  rw [List.append_assoc] at h
  exact ⟨tail,rfl,(List.append_cancel_left h).symm⟩

theorem cut_cases (h : xs <+: front ++ rest) :
    xs <+: front ∧ xs.length < front.length ∨ ∃ tail, xs = front ++ tail ∧ tail <+: rest := by
  by_cases hlt : xs.length < front.length
  · exact .inl ⟨List.prefix_of_prefix_length_le h (List.prefix_append _ _) (Nat.le_of_lt hlt),hlt⟩
  · obtain ⟨tail,rfl⟩ : front <+: xs :=
      List.prefix_of_prefix_length_le (List.prefix_append _ _) h (Nat.le_of_not_lt hlt)
    exact .inr ⟨tail,rfl,(List.prefix_append_right_inj _).mp h⟩

end Fronts

section Laws

variable {ρ : Type} {D : ρ → List UInt8 → Prop}

/-- `D r S`: the reader `r` gives exactly the bytes `S`, in order, then end of input, and
never fails. Only the sizes of the single reads are left open. -/
structure Delivers [Read ρ] (D : ρ → List UInt8 → Prop) : Prop where
  read {r : ρ} {S : List UInt8} {n : ℕ} : D r S → 0 < n →
    ∃ xs r' S', S = xs ++ S' ∧ xs.length ≤ n ∧ (xs = [] → S = []) ∧ D r' S' ∧
      ∀ᶠ fuel in atTop, Read.read fuel r n = some (.ok xs,r')

structure BufDelivers [BufRead ρ] (D : ρ → List UInt8 → Prop) : Prop extends Delivers D where
  fillBuf {r : ρ} {S : List UInt8} : D r S →
    ∃ xs r' S', S = xs ++ S' ∧ (xs = [] → S = []) ∧
      (∀ k ≤ xs.length, D (BufRead.consume r' k) (S.drop k)) ∧
      ∀ᶠ fuel in atTop, BufRead.fillBuf fuel r = some (.ok xs,r')

theorem Delivers.read_one [Read ρ] (hD : Delivers D) {r : ρ} {b : UInt8} {S : List UInt8}
    (h : D r (b :: S)) :
    ∃ r', D r' S ∧ ∀ᶠ fuel in atTop, Read.read fuel r 1 = some (.ok [b],r') := by
  obtain ⟨xs,r',S',hS,hlen,hne,hr',hread⟩ := hD.read h Nat.one_pos
  cases xs with
  | nil => exact absurd (hne rfl) (List.cons_ne_nil _ _)
  | cons x xs =>
    obtain rfl : xs = [] := by simpa using hlen
    obtain ⟨rfl,rfl⟩ := List.cons.inj hS
    exact ⟨r',hr',hread⟩

theorem Delivers.read_end [Read ρ] (hD : Delivers D) {r : ρ} {n : ℕ} (h : D r []) (hn : 0 < n) :
    ∃ r', D r' [] ∧ ∀ᶠ fuel in atTop, Read.read fuel r n = some (.ok [],r') := by
  obtain ⟨xs,r',S',hS,-,-,hr',hread⟩ := hD.read h hn
  obtain ⟨rfl,rfl⟩ := List.nil_eq_append_iff.mp hS
  exact ⟨r',hr',hread⟩

end Laws

/-- The default `read_exact`: reads until the buffer is full, and over interruptions. -/
def readExact {ρ : Type} [Read ρ] : ℕ → ρ → ℕ → List UInt8 → Run ρ (List UInt8)
  | 0, _, _, _ => none
  | fuel+1, r, n, got =>
    if n = 0 then some (.ok got,r)
    else match Read.read fuel r n with
      | none => none
      | some (.ok [],r) => some (.error ⟨.unexpectedEof,"failed to fill whole buffer"⟩,r)
      | some (.ok (b :: bs),r) => readExact fuel r (n-(bs.length+1)) (got ++ b :: bs)
      | some (.error e,r) =>
        if e.kind = .interrupted then readExact fuel r n got else some (.error e,r)

theorem Delivers.readExact {ρ : Type} [Read ρ] {D : ρ → List UInt8 → Prop} (hD : Delivers D)
    (n : ℕ) (xs S got : List UInt8) (r : ρ) (h : D r (xs ++ S)) (hn : xs.length = n) :
    ∃ r', D r' S ∧ ∀ᶠ fuel in atTop, readExact fuel r n got = some (.ok (got ++ xs),r') := by
  induction n using Nat.strong_induction_on generalizing xs got r with
  | _ n ih =>
    rcases Nat.eq_zero_or_pos n with h0|h0
    · obtain rfl : xs = [] := List.length_eq_zero_iff.mp (by omega)
      refine ⟨r,h,eventually_of_succ (Eventually.of_forall fun fuel => ?_)⟩
      simp [Readers.readExact,h0]
    · obtain ⟨ys,r1,S1,hS,hlen,hne,hr1,hread⟩ := hD.read h h0
      obtain ⟨zs,hzs,rfl⟩ := front_split hS (by omega)
      cases ys with
      | nil =>
        have hx : xs ++ S = [] := hne rfl
        have hx0 := congrArg List.length hx
        simp only [List.length_append,List.length_nil] at hx0
        omega
      | cons y ys =>
        have hzlen : zs.length = n-(ys.length+1) := by
          have hx := congrArg List.length hzs
          simp only [List.length_append,List.length_cons] at hx
          omega
        obtain ⟨r2,hr2,hrest⟩ := ih (n-(ys.length+1)) (by omega) zs (got ++ y :: ys) r1 hr1 hzlen
        refine ⟨r2,hr2,eventually_of_succ ?_⟩
        filter_upwards [hread,hrest] with fuel hf hg
        simp only [Readers.readExact,if_neg (Nat.pos_iff_ne_zero.mp h0),hf,hg,hzs,List.append_assoc]

theorem Delivers.readExact_short {ρ : Type} [Read ρ] {D : ρ → List UInt8 → Prop} (hD : Delivers D)
    (n : ℕ) (S got : List UInt8) (r : ρ) (h : D r S) (hn : S.length < n) :
    ∃ e r', ∀ᶠ fuel in atTop, Readers.readExact fuel r n got = some (.error e,r') := by
  induction n using Nat.strong_induction_on generalizing S got r with
  | _ n ih =>
    obtain ⟨xs,r1,S1,hS,hlen,hne,hr1,hread⟩ := hD.read h (n := n) (by omega)
    have hpos : n ≠ 0 := by omega
    cases xs with
    | nil =>
      refine ⟨⟨.unexpectedEof,"failed to fill whole buffer"⟩,r1,eventually_of_succ ?_⟩
      filter_upwards [hread] with fuel hf
      simp only [Readers.readExact,if_neg hpos,hf]
    | cons x xs =>
      have hl := congrArg List.length hS
      simp only [List.length_append,List.length_cons] at hl
      obtain ⟨e,r2,hrest⟩ := ih (n-(xs.length+1)) (by omega) S1 (got ++ x :: xs) r1 hr1 (by omega)
      refine ⟨e,r2,eventually_of_succ ?_⟩
      filter_upwards [hread,hrest] with fuel hf hg
      simp only [Readers.readExact,if_neg hpos,hf,hg]

section Loops

variable {ρ : Type} [Read ρ] {D : ρ → List UInt8 → Prop}

/-- One read for each size, up to the first error: what the reads gave, and that error. -/
def readMany (fuel : ℕ) : ρ → List ℕ → Option (List (List UInt8) × Option IoError × ρ)
  | r, [] => some ([],none,r)
  | r, n :: ns =>
    match Read.read fuel r n with
    | none => none
    | some (.error e,r) => some ([],some e,r)
    | some (.ok xs,r) => (readMany fuel r ns).map fun t => (xs :: t.1,t.2)

/-- `D r S`: the reader `r` gives bytes of `S` in order. It may end or fail before it has given
them all. -/
structure Breaks (D : ρ → List UInt8 → Prop) : Prop where
  read {r : ρ} {S : List UInt8} {n : ℕ} : D r S → 0 < n →
    ∃ res r', (∀ᶠ fuel in atTop, Read.read fuel r n = some (res,r')) ∧
      ∀ xs, res = .ok xs → ∃ S', xs ++ S' <+: S ∧ D r' S'

/-- Reading on, byte for byte: nothing is lost, and an empty read means that all has come. -/
theorem Delivers.readMany (hD : Delivers D) (sizes : List ℕ) (hpos : ∀ n ∈ sizes, 0 < n) {r : ρ}
    {S : List UInt8} (h : D r S) :
    ∃ pieces S' r', (∀ᶠ fuel in atTop, Readers.readMany fuel r sizes = some (pieces,none,r')) ∧
      S = pieces.flatten ++ S' ∧ pieces.length = sizes.length ∧ (S.length ≤ sizes.length → S' = []) ∧
      ∀ front p back, pieces = front ++ p :: back → (p = [] ↔ front.flatten = S) := by
  induction sizes generalizing r S with
  | nil => exact ⟨[],S,r,.of_forall fun _ => rfl,rfl,rfl,by simp,by simp⟩
  | cons n ns ih =>
    obtain ⟨xs,r1,S1,hS,-,hne,hr1,hread⟩ := hD.read h (hpos n (by simp))
    obtain ⟨pieces,S2,r2,hrest,hS1,hlen,hall,hend⟩ := ih (fun m hm => hpos m (by simp [hm])) hr1
    refine ⟨xs :: pieces,S2,r2,?_,?_,by simp [hlen],fun hle => hall ?_,?_⟩
    · filter_upwards [hread,hrest] with fuel hf hg
      simp only [Readers.readMany,hf,hg,Option.map_some]
    · rw [hS,List.flatten_cons,List.append_assoc,← hS1]
    · have hl := congrArg List.length hS
      simp only [List.length_append,List.length_cons] at hl hle
      by_cases hxs : xs = []
      · rw [hne hxs,List.length_nil] at hl
        omega
      · have hx := List.length_pos_iff.mpr hxs
        omega
    · intro front p back hcut
      cases front with
      | nil =>
        obtain ⟨rfl,-⟩ := List.cons.inj hcut
        exact ⟨fun hx => (hne hx).symm,fun hx => (List.append_eq_nil_iff.mp (hx.trans hS).symm).1⟩
      | cons y front =>
        obtain ⟨rfl,htail⟩ := List.cons.inj hcut
        rw [hend front p back htail,List.flatten_cons,hS,List.append_cancel_left_eq]

theorem Breaks.readMany (hD : Breaks D) (sizes : List ℕ) (hpos : ∀ n ∈ sizes, 0 < n) {r : ρ}
    {S : List UInt8} (h : D r S) :
    ∃ pieces e r', (∀ᶠ fuel in atTop, Readers.readMany fuel r sizes = some (pieces,e,r')) ∧
      pieces.flatten <+: S ∧ (S.length < sizes.length → e ≠ none ∨ [] ∈ pieces) := by
  induction sizes generalizing r S with
  | nil => exact ⟨[],none,r,.of_forall fun _ => rfl,List.nil_prefix,by simp⟩
  | cons n ns ih =>
    obtain ⟨res,r1,hread,hok⟩ := hD.read h (hpos n (by simp))
    cases res with
    | error e =>
      refine ⟨[],some e,r1,?_,List.nil_prefix,by simp⟩
      filter_upwards [hread] with fuel hf
      simp only [Readers.readMany,hf]
    | ok xs =>
      obtain ⟨S1,hS,hr1⟩ := hok xs rfl
      obtain ⟨pieces,e,r2,hrest,hpre,hstop⟩ := ih (fun m hm => hpos m (by simp [hm])) hr1
      refine ⟨xs :: pieces,e,r2,?_,?_,fun hlt => ?_⟩
      · filter_upwards [hread,hrest] with fuel hf hg
        simp only [Readers.readMany,hf,hg,Option.map_some]
      · rw [List.flatten_cons]
        exact (List.prefix_append_right_inj xs |>.mpr hpre).trans hS
      · by_cases hxs : xs = []
        · exact .inr (by simp [hxs])
        · have hl := hS.length_le
          have hx := List.length_pos_iff.mpr hxs
          simp only [List.length_append,List.length_cons] at hl hlt
          rcases hstop (by omega) with he|hmem
          · exact .inl he
          · exact .inr (List.mem_cons_of_mem xs hmem)

end Loops

/-- A reader that plays back a list of results, one for each read; a piece longer than the
buffer is given over several reads. -/
structure Script where
  pieces : List (Except IoError (List UInt8))
  deriving DecidableEq

def Script.read (r : Script) (n : ℕ) : Except IoError (List UInt8) × Script :=
  match r.pieces with
  | [] => (.ok [],r)
  | .error e :: rest => (.error e,⟨rest⟩)
  | .ok bs :: rest =>
    if bs.length ≤ n then (.ok bs,⟨rest⟩) else (.ok (bs.take n),⟨.ok (bs.drop n) :: rest⟩)

instance : Read Script where
  read _ r n := some (r.read n)

/-- A script of non-empty pieces, and no errors, that spell `S`. -/
def Script.Spells (r : Script) (S : List UInt8) : Prop :=
  ∃ pieces : List (List UInt8), r.pieces = pieces.map .ok ∧ (∀ p ∈ pieces, p ≠ []) ∧
    pieces.flatten = S

theorem Script.spells_single (S : List UInt8) : Script.Spells ⟨S.map fun b => .ok [b]⟩ S := by
  refine ⟨S.map fun b => [b],(List.map_map ..).symm,by simp,?_⟩
  induction S with
  | nil => rfl
  | cons b S ih => simpa using ih

theorem Script.delivers : Delivers Script.Spells where
  read := by
    rintro ⟨_⟩ _ n ⟨pieces,rfl,hne,rfl⟩ hn
    cases pieces with
    | nil => exact ⟨[],⟨[]⟩,[],by simp,by simp,by simp,⟨[],rfl,by simp,rfl⟩,
        Eventually.of_forall fun _ => rfl⟩
    | cons p pieces =>
      have hp := hne p (by simp)
      have hrest : ∀ q ∈ pieces, q ≠ [] := fun q hq => hne q (by simp [hq])
      by_cases hle : p.length ≤ n
      · refine ⟨p,⟨pieces.map .ok⟩,pieces.flatten,by simp,hle,fun h => absurd h hp,
          ⟨pieces,rfl,hrest,rfl⟩,Eventually.of_forall fun _ => ?_⟩
        simp [Read.read,Script.read,hle]
      · refine ⟨p.take n,⟨(p.drop n :: pieces).map .ok⟩,(p.drop n :: pieces).flatten,?_,?_,?_,
          ⟨p.drop n :: pieces,rfl,?_,rfl⟩,Eventually.of_forall fun _ => ?_⟩
        · simp [← List.append_assoc]
        · simp
        · intro h
          have hl := congrArg List.length h
          simp only [List.length_take,List.length_nil] at hl
          omega
        · intro q hq
          rcases List.mem_cons.mp hq with rfl|hq
          · intro h
            have hl := congrArg List.length h
            simp only [List.length_drop,List.length_nil] at hl
            omega
          · exact hrest q hq
        · simp [Read.read,Script.read,hle]

/-- `BufReader`: the inner reader and what has been read from it but not consumed. -/
structure BufReader (ρ : Type) where
  inner : ρ
  buf : List UInt8 := []
  deriving DecidableEq

namespace BufReader

def DEFAULT_BUF_SIZE : ℕ := 8192

variable {ρ : Type}

def new (inner : ρ) : BufReader ρ := ⟨inner,[]⟩

def consume (r : BufReader ρ) (n : ℕ) : BufReader ρ := { r with buf := r.buf.drop n }

variable [Read ρ]

def fillBuf (fuel : ℕ) (r : BufReader ρ) : Run (BufReader ρ) (List UInt8) :=
  if r.buf = [] then
    match Read.read fuel r.inner DEFAULT_BUF_SIZE with
    | none => none
    | some (.ok bs,inner) => some (.ok bs,⟨inner,bs⟩)
    | some (.error e,inner) => some (.error e,⟨inner,[]⟩)
  else some (.ok r.buf,r)

/-- A read at least as large as the buffer goes past an empty buffer. -/
def read (fuel : ℕ) (r : BufReader ρ) (n : ℕ) : Run (BufReader ρ) (List UInt8) :=
  if r.buf = [] ∧ DEFAULT_BUF_SIZE ≤ n then
    match Read.read fuel r.inner n with
    | none => none
    | some (res,inner) => some (res,⟨inner,[]⟩)
  else
    match r.fillBuf fuel with
    | none => none
    | some (.ok bs,r) => some (.ok (bs.take n),r.consume (min n bs.length))
    | some (.error e,r) => some (.error e,r)

instance : BufRead (BufReader ρ) where
  read := read
  fillBuf := fillBuf
  consume := consume

/-- The buffer first, then what the inner reader gives. -/
def After (D : ρ → List UInt8 → Prop) (r : BufReader ρ) (S : List UInt8) : Prop :=
  ∃ T, D r.inner T ∧ S = r.buf ++ T

variable {D : ρ → List UInt8 → Prop}

theorem fillBuf_law (hD : Delivers D) {r : BufReader ρ} {S : List UInt8} (h : After D r S) :
    ∃ xs r' S', S = xs ++ S' ∧ (xs = [] → S = []) ∧
      (∀ k ≤ xs.length, After D (r'.consume k) (S.drop k)) ∧
      ∀ᶠ fuel in atTop, r.fillBuf fuel = some (.ok xs,r') := by
  obtain ⟨T,hT,rfl⟩ := h
  by_cases hb : r.buf = []
  · obtain ⟨xs,inner,S',hS,-,hne,hr',hread⟩ := hD.read hT (n := DEFAULT_BUF_SIZE) (by decide)
    refine ⟨xs,⟨inner,xs⟩,S',by simp [hb,hS],by simpa [hb] using hne,fun k hk => ?_,?_⟩
    · exact ⟨S',hr',by simp [hb,hS,consume,List.drop_append_of_le_length hk]⟩
    · filter_upwards [hread] with fuel hf
      simp [fillBuf,hb,hf]
  · refine ⟨r.buf,r,T,rfl,fun h => absurd h hb,fun k hk => ?_,Eventually.of_forall fun _ => ?_⟩
    · exact ⟨T,hT,by simp [consume,List.drop_append_of_le_length hk]⟩
    · simp [fillBuf,hb]

theorem read_law (hD : Delivers D) {r : BufReader ρ} {S : List UInt8} {n : ℕ} (h : After D r S)
    (hn : 0 < n) :
    ∃ xs r' S', S = xs ++ S' ∧ xs.length ≤ n ∧ (xs = [] → S = []) ∧ After D r' S' ∧
      ∀ᶠ fuel in atTop, r.read fuel n = some (.ok xs,r') := by
  by_cases hb : r.buf = [] ∧ DEFAULT_BUF_SIZE ≤ n
  · obtain ⟨T,hT,rfl⟩ := h
    obtain ⟨xs,inner,S',hS,hlen,hne,hr',hread⟩ := hD.read hT hn
    refine ⟨xs,⟨inner,[]⟩,S',by simp [hb.1,hS],hlen,by simpa [hb.1] using hne,⟨S',hr',rfl⟩,?_⟩
    filter_upwards [hread] with fuel hf
    simp [read,hb,hf]
  · obtain ⟨xs,r',S',hS,hne,hr',hfill⟩ := fillBuf_law hD h
    refine ⟨xs.take n,r'.consume (min n xs.length),S.drop (min n xs.length),?_,by simp,?_,
      hr' _ (Nat.min_le_right _ _),?_⟩
    · rw [hS,List.drop_append_of_le_length (Nat.min_le_right _ _),← List.append_assoc]
      congr 1
      rcases Nat.le_total n xs.length with hle|hle
      · rw [Nat.min_eq_left hle,List.take_append_drop]
      · rw [Nat.min_eq_right hle,List.take_of_length_le hle,List.drop_length,List.append_nil]
    · intro hnil
      apply hne
      have hl := congrArg List.length hnil
      simp only [List.length_take,List.length_nil] at hl
      exact List.length_eq_zero_iff.mp (by omega)
    · filter_upwards [hfill] with fuel hf
      simp [read,if_neg hb,hf]

theorem delivers (hD : Delivers D) : BufDelivers (After D) where
  read := read_law hD
  fillBuf := fillBuf_law hD

end BufReader

end Readers
end Robocol
