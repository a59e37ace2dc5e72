import Mathlib.Data.List.Basic
import Mathlib.Tactic.SplitIfs
import Robocol.Text

/-! The standard-library text functions the stream reader uses, on a `String` as its
list of characters. -/
namespace Robocol
namespace StdText

abbrev Text := List Char

def REPLACEMENT : Char := '\uFFFD'

/-- The character that starts at byte `b`, and how many of the following bytes belong to
it. A byte sequence that is not UTF-8 gives one replacement character for its longest
valid front part. -/
def decodeStep (b : UInt8) (bs : List UInt8) : Char × ℕ :=
  let b0 := b.toNat
  let b1 := (bs[0]?.getD 0).toNat
  let b2 := (bs[1]?.getD 0).toNat
  let b3 := (bs[2]?.getD 0).toNat
  let cont (x : ℕ) : Bool := 0x80 ≤ x && x ≤ 0xBF
  if b0 < 0x80 then (Char.ofNat b0,0)
  else if 0xC2 ≤ b0 ∧ b0 ≤ 0xDF then
    if cont b1 then (Char.ofNat (b0%32*64+b1%64),1) else (REPLACEMENT,0)
  else if 0xE0 ≤ b0 ∧ b0 ≤ 0xEF then
    if (if b0 = 0xE0 then 0xA0 ≤ b1 ∧ b1 ≤ 0xBF
        else if b0 = 0xED then 0x80 ≤ b1 ∧ b1 ≤ 0x9F else cont b1) then
      if cont b2 then (Char.ofNat (b0%16*4096+b1%64*64+b2%64),2) else (REPLACEMENT,1)
    else (REPLACEMENT,0)
  else if 0xF0 ≤ b0 ∧ b0 ≤ 0xF4 then
    if (if b0 = 0xF0 then 0x90 ≤ b1 ∧ b1 ≤ 0xBF
        else if b0 = 0xF4 then 0x80 ≤ b1 ∧ b1 ≤ 0x8F else cont b1) then
      if cont b2 then
        if cont b3 then (Char.ofNat (b0%8*262144+b1%64*4096+b2%64*64+b3%64),3)
        else (REPLACEMENT,2)
      else (REPLACEMENT,1)
    else (REPLACEMENT,0)
  else (REPLACEMENT,0)

/-- `from_utf8_lossy` past the first `skip` bytes, which belong to a character already read. -/
def fromUtf8LossyFrom : ℕ → List UInt8 → Text
  | _, [] => []
  | skip+1, _ :: bs => fromUtf8LossyFrom skip bs
  | 0, b :: bs => (decodeStep b bs).1 :: fromUtf8LossyFrom (decodeStep b bs).2 bs

def fromUtf8Lossy (bs : List UInt8) : Text := fromUtf8LossyFrom 0 bs

@[simp] theorem fromUtf8Lossy_nil : fromUtf8Lossy [] = [] := rfl

theorem fromUtf8Lossy_cons (b : UInt8) (bs : List UInt8) :
    fromUtf8Lossy (b :: bs) =
      (decodeStep b bs).1 :: fromUtf8LossyFrom (decodeStep b bs).2 bs := rfl

theorem fromUtf8Lossy_ne_nil {bs : List UInt8} (h : bs ≠ []) : fromUtf8Lossy bs ≠ [] := by
  cases bs with
  | nil => exact absurd rfl h
  | cons b bs => simp [fromUtf8Lossy_cons]

theorem fromUtf8Lossy_ascii {b : UInt8} (h : b.toNat < 128) (bs : List UInt8) :
    fromUtf8Lossy (b :: bs) = Char.ofNat b.toNat :: fromUtf8Lossy bs := by
  have hd : decodeStep b bs = (Char.ofNat b.toNat,0) := if_pos h
  rw [fromUtf8Lossy_cons,hd]
  rfl

theorem fromUtf8Lossy_ascii_append {xs : List UInt8} (h : ∀ b ∈ xs, b.toNat < 128)
    (ys : List UInt8) :
    fromUtf8Lossy (xs ++ ys) = xs.map (fun b => Char.ofNat b.toNat) ++ fromUtf8Lossy ys := by
  induction xs with
  | nil => rfl
  | cons b xs ih =>
    rw [List.cons_append,fromUtf8Lossy_ascii (h b (by simp)),ih (fun b hb => h b (by simp [hb]))]
    rfl

/-- `char::is_whitespace`, the Unicode `White_Space` property. -/
def isWhitespace (c : Char) : Bool :=
  let n := c.toNat
  (9 ≤ n && n ≤ 13) || n = 0x20 || n = 0x85 || n = 0xA0 || n = 0x1680 ||
    (0x2000 ≤ n && n ≤ 0x200A) || n = 0x2028 || n = 0x2029 || n = 0x202F || n = 0x205F || n = 0x3000

def trimStart (s : Text) : Text := s.dropWhile isWhitespace

def trim (s : Text) : Text := (trimStart (trimStart s).reverse).reverse

theorem trimStart_of_head {c : Char} (h : isWhitespace c = false) (s : Text) :
    trimStart (c :: s) = c :: s := List.dropWhile_cons_of_neg (by simp [h])

theorem trimStart_of_all {s : Text} (h : ∀ c ∈ s, isWhitespace c = false) : trimStart s = s := by
  cases s with
  | nil => rfl
  | cons c s => exact trimStart_of_head (h c (by simp)) s

theorem trim_of_all {s : Text} (h : ∀ c ∈ s, isWhitespace c = false) : trim s = s := by
  rw [trim,trimStart_of_all h,trimStart_of_all (by simpa using h),List.reverse_reverse]

/-- `s.split(c).next()`. -/
def splitFirst (c : Char) (s : Text) : Text := s.takeWhile (· ≠ c)

/-- `s.split_once(c)`. -/
def splitOnce (c : Char) : Text → Option (Text × Text)
  | [] => none
  | d :: s => if d = c then some ([],s) else (splitOnce c s).map fun (a,b) => (d :: a,b)

theorem splitOnce_append {c : Char} {s : Text} (h : c ∉ s) (t : Text) :
    splitOnce c (s ++ c :: t) = some (s,t) := by
  induction s with
  | nil => simp [splitOnce]
  | cons d s ih =>
    rw [List.mem_cons,not_or] at h
    rw [List.cons_append,splitOnce,if_neg (Ne.symm h.1),ih h.2]
    rfl

/-- `u8::to_ascii_lowercase`, on characters. -/
def toAsciiLowercase (c : Char) : Char := if 'A' ≤ c ∧ c ≤ 'Z' then Char.ofNat (c.toNat+32) else c

def eqIgnoreAsciiCase (s t : Text) : Bool := s.map toAsciiLowercase == t.map toAsciiLowercase

/-- `s.split_whitespace()`. -/
def splitWhitespace (s : Text) : List Text := (s.splitOnP isWhitespace).filter (· ≠ [])

/-- `s.find(pattern)`, as the number of characters before it. -/
def find (pattern : Text) : Text → Option ℕ
  | [] => if pattern = [] then some 0 else none
  | c :: s => if pattern.isPrefixOf (c :: s) then some 0 else (find pattern s).map (·+1)

def contains (pattern s : Text) : Bool := (find pattern s).isSome

/-- `s.trim_matches(c)`. -/
def trimMatches (c : Char) (s : Text) : Text :=
  ((s.dropWhile (· = c)).reverse.dropWhile (· = c)).reverse

/-- `char::to_digit`. -/
def toDigit (radix : ℕ) (c : Char) : Option ℕ :=
  let n := c.toNat
  let d := if 48 ≤ n ∧ n ≤ 57 then n-48
    else if 97 ≤ n ∧ n ≤ 122 then n-97+10
    else if 65 ≤ n ∧ n ≤ 90 then n-65+10
    else radix
  if d < radix then some d else none

theorem isDigit_iff {c : Char} : c.isDigit = true ↔ 48 ≤ c.toNat ∧ c.toNat ≤ 57 := by
  rw [Char.isDigit,Bool.and_eq_true,decide_eq_true_eq,decide_eq_true_eq,ge_iff_le,UInt32.le_iff_toNat_le,
    UInt32.le_iff_toNat_le]
  rfl

def USIZE_LIMIT : ℕ := 2^64

/-- One more digit of a `usize`, with the overflow check. -/
def pushDigit (radix n : ℕ) (c : Char) : Option ℕ := do
  let d ← toDigit radix c
  if n*radix+d < USIZE_LIMIT then some (n*radix+d) else none

/-- `usize::from_str_radix`, without the reason it fails. -/
def fromStrRadix (radix : ℕ) (s : Text) : Option ℕ :=
  let digits := if s.head? = some '+' then s.tail else s
  if digits = [] then none else digits.foldlM (pushDigit radix) 0

/-- The characters a debug format prints for one, with everything from U+00A0 on taken as
printable. -/
def escapeDebug (c : Char) : Text :=
  if c = '\t' then "\\t".toList
  else if c = '\n' then "\\n".toList
  else if c = '\r' then "\\r".toList
  else if c = '\x22' then "\\\x22".toList
  else if c = '\\' then "\\\\".toList
  else if c.toNat = 0 then "\\0".toList
  else if c.toNat < 0x20 ∨ (0x7F ≤ c.toNat ∧ c.toNat < 0xA0) then
    "\\u\x7b".toList ++ Nat.toDigits 16 c.toNat ++ "\x7d".toList
  else [c]

/-- A text as `{:?}` prints it. -/
def debugText (s : Text) : String := String.ofList ('\x22' :: s.flatMap escapeDebug ++ ['\x22'])

/-- The number a digit string spells, without a limit. -/
def digitsValue (radix : ℕ) (ds : List ℕ) : ℕ := ds.foldl (fun n d => n*radix+d) 0

theorem le_foldl_digits {radix : ℕ} (hr : 0 < radix) (ds : List ℕ) (n : ℕ) :
    n ≤ ds.foldl (fun n d => n*radix+d) n := by
  induction ds generalizing n with
  | nil => exact Nat.le_refl _
  | cons d ds ih =>
    have h1 : n*1 ≤ n*radix := Nat.mul_le_mul_left n hr
    have h2 := ih (n*radix+d)
    simp only [List.foldl_cons]
    omega

theorem foldlM_pushDigit {radix : ℕ} (hr : 0 < radix) (s : Text) (ds : List ℕ) (n : ℕ)
    (hs : s.map (toDigit radix) = ds.map some)
    (hlim : ds.foldl (fun n d => n*radix+d) n < USIZE_LIMIT) :
    s.foldlM (pushDigit radix) n = some (ds.foldl (fun n d => n*radix+d) n) := by
  induction s generalizing ds n with
  | nil =>
    obtain rfl : ds = [] := List.map_eq_nil_iff.mp hs.symm
    rfl
  | cons c s ih =>
    cases ds with
    | nil => simp at hs
    | cons d ds =>
      simp only [List.map_cons,List.cons.injEq] at hs
      simp only [List.foldl_cons] at hlim ⊢
      have hle := le_foldl_digits hr ds (n*radix+d)
      have hpush : pushDigit radix n c = some (n*radix+d) := by
        simp only [pushDigit,hs.1,Option.bind_eq_bind,Option.bind_some,
          if_pos (Nat.lt_of_le_of_lt hle hlim)]
      rw [List.foldlM_cons,hpush]
      exact ih ds _ hs.2 hlim

/-- Digits without a sign spell their value, as long as it is a `usize`. -/
theorem fromStrRadix_digits {radix : ℕ} (hr : 0 < radix) {s : Text} {ds : List ℕ} (hne : s ≠ [])
    (hs : s.map (toDigit radix) = ds.map some) (hlim : digitsValue radix ds < USIZE_LIMIT) :
    fromStrRadix radix s = some (digitsValue radix ds) := by
  have hsign : s.head? ≠ some '+' := by
    cases s with
    | nil => simp
    | cons c s =>
      cases ds with
      | nil => simp at hs
      | cons d ds =>
        intro hc
        obtain rfl : c = '+' := by simpa using hc
        have hd : toDigit radix '+' = some d := (List.cons.inj hs).1
        simp [toDigit] at hd
  simp only [fromStrRadix,if_neg hsign,if_neg hne]
  exact foldlM_pushDigit hr s ds 0 hs hlim

theorem toNat_ofByte (b : UInt8) : (Char.ofNat b.toNat).toNat = b.toNat := by
  have hb := b.toNat_lt
  have hv : b.toNat.isValidChar := .inl (by omega)
  rw [Char.ofNat,dif_pos hv]
  rfl

theorem utf8EncodeChar_ascii {b : UInt8} (h : b.toNat < 128) :
    String.utf8EncodeChar (Char.ofNat b.toNat) = [b] := by
  have hu : (Char.ofNat b.toNat).val.toNat = b.toNat := toNat_ofByte b
  have hs : (Char.ofNat b.toNat).utf8Size = 1 := by
    rw [Char.utf8Size_eq_one_iff,UInt32.le_iff_toNat_le,hu]
    exact Nat.le_of_lt_succ h
  rw [String.utf8EncodeChar_eq_singleton hs]
  congr 1
  apply UInt8.toNat_inj.mp
  rw [UInt32.toNat_toUInt8,hu]
  omega

theorem utf8_ofBytes {bs : List UInt8} (h : ∀ b ∈ bs, b.toNat < 128) :
    utf8 (String.ofList (bs.map fun b => Char.ofNat b.toNat)) = bs := by
  have hflat : (bs.map fun b => Char.ofNat b.toNat).flatMap String.utf8EncodeChar = bs := by
    induction bs with
    | nil => rfl
    | cons b bs ih =>
      rw [List.map_cons,List.flatMap_cons,utf8EncodeChar_ascii (h b (by simp)),
        ih (fun b hb => h b (by simp [hb])),List.singleton_append]
  simp only [utf8,String.toByteArray_ofList,List.utf8Encode,hflat]
  simp

theorem toDigit_hex_byte {b : UInt8} {d : ℕ} (h : toDigit 16 (Char.ofNat b.toNat) = some d) :
    48 ≤ b.toNat ∧ b.toNat ≤ 102 ∧ b.toNat ≠ 59 := by
  simp only [toDigit,toNat_ofByte] at h
  split_ifs at h
  all_goals omega

section Search

variable {pattern s t w : Text} {c q : Char}

theorem isPrefixOf_append_sep (hc : c ∉ pattern) (s t : Text) :
    pattern.isPrefixOf (s ++ c :: t) = pattern.isPrefixOf s := by
  induction pattern generalizing s with
  | nil => simp
  | cons d pattern ih =>
    rw [List.mem_cons,not_or] at hc
    cases s with
    | nil => simp [List.isPrefixOf,Ne.symm hc.1]
    | cons e s => rw [List.cons_append,List.isPrefixOf_cons_cons,List.isPrefixOf_cons_cons,ih hc.2]

/-- A character that is not in the pattern cuts the search in two. -/
theorem find_append_sep (hc : c ∉ pattern) (hne : pattern ≠ []) (s t : Text) :
    find pattern (s ++ c :: t) =
      (find pattern s).or ((find pattern t).map (·+(s.length+1))) := by
  induction s with
  | nil =>
    have hstart := isPrefixOf_append_sep hc [] t
    rw [List.nil_append] at hstart ⊢
    rw [find,find,if_neg hne,hstart]
    simp [hne]
  | cons e s ih =>
    have hstart := isPrefixOf_append_sep hc (e :: s) t
    rw [List.cons_append] at hstart ⊢
    rw [find,find,hstart]
    by_cases hfound : pattern.isPrefixOf (e :: s) = true
    · rw [if_pos hfound,if_pos hfound]
      rfl
    · rw [if_neg hfound,if_neg hfound,ih]
      cases find pattern s with
      | some i => rfl
      | none => simp [Function.comp_def,Nat.add_assoc]

theorem find_append_of_not_mem (hw : ∀ c ∈ w, c ∉ pattern) (hne : pattern ≠ []) (s : Text) :
    find pattern (s ++ w) = find pattern s := by
  induction w generalizing s with
  | nil => rw [List.append_nil]
  | cons c w ih =>
    have hrest : find pattern w = none := by
      have hnil := ih (fun c hc => hw c (by simp [hc])) []
      rwa [List.nil_append,find,if_neg hne] at hnil
    rw [find_append_sep (hw c (by simp)) hne,hrest]
    simp

theorem find_not_mem_append (hw : ∀ c ∈ w, c ∉ pattern) (hne : pattern ≠ []) (t : Text) :
    find pattern (w ++ t) = (find pattern t).map (·+w.length) := by
  induction w with
  | nil => simp
  | cons c w ih =>
    have hsep := find_append_sep (hw c (by simp)) hne [] (w ++ t)
    rw [List.nil_append,find,if_neg hne,Option.none_or,ih fun c hc => hw c (by simp [hc])] at hsep
    rw [List.cons_append,hsep]
    simp [Function.comp_def,Nat.add_assoc]

theorem find_append_self (hne : pattern ≠ []) (t : Text) : find pattern (pattern ++ t) = some 0 := by
  cases pattern with
  | nil => exact absurd rfl hne
  | cons c pattern =>
    have hstart : (c :: pattern).isPrefixOf (c :: pattern ++ t) = true := by simp
    rw [List.cons_append] at hstart ⊢
    rw [find,if_pos hstart]

theorem find_le {i : ℕ} (h : find pattern s = some i) : i+pattern.length ≤ s.length := by
  induction s generalizing i with
  | nil =>
    rw [find] at h
    split_ifs at h with hnil
    simp [← Option.some.inj h,hnil]
  | cons c s ih =>
    rw [find] at h
    split_ifs at h with hstart
    · rw [← Option.some.inj h,Nat.zero_add]
      exact (List.isPrefixOf_iff_prefix.1 hstart).length_le
    · obtain ⟨j,hj,rfl⟩ := Option.map_eq_some_iff.1 h
      have hle := ih hj
      rw [List.length_cons]
      omega

end Search

section Trims

variable {s w : Text} {c q : Char}

theorem count_dropWhile {p : Char → Bool} (h : p c = false) (s : Text) :
    (s.dropWhile p).count c = s.count c := by
  induction s with
  | nil => rfl
  | cons d s ih =>
    by_cases hd : p d = true
    · have hdc : d ≠ c := fun hdc => by rw [hdc,h] at hd; cases hd
      rw [List.dropWhile_cons_of_pos hd,ih,List.count_cons_of_ne hdc]
    · rw [List.dropWhile_cons_of_neg hd]

theorem count_trim (h : isWhitespace c = false) (s : Text) : (trim s).count c = s.count c := by
  rw [trim,List.count_reverse,trimStart,count_dropWhile h,List.count_reverse,trimStart,count_dropWhile h]

theorem count_trimMatches (h : c ≠ q) (s : Text) : (trimMatches q s).count c = s.count c := by
  have hq : decide (c = q) = false := decide_eq_false h
  rw [trimMatches,List.count_reverse,count_dropWhile hq,List.count_reverse,count_dropWhile hq]

/-- White space behind a text that begins and ends with something else is trimmed. -/
theorem trim_append_space (hne : s ≠ []) (hhead : ∀ c ∈ s.head?, isWhitespace c = false)
    (hlast : ∀ c ∈ s.getLast?, isWhitespace c = false) (hw : ∀ c ∈ w, isWhitespace c = true) :
    trim (s ++ w) = s := by
  have hstart : trimStart (s ++ w) = s ++ w := by
    cases s with
    | nil => exact absurd rfl hne
    | cons c s => exact trimStart_of_head (hhead c rfl) _
  have hend : trimStart s.reverse = s.reverse := by
    cases hs : s.reverse with
    | nil => rfl
    | cons c rest =>
      refine trimStart_of_head (hlast c ?_) _
      rw [List.getLast?_eq_head?_reverse,hs]
      rfl
  rw [trim,hstart,List.reverse_append,trimStart,List.dropWhile_append_of_pos (by simpa using hw)]
  rw [← trimStart,hend,List.reverse_reverse]

theorem dropWhile_of_not_mem (h : q ∉ s) : s.dropWhile (· = q) = s := by
  cases s with
  | nil => rfl
  | cons c s =>
    rw [List.mem_cons,not_or] at h
    exact List.dropWhile_cons_of_neg (by simpa using Ne.symm h.1)

theorem trimMatches_of_not_mem (h : q ∉ s) : trimMatches q s = s := by
  rw [trimMatches,dropWhile_of_not_mem h,dropWhile_of_not_mem (by simpa using h),List.reverse_reverse]

theorem trimMatches_quoted (h : q ∉ s) : trimMatches q (q :: (s ++ [q])) = s := by
  rw [trimMatches,List.dropWhile_cons_of_pos (by simp)]
  cases s with
  | nil => simp
  | cons c s =>
    have hfront : (c :: (s ++ [q])).dropWhile (· = q) = c :: (s ++ [q]) := by
      rw [List.mem_cons,not_or] at h
      exact List.dropWhile_cons_of_neg (by simpa using Ne.symm h.1)
    rw [List.cons_append,hfront,← List.cons_append,List.reverse_append,List.reverse_singleton,
      List.singleton_append,List.dropWhile_cons_of_pos (by simp),
      dropWhile_of_not_mem (by rwa [List.mem_reverse]),List.reverse_reverse]

end Trims
end StdText
end Robocol
