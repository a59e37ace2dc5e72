import Robocol.HeaderLines

/-! HTTP chunked transfer encoding: the reader that takes it apart, and that it gives
back the body whatever the chunks and however the encoded bytes arrive. -/
namespace Robocol

open Filter Readers StdText HeaderLines

/-- `remaining` bytes of the current chunk are still to come; at zero a size line is next. -/
structure ChunkedReader (ρ : Type) where
  inner : ρ
  remaining : ℕ
  done : Bool
  deriving DecidableEq

namespace ChunkedReader

variable {ρ : Type}

def new (inner : ρ) : ChunkedReader ρ := ⟨inner,0,false⟩

variable [Readers.Read ρ]

/-- The next non-empty header line. -/
def sizeLine : ℕ → ρ → Run ρ Text
  | 0, _ => none
  | fuel+1, r =>
    match readHeaderLine fuel r with
    | none => none
    | some (.error e,r) => some (.error e,r)
    | some (.ok line,r) => if line = [] then sizeLine fuel r else some (.ok line,r)

/-- The part of `read` below the size line: some of the current chunk, and the CRLF behind
it with its last byte. -/
def readData (fuel : ℕ) (c : ChunkedReader ρ) (n : ℕ) : Run (ChunkedReader ρ) (List UInt8) :=
  match Read.read fuel c.inner (min c.remaining n) with
  | none => none
  | some (.error e,inner) => some (.error e,{ c with inner := inner })
  | some (.ok [],inner) =>
    some (.error ⟨.unexpectedEof,"chunk body truncated"⟩,{ c with inner := inner })
  | some (.ok (b :: bs),inner) =>
    let remaining := c.remaining-(bs.length+1)
    if remaining = 0 then
      match readExact fuel inner 2 [] with
      | none => none
      | some (.error e,inner) => some (.error e,⟨inner,remaining,c.done⟩)
      | some (.ok _,inner) => some (.ok (b :: bs),⟨inner,remaining,c.done⟩)
    else some (.ok (b :: bs),⟨inner,remaining,c.done⟩)

def read (fuel : ℕ) (c : ChunkedReader ρ) (n : ℕ) : Run (ChunkedReader ρ) (List UInt8) :=
  if c.done ∨ n = 0 then some (.ok [],c)
  else if c.remaining = 0 then
    match sizeLine fuel c.inner with
    | none => none
    | some (.error e,inner) => some (.error e,{ c with inner := inner })
    | some (.ok line,inner) =>
      match fromStrRadix 16 (trim (splitFirst ';' line)) with
      | none =>
        some (.error ⟨.invalidData,"bad chunk size: " ++ debugText line⟩,{ c with inner := inner })
      | some 0 => some (.ok [],{ c with inner := inner, done := true })
      | some (size+1) => readData fuel { c with inner := inner, remaining := size+1 } n
  else readData fuel c n

instance : Readers.Read (ChunkedReader ρ) where
  read := read

end ChunkedReader

/-- A line that announces a chunk of `n` bytes: hexadecimal digits in either case, with
any leading zeros, and perhaps an extension behind a semicolon. -/
structure SizeSpelling (n : ℕ) where
  digits : List UInt8
  values : List ℕ
  spelled : digits.map (fun b => toDigit 16 (Char.ofNat b.toNat)) = values.map some
  ne_nil : digits ≠ []
  value : digitsValue 16 values = n
  ext : List UInt8
  ext_start : ext = [] ∨ ext.head? = some 59
  no_cr : CR ∉ ext
  no_lf : LF ∉ ext

def SizeSpelling.bytes {n : ℕ} (l : SizeSpelling n) : List UInt8 := l.digits ++ l.ext

/-- A size without an extension. -/
def SizeSpelling.bare {n : ℕ} (digits : List UInt8) (values : List ℕ)
    (spelled : digits.map (fun b => toDigit 16 (Char.ofNat b.toNat)) = values.map some)
    (ne_nil : digits ≠ []) (value : digitsValue 16 values = n) : SizeSpelling n :=
  ⟨digits,values,spelled,ne_nil,value,[],.inl rfl,List.not_mem_nil,List.not_mem_nil⟩

/-- A size line that the line reader takes whole. -/
structure SizeLine (n : ℕ) extends SizeSpelling n where
  short : toSizeSpelling.bytes.length+1 ≤ LINE_CAP

/-- A non-empty piece of the body behind its size line. -/
structure Chunk where
  data : List UInt8
  ne_nil : data ≠ []
  small : data.length < USIZE_LIMIT
  line : SizeLine data.length

def Chunk.encoded (c : Chunk) : List UInt8 := c.line.bytes ++ CRLF ++ (c.data ++ CRLF)

/-- The chunks, then the last size line and whatever the trailer holds. -/
def encodeChunks (chunks : List Chunk) (last : SizeLine 0) (trailer : List UInt8) : List UInt8 :=
  chunks.flatMap Chunk.encoded ++ (last.bytes ++ CRLF ++ trailer)

def chunkBody (chunks : List Chunk) : List UInt8 := chunks.flatMap Chunk.data

namespace SizeSpelling

variable {n : ℕ}

theorem digit_byte (l : SizeSpelling n) {b : UInt8} (h : b ∈ l.digits) :
    48 ≤ b.toNat ∧ b.toNat ≤ 102 ∧ b.toNat ≠ 59 := by
  have hb : toDigit 16 (Char.ofNat b.toNat) ∈ l.values.map some := by
    rw [← l.spelled]
    exact List.mem_map_of_mem h
  obtain ⟨d,-,hd⟩ := List.mem_map.mp hb
  exact toDigit_hex_byte hd.symm

theorem not_mem_bytes (l : SizeSpelling n) {b : UInt8} (hext : b ∉ l.ext) (hb : b.toNat < 48) :
    b ∉ l.bytes := by
  intro h
  rcases List.mem_append.mp h with h|h
  · have hd := l.digit_byte h
    omega
  · exact hext h

theorem splitFirst_bytes (l : SizeSpelling n) :
    splitFirst ';' (fromUtf8Lossy l.bytes) = l.digits.map fun b => Char.ofNat b.toNat := by
  rw [bytes,fromUtf8Lossy_ascii_append (fun b hb => by have hd := l.digit_byte hb; omega),splitFirst,
    List.takeWhile_append_of_pos]
  · rcases l.ext_start with h|h
    · simp [h]
    · cases hx : l.ext with
      | nil => simp
      | cons b bs =>
        obtain rfl : b = 59 := by simpa [hx] using h
        have hsemi : Char.ofNat (59 : UInt8).toNat = ';' := rfl
        rw [fromUtf8Lossy_ascii (by decide),hsemi,List.takeWhile_cons_of_neg (by simp),List.append_nil]
  · intro c hc
    obtain ⟨b,hb,rfl⟩ := List.mem_map.mp hc
    have hne : Char.ofNat b.toNat ≠ ';' := by
      intro h
      have hn := congrArg Char.toNat h
      rw [toNat_ofByte] at hn
      exact (l.digit_byte hb).2.2 hn
    simpa using hne

theorem size_eq (l : SizeSpelling n) (hn : n < USIZE_LIMIT) :
    fromStrRadix 16 (trim (splitFirst ';' (fromUtf8Lossy l.bytes))) = some n := by
  have hspace : ∀ c ∈ l.digits.map (fun b => Char.ofNat b.toNat), isWhitespace c = false := by
    intro c hc
    obtain ⟨b,hb,rfl⟩ := List.mem_map.mp hc
    have hd := l.digit_byte hb
    simp only [isWhitespace,toNat_ofByte,Bool.or_eq_false_iff,Bool.and_eq_false_iff,
      decide_eq_false_iff_not]
    omega
  have hval := l.value
  have hne : l.digits.map (fun b => Char.ofNat b.toNat) ≠ [] := by simpa using l.ne_nil
  have hdigits : (l.digits.map fun b => Char.ofNat b.toNat).map (toDigit 16) = l.values.map some := by
    rw [List.map_map]
    exact l.spelled
  rw [l.splitFirst_bytes,trim_of_all hspace,fromStrRadix_digits (by omega) hne hdigits (by omega),hval]

theorem bytes_ne_nil (l : SizeSpelling n) : l.bytes ≠ [] := by simp [bytes,l.ne_nil]

end SizeSpelling

namespace ChunkedReader

variable {ρ : Type} [Readers.Read ρ] {D : ρ → List UInt8 → Prop}

theorem sizeLine_bytes (hD : Delivers D) {n : ℕ} (l : SizeLine n) (S : List UInt8) (r : ρ)
    (h : D r (l.bytes ++ CRLF ++ S)) :
    ∃ r', D r' S ∧ ∀ᶠ fuel in atTop, sizeLine fuel r = some (.ok (fromUtf8Lossy l.bytes),r') := by
  obtain ⟨r',hr',hline⟩ := readHeaderLine_line hD l.bytes S r h
    (l.not_mem_bytes l.no_cr (by decide)) (l.not_mem_bytes l.no_lf (by decide)) l.short
  refine ⟨r',hr',eventually_of_succ ?_⟩
  filter_upwards [hline] with fuel hf
  simp only [sizeLine,hf,if_neg (fromUtf8Lossy_ne_nil l.bytes_ne_nil)]

/-- What a chunked reader still has to give: nothing behind the last chunk, else the rest of
the current chunk and the bodies of the encoded ones behind it. -/
inductive Decodes (D : ρ → List UInt8 → Prop) : ChunkedReader ρ → List UInt8 → Prop
  | done (inner : ρ) (remaining : ℕ) : Decodes D ⟨inner,remaining,true⟩ []
  | next (inner : ρ) (chunks : List Chunk) (last : SizeLine 0) (trailer : List UInt8)
      (h : D inner (encodeChunks chunks last trailer)) : Decodes D ⟨inner,0,false⟩ (chunkBody chunks)
  | within (inner : ρ) (data : List UInt8) (chunks : List Chunk) (last : SizeLine 0)
      (trailer : List UInt8) (hne : data ≠ [])
      (h : D inner (data ++ (CRLF ++ encodeChunks chunks last trailer))) :
      Decodes D ⟨inner,data.length,false⟩ (data ++ chunkBody chunks)

theorem readData_within (hD : Delivers D) (inner : ρ) (data : List UInt8) (chunks : List Chunk)
    (last : SizeLine 0) (trailer : List UInt8) (hne : data ≠ [])
    (h : D inner (data ++ (CRLF ++ encodeChunks chunks last trailer))) {n : ℕ} (hn : 0 < n) :
    ∃ xs c' S', data ++ chunkBody chunks = xs ++ S' ∧ xs.length ≤ n ∧ xs ≠ [] ∧ Decodes D c' S' ∧
      ∀ᶠ fuel in atTop, readData fuel ⟨inner,data.length,false⟩ n = some (.ok xs,c') := by
  have hpos : 0 < data.length := List.length_pos_iff.mpr hne
  obtain ⟨xs,r1,S1,hS,hlen,hnil,hr1,hread⟩ := hD.read h (n := min data.length n) (by omega)
  obtain ⟨rest,hdata,rfl⟩ := front_split hS (by omega)
  cases xs with
  | nil => exact absurd (List.append_eq_nil_iff.mp (hnil rfl)).1 hne
  | cons x xs =>
    have hdlen : data.length = xs.length+1+rest.length := by simp [hdata]; omega
    by_cases hr : rest = []
    · obtain rfl := hr
      rw [List.nil_append] at hr1
      obtain ⟨r2,hr2,hexact⟩ := hD.readExact 2 CRLF _ [] r1 hr1 rfl
      refine ⟨x :: xs,⟨r2,0,false⟩,chunkBody chunks,by simp [hdata],by omega,by simp,
        .next r2 chunks last trailer hr2,?_⟩
      filter_upwards [hread,hexact] with fuel hf hg
      have hz : data.length-(xs.length+1) = 0 := by simp at hdlen; omega
      simp only [readData,hf,hz,if_true,hg]
    · refine ⟨x :: xs,⟨r1,rest.length,false⟩,rest ++ chunkBody chunks,by simp [hdata],by omega,
        by simp,.within r1 rest chunks last trailer hr hr1,?_⟩
      filter_upwards [hread] with fuel hf
      have hz : data.length-(xs.length+1) = rest.length := by omega
      have hne0 : rest.length ≠ 0 := by simpa using hr
      simp only [readData,hf,hz,if_neg hne0]

theorem delivers (hD : Delivers D) : Delivers (Decodes D) where
  read := by
    intro c S n h hn
    cases h with
    | done inner remaining =>
      exact ⟨[],_,[],by simp,by simp,by simp,.done inner remaining,
        Eventually.of_forall fun fuel => by simp [Readers.Read.read,read]⟩
    | next inner chunks last trailer h =>
      cases chunks with
      | nil =>
        have h : D inner (last.bytes ++ CRLF ++ trailer) := h
        obtain ⟨r1,-,hline⟩ := sizeLine_bytes hD last trailer inner h
        refine ⟨[],⟨r1,0,true⟩,[],by simp [chunkBody],by simp,by simp [chunkBody],.done r1 0,?_⟩
        filter_upwards [hline] with fuel hf
        have hsize := last.size_eq (by decide)
        simp [Readers.Read.read,read,Nat.pos_iff_ne_zero.mp hn,hf,hsize]
      | cons chunk chunks =>
        have h : D inner (chunk.line.bytes ++ CRLF ++
            (chunk.data ++ (CRLF ++ encodeChunks chunks last trailer))) := by
          simpa [encodeChunks,Chunk.encoded] using h
        obtain ⟨r1,hr1,hline⟩ := sizeLine_bytes hD chunk.line _ inner h
        obtain ⟨xs,c',S',hS,hlen,hne,hc',hdata⟩ :=
          readData_within hD r1 chunk.data chunks last trailer chunk.ne_nil hr1 hn
        refine ⟨xs,c',S',by simpa [chunkBody] using hS,hlen,fun h => absurd h hne,hc',?_⟩
        filter_upwards [hline,hdata] with fuel hf hg
        obtain ⟨size,hs⟩ := Nat.exists_eq_succ_of_ne_zero (Nat.pos_iff_ne_zero.mp
          (List.length_pos_iff.mpr chunk.ne_nil))
        have hsize := (chunk.line.size_eq chunk.small).trans (congrArg some hs)
        rw [hs] at hg
        simp only [Readers.Read.read,read,Bool.false_eq_true,Nat.pos_iff_ne_zero.mp hn,or_self,
          if_false,if_true,hf,hsize]
        exact hg
    | within inner data chunks last trailer hne h =>
      obtain ⟨xs,c',S',hS,hlen,hxs,hc',hdata⟩ :=
        readData_within hD inner data chunks last trailer hne h hn
      refine ⟨xs,c',S',hS,hlen,fun h => absurd h hxs,hc',?_⟩
      filter_upwards [hdata] with fuel hf
      have hz : data.length ≠ 0 := by simpa using hne
      simp only [Readers.Read.read,read,Bool.false_eq_true,Nat.pos_iff_ne_zero.mp hn,or_self,
        if_false,hz,hf]

section Severed

theorem sizeLine_end (hD : Delivers D) (r : ρ) (h : D r []) :
    ∃ e r', D r' [] ∧ ∀ᶠ fuel in atTop, sizeLine fuel r = some (.error e,r') := by
  obtain ⟨r',hr',hline⟩ := readHeaderLine_end hD r h
  refine ⟨⟨.unexpectedEof,"stream ended mid-header"⟩,r',hr',eventually_of_succ ?_⟩
  filter_upwards [hline] with fuel hf
  simp only [sizeLine,hf]

theorem sizeLine_cut (hD : Delivers D) {n : ℕ} (l : SizeLine n) (T : List UInt8) (r : ρ) (h : D r T)
    (hT : T <+: l.bytes ++ CRLF) (hlt : T.length < (l.bytes ++ CRLF).length) :
    ∃ res r', D r' [] ∧ ∀ᶠ fuel in atTop, sizeLine fuel r = some (res,r') := by
  have hcr : T <+: l.bytes ++ [CR] := by
    refine List.prefix_of_prefix_length_le hT ⟨[LF],by simp [CRLF]⟩ ?_
    simp only [CRLF,List.length_append,List.length_cons,List.length_nil] at hlt ⊢
    omega
  have hlf : LF ∉ T := by
    intro hmem
    rcases List.mem_append.mp (hcr.subset hmem) with hmem|hmem
    · exact l.not_mem_bytes l.no_lf (by decide) hmem
    · exact absurd hmem (by decide)
  have hcap : T.length ≤ LINE_CAP := by
    have hle := hcr.length_le
    rw [List.length_append,List.length_singleton] at hle
    exact hle.trans l.short
  obtain ⟨res,r1,hr1,hline⟩ := readHeaderLine_cut hD T r h hlf hcap
  cases res with
  | error e =>
    refine ⟨.error e,r1,hr1,eventually_of_succ ?_⟩
    filter_upwards [hline] with fuel hf
    simp only [sizeLine,hf]
  | ok line =>
    by_cases hnil : line = []
    · obtain ⟨e,r2,hr2,hend⟩ := sizeLine_end hD r1 hr1
      refine ⟨.error e,r2,hr2,eventually_of_succ ?_⟩
      filter_upwards [hline,hend] with fuel hf hg
      simp only [sizeLine,hf,if_pos hnil,hg]
    · refine ⟨.ok line,r1,hr1,eventually_of_succ ?_⟩
      filter_upwards [hline] with fuel hf
      simp only [sizeLine,hf,if_neg hnil]

/-- The body that may still come where the encoding is cut somewhere: `T` is what the inner reader
has of it. -/
inductive Severed (D : ρ → List UInt8 → Prop) : ChunkedReader ρ → List UInt8 → Prop
  | done (inner : ρ) (remaining : ℕ) : Severed D ⟨inner,remaining,true⟩ []
  | next (inner : ρ) (T : List UInt8) (chunks : List Chunk) (last : SizeLine 0)
      (trailer : List UInt8) (hT : T <+: encodeChunks chunks last trailer) (h : D inner T) :
      Severed D ⟨inner,0,false⟩ (chunkBody chunks)
  | within (inner : ρ) (T data : List UInt8) (chunks : List Chunk) (last : SizeLine 0)
      (trailer : List UInt8) (hne : data ≠ [])
      (hT : T <+: data ++ (CRLF ++ encodeChunks chunks last trailer)) (h : D inner T) :
      Severed D ⟨inner,data.length,false⟩ (data ++ chunkBody chunks)

theorem readData_end (hD : Delivers D) (inner : ρ) (h : D inner []) {n size : ℕ} (hn : 0 < n)
    (hsize : 0 < size) :
    ∃ e c, ∀ᶠ fuel in atTop, readData fuel ⟨inner,size,false⟩ n = some (.error e,c) := by
  obtain ⟨r1,-,hread⟩ := hD.read_end h (n := min size n) (by omega)
  refine ⟨⟨.unexpectedEof,"chunk body truncated"⟩,⟨r1,size,false⟩,?_⟩
  filter_upwards [hread] with fuel hf
  simp only [readData,hf]

theorem readData_severed (hD : Delivers D) (inner : ρ) (T data : List UInt8) (chunks : List Chunk)
    (last : SizeLine 0) (trailer : List UInt8) (hne : data ≠ [])
    (hT : T <+: data ++ (CRLF ++ encodeChunks chunks last trailer)) (h : D inner T) {n : ℕ}
    (hn : 0 < n) :
    ∃ res c', (∀ᶠ fuel in atTop, readData fuel ⟨inner,data.length,false⟩ n = some (res,c')) ∧
      ∀ xs, res = .ok xs → ∃ S', xs ++ S' <+: data ++ chunkBody chunks ∧ Severed D c' S' := by
  have hpos : 0 < data.length := List.length_pos_iff.mpr hne
  obtain ⟨xs,r1,T1,hcut,hlen,-,hr1,hread⟩ := hD.read h (n := min data.length n) (by omega)
  cases xs with
  | nil =>
    refine ⟨.error ⟨.unexpectedEof,"chunk body truncated"⟩,⟨r1,data.length,false⟩,?_,by simp⟩
    filter_upwards [hread] with fuel hf
    simp only [readData,hf]
  | cons x xs =>
    obtain ⟨rest,hdata⟩ : x :: xs <+: data := by
      have hpre : x :: xs <+: data ++ (CRLF ++ encodeChunks chunks last trailer) :=
        (List.prefix_append _ T1).trans (hcut ▸ hT)
      exact List.prefix_of_prefix_length_le hpre (List.prefix_append data _) (by omega)
    have hT1 : T1 <+: rest ++ (CRLF ++ encodeChunks chunks last trailer) := by
      rw [hcut,← hdata,List.append_assoc] at hT
      exact (List.prefix_append_right_inj _).mp hT
    have hdlen : data.length = xs.length+1+rest.length := by simp [← hdata]; omega
    by_cases hr : rest = []
    · have hz : data.length-(xs.length+1) = 0 := by simp [hr] at hdlen; omega
      rw [hr,List.nil_append] at hT1
      rcases cut_cases hT1 with ⟨-,htwo⟩|⟨T2,rfl,hT2⟩
      · obtain ⟨e,r2,hexact⟩ := hD.readExact_short 2 T1 [] r1 hr1 htwo
        refine ⟨.error e,⟨r2,0,false⟩,?_,by simp⟩
        filter_upwards [hread,hexact] with fuel hf hg
        simp only [readData,hf,hz,if_true,hg]
      · obtain ⟨r2,hr2,hexact⟩ := hD.readExact 2 CRLF T2 [] r1 hr1 rfl
        refine ⟨.ok (x :: xs),⟨r2,0,false⟩,?_,fun ys hys => ?_⟩
        · filter_upwards [hread,hexact] with fuel hf hg
          simp only [readData,hf,hz,if_true,hg]
        · obtain rfl := Except.ok.inj hys
          exact ⟨chunkBody chunks,by simp [← hdata,hr],.next r2 T2 chunks last trailer hT2 hr2⟩
    · refine ⟨.ok (x :: xs),⟨r1,rest.length,false⟩,?_,fun ys hys => ?_⟩
      · filter_upwards [hread] with fuel hf
        have hz : data.length-(xs.length+1) = rest.length := by omega
        have hne0 : rest.length ≠ 0 := by simpa using hr
        simp only [readData,hf,hz,if_neg hne0]
      · obtain rfl := Except.ok.inj hys
        exact ⟨rest ++ chunkBody chunks,by simp [← hdata],
          .within r1 T1 rest chunks last trailer hr hT1 hr1⟩

theorem read_cut (hD : Delivers D) {size : ℕ} (l : SizeLine size) (inner : ρ) (T body : List UInt8)
    (h : D inner T) (hT : T <+: l.bytes ++ CRLF) (hlt : T.length < (l.bytes ++ CRLF).length) {n : ℕ}
    (hn : 0 < n) :
    ∃ res c', (∀ᶠ fuel in atTop, read fuel ⟨inner,0,false⟩ n = some (res,c')) ∧
      ∀ xs, res = .ok xs → ∃ S', xs ++ S' <+: body ∧ Severed D c' S' := by
  have hcond : ¬(false = true ∨ n = 0) := by
    simp only [Bool.false_eq_true,false_or]
    omega
  obtain ⟨res,r1,hr1,hline⟩ := sizeLine_cut hD l T inner h hT hlt
  cases res with
  | error e =>
    refine ⟨.error e,⟨r1,0,false⟩,?_,by simp⟩
    filter_upwards [hline] with fuel hf
    simp only [read,if_neg hcond,if_true,hf]
  | ok line =>
    cases hsize : fromStrRadix 16 (trim (splitFirst ';' line)) with
    | none =>
      refine ⟨.error ⟨.invalidData,"bad chunk size: " ++ debugText line⟩,⟨r1,0,false⟩,?_,by simp⟩
      filter_upwards [hline] with fuel hf
      simp only [read,if_neg hcond,if_true,hf,hsize]
    | some size =>
      cases size with
      | zero =>
        refine ⟨.ok [],⟨r1,0,true⟩,?_,fun xs hxs => ?_⟩
        · filter_upwards [hline] with fuel hf
          simp only [read,if_neg hcond,if_true,hf,hsize]
        · obtain rfl := Except.ok.inj hxs
          exact ⟨[],List.nil_prefix,.done r1 0⟩
      | succ size =>
        obtain ⟨e,c,hdata⟩ := readData_end hD r1 hr1 hn (Nat.succ_pos size)
        refine ⟨.error e,c,?_,by simp⟩
        filter_upwards [hline,hdata] with fuel hf hg
        simp only [read,if_neg hcond,if_true,hf,hsize]
        exact hg

theorem read_next (hD : Delivers D) (inner : ρ) (T : List UInt8) (chunks : List Chunk)
    (last : SizeLine 0) (trailer : List UInt8) (hT : T <+: encodeChunks chunks last trailer)
    (h : D inner T) {n : ℕ} (hn : 0 < n) :
    ∃ res c', (∀ᶠ fuel in atTop, read fuel ⟨inner,0,false⟩ n = some (res,c')) ∧
      ∀ xs, res = .ok xs → ∃ S', xs ++ S' <+: chunkBody chunks ∧ Severed D c' S' := by
  have hn0 : n ≠ 0 := Nat.pos_iff_ne_zero.mp hn
  cases chunks with
  | nil =>
    have hT : T <+: last.bytes ++ CRLF ++ trailer := hT
    rcases cut_cases hT with ⟨hT,hlt⟩|⟨T',rfl,-⟩
    · exact read_cut hD last inner T _ h hT hlt hn
    · obtain ⟨r1,-,hline⟩ := sizeLine_bytes hD last T' inner h
      refine ⟨.ok [],⟨r1,0,true⟩,?_,fun xs hxs => ?_⟩
      · filter_upwards [hline] with fuel hf
        have hsize := last.size_eq (by decide)
        simp [read,hn0,hf,hsize]
      · obtain rfl := Except.ok.inj hxs
        exact ⟨[],List.nil_prefix,.done r1 0⟩
  | cons chunk chunks =>
    have hT : T <+: chunk.line.bytes ++ CRLF ++
        (chunk.data ++ (CRLF ++ encodeChunks chunks last trailer)) := by
      simpa [encodeChunks,Chunk.encoded] using hT
    rcases cut_cases hT with ⟨hT,hlt⟩|⟨T',rfl,hT'⟩
    · exact read_cut hD chunk.line inner T _ h hT hlt hn
    · obtain ⟨r1,hr1,hline⟩ := sizeLine_bytes hD chunk.line T' inner h
      obtain ⟨res,c',hdata,hok⟩ :=
        readData_severed hD r1 T' chunk.data chunks last trailer chunk.ne_nil hT' hr1 hn
      refine ⟨res,c',?_,hok⟩
      filter_upwards [hline,hdata] with fuel hf hg
      obtain ⟨size,hs⟩ := Nat.exists_eq_succ_of_ne_zero (Nat.pos_iff_ne_zero.mp
        (List.length_pos_iff.mpr chunk.ne_nil))
      have hsize := (chunk.line.size_eq chunk.small).trans (congrArg some hs)
      rw [hs] at hg
      simp only [read,Bool.false_eq_true,hn0,or_self,if_false,if_true,hf,hsize]
      exact hg

/-- Wherever the encoding is cut, what comes is a front part of the body. -/
theorem breaks (hD : Delivers D) : Breaks (Severed D) where
  read := by
    intro c S n h hn
    cases h with
    | done inner remaining =>
      refine ⟨.ok [],⟨inner,remaining,true⟩,.of_forall fun fuel => ?_,fun xs hxs => ?_⟩
      · simp [Readers.Read.read,read]
      · obtain rfl := Except.ok.inj hxs
        exact ⟨[],List.prefix_rfl,.done inner remaining⟩
    | next inner T chunks last trailer hT h => exact read_next hD inner T chunks last trailer hT h hn
    | within inner T data chunks last trailer hne hT h =>
      obtain ⟨res,c',hdata,hok⟩ := readData_severed hD inner T data chunks last trailer hne hT h hn
      refine ⟨res,c',?_,hok⟩
      filter_upwards [hdata] with fuel hf
      have hz : data.length ≠ 0 := by simpa using hne
      simp only [Readers.Read.read,read,Bool.false_eq_true,Nat.pos_iff_ne_zero.mp hn,or_self,
        if_false,hz,hf]

end Severed

/-- Reading the encoding of a body, with whatever buffers: the body comes back, and an empty read
exactly where all of it has come. Cut anywhere, it gives a front part of the body and then ends. -/
theorem readMany_encoded (hD : Delivers D) (chunks : List Chunk) (last : SizeLine 0)
    (trailer : List UInt8) (sizes : List ℕ) (hpos : ∀ n ∈ sizes, 0 < n) (inner : ρ) (T : List UInt8)
    (hT : T <+: encodeChunks chunks last trailer) (h : D inner T) :
    (T = encodeChunks chunks last trailer → ∃ pieces c,
      (∀ᶠ fuel in atTop, readMany fuel (new inner) sizes = some (pieces,none,c)) ∧
      pieces.length = sizes.length ∧
      ((chunkBody chunks).length ≤ sizes.length → pieces.flatten = chunkBody chunks) ∧
      ∀ front p back, pieces = front ++ p :: back → (p = [] ↔ front.flatten = chunkBody chunks)) ∧
    ∃ pieces e c, (∀ᶠ fuel in atTop, readMany fuel (new inner) sizes = some (pieces,e,c)) ∧
      pieces.flatten <+: chunkBody chunks ∧
      ((chunkBody chunks).length < sizes.length → e ≠ none ∨ [] ∈ pieces) := by
  refine ⟨?_,(breaks hD).readMany sizes hpos (.next inner T chunks last trailer hT h)⟩
  rintro rfl
  obtain ⟨pieces,S',c,hread,hcut,hlen,hall,hend⟩ :=
    (delivers hD).readMany sizes hpos (.next inner chunks last trailer h)
  refine ⟨pieces,c,hread,hlen,fun hle => ?_,hend⟩
  rw [hcut,hall hle,List.append_nil]

/-- Data that looks like a size line, behind a size line with a leading zero and an extension. -/
def lineChunk : Chunk where
  data := [97,13,10,48]
  ne_nil := by decide
  small := by decide
  line := ⟨⟨[48,52],[0,4],by decide,by decide,by decide,[59,121],by decide,by decide,by decide⟩,
    by decide⟩

def lastLine : SizeLine 0 :=
  ⟨⟨[48,48],[0,0],rfl,by decide,rfl,[59],by decide,by decide,by decide⟩,by decide⟩

theorem readMany_lineChunk :
    ∃ pieces c, (∀ᶠ fuel in atTop, readMany fuel
        (new (⟨(encodeChunks [lineChunk] lastLine CRLF).map fun b => .ok [b]⟩ : Script)) [3,1,2,9] =
          some (pieces,none,c)) ∧ pieces.flatten = [97,13,10,48] := by
  obtain ⟨pieces,c,hread,-,hall,-⟩ := (readMany_encoded Script.delivers [lineChunk] lastLine CRLF
    [3,1,2,9] (by decide) _ _ List.prefix_rfl (Script.spells_single _)).1 rfl
  exact ⟨pieces,c,hread,hall (by decide)⟩

/-- Behind a size line of the full cap its line feed comes as the first byte of the chunk. -/
theorem read_full (hD : Delivers D) {n : ℕ} (l : SizeSpelling (n+1)) (hn : n+1 < USIZE_LIMIT)
    (hcap : l.bytes.length = LINE_CAP) (S : List UInt8) (hS : 1 < S.length) (inner : ρ)
    (h : D inner (l.bytes ++ CRLF ++ S)) :
    ∃ c, ∀ᶠ fuel in atTop, read fuel (new inner) 1 = some (.ok [LF],c) := by
  obtain ⟨r1,hr1,hline⟩ := readHeaderLine_full hD l.bytes S inner h
    (l.not_mem_bytes l.no_cr (by decide)) (l.not_mem_bytes l.no_lf (by decide)) hcap
  obtain ⟨r2,hr2,hread⟩ := hD.read_one hr1
  have hsize : ∀ᶠ fuel in atTop,
      sizeLine fuel inner = some (.ok (fromUtf8Lossy l.bytes),r1) := by
    refine eventually_of_succ ?_
    filter_upwards [hline] with fuel hf
    simp only [sizeLine,hf,if_neg (fromUtf8Lossy_ne_nil l.bytes_ne_nil)]
  cases n with
  | zero =>
    obtain ⟨r3,-,hexact⟩ := hD.readExact 2 (S.take 2) (S.drop 2) [] r2
      (by rwa [List.take_append_drop]) (by rw [List.length_take]; omega)
    refine ⟨⟨r3,0,false⟩,?_⟩
    filter_upwards [hsize,hread,hexact] with fuel hf hg hx
    simp [read,new,hf,l.size_eq hn,readData,hg,hx]
  | succ n =>
    refine ⟨⟨r2,n+1,false⟩,?_⟩
    filter_upwards [hsize,hread] with fuel hf hg
    simp [read,new,hf,l.size_eq hn,readData,hg]

theorem digitsValue_zeros (radix count : ℕ) (ds : List ℕ) :
    digitsValue radix (List.replicate count 0 ++ ds) = digitsValue radix ds := by
  induction count with
  | zero => rfl
  | succ count ih => simpa [digitsValue,List.replicate_succ] using ih

/-- One byte, announced behind as many leading zeros as make a line of 8192 bytes. -/
def longLine : SizeSpelling 1 :=
  .bare (List.replicate 8191 48 ++ [49]) (List.replicate 8191 0 ++ [1])
    (by
      have hzero : toDigit 16 (Char.ofNat (48 : UInt8).toNat) = some 0 := rfl
      have hone : toDigit 16 (Char.ofNat (49 : UInt8).toNat) = some 1 := rfl
      simp only [List.map_append,List.map_replicate,List.map_cons,List.map_nil,hzero,hone])
    (List.append_ne_nil_of_right_ne_nil _ (List.cons_ne_nil _ _)) (digitsValue_zeros 16 8191 [1])

theorem readMany_longLine :
    longLine.bytes.length = LINE_CAP ∧ ∃ c, (∀ᶠ fuel in atTop, readMany fuel
        (new (⟨(longLine.bytes ++ CRLF ++ ([120] ++ CRLF ++ (lastLine.bytes ++ CRLF ++ CRLF))).map
          fun b => .ok [b]⟩ : Script)) [1] = some ([[LF]],none,c)) ∧ ¬[LF] <+: [120] := by
  have hlen : longLine.bytes.length = LINE_CAP := by
    simp only [SizeSpelling.bytes,longLine,SizeSpelling.bare,List.length_append,List.length_replicate,
      List.length_singleton,List.length_nil]
    rfl
  obtain ⟨c,hread⟩ := read_full Script.delivers longLine (by decide) hlen
    ([120] ++ CRLF ++ (lastLine.bytes ++ CRLF ++ CRLF)) (by decide) _ (Script.spells_single _)
  refine ⟨hlen,c,?_,by decide⟩
  filter_upwards [hread] with fuel hf
  have hone : Readers.Read.read fuel (new (⟨(longLine.bytes ++ CRLF ++
      ([120] ++ CRLF ++ (lastLine.bytes ++ CRLF ++ CRLF))).map fun b => .ok [b]⟩ : Script)) 1 =
        some (.ok [LF],c) := hf
  simp only [Readers.readMany,hone,Option.map_some]

end ChunkedReader
end Robocol
