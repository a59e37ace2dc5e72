import Robocol.Datagrams

/-! The reader of capture files, classic pcap and pcapng. `none` is where the source indexes
or slices out of range, or shifts by the width of the word; a timestamp stays the integer
it is in the file, beside its unit. -/
namespace Robocol
namespace Capture
namespace Pcap

open ByteLayout

inductive Endian
  | little | big
  deriving DecidableEq

/-- The number that bytes spell in a byte order. -/
def Endian.value : Endian → List UInt8 → ℕ
  | .little, a => ofBE a.reverse
  | .big, a => ofBE a

def Endian.u16 (endian : Endian) (b : List UInt8) : Option UInt16 :=
  (ByteLayout.read b 0 2).map fun a => UInt16.ofNat (endian.value a)

def Endian.u32 (endian : Endian) (b : List UInt8) : Option UInt32 :=
  (ByteLayout.read b 0 4).map fun a => UInt32.ofNat (endian.value a)

/-- `u32::swap_bytes`. -/
def swapBytes (n : UInt32) : UInt32 := UInt32.ofNat (ofBE (toBE 4 n.toNat).reverse)

/-- A unit of time: `10^(-k)` or `2^(-k)` seconds. -/
inductive Tick
  | decimal (k : ℕ)
  | binary (k : ℕ)
  deriving DecidableEq

/-- A timestamp before it becomes an `f64`: seconds and a fraction, or a count of ticks. -/
inductive Stamp
  | split (sec frac : UInt32) (tick : Tick)
  | ticks (count : UInt64) (tick : Tick)
  deriving DecidableEq

/-- A frame as it is read. -/
structure Captured where
  ts : Stamp
  linktype : UInt32
  data : List UInt8
  deriving DecidableEq

abbrev Interface := UInt32 × Tick

def PCAP_MAGIC_US : UInt32 := 0xa1b2c3d4
def PCAP_MAGIC_NS : UInt32 := 0xa1b23c4d
def PCAPNG_SHB : UInt32 := 0x0a0d0d0a

section Classic

/-- `{:#010x}`. -/
def hexWord (n : UInt32) : String :=
  String.ofList ('0' :: 'x' :: (Nat.toDigits 16 n.toNat).leftpad 8 '0')

/-- The loop over the records, on what is left of the file. -/
def readRecords (endian : Endian) (tick : Tick) (linktype : UInt32) (rest : List UInt8) :
    Option (List Captured) :=
  if _ : 16 ≤ rest.length then do
    let tsSec ← endian.u32 rest
    let tsFrac ← endian.u32 (← sliceFrom rest 4)
    let inclLen ← endian.u32 (← sliceFrom rest 8)
    if 16+inclLen.toNat ≤ rest.length then do
      let data ← slice rest 16 (16+inclLen.toNat)
      let frames ← readRecords endian tick linktype (rest.drop (16+inclLen.toNat))
      return ⟨.split tsSec tsFrac tick,linktype,data⟩ :: frames
    else return []
  else return []
termination_by rest.length
decreasing_by
  rw [List.length_drop]
  omega

/-- The byte order and the unit that a magic number stands for, or the number nobody knows. -/
def readMagic (le : UInt32) : Except UInt32 (Endian × Tick) :=
  if le = PCAP_MAGIC_US then .ok (.little,.decimal 6)
  else if le = PCAP_MAGIC_NS then .ok (.little,.decimal 9)
  else if swapBytes le = PCAP_MAGIC_US then .ok (.big,.decimal 6)
  else if swapBytes le = PCAP_MAGIC_NS then .ok (.big,.decimal 9)
  else .error (swapBytes le)

def readClassic (bytes : List UInt8) : Option (Except String (List Captured)) :=
  if bytes.length < 24 then some (.error "truncated pcap header")
  else do
    let le ← Endian.little.u32 bytes
    match readMagic le with
    | .error other => return .error ("not a pcap file (magic " ++ hexWord other ++ ")")
    | .ok (endian,tick) =>
      let linktype ← endian.u32 (← slice bytes 20 24)
      return .ok (← readRecords endian tick linktype (bytes.drop 24))

end Classic

section Blocks

/-- The unit a resolution byte stands for. -/
def resolution (raw : UInt8) : Option Tick :=
  if raw &&& 0x80 ≠ 0 then
    if (raw &&& 0x7f).toNat < 64 then some (.binary (raw &&& 0x7f).toNat) else none
  else some (.decimal raw.toNat)

/-- `usize::next_multiple_of`, for a multiple of four. -/
def nextMultipleOf4 (n : ℕ) : ℕ := (n+3)/4*4

/-- The loop over the options of an interface, on what is left of them. -/
def tsresol (endian : Endian) (options : List UInt8) : Option Tick :=
  if _ : 4 ≤ options.length then do
    let code ← endian.u16 options
    let len ← endian.u16 (← sliceFrom options 2)
    let value ← sliceFrom options 4
    if code = 0 then return .decimal 6
    else if code = 9 ∧ 1 ≤ len.toNat ∧ value ≠ [] then do
      resolution (← value[0]?)
    else tsresol endian (options.drop (4+nextMultipleOf4 len.toNat))
  else return .decimal 6
termination_by options.length
decreasing_by
  rw [List.length_drop]
  omega

/-- What one block adds to the interfaces and to the frames. -/
def readBlock (endian : Endian) (interfaces : List Interface) (blockType : UInt32) (body : List UInt8) :
    Option (List Interface × List Captured) :=
  if blockType = 1 then do
    let linktype ← endian.u16 (← slice body 0 2)
    let tick ← tsresol endian (← sliceFrom body 8)
    return (interfaces ++ [(linktype.toUInt32,tick)],[])
  else if blockType = 6 ∧ 20 ≤ body.length then do
    let iface ← endian.u32 (← slice body 0 4)
    let high ← endian.u32 (← slice body 4 8)
    let low ← endian.u32 (← slice body 8 12)
    let capLen ← endian.u32 (← slice body 12 16)
    let (linktype,tick) := interfaces[iface.toNat]?.getD (1,.decimal 6)
    if 20+capLen.toNat ≤ body.length then do
      let data ← slice body 20 (20+capLen.toNat)
      return (interfaces,[⟨.ticks (high.toUInt64 <<< 32 ||| low.toUInt64) tick,linktype,data⟩])
    else return (interfaces,[])
  else return (interfaces,[])

/-- The loop over the blocks, on what is left of the file. -/
def readBlocks (endian : Endian) (interfaces : List Interface) (rest : List UInt8) :
    Option (List Captured) :=
  if _ : 12 ≤ rest.length then do
    let blockType ← endian.u32 rest
    let totalLen ← endian.u32 (← sliceFrom rest 4)
    if _ : 12 ≤ totalLen.toNat ∧ totalLen.toNat ≤ rest.length then do
      let body ← slice rest 8 (totalLen.toNat-4)
      let (interfaces,frames) ← readBlock endian interfaces blockType body
      return frames ++ (← readBlocks endian interfaces (rest.drop totalLen.toNat))
    else return []
  else return []
termination_by rest.length
decreasing_by
  rw [List.length_drop]
  omega

/-- The byte order of a section, if its magic number is one. -/
def byteOrder (bom : UInt32) : Option Endian :=
  if bom = 0x1a2b3c4d then some .little
  else if swapBytes bom = 0x1a2b3c4d then some .big
  else none

def readPcapng (bytes : List UInt8) : Option (Except String (List Captured)) := do
  let bom ← Endian.little.u32 (← sliceFrom bytes 8)
  match byteOrder bom with
  | none => return .error "pcapng byte-order magic not recognized"
  | some endian => return .ok (← readBlocks endian [] bytes)

end Blocks

def read (bytes : List UInt8) : Option (Except String (List Captured)) :=
  if bytes.length < 4 then some (.error "file too short to be a capture")
  else do
    let head ← Endian.little.u32 bytes
    if head = PCAPNG_SHB ∨ swapBytes head = PCAPNG_SHB then readPcapng bytes else readClassic bytes

section Fields

variable {endian : Endian} {tick : Tick} {linktype : UInt32} {interfaces : List Interface}
  {b body rest : List UInt8} {n : ℕ}

/-- The number in the two bytes at `n`. -/
def Endian.half (endian : Endian) (b : List UInt8) (n : ℕ) : UInt16 :=
  UInt16.ofNat (endian.value ((b.drop n).take 2))

/-- The number in the four bytes at `n`. -/
def Endian.word (endian : Endian) (b : List UInt8) (n : ℕ) : UInt32 :=
  UInt32.ofNat (endian.value ((b.drop n).take 4))

theorem Endian.u16_eq (h : 2 ≤ b.length) : endian.u16 b = some (endian.half b 0) := by
  rw [Endian.u16,ByteLayout.read,if_pos (by omega),Option.map_some,Endian.half]

theorem Endian.u32_eq (h : 4 ≤ b.length) : endian.u32 b = some (endian.word b 0) := by
  rw [Endian.u32,ByteLayout.read,if_pos (by omega),Option.map_some,Endian.word]

theorem sliceFrom_eq (h : n ≤ b.length) : sliceFrom b n = some (b.drop n) := if_pos h

theorem Endian.u16_drop (h : n+2 ≤ b.length) : endian.u16 (b.drop n) = some (endian.half b n) := by
  rw [Endian.u16_eq (by rw [List.length_drop]; omega),Endian.half,Endian.half,List.drop_drop,Nat.add_zero]

theorem Endian.u32_drop (h : n+4 ≤ b.length) : endian.u32 (b.drop n) = some (endian.word b n) := by
  rw [Endian.u32_eq (by rw [List.length_drop]; omega),Endian.word,Endian.word,List.drop_drop,Nat.add_zero]

theorem Endian.u32_slice (h : n+4 ≤ b.length) :
    endian.u32 ((b.take (n+4)).drop n) = some (endian.word b n) := by
  rw [Endian.u32_drop (by rw [List.length_take]; omega),Endian.word,Endian.word,List.drop_take,
    List.take_take]
  congr 4
  omega

theorem readRecords_step (h : 16+(endian.word rest 8).toNat ≤ rest.length) :
    readRecords endian tick linktype rest =
      (readRecords endian tick linktype (rest.drop (16+(endian.word rest 8).toNat))).map
        (⟨.split (endian.word rest 0) (endian.word rest 4) tick,linktype,
          (rest.drop 16).take (endian.word rest 8).toNat⟩ :: ·) := by
  have hdata : slice rest 16 (16+(endian.word rest 8).toNat) =
      some ((rest.drop 16).take (endian.word rest 8).toNat) := by
    rw [slice_eq (by omega) h,List.drop_take]
    congr 2
    omega
  rw [readRecords,dif_pos (by omega),Endian.u32_eq (by omega),sliceFrom_eq (by omega),
    sliceFrom_eq (by omega)]
  simp only [Option.bind_eq_bind,Option.bind_some]
  rw [Endian.u32_drop (by omega),Option.bind_some,Endian.u32_drop (by omega),Option.bind_some,
    if_pos h,hdata,Option.bind_some]
  cases readRecords endian tick linktype (rest.drop (16+(endian.word rest 8).toNat)) <;> rfl

theorem readRecords_stop (h : 16 ≤ rest.length → rest.length < 16+(endian.word rest 8).toNat) :
    readRecords endian tick linktype rest = some [] := by
  rw [readRecords]
  by_cases h16 : 16 ≤ rest.length
  · rw [dif_pos h16,Endian.u32_eq (by omega),sliceFrom_eq (by omega),sliceFrom_eq (by omega)]
    simp only [Option.bind_eq_bind,Option.bind_some]
    rw [Endian.u32_drop (by omega),Option.bind_some,Endian.u32_drop (by omega),Option.bind_some,
      if_neg (Nat.not_le.mpr (h h16))]
    rfl
  · rw [dif_neg h16]
    rfl

theorem readBlocks_step (h12 : 12 ≤ (endian.word rest 4).toNat) (h : (endian.word rest 4).toNat ≤ rest.length) :
    readBlocks endian interfaces rest =
      (readBlock endian interfaces (endian.word rest 0)
        ((rest.drop 8).take ((endian.word rest 4).toNat-12))).bind fun r =>
          (readBlocks endian r.1 (rest.drop (endian.word rest 4).toNat)).map (r.2 ++ ·) := by
  have hbody : slice rest 8 ((endian.word rest 4).toNat-4) =
      some ((rest.drop 8).take ((endian.word rest 4).toNat-12)) := by
    rw [slice_eq (by omega) (by omega),List.drop_take]
    congr 2
  rw [readBlocks,dif_pos (by omega),Endian.u32_eq (by omega),sliceFrom_eq (by omega)]
  simp only [Option.bind_eq_bind,Option.bind_some]
  rw [Endian.u32_drop (by omega),Option.bind_some,dif_pos ⟨h12,h⟩,hbody,Option.bind_some]
  congr 1
  funext r
  cases readBlocks endian r.1 (rest.drop (endian.word rest 4).toNat) <;> rfl

theorem readBlocks_stop (h : 12 ≤ rest.length → 12 ≤ (endian.word rest 4).toNat →
    rest.length < (endian.word rest 4).toNat) : readBlocks endian interfaces rest = some [] := by
  rw [readBlocks]
  by_cases h12 : 12 ≤ rest.length
  · rw [dif_pos h12,Endian.u32_eq (by omega),sliceFrom_eq (by omega)]
    simp only [Option.bind_eq_bind,Option.bind_some]
    rw [Endian.u32_drop (by omega),Option.bind_some,
      dif_neg fun hle => absurd (h h12 hle.1) (Nat.not_lt.mpr hle.2)]
    rfl
  · rw [dif_neg h12]
    rfl

/-- An option that has a resolution byte, which is the first behind its length. -/
def Resolves (endian : Endian) (options : List UInt8) (raw : UInt8) : Prop :=
  endian.half options 0 = 9 ∧ 1 ≤ (endian.half options 2).toNat ∧ options[4]? = some raw

theorem tsresol_here {raw : UInt8} (h : Resolves endian b raw) : tsresol endian b = resolution raw := by
  obtain ⟨hcode,hlen,hraw⟩ := h
  have h5 : 4 < b.length := (List.getElem?_eq_some_iff.mp hraw).1
  have hvalue : (b.drop 4)[0]? = some raw := by rw [List.getElem?_drop,hraw]
  have hne : b.drop 4 ≠ [] := by
    rw [Ne,List.drop_eq_nil_iff]
    omega
  have h9 : (9 : UInt16) ≠ 0 := by decide
  rw [tsresol,dif_pos (by omega),Endian.u16_eq (by omega),sliceFrom_eq (by omega),sliceFrom_eq (by omega)]
  simp only [Option.bind_eq_bind,Option.bind_some]
  rw [Endian.u16_drop (by omega),Option.bind_some,hcode,if_neg h9,if_pos ⟨rfl,hlen,hne⟩,hvalue,
    Option.bind_some]

theorem tsresol_later (h4 : 4 ≤ b.length) (hcode : endian.half b 0 ≠ 0)
    (hno : ∀ raw, ¬Resolves endian b raw) :
    tsresol endian b = tsresol endian (b.drop (4+nextMultipleOf4 (endian.half b 2).toNat)) := by
  have hskip : ¬(endian.half b 0 = 9 ∧ 1 ≤ (endian.half b 2).toNat ∧ b.drop 4 ≠ []) := by
    rintro ⟨h9,hlen,hvalue⟩
    rw [Ne,List.drop_eq_nil_iff,Nat.not_le] at hvalue
    exact hno _ ⟨h9,hlen,List.getElem?_eq_getElem hvalue⟩
  rw [tsresol,dif_pos h4,Endian.u16_eq (by omega),sliceFrom_eq (by omega),sliceFrom_eq (by omega)]
  simp only [Option.bind_eq_bind,Option.bind_some]
  rw [Endian.u16_drop (by omega),Option.bind_some,if_neg hcode,if_neg hskip]

theorem tsresol_stop (h : 4 ≤ b.length → endian.half b 0 = 0) : tsresol endian b = some (.decimal 6) := by
  rw [tsresol]
  by_cases h4 : 4 ≤ b.length
  · rw [dif_pos h4,Endian.u16_eq (by omega),sliceFrom_eq (by omega),sliceFrom_eq (by omega)]
    simp only [Option.bind_eq_bind,Option.bind_some]
    rw [Endian.u16_drop (by omega),Option.bind_some,if_pos (h h4)]
    rfl
  · rw [dif_neg h4]
    rfl

end Fields

section Total

variable {endian : Endian} {interfaces : List Interface} {options body rest : List UInt8} {raw : UInt8}

/-- The options declare a resolution: the first that can, before the end of the options. -/
inductive Declares (endian : Endian) : List UInt8 → UInt8 → Prop
  | here {options : List UInt8} {raw : UInt8} (h : Resolves endian options raw) :
      Declares endian options raw
  | later {options : List UInt8} {raw : UInt8} (h4 : 4 ≤ options.length)
      (hcode : endian.half options 0 ≠ 0) (hno : ∀ raw, ¬Resolves endian options raw)
      (h : Declares endian (options.drop (4+nextMultipleOf4 (endian.half options 2).toNat)) raw) :
      Declares endian options raw

theorem tsresol_spec (endian : Endian) (options : List UInt8) :
    (∃ raw, Declares endian options raw ∧ tsresol endian options = resolution raw) ∨
      (∀ raw, ¬Declares endian options raw) ∧ tsresol endian options = some (.decimal 6) := by
  induction hn : options.length using Nat.strong_induction_on generalizing options with
  | _ n ih =>
    subst hn
    by_cases hraw : ∃ raw, Resolves endian options raw
    · obtain ⟨raw,hraw⟩ := hraw
      exact .inl ⟨raw,.here hraw,tsresol_here hraw⟩
    have hno : ∀ raw, ¬Resolves endian options raw := fun raw h => hraw ⟨raw,h⟩
    by_cases hmore : 4 ≤ options.length ∧ endian.half options 0 ≠ 0
    · obtain ⟨h4,hcode⟩ := hmore
      have hlt : (options.drop (4+nextMultipleOf4 (endian.half options 2).toNat)).length < options.length := by
        rw [List.length_drop]
        omega
      rw [tsresol_later h4 hcode hno]
      rcases ih _ hlt _ rfl with ⟨raw,hdecl,heq⟩|⟨hnone,heq⟩
      · exact .inl ⟨raw,.later h4 hcode hno hdecl,heq⟩
      · refine .inr ⟨fun raw hdecl => ?_,heq⟩
        cases hdecl with
        | here h => exact hno raw h
        | later _ _ _ h => exact hnone raw h
    · refine .inr ⟨fun raw hdecl => ?_,tsresol_stop fun h4 => ?_⟩
      · cases hdecl with
        | here h => exact hno raw h
        | later h4 hcode => exact hmore ⟨h4,hcode⟩
      · by_contra hcode
        exact hmore ⟨h4,hcode⟩

theorem Declares.unique {other : UInt8} (h : Declares endian options raw)
    (h' : Declares endian options other) : other = raw := by
  induction h with
  | here h =>
    cases h' with
    | here h' => exact Option.some.inj (h'.2.2.symm.trans h.2.2)
    | later _ _ hno => exact absurd h (hno _)
  | later _ _ hno _ ih =>
    cases h' with
    | here h' => exact absurd h' (hno _)
    | later _ _ _ h' => exact ih h'

theorem resolution_eq_none : resolution raw = none ↔ 192 ≤ raw.toNat := by
  have hall : ∀ i : Fin 256, resolution (UInt8.ofNat i) = none ↔ 192 ≤ i.val := by decide +kernel
  have hraw := hall ⟨raw.toNat,raw.toNat_lt⟩
  rwa [UInt8.ofNat_toNat] at hraw

/-- The unit of an interface fits into the word it is computed in. -/
def UnitFits (endian : Endian) (options : List UInt8) : Prop :=
  ∀ raw, Declares endian options raw → raw.toNat < 192

theorem tsresol_ne_none : tsresol endian options ≠ none ↔ UnitFits endian options := by
  rcases tsresol_spec endian options with ⟨raw,hdecl,heq⟩|⟨hnone,heq⟩
  · rw [heq,Ne,resolution_eq_none,Nat.not_le]
    exact ⟨fun hlt other hother => hdecl.unique hother ▸ hlt,fun h => h raw hdecl⟩
  · rw [heq]
    exact ⟨fun _ raw h => absurd h (hnone raw),fun _ => Option.some_ne_none _⟩

theorem readBlock_interface (h8 : 8 ≤ body.length) :
    readBlock endian interfaces 1 body = (tsresol endian (body.drop 8)).map fun tick =>
      (interfaces ++ [((endian.half body 0).toUInt32,tick)],[]) := by
  have htype : slice body 0 2 = some (body.take 2) := by rw [slice_eq (by omega) (by omega),List.drop_zero]
  have hhalf : endian.u16 (body.take 2) = some (endian.half body 0) := by
    rw [Endian.u16_eq (by rw [List.length_take]; omega),Endian.half,Endian.half,List.drop_zero,
      List.drop_zero,List.take_take]
    rfl
  rw [readBlock,if_pos rfl,htype,sliceFrom_eq h8]
  simp only [Option.bind_eq_bind,Option.bind_some]
  rw [hhalf,Option.bind_some]
  cases tsresol endian (body.drop 8) <;> rfl

theorem readBlock_short (h8 : body.length < 8) : readBlock endian interfaces 1 body = none := by
  rw [readBlock,if_pos rfl,sliceFrom,if_neg (by omega)]
  cases slice body 0 2 with
  | none => rfl
  | some a =>
    simp only [Option.bind_eq_bind,Option.bind_some,Option.bind_none]
    cases endian.u16 a <;> rfl

theorem readBlock_packet (h20 : 20 ≤ body.length) :
    readBlock endian interfaces 6 body = some (interfaces,
      if 20+(endian.word body 12).toNat ≤ body.length then
        [⟨.ticks ((endian.word body 4).toUInt64 <<< 32 ||| (endian.word body 8).toUInt64)
            (interfaces[(endian.word body 0).toNat]?.getD (1,.decimal 6)).2,
          (interfaces[(endian.word body 0).toNat]?.getD (1,.decimal 6)).1,
          (body.drop 20).take (endian.word body 12).toNat⟩]
      else []) := by
  have hslice {n : ℕ} (hn : n+4 ≤ 20) : slice body n (n+4) = some ((body.take (n+4)).drop n) :=
    slice_eq (by omega) (by omega)
  have h6 : (6 : UInt32) ≠ 1 := by decide
  rw [readBlock,if_neg h6,if_pos ⟨rfl,h20⟩,hslice (n := 0) (by omega),hslice (n := 4) (by omega),
    hslice (n := 8) (by omega),hslice (n := 12) (by omega)]
  simp only [Option.bind_eq_bind,Option.bind_some]
  rw [Endian.u32_slice (by omega),Option.bind_some,Endian.u32_slice (by omega),Option.bind_some,
    Endian.u32_slice (by omega),Option.bind_some,Endian.u32_slice (by omega),Option.bind_some]
  by_cases h : 20+(endian.word body 12).toNat ≤ body.length
  · have hdata : slice body 20 (20+(endian.word body 12).toNat) =
        some ((body.drop 20).take (endian.word body 12).toNat) := by
      rw [slice_eq (by omega) h,List.drop_take]
      congr 2
      omega
    rw [if_pos h,if_pos h,hdata]
    rfl
  · rw [if_neg h,if_neg h]
    rfl

theorem readBlock_skip {blockType : UInt32} (h1 : blockType ≠ 1) (h6 : blockType = 6 → body.length < 20) :
    readBlock endian interfaces blockType body = some (interfaces,[]) := by
  rw [readBlock,if_neg h1,if_neg fun h => absurd (h6 h.1) (Nat.not_lt.mpr h.2)]
  rfl

theorem readBlock_other {blockType : UInt32} (h1 : blockType ≠ 1) :
    ∃ frames, readBlock endian interfaces blockType body = some (interfaces,frames) := by
  by_cases h6 : blockType = 6 ∧ 20 ≤ body.length
  · obtain ⟨rfl,h20⟩ := h6
    exact ⟨_,readBlock_packet h20⟩
  · exact ⟨[],readBlock_skip h1 fun h => Nat.lt_of_not_le fun h20 => h6 ⟨h,h20⟩⟩

/-- What a block has to be for the reader to go on behind it. -/
def BlockFits (endian : Endian) (blockType : UInt32) (body : List UInt8) : Prop :=
  blockType = 1 → 8 ≤ body.length ∧ UnitFits endian (body.drop 8)

theorem readBlock_ne_none {blockType : UInt32} :
    readBlock endian interfaces blockType body ≠ none ↔ BlockFits endian blockType body := by
  by_cases h1 : blockType = 1
  · subst h1
    by_cases h8 : 8 ≤ body.length
    · rw [readBlock_interface h8,Ne,Option.map_eq_none_iff,← Ne,tsresol_ne_none]
      exact ⟨fun h _ => ⟨h8,h⟩,fun h => (h rfl).2⟩
    · rw [readBlock_short (by omega)]
      exact ⟨fun h => absurd rfl h,fun h => absurd (h rfl).1 h8⟩
  · obtain ⟨frames,heq⟩ := readBlock_other h1
    rw [heq]
    exact ⟨fun _ h => absurd h h1,fun _ => Option.some_ne_none _⟩

/-- The types and the bodies of the blocks, as far as the loop gets. -/
def blocks (endian : Endian) (rest : List UInt8) : List (UInt32 × List UInt8) :=
  if _ : 12 ≤ (endian.word rest 4).toNat ∧ (endian.word rest 4).toNat ≤ rest.length then
    (endian.word rest 0,(rest.drop 8).take ((endian.word rest 4).toNat-12)) ::
      blocks endian (rest.drop (endian.word rest 4).toNat)
  else []
termination_by rest.length
decreasing_by
  rw [List.length_drop]
  omega

theorem readBlocks_ne_none : readBlocks endian interfaces rest ≠ none ↔
    ∀ b ∈ blocks endian rest, BlockFits endian b.1 b.2 := by
  induction hn : rest.length using Nat.strong_induction_on generalizing rest interfaces with
  | _ n ih =>
    subst hn
    rw [blocks]
    by_cases h : 12 ≤ (endian.word rest 4).toNat ∧ (endian.word rest 4).toNat ≤ rest.length
    · have hlt : (rest.drop (endian.word rest 4).toNat).length < rest.length := by
        rw [List.length_drop]
        omega
      rw [dif_pos h,readBlocks_step h.1 h.2,List.forall_mem_cons,← readBlock_ne_none]
      cases readBlock endian interfaces (endian.word rest 0)
          ((rest.drop 8).take ((endian.word rest 4).toNat-12)) with
      | none => simp
      | some r =>
        rw [Option.bind_some,Ne,Option.map_eq_none_iff,← Ne,ih _ hlt rfl]
        simp
    · rw [dif_neg h,readBlocks_stop fun _ h12 => Nat.lt_of_not_le fun hle => h ⟨h12,hle⟩]
      simp

theorem readRecords_ne_none (tick : Tick) (linktype : UInt32) :
    readRecords endian tick linktype rest ≠ none := by
  induction hn : rest.length using Nat.strong_induction_on generalizing rest with
  | _ n ih =>
    subst hn
    by_cases h : 16+(endian.word rest 8).toNat ≤ rest.length
    · have hlt : (rest.drop (16+(endian.word rest 8).toNat)).length < rest.length := by
        rw [List.length_drop]
        omega
      rw [readRecords_step h,Ne,Option.map_eq_none_iff]
      exact ih _ hlt rfl
    · rw [readRecords_stop fun _ => Nat.lt_of_not_le h]
      exact Option.some_ne_none _

theorem readClassic_unknown {bytes : List UInt8} {other : UInt32} (h24 : 24 ≤ bytes.length)
    (h : readMagic (Endian.little.word bytes 0) = .error other) :
    readClassic bytes = some (.error ("not a pcap file (magic " ++ hexWord other ++ ")")) := by
  rw [readClassic,if_neg (by omega),Endian.u32_eq (by omega)]
  simp only [Option.bind_eq_bind,Option.bind_some,h]
  rfl

theorem readClassic_known {bytes : List UInt8} {tick : Tick} (h24 : 24 ≤ bytes.length)
    (h : readMagic (Endian.little.word bytes 0) = .ok (endian,tick)) :
    readClassic bytes = (readRecords endian tick (endian.word bytes 20) (bytes.drop 24)).map .ok := by
  have htype : slice bytes 20 24 = some ((bytes.take (20+4)).drop 20) := slice_eq (by omega) h24
  rw [readClassic,if_neg (by omega),Endian.u32_eq (by omega)]
  simp only [Option.bind_eq_bind,Option.bind_some,h,htype]
  rw [Endian.u32_slice h24,Option.bind_some]
  cases readRecords endian tick (endian.word bytes 20) (bytes.drop 24) <;> rfl

theorem readClassic_ne_none (bytes : List UInt8) : readClassic bytes ≠ none := by
  by_cases h24 : 24 ≤ bytes.length
  · cases hmagic : readMagic (Endian.little.word bytes 0) with
    | error other =>
      rw [readClassic_unknown h24 hmagic]
      exact Option.some_ne_none _
    | ok r =>
      rw [readClassic_known h24 hmagic,Ne,Option.map_eq_none_iff]
      exact readRecords_ne_none r.2 _
  · rw [readClassic,if_pos (by omega)]
    exact Option.some_ne_none _

def IsPcapng (bytes : List UInt8) : Prop :=
  4 ≤ bytes.length ∧
    (Endian.little.word bytes 0 = PCAPNG_SHB ∨ swapBytes (Endian.little.word bytes 0) = PCAPNG_SHB)

/-- A pcapng file has its byte-order magic; and where that is known, each interface block that
the loop comes to has its fixed fields, and a unit that fits. -/
def Readable (bytes : List UInt8) : Prop :=
  IsPcapng bytes → 12 ≤ bytes.length ∧ ∀ endian, byteOrder (Endian.little.word bytes 8) = some endian →
    ∀ b ∈ blocks endian bytes, BlockFits endian b.1 b.2

theorem readPcapng_unknown {bytes : List UInt8} (h12 : 12 ≤ bytes.length)
    (h : byteOrder (Endian.little.word bytes 8) = none) :
    readPcapng bytes = some (.error "pcapng byte-order magic not recognized") := by
  rw [readPcapng,sliceFrom_eq (by omega),Option.bind_eq_bind,Option.bind_some,
    Endian.u32_drop (by omega)]
  simp only [Option.bind_eq_bind,Option.bind_some,h]
  rfl

theorem readPcapng_known {bytes : List UInt8} (h12 : 12 ≤ bytes.length)
    (h : byteOrder (Endian.little.word bytes 8) = some endian) :
    readPcapng bytes = (readBlocks endian [] bytes).map .ok := by
  rw [readPcapng,sliceFrom_eq (by omega),Option.bind_eq_bind,Option.bind_some,
    Endian.u32_drop (by omega)]
  simp only [Option.bind_eq_bind,Option.bind_some,h]
  cases readBlocks endian [] bytes <;> rfl

theorem readPcapng_short {bytes : List UInt8} (h12 : bytes.length < 12) : readPcapng bytes = none := by
  rw [readPcapng,sliceFrom,Option.bind_eq_bind]
  by_cases h8 : 8 ≤ bytes.length
  · have hcut : ByteLayout.read (bytes.drop 8) 0 4 = none := by
      rw [ByteLayout.read,if_neg (by rw [List.length_drop]; omega)]
    rw [if_pos h8,Option.bind_some,Endian.u32.eq_1,hcut]
    rfl
  · rw [if_neg h8]
    rfl

theorem readPcapng_ne_none (bytes : List UInt8) : readPcapng bytes ≠ none ↔
    12 ≤ bytes.length ∧ ∀ endian, byteOrder (Endian.little.word bytes 8) = some endian →
      ∀ b ∈ blocks endian bytes, BlockFits endian b.1 b.2 := by
  by_cases h12 : 12 ≤ bytes.length
  · cases horder : byteOrder (Endian.little.word bytes 8) with
    | none =>
      rw [readPcapng_unknown h12 horder]
      exact ⟨fun _ => ⟨h12,fun e he => (by cases he)⟩,fun _ => Option.some_ne_none _⟩
    | some endian =>
      rw [readPcapng_known h12 horder,Ne,Option.map_eq_none_iff,← Ne,readBlocks_ne_none]
      exact ⟨fun h => ⟨h12,fun e he => Option.some.inj he ▸ h⟩,fun h => h.2 endian rfl⟩
  · rw [readPcapng_short (Nat.lt_of_not_le h12)]
    exact ⟨fun h => absurd rfl h,fun h => absurd h.1 h12⟩

/-- The reader returns on a file if and only if the file is readable. -/
theorem read_returns_iff (bytes : List UInt8) : read bytes ≠ none ↔ Readable bytes := by
  rw [read,Readable]
  by_cases h4 : bytes.length < 4
  · rw [if_pos h4]
    exact ⟨fun _ h => absurd h.1 (by omega),fun _ => Option.some_ne_none _⟩
  rw [if_neg h4,Endian.u32_eq (by omega),Option.bind_eq_bind,Option.bind_some]
  by_cases hhead : Endian.little.word bytes 0 = PCAPNG_SHB ∨ swapBytes (Endian.little.word bytes 0) = PCAPNG_SHB
  · rw [if_pos hhead,readPcapng_ne_none]
    exact ⟨fun h _ => h,fun h => h ⟨by omega,hhead⟩⟩
  · rw [if_neg hhead]
    exact ⟨fun _ h => absurd h.2 hhead,fun _ => readClassic_ne_none bytes⟩

/-- A section header in little-endian order. -/
def sectionHeader : List UInt8 :=
  [0x0a,0x0d,0x0d,0x0a,28,0,0,0,0x4d,0x3c,0x2b,0x1a,1,0,0,0,
    255,255,255,255,255,255,255,255,28,0,0,0]

/-- A file of the magic number alone; an interface block with four bytes; one whose unit is `2^(-64)`. -/
theorem unreadable_files :
    read [0x0a,0x0d,0x0d,0x0a] = none ∧
    read (sectionHeader ++ [1,0,0,0,16,0,0,0,1,0,0,0,16,0,0,0]) = none ∧
    read (sectionHeader ++ [1,0,0,0,28,0,0,0,1,0,0,0,255,255,0,0,9,0,1,0,0xc0,0,0,0,28,0,0,0]) = none := by
  decide +kernel

end Total

end Pcap
end Capture
end Robocol
