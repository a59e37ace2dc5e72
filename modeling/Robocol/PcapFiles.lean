import Robocol.Pcap

/-! Capture files as their writers leave them, whole or cut off. A classic file is a header
and records, a section of a pcapng file is a sequence of blocks; a reader that loops over
what is there in full finds exactly the records that end before the cut. -/
namespace Robocol
namespace Capture
namespace Pcap

open ByteLayout

section Fields

/-- A number in `w` bytes. -/
def Endian.bytes : Endian → ℕ → ℕ → List UInt8
  | .little, w, n => (toBE w n).reverse
  | .big, w, n => toBE w n

variable {endian : Endian} {b rest : List UInt8} {i w : ℕ}

@[simp] theorem Endian.length_bytes (endian : Endian) (w n : ℕ) : (endian.bytes w n).length = w := by
  cases endian <;> simp [Endian.bytes]

theorem Endian.value_bytes (endian : Endian) (w n : ℕ) : endian.value (endian.bytes w n) = n%256^w := by
  cases endian with
  | little => rw [Endian.value,Endian.bytes,List.reverse_reverse,ofBE_toBE]
  | big => exact ofBE_toBE w n

theorem take_at {xs : List UInt8} (h : At b i (xs ++ rest)) (hx : xs.length = w) : (b.drop i).take w = xs := by
  rw [h.2,← hx,List.take_left]

theorem Endian.word_take {k : ℕ} (h : i+4 ≤ k) : endian.word (b.take k) i = endian.word b i := by
  rw [Endian.word,Endian.word,List.drop_take,List.take_take,Nat.min_eq_left (by omega)]

/-- A word that stands somewhere reads as it does alone, in either byte order. -/
theorem Endian.word_of_at {xs : List UInt8} (h : At b i (xs ++ rest)) (hx : xs.length = 4) :
    endian.word b i = endian.word xs 0 := by
  rw [Endian.word,Endian.word,take_at h hx,List.drop_zero,List.take_of_length_le (by omega)]

theorem Endian.word_at {n : UInt32} (h : At b i (endian.bytes 4 n.toNat ++ rest)) : endian.word b i = n := by
  have hlt : n.toNat < 256^4 := n.toNat_lt
  rw [Endian.word,take_at h (Endian.length_bytes _ _ _),Endian.value_bytes,Nat.mod_eq_of_lt hlt,
    UInt32.ofNat_toNat]

theorem Endian.toNat_word_at {n : ℕ} (hn : n < 2^32) (h : At b i (endian.bytes 4 n ++ rest)) :
    (endian.word b i).toNat = n := by
  have hlt : n < 256^4 := hn
  rw [Endian.word,take_at h (Endian.length_bytes _ _ _),Endian.value_bytes,Nat.mod_eq_of_lt hlt,
    UInt32.toNat_ofNat',Nat.mod_eq_of_lt hn]

theorem Endian.half_at {n : UInt16} (h : At b i (endian.bytes 2 n.toNat ++ rest)) : endian.half b i = n := by
  have hlt : n.toNat < 256^2 := n.toNat_lt
  rw [Endian.half,take_at h (Endian.length_bytes _ _ _),Endian.value_bytes,Nat.mod_eq_of_lt hlt,
    UInt16.ofNat_toNat]

end Fields

section Cuts

/-- The frames that end at or before a cut, of frames with the places where they end. -/
def upTo (k : ℕ) (frames : List (ℕ × Captured)) : List Captured := (frames.filter (·.1 ≤ k)).map Prod.snd

@[simp] theorem upTo_nil (k : ℕ) : upTo k [] = [] := rfl

theorem upTo_append (k : ℕ) (xs ys : List (ℕ × Captured)) : upTo k (xs ++ ys) = upTo k xs ++ upTo k ys := by
  rw [upTo,List.filter_append,List.map_append,upTo,upTo]

theorem upTo_cons_of_le {k e : ℕ} (h : e ≤ k) (frame : Captured) (xs : List (ℕ × Captured)) :
    upTo k ((e,frame) :: xs) = frame :: upTo k xs := by
  rw [upTo,List.filter_cons_of_pos (by simpa using h),List.map_cons,upTo]

theorem upTo_eq_nil {k : ℕ} {xs : List (ℕ × Captured)} (h : ∀ x ∈ xs, k < x.1) : upTo k xs = [] := by
  rw [upTo,List.filter_eq_nil_iff.mpr fun x hx => by simpa using h x hx,List.map_nil]

theorem upTo_eq_map {k : ℕ} {xs : List (ℕ × Captured)} (h : ∀ x ∈ xs, x.1 ≤ k) : upTo k xs = xs.map Prod.snd := by
  rw [upTo,List.filter_eq_self.mpr fun x hx => by simpa using h x hx]

end Cuts

section Records

/-- A record of a classic file. -/
structure Record where
  tsSec : UInt32
  tsFrac : UInt32
  origLen : UInt32
  data : List UInt8
  fits : data.length < 2^32

def Record.inclLen (r : Record) : UInt32 := UInt32.ofNat r.data.length

def Record.bytes (endian : Endian) (r : Record) : List UInt8 :=
  endian.bytes 4 r.tsSec.toNat ++ (endian.bytes 4 r.tsFrac.toNat ++
    (endian.bytes 4 r.inclLen.toNat ++ (endian.bytes 4 r.origLen.toNat ++ r.data)))

def Record.frame (tick : Tick) (linktype : UInt32) (r : Record) : Captured :=
  ⟨.split r.tsSec r.tsFrac tick,linktype,r.data⟩

/-- The frames of records from a place of the file on, with the places where they end. -/
def recordEnds (tick : Tick) (linktype : UInt32) : ℕ → List Record → List (ℕ × Captured)
  | _, [] => []
  | off, r :: rs => (off+16+r.data.length,r.frame tick linktype) ::
      recordEnds tick linktype (off+16+r.data.length) rs

variable {endian : Endian} {tick : Tick} {linktype : UInt32} {r : Record} {rs : List Record} {off n : ℕ}
  {rest : List UInt8}

theorem Record.inclLen_toNat (r : Record) : r.inclLen.toNat = r.data.length := by
  rw [Record.inclLen,UInt32.toNat_ofNat',Nat.mod_eq_of_lt r.fits]

@[simp] theorem Record.length_bytes (endian : Endian) (r : Record) : (r.bytes endian).length = 16+r.data.length := by
  simp only [Record.bytes,List.length_append,Endian.length_bytes]
  omega

/-- The fields of a record are where the reader looks for them. -/
theorem Record.fields (h : At rest 0 (r.bytes endian ++ b)) :
    endian.word rest 0 = r.tsSec ∧ endian.word rest 4 = r.tsFrac ∧ endian.word rest 8 = r.inclLen ∧
      At rest 16 (r.data ++ b) := by
  simp only [Record.bytes,List.append_assoc] at h
  have h4 := h.next (Endian.length_bytes _ _ _)
  have h8 := h4.next (Endian.length_bytes _ _ _)
  have h12 := h8.next (Endian.length_bytes _ _ _)
  exact ⟨Endian.word_at h,Endian.word_at h4,Endian.word_at h8,h12.next (Endian.length_bytes _ _ _)⟩

theorem readRecords_append (r : Record) (rest : List UInt8) :
    readRecords endian tick linktype (r.bytes endian ++ rest) =
      (readRecords endian tick linktype rest).map (r.frame tick linktype :: ·) := by
  have hat : At (r.bytes endian ++ rest) 0 (r.bytes endian ++ rest) := ⟨Nat.zero_le _,rfl⟩
  obtain ⟨hsec,hfrac,hlen,hdata⟩ := Record.fields hat
  have hle : 16+(endian.word (r.bytes endian ++ rest) 8).toNat ≤ (r.bytes endian ++ rest).length := by
    rw [hlen,r.inclLen_toNat,List.length_append,r.length_bytes]
    omega
  have hdrop : (r.bytes endian ++ rest).drop (16+r.data.length) = rest := by
    rw [← r.length_bytes endian,List.drop_left]
  rw [readRecords_step hle,hsec,hfrac,hlen,r.inclLen_toNat,hdrop,take_at hdata rfl,Record.frame]

/-- A record that is cut off ends the loop. -/
theorem readRecords_cut (h : n < (r.bytes endian).length) :
    readRecords endian tick linktype ((r.bytes endian).take n) = some [] := by
  refine readRecords_stop fun h16 => ?_
  rw [List.length_take] at h16 ⊢
  have hat : At (r.bytes endian) 0 (r.bytes endian ++ []) := ⟨Nat.zero_le _,(List.append_nil _).symm⟩
  rw [Endian.word_take (by omega),(Record.fields hat).2.2.1,r.inclLen_toNat]
  rw [r.length_bytes] at h
  omega

theorem lt_recordEnds : ∀ x ∈ recordEnds tick linktype off rs, off < x.1 := by
  induction rs generalizing off with
  | nil => simp [recordEnds]
  | cons r rs ih =>
    intro x hx
    rcases List.mem_cons.mp hx with rfl|hx
    · simp only
      omega
    · have hlt := ih x hx
      omega

theorem recordEnds_le : ∀ x ∈ recordEnds tick linktype off rs,
    x.1 ≤ off+(rs.flatMap (Record.bytes endian)).length := by
  induction rs generalizing off with
  | nil => simp [recordEnds]
  | cons r rs ih =>
    intro x hx
    rw [List.flatMap_cons,List.length_append,r.length_bytes]
    rcases List.mem_cons.mp hx with rfl|hx
    · simp only
      omega
    · have hle := ih x hx
      omega

/-- Of a sequence of records that is cut off, those are read that end at or before the cut. -/
theorem readRecords_take (off n : ℕ) (rs : List Record) :
    readRecords endian tick linktype ((rs.flatMap (Record.bytes endian)).take n) =
      some (upTo (off+n) (recordEnds tick linktype off rs)) := by
  induction rs generalizing off n with
  | nil => simp [recordEnds,readRecords_stop]
  | cons r rs ih =>
    rw [List.flatMap_cons,recordEnds]
    by_cases hn : (r.bytes endian).length ≤ n
    · have hend : off+16+r.data.length ≤ off+n := by
        rw [r.length_bytes] at hn
        omega
      have hoff : off+16+r.data.length+(n-(r.bytes endian).length) = off+n := by
        rw [r.length_bytes] at hn ⊢
        omega
      rw [List.take_append,List.take_of_length_le hn,readRecords_append,
        ih (off+16+r.data.length),hoff,upTo_cons_of_le hend,Option.map_some]
    · have hcut : off+n < off+16+r.data.length := by
        rw [r.length_bytes] at hn
        omega
      rw [List.take_append_of_le_length (by omega),readRecords_cut (by omega),upTo_eq_nil]
      intro x hx
      rcases List.mem_cons.mp hx with rfl|hx
      · exact hcut
      · exact hcut.trans (lt_recordEnds x hx)

end Records

/-- A classic file. The header fields between the magic number and the link type are free. -/
structure ClassicFile where
  endian : Endian
  nanos : Bool
  fixed : List UInt8
  linktype : UInt32
  records : List Record
  fixed_length : fixed.length = 16

namespace ClassicFile

def magic (file : ClassicFile) : UInt32 := if file.nanos then PCAP_MAGIC_NS else PCAP_MAGIC_US

def tick (file : ClassicFile) : Tick := if file.nanos then .decimal 9 else .decimal 6

def header (file : ClassicFile) : List UInt8 :=
  file.endian.bytes 4 file.magic.toNat ++ (file.fixed ++ file.endian.bytes 4 file.linktype.toNat)

def bytes (file : ClassicFile) : List UInt8 :=
  file.header ++ file.records.flatMap (Record.bytes file.endian)

def frameEnds (file : ClassicFile) : List (ℕ × Captured) := recordEnds file.tick file.linktype 24 file.records

@[simp] theorem length_header (file : ClassicFile) : file.header.length = 24 := by
  simp [header,file.fixed_length]

/-- The reader knows the magic number of either byte order and unit, and no other format has it. -/
theorem magic_read (endian : Endian) (nanos : Bool) :
    let head := Endian.little.word (endian.bytes 4 (if nanos then PCAP_MAGIC_NS else PCAP_MAGIC_US).toNat) 0
    readMagic head = .ok (endian,if nanos then .decimal 9 else .decimal 6) ∧
      ¬(head = PCAPNG_SHB ∨ swapBytes head = PCAPNG_SHB) := by
  cases endian <;> cases nanos <;> decide +kernel

theorem header_fields (file : ClassicFile) {b rest : List UInt8} (h : At b 0 (file.header ++ rest)) :
    Endian.little.word b 0 = Endian.little.word (file.endian.bytes 4 file.magic.toNat) 0 ∧
      file.endian.word b 20 = file.linktype ∧ At b 24 rest := by
  simp only [header,List.append_assoc] at h
  have h4 := h.next (Endian.length_bytes _ _ _)
  have h20 := h4.next file.fixed_length
  exact ⟨Endian.word_of_at h (Endian.length_bytes _ _ _),Endian.word_at h20,
    h20.next (Endian.length_bytes _ _ _)⟩

theorem read_cut (file : ClassicFile) (k : ℕ) (hk : 24 ≤ k) :
    read (file.bytes.take k) = some (.ok (upTo k file.frameEnds)) := by
  obtain ⟨n,rfl⟩ := Nat.exists_eq_add_of_le hk
  have hcut : file.bytes.take (24+n) =
      file.header ++ (file.records.flatMap (Record.bytes file.endian)).take n := by
    rw [bytes,List.take_append,file.length_header,List.take_of_length_le (by simp),Nat.add_sub_cancel_left]
  obtain ⟨hhead,htype,hrest⟩ := file.header_fields (b := file.bytes.take (24+n)) ⟨Nat.zero_le _,hcut⟩
  have h24 : 24 ≤ (file.bytes.take (24+n)).length := hrest.1
  obtain ⟨hmagic,hno⟩ := magic_read file.endian file.nanos
  rw [read,if_neg (by omega),Endian.u32_eq (by omega),Option.bind_eq_bind,Option.bind_some,hhead,magic,
    if_neg hno,readClassic_known h24 ((congrArg readMagic hhead).trans hmagic),htype,hrest.2,
    readRecords_take 24]
  rfl

end ClassicFile

section Blocks

variable {endian : Endian} {table : List Interface} {options b body rest : List UInt8} {tick : Tick}
  {kind : UInt32} {n off : ℕ}

/-- The unit of an interface: that of the resolution it declares, else the microsecond. -/
inductive HasUnit (endian : Endian) (options : List UInt8) : Tick → Prop
  | declared {raw : UInt8} {tick : Tick} (h : Declares endian options raw) (ht : resolution raw = some tick) :
      HasUnit endian options tick
  | microseconds (h : ∀ raw, ¬Declares endian options raw) : HasUnit endian options (.decimal 6)

theorem HasUnit.tsresol (h : HasUnit endian options tick) : tsresol endian options = some tick := by
  rcases tsresol_spec endian options with ⟨raw,hdecl,heq⟩|⟨hnone,heq⟩
  · cases h with
    | declared h ht => rw [heq,h.unique hdecl,ht]
    | microseconds h => exact absurd hdecl (h raw)
  · cases h with
    | declared h => exact absurd h (hnone _)
    | microseconds => exact heq

def blockBytes (endian : Endian) (kind : UInt32) (body : List UInt8) : List UInt8 :=
  endian.bytes 4 kind.toNat ++ (endian.bytes 4 (body.length+12) ++
    (body ++ endian.bytes 4 (body.length+12)))

@[simp] theorem length_blockBytes (endian : Endian) (kind : UInt32) (body : List UInt8) :
    (blockBytes endian kind body).length = body.length+12 := by
  simp only [blockBytes,List.length_append,Endian.length_bytes]
  omega

theorem blockBytes_fields (hfits : body.length+12 < 2^32) (h : At b 0 (blockBytes endian kind body ++ rest)) :
    endian.word b 0 = kind ∧ (endian.word b 4).toNat = body.length+12 ∧ (b.drop 8).take body.length = body ∧
      b.drop (body.length+12) = rest := by
  simp only [blockBytes,List.append_assoc] at h
  have h4 := h.next (Endian.length_bytes _ _ _)
  have h8 := h4.next (Endian.length_bytes _ _ _)
  have hend := (h8.next rfl).next (Endian.length_bytes endian 4 _)
  refine ⟨Endian.word_at h,Endian.toNat_word_at hfits h4,take_at h8 rfl,?_⟩
  rw [← hend.2]
  congr 1
  omega

/-- A whole block is handled, and the loop goes on behind it. -/
theorem readBlocks_append (hfits : body.length+12 < 2^32) (rest : List UInt8) :
    readBlocks endian table (blockBytes endian kind body ++ rest) =
      (readBlock endian table kind body).bind fun r => (readBlocks endian r.1 rest).map (r.2 ++ ·) := by
  obtain ⟨hkind,hlen,hbody,hrest⟩ := blockBytes_fields (b := blockBytes endian kind body ++ rest)
    hfits ⟨Nat.zero_le _,rfl⟩
  rw [readBlocks_step (by omega) (by rw [hlen,List.length_append,length_blockBytes]; omega),hkind,hlen,
    Nat.add_sub_cancel,hbody,hrest]

/-- A block that is cut off ends the loop. -/
theorem readBlocks_cut (hfits : body.length+12 < 2^32) (h : n < (blockBytes endian kind body).length) :
    readBlocks endian table ((blockBytes endian kind body).take n) = some [] := by
  refine readBlocks_stop fun h12 _ => ?_
  rw [List.length_take] at h12 ⊢
  have hat : At (blockBytes endian kind body) 0 (blockBytes endian kind body ++ []) :=
    ⟨Nat.zero_le _,(List.append_nil _).symm⟩
  obtain ⟨-,hlen,-,-⟩ := blockBytes_fields hfits hat
  rw [Endian.word_take (by omega),hlen]
  rw [length_blockBytes] at h
  omega

end Blocks

section Options

/-- An option of an interface block. -/
structure Opt where
  code : UInt16
  value : List UInt8
  code_ne : code ≠ 0
  fits : value.length < 2^16

/-- An option is padded to a multiple of four bytes. -/
def Opt.bytes (endian : Endian) (o : Opt) : List UInt8 :=
  endian.bytes 2 o.code.toNat ++ (endian.bytes 2 o.value.length ++
    (o.value ++ List.replicate (nextMultipleOf4 o.value.length-o.value.length) 0))

/-- The resolution an option declares, if it does. -/
def Opt.resolution? (o : Opt) : Option UInt8 := if o.code = 9 then o.value.head? else none

variable {endian : Endian} {b closing rest : List UInt8} {o : Opt} {os : List Opt} {raw : UInt8}

theorem le_nextMultipleOf4 (n : ℕ) : n ≤ nextMultipleOf4 n := by
  rw [nextMultipleOf4]
  omega

theorem Opt.fields (h : At b 0 (o.bytes endian ++ rest)) :
    endian.half b 0 = o.code ∧ (endian.half b 2).toNat = o.value.length ∧
      (o.value ≠ [] → b[4]? = o.value.head?) ∧ 4 ≤ b.length ∧
      b.drop (4+nextMultipleOf4 o.value.length) = rest := by
  simp only [Opt.bytes,List.append_assoc] at h
  have hlen : (UInt16.ofNat o.value.length).toNat = o.value.length := by
    rw [UInt16.toNat_ofNat',Nat.mod_eq_of_lt o.fits]
  have h2 := h.next (Endian.length_bytes _ _ _)
  have h4 := h2.next (Endian.length_bytes _ _ _)
  have hend := (h4.next rfl).next (List.length_replicate ..)
  have hpad := le_nextMultipleOf4 o.value.length
  refine ⟨Endian.half_at h,?_,fun hne => ?_,h4.1,?_⟩
  · rw [← hlen] at h2
    rw [Endian.half_at h2,hlen]
  · obtain ⟨x,xs,hx⟩ := List.exists_cons_of_ne_nil hne
    have hdrop : (b.drop 4)[0]? = some x := by
      rw [h4.2,hx]
      rfl
    rw [List.getElem?_drop] at hdrop
    rw [hx,List.head?_cons]
    exact hdrop
  · rw [← hend.2]
    congr 1
    omega

theorem Opt.resolves_iff (h : At b 0 (o.bytes endian ++ rest)) :
    Resolves endian b raw ↔ o.resolution? = some raw := by
  obtain ⟨hcode,hlen,hvalue,-,-⟩ := Opt.fields h
  rw [Resolves,hcode,hlen,Opt.resolution?]
  by_cases h9 : o.code = 9
  · rw [if_pos h9]
    by_cases hne : o.value = []
    · simp [hne]
    · rw [hvalue hne]
      exact ⟨fun h => h.2.2,fun h => ⟨h9,List.length_pos_of_ne_nil hne,h⟩⟩
  · rw [if_neg h9]
    exact ⟨fun h => absurd h.1 h9,fun h => absurd h.symm (Option.some_ne_none raw)⟩

/-- Written options declare the resolution of the first of them that has one. What closes them is
the end of the options, or too short for an option. -/
theorem declares_iff (hclosing : 4 ≤ closing.length → endian.half closing 0 = 0) :
    Declares endian (os.flatMap (Opt.bytes endian) ++ closing) raw ↔
      os.findSome? Opt.resolution? = some raw := by
  induction os with
  | nil =>
    refine ⟨fun h => ?_,fun h => absurd h.symm (Option.some_ne_none raw)⟩
    have h9 : (9 : UInt16) ≠ 0 := by decide
    cases h with
    | here h =>
      have h5 := (List.getElem?_eq_some_iff.mp h.2.2).1
      exact absurd (h.1.symm.trans (hclosing (Nat.le_of_lt h5))) h9
    | later h4 hcode => exact absurd (hclosing h4) hcode
  | cons o os ih =>
    have hat : At ((o :: os).flatMap (Opt.bytes endian) ++ closing) 0
        (o.bytes endian ++ (os.flatMap (Opt.bytes endian) ++ closing)) :=
      ⟨Nat.zero_le _,by rw [List.flatMap_cons,List.append_assoc,List.drop_zero]⟩
    obtain ⟨hcode,hlen,-,h4,hrest⟩ := Opt.fields hat
    rw [← hlen] at hrest
    rw [List.findSome?_cons]
    cases hraw : o.resolution? with
    | none =>
      have hno : ∀ raw, ¬Resolves endian ((o :: os).flatMap (Opt.bytes endian) ++ closing) raw := by
        intro raw h
        rw [Opt.resolves_iff hat,hraw] at h
        cases h
      rw [← ih]
      constructor
      · intro h
        cases h with
        | here h => exact absurd h (hno raw)
        | later _ _ _ h =>
          rw [hrest] at h
          exact h
      · exact fun h => .later h4 (hcode ▸ o.code_ne) hno (hrest.symm ▸ h)
    | some other =>
      have hdecl : Declares endian ((o :: os).flatMap (Opt.bytes endian) ++ closing) other :=
        .here ((Opt.resolves_iff hat).mpr hraw)
      exact ⟨fun h => congrArg some (h.unique hdecl),fun h => Option.some.inj h ▸ hdecl⟩

/-- A resolution without the high bit counts decimals, and fits. -/
theorem resolution_decimal (h : raw.toNat < 128) : resolution raw = some (.decimal raw.toNat) := by
  have hall : ∀ i : Fin 256, i.val < 128 → resolution (UInt8.ofNat i) = some (.decimal i.val) := by
    decide +kernel
  have hraw := hall ⟨raw.toNat,raw.toNat_lt⟩ h
  rwa [UInt8.ofNat_toNat] at hraw

/-- The unit of an interface with written options. -/
theorem hasUnit_options (hclosing : 4 ≤ closing.length → endian.half closing 0 = 0)
    (hraw : ∀ raw, os.findSome? Opt.resolution? = some raw → raw.toNat < 128) :
    HasUnit endian (os.flatMap (Opt.bytes endian) ++ closing)
      (.decimal ((os.findSome? Opt.resolution?).elim 6 UInt8.toNat)) := by
  cases h : os.findSome? Opt.resolution? with
  | none =>
    refine .microseconds fun raw hdecl => ?_
    rw [declares_iff hclosing,h] at hdecl
    cases hdecl
  | some raw => exact .declared ((declares_iff hclosing).mpr h) (resolution_decimal (hraw raw h))

end Options

/-- A block behind the section header, with the trailing bytes (padding, options) of a packet. -/
inductive Block (endian : Endian)
  | interface (linktype : UInt16) (reserved options : List UInt8) (tick : Tick)
      (hreserved : reserved.length = 6) (hunit : HasUnit endian options tick)
      (hfits : options.length+20 < 2^32)
  | packet (iface : UInt32) (ts : UInt64) (origLen : UInt32) (data trailing : List UInt8)
      (hfits : data.length+trailing.length+32 < 2^32)
  | other (kind : UInt32) (body : List UInt8) (hinterface : kind ≠ 1) (hpacket : kind ≠ 6)
      (hsection : kind ≠ PCAPNG_SHB) (hfits : body.length+12 < 2^32)

namespace Block

variable {endian : Endian} {table : List Interface} {tick : Tick} {rest : List UInt8} {n off : ℕ}

def kind : Block endian → UInt32
  | .interface .. => 1
  | .packet .. => 6
  | .other kind .. => kind

def body : Block endian → List UInt8
  | .interface linktype reserved options .. => endian.bytes 2 linktype.toNat ++ (reserved ++ options)
  | .packet iface ts origLen data trailing _ =>
    endian.bytes 4 iface.toNat ++ (endian.bytes 4 (ts >>> 32).toUInt32.toNat ++
      (endian.bytes 4 ts.toUInt32.toNat ++ (endian.bytes 4 data.length ++
        (endian.bytes 4 origLen.toNat ++ (data ++ trailing)))))
  | .other _ body .. => body

def bytes (b : Block endian) : List UInt8 := blockBytes endian b.kind b.body

/-- The interface that a block declares. -/
def declared : Block endian → List Interface
  | .interface linktype _ _ tick .. => [(linktype.toUInt32,tick)]
  | .packet .. => []
  | .other .. => []

/-- The frame of a block, where `table` are the interfaces declared before it. -/
def frame (table : List Interface) : Block endian → List Captured
  | .packet iface ts _ data .. => table[iface.toNat]?.toList.map fun i => ⟨.ticks ts i.2,i.1,data⟩
  | .interface .. => []
  | .other .. => []

/-- A packet names one of `n` interfaces. -/
def Names (n : ℕ) : Block endian → Prop
  | .packet iface .. => iface.toNat < n
  | .interface .. => True
  | .other .. => True

theorem fits (b : Block endian) : b.body.length+12 < 2^32 := by
  cases b with
  | interface linktype reserved options tick hreserved hunit hfits =>
    simp only [body,List.length_append,Endian.length_bytes,hreserved]
    omega
  | packet iface ts origLen data trailing hfits =>
    simp only [body,List.length_append,Endian.length_bytes]
    omega
  | other kind body hinterface hpacket hsection hfits => exact hfits

theorem split_ticks (ts : UInt64) : (ts >>> 32).toUInt32.toUInt64 <<< 32 ||| ts.toUInt32.toUInt64 = ts := by
  have hts := ts.toNat_lt
  have hlow : ts.toNat%2^32 < 2^32 := Nat.mod_lt _ (by decide)
  have h32 : (32 : UInt64).toNat%64 = 32 := by decide
  have hhigh : (ts.toNat >>> 32)%2^32 = ts.toNat/2^32 := by
    rw [Nat.shiftRight_eq_div_pow]
    omega
  have hshift : ((ts.toNat/2^32) <<< 32)%2^64 = (ts.toNat/2^32) <<< 32 := by
    rw [Nat.shiftLeft_eq]
    omega
  apply UInt64.toNat_inj.mp
  simp only [UInt64.toNat_or,UInt64.toNat_shiftLeft,UInt32.toNat_toUInt64,UInt64.toNat_toUInt32,
    UInt64.toNat_shiftRight]
  rw [h32,hhigh,hshift,← Nat.shiftLeft_add_eq_or_of_lt hlow,Nat.shiftLeft_eq]
  omega

/-- A block is read as it was meant. -/
theorem read_body (b : Block endian) (h : b.Names table.length) :
    readBlock endian table b.kind b.body = some (table ++ b.declared,b.frame table) := by
  cases b with
  | interface linktype reserved options tick hreserved hunit hfits =>
    have hat : At (body (.interface linktype reserved options tick hreserved hunit hfits)) 0
        (endian.bytes 2 linktype.toNat ++ (reserved ++ options)) := ⟨Nat.zero_le _,rfl⟩
    have h8 := (hat.next (Endian.length_bytes _ _ _)).next hreserved
    rw [kind,readBlock_interface (h8.1),h8.2,hunit.tsresol,Endian.half_at hat]
    rfl
  | packet iface ts origLen data trailing hfits =>
    have hdata : data.length < 2^32 := by omega
    have hat : At (body (.packet iface ts origLen data trailing hfits)) 0 (endian.bytes 4 iface.toNat ++ _) :=
      ⟨Nat.zero_le _,rfl⟩
    have h4 := hat.next (Endian.length_bytes _ _ _)
    have h8 := h4.next (Endian.length_bytes _ _ _)
    have h12 := h8.next (Endian.length_bytes _ _ _)
    have h20 := (h12.next (Endian.length_bytes _ _ _)).next (Endian.length_bytes _ _ _)
    have hlen := h20.length
    rw [List.length_append] at hlen
    rw [kind,readBlock_packet h20.1,Endian.toNat_word_at hdata h12,if_pos (by omega),Endian.word_at hat,
      Endian.word_at h4,Endian.word_at h8,split_ticks,take_at h20 rfl,declared,List.append_nil,frame,
      List.getElem?_eq_getElem h]
    rfl
  | other kind body hinterface hpacket hsection hfits =>
    rw [declared,List.append_nil]
    exact readBlock_skip hinterface fun h => absurd h hpacket

theorem readBlocks_bytes (b : Block endian) (h : b.Names table.length) (rest : List UInt8) :
    readBlocks endian table (b.bytes ++ rest) =
      (readBlocks endian (table ++ b.declared) rest).map (b.frame table ++ ·) := by
  rw [bytes,readBlocks_append b.fits,b.read_body h,Option.bind_some]

/-- Each packet names an interface declared before it, where `n` are declared already. -/
def Declared : ℕ → List (Block endian) → Prop
  | _, [] => True
  | n, b :: bs => b.Names n ∧ Declared (n+b.declared.length) bs

/-- The frames of blocks from a place of the file on, with the places where their blocks end. -/
def ends (table : List Interface) (off : ℕ) : List (Block endian) → List (ℕ × Captured)
  | [] => []
  | b :: bs => (b.frame table).map (off+b.bytes.length,·) ++ ends (table ++ b.declared) (off+b.bytes.length) bs

theorem lt_ends {bs : List (Block endian)} : ∀ x ∈ ends table off bs, off < x.1 := by
  induction bs generalizing table off with
  | nil => simp [ends]
  | cons b bs ih =>
    have hpos : off < off+b.bytes.length := by
      rw [bytes,length_blockBytes]
      omega
    intro x hx
    rcases List.mem_append.mp hx with hx|hx
    · obtain ⟨frame,-,rfl⟩ := List.mem_map.mp hx
      exact hpos
    · exact hpos.trans (ih x hx)

/-- Of a sequence of blocks that is cut off, those are read that end at or before the cut. -/
theorem readBlocks_take (off n : ℕ) {bs : List (Block endian)} (h : Declared table.length bs) :
    readBlocks endian table ((bs.flatMap bytes).take n) = some (upTo (off+n) (ends table off bs)) := by
  induction bs generalizing table off n with
  | nil => simp [ends,readBlocks_stop]
  | cons b bs ih =>
    obtain ⟨hb,hbs⟩ := h
    rw [← List.length_append] at hbs
    rw [List.flatMap_cons,ends,upTo_append]
    by_cases hn : b.bytes.length ≤ n
    · have hoff : off+b.bytes.length+(n-b.bytes.length) = off+n := by omega
      have hframes : upTo (off+n) ((b.frame table).map (off+b.bytes.length,·)) = b.frame table := by
        rw [upTo_eq_map,List.map_map]
        · exact List.map_id _
        · intro x hx
          obtain ⟨frame,-,rfl⟩ := List.mem_map.mp hx
          simp only
          omega
      rw [List.take_append,List.take_of_length_le hn,b.readBlocks_bytes hb,
        ih (off+b.bytes.length) _ hbs,hoff,hframes,Option.map_some]
    · have hcut : off+n < off+b.bytes.length := by omega
      have hnone : upTo (off+n) ((b.frame table).map (off+b.bytes.length,·)) = [] := by
        refine upTo_eq_nil fun x hx => ?_
        obtain ⟨frame,-,rfl⟩ := List.mem_map.mp hx
        exact hcut
      have hstop : readBlocks endian table (b.bytes.take n) = some [] :=
        readBlocks_cut b.fits (Nat.lt_of_not_le hn)
      rw [List.take_append_of_le_length (by omega),hstop,hnone,
        upTo_eq_nil fun x hx => hcut.trans (lt_ends x hx)]
      rfl

theorem ends_le {bs : List (Block endian)} : ∀ x ∈ ends table off bs, x.1 ≤ off+(bs.flatMap bytes).length := by
  induction bs generalizing table off with
  | nil => simp [ends]
  | cons b bs ih =>
    intro x hx
    rw [List.flatMap_cons,List.length_append]
    rcases List.mem_append.mp hx with hx|hx
    · obtain ⟨frame,-,rfl⟩ := List.mem_map.mp hx
      simp only
      omega
    · have hle := ih x hx
      omega

end Block

/-- A section of a pcapng file. The header fields behind the byte-order magic are free. -/
structure Section where
  endian : Endian
  fixed : List UInt8
  blocks : List (Block endian)
  fixed_length : 12 ≤ fixed.length
  fits : fixed.length+16 < 2^32
  declared : Block.Declared 0 blocks

namespace Section

def headerBody (s : Section) : List UInt8 := s.endian.bytes 4 0x1a2b3c4d ++ s.fixed

def header (s : Section) : List UInt8 := blockBytes s.endian PCAPNG_SHB s.headerBody

def bytes (s : Section) : List UInt8 := s.header ++ s.blocks.flatMap Block.bytes

def frameEnds (s : Section) : List (ℕ × Captured) := Block.ends [] s.header.length s.blocks

theorem headerBody_fits (s : Section) : s.headerBody.length+12 < 2^32 := by
  have hfits := s.fits
  simp only [headerBody,List.length_append,Endian.length_bytes]
  omega

theorem length_header (s : Section) : s.header.length = s.fixed.length+16 := by
  simp only [header,length_blockBytes,headerBody,List.length_append,Endian.length_bytes]
  omega

/-- Either byte order of a section is recognized, by the magic numbers that it writes. -/
theorem magic_read (endian : Endian) :
    Endian.little.word (endian.bytes 4 PCAPNG_SHB.toNat) 0 = PCAPNG_SHB ∧
      byteOrder (Endian.little.word (endian.bytes 4 0x1a2b3c4d) 0) = some endian := by
  cases endian <;> decide +kernel

theorem header_fields (s : Section) {b rest : List UInt8} (h : At b 0 (s.header ++ rest)) :
    Endian.little.word b 0 = PCAPNG_SHB ∧ byteOrder (Endian.little.word b 8) = some s.endian := by
  simp only [header,blockBytes,headerBody,List.append_assoc] at h
  have h8 := (h.next (Endian.length_bytes _ _ _)).next (Endian.length_bytes _ _ _)
  obtain ⟨hhead,horder⟩ := magic_read s.endian
  rw [Endian.word_of_at h (Endian.length_bytes _ _ _),Endian.word_of_at h8 (Endian.length_bytes _ _ _)]
  exact ⟨hhead,horder⟩

/-- The section header adds no frame and no interface. -/
theorem readBlocks_header (s : Section) (table : List Interface) (rest : List UInt8) :
    readBlocks s.endian table (s.header ++ rest) = readBlocks s.endian table rest := by
  have h1 : PCAPNG_SHB ≠ 1 := by decide
  have h6 : PCAPNG_SHB ≠ 6 := by decide
  rw [header,readBlocks_append s.headerBody_fits,readBlock_skip h1 fun h => absurd h h6,Option.bind_some]
  exact Option.map_id'

/-- A file that begins like a section is read in the byte order of the section. -/
theorem read_begins (s : Section) {b : List UInt8} (h12 : 12 ≤ b.length)
    (hhead : Endian.little.word b 0 = PCAPNG_SHB) (horder : byteOrder (Endian.little.word b 8) = some s.endian) :
    read b = (readBlocks s.endian [] b).map .ok := by
  rw [read,if_neg (by omega),Endian.u32_eq (by omega),Option.bind_eq_bind,Option.bind_some,
    if_pos (.inl hhead),readPcapng_known h12 horder]

theorem read_cut (s : Section) (k : ℕ) (hk : 28 ≤ k) :
    read (s.bytes.take k) = some (.ok (upTo k s.frameEnds)) := by
  have hlen := s.length_header
  have hfixed := s.fixed_length
  obtain ⟨hhead,horder⟩ := s.header_fields (b := s.bytes) ⟨Nat.zero_le _,rfl⟩
  have h12 : 12 ≤ (s.bytes.take k).length := by
    rw [List.length_take,bytes,List.length_append]
    omega
  rw [s.read_begins h12 ((Endian.word_take (by omega)).trans hhead)
    ((congrArg byteOrder (Endian.word_take (by omega))).trans horder)]
  by_cases hcut : s.header.length ≤ k
  · have hoff : s.header.length+(k-s.header.length) = k := by omega
    have hdeclared : Block.Declared ([] : List Interface).length s.blocks := s.declared
    rw [bytes,List.take_append,List.take_of_length_le hcut,s.readBlocks_header,
      Block.readBlocks_take s.header.length _ hdeclared,hoff]
    rfl
  · have hstop : readBlocks s.endian [] (s.header.take k) = some [] :=
      readBlocks_cut s.headerBody_fits (Nat.lt_of_not_le hcut)
    rw [bytes,List.take_append_of_le_length (by omega),hstop,frameEnds,
      upTo_eq_nil fun x hx => (Nat.lt_of_not_le hcut).trans (Block.lt_ends x hx)]
    rfl

end Section

section Files

inductive CaptureFile
  | classic (file : ClassicFile)
  | pcapng (file : Section)

namespace CaptureFile

def bytes : CaptureFile → List UInt8
  | .classic file => file.bytes
  | .pcapng file => file.bytes

/-- The frames of a file, each with the place where its record ends. -/
def frameEnds : CaptureFile → List (ℕ × Captured)
  | .classic file => file.frameEnds
  | .pcapng file => file.frameEnds

def headerLength : CaptureFile → ℕ
  | .classic _ => 24
  | .pcapng _ => 28

theorem frameEnds_le (file : CaptureFile) : ∀ x ∈ file.frameEnds, x.1 ≤ file.bytes.length := by
  intro x hx
  cases file with
  | classic file =>
    rw [bytes,ClassicFile.bytes,List.length_append,file.length_header]
    exact recordEnds_le x hx
  | pcapng file =>
    rw [bytes,Section.bytes,List.length_append]
    exact Block.ends_le x hx

theorem read_cut (file : CaptureFile) (k : ℕ) (hk : file.headerLength ≤ k) :
    read (file.bytes.take k) = some (.ok (upTo k file.frameEnds)) := by
  cases file with
  | classic file => exact file.read_cut k hk
  | pcapng file => exact file.read_cut k hk

theorem headerLength_le (file : CaptureFile) : file.headerLength ≤ file.bytes.length := by
  cases file with
  | classic file =>
    rw [bytes,ClassicFile.bytes,List.length_append,file.length_header]
    exact Nat.le_add_right _ _
  | pcapng file =>
    have hfixed := file.fixed_length
    rw [bytes,Section.bytes,List.length_append,file.length_header,headerLength]
    omega

end CaptureFile

/-- A capture file is read as its frames, and a file that was cut off behind its header as those
of its frames that end at or before the cut. -/
theorem capture_decodes (file : CaptureFile) :
    read file.bytes = some (.ok (file.frameEnds.map Prod.snd)) ∧
      ∀ k, file.headerLength ≤ k → read (file.bytes.take k) = some (.ok (upTo k file.frameEnds)) := by
  refine ⟨?_,file.read_cut⟩
  have hall := file.read_cut file.bytes.length file.headerLength_le
  rwa [List.take_length,upTo_eq_map file.frameEnds_le] at hall

end Files

end Pcap
end Capture
end Robocol
