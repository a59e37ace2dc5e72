import Robocol.ByteLayout
import Robocol.StdText

/-! The base64 codec of the webcam chunks, and that decoding undoes encoding. -/
namespace Robocol
namespace Base64

open ByteLayout StdText

def ALPHABET : List UInt8 :=
  utf8 "ABCDEFGHIJKLMNOPQRSTUVWXYZabcdefghijklmnopqrstuvwxyz0123456789+/"

def alphabetByte (v : UInt8) : UInt8 := ALPHABET[v.toNat]?.getD 0

def PADDING : UInt8 := 61

/-- The four characters of a group of one to three bytes. -/
def encodeChunk (chunk : List UInt8) : List UInt8 :=
  let b0 := chunk[0]?.getD 0
  let b1 := chunk[1]?.getD 0
  let b2 := chunk[2]?.getD 0
  [alphabetByte (b0 >>> 2),
    alphabetByte (((b0 &&& 0x03) <<< 4) ||| (b1 >>> 4)),
    if 1 < chunk.length then alphabetByte (((b1 &&& 0x0f) <<< 2) ||| (b2 >>> 6)) else PADDING,
    if 2 < chunk.length then alphabetByte (b2 &&& 0x3f) else PADDING]

def encodeBytes (data : List UInt8) : List UInt8 := (chunks 3 data).flatMap encodeChunk

def encode (data : List UInt8) : String :=
  String.ofList ((encodeBytes data).map fun b => Char.ofNat b.toNat)

/-- The value of a character of the alphabet. -/
def val (b : UInt8) : Option UInt8 :=
  if 65 ≤ b ∧ b ≤ 90 then some (b-65)
  else if 97 ≤ b ∧ b ≤ 122 then some (b-97+26)
  else if 48 ≤ b ∧ b ≤ 57 then some (b-48+52)
  else if b = 43 then some 62
  else if b = 47 then some 63
  else none

def isBlank (b : UInt8) : Bool := b == 32 || b == 9 || b == 13 || b == 10

/-- The values up to the first padding character, over any line wrapping. -/
def sextets : List UInt8 → Option (List UInt8)
  | [] => some []
  | b :: bs =>
    if isBlank b then sextets bs
    else if b = PADDING then some []
    else do
      let v ← val b
      let vs ← sextets bs
      return v :: vs

def decodeChunk : List UInt8 → Option (List UInt8)
  | [c0,c1,c2,c3] => some [(c0 <<< 2) ||| (c1 >>> 4),(c1 <<< 4) ||| (c2 >>> 2),(c2 <<< 6) ||| c3]
  | [c0,c1,c2] => some [(c0 <<< 2) ||| (c1 >>> 4),(c1 <<< 4) ||| (c2 >>> 2)]
  | [c0,c1] => some [(c0 <<< 2) ||| (c1 >>> 4)]
  | _ => none

def decodeSextets (vs : List UInt8) : Option (List UInt8) :=
  List.flatten <$> (chunks 4 vs).mapM decodeChunk

def decode (s : String) : Option (List UInt8) := do
  let vs ← sextets (utf8 s)
  decodeSextets vs

/-- The sextets of a group, without its padding. -/
def chunkSextets (chunk : List UInt8) : List UInt8 :=
  let b0 := chunk[0]?.getD 0
  let b1 := chunk[1]?.getD 0
  let b2 := chunk[2]?.getD 0
  [b0 >>> 2,((b0 &&& 0x03) <<< 4) ||| (b1 >>> 4),((b1 &&& 0x0f) <<< 2) ||| (b2 >>> 6),
    b2 &&& 0x3f].take (chunk.length+1)

def dataSextets (data : List UInt8) : List UInt8 := (chunks 3 data).flatMap chunkSextets

theorem alphabetByte_spec {v : UInt8} (h : v < 64) :
    val (alphabetByte v) = some v ∧ isBlank (alphabetByte v) = false ∧
      alphabetByte v ≠ PADDING ∧ (alphabetByte v).toNat < 128 := by
  have hall : ∀ n < 64, val (alphabetByte (UInt8.ofNat n)) = some (UInt8.ofNat n) ∧
      isBlank (alphabetByte (UInt8.ofNat n)) = false ∧
      alphabetByte (UInt8.ofNat n) ≠ PADDING ∧ (alphabetByte (UInt8.ofNat n)).toNat < 128 := by
    decide +kernel
  simpa using hall v.toNat h

theorem sextets_alphabet (vs rest : List UInt8) (h : ∀ v ∈ vs, v < 64) :
    sextets (vs.map alphabetByte ++ rest) = (vs ++ ·) <$> sextets rest := by
  induction vs with
  | nil => simp
  | cons v vs ih =>
    obtain ⟨hval,hblank,hpad,-⟩ := alphabetByte_spec (h v (by simp))
    have hrest := ih fun v hv => h v (by simp [hv])
    simp only [List.map_cons,List.cons_append,sextets,hblank,Bool.false_eq_true,if_false,
      if_neg hpad,hval,hrest]
    cases sextets rest <;> rfl

section Bits

/-- Two bytes are equal where their bits are. -/
theorem eq_of_bits {a b : UInt8} (h : ∀ i < 8, a.toBitVec.getLsbD i = b.toBitVec.getLsbD i) :
    a = b := by
  rw [← UInt8.toBitVec_inj]
  exact BitVec.eq_of_getLsbD_eq h

theorem lt_64_of_bits {v : UInt8} (h6 : v.toBitVec[6] = false) (h7 : v.toBitVec[7] = false) :
    v < 64 := by
  have hv : v &&& 0x3f = v := by
    apply eq_of_bits
    intro i hi
    match i with
    | 0 | 1 | 2 | 3 | 4 | 5 => simp
    | 6 => simp [h6]
    | 7 => simp [h7]
    | i+8 => omega
  rw [← hv,UInt8.lt_iff_toNat_lt,UInt8.toNat_and]
  exact Nat.lt_succ_of_le Nat.and_le_right

theorem chunkSextets_lt (chunk : List UInt8) : ∀ v ∈ chunkSextets chunk, v < 64 := by
  intro v hv
  have hmem := List.mem_of_mem_take hv
  simp only [List.mem_cons,List.not_mem_nil,or_false] at hmem
  rcases hmem with rfl|rfl|rfl|rfl
  all_goals apply lt_64_of_bits <;> simp

theorem first_byte (b0 b1 : UInt8) :
    ((b0 >>> 2) <<< 2) ||| ((((b0 &&& 0x03) <<< 4) ||| (b1 >>> 4)) >>> 4) = b0 := by
  apply eq_of_bits
  intro i hi
  match i with
  | 0 | 1 | 2 | 3 | 4 | 5 | 6 | 7 => simp
  | i+8 => omega

theorem second_byte (b0 b1 b2 : UInt8) :
    ((((b0 &&& 0x03) <<< 4) ||| (b1 >>> 4)) <<< 4) ||| ((((b1 &&& 0x0f) <<< 2) ||| (b2 >>> 6)) >>> 2)
      = b1 := by
  apply eq_of_bits
  intro i hi
  match i with
  | 0 | 1 | 2 | 3 | 4 | 5 | 6 | 7 => simp
  | i+8 => omega

theorem third_byte (b1 b2 : UInt8) :
    ((((b1 &&& 0x0f) <<< 2) ||| (b2 >>> 6)) <<< 6) ||| (b2 &&& 0x3f) = b2 := by
  apply eq_of_bits
  intro i hi
  match i with
  | 0 | 1 | 2 | 3 | 4 | 5 | 6 | 7 => simp
  | i+8 => omega

end Bits

theorem decodeChunk_sextets {chunk : List UInt8} (h0 : chunk ≠ []) (h3 : chunk.length ≤ 3) :
    decodeChunk (chunkSextets chunk) = some chunk := by
  match chunk with
  | [] => exact absurd rfl h0
  | [b0] => simpa [chunkSextets,decodeChunk] using first_byte b0 0
  | [b0,b1] =>
    have h1 := first_byte b0 b1
    have h2 := second_byte b0 b1 0
    simp [chunkSextets,decodeChunk] at h1 h2 ⊢
    exact ⟨h1,h2⟩
  | [b0,b1,b2] =>
    simp [chunkSextets,decodeChunk]
    exact ⟨first_byte b0 b1,second_byte b0 b1 b2,third_byte b1 b2⟩
  | _ :: _ :: _ :: _ :: _ =>
    simp only [List.length_cons] at h3
    omega

theorem encodeChunk_eq {chunk : List UInt8} (h0 : chunk ≠ []) (h3 : chunk.length ≤ 3) :
    encodeChunk chunk = (chunkSextets chunk).map alphabetByte ++ List.replicate (3-chunk.length) PADDING := by
  match chunk with
  | [] => exact absurd rfl h0
  | [b0] => simp [encodeChunk,chunkSextets]
  | [b0,b1] => simp [encodeChunk,chunkSextets]
  | [b0,b1,b2] => simp [encodeChunk,chunkSextets]
  | _ :: _ :: _ :: _ :: _ =>
    simp only [List.length_cons] at h3
    omega

/-- A full group of three bytes in front of the rest. -/
theorem groups_induction {P : List UInt8 → Prop} (hnil : P [])
    (hshort : ∀ chunk, chunk ≠ [] → chunk.length ≤ 3 → P chunk)
    (hfull : ∀ chunk rest, chunk.length = 3 → P rest → P (chunk ++ rest)) (data : List UInt8) :
    P data := by
  induction hn : data.length using Nat.strong_induction_on generalizing data with
  | _ n ih =>
    by_cases h0 : data = []
    · exact h0 ▸ hnil
    · by_cases h3 : data.length ≤ 3
      · exact hshort data h0 h3
      · rw [← List.take_append_drop 3 data]
        apply hfull
        · simp; omega
        · exact ih (data.length-3) (by omega) _ (by simp)

theorem chunkSextets_full {chunk : List UInt8} (h : chunk.length = 3) :
    (chunkSextets chunk).length = 4 := by simp [chunkSextets,h]

theorem chunkSextets_ne_nil (chunk : List UInt8) : chunkSextets chunk ≠ [] := by
  simp [chunkSextets]

theorem dataSextets_append {chunk : List UInt8} (h : chunk.length = 3) (rest : List UInt8) :
    dataSextets (chunk ++ rest) = chunkSextets chunk ++ dataSextets rest := by
  rw [dataSextets,chunks_append (by omega) h,List.flatMap_cons,dataSextets]

theorem dataSextets_short {chunk : List UInt8} (h0 : chunk ≠ []) (h3 : chunk.length ≤ 3) :
    dataSextets chunk = chunkSextets chunk := by
  rw [dataSextets,chunks_short h0 h3]
  simp

/-- The characters are the sextets of the data, then at most two padding characters. -/
theorem encodeBytes_eq (data : List UInt8) :
    ∃ pad, encodeBytes data = (dataSextets data).map alphabetByte ++ List.replicate pad PADDING := by
  induction data using groups_induction with
  | hnil => exact ⟨0,by simp [encodeBytes,dataSextets]⟩
  | hshort chunk h0 h3 =>
    refine ⟨3-chunk.length,?_⟩
    rw [encodeBytes,chunks_short h0 h3,dataSextets_short h0 h3]
    simpa using encodeChunk_eq h0 h3
  | hfull chunk rest h ih =>
    obtain ⟨pad,hpad⟩ := ih
    refine ⟨pad,?_⟩
    have h0 : chunk ≠ [] := by
      rintro rfl
      simp at h
    rw [dataSextets_append h,List.map_append,List.append_assoc,← hpad,encodeBytes,encodeBytes,
      chunks_append (by omega) h,List.flatMap_cons,encodeChunk_eq h0 (by omega),h]
    simp

theorem dataSextets_lt (data : List UInt8) : ∀ v ∈ dataSextets data, v < 64 := by
  intro v hv
  obtain ⟨chunk,-,hv⟩ := List.mem_flatMap.mp hv
  exact chunkSextets_lt chunk v hv

theorem decodeSextets_data (data : List UInt8) : decodeSextets (dataSextets data) = some data := by
  induction data using groups_induction with
  | hnil => simp [decodeSextets,dataSextets]
  | hshort chunk h0 h3 =>
    have hlen : (chunkSextets chunk).length ≤ 4 := by simp [chunkSextets]
    rw [dataSextets_short h0 h3,decodeSextets,chunks_short (chunkSextets_ne_nil chunk) hlen]
    simp [decodeChunk_sextets h0 h3]
  | hfull chunk rest h ih =>
    have h0 : chunk ≠ [] := by
      rintro rfl
      simp at h
    rw [decodeSextets] at ih
    rw [dataSextets_append h,decodeSextets,chunks_append (by omega) (chunkSextets_full h),
      List.mapM_cons,decodeChunk_sextets h0 (by omega)]
    cases hm : (chunks 4 (dataSextets rest)).mapM decodeChunk with
    | none => simp [hm] at ih
    | some groups =>
      simp only [hm,Option.map_eq_map,Option.map_some,Option.some.injEq] at ih
      simp [ih]

theorem sextets_padding (pad : ℕ) : sextets (List.replicate pad PADDING) = some [] := by
  cases pad with
  | zero => rfl
  | succ pad => simp [List.replicate_succ,sextets,isBlank,PADDING]

theorem encodeBytes_ascii (data : List UInt8) : ∀ b ∈ encodeBytes data, b.toNat < 128 := by
  obtain ⟨pad,hbytes⟩ := encodeBytes_eq data
  intro b hb
  rw [hbytes] at hb
  rcases List.mem_append.mp hb with hb|hb
  · obtain ⟨v,hv,rfl⟩ := List.mem_map.mp hb
    exact (alphabetByte_spec (dataSextets_lt data v hv)).2.2.2
  · rw [(List.mem_replicate.mp hb).2]
    decide

theorem sextets_encodeBytes (data : List UInt8) : sextets (encodeBytes data) = some (dataSextets data) := by
  obtain ⟨pad,hbytes⟩ := encodeBytes_eq data
  rw [hbytes,sextets_alphabet _ _ (dataSextets_lt data),sextets_padding]
  simp

theorem decode_encode (data : List UInt8) : decode (encode data) = some data := by
  have hsextets : sextets (utf8 (encode data)) = some (dataSextets data) := by
    rw [encode,utf8_ofBytes (encodeBytes_ascii data),sextets_encodeBytes]
  simp only [decode,hsextets,Option.bind_eq_bind,Option.bind_some,decodeSextets_data]

section Wrapping

variable {s w : Text}

/-- What line wrapping may put between the characters. -/
def BLANKS : List Char := [' ','\t','\r','\n']

/-- `w` is `s` with blanks inserted at any positions. -/
inductive Wrapped : Text → Text → Prop
  | nil : Wrapped [] []
  | keep (c : Char) {s w : Text} (h : Wrapped s w) : Wrapped (c :: s) (c :: w)
  | blank (c : Char) (hc : c ∈ BLANKS) {s w : Text} (h : Wrapped s w) : Wrapped s (c :: w)

/-- A text up to its padding. -/
def unpadded (s : Text) : Text := s.takeWhile (· ≠ '=')

/-- Blanks are bytes that the decoder skips. -/
theorem Wrapped.bytes (h : Wrapped s w) (bs : List UInt8) (hs : s = bs.map fun b => Char.ofNat b.toNat)
    (hascii : ∀ b ∈ bs, b.toNat < 128) :
    ∃ ws : List UInt8, w = ws.map (fun b => Char.ofNat b.toNat) ∧ (∀ b ∈ ws, b.toNat < 128) ∧
      sextets ws = sextets bs := by
  induction h generalizing bs with
  | nil =>
    obtain rfl : bs = [] := List.map_eq_nil_iff.mp hs.symm
    exact ⟨[],rfl,hascii,rfl⟩
  | keep c h ih =>
    cases bs with
    | nil => cases hs
    | cons b bs =>
      obtain ⟨rfl,hrest⟩ := List.cons.inj hs
      obtain ⟨ws,hw,hws,hsame⟩ := ih bs hrest fun x hx => hascii x (List.mem_cons_of_mem b hx)
      refine ⟨b :: ws,by rw [hw,List.map_cons],?_,by simp only [sextets,hsame]⟩
      exact List.forall_mem_cons.mpr ⟨hascii b List.mem_cons_self,hws⟩
  | blank c hc h ih =>
    obtain ⟨b,rfl,hb,hblank⟩ : ∃ b : UInt8, c = Char.ofNat b.toNat ∧ b.toNat < 128 ∧ isBlank b = true := by
      simp only [BLANKS,List.mem_cons,List.not_mem_nil,or_false] at hc
      rcases hc with rfl|rfl|rfl|rfl
      · exact ⟨32,by decide⟩
      · exact ⟨9,by decide⟩
      · exact ⟨13,by decide⟩
      · exact ⟨10,by decide⟩
    obtain ⟨ws,hw,hws,hsame⟩ := ih bs hs hascii
    refine ⟨b :: ws,by rw [hw,List.map_cons],List.forall_mem_cons.mpr ⟨hb,hws⟩,?_⟩
    rw [sextets,if_pos hblank,hsame]

/-- Without the padding the same sextets are there. -/
theorem unpadded_encode (data : List UInt8) : unpadded (encode data).toList =
    ((dataSextets data).map alphabetByte).map fun b => Char.ofNat b.toNat := by
  obtain ⟨pad,hbytes⟩ := encodeBytes_eq data
  have hkeep : ∀ c ∈ ((dataSextets data).map alphabetByte).map (fun b => Char.ofNat b.toNat),
      decide (c ≠ '=') = true := by
    intro c hc
    obtain ⟨b,hb,rfl⟩ := List.mem_map.mp hc
    obtain ⟨v,hv,rfl⟩ := List.mem_map.mp hb
    have hne := (alphabetByte_spec (dataSextets_lt data v hv)).2.2.1
    simp only [ne_eq,decide_not,Bool.not_eq_true',decide_eq_false_iff_not]
    intro heq
    have hnat := congrArg Char.toNat heq
    rw [toNat_ofByte] at hnat
    exact hne (UInt8.toNat_inj.mp hnat)
  have hstop : (List.replicate pad (Char.ofNat PADDING.toNat)).takeWhile (· ≠ '=') = [] := by
    cases pad with
    | zero => rfl
    | succ pad => rfl
  rw [unpadded,encode,String.toList_ofList,hbytes,List.map_append,List.map_replicate,
    List.takeWhile_append_of_pos hkeep,hstop,List.append_nil]

/-- Decoding undoes encoding with or without the padding, and under any wrapping. -/
theorem decode_wrapped (data : List UInt8) (w : String)
    (h : Wrapped (encode data).toList w.toList ∨ Wrapped (unpadded (encode data).toList) w.toList) :
    decode w = some data := by
  have hdecode (bs : List UInt8) (hbs : ∀ b ∈ bs, b.toNat < 128)
      (hsextets : sextets bs = some (dataSextets data))
      (hw : Wrapped (bs.map fun b => Char.ofNat b.toNat) w.toList) : decode w = some data := by
    obtain ⟨ws,hws,hascii,hsame⟩ := hw.bytes bs rfl hbs
    have hutf8 : utf8 w = ws := by rw [← String.ofList_toList (s := w),hws,utf8_ofBytes hascii]
    simp only [decode,hutf8,hsame,hsextets,Option.bind_eq_bind,Option.bind_some,decodeSextets_data]
  rcases h with h|h
  · rw [encode,String.toList_ofList] at h
    exact hdecode _ (encodeBytes_ascii data) (sextets_encodeBytes data) h
  · rw [unpadded_encode] at h
    refine hdecode _ (fun b hb => ?_) ?_ h
    · obtain ⟨v,hv,rfl⟩ := List.mem_map.mp hb
      exact (alphabetByte_spec (dataSextets_lt data v hv)).2.2.2
    · have halphabet := sextets_alphabet (dataSextets data) [] (dataSextets_lt data)
      simpa [sextets] using halphabet

/-- One byte without padding, a line end between its two characters. -/
theorem decode_wrapped_unpadded : decode "T\r\nQ" = some [77] :=
  decode_wrapped [77] "T\r\nQ" (.inr (.keep 'T' (.blank '\r' (by decide) (.blank '\n' (by decide)
    (.keep 'Q' .nil)))))

end Wrapping

end Base64
end Robocol
