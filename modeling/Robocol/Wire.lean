import Mathlib.Data.List.Basic
import Robocol.ByteLayout
import Robocol.Text

/-! The shared wire helpers: fixed-offset reads that fail with `truncated`, and
fixed-offset writes. A write outside its buffer is a panic in the source, so every
writer is partial; that serializers never reach it is proved, not assumed. -/
namespace Robocol

open ByteLayout

inductive Error
  | truncated
  | unknownPacketType (t : UInt8)
  | badUtf8
  deriving DecidableEq

/-- The `Display` text of an error. -/
def Error.display : Error → String
  | .truncated => "packet truncated"
  | .unknownPacketType t => s!"unknown packet type {t}"
  | .badUtf8 => "invalid UTF-8 in packet string"

/-- An `f32` through its bits, the only view the codecs have of one. -/
structure F32 where
  bits : UInt32
  deriving DecidableEq

instance : Inhabited F32 := ⟨⟨0⟩⟩

@[simp] theorem ok_bind {ε α β : Type} (a : α) (f : α → Except ε β) : (Except.ok a >>= f) = f a := rfl
@[simp] theorem error_bind {ε α β : Type} (e : ε) (f : α → Except ε β) :
    (Except.error e >>= f) = Except.error e := rfl
@[simp] theorem pure_eq_ok {ε α : Type} (a : α) : (pure a : Except ε α) = Except.ok a := rfl

theorem bind_eq_ok {ε α β : Type} {x : Except ε α} {f : α → Except ε β} {b : β} :
    (x >>= f) = .ok b ↔ ∃ a, x = .ok a ∧ f a = .ok b := by
  cases x <;> simp

namespace Wire

def HEADER_LEN : ℕ := 5

def getBytes (buf : List UInt8) (off len : ℕ) : Except Error (List UInt8) :=
  (read buf off len).elim (.error .truncated) .ok

def getU8 (buf : List UInt8) (off : ℕ) : Except Error UInt8 :=
  buf[off]?.elim (.error .truncated) .ok

def getU16 (buf : List UInt8) (off : ℕ) : Except Error UInt16 := do
  let b ← getBytes buf off 2
  return UInt16.ofNat (ofBE b)

def getU32 (buf : List UInt8) (off : ℕ) : Except Error UInt32 := do
  let b ← getBytes buf off 4
  return UInt32.ofNat (ofBE b)

def getI32 (buf : List UInt8) (off : ℕ) : Except Error Int32 := do
  let b ← getBytes buf off 4
  return (UInt32.ofNat (ofBE b)).toInt32

def getI64 (buf : List UInt8) (off : ℕ) : Except Error Int64 := do
  let b ← getBytes buf off 8
  return (UInt64.ofNat (ofBE b)).toInt64

def getF32 (buf : List UInt8) (off : ℕ) : Except Error F32 := do
  return ⟨← getU32 buf off⟩

def getStr (buf : List UInt8) (off len : ℕ) : Except Error String := do
  let b ← getBytes buf off len
  (fromUtf8 b).elim (.error .badUtf8) .ok

/-- The string and the offset just past it. -/
def getStrU16 (buf : List UInt8) (off : ℕ) : Except Error (String × ℕ) := do
  let len := (← getU16 buf off).toNat
  return (← getStr buf (off+2) len,off+2+len)

def getStrU8 (buf : List UInt8) (off : ℕ) : Except Error (String × ℕ) := do
  let len := (← getU8 buf off).toNat
  return (← getStr buf (off+1) len,off+1+len)

/-- `buf[off] = v`. -/
def putU8 (buf : List UInt8) (off : ℕ) (v : UInt8) : Option (List UInt8) := write buf off [v]

def putU16 (buf : List UInt8) (off : ℕ) (v : UInt16) : Option (List UInt8) :=
  write buf off (toBE 2 v.toNat)

def putU32 (buf : List UInt8) (off : ℕ) (v : UInt32) : Option (List UInt8) :=
  write buf off (toBE 4 v.toNat)

def putI32 (buf : List UInt8) (off : ℕ) (v : Int32) : Option (List UInt8) :=
  write buf off (toBE 4 v.toUInt32.toNat)

def putI64 (buf : List UInt8) (off : ℕ) (v : Int64) : Option (List UInt8) :=
  write buf off (toBE 8 v.toUInt64.toNat)

def putF32 (buf : List UInt8) (off : ℕ) (v : F32) : Option (List UInt8) := putU32 buf off v.bits

/-- Writes the length prefix and the bytes, and returns the offset just past them. -/
def putStrU16 (buf : List UInt8) (off : ℕ) (s : List UInt8) : Option (List UInt8 × ℕ) := do
  let buf ← putU16 buf off (UInt16.ofNat s.length)
  let buf ← write buf (off+2) s
  return (buf,off+2+s.length)

def putStrU8 (buf : List UInt8) (off : ℕ) (s : List UInt8) : Option (List UInt8 × ℕ) := do
  let buf ← putU8 buf off (UInt8.ofNat s.length)
  let buf ← write buf (off+1) s
  return (buf,off+1+s.length)

/-- A blank buffer behind the common header `[type: u8][length: u16][seq: u16]`. -/
def withHeader (uid : UInt8) (payloadLen : ℕ) (seq : UInt16) : Option (List UInt8) := do
  let buf := List.replicate (HEADER_LEN+payloadLen) (0 : UInt8)
  let buf ← putU8 buf 0 uid
  let buf ← putU16 buf 1 (UInt16.ofNat payloadLen)
  putU16 buf 3 seq

/-- The bytes of a `u16`-prefixed string. -/
def strU16 (s : List UInt8) : List UInt8 := toBE 2 (UInt16.ofNat s.length).toNat ++ s

/-- The bytes of a `u8`-prefixed string. -/
def strU8 (s : List UInt8) : List UInt8 := UInt8.ofNat s.length :: s

/-- The five header bytes. -/
def header (uid : UInt8) (payloadLen : ℕ) (seq : UInt16) : List UInt8 :=
  uid :: (toBE 2 (UInt16.ofNat payloadLen).toNat ++ toBE 2 seq.toNat)

@[simp] theorem length_strU16 (s : List UInt8) : (strU16 s).length = 2+s.length := by simp [strU16]
@[simp] theorem length_strU8 (s : List UInt8) : (strU8 s).length = 1+s.length := by
  simp [strU8,Nat.add_comm]
@[simp] theorem length_header (uid : UInt8) (n : ℕ) (seq : UInt16) : (header uid n seq).length = 5 := by
  simp [header]

section Writes

variable {done : List UInt8} {off n : ℕ}

theorem putU8_next (hoff : done.length = off) (hn : 1 ≤ n) (v : UInt8) :
    putU8 (done ++ List.replicate n 0) off v =
      some ((done ++ [v]) ++ List.replicate (n-1) 0) :=
  write_next done [v] 0 hoff hn

theorem putU16_next (hoff : done.length = off) (hn : 2 ≤ n) (v : UInt16) :
    putU16 (done ++ List.replicate n 0) off v =
      some ((done ++ toBE 2 v.toNat) ++ List.replicate (n-2) 0) := by
  simpa [putU16] using write_next done (toBE 2 v.toNat) 0 hoff (by simpa using hn)

theorem putU32_next (hoff : done.length = off) (hn : 4 ≤ n) (v : UInt32) :
    putU32 (done ++ List.replicate n 0) off v =
      some ((done ++ toBE 4 v.toNat) ++ List.replicate (n-4) 0) := by
  simpa [putU32] using write_next done (toBE 4 v.toNat) 0 hoff (by simpa using hn)

theorem putI32_next (hoff : done.length = off) (hn : 4 ≤ n) (v : Int32) :
    putI32 (done ++ List.replicate n 0) off v =
      some ((done ++ toBE 4 v.toUInt32.toNat) ++ List.replicate (n-4) 0) := by
  simpa [putI32] using write_next done (toBE 4 v.toUInt32.toNat) 0 hoff (by simpa using hn)

theorem putI64_next (hoff : done.length = off) (hn : 8 ≤ n) (v : Int64) :
    putI64 (done ++ List.replicate n 0) off v =
      some ((done ++ toBE 8 v.toUInt64.toNat) ++ List.replicate (n-8) 0) := by
  simpa [putI64] using write_next done (toBE 8 v.toUInt64.toNat) 0 hoff (by simpa using hn)

theorem putF32_next (hoff : done.length = off) (hn : 4 ≤ n) (v : F32) :
    putF32 (done ++ List.replicate n 0) off v =
      some ((done ++ toBE 4 v.bits.toNat) ++ List.replicate (n-4) 0) :=
  putU32_next hoff hn v.bits

theorem putStrU16_next (hoff : done.length = off) (s : List UInt8) (hn : 2+s.length ≤ n) :
    putStrU16 (done ++ List.replicate n 0) off s =
      some ((done ++ strU16 s) ++ List.replicate (n-(2+s.length)) 0,off+2+s.length) := by
  rw [putStrU16,putU16_next hoff (by omega)]
  simp only [Option.bind_eq_bind,Option.bind_some]
  rw [write_next _ _ _ (by simp [hoff]) (by omega)]
  simp [strU16,Nat.sub_sub]

theorem putStrU8_next (hoff : done.length = off) (s : List UInt8) (hn : 1+s.length ≤ n) :
    putStrU8 (done ++ List.replicate n 0) off s =
      some ((done ++ strU8 s) ++ List.replicate (n-(1+s.length)) 0,off+1+s.length) := by
  rw [putStrU8,putU8_next hoff (by omega)]
  simp only [Option.bind_eq_bind,Option.bind_some]
  rw [write_next _ _ _ (by simp [hoff]) (by omega)]
  simp [strU8,Nat.sub_sub]

/-- The header leaves the whole payload blank. -/
theorem withHeader_eq (uid : UInt8) (payloadLen : ℕ) (seq : UInt16) :
    withHeader uid payloadLen seq =
      some (header uid payloadLen seq ++ List.replicate payloadLen 0) := by
  have h0 : putU8 (List.replicate (HEADER_LEN+payloadLen) 0) 0 uid =
      some ([uid] ++ List.replicate (HEADER_LEN+payloadLen-1) 0) :=
    write_next [] [uid] 0 rfl (by simp [HEADER_LEN]; omega)
  simp only [withHeader,h0,Option.bind_eq_bind,Option.bind_some]
  rw [putU16_next (by rfl) (by simp [HEADER_LEN]; omega)]
  simp only [Option.bind_some]
  rw [putU16_next (by simp) (by simp [HEADER_LEN]; omega)]
  simp only [header,HEADER_LEN,List.append_assoc,List.cons_append,List.nil_append]
  congr 5
  omega

end Writes

section Reads

variable {buf rest : List UInt8} {off : ℕ}

theorem getBytes_at {fld : List UInt8} {len : ℕ} (h : At buf off (fld ++ rest))
    (hl : fld.length = len) : getBytes buf off len = .ok fld := by
  simp [getBytes,h.read hl]

theorem getU8_at {v : UInt8} (h : At buf off (v :: rest)) : getU8 buf off = .ok v := by
  have hv : buf[off]? = some v := by rw [← List.head?_drop,h.2,List.head?_cons]
  simp [getU8,hv]

theorem getU16_at {v : UInt16} (h : At buf off (toBE 2 v.toNat ++ rest)) :
    getU16 buf off = .ok v := by
  have hv : v.toNat < 256^2 := v.toNat_lt
  rw [getU16,getBytes_at h (length_toBE 2 _),ok_bind,ofBE_toBE,Nat.mod_eq_of_lt hv]
  simp

theorem getU32_at {v : UInt32} (h : At buf off (toBE 4 v.toNat ++ rest)) :
    getU32 buf off = .ok v := by
  have hv : v.toNat < 256^4 := v.toNat_lt
  rw [getU32,getBytes_at h (length_toBE 4 _),ok_bind,ofBE_toBE,Nat.mod_eq_of_lt hv]
  simp

theorem getI32_at {v : Int32} (h : At buf off (toBE 4 v.toUInt32.toNat ++ rest)) :
    getI32 buf off = .ok v := by
  have hv : v.toUInt32.toNat < 256^4 := v.toUInt32.toNat_lt
  rw [getI32,getBytes_at h (length_toBE 4 _),ok_bind,ofBE_toBE,Nat.mod_eq_of_lt hv,
    UInt32.ofNat_toNat]
  rfl

theorem getI64_at {v : Int64} (h : At buf off (toBE 8 v.toUInt64.toNat ++ rest)) :
    getI64 buf off = .ok v := by
  have hv : v.toUInt64.toNat < 256^8 := v.toUInt64.toNat_lt
  rw [getI64,getBytes_at h (length_toBE 8 _),ok_bind,ofBE_toBE,Nat.mod_eq_of_lt hv,
    UInt64.ofNat_toNat]
  rfl

theorem getF32_at {v : F32} (h : At buf off (toBE 4 v.bits.toNat ++ rest)) :
    getF32 buf off = .ok v := by
  rw [getF32,getU32_at h]
  rfl

theorem getStr_at {s : String} {len : ℕ} (h : At buf off (utf8 s ++ rest))
    (hl : (utf8 s).length = len) : getStr buf off len = .ok s := by
  simp [getStr,getBytes_at h hl]

theorem getStrU16_at {s : String} (hs : (utf8 s).length ≤ 65535)
    (h : At buf off (strU16 (utf8 s) ++ rest)) :
    getStrU16 buf off = .ok (s,off+2+(utf8 s).length) := by
  rw [strU16,List.append_assoc] at h
  have hlen : (UInt16.ofNat (utf8 s).length).toNat = (utf8 s).length := by
    simp; omega
  rw [getStrU16,getU16_at h,ok_bind,hlen]
  simp only [getStr_at (h.next (length_toBE 2 _)) rfl,ok_bind,pure_eq_ok]

theorem getStrU8_at {s : String} (hs : (utf8 s).length ≤ 255)
    (h : At buf off (strU8 (utf8 s) ++ rest)) :
    getStrU8 buf off = .ok (s,off+1+(utf8 s).length) := by
  rw [strU8,List.cons_append] at h
  have hlen : (UInt8.ofNat (utf8 s).length).toNat = (utf8 s).length := by
    simp; omega
  have hn := h.tail
  rw [getStrU8,getU8_at h,ok_bind,hlen]
  simp only [getStr_at hn rfl,ok_bind,pure_eq_ok]

end Reads

section Results

variable {buf : List UInt8} {off o len : ℕ}

theorem getBytes_ok {bs : List UInt8} (h : getBytes buf off len = .ok bs) :
    read buf off len = some bs := by
  cases hr : read buf off len <;> simp_all [getBytes]

theorem getU8_ok {v : UInt8} (h : getU8 buf off = .ok v) : At buf off (v :: buf.drop (off+1)) := by
  cases hv : buf[off]? with
  | none => simp [getU8,hv] at h
  | some w =>
    obtain rfl : w = v := by simpa [getU8,hv] using h
    obtain ⟨hlt,rfl⟩ := List.getElem?_eq_some_iff.mp hv
    exact ⟨hlt.le,List.drop_eq_getElem_cons hlt⟩

/-- A numeral that was read is the one that stands there. -/
theorem getBytes_numeral {bs : List UInt8} {n : ℕ} (h : getBytes buf off len = .ok bs)
    (hn : n = ofBE bs) : At buf off (toBE len n ++ buf.drop (off+len)) := by
  have hat := at_of_read (getBytes_ok h)
  rw [hn,← read_length (getBytes_ok h),toBE_ofBE,read_length (getBytes_ok h)]
  exact hat

theorem ofBE_lt (bs : List UInt8) : ofBE bs < 256^bs.length := by
  have hmod := ofBE_toBE bs.length (ofBE bs)
  rw [toBE_ofBE] at hmod
  rw [hmod]
  exact Nat.mod_lt _ (Nat.pow_pos (by decide))

theorem getU16_ok {v : UInt16} (h : getU16 buf off = .ok v) :
    At buf off (toBE 2 v.toNat ++ buf.drop (off+2)) := by
  simp only [getU16,bind_eq_ok,pure_eq_ok,Except.ok.injEq] at h
  obtain ⟨bs,hb,rfl⟩ := h
  have hlt := ofBE_lt bs
  rw [read_length (getBytes_ok hb)] at hlt
  exact getBytes_numeral hb (Nat.mod_eq_of_lt hlt)

theorem getF32_ok {v : F32} (h : getF32 buf off = .ok v) :
    At buf off (toBE 4 v.bits.toNat ++ buf.drop (off+4)) := by
  simp only [getF32,getU32,bind_eq_ok,pure_eq_ok,Except.ok.injEq] at h
  obtain ⟨n,⟨bs,hb,rfl⟩,rfl⟩ := h
  have hlt := ofBE_lt bs
  rw [read_length (getBytes_ok hb)] at hlt
  exact getBytes_numeral hb (Nat.mod_eq_of_lt hlt)

theorem getStr_ok {s : String} (h : getStr buf off len = .ok s) :
    (utf8 s).length = len ∧ At buf off (utf8 s ++ buf.drop (off+len)) := by
  simp only [getStr,bind_eq_ok] at h
  obtain ⟨bs,hb,hs⟩ := h
  have hutf : fromUtf8 bs = some s := by
    cases hu : fromUtf8 bs <;> simp_all
  rw [utf8_of_fromUtf8 hutf]
  exact ⟨read_length (getBytes_ok hb),at_of_read (getBytes_ok hb)⟩

/-- A string that was read is in the buffer with the prefix it was read by. -/
theorem getStrU16_ok {s : String} (h : getStrU16 buf off = .ok (s,o)) :
    (utf8 s).length ≤ 65535 ∧ o = off+2+(utf8 s).length ∧ At buf off (strU16 (utf8 s) ++ buf.drop o) := by
  simp only [getStrU16,bind_eq_ok,pure_eq_ok,Except.ok.injEq,Prod.mk.injEq] at h
  obtain ⟨n,hn,s',hs,rfl,rfl⟩ := h
  obtain ⟨hlen,hat⟩ := getStr_ok hs
  have hlt := n.toNat_lt
  have hcount : (UInt16.ofNat (utf8 s').length).toNat = n.toNat := by rw [hlen]; simp
  refine ⟨by omega,by rw [hlen],?_⟩
  rw [strU16,hcount,List.append_assoc,← hat.2]
  exact getU16_ok hn

theorem getStrU8_ok {s : String} (h : getStrU8 buf off = .ok (s,o)) :
    (utf8 s).length ≤ 255 ∧ o = off+1+(utf8 s).length ∧ At buf off (strU8 (utf8 s) ++ buf.drop o) := by
  simp only [getStrU8,bind_eq_ok,pure_eq_ok,Except.ok.injEq,Prod.mk.injEq] at h
  obtain ⟨n,hn,s',hs,rfl,rfl⟩ := h
  obtain ⟨hlen,hat⟩ := getStr_ok hs
  have hlt := n.toNat_lt
  have hcount : UInt8.ofNat (utf8 s').length = n := by rw [hlen]; simp
  refine ⟨by omega,by rw [hlen],?_⟩
  rw [strU8,hcount,List.cons_append,← hat.2]
  exact getU8_ok hn

end Results

end Wire
end Robocol
