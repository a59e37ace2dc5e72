import Mathlib.Data.String.Basic

/-! Owned strings and their UTF-8 bytes. A `String` is the valid byte sequence it
encodes, so decoding is partial and the two directions are inverse. -/
namespace Robocol

/-- `str::as_bytes`. -/
def utf8 (s : String) : List UInt8 := s.toByteArray.data.toList

/-- `String::from_utf8`. -/
def fromUtf8 (bs : List UInt8) : Option String := String.fromUTF8? ⟨bs.toArray⟩

@[simp] theorem fromUtf8_utf8 (s : String) : fromUtf8 (utf8 s) = some s := by
  simp [fromUtf8,utf8,String.fromUTF8?,String.fromUTF8,s.isValidUTF8]

theorem utf8_of_fromUtf8 {bs : List UInt8} {s : String} (h : fromUtf8 bs = some s) :
    utf8 s = bs := by
  simp only [fromUtf8,String.fromUTF8?] at h
  split at h
  · obtain rfl := Option.some.inj h
    rfl
  · exact absurd h (by simp)

end Robocol
