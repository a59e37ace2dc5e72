import Mathlib.Tactic.SplitIfs
import Robocol.Packets

/-! The wire format read back. Each serializer is shown to write exactly a flat
field-by-field layout (so no write leaves its buffer), and each parser to read
that layout whatever follows it. -/
namespace Robocol

open ByteLayout Wire

section Layouts

def Heartbeat.layout (hb : Heartbeat) : List UInt8 :=
  header UID_HEARTBEAT (34+(utf8 hb.timezoneId).length) hb.seq ++ toBE 8 hb.timestamp.toUInt64.toNat
    ++ [hb.robotState.toByte] ++ toBE 8 hb.t0.toUInt64.toNat ++ toBE 8 hb.t1.toUInt64.toNat
    ++ toBE 8 hb.t2.toUInt64.toNat ++ strU8 (utf8 hb.timezoneId)

def Gamepad.layout (g : Gamepad) : List UInt8 :=
  header UID_GAMEPAD 60 g.seq ++ [g.version] ++ toBE 4 g.id.toUInt32.toNat
    ++ toBE 8 g.timestamp.toUInt64.toNat ++ toBE 4 g.leftStickX.bits.toNat
    ++ toBE 4 g.leftStickY.bits.toNat ++ toBE 4 g.rightStickX.bits.toNat
    ++ toBE 4 g.rightStickY.bits.toNat ++ toBE 4 g.leftTrigger.bits.toNat
    ++ toBE 4 g.rightTrigger.bits.toNat ++ toBE 4 g.buttonsBitfield.toNat ++ [g.user]
    ++ [g.gamepadType.toByte] ++ [g.gamepadType.toByte] ++ toBE 4 g.touchpadFinger1X.bits.toNat
    ++ toBE 4 g.touchpadFinger1Y.bits.toNat ++ toBE 4 g.touchpadFinger2X.bits.toNat
    ++ toBE 4 g.touchpadFinger2Y.bits.toNat

/-- The last of the thirteen bytes stays blank. -/
def PeerDiscovery.layout (p : PeerDiscovery) : List UInt8 :=
  [UID_PEER_DISCOVERY] ++ toBE 2 (10 : UInt16).toNat ++ [p.robocolVersion] ++ [p.peerType.toByte]
    ++ toBE 2 p.seq.toNat ++ [p.sdkBuildMonth] ++ toBE 2 p.sdkBuildYear.toNat
    ++ [p.sdkMajorVersion] ++ [p.sdkMinorVersion] ++ [0]

def Command.extraLayout (c : Command) : List UInt8 :=
  if c.acknowledged then [] else strU16 (utf8 c.extra)

def Command.payload (c : Command) : ℕ :=
  11+(utf8 c.name).length+if c.acknowledged then 0 else 2+(utf8 c.extra).length

def Command.layout (c : Command) : List UInt8 :=
  header UID_COMMAND c.payload c.seq ++ toBE 8 c.timestamp.toUInt64.toNat
    ++ [c.acknowledged.toUInt8] ++ strU16 (utf8 c.name) ++ c.extraLayout

def Telemetry.stringLayout (kv : String × String) : List UInt8 :=
  strU16 (utf8 kv.1) ++ strU16 (utf8 kv.2)

def Telemetry.numberLayout (kv : String × F32) : List UInt8 :=
  strU16 (utf8 kv.1) ++ toBE 4 kv.2.bits.toNat

def Telemetry.payload (t : Telemetry) : ℕ :=
  13+(utf8 t.tag).length+(t.strings.flatMap stringLayout).length
    +(t.numbers.toList.flatMap numberLayout).length

def Telemetry.layout (t : Telemetry) : List UInt8 :=
  header UID_TELEMETRY t.payload t.seq ++ toBE 8 t.timestamp.toUInt64.toNat
    ++ [t.isSorted.toUInt8] ++ [t.robotState.toByte] ++ strU8 (utf8 t.tag)
    ++ [UInt8.ofNat t.strings.length] ++ t.strings.flatMap stringLayout
    ++ [UInt8.ofNat t.numbers.size] ++ t.numbers.toList.flatMap numberLayout

def KeepAlive.layout (k : KeepAlive) : List UInt8 := header UID_KEEP_ALIVE 1 k.seq ++ [k.id]

/-- The bytes of a packet, field by field. -/
def Packet.layout : Packet → List UInt8
  | .heartbeat hb => hb.layout
  | .gamepad g => g.layout
  | .peerDiscovery p => p.layout
  | .command c => c.layout
  | .telemetry t => t.layout
  | .keepAlive k => k.layout

end Layouts

section Serialize

theorem Heartbeat.serialize_eq (hb : Heartbeat) : hb.serialize = some hb.layout := by
  simp only [serialize,withHeader_eq,Option.bind_eq_bind,Option.bind_some]
  rw [putI64_next (by simp) (by omega),Option.bind_some,putU8_next (by simp) (by omega),
    Option.bind_some,putI64_next (by simp) (by omega),Option.bind_some,
    putI64_next (by simp) (by omega),Option.bind_some,putI64_next (by simp) (by omega),
    Option.bind_some,putStrU8_next (by simp) _ (by omega),Option.bind_some]
  have hz : 34+(utf8 hb.timezoneId).length-8-1-8-8-8-(1+(utf8 hb.timezoneId).length) = 0 := by omega
  simp [layout,hz]

theorem Gamepad.serialize_eq (g : Gamepad) : g.serialize = some g.layout := by
  simp only [serialize,Option.bind_eq_bind]
  rw [withHeader_eq,Option.bind_some,putU8_next (by simp) (by omega),Option.bind_some,putI32_next (by simp) (by omega),
    Option.bind_some,putI64_next (by simp) (by omega),Option.bind_some,
    putF32_next (by simp) (by omega),Option.bind_some,putF32_next (by simp) (by omega),
    Option.bind_some,putF32_next (by simp) (by omega),Option.bind_some,
    putF32_next (by simp) (by omega),Option.bind_some,putF32_next (by simp) (by omega),
    Option.bind_some,putF32_next (by simp) (by omega),Option.bind_some,
    putU32_next (by simp) (by omega),Option.bind_some,putU8_next (by simp) (by omega),
    Option.bind_some,putU8_next (by simp) (by omega),Option.bind_some,
    putU8_next (by simp) (by omega),Option.bind_some,putF32_next (by simp) (by omega),
    Option.bind_some,putF32_next (by simp) (by omega),Option.bind_some,
    putF32_next (by simp) (by omega),Option.bind_some,putF32_next (by simp) (by omega)]
  simp only [Nat.reduceSub,List.replicate_zero,List.append_nil,layout]

theorem PeerDiscovery.serialize_eq (p : PeerDiscovery) : p.serialize = some p.layout := by
  have h0 : putU8 (List.replicate TOTAL_LEN 0) 0 UID_PEER_DISCOVERY =
      some ([UID_PEER_DISCOVERY] ++ List.replicate 12 0) :=
    write_next (n := TOTAL_LEN) [] [UID_PEER_DISCOVERY] 0 rfl (by simp [TOTAL_LEN])
  simp only [serialize,h0,Option.bind_eq_bind,Option.bind_some]
  rw [putU16_next (by simp) (by omega),Option.bind_some,putU8_next (by simp) (by omega),
    Option.bind_some,putU8_next (by simp) (by omega),Option.bind_some,
    putU16_next (by simp) (by omega),Option.bind_some,putU8_next (by simp) (by omega),
    Option.bind_some,putU16_next (by simp) (by omega),Option.bind_some,
    putU8_next (by simp) (by omega),Option.bind_some,putU8_next (by simp) (by omega)]
  simp [layout]

theorem Command.serialize_eq (c : Command) : c.serialize = some c.layout := by
  simp only [serialize,withHeader_eq,Option.bind_eq_bind,Option.bind_some]
  rw [putI64_next (by simp) (by omega),Option.bind_some,putU8_next (by simp) (by omega),
    Option.bind_some,putStrU16_next (by simp) _ (by omega)]
  cases ha : c.acknowledged with
  | true =>
    have hz : 11+(utf8 c.name).length-8-1-(2+(utf8 c.name).length) = 0 := by omega
    simp [layout,payload,extraLayout,ha,hz]
  | false =>
    simp only [Bool.false_eq_true,if_false,Option.bind_some]
    rw [putStrU16_next (by simp; omega) _ (by omega)]
    have hz : 11+(utf8 c.name).length+(2+(utf8 c.extra).length)-8-1-(2+(utf8 c.name).length)
        -(2+(utf8 c.extra).length) = 0 := by omega
    simp [layout,payload,extraLayout,ha,hz]

theorem KeepAlive.serialize_eq (k : KeepAlive) : k.serialize = some k.layout := by
  simp only [serialize,withHeader_eq,Option.bind_eq_bind,Option.bind_some]
  rw [putU8_next (by simp) (by omega)]
  simp [layout]

theorem Telemetry.putString_next (done : List UInt8) (off n : ℕ) (kv : String × String)
    (hoff : done.length = off) (hn : (stringLayout kv).length ≤ n) :
    putString (done ++ List.replicate n 0,off) kv =
      some ((done ++ stringLayout kv) ++ List.replicate (n-(stringLayout kv).length) 0,
        off+(stringLayout kv).length) := by
  simp only [stringLayout,List.length_append,length_strU16] at hn ⊢
  have h1 : 2+(utf8 kv.1).length ≤ n := by omega
  simp only [putString,putStrU16_next hoff (utf8 kv.1) h1,Option.bind_eq_bind,Option.bind_some]
  rw [putStrU16_next (by simp [hoff]; omega) _ (by omega)]
  simp [Nat.sub_sub,Nat.add_assoc]

theorem Telemetry.putNumber_next (done : List UInt8) (off n : ℕ) (kv : String × F32)
    (hoff : done.length = off) (hn : (numberLayout kv).length ≤ n) :
    putNumber (done ++ List.replicate n 0,off) kv =
      some ((done ++ numberLayout kv) ++ List.replicate (n-(numberLayout kv).length) 0,
        off+(numberLayout kv).length) := by
  simp only [numberLayout,List.length_append,length_strU16,length_toBE] at hn ⊢
  have h1 : 2+(utf8 kv.1).length ≤ n := by omega
  simp only [putNumber,putStrU16_next hoff (utf8 kv.1) h1,Option.bind_eq_bind,Option.bind_some]
  rw [putF32_next (by simp [hoff]; omega) (by omega)]
  simp [Nat.sub_sub,Nat.add_assoc]

theorem Telemetry.payload_eq (t : Telemetry) :
    t.numbers.toList.foldl (fun n kv => n+(6+(utf8 kv.1).length))
      (t.strings.foldl (fun n kv => n+(4+(utf8 kv.1).length+(utf8 kv.2).length))
        (13+(utf8 t.tag).length)) = t.payload := by
  have hs (kv : String × String) :
      4+(utf8 kv.1).length+(utf8 kv.2).length = (stringLayout kv).length := by
    simp [stringLayout]; omega
  have hn (kv : String × F32) : 6+(utf8 kv.1).length = (numberLayout kv).length := by
    simp [numberLayout]; omega
  rw [foldl_add_length numberLayout _ hn,foldl_add_length stringLayout _ hs,payload]

theorem Telemetry.serialize_eq (t : Telemetry) : t.serialize = some t.layout := by
  have hp : 13+(utf8 t.tag).length+(t.strings.flatMap stringLayout).length
      +(t.numbers.toList.flatMap numberLayout).length = t.payload := rfl
  simp only [serialize,payload_eq,withHeader_eq,Option.bind_eq_bind,Option.bind_some]
  rw [putI64_next (by simp) (by omega),Option.bind_some,putU8_next (by simp) (by omega),
    Option.bind_some,putU8_next (by simp) (by omega),Option.bind_some,
    putStrU8_next (by simp) _ (by omega),Option.bind_some,
    putU8_next (by simp; omega) (by omega),Option.bind_some,
    foldlM_write putString stringLayout 0 putString_next _ _ _ _ (by simp; omega) (by omega),
    Option.bind_some,putU8_next (by simp; omega) (by omega),Option.bind_some,
    foldlM_write putNumber numberLayout 0 putNumber_next _ _ _ _ (by simp; omega) (by omega),
    Option.bind_some]
  have hz : t.payload-8-1-1-(1+(utf8 t.tag).length)-1-(t.strings.flatMap stringLayout).length-1
      -(t.numbers.toList.flatMap numberLayout).length = 0 := by omega
  rw [hz]
  simp [layout]

/-- No serializer panics, and each writes exactly its layout. -/
theorem Packet.serialize_eq (p : Packet) : p.serialize = some p.layout := by
  cases p with
  | heartbeat hb => exact hb.serialize_eq
  | gamepad g => exact g.serialize_eq
  | peerDiscovery p => exact p.serialize_eq
  | command c => exact c.serialize_eq
  | telemetry t => exact t.serialize_eq
  | keepAlive k => exact k.serialize_eq

end Serialize

section Parse

/-- The limits of the format: what the length and count prefixes can express, and no
`extra` on an acknowledgement. -/
def Packet.Fits : Packet → Prop
  | .heartbeat hb => (utf8 hb.timezoneId).length ≤ 255
  | .gamepad _ | .peerDiscovery _ | .keepAlive _ => True
  | .command c => (utf8 c.name).length ≤ 65535 ∧ (utf8 c.extra).length ≤ 65535 ∧
      (c.acknowledged = true → c.extra = "")
  | .telemetry t => (utf8 t.tag).length ≤ 255 ∧ t.strings.length ≤ 255 ∧ t.numbers.size ≤ 255 ∧
      (∀ kv ∈ t.strings, (utf8 kv.1).length ≤ 65535 ∧ (utf8 kv.2).length ≤ 65535) ∧
      ∀ k ∈ t.numbers, (utf8 k).length ≤ 65535

/-- Behind a header, the sequence number is at 3 and the payload at 5. -/
theorem at_header {buf xs : List UInt8} {uid : UInt8} {n : ℕ} {seq : UInt16}
    (h : At buf 0 (header uid n seq ++ xs)) :
    getU8 buf 0 = .ok uid ∧ getU16 buf 3 = .ok seq ∧ At buf 5 xs := by
  simp only [header,List.cons_append,List.append_assoc] at h
  have h3 := h.tail.next (length_toBE 2 _)
  exact ⟨getU8_at h,getU16_at h3,h3.next (length_toBE 2 _)⟩

section Kinds

variable {buf t : List UInt8}

/-- What the header claims about the length is not looked at. -/
theorem Heartbeat.parse_payload (hb : Heartbeat) (hfit : (utf8 hb.timezoneId).length ≤ 255)
    (h3 : getU16 buf 3 = .ok hb.seq) (h5 : At buf 5 (toBE 8 hb.timestamp.toUInt64.toNat ++
      (hb.robotState.toByte :: (toBE 8 hb.t0.toUInt64.toNat ++ (toBE 8 hb.t1.toUInt64.toNat ++
      (toBE 8 hb.t2.toUInt64.toNat ++ (strU8 (utf8 hb.timezoneId) ++ t))))))) : parse buf = .ok hb := by
  have h13 := h5.next (length_toBE 8 _)
  have h14 := h13.tail
  have h22 := h14.next (length_toBE 8 _)
  have h30 := h22.next (length_toBE 8 _)
  have h38 := h30.next (length_toBE 8 _)
  simp only [parse,h3,getI64_at h5,getU8_at h13,getI64_at h14,getI64_at h22,
    getI64_at h30,getStrU8_at hfit h38,ok_bind,pure_eq_ok,RobotState.fromByte_toByte]

theorem Heartbeat.parse_at (hb : Heartbeat) (hfit : (utf8 hb.timezoneId).length ≤ 255)
    (h : At buf 0 (hb.layout ++ t)) : parse buf = .ok hb := by
  simp only [layout,List.append_assoc,List.cons_append,List.nil_append] at h
  obtain ⟨-,h3,h5⟩ := at_header h
  exact hb.parse_payload hfit h3 h5

theorem hasBit_eq (b i : UInt32) (hi : i.toNat < 32) :
    hasBit b i = b.toBitVec.getLsbD i.toNat := by
  have hs : ((1 : UInt32) <<< i).toBitVec = BitVec.twoPow 32 i.toNat := by
    simp [BitVec.twoPow,Nat.mod_eq_of_lt hi]
  have ht : BitVec.twoPow 32 i.toNat ≠ 0#32 := by
    intro h
    have hb := congrArg (fun v => v.getLsbD i.toNat) h
    simp [hi] at hb
  rw [Bool.eq_iff_iff]
  simp only [hasBit,bne,Bool.not_eq_true',beq_eq_false_iff_ne,ne_eq,← UInt32.toBitVec_inj,
    UInt32.toBitVec_and,hs,BitVec.and_twoPow]
  split <;> simp_all

theorem hasBit_or (a b i : UInt32) (hi : i.toNat < 32) :
    hasBit (a ||| b) i = (hasBit a i || hasBit b i) := by
  simp [hasBit_eq _ _ hi]

@[simp] theorem hasBit_zero (i : UInt32) : hasBit 0 i = false := by simp [hasBit]

/-- A button written at its own position is read there and nowhere else. -/
theorem hasBit_bit (x : Bool) (i k : UInt32) (hi : i.toNat < 32) (hk : k.toNat < 32) :
    hasBit (bit x i) k = (decide (i = k) && x) := by
  rw [hasBit_eq _ _ hk]
  cases x with
  | false => simp [bit]
  | true =>
    rw [Bool.eq_iff_iff]
    simp [bit,Nat.mod_eq_of_lt hi,hk]
    rw [← UInt32.toNat_inj]
    omega

theorem Gamepad.parse_at (g : Gamepad) (h : At buf 0 (g.layout ++ t)) : parse buf = .ok g := by
  simp only [layout,List.append_assoc,List.cons_append,List.nil_append] at h
  obtain ⟨-,h3,h5⟩ := at_header h
  have h6 := h5.tail
  have h10 := h6.next (length_toBE 4 _)
  have h18 := h10.next (length_toBE 8 _)
  have h22 := h18.next (length_toBE 4 _)
  have h26 := h22.next (length_toBE 4 _)
  have h30 := h26.next (length_toBE 4 _)
  have h34 := h30.next (length_toBE 4 _)
  have h38 := h34.next (length_toBE 4 _)
  have h42 := h38.next (length_toBE 4 _)
  have h46 := h42.next (length_toBE 4 _)
  have h47 := h46.tail
  have h48 := h47.tail
  have h49 := h48.tail
  have h53 := h49.next (length_toBE 4 _)
  have h57 := h53.next (length_toBE 4 _)
  have h61 := h57.next (length_toBE 4 _)
  simp only [parse,h3,getU8_at h5,getI32_at h6,getI64_at h10,getF32_at h18,getF32_at h22,
    getF32_at h26,getF32_at h30,getF32_at h34,getF32_at h38,getU32_at h42,getU8_at h46,
    getU8_at h48,getF32_at h49,getF32_at h53,getF32_at h57,getF32_at h61,ok_bind,pure_eq_ok,
    GamepadType.fromByte_toByte]
  simp (disch := decide) [buttonsBitfield,hasBit_or,hasBit_bit]

/-- The blank byte at the end is not read. -/
theorem PeerDiscovery.parse_fields (p : PeerDiscovery) (h : At buf 0 (p.layout.dropLast ++ t)) :
    parse buf = .ok p := by
  rw [layout,List.dropLast_concat] at h
  simp only [List.append_assoc,List.cons_append,List.nil_append] at h
  have h3 := h.tail.next (length_toBE 2 _)
  have h4 := h3.tail
  have h5 := h4.tail
  have h7 := h5.next (length_toBE 2 _)
  have h8 := h7.tail
  have h10 := h8.next (length_toBE 2 _)
  have h11 := h10.tail
  simp only [parse,getU8_at h3,getU8_at h4,getU16_at h5,getU8_at h7,getU16_at h8,getU8_at h10,
    getU8_at h11,ok_bind,pure_eq_ok,PeerType.fromByte_toByte]

theorem PeerDiscovery.parse_at (p : PeerDiscovery) (h : At buf 0 (p.layout ++ t)) :
    parse buf = .ok p := by
  apply p.parse_fields (t := 0 :: t)
  rw [layout,List.dropLast_concat]
  simpa only [layout,List.append_assoc,List.cons_append,List.nil_append] using h

theorem toUInt8_ne_zero (x : Bool) : (x.toUInt8 != 0) = x := by cases x <;> decide

theorem Command.parse_payload (c : Command) (hfit : (Packet.command c).Fits)
    (h3 : getU16 buf 3 = .ok c.seq) (h5 : At buf 5 (toBE 8 c.timestamp.toUInt64.toNat ++
      (c.acknowledged.toUInt8 :: (strU16 (utf8 c.name) ++ (c.extraLayout ++ t))))) :
    parse buf = .ok c := by
  obtain ⟨hname,hextra,hack⟩ := hfit
  have h13 := h5.next (length_toBE 8 _)
  have h14 := h13.tail
  have hoff := h14.next (length_strU16 _)
  rcases c with ⟨seq,timestamp,acknowledged,name,extra⟩
  cases acknowledged with
  | true =>
    have he : extra = "" := hack rfl
    simp only [parse,h3,getI64_at h5,getU8_at h13,getStrU16_at hname h14,ok_bind,pure_eq_ok,
      toUInt8_ne_zero,if_true,he]
  | false =>
    simp only [extraLayout,Bool.false_eq_true,if_false,← Nat.add_assoc] at hoff
    simp only [parse,h3,getI64_at h5,getU8_at h13,getStrU16_at hname h14,ok_bind,pure_eq_ok,
      toUInt8_ne_zero,Bool.false_eq_true,if_false,getStrU16_at hextra hoff]
    rfl

theorem Command.parse_at (c : Command) (hfit : (Packet.command c).Fits)
    (h : At buf 0 (c.layout ++ t)) : parse buf = .ok c := by
  simp only [layout,List.append_assoc,List.cons_append,List.nil_append] at h
  obtain ⟨-,h3,h5⟩ := at_header h
  exact c.parse_payload hfit h3 h5

theorem KeepAlive.parse_at (k : KeepAlive) (h : At buf 0 (k.layout ++ t)) : parse buf = .ok k := by
  simp only [layout,List.append_assoc,List.cons_append,List.nil_append] at h
  obtain ⟨-,h3,h5⟩ := at_header h
  simp only [parse,h3,getU8_at h5,ok_bind,pure_eq_ok]

end Kinds

section Entries

variable {buf t : List UInt8}

theorem Telemetry.parseStrings_at (kvs : List (String × String))
    (hfit : ∀ kv ∈ kvs, (utf8 kv.1).length ≤ 65535 ∧ (utf8 kv.2).length ≤ 65535)
    (off : ℕ) (acc : List (String × String)) (h : At buf off (kvs.flatMap stringLayout ++ t)) :
    parseStrings buf kvs.length off acc =
      .ok (acc ++ kvs,off+(kvs.flatMap stringLayout).length) := by
  induction kvs generalizing off acc with
  | nil => simp [parseStrings]
  | cons kv kvs ih =>
    obtain ⟨hk,hv⟩ := hfit kv (by simp)
    simp only [List.flatMap_cons,stringLayout,List.append_assoc] at h
    have ho := h.next (length_strU16 _)
    have hnext := ho.next (length_strU16 _)
    rw [← Nat.add_assoc] at ho
    simp only [← Nat.add_assoc] at hnext
    have hrest := ih (fun kv hkv => hfit kv (by simp [hkv])) _ (acc ++ [(kv.1,kv.2)]) hnext
    simp only [List.length_cons,parseStrings,getStrU16_at hk h,getStrU16_at hv ho,ok_bind,hrest]
    simp [stringLayout,Nat.add_assoc]

theorem Telemetry.parseNumbers_at (kvs : List (String × F32))
    (hfit : ∀ kv ∈ kvs, (utf8 kv.1).length ≤ 65535) (off : ℕ) (m : Numbers)
    (h : At buf off (kvs.flatMap numberLayout ++ t)) :
    parseNumbers buf kvs.length off m = .ok (m.insertMany kvs) := by
  induction kvs generalizing off m with
  | nil => simp [parseNumbers]
  | cons kv kvs ih =>
    simp only [List.flatMap_cons,numberLayout,List.append_assoc] at h
    have ho := h.next (length_strU16 _)
    have hnext := ho.next (length_toBE 4 _)
    simp only [← Nat.add_assoc] at ho hnext
    have hrest := ih (fun kv hkv => hfit kv (by simp [hkv])) _ (m.insert kv.1 kv.2) hnext
    simp only [List.length_cons,parseNumbers,getStrU16_at (hfit kv (by simp)) h,getF32_at ho,
      ok_bind,hrest]
    rw [Std.ExtTreeMap.insertMany_cons]

/-- Inserting the entries of a map into the empty map gives the map back. -/
theorem insertMany_toList (m : Numbers) : (∅ : Numbers).insertMany m.toList = m := by
  rw [← Std.ExtTreeMap.ofList_eq_insertMany_empty]
  apply Std.ExtTreeMap.ext_getElem?
  intro k
  cases hk : m[k]? with
  | some v =>
    exact Std.ExtTreeMap.getElem?_ofList_of_mem (k := k) Std.ReflCmp.compare_self
      m.distinct_keys_toList (Std.ExtTreeMap.mem_toList_iff_getElem?_eq_some.mpr hk)
  | none =>
    apply Std.ExtTreeMap.getElem?_ofList_of_contains_eq_false
    have hm : k ∉ m := by rwa [Std.ExtTreeMap.mem_iff_isSome_getElem?,Option.isSome_iff_ne_none,not_not]
    simpa [Std.ExtTreeMap.mem_keys] using hm

/-- What follows the tag: each list behind its count. -/
def Telemetry.entries (strings : List (String × String)) (numbers : List (String × F32)) : List UInt8 :=
  [UInt8.ofNat strings.length] ++ strings.flatMap stringLayout ++ [UInt8.ofNat numbers.length]
    ++ numbers.flatMap numberLayout

/-- What the counts and the prefixes in the lists can express. -/
def Telemetry.EntriesFit (strings : List (String × String)) (numbers : List (String × F32)) : Prop :=
  strings.length ≤ 255 ∧ numbers.length ≤ 255 ∧
    (∀ kv ∈ strings, (utf8 kv.1).length ≤ 65535 ∧ (utf8 kv.2).length ≤ 65535) ∧
    ∀ kv ∈ numbers, (utf8 kv.1).length ≤ 65535

variable {tag : String} {strings : List (String × String)} {numbers : List (String × F32)}

/-- The variable part of a telemetry packet, read back field by field. -/
theorem Telemetry.fields_at (htag : (utf8 tag).length ≤ 255) (hfit : EntriesFit strings numbers)
    (h : At buf 15 (strU8 (utf8 tag) ++ (entries strings numbers ++ t))) :
    ∃ o o', getStrU8 buf 15 = .ok (tag,o) ∧ getU8 buf o = .ok (UInt8.ofNat strings.length) ∧
      parseStrings buf strings.length (o+1) [] = .ok (strings,o') ∧
      getU8 buf o' = .ok (UInt8.ofNat numbers.length) ∧
      At buf (o'+1) (numbers.flatMap numberLayout ++ t) := by
  obtain ⟨-,-,hstrings,-⟩ := hfit
  have hcount := h.next (length_strU8 _)
  simp only [entries,List.append_assoc,List.cons_append,List.nil_append,← Nat.add_assoc] at hcount
  have hcount' := hcount.tail.next rfl
  exact ⟨_,_,getStrU8_at htag h,getU8_at hcount,parseStrings_at strings hstrings _ [] hcount.tail,
    getU8_at hcount',hcount'.tail⟩

/-- The two counts survive their prefix. -/
theorem Telemetry.counts (hfit : EntriesFit strings numbers) :
    (UInt8.ofNat strings.length).toNat = strings.length ∧
      (UInt8.ofNat numbers.length).toNat = numbers.length := by
  obtain ⟨hs,hn,-⟩ := hfit
  exact ⟨by simp; omega,by simp; omega⟩

/-- The numbers may come in any order and under repeated keys: the last one counts. -/
theorem Telemetry.parse_payload {seq : UInt16} {timestamp : Int64} {isSorted : Bool}
    {robotState : RobotState} (htag : (utf8 tag).length ≤ 255) (hfit : EntriesFit strings numbers)
    (h3 : getU16 buf 3 = .ok seq) (h5 : At buf 5 (toBE 8 timestamp.toUInt64.toNat ++
      (isSorted.toUInt8 :: (robotState.toByte :: (strU8 (utf8 tag) ++
        (entries strings numbers ++ t)))))) :
    parse buf = .ok ⟨seq,timestamp,isSorted,robotState,tag,strings,(∅ : Numbers).insertMany numbers⟩ := by
  have h13 := h5.next (length_toBE 8 _)
  obtain ⟨o,o',htag,hcount,hstrings,hcount',hat⟩ := fields_at htag hfit h13.tail.tail
  obtain ⟨hs,hn⟩ := counts hfit
  have hnumbers := parseNumbers_at numbers hfit.2.2.2 _ ∅ hat
  simp only [parse,h3,getI64_at h5,getU8_at h13,getU8_at h13.tail,htag,hcount,hs,hstrings,hcount',
    hn,hnumbers,ok_bind,pure_eq_ok,RobotState.fromByte_toByte,toUInt8_ne_zero]

theorem Telemetry.entriesFit {tel : Telemetry} (hfit : (Packet.telemetry tel).Fits) :
    EntriesFit tel.strings tel.numbers.toList := by
  obtain ⟨-,hs,hn,hstrings,hnumbers⟩ := hfit
  refine ⟨hs,by simpa using hn,hstrings,fun kv hkv => hnumbers kv.1 ?_⟩
  rw [Std.ExtTreeMap.mem_iff_isSome_getElem?,Option.isSome_iff_exists]
  exact ⟨kv.2,Std.ExtTreeMap.mem_toList_iff_getElem?_eq_some.mp hkv⟩

/-- A telemetry packet's bytes behind the header. -/
theorem Telemetry.at_payload {tel : Telemetry} (h : At buf 0 (tel.layout ++ t)) :
    getU16 buf 3 = .ok tel.seq ∧ At buf 5 (toBE 8 tel.timestamp.toUInt64.toNat ++
      (tel.isSorted.toUInt8 :: (tel.robotState.toByte :: (strU8 (utf8 tel.tag) ++
        (entries tel.strings tel.numbers.toList ++ t))))) := by
  simp only [layout,List.append_assoc,List.cons_append,List.nil_append] at h
  simp only [entries,List.append_assoc,List.cons_append,List.nil_append,Std.ExtTreeMap.length_toList]
  exact (at_header h).2

theorem Telemetry.parse_at (tel : Telemetry) (hfit : (Packet.telemetry tel).Fits)
    (h : At buf 0 (tel.layout ++ t)) : parse buf = .ok tel := by
  obtain ⟨h3,h5⟩ := at_payload h
  rw [parse_payload hfit.1 (entriesFit hfit) h3 h5,insertMany_toList]

end Entries

theorem Packet.parse_at (p : Packet) (hfit : p.Fits) {buf t : List UInt8}
    (h : At buf 0 (p.layout ++ t)) : parse buf = .ok p := by
  cases p with
  | heartbeat hb =>
    have h0 := h
    simp only [layout,Heartbeat.layout,List.append_assoc] at h0
    simp [parse,(at_header h0).1,hb.parse_at hfit h,UID_HEARTBEAT]
  | gamepad g =>
    have h0 := h
    simp only [layout,Gamepad.layout,List.append_assoc] at h0
    simp [parse,(at_header h0).1,g.parse_at h,UID_HEARTBEAT,UID_GAMEPAD]
  | peerDiscovery p =>
    have h0 := h
    simp only [layout,PeerDiscovery.layout,List.append_assoc,List.cons_append,List.nil_append] at h0
    simp [parse,getU8_at h0,p.parse_at h,UID_HEARTBEAT,UID_GAMEPAD,UID_PEER_DISCOVERY]
  | command c =>
    have h0 := h
    simp only [layout,Command.layout,List.append_assoc] at h0
    simp [parse,(at_header h0).1,c.parse_at hfit h,UID_HEARTBEAT,UID_GAMEPAD,UID_PEER_DISCOVERY,
      UID_COMMAND]
  | telemetry t =>
    have h0 := h
    simp only [layout,Telemetry.layout,List.append_assoc] at h0
    simp [parse,(at_header h0).1,t.parse_at hfit h,UID_HEARTBEAT,UID_GAMEPAD,UID_PEER_DISCOVERY,
      UID_COMMAND,UID_TELEMETRY]
  | keepAlive k =>
    have h0 := h
    simp only [layout,KeepAlive.layout,List.append_assoc] at h0
    simp [parse,(at_header h0).1,k.parse_at h,UID_HEARTBEAT,UID_GAMEPAD,UID_PEER_DISCOVERY,
      UID_COMMAND,UID_TELEMETRY,UID_KEEP_ALIVE]

/-- A packet's own bytes parse back, whatever follows them. -/
theorem Packet.parse_layout (p : Packet) (hfit : p.Fits) (t : List UInt8) :
    parse (p.layout ++ t) = .ok p :=
  p.parse_at hfit (at_append [] (p.layout ++ t))

section Limits

variable {buf : List UInt8}

theorem Telemetry.parseStrings_fits (n off : ℕ) (acc l : List (String × String)) (o : ℕ)
    (hacc : ∀ kv ∈ acc, (utf8 kv.1).length ≤ 65535 ∧ (utf8 kv.2).length ≤ 65535)
    (h : parseStrings buf n off acc = .ok (l,o)) :
    l.length = acc.length+n ∧
      ∀ kv ∈ l, (utf8 kv.1).length ≤ 65535 ∧ (utf8 kv.2).length ≤ 65535 := by
  induction n generalizing off acc with
  | zero =>
    simp only [parseStrings,pure_eq_ok,Except.ok.injEq,Prod.mk.injEq] at h
    obtain ⟨rfl,-⟩ := h
    exact ⟨rfl,hacc⟩
  | succ n ih =>
    simp only [parseStrings,bind_eq_ok] at h
    obtain ⟨⟨key,ok⟩,hk,⟨value,ov⟩,hv,h⟩ := h
    have hentry : ∀ kv ∈ acc ++ [(key,value)],
        (utf8 kv.1).length ≤ 65535 ∧ (utf8 kv.2).length ≤ 65535 := by
      intro kv hkv
      rcases List.mem_append.mp hkv with hkv|hkv
      · exact hacc kv hkv
      · rw [List.mem_singleton.mp hkv]
        exact ⟨(getStrU16_ok hk).1,(getStrU16_ok hv).1⟩
    obtain ⟨hlen,hfit⟩ := ih _ _ hentry h
    exact ⟨by simp at hlen; omega,hfit⟩

theorem Telemetry.parseNumbers_fits (n off : ℕ) (m numbers : Numbers)
    (hm : ∀ k ∈ m, (utf8 k).length ≤ 65535) (h : parseNumbers buf n off m = .ok numbers) :
    numbers.size ≤ m.size+n ∧ ∀ k ∈ numbers, (utf8 k).length ≤ 65535 := by
  induction n generalizing off m with
  | zero =>
    simp only [parseNumbers,pure_eq_ok,Except.ok.injEq] at h
    obtain rfl := h
    exact ⟨le_rfl,hm⟩
  | succ n ih =>
    simp only [parseNumbers,bind_eq_ok] at h
    obtain ⟨⟨key,ok⟩,hk,value,-,h⟩ := h
    have hentry : ∀ k ∈ m.insert key value, (utf8 k).length ≤ 65535 := by
      intro k hkm
      rcases Std.ExtTreeMap.mem_insert.mp hkm with heq|hkm
      · rw [← Std.LawfulEqCmp.eq_of_compare heq]
        exact (getStrU16_ok hk).1
      · exact hm k hkm
    obtain ⟨hsize,hfit⟩ := ih _ _ hentry h
    have hle := Std.ExtTreeMap.size_insert_le (t := m) (k := key) (v := value)
    exact ⟨by omega,hfit⟩

theorem Command.parse_fits (c : Command) (h : parse buf = .ok c) : (Packet.command c).Fits := by
  simp only [parse,bind_eq_ok] at h
  obtain ⟨ack,-,⟨name,o⟩,hname,h⟩ := h
  have hn := (getStrU16_ok hname).1
  by_cases hack : (ack != 0) = true
  · simp only [hack,if_true,bind_eq_ok,pure_eq_ok,Except.ok.injEq] at h
    obtain ⟨extra,rfl,_,-,_,-,rfl⟩ := h
    exact ⟨hn,by simp [utf8],fun _ => rfl⟩
  · simp only [hack,Bool.false_eq_true,if_false,bind_eq_ok,pure_eq_ok,Except.ok.injEq] at h
    obtain ⟨extra,hextra,_,-,_,-,rfl⟩ := h
    cases hg : getStrU16 buf o with
    | error e => simp [hg] at hextra
    | ok r =>
      obtain rfl : r.1 = extra := by simpa [hg] using hextra
      exact ⟨hn,(getStrU16_ok hg).1,fun hacked => absurd hacked Bool.false_ne_true⟩

/-- What a parser returns is within the limits, since the prefixes it read are. -/
theorem Packet.parse_fits (p : Packet) (h : parse buf = .ok p) : p.Fits := by
  simp only [parse,bind_eq_ok] at h
  obtain ⟨uid,-,h⟩ := h
  split_ifs at h
  · simp only [Heartbeat.parse,bind_eq_ok,pure_eq_ok,Except.ok.injEq] at h
    obtain ⟨hb,⟨_,-,_,-,_,-,_,-,_,-,_,-,⟨tz,o⟩,htz,rfl⟩,rfl⟩ := h
    exact (getStrU8_ok htz).1
  · simp only [bind_eq_ok,pure_eq_ok,Except.ok.injEq] at h
    obtain ⟨g,-,rfl⟩ := h
    trivial
  · simp only [bind_eq_ok,pure_eq_ok,Except.ok.injEq] at h
    obtain ⟨g,-,rfl⟩ := h
    trivial
  · simp only [bind_eq_ok,pure_eq_ok,Except.ok.injEq] at h
    obtain ⟨c,hc,rfl⟩ := h
    exact Command.parse_fits c hc
  · simp only [Telemetry.parse,bind_eq_ok,pure_eq_ok,Except.ok.injEq] at h
    obtain ⟨tel,⟨_,-,_,-,_,-,_,-,⟨tag,o⟩,htag,ns,-,⟨strings,o'⟩,hs,nn,-,numbers,hn,rfl⟩,rfl⟩ := h
    obtain ⟨hlen,hstrings⟩ := Telemetry.parseStrings_fits _ _ _ _ _ (by simp) hs
    obtain ⟨hsize,hnumbers⟩ := Telemetry.parseNumbers_fits _ _ _ _ (by simp) hn
    have hns := ns.toNat_lt
    have hnn := nn.toNat_lt
    simp at hlen hsize
    have hs' : strings.length ≤ 255 := by omega
    have hn' : numbers.size ≤ 255 := by omega
    exact ⟨(getStrU8_ok htag).1,hs',hn',hstrings,hnumbers⟩
  · simp only [bind_eq_ok,pure_eq_ok,Except.ok.injEq] at h
    obtain ⟨g,-,rfl⟩ := h
    trivial

end Limits

/-- The whole format round-trips: a packet within the limits is read back from its own
bytes whatever follows them, and everything a parser accepts is within the limits. -/
theorem Packet.round_trip :
    (∀ p : Packet, p.Fits → ∃ s, p.serialize = some s ∧ ∀ t, parse (s ++ t) = .ok p) ∧
    ∀ (b : List UInt8) (p : Packet), parse b = .ok p →
      p.Fits ∧ ∃ s, p.serialize = some s ∧ parse s = .ok p := by
  refine ⟨fun p hp => ⟨p.layout,p.serialize_eq,p.parse_layout hp⟩,fun b p h => ?_⟩
  have hp := p.parse_fits h
  have hs := p.parse_layout hp []
  rw [List.append_nil] at hs
  exact ⟨hp,p.layout,p.serialize_eq,hs⟩

/-- A command with arguments, followed by a stray byte. -/
theorem Packet.round_trip_command :
    ∃ s, serialize (.command (Command.new "CMD_INIT_OP_MODE" "Drive" 7)) = some s ∧
      parse (s ++ [9]) = .ok (.command (Command.new "CMD_INIT_OP_MODE" "Drive" 7)) := by
  obtain ⟨s,hs,hparse⟩ := round_trip.1 (.command (Command.new "CMD_INIT_OP_MODE" "Drive" 7))
    ⟨by decide,by decide,by decide⟩
  exact ⟨s,hs,hparse [9]⟩

end Parse

end Robocol
