import Robocol.PacketTruncation
import Robocol.StdText

/-! Values beyond the wire format. A serializer narrows lengths and counts to their
prefixes and still writes all of the data behind them, so a parser keeps what the
narrowed prefix covers and reads the lost rest as the fields that come next. Such a
datagram is rejected exactly where what it kept and lost does not happen to be well
formed. -/
namespace Robocol

open ByteLayout Wire

section Narrowing

variable {s s' : String} {t rest : List UInt8}

/-- What a prefix of `w` bytes still covers of a string. -/
def kept (w : ℕ) (s : String) : List UInt8 := (utf8 s).take ((utf8 s).length%256^w)

/-- The part of a string behind what its prefix of `w` bytes covers. -/
def lost (w : ℕ) (s : String) : List UInt8 := (utf8 s).drop ((utf8 s).length%256^w)

theorem kept_lost (w : ℕ) (s : String) : kept w s ++ lost w s = utf8 s := List.take_append_drop _ _

theorem length_kept (w : ℕ) (s : String) : (kept w s).length = (utf8 s).length%256^w := by
  have hle := Nat.mod_le (utf8 s).length (256^w)
  simp [kept,hle]

theorem strU8_eq_iff (hfit : (utf8 s').length ≤ 255) :
    strU8 (utf8 s) ++ t = strU8 (utf8 s') ++ rest ↔ utf8 s' = kept 1 s ∧ rest = lost 1 s ++ t := by
  have hcount : UInt8.ofNat (utf8 s).length = UInt8.ofNat (utf8 s').length ↔
      (utf8 s').length = (kept 1 s).length := by
    rw [← UInt8.toNat_inj,length_kept]
    simp
    omega
  simp only [strU8,List.cons_append,List.cons.injEq,hcount]
  rw [← kept_lost 1 s,List.append_assoc]
  constructor
  · rintro ⟨hlen,heq⟩
    obtain ⟨hkept,hrest⟩ := List.append_inj heq hlen.symm
    exact ⟨hkept.symm,hrest.symm⟩
  · rintro ⟨hkept,hrest⟩
    exact ⟨by rw [hkept],by rw [hkept,hrest]⟩

theorem strU16_eq_iff (hfit : (utf8 s').length ≤ 65535) :
    strU16 (utf8 s) ++ t = strU16 (utf8 s') ++ rest ↔ utf8 s' = kept 2 s ∧ rest = lost 2 s ++ t := by
  have hcount : toBE 2 (UInt16.ofNat (utf8 s).length).toNat = toBE 2 (UInt16.ofNat (utf8 s').length).toNat ↔
      (utf8 s').length = (kept 2 s).length := by
    rw [length_kept]
    constructor
    · intro h
      have hval := congrArg ofBE h
      simp only [ofBE_toBE] at hval
      simp at hval
      omega
    · intro h
      congr 1
      simp
      omega
  simp only [strU16,List.append_assoc]
  rw [← kept_lost 2 s,List.append_assoc]
  constructor
  · intro h
    obtain ⟨hlen,heq⟩ := List.append_inj h (by simp)
    rw [kept_lost] at hlen
    obtain ⟨hkept,hrest⟩ := List.append_inj heq (hcount.mp hlen).symm
    exact ⟨hkept.symm,hrest.symm⟩
  · rintro ⟨hkept,hrest⟩
    rw [kept_lost,hcount.mpr (by rw [hkept]),hkept,hrest]

end Narrowing

section Loops

variable {buf : List UInt8}

theorem Telemetry.parseStrings_ok (n off : ℕ) (acc l : List (String × String)) (o : ℕ)
    (hoff : off ≤ buf.length) (h : parseStrings buf n off acc = .ok (l,o)) :
    ∃ kvs, l = acc ++ kvs ∧ kvs.length = n ∧
      (∀ kv ∈ kvs, (utf8 kv.1).length ≤ 65535 ∧ (utf8 kv.2).length ≤ 65535) ∧
      At buf off (kvs.flatMap stringLayout ++ buf.drop o) ∧ o ≤ buf.length := by
  induction n generalizing off acc with
  | zero =>
    simp only [parseStrings,pure_eq_ok,Except.ok.injEq,Prod.mk.injEq] at h
    obtain ⟨rfl,rfl⟩ := h
    exact ⟨[],by simp,rfl,by simp,⟨hoff,rfl⟩,hoff⟩
  | succ n ih =>
    simp only [parseStrings,bind_eq_ok] at h
    obtain ⟨⟨key,ok⟩,hk,⟨value,ov⟩,hv,h⟩ := h
    obtain ⟨hkfit,hko,hkat⟩ := getStrU16_ok hk
    obtain ⟨hvfit,hvo,hvat⟩ := getStrU16_ok hv
    have hend := (hvat.next (length_strU16 _)).1
    obtain ⟨kvs,rfl,hlen,hfit,hat,ho⟩ := ih ov (acc ++ [(key,value)]) (by omega) h
    refine ⟨(key,value) :: kvs,by simp,by simp [hlen],?_,?_,ho⟩
    · exact List.forall_mem_cons.mpr ⟨⟨hkfit,hvfit⟩,hfit⟩
    · refine ⟨hoff,?_⟩
      rw [List.flatMap_cons,stringLayout,List.append_assoc,List.append_assoc,← hat.2,← hvat.2]
      exact hkat.2

theorem Telemetry.parseNumbers_ok (n off : ℕ) (m numbers : Numbers)
    (hoff : off ≤ buf.length) (h : parseNumbers buf n off m = .ok numbers) :
    ∃ (kvs : List (String × F32)) (rest : List UInt8), kvs.length = n ∧
      (∀ kv ∈ kvs, (utf8 kv.1).length ≤ 65535) ∧ At buf off (kvs.flatMap numberLayout ++ rest) := by
  induction n generalizing off m with
  | zero => exact ⟨[],buf.drop off,rfl,by simp,hoff,rfl⟩
  | succ n ih =>
    simp only [parseNumbers,bind_eq_ok] at h
    obtain ⟨⟨key,o⟩,hk,value,hv,h⟩ := h
    obtain ⟨hkfit,hko,hkat⟩ := getStrU16_ok hk
    have hvat := getF32_ok hv
    have hend := (hvat.next (length_toBE 4 _)).1
    obtain ⟨kvs,rest,hlen,hfit,hat⟩ := ih (o+4) (m.insert key value) hend h
    refine ⟨(key,value) :: kvs,rest,by simp [hlen],List.forall_mem_cons.mpr ⟨hkfit,hfit⟩,hoff,?_⟩
    rw [List.flatMap_cons,numberLayout,List.append_assoc,List.append_assoc,← hat.2,← hvat.2]
    exact hkat.2

/-- The variable part of an accepted telemetry packet: the string that was taken for the
tag, and behind it lists that were taken for the entries. -/
theorem Telemetry.parse_ok {tel : Telemetry} (h : parse buf = .ok tel) :
    ∃ (strings : List (String × String)) (numbers : List (String × F32)) (rest : List UInt8),
      (utf8 tel.tag).length ≤ 255 ∧ EntriesFit strings numbers ∧
      At buf 15 (strU8 (utf8 tel.tag) ++ (entries strings numbers ++ rest)) := by
  simp only [parse,bind_eq_ok,pure_eq_ok,Except.ok.injEq] at h
  obtain ⟨_,-,_,-,_,-,_,-,⟨tag,o⟩,htag,ns,hns,⟨strings,o'⟩,hs,nn,hnn,numbers,hn,rfl⟩ := h
  obtain ⟨htagfit,ho,htagat⟩ := getStrU8_ok htag
  have hnsat := getU8_ok hns
  have hnnat := getU8_ok hnn
  obtain ⟨kvs,hkvs,hslen,hsfit,hsat,-⟩ := parseStrings_ok _ _ _ _ _ hnsat.tail.1 hs
  obtain ⟨nkvs,rest,hnlen,hnfit,hnat⟩ := parseNumbers_ok _ _ _ _ hnnat.tail.1 hn
  have hnslt := ns.toNat_lt
  have hnnlt := nn.toNat_lt
  have hscount : UInt8.ofNat kvs.length = ns := by simp [hslen]
  have hncount : UInt8.ofNat nkvs.length = nn := by simp [hnlen]
  refine ⟨kvs,nkvs,rest,htagfit,⟨by omega,by omega,hsfit,hnfit⟩,htagat.1,?_⟩
  simp only [entries,List.append_assoc,List.cons_append,List.nil_append,hscount,hncount]
  rw [← hnat.2,← hnnat.2,← hsat.2,← hnsat.2]
  exact htagat.2

end Loops

section Oversized

/-- A field beyond what its prefix or count can express. -/
def Packet.Oversized : Packet → Prop
  | .heartbeat hb => 255 < (utf8 hb.timezoneId).length
  | .gamepad _ | .peerDiscovery _ | .keepAlive _ => False
  | .command c => 65535 < (utf8 c.name).length ∨ 65535 < (utf8 c.extra).length
  | .telemetry t => 255 < (utf8 t.tag).length ∨ 255 < t.strings.length ∨ 255 < t.numbers.size ∨
      (∃ kv ∈ t.strings, 65535 < (utf8 kv.1).length ∨ 65535 < (utf8 kv.2).length) ∨
      ∃ k ∈ t.numbers, 65535 < (utf8 k).length

theorem Packet.Oversized.not_fits {p : Packet} (h : p.Oversized) : ¬p.Fits := by
  cases p with
  | heartbeat hb => exact Nat.not_le_of_lt h
  | gamepad g => exact h.elim
  | peerDiscovery d => exact h.elim
  | command c =>
    rintro ⟨hname,hextra,-⟩
    rcases h with h|h <;> omega
  | telemetry t =>
    rintro ⟨htag,hs,hn,hstrings,hnumbers⟩
    rcases h with h|h|h|⟨kv,hkv,h⟩|⟨k,hk,h⟩
    · omega
    · omega
    · omega
    · have hfit := hstrings kv hkv
      omega
    · have hfit := hnumbers k hk
      omega
  | keepAlive k => exact h.elim

/-- What the narrowed prefixes of a packet cover, and what they leave to be read as the
fields behind, is well formed by chance: no kept string is cut inside a character, and
further strings and entries are spelled where a parser looks for them. -/
def Packet.Misread : Packet → Prop
  | .heartbeat hb => ∃ tz, utf8 tz = kept 1 hb.timezoneId
  | .gamepad _ | .peerDiscovery _ | .keepAlive _ => True
  | .command c => (∃ name, utf8 name = kept 2 c.name) ∧ (c.acknowledged = false →
      ∃ extra rest, (utf8 extra).length ≤ 65535 ∧
        lost 2 c.name ++ strU16 (utf8 c.extra) = strU16 (utf8 extra) ++ rest)
  | .telemetry t => (∃ tag, utf8 tag = kept 1 t.tag) ∧
      ∃ strings numbers rest, Telemetry.EntriesFit strings numbers ∧
        lost 1 t.tag ++ Telemetry.entries t.strings t.numbers.toList =
          Telemetry.entries strings numbers ++ rest

variable {buf : List UInt8}

theorem Heartbeat.accepted_iff (hb : Heartbeat) (hat : At buf 0 (hb.layout ++ [])) :
    (∃ q, Heartbeat.parse buf = .ok q) ↔ (Packet.heartbeat hb).Misread := by
  simp only [layout,List.append_assoc,List.cons_append,List.nil_append] at hat
  obtain ⟨-,h3,h5⟩ := at_header hat
  have h38 := ((((h5.next (length_toBE 8 _)).tail.next (length_toBE 8 _)).next (length_toBE 8 _)).next
    (length_toBE 8 _))
  constructor
  · rintro ⟨q,h⟩
    simp only [parse,bind_eq_ok,pure_eq_ok,Except.ok.injEq] at h
    obtain ⟨_,-,_,-,_,-,_,-,_,-,_,-,⟨tz,o⟩,htz,rfl⟩ := h
    obtain ⟨hfit,-,htzat⟩ := getStrU8_ok htz
    exact ⟨tz,((strU8_eq_iff hfit).mp (h38.2.symm.trans htzat.2)).1⟩
  · rintro ⟨tz,hkept⟩
    have hfit : (utf8 tz).length ≤ 255 := by
      rw [hkept,length_kept]
      omega
    rw [(strU8_eq_iff hfit).mpr ⟨hkept,rfl⟩] at h5
    exact ⟨_,parse_payload { hb with timezoneId := tz } hfit h3 h5⟩

theorem Command.accepted_iff (c : Command) (hat : At buf 0 (c.layout ++ [])) :
    (∃ q, Command.parse buf = .ok q) ↔ (Packet.command c).Misread := by
  simp only [layout,List.append_assoc,List.cons_append,List.nil_append] at hat
  obtain ⟨-,h3,h5⟩ := at_header hat
  have h13 := h5.next (length_toBE 8 _)
  have h14 := h13.tail
  constructor
  · rintro ⟨q,h⟩
    simp only [parse,bind_eq_ok] at h
    obtain ⟨ack,hack,⟨name,o⟩,hname,h⟩ := h
    obtain rfl := Except.ok.inj ((getU8_at h13).symm.trans hack)
    obtain ⟨hfit,-,hnameat⟩ := getStrU16_ok hname
    obtain ⟨hkept,hlost⟩ := (strU16_eq_iff hfit).mp (h14.2.symm.trans hnameat.2)
    refine ⟨⟨name,hkept⟩,fun hacked => ?_⟩
    simp only [toUInt8_ne_zero,hacked,Bool.false_eq_true,if_false,bind_eq_ok] at h
    obtain ⟨extra,hextra,-⟩ := h
    cases hg : getStrU16 buf o with
    | error e => simp [hg] at hextra
    | ok r =>
      obtain ⟨hextrafit,-,hextraat⟩ := getStrU16_ok hg
      refine ⟨r.1,buf.drop r.2,hextrafit,?_⟩
      rw [← hextraat.2,hlost,extraLayout,hacked]
      simp
  · rintro ⟨⟨name,hkept⟩,hextra⟩
    have hfit : (utf8 name).length ≤ 65535 := by
      rw [hkept,length_kept]
      omega
    rw [(strU16_eq_iff hfit).mpr ⟨hkept,rfl⟩] at h5
    cases hacked : c.acknowledged with
    | true =>
      refine ⟨_,parse_payload { c with name := name, extra := "" } ⟨hfit,by simp [utf8],fun _ => rfl⟩ h3
        (t := lost 2 c.name ++ (c.extraLayout ++ [])) ?_⟩
      simpa only [extraLayout,hacked,if_true,List.nil_append] using h5
    | false =>
      obtain ⟨extra,rest,hextrafit,hlost⟩ := hextra hacked
      refine ⟨_,parse_payload { c with name := name, extra := extra }
        ⟨hfit,hextrafit,fun h => absurd (hacked.symm.trans h) Bool.false_ne_true⟩ h3 (t := rest) ?_⟩
      simpa only [extraLayout,hacked,Bool.false_eq_true,if_false,List.append_nil,hlost] using h5

theorem Telemetry.accepted_iff (t : Telemetry) (hat : At buf 0 (t.layout ++ [])) :
    (∃ q, Telemetry.parse buf = .ok q) ↔ (Packet.telemetry t).Misread := by
  obtain ⟨h3,h5⟩ := at_payload hat
  have h15 := (h5.next (length_toBE 8 _)).tail.tail
  constructor
  · rintro ⟨q,h⟩
    obtain ⟨strings,numbers,rest,htag,hfit,hat⟩ := parse_ok h
    obtain ⟨hkept,hlost⟩ := (strU8_eq_iff htag).mp (h15.2.symm.trans hat.2)
    rw [List.append_nil] at hlost
    exact ⟨⟨q.tag,hkept⟩,strings,numbers,rest,hfit,hlost.symm⟩
  · rintro ⟨⟨tag,hkept⟩,strings,numbers,rest,hfit,hlost⟩
    have htag : (utf8 tag).length ≤ 255 := by
      rw [hkept,length_kept]
      omega
    rw [(strU8_eq_iff htag).mpr ⟨hkept,rfl⟩,List.append_nil,hlost] at h5
    exact ⟨_,parse_payload htag hfit h3 h5⟩

theorem Packet.accepted_iff (p : Packet) : (∃ q, parse p.layout = .ok q) ↔ p.Misread := by
  obtain ⟨rest,hrest⟩ := p.layout_eq_cons
  have huid : getU8 p.layout 0 = .ok p.uid := by rw [hrest]; rfl
  have hat : At p.layout 0 (p.layout ++ []) := by simpa using at_append [] p.layout
  have hmap {α : Type} (x : Except Error α) (f : α → Packet) :
      (∃ q, f <$> x = .ok q) ↔ ∃ a, x = .ok a := by
    cases x with
    | error e => simp
    | ok a => simp
  rw [p.parse_uid huid]
  have hfull : p.Fits → (∃ q, p.parseKind p.layout = .ok q) := fun hfit => by
    have h := p.parse_layout hfit []
    rw [List.append_nil,p.parse_uid huid] at h
    exact ⟨p,h⟩
  cases p with
  | heartbeat hb => exact (hmap _ _).trans (hb.accepted_iff hat)
  | command c => exact (hmap _ _).trans (c.accepted_iff hat)
  | telemetry t => exact (hmap _ _).trans (t.accepted_iff hat)
  | gamepad g => exact iff_of_true (hfull trivial) trivial
  | peerDiscovery d => exact iff_of_true (hfull trivial) trivial
  | keepAlive k => exact iff_of_true (hfull trivial) trivial

/-- An oversized packet's datagram is rejected exactly where it is not misread, and what
it is misread as is another packet. -/
theorem Packet.rejected_iff (p : Packet) (hover : p.Oversized) {s : List UInt8}
    (hs : p.serialize = some s) :
    ((∃ e, parse s = .error e) ↔ ¬p.Misread) ∧ ∀ q, parse s = .ok q → q ≠ p := by
  rw [p.serialize_eq] at hs
  obtain rfl := Option.some.inj hs
  constructor
  · rw [← p.accepted_iff]
    cases h : parse p.layout with
    | error e => simp
    | ok q => simp
  · rintro q hq rfl
    exact hover.not_fits (q.parse_fits hq)

theorem utf8_umlaut (n : ℕ) :
    utf8 ("ü" ++ String.ofList (List.replicate n 'A')) = [0xC3,0xBC] ++ List.replicate n 65 := by
  have hascii := @StdText.utf8_ofBytes (List.replicate n 65) fun b hb => by
    rw [(List.mem_replicate.mp hb).2]
    decide
  rw [List.map_replicate] at hascii
  rw [← hascii]
  simp only [utf8,String.toByteArray_append,ByteArray.data_append,Array.toList_append]
  rfl

/-- A time zone of 257 bytes: its first byte is all that is kept, and it is half a character. -/
theorem Packet.rejected_half_character :
    ∃ s, serialize (.heartbeat { timezoneId := "ü" ++ String.ofList (List.replicate 255 'A') }) = some s ∧
      ∃ e, parse s = .error e := by
  have hlen : (utf8 ("ü" ++ String.ofList (List.replicate 255 'A'))).length = 257 := by
    rw [utf8_umlaut,List.length_append,List.length_replicate]
    rfl
  have hover : (Packet.heartbeat { timezoneId := "ü" ++ String.ofList (List.replicate 255 'A') }).Oversized :=
    (by decide : 255 < 257).trans_eq hlen.symm
  refine ⟨_,serialize_eq _,(rejected_iff _ hover (serialize_eq _)).1.mpr ?_⟩
  rintro ⟨tz,htz⟩
  have hvalid : fromUtf8 [0xC3] = some tz := by
    rw [← fromUtf8_utf8 tz,htz,kept,hlen,utf8_umlaut]
    rfl
  have hnone : fromUtf8 [0xC3] = none := by decide
  rw [hnone] at hvalid
  cases hvalid

/-- The count of 256 empty lines wraps to 0, and the zeros behind it are read as a packet
without lines and numbers. -/
theorem Packet.lines_vanish :
    (Packet.telemetry { strings := List.replicate 256 ("","") }).Oversized ∧
      ∃ s, serialize (.telemetry { strings := List.replicate 256 ("","") }) = some s ∧
        parse s = .ok (.telemetry {}) := by
  have hover : (Packet.telemetry { strings := List.replicate 256 ("","") }).Oversized :=
    .inr (.inl (by rw [List.length_replicate]; decide))
  refine ⟨hover,_,serialize_eq _,?_⟩
  have hcount : UInt8.ofNat (List.replicate 256 ("","")).length = 0 := by
    rw [List.length_replicate]
    rfl
  obtain ⟨rest,hrest⟩ : ∃ rest, Telemetry.entries (List.replicate 256 ("","")) (∅ : Numbers).toList =
      Telemetry.entries [] [] ++ rest := by
    rw [Telemetry.entries,hcount,List.replicate_succ,List.flatMap_cons]
    exact ⟨_,rfl⟩
  have hat : At (layout (.telemetry { strings := List.replicate 256 ("","") })) 0
      (layout (.telemetry { strings := List.replicate 256 ("","") }) ++ []) := by
    rw [List.append_nil]
    exact at_append [] _
  obtain ⟨h3,h5⟩ := Telemetry.at_payload hat
  rw [hrest,List.append_nil] at h5
  rw [parse_uid (.telemetry { strings := List.replicate 256 ("","") }) rfl,parseKind,
    Telemetry.parse_payload (by decide) ⟨by decide,by decide,by simp,by simp⟩ h3 h5]
  rfl

end Oversized

end Robocol
