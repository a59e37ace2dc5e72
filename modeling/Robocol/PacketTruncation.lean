import Robocol.PacketRoundTrip

/-! Datagrams that lost their tail. Every reading a parser makes either runs into
the cut or returns what it would have returned without it, so a parser that
succeeds on a cut datagram has read the packet that was sent; and then it has read
up to the packet's last byte. -/
namespace Robocol

open ByteLayout Wire

section Cuts

variable {α β : Type}

/-- A reading that a cut either ends with `truncated` or does not change. -/
def SeesCut (f : List UInt8 → Except Error α) : Prop :=
  ∀ (buf : List UInt8) (k : ℕ), f (buf.take k) = .error .truncated ∨ f (buf.take k) = f buf

theorem SeesCut.pure (a : α) : SeesCut fun _ => .ok a := fun _ _ => .inr rfl

theorem SeesCut.bind {f : List UInt8 → Except Error α} {g : α → List UInt8 → Except Error β}
    (hf : SeesCut f) (hg : ∀ a, SeesCut (g a)) : SeesCut fun buf => f buf >>= fun a => g a buf := by
  intro buf k
  rcases hf buf k with h|h
  · exact .inl (by simp only [h,error_bind])
  · cases hfull : f buf with
    | error e => exact .inr (by simp only [h,hfull,error_bind])
    | ok a => simpa only [h,hfull,ok_bind] using hg a buf k

/-- What is read from a cut buffer is what the whole buffer holds. -/
theorem SeesCut.of_ok {f : List UInt8 → Except Error α} (hf : SeesCut f) {buf : List UInt8} {k : ℕ}
    {a : α} (h : f (buf.take k) = .ok a) : f buf = .ok a := by
  rcases hf buf k with hcut|hsame
  · rw [h] at hcut
    cases hcut
  · rw [← hsame,h]

theorem getBytes_seesCut (off len : ℕ) : SeesCut (getBytes · off len) := by
  intro buf k
  rcases read_take buf k off len with h|h
  · exact .inl (by simp only [getBytes,h,Option.elim_none])
  · exact .inr (by simp only [getBytes,h])

theorem getU8_seesCut (off : ℕ) : SeesCut (getU8 · off) := by
  intro buf k
  by_cases hk : off < k
  · exact .inr (by simp only [getU8,List.getElem?_take_of_lt hk])
  · exact .inl (by simp only [getU8,List.getElem?_take_eq_none (Nat.le_of_not_lt hk),Option.elim_none])

theorem getU16_seesCut (off : ℕ) : SeesCut (getU16 · off) :=
  (getBytes_seesCut off 2).bind fun _ => .pure _

theorem getU32_seesCut (off : ℕ) : SeesCut (getU32 · off) :=
  (getBytes_seesCut off 4).bind fun _ => .pure _

theorem getI64_seesCut (off : ℕ) : SeesCut (getI64 · off) :=
  (getBytes_seesCut off 8).bind fun _ => .pure _

theorem getF32_seesCut (off : ℕ) : SeesCut (getF32 · off) :=
  (getU32_seesCut off).bind fun _ => .pure _

/-- The bytes are fetched before they are decoded, so a cut inside a character is
`truncated` and never `badUtf8`. -/
theorem getStr_seesCut (off len : ℕ) : SeesCut (getStr · off len) :=
  (getBytes_seesCut off len).bind fun _ _ _ => .inr rfl

theorem getStrU16_seesCut (off : ℕ) : SeesCut (getStrU16 · off) :=
  (getU16_seesCut off).bind fun _ => (getStr_seesCut _ _).bind fun _ => .pure _

theorem getStrU8_seesCut (off : ℕ) : SeesCut (getStrU8 · off) :=
  (getU8_seesCut off).bind fun _ => (getStr_seesCut _ _).bind fun _ => .pure _

end Cuts

section Parsers

theorem Heartbeat.parse_seesCut : SeesCut parse := by
  unfold parse
  exact (getU16_seesCut _).bind fun _ => (getI64_seesCut _).bind fun _ => (getU8_seesCut _).bind
    fun _ => (getI64_seesCut _).bind fun _ => (getI64_seesCut _).bind fun _ =>
    (getI64_seesCut _).bind fun _ => (getStrU8_seesCut _).bind fun _ => .pure _

theorem PeerDiscovery.parse_seesCut : SeesCut parse := by
  unfold parse
  exact (getU8_seesCut _).bind fun _ => (getU8_seesCut _).bind fun _ => (getU16_seesCut _).bind
    fun _ => (getU8_seesCut _).bind fun _ => (getU16_seesCut _).bind fun _ =>
    (getU8_seesCut _).bind fun _ => (getU8_seesCut _).bind fun _ => .pure _

theorem KeepAlive.parse_seesCut : SeesCut parse := by
  unfold parse
  exact (getU16_seesCut _).bind fun _ => (getU8_seesCut _).bind fun _ => .pure _

theorem Command.parse_seesCut : SeesCut parse := by
  unfold parse
  refine (getU8_seesCut _).bind fun ack => (getStrU16_seesCut _).bind fun name => ?_
  by_cases hack : (ack != 0) = true
  · simp only [hack,if_true]
    exact (SeesCut.pure "").bind fun _ => (getU16_seesCut _).bind fun _ =>
      (getI64_seesCut _).bind fun _ => .pure _
  · simp only [hack,Bool.false_eq_true,if_false]
    have hextra : SeesCut fun buf => Prod.fst <$> getStrU16 buf name.2 :=
      (getStrU16_seesCut _).bind fun _ => .pure _
    exact hextra.bind fun _ => (getU16_seesCut _).bind fun _ =>
      (getI64_seesCut _).bind fun _ => .pure _

theorem Telemetry.parseStrings_seesCut (n off : ℕ) (acc : List (String × String)) :
    SeesCut (parseStrings · n off acc) := by
  induction n generalizing off acc with
  | zero => exact .pure _
  | succ n ih =>
    exact (getStrU16_seesCut _).bind fun _ => (getStrU16_seesCut _).bind fun _ => ih _ _

theorem Telemetry.parseNumbers_seesCut (n off : ℕ) (m : Numbers) :
    SeesCut (parseNumbers · n off m) := by
  induction n generalizing off m with
  | zero => exact .pure _
  | succ n ih => exact (getStrU16_seesCut _).bind fun _ => (getF32_seesCut _).bind fun _ => ih _ _

theorem Telemetry.parse_seesCut : SeesCut parse := by
  unfold parse
  exact (getU16_seesCut _).bind fun _ => (getI64_seesCut _).bind fun _ => (getU8_seesCut _).bind
    fun _ => (getU8_seesCut _).bind fun _ => (getStrU8_seesCut _).bind fun _ =>
    (getU8_seesCut _).bind fun _ => (parseStrings_seesCut _ _ _).bind fun _ =>
    (getU8_seesCut _).bind fun _ => (parseNumbers_seesCut _ _ _).bind fun _ => .pure _

end Parsers

section Reaches

variable {buf : List UInt8} {k : ℕ}

/-- A reading that sees every cut and reaches as far as `n` fails on what is shorter. -/
theorem SeesCut.truncated {α : Type} {f : List UInt8 → Except Error α} (hf : SeesCut f) {a : α} {n : ℕ}
    (hfull : f buf = .ok a) (hreach : f (buf.take k) = .ok a → n ≤ k) (hk : k < n) :
    f (buf.take k) = .error .truncated := by
  rcases hf buf k with h|h
  · exact h
  · have hle := hreach (h.trans hfull)
    omega

theorem Heartbeat.parse_reach {hb : Heartbeat} (h : parse buf = .ok hb) :
    hb.layout.length ≤ buf.length := by
  simp only [parse,bind_eq_ok,pure_eq_ok,Except.ok.injEq] at h
  obtain ⟨_,-,_,-,_,-,_,-,_,-,_,-,⟨tz,o⟩,htz,rfl⟩ := h
  obtain ⟨-,rfl,hat⟩ := getStrU8_ok htz
  have hlen := hat.length
  simp [layout] at hlen ⊢
  omega

/-- The last byte is not needed. -/
theorem PeerDiscovery.parse_reach {p : PeerDiscovery} (h : parse buf = .ok p) : 12 ≤ buf.length := by
  simp only [parse,bind_eq_ok] at h
  obtain ⟨_,-,_,-,_,-,_,-,_,-,_,-,_,hlast,-⟩ := h
  have hlen := (getU8_ok hlast).length
  simp at hlen
  omega

theorem KeepAlive.parse_reach {p : KeepAlive} (h : parse buf = .ok p) : 6 ≤ buf.length := by
  simp only [parse,bind_eq_ok] at h
  obtain ⟨_,-,_,hlast,-⟩ := h
  have hlen := (getU8_ok hlast).length
  simp at hlen
  omega

theorem Command.parse_reach {c : Command} (h : parse buf = .ok c) : c.layout.length ≤ buf.length := by
  simp only [parse,bind_eq_ok] at h
  obtain ⟨ack,-,⟨name,o⟩,hname,h⟩ := h
  obtain ⟨-,rfl,hat⟩ := getStrU16_ok hname
  have hlen := hat.length
  by_cases hack : (ack != 0) = true
  · simp only [hack,if_true,bind_eq_ok,pure_eq_ok,Except.ok.injEq] at h
    obtain ⟨extra,rfl,_,-,_,-,rfl⟩ := h
    simp [layout,extraLayout] at hlen ⊢
    omega
  · simp only [hack,Bool.false_eq_true,if_false,bind_eq_ok,pure_eq_ok,Except.ok.injEq] at h
    obtain ⟨extra,hextra,_,-,_,-,rfl⟩ := h
    cases hg : getStrU16 buf (14+2+(utf8 name).length) with
    | error e => simp [hg] at hextra
    | ok r =>
      obtain rfl : r.1 = extra := by simpa [hg] using hextra
      obtain ⟨-,ho,hat'⟩ := getStrU16_ok hg
      have hlen' := hat'.length
      simp [layout,extraLayout] at hlen' ⊢
      omega

/-- Whatever map the loop fills, its entries are read up to the last one's value. -/
theorem Telemetry.parseNumbers_reach (kvs : List (String × F32))
    (hfit : ∀ kv ∈ kvs, (utf8 kv.1).length ≤ 65535) {t : List UInt8} {off : ℕ} {m numbers : Numbers}
    (hoff : off ≤ k) (hat : At buf off (kvs.flatMap numberLayout ++ t))
    (h : parseNumbers (buf.take k) kvs.length off m = .ok numbers) :
    off+(kvs.flatMap numberLayout).length ≤ k := by
  induction kvs generalizing off m with
  | nil => simpa using hoff
  | cons kv kvs ih =>
    simp only [List.flatMap_cons,numberLayout,List.append_assoc] at hat
    have hval := hat.next (length_strU16 _)
    have hrest := hval.next (length_toBE 4 _)
    simp only [← Nat.add_assoc] at hval hrest
    simp only [List.length_cons,parseNumbers,bind_eq_ok] at h
    obtain ⟨⟨key,o⟩,hkey,value,hvalue,h⟩ := h
    have hsame := (getStrU16_seesCut off).of_ok hkey
    rw [getStrU16_at (hfit kv (by simp)) hat] at hsame
    obtain ⟨rfl,rfl⟩ := Prod.mk.inj (Except.ok.inj hsame)
    have hlen := (getF32_ok hvalue).length
    rw [List.length_append,length_toBE,List.length_take,List.length_drop,List.length_take] at hlen
    have hnext := ih (fun kv hkv => hfit kv (by simp [hkv])) (by omega) hrest h
    simp only [List.flatMap_cons,numberLayout,List.length_append,length_strU16,length_toBE]
    omega

theorem Telemetry.parse_reach {tel tel' : Telemetry} (hfit : (Packet.telemetry tel).Fits)
    (h : parse (tel.layout.take k) = .ok tel') : tel.layout.length ≤ k := by
  have hat : At tel.layout 0 (tel.layout ++ []) := by simpa using at_append [] tel.layout
  have h15 := ((Telemetry.at_payload hat).2.next (length_toBE 8 _)).tail.tail
  obtain ⟨o,o',htag,hcount,hstrings,hcount',hnumbers⟩ := fields_at hfit.1 (entriesFit hfit) h15
  obtain ⟨hs,hn⟩ := counts (entriesFit hfit)
  simp only [parse,bind_eq_ok] at h
  obtain ⟨_,-,_,-,_,-,_,-,⟨tag,otag⟩,htag',count,hc,⟨strings,ostrings⟩,hs',ncount,hn',numbers,hlast,-⟩ := h
  have hsametag := (getStrU8_seesCut _).of_ok htag'
  rw [htag] at hsametag
  obtain ⟨rfl,rfl⟩ := Prod.mk.inj (Except.ok.inj hsametag)
  have hsamecount := (getU8_seesCut _).of_ok hc
  rw [hcount] at hsamecount
  obtain rfl := Except.ok.inj hsamecount
  have hsamestrings := (parseStrings_seesCut _ _ _).of_ok hs'
  rw [hs,hstrings] at hsamestrings
  obtain ⟨rfl,rfl⟩ := Prod.mk.inj (Except.ok.inj hsamestrings)
  have hsamecount' := (getU8_seesCut _).of_ok hn'
  rw [hcount'] at hsamecount'
  obtain rfl := Except.ok.inj hsamecount'
  have hoff := (getU8_ok hn').length
  simp only [List.length_cons,List.length_drop,List.length_take] at hoff
  rw [hn] at hlast
  have hreach := parseNumbers_reach _ (entriesFit hfit).2.2.2 (by omega) hnumbers hlast
  have hlen := hnumbers.length
  simp only [List.append_nil] at hlen
  omega

end Reaches

section Fallback

variable {α β : Type} {buf : List UInt8}

/-- Readings of numbers have one way to fail. -/
def OnlyTruncated (x : Except Error α) : Prop := ∀ e, x = .error e → e = .truncated

theorem OnlyTruncated.map {x : Except Error α} (hx : OnlyTruncated x) (f : α → β) :
    OnlyTruncated (x >>= fun a => pure (f a)) := by
  intro e he
  cases x with
  | error e' =>
    rw [hx e' rfl] at he
    exact (Except.error.inj he).symm
  | ok a => cases he

theorem OnlyTruncated.bind {x : Except Error α} (hx : OnlyTruncated x) {f : α → Except Error β}
    (hf : ∀ a, f a = .error .truncated) : (x >>= f) = .error .truncated := by
  cases x with
  | error e => rw [hx e rfl,error_bind]
  | ok a => rw [ok_bind,hf]

theorem getBytes_only (off len : ℕ) : OnlyTruncated (getBytes buf off len) := by
  intro e he
  cases hr : read buf off len <;> simp_all [getBytes]

theorem getU8_only (off : ℕ) : OnlyTruncated (getU8 buf off) := by
  intro e he
  cases hr : buf[off]? <;> simp_all [getU8]

theorem getF32_only (off : ℕ) : OnlyTruncated (getF32 buf off) :=
  ((getBytes_only off 4).map _).map _

/-- `Gamepad::parse` falls back to the byte before the type where the type is cut off,
but it still reads the coordinates behind it. -/
theorem Gamepad.parse_short (hbuf : buf.length < 65) : parse buf = .error .truncated := by
  have hlast : getF32 buf 61 = .error .truncated := by
    cases h : getF32 buf 61 with
    | error e => rw [getF32_only 61 e h]
    | ok v =>
      have hlen := (getF32_ok h).length
      simp at hlen
      omega
  have hok (b : UInt8) : OnlyTruncated (.ok b : Except Error UInt8) := fun e he => by cases he
  unfold parse
  refine ((getBytes_only 42 4).map _).bind fun _ => ?_
  cases getU8 buf 48
  case' error => refine (getU8_only 47).bind fun _ => ?_
  case' ok b => refine (hok b).bind fun _ => ?_
  all_goals
    refine ((getBytes_only 3 2).map _).bind fun _ => (getU8_only 5).bind fun _ => ?_
    refine ((getBytes_only 6 4).map _).bind fun _ => ((getBytes_only 10 8).map _).bind fun _ => ?_
    refine (getF32_only 18).bind fun _ => (getF32_only 22).bind fun _ => (getF32_only 26).bind fun _ => ?_
    refine (getF32_only 30).bind fun _ => (getF32_only 34).bind fun _ => (getF32_only 38).bind fun _ => ?_
    refine (getU8_only 46).bind fun _ => (getF32_only 49).bind fun _ => (getF32_only 53).bind fun _ => ?_
    refine (getF32_only 57).bind fun _ => ?_
    rw [hlast,error_bind]

end Fallback

section Datagrams

/-- How many bytes at its end a packet's parser does not look at. -/
def Packet.unread : Packet → ℕ
  | .peerDiscovery _ => 1
  | .heartbeat _ | .gamepad _ | .command _ | .telemetry _ | .keepAlive _ => 0

/-- The type byte of a packet. -/
def Packet.uid : Packet → UInt8
  | .heartbeat _ => UID_HEARTBEAT
  | .gamepad _ => UID_GAMEPAD
  | .peerDiscovery _ => UID_PEER_DISCOVERY
  | .command _ => UID_COMMAND
  | .telemetry _ => UID_TELEMETRY
  | .keepAlive _ => UID_KEEP_ALIVE

/-- The parser of a packet's own kind. -/
def Packet.parseKind : Packet → List UInt8 → Except Error Packet
  | .heartbeat _, buf => Packet.heartbeat <$> Heartbeat.parse buf
  | .gamepad _, buf => Packet.gamepad <$> Gamepad.parse buf
  | .peerDiscovery _, buf => Packet.peerDiscovery <$> PeerDiscovery.parse buf
  | .command _, buf => Packet.command <$> Command.parse buf
  | .telemetry _, buf => Packet.telemetry <$> Telemetry.parse buf
  | .keepAlive _, buf => Packet.keepAlive <$> KeepAlive.parse buf

theorem Packet.layout_eq_cons (p : Packet) : ∃ rest, p.layout = p.uid :: rest := by
  apply List.head?_eq_some_iff.mp
  cases p <;>
    simp only [layout,uid,Heartbeat.layout,Gamepad.layout,PeerDiscovery.layout,Command.layout,
      Telemetry.layout,KeepAlive.layout,header,List.head?_append,List.head?_cons,Option.some_or]

theorem Packet.parse_uid (p : Packet) {buf : List UInt8} (h : getU8 buf 0 = .ok p.uid) :
    parse buf = p.parseKind buf := by
  rw [parse,h,ok_bind]
  cases p <;> rfl

variable {p : Packet} {k : ℕ}

theorem Packet.parseKind_truncated (hfit : p.Fits) (hk : k+p.unread < p.layout.length) :
    p.parseKind (p.layout.take k) = .error .truncated := by
  have hat : At p.layout 0 (p.layout ++ []) := by simpa using at_append [] p.layout
  have hle : (p.layout.take k).length ≤ k := List.length_take_le _ _
  cases p with
  | heartbeat hb =>
    have h : Heartbeat.parse (hb.layout.take k) = .error .truncated :=
      Heartbeat.parse_seesCut.truncated (hb.parse_at hfit hat) (fun h => (Heartbeat.parse_reach h).trans hle) hk
    rw [parseKind,layout,h]
    rfl
  | gamepad g =>
    have hlen : g.layout.length = 65 := by simp [Gamepad.layout]
    have h : Gamepad.parse (g.layout.take k) = .error .truncated := by
      apply Gamepad.parse_short
      simp only [layout,unread,hlen] at hle hk
      omega
    rw [parseKind,layout,h]
    rfl
  | peerDiscovery d =>
    have hlen : d.layout.length = 13 := by simp [PeerDiscovery.layout]
    have h : PeerDiscovery.parse (d.layout.take k) = .error .truncated :=
      PeerDiscovery.parse_seesCut.truncated (d.parse_at hat) (fun h => (PeerDiscovery.parse_reach h).trans hle)
        (by simp only [layout,unread,hlen] at hk; omega)
    rw [parseKind,layout,h]
    rfl
  | command c =>
    have h : Command.parse (c.layout.take k) = .error .truncated :=
      Command.parse_seesCut.truncated (c.parse_at hfit hat) (fun h => (Command.parse_reach h).trans hle) hk
    rw [parseKind,layout,h]
    rfl
  | telemetry t =>
    have h : Telemetry.parse (t.layout.take k) = .error .truncated :=
      Telemetry.parse_seesCut.truncated (t.parse_at hfit hat) (fun h => Telemetry.parse_reach hfit h) hk
    rw [parseKind,layout,h]
    rfl
  | keepAlive a =>
    have hlen : a.layout.length = 6 := by simp [KeepAlive.layout]
    have h : KeepAlive.parse (a.layout.take k) = .error .truncated :=
      KeepAlive.parse_seesCut.truncated (a.parse_at hat) (fun h => (KeepAlive.parse_reach h).trans hle)
        (by simp only [layout,unread,hlen] at hk; omega)
    rw [parseKind,layout,h]
    rfl

theorem Packet.parse_unread (hfit : p.Fits) (hk : p.layout.length ≤ k+p.unread) :
    parse (p.layout.take k) = .ok p := by
  by_cases hfull : p.layout.length ≤ k
  · rw [List.take_of_length_le hfull]
    simpa using p.parse_layout hfit []
  · cases p with
    | peerDiscovery d =>
      have hlen : d.layout.length = 13 := by simp [PeerDiscovery.layout]
      simp only [layout,unread,hlen] at hk hfull
      have hlast : d.layout.take k = d.layout.dropLast := by
        rw [List.dropLast_eq_take,hlen]
        congr 1
        omega
      have hat : At d.layout.dropLast 0 (d.layout.dropLast ++ []) := by
        simpa using at_append [] d.layout.dropLast
      have hparse := d.parse_fields hat
      rw [layout,hlast,parse_uid (.peerDiscovery d) rfl,parseKind,hparse]
      rfl
    | _ => exact absurd hk hfull

/-- Of a cut datagram nothing is decoded: not a shorter string, not a mangled one. Only
what no parser looks at may be missing. -/
theorem Packet.parse_take (p : Packet) (hfit : p.Fits) {s : List UInt8} (hs : p.serialize = some s)
    (k : ℕ) : parse (s.take k) = if s.length ≤ k+p.unread then .ok p else .error .truncated := by
  rw [p.serialize_eq] at hs
  obtain rfl := Option.some.inj hs
  by_cases hk : p.layout.length ≤ k+p.unread
  · rw [if_pos hk,parse_unread hfit hk]
  · rw [if_neg hk]
    cases k with
    | zero => rfl
    | succ k =>
      obtain ⟨rest,hrest⟩ := p.layout_eq_cons
      have huid : getU8 (p.layout.take (k+1)) 0 = .ok p.uid := by rw [hrest,List.take_succ_cons]; rfl
      rw [p.parse_uid huid,parseKind_truncated hfit (Nat.lt_of_not_le hk)]

/-- A time zone cut inside its last character. -/
theorem Packet.parse_take_character : ∃ s, serialize (.heartbeat { timezoneId := "Zürı" }) = some s ∧
    s.length = 45 ∧ parse (s.take 44) = .error .truncated := by
  refine ⟨_,serialize_eq _,by decide,?_⟩
  have hfit : (Packet.heartbeat { timezoneId := "Zürı" }).Fits :=
    (by decide : (utf8 "Zürı").length ≤ 255)
  have h := parse_take (.heartbeat { timezoneId := "Zürı" }) hfit (serialize_eq _) 44
  rwa [if_neg (by decide)] at h

end Datagrams

end Robocol
