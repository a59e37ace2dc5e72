import Mathlib.Data.List.Sort
import Robocol.PcapFiles
import Robocol.KeyReuse
import Robocol.Tallies

/-! A capture from the wire to the report: what `main` makes of a file, and that the report on a
conversation is about what was said in it, however it was fragmented and interleaved. -/
namespace Robocol
namespace Capture

open ByteLayout

section Main

/-- The bits as `f64::total_cmp` compares them. -/
def F64.totalKey (x : F64) : Int64 :=
  let left := x.bits.toInt64
  left ^^^ ((left >>> 63).toUInt64 >>> 1).toInt64

/-- The order that `main` sorts by. -/
def NotLater (a b : Datagram) : Prop := a.ts.totalKey ≤ b.ts.totalKey

instance : DecidableRel NotLater := fun a b => inferInstanceAs (Decidable (a.ts.totalKey ≤ b.ts.totalKey))

/-- The filter of `main`: a port, or whatever can be decoded. -/
def ofPort (port : UInt16) (dg : Datagram) : Bool :=
  if port = 0 then (Packet.parse dg.payload).isOk else dg.sport == port || dg.dport == port

def Pcap.Captured.frame (seconds : Pcap.Stamp → F64) (c : Pcap.Captured) : Frame :=
  ⟨seconds c.ts,c.linktype,c.data⟩

structure Decoded where
  frames : ℕ
  skipped : ℕ
  robocol : List Datagram
  report : Report

/-- The datagrams `main` reports on, in the order of their times. -/
def robocol (port : UInt16) (dgs : List Datagram) : List Datagram :=
  (dgs.filter (ofPort port)).insertionSort NotLater

/-- `main` on the bytes of a file. The scaling of a timestamp to an `f64` is a parameter. -/
def decode (json : SerdeJson) (seconds : Pcap.Stamp → F64) (port : UInt16) (bytes : List UInt8) :
    Option (Except String Decoded) := do
  match ← Pcap.read bytes with
  | .error e => return .error e
  | .ok captured =>
    let frames := captured.map (Pcap.Captured.frame seconds)
    let (dgs,skipped) ← datagrams frames
    let dgs := robocol port dgs
    return .ok ⟨frames.length,skipped,dgs,report json (inferRc dgs) dgs⟩

end Main

section Messages

structure Message where
  sport : UInt16
  dport : UInt16
  checksum : UInt16
  payload : List UInt8
  fits : payload.length+8 < 65536

namespace Message

variable {m : Message}

def bytes (m : Message) : List UInt8 :=
  toBE 2 m.sport.toNat ++ (toBE 2 m.dport.toNat ++ (toBE 2 (m.payload.length+8) ++
    (toBE 2 m.checksum.toNat ++ m.payload)))

def datagram (m : Message) (ts : F64) (src dst : IpAddr) (fragmented : Bool) : Datagram :=
  ⟨ts,src,dst,m.sport,m.dport,m.payload,fragmented⟩

theorem parseUdp_bytes (m : Message) (ts : F64) (src dst : IpAddr) (padding : List UInt8)
    (fragmented : Bool) : parseUdp ts src dst (m.bytes ++ padding) fragmented =
      some (some (m.datagram ts src dst fragmented)) := by
  have h0 : At (m.bytes ++ padding) 0 (toBE 2 m.sport.toNat ++ (toBE 2 m.dport.toNat ++
      (toBE 2 (m.payload.length+8) ++ (toBE 2 m.checksum.toNat ++ (m.payload ++ padding))))) :=
    ⟨Nat.zero_le _,by simp [bytes]⟩
  have h2 := h0.next (length_toBE 2 _)
  have h4 := h2.next (length_toBE 2 _)
  have h8 := (h4.next (length_toBE 2 _)).next (length_toBE 2 _)
  have hlength := h8.length
  rw [List.length_append] at hlength
  have hsport : u16At (m.bytes ++ padding) 0 = some m.sport := by rw [u16At_at h0,UInt16.ofNat_toNat]
  have hdport : u16At (m.bytes ++ padding) 2 = some m.dport := by rw [u16At_at h2,UInt16.ofNat_toNat]
  have hlen : (UInt16.ofNat (m.payload.length+8)).toNat = m.payload.length+8 := by
    rw [UInt16.toNat_ofNat',Nat.mod_eq_of_lt m.fits]
  have hstop : 8+m.payload.length = min (m.payload.length+8) (m.bytes ++ padding).length := by omega
  have hbody : slice (m.bytes ++ padding) 8 (min (m.payload.length+8) (m.bytes ++ padding).length) =
      some m.payload := hstop ▸ slice_at h8
  rw [parseUdp,if_neg (by omega),hsport,hdport,u16At_at h4]
  simp only [Option.bind_eq_bind,Option.bind_some,hlen,if_pos (Nat.le_add_left 8 _),hbody]
  rfl

theorem parseUdp_eq (m : Message) (ts : F64) (src dst : IpAddr) (fragmented : Bool) :
    parseUdp ts src dst m.bytes fragmented = some (some (m.datagram ts src dst fragmented)) := by
  have hparse := m.parseUdp_bytes ts src dst [] fragmented
  rwa [List.append_nil] at hparse

end Message

/-- An IPv6 header without extensions. The bytes between the version and the protocol are free. -/
structure Ipv6Header where
  version : UInt8
  middle : List UInt8
  hopLimit : UInt8
  src : List UInt8
  dst : List UInt8
  six : version >>> 4 = 6
  middle_length : middle.length = 5
  src_length : src.length = 16
  dst_length : dst.length = 16

def Ipv6Header.packet (h : Ipv6Header) (body : List UInt8) : List UInt8 :=
  [h.version] ++ (h.middle ++ ([PROTO_UDP,h.hopLimit] ++ (h.src ++ (h.dst ++ body))))

theorem Ipv6Header.handleV6_packet (h : Ipv6Header) (m : Message) (padding : List UInt8) (ts : F64)
    (st : Decoding) : handleV6 ts (h.packet (m.bytes ++ padding)) st =
      some (st.push (some (m.datagram ts (.v6 h.src) (.v6 h.dst) false))) := by
  have h0 : At (h.packet (m.bytes ++ padding)) 0 ([h.version] ++ _) := ⟨Nat.zero_le _,rfl⟩
  have h6 := (h0.next (show [h.version].length = 1 from rfl)).next h.middle_length
  have h8 := h6.next (show [PROTO_UDP,h.hopLimit].length = 2 from rfl)
  have h24 := h8.next h.src_length
  have h40 := h24.next h.dst_length
  have hlength := h40.length
  have hproto : (h.packet (m.bytes ++ padding))[6]? = some PROTO_UDP := getElem?_at h6
  have hsrc : slice (h.packet (m.bytes ++ padding)) 8 24 = some h.src := by
    have hslice := slice_at h8
    rwa [h.src_length] at hslice
  have hdst : slice (h.packet (m.bytes ++ padding)) 24 40 = some h.dst := by
    have hslice := slice_at h24
    rwa [h.dst_length] at hslice
  have hbody : slice (h.packet (m.bytes ++ padding)) 40 (h.packet (m.bytes ++ padding)).length =
      some (m.bytes ++ padding) := hlength ▸ slice_at ⟨h40.1,h40.2.trans (List.append_nil _).symm⟩
  rw [handleV6,if_neg (by omega),hproto]
  simp only [Option.bind_eq_bind,Option.bind_some,ne_eq,not_true_eq_false,if_false,hsrc,hdst,hbody,
    m.parseUdp_bytes]
  rfl

/-- The frame holds an IPv6 packet with the message, under any link and any padding. -/
def Carries6 (f : Frame) (h : Ipv6Header) (m : Message) : Prop :=
  ∃ padding, stripLink f.linktype f.data = some (h.packet (m.bytes ++ padding))

theorem Carries6.whole {f : Frame} {h : Ipv6Header} {m : Message} (hf : Carries6 f h m) (st : Decoding) :
    handleFrame st f = some (st.push (some (m.datagram f.ts (.v6 h.src) (.v6 h.dst) false))) := by
  obtain ⟨padding,hip⟩ := hf
  have hhead : (h.packet (m.bytes ++ padding)).head?.map (fun b : UInt8 => b >>> 4) = some 6 :=
    congrArg some h.six
  simp only [handleFrame,hip,hhead,h.handleV6_packet]

end Messages

section Tap

structure Flight extends Fragmented where
  message : Message
  spells : toFragmented.data = message.bytes

/-- A flight of which some fragments have been seen, the first of them at `since`. -/
structure Flying where
  flight : Flight
  since : F64
  seen : List Fragment

namespace Flying

def Completes (y : Flying) (g : Fragment) : Prop := ∀ g' ∈ y.flight.fragments, g' ∈ y.seen ++ [g]

/-- The message once the fragments are together: it is given the time of the first of them. -/
def datagram (y : Flying) : Datagram :=
  y.flight.message.datagram y.since (.v4 y.flight.src) (.v4 y.flight.dst) true

end Flying

/-- The frame is no fragment, and alone gives nothing that is kept. -/
def Silent (keep : Datagram → Bool) (f : Frame) : Prop :=
  f.fragment = none ∧ ∀ dgs n, datagrams [f] = some (dgs,n) → dgs.filter keep = []

/-- What a tap on the network records, which flights are in the air, and what has been said in full.
A key is not used again as long as a flight under it is in the air. -/
inductive Tap (keep : Datagram → Bool) : List Frame → (Key → Option Flying) → List Datagram → Prop
  | start : Tap keep [] (fun _ => none) []
  | silent {fs air told} {f : Frame} (h : Tap keep fs air told) (hf : Silent keep f) :
      Tap keep (fs ++ [f]) air told
  | whole {fs air told} {f : Frame} (h : Tap keep fs air told) (key : Key) (m : Message)
      (hf : Carries f key ⟨0,false,m.bytes⟩) :
      Tap keep (fs ++ [f]) air (told ++ [m.datagram f.ts (.v4 key.1) (.v4 key.2.1) false])
  | whole6 {fs air told} {f : Frame} (h : Tap keep fs air told) (header : Ipv6Header) (m : Message)
      (hf : Carries6 f header m) :
      Tap keep (fs ++ [f]) air (told ++ [m.datagram f.ts (.v6 header.src) (.v6 header.dst) false])
  | takesOff {fs air told} {f : Frame} (h : Tap keep fs air told) (x : Flight) (g : Fragment)
      (hg : g ∈ x.fragments) (hfree : air x.key = none) (hf : Carries f x.key g) :
      Tap keep (fs ++ [f]) (Function.update air x.key (some ⟨x,f.ts,[g]⟩)) told
  | goesOn {fs air told} {f : Frame} (h : Tap keep fs air told) (y : Flying) (g : Fragment)
      (hg : g ∈ y.flight.fragments) (hair : air y.flight.key = some y) (hmissing : ¬y.Completes g)
      (hf : Carries f y.flight.key g) :
      Tap keep (fs ++ [f]) (Function.update air y.flight.key (some { y with seen := y.seen ++ [g] })) told
  | lands {fs air told} {f : Frame} (h : Tap keep fs air told) (y : Flying) (g : Fragment)
      (hg : g ∈ y.flight.fragments) (hair : air y.flight.key = some y) (hlast : y.Completes g)
      (hf : Carries f y.flight.key g) :
      Tap keep (fs ++ [f]) (Function.update air y.flight.key none) (told ++ [y.datagram])

end Tap

section Following

variable {keep : Datagram → Bool} {fs : List Frame} {air : Key → Option Flying} {told : List Datagram}
  {st : Decoding} {f : Frame} {y : Flying} {g : Fragment} {as : List Arrival}

def Aloft (p : Option Pending) : Option Flying → Prop
  | none => p = none
  | some y => ∃ a as, p = held (a :: as) ∧ OnlyOf y.flight.toFragmented (a :: as) ∧
      (a :: as).map Prod.snd = y.seen ∧ a.1 = y.since

/-- The decoder holds the flights in the air, and has given what was said. -/
structure Follows (keep : Datagram → Bool) (air : Key → Option Flying) (told : List Datagram)
    (st : Decoding) : Prop where
  said : st.out.filter keep = told.filter keep
  aloft : ∀ key, Aloft (st.reasm.pending key) (air key)

theorem Follows.push (h : Follows keep air told st) (dg : Datagram) :
    Follows keep air (told ++ [dg]) (st.push (some dg)) where
  said := by rw [Decoding.push,Option.toList_some,List.filter_append,List.filter_append,h.said]
  aloft := h.aloft

theorem Follows.hold {x : Option Flying} {p : Option Pending} (h : Follows keep air told st) (key : Key)
    (hp : Aloft p x) : Follows keep (Function.update air key x) told (st.keep key p) where
  said := h.said
  aloft k := by
    by_cases hk : k = key
    · subst hk
      simpa [Decoding.keep] using hp
    · simpa [Decoding.keep,hk] using h.aloft k

theorem Follows.silent (h : Follows keep air told st) (hf : Silent keep f) :
    ∃ t, handleFrame st f = some t ∧ Follows keep air told t := by
  obtain ⟨dg,n,hstep⟩ := handleFrame_plain hf.1
  have hquiet := hf.2 _ _ (datagrams_eq (run_one (hstep {})))
  refine ⟨_,hstep st,?_,h.aloft⟩
  have hnothing : dg.toList.filter keep = [] := by simpa [Decoding.push] using hquiet
  rw [Decoding.push,List.filter_append,hnothing,List.append_nil,h.said]

theorem exists_other (x : Fragmented) (g : Fragment) : ∃ g' ∈ x.fragments, g' ≠ g := by
  obtain ⟨p,ps,hps⟩ := List.exists_cons_of_ne_nil x.pieces_ne_nil
  obtain ⟨last,hlast,hmore⟩ := exists_last (m := 0) x.pieces_ne_nil
  have hfirst : (⟨0,!ps.isEmpty,p⟩ : Fragment) ∈ x.fragments := by
    rw [Fragmented.fragments,hps,fragmentsFrom]
    exact List.mem_cons_self
  by_contra hnone
  have hall (g' : Fragment) (hg' : g' ∈ x.fragments) : g' = g := by_contra fun hne => hnone ⟨g',hg',hne⟩
  have heq := (hall _ hlast).trans (hall _ hfirst).symm
  rcases Fragmented.more_or_offset hlast with h|h
  · rw [hmore] at h
    cases h
  · rw [heq] at h
    exact h rfl

theorem allOf_iff {D : Fragmented} : AllOf D as ↔ ∀ g ∈ D.fragments, g ∈ as.map Prod.snd := by
  simp only [AllOf,List.mem_map]

theorem Follows.takesOff (h : Follows keep air told st) (x : Flight) (hg : g ∈ x.fragments)
    (hfree : air x.key = none) (hf : Carries f x.key g) :
    ∃ t, handleFrame st f = some t ∧ Follows keep (Function.update air x.key (some ⟨x,f.ts,[g]⟩)) told t := by
  have hempty : st.reasm.pending x.key = held [] := by
    have haloft := h.aloft x.key
    rw [hfree] at haloft
    exact haloft
  have honly : OnlyOf x.toFragmented [(f.ts,g)] := by
    intro a ha
    rwa [List.mem_singleton.mp ha]
  have hmissing : ¬Complete ([] ++ [(f.ts,g)]) := by
    rw [List.nil_append,honly.complete_iff,allOf_iff]
    intro hall
    obtain ⟨g',hg',hne⟩ := exists_other x.toFragmented g
    exact hne (by simpa using hall g' hg')
  refine ⟨_,?_,h.hold x.key ⟨(f.ts,g),[],rfl,honly,rfl,rfl⟩⟩
  rw [handleFrame_fragment (hf.fragment_of hg),reassemble_keeps hempty hmissing]
  rfl

theorem Follows.goesOn (h : Follows keep air told st) (hg : g ∈ y.flight.fragments)
    (hair : air y.flight.key = some y) (hmissing : ¬y.Completes g) (hf : Carries f y.flight.key g) :
    ∃ t, handleFrame st f = some t ∧
      Follows keep (Function.update air y.flight.key (some { y with seen := y.seen ++ [g] })) told t := by
  have haloft := h.aloft y.flight.key
  rw [hair] at haloft
  obtain ⟨a,as,hp,honly,hseen,hsince⟩ := haloft
  have hnot : ¬Complete (a :: as ++ [(f.ts,g)]) := by
    rw [(honly.snoc (a := (f.ts,g)) hg).complete_iff,allOf_iff,List.map_append,hseen]
    exact hmissing
  refine ⟨_,?_,h.hold y.flight.key ⟨a,as ++ [(f.ts,g)],rfl,honly.snoc hg,?_,hsince⟩⟩
  · rw [handleFrame_fragment (hf.fragment_of hg),reassemble_keeps hp hnot]
    rfl
  · rw [← List.cons_append,List.map_append,hseen]
    rfl

theorem Follows.lands (h : Follows keep air told st) (hg : g ∈ y.flight.fragments)
    (hair : air y.flight.key = some y) (hlast : y.Completes g) (hf : Carries f y.flight.key g) :
    ∃ t, handleFrame st f = some t ∧
      Follows keep (Function.update air y.flight.key none) (told ++ [y.datagram]) t := by
  have haloft := h.aloft y.flight.key
  rw [hair] at haloft
  obtain ⟨a,as,hp,honly,hseen,hsince⟩ := haloft
  have hall : Complete (a :: as ++ [(f.ts,g)]) := by
    rw [(honly.snoc (a := (f.ts,g)) hg).complete_iff,allOf_iff,List.map_append,hseen]
    exact hlast
  obtain ⟨buf,dg,hn,hshows,hdg,hstep⟩ := reassemble_completes hp hall
  have hkey : y.flight.key = (y.flight.src,y.flight.dst,y.flight.ident) := rfl
  rw [(honly.snoc (a := (f.ts,g)) hg).eq_data hn hshows,y.flight.spells,List.cons_append,entryOf_ts,hsince,hkey,
    y.flight.message.parseUdp_eq] at hdg
  obtain rfl : some y.datagram = dg := Option.some.inj hdg
  refine ⟨_,?_,(h.hold y.flight.key (show Aloft none none from rfl)).push y.datagram⟩
  rw [handleFrame_fragment (hf.fragment_of hg),hstep]

theorem Tap.follows (h : Tap keep fs air told) :
    ∃ t, fs.foldlM handleFrame {} = some t ∧ Follows keep air told t := by
  have step {fs : List Frame} {f : Frame} {air' told'} {st t : Decoding} (hst : fs.foldlM handleFrame {} = some st)
      (ht : handleFrame st f = some t) (hf : Follows keep air' told' t) :
      ∃ t, (fs ++ [f]).foldlM handleFrame {} = some t ∧ Follows keep air' told' t :=
    ⟨t,run_append hst (run_one ht),hf⟩
  induction h with
  | start => exact ⟨{},rfl,rfl,fun _ => rfl⟩
  | silent h hf ih =>
    obtain ⟨st,hst,hfollows⟩ := ih
    obtain ⟨t,ht,hnext⟩ := hfollows.silent hf
    exact step hst ht hnext
  | whole h key m hf ih =>
    obtain ⟨st,hst,hfollows⟩ := ih
    exact step hst (hf.whole (m.parseUdp_eq _ _ _ _) st) (hfollows.push _)
  | whole6 h header m hf ih =>
    obtain ⟨st,hst,hfollows⟩ := ih
    exact step hst (hf.whole st) (hfollows.push _)
  | takesOff h x g hg hfree hf ih =>
    obtain ⟨st,hst,hfollows⟩ := ih
    obtain ⟨t,ht,hnext⟩ := hfollows.takesOff x hg hfree hf
    exact step hst ht hnext
  | goesOn h y g hg hair hmissing hf ih =>
    obtain ⟨st,hst,hfollows⟩ := ih
    obtain ⟨t,ht,hnext⟩ := hfollows.goesOn hg hair hmissing hf
    exact step hst ht hnext
  | lands h y g hg hair hlast hf ih =>
    obtain ⟨st,hst,hfollows⟩ := ih
    obtain ⟨t,ht,hnext⟩ := hfollows.lands hg hair hlast hf
    exact step hst ht hnext

end Following

section Reports

/-- Of a capture, cut off behind its header or not, the report is about the messages that were
said in full within it, in the order of their times, however they were fragmented and mixed. -/
theorem conversation_reported (json : SerdeJson) (seconds : Pcap.Stamp → F64) (port : UInt16)
    (file : Pcap.CaptureFile) (k : ℕ) (hk : file.headerLength ≤ k) (air : Key → Option Flying)
    (told : List Datagram)
    (h : Tap (ofPort port) ((Pcap.upTo k file.frameEnds).map (Pcap.Captured.frame seconds)) air told) :
    ∃ skipped, decode json seconds port (file.bytes.take k) =
      some (.ok ⟨(Pcap.upTo k file.frameEnds).length,skipped,robocol port told,
        report json (inferRc (robocol port told)) (robocol port told)⟩) := by
  obtain ⟨t,ht,hfollows⟩ := h.follows
  have hsorted : robocol port t.out = robocol port told := by rw [robocol,robocol,hfollows.said]
  refine ⟨t.skipped,?_⟩
  rw [decode,file.read_cut k hk]
  simp only [Option.bind_eq_bind,Option.bind_some,datagrams_eq ht,hsorted,List.length_map]
  rfl

def slicedTalk : Flight where
  toFragmented := twoPieces
  message := ⟨20117,20117,0,[1,2,3],by decide⟩
  spells := by decide

def halfTalk : Flying := ⟨slicedTalk,⟨0x3ff0000000000000⟩,[backPiece]⟩

def clearTalk : Message := ⟨20117,20117,0,[9],by decide⟩

def clearKey : Key := ((192,168,43,2),(192,168,43,1),8)

/-- Between the pieces of a message another one is said, and something that is no IP packet. -/
def recording : Pcap.ClassicFile where
  endian := .little
  nanos := false
  fixed := [2,0,4,0,0,0,0,0,0,0,0,0,0,0,4,0]
  linktype := LINKTYPE_RAW
  records := [
    ⟨1,0,31,plainHeader.packet twoPieces.key backPiece,by decide⟩,
    ⟨2,0,29,plainHeader.packet clearKey ⟨0,false,clearTalk.bytes⟩,by decide⟩,
    ⟨2,0,0,[],by decide⟩,
    ⟨3,0,28,plainHeader.packet twoPieces.key frontPiece,by decide⟩]
  fixed_length := rfl

def clock : Pcap.Stamp → F64
  | .split 1 0 _ => ⟨0x3ff0000000000000⟩
  | .split 2 0 _ => ⟨0x4000000000000000⟩
  | _ => ⟨0x4008000000000000⟩

theorem recording_tap : ∃ air, Tap (ofPort 20117)
    ((Pcap.upTo 300 recording.frameEnds).map (Pcap.Captured.frame clock)) air
    [clearTalk.datagram ⟨0x4000000000000000⟩ (.v4 clearKey.1) (.v4 clearKey.2.1) false,halfTalk.datagram] := by
  have hback : Carries (rawFrame 0x3ff0000000000000 twoPieces.key backPiece) twoPieces.key backPiece :=
    carries_rawFrame _ _ ⟨by decide,by decide,by decide⟩
  have hclear : Carries (rawFrame 0x4000000000000000 clearKey ⟨0,false,clearTalk.bytes⟩) clearKey
      ⟨0,false,clearTalk.bytes⟩ := carries_rawFrame _ _ ⟨by decide,by decide,by decide⟩
  have hfront : Carries (rawFrame 0x4008000000000000 twoPieces.key frontPiece) twoPieces.key frontPiece :=
    carries_rawFrame _ _ ⟨by decide,by decide,by decide⟩
  have hsilent : Silent (ofPort 20117) ⟨⟨0x4000000000000000⟩,LINKTYPE_RAW,[]⟩ := by
    refine ⟨rfl,fun dgs n h => ?_⟩
    cases h
    rfl
  have hlast : halfTalk.Completes frontPiece := by
    unfold Flying.Completes
    decide
  exact ⟨_,(((Tap.start.takesOff slicedTalk backPiece (by decide) rfl hback).whole clearKey clearTalk
    hclear).silent hsilent).lands halfTalk frontPiece (by decide) (Function.update_self _ _ _) hlast hfront⟩

/-- The message that began first is reported first. -/
theorem recording_reported : ∃ skipped r, decode unaskedJson clock 20117 (recording.bytes.take 300) =
    some (.ok ⟨4,skipped,[halfTalk.datagram,
      clearTalk.datagram ⟨0x4000000000000000⟩ (.v4 clearKey.1) (.v4 clearKey.2.1) false],r⟩) := by
  obtain ⟨air,htap⟩ := recording_tap
  obtain ⟨skipped,hdecode⟩ := conversation_reported unaskedJson clock 20117 (.classic recording) 300
    (by decide) air _ htap
  exact ⟨skipped,_,hdecode⟩

end Reports

end Capture
end Robocol
