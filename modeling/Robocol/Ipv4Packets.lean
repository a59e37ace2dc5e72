import Mathlib.Data.Nat.Bitwise
import Robocol.Fragments

/-! IPv4 packets as they are spelled, and what the decoder reads of them. -/
namespace Robocol
namespace Capture

open ByteLayout

section Fields

variable {xs rest : List UInt8} {i n : ℕ}

theorem getElem?_at {b : UInt8} (h : At xs i (b :: rest)) : xs[i]? = some b := by
  have hread := congrArg List.head? h.2
  rwa [List.head?_drop] at hread

theorem u16At_at (h : At xs i (toBE 2 n ++ rest)) : u16At xs i = some (UInt16.ofNat n) := by
  have hbytes : At xs i (UInt8.ofNat (n/256^1) :: UInt8.ofNat (n/256^0) :: rest) := h
  have hvalue : UInt16.ofNat (ofBE (toBE 2 n)) = UInt16.ofNat n := by
    apply UInt16.toNat_inj.mp
    simp [ofBE_toBE]
  rw [u16At,getElem?_at hbytes,getElem?_at hbytes.tail,← hvalue]
  rfl

theorem ipv4At_at {a : Ipv4Addr} (h : At xs i ([a.1,a.2.1,a.2.2.1,a.2.2.2] ++ rest)) :
    ipv4At xs i = some a := by
  have hbytes : At xs i (a.1 :: a.2.1 :: a.2.2.1 :: a.2.2.2 :: rest) := h
  rw [ipv4At,getElem?_at hbytes,getElem?_at hbytes.tail,getElem?_at hbytes.tail.tail,
    getElem?_at hbytes.tail.tail.tail]
  rfl

theorem slice_at {body : List UInt8} (h : At xs i (body ++ rest)) :
    slice xs i (i+body.length) = some body := by
  have hlen := congrArg List.length h.2
  have hle := h.1
  rw [List.length_drop,List.length_append] at hlen
  rw [slice_eq (by omega) (by omega),List.drop_take,h.2,Nat.add_sub_cancel_left,List.take_left]

end Fields

/-- The fields of an IPv4 header that a reassembly does not look at. -/
structure Ipv4Header where
  tos : UInt8
  ttl : UInt8
  checksum : UInt16
  reserved : Bool
  dont : Bool
  options : List UInt8
  padded : options.length%4 = 0
  short : options.length ≤ 40

namespace Ipv4Header

variable {h : Ipv4Header} {key : Key} {g : Fragment}

def length (h : Ipv4Header) : ℕ := 20+h.options.length

def flagsFrag (h : Ipv4Header) (g : Fragment) : ℕ :=
  h.reserved.toNat*32768+h.dont.toNat*16384+g.more.toNat*8192+g.offset/8

/-- The fixed part of the header of a packet that brings `g`. -/
def fixed (h : Ipv4Header) (key : Key) (g : Fragment) : List UInt8 :=
  [UInt8.ofNat (0x40+h.length/4),h.tos] ++ toBE 2 (h.length+g.body.length) ++ toBE 2 key.2.2.toNat
    ++ toBE 2 (h.flagsFrag g) ++ [h.ttl,PROTO_UDP] ++ toBE 2 h.checksum.toNat
    ++ [key.1.1,key.1.2.1,key.1.2.2.1,key.1.2.2.2]
    ++ [key.2.1.1,key.2.1.2.1,key.2.1.2.2.1,key.2.1.2.2.2]

def packet (h : Ipv4Header) (key : Key) (g : Fragment) : List UInt8 :=
  h.fixed key g ++ h.options ++ g.body

/-- The lengths and the offset fit the fields of the header. -/
structure Fits (h : Ipv4Header) (g : Fragment) : Prop where
  total : h.length+g.body.length < 65536
  offset : g.offset < 65536
  aligned : g.offset%8 = 0

theorem first_byte {n : ℕ} (hlow : 5 ≤ n) (hhigh : n ≤ 15) :
    UInt8.ofNat (0x40+n) >>> 4 = 4 ∧ (UInt8.ofNat (0x40+n) &&& 0x0f).toNat = n := by
  have hall : ∀ m : Fin 16, 5 ≤ m.val →
      UInt8.ofNat (0x40+m.val) >>> 4 = 4 ∧ (UInt8.ofNat (0x40+m.val) &&& 0x0f).toNat = m.val := by
    decide
  exact hall ⟨n,by omega⟩ hlow

theorem length_div (h : Ipv4Header) : 5 ≤ h.length/4 ∧ h.length/4 ≤ 15 ∧ h.length/4*4 = h.length := by
  have hpad := h.padded
  have hshort := h.short
  simp only [length]
  omega

theorem flagsFrag_lt (hg : h.Fits g) : h.flagsFrag g < 65536 := by
  have hoff := hg.offset
  have hr := h.reserved.toNat_le
  have hd := h.dont.toNat_le
  have hm := g.more.toNat_le
  simp only [flagsFrag]
  omega

theorem flagsFrag_offset (hg : h.Fits g) :
    (UInt16.ofNat (h.flagsFrag g) &&& 0x1fff).toNat*8 = g.offset := by
  have hoff := hg.offset
  have haligned := hg.aligned
  have hlow : (0x1fff : UInt16).toNat = 2^13-1 := rfl
  rw [UInt16.toNat_and,hlow,Nat.and_two_pow_sub_one_eq_mod,UInt16.toNat_ofNat',
    Nat.mod_eq_of_lt (flagsFrag_lt hg),flagsFrag]
  omega

theorem flagsFrag_more (hg : h.Fits g) : (UInt16.ofNat (h.flagsFrag g) &&& 0x2000 != 0) = g.more := by
  have hoff := hg.offset
  have hbit : (0x2000 : UInt16).toNat = 2^13 := rfl
  have hand : (UInt16.ofNat (h.flagsFrag g) &&& 0x2000).toNat = g.more.toNat*2^13 := by
    rw [UInt16.toNat_and,hbit,Nat.and_two_pow,UInt16.toNat_ofNat',Nat.mod_eq_of_lt (flagsFrag_lt hg),
      Nat.testBit_eq_decide_div_mod_eq]
    congr 2
    cases hm : g.more <;> simp [flagsFrag,hm] <;> omega
  cases hm : g.more with
  | false =>
    have hzero : UInt16.ofNat (h.flagsFrag g) &&& 0x2000 = 0 := by
      apply UInt16.toNat_inj.mp
      rw [hand,hm]
      rfl
    rw [hzero]
    rfl
  | true =>
    have hne : UInt16.ofNat (h.flagsFrag g) &&& 0x2000 ≠ 0 := by
      intro hzero
      rw [hzero,hm] at hand
      simp at hand
    exact bne_iff_ne.mpr hne

/-- The fields of a packet one behind the other, with what follows it. -/
theorem packet_at (h : Ipv4Header) (key : Key) (g : Fragment) (padding : List UInt8) :
    At (h.packet key g ++ padding) 0 (UInt8.ofNat (0x40+h.length/4) :: ([h.tos] ++
      (toBE 2 (h.length+g.body.length) ++ (toBE 2 key.2.2.toNat ++ (toBE 2 (h.flagsFrag g) ++
      ([h.ttl] ++ (PROTO_UDP :: (toBE 2 h.checksum.toNat ++
      ([key.1.1,key.1.2.1,key.1.2.2.1,key.1.2.2.2] ++
      ([key.2.1.1,key.2.1.2.1,key.2.1.2.2.1,key.2.1.2.2.2] ++
      (h.options ++ (g.body ++ padding)))))))))))) := by
  refine ⟨Nat.zero_le _,?_⟩
  simp only [packet,fixed,List.append_assoc,List.drop_zero,List.cons_append,List.nil_append]

/-- The decoder reads the key and the fragment back. -/
theorem readV4_packet (hg : h.Fits g) (padding : List UInt8) :
    readV4 (h.packet key g ++ padding) = some (some (key,g)) := by
  obtain ⟨hfive,hfifteen,hlen⟩ := h.length_div
  have htotal := hg.total
  have h0 := h.packet_at key g padding
  have h2 := h0.tail.next rfl
  have h4 := h2.next (length_toBE 2 _)
  have h6 := h4.next (length_toBE 2 _)
  have h9 := (h6.next (length_toBE 2 _)).next rfl
  have h12 := h9.tail.next (length_toBE 2 _)
  have h16 := h12.next rfl
  have hbody : At (h.packet key g ++ padding) h.length (g.body ++ padding) := (h16.next rfl).next rfl
  have hend := congrArg List.length hbody.2
  have hle := hbody.1
  have hrest : (g.body ++ padding).length = g.body.length+padding.length := List.length_append
  rw [List.length_drop,hrest] at hend
  have htotalLen : (UInt16.ofNat (h.length+g.body.length)).toNat = h.length+g.body.length := by
    rw [UInt16.toNat_ofNat',Nat.mod_eq_of_lt htotal]
  have hproto : (h.packet key g ++ padding)[9]? = some PROTO_UDP := getElem?_at h9
  have htotal_at : u16At (h.packet key g ++ padding) 2 = some (UInt16.ofNat _) := u16At_at h2
  have hident : u16At (h.packet key g ++ padding) 4 = some (UInt16.ofNat _) := u16At_at h4
  have hflags : u16At (h.packet key g ++ padding) 6 = some (UInt16.ofNat _) := u16At_at h6
  have hsrc : ipv4At (h.packet key g ++ padding) 12 = some key.1 := ipv4At_at h12
  have hdst : ipv4At (h.packet key g ++ padding) 16 = some key.2.1 := ipv4At_at h16
  have hmin : min (h.length+g.body.length) (h.packet key g ++ padding).length =
      h.length+g.body.length := by omega
  rw [readV4,if_neg (by omega),getElem?_at h0,hproto,htotal_at,hident,hflags,hsrc,hdst]
  simp only [Option.bind_eq_bind,Option.bind_some,ne_eq,not_true_eq_false,if_false,
    (first_byte hfive hfifteen).2,hlen,htotalLen,hmin,slice_at hbody,flagsFrag_offset hg,
    flagsFrag_more hg,UInt16.ofNat_toNat]
  rw [if_neg (by omega)]
  rfl

theorem packet_head (h : Ipv4Header) (key : Key) (g : Fragment) (padding : List UInt8) :
    (h.packet key g ++ padding).head?.map (fun b : UInt8 => b >>> 4) = some 4 :=
  congrArg some (first_byte h.length_div.1 h.length_div.2.1).1

end Ipv4Header

section Carries

variable {f : Frame} {key : Key} {g : Fragment}

/-- The frame holds an IPv4 packet with the UDP fragment `g`, under any header, any link and
any padding. -/
def Carries (f : Frame) (key : Key) (g : Fragment) : Prop :=
  ∃ (h : Ipv4Header) (padding : List UInt8), h.Fits g ∧
    stripLink f.linktype f.data = some (h.packet key g ++ padding)

theorem Carries.fragment (hf : Carries f key g) (hg : g.more = true ∨ g.offset ≠ 0) :
    f.fragment = some (key,g) := by
  obtain ⟨h,padding,hfits,hip⟩ := hf
  have hsome : (g.more || g.offset != 0) = true := by simpa using hg
  simp only [Frame.fragment,hip,h.packet_head,if_true,h.readV4_packet hfits,Option.join_some,
    Option.filter_some,hsome]

/-- A packet with the whole payload is taken for what it is. -/
theorem Carries.whole {data : List UInt8} {dg : Option Datagram} (hf : Carries f key ⟨0,false,data⟩)
    (hdg : parseUdp f.ts (.v4 key.1) (.v4 key.2.1) data false = some dg) (st : Decoding) :
    handleFrame st f = some (st.push dg) := by
  obtain ⟨h,padding,hfits,hip⟩ := hf
  simp only [handleFrame,hip,h.packet_head,handleV4,h.readV4_packet hfits,Option.bind_eq_bind,
    Option.bind_some,hdg]
  rfl

end Carries

section Split

variable {m : ℕ} {ps : List (List UInt8)} {g : Fragment}

/-- The fragments of a payload that is cut into `ps`, from offset `m` on. -/
def fragmentsFrom : ℕ → List (List UInt8) → List Fragment
  | _, [] => []
  | m, p :: ps => ⟨m,!ps.isEmpty,p⟩ :: fragmentsFrom (m+p.length) ps

theorem fragmentsFrom_chunks (m : ℕ) (ps : List (List UInt8)) :
    (fragmentsFrom m ps).map Fragment.chunk = Overlays.placed m ps := by
  induction ps generalizing m with
  | nil => rfl
  | cons p ps ih => simp [fragmentsFrom,Overlays.placed,ih,Fragment.chunk]

theorem fragmentsFrom_last (h : g ∈ fragmentsFrom m ps) (hmore : g.more = false) :
    g.offset+g.body.length = m+ps.flatten.length := by
  induction ps generalizing m with
  | nil => cases h
  | cons p ps ih =>
    rw [List.flatten_cons,List.length_append,← Nat.add_assoc]
    rcases List.mem_cons.mp h with rfl|h
    · obtain rfl : ps = [] := by simpa using hmore
      rfl
    · exact ih h

theorem exists_last (h : ps ≠ []) : ∃ g ∈ fragmentsFrom m ps, g.more = false := by
  induction ps generalizing m with
  | nil => exact absurd rfl h
  | cons p ps ih =>
    by_cases hps : ps = []
    · exact ⟨_,List.mem_cons_self,by simp [hps]⟩
    · obtain ⟨g,hg,hmore⟩ := ih (m := m+p.length) hps
      exact ⟨g,List.mem_cons_of_mem _ hg,hmore⟩

theorem fragmentsFrom_body (h : g ∈ fragmentsFrom m ps) : m ≤ g.offset ∧ g.body ∈ ps := by
  induction ps generalizing m with
  | nil => cases h
  | cons p ps ih =>
    rcases List.mem_cons.mp h with rfl|h
    · exact ⟨Nat.le_refl m,List.mem_cons_self⟩
    · obtain ⟨hle,hmem⟩ := ih h
      exact ⟨by omega,List.mem_cons_of_mem p hmem⟩

/-- A fragment is known by its offset. -/
theorem fragmentsFrom_inj {g' : Fragment} (hps : ∀ p ∈ ps, p ≠ []) (h : g ∈ fragmentsFrom m ps)
    (h' : g' ∈ fragmentsFrom m ps) (hoff : g.offset = g'.offset) : g = g' := by
  induction ps generalizing m with
  | nil => cases h
  | cons p ps ih =>
    have hpos := List.length_pos_iff.mpr (hps p (by simp))
    rcases List.mem_cons.mp h with rfl|h
    · rcases List.mem_cons.mp h' with rfl|h'
      · rfl
      · have hle := (fragmentsFrom_body h').1
        simp only at hoff
        omega
    · rcases List.mem_cons.mp h' with rfl|h'
      · have hle := (fragmentsFrom_body h).1
        simp only at hoff
        omega
      · exact ih (fun q hq => hps q (by simp [hq])) h h'

/-- A UDP datagram that is cut into two or more fragments at 8-byte boundaries. -/
structure Fragmented where
  src : Ipv4Addr
  dst : Ipv4Addr
  ident : UInt16
  pieces : List (List UInt8)
  many : 2 ≤ pieces.length
  nonempty : ∀ p ∈ pieces, p ≠ []
  aligned : ∀ p ∈ pieces.dropLast, p.length%8 = 0

namespace Fragmented

variable (D : Fragmented)

def key : Key := (D.src,D.dst,D.ident)

def data : List UInt8 := D.pieces.flatten

def fragments : List Fragment := fragmentsFrom 0 D.pieces

variable {D}

/-- The first piece alone holds a UDP header. -/
theorem eight_le_length : 8 ≤ D.data.length := by
  have hmany := D.many
  cases hps : D.pieces with
  | nil => simp [hps] at hmany
  | cons p ps =>
    have hps0 : ps ≠ [] := by
      rintro rfl
      simp [hps] at hmany
    have hp : p.length%8 = 0 := D.aligned p (by simp [hps,List.dropLast_cons_of_ne_nil hps0])
    have hpos := List.length_pos_iff.mpr (D.nonempty p (by simp [hps]))
    rw [data,hps,List.flatten_cons,List.length_append]
    omega

theorem pieces_ne_nil : D.pieces ≠ [] := by
  have hmany := D.many
  intro hnil
  simp [hnil] at hmany

theorem body_ne_nil {g : Fragment} (h : g ∈ D.fragments) : g.body ≠ [] :=
  D.nonempty _ (fragmentsFrom_body h).2

/-- No fragment alone is the whole datagram. -/
theorem more_or_offset {g : Fragment} (h : g ∈ D.fragments) : g.more = true ∨ g.offset ≠ 0 := by
  have hmany := D.many
  cases hps : D.pieces with
  | nil => simp [hps] at hmany
  | cons p ps =>
    have hps0 : ps ≠ [] := by
      rintro rfl
      simp [hps] at hmany
    have hpos := List.length_pos_iff.mpr (D.nonempty p (by simp [hps]))
    rw [fragments,hps,fragmentsFrom,List.mem_cons] at h
    rcases h with rfl|h
    · simp [hps0]
    · have hle := (fragmentsFrom_body h).1
      exact .inr (by omega)

end Fragmented

end Split

end Capture
end Robocol
