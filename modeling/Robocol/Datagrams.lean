import Mathlib.Logic.Function.Basic
import Robocol.ByteLayout

/-! Link, IP and UDP unwrapping of captured frames, with IPv4 reassembly. Indexing and
slicing are checked: `none` is a panic where the source indexes, and the `None` of the
source where it asks with `get`. -/
namespace Robocol
namespace Capture

open ByteLayout

/-- An `f64` through its bits. -/
structure F64 where
  bits : UInt64
  deriving DecidableEq

abbrev Ipv4Addr := UInt8 × UInt8 × UInt8 × UInt8

inductive IpAddr
  | v4 (addr : Ipv4Addr)
  | v6 (addr : List UInt8)
  deriving DecidableEq

/-- A captured frame. -/
structure Frame where
  ts : F64
  linktype : UInt32
  data : List UInt8
  deriving DecidableEq

structure Datagram where
  ts : F64
  src : IpAddr
  dst : IpAddr
  sport : UInt16
  dport : UInt16
  payload : List UInt8
  fragmented : Bool
  deriving DecidableEq

def LINKTYPE_ETHERNET : UInt32 := 1
def LINKTYPE_RAW : UInt32 := 101
def LINKTYPE_LINUX_SLL : UInt32 := 113
def LINKTYPE_LINUX_SLL2 : UInt32 := 276
def LINKTYPE_NULL : UInt32 := 0
def PROTO_UDP : UInt8 := 17

/-- Source, destination and identification: what a reassembly is kept under. -/
abbrev Key := Ipv4Addr × Ipv4Addr × UInt16

structure Pending where
  chunks : List (ℕ × List UInt8) := []
  total : Option ℕ := none
  ts : F64 := ⟨0⟩
  deriving DecidableEq

structure Reassembler where
  pending : Key → Option Pending := fun _ => none

/-- The part of an IPv4 payload that one packet brings. -/
structure Fragment where
  offset : ℕ
  more : Bool
  body : List UInt8
  deriving DecidableEq

/-- What `datagrams` keeps between two frames. -/
structure Decoding where
  reasm : Reassembler := {}
  out : List Datagram := []
  skipped : ℕ := 0

section Bytes

/-- `xs[lo..hi]`. -/
def slice {α : Type} (xs : List α) (lo hi : ℕ) : Option (List α) :=
  if lo ≤ hi ∧ hi ≤ xs.length then some ((xs.take hi).drop lo) else none

/-- `xs.get(lo..)`. -/
def sliceFrom (xs : List UInt8) (lo : ℕ) : Option (List UInt8) :=
  if lo ≤ xs.length then some (xs.drop lo) else none

def u16At (xs : List UInt8) (i : ℕ) : Option UInt16 := do
  let a ← xs[i]?
  let b ← xs[i+1]?
  return UInt16.ofNat (ofBE [a,b])

def ipv4At (xs : List UInt8) (i : ℕ) : Option Ipv4Addr := do
  let a ← xs[i]?
  let b ← xs[i+1]?
  let c ← xs[i+2]?
  let d ← xs[i+3]?
  return (a,b,c,d)

end Bytes

section Links

def isTag (ethertype : UInt16) : Bool := ethertype == 0x8100 || ethertype == 0x88a8

def isIp (ethertype : UInt16) : Bool := ethertype == 0x0800 || ethertype == 0x86dd

/-- The loop over VLAN tags, on what follows the ethertype. -/
def skipTags : UInt16 → List UInt8 → Option (UInt16 × List UInt8)
  | ethertype, a :: b :: c :: d :: rest =>
    if isTag ethertype then skipTags (UInt16.ofNat (ofBE [c,d])) rest
    else some (ethertype,a :: b :: c :: d :: rest)
  | ethertype, rest => if isTag ethertype then none else some (ethertype,rest)

def stripLink (linktype : UInt32) (data : List UInt8) : Option (List UInt8) :=
  if linktype = LINKTYPE_ETHERNET then do
    let (ethertype,rest) ← skipTags (← u16At data 12) (data.drop 14)
    if isIp ethertype then return rest else none
  else if linktype = LINKTYPE_LINUX_SLL then do
    if isIp (← u16At data 14) then sliceFrom data 16 else none
  else if linktype = LINKTYPE_LINUX_SLL2 then do
    if isIp (← u16At data 0) then sliceFrom data 20 else none
  else if linktype = LINKTYPE_RAW then some data
  else if linktype = LINKTYPE_NULL then sliceFrom data 4
  else none

end Links

section Decode

/-- `some none` is the `None` of the source. -/
def parseUdp (ts : F64) (src dst : IpAddr) (body : List UInt8) (fragmented : Bool) :
    Option (Option Datagram) :=
  if body.length < 8 then some none else do
    let sport ← u16At body 0
    let dport ← u16At body 2
    let len := (← u16At body 4).toNat
    let stop := if 8 ≤ len then min len body.length else body.length
    let payload ← slice body 8 stop
    return some ⟨ts,src,dst,sport,dport,payload,fragmented⟩

def Decoding.push (st : Decoding) (dg : Option Datagram) : Decoding :=
  { st with out := st.out ++ dg.toList }

/-- The checks at the front of `handle_v4`, and the fields it reads behind them. -/
def readV4 (ip : List UInt8) : Option (Option (Key × Fragment)) :=
  if ip.length < 20 then some none else do
    if (← ip[9]?) ≠ PROTO_UDP then return none
    let ihl := ((← ip[0]?) &&& 0x0f).toNat*4
    let totalLen := (← u16At ip 2).toNat
    if ihl < 20 ∨ totalLen < ihl ∨ ip.length < ihl then return none
    let body ← slice ip ihl (min totalLen ip.length)
    let src ← ipv4At ip 12
    let dst ← ipv4At ip 16
    let ident ← u16At ip 4
    let flagsFrag ← u16At ip 6
    return some ((src,dst,ident),⟨(flagsFrag &&& 0x1fff).toNat*8,flagsFrag &&& 0x2000 != 0,body⟩)

/-- One round of the loop that lays the chunks over each other. -/
def fillRound (total : ℕ) : List UInt8 × List Bool → ℕ × List UInt8 →
    Option (List UInt8 × List Bool)
  | (buf,filled), (off,chunk) =>
    let hi := min (off+chunk.length) total
    if total ≤ off then some (buf,filled) else do
      let buf ← write buf off (← slice chunk 0 (hi-off))
      let filled ← write filled off (List.replicate (hi-off) true)
      return (buf,filled)

/-- The entry after `g` came in at `ts`. -/
def Pending.add (entry : Pending) (ts : F64) (g : Fragment) : Pending :=
  { chunks := entry.chunks ++ [(g.offset,g.body)]
    total := if g.more then entry.total else some (g.offset+g.body.length)
    ts := if entry.chunks.isEmpty then ts else entry.ts }

def reassemble (ts : F64) (key : Key) (g : Fragment) (st : Decoding) : Option Decoding :=
  let entry := ((st.reasm.pending key).getD {}).add ts g
  match entry.total with
  | none => some { st with reasm.pending := Function.update st.reasm.pending key (some entry) }
  | some total => do
    let (buf,filled) ← entry.chunks.foldlM (fillRound total)
      (List.replicate total 0,List.replicate total false)
    if filled.all id then
      let st := { st with reasm.pending := Function.update st.reasm.pending key none }
      return st.push (← parseUdp entry.ts (.v4 key.1) (.v4 key.2.1) buf true)
    else return { st with reasm.pending := Function.update st.reasm.pending key (some entry) }

def handleV4 (ts : F64) (ip : List UInt8) (st : Decoding) : Option Decoding := do
  match ← readV4 ip with
  | none => return st
  | some (key,g) =>
    if !g.more && g.offset == 0 then
      return st.push (← parseUdp ts (.v4 key.1) (.v4 key.2.1) g.body false)
    else reassemble ts key g st

def handleV6 (ts : F64) (ip : List UInt8) (st : Decoding) : Option Decoding :=
  if ip.length < 40 then some st else do
    if (← ip[6]?) ≠ PROTO_UDP then return st
    let src ← slice ip 8 24
    let dst ← slice ip 24 40
    return st.push (← parseUdp ts (.v6 src) (.v6 dst) (← slice ip 40 ip.length) false)

def handleFrame (st : Decoding) (frame : Frame) : Option Decoding :=
  match stripLink frame.linktype frame.data with
  | none => some { st with skipped := st.skipped+1 }
  | some ip =>
    match ip.head?.map (fun b : UInt8 => b >>> 4) with
    | some 4 => handleV4 frame.ts ip st
    | some 6 => handleV6 frame.ts ip st
    | _ => some { st with skipped := st.skipped+1 }

/-- The datagrams of a capture and the number of frames skipped, `none` for a panic. -/
def datagrams (frames : List Frame) : Option (List Datagram × ℕ) := do
  let st ← frames.foldlM handleFrame {}
  return (st.out,st.skipped)

end Decode

section Total

variable {xs : List UInt8} {i : ℕ}

theorem slice_eq {α : Type} {ys : List α} {lo hi : ℕ} (h : lo ≤ hi) (h' : hi ≤ ys.length) :
    slice ys lo hi = some ((ys.take hi).drop lo) := if_pos ⟨h,h'⟩

theorem u16At_eq (h : i+1 < xs.length) : u16At xs i = some (UInt16.ofNat (ofBE [xs[i],xs[i+1]])) := by
  simp [u16At,List.getElem?_eq_getElem h,List.getElem?_eq_getElem (Nat.lt_of_succ_lt h)]

theorem ipv4At_eq (h : i+3 < xs.length) : ipv4At xs i = some (xs[i],xs[i+1],xs[i+2],xs[i+3]) := by
  simp [ipv4At,List.getElem?_eq_getElem h,List.getElem?_eq_getElem (show i < xs.length by omega),
    List.getElem?_eq_getElem (show i+1 < xs.length by omega),
    List.getElem?_eq_getElem (show i+2 < xs.length by omega)]

theorem parseUdp_some (ts : F64) (src dst : IpAddr) {body : List UInt8} (h : 8 ≤ body.length)
    (fragmented : Bool) : ∃ dg, parseUdp ts src dst body fragmented = some (some dg) := by
  rw [parseUdp,if_neg (by omega),u16At_eq (by omega),u16At_eq (by omega),u16At_eq (by omega)]
  simp only [Option.bind_eq_bind,Option.bind_some]
  rw [slice_eq (by split <;> omega) (by split <;> omega)]
  exact ⟨_,rfl⟩

theorem parseUdp_total (ts : F64) (src dst : IpAddr) (body : List UInt8) (fragmented : Bool) :
    ∃ dg, parseUdp ts src dst body fragmented = some dg := by
  by_cases h : 8 ≤ body.length
  · obtain ⟨dg,hdg⟩ := parseUdp_some ts src dst h fragmented
    exact ⟨some dg,hdg⟩
  · exact ⟨none,if_pos (by omega)⟩

/-- The time and the mark of a datagram are only passed on. -/
theorem parseUdp_at {ts : F64} {src dst : IpAddr} {body : List UInt8} {fragmented : Bool}
    {dg : Datagram} (h : parseUdp ts src dst body fragmented = some (some dg)) (ts' : F64) (b : Bool) :
    parseUdp ts' src dst body b = some (some { dg with ts := ts', fragmented := b }) := by
  simp only [parseUdp] at h ⊢
  by_cases hlen : body.length < 8
  · simp [hlen] at h
  · rw [if_neg hlen] at h ⊢
    simp only [Option.bind_eq_bind,Option.bind_eq_some_iff,Option.pure_def,Option.some.injEq] at h ⊢
    obtain ⟨sport,hs,dport,hd,len,hl,payload,hp,rfl⟩ := h
    exact ⟨sport,hs,dport,hd,len,hl,payload,hp,rfl⟩

theorem parseUdp_fields {ts : F64} {src dst : IpAddr} {body : List UInt8} {fragmented : Bool}
    {dg : Datagram} (h : parseUdp ts src dst body fragmented = some (some dg)) :
    dg.ts = ts ∧ dg.src = src ∧ dg.dst = dst ∧ dg.fragmented = fragmented := by
  simp only [parseUdp] at h
  by_cases hlen : body.length < 8
  · simp [hlen] at h
  · rw [if_neg hlen] at h
    simp only [Option.bind_eq_bind,Option.bind_eq_some_iff,Option.pure_def,Option.some.injEq] at h
    obtain ⟨sport,-,dport,-,len,-,payload,-,rfl⟩ := h
    exact ⟨rfl,rfl,rfl,rfl⟩

theorem readV4_total (ip : List UInt8) : ∃ r, readV4 ip = some r := by
  rw [readV4]
  by_cases hlen : ip.length < 20
  · exact ⟨none,if_pos hlen⟩
  · rw [if_neg hlen,List.getElem?_eq_getElem (show 9 < ip.length by omega),
      List.getElem?_eq_getElem (show 0 < ip.length by omega),u16At_eq (by omega)]
    simp only [Option.bind_eq_bind,Option.bind_some]
    split
    · exact ⟨none,rfl⟩
    · split
      · exact ⟨none,rfl⟩
      · rw [slice_eq (by omega) (by omega),ipv4At_eq (by omega),ipv4At_eq (by omega),
          u16At_eq (by omega),u16At_eq (by omega)]
        exact ⟨_,rfl⟩

theorem handleV6_pushes (ts : F64) (ip : List UInt8) :
    ∃ dg, ∀ st, handleV6 ts ip st = some (st.push dg) := by
  by_cases hlen : ip.length < 40
  · exact ⟨none,fun st => by simp [handleV6,hlen,Decoding.push]⟩
  · have h6 : ip[6]? = some ip[6] := List.getElem?_eq_getElem (by omega)
    by_cases hudp : ip[6] = PROTO_UDP
    · have hsrc : slice ip 8 24 = some _ := slice_eq (by omega) (by omega)
      have hdst : slice ip 24 40 = some _ := slice_eq (by omega) (by omega)
      have hbody : slice ip 40 ip.length = some _ := slice_eq (by omega) (Nat.le_refl _)
      obtain ⟨dg,hdg⟩ := parseUdp_total ts (.v6 ((ip.take 24).drop 8)) (.v6 ((ip.take 40).drop 24))
        ((ip.take ip.length).drop 40) false
      refine ⟨dg,fun st => ?_⟩
      simp only [handleV6,if_neg hlen,h6,hudp,hsrc,hdst,hbody,hdg,Option.bind_eq_bind,
        Option.bind_some,ne_eq,not_true_eq_false,if_false]
      rfl
    · exact ⟨none,fun st => by simp [handleV6,hlen,h6,hudp,Decoding.push]⟩

end Total

end Capture
end Robocol
