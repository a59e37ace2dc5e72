import Robocol.Fragments

/-! Packet unwrapping with everything checked: the walk over VLAN tags by position, and the copy
into a reassembly buffer with its subtraction and both of its ranges. What the decoder goes
through has none of these fail. -/
namespace Robocol
namespace Capture
namespace Checked

open ByteLayout

section Ranges

variable {α : Type} {dst src : List α} {lo hi : ℕ}

/-- `a - b` on `usize`. -/
def sub (a b : ℕ) : Option ℕ := if b ≤ a then some (a-b) else none

/-- `dst[lo..hi].copy_from_slice(src)` -/
def copyFromSlice (dst : List α) (lo hi : ℕ) (src : List α) : Option (List α) := do
  let part ← slice dst lo hi
  if part.length = src.length then return dst.take lo ++ src ++ dst.drop hi else none

/-- `dst[lo..hi].iter_mut().for_each(|f| *f = true)` -/
def setTrue (dst : List Bool) (lo hi : ℕ) : Option (List Bool) := do
  let part ← slice dst lo hi
  return dst.take lo ++ List.replicate part.length true ++ dst.drop hi

theorem slice_length {part : List α} (h : slice dst lo hi = some part) : part.length = hi-lo := by
  simp only [slice,Option.ite_none_right_eq_some,Option.some.injEq] at h
  obtain ⟨⟨-,hhi⟩,rfl⟩ := h
  rw [List.length_drop,List.length_take,Nat.min_eq_left hhi]

theorem copyFromSlice_eq (hhi : hi ≤ dst.length) (hsrc : lo+src.length = hi) :
    copyFromSlice dst lo hi src = ByteLayout.write dst lo src := by
  have hpart : slice dst lo hi = some _ := slice_eq (by omega) hhi
  have hlen := slice_length hpart
  rw [ByteLayout.write,if_pos (by omega),hsrc]
  simp only [copyFromSlice,hpart,Option.bind_eq_bind,Option.bind_some]
  exact if_pos (by omega)

theorem setTrue_eq {dst : List Bool} (hlo : lo ≤ hi) (hhi : hi ≤ dst.length) :
    setTrue dst lo hi = ByteLayout.write dst lo (List.replicate (hi-lo) true) := by
  have hpart : slice dst lo hi = some _ := slice_eq hlo hhi
  have hlen := slice_length hpart
  rw [ByteLayout.write,List.length_replicate,if_pos (by omega),Nat.add_sub_cancel' hlo]
  simp only [setTrue,hpart,Option.bind_eq_bind,Option.bind_some,hlen]
  rfl

end Ranges

section Links

variable {data : List UInt8} {pos fuel : ℕ}

/-- `while ethertype == 0x8100 || ethertype == 0x88a8`: `none` where the loop has not ended,
`some none` where a `get` of the source returns `None`. -/
def skipTags (data : List UInt8) : ℕ → UInt16 → ℕ → Option (Option (UInt16 × ℕ))
  | 0, _, _ => none
  | fuel+1, ethertype, pos =>
    if isTag ethertype then
      match u16At data (pos+2) with
      | none => some none
      | some ethertype => skipTags data fuel ethertype (pos+4)
    else some (some (ethertype,pos))

def stripLink (linktype : UInt32) (data : List UInt8) : Option (Option (List UInt8)) :=
  if linktype = LINKTYPE_ETHERNET then
    match u16At data 12 with
    | none => some none
    | some ethertype => do
      let r ← skipTags data (data.length+1) ethertype 14
      return r.bind fun (ethertype,pos) => if isIp ethertype then sliceFrom data pos else none
  else some (Capture.stripLink linktype data)

theorem u16At_drop (data : List UInt8) (pos i : ℕ) :
    u16At (data.drop pos) i = u16At data (pos+i) := by
  simp [u16At,Nat.add_assoc]

theorem u16At_lt {i : ℕ} {v : UInt16} (h : u16At data i = some v) : i+1 < data.length := by
  simp only [u16At,Option.bind_eq_bind,Option.bind_eq_some_iff] at h
  obtain ⟨a,-,b,hb,-⟩ := h
  exact (List.getElem?_eq_some_iff.mp hb).1

theorem capture_skipTags (ethertype : UInt16) (rest : List UInt8) :
    Capture.skipTags ethertype rest =
      if isTag ethertype then (u16At rest 2).bind fun e => Capture.skipTags e (rest.drop 4)
      else some (ethertype,rest) := by
  rcases rest with _|⟨a,_|⟨b,_|⟨c,_|⟨d,rest⟩⟩⟩⟩ <;> simp [Capture.skipTags,u16At]

/-- The walk ends inside the frame, where the tags are over: each tag takes four bytes of it. -/
theorem skipTags_eq (ethertype : UInt16) (hpos : pos ≤ data.length) (hfuel : data.length < pos+fuel) :
    ∃ r, skipTags data fuel ethertype pos = some r ∧ (∀ e ∈ r, e.2 ≤ data.length) ∧
      r.map (fun e => (e.1,data.drop e.2)) = Capture.skipTags ethertype (data.drop pos) := by
  induction fuel generalizing ethertype pos with
  | zero => omega
  | succ fuel ih =>
    rw [skipTags,capture_skipTags,u16At_drop,List.drop_drop]
    by_cases htag : isTag ethertype
    · rw [if_pos htag,if_pos htag]
      cases hnext : u16At data (pos+2) with
      | none => exact ⟨none,rfl,by simp,rfl⟩
      | some e =>
        have hin := u16At_lt hnext
        exact ih e (by omega) (by omega)
    · rw [if_neg htag,if_neg htag]
      exact ⟨some (ethertype,pos),rfl,by simpa using hpos,rfl⟩

theorem stripLink_eq (linktype : UInt32) (data : List UInt8) :
    stripLink linktype data = some (Capture.stripLink linktype data) := by
  by_cases hlink : linktype = LINKTYPE_ETHERNET
  · rw [stripLink,if_pos hlink,Capture.stripLink,if_pos hlink]
    cases htype : u16At data 12 with
    | none => rfl
    | some ethertype =>
      have hin := u16At_lt htype
      obtain ⟨r,hr,hbound,hsame⟩ :=
        skipTags_eq ethertype (show 14 ≤ data.length by omega)
          (show data.length < 14+(data.length+1) by omega)
      simp only [hr,Option.bind_eq_bind,Option.bind_some,← hsame]
      cases r with
      | none => rfl
      | some e =>
        have hslice : sliceFrom data e.2 = some (data.drop e.2) := if_pos (hbound e rfl)
        simp only [Option.bind_some,Option.map_some,hslice]
        rfl
  · rw [stripLink,if_neg hlink]

end Links

section Reassembly

variable {total : ℕ} {b : List UInt8 × List Bool}

/-- One round of the loop over `entry.chunks`. -/
def fillRound (total : ℕ) : List UInt8 × List Bool → ℕ × List UInt8 →
    Option (List UInt8 × List Bool)
  | (buf,filled), (off,chunk) =>
    let hi := min (off+chunk.length) total
    if total ≤ off then some (buf,filled) else do
      let buf ← copyFromSlice buf off hi (← slice chunk 0 (← sub hi off))
      let filled ← setTrue filled off hi
      return (buf,filled)

def reassemble (ts : F64) (key : Key) (g : Fragment) (st : Decoding) : Option Decoding :=
  let entry := ((st.reasm.pending key).getD {}).add ts g
  match entry.total with
  | none => some { st with reasm.pending := Function.update st.reasm.pending key (some entry) }
  | some total => do
    let (buf,filled) ← entry.chunks.foldlM (fillRound total)
      (List.replicate total 0,List.replicate total false)
    if filled.all id then
      let st := { st with reasm.pending := Function.update st.reasm.pending key none }
      return st.push (← parseUdp entry.ts (.v4 key.1) (.v4 key.2.1) buf true)
    else return { st with reasm.pending := Function.update st.reasm.pending key (some entry) }

def handleV4 (ts : F64) (ip : List UInt8) (st : Decoding) : Option Decoding := do
  match ← readV4 ip with
  | none => return st
  | some (key,g) =>
    if !g.more && g.offset == 0 then
      return st.push (← parseUdp ts (.v4 key.1) (.v4 key.2.1) g.body false)
    else reassemble ts key g st

def handleFrame (st : Decoding) (frame : Frame) : Option Decoding := do
  match ← stripLink frame.linktype frame.data with
  | none => some { st with skipped := st.skipped+1 }
  | some ip =>
    match ip.head?.map (fun b : UInt8 => b >>> 4) with
    | some 4 => handleV4 frame.ts ip st
    | some 6 => handleV6 frame.ts ip st
    | _ => some { st with skipped := st.skipped+1 }

/-- `none` where an index, a slice or a subtraction leaves its range, or the walk over the tags
does not end. -/
def datagrams (frames : List Frame) : Option (List Datagram × ℕ) := do
  let st ← frames.foldlM handleFrame {}
  return (st.out,st.skipped)

/-- On a buffer of the announced length a chunk is laid as far as the buffer reaches. -/
theorem fillRound_eq (hbuf : b.1.length = total) (hfilled : b.2.length = total)
    (c : ℕ × List UInt8) : fillRound total b c = Capture.fillRound total b c := by
  obtain ⟨buf,filled⟩ := b
  obtain ⟨off,chunk⟩ := c
  simp only at hbuf hfilled
  by_cases hoff : total ≤ off
  · rw [fillRound,Capture.fillRound,if_pos hoff,if_pos hoff]
  have hsub : sub (min (off+chunk.length) total) off = some (min (off+chunk.length) total-off) :=
    if_pos (by omega)
  have hfront : slice chunk 0 (min (off+chunk.length) total-off) = some _ :=
    slice_eq (Nat.zero_le _) (by omega)
  have hlen := slice_length hfront
  rw [fillRound,Capture.fillRound,if_neg hoff,if_neg hoff]
  simp only [hsub,hfront,Option.bind_eq_bind,Option.bind_some]
  rw [copyFromSlice_eq (by omega) (by omega),setTrue_eq (by omega) (by omega)]

theorem fillRounds_eq (cs ds : List (ℕ × List UInt8)) (h : Laid total cs b) :
    ds.foldlM (fillRound total) b = ds.foldlM (Capture.fillRound total) b := by
  induction ds generalizing cs b with
  | nil => rfl
  | cons d ds ih =>
    obtain ⟨b',hb',h'⟩ := h.round d
    rw [List.foldlM_cons,List.foldlM_cons,fillRound_eq h.length h.masked,hb']
    exact ih _ h'

theorem reassemble_eq (ts : F64) (key : Key) (g : Fragment) (st : Decoding) :
    reassemble ts key g st = Capture.reassemble ts key g st := by
  rw [reassemble,Capture.reassemble]
  cases htotal : (((st.reasm.pending key).getD {}).add ts g).total with
  | none => rfl
  | some total =>
    simp only [fillRounds_eq [] _ (laid_blank total)]

theorem handleV4_eq (ts : F64) (ip : List UInt8) (st : Decoding) :
    handleV4 ts ip st = Capture.handleV4 ts ip st := by
  obtain ⟨r,hr⟩ := readV4_total ip
  cases r with
  | none => simp only [handleV4,Capture.handleV4,hr,Option.bind_eq_bind,Option.bind_some]
  | some r =>
    simp only [handleV4,Capture.handleV4,hr,Option.bind_eq_bind,Option.bind_some,reassemble_eq]

theorem handleFrame_eq (st : Decoding) (frame : Frame) :
    handleFrame st frame = Capture.handleFrame st frame := by
  cases hip : Capture.stripLink frame.linktype frame.data with
  | none =>
    simp only [handleFrame,Capture.handleFrame,stripLink_eq,hip,Option.bind_eq_bind,Option.bind_some]
  | some ip =>
    by_cases h4 : ip.head?.map (fun b : UInt8 => b >>> 4) = some 4
    · simp only [handleFrame,Capture.handleFrame,stripLink_eq,hip,h4,Option.bind_eq_bind,
        Option.bind_some,handleV4_eq]
    · by_cases h6 : ip.head?.map (fun b : UInt8 => b >>> 4) = some 6
      · simp only [handleFrame,Capture.handleFrame,stripLink_eq,hip,h6,Option.bind_eq_bind,
          Option.bind_some]
      · simp only [handleFrame,Capture.handleFrame,stripLink_eq,hip,Option.bind_eq_bind,
          Option.bind_some]

end Reassembly

/-- Whatever was captured, unwrapping it ends and stays inside every buffer. -/
theorem datagrams_safe (frames : List Frame) :
    ∃ out skipped, datagrams frames = some (out,skipped) ∧
      Capture.datagrams frames = some (out,skipped) := by
  obtain ⟨st,hst⟩ := run_total {} frames
  have hrun : frames.foldlM handleFrame {} = some st := by
    rw [← hst]
    exact congrArg (fun step => List.foldlM step _ frames)
      (funext fun t => funext fun f => handleFrame_eq t f)
  exact ⟨st.out,st.skipped,by rw [datagrams,hrun]; rfl,by rw [Capture.datagrams,hst]; rfl⟩

end Checked
end Capture
end Robocol
