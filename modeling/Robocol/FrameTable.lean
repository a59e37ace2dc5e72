import Robocol.FrameFeed

/-! The table of partial frames as the worker keeps it by hand: a buffer, its flags and a counter
under each frame number. Every index, slice and sum is checked here, and the table with its
invariants as fields says what the checked operations do. -/
namespace Robocol

open Std (ExtTreeMap)

namespace BoundedTable

variable {κ ν μ : Type} [LinearOrder κ]

theorem map_insert (t : ExtTreeMap κ ν compare) (f : ν → μ) (k : κ) (v : ν) :
    (t.insert k v).map (fun _ => f) = (t.map fun _ => f).insert k (f v) := by
  apply ExtTreeMap.ext_getElem?
  intro j
  simp only [ExtTreeMap.getElem?_map,ExtTreeMap.getElem?_insert]
  split <;> rfl

theorem map_erase (t : ExtTreeMap κ ν compare) (f : ν → μ) (k : κ) :
    (t.erase k).map (fun _ => f) = (t.map fun _ => f).erase k := by
  apply ExtTreeMap.ext_getElem?
  intro j
  simp only [ExtTreeMap.getElem?_map,ExtTreeMap.getElem?_erase]
  split <;> rfl

/-- Trimming looks at the keys only. -/
theorem map_trim (cap fuel : ℕ) (t : ExtTreeMap κ ν compare) (f : ν → μ) :
    (trim cap fuel t).map (fun _ => f) = trim cap fuel (t.map fun _ => f) := by
  induction fuel generalizing t with
  | zero => rfl
  | succ fuel ih =>
    rw [trim,trim,ExtTreeMap.size_map,ExtTreeMap.keys_map]
    by_cases hcap : cap < t.size
    · rw [if_pos hcap,if_pos hcap]
      cases hk : t.keys.head? with
      | none => rfl
      | some k =>
        have hrest := ih (t.erase k)
        rwa [map_erase] at hrest
    · rw [if_neg hcap,if_neg hcap]

end BoundedTable

namespace Client

open ByteLayout Cmd Pieces Runs Worker

namespace FrameTable

section Checked

def USIZE_MAX : ℕ := 2^64-1
def ISIZE_MAX : ℕ := 2^63-1

def add (a b : ℕ) : Option ℕ := if a+b ≤ USIZE_MAX then some (a+b) else none
def sub (a b : ℕ) : Option ℕ := if b ≤ a then some (a-b) else none
def mul (a b : ℕ) : Option ℕ := if a*b ≤ USIZE_MAX then some (a*b) else none

/-- `flags[index] = true` -/
def setFlag (flags : List Bool) (index : ℕ) : Option (List Bool) :=
  if index < flags.length then some (flags.set index true) else none

end Checked

/-- A partial frame as the source has it. -/
structure RawFrame where
  data : List UInt8
  received : List Bool
  remaining : ℕ
  deriving DecidableEq

abbrev RawTable := ExtTreeMap ℤ RawFrame compare

/-- What base64 decoding gives; no vector is longer than `ISIZE_MAX`. -/
structure Payload where
  bytes : List UInt8
  length_le : bytes.length ≤ ISIZE_MAX

/-- The part of `handle_frame_begin` behind the decoder. -/
def handleFrameBegin (t : RawTable) (begin : FrameBegin) : RawTable :=
  if begin.length < 0 then t
  else if MAX_FRAME_BYTES < begin.length.toNat then t
  else
    let length := begin.length.toNat
    let chunkCount := count FRAME_CHUNK_SIZE length
    let t := t.insert begin.frameNum
      ⟨List.replicate length 0,List.replicate chunkCount false,chunkCount⟩
    BoundedTable.trim MAX_CONCURRENT_FRAMES t.size t

/-- The part of `handle_frame_chunk` behind the decoders, `none` for a panic: the frame it
completes, and the table after it. -/
def handleFrameChunk (t : RawTable) (frameNum chunkNum : ℤ) (bytes : List UInt8) :
    Option (Option (List UInt8) × RawTable) :=
  if chunkNum < 0 then some (none,t)
  else
    let index := chunkNum.toNat
    match t[frameNum]? with
    | none => some (none,t)
    | some frame => do
      if frame.received.length ≤ index then return (none,t)
      if ← frame.received[index]? then return (none,t)
      let offset ← mul index FRAME_CHUNK_SIZE
      if frame.data.length < (← add offset bytes.length) then return (none,t)
      let data ← write frame.data offset bytes
      let received ← setFlag frame.received index
      let remaining ← sub frame.remaining 1
      let t := t.insert frameNum ⟨data,received,remaining⟩
      if 0 < remaining then return (none,t)
      return (some data,(t.erase frameNum).filter fun num _ => frameNum < num)

/-- What touches the table. -/
inductive FrameOp
  | frameBegin (begin : FrameBegin)
  | frameChunk (frameNum chunkNum : ℤ) (payload : Payload)
  | streamChange (available : Bool)
  | stall
  | dropPeer

def apply (t : RawTable) : FrameOp → Option RawTable
  | .frameBegin begin => some (handleFrameBegin t begin)
  | .frameChunk frameNum chunkNum payload => do
    let r ← handleFrameChunk t frameNum chunkNum payload.bytes
    return r.2
  | .streamChange available => some (if available then t else ∅)
  | .stall => some ∅
  | .dropPeer => some ∅

def runOps (ops : List FrameOp) : Option RawTable := ops.foldlM apply ∅

/-- The representation invariant. -/
structure Sound (t : RawTable) : Prop where
  size_le : t.size ≤ MAX_CONCURRENT_FRAMES
  data_le (n : ℤ) (frame : RawFrame) (h : t[n]? = some frame) : frame.data.length ≤ MAX_FRAME_BYTES
  received_length (n : ℤ) (frame : RawFrame) (h : t[n]? = some frame) :
    frame.received.length = count FRAME_CHUNK_SIZE frame.data.length
  remaining_eq (n : ℤ) (frame : RawFrame) (h : t[n]? = some frame) :
    frame.remaining = frame.received.count false

section Refinement

variable {frames : Frames} {frame frame' : PartialFrame} {n : ℤ} {index : ℕ} {bytes : List UInt8}

def forget (frame : PartialFrame) : RawFrame := ⟨frame.data,frame.received,frame.remaining⟩

/-- The table without what its fields say of it. -/
def raw (frames : Frames) : RawTable := frames.entries.map fun _ => forget

/-- No frame is longer than the worker allows. -/
def Capped (frames : Frames) : Prop :=
  ∀ n frame, frames.get? n = some frame → frame.data.length ≤ MAX_FRAME_BYTES

theorem raw_getElem? (frames : Frames) (n : ℤ) : (raw frames)[n]? = (frames.get? n).map forget :=
  ExtTreeMap.getElem?_map

theorem raw_empty : raw ∅ = ∅ := ExtTreeMap.map_eq_empty_iff.mpr rfl

theorem raw_sound (h : Capped frames) : Sound (raw frames) where
  size_le := by
    rw [raw,ExtTreeMap.size_map]
    exact frames.size_le
  data_le n f hf := by
    rw [raw_getElem?,Option.map_eq_some_iff] at hf
    obtain ⟨frame,hframe,rfl⟩ := hf
    exact h n frame hframe
  received_length n f hf := by
    rw [raw_getElem?,Option.map_eq_some_iff] at hf
    obtain ⟨frame,-,rfl⟩ := hf
    exact frame.received_length
  remaining_eq n f hf := by
    rw [raw_getElem?,Option.map_eq_some_iff] at hf
    obtain ⟨frame,-,rfl⟩ := hf
    exact frame.remaining_eq

theorem capped_empty : Capped ∅ := by
  intro n frame h
  rw [BoundedTable.get?_empty] at h
  cases h

theorem Capped.openFrame (h : Capped frames) {length : ℕ} (hlen : length ≤ MAX_FRAME_BYTES) :
    Capped (openFrame frames n length) := by
  intro m frame hframe
  rcases BoundedTable.get?_insert_some hframe with ⟨-,rfl⟩|⟨-,hold⟩
  · rwa [PartialFrame.blank_length]
  · exact h m frame hold

theorem Capped.putChunk (h : Capped frames) : Capped (putChunk frames n index bytes).2 := by
  have hput := putChunk_spec frames n index bytes
  generalize Worker.putChunk frames n index bytes = r at hput
  intro m f hf
  cases hput with
  | reject => exact h m f hf
  | progress frame frame' after hframe haccept hmissing hget =>
    rw [hget] at hf
    by_cases hnm : n = m
    · rw [if_pos hnm] at hf
      obtain rfl := Option.some.inj hf
      rw [PartialFrame.accept_length haccept]
      exact h n frame hframe
    · rw [if_neg hnm] at hf
      exact h m f hf
  | complete frame frame' after hframe haccept hall hget =>
    rw [hget] at hf
    by_cases hnm : n < m
    · rw [if_pos hnm] at hf
      exact h m f hf
    · rw [if_neg hnm] at hf
      cases hf

theorem openFrame_raw (frames : Frames) (n : ℤ) (length : ℕ) :
    raw (openFrame frames n length) =
      let t := (raw frames).insert n (forget (PartialFrame.blank length))
      BoundedTable.trim MAX_CONCURRENT_FRAMES t.size t := by
  simp only [raw,openFrame,BoundedTable.insert,BoundedTable.map_trim,BoundedTable.map_insert,
    ← ExtTreeMap.size_map (f := fun _ => forget)]

theorem raw_replace (h : n ∈ frames.entries) :
    raw (frames.replace n frame h) = (raw frames).insert n (forget frame) :=
  BoundedTable.map_insert _ _ _ _

theorem raw_dropThrough (frames : Frames) (n : ℤ) (f : RawFrame) :
    (((raw frames).insert n f).erase n).filter (fun m _ => n < m) = raw (frames.dropThrough n) := by
  apply ExtTreeMap.ext_getElem?
  intro m
  simp only [raw_getElem?,BoundedTable.get?_dropThrough,ExtTreeMap.getElem?_filter',
    ExtTreeMap.getElem?_erase,ExtTreeMap.getElem?_insert,compare_eq_iff_eq]
  by_cases hlt : n < m
  · rw [if_neg hlt.ne,if_neg hlt.ne,if_pos hlt]
    cases frames.get? m <;> simp [hlt]
  · rw [if_neg hlt]
    by_cases hnm : n = m
    · rw [if_pos hnm]
      rfl
    · rw [if_neg hnm]
      cases frames.get? m <;> simp [hlt]

/-- What is checked on the way to an accepted chunk holds: the place is in the buffer, the sums
fit, and there is something left to count down. -/
theorem accept_checked (hcap : frame.data.length ≤ MAX_FRAME_BYTES)
    (h : frame.accept index bytes = some frame') :
    mul index FRAME_CHUNK_SIZE = some (index*FRAME_CHUNK_SIZE) ∧
      add (index*FRAME_CHUNK_SIZE) bytes.length = some (index*FRAME_CHUNK_SIZE+bytes.length) ∧
      ¬frame.data.length < index*FRAME_CHUNK_SIZE+bytes.length ∧
      setFlag frame.received index = some frame'.received ∧
      sub frame.remaining 1 = some frame'.remaining := by
  obtain ⟨hnew,-,hreceived⟩ := PartialFrame.accept_eq_some.mp h
  obtain ⟨-,-,hfit⟩ := PartialFrame.accept_isSome.mp (by rw [h]; rfl)
  obtain ⟨hlt,-⟩ := List.getElem?_eq_some_iff.mp hnew
  have hpos : 0 < frame.received.count false := List.count_pos_iff.mpr (List.mem_of_getElem? hnew)
  have hcount : frame'.remaining = frame.remaining-1 := by
    rw [frame'.remaining_eq,hreceived,PartialFrame.count_set_true hnew,frame.remaining_eq]
  have hfits : index*FRAME_CHUNK_SIZE+bytes.length ≤ USIZE_MAX :=
    (hfit.trans hcap).trans (by decide)
  refine ⟨if_pos (by omega),if_pos hfits,by omega,?_,?_⟩
  · rw [setFlag,if_pos hlt,hreceived]
  · rw [hcount]
    exact if_pos (by rw [frame.remaining_eq]; omega)

/-- A chunk that is not accepted is turned away before anything is written. -/
theorem handleFrameChunk_rejects {t : RawTable} (hcap : frame.data.length ≤ MAX_FRAME_BYTES)
    (hframe : t[n]? = some (forget frame)) (hlen : bytes.length ≤ ISIZE_MAX)
    (h : frame.accept index bytes = none) :
    handleFrameChunk t n index bytes = some (none,t) := by
  have hindex : ¬(index : ℤ) < 0 := by omega
  rw [handleFrameChunk,if_neg hindex,Int.toNat_natCast]
  simp only [hframe,forget]
  by_cases hplace : frame.received.length ≤ index
  · rw [if_pos hplace]
    rfl
  have hget : frame.received[index]? = some frame.received[index] :=
    List.getElem?_eq_getElem (by omega)
  cases hflag : frame.received[index] with
  | true =>
    rw [if_neg hplace,hget,hflag]
    rfl
  | false =>
    have hnew : frame.Misses index := by rw [PartialFrame.Misses,hget,hflag]
    have hlong : frame.data.length < index*FRAME_CHUNK_SIZE+bytes.length := by
      by_contra hfit
      have hsome := PartialFrame.accept_isSome.mpr ⟨hnew,hnew.lt,Nat.le_of_not_lt hfit⟩
      rw [h] at hsome
      cases hsome
    have hstart : index*FRAME_CHUNK_SIZE < frame.data.length :=
      start_lt_of_lt_count (by decide) hnew.lt
    have hroom : MAX_FRAME_BYTES+ISIZE_MAX ≤ USIZE_MAX := by decide
    have hmul : mul index FRAME_CHUNK_SIZE = some (index*FRAME_CHUNK_SIZE) := if_pos (by omega)
    have hadd : add (index*FRAME_CHUNK_SIZE) bytes.length =
      some (index*FRAME_CHUNK_SIZE+bytes.length) := if_pos (by omega)
    rw [if_neg hplace,hget,hflag]
    simp only [Option.bind_eq_bind,Option.bind_some,Bool.false_eq_true,if_false,hmul,hadd,if_pos hlong]
    rfl

theorem handleFrameChunk_accepts {t : RawTable} (hcap : frame.data.length ≤ MAX_FRAME_BYTES)
    (hframe : t[n]? = some (forget frame)) (h : frame.accept index bytes = some frame') :
    handleFrameChunk t n index bytes = some
      (if 0 < frame'.remaining then (none,t.insert n (forget frame'))
      else (some frame'.data,((t.insert n (forget frame')).erase n).filter fun m _ => n < m)) := by
  obtain ⟨hmul,hadd,hfit,hset,hsub⟩ := accept_checked hcap h
  obtain ⟨hnew,hwrite,-⟩ := PartialFrame.accept_eq_some.mp h
  have hindex : ¬(index : ℤ) < 0 := by omega
  have hplace : ¬frame.received.length ≤ index := by
    obtain ⟨hlt,-⟩ := List.getElem?_eq_some_iff.mp hnew
    omega
  have hflag : frame.received[index]? = some false := hnew
  rw [handleFrameChunk,if_neg hindex,Int.toNat_natCast]
  simp only [hframe,forget,if_neg hplace,hflag,Option.bind_eq_bind,Option.bind_some,
    Bool.false_eq_true,if_false,hmul,hadd,if_neg hfit,hwrite,hset,hsub]
  by_cases hrem : 0 < frame'.remaining
  · rw [if_pos hrem,if_pos hrem]
    rfl
  · rw [if_neg hrem,if_neg hrem]
    rfl

/-- The checked steps of `handle_frame_chunk` come to what the chunk does to the table. -/
theorem handleFrameChunk_raw (h : Capped frames) (n : ℤ) (index : ℕ)
    (hlen : bytes.length ≤ ISIZE_MAX) :
    handleFrameChunk (raw frames) n index bytes =
      some ((putChunk frames n index bytes).1,raw (putChunk frames n index bytes).2) := by
  have hget := raw_getElem? frames n
  rw [putChunk]
  split
  · rename_i hframe
    have hindex : ¬(index : ℤ) < 0 := by omega
    rw [hframe] at hget
    rw [handleFrameChunk,if_neg hindex]
    simp only [hget,Option.map_none]
  · rename_i frame hframe
    rw [hframe] at hget
    split
    · rename_i haccept
      exact handleFrameChunk_rejects (h n frame hframe) hget hlen haccept
    · rename_i frame' haccept
      rw [handleFrameChunk_accepts (h n frame hframe) hget haccept]
      by_cases hrem : 0 < frame'.remaining
      · rw [if_pos hrem,if_pos hrem,raw_replace]
      · rw [if_neg hrem,if_neg hrem,raw_dropThrough]

theorem handleFrameBegin_raw (frames : Frames) (begin : FrameBegin) :
    handleFrameBegin (raw frames) begin =
      raw (if begin.length < 0 then frames
        else if MAX_FRAME_BYTES < begin.length.toNat then frames
        else openFrame frames begin.frameNum begin.length.toNat) := by
  rw [handleFrameBegin]
  split
  · rfl
  · split
    · rfl
    · rw [openFrame_raw]
      rfl

/-- The table is one of frames with their invariants, none too long. -/
def Refines (t : RawTable) : Prop := ∃ frames, Capped frames ∧ raw frames = t

theorem Refines.apply {t : RawTable} (h : Refines t) (op : FrameOp) :
    ∃ t', apply t op = some t' ∧ Refines t' := by
  have hempty : Refines ∅ := ⟨∅,capped_empty,raw_empty⟩
  obtain ⟨frames,hcap,rfl⟩ := h
  cases op with
  | frameBegin begin =>
    refine ⟨_,rfl,_,?_,(handleFrameBegin_raw frames begin).symm⟩
    by_cases hneg : begin.length < 0
    · rwa [if_pos hneg]
    · by_cases hlong : MAX_FRAME_BYTES < begin.length.toNat
      · rwa [if_neg hneg,if_pos hlong]
      · rw [if_neg hneg,if_neg hlong]
        exact hcap.openFrame (Nat.le_of_not_lt hlong)
  | frameChunk n chunkNum payload =>
    by_cases hneg : chunkNum < 0
    · exact ⟨raw frames,by simp [FrameTable.apply,handleFrameChunk,hneg],frames,hcap,rfl⟩
    · obtain ⟨index,rfl⟩ := Int.eq_ofNat_of_zero_le (Int.not_lt.mp hneg)
      exact ⟨_,by rw [FrameTable.apply,handleFrameChunk_raw hcap n index payload.length_le]; rfl,_,
        hcap.putChunk,rfl⟩
  | streamChange available =>
    cases available with
    | true => exact ⟨raw frames,rfl,frames,hcap,rfl⟩
    | false => exact ⟨∅,rfl,hempty⟩
  | stall => exact ⟨∅,rfl,hempty⟩
  | dropPeer => exact ⟨∅,rfl,hempty⟩

theorem Refines.run {t : RawTable} (h : Refines t) (ops : List FrameOp) :
    ∃ t', ops.foldlM FrameTable.apply t = some t' ∧ Refines t' := by
  induction ops generalizing t with
  | nil => exact ⟨t,rfl,h⟩
  | cons op ops ih =>
    obtain ⟨u,hu,hrefines⟩ := h.apply op
    obtain ⟨t',ht',hrefines'⟩ := ih hrefines
    exact ⟨t',by rw [List.foldlM_cons,hu]; exact ht',hrefines'⟩

end Refinement

/-- Whatever comes, no check fails and the table keeps its invariant. -/
theorem runOps_sound (ops : List FrameOp) : ∃ t, runOps ops = some t ∧ Sound t := by
  have hempty : Refines ∅ := ⟨∅,capped_empty,raw_empty⟩
  obtain ⟨t,hrun,frames,hcap,rfl⟩ := hempty.run ops
  exact ⟨raw frames,hrun,raw_sound hcap⟩

section Worker

variable {env : Env} {w w' : Worker} {c : Command} {frames : Frames} {n : ℤ}

theorem runOps_snoc {ops : List FrameOp} {t t' : RawTable} (h : runOps ops = some t) (op : FrameOp)
    (hop : apply t op = some t') : runOps (ops ++ [op]) = some t' := by
  rw [runOps] at h
  simp [runOps,List.foldlM_append,h,hop]

theorem begin_le {json : Json} {length : ℕ} (h : readFrameCommand json c = .begin n length) :
    length ≤ MAX_FRAME_BYTES := by
  have hb := readFrameCommand_eq_begin h
  simp only [beginPayload,Option.bind_eq_bind,Option.bind_eq_some_iff] at hb
  obtain ⟨begin,-,hb⟩ := hb
  split at hb
  · cases hb
  · split at hb
    · cases hb
    · rename_i hle
      obtain ⟨-,rfl⟩ := Prod.mk.inj (Option.some.inj hb)
      exact Nat.le_of_not_lt hle

/-- A chunk that cannot be in memory fits no frame. -/
theorem putChunk_long (h : Capped frames) {bytes : List UInt8} (hlong : ISIZE_MAX < bytes.length)
    (index : ℕ) : (putChunk frames n index bytes).2 = frames := by
  have hput := putChunk_spec frames n index bytes
  have hno (frame frame' : PartialFrame) (hframe : frames.get? n = some frame)
      (haccept : frame.accept index bytes = some frame') : False := by
    obtain ⟨-,-,hfit⟩ := PartialFrame.accept_isSome.mp (by rw [haccept]; rfl)
    have hcap := h n frame hframe
    have hroom : MAX_FRAME_BYTES ≤ ISIZE_MAX := by decide
    omega
  generalize putChunk frames n index bytes = r at hput
  cases hput with
  | reject => rfl
  | progress frame frame' after hframe haccept => exact (hno frame frame' hframe haccept).elim
  | complete frame frame' after hframe haccept => exact (hno frame frame' hframe haccept).elim

/-- The worker's table is what a sequence of operations makes of the empty one. -/
def Made (w : Worker) : Prop :=
  Capped w.webcamFrames ∧ ∃ ops, runOps ops = some (raw w.webcamFrames)

theorem Made.unfed (h : Made w) (hu : Unfed w w') : Made w' := by
  obtain ⟨hcap,ops,hops⟩ := h
  rcases hu with hu|hu
  · exact ⟨hu ▸ hcap,ops,hu ▸ hops⟩
  · rw [Made,hu,raw_empty]
    exact ⟨capped_empty,_,runOps_snoc hops .stall rfl⟩

theorem Made.handle (h : Made w) (hc : HandlesFrame env w c w') : Made w' := by
  obtain ⟨hcap,ops,hops⟩ := h
  rw [Made,hc.fed.frames]
  cases hread : readFrameCommand env.json c with
  | ignored => exact ⟨hcap,ops,hops⟩
  | begin n length =>
    have hle := begin_le hread
    refine ⟨hcap.openFrame hle,_,runOps_snoc hops (.frameBegin ⟨n,length⟩) ?_⟩
    have hneg : ¬(length : ℤ) < 0 := by omega
    rw [apply,handleFrameBegin_raw,if_neg hneg,Int.toNat_natCast,if_neg (Nat.not_lt.mpr hle)]
    rfl
  | chunk n index bytes =>
    refine ⟨hcap.putChunk,?_⟩
    rcases Nat.lt_or_ge ISIZE_MAX bytes.length with hlong|hlen
    · exact ⟨ops,by rw [feed,putChunk_long hcap hlong,hops]⟩
    · refine ⟨_,runOps_snoc hops (.frameChunk n index ⟨bytes,hlen⟩) ?_⟩
      rw [apply,handleFrameChunk_raw hcap n index hlen]
      rfl

/-- In every run the table is made by begins, chunks and clears, as the checked ones make it. -/
theorem run_made (env : Env) (receiver : Option ℕ) (inputs : List Input)
    (h : run env (start env receiver) inputs = .ok w) : Made w := by
  have hstart : Made (start env receiver) := ⟨capped_empty,[],congrArg some raw_empty.symm⟩
  obtain ⟨hs,hfeed⟩ := run_feeds _ inputs h
  clear h
  generalize start env receiver = v at hfeed hstart
  induction hfeed with
  | start => exact hstart
  | idle _ hi ih => exact ih.unfed hi
  | handle c _ hi ih => exact ih.handle hi

end Worker

end FrameTable
end Client
end Robocol
