import Robocol.Base64
import Robocol.BoundedTable
import Robocol.Cmd
import Robocol.MjpegStream
import Robocol.Pieces

/-! The webcam frames a worker is putting together: what a partial frame is, which chunks it
accepts, and what a begin and a chunk do to the table. -/
namespace Robocol
namespace Client

open ByteLayout Cmd Pieces

def MAX_CONCURRENT_FRAMES : ℕ := 5

/-- The flags and the counter speak of the same chunks as the buffer. -/
structure PartialFrame where
  data : List UInt8
  received : List Bool
  remaining : ℕ
  received_length : received.length = count FRAME_CHUNK_SIZE data.length
  remaining_eq : remaining = received.count false
  deriving DecidableEq

namespace PartialFrame

variable {frame frame' : PartialFrame} {index : ℕ} {bytes : List UInt8}

/-- A frame of `length` bytes of which nothing has arrived. -/
def blank (length : ℕ) : PartialFrame :=
  let chunkCount := count FRAME_CHUNK_SIZE length
  { data := List.replicate length 0
    received := List.replicate chunkCount false
    remaining := chunkCount
    received_length := by simp [chunkCount]
    remaining_eq := by simp }

theorem count_set_true {flags : List Bool} (h : flags[index]? = some false) :
    (flags.set index true).count false = flags.count false-1 := by
  obtain ⟨hlt,hflag⟩ := List.getElem?_eq_some_iff.mp h
  simp [List.count_set hlt,hflag]

/-- A partial frame with one more chunk, or `none` where the chunk is not accepted. -/
def accept (frame : PartialFrame) (index : ℕ) (bytes : List UInt8) : Option PartialFrame :=
  if hnew : frame.received[index]? = some false then
    match hdata : write frame.data (index*FRAME_CHUNK_SIZE) bytes with
    | none => none
    | some data => some
      { data := data
        received := frame.received.set index true
        remaining := frame.remaining-1
        received_length := by rw [List.length_set,frame.received_length,write_length hdata]
        remaining_eq := by rw [count_set_true hnew,frame.remaining_eq] }
  else none

/-- A chunk of a frame of `length` bytes: there is such a place, and the chunk ends in the frame. -/
def Fits (length index : ℕ) (bytes : List UInt8) : Prop :=
  index < count FRAME_CHUNK_SIZE length ∧ index*FRAME_CHUNK_SIZE+bytes.length ≤ length

instance (length index : ℕ) (bytes : List UInt8) : Decidable (Fits length index bytes) :=
  inferInstanceAs (Decidable (_ ∧ _))

theorem ext_fields (hdata : frame.data = frame'.data) (hreceived : frame.received = frame'.received) :
    frame = frame' := by
  have hremaining : frame.remaining = frame'.remaining := by
    rw [frame.remaining_eq,frame'.remaining_eq,hreceived]
  cases frame
  cases frame'
  cases hdata
  cases hreceived
  cases hremaining
  rfl

/-- The chunk `index` has not arrived. -/
def Misses (frame : PartialFrame) (index : ℕ) : Prop := frame.received[index]? = some false

instance (frame : PartialFrame) (index : ℕ) : Decidable (frame.Misses index) :=
  inferInstanceAs (Decidable (_ = _))

theorem Misses.lt (h : frame.Misses index) : index < count FRAME_CHUNK_SIZE frame.data.length := by
  rw [← frame.received_length]
  exact (List.getElem?_eq_some_iff.mp h).1

theorem accept_eq_some :
    frame.accept index bytes = some frame' ↔ frame.Misses index ∧
      write frame.data (index*FRAME_CHUNK_SIZE) bytes = some frame'.data ∧
      frame'.received = frame.received.set index true := by
  rw [accept]
  split
  · rename_i hnew
    split
    · rename_i hdata
      simp [hdata]
    · rename_i data hdata
      rw [Option.some.injEq]
      constructor
      · rintro rfl
        exact ⟨hnew,hdata,rfl⟩
      · rintro ⟨-,hdata',hreceived⟩
        exact ext_fields (Option.some.inj (hdata.symm.trans hdata')) hreceived.symm
  · rename_i hnew
    exact ⟨fun h => absurd h (Option.some_ne_none _).symm,fun h => absurd h.1 hnew⟩

theorem accept_isSome :
    (frame.accept index bytes).isSome ↔ frame.Misses index ∧ Fits frame.data.length index bytes := by
  constructor
  · intro h
    obtain ⟨frame',h⟩ := Option.isSome_iff_exists.mp h
    obtain ⟨hnew,hdata,-⟩ := accept_eq_some.mp h
    simp only [write,Option.ite_none_right_eq_some] at hdata
    exact ⟨hnew,hnew.lt,hdata.1⟩
  · rintro ⟨hnew,-,hle⟩
    have hflag : frame.received[index]? = some false := hnew
    rw [accept,dif_pos hflag]
    split
    · rename_i hdata
      simp [write,hle] at hdata
    · rfl

theorem accept_length (h : frame.accept index bytes = some frame') :
    frame'.data.length = frame.data.length := write_length (accept_eq_some.mp h).2.1

theorem accept_misses (h : frame.accept index bytes = some frame') (i : ℕ) :
    frame'.Misses i ↔ frame.Misses i ∧ i ≠ index := by
  rw [Misses,(accept_eq_some.mp h).2.2,Misses]
  by_cases hi : index = i
  · subst hi
    simp [List.getElem?_set]
  · simp [hi,Ne.symm hi]

/-- The chunk `index` has arrived. -/
def Has (frame : PartialFrame) (index : ℕ) : Prop := frame.received[index]? = some true

theorem has_of_not_misses {i : ℕ} (hi : i < count FRAME_CHUNK_SIZE frame.data.length)
    (h : ¬frame.Misses i) : frame.Has i := by
  rw [← frame.received_length] at hi
  rw [Misses,List.getElem?_eq_getElem hi,Option.some.injEq,Bool.not_eq_false] at h
  rw [Has,List.getElem?_eq_getElem hi,h]

theorem accept_has (h : frame.accept index bytes = some frame') (i : ℕ) :
    frame'.Has i ↔ frame.Has i ∨ i = index := by
  obtain ⟨hnew,-,hreceived⟩ := accept_eq_some.mp h
  have hlt : index < frame.received.length := (List.getElem?_eq_some_iff.mp hnew).1
  rw [Has,hreceived,Has]
  by_cases hi : index = i
  · subst hi
    simp [hlt]
  · simp [hi,Ne.symm hi]

theorem blank_has (length i : ℕ) : ¬(blank length).Has i := by
  simp [Has,blank,List.getElem?_replicate]

theorem remaining_eq_zero : frame.remaining = 0 ↔ ∀ i, ¬frame.Misses i := by
  rw [frame.remaining_eq,List.count_eq_zero]
  constructor
  · exact fun h i hi => h (List.mem_of_getElem? hi)
  · intro h hmem
    obtain ⟨i,hi⟩ := List.getElem?_of_mem hmem
    exact h i hi

theorem blank_misses (length i : ℕ) :
    (blank length).Misses i ↔ i < count FRAME_CHUNK_SIZE length := by
  simp [Misses,blank,List.getElem?_replicate]

@[simp] theorem blank_length (length : ℕ) : (blank length).data.length = length := by
  simp [blank]

end PartialFrame

/-- `BTreeMap<i32, PartialFrame>`, which the worker never leaves with an entry too many. -/
abbrev Frames := BoundedTable MAX_CONCURRENT_FRAMES ℤ PartialFrame

namespace Worker

/-- The table after a frame of an acceptable length was announced. -/
def openFrame (frames : Frames) (frameNum : ℤ) (length : ℕ) : Frames :=
  frames.insert frameNum (PartialFrame.blank length)

/-- The early returns of `handle_frame_begin`: the frame and length of an acceptable one. -/
def beginPayload (json : Json) (extra : String) : Option (ℤ × ℕ) := do
  let begin ← json.frameBegin extra
  if begin.length < 0 then none
  else if MAX_FRAME_BYTES < begin.length.toNat then none
  else return (begin.frameNum,begin.length.toNat)

/-- The early returns of `handle_frame_chunk`: the frame, index and bytes of a readable one. -/
def chunkPayload (json : Json) (extra : String) : Option (ℤ × ℕ × List UInt8) := do
  let chunk ← json.frameChunk extra
  let bytes ← Base64.decode chunk.encodedData
  if chunk.chunkNum < 0 then none else return (chunk.frameNum,chunk.chunkNum.toNat,bytes)

/-- The table with one more chunk, and the frame where it was the last one. A chunk that is
not accepted leaves the table as it is. -/
def putChunk (frames : Frames) (frameNum : ℤ) (index : ℕ) (bytes : List UInt8) :
    Option (List UInt8) × Frames :=
  match hframe : frames.get? frameNum with
  | none => (none,frames)
  | some frame =>
    match frame.accept index bytes with
    | none => (none,frames)
    | some frame =>
      if 0 < frame.remaining then
        (none,frames.replace frameNum frame (BoundedTable.mem_entries.mpr (by simp [hframe])))
      else (some frame.data,frames.dropThrough frameNum)

end Worker

open Worker

/-- What a chunk comes to: it is not accepted, or its frame still misses chunks, or it was the
last one, which takes the frame and the older ones out of the table. -/
inductive Put (frames : Frames) (frameNum : ℤ) (index : ℕ) (bytes : List UInt8) :
    Option (List UInt8) × Frames → Prop
  | reject (h : ∀ frame, frames.get? frameNum = some frame → frame.accept index bytes = none) :
      Put frames frameNum index bytes (none,frames)
  | progress (frame frame' : PartialFrame) (after : Frames)
      (hframe : frames.get? frameNum = some frame) (haccept : frame.accept index bytes = some frame')
      (hmissing : ∃ i, frame'.Misses i)
      (hget : ∀ m, after.get? m = if frameNum = m then some frame' else frames.get? m) :
      Put frames frameNum index bytes (none,after)
  | complete (frame frame' : PartialFrame) (after : Frames)
      (hframe : frames.get? frameNum = some frame) (haccept : frame.accept index bytes = some frame')
      (hall : ∀ i, ¬frame'.Misses i)
      (hget : ∀ m, after.get? m = if frameNum < m then frames.get? m else none) :
      Put frames frameNum index bytes (some frame'.data,after)

theorem putChunk_spec (frames : Frames) (frameNum : ℤ) (index : ℕ) (bytes : List UInt8) :
    Put frames frameNum index bytes (putChunk frames frameNum index bytes) := by
  rw [putChunk]
  split
  · rename_i hframe
    exact .reject fun frame h => absurd (h.symm.trans hframe) (Option.some_ne_none frame)
  · rename_i frame hframe
    split
    · rename_i haccept
      exact .reject fun frame' h => by rwa [Option.some.inj (h.symm.trans hframe)]
    · rename_i frame' haccept
      by_cases hrem : 0 < frame'.remaining
      · have hmissing : ∃ i, frame'.Misses i := by
          by_contra hno
          exact hrem.ne' (PartialFrame.remaining_eq_zero.mpr (not_exists.mp hno))
        rw [if_pos hrem]
        exact .progress frame frame' _ hframe haccept hmissing
          (BoundedTable.get?_replace _)
      · rw [if_neg hrem]
        exact .complete frame frame' _ hframe haccept
          (PartialFrame.remaining_eq_zero.mp (Nat.eq_zero_of_not_pos hrem))
          (frames.get?_dropThrough frameNum)

end Client
end Robocol
