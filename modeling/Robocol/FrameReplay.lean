import Robocol.FrameFeed

/-! A begin that arrives again. What a sequence of chunks does to the table is told by the
frames it finishes and the chunks it offers, and so is what the second begin changes. -/
namespace Robocol
namespace Client

open Cmd Runs Worker PartialFrame

/-- Nothing but chunks, and what cannot be read. -/
def FrameInput.NoBegin : FrameInput → Prop
  | .begin _ _ => False
  | _ => True

def feedAll (frames : Frames) (is : List FrameInput) : Frames :=
  is.foldl (fun frames i => (feed frames i).2) frames

/-- A chunk `index` that fits a frame of `length` bytes is among the inputs. -/
def Offered (is : List FrameInput) (frameNum : ℤ) (length index : ℕ) : Prop :=
  ∃ bytes, FrameInput.chunk frameNum index bytes ∈ is ∧ Fits length index bytes

/-- A partial frame misses chunks, and the inputs offer all of them. -/
def FinishedBy (frame : PartialFrame) (is : List FrameInput) (frameNum : ℤ) : Prop :=
  (∃ i, frame.Misses i) ∧ ∀ i, frame.Misses i → Offered is frameNum frame.data.length i

def Finishes (frames : Frames) (is : List FrameInput) (frameNum : ℤ) : Prop :=
  ∃ frame, frames.get? frameNum = some frame ∧ FinishedBy frame is frameNum

variable {t : Frames} {is : List FrameInput} {n m : ℤ} {i index L : ℕ} {bytes : List UInt8}
  {frame frame' : PartialFrame}

section Offers

theorem offered_ignored : Offered (.ignored :: is) m L i ↔ Offered is m L i := by
  simp [Offered]

theorem offered_other (h : n ≠ m) :
    Offered (.chunk n index bytes :: is) m L i ↔ Offered is m L i := by
  simp [Offered,h.symm]

theorem offered_self :
    Offered (.chunk n index bytes :: is) n L i ↔ i = index ∧ Fits L i bytes ∨ Offered is n L i := by
  simp only [Offered,List.mem_cons,FrameInput.chunk.injEq,true_and]
  constructor
  · rintro ⟨bytes',⟨rfl,rfl⟩|hmem,hfits⟩
    · exact .inl ⟨rfl,hfits⟩
    · exact .inr ⟨bytes',hmem,hfits⟩
  · rintro (⟨rfl,hfits⟩|⟨bytes',hmem,hfits⟩)
    · exact ⟨bytes,.inl ⟨rfl,rfl⟩,hfits⟩
    · exact ⟨bytes',.inr hmem,hfits⟩

theorem offered_of_reject (h : frame.accept index bytes = none) (hi : frame.Misses i) :
    Offered (.chunk n index bytes :: is) n frame.data.length i ↔
      Offered is n frame.data.length i := by
  rw [offered_self,or_iff_right]
  rintro ⟨rfl,hfits⟩
  have hsome := accept_isSome.mpr ⟨hi,hfits⟩
  rw [h] at hsome
  cases hsome

theorem offered_of_accept (h : frame.accept index bytes = some frame') (hi : frame.Misses i) :
    Offered (.chunk n index bytes :: is) n frame.data.length i ↔
      (frame'.Misses i → Offered is n frame'.data.length i) := by
  have hfits := (accept_isSome.mp (h ▸ rfl : (frame.accept index bytes).isSome)).2
  rw [offered_self,accept_misses h,accept_length h]
  constructor
  · rintro (⟨rfl,-⟩|hoff) ⟨-,hne⟩
    · exact absurd rfl hne
    · exact hoff
  · intro hoff
    by_cases hii : i = index
    · exact .inl ⟨hii,hii ▸ hfits⟩
    · exact .inr (hoff ⟨hi,hii⟩)

theorem finishedBy_reject (h : frame.accept index bytes = none) :
    FinishedBy frame (.chunk n index bytes :: is) n ↔ FinishedBy frame is n :=
  and_congr_right fun _ => forall_congr' fun _ => forall_congr' fun hi => offered_of_reject h hi

theorem finishedBy_accept (h : frame.accept index bytes = some frame') (hmissing : ∃ i, frame'.Misses i) :
    FinishedBy frame (.chunk n index bytes :: is) n ↔ FinishedBy frame' is n := by
  have hsub : ∀ i, frame'.Misses i → frame.Misses i := fun i hi => ((accept_misses h i).mp hi).1
  constructor
  · rintro ⟨-,hoff⟩
    exact ⟨hmissing,fun i hi => (offered_of_accept h (hsub i hi)).mp (hoff i (hsub i hi)) hi⟩
  · rintro ⟨⟨j,hj⟩,hoff⟩
    exact ⟨⟨j,hsub j hj⟩,fun i hi => (offered_of_accept h hi).mpr (hoff i)⟩

theorem finishedBy_last (h : frame.accept index bytes = some frame') (hall : ∀ i, ¬frame'.Misses i) :
    FinishedBy frame (.chunk n index bytes :: is) n := by
  have hnew := (accept_isSome.mp (h ▸ rfl : (frame.accept index bytes).isSome)).1
  exact ⟨⟨index,hnew⟩,fun i hi => (offered_of_accept h hi).mpr fun hi' => absurd hi' (hall i)⟩

end Offers

section Chunks

/-- One input: it takes the frames up to one that it finishes out of the table, or none, and
which of the others the inputs finish is as it was. -/
theorem feed_keys (t : Frames) {i : FrameInput} (hi : i.NoBegin) (is : List FrameInput) :
    (∀ m, ((feed t i).2.get? m ≠ none ↔ t.get? m ≠ none) ∧
      (Finishes (feed t i).2 is m ↔ Finishes t (i :: is) m)) ∨
    ∃ k, Finishes t (i :: is) k ∧ ∀ m, ((feed t i).2.get? m ≠ none ↔ t.get? m ≠ none ∧ k < m) ∧
      (Finishes (feed t i).2 is m ↔ Finishes t (i :: is) m ∧ k < m) := by
  cases i with
  | ignored => exact .inl fun m => ⟨Iff.rfl,by simp only [Finishes,FinishedBy,offered_ignored,feed]⟩
  | begin n length => exact hi.elim
  | chunk n index bytes =>
    have hother (r : Frames) {m : ℤ} (hnm : n ≠ m) (hget : r.get? m = t.get? m) :
        Finishes r is m ↔ Finishes t (.chunk n index bytes :: is) m := by
      simp only [Finishes,FinishedBy,hget,offered_other hnm]
    have hput := putChunk_spec t n index bytes
    rw [feed]
    generalize putChunk t n index bytes = r at hput
    cases hput with
    | reject h =>
      refine .inl fun m => ⟨Iff.rfl,?_⟩
      by_cases hnm : n = m
      · subst hnm
        exact exists_congr fun frame => and_congr_right fun hget => (finishedBy_reject (h frame hget)).symm
      · exact hother t hnm rfl
    | progress frame frame' after hframe haccept hmissing hget =>
      refine .inl fun m => ?_
      by_cases hnm : n = m
      · subst hnm
        have hafter : after.get? n = some frame' := by rw [hget,if_pos rfl]
        simp only [Finishes,hafter,hframe,Option.some.injEq,exists_eq_left',
          finishedBy_accept haccept hmissing]
        simp
      · have hafter : after.get? m = t.get? m := by rw [hget,if_neg hnm]
        exact ⟨by rw [hafter],hother after hnm hafter⟩
    | complete frame frame' after hframe haccept hall hget =>
      refine .inr ⟨n,⟨frame,hframe,finishedBy_last haccept hall⟩,fun m => ?_⟩
      by_cases hnm : n < m
      · have hafter : after.get? m = t.get? m := by rw [hget,if_pos hnm]
        simp only [hafter,hnm,and_true,true_and]
        exact hother after hnm.ne hafter
      · have hafter : after.get? m = none := by rw [hget,if_neg hnm]
        simp [Finishes,hafter,hnm]

theorem feedAll_keys (t : Frames) (is : List FrameInput) (his : ∀ i ∈ is, i.NoBegin) (m : ℤ) :
    (feedAll t is).get? m ≠ none ↔ t.get? m ≠ none ∧ ∀ k, Finishes t is k → k < m := by
  induction is generalizing t with
  | nil =>
    have hnone (k : ℤ) : ¬Finishes t [] k := by
      rintro ⟨frame,-,⟨i,hi⟩,hoff⟩
      obtain ⟨bytes,hmem,-⟩ := hoff i hi
      exact absurd hmem (List.not_mem_nil)
    simp [feedAll,hnone]
  | cons i is ih =>
    have hrest := ih (feed t i).2 fun j hj => his j (List.mem_cons_of_mem i hj)
    have hall : feedAll t (i :: is) = feedAll (feed t i).2 is := rfl
    rw [hall,hrest]
    rcases feed_keys t (his i List.mem_cons_self) is with hkeys|⟨k,hk,hkeys⟩
    · simp only [fun m => (hkeys m).1,fun m => (hkeys m).2]
    · simp only [fun m => (hkeys m).1,fun m => (hkeys m).2]
      constructor
      · rintro ⟨⟨hm,hkm⟩,hlt⟩
        refine ⟨hm,fun j hj => ?_⟩
        by_cases hkj : k < j
        · exact hlt j ⟨hj,hkj⟩
        · exact (not_lt.mp hkj).trans_lt hkm
      · rintro ⟨hm,hlt⟩
        exact ⟨⟨hm,hlt k hk⟩,fun j hj => hlt j hj.1⟩

/-- A frame with more chunks, those of its missing ones that `got` names. -/
structure Grown (got : ℕ → Prop) (frame frame' : PartialFrame) : Prop where
  length : frame'.data.length = frame.data.length
  misses : ∀ j, frame'.Misses j ↔ frame.Misses j ∧ ¬got j
  same : (∀ j, frame.Misses j → ¬got j) → frame' = frame

theorem Grown.refl {got : ℕ → Prop} (h : ∀ j, frame.Misses j → ¬got j) : Grown got frame frame :=
  ⟨rfl,fun j => ⟨fun hj => ⟨hj,h j hj⟩,And.left⟩,fun _ => rfl⟩

theorem Grown.trans {got got' : ℕ → Prop} {frame₂ : PartialFrame} (h : Grown got frame frame')
    (h' : Grown got' frame' frame₂) : Grown (fun j => got j ∨ got' j) frame frame₂ := by
  refine ⟨h'.length.trans h.length,fun j => ?_,fun hno => ?_⟩
  · rw [h'.misses,h.misses,not_or,and_assoc]
  · have hsame : frame' = frame := h.same fun j hj hgot => hno j hj (.inl hgot)
    subst hsame
    exact h'.same fun j hj hgot => hno j hj (.inr hgot)

/-- One input, seen from a frame of the table that is still there after it. -/
theorem feed_grown {i : FrameInput} (hi : i.NoBegin) (hframe : t.get? m = some frame)
    (hframe' : (feed t i).2.get? m = some frame') :
    Grown (Offered [i] m frame.data.length) frame frame' := by
  have hsame (hget : (feed t i).2.get? m = t.get? m)
      (hno : ∀ j, frame.Misses j → ¬Offered [i] m frame.data.length j) :
      Grown (Offered [i] m frame.data.length) frame frame' := by
    obtain rfl : frame' = frame := Option.some.inj (hframe'.symm.trans (hget.trans hframe))
    exact .refl hno
  cases i with
  | ignored => exact hsame rfl fun j _ => by simp [Offered]
  | begin n length => exact hi.elim
  | chunk n index bytes =>
    have hput := putChunk_spec t n index bytes
    rw [feed] at hframe' hsame
    generalize putChunk t n index bytes = r at hput hframe' hsame
    by_cases hnm : n = m
    · subst hnm
      cases hput with
      | reject h =>
        refine hsame rfl fun j hj => ?_
        rw [offered_of_reject (h frame hframe) hj]
        simp [Offered]
      | progress f f' after hf haccept hmissing hget =>
        obtain rfl := Option.some.inj (hf.symm.trans hframe)
        obtain rfl : f' = frame' := by simpa [hget] using hframe'
        obtain ⟨hnew,hfits⟩ := accept_isSome.mp (haccept ▸ rfl : (f.accept index bytes).isSome)
        have hoff (j : ℕ) : Offered [.chunk n index bytes] n f.data.length j ↔ j = index := by
          rw [offered_self]
          constructor
          · rintro (⟨hj,-⟩|⟨bytes',hmem,-⟩)
            · exact hj
            · cases hmem
          · rintro rfl
            exact .inl ⟨rfl,hfits⟩
        refine ⟨accept_length haccept,fun j => ?_,fun hno => ?_⟩
        · rw [accept_misses haccept,hoff]
        · exact absurd ((hoff index).mpr rfl) (hno index hnew)
      | complete f f' after hf haccept hall hget => simp [hget] at hframe'
    · have hno : ∀ j, frame.Misses j → ¬Offered [.chunk n index bytes] m frame.data.length j := by
        intro j _
        rw [offered_other hnm]
        simp [Offered]
      refine hsame ?_ hno
      cases hput with
      | reject h => rfl
      | progress f f' after hf haccept hmissing hget => rw [hget,if_neg hnm]
      | complete f f' after hf haccept hall hget =>
        have hlt : n < m := by
          by_contra hlt
          simp [hget,hlt] at hframe'
        rw [hget,if_pos hlt]

theorem offered_cons {i : FrameInput} :
    Offered (i :: is) m L index ↔ Offered [i] m L index ∨ Offered is m L index := by
  simp [Offered,or_and_right,exists_or]

theorem feedAll_grown (his : ∀ i ∈ is, i.NoBegin) (hframe : t.get? m = some frame)
    (hframe' : (feedAll t is).get? m = some frame') :
    Grown (Offered is m frame.data.length) frame frame' := by
  induction is generalizing t frame with
  | nil =>
    obtain rfl := Option.some.inj (hframe.symm.trans hframe')
    exact .refl fun j _ => by simp [Offered]
  | cons i is ih =>
    have hall : feedAll t (i :: is) = feedAll (feed t i).2 is := rfl
    have hrest : ∀ j ∈ is, j.NoBegin := fun j hj => his j (List.mem_cons_of_mem i hj)
    rw [hall] at hframe'
    have hmid : (feed t i).2.get? m ≠ none := by
      refine ((feedAll_keys _ is hrest m).mp ?_).1
      simp [hframe']
    obtain ⟨mid,hmid⟩ := Option.ne_none_iff_exists'.mp hmid
    have hfirst := feed_grown (his i List.mem_cons_self) hframe hmid
    have hgrown := hfirst.trans (hfirst.length ▸ ih hrest hmid hframe')
    simpa only [← offered_cons] using hgrown

end Chunks

section Replay

theorem finishes_above (L : ℕ) (h : n < m) : Finishes (openFrame t n L) is m ↔ Finishes t is m := by
  simp only [Finishes,openFrame,BoundedTable.get?_insert_of_lt h]

theorem replay_kept (his : ∀ i ∈ is, i.NoBegin) (hkept : ¬t.Evicts n n) :
    openFrame (feedAll (openFrame t n L) is) n L = feedAll (openFrame t n L) is ↔
      (∀ k, n < k → ¬Finishes t is k) ∧ ∀ i, ¬Offered is n L i := by
  have hopen : (openFrame t n L).get? n = some (blank L) := BoundedTable.get?_insert_self hkept
  have hkeys := feedAll_keys (openFrame t n L) is his
  have hfits (i : ℕ) (hoff : Offered is n L i) : (blank L).Misses i := by
    obtain ⟨bytes,-,hfits⟩ := hoff
    exact (blank_misses L i).mpr hfits.1
  rw [openFrame,BoundedTable.insert_eq_self]
  constructor
  · rintro (hsame|hev)
    · have hlow := ((hkeys n).mp (by simp [hsame])).2
      have hgrown := feedAll_grown his hopen hsame
      rw [blank_length] at hgrown
      refine ⟨fun k hk hfin => ?_,fun i hoff => ?_⟩
      · exact absurd (hlow k ((finishes_above L hk).mpr hfin)) (not_lt.mpr hk.le)
      · exact ((hgrown.misses i).mp (hfits i hoff)).2 hoff
    · have hlt := BoundedTable.size_lt_of_keys (fun j hj => ((hkeys j).mp hj).1)
        (by simp [hopen]) hev.2.1
      exact absurd hlt (by rw [hev.1]; exact not_lt.mpr (openFrame t n L).size_le)
  · rintro ⟨habove,hoff⟩
    have hlow : ∀ k, Finishes (openFrame t n L) is k → k < n := by
      intro k hfin
      by_contra hk
      rcases (not_lt.mp hk).lt_or_eq with hlt|rfl
      · exact habove k hlt ((finishes_above L hlt).mp hfin)
      · obtain ⟨frame,hframe,⟨i,hi⟩,hall⟩ := hfin
        obtain rfl := Option.some.inj (hframe.symm.trans hopen)
        exact hoff i (blank_length L ▸ hall i hi)
    obtain ⟨frame,hframe⟩ := Option.ne_none_iff_exists'.mp
      ((hkeys n).mpr ⟨by simp [hopen],hlow⟩)
    have hgrown := feedAll_grown his hopen hframe
    rw [blank_length] at hgrown
    exact .inl (hframe.trans (congrArg some (hgrown.same fun i _ => hoff i)))

theorem replay_evicted (his : ∀ i ∈ is, i.NoBegin) (hevict : t.Evicts n n) :
    openFrame (feedAll (openFrame t n L) is) n L = feedAll (openFrame t n L) is ↔
      ∀ k, n < k → ¬Finishes t is k := by
  have hopen : openFrame t n L = t := BoundedTable.insert_eq_self.mpr (.inr hevict)
  have hkeys := feedAll_keys t is his
  have hnone : (feedAll t is).get? n = none := by
    by_contra hsome
    exact ((hkeys n).mp hsome).1 hevict.2.1
  rw [hopen,openFrame,BoundedTable.insert_eq_self]
  constructor
  · rintro (hsame|hev) k hk hfin
    · exact absurd (hsame.symm.trans hnone) (Option.some_ne_none _)
    · obtain ⟨frame,hframe,-⟩ := id hfin
      have hgone : (feedAll t is).get? k = none := by
        by_contra hsome
        exact lt_irrefl k (((hkeys k).mp hsome).2 k hfin)
      have hlt := BoundedTable.size_lt_of_keys (fun j hj => ((hkeys j).mp hj).1)
        (by simp [hframe]) hgone
      exact absurd hlt (by rw [hev.1,hevict.1]; exact lt_irrefl _)
  · intro habove
    have hall : ∀ j, t.get? j ≠ none → (feedAll t is).get? j ≠ none := by
      refine fun j hj => (hkeys j).mpr ⟨hj,fun k hfin => ?_⟩
      obtain ⟨frame,hframe,-⟩ := id hfin
      have hle : n ≤ k := hevict.2.2.2 k (by simp [hframe])
      rcases hle.lt_or_eq with hlt|rfl
      · exact absurd hfin (habove k hlt)
      · exact absurd (hframe.symm.trans hevict.2.1) (Option.some_ne_none frame)
    have hsize : (feedAll t is).size = t.size :=
      le_antisymm (BoundedTable.size_le_of_keys fun j hj => ((hkeys j).mp hj).1)
        (BoundedTable.size_le_of_keys hall)
    exact .inr ⟨hsize.trans hevict.1,hnone,le_rfl,
      fun i hi => hevict.2.2.2 i ((hkeys i).mp hi).1⟩

/-- No chunk fits the announced frame, unless there is no room for it at all, and the chunks
finish no later frame of the table. -/
def Harmless (t : Frames) (n : ℤ) (L : ℕ) (is : List FrameInput) : Prop :=
  (∀ k, n < k → ¬Finishes t is k) ∧ (¬t.Evicts n n → ∀ i, ¬Offered is n L i)

theorem replay_iff (his : ∀ i ∈ is, i.NoBegin) :
    openFrame (feedAll (openFrame t n L) is) n L = feedAll (openFrame t n L) is ↔
      Harmless t n L is := by
  by_cases hevict : t.Evicts n n
  · rw [replay_evicted his hevict,Harmless,and_iff_left]
    exact fun hkept => absurd hevict hkept
  · rw [replay_kept his hevict,Harmless]
    exact and_congr_right fun _ => ⟨fun h _ => h,fun h => h hevict⟩

end Replay

section Commands

variable {env : Env} {w w' : Worker} {hs : List (Handled Worker Command)}

theorem feedAll_append (t : Frames) (is js : List FrameInput) :
    feedAll t (is ++ js) = feedAll (feedAll t is) js := List.foldl_append

/-- The table after frame commands is what they make of the table before them. -/
theorem feed_frames (h : Feed SameTable (HandlesFrame env) w hs w') :
    w'.webcamFrames = feedAll w.webcamFrames (hs.map fun h => readFrameCommand env.json h.input) := by
  induction h with
  | start => rfl
  | idle h hi ih => exact hi.trans ih
  | handle c h hc ih =>
    rw [hc.fed.frames,ih,List.map_append,feedAll_append]
    rfl

theorem noBegin_of_chunk (json : Json) {c : Command} (h : c.name = RECEIVE_FRAME_CHUNK) :
    (readFrameCommand json c).NoBegin := by
  rw [readFrameCommand_chunk json h]
  cases chunkPayload json c.extra <;> exact trivial

/-- A begin that arrives again, after some chunks, is harmless exactly when no chunk has fitted
the frame and none has finished a later one. -/
theorem replayed_begin (env : Env) (w w₁ w₂ : Worker) (hs : List (Handled Worker Command))
    (b b' : Command) (cs : List Command) (n : ℤ) (L : ℕ)
    (hb : readFrameCommand env.json b = .begin n L) (hb' : readFrameCommand env.json b' = .begin n L)
    (hcs : ∀ c ∈ cs, c.name = RECEIVE_FRAME_CHUNK)
    (hfeed : Feed SameTable (HandlesFrame env) w hs w₁) (hhs : hs.map (·.input) = b :: cs)
    (hreplay : HandlesFrame env w₁ b' w₂) :
    w₂.webcamFrames = w₁.webcamFrames ↔
      Harmless w.webcamFrames n L (cs.map (readFrameCommand env.json)) := by
  have his : ∀ i ∈ cs.map (readFrameCommand env.json), i.NoBegin := by
    intro i hi
    obtain ⟨c,hc,rfl⟩ := List.mem_map.mp hi
    exact noBegin_of_chunk env.json (hcs c hc)
  have hinputs : (hs.map fun h => readFrameCommand env.json h.input) =
      .begin n L :: cs.map (readFrameCommand env.json) := by
    rw [← hb,← List.map_cons,← hhs,List.map_map]
    rfl
  have hmid : w₁.webcamFrames = feedAll (openFrame w.webcamFrames n L)
      (cs.map (readFrameCommand env.json)) := by
    rw [feed_frames hfeed,hinputs]
    rfl
  have hlast : w₂.webcamFrames = openFrame w₁.webcamFrames n L := by
    rw [hreplay.fed.frames,hb']
    rfl
  rw [hlast,hmid]
  exact replay_iff his

theorem replayed_begin_one :
    (next oneChunkEnv (next oneChunkEnv (next oneChunkEnv (handled oneChunkEnv []) beginOne) chunkOne) beginOne).webcamFrames =
        (next oneChunkEnv (next oneChunkEnv (handled oneChunkEnv []) beginOne) chunkOne).webcamFrames ↔
      Harmless (handled oneChunkEnv []).webcamFrames 1 3 [.chunk 1 0 [1,2,3]] := by
  have hbegin : HandlesFrame oneChunkEnv (handled oneChunkEnv []) beginOne (next oneChunkEnv (handled oneChunkEnv []) beginOne) :=
    handlesFrame_live oneChunkEnv robot (by decide +kernel) rfl rfl
  have hchunk : HandlesFrame oneChunkEnv (next oneChunkEnv (handled oneChunkEnv []) beginOne) chunkOne
      (next oneChunkEnv (next oneChunkEnv (handled oneChunkEnv []) beginOne) chunkOne) :=
    handlesFrame_live oneChunkEnv robot (by decide +kernel) rfl rfl
  have hreplay : HandlesFrame oneChunkEnv (next oneChunkEnv (next oneChunkEnv (handled oneChunkEnv []) beginOne) chunkOne) beginOne
      (next oneChunkEnv (next oneChunkEnv (next oneChunkEnv (handled oneChunkEnv []) beginOne) chunkOne) beginOne) :=
    handlesFrame_live oneChunkEnv robot (by decide +kernel) rfl rfl
  have hread : [FrameInput.chunk 1 0 [1,2,3]] = [chunkOne].map (readFrameCommand oneChunkEnv.json) := by
    decide +kernel
  rw [hread]
  exact replayed_begin oneChunkEnv (handled oneChunkEnv []) _ _ _ beginOne beginOne [chunkOne] 1 3
    (by decide +kernel) (by decide +kernel) (by simp [chunkOne,Command.new])
    (((Feed.start _).handle beginOne hbegin).handle chunkOne hchunk) rfl hreplay

/-- After the frame is complete, the begin opens it again, and its chunk completes it again. -/
theorem replayed_begin_reopens :
    (handled oneChunkEnv [beginOne,chunkOne,beginOne]).webcamFrames ≠ (handled oneChunkEnv [beginOne,chunkOne]).webcamFrames ∧
    (handled oneChunkEnv [beginOne,chunkOne]).webcamFrames.get? 1 = none ∧
    (handled oneChunkEnv [beginOne,chunkOne]).log.count (.event (.webcamFrame [1,2,3])) = 1 ∧
    (handled oneChunkEnv [beginOne,chunkOne,beginOne,chunkOne]).log.count (.event (.webcamFrame [1,2,3])) = 2 := by
  decide +kernel

end Commands

end Client
end Robocol
