import Robocol.FrameReassembly

/-! Where the bytes of an emitted frame come from. The places of the chunks are as they arrived
where each chunk covers its own place, and changes none of those that are filled already. -/
namespace Robocol
namespace Client

open ByteLayout Cmd Runs Worker Pieces PartialFrame

section History

variable {json : Json} {n m : ℤ} {hs : List (Handled Worker Command)} {x : Handled Worker Command}

/-- The chunk a command brings, where the worker accepts it. -/
def acceptedChunk (json : Json) (x : Handled Worker Command) : Option (ℤ × ℕ × List UInt8) :=
  match readFrameCommand json x.input with
  | .chunk n i bytes =>
    if ((x.before.webcamFrames.get? n).bind fun frame => frame.accept i bytes).isSome then
      some (n,i,bytes)
    else none
  | _ => none

/-- The payloads accepted as chunk `i` of frame `n`. -/
def accepted (json : Json) (n : ℤ) (i : ℕ) (hs : List (Handled Worker Command)) : List (List UInt8) :=
  (hs.filterMap (acceptedChunk json)).filterMap fun (m,j,bytes) =>
    if m = n ∧ j = i then some bytes else none

/-- The length the last begin for `n` announced, and the commands behind that begin. -/
def lastBegin (json : Json) (n : ℤ) (hs : List (Handled Worker Command)) :
    Option (ℕ × List (Handled Worker Command)) :=
  hs.foldl (fun last x =>
    match readFrameCommand json x.input with
    | .begin m L => if m = n then some (L,[]) else last.map fun (L,mid) => (L,mid ++ [x])
    | _ => last.map fun (L,mid) => (L,mid ++ [x])) none

theorem lastBegin_begin {L : ℕ} (h : readFrameCommand json x.input = .begin n L) :
    lastBegin json n (hs ++ [x]) = some (L,[]) := by
  simp [lastBegin,h]

theorem lastBegin_other (h : ∀ L, readFrameCommand json x.input ≠ .begin n L) :
    lastBegin json n (hs ++ [x]) = (lastBegin json n hs).map fun (L,mid) => (L,mid ++ [x]) := by
  rw [lastBegin,List.foldl_append,← lastBegin,List.foldl_cons,List.foldl_nil]
  cases hread : readFrameCommand json x.input with
  | ignored => rfl
  | begin m L =>
    have hmn : m ≠ n := by
      rintro rfl
      exact h L hread
    simp only [if_neg hmn]
  | chunk => rfl

theorem accepted_snoc (i : ℕ) : accepted json n i (hs ++ [x]) =
    accepted json n i hs ++ accepted json n i [x] := by
  simp only [accepted,List.filterMap_append]

theorem accepted_none (i : ℕ) (h : ∀ bytes, acceptedChunk json x ≠ some (n,i,bytes)) :
    accepted json n i [x] = [] := by
  cases hx : acceptedChunk json x with
  | none => simp [accepted,hx]
  | some chunk =>
    obtain ⟨m,j,bytes⟩ := chunk
    have hne : ¬(m = n ∧ j = i) := by
      rintro ⟨rfl,rfl⟩
      exact h bytes hx
    simp [accepted,hx,hne]

theorem accepted_some {i : ℕ} {bytes : List UInt8} (h : acceptedChunk json x = some (n,i,bytes)) :
    accepted json n i [x] = [bytes] := by
  simp [accepted,h]

/-- The chunk covers its place, and changes nothing in the places that are filled. -/
def InPlace (json : Json) (x : Handled Worker Command) : Prop :=
  ∀ n i bytes frame, acceptedChunk json x = some (n,i,bytes) →
    x.before.webcamFrames.get? n = some frame →
    Covers FRAME_CHUNK_SIZE frame.data.length i bytes ∧
      Spares FRAME_CHUNK_SIZE frame.Has frame.data i bytes

/-- A partial frame is what the accepted chunks made of it, each in its place. -/
structure Shows (json : Json) (n : ℤ) (mid : List (Handled Worker Command)) (frame : PartialFrame) :
    Prop where
  once : ∀ i, frame.Has i → ∃ bytes, accepted json n i mid = [bytes]
  never : ∀ i, ¬frame.Has i → accepted json n i mid = []
  holds : Holds FRAME_CHUNK_SIZE (fun i p => p ∈ accepted json n i mid) frame.data

variable {mid : List (Handled Worker Command)} {frame frame' : PartialFrame} {i : ℕ}
  {bytes : List UInt8}

theorem shows_blank (L : ℕ) : Shows json n [] (blank L) :=
  ⟨fun i hi => absurd hi (blank_has L i),fun _ _ => rfl,holds_none (fun _ _ => List.not_mem_nil) _⟩

theorem Shows.skip (h : Shows json n mid frame)
    (hx : ∀ i bytes, acceptedChunk json x ≠ some (n,i,bytes)) : Shows json n (mid ++ [x]) frame := by
  have hsame (i : ℕ) : accepted json n i (mid ++ [x]) = accepted json n i mid := by
    rw [accepted_snoc,accepted_none i (hx i),List.append_nil]
  exact ⟨by simpa only [hsame] using h.once,by simpa only [hsame] using h.never,
    by simpa only [hsame] using h.holds⟩

theorem Shows.accept (h : Shows json n mid frame) (hframe : x.before.webcamFrames.get? n = some frame)
    (hx : acceptedChunk json x = some (n,i,bytes)) (haccept : frame.accept i bytes = some frame')
    (hplace : InPlace json x) : Shows json n (mid ++ [x]) frame' := by
  obtain ⟨hnew,hwrite,-⟩ := accept_eq_some.mp haccept
  obtain ⟨hcovers,hspares⟩ := hplace n i bytes frame hx hframe
  have hfresh : ¬frame.Has i := by
    rw [Has,hnew]
    decide
  have hself : accepted json n i (mid ++ [x]) = [bytes] := by
    rw [accepted_snoc,h.never i hfresh,accepted_some hx,List.nil_append]
  have hother (j : ℕ) (hj : j ≠ i) : accepted json n j (mid ++ [x]) = accepted json n j mid := by
    rw [accepted_snoc,accepted_none j fun b hb => hj (by
      rw [hx] at hb
      simpa using congrArg (fun o => o.map fun p => p.2.1) hb.symm),List.append_nil]
  refine ⟨fun j hj => ?_,fun j hj => ?_,?_⟩
  · by_cases hji : j = i
    · exact ⟨bytes,hji ▸ hself⟩
    · rw [hother j hji]
      exact h.once j (((accept_has haccept j).mp hj).resolve_right hji)
  · rw [accept_has haccept,not_or] at hj
    rw [hother j hj.2]
    exact h.never j hj.1
  · refine h.holds.write hwrite hcovers (fun q hgot hne hlow hhigh => ?_) (fun p hp => ?_)
      fun j p hj hp => ?_
    · obtain ⟨p,hp⟩ := hgot
      have hhas : frame.Has (q/FRAME_CHUNK_SIZE) := by
        by_contra hno
        rw [h.never _ hno] at hp
        cases hp
      exact hspares q hhas hne hlow hhigh
    · rw [hself] at hp
      exact List.mem_singleton.mp hp
    · rwa [hother j hj] at hp

/-- A partial frame shows what came since it was announced, at the length announced. -/
def Built (json : Json) (n : ℤ) (hs : List (Handled Worker Command)) (frame : PartialFrame) : Prop :=
  ∃ mid, lastBegin json n hs = some (frame.data.length,mid) ∧ Shows json n mid frame

theorem Built.skip (h : Built json n hs frame)
    (hbegin : ∀ L, readFrameCommand json x.input ≠ .begin n L)
    (hx : ∀ i bytes, acceptedChunk json x ≠ some (n,i,bytes)) : Built json n (hs ++ [x]) frame := by
  obtain ⟨mid,hlast,hshows⟩ := h
  exact ⟨mid ++ [x],by rw [lastBegin_other hbegin,hlast]; rfl,hshows.skip hx⟩

theorem Built.accept (h : Built json n hs frame)
    (hread : readFrameCommand json x.input = .chunk n i bytes)
    (hframe : x.before.webcamFrames.get? n = some frame)
    (haccept : frame.accept i bytes = some frame') (hplace : InPlace json x) :
    Built json n (hs ++ [x]) frame' := by
  obtain ⟨mid,hlast,hshows⟩ := h
  have hx : acceptedChunk json x = some (n,i,bytes) := by
    simp [acceptedChunk,hread,hframe,haccept]
  have hbegin : ∀ L, readFrameCommand json x.input ≠ .begin n L := by simp [hread]
  refine ⟨mid ++ [x],?_,hshows.accept hframe hx haccept hplace⟩
  rw [lastBegin_other hbegin,hlast,accept_length haccept]
  rfl

/-- Every frame of the table is built from what came since it was announced. -/
def AllBuilt (json : Json) (hs : List (Handled Worker Command)) (t : Frames) : Prop :=
  ∀ n frame, t.get? n = some frame → Built json n hs frame

theorem AllBuilt.begin {t : Frames} (h : AllBuilt json hs t) {L : ℕ}
    (hread : readFrameCommand json x.input = .begin m L) :
    AllBuilt json (hs ++ [x]) (openFrame t m L) := by
  intro n frame hframe
  have hnone : acceptedChunk json x = none := by simp [acceptedChunk,hread]
  rcases BoundedTable.get?_insert_some hframe with ⟨rfl,rfl⟩|⟨hmn,hold⟩
  · exact ⟨[],by rw [lastBegin_begin hread,blank_length],shows_blank L⟩
  · exact (h n frame hold).skip (by simp [hread,hmn]) (by simp [hnone])

theorem AllBuilt.chunk (h : AllBuilt json hs x.before.webcamFrames)
    (hread : readFrameCommand json x.input = .chunk m i bytes) (hplace : InPlace json x) :
    AllBuilt json (hs ++ [x]) (putChunk x.before.webcamFrames m i bytes).2 := by
  have hbegin (n : ℤ) : ∀ L, readFrameCommand json x.input ≠ .begin n L := by simp [hread]
  have hput := putChunk_spec x.before.webcamFrames m i bytes
  generalize putChunk x.before.webcamFrames m i bytes = r at hput
  have hother (n : ℤ) (hmn : m ≠ n) : ∀ j p, acceptedChunk json x ≠ some (n,j,p) := by
    intro j p hx
    rw [acceptedChunk,hread] at hx
    simp only [Option.ite_none_right_eq_some,Option.some.injEq,Prod.mk.injEq] at hx
    exact hmn hx.2.1
  intro n frame hframe
  cases hput with
  | reject hrej =>
    have hnone : acceptedChunk json x = none := by
      simp only [acceptedChunk,hread]
      cases hf : x.before.webcamFrames.get? m with
      | none => rfl
      | some f => simp [hrej f hf]
    exact (h n frame hframe).skip (hbegin n) (by simp [hnone])
  | progress f f' after hf haccept hmissing hget =>
    by_cases hmn : m = n
    · subst hmn
      rw [hget,if_pos rfl] at hframe
      obtain rfl := Option.some.inj hframe
      exact (h m f hf).accept hread hf haccept hplace
    · rw [hget,if_neg hmn] at hframe
      exact (h n frame hframe).skip (hbegin n) (hother n hmn)
  | complete f f' after hf haccept hall hget =>
    by_cases hmn : m < n
    · rw [hget,if_pos hmn] at hframe
      exact (h n frame hframe).skip (hbegin n) (hother n hmn.ne)
    · rw [hget,if_neg hmn] at hframe
      cases hframe

/-- Every byte of the frame is the byte that the one accepted chunk of its place has there, and
the length is the one announced. -/
def FromChunks (json : Json) (n : ℤ) (hs : List (Handled Worker Command)) (data : List UInt8) : Prop :=
  ∃ mid, lastBegin json n hs = some (data.length,mid) ∧ ∀ q < data.length, ∃ bytes,
    accepted json n (q/FRAME_CHUNK_SIZE) mid = [bytes] ∧
      bytes[q-q/FRAME_CHUNK_SIZE*FRAME_CHUNK_SIZE]? = data[q]?

theorem Built.complete (h : Built json n hs frame) (hall : ∀ i, ¬frame.Misses i) :
    FromChunks json n hs frame.data := by
  obtain ⟨mid,hlast,hshows⟩ := h
  refine ⟨mid,hlast,fun q hq => ?_⟩
  have hhas := has_of_not_misses (div_lt_count (by decide) hq) (hall (q/FRAME_CHUNK_SIZE))
  obtain ⟨bytes,hbytes⟩ := hshows.once _ hhas
  exact ⟨bytes,hbytes,hshows.holds q bytes (by simp [hbytes]) hq⟩

theorem AllBuilt.feed {t : Frames} {env : Env} {w' : Worker} (h : AllBuilt env.json hs t)
    (ht : x.before.webcamFrames = t) (hx : HandlesFrame env x.before x.input w')
    (hplace : InPlace env.json x) : AllBuilt env.json (hs ++ [x]) w'.webcamFrames := by
  subst ht
  rw [hx.fed.frames]
  cases hread : readFrameCommand env.json x.input with
  | ignored =>
    exact fun n frame hframe => (h n frame hframe).skip (by simp [hread]) (by simp [acceptedChunk,hread])
  | begin m L => exact h.begin hread
  | chunk m i bytes => exact h.chunk hread hplace

theorem feed_allBuilt {env : Env} {w w' : Worker} (hw : w.webcamFrames = ∅)
    (hfeed : Feed Unfed (HandlesFrame env) w hs w') (hplace : ∀ x ∈ hs, InPlace env.json x) :
    AllBuilt env.json hs w'.webcamFrames := by
  have hempty (hs : List (Handled Worker Command)) : AllBuilt env.json hs ∅ := by
    intro n frame hframe
    simp at hframe
  refine hfeed.invariant (I := fun hs v => AllBuilt env.json hs v.webcamFrames) hplace
    (hw ▸ hempty []) (fun hs t u h hi => ?_) fun hs t c u h hc hx => ?_
  · rcases hi with hi|hi
    · rw [hi]
      exact h
    · rw [hi]
      exact hempty hs
  · exact h.feed rfl hc hx

/-- Every frame that a command emits is what was received for it. -/
def EmitsReceived (json : Json) (hs : List (Handled Worker Command)) : Prop :=
  ∀ pre x post data, hs = pre ++ x :: post → .webcamFrame data ∈ emitted x.before x.after →
    ∃ n i bytes, readFrameCommand json x.input = .chunk n i bytes ∧ FromChunks json n (pre ++ [x]) data

/-- Where each accepted chunk is in its place, an emitted frame is what was received for it. -/
theorem emitted_from_chunks (env : Env) (w w' : Worker) (hs : List (Handled Worker Command))
    (hw : w.webcamFrames = ∅) (hfeed : Feed Unfed (HandlesFrame env) w hs w')
    (hplace : ∀ x ∈ hs, InPlace env.json x) : EmitsReceived env.json hs := by
  rintro pre x post data hcut hmem
  obtain ⟨hpre,hx⟩ := hfeed.at hcut
  have hmemx : x ∈ hs := by simp [hcut]
  have hbuilt : AllBuilt env.json pre x.before.webcamFrames :=
    feed_allBuilt hw hpre fun y hy => hplace y (by simp [hcut,hy])
  obtain ⟨hframes,hquiet,hcomplete⟩ := hx.fed
  cases hread : readFrameCommand env.json x.input with
  | ignored =>
    rw [hquiet (by rw [hread]; rfl)] at hmem
    cases hmem
  | begin m L =>
    rw [hquiet (by rw [hread]; rfl)] at hmem
    cases hmem
  | chunk m i bytes =>
    refine ⟨m,i,bytes,rfl,?_⟩
    rw [hread,feed] at hquiet hcomplete
    have hput := putChunk_spec x.before.webcamFrames m i bytes
    generalize putChunk x.before.webcamFrames m i bytes = r at hput hquiet hcomplete
    cases hput with
    | reject =>
      rw [hquiet rfl] at hmem
      cases hmem
    | progress =>
      rw [hquiet rfl] at hmem
      cases hmem
    | complete f f' after hf haccept hall hget =>
      have hdata : f'.data = data := by
        rcases hcomplete f'.data rfl with he|⟨e,⟨p,-,-,rfl⟩,-,he⟩
        all_goals rw [he] at hmem; simpa [eq_comm] using hmem
      exact hdata ▸ ((hbuilt m f hf).accept hread hf haccept (hplace x hmemx)).complete hall

theorem Assembling.inPlace {J : List UInt8} {i : ℕ} (h : Assembling json n J hs x.before.webcamFrames)
    (hx : IsChunk json n J i x.input) (hjson : Decodes json n J) (hcap : J.length ≤ MAX_FRAME_BYTES) :
    InPlace json x := by
  intro m k bytes frame haccepted hframe
  simp only [acceptedChunk,hx.read hjson hcap,Option.ite_none_right_eq_some,Option.some.injEq,
    Prod.mk.injEq] at haccepted
  obtain ⟨-,rfl,rfl,rfl⟩ := haccepted
  have hlen := (h.frame hframe).1
  exact ⟨hlen ▸ cut_covers (by decide) i,cut_spares _ _ i⟩

end History

section Samples

/-- A begin and a chunk, handled by a connected worker. -/
def twoCommands (env : Env) (b c : Command) : List (Handled Worker Command) :=
  [⟨b,handled env [],next env (handled env []) b⟩,
    ⟨c,next env (handled env []) b,next env (next env (handled env []) b) c⟩]

/-- A picture is announced, and its chunks come in the other order. -/
def reversed : List (Handled Worker Command) :=
  fed wideEnv (handled wideEnv []) [wideBegin,wideChunk 1,wideChunk 0]

theorem emitted_from_chunks_reversed : EmitsReceived wideEnv.json reversed := by
  have hcommands : ∀ c ∈ [wideBegin,wideChunk 1,wideChunk 0],
      isFrameCommand c = true ∧ c.acknowledged = false := by decide +kernel
  have hfeed : Feed Unfed (HandlesFrame wideEnv) (handled wideEnv []) reversed _ :=
    feed_fed (.start _) wide_live hcommands
  refine emitted_from_chunks wideEnv _ _ reversed wide_empty hfeed fun x hx => ?_
  simp only [reversed,fed,List.mem_cons,List.not_mem_nil,or_false] at hx
  have hplace (pre : List (Handled Worker Command)) {post : List (Handled Worker Command)}
      (hcut : fed wideEnv (next wideEnv (handled wideEnv []) wideBegin) [wideChunk 1,wideChunk 0] =
        pre ++ x :: post) {i : ℕ} (hi : IsChunk wideEnv.json 1 wide i x.input) : InPlace wideEnv.json x := by
    have hcap : wide.length ≤ MAX_FRAME_BYTES := by rw [length_wide]; decide
    have hinv := assembling_at (by decide) hcap wide_decodes wide_latest wide_announced wide_begun
      (wide_fed _ fun c hc => hcommands c (List.mem_cons_of_mem _ hc)) (fun y hy => ?_) hcut
    · exact hinv.inPlace hi wide_decodes hcap
    · simp only [fed,List.mem_cons,List.not_mem_nil,or_false] at hy
      rcases hy with rfl|rfl
      · exact .inl ⟨1,wide_isChunk (by decide)⟩
      · exact .inl ⟨0,wide_isChunk (by decide)⟩
  rcases hx with rfl|rfl|rfl
  · have hread : readFrameCommand wideEnv.json wideBegin = .begin 1 4097 := by decide +kernel
    intro n i bytes frame haccepted
    simp [acceptedChunk,hread] at haccepted
  · exact hplace [] rfl (wide_isChunk (by decide))
  · exact hplace [_] rfl (wide_isChunk (by decide))

/-- A frame of two bytes, and a chunk that brings one of them. -/
def shortEnv : Env := frameEnv [⟨1,2⟩] [⟨1,0,"Bw=="⟩]

def beginTwo : Command := Command.new RECEIVE_FRAME_BEGIN (beginText ⟨1,2⟩) 5

def shortChunk : Command := Command.new RECEIVE_FRAME_CHUNK (chunkText ⟨1,0,"Bw=="⟩) 6

/-- The short chunk completes the frame, and the byte it did not bring is a zero. -/
theorem short_chunk_leaves_hole :
    readFrameCommand shortEnv.json shortChunk = .chunk 1 0 [7] ∧
    emitted (next shortEnv (handled shortEnv []) beginTwo)
      (next shortEnv (next shortEnv (handled shortEnv []) beginTwo) shortChunk) =
        [.webcamFrame [7,0]] ∧
    ¬FromChunks shortEnv.json 1 (twoCommands shortEnv beginTwo shortChunk) [7,0] := by
  refine ⟨by decide +kernel,by decide +kernel,?_⟩
  rintro ⟨mid,hlast,hbytes⟩
  let x : Handled Worker Command := ⟨shortChunk,next shortEnv (handled shortEnv []) beginTwo,
    next shortEnv (next shortEnv (handled shortEnv []) beginTwo) shortChunk⟩
  let y : Handled Worker Command :=
    ⟨beginTwo,handled shortEnv [],next shortEnv (handled shortEnv []) beginTwo⟩
  have hbegin : readFrameCommand shortEnv.json y.input = .begin 1 2 := by decide +kernel
  have hread : readFrameCommand shortEnv.json x.input = .chunk 1 0 [7] := by decide +kernel
  have hx : acceptedChunk shortEnv.json x = some (1,0,[7]) := by decide +kernel
  have hmid : lastBegin shortEnv.json 1 ([] ++ [y] ++ [x]) = some (2,[x]) := by
    rw [lastBegin_other (by simp [hread]),lastBegin_begin hbegin]
    rfl
  obtain ⟨-,rfl⟩ := Prod.mk.inj (Option.some.inj (hlast.symm.trans hmid))
  obtain ⟨bytes,haccepted,hbyte⟩ := hbytes 1 (by decide)
  have hone : accepted shortEnv.json 1 (1/FRAME_CHUNK_SIZE) [x] = [[7]] := accepted_some hx
  obtain rfl := List.singleton_inj.mp (hone.symm.trans haccepted)
  exact absurd hbyte (by decide)

end Samples

end Client
end Robocol
