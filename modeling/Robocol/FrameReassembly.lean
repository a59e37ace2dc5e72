import Robocol.FakeRc
import Robocol.FrameFeed

/-! A frame cut up as the fake Robot Controller does it, and put together again: whatever the
order of its chunks, and whatever older frames come in between, it is complete at its last
missing chunk and nowhere else. -/
namespace Robocol
namespace Client

open ByteLayout Cmd Runs Worker Pieces PartialFrame

namespace FakeRc

/-- `as i32`. -/
def asI32 (n : ℕ) : ℤ := (Int32.ofNat n).toInt

/-- The names and payloads of the commands that bring one frame. -/
def sendWebcamFrame (json : Json) (frameNum : ℤ) (jpeg : List UInt8) : List (String × String) :=
  (RECEIVE_FRAME_BEGIN,json.frameBeginText ⟨frameNum,asI32 jpeg.length⟩) ::
    (chunks FRAME_CHUNK_SIZE jpeg).zipIdx.map fun (chunk,chunkNum) =>
      (RECEIVE_FRAME_CHUNK,json.frameChunkText ⟨frameNum,asI32 chunkNum,Base64.encode chunk⟩)

theorem asI32_eq {n : ℕ} (h : n < 2^31) : asI32 n = n := by
  rw [asI32]
  exact Int32.toInt_ofNat_of_lt h

theorem says_frame (json : Json) (env : Robocol.FakeRc.Env) (rc : Robocol.FakeRc) (now : ℕ)
    (a : SocketAddr) (hbegin : env.frameBeginText = json.frameBeginText)
    (hchunk : env.frameChunkText = json.frameChunkText) :
    Robocol.FakeRc.Says a (sendWebcamFrame json rc.webcamFrameNum.toInt
      (env.renderFrame rc.webcamFrameNum)) rc (rc.sendWebcamFrame env now) := by
  have hsays := Robocol.FakeRc.says_sendWebcamFrame (a := a) env rc now
  rw [hbegin,hchunk] at hsays
  exact hsays

end FakeRc

open Client.FakeRc

abbrev chunkCount (J : List UInt8) : ℕ := count FRAME_CHUNK_SIZE J.length

/-- The JSON decoder undoes the encoder on the payloads of the frame. -/
structure Decodes (json : Json) (n : ℤ) (J : List UInt8) : Prop where
  begin : json.frameBegin (json.frameBeginText ⟨n,J.length⟩) = some ⟨n,J.length⟩
  chunk : ∀ i < chunkCount J, json.frameChunk
    (json.frameChunkText ⟨n,i,Base64.encode (cut FRAME_CHUNK_SIZE J i)⟩) =
      some ⟨n,i,Base64.encode (cut FRAME_CHUNK_SIZE J i)⟩

def IsBegin (json : Json) (n : ℤ) (J : List UInt8) (c : Command) : Prop :=
  (sendWebcamFrame json n J)[0]? = some (c.name,c.extra)

def IsChunk (json : Json) (n : ℤ) (J : List UInt8) (i : ℕ) (c : Command) : Prop :=
  (sendWebcamFrame json n J)[i+1]? = some (c.name,c.extra)

variable {json : Json} {n : ℤ} {J : List UInt8} {c : Command} {i : ℕ}

theorem IsBegin.read (h : IsBegin json n J c) (hjson : Decodes json n J)
    (hcap : J.length ≤ MAX_FRAME_BYTES) : readFrameCommand json c = .begin n J.length := by
  have hlen : asI32 J.length = J.length := asI32_eq (by rw [MAX_FRAME_BYTES] at hcap; omega)
  simp only [IsBegin,sendWebcamFrame,List.getElem?_cons_zero,Option.some.injEq,Prod.mk.injEq,
    hlen] at h
  have hpayload : beginPayload json c.extra = some (n,J.length) := by
    have hneg : ¬(J.length : ℤ) < 0 := by omega
    simp only [beginPayload,← h.2,hjson.begin,Option.bind_eq_bind,Option.bind_some,if_neg hneg,
      Int.toNat_natCast,if_neg (Nat.not_lt.mpr hcap)]
    rfl
  rw [readFrameCommand_begin json h.1.symm,hpayload]

theorem IsChunk.lt (h : IsChunk json n J i c) : i < chunkCount J := by
  have hlt := (List.getElem?_eq_some_iff.mp h).1
  simpa [sendWebcamFrame,chunks_eq] using hlt

theorem sent_chunk (json : Json) (n : ℤ) (hcap : J.length ≤ MAX_FRAME_BYTES) (hlt : i < chunkCount J) :
    (sendWebcamFrame json n J)[i+1]? = some (RECEIVE_FRAME_CHUNK,
      json.frameChunkText ⟨n,i,Base64.encode (cut FRAME_CHUNK_SIZE J i)⟩) := by
  have hstart := start_lt_of_lt_count (by decide) hlt
  have hnum : asI32 i = i := asI32_eq (by rw [MAX_FRAME_BYTES] at hcap; rw [FRAME_CHUNK_SIZE] at hstart; omega)
  simp [sendWebcamFrame,chunks_eq,List.getElem?_range hlt,hnum]

theorem IsChunk.read (h : IsChunk json n J i c) (hjson : Decodes json n J)
    (hcap : J.length ≤ MAX_FRAME_BYTES) :
    readFrameCommand json c = .chunk n i (cut FRAME_CHUNK_SIZE J i) := by
  have hlt := h.lt
  have hitem := sent_chunk json n hcap hlt
  obtain ⟨hname,hextra⟩ := Prod.mk.inj (Option.some.inj (h.symm.trans hitem))
  have hpayload : chunkPayload json c.extra = some (n,i,cut FRAME_CHUNK_SIZE J i) := by
    have hneg : ¬(i : ℤ) < 0 := by omega
    simp only [chunkPayload,hextra,hjson.chunk i hlt,Base64.decode_encode,Option.bind_eq_bind,
      Option.bind_some,if_neg hneg,Int.toNat_natCast]
    rfl
  rw [readFrameCommand_chunk json hname,hpayload]

/-- A command that says nothing of the frame, and announces no frame numbered `n` or more. -/
def Foreign (json : Json) (n : ℤ) (c : Command) : Prop :=
  match readFrameCommand json c with
  | .ignored => True
  | .begin m _ => m < n
  | .chunk m _ _ => m ≠ n

theorem IsChunk.not_foreign (h : IsChunk json n J i c) (hjson : Decodes json n J)
    (hcap : J.length ≤ MAX_FRAME_BYTES) : ¬Foreign json n c := by
  simp [Foreign,h.read hjson hcap]

theorem IsChunk.unique {j : ℕ} (h : IsChunk json n J i c) (h' : IsChunk json n J j c)
    (hjson : Decodes json n J) (hcap : J.length ≤ MAX_FRAME_BYTES) : i = j := by
  have hread := (h.read hjson hcap).symm.trans (h'.read hjson hcap)
  exact (FrameInput.chunk.inj hread).2.1

section History

variable {hs : List (Handled Worker Command)} {x : Handled Worker Command} {j : ℕ}

def Delivered (json : Json) (n : ℤ) (J : List UInt8) (hs : List (Handled Worker Command)) (i : ℕ) :
    Prop :=
  ∃ h ∈ hs, IsChunk json n J i h.input

/-- After these commands, chunk `i` is the last missing one. -/
def Completes (json : Json) (n : ℤ) (J : List UInt8) (hs : List (Handled Worker Command)) (i : ℕ) :
    Prop :=
  ¬Delivered json n J hs i ∧ ∀ j < chunkCount J, j ≠ i → Delivered json n J hs j

theorem delivered_snoc : Delivered json n J (hs ++ [x]) j ↔
    Delivered json n J hs j ∨ IsChunk json n J j x.input := by
  simp [Delivered,or_and_right,exists_or]

theorem delivered_chunk (hx : IsChunk json n J i x.input) (hjson : Decodes json n J)
    (hcap : J.length ≤ MAX_FRAME_BYTES) :
    Delivered json n J (hs ++ [x]) j ↔ Delivered json n J hs j ∨ j = i := by
  rw [delivered_snoc]
  exact or_congr_right ⟨fun h => h.unique hx hjson hcap,fun h => h ▸ hx⟩

theorem delivered_foreign (hx : Foreign json n x.input) (hjson : Decodes json n J)
    (hcap : J.length ≤ MAX_FRAME_BYTES) :
    Delivered json n J (hs ++ [x]) j ↔ Delivered json n J hs j := by
  rw [delivered_snoc,or_iff_left]
  exact fun h => h.not_foreign hjson hcap hx

/-- The commands of a feed bring the frame's chunks, or have nothing to do with it. -/
def Concerns (json : Json) (n : ℤ) (J : List UInt8) (x : Handled Worker Command) : Prop :=
  (∃ i, IsChunk json n J i x.input) ∨ Foreign json n x.input

/-- The frame is the latest of the table, and there as long as a chunk is missing. -/
structure Assembling (json : Json) (n : ℤ) (J : List UInt8) (hs : List (Handled Worker Command))
    (t : Frames) : Prop where
  latest : ∀ m, t.get? m ≠ none → m ≤ n
  done : (∀ j < chunkCount J, Delivered json n J hs j) → t.get? n = none
  missing : (∃ j < chunkCount J, ¬Delivered json n J hs j) → ∃ frame, t.get? n = some frame ∧
    frame.data.length = J.length ∧
    (∀ j, frame.Misses j ↔ j < chunkCount J ∧ ¬Delivered json n J hs j) ∧
    Holds FRAME_CHUNK_SIZE (fun j p => Delivered json n J hs j ∧ p = cut FRAME_CHUNK_SIZE J j) frame.data

theorem Assembling.keep {t u : Frames} (h : Assembling json n J hs t) {hs' : List (Handled Worker Command)}
    (hsame : ∀ j, Delivered json n J hs' j ↔ Delivered json n J hs j) (hget : u.get? n = t.get? n)
    (hlatest : ∀ m, u.get? m ≠ none → m ≤ n) : Assembling json n J hs' u :=
  ⟨hlatest,by simpa only [hsame,hget] using h.done,by simpa only [hsame,hget] using h.missing⟩

theorem openFrame_latest {t : Frames} {m : ℤ} {L : ℕ} (h : ∀ k, t.get? k ≠ none → k ≤ n) (hm : m ≤ n) :
    ∀ k, (openFrame t m L).get? k ≠ none → k ≤ n := by
  intro k hk
  obtain ⟨frame,hframe⟩ := Option.ne_none_iff_exists'.mp hk
  rcases BoundedTable.get?_insert_some hframe with ⟨rfl,-⟩|⟨-,hold⟩
  · exact hm
  · exact h k (by simp [hold])

theorem Assembling.foreign {t : Frames} (h : Assembling json n J hs t) (hx : Foreign json n x.input)
    (hjson : Decodes json n J) (hcap : J.length ≤ MAX_FRAME_BYTES) :
    Assembling json n J (hs ++ [x]) (feed t (readFrameCommand json x.input)).2 := by
  have hsame (j : ℕ) : Delivered json n J (hs ++ [x]) j ↔ Delivered json n J hs j :=
    delivered_foreign hx hjson hcap
  rw [Foreign] at hx
  cases hread : readFrameCommand json x.input with
  | ignored => exact h.keep hsame rfl h.latest
  | begin m L =>
    rw [hread] at hx
    exact h.keep hsame (BoundedTable.get?_insert_of_lt hx) (openFrame_latest h.latest (le_of_lt hx))
  | chunk m index bytes =>
    rw [hread] at hx
    have hput := putChunk_spec t m index bytes
    rw [feed]
    generalize putChunk t m index bytes = r at hput
    cases hput with
    | reject => exact h.keep hsame rfl h.latest
    | progress frame frame' after hframe haccept hmissing hget =>
      refine h.keep hsame (by rw [hget,if_neg hx]) fun k hk => ?_
      by_cases hmk : m = k
      · exact h.latest k (by simp [← hmk,hframe])
      · rw [hget,if_neg hmk] at hk
        exact h.latest k hk
    | complete frame frame' after hframe haccept hall hget =>
      have hlt : m < n := lt_of_le_of_ne (h.latest m (by simp [hframe])) hx
      refine h.keep hsame (by rw [hget,if_pos hlt]) fun k hk => ?_
      by_cases hmk : m < k
      · rw [hget,if_pos hmk] at hk
        exact h.latest k hk
      · exact absurd (by rw [hget,if_neg hmk]) hk

theorem Assembling.frame {t : Frames} {frame : PartialFrame} (h : Assembling json n J hs t)
    (hframe : t.get? n = some frame) : frame.data.length = J.length ∧
      (∀ j, frame.Misses j ↔ j < chunkCount J ∧ ¬Delivered json n J hs j) ∧
      Holds FRAME_CHUNK_SIZE (fun j p => Delivered json n J hs j ∧ p = cut FRAME_CHUNK_SIZE J j)
        frame.data := by
  by_cases hall : ∀ j < chunkCount J, Delivered json n J hs j
  · exact absurd (hframe.symm.trans (h.done hall)) (Option.some_ne_none frame)
  · push Not at hall
    obtain ⟨f,hf,hfacts⟩ := h.missing hall
    obtain rfl := Option.some.inj (hf.symm.trans hframe)
    exact hfacts

/-- A chunk that is accepted is a new one, and the frame shows it from then on. -/
theorem Assembling.accept {t : Frames} {frame frame' : PartialFrame} (h : Assembling json n J hs t)
    (hx : IsChunk json n J i x.input) (hjson : Decodes json n J) (hcap : J.length ≤ MAX_FRAME_BYTES)
    (hframe : t.get? n = some frame)
    (haccept : frame.accept i (cut FRAME_CHUNK_SIZE J i) = some frame') :
    ¬Delivered json n J hs i ∧ frame'.data.length = J.length ∧
      (∀ j, frame'.Misses j ↔ j < chunkCount J ∧ ¬Delivered json n J (hs ++ [x]) j) ∧
      Holds FRAME_CHUNK_SIZE
        (fun j p => Delivered json n J (hs ++ [x]) j ∧ p = cut FRAME_CHUNK_SIZE J j) frame'.data := by
  have hsnoc (j : ℕ) : Delivered json n J (hs ++ [x]) j ↔ Delivered json n J hs j ∨ j = i :=
    delivered_chunk hx hjson hcap
  obtain ⟨hlen,hmisses,hholds⟩ := h.frame hframe
  obtain ⟨hnew,hwrite,-⟩ := accept_eq_some.mp haccept
  refine ⟨((hmisses i).mp hnew).2,(accept_length haccept).trans hlen,fun j => ?_,?_⟩
  · rw [accept_misses haccept,hmisses,hsnoc,not_or,and_assoc]
  · refine hholds.write hwrite (hlen ▸ cut_covers (by decide) i) (cut_spares _ _ i) ?_ ?_
    · exact fun p hp => hp.2
    · exact fun j p hne hp => ⟨((hsnoc j).mp hp.1).resolve_right hne,hp.2⟩

/-- A chunk of the frame: the last missing one completes it, any other gives nothing. -/
theorem Assembling.chunk {t : Frames} (h : Assembling json n J hs t) (hx : IsChunk json n J i x.input)
    (hjson : Decodes json n J) (hcap : J.length ≤ MAX_FRAME_BYTES) :
    Assembling json n J (hs ++ [x]) (putChunk t n i (cut FRAME_CHUNK_SIZE J i)).2 ∧
      (Completes json n J hs i → (putChunk t n i (cut FRAME_CHUNK_SIZE J i)).1 = some J) ∧
      (¬Completes json n J hs i → (putChunk t n i (cut FRAME_CHUNK_SIZE J i)).1 = none) := by
  have hsnoc (j : ℕ) : Delivered json n J (hs ++ [x]) j ↔ Delivered json n J hs j ∨ j = i :=
    delivered_chunk hx hjson hcap
  have hput := putChunk_spec t n i (cut FRAME_CHUNK_SIZE J i)
  generalize putChunk t n i (cut FRAME_CHUNK_SIZE J i) = r at hput ⊢
  cases hput with
  | reject hrej =>
    have hdel : Delivered json n J hs i := by
      by_contra hno
      obtain ⟨frame,hframe,hlen,hmisses,-⟩ := h.missing ⟨i,hx.lt,hno⟩
      have hfits : Fits frame.data.length i (cut FRAME_CHUNK_SIZE J i) :=
        hlen ▸ ⟨hx.lt,cut_fits (by decide) hx.lt⟩
      have hsome := accept_isSome.mpr ⟨(hmisses i).mpr ⟨hx.lt,hno⟩,hfits⟩
      rw [hrej frame hframe] at hsome
      cases hsome
    have hsame (j : ℕ) : Delivered json n J (hs ++ [x]) j ↔ Delivered json n J hs j := by
      rw [hsnoc]
      exact or_iff_left_of_imp fun hj => hj ▸ hdel
    exact ⟨h.keep hsame rfl h.latest,fun hc => absurd hdel hc.1,fun _ => rfl⟩
  | progress frame frame' after hframe haccept hmissing hget =>
    obtain ⟨hnew,hlen,hmisses,hholds⟩ := h.accept hx hjson hcap hframe haccept
    obtain ⟨j,hj⟩ := hmissing
    obtain ⟨hlt,hno⟩ := (hmisses j).mp hj
    refine ⟨⟨fun m hm => ?_,fun hall => absurd (hall j hlt) hno,fun _ => ?_⟩,fun hc => ?_,fun _ => rfl⟩
    · by_cases hnm : n = m
      · exact hnm.ge
      · rw [hget,if_neg hnm] at hm
        exact h.latest m hm
    · exact ⟨frame',by rw [hget,if_pos rfl],hlen,hmisses,hholds⟩
    · rw [hsnoc,not_or] at hno
      exact absurd (hc.2 j hlt hno.2) hno.1
  | complete frame frame' after hframe haccept hall hget =>
    obtain ⟨hnew,hlen,hmisses,hholds⟩ := h.accept hx hjson hcap hframe haccept
    have hdel : ∀ j < chunkCount J, Delivered json n J (hs ++ [x]) j := by
      intro j hj
      by_contra hno
      exact hall j ((hmisses j).mpr ⟨hj,hno⟩)
    have hcomplete : Completes json n J hs i :=
      ⟨hnew,fun j hj hne => ((hsnoc j).mp (hdel j hj)).resolve_right hne⟩
    have hdata : frame'.data = J := hholds.whole (by decide) hlen fun j hj => ⟨hdel j hj,rfl⟩
    refine ⟨⟨fun m hm => ?_,fun _ => by rw [hget,if_neg (lt_irrefl n)],fun ⟨j,hj,hno⟩ => ?_⟩,
      fun _ => congrArg some hdata,fun hno => absurd hcomplete hno⟩
    · by_cases hnm : n < m
      · rw [hget,if_pos hnm] at hm
        exact h.latest m hm
      · exact not_lt.mp hnm
    · exact absurd (hdel j hj) hno

theorem feed_assembles {env : Env} {w w' : Worker} (hjson : Decodes env.json n J)
    (hcap : J.length ≤ MAX_FRAME_BYTES) (hw : Assembling env.json n J [] w.webcamFrames)
    (hfeed : Feed SameTable (HandlesFrame env) w hs w') (hhs : ∀ x ∈ hs, Concerns env.json n J x) :
    Assembling env.json n J hs w'.webcamFrames := by
  refine hfeed.invariant (I := fun hs v => Assembling env.json n J hs v.webcamFrames) hhs hw
    (fun hs t u h hi => ?_) fun hs t c u h hc hx => ?_
  · rw [hi]
    exact h
  · rw [hc.fed.frames]
    rcases hx with ⟨i,hx⟩|hx
    · rw [hx.read hjson hcap]
      exact (h.chunk hx hjson hcap).1
    · exact h.foreign hx hjson hcap

theorem announced_assembling {t : Frames} (hJ : J ≠ []) (hn : ∀ m, t.get? m ≠ none → m < n) :
    Assembling json n J [] (openFrame t n J.length) := by
  have hno (j : ℕ) : ¬Delivered json n J [] j := by simp [Delivered]
  have hkept : ¬t.Evicts n n := by
    intro hev
    obtain ⟨k,hk⟩ := BoundedTable.exists_key (t := t) (by rw [hev.1]; decide)
    exact absurd (hn k hk) (not_lt.mpr (hev.2.2.2 k hk))
  have hpos : 0 < chunkCount J := (Nat.zero_le _).trans_lt
    (div_lt_count (q := 0) (by decide) (List.length_pos_iff.mpr hJ))
  refine ⟨openFrame_latest (fun k hk => (hn k hk).le) le_rfl,fun hall => absurd (hall 0 hpos) (hno 0),
    fun _ => ⟨blank J.length,?_,blank_length _,fun j => ?_,holds_none (fun j p hp => hno j hp.1) _⟩⟩
  · exact BoundedTable.get?_insert_self hkept
  · rw [blank_misses,and_iff_left (hno j)]

theorem assembling_at {b : Command} {w₀ : Worker} {pre post : List (Handled Worker Command)} (hJ : J ≠ [])
    (hcap : J.length ≤ MAX_FRAME_BYTES) (hjson : Decodes env.json n J)
    (hn : ∀ m, w.webcamFrames.get? m ≠ none → m < n) (hb : IsBegin env.json n J b)
    (hbegin : HandlesFrame env w b w₀) (hfeed : Feed SameTable (HandlesFrame env) w₀ hs w')
    (hhs : ∀ x ∈ hs, Concerns env.json n J x) (hcut : hs = pre ++ x :: post) :
    Assembling env.json n J pre x.before.webcamFrames := by
  have hopen : w₀.webcamFrames = openFrame w.webcamFrames n J.length := by
    rw [hbegin.fed.frames,hb.read hjson hcap]
    rfl
  exact feed_assembles hjson hcap (hopen ▸ announced_assembling hJ hn) (hfeed.at hcut).1
    fun y hy => hhs y (hcut ▸ List.mem_append_left _ hy)

theorem Completes.delivered {k : ℕ} (h : Completes json n J (hs.take k) i) (hx : hs[k]? = some x)
    (hchunk : IsChunk json n J i x.input) (hj : j < chunkCount J) {m : ℕ} (hm : k < m) :
    Delivered json n J (hs.take m) j := by
  have hlt : k < hs.length := (List.getElem?_eq_some_iff.mp hx).1
  by_cases hji : j = i
  · refine ⟨x,?_,hji ▸ hchunk⟩
    exact List.mem_of_getElem? (by rw [List.getElem?_take_of_lt hm,hx])
  · obtain ⟨y,hy,hychunk⟩ := h.2 j hj hji
    exact ⟨y,List.take_subset_take_left hs hm.le hy,hychunk⟩

theorem exists_completes (hJ : J ≠ []) (hjson : Decodes json n J) (hcap : J.length ≤ MAX_FRAME_BYTES)
    (hall : ∀ j < chunkCount J, Delivered json n J hs j) :
    ∃ k x i, hs[k]? = some x ∧ IsChunk json n J i x.input ∧ Completes json n J (hs.take k) i := by
  induction hs using List.reverseRecOn with
  | nil =>
    have hpos : 0 < chunkCount J := (Nat.zero_le _).trans_lt
      (div_lt_count (q := 0) (by decide) (List.length_pos_iff.mpr hJ))
    obtain ⟨x,hx,-⟩ := hall 0 hpos
    cases hx
  | append_singleton hs x ih =>
    by_cases hbefore : ∀ j < chunkCount J, Delivered json n J hs j
    · obtain ⟨k,y,i,hy,hchunk,hcomp⟩ := ih hbefore
      have hk : k < hs.length := (List.getElem?_eq_some_iff.mp hy).1
      exact ⟨k,y,i,by rw [List.getElem?_append_left hk,hy],hchunk,
        by rwa [List.take_append_of_le_length hk.le]⟩
    · push Not at hbefore
      obtain ⟨j,hj,hno⟩ := hbefore
      have hchunk : IsChunk json n J j x.input := (delivered_snoc.mp (hall j hj)).resolve_left hno
      refine ⟨hs.length,x,j,List.getElem?_concat_length,hchunk,?_⟩
      rw [List.take_left]
      exact ⟨hno,fun m hm hne => ((delivered_chunk hchunk hjson hcap).mp (hall m hm)).resolve_right hne⟩

theorem completes_once (hJ : J ≠ []) (hjson : Decodes json n J) (hcap : J.length ≤ MAX_FRAME_BYTES)
    (hall : ∀ j < chunkCount J, Delivered json n J hs j) :
    ∃! k, ∃ x i, hs[k]? = some x ∧ IsChunk json n J i x.input ∧ Completes json n J (hs.take k) i := by
  obtain ⟨k,x,i,hx,hchunk,hcomp⟩ := exists_completes hJ hjson hcap hall
  refine ⟨k,⟨x,i,hx,hchunk,hcomp⟩,?_⟩
  rintro m ⟨y,j,hy,hychunk,hycomp⟩
  rcases lt_trichotomy k m with hlt|rfl|hlt
  · exact absurd (hcomp.delivered hx hchunk hychunk.lt hlt) hycomp.1
  · rfl
  · exact absurd (hycomp.delivered hy hychunk hchunk.lt hlt) hcomp.1

/-- The frame is sent, behind the event of a command that the request for the next frame costs
its place. -/
def Announces (J : List UInt8) (x : Handled Worker Command) : Prop :=
  emitted x.before x.after = [.webcamFrame J] ∨ ∃ e, DropsOldest x.before e ∧
    x.before.webcamAvailable = true ∧ emitted x.before x.after = [e,.webcamFrame J]

/-- The chunks of the frame give exactly one frame, the one that was cut up, at the chunk that
was missing last. -/
def Reassembles (json : Json) (n : ℤ) (J : List UInt8) (hs : List (Handled Worker Command)) : Prop :=
  (∀ k x i, hs[k]? = some x → IsChunk json n J i x.input →
    (Completes json n J (hs.take k) i → Announces J x) ∧
    (¬Completes json n J (hs.take k) i → emitted x.before x.after = [])) ∧
  ((∀ j < chunkCount J, Delivered json n J hs j) →
    ∃! k, ∃ x i, hs[k]? = some x ∧ IsChunk json n J i x.input ∧ Completes json n J (hs.take k) i)

/-- A frame later than those of the table is announced, and its chunks come in any order, between
commands that do not concern it. -/
theorem frame_reassembles (env : Env) (J : List UInt8) (n : ℤ) (w w₀ w' : Worker) (b : Command)
    (hs : List (Handled Worker Command)) (hJ : J ≠ []) (hcap : J.length ≤ MAX_FRAME_BYTES)
    (hjson : Decodes env.json n J) (hn : ∀ m, w.webcamFrames.get? m ≠ none → m < n)
    (hb : IsBegin env.json n J b) (hbegin : HandlesFrame env w b w₀)
    (hfeed : Feed SameTable (HandlesFrame env) w₀ hs w') (hhs : ∀ x ∈ hs, Concerns env.json n J x) :
    Reassembles env.json n J hs := by
  refine ⟨fun k x i hx hchunk => ?_,completes_once hJ hjson hcap⟩
  obtain ⟨hk,hget⟩ := List.getElem?_eq_some_iff.mp hx
  have hcut : hs = hs.take k ++ x :: hs.drop (k+1) := by
    rw [← hget,List.getElem_cons_drop,List.take_append_drop]
  have hinv := assembling_at hJ hcap hjson hn hb hbegin hfeed hhs hcut
  obtain ⟨-,hcomplete,hquiet⟩ := hinv.chunk hchunk hjson hcap
  have hfed := (hfeed.at hcut).2.fed
  have hfeedx : (feed x.before.webcamFrames (readFrameCommand env.json x.input)).1 =
      (putChunk x.before.webcamFrames n i (cut FRAME_CHUNK_SIZE J i)).1 := by
    rw [hchunk.read hjson hcap]
    rfl
  exact ⟨fun hc => hfed.complete J (hfeedx.trans (hcomplete hc)),
    fun hno => hfed.quiet (hfeedx.trans (hquiet hno))⟩

section Samples

def wide : List UInt8 := List.replicate (FRAME_CHUNK_SIZE+1) 7

def widePiece (i : ℕ) : FrameChunk := ⟨1,i,Base64.encode (cut FRAME_CHUNK_SIZE wide i)⟩

def wideEnv : Env := frameEnv [⟨1,4097⟩,⟨0,9⟩] [widePiece 0,widePiece 1]

def wideBegin : Command := Command.new RECEIVE_FRAME_BEGIN (beginText ⟨1,4097⟩) 5
def wideChunk (i : ℕ) : Command := Command.new RECEIVE_FRAME_CHUNK (chunkText (widePiece i)) 6
def olderBegin : Command := Command.new RECEIVE_FRAME_BEGIN (beginText ⟨0,9⟩) 7

theorem length_wide : wide.length = 4097 := List.length_replicate

theorem count_wide : chunkCount wide = 2 := by
  rw [chunkCount,length_wide]
  rfl

theorem chunkText_ne (d d' : String) : chunkText ⟨1,0,d⟩ ≠ chunkText ⟨1,1,d'⟩ := by
  intro h
  have hzero : (Int.repr 0).toList = ['0'] := rfl
  have hone : (Int.repr 1).toList = ['1'] := rfl
  have hlist := congrArg String.toList h
  simp [chunkText,hzero,hone] at hlist

theorem wide_decodes : Decodes wideEnv.json 1 wide where
  begin := by
    rw [length_wide]
    decide +kernel
  chunk i hi := by
    rw [count_wide] at hi
    show [widePiece 0,widePiece 1].find? (chunkText · == chunkText (widePiece i)) = some (widePiece i)
    obtain rfl|rfl : i = 0 ∨ i = 1 := by omega
    · exact List.find?_cons_of_pos (beq_self_eq_true _)
    · have hother : ¬(chunkText (widePiece 0) == chunkText (widePiece 1)) = true :=
        fun h => chunkText_ne _ _ (beq_iff_eq.mp h)
      rw [List.find?_cons_of_neg (p := (chunkText · == chunkText (widePiece 1))) hother]
      exact List.find?_cons_of_pos (beq_self_eq_true _)

theorem wide_isChunk {i : ℕ} (hi : i < 2) : IsChunk wideEnv.json 1 wide i (wideChunk i) :=
  sent_chunk wideEnv.json 1 (by rw [length_wide]; decide) (count_wide ▸ hi)

/-- The last chunk overtakes the first one and comes twice, and an older frame is announced. -/
def overtaken : List (Handled Worker Command) :=
  fed wideEnv (next wideEnv (handled wideEnv []) wideBegin) [wideChunk 1,wideChunk 1,olderBegin,wideChunk 0]

theorem wide_live : (handled wideEnv []).receiver = none := by
  decide +kernel

theorem wide_empty : (handled wideEnv []).webcamFrames = ∅ := by
  decide +kernel

theorem wide_announced : IsBegin wideEnv.json 1 wide wideBegin := by
  rw [IsBegin,sendWebcamFrame,length_wide]
  rfl

theorem wide_begun : HandlesFrame wideEnv (handled wideEnv []) wideBegin
    (next wideEnv (handled wideEnv []) wideBegin) := handlesFrame_live wideEnv robot wide_live rfl rfl

theorem wide_latest (m : ℤ) (hm : (handled wideEnv []).webcamFrames.get? m ≠ none) : m < 1 := by
  rw [wide_empty] at hm
  exact absurd (BoundedTable.get?_empty m) hm

theorem wide_fed {idle : Worker → Worker → Prop} (cs : List Command)
    (hcs : ∀ c ∈ cs, isFrameCommand c = true ∧ c.acknowledged = false) :
    Feed idle (HandlesFrame wideEnv) (next wideEnv (handled wideEnv []) wideBegin)
      (fed wideEnv (next wideEnv (handled wideEnv []) wideBegin) cs)
      (cs.foldl (next wideEnv) (next wideEnv (handled wideEnv []) wideBegin)) :=
  feed_fed (.start _) (next_live wideEnv wide_live rfl rfl) hcs

theorem frame_reassembles_overtaken : Reassembles wideEnv.json 1 wide overtaken := by
  have holder : Foreign wideEnv.json 1 olderBegin := by
    have hread : readFrameCommand wideEnv.json olderBegin = .begin 0 9 := by decide +kernel
    rw [Foreign,hread]
    decide
  refine frame_reassembles wideEnv wide 1 (handled wideEnv []) _ _ wideBegin overtaken (by decide)
    (by rw [length_wide]; decide) wide_decodes wide_latest wide_announced wide_begun
    (wide_fed _ (by decide +kernel)) fun x hx => ?_
  simp only [overtaken,fed,List.mem_cons,List.not_mem_nil,or_false] at hx
  rcases hx with rfl|rfl|rfl|rfl
  · exact .inl ⟨1,wide_isChunk (by decide)⟩
  · exact .inl ⟨1,wide_isChunk (by decide)⟩
  · exact .inr holder
  · exact .inl ⟨0,wide_isChunk (by decide)⟩

end Samples

def busy : Worker :=
  final (run oneChunkEnv (handled oneChunkEnv [Command.new STREAM_CHANGE "true" 4])
    (List.replicate 64 (.control (RobocolClient.initOpmode "A"))))

/-- The last chunk has the next frame requested, which costs the oldest command its place. -/
theorem last_chunk_drops_command :
    busy.webcamFrames = ∅ ∧
    emitted (next oneChunkEnv busy beginOne) (next oneChunkEnv (next oneChunkEnv busy beginOne) chunkOne) =
      [.commandDropped INIT_OP_MODE,.webcamFrame [1,2,3]] := by
  decide +kernel

end History

end Client
end Robocol
