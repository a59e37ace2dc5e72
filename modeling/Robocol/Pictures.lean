import Robocol.Agreement
import Robocol.FrameOrder
import Robocol.FrameReassembly

/-! The pictures of a session with the controller. However their pieces are lost, repeated and
mixed up on the way, a picture that the station shows is one that the controller took. -/
namespace Robocol
namespace Client

open ByteLayout Cmd Runs Worker Pieces PartialFrame Relation

section Table

/-- What is in the table are parts of announced pictures, each with its number. -/
def Pictured (Announced : ℤ → Prop) (Picture : ℤ → List UInt8 → Prop) (t : Frames) : Prop :=
  ∀ m frame, t.get? m = some frame → Announced m ∧ ∃ J, Picture m J ∧ frame.data.length = J.length ∧
    Holds FRAME_CHUNK_SIZE (fun i p => frame.Has i ∧ p = cut FRAME_CHUNK_SIZE J i) frame.data

/-- A frame input is of some picture. -/
def FrameInput.OfPicture (Announced : ℤ → Prop) (Picture : ℤ → List UInt8 → Prop) : FrameInput → Prop
  | .ignored => True
  | .begin m length => Announced m ∧ ∃ J, Picture m J ∧ length = J.length
  | .chunk m i bytes => ∃ J, Picture m J ∧ bytes = cut FRAME_CHUNK_SIZE J i

variable {Announced Announced' : ℤ → Prop} {Picture : ℤ → List UInt8 → Prop} {t : Frames} {m : ℤ}
  {i length : ℕ} {bytes data : List UInt8} {frame frame' : PartialFrame}

theorem pictured_empty : Pictured Announced Picture ∅ := by
  intro m frame hframe
  rw [BoundedTable.get?_empty] at hframe
  cases hframe

theorem Pictured.mono (h : Pictured Announced Picture t) (hle : ∀ m, Announced m → Announced' m) :
    Pictured Announced' Picture t :=
  fun m frame hframe => ⟨hle m (h m frame hframe).1,(h m frame hframe).2⟩

theorem Pictured.openFrame {J : List UInt8} (h : Pictured Announced Picture t) (hm : Announced m)
    (hJ : Picture m J) : Pictured Announced Picture (openFrame t m J.length) := by
  intro k frame hframe
  rcases BoundedTable.get?_insert_some hframe with ⟨rfl,rfl⟩|⟨-,hold⟩
  · exact ⟨hm,J,hJ,blank_length _,holds_none (fun i p hp => blank_has _ i hp.1) _⟩
  · exact h k frame hold

theorem Pictured.accept (h : Pictured Announced Picture t) (hframe : t.get? m = some frame)
    (hunique : ∀ J J', Picture m J → Picture m J' → J = J') {J : List UInt8} (hJ : Picture m J)
    (haccept : frame.accept i (cut FRAME_CHUNK_SIZE J i) = some frame') :
    Announced m ∧ frame'.data.length = J.length ∧
      Holds FRAME_CHUNK_SIZE (fun j p => frame'.Has j ∧ p = cut FRAME_CHUNK_SIZE J j) frame'.data := by
  obtain ⟨hm,J',hJ',hlen,hholds⟩ := h m frame hframe
  obtain rfl := hunique J J' hJ hJ'
  obtain ⟨-,hwrite,-⟩ := accept_eq_some.mp haccept
  refine ⟨hm,(accept_length haccept).trans hlen,?_⟩
  refine hholds.write hwrite (hlen ▸ cut_covers (by decide) i) (cut_spares _ _ i) (fun p hp => hp.2) ?_
  exact fun j p hne hp => ⟨((accept_has haccept j).mp hp.1).resolve_right hne,hp.2⟩

theorem Pictured.feed (h : Pictured Announced Picture t)
    (hunique : ∀ m J J', Picture m J → Picture m J' → J = J') {x : FrameInput}
    (hx : x.OfPicture Announced Picture) : Pictured Announced Picture (feed t x).2 ∧
      ∀ data, (feed t x).1 = some data → ∃ m, Announced m ∧ Picture m data := by
  cases x with
  | ignored => exact ⟨h,fun data hdata => by cases hdata⟩
  | begin m length =>
    obtain ⟨hm,J,hJ,rfl⟩ := hx
    exact ⟨h.openFrame hm hJ,fun data hdata => by cases hdata⟩
  | chunk m i bytes =>
    obtain ⟨J,hJ,rfl⟩ := hx
    have hput := putChunk_spec t m i (cut FRAME_CHUNK_SIZE J i)
    simp only [Client.feed]
    generalize putChunk t m i (cut FRAME_CHUNK_SIZE J i) = r at hput ⊢
    cases hput with
    | reject => exact ⟨h,fun data hdata => by cases hdata⟩
    | progress frame frame' after hframe haccept hmissing hget =>
      obtain ⟨hm,hlen,hholds⟩ := h.accept hframe (hunique m) hJ haccept
      refine ⟨fun k f hf => ?_,fun data hdata => by cases hdata⟩
      rw [hget] at hf
      by_cases hk : m = k
      · subst hk
        rw [if_pos rfl] at hf
        obtain rfl := Option.some.inj hf
        exact ⟨hm,J,hJ,hlen,hholds⟩
      · rw [if_neg hk] at hf
        exact h k f hf
    | complete frame frame' after hframe haccept hall hget =>
      obtain ⟨hm,hlen,hholds⟩ := h.accept hframe (hunique m) hJ haccept
      have hwhole : frame'.data = J := by
        refine hholds.whole (by decide) hlen fun j hj => ⟨?_,rfl⟩
        exact has_of_not_misses (hlen ▸ hj) (hall j)
      refine ⟨fun k f hf => ?_,fun data hdata => ?_⟩
      · rw [hget] at hf
        by_cases hk : m < k
        · rw [if_pos hk] at hf
          exact h k f hf
        · rw [if_neg hk] at hf
          cases hf
      · obtain rfl := Option.some.inj hdata
        exact ⟨m,hm,hwhole ▸ hJ⟩

end Table

section Session

/-- In a session with the controller the table has parts of its pictures. -/
structure Album (controller : SocketAddr) (Announced : ℤ → Prop) (Picture : ℤ → List UInt8 → Prop)
    (w : Worker) : Prop where
  session : SessionInv w
  table : w.peer = some controller → Pictured Announced Picture w.webcamFrames

/-- The frame commands of the controller are of its pictures. -/
def SpeaksOf (env : Env) (controller : SocketAddr) (Announced : ℤ → Prop)
    (Picture : ℤ → List UInt8 → Prop) (i : Input) : Prop :=
  ∀ c, Hears i controller (.command c) → c.acknowledged = false → isFrameCommand c = true →
    (readFrameCommand env.json c).OfPicture Announced Picture

variable {env : Env} {good : Worker → Packet → Prop} {w w' u v : Worker} {i : Input}
  {controller src : SocketAddr} {Announced Announced' : ℤ → Prop} {Picture : ℤ → List UInt8 → Prop}
  {c : Command} {data : List UInt8} {m : ℤ}

theorem start_album (env : Env) (receiver : Option ℕ) : Album controller Announced Picture (start env receiver) :=
  ⟨start_session env receiver,fun _ => pictured_empty⟩

theorem Album.mono (h : Album controller Announced Picture w) (hle : ∀ m, Announced m → Announced' m) :
    Album controller Announced' Picture w := ⟨h.session,fun hp => (h.table hp).mono hle⟩

theorem Move.peer (h : Move env good w w') : w'.peer = w.peer ∨ w.peer = none ∨ w'.peer = none := by
  have hevict (v : Worker) : v.evict.peer = v.peer := by
    obtain ⟨pending,r,xs,-,he⟩ := evict_eq v
    rw [he]
  cases h with
  | connect src h => exact .inr (.inl h)
  | disconnect => exact .inr (.inr rfl)
  | queue => exact .inl (hevict w)
  | restart _ ack => exact .inl (hevict (w.retire ack))
  | _ => exact .inl rfl

theorem Album.move (h : Album controller Announced Picture w) (hm : Move env NotFrame w w') :
    Album controller Announced Picture w' := by
  refine ⟨hm.session h.session,fun hp => ?_⟩
  rcases hm.unfed with htable|htable
  · rw [htable]
    rcases hm.peer with hpeer|hpeer|hpeer
    · exact h.table (hpeer ▸ hp)
    · rw [(h.session.fresh hpeer).webcamFrames]
      exact pictured_empty
    · cases hpeer.symm.trans hp
  · rw [htable]
    exact pictured_empty

theorem Album.moves (h : Album controller Announced Picture w) (hm : Moves env NotFrame w w') :
    Album controller Announced Picture w' := hm.keep (fun _ _ => Album.move) h

theorem intake_album (h : Album controller Announced Picture w)
    (hin : w.intake env data src = .ok (.packet (.command c) v)) :
    Album controller Announced Picture v ∧ v.peer = some src := by
  have hends : Ends (Admitted env NotFrame w src) (Stopped env NotFrame w) (w.intake env data src) :=
    intake_ends w data src
  rw [hin] at hends
  exact ⟨h.moves hends.1,hends.2⟩

theorem Album.handle (h : Album controller Announced Picture v)
    (hunique : ∀ m J J', Picture m J → Picture m J' → J = J')
    (hc : v.peer = some controller → (readFrameCommand env.json c).OfPicture Announced Picture)
    (hframe : isFrameCommand c = true) (hack : c.acknowledged = false) (hsrc : v.peer = some src)
    (hrun : v.handleCommand env c src = .ok u) : Album controller Announced Picture u := by
  have hfollows : Follows env (fun _ _ => True) v (v.handleCommand env c src) :=
    handleCommand_follows v c hsrc trivial
  have hunmarked : Ends (Unmarked v) (Unmarked v) (v.handleCommand env c src) :=
    dispatch_unmarked env v (.command c) src
  rw [hrun] at hfollows hunmarked
  have hu : SessionInv u := Moves.sessionInv hfollows h.session
  have hpeer : u.peer = v.peer := by
    obtain ⟨xs,hxs,hx⟩ := hunmarked
    rw [← hu.session,hxs,sessionOf_unmarked hx,h.session.session]
  refine ⟨hu,fun hp => ?_⟩
  have hv := hpeer ▸ hp
  rw [HandlesFrame.fed ⟨hframe,hack,src,hrun⟩ |>.frames]
  exact ((h.table hv).feed hunique (hc hv)).1

theorem step_album (h : Album controller Announced Picture w)
    (hunique : ∀ m J J', Picture m J → Picture m J' → J = J')
    (hi : SpeaksOf env controller Announced Picture i) (hstep : step env w i = .ok w') :
    Album controller Announced Picture w' := by
  by_cases hno : ∀ v p, Dispatches env w i v p → ¬IsFrame p
  · have hfollows := step_follows w i hno
    rw [hstep] at hfollows
    exact h.moves hfollows
  · push Not at hno
    obtain ⟨v,p,⟨data,src,rfl,hin⟩,c,rfl,hack,hframe⟩ := hno
    obtain ⟨hv,hsrc⟩ := intake_album h hin
    have hc (hp : v.peer = some controller) :
        (readFrameCommand env.json c).OfPicture Announced Picture := by
      obtain rfl := Option.some.inj (hsrc.symm.trans hp)
      exact hi c ⟨data,rfl,(intake_parse hin).1⟩ hack hframe
    simp only [step,socketStep,receive,handleDatagram,hin,dispatch] at hstep
    cases hrun : v.handleCommand env c src with
    | error u =>
      simp only [bind,Except.bind,hrun] at hstep
      cases hstep
    | ok u =>
      simp only [bind,Except.bind,hrun] at hstep
      have hu := hv.handle hunique hc hframe hack hsrc hrun
      have htail : Follows env NotFrame u (.ok w') := by
        rw [← hstep]
        refine Follows.bind (checkTimeout_follows u) fun x _ => ?_
        exact Follows.trans ((beat_moves x).trans (webcamTimers_moves _)) (retransmitPending_follows _)
      exact hu.moves htail

theorem step_pictures (h : Album controller Announced Picture w)
    (hunique : ∀ m J J', Picture m J → Picture m J' → J = J')
    (hi : SpeaksOf env controller Announced Picture (.socket (.datagram data controller)))
    {shown : List UInt8} (hmark : stepMark env w (.socket (.datagram data controller)) = some (.shown m shown)) :
    ∃ m, Announced m ∧ Picture m shown := by
  by_cases hno : ∀ v p, Dispatches env w (.socket (.datagram data controller)) v p → ¬IsFrame p
  · cases stepMark_other hno hmark
  · push Not at hno
    obtain ⟨v,p,hdisp,hp⟩ := hno
    obtain ⟨c,data',src,heq,hin,hack,hframe,-,hshown⟩ := stepMark_frame hdisp hp
    obtain ⟨rfl,rfl⟩ : data = data' ∧ controller = src := by simpa using heq
    obtain ⟨hv,hsrc⟩ := intake_album h hin
    obtain ⟨-,hfeed⟩ := (hv.table hsrc).feed hunique (hi c ⟨data,rfl,(intake_parse hin).1⟩ hack hframe)
    rw [hshown] at hmark
    cases hread : readFrameCommand env.json c with
    | ignored => rw [hread] at hmark; cases hmark
    | begin n length => rw [hread] at hmark; cases hmark
    | chunk n index bytes =>
      rw [hread] at hmark hfeed
      obtain ⟨out,hout,hsame⟩ := Option.map_eq_some_iff.mp hmark
      obtain ⟨-,rfl⟩ := Mark.shown.inj hsame
      exact hfeed out hout

theorem shown_mem {xs : List Entry} {ms : List (List UInt8)} (hlog : u.log = w.log ++ xs)
    (h : framesOf u <+: framesOf w ++ ms) (hmem : Entry.event (.webcamFrame data) ∈ xs) : data ∈ ms := by
  have hu : framesOf u = framesOf w ++ (xs.filterMap Entry.event?).filterMap Event.frame? := by
    rw [framesOf,hlog,List.filterMap_append,List.filterMap_append,← framesOf]
  rw [hu,List.prefix_append_right_inj] at h
  refine h.subset (List.mem_filterMap.mpr ⟨.webcamFrame data,?_,rfl⟩)
  exact List.mem_filterMap.mpr ⟨_,hmem,rfl⟩

end Session

end Client

namespace Deployment

open ByteLayout Cmd Client Client.FakeRc Runs Worker Pieces

variable {site : Site} {d d0 : Deployment} {acts : List Act} {now : ℕ} {c : Command} {m : ℤ}
  {standing : FakeRc.Standing} {a : FakeRc.Arrival} {before : FakeRc} {i : Input} {w : Worker}

/-- A picture that the controller takes, with its number. -/
def Picture (site : Site) (m : ℤ) (J : List UInt8) : Prop :=
  ∃ n : Int32, m = n.toInt ∧ J = site.rcEnv.renderFrame n

/-- The controller has announced the picture to the station. -/
def Offered (site : Site) (d : Deployment) (m : ℤ) : Prop :=
  ∃ (n : Int32) (c : Command), m = n.toInt ∧ (site.station,.command c) ∈ d.rc.sent ∧
    c.name = RECEIVE_FRAME_BEGIN ∧
    c.extra = site.rcEnv.frameBeginText ⟨n.toInt,asI32 (site.rcEnv.renderFrame n).length⟩

/-- Where the station reads the payloads of pictures, it reads what the controller wrote, and no
picture has as many bytes as its length field cannot hold. -/
structure Faithful (site : Site) : Prop where
  begin : ∀ n b, site.env.json.frameBegin
    (site.rcEnv.frameBeginText ⟨n.toInt,asI32 (site.rcEnv.renderFrame n).length⟩) = some b →
      b = ⟨n.toInt,asI32 (site.rcEnv.renderFrame n).length⟩
  chunk : ∀ n i b, i < chunkCount (site.rcEnv.renderFrame n) →
    site.env.json.frameChunk (site.rcEnv.frameChunkText ⟨n.toInt,asI32 i,
    Base64.encode (cut FRAME_CHUNK_SIZE (site.rcEnv.renderFrame n) i)⟩) = some b →
      b = ⟨n.toInt,asI32 i,Base64.encode (cut FRAME_CHUNK_SIZE (site.rcEnv.renderFrame n) i)⟩
  small : ∀ n, (site.rcEnv.renderFrame n).length < 2^31

theorem picture_unique (m : ℤ) (J J' : List UInt8) (h : Picture site m J) (h' : Picture site m J') :
    J = J' := by
  obtain ⟨n,rfl,rfl⟩ := h
  obtain ⟨n',hn,rfl⟩ := h'
  rw [Int32.toInt_inj.mp hn]

theorem begin_picture (hsite : Faithful site) (n : Int32) (hm : Offered site d n.toInt)
    (hname : c.name = RECEIVE_FRAME_BEGIN)
    (hextra : c.extra = site.rcEnv.frameBeginText ⟨n.toInt,asI32 (site.rcEnv.renderFrame n).length⟩) :
    (readFrameCommand site.env.json c).OfPicture (Offered site d) (Picture site) := by
  rw [readFrameCommand_begin _ hname,beginPayload,hextra]
  cases hread : site.env.json.frameBegin
      (site.rcEnv.frameBeginText ⟨n.toInt,asI32 (site.rcEnv.renderFrame n).length⟩) with
  | none => trivial
  | some b =>
    obtain rfl := hsite.begin n b hread
    have hlen := asI32_eq (hsite.small n)
    simp only [Option.bind_eq_bind,Option.bind_some,hlen,Int.toNat_natCast]
    rw [if_neg (by omega)]
    by_cases hmax : MAX_FRAME_BYTES < (site.rcEnv.renderFrame n).length
    · rw [if_pos hmax]
      trivial
    · rw [if_neg hmax]
      exact ⟨hm,_,⟨n,rfl,rfl⟩,rfl⟩

theorem chunk_picture (hsite : Faithful site) (n : Int32) {chunk : List UInt8} {k : ℕ}
    (hmem : (chunk,k) ∈ (chunks FRAME_CHUNK_SIZE (site.rcEnv.renderFrame n)).zipIdx)
    (hname : c.name = RECEIVE_FRAME_CHUNK)
    (hextra : c.extra = site.rcEnv.frameChunkText ⟨n.toInt,asI32 k,Base64.encode chunk⟩) :
    (readFrameCommand site.env.json c).OfPicture (Offered site d) (Picture site) := by
  have hchunk := List.mem_zipIdx_iff_getElem?.mp hmem
  rw [chunks_eq] at hchunk
  obtain ⟨hk,hcut⟩ := List.getElem?_eq_some_iff.mp hchunk
  have hlt : k < count FRAME_CHUNK_SIZE (site.rcEnv.renderFrame n).length := by simpa using hk
  obtain rfl : cut FRAME_CHUNK_SIZE (site.rcEnv.renderFrame n) k = chunk := by simpa using hcut
  have hstart := start_lt_of_lt_count (by decide) hlt
  have hsmall := hsite.small n
  have hnum : asI32 k = k := asI32_eq (by rw [FRAME_CHUNK_SIZE] at hstart; omega)
  rw [readFrameCommand_chunk _ hname,chunkPayload,hextra]
  cases hread : site.env.json.frameChunk (site.rcEnv.frameChunkText
      ⟨n.toInt,asI32 k,Base64.encode (cut FRAME_CHUNK_SIZE (site.rcEnv.renderFrame n) k)⟩) with
  | none => trivial
  | some b =>
    obtain rfl := hsite.chunk n k b hlt hread
    simp only [Option.bind_eq_bind,Option.bind_some,Base64.decode_encode,hnum,Int.toNat_natCast]
    rw [if_neg (by omega)]
    exact ⟨_,⟨n,rfl,rfl⟩,rfl⟩

theorem said_picture (hsite : Faithful site) (hc : FakeRc.Notes site.rcEnv a before standing c.name c.extra)
    (hsent : (site.station,.command c) ∈ d.rc.sent) (hframe : isFrameCommand c = true) :
    (readFrameCommand site.env.json c).OfPicture (Offered site d) (Picture site) := by
  generalize hname : c.name = name at hc
  generalize hextra : c.extra = extra at hc
  have hneither (h : name ≠ RECEIVE_FRAME_BEGIN ∧ name ≠ RECEIVE_FRAME_CHUNK) : False := by
    simp [isFrameCommand,hname,h] at hframe
  cases hc with
  | frameBegin => exact begin_picture hsite _ ⟨_,c,rfl,hsent,hname,hextra⟩ hname hextra
  | frameChunk _ _ _ hmem => exact chunk_picture hsite _ hmem hname hextra
  | _ => exact (hneither (by decide)).elim

theorem speaks_of (hsite : Faithful site) (hsent : d0.rc.sent = [])
    (hi : Delivers site (run site d0 acts) (.station i)) :
    SpeaksOf site.env site.controller (Offered site (run site d0 acts)) (Picture site) i := by
  rintro c ⟨data,rfl,hparse⟩ hack hframe
  obtain ⟨p,hp,hser,hlen⟩ := hi rfl
  obtain ⟨front,a,hfront,hm⟩ := sent_said hsent acts _ hp
  have hread := read_back hser hlen hparse
  cases hread with
  | self =>
    cases hm with
    | acks => exact absurd hack (by simp [Command.ackOf])
    | notes _ hc => exact said_picture hsite hc hp hframe
  | ack => exact absurd hack (by simpa using ‹_›)

theorem Offered.later {a : FakeRc.Arrival} (h : Offered site d m) :
    Offered site (act site d (.controller a)) m := by
  obtain ⟨n,c,hm,hmem,hc⟩ := h
  obtain ⟨xs,hxs,-⟩ := FakeRc.pass_sends site.rcEnv d.rc a
  refine ⟨n,c,hm,?_,hc⟩
  show _ ∈ (d.rc.pass site.rcEnv a).sent
  rw [hxs]
  exact List.mem_append_left _ hmem

/-- A frame that is shown in a session with the controller. -/
def ShowsPicture (site : Site) (d : Deployment) (before : List Entry) : Entry → Prop
  | .event (.webcamFrame data) => sessionOf before = some site.controller →
    ∃ m, Offered site d m ∧ Picture site m data
  | _ => True

theorem step_shows_pictures (hw : Album site.controller (Offered site d) (Picture site) w)
    (hi : SpeaksOf site.env site.controller (Offered site d) (Picture site) i) :
    Extends (fun pre e => ShowsPicture site d pre e) w.log (final (step site.env w i)).log := by
  obtain ⟨xs,hxs,hx⟩ : Sourced site.env i w (final (step site.env w i)) :=
    (step_sourced hw.session i).at_final (fun _ h => h) fun _ h => h
  have hfront : framesOf (final (step site.env w i)) <+:
      framesOf w ++ (stepMark site.env w i).toList.filterMap Mark.data? :=
    (step_frames w i).at_final (fun _ heq => heq ▸ List.prefix_rfl) fun _ h => h
  refine ⟨xs,hxs,fun pre e post heq => ?_⟩
  have hlaw := hx pre e post heq
  cases e with
  | event e =>
    cases e with
    | webcamFrame shown =>
      intro hsession
      obtain ⟨src,p,⟨data,rfl,hparse⟩,hsrc,-⟩ := hlaw
      obtain rfl := Option.some.inj (hsrc.symm.trans hsession)
      have hmem : shown ∈ _ := shown_mem hxs hfront (by simp [heq])
      obtain ⟨mark,hmark,hdata⟩ := List.mem_filterMap.mp hmem
      rw [Option.mem_toList] at hmark
      cases mark with
      | shown m out =>
        obtain rfl := Option.some.inj hdata
        exact step_pictures hw picture_unique hi hmark
      | _ => cases hdata
    | _ => trivial
  | _ => trivial

/-- The album of the station, and that all it has shown is in it. -/
structure Showing (site : Site) (d : Deployment) : Prop where
  album : ∀ w, d.worker = .ok w → Album site.controller (Offered site d) (Picture site) w
  shown : Each (ShowsPicture site d) d.log

theorem run_showing (hsite : Faithful site) (hsent : d0.rc.sent = []) (h0 : Showing site d0)
    (h : Lawful (act site) (Delivers site) d0 acts) : Showing site (run site d0 acts) := by
  refine h.induction (I := fun _ d => Showing site d) h0 fun acts x _ ih hx => ?_
  have hrun : acts.foldl (act site) d0 = run site d0 acts := rfl
  rw [hrun] at ih hx ⊢
  cases x with
  | controller a =>
    refine ⟨fun w hw => (ih.album w hw).mono fun _ hm => hm.later,ih.shown.mono fun pre e _ he => ?_⟩
    cases e with
    | event e =>
      cases e with
      | webcamFrame shown =>
        intro hsession
        obtain ⟨m,hm,hpicture⟩ := he hsession
        exact ⟨m,hm.later,hpicture⟩
      | _ => trivial
    | _ => trivial
  | station i =>
    have hspeaks := speaks_of hsite hsent hx
    generalize run site d0 acts = d at ih hspeaks ⊢
    obtain ⟨worker,rc⟩ := d
    cases worker with
    | error w => exact ih
    | ok w =>
      have halbum := ih.album w rfl
      have hshows := ih.shown.extend (step_shows_pictures halbum hspeaks)
      refine ⟨fun v hv => ?_,hshows⟩
      exact step_album halbum picture_unique hspeaks hv

/-- Whatever the network loses, repeats, delays or reorders, and whatever strangers send: a frame
that the station shows in a session with the controller is a whole picture, as the controller
rendered it and offered it to this station. -/
theorem pictures_true (site : Site) (receiver : Option ℕ) (now : ℕ) (phantomUntil : Option ℕ)
    (acts : List Act) (hsite : Faithful site)
    (h : Lawful (act site) (Delivers site) (start site receiver now phantomUntil) acts) :
    Each (ShowsPicture site (run site (start site receiver now phantomUntil) acts))
      (run site (start site receiver now phantomUntil) acts).log := by
  refine (run_showing hsite rfl ⟨fun w hw => ?_,each_nil⟩ h).shown
  obtain rfl := Except.ok.inj hw
  exact start_album site.env receiver

section Samples

/-- A camera that always sees the same three bytes, and a station that is quick to read its clock. -/
def cameraField : Site := { field with
  env := { frameEnv [⟨0,3⟩] [⟨0,0,"AQID"⟩] with
    clock := fun n => n*10^6, clock_mono := fun _ _ h => Nat.mul_le_mul_right _ h }
  rcEnv := { FakeRc.blankEnv with
    frameBeginText := beginText, frameChunkText := chunkText, renderFrame := fun _ => [1,2,3] } }

/-- The user turns the camera on, and the pieces of the first picture overtake each other. -/
def filming : List Act :=
  [.station (.socket .timedOut),toController 0 (.peerDiscovery {}),
    .station (.control (.sendCommand ⟨0,0,false,INIT_OP_MODE,"Solo"⟩)),toStation (.peerDiscovery {}),
    toController (10^6) (.command ⟨1,7,false,INIT_OP_MODE,"Solo"⟩),
    toStation (.command ⟨1,10^6,false,STREAM_CHANGE,"true"⟩),
    toController (2*10^6) (.command ⟨5,7,false,REQUEST_FRAME,""⟩),
    toStation (.command ⟨4,2*10^6,false,RECEIVE_FRAME_CHUNK,chunkText ⟨0,0,"AQID"⟩⟩),
    toStation (.command ⟨3,2*10^6,false,RECEIVE_FRAME_BEGIN,beginText ⟨0,3⟩⟩),
    toStation (.command ⟨4,2*10^6,false,RECEIVE_FRAME_CHUNK,chunkText ⟨0,0,"AQID"⟩⟩)]

theorem toString_zero {k : ℤ} (h : toString k = "0") : k = 0 := by
  cases k with
  | ofNat k =>
    have hdigits : (Nat.repr k).toList = (Nat.repr 0).toList := congrArg String.toList h
    rw [Nat.toList_repr,Nat.toList_repr] at hdigits
    have hvalue := congrArg (Nat.ofDigitChars 10 · 0) hdigits
    simp only [Nat.ofDigitChars_toDigits (b := 10) (by decide) (by decide)] at hvalue
    rw [hvalue]
    rfl
  | negSucc k =>
    have hminus : "-" ++ Nat.repr (k+1) = "0" := h
    have hhead := congrArg (fun s : String => s.toList.head?) hminus
    simp at hhead

theorem beginText_number {k m L : ℤ} (h : beginText ⟨k,L⟩ = beginText ⟨m,L⟩) : toString k = toString m := by
  delta beginText at h
  rw [String.append_left_inj,String.append_left_inj,String.append_left_inj,String.append_right_inj] at h
  exact h

theorem chunkText_number {k m i : ℤ} {data : String} (h : chunkText ⟨k,i,data⟩ = chunkText ⟨m,i,data⟩) :
    toString k = toString m := by
  delta chunkText at h
  rw [String.append_left_inj,String.append_left_inj,String.append_left_inj,String.append_left_inj,
    String.append_left_inj,String.append_right_inj] at h
  exact h

theorem looked_up {α : Type} {text : α → String} {x y b : α} (h : [x].find? (text · == text y) = some b)
    (hinj : text x = text y → x = y) : b = y := by
  obtain rfl := List.mem_singleton.mp (List.mem_of_find?_eq_some h)
  have hsame := List.find?_some h
  exact hinj (beq_iff_eq.mp hsame)

theorem cameraField_faithful : Faithful cameraField where
  begin n b hread := by
    have hlen : asI32 (cameraField.rcEnv.renderFrame n).length = 3 := show asI32 3 = 3 by decide
    rw [hlen] at hread ⊢
    have hfind : [⟨0,3⟩].find? (beginText · == beginText ⟨n.toInt,3⟩) = some b := hread
    refine looked_up hfind fun hsame => ?_
    exact congrArg (FrameBegin.mk · 3) (toString_zero (beginText_number hsame).symm).symm
  chunk n i b hi hread := by
    have hone : chunkCount (cameraField.rcEnv.renderFrame n) = 1 := show chunkCount [1,2,3] = 1 by decide
    obtain rfl : i = 0 := by omega
    have hdata : Base64.encode (cut FRAME_CHUNK_SIZE (cameraField.rcEnv.renderFrame n) 0) = "AQID" :=
      show Base64.encode (cut FRAME_CHUNK_SIZE [1,2,3] 0) = "AQID" by decide +kernel
    have hnum : asI32 0 = 0 := by decide
    rw [hdata,hnum] at hread ⊢
    have hfind : [⟨0,0,"AQID"⟩].find? (chunkText · == chunkText ⟨n.toInt,0,"AQID"⟩) = some b := hread
    refine looked_up hfind fun hsame => ?_
    exact congrArg (FrameChunk.mk · 0 "AQID") (toString_zero (chunkText_number hsame).symm).symm
  small n := show 3 < 2^31 by decide

/-- The picture is shown, once its last piece has come behind the announcement. -/
theorem filming_true :
    ((run cameraField (start cameraField none 0 none) filming).log.filterMap Entry.event?).filterMap
      Event.frame? = [[1,2,3]] ∧
    Each (ShowsPicture cameraField (run cameraField (start cameraField none 0 none) filming))
      (run cameraField (start cameraField none 0 none) filming).log :=
  ⟨by decide +kernel,pictures_true cameraField none 0 none filming cameraField_faithful (by decide +kernel)⟩

end Samples

end Deployment
end Robocol
