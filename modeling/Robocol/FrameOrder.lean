import Robocol.WebcamPacing

/-! Which announced frames are tracked, and in which order frames are shown. A full table
gives up its smallest number, and a completed frame takes those below it out of the
table, so both depend on how a new number compares with what was there before. -/
namespace Robocol
namespace Client

open Cmd Runs Worker PartialFrame

variable {env : Env} {w w' : Worker} {t : Frames} {n m : ℤ} {L : ℕ}

section Room

/-- There is a place for frame `n`: a free one, its own, or that of a smaller number. -/
def Room (t : Frames) (n : ℤ) : Prop :=
  t.size < MAX_CONCURRENT_FRAMES ∨ t.get? n ≠ none ∨ ∃ m, m < n ∧ t.get? m ≠ none

theorem not_evicts_iff : ¬t.Evicts n n ↔ Room t n := by
  have hle : t.size ≤ MAX_CONCURRENT_FRAMES := t.size_le
  constructor
  · intro h
    by_contra hroom
    simp only [Room,not_or,not_exists,not_and,not_not,not_lt] at hroom
    obtain ⟨hsize,hnone,hlow⟩ := hroom
    refine h ⟨le_antisymm hle hsize,hnone,le_rfl,fun i hi => ?_⟩
    by_contra hlt
    exact hi (hlow i (not_le.mp hlt))
  · rintro (hsize|hsome|⟨m,hlt,hm⟩) ⟨hfull,hnone,-,hmin⟩
    · exact absurd hfull hsize.ne
    · exact hsome hnone
    · exact absurd (hmin m hm) (not_le.mpr hlt)

theorem openFrame_tracks : (openFrame t n L).get? n = some (blank L) ↔ Room t n := by
  rw [← not_evicts_iff]
  constructor
  · intro h hev
    have hkeep : openFrame t n L = t := BoundedTable.insert_eq_self.mpr (.inr hev)
    rw [hkeep,hev.2.1] at h
    exact absurd h.symm (Option.some_ne_none _)
  · exact fun h => BoundedTable.get?_insert_self h

/-- The frame is in the table, of which nothing has arrived yet, and the table is not too large. -/
def Tracks (t : Frames) (n : ℤ) (L : ℕ) : Prop :=
  t.get? n = some (blank L) ∧ t.size ≤ MAX_CONCURRENT_FRAMES

theorem handleFrameBegin_tracks (w : Worker) {extra : String}
    (h : beginPayload env.json extra = some (n,L)) :
    Tracks (w.handleFrameBegin env extra).webcamFrames n L ↔ Room w.webcamFrames n := by
  simp only [handleFrameBegin,h,Tracks]
  rw [openFrame_tracks]
  exact and_iff_left (BoundedTable.size_le _)

/-- In every run, the announcements that are tracked are those that find a place. -/
theorem begins_tracked (env : Env) (receiver : Option ℕ) (inputs : List Input) :
    Along (step env) (fun w i => ∀ (v : Worker) (c : Command) (n : ℤ) (L : ℕ),
      Dispatches env w i v (.command c) → c.acknowledged = false →
        readFrameCommand env.json c = .begin n L →
          (Tracks (v.handleFrameBegin env c.extra).webcamFrames n L ↔ Room v.webcamFrames n))
      (start env receiver) inputs :=
  .of_forall (fun _ _ v _ _ _ _ _ hread => handleFrameBegin_tracks v (readFrameCommand_eq_begin hread)) _ _

def beginCommand (n : ℤ) : Command := Command.new RECEIVE_FRAME_BEGIN (beginText ⟨n,3⟩) 5

/-- The numbers around the place where the sender's counter wraps. -/
def wrapEnv : Env :=
  frameEnv ([2147483643,2147483644,2147483645,2147483646,2147483647,-2147483648].map fun n => ⟨n,3⟩) []

/-- Five frames that lost a chunk fill the table, and the first one behind the wrap gives way to them. -/
theorem wrapped_begin_lost :
    readFrameCommand wrapEnv.json (beginCommand (-2147483648)) = .begin (-2147483648) 3 ∧
    (handled wrapEnv ([2147483643,2147483644,2147483645,2147483646,2147483647].map beginCommand)).webcamFrames.size = 5 ∧
    ((handled wrapEnv ([2147483643,2147483644,2147483645,2147483646,2147483647].map beginCommand)).handleFrameBegin
      wrapEnv (beginCommand (-2147483648)).extra).webcamFrames.get? (-2147483648) = none := by
  decide +kernel

end Room

section Marks

/-- What a run does with the webcam. A cut is a change of the stream, or the end of a session. -/
inductive Mark
  | cut
  | announced (n : ℤ)
  | shown (n : ℤ) (data : List UInt8)
  deriving DecidableEq

def frameMark (t : Frames) : FrameInput → Option Mark
  | .ignored => none
  | .begin n _ => some (.announced n)
  | .chunk n index bytes => (putChunk t n index bytes).1.map (.shown n)

/-- What a command means for the webcam in the state it is handled in. -/
def commandMark (env : Env) (w : Worker) (c : Command) : Option Mark :=
  if c.acknowledged then none
  else if isFrameCommand c then frameMark w.webcamFrames (readFrameCommand env.json c)
  else if c.name = STREAM_CHANGE ∧ noteKey c ∉ w.seen then some .cut
  else none

def stepMark (env : Env) (w : Worker) : Input → Option Mark
  | .socket (.datagram data src) =>
    match w.intake env data src with
    | .ok (.packet (.command c) v) => commandMark env v c
    | _ => none
  | _ => none

/-- The marks of a run, up to the step in which the worker returns. -/
def marks (env : Env) : Worker → List Input → List Mark
  | _, [] => []
  | w, i :: is => (stepMark env w i).toList ++
    match step env w i with
    | .error _ => []
    | .ok w' => (if w'.peer = none then [.cut] else []) ++ marks env w' is

/-- The frames shown since the last cut, with one more mark. -/
def shownAfter (ns : List ℤ) : Mark → List ℤ
  | .cut => []
  | .announced _ => ns
  | .shown n _ => ns ++ [n]

def shownSince (ms : List Mark) : List ℤ := ms.foldl shownAfter []

/-- An announced frame has a number above those shown since the last cut. -/
def AnnouncesAbove (before : List Mark) (e : Mark) : Prop :=
  ∀ n, e = .announced n → ∀ m ∈ shownSince before, m < n

/-- So has a shown one. -/
def ShowsAbove (before : List Mark) (e : Mark) : Prop :=
  ∀ n data, e = .shown n data → ∀ m ∈ shownSince before, m < n

@[simp] theorem shownSince_snoc (ms : List Mark) (e : Mark) :
    shownSince (ms ++ [e]) = shownAfter (shownSince ms) e := by
  simp [shownSince]

end Marks

section Order

/-- Every number of a table is above those already shown. -/
def Above (ns : List ℤ) (t : Frames) : Prop := ∀ n ∈ ns, ∀ m, t.get? m ≠ none → n < m

theorem Above.nil (t : Frames) : Above [] t := fun _ hn => absurd hn List.not_mem_nil

theorem Above.unfed {ns : List ℤ} (h : Above ns w.webcamFrames) (hw : Unfed w w') :
    Above ns w'.webcamFrames := by
  intro n hn m hm
  rcases hw with hw|hw
  · exact h n hn m (hw ▸ hm)
  · rw [hw,BoundedTable.get?_empty] at hm
    exact absurd rfl hm

/-- What a frame input shows is above what was shown, if what it announces is; and so is
what it leaves in the table. -/
theorem Above.feed {pre : List Mark} (h : Above (shownSince pre) t) (i : FrameInput)
    (hfresh : ∀ e, frameMark t i = some e → AnnouncesAbove pre e) :
    (∀ e, frameMark t i = some e → ShowsAbove pre e) ∧
      Above (shownSince (pre ++ (frameMark t i).toList)) (feed t i).2 := by
  cases i with
  | ignored => exact ⟨fun e he => (by cases he),by simpa [frameMark,Client.feed] using h⟩
  | begin n L =>
    refine ⟨fun e he m data hm => ?_,?_⟩
    · rw [hm] at he
      cases he
    · simp only [frameMark,Option.toList_some,shownSince_snoc,shownAfter,Client.feed]
      intro m hm k hk
      obtain ⟨frame,hframe⟩ := Option.ne_none_iff_exists'.mp hk
      rcases BoundedTable.get?_insert_some hframe with ⟨rfl,-⟩|⟨-,hold⟩
      · exact hfresh _ rfl n rfl m hm
      · exact h m hm k (by simp [hold])
  | chunk n index bytes =>
    have hput := putChunk_spec t n index bytes
    simp only [frameMark,Client.feed]
    generalize putChunk t n index bytes = r at hput
    cases hput with
    | reject => exact ⟨fun e he => (by cases he),by simpa using h⟩
    | progress frame frame' after hframe haccept hmissing hget =>
      refine ⟨fun e he => (by cases he),?_⟩
      simp only [Option.map_none,Option.toList_none,List.append_nil]
      intro m hm k hk
      refine h m hm k fun hnone => hk ?_
      rw [hget]
      by_cases hnk : n = k
      · subst hnk
        exact absurd (hframe.symm.trans hnone) (Option.some_ne_none frame)
      · rw [if_neg hnk,hnone]
    | complete frame frame' after hframe haccept hall hget =>
      have hn : ∀ m ∈ shownSince pre, m < n := fun m hm => h m hm n (by simp [hframe])
      refine ⟨fun e he m data hm => ?_,?_⟩
      · obtain rfl := Option.some.inj he
        obtain ⟨rfl,-⟩ := Mark.shown.inj hm
        exact hn
      · simp only [Option.map_some,Option.toList_some,shownSince_snoc,shownAfter]
        intro m hm k hk
        have hlt : n < k := by
          by_contra hle
          exact hk (by rw [hget,if_neg hle])
        rcases List.mem_append.mp hm with hm|hm
        · exact (hn m hm).trans hlt
        · rwa [List.mem_singleton.mp hm]

theorem commandMark_frame {c : Command} (hframe : isFrameCommand c = true)
    (hack : c.acknowledged = false) :
    commandMark env w c = frameMark w.webcamFrames (readFrameCommand env.json c) := by
  simp only [commandMark,hack,hframe,Bool.false_eq_true,if_false,if_true]

theorem stepMark_other {i : Input} (h : ∀ v p, Dispatches env w i v p → ¬IsFrame p) {e : Mark}
    (he : stepMark env w i = some e) : e = .cut := by
  cases i with
  | control c => cases he
  | socket r =>
    cases r with
    | timedOut => cases he
    | failed error => cases he
    | datagram data src =>
      cases hin : w.intake env data src with
      | error v => simp [stepMark,hin] at he
      | ok r =>
        cases r with
        | done v => simp [stepMark,hin] at he
        | packet p v =>
          cases p with
          | command c =>
            have hno := h v _ ⟨data,src,rfl,hin⟩
            simp only [stepMark,hin,commandMark] at he
            by_cases hack : c.acknowledged = true
            · simp [hack] at he
            · by_cases hframe : isFrameCommand c = true
              · exact absurd ⟨c,rfl,by simpa using hack,hframe⟩ hno
              · simp only [hack,hframe,Bool.false_eq_true,if_false,Option.ite_none_right_eq_some,
                  Option.some.injEq] at he
                exact he.2.symm
          | _ => simp [stepMark,hin] at he

/-- A step that handles a frame command finds the table as it was or cleared, and its mark
is what the command makes of it. -/
theorem stepMark_frame {i : Input} {v : Worker} {p : Packet} (hdisp : Dispatches env w i v p)
    (hp : IsFrame p) : ∃ (c : Command) (data : List UInt8) (src : SocketAddr),
      i = .socket (.datagram data src) ∧ w.intake env data src = .ok (.packet (.command c) v) ∧
      c.acknowledged = false ∧ isFrameCommand c = true ∧ Unfed w v ∧
      stepMark env w i = frameMark v.webcamFrames (readFrameCommand env.json c) := by
  obtain ⟨data,src,rfl,hin⟩ := hdisp
  obtain ⟨c,rfl,hack,hframe⟩ := hp
  have hadmit : Ends (Admitted env NotFrame w src) (Stopped env NotFrame w) (w.intake env data src) :=
    intake_ends w data src
  rw [hin] at hadmit
  refine ⟨c,data,src,rfl,hin,hack,hframe,Moves.unfed hadmit.1,?_⟩
  simp only [stepMark,hin]
  exact commandMark_frame hframe hack

theorem step_shows {pre : List Mark} (h : Above (shownSince pre) w.webcamFrames) (i : Input)
    (hfresh : ∀ e, stepMark env w i = some e → AnnouncesAbove pre e) :
    ∀ e, stepMark env w i = some e → ShowsAbove pre e := by
  intro e he
  by_cases hno : ∀ v p, Dispatches env w i v p → ¬IsFrame p
  · rw [stepMark_other hno he]
    exact fun n data hn => by cases hn
  · push Not at hno
    obtain ⟨v,p,hdisp,hp⟩ := hno
    obtain ⟨c,data,src,-,-,-,-,hv,hmark⟩ := stepMark_frame hdisp hp
    rw [hmark] at hfresh he
    exact ((h.unfed hv).feed _ hfresh).1 e he

theorem step_above {pre : List Mark} (h : Above (shownSince pre) w.webcamFrames) (i : Input)
    (hfresh : ∀ e, stepMark env w i = some e → AnnouncesAbove pre e) (hstep : step env w i = .ok w') :
    Above (shownSince (pre ++ (stepMark env w i).toList)) w'.webcamFrames := by
  by_cases hno : ∀ v p, Dispatches env w i v p → ¬IsFrame p
  · have hkeep := (step_follows w i hno).unfed hstep
    cases hm : stepMark env w i with
    | none => simpa using h.unfed hkeep
    | some e =>
      rw [stepMark_other hno hm,Option.toList_some,shownSince_snoc]
      exact .nil _
  · push Not at hno
    obtain ⟨v,p,hdisp,hp⟩ := hno
    obtain ⟨c,data,src,rfl,hin,hack,hframe,hv,hmark⟩ := stepMark_frame hdisp hp
    rw [hmark] at hfresh ⊢
    have hfed := ((h.unfed hv).feed _ hfresh).2
    simp only [step,socketStep,receive,handleDatagram,hin,dispatch] at hstep
    cases hrun : v.handleCommand env c src with
    | error u =>
      simp only [bind,Except.bind,hrun] at hstep
      cases hstep
    | ok u =>
      simp only [bind,Except.bind,hrun] at hstep
      have hu : HandlesFrame env v c u := ⟨hframe,hack,src,hrun⟩
      rw [← hu.fed.frames] at hfed
      exact hfed.unfed (tail_unfed hstep)

theorem run_shows {pre : List Mark} (hpre : Each ShowsAbove pre)
    (h : Above (shownSince pre) w.webcamFrames) (inputs : List Input)
    (hfresh : Each AnnouncesAbove (pre ++ marks env w inputs)) :
    Each ShowsAbove (pre ++ marks env w inputs) := by
  induction inputs generalizing w pre with
  | nil => simpa [marks] using hpre
  | cons i is ih =>
    rw [marks] at hfresh ⊢
    have hone : ∀ e, stepMark env w i = some e → AnnouncesAbove pre e := by
      intro e he
      rw [he,Option.toList_some] at hfresh
      exact hfresh pre e _ rfl
    have hshows : Each ShowsAbove (pre ++ (stepMark env w i).toList) := by
      cases hm : stepMark env w i with
      | none => simpa using hpre
      | some e => exact hpre.snoc (step_shows h i hone e hm)
    rw [← List.append_assoc] at hfresh ⊢
    cases hstep : step env w i with
    | error v => simpa using hshows
    | ok w' =>
      have habove := step_above h i hone hstep
      rw [hstep] at hfresh
      by_cases hpeer : w'.peer = none
      · simp only [hpeer,if_true] at hfresh ⊢
        rw [← List.append_assoc] at hfresh ⊢
        refine ih (hshows.snoc fun n data hn => by cases hn) ?_ hfresh
        rw [shownSince_snoc]
        exact .nil _
      · simp only [hpeer,if_false,List.nil_append] at hfresh ⊢
        exact ih hshows habove hfresh

end Order

section Shown

def Event.frame? : Event → Option (List UInt8)
  | .webcamFrame data => some data
  | _ => none

def Mark.data? : Mark → Option (List UInt8)
  | .shown _ data => some data
  | _ => none

/-- The frames of the events sent so far. -/
def framesOf (w : Worker) : List (List UInt8) := (w.log.filterMap Entry.event?).filterMap Event.frame?

def Entry.isFrameless (e : Entry) : Bool := (e.event?.bind Event.frame?).isNone

/-- A function of the worker that shows no frame. -/
abbrev Frameless (w w' : Worker) : Prop := Writes (fun e => e.isFrameless = true) w w'

theorem Entry.isFrameless_queueing {e : Entry} (h : e.isQueueing = true) : e.isFrameless = true := by
  cases e <;> first | rfl | exact absurd h Bool.false_ne_true

theorem Entry.isFrameless_traffic {e : Entry} (h : e.isTraffic = true) : e.isFrameless = true := by
  cases e <;> first | rfl | exact absurd h Bool.false_ne_true

theorem Frameless.framesOf (h : Frameless w w') : framesOf w' = framesOf w := by
  obtain ⟨xs,hlog,hx⟩ := h
  have hnone : (xs.filterMap Entry.event?).filterMap Event.frame? = [] := by
    rw [List.filterMap_filterMap]
    exact List.filterMap_eq_nil_iff.mpr fun e he => Option.isNone_iff_eq_none.mp (hx e he)
  rw [Client.framesOf,Client.framesOf,hlog,List.filterMap_append,List.filterMap_append,hnone,List.append_nil]

theorem queueCommand_frameless (w : Worker) (origin : Origin) (c : Command) :
    Frameless w (w.queueCommand env origin c) :=
  (queueCommand_writes w origin c).mono fun _ => Entry.isFrameless_queueing

theorem emit_frameless {u : Worker} {e : Entry} (h : Frameless w u) (he : e.isFrameless = true) :
    Ends (Frameless w) (Frameless w) (u.emit e) :=
  (emit_writes he rfl).mono (fun _ => h.trans) fun _ => h.trans

theorem dropPeer_frameless {u : Worker} (h : Frameless w u) :
    Ends (Frameless w) (Frameless w) (u.dropPeer.send .disconnected) := by
  have hdiscard : Frameless u u.dropPeer := by
    refine ⟨u.pending.map fun p => .discarded p.id,rfl,fun e he => ?_⟩
    obtain ⟨p,-,rfl⟩ := List.mem_map.mp he
    rfl
  exact emit_frameless (h.trans hdiscard) rfl

theorem controlStep_frameless (w : Worker) (c : Control) :
    Ends (Frameless w) (Frameless w) (controlStep env w c) := by
  cases c with
  | shutdown => exact .refl _ w
  | connect => exact .refl _ w
  | sendCommand command => exact queueCommand_frameless w .client command
  | sendGamepad gamepad =>
    cases hp : w.peer with
    | none =>
      simp only [controlStep,transmitGamepad,hp]
      exact .refl _ w
    | some peer =>
      simp only [controlStep,transmitGamepad,hp,nextSeq]
      split <;> exact writes_one rfl rfl
  | disconnect =>
    refine .ite (fun _ => ?_) fun _ => .refl _ w
    exact dropPeer_frameless (u := { w with discovering := false }) (.refl _ w)

theorem windUp_frameless (w : Worker) : Ends (Frameless w) (Frameless w) (windUp env w) := by
  have hcheck : Ends (Frameless w) (Frameless w) (checkTimeout env w) :=
    .ite (fun _ => .ite (fun _ => dropPeer_frameless (u := { w with clockReads := w.clockReads+1 }) (.refl _ w))
      fun _ => .refl _ w) fun _ => .refl _ w
  refine Ends.bind hcheck fun v hv => ?_
  have hmono {u : Worker} (h : Writes (fun e => e.isTraffic = true ∨ e.isQueueing = true) v u) :
      Frameless w u :=
    hv.trans (h.mono fun _ he => he.elim Entry.isFrameless_traffic Entry.isFrameless_queueing)
  exact (timers_writes v).mono (fun _ => hmono) fun _ => hmono

theorem latch_frameless (w : Worker) (packet : Packet) (src : SocketAddr) :
    Ends (fun r => Frameless w r.worker) (Frameless w) (w.latch env packet src) := by
  refine Ends.ite (fun _ => ?_) fun _ => ?_
  · exact Ends.map (emit_frameless (w := w) (u := { w with discovering := false }) (.refl _ w) rfl) fun _ h => h
  · refine Ends.bind (emit_frameless (w := w) (u := { w with peer := some src }) (.refl _ w) rfl) fun v hv => ?_
    exact hv.trans ((requestOverview_writes v).mono fun _ => Entry.isFrameless_queueing)

theorem intake_frameless (w : Worker) (data : List UInt8) (src : SocketAddr) :
    Ends (fun r => Frameless w r.worker) (Frameless w) (w.intake env data src) := by
  have hnotice {v : Worker} (text : String) (hv : Frameless w v) :
      Ends (fun r : Intake => Frameless w r.worker) (Frameless w) (Intake.done <$> v.send (.protocolError text)) :=
    Ends.map (emit_frameless hv rfl) fun _ h => h
  unfold intake
  split
  · exact hnotice _ (.refl _ w)
  · split
    · exact .refl _ w
    · have hread : Frameless w { w with clockReads := w.clockReads+1, lastRx := env.clock w.clockReads } :=
        .refl _ w
      simp only [now]
      split
      · exact hnotice _ hread
      · refine Ends.ite (fun _ => ?_) fun _ => hread
        exact (latch_frameless _ _ src).mono (fun _ => hread.trans) fun _ => hread.trans

theorem commandEvent_frameless {c : Command} (hframe : isFrameCommand c = false) (w : Worker) :
    ∀ e, (w.commandEvent env c).1 = some e → e.frame? = none := by
  obtain ⟨hbegin,hchunk⟩ : c.name ≠ RECEIVE_FRAME_BEGIN ∧ c.name ≠ RECEIVE_FRAME_CHUNK := by
    simpa [isFrameCommand] using hframe
  have hite {b : Prop} [Decidable b] {r s : Option Event × Worker}
      (hr : b → ∀ e, r.1 = some e → e.frame? = none) (hs : ¬b → ∀ e, s.1 = some e → e.frame? = none) :
      ∀ e, (if b then r else s).1 = some e → e.frame? = none :=
    iteInduction (motive := fun r : Option Event × Worker => ∀ e, r.1 = some e → e.frame? = none) hr hs
  have hone {d : Event} (hd : d.frame? = none) (v : Worker) :
      ∀ e, ((some d,v) : Option Event × Worker).1 = some e → e.frame? = none :=
    fun e he => Option.some.inj he ▸ hd
  unfold commandEvent
  iterate 10 refine hite (fun _ => hone rfl _) fun _ => ?_
  refine hite (fun _ => hone rfl _) fun _ => ?_
  exact hite (fun h => absurd h hbegin) fun _ => hite (fun h => absurd h hchunk) fun _ => hone rfl _

theorem handleCommand_frameless {c : Command} (hno : ¬IsFrame (.command c)) (w : Worker) (src : SocketAddr) :
    Ends (Frameless w) (Frameless w) (w.handleCommand env c src) := by
  rw [handleCommand]
  refine Ends.ite (fun _ => ?_) fun hack => ?_
  · have hretire : Frameless w (w.retire c) := by
      refine (retire_writes w c).mono fun e he => ?_
      obtain ⟨p,-,-,rfl⟩ := he
      rfl
    simp only [handleAck]
    split
    · exact hretire.trans (queueCommand_frameless _ .worker _)
    · exact hretire
  · have hframe : isFrameCommand c = false := by
      cases hf : isFrameCommand c with
      | false => rfl
      | true => exact absurd ⟨c,rfl,by simpa using hack,hf⟩ hno
    have hsent : Frameless w (w.sendTo src (.command (Command.ackOf c))) := writes_one rfl rfl
    refine Ends.ite (fun _ => hsent) fun _ => ?_
    rw [if_neg (by simp [hframe])]
    have hwrites : Reports _ (commandEvent env
        ((w.sendTo src (.command (Command.ackOf c))).acceptKey (c.name,c.timestamp)) c) :=
      commandEvent_reports hframe _
    have hevent : ∀ e, (commandEvent env
        ((w.sendTo src (.command (Command.ackOf c))).acceptKey (c.name,c.timestamp)) c).1 = some e →
          e.frame? = none := commandEvent_frameless hframe
      ((w.sendTo src (.command (Command.ackOf c))).acceptKey (c.name,c.timestamp))
    obtain ⟨-,-,-,hqueue⟩ := hwrites
    dsimp only
    generalize commandEvent env
      ((w.sendTo src (.command (Command.ackOf c))).acceptKey (c.name,c.timestamp)) c = r at hqueue hevent ⊢
    obtain ⟨event,u⟩ := r
    have hu : Frameless w u := hsent.trans (hqueue.mono fun _ => Entry.isFrameless_queueing)
    cases event with
    | none => exact hu
    | some e => exact emit_frameless (e := .event e) hu (by simp [Entry.isFrameless,Entry.event?,hevent e rfl])

theorem dispatch_frameless {p : Packet} (hno : ¬IsFrame p) (w : Worker) (src : SocketAddr) :
    Ends (Frameless w) (Frameless w) (w.dispatch env p src) := by
  have hstate (state : RobotState) : Ends (Frameless w) (Frameless w) (w.updateRobotState state) := by
    rw [updateRobotState]
    split
    · exact .refl _ w
    · exact emit_writes rfl rfl
  cases p with
  | heartbeat hb => exact hstate hb.robotState
  | telemetry t => exact Ends.bind (hstate t.robotState) fun v hv => emit_frameless hv rfl
  | command c => exact handleCommand_frameless hno w src
  | peerDiscovery => exact .refl _ w
  | gamepad => exact .refl _ w
  | keepAlive => exact .refl _ w

theorem frameMark_data (t : Frames) (i : FrameInput) : (frameMark t i).bind Mark.data? = (feed t i).1 := by
  cases i with
  | ignored => rfl
  | begin n L => rfl
  | chunk n index bytes =>
    rw [frameMark,Client.feed]
    cases (putChunk t n index bytes).1 <;> rfl

theorem framesOf_emitted (h : w.log <+: w'.log) :
    framesOf w' = framesOf w ++ (emitted w w').filterMap Event.frame? := by
  obtain ⟨xs,hlog⟩ := h
  rw [emitted_append hlog.symm,framesOf,framesOf,← hlog,List.filterMap_append,List.filterMap_append]

theorem HandlesFrame.framesOf {c : Command} (h : HandlesFrame env w c w') (hgrow : w.log <+: w'.log) :
    framesOf w' = framesOf w ++ ((frameMark w.webcamFrames (readFrameCommand env.json c)).bind Mark.data?).toList := by
  rw [frameMark_data,framesOf_emitted hgrow]
  congr 1
  cases hfeed : (Client.feed w.webcamFrames (readFrameCommand env.json c)).1 with
  | none =>
    rw [h.fed.quiet hfeed]
    rfl
  | some data =>
    rcases h.fed.complete data hfeed with hone|⟨e,⟨p,-,-,rfl⟩,-,htwo⟩
    · rw [hone]
      rfl
    · rw [htwo]
      rfl

/-- A worker that returns while it handles a frame command has not shown the frame. -/
theorem handleCommand_stopped {c : Command} {src : SocketAddr} (hframe : isFrameCommand c = true)
    (hack : c.acknowledged = false) (h : w.handleCommand env c src = .error w') : Frameless w w' := by
  have hsent : Frameless w (w.sendTo src (.command (Command.ackOf c))) := writes_one rfl rfl
  rw [handleCommand_frame hframe hack] at h
  by_cases hname : c.name = RECEIVE_FRAME_BEGIN
  · rw [commandEvent_begin hname] at h
    cases h
  · have hchunk : c.name = RECEIVE_FRAME_CHUNK := by simpa [isFrameCommand,hname] using hframe
    rw [commandEvent_chunk hchunk] at h
    have hu : Frameless _ ((w.sendTo src (.command (Command.ackOf c))).handleFrameChunk env c.extra).2 :=
      (handleFrameChunk_writes _ c.extra).mono fun _ => Entry.isFrameless_queueing
    generalize (w.sendTo src (.command (Command.ackOf c))).handleFrameChunk env c.extra = r at h hu
    obtain ⟨event,u⟩ := r
    cases event with
    | none => cases h
    | some e =>
      rcases emit_cases u (.event e) with ⟨n,-,hemit⟩|⟨-,hemit⟩
      · cases hemit.symm.trans h
      · rw [← Except.error.inj (hemit.symm.trans h)]
        exact hsent.trans hu

/-- A computation that shows what a list of marks says; where it returns, perhaps less. -/
def ShowsMarks (w : Worker) (ms : List Mark) : Except Worker Worker → Prop :=
  Ends (fun v => framesOf v = framesOf w ++ ms.filterMap Mark.data?)
    (fun v => framesOf v <+: framesOf w ++ ms.filterMap Mark.data?)

theorem ShowsMarks.of_frameless {r : Except Worker Worker} {ms : List Mark} (h : Ends (Frameless w) (Frameless w) r)
    (hms : ms.filterMap Mark.data? = []) : ShowsMarks w ms r := by
  have hsame {v : Worker} (hv : Frameless w v) : framesOf v = framesOf w ++ ms.filterMap Mark.data? := by
    rw [hv.framesOf,hms,List.append_nil]
  exact h.mono (fun _ => hsame) fun _ hv => hsame hv ▸ List.prefix_rfl

theorem ShowsMarks.bind {r : Except Worker Worker} {f : Worker → Except Worker Worker} {ms : List Mark}
    (h : ShowsMarks w ms r) (hf : ∀ v, Ends (Frameless v) (Frameless v) (f v)) : ShowsMarks w ms (r >>= f) := by
  refine Ends.bind h fun v hv => (hf v).mono (fun u hu => hu.framesOf.trans hv) fun u hu => ?_
  exact (hu.framesOf.trans hv) ▸ List.prefix_rfl

theorem stepMark_other_data {i : Input} (h : ∀ v p, Dispatches env w i v p → ¬IsFrame p) :
    (stepMark env w i).toList.filterMap Mark.data? = [] := by
  cases hm : stepMark env w i with
  | none => rfl
  | some e =>
    rw [stepMark_other h hm]
    rfl

theorem handleCommand_shows {c : Command} {src : SocketAddr} (hp : w.peer = some src)
    (hframe : isFrameCommand c = true) (hack : c.acknowledged = false) :
    ShowsMarks w (frameMark w.webcamFrames (readFrameCommand env.json c)).toList (w.handleCommand env c src) := by
  have hfollows : Follows env (fun _ _ => True) w (w.handleCommand env c src) :=
    handleCommand_follows w c hp trivial
  have hgrow := hfollows.grows
  have hdata : (frameMark w.webcamFrames (readFrameCommand env.json c)).toList.filterMap Mark.data? =
      ((frameMark w.webcamFrames (readFrameCommand env.json c)).bind Mark.data?).toList := by
    cases frameMark w.webcamFrames (readFrameCommand env.json c) with
    | none => rfl
    | some e => cases e <;> rfl
  cases hrun : w.handleCommand env c src with
  | ok v =>
    rw [hrun] at hgrow
    have hv : HandlesFrame env w c v := ⟨hframe,hack,src,hrun⟩
    exact (hv.framesOf hgrow).trans (by rw [hdata])
  | error v =>
    have hsame := (handleCommand_stopped hframe hack hrun).framesOf
    show framesOf v <+: _
    rw [hsame]
    exact List.prefix_append _ _

theorem handleDatagram_shows (w : Worker) (data : List UInt8) (src : SocketAddr) :
    ShowsMarks w (stepMark env w (.socket (.datagram data src))).toList (w.handleDatagram env data src) := by
  have hintake : Ends (fun r => Frameless w r.worker) (Frameless w) (w.intake env data src) :=
    intake_frameless w data src
  have hends : Ends (Admitted env NotFrame w src) (Stopped env NotFrame w) (w.intake env data src) :=
    intake_ends w data src
  cases hin : w.intake env data src with
  | error v =>
    rw [hin] at hintake
    simp only [handleDatagram,stepMark,hin]
    exact .of_frameless (r := .error v) hintake rfl
  | ok r =>
    rw [hin] at hintake hends
    cases r with
    | done v =>
      simp only [handleDatagram,stepMark,hin]
      exact .of_frameless (r := .ok v) hintake rfl
    | packet p v =>
      have hwv : Frameless w v := hintake
      have hrun : w.handleDatagram env data src = v.dispatch env p src := by
        simp only [handleDatagram,hin]
        rfl
      rw [hrun]
      by_cases hp : IsFrame p
      · obtain ⟨c,rfl,hack,hframe⟩ := hp
        have hmark : stepMark env w (.socket (.datagram data src)) =
            frameMark v.webcamFrames (readFrameCommand env.json c) := by
          simp only [stepMark,hin]
          exact commandMark_frame hframe hack
        have hshows : ShowsMarks v _ (v.handleCommand env c src) :=
          handleCommand_shows hends.2 hframe hack
        rw [hmark,ShowsMarks,← hwv.framesOf]
        exact hshows
      · have hno : ∀ u q, Dispatches env w (.socket (.datagram data src)) u q → ¬IsFrame q := by
          rintro u q ⟨data',src',hi,hin'⟩
          obtain ⟨rfl,rfl⟩ : data = data' ∧ src = src' := by simpa using hi
          obtain ⟨rfl,rfl⟩ : p = q ∧ v = u := by simpa using hin.symm.trans hin'
          exact hp
        refine .of_frameless ?_ (stepMark_other_data hno)
        exact (dispatch_frameless hp v src).mono (fun _ => hwv.trans) fun _ => hwv.trans

theorem step_frames (w : Worker) (i : Input) : ShowsMarks w (stepMark env w i).toList (step env w i) := by
  cases i with
  | control c => exact .of_frameless (controlStep_frameless w c) rfl
  | socket r =>
    refine ShowsMarks.bind (f := windUp env) ?_ windUp_frameless
    cases r with
    | timedOut => exact .of_frameless (r := .ok w) (.refl _ w) rfl
    | failed error => exact .of_frameless (emit_frameless (.refl _ w) rfl) rfl
    | datagram data src => exact handleDatagram_shows w data src

theorem run_frames (w : Worker) (inputs : List Input) : ShowsMarks w (marks env w inputs) (run env w inputs) := by
  induction inputs generalizing w with
  | nil => exact (List.append_nil _).symm
  | cons i is ih =>
    have hone : ShowsMarks w (stepMark env w i).toList (step env w i) := step_frames w i
    rw [run,List.foldlM_cons,marks]
    cases hstep : step env w i with
    | error v =>
      rw [hstep] at hone
      rw [List.append_nil]
      exact hone
    | ok v =>
      rw [hstep] at hone
      have hv : framesOf v = framesOf w ++ (stepMark env w i).toList.filterMap Mark.data? := hone
      have hcut : ((if v.peer = none then [Mark.cut] else []) ++ marks env v is).filterMap Mark.data? =
          (marks env v is).filterMap Mark.data? := by
        split <;> rfl
      rw [ShowsMarks,List.filterMap_append,hcut,← List.append_assoc,← hv]
      exact ih v

/-- In every run whose announcements, each at its place, have numbers above the frames shown
since the stream last changed or the session last ended, the frames are shown in the order
of their numbers. -/
theorem frames_increase (env : Env) (receiver : Option ℕ) (inputs : List Input)
    (h : Each AnnouncesAbove (marks env (start env receiver) inputs)) :
    Each ShowsAbove (marks env (start env receiver) inputs) ∧
      ShowsMarks (start env receiver) (marks env (start env receiver) inputs)
        (run env (start env receiver) inputs) :=
  ⟨run_shows each_nil (.nil _) inputs h,run_frames _ inputs⟩

def lateEnv : Env := frameEnv [⟨1,3⟩,⟨2,3⟩] [⟨1,0,"AQID"⟩,⟨2,0,"BAUG"⟩]

def chunkCommand (n : ℤ) (data : String) : Command :=
  Command.new RECEIVE_FRAME_CHUNK (chunkText ⟨n,0,data⟩) 6

/-- A robot connects and sends two frames, the first one as it should be. -/
def twoFrames : List Input := [fromRobot (.keepAlive {}),
  fromRobot (.command (beginCommand 1)), fromRobot (.command (chunkCommand 1 "AQID")),
  fromRobot (.command (beginCommand 2)), fromRobot (.command (chunkCommand 2 "BAUG"))]

theorem two_frames_increase :
    Each ShowsAbove (marks lateEnv (start lateEnv none) twoFrames) ∧
      ShowsMarks (start lateEnv none) (marks lateEnv (start lateEnv none) twoFrames)
        (run lateEnv (start lateEnv none) twoFrames) := by
  refine frames_increase lateEnv none twoFrames ?_
  have hmarks : marks lateEnv (start lateEnv none) twoFrames =
      [.announced 1,.shown 1 [1,2,3],.announced 2,.shown 2 [4,5,6]] := by decide +kernel
  rw [hmarks]
  have hfirst : Each AnnouncesAbove [.announced 1,.shown 1 [1,2,3]] :=
    (each_nil.snoc (e := Mark.announced 1) (by simp [AnnouncesAbove,shownSince])).snoc
      (e := .shown 1 [1,2,3]) (by simp [AnnouncesAbove])
  exact (hfirst.snoc (e := .announced 2) (by simp [AnnouncesAbove,shownSince,shownAfter])).snoc
    (e := .shown 2 [4,5,6]) (by simp [AnnouncesAbove])

/-- The second frame is complete, and then the announcement of the first arrives, and its chunk. -/
def lateFrame : List Input := [fromRobot (.keepAlive {}),
  fromRobot (.command (beginCommand 2)), fromRobot (.command (chunkCommand 2 "BAUG")),
  fromRobot (.command (beginCommand 1)), fromRobot (.command (chunkCommand 1 "AQID"))]

/-- The older frame is shown behind the newer one. -/
theorem late_frame_shown :
    framesOf (final (run lateEnv (start lateEnv none) lateFrame)) = [[4,5,6],[1,2,3]] ∧
      ¬Each ShowsAbove (marks lateEnv (start lateEnv none) lateFrame) := by
  have hmarks : marks lateEnv (start lateEnv none) lateFrame =
      [.announced 2,.shown 2 [4,5,6],.announced 1,.shown 1 [1,2,3]] := by decide +kernel
  refine ⟨by decide +kernel,fun h => ?_⟩
  rw [hmarks] at h
  have hlt : (2 : ℤ) < 1 :=
    h [.announced 2,.shown 2 [4,5,6],.announced 1] (.shown 1 [1,2,3]) [] rfl 1 _ rfl 2
      (by simp [shownSince,shownAfter])
  exact absurd hlt (by decide)

end Shown

end Client
end Robocol
