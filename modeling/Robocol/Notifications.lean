import Mathlib.Data.List.DropRight
import Robocol.FrameFeed
import Robocol.Session

/-! Notifications: every command of the peer that is neither an ack nor part of a frame is
answered, and gives its event unless its key is among the last ones accepted. -/
namespace Robocol
namespace Client

open Cmd Runs Relation Worker

/-- The entries that begin or end a session, or refuse one. -/
def Entry.isMark : Entry → Bool
  | .event (.connected _) | .event .disconnected | .event (.peerBusy _) => true
  | _ => false

variable {env : Env} {w w' : Worker} {c : Command} {src : SocketAddr}

section Written

/-- A function of the worker whose entries are no marks. -/
abbrev Unmarked (w w' : Worker) : Prop := Writes (fun e => e.isMark = false) w w'

theorem Entry.isQueueing_unmarked {e : Entry} (h : e.isQueueing = true) : e.isMark = false := by
  cases e <;> first | rfl | exact absurd h Bool.false_ne_true

theorem Event.isReport_unmarked {e : Event} (h : e.isReport = true) : (Entry.event e).isMark = false := by
  cases e <;> first | rfl | exact absurd h Bool.false_ne_true

theorem queueCommand_writes (w : Worker) (origin : Origin) (c : Command) :
    Writes (fun e => e.isQueueing = true) w (w.queueCommand env origin c) := by
  obtain ⟨n,d,hstamp,-⟩ := stamp_eq env w c
  simp only [queueCommand,hstamp]
  exact (push_writes { w with wallReads := w.wallReads+n } origin d).mono fun _ he => he.1

theorem sendWebcamRequest_writes (w : Worker) :
    Writes (fun e => e.isQueueing = true) w (w.sendWebcamRequest env) :=
  queueCommand_writes { w with
    clockReads := w.clockReads+1, lastWebcamRequest := some (env.clock w.clockReads) } .worker _

theorem requestWebcamFramePaced_writes (w : Worker) :
    Writes (fun e => e.isQueueing = true) w (w.requestWebcamFramePaced env) := by
  obtain ⟨n,hpaced|hpaced⟩ := requestWebcamFramePaced_eq env w
  · rw [hpaced]
    exact sendWebcamRequest_writes { w with clockReads := w.clockReads+n }
  · rw [hpaced]
    exact .refl _ w

theorem handleFrameChunk_writes (w : Worker) (extra : String) :
    Writes (fun e => e.isQueueing = true) w (w.handleFrameChunk env extra).2 := by
  obtain ⟨frames,hnone|⟨data,hshow|⟨-,hask⟩⟩⟩ := handleFrameChunk_eq env w extra
  · rw [hnone]
    exact .refl _ w
  · rw [hshow]
    exact .refl _ w
  · rw [hask]
    exact requestWebcamFramePaced_writes { w with webcamFrames := frames }

theorem handleFrameChunk_event (env : Env) (w : Worker) (extra : String) :
    ∀ e, (w.handleFrameChunk env extra).1 = some e → (Entry.event e).isMark = false := by
  obtain ⟨frames,hnone|⟨data,hshow|⟨-,hask⟩⟩⟩ := handleFrameChunk_eq env w extra
  · simp [hnone]
  · intro e he
    rw [hshow] at he
    exact Option.some.inj he ▸ rfl
  · intro e he
    rw [hask] at he
    exact Option.some.inj he ▸ rfl

theorem webcamTimers_writes (w : Worker) :
    Writes (fun e => e.isQueueing = true) w (w.webcamTimers env) := by
  obtain ⟨n,hsend|hwait|⟨-,hstall⟩⟩ := webcamTimers_eq env w
  · rw [hsend]
    exact sendWebcamRequest_writes { w with clockReads := w.clockReads+n, webcamPendingRequest := false }
  · rw [hwait]
    exact .refl _ w
  · rw [hstall]
    exact requestWebcamFramePaced_writes { w with clockReads := w.clockReads+n, webcamFrames := ∅ }

/-- The entries of what is sent, and of what will not be. -/
def Entry.isTraffic : Entry → Bool
  | .sent _ _ | .transmitted _ _ _ _ | .dropped _ _ _ => true
  | _ => false

theorem Entry.isTraffic_unmarked {e : Entry} (h : e.isTraffic = true) : e.isMark = false := by
  cases e <;> first | rfl | exact absurd h Bool.false_ne_true

/-- A function of the worker that sends. -/
abbrev Sends (w w' : Worker) : Prop := Writes (fun e => e.isTraffic = true) w w'

theorem beat_as {P : Entry → Prop} (w : Worker)
    (hdiscovery : ∀ addr ∈ env.cfg.peerAddrs, P (.sent ⟨addr,env.cfg.peerPort⟩ (.peerDiscovery {})))
    (hheartbeat : ∀ dst hb, hb.robotState = .notStarted → P (.sent dst (.heartbeat hb))) :
    Writes P w (beat env w) := by
  have htick (v : Worker) : Writes P v (v.tick env) := by
    cases hp : v.peer with
    | none =>
      rw [tick_alone hp]
      refine ⟨_,rfl,fun e he => ?_⟩
      obtain ⟨addr,haddr,rfl⟩ := mem_calls he
      exact hdiscovery addr haddr
    | some peer =>
      rw [tick,hp]
      exact writes_one (hheartbeat _ _ rfl) rfl
  obtain ⟨n,hdue⟩ := isDue_eq env w w.lastBeat env.cfg.heartbeatInterval
  simp only [beat,hdue]
  split
  · exact htick { w with
      clockReads := w.clockReads+n+1, lastBeat := some (env.clock (w.clockReads+n)) }
  · exact .refl _ w

theorem beat_writes (w : Worker) : Sends w (beat env w) :=
  beat_as w (fun _ _ => rfl) fun _ _ _ => rfl

theorem retransmitPending_as {P : Entry → Prop} (w : Worker)
    (htransmitted : ∀ dst id c t, P (.transmitted dst id c t))
    (hdropped : ∀ id name, P (.dropped id name .exhausted)) :
    Ends (Writes P w) (Writes P w) (w.retransmitPending env) := by
  have hsend (peer : SocketAddr) (ps : List PendingCommand) (v : Worker) :
      Writes P v (ps.foldl (transmit peer) v) := by
    induction ps generalizing v with
    | nil => exact .refl _ v
    | cons p ps ih =>
      have hone : Writes P v (v.transmit peer p) := writes_one (htransmitted _ _ _ _) rfl
      exact hone.trans (ih _)
  have hround (v : Worker) (p : PendingCommand) (hv : Writes P w v) :
      Ends (Writes P w) (Writes P w) (v.reportDropped p) :=
    (emit_writes (hdropped _ _) rfl).mono (fun _ h => hv.trans h) fun _ h => hv.trans h
  cases hp : w.peer with
  | none => simpa only [retransmitPending,hp] using .refl _ w
  | some peer =>
    simp only [retransmitPending,hp]
    refine foldlM_ends hround _ _ ?_
    exact hsend peer _ { w with
      peer := some peer
      pending := (sweep env w.clockReads w.pending).1.kept
      clockReads := (sweep env w.clockReads w.pending).2 }

theorem retransmitPending_writes (w : Worker) :
    Ends (Sends w) (Sends w) (w.retransmitPending env) :=
  retransmitPending_as w (fun _ _ _ _ => rfl) fun _ _ => rfl

/-- The timers of a pass send, queue and give up, and write nothing else. -/
theorem timers_writes (w : Worker) :
    Ends (Writes (fun e => e.isTraffic = true ∨ e.isQueueing = true) w)
      (Writes (fun e => e.isTraffic = true ∨ e.isQueueing = true) w)
      (((beat env w).webcamTimers env).retransmitPending env) := by
  have hbefore : Writes (fun e => e.isTraffic = true ∨ e.isQueueing = true) w
      ((beat env w).webcamTimers env) :=
    ((beat_writes w).mono fun _ => .inl).trans ((webcamTimers_writes _).mono fun _ => .inr)
  exact (retransmitPending_writes _).mono (fun _ h => hbefore.trans (h.mono fun _ => .inl))
    fun _ h => hbefore.trans (h.mono fun _ => .inl)

theorem timers_unmarked (w : Worker) :
    Ends (Unmarked w) (Unmarked w) (((beat env w).webcamTimers env).retransmitPending env) := by
  have hmark {v : Worker} (h : Writes (fun e => e.isTraffic = true ∨ e.isQueueing = true) w v) :
      Unmarked w v :=
    h.mono fun _ he => he.elim Entry.isTraffic_unmarked Entry.isQueueing_unmarked
  exact (timers_writes w).mono (fun _ => hmark) fun _ => hmark

end Written

section Events

/-- A command gives an event, and what it does besides is no more than to queue. -/
structure Reports (w : Worker) (r : Option Event × Worker) : Prop where
  event : ∃ e, r.1 = some e ∧ e.isReport = true
  seen : r.2.seen = w.seen
  live : w.receiver = none → r.2.receiver = none
  writes : Writes (fun e => e.isQueueing = true) w r.2

theorem Reports.event_only (w : Worker) (e : Event) (he : e.isReport = true) : Reports w (some e,w) :=
  ⟨⟨e,rfl,he⟩,rfl,id,.refl _ w⟩

theorem Reports.ite {b : Prop} [Decidable b] {r s : Option Event × Worker} (hr : b → Reports w r)
    (hs : ¬b → Reports w s) : Reports w (if b then r else s) :=
  iteInduction (motive := Reports w) hr hs

@[simp] theorem evict_seen (w : Worker) : w.evict.seen = w.seen := by
  obtain ⟨pending,r,xs,-,he⟩ := evict_eq w
  rw [he]

theorem requestWebcamFramePaced_seen (w : Worker) : (w.requestWebcamFramePaced env).seen = w.seen := by
  obtain ⟨n,hpaced|hpaced⟩ := requestWebcamFramePaced_eq env w
  · let v := { w with
      clockReads := w.clockReads+n+1, lastWebcamRequest := some (env.clock (w.clockReads+n)) }
    obtain ⟨m,d,hstamp,-⟩ := stamp_eq env v (Command.new REQUEST_FRAME "" 0)
    rw [hpaced]
    simp only [sendWebcamRequest,now,queueCommand]
    rw [hstamp]
    exact evict_seen { v with wallReads := v.wallReads+m }
  · rw [hpaced]

theorem handleStreamChange_reports (w : Worker) (extra : String) :
    Reports w (some (w.handleStreamChange env extra).1,(w.handleStreamChange env extra).2) := by
  rw [handleStreamChange]
  generalize (StdText.trim extra.toList == "true".toList) = available
  cases available with
  | true =>
    exact ⟨⟨_,rfl,rfl⟩,requestWebcamFramePaced_seen { w with webcamAvailable := true },
      (requestWebcamFramePaced_requests { w with webcamAvailable := true }).live,
      requestWebcamFramePaced_writes { w with webcamAvailable := true }⟩
  | false => exact ⟨⟨_,rfl,rfl⟩,rfl,id,.refl _ w⟩

theorem commandEvent_reports (hframe : isFrameCommand c = false) (w : Worker) :
    Reports w (w.commandEvent env c) := by
  obtain ⟨hbegin,hchunk⟩ : c.name ≠ RECEIVE_FRAME_BEGIN ∧ c.name ≠ RECEIVE_FRAME_CHUNK := by
    simpa [isFrameCommand] using hframe
  unfold commandEvent
  iterate 10 refine .ite (fun _ => .event_only w _ rfl) fun _ => ?_
  refine .ite (fun _ => handleStreamChange_reports w _) fun _ => ?_
  refine .ite (fun h => absurd h hbegin) fun _ => .ite (fun h => absurd h hchunk) fun _ => ?_
  exact .event_only w _ rfl

end Events

/-- A command that is neither an ack nor part of a frame. -/
def IsNote (c : Command) : Prop := c.acknowledged = false ∧ isFrameCommand c = false

instance (c : Command) : Decidable (IsNote c) := inferInstanceAs (Decidable (_ ∧ _))

/-- What tells one notification from another. -/
def noteKey (c : Command) : String × Int64 := (c.name,c.timestamp)

section Handling

theorem handleCommand_duplicate (env : Env) (src : SocketAddr) (hc : IsNote c)
    (hk : noteKey c ∈ w.seen) :
    w.handleCommand env c src = .ok (w.sendTo src (.command (Command.ackOf c))) := by
  have hseen : (w.sendTo src (.command (Command.ackOf c))).seen.contains (c.name,c.timestamp) = true :=
    List.contains_iff_mem.mpr hk
  simp only [handleCommand,hc.1,hc.2,hseen,Bool.false_eq_true,if_false,Bool.not_false,Bool.true_and,
    if_true]

/-- The ack first, then the key, then what the event needs, then the event. -/
theorem handleCommand_fresh (env : Env) (src : SocketAddr) (hc : IsNote c)
    (hk : noteKey c ∉ w.seen) :
    ∃ e u, e.isReport = true ∧ u.seen = (w.acceptKey (noteKey c)).seen ∧
      (w.receiver = none → u.receiver = none) ∧
      Writes (fun e => e.isQueueing = true) (w.sendTo src (.command (Command.ackOf c))) u ∧
      w.handleCommand env c src = u.send e := by
  have hnew : (c.name,c.timestamp) ∉ w.seen := hk
  have hseen : (w.sendTo src (.command (Command.ackOf c))).seen.contains (c.name,c.timestamp) = false := by
    simpa [sendTo,note] using hnew
  obtain ⟨⟨e,he,hreport⟩,hkeep,hlive,hwrites⟩ : Reports
      ((w.sendTo src (.command (Command.ackOf c))).acceptKey (noteKey c)) (commandEvent env _ c) :=
    commandEvent_reports hc.2 _
  refine ⟨e,_,hreport,hkeep,hlive,hwrites,?_⟩
  simp only [handleCommand,hc.1,hc.2,hseen,Bool.false_eq_true,if_false,Bool.not_false,Bool.true_and]
  rw [noteKey] at he ⊢
  generalize commandEvent env _ c = r at he ⊢
  obtain ⟨event,u⟩ := r
  obtain rfl : event = some e := he
  rfl

theorem handleCommand_unmarked (w : Worker) (c : Command) (src : SocketAddr) :
    Ends (Unmarked w) (Unmarked w) (w.handleCommand env c src) := by
  have hqueue {u v : Worker} (h : Writes (fun e => e.isQueueing = true) u v) : Unmarked u v :=
    h.mono fun _ => Entry.isQueueing_unmarked
  have hsent : Unmarked w (w.sendTo src (.command (Command.ackOf c))) := writes_one rfl rfl
  by_cases hack : c.acknowledged = true
  · have hretire : Unmarked w (w.retire c) := by
      refine (retire_writes w c).mono fun e he => ?_
      obtain ⟨p,-,-,rfl⟩ := he
      rfl
    simp only [handleCommand,if_pos hack,handleAck]
    split
    · exact hretire.trans (hqueue (queueCommand_writes _ .worker _))
    · exact hretire
  · have hnack : c.acknowledged = false := by simpa using hack
    cases hframe : isFrameCommand c with
    | false =>
      by_cases hk : noteKey c ∈ w.seen
      · rw [handleCommand_duplicate env src ⟨hnack,hframe⟩ hk]
        exact hsent
      · obtain ⟨e,u,he,-,-,hu,hrun⟩ := handleCommand_fresh env src ⟨hnack,hframe⟩ hk
        rw [hrun]
        have hsend : Ends (Unmarked u) (Unmarked u) (u.send e) :=
          emit_writes (Event.isReport_unmarked he) rfl
        exact hsend.mono (fun _ h => (hsent.trans (hqueue hu)).trans h)
          fun _ h => (hsent.trans (hqueue hu)).trans h
    | true =>
      rw [handleCommand_frame hframe hnack]
      by_cases hname : c.name = RECEIVE_FRAME_BEGIN
      · rw [commandEvent_begin hname]
        refine hsent.trans ?_
        simp only [handleFrameBegin]
        split
        · exact .refl _ _
        · exact .refl _ _
      · have hchunk : c.name = RECEIVE_FRAME_CHUNK := by simpa [isFrameCommand,hname] using hframe
        have hu : Unmarked _ ((w.sendTo src (.command (Command.ackOf c))).handleFrameChunk env c.extra).2 :=
          hqueue (handleFrameChunk_writes _ c.extra)
        have he := handleFrameChunk_event env (w.sendTo src (.command (Command.ackOf c))) c.extra
        rw [commandEvent_chunk hchunk]
        generalize (w.sendTo src (.command (Command.ackOf c))).handleFrameChunk env c.extra = r at hu he
        obtain ⟨event,u⟩ := r
        cases event with
        | none => exact hsent.trans hu
        | some e =>
          have hsend : Ends (Unmarked u) (Unmarked u) (u.send e) := emit_writes (he e rfl) rfl
          exact hsend.mono (fun _ h => (hsent.trans hu).trans h) fun _ h => (hsent.trans hu).trans h

end Handling

/-- The reports sent from one state to another. -/
def reported (w w' : Worker) : List Event := (emitted w w').filter Event.isReport

/-- The datagrams handed to the socket from one state to another. -/
def handedOver (w w' : Worker) : List (SocketAddr × Packet) :=
  (w'.log.drop w.log.length).filterMap Entry.datagram?

/-- How a notification is handled where `keys` are those accepted before in its session: one ack,
and one report unless its key is among the last 64. A receiver that is gone takes no report. -/
structure Delivery (keys : List (String × Int64)) (w : Worker) (c : Command) (src : SocketAddr)
    (r : Except Worker Worker) : Prop where
  answered : handedOver w (final r) = [(src,.command { c with acknowledged := true, extra := "" })]
  reports : ∀ w', r = .ok w' → ((reported w w').length = 1 ↔ noteKey c ∉ keys.rtake 64)
  duplicate : noteKey c ∈ keys.rtake 64 → r = .ok (final r) ∧ emitted w (final r) = []
  stopped : ∀ w', r = .error w' → w.receiver ≠ none ∧ reported w w' = []

section Windows

variable {α : Type} {k : α} {keys older newer : List α}

theorem rtake_snoc (n : ℕ) (keys : List α) (k : α) :
    (keys ++ [k]).rtake n = if n < (keys.rtake n ++ [k]).length then (keys.rtake n ++ [k]).tail
      else keys.rtake n ++ [k] := by
  rcases Nat.lt_or_ge keys.length n with hlt|hge
  · have hall : keys.rtake n = keys := by
      rw [List.rtake,Nat.sub_eq_zero_of_le (Nat.le_of_lt hlt),List.drop_zero]
    have hlen : ¬n < (keys ++ [k]).length := by
      simp only [List.length_append,List.length_singleton]
      omega
    rw [hall,if_neg hlen,List.rtake,Nat.sub_eq_zero_of_le (Nat.not_lt.mp hlen),List.drop_zero]
  · have hlen : (keys.rtake n ++ [k]).length = n+1 := by
      simp only [List.rtake,List.length_append,List.length_drop,List.length_singleton]
      omega
    have hcut : (keys ++ [k]).length-n = keys.length-n+1 := by
      simp only [List.length_append,List.length_singleton]
      omega
    rw [if_pos (by omega),List.rtake,hcut,List.tail_drop.symm,List.rtake]
    congr 1
    rw [List.drop_append_of_le_length (by omega)]

/-- With fewer than `n` elements behind it, an element is among the last `n`. -/
theorem mem_rtake {n : ℕ} (h : newer.length < n) : k ∈ (older ++ k :: newer).rtake n := by
  have hcut : (older ++ k :: newer).length-n ≤ older.length := by
    simp only [List.length_append,List.length_cons]
    omega
  rw [List.rtake,List.drop_append_of_le_length hcut]
  exact List.mem_append_right _ List.mem_cons_self

theorem mem_of_mem_rtake {n : ℕ} (h : k ∈ keys.rtake n) : k ∈ keys := List.mem_of_mem_drop h

end Windows

section Delivery

variable {keys : List (String × Int64)} {xs : List Entry}

theorem queueing_datagrams (hx : ∀ e ∈ xs, e.isQueueing = true) : xs.filterMap Entry.datagram? = [] := by
  refine List.filterMap_eq_nil_iff.mpr fun e he => ?_
  have hq := hx e he
  cases e <;> first | rfl | exact absurd hq Bool.false_ne_true

theorem queueing_reports (hx : ∀ e ∈ xs, e.isQueueing = true) :
    (xs.filterMap Entry.event?).filter Event.isReport = [] := by
  refine List.filter_eq_nil_iff.mpr fun e he => ?_
  obtain ⟨x,hmem,hev⟩ := List.mem_filterMap.mp he
  have hq := hx x hmem
  cases x with
  | dropped id name cause =>
    obtain rfl := Option.some.inj hev
    exact Bool.false_ne_true
  | event => exact absurd hq Bool.false_ne_true
  | _ => exact absurd hev.symm (Option.some_ne_none e)

/-- Behind the ack comes what queues, and behind that perhaps the report. -/
theorem written_by_note (w w' : Worker) (src : SocketAddr) (c : Command) (xs ys : List Entry)
    (hx : ∀ e ∈ xs, e.isQueueing = true)
    (hlog : w'.log = (w.sendTo src (.command (Command.ackOf c))).log ++ xs ++ ys)
    (hy : ys.filterMap Entry.datagram? = []) :
    handedOver w w' = [(src,.command { c with acknowledged := true, extra := "" })] ∧
      reported w w' = (ys.filterMap Entry.event?).filter Event.isReport := by
  have hnew : w'.log.drop w.log.length = [.sent src (.command (Command.ackOf c))] ++ xs ++ ys := by
    rw [hlog,sendTo,note,List.append_assoc,List.append_assoc,List.drop_left,List.append_assoc]
  constructor
  · rw [handedOver,hnew,List.filterMap_append,List.filterMap_append,queueing_datagrams hx,hy]
    rfl
  · rw [reported,emitted,hnew,List.filterMap_append,List.filterMap_append,List.filter_append,
      List.filter_append,queueing_reports hx]
    rfl

theorem delivery (env : Env) (src : SocketAddr) (hc : IsNote c) (hs : w.seen = keys.rtake 64) :
    Delivery keys w c src (w.handleCommand env c src) := by
  by_cases hk : noteKey c ∈ keys.rtake 64
  · have hrun := handleCommand_duplicate env src hc (hs ▸ hk)
    obtain ⟨hsent,hreport⟩ := written_by_note w (w.sendTo src (.command (Command.ackOf c))) src c
      [] [] (by simp) (by simp) rfl
    rw [hrun]
    refine ⟨hsent,fun w' h => ?_,fun _ => ⟨rfl,?_⟩,fun w' h => by cases h⟩
    · obtain rfl := Except.ok.inj h
      rw [hreport]
      exact ⟨fun h => absurd h (by decide),fun h => absurd hk h⟩
    · rw [final,emitted,sendTo,note,List.drop_left]
      rfl
  · obtain ⟨e,u,he,-,hlive,⟨xs,hlog,hx⟩,hrun⟩ := handleCommand_fresh env src hc (hs ▸ hk)
    rw [hrun,send]
    rcases emit_cases u (.event e) with ⟨r,-,hemit⟩|⟨hgone,hemit⟩
    · obtain ⟨hsent,hreport⟩ := written_by_note w { u.note (.event e) with receiver := r } src c
        xs [.event e] hx (by rw [← hlog]; rfl) rfl
      rw [hemit]
      refine ⟨hsent,fun w' h => ?_,fun h => absurd h hk,fun w' h => by cases h⟩
      obtain rfl := Except.ok.inj h
      have hone : ([Entry.event e].filterMap Entry.event?).filter Event.isReport = [e] := by
        simp [Entry.event?,he]
      rw [hreport,hone]
      exact ⟨fun _ => hk,fun _ => rfl⟩
    · obtain ⟨hsent,hreport⟩ := written_by_note w u src c xs [] hx
        (by rw [hlog,List.append_nil]) rfl
      rw [hemit]
      refine ⟨hsent,fun w' h => (by cases h),fun h => absurd h hk,fun w' h => ?_⟩
      obtain rfl := Except.error.inj h
      exact ⟨fun hr => absurd ((hlive hr).symm.trans hgone) (Option.some_ne_none 0).symm,hreport⟩

end Delivery

section Sessions

/-- The entries that stop a worker from talking to a peer. -/
def Entry.closes : Entry → Bool
  | .event .disconnected | .event (.peerBusy _) => true
  | _ => false

/-- The part of a pass of the loop behind the reception. -/
def windUp (env : Env) (w : Worker) : Except Worker Worker := do
  let w ← checkTimeout env w
  ((beat env w).webcamTimers env).retransmitPending env

def Worker.Intake.worker : Intake → Worker
  | .done w => w
  | .packet _ w => w

variable {good : Worker → Packet → Prop} {keys : List (String × Int64)} {xs : List Entry}

theorem Entry.isMark_closes {e : Entry} (h : e.isMark = false) : e.closes = false := by
  cases e with
  | event e => cases e <;> first | rfl | exact h
  | _ => rfl

theorem sessionOf_unmarked {log : List Entry} (hx : ∀ e ∈ xs, e.isMark = false) :
    sessionOf (log ++ xs) = sessionOf log := by
  induction xs using List.reverseRecOn with
  | nil => rw [List.append_nil]
  | append_singleton xs e ih =>
    have he : e.isMark = false := hx e (by simp)
    rw [← List.append_assoc,sessionOf_snoc,ih fun x h => hx x (by simp [h])]
    cases e with
    | event e => cases e <;> first | rfl | exact absurd he.symm Bool.false_ne_true
    | _ => rfl

theorem Writes.peer (h : Unmarked w w') (hw : SessionInv w) (hw' : SessionInv w') :
    w'.peer = w.peer := by
  obtain ⟨xs,hlog,hx⟩ := h
  rw [← hw'.session,hlog,sessionOf_unmarked hx,hw.session]

/-- Without a notification, only the end of a session touches the accepted keys. -/
theorem Move.keeps (hno : ∀ v c, good v (.command c) → ¬IsNote c) (hm : Move env good w w') :
    ∃ xs, w'.log = w.log ++ xs ∧ (.event .disconnected ∉ xs → w'.seen = w.seen) := by
  cases hm with
  | book => exact ⟨[],(List.append_nil _).symm,fun _ => rfl⟩
  | webcam => exact ⟨[],(List.append_nil _).symm,fun _ => rfl⟩
  | accept peer c hp hok hack hframe =>
    obtain ⟨v,hv⟩ := hok
    exact absurd ⟨hack,hframe⟩ (hno v c hv)
  | disconnect =>
    refine ⟨(w.pending.map fun p => .discarded p.id) ++ [.event .disconnected],?_,fun h => ?_⟩
    · simp [note,dropPeer]
    · exact absurd (List.mem_append_right _ List.mem_cons_self) h
  | queue origin command =>
    obtain ⟨xs,hlog,-⟩ := push_writes w origin command
    exact ⟨xs,hlog,fun _ => evict_seen w⟩
  | restart peer c command =>
    obtain ⟨xs,hxs,-⟩ := retire_writes w c
    obtain ⟨ys,hys,-⟩ := push_writes (w.retire c) .worker command
    exact ⟨xs ++ ys,by rw [hys,hxs,List.append_assoc],fun _ => evict_seen (w.retire c)⟩
  | _ => exact ⟨_,rfl,fun _ => rfl⟩

theorem Moves.keeps (hno : ∀ v c, good v (.command c) → ¬IsNote c) (h : Moves env good w w') :
    ∃ xs, w'.log = w.log ++ xs ∧ (.event .disconnected ∉ xs → w'.seen = w.seen) := by
  induction h with
  | refl => exact ⟨[],(List.append_nil _).symm,fun _ => rfl⟩
  | tail _ hm ih =>
    obtain ⟨xs,hxs,hx⟩ := ih
    obtain ⟨ys,hys,hy⟩ := hm.keeps hno
    refine ⟨xs ++ ys,by rw [hys,hxs,List.append_assoc],fun h => ?_⟩
    rw [hy fun hm => h (List.mem_append_right _ hm),hx fun hm => h (List.mem_append_left _ hm)]

theorem Moves.seen (hno : ∀ v c, good v (.command c) → ¬IsNote c) (h : Moves env good w w')
    (hclose : Writes (fun e => e.closes = false) w w') : w'.seen = w.seen := by
  obtain ⟨xs,hxs,hx⟩ := Moves.keeps hno h
  obtain ⟨ys,hys,hy⟩ := hclose
  obtain rfl := List.append_cancel_left (hxs.symm.trans hys)
  exact hx fun hmem => absurd (hy _ hmem).symm Bool.false_ne_true

theorem Moves.sessionInv (h : Moves env good w w') (hw : SessionInv w) : SessionInv w' :=
  Moves.keep (fun _ _ => Move.session) hw h

/-- A busy reply pauses a worker without a peer. -/
structure Busy (w : Worker) (src : SocketAddr) (v : Worker) : Prop where
  log : v.log = w.log ++ [.event (.peerBusy src)]
  before : w.peer = none
  peer : v.peer = none
  discovering : v.discovering = false
  webcamAvailable : v.webcamAvailable = w.webcamAvailable
  webcamPendingRequest : v.webcamPendingRequest = w.webcamPendingRequest

theorem requestOverview_writes (w : Worker) :
    Writes (fun e => e.isQueueing = true) w (w.requestOverview env) := by
  rw [requestOverview]
  exact ((queueCommand_writes w .worker _).trans (queueCommand_writes _ .worker _)).trans
    (queueCommand_writes _ .worker _)

theorem latch_admits (env : Env) (w : Worker) (packet : Packet) (src : SocketAddr)
    (hp : w.peer = none) :
    Ends (fun r => Writes (fun e => e.closes = false) w r.worker ∨ ∃ v, r = .done v ∧ Busy w src v)
      (Writes (fun e => e.closes = false) w) (w.latch env packet src) := by
  by_cases hbusy : isBusyReply packet = true
  · simp only [latch,if_pos hbusy,send]
    rcases emit_cases { w with discovering := false } (.event (.peerBusy src)) with ⟨r,-,hemit⟩|⟨-,hemit⟩
    · rw [hemit]
      exact .inr ⟨_,rfl,rfl,hp,hp,rfl,rfl,rfl⟩
    · rw [hemit]
      exact .refl _ w
  · simp only [latch,if_neg hbusy,send]
    rcases emit_cases { w with peer := some src } (.event (.connected src)) with ⟨r,-,hemit⟩|⟨-,hemit⟩
    · rw [hemit]
      have hconnect : Writes (fun e => e.closes = false) w
          { { w with peer := some src }.note (.event (.connected src)) with receiver := r } :=
        writes_one rfl rfl
      exact .inl (hconnect.trans ((requestOverview_writes _).mono
        fun _ he => Entry.isMark_closes (Entry.isQueueing_unmarked he)))
    · rw [hemit]
      exact .refl _ w

/-- Besides a busy reply, nothing that comes in ends a session or refuses one. -/
theorem intake_admits (env : Env) (w : Worker) (data : List UInt8) (src : SocketAddr) :
    Ends (fun r => Writes (fun e => e.closes = false) w r.worker ∨ ∃ v, r = .done v ∧ Busy w src v)
      (Writes (fun e => e.closes = false) w) (w.intake env data src) := by
  have hnotice (v : Worker) (text : String) (hv : v.log = w.log) :
      Ends (fun r : Intake => Writes (fun e => e.closes = false) w r.worker ∨
          ∃ v, r = .done v ∧ Busy w src v)
        (Writes (fun e => e.closes = false) w) (Intake.done <$> v.send (.protocolError text)) :=
    Ends.map (emit_writes (P := fun e => e.closes = false) rfl hv) fun _ h => .inl h
  unfold intake
  split
  · exact hnotice w _ rfl
  · split
    · exact .inl (.refl _ w)
    · have hlog : { w with clockReads := w.clockReads+1, lastRx := env.clock w.clockReads }.log = w.log := rfl
      have hpeer : { w with clockReads := w.clockReads+1, lastRx := env.clock w.clockReads }.peer =
        w.peer := rfl
      have hbusy {v : Worker} (h : Busy { w with
          clockReads := w.clockReads+1, lastRx := env.clock w.clockReads } src v) : Busy w src v :=
        ⟨h.log,h.before,h.peer,h.discovering,h.webcamAvailable,h.webcamPendingRequest⟩
      simp only [now]
      generalize { w with clockReads := w.clockReads+1, lastRx := env.clock w.clockReads } = u at *
      have hwrites {v : Worker} (h : Writes (fun e => e.closes = false) u v) :
          Writes (fun e => e.closes = false) w v := by rwa [Writes,← hlog]
      split
      · exact hnotice u _ hlog
      · rename_i packet _
        cases hp : u.peer with
        | none =>
          have hnone : w.peer = none := hpeer.symm.trans hp
          simp only [hnone,Option.isNone_none,if_true]
          refine (latch_admits env u packet src hp).mono (fun r h => ?_) fun _ h => hwrites h
          rcases h with h|⟨v,hr,hv⟩
          · exact .inl (hwrites h)
          · exact .inr ⟨v,hr,hbusy hv⟩
        | some peer =>
          have hsome : w.peer = some peer := hpeer.symm.trans hp
          simp only [hsome,Option.isNone_some,Bool.false_eq_true,if_false]
          exact .inl (hwrites (.refl _ u))

/-- The timers change nothing of the session. -/
theorem timers_keep (hw : SessionInv w)
    (h : ((beat env w).webcamTimers env).retransmitPending env = .ok w') :
    SessionInv w' ∧ Unmarked w w' ∧ w'.peer = w.peer ∧ w'.seen = w.seen := by
  have hmoves : Moves env (fun _ _ => False) w w' := by
    have hfollows : Follows env (fun _ _ => False) w
        (((beat env w).webcamTimers env).retransmitPending env) :=
      Follows.trans ((beat_moves w).trans (webcamTimers_moves _)) (retransmitPending_follows _)
    rwa [h] at hfollows
  have hwrites : Unmarked w w' := by
    have htimers : Ends _ _ (((beat env w).webcamTimers env).retransmitPending env) := timers_unmarked w
    rw [h] at htimers
    exact htimers
  have hinv := Moves.sessionInv hmoves hw
  exact ⟨hinv,hwrites,hwrites.peer hw hinv,
    Moves.seen (fun _ _ hf => hf.elim) hmoves (hwrites.mono fun _ => Entry.isMark_closes)⟩

/-- The timeout ends the session, or it only reads the clock. -/
theorem checkTimeout_keeps (hw : SessionInv w) (h : checkTimeout env w = .ok w') :
    SessionInv w' ∧ (w'.peer = none ∨ Unmarked w w' ∧ w'.peer = w.peer ∧ w'.seen = w.seen) := by
  have hinv : SessionInv w' := by
    have hfollows : Follows env (fun _ _ => False) w (checkTimeout env w) := checkTimeout_follows w
    rw [h] at hfollows
    exact Moves.sessionInv hfollows hw
  refine ⟨hinv,?_⟩
  cases hp : w.peer with
  | none =>
    obtain rfl : w = w' := by simpa [checkTimeout,hp] using h
    exact .inl hp
  | some peer =>
    simp only [checkTimeout,hp,Option.isSome_some,if_true,elapsed] at h
    split at h
    · rw [send] at h
      rcases emit_cases { w with clockReads := w.clockReads+1 }.dropPeer (.event .disconnected) with
        ⟨r,-,hemit⟩|⟨-,hemit⟩
      · rw [← Except.ok.inj (hemit.symm.trans h)]
        exact .inl rfl
      · cases hemit.symm.trans h
    · rw [← Except.ok.inj h]
      exact .inr ⟨.refl _ w,rfl,rfl⟩

/-- Behind the reception a session may end, else nothing of it changes. -/
theorem windUp_keeps (hw : SessionInv w) (h : windUp env w = .ok w') :
    SessionInv w' ∧ (w'.peer = none ∨ Unmarked w w' ∧ w'.peer = w.peer ∧ w'.seen = w.seen) := by
  obtain ⟨v,hcheck,hrun⟩ := bind_eq_ok.mp h
  obtain ⟨hv,hkept⟩ := checkTimeout_keeps hw hcheck
  obtain ⟨hinv,hwrites,hpeer,hseen⟩ := timers_keep hv hrun
  refine ⟨hinv,?_⟩
  rcases hkept with hend|⟨hread,hsame,hkeys⟩
  · exact .inl (hpeer.trans hend)
  · exact .inr ⟨hread.trans hwrites,hpeer.trans hsame,hseen.trans hkeys⟩

theorem dispatch_unmarked (env : Env) (w : Worker) (packet : Packet) (src : SocketAddr) :
    Ends (Unmarked w) (Unmarked w) (w.dispatch env packet src) := by
  have hstate (state : RobotState) : Ends (Unmarked w) (Unmarked w) (w.updateRobotState state) := by
    rw [updateRobotState]
    split
    · exact .refl _ w
    · exact emit_writes rfl rfl
  cases packet with
  | heartbeat hb => exact hstate hb.robotState
  | telemetry t =>
    refine Ends.bind (hstate t.robotState) fun v hv => ?_
    have hsend : Ends (Unmarked v) (Unmarked v) (v.send (.telemetry t)) := emit_writes rfl rfl
    exact hsend.mono (fun _ h => hv.trans h) fun _ h => hv.trans h
  | command c => exact handleCommand_unmarked w c src
  | peerDiscovery => exact .refl _ w
  | gamepad => exact .refl _ w
  | keepAlive => exact .refl _ w

theorem receive_follows (w : Worker) (r : Received) :
    Follows env (fun _ _ => True) w (receive env w r) := by
  cases r with
  | datagram data src => exact handleDatagram_follows w data src fun _ _ _ => trivial
  | timedOut => exact .refl
  | failed error => exact Follows.emit rfl rfl (.notice w _)

/-- The key a step accepts: that of a notification whose handling gave its report. -/
def acceptedKeys (env : Env) (w : Worker) : Input → List (String × Int64)
  | .socket (.datagram data src) =>
    match w.intake env data src with
    | .ok (.packet (.command c) v) =>
      if IsNote c ∧ reported v (final (v.handleCommand env c src)) ≠ [] then [noteKey c] else []
    | _ => []
  | _ => []

@[simp] theorem acceptedKeys_control (env : Env) (w : Worker) (c : Control) :
    acceptedKeys env w (.control c) = [] := rfl

@[simp] theorem acceptedKeys_timedOut (env : Env) (w : Worker) :
    acceptedKeys env w (.socket .timedOut) = [] := rfl

@[simp] theorem acceptedKeys_failed (env : Env) (w : Worker) (error : String) :
    acceptedKeys env w (.socket (.failed error)) = [] := rfl

/-- The keys accepted in the session that a run ends in, `keys` being those before the run. -/
def sessionKeys (env : Env) : Worker → List (String × Int64) → List Input → List (String × Int64)
  | _, keys, [] => keys
  | w, keys, i :: is =>
    match step env w i with
    | .error _ => keys
    | .ok w' => sessionKeys env w' (if w'.peer = none then [] else keys ++ acceptedKeys env w i) is

/-- A notification that gives its report has its key accepted. -/
theorem note_keys (hs : w.seen = keys.rtake 64) (hc : IsNote c) (h : w.handleCommand env c src = .ok w') :
    w'.seen = (keys ++ if IsNote c ∧ reported w w' ≠ [] then [noteKey c] else []).rtake 64 := by
  have hlaw := delivery env src hc hs
  by_cases hk : noteKey c ∈ w.seen
  · have hnone : ¬(IsNote c ∧ reported w w' ≠ []) := by
      rintro ⟨-,hreport⟩
      obtain ⟨-,hnothing⟩ := hlaw.duplicate (hs ▸ hk)
      rw [h] at hnothing
      rw [reported] at hreport
      simp [final] at hnothing
      simp [hnothing] at hreport
    rw [handleCommand_duplicate env src hc hk] at h
    rw [if_neg hnone,List.append_nil,← hs,← Except.ok.inj h]
    rfl
  · have hone : IsNote c ∧ reported w w' ≠ [] := by
      refine ⟨hc,fun hnil => ?_⟩
      have hlen := (hlaw.reports w' h).mpr (hs ▸ hk)
      rw [hnil] at hlen
      exact absurd hlen (by decide)
    obtain ⟨e,u,-,hseen,-,-,hrun⟩ := handleCommand_fresh env src hc hk
    rw [if_pos hone,rtake_snoc,← hs]
    rw [hrun,send] at h
    rcases emit_cases u (.event e) with ⟨r,-,hemit⟩|⟨-,hemit⟩
    · rw [← Except.ok.inj (hemit.symm.trans h)]
      exact hseen
    · cases hemit.symm.trans h

theorem dispatch_seen {p : Packet} (hp : w.peer = some src)
    (hno : ∀ c, p = .command c → ¬IsNote c) (h : w.dispatch env p src = .ok w') : w'.seen = w.seen := by
  have hmoves : Moves env (fun _ q => q = p) w w' := by
    have hfollows : Follows env (fun _ q => q = p) w (w.dispatch env p src) :=
      dispatch_follows w p hp rfl
    rwa [h] at hfollows
  have hwrites : Unmarked w w' := by
    have hdispatch := dispatch_unmarked env w p src
    rwa [h] at hdispatch
  exact Moves.seen (fun _ c hc => hno c hc.symm) hmoves (hwrites.mono fun _ => Entry.isMark_closes)

theorem receive_keys (hw : SessionInv w) (hs : w.seen = keys.rtake 64) (r : Received)
    (h : receive env w r = .ok w') : w'.seen = (keys ++ acceptedKeys env w (.socket r)).rtake 64 := by
  cases r with
  | timedOut => rw [acceptedKeys_timedOut,List.append_nil,← hs,Except.ok.inj h]
  | failed error =>
    rw [acceptedKeys_failed,List.append_nil,← hs]
    rw [receive,send] at h
    rcases emit_cases w (.event (.protocolError s!"socket recv failed: {error}")) with
      ⟨r,-,hemit⟩|⟨-,hemit⟩
    · rw [← Except.ok.inj (hemit.symm.trans h)]
      rfl
    · cases hemit.symm.trans h
  | datagram data src =>
    have hends : Ends (Admitted env (fun _ _ => False) w src) (Stopped env (fun _ _ => False) w)
        (w.intake env data src) := intake_ends w data src
    have hadmits := intake_admits env w data src
    have hno : ∀ (v : Worker) (c : Command), False → ¬IsNote c := fun _ _ hf => hf.elim
    simp only [receive,handleDatagram] at h
    cases hin : w.intake env data src with
    | error v =>
      rw [hin] at h
      cases h
    | ok intake =>
      rw [hin] at hends hadmits h
      cases intake with
      | done v =>
        obtain rfl : v = w' := Except.ok.inj h
        have hempty : acceptedKeys env w (.socket (.datagram data src)) = [] := by
          simp only [acceptedKeys,hin]
        rw [hempty,List.append_nil,← hs]
        rcases hadmits with hwrites|⟨u,hu,hbusy⟩
        · exact Moves.seen hno hends hwrites
        · obtain rfl : v = u := by simpa using hu
          have hv := Moves.sessionInv hends hw
          rw [(hv.fresh hbusy.peer).seen,(hw.fresh hbusy.before).seen]
      | packet p v =>
        obtain ⟨hmoves,hpeer⟩ := hends
        have hseen : v.seen = keys.rtake 64 := by
          rcases hadmits with hwrites|⟨u,hu,-⟩
          · exact (Moves.seen hno hmoves hwrites).trans hs
          · cases hu
        have hrun : v.dispatch env p src = .ok w' := h
        by_cases hnote : ∃ c, p = .command c ∧ IsNote c
        · obtain ⟨c,rfl,hc⟩ := hnote
          have hcommand : v.handleCommand env c src = .ok w' := hrun
          simp only [acceptedKeys,hin,hcommand,final]
          exact note_keys hseen hc hcommand
        · have hempty : acceptedKeys env w (.socket (.datagram data src)) = [] := by
            cases p with
            | command c =>
              have hc : ¬IsNote c := fun hc => hnote ⟨c,rfl,hc⟩
              simp only [acceptedKeys,hin,hc,false_and,if_false]
            | _ => simp only [acceptedKeys,hin]
          rw [hempty,List.append_nil,← hseen]
          exact dispatch_seen hpeer (fun c hp hc => hnote ⟨c,hp,hc⟩) hrun

theorem controlStep_seen (c : Control) (h : controlStep env w c = .ok w') :
    w'.peer = none ∨ w'.seen = w.seen := by
  cases c with
  | shutdown => cases h
  | connect => exact .inr (Except.ok.inj h ▸ rfl)
  | sendCommand command =>
    have hmoves : Moves env (fun _ _ => False) w (w.queueCommand env .client command) :=
      queueCommand_moves w .client command fun h => absurd h (by decide)
    rw [← Except.ok.inj h]
    exact .inr (Moves.seen (fun _ _ hf => hf.elim) hmoves ((queueCommand_writes w .client command).mono
      fun _ he => Entry.isMark_closes (Entry.isQueueing_unmarked he)))
  | sendGamepad gamepad =>
    rw [← Except.ok.inj h,transmitGamepad]
    split
    · exact .inr rfl
    · simp only [nextSeq]
      split <;> exact .inr rfl
  | disconnect =>
    simp only [controlStep] at h
    split at h
    · rcases emit_cases { w with discovering := false }.dropPeer (.event .disconnected) with
        ⟨r,-,hemit⟩|⟨-,hemit⟩
      · rw [← Except.ok.inj (hemit.symm.trans h)]
        exact .inl rfl
      · cases hemit.symm.trans h
    · exact .inr (Except.ok.inj h ▸ rfl)

/-- What a worker remembers are the last keys accepted in its session. -/
structure Remembers (keys : List (String × Int64)) (w : Worker) : Prop where
  inv : SessionInv w
  seen : w.seen = keys.rtake 64

theorem step_keys (hw : Remembers keys w) (i : Input) (h : step env w i = .ok w') :
    Remembers (if w'.peer = none then [] else keys ++ acceptedKeys env w i) w' := by
  have hinv : SessionInv w' := by
    have hfollows : Follows env (fun _ _ => True) w (step env w i) :=
      step_follows w i fun _ _ _ => trivial
    rw [h] at hfollows
    exact Moves.sessionInv hfollows hw.inv
  refine ⟨hinv,?_⟩
  by_cases hpeer : w'.peer = none
  · rw [if_pos hpeer,(hinv.fresh hpeer).seen]
    rfl
  rw [if_neg hpeer]
  cases i with
  | control c =>
    rw [acceptedKeys_control,List.append_nil,← hw.seen]
    exact (controlStep_seen c h).resolve_left hpeer
  | socket r =>
    simp only [step,socketStep] at h
    cases hr : receive env w r with
    | error v =>
      rw [hr] at h
      cases h
    | ok v =>
      have hv : SessionInv v := by
        have hfollows : Follows env _ w (receive env w r) := receive_follows w r
        rw [hr] at hfollows
        exact Moves.sessionInv hfollows hw.inv
      rw [hr] at h
      obtain ⟨-,hend|⟨-,-,hsame⟩⟩ := windUp_keeps hv h
      · exact absurd hend hpeer
      · rw [hsame]
        exact receive_keys hw.inv hw.seen r hr

theorem run_keys (hw : Remembers keys w) (inputs : List Input) (h : run env w inputs = .ok w') :
    Remembers (sessionKeys env w keys inputs) w' := by
  induction inputs generalizing w keys with
  | nil =>
    obtain rfl : w = w' := Except.ok.inj h
    exact hw
  | cons i is ih =>
    rw [run,List.foldlM_cons] at h
    cases hr : step env w i with
    | error v =>
      rw [hr] at h
      cases h
    | ok v =>
      rw [hr] at h
      simp only [sessionKeys,hr]
      exact ih (step_keys hw i hr) h

theorem start_remembers (env : Env) (receiver : Option ℕ) : Remembers [] (start env receiver) :=
  ⟨start_session env receiver,rfl⟩

/-- How the worker takes a command that may come from its peer, where `keys` are those accepted
before in the session. -/
structure Notified (env : Env) (keys : List (String × Int64)) (w : Worker) (data : List UInt8)
    (src : SocketAddr) (c : Command) : Prop where
  arrives : w.peer = some src → Packet.parse data = .ok (.command c) →
    ∃ v, w.intake env data src = .ok (.packet (.command c) v)
  delivered : ∀ v, w.intake env data src = .ok (.packet (.command c) v) → IsNote c →
    Delivery keys v c src (receive env w (.datagram data src))
  retransmitted : ∀ v older newer, w.intake env data src = .ok (.packet (.command c) v) → IsNote c →
    keys = older ++ noteKey c :: newer → newer.length < 64 →
      ∃ w', receive env w (.datagram data src) = .ok w' ∧ emitted v w' = []
  fresh : ∀ v w', w.intake env data src = .ok (.packet (.command c) v) → IsNote c →
    noteKey c ∉ keys → receive env w (.datagram data src) = .ok w' → (reported v w').length = 1
  acks : ∀ v, w.intake env data src = .ok (.packet (.command c) v) → c.acknowledged = true →
    handedOver v (final (receive env w (.datagram data src))) = []

theorem intake_connected {data : List UInt8} (hp : w.peer = some src)
    (hdata : Packet.parse data = .ok (.command c)) :
    ∃ v, w.intake env data src = .ok (.packet (.command c) v) := by
  refine ⟨{ w with clockReads := w.clockReads+1, lastRx := env.clock w.clockReads },?_⟩
  simp [intake,hp,now,hdata,Option.filter]

theorem handleAck_handedOver (hack : c.acknowledged = true) :
    handedOver w (final (w.handleCommand env c src)) = [] := by
  obtain ⟨xs,hxs,hx⟩ := retire_writes w c
  have hacked : xs.filterMap Entry.datagram? = [] := by
    refine List.filterMap_eq_nil_iff.mpr fun e he => ?_
    obtain ⟨p,-,-,rfl⟩ := hx e he
    rfl
  simp only [handleCommand,if_pos hack,final,handleAck]
  split
  · obtain ⟨ys,hys,hy⟩ := (queueCommand_writes (w.retire c) .worker _ :
      Writes _ _ ((w.retire c).queueCommand env .worker (Command.new RESTART_ROBOT "" 0)))
    rw [handedOver,hys,hxs,List.append_assoc,List.drop_left,List.filterMap_append,hacked,
      queueing_datagrams hy]
    rfl
  · rw [handedOver,hxs,List.drop_left,hacked]

theorem Remembers.notified (hw : Remembers keys w) (data : List UInt8) (src : SocketAddr) (c : Command) :
    Notified env keys w data src c := by
  have hreceive {v : Worker} (hin : w.intake env data src = .ok (.packet (.command c) v)) :
      receive env w (.datagram data src) = v.handleCommand env c src := by
    simp only [receive,handleDatagram,hin]
    rfl
  have hdelivery (v : Worker) (hin : w.intake env data src = .ok (.packet (.command c) v))
      (hc : IsNote c) : Delivery keys v c src (receive env w (.datagram data src)) := by
    have hadmits := intake_admits env w data src
    have hends : Ends (Admitted env (fun _ _ => False) w src) (Stopped env (fun _ _ => False) w)
        (w.intake env data src) := intake_ends w data src
    rw [hin] at hadmits hends
    rw [hreceive hin]
    refine delivery env src hc ?_
    rcases hadmits with hwrites|⟨u,hu,-⟩
    · exact (Moves.seen (fun _ _ hf => hf.elim) hends.1 hwrites).trans hw.seen
    · cases hu
  refine ⟨intake_connected,hdelivery,fun v older newer hin hc hkeys hnewer => ?_,
    fun v w' hin hc hnew hrun => ?_,fun v hin hack => ?_⟩
  · obtain ⟨hrun,hnothing⟩ := (hdelivery v hin hc).duplicate (hkeys ▸ mem_rtake hnewer)
    exact ⟨_,hrun,hnothing⟩
  · exact ((hdelivery v hin hc).reports w' hrun).mpr fun hk => hnew (mem_of_mem_rtake hk)
  · rw [hreceive hin]
    exact handleAck_handedOver hack

/-- Whatever came before: a notification gives its report if and only if its key is not among the
last 64 accepted in the session, each one is answered by one ack, and no ack is answered. -/
theorem notifications_delivered (env : Env) (receiver : Option ℕ) (inputs : List Input) (w : Worker)
    (h : run env (start env receiver) inputs = .ok w) (data : List UInt8) (src : SocketAddr)
    (c : Command) :
    Notified env (sessionKeys env (start env receiver) [] inputs) w data src c :=
  (run_keys (start_remembers env receiver) inputs h).notified data src c

def runA : Command := ⟨3,7,false,NOTIFY_RUN_OP_MODE,"A"⟩

/-- A robot connects, reports a running OpMode, and repeats the report. -/
def toldTwice : List Input := [fromRobot (.keepAlive {}),fromRobot (.command runA)]

theorem told_once :
    Notified sampleEnv [noteKey runA] (final (run sampleEnv (start sampleEnv none) toldTwice))
      ((Packet.command runA).serialize.getD []) robot runA := by
  have hkeys : sessionKeys sampleEnv (start sampleEnv none) [] toldTwice = [noteKey runA] := by
    decide +kernel
  have hok : (run sampleEnv (start sampleEnv none) toldTwice).isOk = true := by decide +kernel
  rw [← hkeys]
  exact notifications_delivered sampleEnv none toldTwice _ (ok_final hok) _ robot runA

end Sessions

end Client
end Robocol
