import Robocol.WorkerSteps

/-! The frame commands a worker handles, one after the other, and what each does to the table
of partial frames. Between two of them the worker may do anything else. -/
namespace Robocol
namespace Client

open Cmd Runs Relation Worker

/-- What a frame command says, as far as the worker reads it. -/
inductive FrameInput
  | ignored
  | begin (frameNum : ℤ) (length : ℕ)
  | chunk (frameNum : ℤ) (index : ℕ) (bytes : List UInt8)
  deriving DecidableEq

def readFrameCommand (json : Json) (c : Command) : FrameInput :=
  if c.name = RECEIVE_FRAME_BEGIN then
    match beginPayload json c.extra with
    | none => .ignored
    | some (frameNum,length) => .begin frameNum length
  else if c.name = RECEIVE_FRAME_CHUNK then
    match chunkPayload json c.extra with
    | none => .ignored
    | some (frameNum,index,bytes) => .chunk frameNum index bytes
  else .ignored

/-- The frame an input completes, and the table after it. -/
def feed (frames : Frames) : FrameInput → Option (List UInt8) × Frames
  | .ignored => (none,frames)
  | .begin frameNum length => (none,openFrame frames frameNum length)
  | .chunk frameNum index bytes => putChunk frames frameNum index bytes

/-- The worker handles a frame command. -/
def HandlesFrame (env : Env) (w : Worker) (c : Command) (w' : Worker) : Prop :=
  isFrameCommand c = true ∧ c.acknowledged = false ∧ ∃ src, w.handleCommand env c src = .ok w'

/-- The events sent from one state to another. -/
def emitted (w w' : Worker) : List Event := (w'.log.drop w.log.length).filterMap Entry.event?

variable {env : Env} {w w' : Worker} {c : Command} {src : SocketAddr}

section Handling

theorem emitted_append {entries : List Entry} (h : w'.log = w.log ++ entries) :
    emitted w w' = entries.filterMap Entry.event? := by
  rw [emitted,h,List.drop_left]

theorem send_ok {e : Event} (h : w.send e = .ok w') :
    w'.log = w.log ++ [.event e] ∧ w'.webcamFrames = w.webcamFrames := by
  rcases emit_cases w (.event e) with ⟨r,-,hemit⟩|⟨-,hemit⟩
  · obtain rfl := Except.ok.inj (hemit.symm.trans h)
    exact ⟨rfl,rfl⟩
  · cases hemit.symm.trans h

/-- The cap costs the oldest pending command its place. -/
def DropsOldest (w : Worker) (e : Event) : Prop :=
  ∃ p, w.pending.head? = some p ∧ MAX_PENDING_COMMANDS ≤ w.pending.length ∧
    e = .commandDropped p.command.name

/-- The table is as it was, and no event was sent but perhaps that of a dropped command. -/
structure Requests (w w' : Worker) : Prop where
  live : w.receiver = none → w'.receiver = none
  frames : w'.webcamFrames = w.webcamFrames
  log : ∃ entries, w'.log = w.log ++ entries ∧ (entries.filterMap Entry.event? = [] ∨
    ∃ e, DropsOldest w e ∧ entries.filterMap Entry.event? = [e])

theorem evict_requests (w : Worker) : Requests w w.evict := by
  have hlive : w.receiver = none → w.evict.receiver = none := evict_live
  rcases evict_cases w with ⟨he,-⟩|⟨p,rest,e,r,hp,hcap,-,hdrop|⟨hlost,-⟩,he⟩
  · rw [he] at hlive ⊢
    exact ⟨hlive,rfl,[],by rw [List.append_nil],.inl rfl⟩
  · rw [he,hdrop] at hlive ⊢
    exact ⟨hlive,rfl,[_],rfl,.inr ⟨_,⟨p,by rw [hp]; rfl,hcap,rfl⟩,rfl⟩⟩
  · rw [he,hlost] at hlive ⊢
    exact ⟨hlive,rfl,[_],rfl,.inl rfl⟩

theorem push_requests (w : Worker) (origin : Origin) (command : Command) :
    Requests w (w.evict.push origin command) := by
  obtain ⟨hlive,hframes,entries,hlog,hevent⟩ := evict_requests w
  refine ⟨hlive,hframes,entries ++ [.queued w.evict.queuedCount origin command],?_,?_⟩
  · rw [push,hlog,List.append_assoc]
  · have hqueued : (entries ++ [Entry.queued w.evict.queuedCount origin command]).filterMap Entry.event? =
        entries.filterMap Entry.event? := by simp [List.filterMap_append,Entry.event?]
    rwa [hqueued]

theorem sendWebcamRequest_requests (w : Worker) : Requests w (w.sendWebcamRequest env) := by
  let v := { w with clockReads := w.clockReads+1, lastWebcamRequest := some (env.clock w.clockReads) }
  obtain ⟨m,c,hstamp,-⟩ := stamp_eq env v (Command.new REQUEST_FRAME "" 0)
  obtain ⟨hlive,hframes,hlog⟩ := push_requests { v with wallReads := v.wallReads+m } .worker c
  simp only [sendWebcamRequest,now,queueCommand]
  rw [hstamp]
  exact ⟨hlive,hframes,hlog⟩

theorem requestWebcamFramePaced_requests (w : Worker) :
    Requests w (w.requestWebcamFramePaced env) := by
  obtain ⟨n,hpaced|hpaced⟩ := requestWebcamFramePaced_eq env w
  · obtain ⟨hlive,hframes,hlog⟩ := @sendWebcamRequest_requests env { w with clockReads := w.clockReads+n }
    rw [hpaced]
    exact ⟨hlive,hframes,hlog⟩
  · rw [hpaced]
    exact ⟨id,rfl,[],by rw [List.append_nil],.inl rfl⟩

/-- The event a command gives is sent, if it gives one. -/
def deliver (r : Option Event × Worker) : Except Worker Worker := r.1.elim (.ok r.2) r.2.send

theorem handleCommand_frame (hframe : isFrameCommand c = true) (hack : c.acknowledged = false) :
    w.handleCommand env c src =
      deliver ((w.sendTo src (.command (Command.ackOf c))).commandEvent env c) := by
  simp only [handleCommand,hack,hframe,Bool.false_eq_true,if_false,Bool.not_true,Bool.false_and,if_true]
  cases h : (w.sendTo src (.command (Command.ackOf c))).commandEvent env c with
  | mk event v => cases event <;> rfl

theorem commandEvent_begin (hname : c.name = RECEIVE_FRAME_BEGIN) :
    w.commandEvent env c = (none,w.handleFrameBegin env c.extra) := by
  simp [commandEvent,hname,RECEIVE_FRAME_BEGIN,NOTIFY_OP_MODE_LIST,NOTIFY_INIT_OP_MODE,
    NOTIFY_RUN_OP_MODE,NOTIFY_ACTIVE_CONFIGURATION,REQUEST_CONFIGURATIONS_RESP,
    REQUEST_PARTICULAR_CONFIGURATION_RESP,NOTIFY_USER_DEVICE_LIST,SCAN_RESP,
    DISCOVER_LYNX_MODULES_RESP,SHOW_STACKTRACE,STREAM_CHANGE]

theorem commandEvent_chunk (hname : c.name = RECEIVE_FRAME_CHUNK) :
    w.commandEvent env c = w.handleFrameChunk env c.extra := by
  simp [commandEvent,hname,RECEIVE_FRAME_BEGIN,RECEIVE_FRAME_CHUNK,NOTIFY_OP_MODE_LIST,
    NOTIFY_INIT_OP_MODE,NOTIFY_RUN_OP_MODE,NOTIFY_ACTIVE_CONFIGURATION,REQUEST_CONFIGURATIONS_RESP,
    REQUEST_PARTICULAR_CONFIGURATION_RESP,NOTIFY_USER_DEVICE_LIST,SCAN_RESP,
    DISCOVER_LYNX_MODULES_RESP,SHOW_STACKTRACE,STREAM_CHANGE]

theorem readFrameCommand_begin (json : Json) (hname : c.name = RECEIVE_FRAME_BEGIN) :
    readFrameCommand json c = match beginPayload json c.extra with
      | none => .ignored
      | some (frameNum,length) => .begin frameNum length := if_pos hname

theorem readFrameCommand_chunk (json : Json) (hname : c.name = RECEIVE_FRAME_CHUNK) :
    readFrameCommand json c = match chunkPayload json c.extra with
      | none => .ignored
      | some (frameNum,index,bytes) => .chunk frameNum index bytes := by
  have hbegin : c.name ≠ RECEIVE_FRAME_BEGIN := by
    rw [hname]
    decide
  rw [readFrameCommand,if_neg hbegin,if_pos hname]

theorem readFrameCommand_eq_begin {json : Json} {n : ℤ} {L : ℕ} (h : readFrameCommand json c = .begin n L) :
    beginPayload json c.extra = some (n,L) := by
  by_cases hname : c.name = RECEIVE_FRAME_BEGIN
  · rw [readFrameCommand_begin json hname] at h
    cases hb : beginPayload json c.extra with
    | none =>
      rw [hb] at h
      cases h
    | some payload =>
      rw [hb] at h
      obtain ⟨rfl,rfl⟩ := FrameInput.begin.inj h
      rfl
  · by_cases hchunk : c.name = RECEIVE_FRAME_CHUNK
    · rw [readFrameCommand_chunk json hchunk] at h
      cases hc : chunkPayload json c.extra <;> simp [hc] at h
    · rw [readFrameCommand,if_neg hname,if_neg hchunk] at h
      cases h

/-- What a handled frame command does to the table, and which events it gives: that of the frame
it completes, behind the one of a command that the next request costs its place. -/
structure Fed (json : Json) (w : Worker) (c : Command) (w' : Worker) : Prop where
  frames : w'.webcamFrames = (feed w.webcamFrames (readFrameCommand json c)).2
  quiet : (feed w.webcamFrames (readFrameCommand json c)).1 = none → emitted w w' = []
  complete : ∀ data, (feed w.webcamFrames (readFrameCommand json c)).1 = some data →
    emitted w w' = [.webcamFrame data] ∨
      ∃ e, DropsOldest w e ∧ w.webcamAvailable = true ∧ emitted w w' = [e,.webcamFrame data]

theorem Fed.of_quiet {frames : Frames} {packet : Packet}
    (hfeed : feed w.webcamFrames (readFrameCommand env.json c) = (none,frames))
    (hframes : w'.webcamFrames = frames) (hlog : w'.log = w.log ++ [.sent src packet]) :
    Fed env.json w c w' := by
  refine ⟨by rw [hfeed,hframes],fun _ => emitted_append hlog,fun data h => ?_⟩
  rw [hfeed] at h
  exact absurd h (Option.some_ne_none data).symm

theorem Fed.of_complete {frames : Frames} {packet : Packet} {data : List UInt8} {u : Worker}
    {entries : List Entry}
    (hfeed : feed w.webcamFrames (readFrameCommand env.json c) = (some data,frames))
    (hframes : u.webcamFrames = frames) (hlog : u.log = w.log ++ [.sent src packet] ++ entries)
    (hevents : entries.filterMap Entry.event? = [] ∨ ∃ e, DropsOldest w e ∧
      w.webcamAvailable = true ∧ entries.filterMap Entry.event? = [e])
    (h : u.send (.webcamFrame data) = .ok w') : Fed env.json w c w' := by
  obtain ⟨hsend,hsame⟩ := send_ok h
  have happend : w'.log = w.log ++ ([.sent src packet] ++ (entries ++ [.event (.webcamFrame data)])) := by
    rw [hsend,hlog,List.append_assoc,List.append_assoc]
  have hemitted : emitted w w' = entries.filterMap Entry.event? ++ [.webcamFrame data] := by
    rw [emitted_append happend,List.filterMap_append,List.filterMap_append]
    rfl
  refine ⟨by rw [hfeed,hsame,hframes],fun hn => ?_,fun d hd => ?_⟩
  · rw [hfeed] at hn
    exact absurd hn (Option.some_ne_none data)
  · rw [hfeed] at hd
    rw [hemitted,← Option.some.inj hd]
    rcases hevents with he|⟨e,hdrop,hav,he⟩
    · exact .inl (by rw [he]; rfl)
    · exact .inr ⟨e,hdrop,hav,by rw [he]; rfl⟩

theorem handleFrameBegin_fed (hname : c.name = RECEIVE_FRAME_BEGIN) (packet : Packet) :
    Fed env.json w c ((w.sendTo src packet).handleFrameBegin env c.extra) := by
  have hread := readFrameCommand_begin env.json hname
  rw [handleFrameBegin]
  cases hb : beginPayload env.json c.extra with
  | none => exact .of_quiet (by rw [hread,hb]; rfl) rfl rfl
  | some payload => exact .of_quiet (by rw [hread,hb]; rfl) rfl rfl

theorem handleFrameChunk_fed (hname : c.name = RECEIVE_FRAME_CHUNK) (packet : Packet)
    (h : deliver ((w.sendTo src packet).handleFrameChunk env c.extra) = .ok w') :
    Fed env.json w c w' := by
  have hread := readFrameCommand_chunk env.json hname
  cases hb : chunkPayload env.json c.extra with
  | none =>
    simp only [deliver,handleFrameChunk,hb,Option.elim_none,Except.ok.injEq] at h
    subst h
    exact .of_quiet (by rw [hread,hb]; rfl) rfl rfl
  | some payload =>
    obtain ⟨frameNum,index,bytes⟩ := payload
    simp only [hb] at hread
    have hfeed : feed w.webcamFrames (readFrameCommand env.json c) =
        putChunk w.webcamFrames frameNum index bytes := by rw [hread]; rfl
    cases hput : putChunk w.webcamFrames frameNum index bytes with
    | mk complete frames =>
      have hput' : putChunk (w.sendTo src packet).webcamFrames frameNum index bytes =
        (complete,frames) := hput
      cases complete with
      | none =>
        simp only [deliver,handleFrameChunk,hb,hput',Option.elim_none,Except.ok.injEq] at h
        subst h
        exact .of_quiet (hfeed.trans hput) rfl rfl
      | some data =>
        simp only [deliver,handleFrameChunk,hb,hput',Option.elim_some] at h
        by_cases hav : w.webcamAvailable = true
        · have hav' : (w.sendTo src packet).webcamAvailable = true := hav
          rw [if_pos hav'] at h
          obtain ⟨-,hframes,entries,hlog,hevents⟩ : Requests
              { w.sendTo src packet with webcamFrames := frames } _ :=
            requestWebcamFramePaced_requests _
          refine .of_complete (hfeed.trans hput) hframes hlog ?_ h
          rcases hevents with he|⟨e,hdrop,he⟩
          · exact .inl he
          · exact .inr ⟨e,hdrop,hav,he⟩
        · have hav' : ¬(w.sendTo src packet).webcamAvailable = true := hav
          rw [if_neg hav'] at h
          exact .of_complete (hfeed.trans hput) rfl (List.append_nil _).symm (.inl rfl) h

theorem HandlesFrame.fed (h : HandlesFrame env w c w') : Fed env.json w c w' := by
  obtain ⟨hframe,hack,src,hrun⟩ := h
  rw [handleCommand_frame hframe hack] at hrun
  by_cases hname : c.name = RECEIVE_FRAME_BEGIN
  · rw [commandEvent_begin hname] at hrun
    obtain rfl := Except.ok.inj hrun
    exact handleFrameBegin_fed hname _
  · have hchunk : c.name = RECEIVE_FRAME_CHUNK := by simpa [isFrameCommand,hname] using hframe
    rw [commandEvent_chunk hchunk] at hrun
    exact handleFrameChunk_fed hchunk _ hrun

theorem handleFrameChunk_live (env : Env) (hr : w.receiver = none) (extra : String) :
    (w.handleFrameChunk env extra).2.receiver = none := by
  obtain ⟨frames,hnone|⟨data,hshow|⟨-,hask⟩⟩⟩ := handleFrameChunk_eq env w extra
  · rwa [hnone]
  · rwa [hshow]
  · rw [hask]
    exact (requestWebcamFramePaced_requests { w with webcamFrames := frames }).live hr

theorem handleFrameBegin_live (env : Env) (w : Worker) (hr : w.receiver = none) (extra : String) :
    (w.handleFrameBegin env extra).receiver = none := by
  rw [handleFrameBegin]
  split <;> exact hr

theorem handleCommand_live (env : Env) (src : SocketAddr) (hr : w.receiver = none)
    (hframe : isFrameCommand c = true) (hack : c.acknowledged = false) :
    ∃ w', w.handleCommand env c src = .ok w' ∧ w'.receiver = none := by
  have hsend (v : Worker) (e : Event) (hv : v.receiver = none) :
      ∃ w', v.send e = .ok w' ∧ w'.receiver = none := ⟨v.note (.event e),by rw [send,emit,hv],hv⟩
  rw [handleCommand_frame hframe hack]
  by_cases hname : c.name = RECEIVE_FRAME_BEGIN
  · rw [commandEvent_begin hname]
    exact ⟨_,rfl,handleFrameBegin_live env (w.sendTo src (.command (Command.ackOf c))) hr c.extra⟩
  · have hchunk : c.name = RECEIVE_FRAME_CHUNK := by simpa [isFrameCommand,hname] using hframe
    have hsent : (w.sendTo src (.command (Command.ackOf c))).receiver = none := hr
    have hlive := handleFrameChunk_live env hsent c.extra
    rw [commandEvent_chunk hchunk]
    generalize (w.sendTo src (.command (Command.ackOf c))).handleFrameChunk env c.extra = r at hlive
    obtain ⟨event,v⟩ := r
    cases event with
    | none => exact ⟨v,rfl,hlive⟩
    | some e => exact hsend v e hlive

end Handling

theorem handlesFrame_live (env : Env) (src : SocketAddr) (hr : w.receiver = none)
    (hframe : isFrameCommand c = true) (hack : c.acknowledged = false) :
    HandlesFrame env w c (final (w.handleCommand env c src)) := by
  obtain ⟨w',hrun,-⟩ := handleCommand_live env src hr hframe hack
  exact ⟨hframe,hack,src,by rw [hrun]; rfl⟩

/-- What a worker does otherwise, where it does not touch the table. -/
def SameTable (w w' : Worker) : Prop := w'.webcamFrames = w.webcamFrames

section Runs

/-- Whatever else a worker does, it leaves the table as it is or clears it. -/
def Unfed (w w' : Worker) : Prop :=
  w'.webcamFrames = w.webcamFrames ∨ w'.webcamFrames = ∅

theorem Unfed.trans {u : Worker} (h : Unfed w w') (h' : Unfed w' u) : Unfed w u := by
  rcases h' with h'|h'
  · exact h.imp h'.trans h'.trans
  · exact .inr h'

/-- The packets that bring a frame command to handle. -/
def IsFrame (packet : Packet) : Prop :=
  ∃ c, packet = .command c ∧ c.acknowledged = false ∧ isFrameCommand c = true

abbrev NotFrame : Worker → Packet → Prop := fun _ packet => ¬IsFrame packet

theorem Move.unfed (h : Move env NotFrame w w') : Unfed w w' := by
  cases h with
  | disconnect => exact .inr rfl
  | webcam available frames pendingRequest hkeep hf =>
    rcases hf with hf|hf|⟨v,c,hno,hack,hframe⟩
    · exact .inl hf
    · exact .inr hf
    · exact absurd ⟨c,rfl,hack,hframe⟩ hno
  | queue origin command => exact .inl (push_requests w origin command).frames
  | restart peer ack command => exact .inl (push_requests (w.retire ack) .worker command).frames
  | _ => exact .inl rfl

theorem Moves.unfed (h : Moves env NotFrame w w') : Unfed w w' := by
  induction h with
  | refl => exact .inl rfl
  | tail _ hm ih => exact ih.trans hm.unfed

theorem Follows.unfed {r : Except Worker Worker} (h : Follows env NotFrame w r) (hr : r = .ok w') :
    Unfed w w' := by
  rw [hr] at h
  exact Moves.unfed h

theorem tail_unfed (h : (do
      let v ← checkTimeout env w
      ((beat env v).webcamTimers env).retransmitPending env) = .ok w') : Unfed w w' := by
  refine Follows.unfed (Follows.bind (checkTimeout_follows w) fun v _ => ?_) h
  exact Follows.trans ((beat_moves v).trans (webcamTimers_moves _)) (retransmitPending_follows _)

/-- A step handles a frame command, or it leaves the table alone or clears it. -/
theorem step_feeds (w : Worker) (i : Input) (h : step env w i = .ok w') :
    ∃ hs, Feed Unfed (HandlesFrame env) w hs w' := by
  by_cases hno : ∀ v p, Dispatches env w i v p → ¬IsFrame p
  · exact ⟨[],(Feed.start w).idle ((step_follows w i hno).unfed h)⟩
  · push Not at hno
    obtain ⟨v,packet,⟨data,src,rfl,hin⟩,c,rfl,hack,hframe⟩ := hno
    have hadmit : Ends (Admitted env NotFrame w src) (Stopped env NotFrame w) (w.intake env data src) :=
      intake_ends w data src
    rw [hin] at hadmit
    have hbefore : Unfed w v := Moves.unfed hadmit.1
    simp only [step,socketStep,receive,handleDatagram,hin,dispatch] at h
    cases hrun : v.handleCommand env c src with
    | error u =>
      simp only [bind,Except.bind,hrun] at h
      cases h
    | ok u =>
      simp only [bind,Except.bind,hrun] at h
      exact ⟨_,(((Feed.start w).idle hbefore).handle c ⟨hframe,hack,src,hrun⟩).idle (tail_unfed h)⟩

theorem run_feeds (w : Worker) (is : List Input) (h : run env w is = .ok w') :
    ∃ hs, Feed Unfed (HandlesFrame env) w hs w' := by
  induction is generalizing w with
  | nil =>
    obtain rfl := Except.ok.inj h
    exact ⟨[],.start w⟩
  | cons i is ih =>
    rw [run,List.foldlM_cons] at h
    cases hstep : step env w i with
    | error v =>
      rw [hstep] at h
      cases h
    | ok v =>
      rw [hstep] at h
      obtain ⟨hs,hfeed⟩ := step_feeds w i hstep
      obtain ⟨hs',hfeed'⟩ := ih v h
      exact ⟨hs ++ hs',hfeed.trans hfeed'⟩

end Runs

section Samples

/-- One frame of three bytes, in one chunk. -/
def oneChunkEnv : Env := frameEnv [⟨1,3⟩] [⟨1,0,"AQID"⟩]

def beginOne : Command := Command.new RECEIVE_FRAME_BEGIN (beginText ⟨1,3⟩) 5

def chunkOne : Command := Command.new RECEIVE_FRAME_CHUNK (chunkText ⟨1,0,"AQID"⟩) 6

/-- A connected worker that has handled the commands. -/
def handled (env : Env) (cs : List Command) : Worker :=
  final (run env (start env none)
    (fromRobot (.keepAlive {}) :: cs.map fun c => fromRobot (.command c)))

/-- The state after one more command. -/
def next (env : Env) (w : Worker) (c : Command) : Worker := final (w.handleCommand env c robot)

/-- The commands as they are handled, one right behind the other. -/
def fed (env : Env) : Worker → List Command → List (Handled Worker Command)
  | _, [] => []
  | w, c :: cs => ⟨c,w,next env w c⟩ :: fed env (next env w c) cs

theorem next_live (env : Env) (hr : w.receiver = none) (hframe : isFrameCommand c = true)
    (hack : c.acknowledged = false) : (next env w c).receiver = none := by
  obtain ⟨w',hrun,hlive⟩ := handleCommand_live env robot hr hframe hack
  rw [next,hrun]
  exact hlive

variable {idle : Worker → Worker → Prop} {hs : List (Handled Worker Command)} {u : Worker}

theorem feed_fed {env : Env} {cs : List Command} (h : Feed idle (HandlesFrame env) u hs w)
    (hr : w.receiver = none) (hcs : ∀ c ∈ cs, isFrameCommand c = true ∧ c.acknowledged = false) :
    Feed idle (HandlesFrame env) u (hs ++ fed env w cs) (cs.foldl (next env) w) := by
  induction cs generalizing hs w with
  | nil => rwa [fed,List.append_nil]
  | cons c cs ih =>
    obtain ⟨hframe,hack⟩ := hcs c List.mem_cons_self
    have hone := h.handle c (handlesFrame_live env robot hr hframe hack)
    have hrest := ih hone (next_live env hr hframe hack) fun d hd => hcs d (List.mem_cons_of_mem c hd)
    rwa [List.append_assoc] at hrest

end Samples

end Client
end Robocol
