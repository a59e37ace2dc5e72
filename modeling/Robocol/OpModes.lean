import Robocol.Acks
import Robocol.RcMessages

/-! The OpMode of the fake controller as a machine of its own: what is ordered of it, what it
does by itself, and what it says of both. The controller refines it over all arrivals. -/
namespace Robocol

open ByteLayout Cmd StdText Client

namespace FakeRc

section Machine

/-- What a station can order. -/
inductive Order
  | init (name : String)
  | run (name : String)
  | restart
  deriving DecidableEq

inductive Mode
  | notStarted
  | stopped
  | inited (name : String)
  | running (name : String) (since : ℕ)
  deriving DecidableEq

structure Stage where
  mode : Mode := .notStarted
  camera : Bool := false
  deriving DecidableEq

/-- A notification: its name and its extra. -/
abbrev Notice := String × String

def switch (before after : Bool) : List Notice :=
  if before = after then [] else [(STREAM_CHANGE,if after then "true" else "false")]

def Stage.obey (s : Stage) (now : ℕ) : Order → Stage × List Notice
  | .init name =>
    if name = DEFAULT_OP_MODE then (⟨.stopped,false⟩,switch s.camera false ++ [(NOTIFY_INIT_OP_MODE,name)])
    else (⟨.inited name,true⟩,switch s.camera true ++ [(NOTIFY_INIT_OP_MODE,name)])
  | .run name => (⟨.running name now,s.camera⟩,[(NOTIFY_RUN_OP_MODE,name)])
  | .restart => (⟨.notStarted,false⟩,switch s.camera false)

/-- The crashing OpMode has run its time. -/
def Stage.Expired (s : Stage) (now : ℕ) : Prop :=
  ∃ since, s.mode = .running CRASH_OPMODE since ∧ CRASH_DELAY ≤ now-since

instance (s : Stage) (now : ℕ) : Decidable (s.Expired now) :=
  match hs : s.mode with
  | .running name since => decidable_of_iff (name = CRASH_OPMODE ∧ CRASH_DELAY ≤ now-since)
      ⟨fun h => ⟨since,by rw [hs,h.1],h.2⟩,fun ⟨t,ht,hle⟩ => by
        obtain ⟨rfl,rfl⟩ := Mode.running.inj (hs.symm.trans ht)
        exact ⟨rfl,hle⟩⟩
  | .notStarted => .isFalse fun ⟨_,h,_⟩ => by simp [hs] at h
  | .stopped => .isFalse fun ⟨_,h,_⟩ => by simp [hs] at h
  | .inited _ => .isFalse fun ⟨_,h,_⟩ => by simp [hs] at h

def Stage.expire (s : Stage) (now : ℕ) : Stage × List Notice :=
  if s.Expired now then (⟨.stopped,false⟩,(SHOW_STACKTRACE,CRASH_STACKTRACE) ::
    switch s.camera false ++ [(NOTIFY_INIT_OP_MODE,DEFAULT_OP_MODE)])
  else (s,[])

def Stage.take (s : Stage) (now : ℕ) : Option Order → Stage × List Notice
  | none => (s,[])
  | some order => s.obey now order

/-- One pass: the order that was received, if one was, and then the time. -/
def Stage.pass (s : Stage) (now : ℕ) (order : Option Order) : Stage × List Notice :=
  let (s,said) := s.take now order
  let (s,said') := s.expire now
  (s,said ++ said')

/-- The stage and all that was said up to it, one pass later. -/
def Stage.next (r : Stage × List Notice) (p : ℕ × Option Order) : Stage × List Notice :=
  ((r.1.pass p.1 p.2).1,r.2 ++ (r.1.pass p.1 p.2).2)

def Stage.run (passes : List (ℕ × Option Order)) : Stage × List Notice := passes.foldl Stage.next ({},[])

end Machine

section Refinement

def orderOf (c : Command) : Option Order :=
  if c.acknowledged then none
  else if c.name = INIT_OP_MODE then some (.init c.extra)
  else if c.name = RUN_OP_MODE then some (.run c.extra)
  else if c.name = RESTART_ROBOT then some .restart
  else none

/-- The command that a pass takes, if it takes one. -/
def taken (rc : FakeRc) (a : Arrival) : Option Command :=
  match a.received with
  | .datagram data src => if rc.ds = some src then readCommand (data.take BUF_LEN) else none
  | _ => none

/-- What is ordered in each pass of a run, and when. -/
def orders (env : Env) : FakeRc → List Arrival → List (ℕ × Option Order)
  | _, [] => []
  | rc, a :: as => (a.now,(rc.taken a).bind orderOf) :: orders env (rc.pass env a) as

def Mode.state : Mode → RobotState
  | .notStarted => .notStarted
  | .stopped => .stopped
  | .inited _ => .init
  | .running _ _ => .running

def Mode.opmode : Mode → String
  | .notStarted | .stopped => ""
  | .inited name | .running name _ => name

/-- The notifications the machine is about. -/
def stageNames : List String := [SHOW_STACKTRACE,STREAM_CHANGE,NOTIFY_INIT_OP_MODE,NOTIFY_RUN_OP_MODE]

def notice : SocketAddr × Packet → Option Notice
  | (_,.command c) => if ¬c.acknowledged ∧ c.name ∈ stageNames then some (c.name,c.extra) else none
  | _ => none

/-- The controller is in a stage. -/
structure InStage (rc : FakeRc) (s : Stage) : Prop where
  state : rc.state = s.mode.state
  opmode : rc.opmode = s.mode.opmode
  camera : rc.webcamAvailable = s.camera
  since : ∀ name t, s.mode = .running name t → rc.runStarted = some t

/-- It came to a stage by orders, and said `said` of it. -/
structure Refines (rc : FakeRc) (s : Stage) (said : List Notice) : Prop extends InStage rc s where
  said : rc.sent.filterMap notice = said
  idle : rc.ds = none → s.mode = .notStarted

variable {env : Env} {rc rc' rc'' : FakeRc} {s : Stage} {said said' : List Notice} {now : ℕ} {a : SocketAddr}
  {name extra : String}

/-- What was said of the stage from one state to another. -/
def Noticed (said : List Notice) (rc rc' : FakeRc) : Prop :=
  ∃ xs, rc'.sent = rc.sent ++ xs ∧ xs.filterMap notice = said

theorem Noticed.refl (rc : FakeRc) : Noticed [] rc rc := ⟨[],(List.append_nil _).symm,rfl⟩

theorem Noticed.trans (h : Noticed said rc rc') (h' : Noticed said' rc' rc'') :
    Noticed (said ++ said') rc rc'' := by
  obtain ⟨xs,hxs,rfl⟩ := h
  obtain ⟨ys,hys,rfl⟩ := h'
  exact ⟨xs ++ ys,by rw [hys,hxs,List.append_assoc],List.filterMap_append⟩

theorem Noticed.of_sent (h : Noticed said rc rc') (hsent : rc''.sent = rc.sent) : Noticed said rc'' rc' := by
  obtain ⟨xs,hxs,hx⟩ := h
  exact ⟨xs,hsent ▸ hxs,hx⟩

theorem Noticed.total (h : Noticed said' rc rc') (hsaid : rc.sent.filterMap notice = said) :
    rc'.sent.filterMap notice = said ++ said' := by
  obtain ⟨xs,hxs,rfl⟩ := h
  rw [hxs,List.filterMap_append,hsaid]

theorem noticed_sendTo {dst : SocketAddr} {packet : Packet} (h : notice (dst,packet) = none) :
    Noticed [] rc (rc.sendTo dst packet) := ⟨[(dst,packet)],rfl,by simp [h]⟩

variable (rc) in
theorem noticed_send {packet : Packet} (h : ∀ dst, notice (dst,packet) = none) :
    Noticed [] rc (rc.send packet) := by
  rw [send]
  split
  · exact .refl rc
  · exact noticed_sendTo (h _)

variable (rc) in
theorem noticed_sendCommand (hds : rc.ds = some a) (hname : name ∈ stageNames) :
    Noticed [(name,extra)] rc (rc.sendCommand now name extra) := by
  refine ⟨_,sent_sendCommand rc hds now name extra,?_⟩
  have hone : notice (a,.command ⟨rc.seq+1,rc.uptime now,false,name,extra⟩) = some (name,extra) := by
    simp [notice,hname]
  simp [hone]

variable (rc) in
theorem noticed_aside (hname : name ∉ stageNames) : Noticed [] rc (rc.sendCommand now name extra) := by
  refine Noticed.of_sent (noticed_send { rc with seq := rc.seq+1 } fun dst => ?_) rfl
  exact if_neg fun h => hname h.2

variable (rc now) in
theorem noticed_switch {camera : Bool} (hds : rc.ds = some a) (hcamera : rc.webcamAvailable = camera)
    (available : Bool) : Noticed (switch camera available) rc (rc.setWebcamAvailable now available) := by
  rw [setWebcamAvailable,switch,hcamera]
  split
  · exact .refl rc
  · exact Noticed.of_sent (noticed_sendCommand { rc with webcamAvailable := available } hds
      (by decide)) rfl

theorem InStage.of_standing (h : InStage rc s) (hstate : rc'.state = rc.state) (hopmode : rc'.opmode = rc.opmode)
    (hcamera : rc'.webcamAvailable = rc.webcamAvailable) (hsince : rc'.runStarted = rc.runStarted) :
    InStage rc' s :=
  ⟨hstate.trans h.state,hopmode.trans h.opmode,hcamera.trans h.camera,
    fun name t ht => hsince.trans (h.since name t ht)⟩

theorem InStage.congr (h : InStage rc s) (hsame : rc'.standing = rc.standing) : InStage rc' s :=
  h.of_standing (congrArg Standing.state hsame) (congrArg Standing.opmode hsame)
    (congrArg Standing.webcamAvailable hsame) (congrArg Standing.runStarted hsame)

/-- What is done for an order is what the machine does. -/
structure Obeys (rc : FakeRc) (r : Stage × List Notice) (rc' : FakeRc) : Prop where
  stage : InStage rc' r.1
  said : Noticed r.2 rc rc'

theorem initOpMode_obeys (h : InStage rc s) (hds : rc.ds = some a) (name : String) :
    Obeys rc (s.obey now (.init name)) (rc.initOpMode now name) := by
  have hstanding := @standing_initOpMode now rc name
  have hkept (v : FakeRc) (available : Bool) (hv : v.ds = some a) :
      (v.setWebcamAvailable now available).ds = some a :=
    (congrArg Standing.ds (standing_setWebcamAvailable v available)).trans hv
  rw [Stage.obey]
  by_cases hname : name = DEFAULT_OP_MODE
  · rw [if_pos hname] at hstanding ⊢
    refine ⟨⟨congrArg Standing.state hstanding,congrArg Standing.opmode hstanding,
      congrArg Standing.webcamAvailable hstanding,by simp⟩,?_⟩
    simp only [initOpMode,if_pos hname]
    refine Noticed.of_sent (Noticed.trans (noticed_switch
      { rc with runStarted := none, state := .stopped, opmode := "" } now hds h.camera false)
      (noticed_sendCommand _ (hkept _ _ hds) (by decide))) rfl
  · rw [if_neg hname] at hstanding ⊢
    refine ⟨⟨congrArg Standing.state hstanding,congrArg Standing.opmode hstanding,
      congrArg Standing.webcamAvailable hstanding,by simp⟩,?_⟩
    simp only [initOpMode,if_neg hname]
    refine Noticed.of_sent (Noticed.trans (noticed_switch
      { rc with runStarted := none, state := .init, opmode := name } now hds h.camera true)
      (noticed_sendCommand _ (hkept _ _ hds) (by decide))) rfl

theorem restartRobot_obeys (h : InStage rc s) (hds : rc.ds = some a) :
    Obeys rc (s.obey now .restart) (rc.restartRobot env now) := by
  have hstanding := @standing_restartRobot env now rc
  refine ⟨⟨congrArg Standing.state hstanding,congrArg Standing.opmode hstanding,
    congrArg Standing.webcamAvailable hstanding,by simp [Stage.obey]⟩,?_⟩
  have hswitch : Noticed (switch s.camera false) rc
      ({ rc with state := .notStarted, opmode := "" }.setWebcamAvailable now false) :=
    Noticed.of_sent
      (noticed_switch { rc with state := .notStarted, opmode := "" } now hds h.camera false) rfl
  simp only [restartRobot,Stage.obey]
  generalize { rc with state := .notStarted, opmode := "" }.setWebcamAvailable now false = v at hswitch ⊢
  split
  · exact hswitch
  · rename_i config _
    have haside : Noticed [] v ({ v with pendingActivation := none, activeConfig := config }.sendCommand now
        NOTIFY_ACTIVE_CONFIGURATION (env.configMetaText config)) :=
      Noticed.of_sent (noticed_aside _ (by decide)) rfl
    simpa using hswitch.trans haside

theorem run_obeys (h : InStage rc s) (hds : rc.ds = some a) (name : String) :
    Obeys rc (s.obey now (.run name)) ({ rc with
      state := .running, opmode := name, runStarted := some now }.sendCommand now NOTIFY_RUN_OP_MODE name) := by
  have hstanding := @standing_sendCommand now
    { rc with state := .running, opmode := name, runStarted := some now } NOTIFY_RUN_OP_MODE name
  refine ⟨⟨congrArg Standing.state hstanding,congrArg Standing.opmode hstanding,
    (congrArg Standing.webcamAvailable hstanding).trans h.camera,?_⟩,?_⟩
  · intro name' t ht
    obtain ⟨rfl,rfl⟩ := Mode.running.inj ht
    exact congrArg Standing.runStarted hstanding
  · exact Noticed.of_sent (noticed_sendCommand
      { rc with state := .running, opmode := name, runStarted := some now } hds (by decide)) rfl

/-- What changes nothing of the stage and says nothing of it. -/
structure Aside (rc rc' : FakeRc) : Prop where
  state : rc'.state = rc.state
  opmode : rc'.opmode = rc.opmode
  camera : rc'.webcamAvailable = rc.webcamAvailable
  since : rc'.runStarted = rc.runStarted
  said : Noticed [] rc rc'

theorem Aside.refl (rc : FakeRc) : Aside rc rc := ⟨rfl,rfl,rfl,rfl,.refl rc⟩

theorem Aside.trans (h : Aside rc rc') (h' : Aside rc' rc'') : Aside rc rc'' :=
  ⟨h'.state.trans h.state,h'.opmode.trans h.opmode,h'.camera.trans h.camera,h'.since.trans h.since,
    h.said.trans h'.said⟩

theorem Aside.of_standing (hsame : rc'.standing = rc.standing) (h : Noticed [] rc rc') : Aside rc rc' :=
  ⟨congrArg Standing.state hsame,congrArg Standing.opmode hsame,
    congrArg Standing.webcamAvailable hsame,congrArg Standing.runStarted hsame,h⟩

theorem aside_sendCommand (hname : name ∉ stageNames) : Aside rc (rc.sendCommand now name extra) :=
  .of_standing (standing_sendCommand _ _ _) (noticed_aside rc hname)

theorem aside_sendWebcamFrame : Aside rc (rc.sendWebcamFrame env now) := by
  have hfold (cs : List (List UInt8 × ℕ)) (text : List UInt8 × ℕ → String) (v : FakeRc) :
      Noticed [] v (cs.foldl (fun rc c => rc.sendCommand now RECEIVE_FRAME_CHUNK (text c)) v) := by
    induction cs generalizing v with
    | nil => exact .refl v
    | cons c cs ih => exact (noticed_aside v (by decide)).trans (ih _)
  refine .of_standing standing_sendWebcamFrame ?_
  rw [sendWebcamFrame]
  exact Noticed.trans (Noticed.of_sent (noticed_aside { rc with webcamFrameNum := rc.webcamFrameNum+1 }
    (by decide)) rfl) (hfold _ _ _)

theorem aside_saveConfiguration (extra : String) : Aside rc (rc.saveConfiguration env now extra) := by
  rw [saveConfiguration]
  split
  · exact .refl rc
  · split
    · exact .refl rc
    · rename_i metaJson xml _ _ config _
      have hassign : Aside rc (rc.assignId config).2 := by
        rw [assignId]
        split <;> exact ⟨rfl,rfl,rfl,rfl,⟨[],(List.append_nil _).symm,rfl⟩⟩
      refine Aside.trans hassign (Aside.trans (?_ : Aside _ ((rc.assignId config).2.storeConfig
        (rc.assignId config).1 (String.ofList xml))) (aside_sendCommand (by decide)))
      exact ⟨rfl,rfl,rfl,rfl,⟨[],(List.append_nil _).symm,rfl⟩⟩

variable (env rc now) in
/-- A command that orders nothing. -/
theorem performCommand_aside {c : Command} (hack : c.acknowledged = false) (h : orderOf c = none) :
    Aside rc (rc.performCommand env now c) := by
  obtain ⟨hinit,hrun,hrestart⟩ : c.name ≠ INIT_OP_MODE ∧ c.name ≠ RUN_OP_MODE ∧ c.name ≠ RESTART_ROBOT := by
    refine ⟨fun hc => ?_,fun hc => ?_,fun hc => ?_⟩ <;> simp [orderOf,hack,hc] at h
    · rw [if_neg (by decide)] at h
      cases h
    · rw [if_neg (by decide),if_neg (by decide)] at h
      cases h
  have htell {name extra : String} (hname : name ∉ stageNames) : Aside rc (rc.sendCommand now name extra) :=
    aside_sendCommand hname
  rw [performCommand]
  refine iteInduction (fun _ => htell (by decide)) fun _ => ?_
  refine iteInduction (fun hc => absurd hc hinit) fun _ => ?_
  refine iteInduction (fun hc => absurd hc hrun) fun _ => ?_
  refine iteInduction (fun hc => absurd hc hrestart) fun _ => ?_
  refine iteInduction (fun _ => iteInduction (fun _ => aside_sendWebcamFrame) fun _ => .refl rc) fun _ => ?_
  refine iteInduction (fun _ => htell (by decide)) fun _ => ?_
  refine iteInduction (fun _ => htell (by decide)) fun _ => ?_
  refine iteInduction (fun _ => htell (by decide)) fun _ => ?_
  refine iteInduction (fun _ => htell (by decide)) fun _ => ?_
  refine iteInduction (fun _ => htell (by decide)) fun _ => ?_
  refine iteInduction (fun _ => ?_) fun _ => ?_
  · rw [activateConfiguration]
    split
    · exact .refl rc
    · exact ⟨rfl,rfl,rfl,rfl,⟨[],(List.append_nil _).symm,rfl⟩⟩
  refine iteInduction (fun _ => aside_saveConfiguration _) fun _ => ?_
  refine iteInduction (fun _ => ?_) fun _ => .refl rc
  rw [deleteConfiguration]
  split
  · exact .refl rc
  · exact ⟨rfl,rfl,rfl,rfl,⟨[],(List.append_nil _).symm,rfl⟩⟩

variable (env now) in
theorem performCommand_obeys {c : Command} {order : Order} (h : InStage rc s) (hds : rc.ds = some a)
    (hc : orderOf c = some order) : Obeys rc (s.obey now order) (rc.performCommand env now c) := by
  rw [orderOf] at hc
  split_ifs at hc with hack hinit hrun hrestart
  · obtain rfl := Option.some.inj hc
    have hperform : rc.performCommand env now c = rc.initOpMode now c.extra := by
      simp only [performCommand,hinit]
      rfl
    rw [hperform]
    exact initOpMode_obeys h hds c.extra
  · obtain rfl := Option.some.inj hc
    have hperform : rc.performCommand env now c = { rc with
        state := .running, opmode := c.extra, runStarted := some now }.sendCommand now NOTIFY_RUN_OP_MODE
          c.extra := by
      simp only [performCommand,hrun]
      rfl
    rw [hperform]
    exact run_obeys h hds c.extra
  · obtain rfl := Option.some.inj hc
    have hperform : rc.performCommand env now c = rc.restartRobot env now := by
      simp only [performCommand,hrestart]
      rfl
    rw [hperform]
    exact restartRobot_obeys h hds

theorem Aside.obeys (h : Aside rc rc') (hs : InStage rc s) : Obeys rc (s.take now none) rc' :=
  ⟨hs.of_standing h.state h.opmode h.camera h.since,h.said⟩

variable (env now) in
theorem handleCommand_obeys (c : Command) (h : InStage rc s) (hds : rc.ds = some a) :
    Obeys rc (s.take now (orderOf c)) (rc.handleCommand env now c) := by
  rw [handleCommand]
  by_cases hack : c.acknowledged = true
  · have hnone : orderOf c = none := by rw [orderOf,if_pos hack]
    rw [if_pos hack,hnone]
    exact (Aside.refl rc).obeys h
  · have hsent : Noticed [] rc (rc.send (.command (Command.ackOf c))) :=
      noticed_send rc fun dst => by simp [notice,Command.ackOf]
    have hsame : (rc.send (.command (Command.ackOf c))).standing = rc.standing := standing_send _ _
    have hacked := h.congr hsame
    have hdst := (congrArg Standing.ds hsame).trans hds
    rw [if_neg hack]
    cases hc : orderOf c with
    | none =>
      have haside := performCommand_aside env (rc.send (.command (Command.ackOf c))) now
        (by simpa using hack) hc
      exact (Aside.trans (.of_standing hsame hsent) haside).obeys h
    | some order =>
      obtain ⟨hstage,hsaid⟩ := performCommand_obeys env now hacked hdst hc
      exact ⟨hstage,hsent.trans hsaid⟩

/-- Besides a command of the connected station, nothing that is received is about the stage. -/
theorem handlePacket_aside {packet : Packet} {src : SocketAddr} (hc : ∀ c, packet ≠ .command c) :
    Aside rc (rc.handlePacket env now packet src) := by
  have hkeep {c : Prop} [Decidable c] {x y : FakeRc} (hx : Aside rc x) (hy : Aside rc y) :
      Aside rc (if c then x else y) := by split <;> assumption
  have hsend {v : FakeRc} {p : Packet} (hv : Aside rc v) (hp : notice (src,p) = none) :
      Aside rc (v.sendTo src p) := hv.trans ⟨rfl,rfl,rfl,rfl,noticed_sendTo hp⟩
  have hsame {v : FakeRc} (hstanding : v.state = rc.state ∧ v.opmode = rc.opmode ∧
      v.webcamAvailable = rc.webcamAvailable ∧ v.runStarted = rc.runStarted) (hsent : v.sent = rc.sent) :
      Aside rc v := ⟨hstanding.1,hstanding.2.1,hstanding.2.2.1,hstanding.2.2.2,[],by simpa using hsent,rfl⟩
  cases packet with
  | peerDiscovery p =>
    refine hkeep (hsend (.refl rc) rfl) (hsend (hkeep ?_ (.refl rc)) rfl)
    exact hsame ⟨rfl,rfl,rfl,rfl⟩ rfl
  | heartbeat hb =>
    exact hkeep (hsend (hsame (v := { rc with seq := rc.seq+1 }) ⟨rfl,rfl,rfl,rfl⟩ rfl) rfl) (.refl rc)
  | command c => exact absurd rfl (hc c)
  | gamepad gp =>
    show Aside rc (rc.handleGamepad gp)
    refine hsame ?_ ?_
    · simp only [handleGamepad]
      split_ifs <;> simp
    · simp only [handleGamepad]
      split_ifs <;> simp
  | telemetry t => exact .refl rc
  | keepAlive k => exact .refl rc

variable (env) in
theorem receive_obeys (x : Arrival) (h : InStage rc s) :
    Obeys rc (s.take x.now ((rc.taken x).bind orderOf)) (rc.receive env x.now x.received) := by
  cases hr : x.received with
  | timedOut =>
    rw [taken,hr]
    exact (Aside.refl rc).obeys h
  | failed error =>
    rw [taken,hr]
    exact (Aside.refl rc).obeys h
  | datagram data src =>
    have hnote : Aside rc (rc.note x.now src) := by
      rw [note]
      split <;> exact ⟨rfl,rfl,rfl,rfl,[],(List.append_nil _).symm,rfl⟩
    have hds : (rc.note x.now src).ds = rc.ds := (note_ds rc x.now src).1
    rw [receive_datagram,taken,hr]
    cases hparse : Packet.parse (data.take BUF_LEN) with
    | error e =>
      have hnone : readCommand (data.take BUF_LEN) = none := by simp [readCommand,hparse]
      simp only [hnone,ite_self,Option.bind_none]
      exact hnote.obeys h
    | ok packet =>
      by_cases hcommand : ∃ c, packet = .command c
      · obtain ⟨c,rfl⟩ := hcommand
        have hsome : readCommand (data.take BUF_LEN) = some c := mem_readCommand.mpr hparse
        simp only [handlePacket,hds,hsome]
        by_cases hsrc : rc.ds = some src
        · rw [if_pos hsrc,if_pos hsrc]
          have hstage := h.of_standing hnote.state hnote.opmode hnote.camera hnote.since
          obtain ⟨hs,hsaid⟩ := handleCommand_obeys env x.now c hstage (hds.trans hsrc)
          exact ⟨hs,by simpa using hnote.said.trans hsaid⟩
        · rw [if_neg hsrc,if_neg hsrc]
          exact hnote.obeys h
      · have hno : ∀ c, packet ≠ .command c := fun c hc => hcommand ⟨c,hc⟩
        have hnone : readCommand (data.take BUF_LEN) = none := by
          refine Option.eq_none_iff_forall_not_mem.mpr fun c hc => hno c ?_
          exact Except.ok.inj (hparse.symm.trans (mem_readCommand.mp hc))
        simp only [hnone,ite_self,Option.bind_none]
        exact (hnote.trans (handlePacket_aside hno)).obeys h

theorem crashes_iff (h : InStage rc s) : rc.Crashes now ↔ s.Expired now := by
  constructor
  · rintro ⟨hopmode,hstate,t,ht,hle⟩
    have hopmode' := h.opmode.symm.trans hopmode
    have hstate' := h.state.symm.trans hstate
    cases hs : s.mode with
    | running name since =>
      rw [hs] at hopmode'
      obtain rfl := Option.some.inj ((h.since name since hs).symm.trans ht)
      exact ⟨since,hs.trans (congrArg (Mode.running · since) hopmode'),hle⟩
    | _ =>
      rw [hs] at hstate'
      cases hstate'
  · rintro ⟨since,hs,hle⟩
    have hstate := h.state
    have hopmode := h.opmode
    rw [hs] at hstate hopmode
    exact ⟨hopmode,hstate,since,h.since _ _ hs,hle⟩

variable (now) in
theorem crashTick_obeys (h : InStage rc s) (hds : rc.ds = none → s.mode = .notStarted) :
    Obeys rc (s.expire now) (rc.crashTick now) := by
  rw [Stage.expire]
  by_cases hcrash : rc.Crashes now
  · have hexpired := (crashes_iff h).mp hcrash
    obtain ⟨a,ha⟩ : ∃ a, rc.ds = some a := by
      obtain ⟨since,hs,-⟩ := hexpired
      refine Option.ne_none_iff_exists'.mp fun hnone => ?_
      exact absurd (hs.symm.trans (hds hnone)) (by simp)
    have hstanding := standing_crashTick hcrash
    rw [if_pos hexpired]
    refine ⟨⟨congrArg Standing.state hstanding,congrArg Standing.opmode hstanding,
      congrArg Standing.webcamAvailable hstanding,by simp⟩,?_⟩
    have htrace : Noticed [(SHOW_STACKTRACE,CRASH_STACKTRACE)] rc
        ({ rc with runStarted := none }.sendCommand now SHOW_STACKTRACE CRASH_STACKTRACE) :=
      Noticed.of_sent (noticed_sendCommand { rc with runStarted := none } ha (by decide)) rfl
    have hkept := @standing_sendCommand now { rc with runStarted := none } SHOW_STACKTRACE
      CRASH_STACKTRACE
    have hcamera := (congrArg Standing.webcamAvailable hkept).trans h.camera
    have hdst := (congrArg Standing.ds hkept).trans ha
    rw [crashTick_crashes hcrash]
    simp only at htrace hcamera hdst ⊢
    generalize { rc with runStarted := none }.sendCommand now SHOW_STACKTRACE CRASH_STACKTRACE = v
      at htrace hcamera hdst ⊢
    have hswitch := noticed_switch { v with state := .stopped, opmode := "" } now hdst hcamera false
    have hds' := (congrArg Standing.ds (@standing_setWebcamAvailable now
      { v with state := .stopped, opmode := "" } false)).trans hdst
    exact htrace.trans (Noticed.of_sent (hswitch.trans (noticed_sendCommand _ hds' (by decide))) rfl)
  · have hexpired : ¬s.Expired now := fun hs => hcrash ((crashes_iff h).mpr hs)
    rw [if_neg hexpired,crashTick_quiet hcrash]
    exact ⟨h,.refl rc⟩

theorem aside_telemetryDue : Aside rc (rc.telemetryDue env now) := by
  refine .of_standing standing_telemetryDue ?_
  rw [telemetryDue]
  split
  · exact Noticed.of_sent (noticed_send { rc with lastTelemetry := now, seq := rc.seq+1 } fun _ => rfl) rfl
  · exact .refl rc

theorem aside_rcBatteryDue : Aside rc (rc.rcBatteryDue now) := by
  refine .of_standing standing_rcBatteryDue ?_
  rw [rcBatteryDue]
  split
  · exact Noticed.of_sent (noticed_send { rc with lastRcBattery := now, seq := rc.seq+1 } fun _ => rfl) rfl
  · exact .refl rc

theorem receive_ds (x : Arrival) (h : (rc.receive env x.now x.received).ds = none) : rc.ds = none := by
  cases hr : x.received with
  | timedOut => rwa [hr] at h
  | failed error => rwa [hr] at h
  | datagram data src =>
    obtain ⟨d,hhold,hd⟩ := receive_hold env rc x.now data src
    rw [hr] at h
    have hnone : d = none := (congrArg (·.1) hhold).symm.trans h
    rcases hd with rfl|rfl
    · exact hnone
    · cases hnone

/-- A pass does what the machine does. -/
theorem pass_refines (x : Arrival) (h : Refines rc s said) : Refines (rc.pass env x)
    (s.pass x.now ((rc.taken x).bind orderOf)).1
    (said ++ (s.pass x.now ((rc.taken x).bind orderOf)).2) := by
  obtain ⟨hstage,hsaid⟩ := receive_obeys env x h.toInStage
  have hnone (hds : (rc.receive env x.now x.received).ds = none) :
      (s.take x.now ((rc.taken x).bind orderOf)).1 = s := by
    have htaken : rc.taken x = none := by
      rw [taken,receive_ds x hds]
      split <;> rfl
    rw [htaken]
    rfl
  have hidle : (rc.receive env x.now x.received).ds = none →
      (s.take x.now ((rc.taken x).bind orderOf)).1.mode = .notStarted := by
    intro hds
    rw [hnone hds]
    exact h.idle (receive_ds x hds)
  obtain ⟨hstage',hsaid'⟩ := crashTick_obeys x.now hstage hidle
  have haside : Aside ((rc.receive env x.now x.received).crashTick x.now) (rc.pass env x) :=
    aside_telemetryDue.trans aside_rcBatteryDue
  have hds : (rc.pass env x).ds = (rc.receive env x.now x.received).ds :=
    congrArg (·.1) (pass_hold env rc x)
  refine ⟨hstage'.of_standing haside.state haside.opmode haside.camera haside.since,?_,?_⟩
  · have hall := (hsaid.trans hsaid').trans haside.said
    rw [List.append_nil] at hall
    exact hall.total h.said
  · intro hpassed
    have hreceived := hds ▸ hpassed
    have hexpired : ¬(s.take x.now ((rc.taken x).bind orderOf)).1.Expired x.now := by
      rintro ⟨since,hs,-⟩
      exact absurd (hs.symm.trans (hidle hreceived)) (by simp)
    show ((s.take x.now ((rc.taken x).bind orderOf)).1.expire x.now).1.mode = .notStarted
    rw [Stage.expire,if_neg hexpired]
    exact hidle hreceived

theorem start_refines (now : ℕ) (phantomUntil : Option ℕ) : Refines (start now phantomUntil) {} [] :=
  ⟨⟨rfl,rfl,rfl,fun name t ht => by cases ht⟩,rfl,fun _ => rfl⟩

variable (env) in
theorem Refines.run (h : Refines rc s said) (as : List Arrival) :
    Refines (run env rc as) ((orders env rc as).foldl Stage.next (s,said)).1
      ((orders env rc as).foldl Stage.next (s,said)).2 := by
  induction as generalizing rc s said with
  | nil => exact h
  | cons a as ih => exact ih (pass_refines a h)

/-- Over all arrivals, what the controller is in, and every notification of it that it sent, are
those of the machine that gets the orders of the stations it was connected to. -/
theorem run_refines (env : Env) (now : ℕ) (phantomUntil : Option ℕ) (as : List Arrival) :
    Refines (run env (start now phantomUntil) as)
      (Stage.run (orders env (start now phantomUntil) as)).1
      (Stage.run (orders env (start now phantomUntil) as)).2 :=
  (start_refines now phantomUntil).run env as

end Refinement

end FakeRc
end Robocol
