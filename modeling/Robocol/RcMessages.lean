import Robocol.DsHold

/-! What the fake controller says of itself. Every packet that a pass hands to the socket answers
what the pass has heard or tells of its own accord, and is so of the states around the pass. -/
namespace Robocol

open ByteLayout Cmd StdText Client

namespace FakeRc

/-- What a notification can be about, and the station that gets it. -/
structure Standing where
  ds : Option SocketAddr
  started : ℕ
  state : RobotState
  opmode : String
  webcamAvailable : Bool
  runStarted : Option ℕ
  activeConfig : ConfigMeta
  configs : List ConfigMeta
  savedXml : Key → Option String

def standing (rc : FakeRc) : Standing where
  ds := rc.ds
  started := rc.started
  state := rc.state
  opmode := rc.opmode
  webcamAvailable := rc.webcamAvailable
  runStarted := rc.runStarted
  activeConfig := rc.activeConfig
  configs := rc.configs
  savedXml := rc.savedXml

/-- The station that is connected, and the start of the clock it is told the time of. -/
def line (rc : FakeRc) : Option SocketAddr × ℕ := (rc.ds,rc.started)

def Standing.line (s : Standing) : Option SocketAddr × ℕ := (s.ds,s.started)

/-- A pass hears a packet: as much of the datagram as the buffer holds is one. -/
def Arrival.Hears (a : Arrival) (src : SocketAddr) (p : Packet) : Prop :=
  ∃ data, a.received = .datagram data src ∧ Packet.parse (data.take BUF_LEN) = .ok p

/-- The pass brings a command of the station that is connected. -/
def Asks (rc : FakeRc) (a : Arrival) (c : Command) : Prop :=
  ∃ src, rc.ds = some src ∧ a.Hears src (.command c) ∧ c.acknowledged = false

/-- What the pass `a` from `before` can tell of the controller, once it is as in `rc`. -/
inductive Notes (env : Env) (a : Arrival) (before : FakeRc) (rc : Standing) : String → String → Prop
  | opModeList {c : Command} (hc : before.Asks a c) (hname : c.name = REQUEST_OP_MODE_LIST) :
      Notes env a before rc NOTIFY_OP_MODE_LIST OPMODES
  | inited {c : Command} (hc : before.Asks a c) (hname : c.name = INIT_OP_MODE) (hstate : rc.state = .init)
      (hopmode : rc.opmode = c.extra) (hne : c.extra ≠ DEFAULT_OP_MODE) :
      Notes env a before rc NOTIFY_INIT_OP_MODE c.extra
  | stopped (hstate : rc.state = .stopped) : Notes env a before rc NOTIFY_INIT_OP_MODE DEFAULT_OP_MODE
  | running {c : Command} (hc : before.Asks a c) (hname : c.name = RUN_OP_MODE)
      (hstate : rc.state = .running) (hopmode : rc.opmode = c.extra) (hrun : rc.runStarted = some a.now) :
      Notes env a before rc NOTIFY_RUN_OP_MODE c.extra
  | stream {available : Bool} (h : rc.webcamAvailable = available) (hstate : rc.state ≠ .running) :
      Notes env a before rc STREAM_CHANGE (if available then "true" else "false")
  | activeConfig :
      Notes env a before rc NOTIFY_ACTIVE_CONFIGURATION (env.configMetaText rc.activeConfig)
  | configs {c : Command} (hc : before.Asks a c) (hname : c.name = REQUEST_CONFIGURATIONS) :
      Notes env a before rc REQUEST_CONFIGURATIONS_RESP (env.configsText rc.configs)
  | savedXml {c : Command} (hc : before.Asks a c) (hname : c.name = REQUEST_PARTICULAR_CONFIGURATION)
      {xml : String}
      (h : ((env.configMeta c.extra).bind fun config => rc.savedXml (configKey config)) = some xml) :
      Notes env a before rc REQUEST_PARTICULAR_CONFIGURATION_RESP xml
  | cannedXml {c : Command} (hc : before.Asks a c) (hname : c.name = REQUEST_PARTICULAR_CONFIGURATION)
      (h : ((env.configMeta c.extra).bind fun config => rc.savedXml (configKey config)) = none) :
      Notes env a before rc REQUEST_PARTICULAR_CONFIGURATION_RESP FAKE_CONFIG_XML
  | devices {c : Command} (hc : before.Asks a c) (hname : c.name = REQUEST_USER_DEVICE_TYPES) :
      Notes env a before rc NOTIFY_USER_DEVICE_LIST USER_DEVICE_TYPES
  | scan {c : Command} (hc : before.Asks a c) (hname : c.name = SCAN) :
      Notes env a before rc Cmd.SCAN_RESP SCAN_RESP
  | stacktrace (hstate : rc.state = .stopped) : Notes env a before rc SHOW_STACKTRACE CRASH_STACKTRACE
  | frameBegin {c : Command} (hc : before.Asks a c) (hname : c.name = REQUEST_FRAME)
      (hcam : before.webcamAvailable = true) : Notes env a before rc RECEIVE_FRAME_BEGIN
        (env.frameBeginText ⟨before.webcamFrameNum.toInt,
          (Int32.ofNat (env.renderFrame before.webcamFrameNum).length).toInt⟩)
  | frameChunk {c : Command} (hc : before.Asks a c) (hname : c.name = REQUEST_FRAME)
      (hcam : before.webcamAvailable = true) {chunk : List UInt8} {i : ℕ}
      (h : (chunk,i) ∈ (chunks FRAME_CHUNK_SIZE (env.renderFrame before.webcamFrameNum)).zipIdx) :
      Notes env a before rc RECEIVE_FRAME_CHUNK (env.frameChunkText
        ⟨before.webcamFrameNum.toInt,(Int32.ofNat i).toInt,Base64.encode chunk⟩)

/-- The telemetry of a state, under a number. -/
def telemetryOf (env : Env) (rc : FakeRc) (now : ℕ) (seq : UInt16) : Telemetry where
  seq := seq
  timestamp := rc.uptime now
  isSorted := true
  robotState := rc.state
  tag := "TELEMETRY_DATA"
  strings := (BATTERY_LEVEL_KEY,env.batteryLevel (now-rc.started)) ::
    (SYSTEM_KEY_PREFIX ++ "i2c","1 device on the I2C bus") ::
    (rc.stateLines env (now-rc.started)).map ("",·)
  numbers := if rc.state = .running then
    (env.runNumbers (now-rc.started)).insert "left_stick_y" rc.leftStickY else ∅

def rcBatteryOf (rc : FakeRc) (now : ℕ) (seq : UInt16) : Telemetry where
  seq := seq
  timestamp := rc.uptime now
  isSorted := true
  robotState := rc.state
  tag := RC_BATTERY_STATUS_KEY
  strings := [(RC_BATTERY_STATUS_KEY,"100.0|true")]

/-- A packet that the pass `a` sends on the way from `before` to `after`. -/
inductive Message (env : Env) (a : Arrival) (before after : FakeRc) : SocketAddr × Packet → Prop
  | refuses {dst : SocketAddr} {p : PeerDiscovery} (hp : a.Hears dst (.peerDiscovery p))
      (h : before.heldAgainst a.now dst = true) : Message env a before after (dst,busy)
  | accepts {dst : SocketAddr} {p : PeerDiscovery} (hp : a.Hears dst (.peerDiscovery p))
      (hfree : before.heldAgainst a.now dst = false) (h : after.ds = some dst) :
      Message env a before after (dst,.peerDiscovery {})
  | beats {dst : SocketAddr} {hb : Heartbeat} {seq : UInt16} (hp : a.Hears dst (.heartbeat hb))
      (h : after.ds = some dst) :
      Message env a before after (dst,.heartbeat { hb with robotState := before.state, seq := seq })
  | telemeters {dst : SocketAddr} {seq : UInt16} (h : after.ds = some dst) :
      Message env a before after (dst,.telemetry (telemetryOf env after a.now seq))
  | battery {dst : SocketAddr} {seq : UInt16} (h : after.ds = some dst) :
      Message env a before after (dst,.telemetry (rcBatteryOf after a.now seq))
  | acks {dst : SocketAddr} {c : Command} (hp : a.Hears dst (.command c)) (hack : c.acknowledged = false)
      (h : after.ds = some dst) : Message env a before after (dst,.command (Command.ackOf c))
  | notes {dst : SocketAddr} {seq : UInt16} {name extra : String} (h : after.ds = some dst)
      (hc : Notes env a before after.standing name extra) :
      Message env a before after (dst,.command ⟨seq,after.uptime a.now,false,name,extra⟩)

/-- The packets sent from one state to another satisfy `P`. -/
def Sends (P : SocketAddr × Packet → Prop) (rc rc' : FakeRc) : Prop :=
  ∃ xs, rc'.sent = rc.sent ++ xs ∧ ∀ x ∈ xs, P x

/-- A notification to the station that is connected. -/
def Announced (env : Env) (a : Arrival) (before rc : FakeRc) (x : SocketAddr × Packet) : Prop :=
  rc.ds = some x.1 ∧ ∃ seq name extra, x.2 = .command ⟨seq,rc.uptime a.now,false,name,extra⟩ ∧
    Notes env a before rc.standing name extra

variable {env : Env} {a : Arrival} {now : ℕ} {before rc rc' rc'' : FakeRc} {P Q : SocketAddr × Packet → Prop}

section Standings

@[simp] theorem standing_sendTo (rc : FakeRc) (dst : SocketAddr) (packet : Packet) :
    (rc.sendTo dst packet).standing = rc.standing := rfl

@[simp] theorem standing_send (rc : FakeRc) (packet : Packet) :
    (rc.send packet).standing = rc.standing := by
  rw [send]
  split <;> rfl

@[simp] theorem standing_sendCommand (rc : FakeRc) (name extra : String) :
    (rc.sendCommand now name extra).standing = rc.standing :=
  standing_send { rc with seq := rc.seq+1 } _

@[simp] theorem standing_setWebcamAvailable (rc : FakeRc) (available : Bool) :
    (rc.setWebcamAvailable now available).standing =
      { rc.standing with webcamAvailable := available } := by
  rw [setWebcamAvailable]
  split
  · rename_i h
    rw [← h]
    rfl
  · exact standing_sendCommand _ _ _

theorem standing_sendCommands {α : Type} (text : α → String × String) (cs : List α) (rc : FakeRc) :
    (cs.foldl (fun rc c => rc.sendCommand now (text c).1 (text c).2) rc).standing = rc.standing := by
  induction cs generalizing rc with
  | nil => rfl
  | cons c cs ih => rw [List.foldl_cons,ih,standing_sendCommand]

@[simp] theorem standing_sendWebcamFrame : (rc.sendWebcamFrame env now).standing = rc.standing :=
  (standing_sendCommands (fun c : List UInt8 × ℕ => (RECEIVE_FRAME_CHUNK,env.frameChunkText
    ⟨rc.webcamFrameNum.toInt,(Int32.ofNat c.2).toInt,Base64.encode c.1⟩)) _ _).trans
    (standing_sendCommand _ _ _)

theorem standing_initOpMode (name : String) : (rc.initOpMode now name).standing =
    if name = DEFAULT_OP_MODE then
      { rc.standing with runStarted := none, state := .stopped, opmode := "", webcamAvailable := false }
    else { rc.standing with
      runStarted := none, state := .init, opmode := name, webcamAvailable := true } := by
  simp only [initOpMode,standing_sendCommand]
  split <;> exact standing_setWebcamAvailable _ _

theorem pendingActivation_setWebcamAvailable (rc : FakeRc) (available : Bool) :
    (rc.setWebcamAvailable now available).pendingActivation = rc.pendingActivation := by
  rw [setWebcamAvailable]
  split
  · rfl
  · simp only [sendCommand,nextSeq,send]
    split <;> rfl

theorem standing_restartRobot : (rc.restartRobot env now).standing = { rc.standing with
    state := .notStarted, opmode := "", webcamAvailable := false
    activeConfig := rc.pendingActivation.getD rc.activeConfig } := by
  have hstopped : ({ rc with state := .notStarted, opmode := "" }.setWebcamAvailable now false).standing =
    { rc.standing with state := .notStarted, opmode := "", webcamAvailable := false } :=
    standing_setWebcamAvailable _ _
  have hpending : ({ rc with state := .notStarted, opmode := "" }.setWebcamAvailable now
      false).pendingActivation = rc.pendingActivation := pendingActivation_setWebcamAvailable _ _
  simp only [restartRobot]
  generalize { rc with state := .notStarted, opmode := "" }.setWebcamAvailable now false = v at *
  rw [hpending]
  cases rc.pendingActivation with
  | none => exact hstopped
  | some config =>
    refine (standing_sendCommand _ _ _).trans ?_
    exact congrArg (fun s : Standing => { s with activeConfig := config }) hstopped

/-- The OpMode that is torn down crashed long enough after it was started. -/
def Crashes (rc : FakeRc) (now : ℕ) : Prop :=
  rc.opmode = CRASH_OPMODE ∧ rc.state = .running ∧ ∃ t, rc.runStarted = some t ∧ CRASH_DELAY ≤ now-t

theorem crashTick_quiet (h : ¬rc.Crashes now) : rc.crashTick now = rc := by
  rw [crashTick]
  split
  · rfl
  · rename_i hrun
    obtain ⟨hopmode,hstate⟩ := not_or.mp hrun
    refine if_pos ?_
    cases ht : rc.runStarted with
    | none => rfl
    | some t =>
      refine decide_eq_true (Nat.lt_of_not_le fun hle => h ?_)
      exact ⟨not_not.mp hopmode,not_not.mp hstate,t,ht,hle⟩

theorem crashTick_crashes (h : rc.Crashes now) : rc.crashTick now =
    ({ { rc with runStarted := none }.sendCommand now SHOW_STACKTRACE CRASH_STACKTRACE with
      state := .stopped, opmode := "" }.setWebcamAvailable now false).sendCommand now
        NOTIFY_INIT_OP_MODE DEFAULT_OP_MODE := by
  obtain ⟨hopmode,hstate,t,ht,hle⟩ := h
  have hlate : ¬(rc.runStarted.all fun t => decide (now-t < CRASH_DELAY)) = true := by
    simp [ht,hle]
  rw [crashTick,if_neg (by simp [hopmode,hstate]),if_neg hlate]

theorem standing_crashTick (h : rc.Crashes now) : (rc.crashTick now).standing =
    { rc.standing with runStarted := none, state := .stopped, opmode := "", webcamAvailable := false } := by
  have hsent := @standing_sendCommand now { rc with runStarted := none } SHOW_STACKTRACE
    CRASH_STACKTRACE
  rw [crashTick_crashes h,standing_sendCommand,standing_setWebcamAvailable]
  exact congrArg (fun s : Standing =>
    { s with state := .stopped, opmode := "", webcamAvailable := false }) hsent

end Standings

section Sending

theorem Sends.refl (P : SocketAddr × Packet → Prop) (rc : FakeRc) : Sends P rc rc :=
  ⟨[],(List.append_nil _).symm,by simp⟩

theorem Sends.trans (h : Sends P rc rc') (h' : Sends P rc' rc'') : Sends P rc rc'' := by
  obtain ⟨xs,hxs,hx⟩ := h
  obtain ⟨ys,hys,hy⟩ := h'
  refine ⟨xs ++ ys,by rw [hys,hxs,List.append_assoc],fun x hmem => ?_⟩
  exact (List.mem_append.mp hmem).elim (hx x) (hy x)

theorem Sends.mono (h : Sends P rc rc') (hPQ : ∀ x, P x → Q x) : Sends Q rc rc' := by
  obtain ⟨xs,hxs,hx⟩ := h
  exact ⟨xs,hxs,fun x hmem => hPQ x (hx x hmem)⟩

theorem Sends.mem (h : Sends P rc rc') (hrc : ∀ x ∈ rc.sent, P x) : ∀ x ∈ rc'.sent, P x := by
  obtain ⟨xs,hxs,hx⟩ := h
  rw [hxs]
  exact fun x hmem => (List.mem_append.mp hmem).elim (hrc x) (hx x)

variable (rc) in
theorem sends_sendTo {dst : SocketAddr} {packet : Packet} (h : P (dst,packet)) :
    Sends P rc (rc.sendTo dst packet) :=
  ⟨[(dst,packet)],rfl,by simpa using h⟩

variable (rc) in
theorem sends_send {packet : Packet} (h : ∀ dst, rc.ds = some dst → P (dst,packet)) :
    Sends P rc (rc.send packet) := by
  rw [send]
  split
  · exact .refl P rc
  · rename_i ds hds
    exact sends_sendTo rc (h ds hds)

/-- The same packets sent from a state that differs in none of them. -/
theorem Sends.of_sent (h : Sends P rc rc') (hsent : rc''.sent = rc.sent) : Sends P rc'' rc' := by
  obtain ⟨xs,hxs,hx⟩ := h
  exact ⟨xs,hsent ▸ hxs,hx⟩

variable {final : FakeRc} {name extra : String}

variable (rc) in
/-- A notification that is so where it leads to. -/
theorem sends_note (hline : final.line = rc.line) (h : Notes env a before final.standing name extra) :
    Sends (Announced env a before final) rc (rc.sendCommand a.now name extra) := by
  refine Sends.of_sent (sends_send { rc with seq := rc.seq+1 } fun dst hdst => ?_) rfl
  obtain ⟨hds,hstarted⟩ := Prod.mk.inj hline
  have huptime : rc.uptime a.now = final.uptime a.now := by rw [uptime,uptime,hstarted]
  refine ⟨hds.trans hdst,rc.seq+1,name,extra,?_,h⟩
  rw [← huptime]
  rfl

variable (rc) in
theorem sends_stream {available : Bool} (hline : final.line = rc.line)
    (h : final.webcamAvailable = available) (hstate : final.state ≠ .running) :
    Sends (Announced env a before final) rc (rc.setWebcamAvailable a.now available) := by
  rw [setWebcamAvailable]
  split
  · exact .refl _ rc
  · exact Sends.of_sent (sends_note { rc with webcamAvailable := available } hline
      (.stream h hstate)) rfl

/-- A frame is its announcement and its chunks. -/
theorem sends_sendWebcamFrame {c : Command} (hc : before.Asks a c) (hname : c.name = REQUEST_FRAME)
    (hcam : before.webcamAvailable = true) (hnum : rc.webcamFrameNum = before.webcamFrameNum)
    (hline : final.line = rc.line) :
    Sends (Announced env a before final) rc (rc.sendWebcamFrame env a.now) := by
  have hfold (cs : List (List UInt8 × ℕ)) (hcs : ∀ c ∈ cs,
      c ∈ (chunks FRAME_CHUNK_SIZE (env.renderFrame before.webcamFrameNum)).zipIdx) (v : FakeRc)
      (hv : final.line = v.line) : Sends (Announced env a before final) v
        (cs.foldl (fun rc' c => rc'.sendCommand a.now RECEIVE_FRAME_CHUNK (env.frameChunkText
          ⟨before.webcamFrameNum.toInt,(Int32.ofNat c.2).toInt,Base64.encode c.1⟩)) v) := by
    induction cs generalizing v with
    | nil => exact .refl _ v
    | cons d cs ih =>
      have hstanding := @standing_sendCommand a.now v RECEIVE_FRAME_CHUNK (env.frameChunkText
        ⟨before.webcamFrameNum.toInt,(Int32.ofNat d.2).toInt,Base64.encode d.1⟩)
      refine (sends_note v hv (.frameChunk hc hname hcam (hcs d (by simp)))).trans ?_
      exact ih (fun e he => hcs e (by simp [he])) _ (hv.trans (congrArg Standing.line hstanding).symm)
  have hstanding := @standing_sendCommand a.now { rc with webcamFrameNum := before.webcamFrameNum+1 }
    RECEIVE_FRAME_BEGIN (env.frameBeginText ⟨before.webcamFrameNum.toInt,
      (Int32.ofNat (env.renderFrame before.webcamFrameNum).length).toInt⟩)
  rw [sendWebcamFrame,hnum]
  refine Sends.of_sent (Sends.trans (sends_note { rc with webcamFrameNum := before.webcamFrameNum+1 }
    hline (.frameBegin hc hname hcam)) ?_) rfl
  exact hfold _ (fun _ => id) _ (hline.trans (congrArg Standing.line hstanding).symm)

/-- The stream is switched, and something is told. -/
theorem sends_switch {v : FakeRc} {available : Bool} (hsent : v.sent = rc.sent) (hline : final.line = v.line)
    (hcam : final.webcamAvailable = available) (hstate : final.state ≠ .running)
    (h : Notes env a before final.standing name extra) : Sends (Announced env a before final) rc
      ((v.setWebcamAvailable a.now available).sendCommand a.now name extra) := by
  refine Sends.of_sent (Sends.trans (sends_stream v hline hcam hstate) (sends_note _ ?_ h)) hsent.symm
  exact hline.trans (congrArg Standing.line (standing_setWebcamAvailable v available)).symm

theorem sends_initOpMode {c : Command} (hc : before.Asks a c) (hask : c.name = INIT_OP_MODE)
    (h : final.standing = (rc.initOpMode a.now c.extra).standing) :
    Sends (Announced env a before final) rc (rc.initOpMode a.now c.extra) := by
  rw [standing_initOpMode] at h
  simp only [initOpMode]
  by_cases hname : c.extra = DEFAULT_OP_MODE
  · rw [if_pos hname] at h
    have hstate : final.state = .stopped := congrArg Standing.state h
    rw [if_pos hname,hname]
    exact sends_switch (v := { rc with runStarted := none, state := .stopped, opmode := "" }) rfl
      (congrArg Standing.line h) (congrArg Standing.webcamAvailable h) (by simp [hstate]) (.stopped hstate)
  · rw [if_neg hname] at h
    have hstate : final.state = .init := congrArg Standing.state h
    rw [if_neg hname]
    exact sends_switch (v := { rc with runStarted := none, state := .init, opmode := c.extra }) rfl
      (congrArg Standing.line h) (congrArg Standing.webcamAvailable h) (by simp [hstate])
      (.inited hc hask hstate (congrArg Standing.opmode h) hname)

theorem sends_restartRobot (h : final.standing = (rc.restartRobot env a.now).standing) :
    Sends (Announced env a before final) rc (rc.restartRobot env a.now) := by
  have hpending : ({ rc with state := .notStarted, opmode := "" }.setWebcamAvailable a.now
      false).pendingActivation = rc.pendingActivation := pendingActivation_setWebcamAvailable _ _
  rw [standing_restartRobot] at h
  have hline : final.line = rc.line := congrArg Standing.line h
  have hstate : final.state = .notStarted := congrArg Standing.state h
  have hcam : final.webcamAvailable = false := congrArg Standing.webcamAvailable h
  have hconfig : final.activeConfig = rc.pendingActivation.getD rc.activeConfig :=
    congrArg Standing.activeConfig h
  have hstopped : Sends (Announced env a before final) rc
      ({ rc with state := .notStarted, opmode := "" }.setWebcamAvailable a.now false) :=
    Sends.of_sent (sends_stream { rc with state := .notStarted, opmode := "" } hline hcam
      (by simp [hstate])) rfl
  have hkept : ({ rc with state := .notStarted, opmode := "" }.setWebcamAvailable a.now false).line = rc.line :=
    congrArg Standing.line (standing_setWebcamAvailable _ _)
  simp only [restartRobot]
  generalize { rc with state := .notStarted, opmode := "" }.setWebcamAvailable a.now false = v at *
  rw [hpending]
  cases hp : rc.pendingActivation with
  | none => exact hstopped
  | some config =>
    have hnote : Notes env a before final.standing NOTIFY_ACTIVE_CONFIGURATION (env.configMetaText config) := by
      have hconfig' : final.standing.activeConfig = config := hconfig.trans (by rw [hp]; rfl)
      exact hconfig' ▸ .activeConfig
    exact hstopped.trans (Sends.of_sent
      (sends_note { v with pendingActivation := none, activeConfig := config }
        (hline.trans hkept.symm) hnote) rfl)

theorem sends_crashTick (h : final.standing = (rc.crashTick a.now).standing) :
    Sends (Announced env a before final) rc (rc.crashTick a.now) := by
  by_cases hcrash : rc.Crashes a.now
  · rw [standing_crashTick hcrash] at h
    have hline : final.line = rc.line := congrArg Standing.line h
    have hstate : final.state = .stopped := congrArg Standing.state h
    have htrace : Sends (Announced env a before final) rc
        ({ rc with runStarted := none }.sendCommand a.now SHOW_STACKTRACE CRASH_STACKTRACE) :=
      Sends.of_sent (sends_note { rc with runStarted := none } hline (.stacktrace hstate)) rfl
    have hkept := @standing_sendCommand a.now { rc with runStarted := none } SHOW_STACKTRACE
      CRASH_STACKTRACE
    rw [crashTick_crashes hcrash]
    refine htrace.trans (sends_switch (v := { { rc with runStarted := none }.sendCommand a.now SHOW_STACKTRACE
      CRASH_STACKTRACE with state := .stopped, opmode := "" }) rfl ?_ ?_ ?_ (.stopped hstate))
    · exact hline.trans (congrArg Standing.line hkept).symm
    · exact congrArg Standing.webcamAvailable h
    · simp [hstate]
  · rw [crashTick_quiet hcrash]
    exact .refl _ rc

theorem sends_saveConfiguration (h : final.standing = (rc.saveConfiguration env a.now extra).standing) :
    Sends (Announced env a before final) rc (rc.saveConfiguration env a.now extra) := by
  rw [saveConfiguration] at h ⊢
  split at h
  · exact .refl _ rc
  · rename_i metaJson xml _
    simp only at h ⊢
    split at h
    · exact .refl _ rc
    · rename_i config _
      have hkept : (rc.assignId config).2.sent = rc.sent := by
        rw [assignId]
        split <;> rfl
      generalize hv : (rc.assignId config).2.storeConfig (rc.assignId config).1 (String.ofList xml) = v at h ⊢
      have hsent : v.sent = rc.sent := Eq.trans (by rw [← hv]; rfl) hkept
      have hactive : (rc.assignId config).1 = v.activeConfig := by rw [← hv]; rfl
      rw [standing_sendCommand] at h
      rw [hactive]
      refine Sends.of_sent (sends_note _ (congrArg Standing.line h) ?_) hsent.symm
      exact h.symm ▸ .activeConfig

theorem sends_performCommand {command : Command} (hc : before.Asks a command)
    (hcam : rc.webcamAvailable = before.webcamAvailable) (hnum : rc.webcamFrameNum = before.webcamFrameNum)
    (h : final.standing = (rc.performCommand env a.now command).standing) :
    Sends (Announced env a before final) rc (rc.performCommand env a.now command) := by
  have htell {v : FakeRc} {name extra : String} (hsent : v.sent = rc.sent)
      (hv : Notes env a before v.standing name extra)
      (h : final.standing = (v.sendCommand a.now name extra).standing) :
      Sends (Announced env a before final) rc (v.sendCommand a.now name extra) := by
    rw [standing_sendCommand] at h
    exact Sends.of_sent (sends_note _ (congrArg Standing.line h) (h ▸ hv)) hsent.symm
  revert h
  let Tells (r : FakeRc) : Prop := final.standing = r.standing → Sends (Announced env a before final) rc r
  show Tells _
  rw [performCommand]
  refine iteInduction (fun hname => htell rfl (.opModeList hc hname)) fun _ => ?_
  refine iteInduction (fun hname => sends_initOpMode hc hname) fun _ => ?_
  refine iteInduction (fun hname => htell rfl (.running hc hname rfl rfl rfl)) fun _ => ?_
  refine iteInduction (fun _ => sends_restartRobot) fun _ => ?_
  refine iteInduction (fun hname => iteInduction (fun hon h => ?_) fun _ _ => .refl _ rc) fun _ => ?_
  · rw [standing_sendWebcamFrame] at h
    exact sends_sendWebcamFrame hc hname (hcam.symm.trans hon) hnum (congrArg Standing.line h)
  refine iteInduction (fun _ => htell rfl .activeConfig) fun _ => ?_
  refine iteInduction (fun hname => htell rfl (.configs hc hname)) fun _ => ?_
  refine iteInduction (fun hname => htell rfl ?_) fun _ => ?_
  · rw [requestedXml]
    cases hxml : (env.configMeta command.extra).bind fun config => rc.savedXml (configKey config) with
    | none => exact .cannedXml hc hname hxml
    | some xml => exact .savedXml hc hname hxml
  refine iteInduction (fun hname => htell rfl (.devices hc hname)) fun _ => ?_
  refine iteInduction (fun hname => htell rfl (.scan hc hname)) fun _ => ?_
  refine iteInduction (fun _ _ => ?_) fun _ => ?_
  · rw [activateConfiguration]
    split
    · exact .refl _ rc
    · exact .refl _ _
  refine iteInduction (fun _ => sends_saveConfiguration) fun _ => ?_
  refine iteInduction (fun _ _ => ?_) fun _ _ => .refl _ rc
  rw [deleteConfiguration]
  split
  · exact .refl _ rc
  · exact .refl _ _

end Sending

section Passes

variable {src : SocketAddr} {after : FakeRc} {x : SocketAddr × Packet}

/-- What is sent because something was received. -/
def Answer (env : Env) (a : Arrival) (before after : FakeRc) (x : SocketAddr × Packet) : Prop :=
  Message env a before after x ∧ ∀ t, x.2 ≠ .telemetry t

theorem Announced.answer (h : Announced env a before after x) : Answer env a before after x := by
  obtain ⟨hds,seq,name,extra,hc,hnote⟩ := h
  obtain ⟨dst,packet⟩ := x
  obtain rfl : packet = .command ⟨seq,after.uptime a.now,false,name,extra⟩ := hc
  exact ⟨.notes hds hnote,by simp⟩

/-- A pass notes when its datagram came before it handles the packet, and is as it was else. -/
structure Begun (a : Arrival) (src : SocketAddr) (before rc : FakeRc) : Prop where
  standing : rc.standing = before.standing
  frame : rc.webcamFrameNum = before.webcamFrameNum
  held : rc.heldAgainst a.now src = before.heldAgainst a.now src

theorem note_begun (rc : FakeRc) (a : Arrival) (src : SocketAddr) : Begun a src rc (rc.note a.now src) := by
  rw [note]
  split
  · rename_i hds
    exact ⟨rfl,rfl,by simp [heldAgainst,hds]⟩
  · exact ⟨rfl,rfl,rfl⟩

theorem sends_discovery {p : PeerDiscovery} (hrc : Begun a src before rc)
    (hp : a.Hears src (.peerDiscovery p))
    (h : after.standing = (rc.handlePacket env a.now (.peerDiscovery p) src).standing) :
    Sends (Answer env a before after) rc (rc.handlePacket env a.now (.peerDiscovery p) src) := by
  rw [handlePacket] at h ⊢
  cases hbusy : rc.heldAgainst a.now src with
  | true =>
    rw [if_pos rfl]
    have hrefuses : Message env a before after (src,busy) := .refuses hp (hrc.held ▸ hbusy)
    exact sends_sendTo rc ⟨hrefuses,by simp⟩
  | false =>
    rw [hbusy,if_neg Bool.false_ne_true] at h
    rw [if_neg Bool.false_ne_true]
    have hds : after.ds = some src := by
      refine (congrArg Standing.ds h).trans ?_
      show (if rc.ds ≠ some src then { rc with ds := some src } else rc).ds = some src
      split
      · rfl
      · rename_i hsame
        exact not_not.mp hsame
    have hsent : (if rc.ds ≠ some src then { rc with ds := some src } else rc).sent = rc.sent := by
      split <;> rfl
    exact Sends.of_sent (sends_sendTo _ ⟨.accepts hp (hrc.held ▸ hbusy) hds,by simp⟩) hsent.symm

theorem webcamFrameNum_send (rc : FakeRc) (packet : Packet) :
    (rc.send packet).webcamFrameNum = rc.webcamFrameNum := by
  rw [send]
  split <;> rfl

theorem sends_handleCommand {c : Command} (hrc : Begun a src before rc) (hds : rc.ds = some src)
    (hp : a.Hears src (.command c)) (h : after.standing = (rc.handleCommand env a.now c).standing) :
    Sends (Answer env a before after) rc (rc.handleCommand env a.now c) := by
  have hkept : (rc.handleCommand env a.now c).ds = rc.ds := congrArg (·.1) (hold_handleCommand c)
  have hafter : after.ds = some src := (congrArg Standing.ds h).trans (hkept.trans hds)
  have hbefore : before.ds = some src := (congrArg Standing.ds hrc.standing).symm.trans hds
  rw [handleCommand] at h ⊢
  by_cases hack : c.acknowledged = true
  · rw [if_pos hack]
    exact .refl _ rc
  · rw [if_neg hack] at h ⊢
    have hasks : before.Asks a c := ⟨src,hbefore,hp,by simpa using hack⟩
    have hacked : (rc.send (.command (Command.ackOf c))).standing = before.standing :=
      (standing_send rc _).trans hrc.standing
    refine Sends.trans (sends_send rc fun dst hdst => ?_) ((sends_performCommand hasks
      (congrArg Standing.webcamAvailable hacked) ((webcamFrameNum_send rc _).trans hrc.frame) h).mono
        fun _ hx => hx.answer)
    obtain rfl := Option.some.inj (hds.symm.trans hdst)
    exact ⟨.acks hp (by simpa using hack) hafter,by simp⟩

theorem sends_handlePacket {packet : Packet} (hrc : Begun a src before rc) (hp : a.Hears src packet)
    (h : after.standing = (rc.handlePacket env a.now packet src).standing) :
    Sends (Answer env a before after) rc (rc.handlePacket env a.now packet src) := by
  cases packet with
  | peerDiscovery p => exact sends_discovery hrc hp h
  | heartbeat hb =>
    rw [handlePacket] at h ⊢
    by_cases hds : rc.ds = some src
    · rw [if_pos hds] at h ⊢
      have hafter : after.ds = some src := (congrArg Standing.ds h).trans hds
      have hstate : rc.state = before.state := congrArg Standing.state hrc.standing
      have hbeats : Message env a before after (src,.heartbeat
          { hb with robotState := rc.state, seq := rc.seq+1 }) := hstate ▸ .beats hp hafter
      exact Sends.of_sent (sends_sendTo { rc with seq := rc.seq+1 } ⟨hbeats,by simp⟩) rfl
    · rw [if_neg hds]
      exact .refl _ rc
  | command c =>
    rw [handlePacket] at h ⊢
    by_cases hds : rc.ds = some src
    · rw [if_pos hds] at h ⊢
      exact sends_handleCommand hrc hds hp h
    · rw [if_neg hds]
      exact .refl _ rc
  | gamepad gp =>
    refine ⟨[],?_,by simp⟩
    rw [List.append_nil]
    show (rc.handleGamepad gp).sent = rc.sent
    rw [handleGamepad]
    refine kept_ite sent ?_ rfl
    refine kept_ite sent ?_ rfl
    refine kept_ite sent ?_ ?_ <;> exact kept_ite sent rfl rfl
  | telemetry t => exact .refl _ rc
  | keepAlive k => exact .refl _ rc

theorem note_sent (rc : FakeRc) (now : ℕ) (src : SocketAddr) : (rc.note now src).sent = rc.sent := by
  rw [note]
  split <;> rfl

theorem receive_datagram (env : Env) (rc : FakeRc) (now : ℕ) (data : List UInt8) (src : SocketAddr) :
    rc.receive env now (.datagram data src) =
      match Packet.parse (data.take BUF_LEN) with
      | .error _ => rc.note now src
      | .ok packet => (rc.note now src).handlePacket env now packet src := rfl

theorem sends_receive (h : after.standing = (rc.receive env a.now a.received).standing) :
    Sends (Answer env a rc after) rc (rc.receive env a.now a.received) := by
  cases hreceived : a.received with
  | timedOut => exact .refl _ rc
  | failed error => exact .refl _ rc
  | datagram data src =>
    rw [hreceived,receive_datagram] at h
    rw [receive_datagram]
    split at h
    · exact ⟨[],by rw [note_sent,List.append_nil],by simp⟩
    · rename_i packet hparse
      have hp : a.Hears src packet := ⟨data,hreceived,hparse⟩
      exact Sends.of_sent (sends_handlePacket (note_begun rc a src) hp h) (note_sent rc a.now src).symm

/-- A crash makes nothing untrue of what was told in the same pass. -/
theorem Notes.crash (hcrash : rc.Crashes a.now) {name extra : String}
    (h : Notes env a before rc.standing name extra) :
    Notes env a before (rc.crashTick a.now).standing name extra := by
  obtain ⟨hopmode,hstate,t,ht,hle⟩ := id hcrash
  have hrunning : rc.standing.state = .running := hstate
  rw [standing_crashTick hcrash]
  cases h with
  | opModeList hc hname => exact .opModeList hc hname
  | inited _ _ hinit => exact absurd (hrunning.symm.trans hinit) (by simp)
  | stopped hstopped => exact absurd (hrunning.symm.trans hstopped) (by simp)
  | running _ _ _ _ hrun =>
    obtain rfl := Option.some.inj (ht.symm.trans hrun)
    rw [Nat.sub_self] at hle
    exact absurd hle (by decide)
  | stream _ hno => exact absurd hrunning hno
  | activeConfig => exact .activeConfig
  | configs hc hname => exact .configs hc hname
  | savedXml hc hname hxml => exact .savedXml hc hname hxml
  | cannedXml hc hname hxml => exact .cannedXml hc hname hxml
  | devices hc hname => exact .devices hc hname
  | scan hc hname => exact .scan hc hname
  | stacktrace => exact .stacktrace rfl
  | frameBegin hc hname hcam => exact .frameBegin hc hname hcam
  | frameChunk hc hname hcam hmem => exact .frameChunk hc hname hcam hmem

theorem line_crashTick : (rc.crashTick now).line = rc.line := by
  by_cases hcrash : rc.Crashes now
  · exact congrArg Standing.line (standing_crashTick hcrash)
  · rw [crashTick_quiet hcrash]

theorem Answer.crashTick (h : Answer env a before rc x)
    (hafter : after.standing = (rc.crashTick a.now).standing) : Message env a before after x := by
  obtain ⟨hmessage,htelemetry⟩ := h
  have hline : after.line = rc.line := (congrArg Standing.line hafter).trans line_crashTick
  obtain ⟨hds,hstarted⟩ := Prod.mk.inj hline
  have hnotes {name extra : String} (hn : Notes env a before rc.standing name extra) :
      Notes env a before after.standing name extra := by
    rw [hafter]
    by_cases hcrash : rc.Crashes a.now
    · exact hn.crash hcrash
    · rwa [crashTick_quiet hcrash]
  cases hmessage with
  | refuses hp h => exact .refuses hp h
  | accepts hp hfree h => exact .accepts hp hfree (hds.trans h)
  | beats hp h => exact .beats hp (hds.trans h)
  | telemeters => exact absurd rfl (htelemetry _)
  | battery => exact absurd rfl (htelemetry _)
  | acks hp hack h => exact .acks hp hack (hds.trans h)
  | notes h hc =>
    rw [uptime,← hstarted]
    exact .notes (hds.trans h) (hnotes hc)

/-- What the telemetry shows, and who gets it. -/
def display (rc : FakeRc) : Standing × String × String × F32 :=
  (rc.standing,rc.alliance,rc.startPosition,rc.leftStickY)

theorem telemetryOf_display (env : Env) (h : rc'.display = rc.display) (seq : UInt16) :
    telemetryOf env rc' now seq = telemetryOf env rc now seq ∧ rcBatteryOf rc' now seq = rcBatteryOf rc now seq := by
  simp only [display,Prod.mk.injEq] at h
  obtain ⟨hstanding,halliance,hstart,hstick⟩ := h
  have hstate : rc'.state = rc.state := congrArg Standing.state hstanding
  have hopmode : rc'.opmode = rc.opmode := congrArg Standing.opmode hstanding
  have hstarted : rc'.started = rc.started := congrArg Standing.started hstanding
  simp only [telemetryOf,rcBatteryOf,uptime,stateLines,hstate,hopmode,hstarted,halliance,hstart,hstick,
    and_self]

theorem display_send (rc : FakeRc) (packet : Packet) : (rc.send packet).display = rc.display := by
  rw [send]
  split <;> rfl

theorem display_telemetryDue : (rc.telemetryDue env now).display = rc.display := by
  rw [telemetryDue]
  split
  · exact display_send { rc with lastTelemetry := now, seq := rc.seq+1 } _
  · rfl

theorem display_rcBatteryDue : (rc.rcBatteryDue now).display = rc.display := by
  rw [rcBatteryDue]
  split
  · exact display_send { rc with lastRcBattery := now, seq := rc.seq+1 } _
  · rfl

theorem standing_telemetryDue : (rc.telemetryDue env now).standing = rc.standing :=
  congrArg (·.1) display_telemetryDue

theorem standing_rcBatteryDue : (rc.rcBatteryDue now).standing = rc.standing :=
  congrArg (·.1) display_rcBatteryDue

theorem sends_telemetryDue (h : after.display = rc.display) :
    Sends (Message env a before after) rc (rc.telemetryDue env a.now) := by
  have hds : after.ds = rc.ds := congrArg (·.1.ds) h
  rw [telemetryDue]
  split
  · refine Sends.of_sent
      (sends_send { rc with lastTelemetry := a.now, seq := rc.seq+1 } fun dst hdst => ?_) rfl
    have hsaid : Message env a before after (dst,.telemetry (telemetryOf env rc a.now (rc.seq+1))) :=
      (telemetryOf_display env h _).1 ▸ .telemeters (hds.trans hdst)
    exact hsaid
  · exact .refl _ rc

theorem sends_rcBatteryDue (h : after.display = rc.display) :
    Sends (Message env a before after) rc (rc.rcBatteryDue a.now) := by
  have hds : after.ds = rc.ds := congrArg (·.1.ds) h
  rw [rcBatteryDue]
  split
  · refine Sends.of_sent
      (sends_send { rc with lastRcBattery := a.now, seq := rc.seq+1 } fun dst hdst => ?_) rfl
    have hsaid : Message env a before after (dst,.telemetry (rcBatteryOf rc a.now (rc.seq+1))) :=
      (telemetryOf_display env h _).2 ▸ .battery (hds.trans hdst)
    exact hsaid
  · exact .refl _ rc

/-- What a pass leads to is what the received packet and a crash lead to. -/
theorem display_pass (env : Env) (rc : FakeRc) (a : Arrival) :
    (rc.pass env a).display = ((rc.receive env a.now a.received).crashTick a.now).display := by
  rw [pass,ticks,display_rcBatteryDue,display_telemetryDue]

theorem standing_pass (env : Env) (rc : FakeRc) (a : Arrival) :
    (rc.pass env a).standing = ((rc.receive env a.now a.received).crashTick a.now).standing :=
  congrArg (·.1) (display_pass env rc a)

/-- Every packet of a pass is so of the states around it. -/
theorem pass_sends (env : Env) (rc : FakeRc) (a : Arrival) :
    Sends (Message env a rc (rc.pass env a)) rc (rc.pass env a) := by
  have hstanding := standing_pass env rc a
  have hdisplay := display_pass env rc a
  have hreceive : Sends (Answer env a rc (rc.receive env a.now a.received)) rc
      (rc.receive env a.now a.received) := sends_receive rfl
  generalize hafter : rc.pass env a = after at hstanding hdisplay ⊢
  rw [pass,ticks] at hafter
  have hcrash : Sends (Message env a rc after) _ _ := (sends_crashTick hstanding).mono fun _ h => h.answer.1
  have htelemetry : Sends (Message env a rc after) _ _ := sends_telemetryDue hdisplay
  have hshown := hdisplay.trans (@display_telemetryDue env a.now _).symm
  have hbattery : Sends (Message env a rc after) _ _ := sends_rcBatteryDue hshown
  rw [hafter] at hbattery
  exact ((hreceive.mono fun _ h => h.crashTick hstanding).trans hcrash).trans (htelemetry.trans hbattery)

end Passes

section Runs

/-- The packet was sent in one of the passes, and is so of the states around it. -/
def SentIn (env : Env) (rc : FakeRc) (as : List Arrival) (x : SocketAddr × Packet) : Prop :=
  ∃ front a, front ++ [a] <+: as ∧ Message env a (run env rc front) (run env rc (front ++ [a])) x

/-- The controller never says of itself what is not so: every packet of a run answers what its pass
has heard, or tells the station that is connected how the controller is. -/
theorem run_sends (env : Env) (now : ℕ) (phantomUntil : Option ℕ) (as : List Arrival) :
    ∀ x ∈ (run env (start now phantomUntil) as).sent, SentIn env (start now phantomUntil) as x := by
  induction as using List.reverseRecOn with
  | nil => exact fun _ hx => absurd hx List.not_mem_nil
  | append_singleton as a ih =>
    have hearlier : ∀ x ∈ (run env (start now phantomUntil) as).sent,
        SentIn env (start now phantomUntil) (as ++ [a]) x := by
      intro x hx
      obtain ⟨front,b,hfront,hmessage⟩ := ih x hx
      exact ⟨front,b,hfront.trans (List.prefix_append _ _),hmessage⟩
    have hpass := pass_sends env (run env (start now phantomUntil) as) a
    rw [← run_snoc] at hpass
    exact (hpass.mono fun x hx => ⟨as,a,List.prefix_rfl,hx⟩).mem hearlier

/-- A camera that sees three bytes. -/
def threeBytes : Env := { blankEnv with renderFrame := fun _ => [1,2,3], frameChunkText := FrameChunk.encodedData }

/-- What the connected station asks for, as it comes. -/
def ask (now : ℕ) (name extra : String) : Arrival :=
  ⟨now,.datagram ((Packet.command ⟨0,7,false,name,extra⟩).serialize.getD []) stationA⟩

/-- A station calls, chooses an OpMode and asks for a picture, which comes in one chunk. -/
theorem picture_sent : SentIn threeBytes (start 0 none)
    [⟨0,.datagram discovery stationA⟩,ask 1 INIT_OP_MODE "Solo",ask 2 REQUEST_FRAME ""]
    (stationA,.command ⟨4,2,false,RECEIVE_FRAME_CHUNK,"AQID"⟩) :=
  run_sends threeBytes 0 none _ _ (by decide +kernel)

end Runs

end FakeRc
end Robocol
