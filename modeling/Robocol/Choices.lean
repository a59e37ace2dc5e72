import Mathlib.Algebra.Group.Nat.Even
import Robocol.OpModes

/-! What its user has chosen on the controller: the configuration, by commands, and the alliance and
start position, by the buttons of the first gamepad. Two small machines say what was chosen last. -/
namespace Robocol

/-! A button that turns a switch of two positions, as often as it is pressed. -/
namespace Presses

variable {α : Type} [DecidableEq α] {a b : α} {up down heeded : Bool}

def flip (a b s : α) : α := if s = a then b else a

/-- How often the button goes down, of the times at which it is looked at and heeded. -/
def presses : Bool → List (Bool × Bool) → ℕ
  | _, [] => 0
  | was, (heeded,down) :: xs => (if heeded ∧ down ∧ ¬was then 1 else 0)+presses down xs

/-- The switch, and whether the button is down. -/
def look (a b : α) (s : α × Bool) (x : Bool × Bool) : α × Bool :=
  (if x.1 ∧ x.2 ∧ ¬s.2 then flip a b s.1 else s.1,x.2)

theorem looks_eq (s : α) (was : Bool) (xs : List (Bool × Bool)) :
    (xs.foldl (look a b) (s,was)).1 = (flip a b)^[presses was xs] s := by
  induction xs generalizing s was with
  | nil => rfl
  | cons x xs ih =>
    rw [List.foldl_cons,look,ih,presses,Nat.add_comm,Function.iterate_add_apply]
    split <;> rfl

theorem flip_iterate (hne : a ≠ b) (n : ℕ) : (flip a b)^[n] a = if Even n then a else b := by
  induction n with
  | zero => rfl
  | succ n ih =>
    rw [Function.iterate_succ_apply',ih,flip]
    by_cases hn : Even n
    · rw [if_pos hn,if_pos rfl,if_neg (Nat.even_add_one.not.mpr (not_not.mpr hn))]
    · rw [if_neg hn,if_neg hne.symm,if_pos (Nat.even_add_one.mpr hn)]

end Presses

open Cmd StdText Client Presses

namespace FakeRc

/-- The active configuration, the one a restart makes active, and the last id that was given. -/
structure Plan where
  active : ConfigMeta
  pending : Option ConfigMeta
  lastId : Int64

inductive Decision
  | save (config : ConfigMeta)
  | activate (config : ConfigMeta)
  | restart

def Plan.decide (p : Plan) : Decision → Plan
  | .save config =>
    if config.resourceId = 0 then
      { p with active := { config with resourceId := p.lastId+1 }, lastId := p.lastId+1 }
    else { p with active := config }
  | .activate config => { p with pending := some config }
  | .restart => { p with active := p.pending.getD p.active, pending := none }

def Plan.take (p : Plan) (d : Option Decision) : Plan := d.elim p p.decide

/-- A save gives the configuration an id if it has none. -/
theorem decide_save (p : Plan) (config : ConfigMeta) : p.decide (.save config) =
    { p with
      active := { config with
        resourceId := if config.resourceId = 0 then p.lastId+1 else config.resourceId }
      lastId := if config.resourceId = 0 then p.lastId+1 else p.lastId } := by
  rw [Plan.decide]
  split <;> rfl

/-- The configuration that a save is of. -/
def savedMeta (env : Env) (extra : String) : Option ConfigMeta :=
  (splitOnce ';' extra.toList).bind fun (metaJson,_) => env.configMeta (String.ofList metaJson)

def decisionOf (env : Env) (c : Command) : Option Decision :=
  if c.acknowledged then none
  else if c.name = SAVE_CONFIGURATION then (savedMeta env c.extra).map .save
  else if c.name = ACTIVATE_CONFIGURATION then (env.configMeta c.extra).map .activate
  else if c.name = RESTART_ROBOT then some .restart
  else none

def plan (rc : FakeRc) : Plan := ⟨rc.activeConfig,rc.pendingActivation,rc.nextResourceId⟩

/-- What the first gamepad has chosen, and how its stick and buttons were seen last. -/
structure Pad where
  alliance : String
  startPosition : String
  stick : F32
  x : Bool
  y : Bool

def pad (rc : FakeRc) : Pad := ⟨rc.alliance,rc.startPosition,rc.leftStickY,rc.prevX,rc.prevY⟩

/-- A gamepad is seen; its buttons are heeded in an OpMode that has not started. -/
def Pad.see (p : Pad) (heard : Bool × Gamepad) : Pad where
  alliance := (look "RED" "BLUE" (p.alliance,p.x) (heard.1,heard.2.x)).1
  startPosition := (look "LEFT" "RIGHT" (p.startPosition,p.y) (heard.1,heard.2.y)).1
  stick := heard.2.leftStickY
  x := heard.2.x
  y := heard.2.y

structure Choices where
  plan : Plan
  pad : Pad

def Choices.take (c : Choices) (d : Option Decision) : Choices := { c with plan := c.plan.take d }

def choices (rc : FakeRc) : Choices := ⟨rc.plan,rc.pad⟩

variable {env : Env} {rc : FakeRc} {now : ℕ} {c : Command}

section Choices

@[simp] theorem choices_sendTo (rc : FakeRc) (dst : SocketAddr) (packet : Packet) :
    (rc.sendTo dst packet).choices = rc.choices := rfl

@[simp] theorem choices_send (rc : FakeRc) (packet : Packet) : (rc.send packet).choices = rc.choices := by
  rw [send]
  split <;> rfl

@[simp] theorem choices_sendCommand (rc : FakeRc) (name extra : String) :
    (rc.sendCommand now name extra).choices = rc.choices := choices_send { rc with seq := rc.seq+1 } _

@[simp] theorem choices_setWebcamAvailable (rc : FakeRc) (available : Bool) :
    (rc.setWebcamAvailable now available).choices = rc.choices :=
  kept_ite choices rfl (choices_sendCommand { rc with webcamAvailable := available } _ _)

theorem choices_sendWebcamFrame : (rc.sendWebcamFrame env now).choices = rc.choices := by
  have hfold (cs : List (List UInt8 × ℕ)) (text : List UInt8 × ℕ → String) (v : FakeRc) :
      (cs.foldl (fun v c => v.sendCommand now RECEIVE_FRAME_CHUNK (text c)) v).choices = v.choices := by
    induction cs generalizing v with
    | nil => rfl
    | cons c cs ih => rw [List.foldl_cons,ih,choices_sendCommand]
  rw [sendWebcamFrame]
  exact (hfold _ _ _).trans (choices_sendCommand _ _ _)

theorem choices_initOpMode (name : String) : (rc.initOpMode now name).choices = rc.choices := by
  simp only [initOpMode,choices_sendCommand]
  exact kept_ite choices (choices_setWebcamAvailable _ _) (choices_setWebcamAvailable _ _)

/-- A restart makes the pending configuration the active one. -/
theorem choices_restartRobot : (rc.restartRobot env now).choices = rc.choices.take (some .restart) := by
  have hstopped : ({ rc with state := .notStarted, opmode := "" }.setWebcamAvailable now false).choices =
    rc.choices := choices_setWebcamAvailable _ _
  simp only [restartRobot]
  generalize { rc with state := .notStarted, opmode := "" }.setWebcamAvailable now false = v at *
  have hpending : v.pendingActivation = rc.plan.pending := congrArg (fun c => c.plan.pending) hstopped
  rw [← hstopped]
  cases hp : v.pendingActivation with
  | none => simp [Choices.take,Plan.take,Plan.decide,choices,plan,pad,hp]
  | some config =>
    simp only [choices_sendCommand]
    simp [Choices.take,Plan.take,Plan.decide,choices,plan,pad,hp]

theorem choices_activateConfiguration (extra : String) :
    (rc.activateConfiguration env extra).choices = rc.choices.take ((env.configMeta extra).map .activate) := by
  rw [activateConfiguration]
  cases env.configMeta extra <;> rfl

theorem choices_saveConfiguration (extra : String) :
    (rc.saveConfiguration env now extra).choices = rc.choices.take ((savedMeta env extra).map .save) := by
  rw [saveConfiguration,savedMeta]
  cases splitOnce ';' extra.toList with
  | none => rfl
  | some parts =>
    obtain ⟨metaJson,xml⟩ := parts
    simp only [Option.bind_some]
    cases env.configMeta (String.ofList metaJson) with
    | none => rfl
    | some config =>
      simp only [choices_sendCommand,assignId,Option.map_some,Choices.take,Plan.take,Option.elim_some,Plan.decide]
      split <;> rfl

theorem choices_deleteConfiguration (extra : String) : (rc.deleteConfiguration env extra).choices = rc.choices := by
  rw [deleteConfiguration]
  split <;> rfl

variable (env rc now) in
/-- Besides the three decisions no command is about the plan. -/
theorem choices_performCommand (hack : c.acknowledged = false) :
    (rc.performCommand env now c).choices = rc.choices.take (decisionOf env c) := by
  by_cases hsave : c.name = SAVE_CONFIGURATION
  · have hperform : rc.performCommand env now c = rc.saveConfiguration env now c.extra := by
      simp only [performCommand,hsave]
      rfl
    rw [hperform,choices_saveConfiguration,decisionOf,if_neg (by simp [hack]),if_pos hsave]
  · by_cases hactivate : c.name = ACTIVATE_CONFIGURATION
    · have hperform : rc.performCommand env now c = rc.activateConfiguration env c.extra := by
        simp only [performCommand,hactivate]
        rfl
      rw [hperform,choices_activateConfiguration,decisionOf,if_neg (by simp [hack]),if_neg hsave,if_pos hactivate]
    · by_cases hrestart : c.name = RESTART_ROBOT
      · have hperform : rc.performCommand env now c = rc.restartRobot env now := by
          simp only [performCommand,hrestart]
          rfl
        rw [hperform,choices_restartRobot,decisionOf,if_neg (by simp [hack]),if_neg hsave,if_neg hactivate,
          if_pos hrestart]
      · have hnone : decisionOf env c = none := by
          rw [decisionOf,if_neg (by simp [hack]),if_neg hsave,if_neg hactivate,if_neg hrestart]
        rw [hnone,performCommand]
        refine kept_ite choices (choices_sendCommand _ _ _) (kept_ite choices (choices_initOpMode _) ?_)
        refine kept_ite choices (choices_sendCommand _ _ _) ?_
        rw [if_neg hrestart]
        refine kept_ite choices (kept_ite choices choices_sendWebcamFrame rfl) ?_
        iterate 5 refine kept_ite choices (choices_sendCommand _ _ _) ?_
        rw [if_neg hactivate,if_neg hsave]
        exact kept_ite choices (choices_deleteConfiguration _) rfl

/-- The gamepad that a packet is, if it is the first. -/
def gamepadOf : Packet → Option Gamepad
  | .gamepad gp => if gp.user = 1 then some gp else none
  | _ => none

theorem choices_handleGamepad (gp : Gamepad) : (rc.handleGamepad gp).choices =
    ⟨rc.plan,(gamepadOf (.gamepad gp)).elim rc.pad fun gp => rc.pad.see (decide (rc.state = .init),gp)⟩ := by
  rw [handleGamepad,gamepadOf]
  by_cases huser : gp.user = 1
  · rw [if_pos huser,if_pos huser]
    by_cases hinit : rc.state = .init
    · by_cases hx : gp.x = true ∧ rc.prevX = false <;> by_cases hy : gp.y = true ∧ rc.prevY = false <;>
        simp [choices,plan,pad,Pad.see,look,Presses.flip,hinit,hx,hy]
    · simp [choices,plan,pad,Pad.see,look,hinit]
  · rw [if_neg huser,if_neg huser]
    rfl

theorem choices_crashTick : (rc.crashTick now).choices = rc.choices := by
  refine kept_ite choices rfl (kept_ite choices rfl ?_)
  simp only [choices_sendCommand,choices_setWebcamAvailable]
  exact choices_sendCommand { rc with runStarted := none } _ _

theorem choices_ticks : (rc.ticks env now).choices = rc.choices := by
  have htelemetry (v : FakeRc) : (v.telemetryDue env now).choices = v.choices :=
    kept_ite choices (choices_send { v with lastTelemetry := now, seq := v.seq+1 } _) rfl
  have hbattery (v : FakeRc) : (v.rcBatteryDue now).choices = v.choices :=
    kept_ite choices (choices_send { v with lastRcBattery := now, seq := v.seq+1 } _) rfl
  exact (hbattery _).trans ((htelemetry _).trans choices_crashTick)

/-- The command a packet is. -/
def commandOf : Packet → Option Command
  | .command c => some c
  | _ => none

theorem choices_handleCommand : (rc.handleCommand env now c).choices = rc.choices.take (decisionOf env c) := by
  rw [handleCommand]
  by_cases hack : c.acknowledged = true
  · rw [if_pos hack,decisionOf,if_pos hack]
    rfl
  · rw [if_neg hack,choices_performCommand env _ now (by simpa using hack),choices_send]

variable (env rc now) in
theorem choices_handlePacket (packet : Packet) (src : SocketAddr) :
    (rc.handlePacket env now packet src).choices =
      ⟨rc.plan.take ((if rc.ds = some src then commandOf packet else none).bind (decisionOf env)),
        (gamepadOf packet).elim rc.pad fun gp => rc.pad.see (decide (rc.state = .init),gp)⟩ := by
  have hnone (h : commandOf packet = none) :
      (if rc.ds = some src then commandOf packet else none) = none := by rw [h,ite_self]
  cases packet with
  | peerDiscovery p =>
    rw [hnone rfl]
    exact kept_ite choices rfl (kept_ite choices rfl rfl)
  | heartbeat hb =>
    rw [hnone rfl]
    exact kept_ite choices rfl rfl
  | command c =>
    rw [handlePacket]
    by_cases hds : rc.ds = some src
    · rw [if_pos hds,if_pos hds,choices_handleCommand]
      rfl
    · rw [if_neg hds,if_neg hds]
      rfl
  | gamepad gp =>
    rw [hnone rfl]
    exact choices_handleGamepad gp
  | telemetry t =>
    rw [hnone rfl]
    rfl
  | keepAlive k =>
    rw [hnone rfl]
    rfl

def played (a : Arrival) : Option Gamepad :=
  match a.received with
  | .datagram data _ =>
    match Packet.parse (data.take BUF_LEN) with
    | .ok packet => gamepadOf packet
    | .error _ => none
  | _ => none

/-- The gamepad that a pass sees, and whether it heeds the buttons. -/
def seen (rc : FakeRc) (a : Arrival) : Option (Bool × Gamepad) :=
  (played a).map fun gp => (decide (rc.state = .init),gp)

variable (env rc) in
/-- A pass decides what the command decides that it takes, and sees a gamepad whoever sent it. -/
theorem choices_pass (a : Arrival) : (rc.pass env a).choices =
    ⟨rc.plan.take ((rc.taken a).bind (decisionOf env)),(rc.seen a).elim rc.pad rc.pad.see⟩ := by
  rw [pass,choices_ticks]
  cases hr : a.received with
  | timedOut => simp [taken,seen,played,hr,receive,Plan.take,choices]
  | failed error => simp [taken,seen,played,hr,receive,Plan.take,choices]
  | datagram data src =>
    have hchoices : (rc.note a.now src).choices = rc.choices := kept_ite choices rfl rfl
    have hds : (rc.note a.now src).ds = rc.ds := kept_ite ds rfl rfl
    have hstate : (rc.note a.now src).state = rc.state := kept_ite state rfl rfl
    have hplan : (rc.note a.now src).plan = rc.plan := congrArg Choices.plan hchoices
    have hpad : (rc.note a.now src).pad = rc.pad := congrArg Choices.pad hchoices
    rw [receive_datagram,taken,seen,played,hr]
    simp only [readCommand]
    cases Packet.parse (data.take BUF_LEN) with
    | error e =>
      rw [ite_self]
      exact hchoices
    | ok packet =>
      refine (choices_handlePacket env (rc.note a.now src) a.now packet src).trans ?_
      rw [hplan,hpad,hds,hstate,Option.elim_map]
      cases packet <;> rfl

variable (env rc) in
theorem plan_pass (a : Arrival) :
    (rc.pass env a).plan = rc.plan.take ((rc.taken a).bind (decisionOf env)) :=
  congrArg Choices.plan (choices_pass env rc a)

/-- What the commands of a run decide. -/
def decisions (env : Env) : FakeRc → List Arrival → List Decision
  | _, [] => []
  | rc, a :: as => ((rc.taken a).bind (decisionOf env)).toList ++ decisions env (rc.pass env a) as

/-- The gamepads that a run sees. -/
def gamepads (env : Env) : FakeRc → List Arrival → List (Bool × Gamepad)
  | _, [] => []
  | rc, a :: as => (rc.seen a).toList ++ gamepads env (rc.pass env a) as

theorem foldl_toList {β γ : Type} (f : β → γ → β) (b : β) (x : Option γ) :
    x.toList.foldl f b = x.elim b (f b) := by
  cases x <;> rfl

/-- A run takes the choices where its decisions and gamepads do. -/
theorem choices_run (rc : FakeRc) (as : List Arrival) : (run env rc as).choices =
    ⟨(decisions env rc as).foldl Plan.decide rc.plan,(gamepads env rc as).foldl Pad.see rc.pad⟩ := by
  induction as generalizing rc with
  | nil => rfl
  | cons a as ih =>
    have hpad : (rc.pass env a).pad = (rc.seen a).elim rc.pad rc.pad.see :=
      congrArg Choices.pad (choices_pass env rc a)
    rw [decisions,gamepads,List.foldl_append,List.foldl_append,foldl_toList,foldl_toList,← hpad]
    exact (ih (rc.pass env a)).trans (by rw [plan_pass]; rfl)

theorem plan_run (rc : FakeRc) (as : List Arrival) :
    (run env rc as).plan = (decisions env rc as).foldl Plan.decide rc.plan :=
  congrArg Choices.plan (choices_run rc as)

end Choices
section Pads

theorem alliance_foldl (p : Pad) (hs : List (Bool × Gamepad)) : (hs.foldl Pad.see p).alliance =
    (flip "RED" "BLUE")^[presses p.x (hs.map fun h => (h.1,h.2.x))] p.alliance := by
  have hlook : ((hs.foldl Pad.see p).alliance,(hs.foldl Pad.see p).x) =
      (hs.map fun h => (h.1,h.2.x)).foldl (look "RED" "BLUE") (p.alliance,p.x) := by
    induction hs generalizing p with
    | nil => rfl
    | cons h hs ih => exact ih (p.see h)
  rw [← looks_eq,← hlook]

theorem startPosition_foldl (p : Pad) (hs : List (Bool × Gamepad)) : (hs.foldl Pad.see p).startPosition =
    (flip "LEFT" "RIGHT")^[presses p.y (hs.map fun h => (h.1,h.2.y))] p.startPosition := by
  have hlook : ((hs.foldl Pad.see p).startPosition,(hs.foldl Pad.see p).y) =
      (hs.map fun h => (h.1,h.2.y)).foldl (look "LEFT" "RIGHT") (p.startPosition,p.y) := by
    induction hs generalizing p with
    | nil => rfl
    | cons h hs ih => exact ih (p.see h)
  rw [← looks_eq,← hlook]

theorem stick_foldl (p : Pad) (hs : List (Bool × Gamepad)) :
    (hs.foldl Pad.see p).stick = (hs.getLast?.map (·.2.leftStickY)).getD p.stick := by
  induction hs using List.reverseRecOn with
  | nil => rfl
  | append_singleton hs h ih =>
    rw [List.foldl_append,List.getLast?_concat]
    rfl

/-- A gamepad that is seen twice, as where the network doubles a packet, is seen once. -/
theorem handleGamepad_repeat (rc : FakeRc) (gp : Gamepad) :
    (rc.handleGamepad gp).handleGamepad gp = rc.handleGamepad gp := by
  by_cases huser : gp.user = 1
  · by_cases hinit : rc.state = .init
    · by_cases hx : gp.x = true ∧ rc.prevX = false <;> by_cases hy : gp.y = true ∧ rc.prevY = false <;>
        simp [handleGamepad,huser,hinit,hx,hy]
    · simp [handleGamepad,huser,hinit]
  · simp [handleGamepad,huser]

/-- Over all arrivals, the alliance and the start position are those of the presses: the gamepads with the
button down, seen before an OpMode starts, where the gamepad seen last, whenever it was, had it up. -/
theorem selections_pressed (env : Env) (now : ℕ) (phantomUntil : Option ℕ) (as : List Arrival) :
    (run env (start now phantomUntil) as).alliance =
        (if Even (presses false ((gamepads env (start now phantomUntil) as).map fun h => (h.1,h.2.x)))
          then "RED" else "BLUE") ∧
      (run env (start now phantomUntil) as).startPosition =
        (if Even (presses false ((gamepads env (start now phantomUntil) as).map fun h => (h.1,h.2.y)))
          then "LEFT" else "RIGHT") ∧
      (run env (start now phantomUntil) as).leftStickY =
        ((gamepads env (start now phantomUntil) as).getLast?.map (·.2.leftStickY)).getD ⟨0⟩ := by
  have hpad : (run env (start now phantomUntil) as).pad =
      (gamepads env (start now phantomUntil) as).foldl Pad.see (start now phantomUntil).pad :=
    congrArg Choices.pad (choices_run _ as)
  refine ⟨(congrArg Pad.alliance hpad).trans ?_,(congrArg Pad.startPosition hpad).trans ?_,
    (congrArg Pad.stick hpad).trans (stick_foldl _ _)⟩
  · rw [alliance_foldl]
    exact flip_iterate (by decide) _
  · rw [startPosition_foldl]
    exact flip_iterate (by decide) _

end Pads


end FakeRc
end Robocol
