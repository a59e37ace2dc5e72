import Robocol.Choices
import Robocol.ConfigStore
import Robocol.Obedience

/-! How the controller comes to its configuration. Each one was chosen by a command that a station sent:
saved, which makes it active at once, or activated and then turned to by a restart. -/
namespace Robocol

open Cmd StdText Client Runs

namespace Deployment

/-- A station that was connected ordered the configuration to be activated. -/
def Activated (site : Site) (d0 : Deployment) (acts : List Act) (config : ConfigMeta) : Prop :=
  ∃ extra, Commanded site d0 acts ACTIVATE_CONFIGURATION extra ∧ site.rcEnv.configMeta extra = some config

def Restarts (rc : FakeRc) (a : FakeRc.Arrival) : Prop :=
  ∃ c, rc.taken a = some c ∧ c.acknowledged = false ∧ c.name = RESTART_ROBOT

/-- How a configuration comes to be the active one. -/
inductive Chosen (site : Site) (d0 : Deployment) (acts : List Act) : ConfigMeta → Prop
  | initial : Chosen site d0 acts FakeRc.noConfig
  | saved {extra : String} {config : ConfigMeta} (id : Int64)
      (h : Commanded site d0 acts SAVE_CONFIGURATION extra)
      (hconfig : FakeRc.savedMeta site.rcEnv extra = some config)
      (hid : config.resourceId ≠ 0 → id = config.resourceId) :
      Chosen site d0 acts { config with resourceId := id }
  | activated {config : ConfigMeta} {front : List Act} {a : FakeRc.Arrival}
      (h : Activated site d0 front config) (hfront : front ++ [.controller a] <+: acts)
      (hrestart : Restarts (run site d0 front).rc a) : Chosen site d0 acts config

variable {site : Site} {d0 : Deployment} {acts front : List Act} {config : ConfigMeta}
  {receiver : Option ℕ} {now : ℕ} {phantomUntil : Option ℕ} {a : FakeRc.Arrival}

section Configurations

theorem Activated.later (h : Activated site d0 front config) (hfront : front <+: acts) :
    Activated site d0 acts config := by
  obtain ⟨extra,hcommanded,hconfig⟩ := h
  exact ⟨extra,hcommanded.later hfront,hconfig⟩

theorem Chosen.later (h : Chosen site d0 front config) (hfront : front <+: acts) :
    Chosen site d0 acts config := by
  cases h with
  | initial => exact .initial
  | saved id h hconfig hid => exact .saved id (h.later hfront) hconfig hid
  | activated h hpre hrestart => exact .activated h (hpre.trans hfront) hrestart

/-- The active configuration was chosen, and the pending one was ordered. -/
structure Configured (site : Site) (d0 : Deployment) (acts : List Act) : Prop where
  active : Chosen site d0 acts (run site d0 acts).rc.activeConfig
  pending : ∀ config, (run site d0 acts).rc.pendingActivation = some config → Activated site d0 acts config

theorem Configured.of {plan : FakeRc.Plan} (hplan : (run site d0 acts).rc.plan = plan)
    (hactive : Chosen site d0 acts plan.active)
    (hpending : ∀ config, plan.pending = some config → Activated site d0 acts config) :
    Configured site d0 acts := by
  subst hplan
  exact ⟨hactive,hpending⟩

theorem Configured.restart (h : Configured site d0 front) (hrestarts : Restarts (run site d0 front).rc a) :
    Chosen site d0 (front ++ [.controller a])
      ((run site d0 front).rc.pendingActivation.getD (run site d0 front).rc.activeConfig) := by
  cases hp : (run site d0 front).rc.pendingActivation with
  | none => exact h.active.later (List.prefix_append _ _)
  | some config => exact .activated (h.pending config hp) List.prefix_rfl hrestarts

theorem Configured.controller
    (hlawful : Lawful (act site) (Delivers site) (start site receiver now phantomUntil) (front ++ [.controller a]))
    (h : Configured site (start site receiver now phantomUntil) front) :
    Configured site (start site receiver now phantomUntil) (front ++ [.controller a]) := by
  have hlater : front <+: front ++ [.controller a] := List.prefix_append _ _
  have hpending (config : ConfigMeta)
      (hp : (run site (start site receiver now phantomUntil) front).rc.pendingActivation = some config) :
      Activated site (start site receiver now phantomUntil) (front ++ [.controller a]) config :=
    (h.pending config hp).later hlater
  have hplan := FakeRc.plan_pass site.rcEnv (run site (start site receiver now phantomUntil) front).rc a
  have hafter : (run site (start site receiver now phantomUntil) front).rc.pass site.rcEnv a =
      (run site (start site receiver now phantomUntil) (front ++ [.controller a])).rc := by
    rw [run_snoc]
    rfl
  rw [hafter] at hplan
  cases htaken : (run site (start site receiver now phantomUntil) front).rc.taken a with
  | none =>
    rw [htaken] at hplan
    exact .of hplan (h.active.later hlater) hpending
  | some c =>
    rw [htaken,Option.bind_some,FakeRc.decisionOf] at hplan
    have horder (hack : ¬c.acknowledged = true) (hown : c.name ∉ ownCommands) :
        Commanded site (start site receiver now phantomUntil) (front ++ [.controller a]) c.name c.extra :=
      order_commanded hlawful List.prefix_rfl htaken (by simpa using hack) hown
    split_ifs at hplan with hack hsave hactivate hrestart
    · exact .of hplan (h.active.later hlater) hpending
    · have hcommanded := horder hack (by rw [hsave]; decide)
      rw [hsave] at hcommanded
      cases hconfig : FakeRc.savedMeta site.rcEnv c.extra with
      | none =>
        rw [hconfig] at hplan
        exact .of hplan (h.active.later hlater) hpending
      | some config =>
        rw [hconfig] at hplan
        refine .of (hplan.trans (FakeRc.decide_save _ config)) ?_ hpending
        exact .saved _ hcommanded hconfig fun hid => if_neg hid
    · have hcommanded := horder hack (by rw [hactivate]; decide)
      rw [hactivate] at hcommanded
      cases hconfig : site.rcEnv.configMeta c.extra with
      | none =>
        rw [hconfig] at hplan
        exact .of hplan (h.active.later hlater) hpending
      | some config =>
        rw [hconfig] at hplan
        refine .of hplan (h.active.later hlater) fun config' hconfig' => ?_
        obtain rfl := Option.some.inj hconfig'
        exact ⟨c.extra,hcommanded,hconfig⟩
    · have hrestarts : Restarts (run site (start site receiver now phantomUntil) front).rc a :=
        ⟨c,htaken,by simpa using hack,hrestart⟩
      exact .of hplan (h.restart hrestarts) fun config hconfig =>
        absurd hconfig.symm (Option.some_ne_none config)
    · exact .of hplan (h.active.later hlater) hpending

theorem run_configured
    (h : Lawful (act site) (Delivers site) (start site receiver now phantomUntil) acts) :
    Configured site (start site receiver now phantomUntil) acts := by
  refine h.induction (I := fun acts _ => Configured site _ acts) ?_ ?_
  · exact ⟨.initial,fun config hconfig => absurd hconfig (Option.some_ne_none config).symm⟩
  · intro acts x hlawful hconfigured hx
    cases x with
    | station i =>
      have hsame : (run site (start site receiver now phantomUntil) (acts ++ [.station i])).rc =
          (run site (start site receiver now phantomUntil) acts).rc := by
        rw [run_snoc]
        rfl
      have hlater : acts <+: acts ++ [.station i] := List.prefix_append _ _
      exact .of (congrArg FakeRc.plan hsame) (hconfigured.active.later hlater)
        fun config hconfig => (hconfigured.pending config hconfig).later hlater
    | controller a => exact hconfigured.controller (lawful_snoc.mpr ⟨hlawful,hx⟩)

/-- The plan that the decisions of a run lead to. -/
def planned (site : Site) (d0 : Deployment) (acts : List Act) : FakeRc.Plan :=
  (FakeRc.decisions site.rcEnv d0.rc (arrivals acts)).foldl FakeRc.Plan.decide d0.rc.plan

theorem plan_planned (site : Site) (d0 : Deployment) (acts : List Act) :
    (run site d0 acts).rc.plan = planned site d0 acts := by
  rw [rc_run,FakeRc.plan_run,planned]

/-- An active configuration that the station shows is what had been decided, and was chosen. -/
def ShownChosen (site : Site) (d0 : Deployment) (acts : List Act) (before : List Entry) : Entry → Prop
  | .event (.activeConfiguration text) => sessionOf before = some site.controller →
    ∃ front, front <+: acts ∧ text = site.rcEnv.configMetaText (planned site d0 front).active ∧
      Chosen site d0 front (planned site d0 front).active
  | _ => True

/-- Whatever the network does, the commands that the controller takes decide on its configuration and
nothing else. It, and every one that the station shows in a session, is none, or was saved by a connected
station, or was ordered by one to be activated before a restart; if that was ours, its user had asked. -/
theorem configurations_chosen (site : Site) (receiver : Option ℕ) (now : ℕ) (phantomUntil : Option ℕ)
    (acts : List Act)
    (h : Lawful (act site) (Delivers site) (start site receiver now phantomUntil) acts) :
    (run site (start site receiver now phantomUntil) acts).rc.plan =
        planned site (start site receiver now phantomUntil) acts ∧
      Configured site (start site receiver now phantomUntil) acts ∧
      Each (ShownChosen site (start site receiver now phantomUntil) acts)
        (run site (start site receiver now phantomUntil) acts).log := by
  refine ⟨plan_planned _ _ _,run_configured h,
    (run_true (start_sound site receiver now phantomUntil) rfl rfl h).mono ?_⟩
  intro before e _ he
  cases e with
  | event e =>
    cases e with
    | activeConfiguration text =>
      intro hsession
      obtain ⟨front,hfront,htext⟩ := he hsession
      have hactive : (run site (start site receiver now phantomUntil) front).rc.activeConfig =
          (planned site (start site receiver now phantomUntil) front).active :=
        congrArg FakeRc.Plan.active (plan_planned _ _ _)
      refine ⟨front,hfront,htext.trans (congrArg _ hactive),?_⟩
      exact hactive ▸ (run_configured (h.take hfront)).active
    | _ => trivial
  | _ => trivial

def storeField : Site := { field with rcEnv := FakeRc.twoConfigs }

def liftText : String := FakeRc.metaText FakeRc.lift

/-- The user activates a configuration; its worker restarts the controller on the ack. -/
def activating : List Act :=
  [.station (.socket .timedOut),toController 0 (.peerDiscovery {}),
    .station (.control (.sendCommand ⟨0,0,false,ACTIVATE_CONFIGURATION,liftText⟩)),toStation (.peerDiscovery {}),
    toController (10^6) (.command ⟨2,7,false,ACTIVATE_CONFIGURATION,liftText⟩),
    toStation (.command ⟨2,7,true,ACTIVATE_CONFIGURATION,""⟩),
    toController (2*10^6) (.command ⟨10,7,false,RESTART_ROBOT,""⟩),
    toStation (.command ⟨1,2*10^6,false,NOTIFY_ACTIVE_CONFIGURATION,liftText⟩)]

theorem activating_chosen : (run storeField (start storeField none 0 none) activating).rc.activeConfig =
      FakeRc.lift ∧
    (run storeField (start storeField none 0 none) activating).rc.plan =
      planned storeField (start storeField none 0 none) activating ∧
    Configured storeField (start storeField none 0 none) activating ∧
    Each (ShownChosen storeField (start storeField none 0 none) activating)
      (run storeField (start storeField none 0 none) activating).log :=
  ⟨by decide +kernel,configurations_chosen storeField none 0 none activating (by decide +kernel)⟩

end Configurations

end Deployment
end Robocol
