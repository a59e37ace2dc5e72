import Mathlib.Data.List.Nodup
import Robocol.DsHold
import Robocol.Runs

/-! The configurations of the fake controller as a map from keys to texts, over all sequences of
commands. A text outlives the deletion of its configuration, and a separator in a name hides
the save. -/
namespace Robocol

open Cmd StdText Runs Client

namespace FakeRc

variable {env : Env} {rc : FakeRc} {a : SocketAddr}

section Operations

/-- A save in its documented form, a delete, or any other command, a request among them. -/
inductive StoreOp
  | save (config : ConfigMeta) (xml : String)
  | delete (config : ConfigMeta)
  | other (name extra : String) (h : name ≠ SAVE_CONFIGURATION ∧ name ≠ DELETE_CONFIGURATION)

def StoreOp.name : StoreOp → String
  | save _ _ => SAVE_CONFIGURATION
  | delete _ => DELETE_CONFIGURATION
  | other name _ _ => name

def StoreOp.extra (env : Env) : StoreOp → String
  | save config xml => env.configMetaText config ++ ";" ++ xml
  | delete config => env.configMetaText config
  | other _ extra _ => extra

/-- An operation, as the command of a packet that is handled at a time. -/
structure Issued where
  now : ℕ
  seq : UInt16
  timestamp : Int64
  op : StoreOp

def Issued.command (env : Env) (i : Issued) : Command :=
  ⟨i.seq,i.timestamp,false,i.op.name,i.op.extra env⟩

def issue (env : Env) (rc : FakeRc) (i : Issued) : FakeRc :=
  rc.handleCommand env i.now (i.command env)

def serve (env : Env) (rc : FakeRc) (is : List Issued) : FakeRc := is.foldl (issue env) rc

/-- The operation on the map the store stands for. -/
def StoreOp.apply (m : Key → Option String) : StoreOp → Key → Option String
  | save config xml => Function.update m (configKey config) (some xml)
  | delete config => Function.update m (configKey config) none
  | other _ _ _ => m

/-- The text of the last save of each key, where no delete of it came after. -/
def latest (is : List Issued) : Key → Option String :=
  is.foldl (fun m i => i.op.apply m) fun _ => none

/-- The codec reads what it writes, and reads no part of it that a separator ends. -/
structure Faithful (env : Env) (config : ConfigMeta) : Prop where
  reads : env.configMeta (env.configMetaText config) = some config
  cut : ∀ front back, (env.configMetaText config).toList = front ++ ';' :: back →
    env.configMeta (String.ofList front) = none

def StoreOp.Faithful (env : Env) : StoreOp → Prop
  | save config _ => FakeRc.Faithful env config
  | delete config => FakeRc.Faithful env config
  | other _ _ _ => True

end Operations

section Answers

/-- The command is acked, and then answered with the text. -/
def Answers (env : Env) (rc : FakeRc) (name extra respName text : String) : Prop :=
  ∀ now seq timestamp, ∃ dst respSeq respTimestamp,
    (rc.handleCommand env now ⟨seq,timestamp,false,name,extra⟩).sent = rc.sent ++
      [(dst,.command (.ackOf ⟨seq,timestamp,false,name,extra⟩)),
        (dst,.command ⟨respSeq,respTimestamp,false,respName,text⟩)]

theorem Answers.unique {name extra respName text text' : String}
    (h : Answers env rc name extra respName text) (h' : Answers env rc name extra respName text') :
    text = text' := by
  obtain ⟨dst,s,t,hsent⟩ := h 0 0 0
  obtain ⟨dst',s',t',hsent'⟩ := h' 0 0 0
  rw [hsent] at hsent'
  simp only [List.append_cancel_left_eq,List.cons.injEq,Prod.mk.injEq,Packet.command.injEq,
    Command.mk.injEq] at hsent'
  exact hsent'.2.1.2.2.2.2.2

theorem answers_of_sendCommand (text : FakeRc → String) {name extra respName : String}
    (hds : rc.ds = some a) (hperform : ∀ (rc : FakeRc) now seq timestamp,
      rc.performCommand env now ⟨seq,timestamp,false,name,extra⟩ =
        rc.sendCommand now respName (text rc))
    (htext : ∀ dst packet, text (rc.sendTo dst packet) = text rc) :
    Answers env rc name extra respName (text rc) := by
  intro now seq timestamp
  have hsend (packet : Packet) : rc.send packet = rc.sendTo a packet := by rw [send,hds]
  refine ⟨a,rc.seq+1,rc.uptime now,?_⟩
  rw [handleCommand,if_neg (by simp),hperform,hsend,htext,sent_sendCommand (rc.sendTo a _) hds]
  simp [sendTo,uptime]

theorem answers_request (hds : rc.ds = some a) (extra : String) :
    Answers env rc REQUEST_PARTICULAR_CONFIGURATION extra REQUEST_PARTICULAR_CONFIGURATION_RESP
      (rc.requestedXml env extra) :=
  answers_of_sendCommand (requestedXml env · extra) hds (fun _ _ _ _ => rfl) fun _ _ => rfl

theorem answers_list (hds : rc.ds = some a) (extra : String) :
    Answers env rc REQUEST_CONFIGURATIONS extra REQUEST_CONFIGURATIONS_RESP
      (env.configsText rc.configs) :=
  answers_of_sendCommand (env.configsText ·.configs) hds (fun _ _ _ _ => rfl) fun _ _ => rfl

end Answers
section Store

variable {config : ConfigMeta} {xml : String} {key : Key} {m : Key → Option String}

def keys (rc : FakeRc) : List Key := rc.configs.map configKey

/-- The text that is served for a key. -/
def servedXml (rc : FakeRc) (key : Key) : String := (rc.savedXml key).getD FAKE_CONFIG_XML

theorem requestedXml_eq {extra : String} (h : env.configMeta extra = some config) :
    rc.requestedXml env extra = rc.servedXml (configKey config) := by
  rw [requestedXml,h]
  rfl

theorem keys_putConfig (configs : List ConfigMeta) (config : ConfigMeta) :
    (putConfig configs config).map configKey =
      if configKey config ∈ configs.map configKey then configs.map configKey
      else configs.map configKey ++ [configKey config] := by
  induction configs with
  | nil => rfl
  | cons c configs ih =>
    rw [putConfig]
    by_cases hc : configKey c = configKey config
    · rw [if_pos hc]
      simp [hc]
    · rw [if_neg hc,List.map_cons,ih]
      by_cases hmem : configKey config ∈ configs.map configKey
      · rw [if_pos hmem,List.map_cons,if_pos (List.mem_cons_of_mem _ hmem)]
      · rw [if_neg hmem,List.map_cons,if_neg (by simpa [Ne.symm hc] using hmem)]
        rfl

theorem records_save (rc : FakeRc) (xml : String) (hreads : env.configMeta (env.configMetaText config) = some config)
    (hcut : ';' ∉ (env.configMetaText config).toList) (now : ℕ) :
    ∃ stored, configKey stored = configKey config ∧
      (rc.saveConfiguration env now (env.configMetaText config ++ ";" ++ xml)).records =
        (rc.ds,rc.dsSeen,rc.phantomUntil,putConfig rc.configs stored,
          Function.update rc.savedXml (configKey config) (some xml)) := by
  have hextra : (env.configMetaText config ++ ";" ++ xml).toList =
      (env.configMetaText config).toList ++ ';' :: xml.toList := by simp
  rw [saveConfiguration,hextra,splitOnce_append hcut]
  simp only [String.ofList_toList,hreads,assignId]
  by_cases hid : config.resourceId = 0
  · exact ⟨{ config with resourceId := rc.nextResourceId+1 },rfl,by
      rw [if_pos hid,records_sendCommand]
      rfl⟩
  · exact ⟨config,rfl,by
      rw [if_neg hid,records_sendCommand]
      rfl⟩

theorem save_cut (h : Faithful env config) (hcut : ';' ∈ (env.configMetaText config).toList)
    (now : ℕ) :
    rc.saveConfiguration env now (env.configMetaText config ++ ";" ++ xml) = rc := by
  obtain ⟨front,back,htext,hfront⟩ := List.eq_append_cons_of_mem hcut
  have hextra : (env.configMetaText config ++ ";" ++ xml).toList =
      front ++ ';' :: (back ++ ';' :: xml.toList) := by simp [htext]
  rw [saveConfiguration,hextra,splitOnce_append hfront]
  simp only [h.cut front back htext]

/-- The answers, read off the records. -/
structure Holds (env : Env) (rc : FakeRc) (m : Key → Option String) : Prop where
  xml : ∀ extra config, env.configMeta extra = some config →
    rc.servedXml (configKey config) = (m (configKey config)).getD FAKE_CONFIG_XML
  nodup : rc.keys.Nodup
  saved : ∀ key, m key ≠ none → key ∈ rc.keys

variable {rc' : FakeRc}

theorem holds_congr (h : rc'.records = rc.records) : Holds env rc' m ↔ Holds env rc m := by
  have hkeys : rc'.keys = rc.keys := congrArg (·.2.2.2.1.map configKey) h
  have hserved (key : Key) : rc'.servedXml key = rc.servedXml key :=
    congrArg (fun r => (r.2.2.2.2 key).getD FAKE_CONFIG_XML) h
  constructor
  · intro ⟨hxml,hnodup,hsaved⟩
    simp only [hkeys,hserved] at hxml hnodup hsaved
    exact ⟨hxml,hnodup,hsaved⟩
  · intro ⟨hxml,hnodup,hsaved⟩
    refine ⟨?_,?_,?_⟩ <;> simpa only [hkeys,hserved]

theorem Holds.save (h : Holds env rc m) {stored : ConfigMeta} (hkey : configKey stored = configKey config)
    (hconfigs : rc'.configs = putConfig rc.configs stored)
    (hxml : rc'.savedXml = Function.update rc.savedXml (configKey config) (some xml)) :
    Holds env rc' (Function.update m (configKey config) (some xml)) := by
  have hkeys : rc'.keys = if configKey config ∈ rc.keys then rc.keys
      else rc.keys ++ [configKey config] := by
    rw [keys,hconfigs,keys_putConfig,hkey]
    rfl
  have hmem (key : Key) : key ∈ rc'.keys ↔ key ∈ rc.keys ∨ key = configKey config := by
    rw [hkeys]
    split
    · rename_i hold
      exact ⟨.inl,fun h => h.elim id fun h => h ▸ hold⟩
    · simp
  refine ⟨?_,?_,?_⟩
  · intro extra config' hextra
    have hbefore := h.xml extra config' hextra
    rw [servedXml,hxml]
    by_cases hsame : configKey config' = configKey config
    · simp [hsame]
    · simpa [hsame,servedXml] using hbefore
  · rw [hkeys]
    split
    · exact h.nodup
    · rename_i hnew
      exact List.Nodup.append h.nodup (List.nodup_singleton _) (by simpa using hnew)
  · intro key hsaved
    rw [hmem]
    by_cases hsame : key = configKey config
    · exact .inr hsame
    · rw [Function.update_of_ne hsame] at hsaved
      exact .inl (h.saved key hsaved)

theorem Holds.save_cut_iff (h : Holds env rc m)
    (hreads : env.configMeta (env.configMetaText config) = some config) :
    Holds env rc (Function.update m (configKey config) (some xml)) ↔
      rc.servedXml (configKey config) = xml ∧ configKey config ∈ rc.keys := by
  constructor
  · intro h'
    have hxml := h'.xml _ _ hreads
    have hkey := h'.saved (configKey config)
    rw [Function.update_self] at hxml hkey
    exact ⟨hxml,hkey (by simp)⟩
  · rintro ⟨hserved,hmem⟩
    refine ⟨?_,h.nodup,?_⟩
    · intro extra config' hextra
      by_cases hsame : configKey config' = configKey config
      · simpa [hsame] using hserved
      · simpa [hsame] using h.xml extra config' hextra
    · intro key hsaved
      by_cases hsame : key = configKey config
      · exact hsame ▸ hmem
      · rw [Function.update_of_ne hsame] at hsaved
        exact h.saved key hsaved

theorem Holds.delete_iff (h : Holds env rc m)
    (hreads : env.configMeta (env.configMetaText config) = some config)
    (hconfigs : rc'.configs = rc.configs.filter fun c => configKey c ≠ configKey config)
    (hxml : rc'.savedXml = rc.savedXml) :
    Holds env rc' (Function.update m (configKey config) none) ↔
      rc.servedXml (configKey config) = FAKE_CONFIG_XML := by
  have hserved (key : Key) : rc'.servedXml key = rc.servedXml key := by rw [servedXml,hxml,servedXml]
  have hkeys : rc'.keys = rc.keys.filter (· ≠ configKey config) := by
    rw [keys,hconfigs,keys,List.filter_map]
    rfl
  constructor
  · intro h'
    simpa [hserved] using h'.xml _ _ hreads
  · intro hcanned
    refine ⟨?_,?_,?_⟩
    · intro extra config' hextra
      rw [hserved]
      by_cases hsame : configKey config' = configKey config
      · simpa [hsame] using hcanned
      · simpa [hsame] using h.xml extra config' hextra
    · rw [hkeys]
      exact h.nodup.filter _
    · intro key hsaved
      by_cases hsame : key = configKey config
      · exact absurd (by rw [hsame,Function.update_self]) hsaved
      · rw [Function.update_of_ne hsame] at hsaved
        rw [hkeys,List.mem_filter]
        exact ⟨h.saved key hsaved,by simpa using hsame⟩

theorem issue_eq (env : Env) (rc : FakeRc) (i : Issued) : ∃ acked : FakeRc, acked.records = rc.records ∧
    issue env rc i = acked.performCommand env i.now (i.command env) := by
  have hack : (i.command env).acknowledged = false := rfl
  refine ⟨_,records_send rc (.command (.ackOf (i.command env))),?_⟩
  rw [issue,handleCommand,hack,if_neg Bool.false_ne_true]

/-- The operation does in the state what it does to the map. -/
def Kept (env : Env) (rc : FakeRc) : StoreOp → Prop
  | .save config xml => ';' ∉ (env.configMetaText config).toList ∨
      rc.servedXml (configKey config) = xml ∧ configKey config ∈ rc.keys
  | .delete config => rc.servedXml (configKey config) = FAKE_CONFIG_XML
  | .other _ _ _ => True

theorem holds_issue_iff (h : Holds env rc m) (i : Issued) (hop : i.op.Faithful env) :
    Holds env (issue env rc i) (i.op.apply m) ↔ Kept env rc i.op := by
  obtain ⟨acked,hrecords,hissue⟩ := issue_eq env rc i
  have hacked : Holds env acked m := (holds_congr hrecords).2 h
  have hserved (key : Key) : acked.servedXml key = rc.servedXml key :=
    congrArg (fun r => (r.2.2.2.2 key).getD FAKE_CONFIG_XML) hrecords
  have hkeys : acked.keys = rc.keys := congrArg (·.2.2.2.1.map configKey) hrecords
  rw [hissue]
  obtain ⟨now,seq,timestamp,op⟩ := i
  cases op with
  | save config xml =>
    by_cases hcut : ';' ∈ (env.configMetaText config).toList
    · have hsame : acked.performCommand env now (Issued.command env ⟨now,seq,timestamp,.save config xml⟩) =
        acked := save_cut hop hcut now
      rw [hsame,Kept,or_iff_right (not_not.2 hcut),← hserved,← hkeys]
      exact hacked.save_cut_iff hop.reads
    · obtain ⟨stored,hkey,hstored⟩ := records_save acked xml hop.reads hcut now
      refine iff_of_true ?_ (.inl hcut)
      exact hacked.save hkey (congrArg (·.2.2.2.1) hstored) (congrArg (·.2.2.2.2) hstored)
  | delete config =>
    have hdelete : acked.performCommand env now (Issued.command env ⟨now,seq,timestamp,.delete config⟩) =
        { acked with configs := acked.configs.filter fun c => configKey c ≠ configKey config } := by
      refine Eq.trans (rfl : _ = acked.deleteConfiguration env (env.configMetaText config)) ?_
      rw [deleteConfiguration,hop.reads]
    rw [hdelete,Kept,← hserved]
    exact hacked.delete_iff hop.reads rfl rfl
  | other name extra hother =>
    refine iff_of_true ?_ trivial
    obtain hsame|⟨hsave,-⟩|⟨hdelete,-⟩ := performCommand_touched env acked now
      (Issued.command env ⟨now,seq,timestamp,.other name extra hother⟩)
    · exact (holds_congr hsame).2 hacked
    · exact absurd hsave hother.1
    · exact absurd hdelete hother.2

end Store

section Answered

variable {m : Key → Option String}

/-- What the store answers, where it stands for the map `m`: the text of a key or the canned one,
and a list that has no key twice and every key of the map. -/
structure StoreRight (env : Env) (rc : FakeRc) (m : Key → Option String) : Prop where
  xml : ∀ extra config, env.configMeta extra = some config →
    Answers env rc REQUEST_PARTICULAR_CONFIGURATION extra REQUEST_PARTICULAR_CONFIGURATION_RESP
      ((m (configKey config)).getD FAKE_CONFIG_XML)
  list : ∀ extra, Answers env rc REQUEST_CONFIGURATIONS extra REQUEST_CONFIGURATIONS_RESP
    (env.configsText rc.configs)
  nodup : (rc.configs.map configKey).Nodup
  saved : ∀ key, m key ≠ none → key ∈ rc.configs.map configKey

theorem storeRight_iff (hds : rc.ds = some a) : StoreRight env rc m ↔ Holds env rc m := by
  constructor
  · intro h
    refine ⟨?_,h.nodup,h.saved⟩
    intro extra config hextra
    have hanswer := (h.xml extra config hextra).unique (answers_request hds extra)
    rw [hanswer,requestedXml_eq hextra]
  · intro h
    refine ⟨?_,answers_list hds,h.nodup,h.saved⟩
    intro extra config hextra
    rw [← h.xml extra config hextra,← requestedXml_eq hextra]
    exact answers_request hds extra

theorem serve_ds (env : Env) (rc : FakeRc) (is : List Issued) : (serve env rc is).ds = rc.ds := by
  induction is generalizing rc with
  | nil => rfl
  | cons i is ih => exact (ih (issue env rc i)).trans (congrArg (·.1) (hold_handleCommand _))

/-- Nothing was saved yet. -/
structure Unsaved (rc : FakeRc) : Prop where
  configs : rc.configs = [practiceBot,starterBot]
  savedXml : rc.savedXml = fun _ => none

/-- The store answers as the map along a run iff every operation on the way does in the state
what it does to the map. -/
theorem storeRight_run_iff (env : Env) (hds : rc.ds = some a) (hrc : Unsaved rc) (is : List Issued)
    (hfaithful : ∀ i ∈ is, i.op.Faithful env) :
    (∀ front, front <+: is → StoreRight env (serve env rc front) (latest front)) ↔
      ∀ front i, front ++ [i] <+: is → Kept env (serve env rc front) i.op := by
  have hstore (front : List Issued) : StoreRight env (serve env rc front) (latest front) ↔
      Holds env (serve env rc front) (latest front) :=
    storeRight_iff ((serve_ds env rc front).trans hds)
  simp only [hstore]
  refine forall_prefix_iff ?_ ?_
  · refine ⟨?_,?_,?_⟩
    · intro extra config _
      rw [serve,List.foldl_nil,servedXml,hrc.savedXml]
      rfl
    · rw [serve,List.foldl_nil,keys,hrc.configs]
      decide
    · intro key hsaved
      exact absurd rfl hsaved
  · intro front i hi h
    have hserve : serve env rc (front ++ [i]) = issue env (serve env rc front) i := List.foldl_append
    have hlatest : latest (front ++ [i]) = i.op.apply (latest front) := List.foldl_append
    rw [hserve,hlatest]
    exact holds_issue_iff h i (hfaithful i hi)

/-- What `serde_json` writes where nothing has to be escaped. -/
def metaText (config : ConfigMeta) : String :=
  "\x7b\"isDirty\":" ++ toString config.isDirty ++ ",\"location\":\"" ++ config.location ++
    "\",\"name\":\"" ++ config.name ++ "\",\"resourceId\":" ++ toString config.resourceId ++ "\x7d"

def arm : ConfigMeta := ⟨false,"LOCAL_STORAGE","arm",0⟩
def lift : ConfigMeta := ⟨false,"LOCAL_STORAGE","lift",7⟩

/-- A reader that knows two texts. -/
def twoConfigs : Env := { blankEnv with
  configMetaText := metaText
  configMeta := fun text => [arm,lift].find? (metaText · = text) }

/-- The first station is connected. -/
def connected : FakeRc := { start 0 none with ds := some stationA }

theorem connected_unsaved : Unsaved connected := ⟨rfl,rfl⟩

theorem arm_faithful : Faithful twoConfigs arm where
  reads := by decide +kernel
  cut front back htext := by
    have hnone : ';' ∉ (twoConfigs.configMetaText arm).toList := by decide +kernel
    exact absurd (by rw [htext]; simp) hnone

theorem lift_faithful : Faithful twoConfigs lift where
  reads := by decide +kernel
  cut front back htext := by
    have hnone : ';' ∉ (twoConfigs.configMetaText lift).toList := by decide +kernel
    exact absurd (by rw [htext]; simp) hnone

def twoSaves : List Issued :=
  [⟨0,1,0,.save arm "<Robot>1;2</Robot>"⟩,⟨5,2,0,.save lift "<Robot/>"⟩]

theorem twoSaves_right :
    StoreRight twoConfigs (serve twoConfigs connected twoSaves) (latest twoSaves) := by
  have hfaithful : ∀ i ∈ twoSaves, i.op.Faithful twoConfigs := by
    simp only [twoSaves,List.forall_mem_cons,List.not_mem_nil,IsEmpty.forall_iff,implies_true,and_true]
    exact ⟨arm_faithful,lift_faithful⟩
  have hds : connected.ds = some stationA := rfl
  refine (storeRight_run_iff twoConfigs hds connected_unsaved twoSaves hfaithful).2 ?_ twoSaves
    (List.prefix_refl _)
  intro front i hi
  have hmem : i ∈ twoSaves := hi.subset (by simp)
  simp only [twoSaves,List.mem_cons,List.not_mem_nil,or_false] at hmem
  obtain rfl|rfl := hmem
  · exact .inl (by decide +kernel)
  · exact .inl (by decide +kernel)

/-- A configuration is saved and deleted. -/
def saveDelete : List Issued := [⟨0,1,0,.save arm "<Robot/>"⟩,⟨5,2,0,.delete arm⟩]

theorem saveDelete_wrong : ¬∀ front, front <+: saveDelete →
    StoreRight twoConfigs (serve twoConfigs connected front) (latest front) := by
  intro h
  have hds : (serve twoConfigs connected saveDelete).ds = some stationA := serve_ds _ _ _
  have hanswers := (storeRight_iff hds).1 (h saveDelete (List.prefix_refl _))
  have hcanned := hanswers.xml _ arm arm_faithful.reads
  have hkept : (serve twoConfigs connected saveDelete).servedXml (configKey arm) = "<Robot/>" := by
    decide +kernel
  have hnone : latest saveDelete (configKey arm) = none := by decide +kernel
  rw [hkept,hnone] at hcanned
  exact absurd hcanned (by decide +kernel)

end Answered
end FakeRc
end Robocol
