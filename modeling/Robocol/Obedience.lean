import Robocol.Agreement
import Robocol.StageHistory

/-! What the controller does is what somebody asked of it. A command that it takes from the station
was queued there, for its user or by the worker itself, and the OpMode it is in was ordered. -/
namespace Robocol

open Cmd Client Runs

namespace Deployment

open Worker

def inputs (acts : List Act) : List Input :=
  acts.filterMap fun x => match x with
    | .station i => some i
    | .controller _ => none

def arrivals (acts : List Act) : List FakeRc.Arrival :=
  acts.filterMap fun x => match x with
    | .station _ => none
    | .controller a => some a

def UserAsked (acts : List Act) (name extra : String) : Prop :=
  ∃ d, .station (.control (.sendCommand d)) ∈ acts ∧ d.name = name ∧ d.extra = extra

/-- In some pass the controller took the command from the station that was connected; if it was ours,
its user had asked for it. -/
def Commanded (site : Site) (d0 : Deployment) (acts : List Act) (name extra : String) : Prop :=
  ∃ front a data src c, front ++ [.controller a] <+: acts ∧ a.received = .datagram data src ∧
    (run site d0 front).rc.ds = some src ∧ (run site d0 front).rc.taken a = some c ∧
    c.acknowledged = false ∧ c.name = name ∧ c.extra = extra ∧
    (src = site.station → UserAsked front name extra)

variable {site : Site} {d d0 : Deployment} {acts front : List Act} {src dst : SocketAddr} {c : Command}
  {receiver : Option ℕ} {now : ℕ} {phantomUntil : Option ℕ} {data : List UInt8} {a : FakeRc.Arrival}

section Projections

theorem worker_run (site : Site) (receiver : Option ℕ) (now : ℕ) (phantomUntil : Option ℕ)
    (acts : List Act) : (run site (start site receiver now phantomUntil) acts).worker =
      Client.run site.env (Client.start site.env receiver) (inputs acts) := by
  induction acts using List.reverseRecOn with
  | nil => rfl
  | append_singleton acts x ih =>
    rw [run_snoc,inputs,List.filterMap_append,← inputs,Client.run,List.foldlM_append,← Client.run,← ih]
    generalize run site (start site receiver now phantomUntil) acts = d
    cases x with
    | station i =>
      have hone : (fun w => [i].foldlM (step site.env) w) = fun w => step site.env w i :=
        funext fun w => bind_pure (step site.env w i)
      exact congrArg (Bind.bind d.worker) hone.symm
    | controller a => exact (bind_pure d.worker).symm

theorem rc_run (site : Site) (d : Deployment) (acts : List Act) :
    (run site d acts).rc = FakeRc.run site.rcEnv d.rc (arrivals acts) := by
  induction acts using List.reverseRecOn with
  | nil => rfl
  | append_singleton acts x ih =>
    rw [run_snoc,arrivals,List.filterMap_append,← arrivals]
    cases x with
    | station i => simpa [act] using ih
    | controller a =>
      rw [FakeRc.run_append,← ih]
      rfl

theorem arrivals_cut {pre : List FakeRc.Arrival} {a : FakeRc.Arrival} (h : pre ++ [a] <+: arrivals acts) :
    ∃ front, front ++ [.controller a] <+: acts ∧ arrivals front = pre := by
  obtain ⟨post,hpost⟩ := h
  rw [List.append_assoc,List.singleton_append] at hpost
  obtain ⟨front,back,rfl,hfront,hback⟩ := List.filterMap_eq_append_iff.mp hpost.symm
  obtain ⟨skipped,x,rest,rfl,hskipped,hx,-⟩ := List.filterMap_eq_cons_iff.mp hback
  obtain rfl : x = .controller a := by
    cases x with
    | station i => cases hx
    | controller b => exact congrArg _ (Option.some.inj hx)
  refine ⟨front ++ skipped,⟨rest,by simp⟩,?_⟩
  have hnone : arrivals skipped = [] := List.filterMap_eq_nil_iff.mpr hskipped
  rw [arrivals,List.filterMap_append,← arrivals,← arrivals,hnone,List.append_nil]
  exact hfront

end Projections

section Queued

theorem log_run (site : Site) (receiver : Option ℕ) (now : ℕ) (phantomUntil : Option ℕ) (acts : List Act) :
    (run site (start site receiver now phantomUntil) acts).log =
      (final (Client.run site.env (Client.start site.env receiver) (inputs acts))).log := by
  rw [log,worker_run]

theorem readsAs_command {p : Packet} (h : p.ReadsAs (.command c)) (hack : c.acknowledged = false) :
    p = .command c := by
  cases h with
  | self => rfl
  | ack hacked => exact absurd (hacked.symm.trans hack) (by simp)

theorem carried_queued (h : Carried ((run site (start site receiver now phantomUntil) acts).log.filterMap
      Entry.datagram?) dst data) (hread : readCommand (data.take FakeRc.BUF_LEN) = some c)
    (hack : c.acknowledged = false) : ∃ id origin q,
      .queued id origin q ∈ (run site (start site receiver now phantomUntil) acts).log ∧ key q = key c := by
  obtain ⟨p,hp,hser,hlen⟩ := h
  have hparse := Packet.parse_take_command (mem_readCommand.mp hread)
  obtain rfl := readsAs_command (read_back hser hlen hparse) hack
  obtain ⟨e,he,hdatagram⟩ := List.mem_filterMap.mp hp
  have hentries := run_entries site.env receiver (inputs acts)
  rw [← log_run site receiver now phantomUntil acts] at hentries
  obtain ⟨pre,post,hcut⟩ := List.append_of_mem he
  obtain ⟨hsession,hentry⟩ := hentries pre _ post hcut
  cases e with
  | transmitted dst' id d t =>
    obtain ⟨-,hd⟩ := Prod.mk.inj (Option.some.inj hdatagram)
    obtain rfl := Packet.command.inj hd
    obtain ⟨-,⟨origin,q,hq,hkey⟩,-⟩ := hentry
    exact ⟨id,origin,q,hcut ▸ List.mem_append_left _ hq,hkey⟩
  | sent dst' p =>
    obtain ⟨-,rfl⟩ := Prod.mk.inj (Option.some.inj hdatagram)
    rcases hsession with ⟨-,d,rfl⟩|⟨-,hdiscovery⟩
    · exact absurd hack (by simp [Command.ackOf])
    · cases hdiscovery
  | _ => cases hdatagram

/-- A command that the controller takes from the station was asked for by its user, or is one of
the worker's own. -/
theorem taken_asked (h : Lawful (act site) (Delivers site) (start site receiver now phantomUntil)
      (front ++ [.controller a])) (hreceived : a.received = .datagram data site.station)
    (hread : readCommand (data.take FakeRc.BUF_LEN) = some c) (hack : c.acknowledged = false) :
    UserAsked front c.name c.extra ∨ c.name ∈ ownCommands ∧ c.extra = "" := by
  have hcarried : Carried ((run site (start site receiver now phantomUntil) front).log.filterMap
      Entry.datagram?) site.controller data := by
    obtain ⟨t,r⟩ := a
    obtain rfl : r = .datagram data site.station := hreceived
    exact (lawful_snoc.mp h).2 rfl
  obtain ⟨id,origin,q,hq,hkey⟩ := carried_queued hcarried hread hack
  obtain ⟨hname,-,hextra⟩ : q.name = c.name ∧ q.timestamp = c.timestamp ∧ q.extra = c.extra := by
    simpa only [key,Prod.mk.injEq] using hkey
  rw [log_run] at hq
  obtain ⟨pre,post,hcut⟩ := List.append_of_mem hq
  obtain ⟨before,i,after,hinputs,-,-,hlaw⟩ := run_sourced site.env receiver (inputs front) pre _ post hcut
  have hi : i ∈ inputs front := by simp [hinputs]
  cases origin with
  | worker => exact .inr ⟨hname ▸ hlaw.2.1,hextra ▸ hlaw.2.2⟩
  | client =>
    obtain ⟨d,rfl,hd,hx⟩ := hlaw
    refine .inl ⟨d,?_,hd.symm.trans hname,hx.symm.trans hextra⟩
    obtain ⟨x,hx,hstation⟩ := List.mem_filterMap.mp hi
    cases x with
    | station j =>
      obtain rfl := Option.some.inj hstation
      exact hx
    | controller a => cases hstation

theorem order_commanded (h : Lawful (act site) (Delivers site) (start site receiver now phantomUntil) acts)
    (hfront : front ++ [.controller a] <+: acts)
    (htaken : (run site (start site receiver now phantomUntil) front).rc.taken a = some c)
    (hack : c.acknowledged = false) (hown : c.name ∉ ownCommands) :
    Commanded site (start site receiver now phantomUntil) acts c.name c.extra := by
  cases hr : a.received with
  | timedOut => simp [FakeRc.taken,hr] at htaken
  | failed error => simp [FakeRc.taken,hr] at htaken
  | datagram data src =>
    have hds : (run site (start site receiver now phantomUntil) front).rc.ds = some src ∧
        readCommand (data.take FakeRc.BUF_LEN) = some c := by
      simpa [FakeRc.taken,hr] using htaken
    refine ⟨front,a,data,src,c,hfront,hr,hds.1,htaken,hack,rfl,rfl,?_⟩
    rintro rfl
    refine (taken_asked (h.take hfront) hr hds.2 hack).resolve_right fun hc => hown hc.1

end Queued

section Ordered

/-- The OpMode the controller is in was commanded. -/
structure Obedient (site : Site) (d0 : Deployment) (acts : List Act) : Prop where
  running : (run site d0 acts).rc.state = .running →
    Commanded site d0 acts RUN_OP_MODE (run site d0 acts).rc.opmode
  inited : (run site d0 acts).rc.state = .init →
    Commanded site d0 acts INIT_OP_MODE (run site d0 acts).rc.opmode

theorem Commanded.later {name extra : String} (h : Commanded site d0 front name extra)
    (hfront : front <+: acts) : Commanded site d0 acts name extra := by
  obtain ⟨pre,a,data,src,c,hpre,hc⟩ := h
  exact ⟨pre,a,data,src,c,hpre.trans hfront,hc⟩

theorem run_obedient (h : Lawful (act site) (Delivers site) (start site receiver now phantomUntil) acts) :
    Obedient site (start site receiver now phantomUntil) acts := by
  have hrc := rc_run site (start site receiver now phantomUntil) acts
  have hcommanded {order : FakeRc.Order} {t : ℕ} {name extra : String} (hown : name ∉ ownCommands)
      (hmem : (t,some order) ∈ FakeRc.orders site.rcEnv (FakeRc.start now phantomUntil) (arrivals acts))
      (hc : ∀ c, FakeRc.orderOf c = some order → c.acknowledged = false ∧ c.name = name ∧ c.extra = extra) :
      Commanded site (start site receiver now phantomUntil) acts name extra := by
    obtain ⟨pre,a,c,hpre,htaken,ho⟩ := FakeRc.mem_orders hmem
    obtain ⟨hack,rfl,rfl⟩ := hc c ho
    obtain ⟨front,hfront,rfl⟩ := arrivals_cut hpre
    refine order_commanded h hfront ?_ hack hown
    rw [rc_run]
    exact htaken
  constructor
  · intro hrun
    rw [hrc] at hrun ⊢
    obtain ⟨t,ht⟩ := FakeRc.running_ordered hrun
    exact hcommanded (by decide) ht fun c => FakeRc.orderOf_run
  · intro hinit
    rw [hrc] at hinit ⊢
    obtain ⟨t,ht⟩ := FakeRc.init_ordered hinit
    exact hcommanded (by decide) ht fun c => FakeRc.orderOf_init

def ShownAsked (site : Site) (d0 : Deployment) (acts : List Act) (before : List Entry) : Entry → Prop
  | .event (.opModeInited name) => sessionOf before = some site.controller → name ≠ DEFAULT_OP_MODE →
    Commanded site d0 acts INIT_OP_MODE name
  | .event (.opModeRunning name) => sessionOf before = some site.controller →
    Commanded site d0 acts RUN_OP_MODE name
  | _ => True

/-- Whatever the network does: the OpMode the controller is in, and every one that the station shows
in a session with it, was commanded by a station that was connected, and if that was ours, by its user. -/
theorem opModes_asked (site : Site) (receiver : Option ℕ) (now : ℕ) (phantomUntil : Option ℕ)
    (acts : List Act)
    (h : Lawful (act site) (Delivers site) (start site receiver now phantomUntil) acts) :
    Obedient site (start site receiver now phantomUntil) acts ∧
      Each (ShownAsked site (start site receiver now phantomUntil) acts)
        (run site (start site receiver now phantomUntil) acts).log := by
  refine ⟨run_obedient h,(run_true (start_sound site receiver now phantomUntil) rfl rfl h).mono ?_⟩
  intro before e _ he
  cases e with
  | event e =>
    cases e with
    | opModeInited name =>
      intro hsession hname
      obtain ⟨front,hfront,hshows⟩ := he hsession
      rw [Shows,if_neg hname] at hshows
      exact hshows.2 ▸ ((run_obedient (h.take hfront)).inited hshows.1).later hfront
    | opModeRunning name =>
      intro hsession
      obtain ⟨front,hfront,hstate,hopmode⟩ := he hsession
      exact hopmode ▸ ((run_obedient (h.take hfront)).running hstate).later hfront
    | _ => trivial
  | _ => trivial

/-- The user runs an OpMode, and is told that it runs. -/
def driving : List Act :=
  [.station (.socket .timedOut),toController 0 (.peerDiscovery {}),
    .station (.control (.sendCommand ⟨0,0,false,RUN_OP_MODE,"Solo"⟩)),toStation (.peerDiscovery {}),
    toController (10^6) (.command ⟨2,7,false,RUN_OP_MODE,"Solo"⟩),
    toStation (.command ⟨1,10^6,false,NOTIFY_RUN_OP_MODE,"Solo"⟩)]

theorem driving_asked : (run field (start field none 0 none) driving).rc.state = .running ∧
    Obedient field (start field none 0 none) driving ∧
      Each (ShownAsked field (start field none 0 none) driving)
        (run field (start field none 0 none) driving).log :=
  ⟨by decide +kernel,opModes_asked field none 0 none driving (by decide +kernel)⟩

end Ordered

end Deployment
end Robocol
