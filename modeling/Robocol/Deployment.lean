import Robocol.PacketTruncation
import Robocol.Provenance
import Robocol.RcMessages

/-! The station and the fake controller, and a network between them that may lose, repeat, delay
and reorder what they send, beside strangers who may send anything under their own addresses. -/
namespace Robocol

open ByteLayout Wire Cmd Client Runs

/-- What a packet is read as, once it has gone through a datagram: a heartbeat and a telemetry
keep at least the robot state, an ack loses its extra. -/
inductive Packet.ReadsAs : Packet → Packet → Prop
  | self (p : Packet) : ReadsAs p p
  | heartbeat {hb hb' : Heartbeat} (h : hb'.robotState = hb.robotState) :
      ReadsAs (.heartbeat hb) (.heartbeat hb')
  | telemetry {t t' : Telemetry} (h : t'.robotState = t.robotState) :
      ReadsAs (.telemetry t) (.telemetry t')
  | ack {c : Command} (h : c.acknowledged = true) :
      ReadsAs (.command c) (.command { c with extra := "" })

section Reading

variable {buf bytes : List UInt8} {p q : Packet}

theorem Heartbeat.parse_state {hb hb' : Heartbeat} (h : parse hb.layout = .ok hb') :
    hb'.robotState = hb.robotState := by
  have hat : At hb.layout 0 (hb.layout ++ []) := by simpa using at_append [] hb.layout
  simp only [layout,List.append_assoc,List.cons_append,List.nil_append] at hat
  have h13 := (at_header hat).2.2.next (length_toBE 8 _)
  simp only [parse,bind_eq_ok,pure_eq_ok,Except.ok.injEq] at h
  obtain ⟨_,-,_,-,state,hstate,_,-,_,-,_,-,_,-,rfl⟩ := h
  have hread := getU8_at h13
  simp only [layout,List.append_assoc,List.cons_append,List.nil_append] at hstate hread
  obtain rfl := Except.ok.inj (hstate.symm.trans hread)
  exact RobotState.fromByte_toByte _

theorem Telemetry.parse_state {t t' : Telemetry} (h : parse t.layout = .ok t') :
    t'.robotState = t.robotState := by
  have hat : At t.layout 0 (t.layout ++ []) := by simpa using at_append [] t.layout
  simp only [layout,List.append_assoc,List.cons_append,List.nil_append] at hat
  have h14 := ((at_header hat).2.2.next (length_toBE 8 _)).tail
  simp only [parse,bind_eq_ok,pure_eq_ok,Except.ok.injEq] at h
  obtain ⟨_,-,_,-,_,-,state,hstate,_,-,_,-,_,-,_,-,_,-,rfl⟩ := h
  have hread := getU8_at h14
  simp only [layout,List.append_assoc,List.cons_append,List.nil_append] at hstate hread
  obtain rfl := Except.ok.inj (hstate.symm.trans hread)
  exact RobotState.fromByte_toByte _

theorem Packet.parse_kind (p : Packet) : parse p.layout = p.parseKind p.layout := by
  obtain ⟨rest,hrest⟩ := p.layout_eq_cons
  exact p.parse_uid (by rw [hrest]; rfl)

theorem read_back (hser : p.serialize = some bytes) (hlen : bytes.length ≤ MAX_DATAGRAM)
    (hparse : Packet.parse bytes = .ok q) : p.ReadsAs q := by
  obtain rfl := Option.some.inj (p.serialize_eq.symm.trans hser)
  have hfits (hfit : p.Fits) : p.ReadsAs q := by
    obtain rfl := Except.ok.inj ((parse_of_fits hfit hser).symm.trans hparse)
    exact .self p
  cases p with
  | gamepad g => exact hfits trivial
  | peerDiscovery p => exact hfits trivial
  | keepAlive k => exact hfits trivial
  | command c =>
    obtain ⟨hname,hextra⟩ := strings_le_layout c
    have hlen' : c.layout.length ≤ 65507 := hlen
    cases hack : c.acknowledged with
    | false =>
      have hextra' := hextra hack
      exact hfits ⟨by omega,by omega,fun h => absurd (hack.symm.trans h) Bool.false_ne_true⟩
    | true =>
      have hblank : (Packet.command { c with extra := "" }).Fits :=
        ⟨by simp only; omega,by simp [utf8],fun _ => rfl⟩
      have hsame : (Packet.command { c with extra := "" }).serialize = some c.layout := by
        rw [Packet.serialize_eq,layout_acknowledged hack]
        rfl
      obtain rfl := Except.ok.inj ((parse_of_fits hblank hsame).symm.trans hparse)
      exact .ack hack
  | heartbeat hb =>
    rw [Packet.parse_kind,Packet.parseKind,Packet.layout] at hparse
    cases hread : Heartbeat.parse hb.layout with
    | error e => rw [hread] at hparse; cases hparse
    | ok hb' =>
      rw [hread] at hparse
      obtain rfl := Except.ok.inj hparse
      exact .heartbeat (Heartbeat.parse_state hread)
  | telemetry t =>
    rw [Packet.parse_kind,Packet.parseKind,Packet.layout] at hparse
    cases hread : Telemetry.parse t.layout with
    | error e => rw [hread] at hparse; cases hparse
    | ok t' =>
      rw [hread] at hparse
      obtain rfl := Except.ok.inj hparse
      exact .telemetry (Telemetry.parse_state hread)

/-- A command that is read from the front of a datagram is the one the datagram is. -/
theorem Packet.parse_take_command {k : ℕ} {c : Command} (h : parse (buf.take k) = .ok (.command c)) :
    parse buf = .ok (.command c) := by
  simp only [parse,bind_eq_ok] at h
  obtain ⟨uid,huid,h⟩ := h
  have hfull : getU8 buf 0 = .ok uid := (getU8_seesCut 0).of_ok huid
  split_ifs at h with h1 h2 h3 h4
  all_goals simp only [bind_eq_ok,pure_eq_ok,Except.ok.injEq,reduceCtorEq,and_false,exists_false] at h
  obtain ⟨d,hd,hc⟩ := h
  obtain rfl := Packet.command.inj hc
  have hcommand : Command.parse buf = .ok d := Command.parse_seesCut.of_ok hd
  simp only [parse,hfull,ok_bind,if_neg h1,if_neg h2,if_neg h3,if_pos h4,hcommand]
  rfl

end Reading

/-- Where the parties are, and what each takes from outside. -/
structure Site where
  env : Client.Env
  rcEnv : FakeRc.Env
  station : SocketAddr
  controller : SocketAddr

/-- An error is a worker that has returned. -/
structure Deployment where
  worker : Except Worker Worker
  rc : FakeRc

/-- An input of the station's worker, or a pass of the controller. -/
inductive Act
  | station (i : Input)
  | controller (a : FakeRc.Arrival)

namespace Deployment

open Worker

def start (site : Site) (receiver : Option ℕ) (now : ℕ) (phantomUntil : Option ℕ) : Deployment where
  worker := .ok (Client.start site.env receiver)
  rc := FakeRc.start now phantomUntil

def act (site : Site) (d : Deployment) : Act → Deployment
  | .station i => { d with worker := d.worker >>= fun w => step site.env w i }
  | .controller a => { d with rc := d.rc.pass site.rcEnv a }

def run (site : Site) (d : Deployment) (acts : List Act) : Deployment := acts.foldl (act site) d

def log (d : Deployment) : List Entry := (final d.worker).log

/-- A packet that was handed to the socket, in a datagram of its own. -/
def Carried (sent : List (SocketAddr × Packet)) (dst : SocketAddr) (data : List UInt8) : Prop :=
  ∃ p, (dst,p) ∈ sent ∧ p.serialize = some data ∧ data.length ≤ MAX_DATAGRAM

/-- What comes from the other party's address was sent by it, at some time and perhaps not for the
first time. From any other address anything may come. -/
def Delivers (site : Site) (d : Deployment) : Act → Prop
  | .station (.socket (.datagram data src)) =>
    src = site.controller → Carried d.rc.sent site.station data
  | .controller ⟨_,.datagram data src⟩ =>
    src = site.station → Carried (d.log.filterMap Entry.datagram?) site.controller data
  | _ => True

instance (sent : List (SocketAddr × Packet)) (dst : SocketAddr) (data : List UInt8) :
    Decidable (Carried sent dst data) :=
  decidable_of_iff (∃ x ∈ sent, x.1 = dst ∧ x.2.serialize = some data ∧ data.length ≤ MAX_DATAGRAM)
    ⟨fun ⟨x,hx,hdst,h⟩ => ⟨x.2,hdst ▸ hx,h⟩,fun ⟨p,hp,h⟩ => ⟨(dst,p),hp,rfl,h⟩⟩

instance decidableDelivers (site : Site) (d : Deployment) : (x : Act) → Decidable (Delivers site d x)
  | .station (.socket (.datagram data src)) =>
    inferInstanceAs (Decidable (src = site.controller → Carried d.rc.sent site.station data))
  | .controller ⟨_,.datagram data src⟩ => inferInstanceAs (Decidable
      (src = site.station → Carried (d.log.filterMap Entry.datagram?) site.controller data))
  | .station (.control _) => .isTrue trivial
  | .station (.socket .timedOut) => .isTrue trivial
  | .station (.socket (.failed _)) => .isTrue trivial
  | .controller ⟨_,.timedOut⟩ => .isTrue trivial
  | .controller ⟨_,.failed _⟩ => .isTrue trivial

variable {site : Site} {d d0 : Deployment} {acts front : List Act} {src dst : SocketAddr}
  {p q : Packet} {e : Event} {now : ℕ}

section Controller

/-- The packet was sent in a pass of the controller, and is so of the states around it. -/
def SaidIn (site : Site) (d0 : Deployment) (acts : List Act) (x : SocketAddr × Packet) : Prop :=
  ∃ front a, front ++ [.controller a] <+: acts ∧ FakeRc.Message site.rcEnv a
    (run site d0 front).rc (run site d0 (front ++ [.controller a])).rc x

theorem SaidIn.later {x : SocketAddr × Packet} (h : SaidIn site d0 front x) (hfront : front <+: acts) :
    SaidIn site d0 acts x := by
  obtain ⟨pre,a,hpre,hmessage⟩ := h
  exact ⟨pre,a,hpre.trans hfront,hmessage⟩

theorem run_snoc (site : Site) (d : Deployment) (acts : List Act) (x : Act) :
    run site d (acts ++ [x]) = act site (run site d acts) x := List.foldl_append

theorem sent_said (hsent : d0.rc.sent = []) (acts : List Act) :
    ∀ x ∈ (run site d0 acts).rc.sent, SaidIn site d0 acts x := by
  induction acts using List.reverseRecOn with
  | nil =>
    intro x hx
    rw [run,List.foldl_nil,hsent] at hx
    exact absurd hx List.not_mem_nil
  | append_singleton acts b ih =>
    have hearlier : ∀ x ∈ (run site d0 acts).rc.sent, SaidIn site d0 (acts ++ [b]) x :=
      fun x hx => (ih x hx).later (List.prefix_append _ _)
    cases b with
    | station i =>
      rw [run_snoc]
      exact hearlier
    | controller a =>
      have hpass := FakeRc.pass_sends site.rcEnv (run site d0 acts).rc a
      have hafter : (run site d0 (acts ++ [.controller a])).rc = (run site d0 acts).rc.pass site.rcEnv a := by
        rw [run_snoc]
        rfl
      rw [← hafter] at hpass
      exact (hpass.mono fun x hx => ⟨acts,a,List.prefix_rfl,hx⟩).mem hearlier

end Controller

section Station

/-- The worker keeps its session in order as long as it runs. -/
def Sound (d : Deployment) : Prop := ∀ w, d.worker = .ok w → SessionInv w

theorem start_sound (site : Site) (receiver : Option ℕ) (now : ℕ) (phantomUntil : Option ℕ) :
    (start site receiver now phantomUntil).Sound := by
  intro w hw
  obtain rfl := Except.ok.inj hw
  exact start_session site.env receiver

variable (site) in
theorem act_station (h : d.Sound) (i : Input) :
    (act site d (.station i)).Sound ∧
      Extends (SourceLaw site.env i) d.log (act site d (.station i)).log := by
  obtain ⟨worker,rc⟩ := d
  cases worker with
  | error w => exact ⟨fun v hv => (by cases hv),.refl _ _⟩
  | ok w =>
    have hw : SessionInv w := h w rfl
    have hsourced : Ends (Sourced site.env i w) (Sourced site.env i w) (step site.env w i) :=
      step_sourced hw i
    have hfollows : Follows site.env (fun _ _ => True) w (step site.env w i) :=
      step_follows w i fun _ _ _ => trivial
    have hact : act site ⟨.ok w,rc⟩ (.station i) = ⟨step site.env w i,rc⟩ := rfl
    rw [hact]
    cases hstep : step site.env w i with
    | error v =>
      rw [hstep] at hsourced
      exact ⟨fun u hu => (by cases hu),hsourced⟩
    | ok v =>
      rw [hstep] at hsourced hfollows
      refine ⟨fun u hu => ?_,hsourced⟩
      obtain rfl := Except.ok.inj hu
      exact Moves.sessionInv hfollows hw

theorem act_sound (h : d.Sound) (x : Act) : (act site d x).Sound := by
  cases x with
  | station i => exact (act_station site h i).1
  | controller a => exact h

variable (site) in
theorem run_sound (h : d0.Sound) (acts : List Act) : (run site d0 acts).Sound := by
  induction acts using List.reverseRecOn with
  | nil => exact h
  | append_singleton acts x ih =>
    rw [run_snoc]
    exact act_sound ih x

end Station

section Samples

/-- A robot, and a station on its network. -/
def field : Site where
  env := sampleEnv
  rcEnv := FakeRc.blankEnv
  station := FakeRc.stationA
  controller := robot

def toStation (packet : Packet) : Act := .station (fromRobot packet)

def toController (now : ℕ) (packet : Packet) : Act :=
  .controller ⟨now,.datagram (packet.serialize.getD []) FakeRc.stationA⟩

/-- A request of the list of OpModes as the worker sends it, and the answer of the controller. -/
def listRequest : Packet := .command ⟨4,7,false,REQUEST_OP_MODE_LIST,""⟩
def listAnswer : Packet := .command ⟨1,10^6,false,NOTIFY_OP_MODE_LIST,FakeRc.OPMODES⟩

/-- The station finds the controller, which connects it, and is told the OpModes. -/
def meeting : List Act :=
  [.station (.socket .timedOut),toController 0 (.peerDiscovery {}),toStation (.peerDiscovery {}),
    toController (10^6) listRequest,toStation listAnswer]

end Samples

end Deployment
end Robocol
