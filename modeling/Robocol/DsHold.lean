import Robocol.FakeRc

/-! Who the fake controller is connected to, over all arrivals. A station that was heard from
while it was connected holds its place for the timeout; the discovery that got it its place
does not count. -/
namespace Robocol

open ByteLayout Cmd StdText Client

namespace FakeRc

variable {env : Env} {rc : FakeRc} {now : ℕ} {a b : SocketAddr} {data : List UInt8}

section Passes

/-- The part of the records that the connection is about. -/
def hold (rc : FakeRc) : Option SocketAddr × ℕ × Option ℕ := (rc.ds,rc.dsSeen,rc.phantomUntil)

theorem hold_of_records {rc' : FakeRc} (h : rc'.records = rc.records) : rc'.hold = rc.hold :=
  congrArg (fun r => (r.1,r.2.1,r.2.2.1)) h

theorem hold_saveConfiguration (extra : String) :
    (rc.saveConfiguration env now extra).hold = rc.hold := by
  rw [saveConfiguration]
  split
  · rfl
  · split
    · rfl
    · rename_i config _
      have hassign : (rc.assignId config).2.hold = rc.hold := hold_of_records (records_assignId config)
      exact (hold_of_records (records_sendCommand _ _ _)).trans hassign

theorem hold_deleteConfiguration (extra : String) :
    (rc.deleteConfiguration env extra).hold = rc.hold := by
  rw [deleteConfiguration]
  split <;> rfl

theorem hold_performCommand (command : Command) :
    (rc.performCommand env now command).hold = rc.hold := by
  obtain hsame|⟨-,hsave⟩|⟨-,hdelete⟩ := performCommand_touched env rc now command
  · exact hold_of_records hsame
  · rw [hsave,hold_saveConfiguration]
  · rw [hdelete,hold_deleteConfiguration]

theorem hold_handleCommand (command : Command) :
    (rc.handleCommand env now command).hold = rc.hold := by
  rw [handleCommand]
  split
  · rfl
  · exact (hold_performCommand command).trans (hold_of_records (records_send _ _))

theorem hold_discovery (env : Env) (rc : FakeRc) (now : ℕ) (p : PeerDiscovery) (src : SocketAddr) :
    (rc.handlePacket env now (.peerDiscovery p) src).hold =
      (if rc.heldAgainst now src then rc.ds else some src,rc.dsSeen,rc.phantomUntil) := by
  rw [handlePacket]
  by_cases hheld : rc.heldAgainst now src = true
  · rw [if_pos hheld,if_pos hheld]
    rfl
  · rw [if_neg hheld,if_neg hheld]
    by_cases hds : rc.ds = some src
    · rw [← hds]
      simp only [ne_eq,not_true_eq_false,if_false]
      rfl
    · simp only [ne_eq,hds,not_false_eq_true,if_true]
      rfl

theorem hold_handlePacket (packet : Packet) (src : SocketAddr)
    (h : ∀ p, packet ≠ .peerDiscovery p) : (rc.handlePacket env now packet src).hold = rc.hold := by
  cases packet with
  | peerDiscovery p => exact absurd rfl (h p)
  | heartbeat hb => exact kept_ite hold rfl rfl
  | command command => exact kept_ite hold (hold_handleCommand command) rfl
  | gamepad gp => exact hold_of_records (records_handleGamepad gp)
  | telemetry t => rfl
  | keepAlive k => rfl

def IsDiscovery (data : List UInt8) : Prop :=
  ∃ p, Packet.parse (data.take BUF_LEN) = .ok (.peerDiscovery p)

/-- A datagram of the connected station is noted. -/
def note (rc : FakeRc) (now : ℕ) (src : SocketAddr) : FakeRc :=
  if rc.ds = some src then { rc with dsSeen := now } else rc

theorem note_ds (rc : FakeRc) (now : ℕ) (src : SocketAddr) :
    (rc.note now src).ds = rc.ds ∧ (rc.note now src).phantomUntil = rc.phantomUntil := by
  rw [note]
  split <;> exact ⟨rfl,rfl⟩

theorem note_other (h : rc.ds ≠ some a) : rc.note now a = rc := if_neg h

theorem receive_discovery (env : Env) (rc : FakeRc) (now : ℕ) (hd : IsDiscovery data)
    (src : SocketAddr) : ∃ p, rc.receive env now (.datagram data src) =
      (rc.note now src).handlePacket env now (.peerDiscovery p) src := by
  obtain ⟨p,hp⟩ := hd
  refine ⟨p,?_⟩
  rw [receive,hp]
  rfl

theorem receive_hold (env : Env) (rc : FakeRc) (now : ℕ) (data : List UInt8) (src : SocketAddr) :
    ∃ d, (rc.receive env now (.datagram data src)).hold = (d,(rc.note now src).dsSeen,rc.phantomUntil) ∧
      (d = rc.ds ∨ d = some src) := by
  obtain ⟨hds,hphantom⟩ := note_ds rc now src
  by_cases hd : IsDiscovery data
  · obtain ⟨p,hp⟩ := receive_discovery env rc now hd src
    rw [hp,hold_discovery,hds,hphantom]
    refine ⟨_,rfl,?_⟩
    split
    · exact .inl rfl
    · exact .inr rfl
  · have hsame : (rc.receive env now (.datagram data src)).hold = (rc.note now src).hold := by
      rw [receive]
      cases hp : Packet.parse (data.take BUF_LEN) with
      | error e => rfl
      | ok packet =>
        refine hold_handlePacket packet src fun p h => hd ⟨p,?_⟩
        rw [hp,h]
    exact ⟨rc.ds,by rw [hsame,hold,hds,hphantom],.inl rfl⟩

end Passes

section Runs

variable {x y : Arrival} {front back pre : List Arrival}

/-- The arrival is a packet of `a`. -/
def Arrival.From (x : Arrival) (a : SocketAddr) : Prop := ∃ data, x.received = .datagram data a

theorem pass_hold (env : Env) (rc : FakeRc) (x : Arrival) :
    (rc.pass env x).hold = (rc.receive env x.now x.received).hold := hold_of_records records_ticks

theorem pass_own (hds : rc.ds = some a) (hx : x.From a) :
    (rc.pass env x).ds = some a ∧ (rc.pass env x).dsSeen = x.now := by
  obtain ⟨data,hdata⟩ := hx
  obtain ⟨d,hreceive,hd⟩ := receive_hold env rc x.now data a
  have hhold := pass_hold env rc x
  rw [hdata,hreceive,note,if_pos hds] at hhold
  obtain ⟨hds',hrest⟩ := Prod.mk.inj hhold
  refine ⟨hds'.trans ?_,(Prod.mk.inj hrest).1⟩
  rcases hd with rfl|rfl
  · exact hds
  · rfl

/-- A packet of another station does not make `a` the connected one, and does not renew its hold. -/
theorem pass_other (hx : ¬x.From a) (hds : (rc.pass env x).ds = some a) :
    rc.ds = some a ∧ (rc.pass env x).dsSeen = rc.dsSeen := by
  have hhold := pass_hold env rc x
  have hquiet (hreceived : rc.receive env x.now x.received = rc) :
      rc.ds = some a ∧ (rc.pass env x).dsSeen = rc.dsSeen := by
    rw [hreceived] at hhold
    exact ⟨(congrArg (·.1) hhold).symm.trans hds,congrArg (·.2.1) hhold⟩
  cases hr : x.received with
  | timedOut => exact hquiet (by rw [hr]; rfl)
  | failed e => exact hquiet (by rw [hr]; rfl)
  | datagram data src =>
    have hsrc : some src ≠ some a := fun h => hx ⟨data,by rw [hr,Option.some.inj h]⟩
    obtain ⟨d,hreceive,hd⟩ := receive_hold env rc x.now data src
    rw [hr,hreceive] at hhold
    obtain ⟨hds',hrest⟩ := Prod.mk.inj hhold
    have hda : d = some a := hds'.symm.trans hds
    have hbefore : rc.ds = some a := by
      rcases hd with hd|hd
      · exact hd.symm.trans hda
      · exact absurd (hd.symm.trans hda) hsrc
    have hnote : rc.note x.now src = rc := note_other (by rw [hbefore]; exact hsrc.symm)
    exact ⟨hbefore,(Prod.mk.inj hrest).1.trans (by rw [hnote])⟩

theorem run_append (env : Env) (rc : FakeRc) (front back : List Arrival) :
    run env rc (front ++ back) = run env (run env rc front) back := List.foldl_append

theorem run_snoc (env : Env) (rc : FakeRc) (as : List Arrival) (x : Arrival) :
    run env rc (as ++ [x]) = (run env rc as).pass env x := run_append env rc as [x]

/-- Where `a` is connected behind packets of others, it was so before them, and its hold is
the one it had. -/
theorem run_others (env : Env) (rc : FakeRc) (hback : ∀ z ∈ back, ¬z.From a)
    (hds : (run env rc back).ds = some a) :
    rc.ds = some a ∧ (run env rc back).dsSeen = rc.dsSeen := by
  induction back using List.reverseRecOn with
  | nil => exact ⟨hds,rfl⟩
  | append_singleton back z ih =>
    rw [run_snoc] at hds ⊢
    obtain ⟨hbefore,hseen⟩ := pass_other (hback z (by simp)) hds
    obtain ⟨hfirst,hrest⟩ := ih (fun w hw => hback w (by simp [hw])) hbefore
    exact ⟨hfirst,hseen.trans hrest⟩

theorem run_phantomUntil (env : Env) (rc : FakeRc) (as : List Arrival) :
    (run env rc as).phantomUntil = rc.phantomUntil := by
  induction as using List.reverseRecOn with
  | nil => rfl
  | append_singleton as x ih =>
    rw [run_snoc]
    refine Eq.trans ?_ ih
    have hhold := congrArg (·.2.2) (pass_hold env (run env rc as) x)
    refine hhold.trans ?_
    cases hr : x.received with
    | timedOut => rfl
    | failed e => rfl
    | datagram data src =>
      obtain ⟨d,hreceive,-⟩ := receive_hold env (run env rc as) x.now data src
      exact congrArg (·.2.2) hreceive

end Runs

section Rivals

/-- The answer to a station that has to wait. -/
def busy : Packet := .peerDiscovery { peerType := .notConnectedDueToPreexistingConnection }

/-- Behind the arrivals `front`, `y` and `back` station `a` is connected. `y` is the last packet
it sent, and a discovery packet of another station comes less than the timeout after it. -/
structure Rival (env : Env) (rc : FakeRc) (a b : SocketAddr) (front : List Arrival) (y : Arrival)
    (back : List Arrival) (now : ℕ) (data : List UInt8) : Prop where
  connected : (run env rc (front ++ y :: back)).ds = some a
  other : b ≠ a
  discovery : IsDiscovery data
  sender : y.From a
  last : ∀ z ∈ back, ¬z.From a
  fresh : now-y.now < DS_TIMEOUT

/-- The packet is turned away, and the station that was connected stays so through the pass. -/
def Refused (env : Env) (rc : FakeRc) (b : SocketAddr) (now : ℕ) (data : List UInt8) : Prop :=
  rc.receive env now (.datagram data b) = rc.sendTo b busy ∧
    (rc.pass env ⟨now,.datagram data b⟩).ds = rc.ds

/-- Every rival of a station that was just heard from is turned away. -/
def HoldsOne (env : Env) (rc : FakeRc) (as : List Arrival) : Prop :=
  ∀ a b front y back now data post, as = front ++ y :: back ++ ⟨now,.datagram data b⟩ :: post →
    Rival env rc a b front y back now data →
      Refused env (run env rc (front ++ y :: back)) b now data

/-- At each rival, the last packet of the station found it connected already, or the time noted
before that packet is less than the timeout ago as well, or the phantom station is still there. -/
def HeldBefore (env : Env) (rc : FakeRc) (as : List Arrival) : Prop :=
  ∀ a b front y back now data post, as = front ++ y :: back ++ ⟨now,.datagram data b⟩ :: post →
    Rival env rc a b front y back now data →
      (run env rc front).ds = some a ∨ now-(run env rc front).dsSeen < DS_TIMEOUT ∨
        ∃ t ∈ rc.phantomUntil, now < t

theorem refused_iff (env : Env) (hds : rc.ds = some a) (hb : b ≠ a) (hd : IsDiscovery data) :
    Refused env rc b now data ↔ rc.heldAgainst now b = true := by
  obtain ⟨p,hp⟩ := receive_discovery env rc now hd b
  have hnote : rc.note now b = rc := note_other (by rw [hds]; exact fun h => hb (Option.some.inj h).symm)
  rw [hnote] at hp
  have hafter : (rc.pass env ⟨now,.datagram data b⟩).ds =
      if rc.heldAgainst now b then rc.ds else some b := by
    refine (congrArg (·.1) (pass_hold env rc ⟨now,.datagram data b⟩)).trans ?_
    rw [hp]
    exact congrArg (·.1) (hold_discovery env rc now p b)
  constructor
  · rintro ⟨-,hkept⟩
    by_contra hheld
    rw [hafter,if_neg hheld,hds] at hkept
    exact hb (Option.some.inj hkept)
  · intro hheld
    refine ⟨?_,hafter.trans (if_pos hheld)⟩
    rw [hp,handlePacket,if_pos hheld]
    rfl

theorem heldAgainst_iff (hds : rc.ds = some a) (hb : b ≠ a) :
    rc.heldAgainst now b = true ↔
      now-rc.dsSeen < DS_TIMEOUT ∨ ∃ t ∈ rc.phantomUntil, now < t := by
  rw [heldAgainst,hds,Bool.or_eq_true,or_comm]
  refine or_congr ?_ ?_
  · simp [hb.symm]
  · cases rc.phantomUntil <;> simp

theorem rival_refused_iff (h : Rival env rc a b front y back now data) :
    Refused env (run env rc (front ++ y :: back)) b now data ↔
      (run env rc front).ds = some a ∨ now-(run env rc front).dsSeen < DS_TIMEOUT ∨
        ∃ t ∈ rc.phantomUntil, now < t := by
  rw [refused_iff env h.connected h.other h.discovery,heldAgainst_iff h.connected h.other,
    run_phantomUntil,← or_assoc]
  refine or_congr_left ?_
  have hconnected := h.connected
  have hcut : front ++ y :: back = (front ++ [y]) ++ back := by simp
  rw [hcut,run_append] at hconnected ⊢
  obtain ⟨-,hseen⟩ := run_others env _ h.last hconnected
  rw [hseen,run_snoc]
  by_cases hfront : (run env rc front).ds = some a
  · rw [(pass_own hfront h.sender).2]
    exact iff_of_true h.fresh (.inl hfront)
  · obtain ⟨data',hdata⟩ := h.sender
    obtain ⟨d,hreceive,-⟩ := receive_hold env (run env rc front) y.now data' a
    have hpass := pass_hold env (run env rc front) y
    rw [hdata,hreceive,note_other hfront] at hpass
    have hkept : ((run env rc front).pass env y).dsSeen = (run env rc front).dsSeen :=
      congrArg (·.2.1) hpass
    rw [hkept,or_iff_right hfront]

/-- The packet that gets a station its place is not noted: the hold counts from the packets
behind it, and up to the first of these from what was noted for the station before. -/
theorem holdsOne_iff (env : Env) (now : ℕ) (phantomUntil : Option ℕ) (as : List Arrival) :
    HoldsOne env (start now phantomUntil) as ↔ HeldBefore env (start now phantomUntil) as := by
  constructor
  · intro h a b front y back now' data post has hrival
    exact (rival_refused_iff hrival).1 (h a b front y back now' data post has hrival)
  · intro h a b front y back now' data post has hrival
    exact (rival_refused_iff hrival).2 (h a b front y back now' data post has hrival)

/-- A discovery packet with the defaults of a station. -/
def discovery : List UInt8 := (PeerDiscovery.serialize {}).getD []

/-- Codecs that take nothing, and no values. -/
def blankEnv : Env where
  configMeta _ := none
  configMetaText _ := ""
  configsText _ := ""
  frameBeginText _ := ""
  frameChunkText _ := ""
  renderFrame _ := []
  batteryLevel _ := ""
  runNumbers _ := ∅
  busCurrent _ := ""
  fieldDemo _ := []

def stationA : SocketAddr := ⟨(127,0,0,1),40001⟩
def stationB : SocketAddr := ⟨(127,0,0,1),40002⟩

/-- The first station is accepted four seconds after the start, a rival comes a millisecond
behind it. -/
def takeover : List Arrival :=
  [⟨4*10^9,.datagram discovery stationA⟩,⟨4*10^9+10^6,.datagram discovery stationB⟩]

theorem takeover_connected :
    (run blankEnv (start 0 none) [⟨4*10^9,.datagram discovery stationA⟩]).ds = some stationA := by
  decide +kernel

theorem takeover_not_held : ¬HoldsOne blankEnv (start 0 none) takeover := by
  intro h
  have hdiscovery : Packet.parse (discovery.take BUF_LEN) = .ok (.peerDiscovery {}) := by
    decide +kernel
  have hrival : Rival blankEnv (start 0 none) stationA stationB [] ⟨4*10^9,.datagram discovery stationA⟩
      [] (4*10^9+10^6) discovery := {
    connected := takeover_connected
    other := by decide
    discovery := ⟨_,hdiscovery⟩
    sender := ⟨_,rfl⟩
    last := by simp
    fresh := by decide }
  have hkept := (h _ _ _ _ _ _ _ [] rfl hrival).2
  have htaken : (run blankEnv (start 0 none) takeover).ds = some stationB := by decide +kernel
  have hab : some stationB = some stationA := htaken.symm.trans (hkept.trans takeover_connected)
  exact absurd hab (by decide)

end Rivals
end FakeRc
end Robocol
