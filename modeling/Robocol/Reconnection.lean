import Robocol.Agreement
import Robocol.Notifications

/-! Finding the controller again. Whatever has become of the two parties, once the controller is
free a user who disconnects and connects has a session with it. -/
namespace Robocol
namespace Client

open Cmd Runs Relation Worker

variable {env : Env} {w : Worker} {src addr : SocketAddr}

section Live

theorem send_live (hr : w.receiver = none) (e : Event) : w.send e = .ok (w.note (.event e)) := by
  rw [send,emit,hr]

theorem reports_live (ps : List PendingCommand) (hr : w.receiver = none) :
    ∃ v, ps.foldlM reportDropped w = .ok v := by
  induction ps generalizing w with
  | nil => exact ⟨w,rfl⟩
  | cons p ps ih =>
    have hone : w.reportDropped p = .ok (w.note (.dropped p.id p.command.name .exhausted)) := by
      rw [reportDropped,emit,hr]
    obtain ⟨v,hv⟩ := ih (w := w.note (.dropped p.id p.command.name .exhausted)) hr
    exact ⟨v,by rw [List.foldlM_cons,hone]; exact hv⟩

variable (env) in
theorem retransmit_live (hr : w.receiver = none) : ∃ v, w.retransmitPending env = .ok v := by
  rw [retransmitPending]
  split
  · exact ⟨w,rfl⟩
  · rename_i peer _
    have htransmit (ps : List PendingCommand) (v : Worker) (hv : v.receiver = none) :
        (ps.foldl (transmit peer) v).receiver = none := by
      induction ps generalizing v with
      | nil => exact hv
      | cons p ps ih => exact ih _ hv
    exact reports_live _ (htransmit _ _ hr)

variable (env) in
theorem timers_live (hw : SessionInv w) (hr : w.receiver = none) :
    ∃ v, ((beat env w).webcamTimers env).retransmitPending env = .ok v ∧ v.peer = w.peer := by
  have hmoves : Moves env (fun _ _ => False) w ((beat env w).webcamTimers env) :=
    (beat_moves w).trans (webcamTimers_moves _)
  obtain ⟨v,hv⟩ := retransmit_live env (hmoves.live hr)
  obtain ⟨-,-,hpeer,-⟩ := timers_keep hw hv
  exact ⟨v,hv,hpeer⟩

end Live

section Steps

variable (env) in
theorem disconnect_step (hr : w.receiver = none) :
    ∃ v, step env w (.control .disconnect) = .ok v ∧ v.peer = none ∧ v.receiver = none := by
  by_cases hp : w.peer.isSome = true
  · have hstep : step env w (.control .disconnect) =
        { w with discovering := false }.dropPeer.send .disconnected := if_pos hp
    have hlive : { w with discovering := false }.dropPeer.receiver = none := hr
    rw [hstep,send_live hlive]
    exact ⟨_,rfl,rfl,hr⟩
  · exact ⟨{ w with discovering := false },if_neg hp,by simpa using hp,hr⟩

theorem tick_calls (hp : w.peer = none) (hd : w.discovering = true) (ha : addr.ip ∈ env.cfg.peerAddrs)
    (hport : addr.port = env.cfg.peerPort) : Entry.sent addr (.peerDiscovery {}) ∈ (w.tick env).log ∧
      (w.tick env).peer = none ∧ (w.tick env).discovering = true ∧ (w.tick env).receiver = w.receiver ∧
      (w.tick env).webcamPendingRequest = w.webcamPendingRequest ∧
      (w.tick env).webcamAvailable = w.webcamAvailable := by
  rw [tick_alone hp,if_pos hd]
  refine ⟨List.mem_append_right _ (List.mem_map.mpr ⟨addr.ip,ha,?_⟩),hp,hd,rfl,rfl,rfl⟩
  rw [← hport]

variable (addr) in
theorem search_step (hw : SessionInv w) (hp : w.peer = none) (hd : w.discovering = true)
    (hb : w.lastBeat = none) (ha : addr.ip ∈ env.cfg.peerAddrs) (hport : addr.port = env.cfg.peerPort) :
    ∃ v, step env w (.socket .timedOut) = .ok v ∧ v.peer = none ∧ v.discovering = true ∧
      v.receiver = w.receiver ∧ Entry.sent addr (.peerDiscovery {}) ∈ v.log := by
  have hfresh := hw.fresh hp
  have hcheck : checkTimeout env w = .ok w := by
    rw [checkTimeout,hp]
    rfl
  have hbeat : beat env w = { w with
      clockReads := w.clockReads+1, lastBeat := some (env.clock w.clockReads) }.tick env := by
    rw [beat,hb]
    rfl
  obtain ⟨hlog,hpeer,hdisc,hrec,hpending,havail⟩ := tick_calls (w := { w with
    clockReads := w.clockReads+1, lastBeat := some (env.clock w.clockReads) }) hp hd ha hport
  rw [← hbeat] at hlog hpeer hdisc hrec hpending havail
  have hcam : (beat env w).webcamTimers env = beat env w := by
    simp [webcamTimers,hpending,havail,hfresh.webcamPendingRequest,hfresh.webcamAvailable]
  refine ⟨beat env w,?_,hpeer,hdisc,hrec,hlog⟩
  have hstep : step env w (.socket .timedOut) = (checkTimeout env w >>= fun v =>
      ((beat env v).webcamTimers env).retransmitPending env) := rfl
  rw [hstep,hcheck]
  show ((beat env w).webcamTimers env).retransmitPending env = _
  rw [hcam,retransmitPending,hpeer]

theorem queueCommand_clocks (w : Worker) (origin : Origin) (c : Command) :
    (w.queueCommand env origin c).lastRx = w.lastRx ∧
      (w.queueCommand env origin c).clockReads = w.clockReads := by
  obtain ⟨n,d,hstamp,-⟩ := stamp_eq env w c
  obtain ⟨pending,r,xs,-,he⟩ := evict_eq { w with wallReads := w.wallReads+n }
  simp only [queueCommand,hstamp,push,he]
  exact ⟨trivial,trivial⟩

theorem requestOverview_clocks (w : Worker) : (w.requestOverview env).lastRx = w.lastRx ∧
    (w.requestOverview env).clockReads = w.clockReads := by
  simp only [requestOverview,(queueCommand_clocks _ _ _).1,(queueCommand_clocks _ _ _).2]
  exact ⟨trivial,trivial⟩

theorem latch_live (hr : w.receiver = none) {p : Packet} (hbusy : isBusyReply p = false) :
    w.latch env p src = .ok (.packet p
      (({ w with peer := some src }.note (.event (.connected src))).requestOverview env)) := by
  have hlive : { w with peer := some src }.receiver = none := hr
  rw [latch,if_neg (by simp [hbusy]),send_live hlive]
  rfl

/-- The worker behind the reception of the answer. -/
def answered (env : Env) (w : Worker) (src : SocketAddr) : Worker :=
  ({ w with clockReads := w.clockReads+1, lastRx := env.clock w.clockReads, peer := some src }.note
    (.event (.connected src))).requestOverview env

variable (env src) in
theorem receive_answer (hp : w.peer = none) (hd : w.discovering = true) (hr : w.receiver = none)
    {data : List UInt8} (hparse : Packet.parse data = .ok (.peerDiscovery {})) :
    receive env w (.datagram data src) = .ok (answered env w src) := by
  have hpeer : w.peer.filter (· ≠ src) = none := by
    rw [hp]
    rfl
  have hconnect : { w with clockReads := w.clockReads+1, lastRx := env.clock w.clockReads }.latch env
      (.peerDiscovery {}) src = .ok (.packet (.peerDiscovery {}) (answered env w src)) :=
    latch_live (w := { w with clockReads := w.clockReads+1, lastRx := env.clock w.clockReads }) hr (by decide)
  have hintake : w.intake env data src = .ok (.packet (.peerDiscovery {}) (answered env w src)) := by
    rw [intake,hpeer]
    simp only [hp,hd,now,hparse,Option.isNone_none,Bool.not_true,Bool.and_false,Bool.false_eq_true,
      if_false,if_true]
    rw [← hp,← hd]
    exact hconnect
  rw [receive,handleDatagram,hintake]
  rfl

variable (src) in
/-- A worker that discovers is connected by the answer, if it is not slower than its own timeout. -/
theorem answer_step (hw : SessionInv w) (hp : w.peer = none) (hd : w.discovering = true)
    (hr : w.receiver = none) (hquick : ∀ n, env.clock (n+1) ≤ env.clock n+env.cfg.disconnectTimeout)
    {data : List UInt8} (hparse : Packet.parse data = .ok (.peerDiscovery {})) :
    ∃ v, step env w (.socket (.datagram data src)) = .ok v ∧ v.peer = some src := by
  have hreceive := receive_answer env src hp hd hr hparse
  obtain ⟨hinv,hlive⟩ : SessionInv (answered env w src) ∧ (answered env w src).receiver = none := by
    have hfollows : Follows env (fun _ _ => True) w (receive env w (.datagram data src)) :=
      handleDatagram_follows w data src fun _ _ _ => trivial
    rw [hreceive] at hfollows
    exact ⟨Moves.sessionInv hfollows hw,Moves.live hfollows hr⟩
  have hset : (answered env w src).peer = some src := by simp [answered,requestOverview,note]
  obtain ⟨hrx,hreads⟩ : (answered env w src).lastRx = env.clock w.clockReads ∧
      (answered env w src).clockReads = w.clockReads+1 := requestOverview_clocks _
  generalize answered env w src = u at hreceive hinv hlive hset hrx hreads
  have hcheck : checkTimeout env u = .ok { u with clockReads := u.clockReads+1 } := by
    have hsoon : ¬env.cfg.disconnectTimeout < env.clock u.clockReads-u.lastRx := by
      have := hquick w.clockReads
      rw [hreads,hrx]
      omega
    have hsome : u.peer.isSome = true := by
      rw [hset]
      rfl
    rw [checkTimeout,if_pos hsome]
    exact if_neg hsoon
  have hmove : Move env (fun _ _ => True) u { u with clockReads := u.clockReads+1 } := readClock u 1
  obtain ⟨v,hv,hpeer⟩ := timers_live env (Move.session hinv hmove) hlive
  refine ⟨v,?_,hpeer.trans hset⟩
  have hstep : step env w (.socket (.datagram data src)) = (receive env w (.datagram data src) >>= fun u =>
      checkTimeout env u >>= fun v => ((beat env v).webcamTimers env).retransmitPending env) := rfl
  rw [hstep,hreceive]
  show checkTimeout env u >>= _ = _
  rw [hcheck]
  exact hv

end Steps

end Client

section Answers

open Client FakeRc

variable {env : FakeRc.Env} {rc : FakeRc} {now : ℕ} {src : SocketAddr}

theorem FakeRc.ticks_sent : rc.sent <+: (rc.ticks env now).sent := by
  let a : Arrival := ⟨now,.timedOut⟩
  obtain ⟨xs,hxs,-⟩ : Sends (Announced env a rc (rc.crashTick now)) rc (rc.crashTick now) :=
    sends_crashTick rfl
  obtain ⟨ys,hys,-⟩ : Sends (Message env a rc (rc.crashTick now)) (rc.crashTick now)
    ((rc.crashTick now).telemetryDue env now) := sends_telemetryDue rfl
  obtain ⟨zs,hzs,-⟩ : Sends (Message env a rc ((rc.crashTick now).telemetryDue env now))
    ((rc.crashTick now).telemetryDue env now) (((rc.crashTick now).telemetryDue env now).rcBatteryDue now) :=
    sends_rcBatteryDue rfl
  rw [ticks,hzs,hys,hxs,List.append_assoc,List.append_assoc]
  exact List.prefix_append _ _

theorem FakeRc.discovery_parses : Packet.parse discovery = .ok (.peerDiscovery {}) := by
  decide +kernel

/-- The last packet and the phantom are too long ago to hold the controller. -/
def FakeRc.Free (rc : FakeRc) (now : ℕ) : Prop :=
  (∀ t, rc.phantomUntil = some t → t ≤ now) ∧ rc.dsSeen+DS_TIMEOUT ≤ now

theorem FakeRc.Free.not_held (h : rc.Free now) : rc.heldAgainst now src = false := by
  obtain ⟨hphantom,hseen⟩ := h
  have hpast : rc.phantomUntil.any (fun t => decide (now < t)) = false := by
    cases hp : rc.phantomUntil with
    | none => rfl
    | some t => simpa using hphantom t hp
  have hlate : ¬now-rc.dsSeen < DS_TIMEOUT := by omega
  simp [heldAgainst,hpast,hlate]

variable (env src) in
theorem FakeRc.pass_accepts (h : rc.Free now) :
    (rc.pass env ⟨now,.datagram discovery src⟩).ds = some src ∧
      (src,.peerDiscovery {}) ∈ (rc.pass env ⟨now,.datagram discovery src⟩).sent := by
  have hasks : ∃ p, Packet.parse (discovery.take BUF_LEN) = .ok (.peerDiscovery p) :=
    ⟨{},by rw [List.take_of_length_le (by decide)]; exact discovery_parses⟩
  obtain ⟨p,hp⟩ := receive_discovery env rc now hasks src
  have hreceive : rc.receive env now (.datagram discovery src) =
      (if (rc.note now src).ds ≠ some src then { rc.note now src with ds := some src }
        else rc.note now src).sendTo src (.peerDiscovery {}) := by
    rw [hp]
    exact if_neg (by simp [(note_begun rc ⟨now,.datagram discovery src⟩ src).held,h.not_held])
  have hds : (rc.receive env now (.datagram discovery src)).ds = some src ∧
      (src,.peerDiscovery {}) ∈ (rc.receive env now (.datagram discovery src)).sent := by
    rw [hreceive]
    refine ⟨?_,List.mem_append_right _ List.mem_cons_self⟩
    rw [sendTo]
    split
    · rfl
    · rename_i hsame
      exact not_not.mp hsame
  have hhold : (rc.pass env ⟨now,.datagram discovery src⟩).ds = _ :=
    congrArg (·.1) (pass_hold env rc ⟨now,.datagram discovery src⟩)
  exact ⟨hhold.trans hds.1,ticks_sent.subset hds.2⟩

end Answers

namespace Deployment

open Client FakeRc Runs

/-- The station looks for the controller, and does not take longer than its own timeout for what it
does between two readings of the clock. -/
structure InReach (site : Site) : Prop where
  listed : site.controller.ip ∈ site.env.cfg.peerAddrs
  port : site.controller.port = site.env.cfg.peerPort
  quick : ∀ n, site.env.clock (n+1) ≤ site.env.clock n+site.env.cfg.disconnectTimeout

/-- The user disconnects and connects, and the next call and its answer arrive. -/
def rejoin (site : Site) (now : ℕ) : List Act :=
  [.station (.control .disconnect),.station (.control .connect),.station (.socket .timedOut),
    .controller ⟨now,.datagram discovery site.station⟩,
    .station (.socket (.datagram discovery site.controller))]

/-- The parties have a session with each other. -/
def Meets (site : Site) (d : Deployment) : Prop :=
  (∃ w, d.worker = .ok w ∧ w.peer = some site.controller) ∧ d.rc.ds = some site.station

variable {site : Site} {d : Deployment} {w v : Worker} {now : ℕ}

theorem carried_discovery {sent : List (SocketAddr × Packet)} {dst : SocketAddr}
    (h : (dst,.peerDiscovery {}) ∈ sent) : Carried sent dst discovery := by
  have hser : (Packet.peerDiscovery {}).serialize = some discovery := by decide +kernel
  exact ⟨_,h,hser,by decide⟩

theorem act_worker {i : Client.Input} {rc : FakeRc} (hstep : step site.env w i = .ok v) :
    act site ⟨.ok w,rc⟩ (.station i) = ⟨.ok v,rc⟩ := by
  show (⟨step site.env w i,rc⟩ : Deployment) = _
  rw [hstep]

theorem rejoin_meets (hsite : InReach site) (hsound : d.Sound) (hd : d.worker = .ok w)
    (hr : w.receiver = none) (hfree : d.rc.Free now) :
    Lawful (act site) (Delivers site) d (rejoin site now) ∧ Meets site (run site d (rejoin site now)) := by
  have hinv {u v : Worker} {i : Client.Input} (hu : SessionInv u) (h : step site.env u i = .ok v) :
      SessionInv v := by
    have hfollows : Follows site.env (fun _ _ => True) u (step site.env u i) :=
      step_follows u i fun _ _ _ => trivial
    rw [h] at hfollows
    exact Moves.sessionInv hfollows hu
  obtain ⟨w1,h1,hpeer1,hr1⟩ := disconnect_step site.env hr
  have hw1 := hinv (hsound w hd) h1
  have h2 : step site.env w1 (.control .connect) = .ok { w1 with discovering := true, lastBeat := none } := rfl
  have hw2 := hinv hw1 h2
  obtain ⟨w3,h3,hpeer3,hdisc3,hr3,hlog3⟩ := search_step site.controller hw2 hpeer1 rfl rfl
    hsite.listed hsite.port
  obtain ⟨hds,hanswer⟩ := pass_accepts site.rcEnv site.station hfree
  obtain ⟨w5,h5,hpeer5⟩ := answer_step site.controller (hinv hw2 h3) hpeer3 hdisc3 (hr3.trans hr1)
    hsite.quick discovery_parses
  have hcall : Carried ((log ⟨.ok w3,d.rc⟩).filterMap Entry.datagram?) site.controller discovery :=
    carried_discovery (List.mem_filterMap.mpr ⟨_,hlog3,rfl⟩)
  have hreply : Carried (d.rc.pass site.rcEnv ⟨now,.datagram discovery site.station⟩).sent site.station
    discovery := carried_discovery hanswer
  have hstart : d = ⟨.ok w,d.rc⟩ := by rw [← hd]
  have hlast : act site ⟨.ok w3,d.rc.pass site.rcEnv ⟨now,.datagram discovery site.station⟩⟩
      (.station (.socket (.datagram discovery site.controller))) = ⟨.ok w5,_⟩ := act_worker h5
  generalize d.rc = rc at hstart hds hanswer hcall hreply hlast
  obtain rfl := hstart
  constructor
  · rw [rejoin,lawful_cons,lawful_cons,lawful_cons,lawful_cons,lawful_cons,act_worker h1,act_worker h2,
      act_worker h3]
    exact ⟨trivial,trivial,trivial,fun _ => hcall,fun _ => hreply,lawful_nil⟩
  · rw [rejoin,run,List.foldl_cons,List.foldl_cons,List.foldl_cons,List.foldl_cons,List.foldl_cons,
      List.foldl_nil,act_worker h1,act_worker h2,act_worker h3]
    show Meets site (act site ⟨.ok w3,rc.pass site.rcEnv ⟨now,.datagram discovery site.station⟩⟩ _)
    rw [hlast]
    exact ⟨⟨w5,rfl,hpeer5⟩,hds⟩

/-- The application has not gone away. -/
def Listens (d : Deployment) : Prop := ∀ w, d.worker = .ok w → w.receiver = none

variable (site) in
theorem run_listens (h : d.Listens) (acts : List Act) : (run site d acts).Listens := by
  induction acts using List.reverseRecOn with
  | nil => exact h
  | append_singleton acts x ih =>
    rw [run_snoc]
    cases x with
    | controller a => exact ih
    | station i =>
      generalize run site d acts = e at ih ⊢
      obtain ⟨worker,rc⟩ := e
      cases worker with
      | error w => exact fun v hv => (by cases hv)
      | ok w =>
        intro v hv
        have hfollows : Follows site.env (fun _ _ => True) w (step site.env w i) :=
          step_follows w i fun _ _ _ => trivial
        rw [show step site.env w i = .ok v from hv] at hfollows
        exact Moves.live hfollows (ih w rfl)

/-- Nothing that can happen to the two parties keeps them apart for good: behind every lawful run in
which the worker still runs there is a time from which on a user who disconnects and connects has
a session with the controller again. -/
theorem reconnects (site : Site) (hsite : InReach site) (now : ℕ) (phantomUntil : Option ℕ)
    (acts : List Act)
    (h : Lawful (act site) (Delivers site) (start site none now phantomUntil) acts)
    (hrun : (run site (start site none now phantomUntil) acts).worker.isOk = true) :
    ∃ late, ∀ later, late ≤ later →
      Lawful (act site) (Delivers site) (start site none now phantomUntil) (acts ++ rejoin site later) ∧
        Meets site (run site (start site none now phantomUntil) (acts ++ rejoin site later)) := by
  have hsound := run_sound site (start_sound site none now phantomUntil) acts
  have hlistens : (start site none now phantomUntil).Listens := by
    intro w hw
    obtain rfl := Except.ok.inj hw
    rfl
  have hlive := run_listens site hlistens acts
  have hworker := ok_final hrun
  obtain ⟨late,hlate⟩ : ∃ late, ∀ later, late ≤ later →
      (run site (start site none now phantomUntil) acts).rc.Free later := by
    generalize (run site (start site none now phantomUntil) acts).rc = rc
    refine ⟨max (rc.phantomUntil.getD 0) (rc.dsSeen+DS_TIMEOUT),fun later hle => ⟨fun t ht => ?_,?_⟩⟩
    · rw [ht] at hle
      exact (le_max_left _ _).trans hle
    · exact (le_max_right _ _).trans hle
  refine ⟨late,fun later hle => ?_⟩
  obtain ⟨hlawful,hmeets⟩ := rejoin_meets hsite hsound hworker (hlive _ hworker) (hlate later hle)
  rw [run,List.foldl_append]
  exact ⟨lawful_append.mpr ⟨h,hlawful⟩,hmeets⟩

/-- A stranger who holds the controller has to let go of it in the end. -/
theorem stranger_reconnects : ∃ late, ∀ later, late ≤ later →
    Lawful (act field) (Delivers field) (start field none 0 none)
        ([.controller ⟨0,.datagram discovery stationB⟩] ++ rejoin field later) ∧
      Meets field (run field (start field none 0 none)
        ([.controller ⟨0,.datagram discovery stationB⟩] ++ rejoin field later)) :=
  reconnects field ⟨by decide,rfl,fun n => show (n+1)*10^8 ≤ n*10^8+3*10^9 by omega⟩ 0 none _
    (by decide +kernel) (by decide +kernel)

end Deployment
end Robocol
