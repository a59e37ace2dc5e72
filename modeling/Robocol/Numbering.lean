import Robocol.OpModes
import Robocol.Provenance

/-! Sequence numbers. Each party counts what it sends in sixteen bits; over a whole run the numbers
follow one another without a gap, so that two packets of one number are a full turn apart. -/
namespace Robocol

/-! Numbers handed out one after the other, modulo 2^16. -/
namespace Serials

open Runs

variable {s last : UInt16} {xs pre mid post : List UInt16} {a b : UInt16}

/-- The number of the `n`-th packet behind the number `s`. -/
def serial (s : UInt16) (n : ℕ) : UInt16 := s+UInt16.ofNat n

theorem serial_succ (s : UInt16) (n : ℕ) : serial s (n+1) = serial s n+1 := by
  rw [serial,serial,UInt16.ofNat_add,← UInt16.add_assoc]
  rfl

@[simp] theorem serial_zero (s : UInt16) : serial s 0 = s := by
  simp [serial]

/-- Numbers are given twice only after a full turn. -/
theorem far_of_serial_eq {m n : ℕ} (hlt : m < n) (h : serial s m = serial s n) : 2^16 ≤ n-m := by
  have hnat : m%2^16 = n%2^16 := by
    rw [serial,serial,UInt16.add_right_inj,← UInt16.toNat_inj,UInt16.toNat_ofNat',UInt16.toNat_ofNat'] at h
    exact h
  omega

/-- What was handed out behind `s`, up to `last`. -/
structure Counted (s last : UInt16) (xs : List UInt16) : Prop where
  each : Each (fun pre x => x = serial s (pre.length+1)) xs
  last : last = serial s xs.length

theorem counted_nil (s : UInt16) : Counted s s [] := ⟨each_nil,(serial_zero s).symm⟩

theorem Counted.next (h : Counted s last xs) : Counted s (last+1) (xs ++ [last+1]) := by
  have hlast : last+1 = serial s (xs.length+1) := by rw [serial_succ,← h.last]
  refine ⟨h.each.snoc hlast,?_⟩
  rw [hlast,List.length_append,List.length_singleton]

variable {α : Type} {number : α → Option UInt16} {log : List α}

/-- In a history the numbered entries are those of a counter that began at `s`. -/
structure Numbered (number : α → Option UInt16) (s : UInt16) (log : List α) : Prop where
  each : Each (fun pre e => ∀ n, number e = some n → n = serial s ((pre.filterMap number).length+1)) log
  apart : ∀ pre mid post e e' n, log = pre ++ e :: (mid ++ e' :: post) → number e = some n →
    number e' = some n → 2^16 ≤ (mid.filterMap number).length+1

theorem Counted.numbered (h : Counted s last (log.filterMap number)) : Numbered number s log := by
  have heach := h.each.of_filterMap
  refine ⟨heach,fun pre mid post e e' n hlog he he' => ?_⟩
  have hfirst := heach pre e (mid ++ e' :: post) hlog n he
  have hsecond := heach (pre ++ e :: mid) e' post (by simp [hlog]) n he'
  rw [List.filterMap_append,List.filterMap_cons_some he,List.length_append,List.length_cons] at hsecond
  have hfar := far_of_serial_eq (by omega) (hfirst.symm.trans hsecond)
  omega

end Serials

namespace Client

open Cmd Runs Worker Serials

/-- The number the worker gave a packet. An acknowledgement carries that of the peer. -/
def Entry.number? : Entry → Option UInt16
  | .sent _ (.heartbeat hb) => some hb.seq
  | .sent _ (.gamepad gp) => some gp.seq
  | .transmitted _ _ command _ => some command.seq
  | _ => none

def numbers (log : List Entry) : List UInt16 := log.filterMap Entry.number?

/-- Nothing is numbered on the way. -/
def Unnumbered (w w' : Worker) : Prop := w'.seq = w.seq ∧ Writes (fun e => e.number? = none) w w'

/-- What is numbered on the way follows what was numbered before. -/
def Counting (w w' : Worker) : Prop :=
  ∀ s, Counted s w.seq (numbers w.log) → Counted s w'.seq (numbers w'.log)

variable {env : Env} {w w' w'' : Worker} {e : Entry} {c : Command} {src : SocketAddr}

section Quiet

theorem Unnumbered.refl (w : Worker) : Unnumbered w w := ⟨rfl,.refl _ w⟩

theorem Unnumbered.trans (h : Unnumbered w w') (h' : Unnumbered w' w'') : Unnumbered w w'' :=
  ⟨h'.1.trans h.1,h.2.trans h'.2⟩

theorem Unnumbered.counting (h : Unnumbered w w') : Counting w w' := by
  obtain ⟨hseq,xs,hxs,hx⟩ := h
  have hnone : xs.filterMap Entry.number? = [] := List.filterMap_eq_nil_iff.mpr hx
  intro s hs
  rwa [hseq,hxs,numbers,List.filterMap_append,hnone,List.append_nil]

theorem Counting.trans (h : Counting w w') (h' : Counting w' w'') : Counting w w'' :=
  fun s hs => h' s (h s hs)

/-- One packet gets the next number. -/
theorem Counting.one (hseq : w'.seq = w.seq+1) (hlog : w'.log = w.log ++ [e])
    (he : e.number? = some (w.seq+1)) : Counting w w' := by
  intro s hs
  rw [hseq,hlog,numbers,List.filterMap_append,List.filterMap_cons_some he]
  exact hs.next

variable (w) in
theorem emit_unnumbered (he : e.number? = none) : Ends (Unnumbered w) (Unnumbered w) (w.emit e) := by
  rcases emit_cases w e with ⟨r,-,hemit⟩|⟨-,hemit⟩
  · rw [hemit]
    exact ⟨rfl,writes_one he rfl⟩
  · rw [hemit]
    exact .refl w

theorem queueCommand_unnumbered (w : Worker) (origin : Origin) (c : Command) :
    Unnumbered w (w.queueCommand env origin c) := by
  refine ⟨?_,queueCommand_as w origin c (fun _ _ _ _ => rfl) (fun _ _ => rfl) fun _ => rfl⟩
  obtain ⟨n,d,hstamp,-⟩ := stamp_eq env w c
  obtain ⟨pending,r,xs,-,hevict⟩ := evict_eq { w with wallReads := w.wallReads+n }
  simp only [queueCommand,hstamp,hevict,push]

theorem sendWebcamRequest_unnumbered (w : Worker) : Unnumbered w (w.sendWebcamRequest env) :=
  queueCommand_unnumbered { w with
    clockReads := w.clockReads+1, lastWebcamRequest := some (env.clock w.clockReads) } _ _

theorem requestWebcamFramePaced_unnumbered (w : Worker) : Unnumbered w (w.requestWebcamFramePaced env) := by
  obtain ⟨n,hpaced|hpaced⟩ := requestWebcamFramePaced_eq env w
  · rw [hpaced]
    exact sendWebcamRequest_unnumbered { w with clockReads := w.clockReads+n }
  · rw [hpaced]
    exact .refl w

theorem webcamTimers_unnumbered (w : Worker) : Unnumbered w (w.webcamTimers env) := by
  obtain ⟨n,hsend|hwait|⟨-,hstall⟩⟩ := webcamTimers_eq env w
  · rw [hsend]
    exact sendWebcamRequest_unnumbered { w with clockReads := w.clockReads+n, webcamPendingRequest := false }
  · rw [hwait]
    exact .refl w
  · rw [hstall]
    exact requestWebcamFramePaced_unnumbered { w with clockReads := w.clockReads+n, webcamFrames := ∅ }

theorem requestOverview_unnumbered (w : Worker) : Unnumbered w (w.requestOverview env) := by
  rw [requestOverview]
  exact ((queueCommand_unnumbered w _ _).trans (queueCommand_unnumbered _ _ _)).trans (queueCommand_unnumbered _ _ _)

theorem handleAck_unnumbered (w : Worker) (c : Command) : Unnumbered w (w.handleAck env c) := by
  have hretire : Unnumbered w (w.retire c) := by
    refine ⟨rfl,(retire_writes w c).mono fun e he => ?_⟩
    obtain ⟨q,-,-,rfl⟩ := he
    rfl
  rw [handleAck]
  split
  · exact hretire.trans (queueCommand_unnumbered _ _ _)
  · exact hretire

theorem quiet_ite {b : Prop} [Decidable b] {r s : Option Event × Worker}
    (hr : b → Unnumbered w r.2) (hs : ¬b → Unnumbered w s.2) : Unnumbered w (if b then r else s).2 := by
  split
  · exact hr ‹_›
  · exact hs ‹_›

theorem commandEvent_unnumbered (w : Worker) (c : Command) : Unnumbered w (w.commandEvent env c).2 := by
  have hstream : Unnumbered w (w.handleStreamChange env c.extra).2 := by
    rw [handleStreamChange]
    generalize (StdText.trim c.extra.toList == "true".toList) = available
    cases available with
    | true => exact requestWebcamFramePaced_unnumbered { w with webcamAvailable := true }
    | false => exact .refl w
  have hbegin : Unnumbered w (w.handleFrameBegin env c.extra) := by
    rw [handleFrameBegin]
    split <;> exact .refl w
  have hchunk : Unnumbered w (w.handleFrameChunk env c.extra).2 := by
    obtain ⟨frames,hnone|⟨data,hshow|⟨-,hask⟩⟩⟩ := handleFrameChunk_eq env w c.extra
    · rw [hnone]
      exact .refl w
    · rw [hshow]
      exact .refl w
    · rw [hask]
      exact requestWebcamFramePaced_unnumbered { w with webcamFrames := frames }
  unfold commandEvent
  iterate 10 refine quiet_ite (fun _ => .refl w) fun _ => ?_
  refine quiet_ite (fun _ => hstream) fun _ => ?_
  refine quiet_ite (fun _ => hbegin) fun _ => ?_
  exact quiet_ite (fun _ => hchunk) fun _ => .refl w

theorem Unnumbered.ends {r : Except Worker Worker} (h : Unnumbered w w') (hr : Ends (Unnumbered w') (Unnumbered w') r) :
    Ends (Unnumbered w) (Unnumbered w) r := hr.mono (fun _ h' => h.trans h') fun _ h' => h.trans h'

theorem handleCommand_unnumbered (w : Worker) (c : Command) (src : SocketAddr) :
    Ends (Unnumbered w) (Unnumbered w) (w.handleCommand env c src) := by
  rw [handleCommand]
  refine Ends.ite (fun _ => handleAck_unnumbered w c) fun _ => ?_
  have hack : Unnumbered w (w.sendTo src (.command (Command.ackOf c))) :=
    ⟨rfl,writes_one (e := .sent src (.command (Command.ackOf c))) rfl rfl⟩
  refine Ends.ite (fun _ => hack) fun _ => ?_
  obtain ⟨v,hv,hsame⟩ : ∃ v, (if isFrameCommand c = true then w.sendTo src (.command (Command.ackOf c))
      else (w.sendTo src (.command (Command.ackOf c))).acceptKey (c.name,c.timestamp)) = v ∧
      Unnumbered (w.sendTo src (.command (Command.ackOf c))) v := by
    refine ⟨_,rfl,?_⟩
    split <;> exact .refl _
  rw [hv]
  have hevent : Unnumbered w (v.commandEvent env c).2 := (hack.trans hsame).trans (commandEvent_unnumbered v c)
  simp only
  generalize v.commandEvent env c = r at hevent ⊢
  obtain ⟨event,u⟩ := r
  cases event with
  | none => exact hevent
  | some event => exact hevent.ends (emit_unnumbered u rfl)

theorem dispatch_unnumbered (w : Worker) (p : Packet) (src : SocketAddr) :
    Ends (Unnumbered w) (Unnumbered w) (w.dispatch env p src) := by
  have hstate (state : RobotState) : Ends (Unnumbered w) (Unnumbered w) (w.updateRobotState state) := by
    rw [updateRobotState]
    exact Ends.ite (fun _ => .refl w) fun _ => emit_unnumbered { w with robotState := some state } rfl
  cases p with
  | heartbeat hb => exact hstate hb.robotState
  | telemetry t => exact Ends.bind (hstate t.robotState) fun v hv => hv.ends (emit_unnumbered v rfl)
  | command c => exact handleCommand_unnumbered w c src
  | peerDiscovery => exact .refl w
  | gamepad => exact .refl w
  | keepAlive => exact .refl w

theorem latch_unnumbered (w : Worker) (p : Packet) (src : SocketAddr) :
    Ends (fun r : Intake => Unnumbered w r.worker) (Unnumbered w) (w.latch env p src) := by
  rw [latch]
  refine Ends.ite (fun _ => ?_) fun _ => ?_
  · exact Ends.map (emit_unnumbered { w with discovering := false } rfl) fun _ h => h
  · refine Ends.bind (emit_unnumbered { w with peer := some src } rfl) fun v hv => ?_
    exact hv.trans (requestOverview_unnumbered v)

theorem intake_unnumbered (w : Worker) (data : List UInt8) (src : SocketAddr) :
    Ends (fun r : Intake => Unnumbered w r.worker) (Unnumbered w) (w.intake env data src) := by
  have hnotice (v : Worker) (text : String) (hv : Unnumbered w v) :
      Ends (fun r : Intake => Unnumbered w r.worker) (Unnumbered w) (Intake.done <$> v.send (.protocolError text)) :=
    Ends.map (hv.ends (emit_unnumbered v rfl)) fun _ h => h
  rw [intake]
  split
  · exact hnotice w _ (.refl w)
  refine Ends.ite (fun _ => .refl w) fun _ => ?_
  have hu : Unnumbered w { w with clockReads := w.clockReads+1, lastRx := env.clock w.clockReads } := .refl w
  simp only [now]
  generalize { w with clockReads := w.clockReads+1, lastRx := env.clock w.clockReads } = u at hu ⊢
  cases Packet.parse data with
  | error e => exact hnotice u _ hu
  | ok packet =>
    refine Ends.ite (fun _ => ?_) fun _ => hu
    exact (latch_unnumbered u packet src).mono (fun _ h => hu.trans h) fun _ h => hu.trans h

theorem receive_unnumbered (w : Worker) (r : Received) : Ends (Unnumbered w) (Unnumbered w) (receive env w r) := by
  cases r with
  | timedOut => exact .refl w
  | failed error => exact emit_unnumbered w rfl
  | datagram data src =>
    refine Ends.bind (intake_unnumbered w data src) fun r hr => ?_
    cases r with
    | done v => exact hr
    | packet p v => exact hr.ends (dispatch_unnumbered v p src)

theorem dropPeer_unnumbered (w : Worker) : Ends (Unnumbered w) (Unnumbered w) (w.dropPeer.send .disconnected) := by
  have hdrop : Unnumbered w w.dropPeer := by
    refine ⟨rfl,_,rfl,fun e he => ?_⟩
    obtain ⟨q,-,rfl⟩ := List.mem_map.mp he
    rfl
  exact hdrop.ends (emit_unnumbered w.dropPeer rfl)

theorem checkTimeout_unnumbered (w : Worker) : Ends (Unnumbered w) (Unnumbered w) (checkTimeout env w) := by
  rw [checkTimeout]
  refine Ends.ite (fun _ => ?_) fun _ => .refl w
  exact Ends.ite (fun _ => dropPeer_unnumbered { w with clockReads := w.clockReads+1 }) fun _ => .refl w

end Quiet

section Counting

theorem transmitGamepad_counting (w : Worker) (gamepad : Gamepad) :
    Counting w (w.transmitGamepad env gamepad) := by
  rw [transmitGamepad]
  split
  · exact (Unnumbered.refl w).counting
  · simp only [nextSeq]
    split <;> exact .one (e := .sent _ (.gamepad _)) rfl rfl rfl

theorem tick_counting (w : Worker) : Counting w (w.tick env) := by
  cases hp : w.peer with
  | none =>
    have hcalls : Unnumbered w (w.tick env) := by
      rw [tick_alone hp]
      refine ⟨rfl,_,rfl,fun e he => ?_⟩
      obtain ⟨addr,-,rfl⟩ := mem_calls he
      rfl
    exact hcalls.counting
  | some peer =>
    rw [tick,hp]
    exact .one (e := .sent _ (.heartbeat _)) rfl rfl rfl

theorem beat_counting (w : Worker) : Counting w (beat env w) := by
  obtain ⟨n,hdue⟩ := isDue_eq env w w.lastBeat env.cfg.heartbeatInterval
  simp only [beat,hdue]
  split
  · exact tick_counting { w with
      clockReads := w.clockReads+n+1, lastBeat := some (env.clock (w.clockReads+n)) }
  · exact (Unnumbered.refl w).counting

theorem retransmitPending_counting (w : Worker) :
    Ends (Counting w) (Counting w) (w.retransmitPending env) := by
  have hsent (peer : SocketAddr) (ps : List PendingCommand) (v : Worker) :
      Counting v (ps.foldl (transmit peer) v) := by
    induction ps generalizing v with
    | nil => exact (Unnumbered.refl v).counting
    | cons p ps ih =>
      have hone : Counting v (v.transmit peer p) := .one (e := .transmitted _ _ _ _) rfl rfl rfl
      exact hone.trans (ih _)
  have hdropped (ps : List PendingCommand) (v : Worker) :
      Ends (Unnumbered v) (Unnumbered v) (ps.foldlM reportDropped v) :=
    foldlM_ends (fun u p hu => hu.ends (emit_unnumbered u rfl)) v ps (.refl v)
  rw [retransmitPending]
  split
  · exact (Unnumbered.refl w).counting
  · rename_i peer _
    have hbefore := hsent peer (sweep env w.clockReads w.pending).1.toSend { w with
      pending := (sweep env w.clockReads w.pending).1.kept
      clockReads := (sweep env w.clockReads w.pending).2 }
    have hstart : Counting w { w with
      pending := (sweep env w.clockReads w.pending).1.kept
      clockReads := (sweep env w.clockReads w.pending).2 } := (Unnumbered.refl w).counting
    exact (hdropped (sweep env w.clockReads w.pending).1.dropped _).mono
      (fun _ h => (hstart.trans hbefore).trans h.counting) fun _ h => (hstart.trans hbefore).trans h.counting

theorem controlStep_counting (w : Worker) (c : Control) :
    Ends (Counting w) (Counting w) (controlStep env w c) := by
  cases c with
  | shutdown => exact (Unnumbered.refl w).counting
  | connect => exact (Unnumbered.refl w).counting
  | disconnect =>
    refine Ends.ite (fun _ => ?_) fun _ => (Unnumbered.refl w).counting
    exact (dropPeer_unnumbered { w with discovering := false }).mono (fun _ h => h.counting) fun _ h => h.counting
  | sendGamepad gamepad => exact transmitGamepad_counting w gamepad
  | sendCommand command => exact (queueCommand_unnumbered w .client command).counting

theorem step_counting (w : Worker) (i : Input) : Ends (Counting w) (Counting w) (step env w i) := by
  cases i with
  | control c => exact controlStep_counting w c
  | socket r =>
    have hreceived : Ends (Counting w) (Counting w) (receive env w r) :=
      (receive_unnumbered w r).mono (fun _ h => h.counting) fun _ h => h.counting
    refine Ends.bind hreceived fun v hv => ?_
    have hchecked : Ends (Counting w) (Counting w) (checkTimeout env v) :=
      (checkTimeout_unnumbered v).mono (fun _ h => hv.trans h.counting) fun _ h => hv.trans h.counting
    refine Ends.bind hchecked fun u hu => ?_
    have htimers : Counting u ((beat env u).webcamTimers env) :=
      (beat_counting u).trans (webcamTimers_unnumbered _).counting
    exact (retransmitPending_counting _).mono (fun _ h => hu.trans (htimers.trans h))
      fun _ h => hu.trans (htimers.trans h)

/-- Over every run the worker numbers its heartbeats, gamepads and transmissions from one on, each with
the next number, in every session and across all of them. -/
theorem packets_numbered (env : Env) (receiver : Option ℕ) (inputs : List Input) :
    Numbered Entry.number? 0 (final (run env (start env receiver) inputs)).log := by
  have hrun : Ends (Counting (start env receiver)) (Counting (start env receiver))
      (run env (start env receiver) inputs) :=
    foldlM_ends (fun v i hv => (step_counting v i).mono (fun _ h => hv.trans h) fun _ h => hv.trans h) _ inputs
      (Unnumbered.refl _).counting
  have hstart : Counted 0 (start env receiver).seq (numbers (start env receiver).log) := counted_nil 0
  exact hrun.at_final (fun _ h => (h 0 hstart).numbered) fun _ h => (h 0 hstart).numbered

end Counting

end Client

namespace FakeRc

open Client Cmd Runs Serials

/-- The number the controller gave a packet. An acknowledgement carries that of the station. -/
def number? : SocketAddr × Packet → Option UInt16
  | (_,.heartbeat hb) => some hb.seq
  | (_,.telemetry t) => some t.seq
  | (_,.command command) => if command.acknowledged then none else some command.seq
  | _ => none

def numbers (rc : FakeRc) : List UInt16 := rc.sent.filterMap number?

/-- What was sent has the last numbers. Without a station numbers are taken for nothing. -/
def Counts (rc : FakeRc) : Prop := (∃ s, Counted s rc.seq rc.numbers) ∧ (rc.ds = none → rc.numbers = [])

variable {env : Env} {rc : FakeRc} {now : ℕ}

section Counts

theorem Counts.sendTo (h : rc.Counts) {dst : SocketAddr} {packet : Packet} (hp : number? (dst,packet) = none) :
    (rc.sendTo dst packet).Counts := by
  have hsame : (rc.sendTo dst packet).numbers = rc.numbers := by
    rw [numbers,FakeRc.sendTo,List.filterMap_append,List.filterMap_cons_none hp,List.filterMap_nil,
      List.append_nil,numbers]
  rw [Counts,hsame]
  exact h

/-- A packet with the next number. -/
theorem Counts.sendNext (h : rc.Counts) {dst : SocketAddr} {packet : Packet} (hds : rc.ds = some dst)
    (hp : number? (dst,packet) = some (rc.seq+1)) :
    ({ rc with seq := rc.seq+1 }.sendTo dst packet).Counts := by
  obtain ⟨s,hs⟩ := h.1
  have hnext : ({ rc with seq := rc.seq+1 }.sendTo dst packet).numbers = rc.numbers ++ [rc.seq+1] := by
    rw [numbers,FakeRc.sendTo,List.filterMap_append,List.filterMap_cons_some hp,List.filterMap_nil,numbers]
  rw [Counts,hnext]
  exact ⟨⟨s,hs.next⟩,fun hnone => absurd (hds.symm.trans hnone) (Option.some_ne_none dst)⟩

theorem Counts.send (h : rc.Counts) {packet : Packet} (hp : ∀ dst, number? (dst,packet) = some (rc.seq+1)) :
    ({ rc with seq := rc.seq+1 }.send packet).Counts := by
  rw [FakeRc.send]
  split
  · rename_i hds
    have hnone : rc.numbers = [] := h.2 hds
    have hempty : Counted (rc.seq+1) (rc.seq+1) rc.numbers := by
      rw [hnone]
      exact counted_nil _
    exact ⟨⟨_,hempty⟩,fun _ => hnone⟩
  · rename_i dst hds
    exact h.sendNext hds (hp dst)

theorem Counts.sendCommand (h : rc.Counts) (name extra : String) : (rc.sendCommand now name extra).Counts :=
  h.send fun _ => rfl

theorem counts_ite {b : Prop} [Decidable b] {r s : FakeRc} (hr : b → r.Counts) (hs : ¬b → s.Counts) :
    (if b then r else s).Counts := iteInduction hr hs

theorem Counts.setWebcamAvailable (h : rc.Counts) (available : Bool) :
    (rc.setWebcamAvailable now available).Counts := by
  have hset : ({ rc with webcamAvailable := available } : FakeRc).Counts := h
  exact counts_ite (fun _ => h) fun _ => hset.sendCommand _ _

theorem Counts.sendWebcamFrame (h : rc.Counts) : (rc.sendWebcamFrame env now).Counts := by
  have hfold (cs : List (List UInt8 × ℕ)) (text : List UInt8 × ℕ → String) (v : FakeRc) (hv : v.Counts) :
      (cs.foldl (fun v c => v.sendCommand now RECEIVE_FRAME_CHUNK (text c)) v).Counts := by
    induction cs generalizing v with
    | nil => exact hv
    | cons c cs ih => exact ih _ (hv.sendCommand _ _)
  have hnum : ({ rc with webcamFrameNum := rc.webcamFrameNum+1 } : FakeRc).Counts := h
  exact hfold _ _ _ (hnum.sendCommand _ _)

theorem Counts.saveConfiguration (h : rc.Counts) (extra : String) :
    (rc.saveConfiguration env now extra).Counts := by
  have hassigned (config : ConfigMeta) : (rc.assignId config).2.Counts := by
    rw [assignId]
    split <;> exact h
  have hstored (config : ConfigMeta) (xml : String) :
      ((rc.assignId config).2.storeConfig (rc.assignId config).1 xml).Counts := hassigned config
  rw [FakeRc.saveConfiguration]
  split
  · exact h
  · split
    · exact h
    · exact (hstored _ _).sendCommand _ _

theorem Counts.initOpMode (h : rc.Counts) (name : String) : (rc.initOpMode now name).Counts := by
  have hstopped : ({ rc with runStarted := none, state := .stopped, opmode := "" } : FakeRc).Counts := h
  have hinit : ({ rc with runStarted := none, state := .init, opmode := name } : FakeRc).Counts := h
  refine Counts.sendCommand (counts_ite (fun _ => ?_) fun _ => ?_) _ _
  · exact hstopped.setWebcamAvailable _
  · exact hinit.setWebcamAvailable _

theorem Counts.restartRobot (h : rc.Counts) : (rc.restartRobot env now).Counts := by
  have hstopped : ({ rc with state := .notStarted, opmode := "" }.setWebcamAvailable now false).Counts :=
    Counts.setWebcamAvailable (show Counts { rc with state := .notStarted, opmode := "" } from h) _
  simp only [FakeRc.restartRobot]
  generalize { rc with state := .notStarted, opmode := "" }.setWebcamAvailable now false = v at hstopped ⊢
  cases v.pendingActivation with
  | none => exact hstopped
  | some config =>
    have hactive : ({ v with pendingActivation := none, activeConfig := config } : FakeRc).Counts := hstopped
    exact hactive.sendCommand _ _

theorem Counts.performCommand (h : rc.Counts) (command : Command) :
    (rc.performCommand env now command).Counts := by
  have hactivated : (rc.activateConfiguration env command.extra).Counts := by
    rw [activateConfiguration]
    split <;> exact h
  have hdeleted : (rc.deleteConfiguration env command.extra).Counts := by
    rw [deleteConfiguration]
    split <;> exact h
  have hrunning : ({ rc with
    state := .running, opmode := command.extra, runStarted := some now } : FakeRc).Counts := h
  unfold FakeRc.performCommand
  refine counts_ite (fun _ => h.sendCommand _ _) fun _ => ?_
  refine counts_ite (fun _ => h.initOpMode _) fun _ => ?_
  refine counts_ite (fun _ => hrunning.sendCommand _ _) fun _ => ?_
  refine counts_ite (fun _ => h.restartRobot) fun _ => ?_
  refine counts_ite (fun _ => counts_ite (fun _ => h.sendWebcamFrame) fun _ => h) fun _ => ?_
  iterate 5 refine counts_ite (fun _ => h.sendCommand _ _) fun _ => ?_
  refine counts_ite (fun _ => hactivated) fun _ => ?_
  refine counts_ite (fun _ => h.saveConfiguration _) fun _ => ?_
  exact counts_ite (fun _ => hdeleted) fun _ => h

theorem Counts.handleCommand (h : rc.Counts) (command : Command) :
    (rc.handleCommand env now command).Counts := by
  refine counts_ite (fun _ => h) fun _ => Counts.performCommand ?_ _
  rw [FakeRc.send]
  split
  · exact h
  · exact h.sendTo rfl

theorem Counts.handleGamepad (h : rc.Counts) (gp : Gamepad) : (rc.handleGamepad gp).Counts := by
  have hview : ((rc.handleGamepad gp).seq,(rc.handleGamepad gp).sent,(rc.handleGamepad gp).ds) =
      (rc.seq,rc.sent,rc.ds) := by
    have hset (v : FakeRc) : (v.seq,v.sent,v.ds) = (v.seq,v.sent,v.ds) := rfl
    refine kept_ite (fun v : FakeRc => (v.seq,v.sent,v.ds)) ?_ rfl
    refine kept_ite (fun v : FakeRc => (v.seq,v.sent,v.ds)) ?_ rfl
    refine kept_ite (fun v : FakeRc => (v.seq,v.sent,v.ds)) ?_ ?_
    all_goals exact kept_ite (fun v : FakeRc => (v.seq,v.sent,v.ds)) rfl rfl
  simp only [Prod.mk.injEq] at hview
  obtain ⟨hseq,hsent,hds⟩ := hview
  rwa [Counts,numbers,hseq,hsent,hds]

theorem Counts.handlePacket (h : rc.Counts) (packet : Packet) (src : SocketAddr) :
    (rc.handlePacket env now packet src).Counts := by
  cases packet with
  | peerDiscovery p =>
    refine counts_ite (fun _ => h.sendTo rfl) fun _ => Counts.sendTo ?_ rfl
    refine counts_ite (fun _ => ?_) fun _ => h
    exact ⟨h.1,fun hnone => absurd hnone (Option.some_ne_none src)⟩
  | heartbeat hb => exact counts_ite (fun hds => h.sendNext hds rfl) fun _ => h
  | command c => exact counts_ite (fun _ => h.handleCommand c) fun _ => h
  | gamepad gp => exact h.handleGamepad gp
  | telemetry t => exact h
  | keepAlive k => exact h

theorem Counts.receive (h : rc.Counts) (r : Received) : (rc.receive env now r).Counts := by
  cases r with
  | timedOut => exact h
  | failed error => exact h
  | datagram data src =>
    have hseen : (if rc.ds = some src then { rc with dsSeen := now } else rc : FakeRc).Counts :=
      counts_ite (fun _ => h) fun _ => h
    simp only [FakeRc.receive]
    split
    · exact hseen
    · exact hseen.handlePacket _ src

theorem Counts.crashTick (h : rc.Counts) : (rc.crashTick now).Counts := by
  refine counts_ite (fun _ => h) fun _ => counts_ite (fun _ => h) fun _ => ?_
  have htold : ({ rc with runStarted := none }.sendCommand now SHOW_STACKTRACE CRASH_STACKTRACE).Counts :=
    Counts.sendCommand (show Counts { rc with runStarted := none } from h) _ _
  exact (Counts.setWebcamAvailable (show Counts { ({ rc with
    runStarted := none }.sendCommand now SHOW_STACKTRACE CRASH_STACKTRACE) with
      state := .stopped, opmode := "" } from htold) false).sendCommand _ _

theorem Counts.pass (h : rc.Counts) (a : Arrival) : (rc.pass env a).Counts := by
  have htelemetry {v : FakeRc} (hv : v.Counts) : (v.telemetryDue env a.now).Counts :=
    counts_ite (fun _ => Counts.send (show Counts { v with lastTelemetry := a.now } from hv) fun _ => rfl) fun _ => hv
  have hbattery {v : FakeRc} (hv : v.Counts) : (v.rcBatteryDue a.now).Counts :=
    counts_ite (fun _ => Counts.send (show Counts { v with lastRcBattery := a.now } from hv) fun _ => rfl) fun _ => hv
  exact hbattery (htelemetry (h.receive a.received).crashTick)

theorem Counts.run (h : rc.Counts) (as : List Arrival) : (rc.run env as).Counts := by
  induction as generalizing rc with
  | nil => exact h
  | cons a as ih => exact ih (h.pass a)

/-- Over all arrivals the controller numbers its heartbeats, telemetry and notifications, each with the
next number, from the first station on and whoever is connected. -/
theorem packets_counted (env : Env) (now : ℕ) (phantomUntil : Option ℕ) (as : List Arrival) :
    ∃ s, Numbered number? s (run env (start now phantomUntil) as).sent := by
  have hstart : (start now phantomUntil).Counts := ⟨⟨0,counted_nil 0⟩,fun _ => rfl⟩
  obtain ⟨⟨s,hs⟩,-⟩ := hstart.run as
  exact ⟨s,hs.numbered⟩

end Counts

end FakeRc

end Robocol
