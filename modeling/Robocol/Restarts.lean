import Robocol.Session

/-! The restarts the worker asks for when an activation is acked. -/
namespace Robocol
namespace Client

open Cmd Runs Relation Worker

def Entry.isRestart : Entry → Bool
  | .queued _ .worker c => c.name == RESTART_ROBOT
  | _ => false

def Entry.isActivation : Entry → Bool
  | .queued _ _ c => c.name == ACTIVATE_CONFIGURATION
  | _ => false

/-- The restarts the worker queued by itself. -/
def restarts (log : List Entry) : ℕ := log.countP Entry.isRestart

/-- The activations that were queued. -/
def activations (log : List Entry) : ℕ := log.countP Entry.isActivation

def pendingActivations (w : Worker) : ℕ :=
  w.pending.countP fun p => p.command.name == ACTIVATE_CONFIGURATION

def names (a : Command) (p : PendingCommand) : Prop :=
  p.command.name = a.name ∧ p.command.timestamp = a.timestamp

instance (a : Command) (p : PendingCommand) : Decidable (names a p) := by
  unfold names
  infer_instance

/-- An ack of an activation names a pending command. -/
def AcksPending (w : Worker) : Packet → Prop
  | .command a => a.acknowledged = true → a.name = ACTIVATE_CONFIGURATION → ∃ p ∈ w.pending, names a p
  | _ => True

instance (w : Worker) : (packet : Packet) → Decidable (AcksPending w packet)
  | .command a => by unfold AcksPending; infer_instance
  | .heartbeat _ | .gamepad _ | .peerDiscovery _ | .telemetry _ | .keepAlive _ => .isTrue trivial

/-- Every activation that is still pending has its restart to come, and so have `k` more. -/
def RestartInv (k : ℕ) (w : Worker) : Prop :=
  restarts w.log+pendingActivations w+k ≤ activations w.log

variable {env : Env} {k : ℕ} {w w' : Worker} {log xs : List Entry}

theorem counts_append (hx : ∀ e ∈ xs, e.isRestart = false ∧ e.isActivation = false) :
    restarts (log ++ xs) = restarts log ∧ activations (log ++ xs) = activations log := by
  simp only [restarts,activations,List.countP_append,Nat.add_eq_left,List.countP_eq_zero,
    Bool.not_eq_true]
  exact ⟨fun e he => (hx e he).1,fun e he => (hx e he).2⟩

/-- Nothing is queued, and what leaves of the pending activations makes room. -/
theorem RestartInv.of_append {j : ℕ} (h : RestartInv k w) (xs : List Entry)
    (hx : ∀ e ∈ xs, e.isRestart = false ∧ e.isActivation = false) (hlog : w'.log = w.log ++ xs)
    (hp : pendingActivations w'+j ≤ pendingActivations w+k) : RestartInv j w' := by
  obtain ⟨hr,ha⟩ : restarts (w.log ++ xs) = restarts w.log ∧
      activations (w.log ++ xs) = activations w.log := counts_append hx
  rw [RestartInv] at h ⊢
  rw [hlog,hr,ha]
  omega

theorem RestartInv.evict (h : RestartInv k w) : RestartInv k w.evict := by
  rcases evict_cases w with ⟨he,-⟩|⟨p,rest,e,r,hp,-,-,hcause,he⟩
  · rwa [he]
  · refine h.of_append [e] (fun x hx => ?_) (by rw [he]; rfl) ?_
    · rw [List.mem_singleton.mp hx]
      rcases hcause with rfl|⟨rfl,-⟩
      · exact ⟨rfl,rfl⟩
      · exact ⟨rfl,rfl⟩
    · simp only [pendingActivations,he,hp,note,List.countP_cons]
      omega

theorem push_counts (w : Worker) (origin : Origin) (c : Command) :
    restarts (w.push origin c).log =
        restarts w.log+(if (Entry.queued w.queuedCount origin c).isRestart then 1 else 0) ∧
      activations (w.push origin c).log =
        activations w.log+(if c.name == ACTIVATE_CONFIGURATION then 1 else 0) ∧
      pendingActivations (w.push origin c) =
        pendingActivations w+(if c.name == ACTIVATE_CONFIGURATION then 1 else 0) := by
  simp only [restarts,activations,pendingActivations,Worker.push,List.countP_append,
    List.countP_singleton]
  exact ⟨trivial,rfl,trivial⟩

theorem RestartInv.push (h : RestartInv k w) {origin : Origin} {c : Command}
    (hc : origin = .worker → c.name ≠ RESTART_ROBOT) : RestartInv k (w.push origin c) := by
  obtain ⟨hr,ha,hp⟩ := push_counts w origin c
  have hnone : (Entry.queued w.queuedCount origin c).isRestart = false := by
    cases origin with
    | client => rfl
    | worker => simpa [Entry.isRestart] using hc rfl
  rw [RestartInv] at h ⊢
  rw [hr,ha,hp,hnone]
  simp only [Bool.false_eq_true,if_false]
  omega

theorem RestartInv.restart (h : RestartInv (k+1) w) {c : Command} (hc : c.name = RESTART_ROBOT) :
    RestartInv k (w.push .worker c) := by
  obtain ⟨hr,ha,hp⟩ := push_counts w .worker c
  have hone : (Entry.queued w.queuedCount .worker c).isRestart = true := by
    simpa [Entry.isRestart] using hc
  rw [RestartInv] at h ⊢
  rw [hr,ha,hp,hone]
  simp only [if_true]
  omega

theorem retire_pending (w : Worker) (a : Command) :
    (w.retire a).pending = w.pending.filter fun p => ¬names a p := rfl

theorem retire_log (w : Worker) (a : Command) :
    ∀ e ∈ (w.pending.filter fun p => names a p).map fun p => Entry.acked p.id a,
      e.isRestart = false ∧ e.isActivation = false := by
  intro e he
  obtain ⟨p,-,rfl⟩ := List.mem_map.mp he
  exact ⟨rfl,rfl⟩

theorem RestartInv.retire (h : RestartInv k w) (a : Command) : RestartInv k (w.retire a) := by
  refine h.of_append _ (retire_log w a) rfl ?_
  rw [pendingActivations,retire_pending]
  exact Nat.add_le_add_right (List.Sublist.countP_le List.filter_sublist) k

/-- An activation that is acked makes room for its restart. -/
theorem retire_makes_room (w : Worker) (a : Command) (hname : a.name = ACTIVATE_CONFIGURATION)
    (hp : ∃ p ∈ w.pending, names a p) :
    pendingActivations (w.retire a)+1 ≤ pendingActivations w := by
  obtain ⟨p,hp,hnames⟩ := hp
  have hsplit : pendingActivations w = pendingActivations (w.retire a)+
      (w.pending.filter fun p => names a p).countP fun p => p.command.name == ACTIVATE_CONFIGURATION := by
    rw [pendingActivations,List.countP_eq_countP_filter_add _ _ fun p => decide (names a p),Nat.add_comm,
      pendingActivations,retire_pending]
    simp only [decide_not]
  have hpos : 0 < (w.pending.filter fun p => names a p).countP
      fun p => p.command.name == ACTIVATE_CONFIGURATION := by
    refine List.countP_pos_iff.mpr ⟨p,by simpa [hp] using hnames,?_⟩
    simp [hnames.1,hname]
  omega

theorem Move.restartInv (h : RestartInv 0 w) (hm : Move env AcksPending w w') :
    RestartInv 0 w' := by
  have hsame (e : Entry) (he : e.isRestart = false ∧ e.isActivation = false) :
      ∀ x ∈ [e], x.isRestart = false ∧ x.isActivation = false := by simpa using he
  cases hm with
  | book => exact h
  | accept => exact h
  | webcam => exact h
  | disconnect peer hp =>
    refine h.of_append ((w.pending.map fun p => .discarded p.id) ++ [.event .disconnected]) ?_
      (by simp [note,dropPeer]) (Nat.zero_le _)
    intro e he
    rcases List.mem_append.mp he with he|he
    · obtain ⟨p,-,rfl⟩ := List.mem_map.mp he
      exact ⟨rfl,rfl⟩
    · rw [List.mem_singleton.mp he]
      exact ⟨rfl,rfl⟩
  | queue origin command hc => exact h.evict.push hc
  | ack peer a => exact h.retire a
  | restart peer a command hp hok hack hc hr =>
    have hroom := retire_makes_room w a hc (hok hack hc)
    have hretire : RestartInv (0+1) (w.retire a) :=
      h.of_append _ (retire_log w a) rfl hroom
    exact hretire.evict.restart hr
  | transmit peer before after p reads hp hpend =>
    refine h.of_append _ (hsame (.transmitted peer p.id _ _) ⟨rfl,rfl⟩) rfl ?_
    rw [pendingActivations,pendingActivations,hpend]
    simp [Worker.transmit,note,nextSeq,PendingCommand.sentAt,List.countP_cons]
  | expire peer before after p hp hpend =>
    refine h.of_append _ (hsame _ ⟨rfl,rfl⟩) rfl ?_
    rw [pendingActivations,pendingActivations,hpend]
    simp [note,List.countP_cons]
  | _ => exact h.of_append _ (hsame _ ⟨rfl,rfl⟩) rfl (Nat.le_refl _)

/-- An activation restarts the robot at most once, in a run whose acks of activations each
name a pending command. -/
theorem restarts_le_activations (env : Env) (receiver : Option ℕ) (inputs : List Input)
    (hacks : Along (step env) (Offers env AcksPending) (start env receiver) inputs) :
    Ends (fun w => restarts w.log ≤ activations w.log) (fun w => restarts w.log ≤ activations w.log)
      (run env (start env receiver) inputs) := by
  have hle (w : Worker) (hw : RestartInv 0 w) : restarts w.log ≤ activations w.log := by
    rw [RestartInv] at hw
    omega
  have hstart : RestartInv 0 (start env receiver) := by
    show 0+0+0 ≤ 0
    exact Nat.le_refl 0
  refine (run_invariant (fun _ _ hw hm => Move.restartInv hw hm) _ inputs hstart hacks).mono hle ?_
  rintro w ⟨v,hv,hlog|hlog,-⟩
  · exact hlog ▸ hle v hv
  · obtain ⟨hr,ha⟩ : restarts v.dropPeer.log = restarts v.log ∧
        activations v.dropPeer.log = activations v.log := counts_append fun e he => by
      obtain ⟨p,-,rfl⟩ := List.mem_map.mp he
      exact ⟨rfl,rfl⟩
    rw [← hlog,hr,ha]
    exact hle v hv

section Runs

def activation : Command := Command.new ACTIVATE_CONFIGURATION "{}" 5

/-- An activation is sent, and its ack arrives as often as `acks` says. -/
def activate (acks : ℕ) : List Input :=
  [fromRobot (.keepAlive {}),.control (.sendCommand activation),.socket .timedOut] ++
    List.replicate acks (fromRobot (.command (Command.ackOf activation)))

theorem one_ack_one_restart :
    Along (step sampleEnv) (Offers sampleEnv AcksPending) (start sampleEnv none) (activate 1) ∧
    Ends (fun w => restarts w.log ≤ activations w.log) (fun w => restarts w.log ≤ activations w.log)
      (run sampleEnv (start sampleEnv none) (activate 1)) := by
  have hacks : Along (step sampleEnv) (Offers sampleEnv AcksPending) (start sampleEnv none)
      (activate 1) := by decide +kernel
  exact ⟨hacks,restarts_le_activations sampleEnv none (activate 1) hacks⟩

theorem duplicate_ack_restarts_again :
    activations (final (run sampleEnv (start sampleEnv none) (activate 2))).log = 1 ∧
      restarts (final (run sampleEnv (start sampleEnv none) (activate 2))).log = 2 := by
  decide +kernel

end Runs

end Client
end Robocol
