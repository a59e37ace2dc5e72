import Robocol.CommandQueue
import Robocol.Restarts

/-! What an acked stop still allows: a command queued before it may be pending, and is then
transmitted again until it is acked, dropped or discarded itself. -/
namespace Robocol
namespace Client

open Cmd Runs Relation Worker

def IsStop (c : Command) : Prop := c.name = INIT_OP_MODE ∧ c.extra = DEFAULT_OP_MODE

/-- The commands that may move the robot. -/
def IsMotion (c : Command) : Prop := c.name = INIT_OP_MODE ∨ c.name = RUN_OP_MODE

/-- What a transmission may be once the ack of a stop was handled: one of a command that was
still pending then, in the session of that ack, and within its attempts. -/
def StopLaw (cfg : ClientConfig) (before : List Entry) : Entry → Prop
  | .transmitted _ id c _ =>
    ∀ pre s a mid, before = pre ++ .acked s a :: mid →
      (∃ origin q, .queued s origin q ∈ pre ∧ IsStop q) → id < s → IsMotion c →
        id ∉ removals pre ∧ .event .disconnected ∉ mid ∧
          (transmissions before id).length < cfg.commandMaxAttempts
  | _ => True

variable {env : Env} {cfg : ClientConfig} {w : Worker} {log : List Entry}

theorem removals_append (xs ys : List Entry) : removals (xs ++ ys) = removals xs ++ removals ys :=
  List.filterMap_append

theorem queued_range (h : Each (EntryLaw cfg) log) :
    log.filterMap Entry.queued? = List.range (log.filterMap Entry.queued?).length := by
  induction log using List.reverseRecOn with
  | nil => rfl
  | append_singleton log e ih =>
    have hlog := ih (h.take (List.prefix_append log [e]))
    have he := h log e [] rfl
    cases e with
    | queued id origin c =>
      have hid : id = (log.filterMap Entry.queued?).length := he
      simp only [List.filterMap_append,List.filterMap_cons,List.filterMap_nil,Entry.queued?,
        List.length_append,List.length_singleton,List.range_succ,hid]
      rw [← hlog]
    | _ => simpa [List.filterMap_cons,Entry.queued?] using hlog

theorem queued_before (h : Each (EntryLaw cfg) log) {s id : ℕ} {origin : Origin} {q : Command}
    (hs : .queued s origin q ∈ log) (hid : id < s) : id ∈ log.filterMap Entry.queued? := by
  have hmem : s ∈ log.filterMap Entry.queued? := List.mem_filterMap.mpr ⟨_,hs,rfl⟩
  rw [queued_range h] at hmem ⊢
  exact List.mem_range.mpr (hid.trans (List.mem_range.mp hmem))

theorem stop_entries (h : Each (EntryLaw cfg) log) : Each (StopLaw cfg) log := by
  intro before e post heq
  cases e with
  | transmitted dst id c t =>
    obtain ⟨-,-,hleft,hcount,-⟩ := h before _ post heq
    rintro pre s a mid rfl ⟨origin,q,hq,hstop⟩ hlt hmotion
    refine ⟨fun hmem => hleft ?_,fun hend => hleft ?_,hcount⟩
    · rw [removals_append]
      exact List.mem_append_left _ hmem
    · obtain ⟨m,m',rfl⟩ := List.append_of_mem hend
      have hcut : log = (pre ++ .acked s a :: m) ++
          .event .disconnected :: (m' ++ .transmitted dst id c t :: post) := by
        simp [heq]
      have hpre : pre <+: log := ⟨_,by rw [heq,List.append_assoc]⟩
      have hid : id ∈ pre.filterMap Entry.queued? := queued_before (h.take hpre) hq hlt
      have hgone : id ∈ removals (pre ++ .acked s a :: m) := by
        refine h _ _ _ hcut id ?_
        rw [List.filterMap_append]
        exact List.mem_append_left _ hid
      have hsplit : pre ++ .acked s a :: (m ++ .event .disconnected :: m') =
          (pre ++ .acked s a :: m) ++ .event .disconnected :: m' := by simp
      rw [hsplit,removals_append]
      exact List.mem_append_left _ hgone
  | _ => trivial

/-- After the ack of a stop, a motion command queued before it is transmitted only if it was
still pending at the ack. -/
theorem stop_bounds_retries (env : Env) (receiver : Option ℕ) (inputs : List Input) :
    Ends (fun w => Each (StopLaw env.cfg) w.log) (fun w => Each (StopLaw env.cfg) w.log)
      (run env (start env receiver) inputs) := by
  have hall : Along (step env) (Offers env fun _ _ => True) (start env receiver) inputs :=
    Along.of_forall (fun _ _ _ _ _ => trivial) _ inputs
  refine (run_invariant (fun _ _ hw hm => Move.queueInv hw hm) _ inputs
    (start_queueInv env receiver) hall).mono (fun w hw => stop_entries hw.entries) ?_
  rintro w ⟨v,hv,hlog|hlog,-⟩
  · exact hlog ▸ stop_entries hv.entries
  · refine hlog ▸ (stop_entries hv.entries).append _ fun pre e post heq => ?_
    obtain ⟨p,-,rfl⟩ := List.mem_map.mp (heq ▸ List.mem_append_right pre List.mem_cons_self)
    trivial

section Runs

def drive : Command := Command.new RUN_OP_MODE "Drive" 7
def idle : Command := Command.new INIT_OP_MODE DEFAULT_OP_MODE 7

/-- The run command is lost, the stop behind it is acked. -/
def lostRun : List Input :=
  [fromRobot (.keepAlive {}),.control (RobocolClient.runOpmode "Drive"),.socket .timedOut,
    .control RobocolClient.stopOpmode,.socket .timedOut,fromRobot (.command (Command.ackOf idle))]

theorem stopped_robot_runs_again :
    ∃ pre mid post, (final (run sampleEnv (start sampleEnv none) lostRun)).log =
        pre ++ .acked 4 (Command.ackOf idle) ::
          (mid ++ .transmitted robot 3 { drive with seq := 20 } 4000000000 :: post) ∧
      .queued 4 .client idle ∈ pre ∧ .queued 3 .client drive ∈ pre ∧ IsStop idle ∧ IsMotion drive := by
  let log := (final (run sampleEnv (start sampleEnv none) lostRun)).log
  refine ⟨log.take 21,(log.drop 22).take 4,log.drop 27,?_,?_,?_,⟨rfl,rfl⟩,.inr rfl⟩
  · decide +kernel
  · decide +kernel
  · decide +kernel

end Runs

end Client
end Robocol
