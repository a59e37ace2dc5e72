import Robocol.RetryQueue
import Robocol.Session

/-! The pending commands as a retry queue: where every queued command is, and what the worker
keeps to when it sends one again. -/
namespace Robocol
namespace Client

open Cmd Runs Relation Worker RetryQueue

/-- Why a command left the pending ones. -/
inductive Leaving
  | acked (ack : Command)
  | dropped (name : String) (cause : DropCause)
  | discarded
  | lost

/-- What stays the same of a command from one transmission to the next. -/
def key (c : Command) : String × Int64 × String := (c.name,c.timestamp,c.extra)

/-- What an entry says of the queue. -/
def Entry.act? : Entry → Option (Act (String × Int64 × String) Leaving)
  | .queued id _ c => some (.enter id (key c))
  | .transmitted _ id c t => some (.send id (key c) t)
  | .acked id a => some (.leave id (.acked a))
  | .dropped id name cause => some (.leave id (.dropped name cause))
  | .discarded id => some (.leave id .discarded)
  | .lost id => some (.leave id .lost)
  | _ => none

def PendingCommand.item (p : PendingCommand) : Item (String × Int64 × String) :=
  ⟨p.id,key p.command,p.attempts,p.lastSent⟩

def mayLeave (cfg : ClientConfig) (k : String × Int64 × String) (attempts held : ℕ) :
    Leaving → Prop
  | .acked a => a.acknowledged = true ∧ k.1 = a.name ∧ k.2.1 = a.timestamp
  | .dropped name .capped => k.1 = name ∧ MAX_PENDING_COMMANDS ≤ held
  | .dropped name .exhausted => k.1 = name ∧ cfg.commandMaxAttempts ≤ attempts
  | .discarded => True
  | .lost => MAX_PENDING_COMMANDS ≤ held

def policy (cfg : ClientConfig) : Policy (String × Int64 × String) Leaving where
  capacity := MAX_PENDING_COMMANDS
  maxAttempts := cfg.commandMaxAttempts
  retry := cfg.commandRetryInterval
  mayLeave := mayLeave cfg

def retryQueue (env : Env) (w : Worker) : Queue (String × Int64 × String) Leaving where
  items := w.pending.map PendingCommand.item
  next := w.queuedCount
  now := env.clock w.clockReads
  trace := w.log.filterMap Entry.act?

variable {env : Env} {good : Worker → Packet → Prop} {w w' : Worker} {log : List Entry}

section Refinement

/-- An entry that says nothing of the queue. -/
theorem note_steps (w : Worker) {e : Entry} (he : e.act? = none) :
    Steps (policy env.cfg) (retryQueue env w) (retryQueue env (w.note e)) := by
  have hsame : retryQueue env (w.note e) = retryQueue env w := by simp [retryQueue,note,he]
  exact hsame ▸ .refl

theorem retire_steps (w : Worker) (c : Command) (hack : c.acknowledged = true) :
    Steps (policy env.cfg) (retryQueue env w) (retryQueue env (w.retire c)) := by
  let hit : Item (String × Int64 × String) → Bool :=
    fun p => decide (p.payload.1 = c.name ∧ p.payload.2.1 = c.timestamp)
  have hleave := leave_all (P := policy env.cfg) hit (fun _ => Leaving.acked c) []
    (w.pending.map PendingCommand.item) (retryQueue env w) rfl
    (fun p _ hp _ => ⟨hack,of_decide_eq_true hp⟩)
  have hend : retryQueue env (w.retire c) = { retryQueue env w with
      items := [] ++ (w.pending.map PendingCommand.item).filter fun p => !hit p
      trace := (retryQueue env w).trace ++ ((w.pending.map PendingCommand.item).filter hit).map
        fun p => .leave p.id (.acked c) } := by
    simp [retryQueue,retire,hit,List.filter_map,Function.comp_def,Entry.act?,PendingCommand.item,key]
    exact ⟨rfl,rfl⟩
  exact hend ▸ hleave

theorem dropPeer_steps (w : Worker) :
    Steps (policy env.cfg) (retryQueue env w) (retryQueue env w.dropPeer) := by
  have hleave := leave_all (P := policy env.cfg) (fun _ => true)
    (fun _ => Leaving.discarded) [] (w.pending.map PendingCommand.item) (retryQueue env w) rfl
    (fun p _ hp _ => trivial)
  have hend : retryQueue env w.dropPeer = { retryQueue env w with
      items := [] ++ (w.pending.map PendingCommand.item).filter fun _ => !true
      trace := (retryQueue env w).trace ++ ((w.pending.map PendingCommand.item).filter
        fun _ => true).map fun p => .leave p.id .discarded } := by
    simp [retryQueue,dropPeer,List.filter_map,Function.comp_def,Entry.act?,PendingCommand.item]
  exact hend ▸ hleave

theorem push_steps (w : Worker) (origin : Origin) (c : Command)
    (hroom : w.pending.length < MAX_PENDING_COMMANDS) :
    Steps (policy env.cfg) (retryQueue env w) (retryQueue env (w.push origin c)) := by
  have hstep : Step (policy env.cfg) (retryQueue env w) { retryQueue env w with
      items := (retryQueue env w).items ++ [⟨w.queuedCount,key c,0,none⟩]
      next := w.queuedCount+1
      trace := (retryQueue env w).trace ++ [.enter w.queuedCount (key c)] } :=
    .enter (retryQueue env w) (key c) (by simpa [retryQueue,policy] using hroom)
  have hend : retryQueue env (w.push origin c) = { retryQueue env w with
      items := (retryQueue env w).items ++ [⟨w.queuedCount,key c,0,none⟩]
      next := w.queuedCount+1
      trace := (retryQueue env w).trace ++ [.enter w.queuedCount (key c)] } := by
    simp [retryQueue,push,Entry.act?,PendingCommand.item]
  exact hend ▸ .single hstep

theorem queue_steps (w : Worker) (origin : Origin) (c : Command)
    (hcap : w.pending.length ≤ MAX_PENDING_COMMANDS) :
    Steps (policy env.cfg) (retryQueue env w) (retryQueue env (w.evict.push origin c)) := by
  rcases evict_cases w with ⟨he,hroom⟩|⟨p,rest,e,r,hp,hfull,-,hcause,he⟩
  · rw [he]
    exact push_steps w origin c hroom
  · obtain ⟨reason,hact,hmay⟩ : ∃ reason, e.act? = some (.leave p.item.id reason) ∧
        mayLeave env.cfg p.item.payload p.item.attempts (retryQueue env w).items.length reason := by
      have hheld : MAX_PENDING_COMMANDS ≤ (retryQueue env w).items.length := by
        simpa [retryQueue] using hfull
      rcases hcause with rfl|⟨rfl,-⟩
      · exact ⟨_,rfl,rfl,hheld⟩
      · exact ⟨_,rfl,hheld⟩
    have hleave : Step (policy env.cfg) (retryQueue env w) { retryQueue env w with
        items := [] ++ rest.map PendingCommand.item
        trace := (retryQueue env w).trace ++ [.leave p.item.id reason] } :=
      .leave (retryQueue env w) [] (rest.map PendingCommand.item) p.item _ (by simp [retryQueue,hp])
        hmay
    have hend : retryQueue env w.evict = { retryQueue env w with
        items := [] ++ rest.map PendingCommand.item
        trace := (retryQueue env w).trace ++ [.leave p.item.id reason] } := by
      simp [he,retryQueue,note,hact]
    have hroom : w.evict.pending.length < MAX_PENDING_COMMANDS := by
      rw [hp,List.length_cons] at hcap
      rw [he]
      exact hcap
    exact (ReflTransGen.single (hend ▸ hleave)).trans (push_steps w.evict origin c hroom)

theorem Move.steps (hm : Move env good w w')
    (hcap : w.pending.length ≤ MAX_PENDING_COMMANDS) :
    Steps (policy env.cfg) (retryQueue env w) (retryQueue env w') := by
  cases hm with
  | book lastRx lastBeat seq discovering clockReads wallReads lastWebcamRequest receiver hc =>
    exact .single (.wait (retryQueue env w) _ (env.clock_mono hc))
  | disconnect peer hp => exact (dropPeer_steps w).trans (note_steps _ rfl)
  | accept => exact .refl
  | webcam => exact .refl
  | queue origin command => exact queue_steps w origin command hcap
  | ack peer c hp hok hack => exact retire_steps w c hack
  | restart peer c command hp hok hack =>
    have hcap' : (w.retire c).pending.length ≤ MAX_PENDING_COMMANDS :=
      (List.length_filter_le _ _).trans hcap
    exact (retire_steps w c hack).trans (queue_steps (w.retire c) .worker command hcap')
  | transmit peer before after p reads hp hpend hreads hattempts hdue hbefore =>
    have hsend : Step (policy env.cfg) (retryQueue env w) { retryQueue env w with
        items := before.map PendingCommand.item ++
          p.item.sentAt (env.clock reads) :: after.map PendingCommand.item
        now := env.clock reads
        trace := (retryQueue env w).trace ++ [.send p.item.id p.item.payload (env.clock reads)] } :=
      .send (retryQueue env w) _ _ p.item (env.clock reads) (by simp [retryQueue,hpend])
        (env.clock_mono hreads) hattempts hdue (by simpa [PendingCommand.item,policy] using hbefore)
    refine (ReflTransGen.single hsend).tail ?_
    have hwait := Step.wait (P := policy env.cfg) { retryQueue env w with
        items := before.map PendingCommand.item ++
          p.item.sentAt (env.clock reads) :: after.map PendingCommand.item
        now := env.clock reads
        trace := (retryQueue env w).trace ++ [.send p.item.id p.item.payload (env.clock reads)] }
      (env.clock (reads+1)) (env.clock_mono (Nat.le_succ reads))
    simpa [retryQueue,Worker.transmit,nextSeq,note,Entry.act?,PendingCommand.item,PendingCommand.sentAt,
      Item.sentAt,key] using hwait
  | expire peer before after p hp hpend hattempts =>
    have hleave : Step (policy env.cfg) (retryQueue env w) { retryQueue env w with
        items := before.map PendingCommand.item ++ after.map PendingCommand.item
        trace := (retryQueue env w).trace ++
          [.leave p.item.id (.dropped p.command.name .exhausted)] } :=
      .leave (retryQueue env w) _ _ p.item _ (by simp [retryQueue,hpend]) ⟨rfl,hattempts⟩
    refine .single ?_
    simpa [retryQueue,note,Entry.act?,PendingCommand.item] using hleave
  | connect src => exact note_steps { w with peer := some src } rfl
  | robotState peer packet state => exact note_steps { w with robotState := some state } rfl
  | notice => exact note_steps w rfl
  | busy => exact note_steps w rfl
  | telemetry => exact note_steps w rfl
  | report => exact note_steps w rfl
  | discover => exact note_steps w rfl
  | send => exact note_steps w rfl

theorem Move.ledger (h : Ledger (policy env.cfg) (retryQueue env w))
    (hm : Move env good w w') : Ledger (policy env.cfg) (retryQueue env w') :=
  (hm.steps (by simpa [retryQueue,policy] using h.capacity)).ledger h

end Refinement

section Entries

def Entry.queued? : Entry → Option ℕ
  | .queued id _ _ => some id
  | _ => none

def Entry.acked? : Entry → Option ℕ
  | .acked id _ => some id
  | _ => none

def Entry.dropped? : Entry → Option ℕ
  | .dropped id _ _ => some id
  | _ => none

def Entry.discarded? : Entry → Option ℕ
  | .discarded id => some id
  | _ => none

def Entry.lost? : Entry → Option ℕ
  | .lost id => some id
  | _ => none

/-- The commands that have left the pending ones, in order. -/
def removals (log : List Entry) : List ℕ :=
  log.filterMap fun e => e.acked? <|> e.dropped? <|> e.discarded? <|> e.lost?

/-- The times at which a command was transmitted. -/
def transmissions (log : List Entry) (id : ℕ) : List ℕ :=
  log.filterMap fun e => match e with
    | .transmitted _ i _ t => if i = id then some t else none
    | _ => none

/-- What an entry about a command may be, given those before it. -/
def EntryLaw (cfg : ClientConfig) (before : List Entry) : Entry → Prop
  | .queued id _ _ => id = (before.filterMap Entry.queued?).length
  | .transmitted dst id c t =>
    sessionOf before = some dst ∧ (∃ origin q, .queued id origin q ∈ before ∧ key q = key c) ∧
      id ∉ removals before ∧
      (transmissions before id).length < cfg.commandMaxAttempts ∧
      (∀ t' ∈ transmissions before id, t'+cfg.commandRetryInterval ≤ t) ∧
      (transmissions before id = [] → ∀ other, transmissions before other ≠ [] → other < id)
  | .acked id a =>
    a.acknowledged = true ∧
      ∃ origin q, .queued id origin q ∈ before ∧ q.name = a.name ∧ q.timestamp = a.timestamp
  | .dropped id name cause =>
    (∃ origin q, .queued id origin q ∈ before ∧ q.name = name) ∧
      (cause = .exhausted → (transmissions before id).length = cfg.commandMaxAttempts) ∧
      (cause = .capped → (removals before).length+MAX_PENDING_COMMANDS ≤
        (before.filterMap Entry.queued?).length)
  | .discarded id | .lost id => ∃ origin q, .queued id origin q ∈ before
  | .event .disconnected => ∀ id ∈ before.filterMap Entry.queued?, id ∈ removals before
  | _ => True

/-- Discarded commands are followed by the end of their session. -/
def Closed (log : List Entry) : Prop :=
  ∀ pre id post, log = pre ++ .discarded id :: post →
    ∃ (ids : List ℕ) (rest : List Entry), post = ids.map Entry.discarded ++ .event .disconnected :: rest

/-- Where every command is, and what the history says of it. -/
structure CommandLaw (cfg : ClientConfig) (w : Worker) : Prop where
  session : sessionOf w.log = w.peer
  places : ∀ id origin c, .queued id origin c ∈ w.log →
    w.pending.countP (fun p => p.id == id)+(w.log.filterMap Entry.acked?).count id+
      (w.log.filterMap Entry.dropped?).count id+(w.log.filterMap Entry.discarded?).count id = 1
  entries : Each (EntryLaw cfg) w.log
  closed : Closed w.log
  queued : ∀ p ∈ w.pending, ∃ origin c, .queued p.id origin c ∈ w.log ∧ key c = key p.command
  capacity : w.pending.length ≤ MAX_PENDING_COMMANDS
  attempts : ∀ id, (transmissions w.log id).length ≤ cfg.commandMaxAttempts

theorem sends_trace (log : List Entry) (id : ℕ) :
    sends (log.filterMap Entry.act?) id = transmissions log id := by
  rw [sends,List.filterMap_filterMap,transmissions]
  congr 1
  funext e
  cases e <;> rfl

theorem entered_trace (log : List Entry) :
    entered (log.filterMap Entry.act?) = log.filterMap Entry.queued? := by
  rw [entered,List.filterMap_filterMap]
  congr 1
  funext e
  cases e <;> rfl

theorem left_trace (log : List Entry) : left (log.filterMap Entry.act?) = removals log := by
  rw [left,List.filterMap_filterMap,removals]
  congr 1
  funext e
  cases e <;> rfl

theorem count_removals (log : List Entry) (id : ℕ) : (removals log).count id =
    (log.filterMap Entry.acked?).count id+(log.filterMap Entry.dropped?).count id+
      (log.filterMap Entry.discarded?).count id+(log.filterMap Entry.lost?).count id := by
  induction log with
  | nil => rfl
  | cons e log ih =>
    cases e with
    | acked i a =>
      show (i :: removals log).count id = (i :: log.filterMap Entry.acked?).count id+
        (log.filterMap Entry.dropped?).count id+(log.filterMap Entry.discarded?).count id+
          (log.filterMap Entry.lost?).count id
      rw [List.count_cons,List.count_cons]
      omega
    | dropped i name cause =>
      show (i :: removals log).count id = (log.filterMap Entry.acked?).count id+
        (i :: log.filterMap Entry.dropped?).count id+(log.filterMap Entry.discarded?).count id+
          (log.filterMap Entry.lost?).count id
      rw [List.count_cons,List.count_cons]
      omega
    | discarded i =>
      show (i :: removals log).count id = (log.filterMap Entry.acked?).count id+
        (log.filterMap Entry.dropped?).count id+(i :: log.filterMap Entry.discarded?).count id+
          (log.filterMap Entry.lost?).count id
      rw [List.count_cons,List.count_cons]
      omega
    | lost i =>
      show (i :: removals log).count id = (log.filterMap Entry.acked?).count id+
        (log.filterMap Entry.dropped?).count id+(log.filterMap Entry.discarded?).count id+
          (i :: log.filterMap Entry.lost?).count id
      rw [List.count_cons,List.count_cons]
      omega
    | _ => exact ih

theorem enter_trace {log : List Entry} {id : ℕ} {k : String × Int64 × String} :
    .enter id k ∈ log.filterMap Entry.act? ↔ ∃ origin c, .queued id origin c ∈ log ∧ key c = k := by
  constructor
  · intro h
    obtain ⟨e,he,hact⟩ := List.mem_filterMap.mp h
    cases e with
    | queued i origin c =>
      obtain ⟨rfl,hk⟩ := Act.enter.inj (Option.some.inj hact)
      exact ⟨origin,c,he,hk⟩
    | _ => simp [Entry.act?] at hact
  · rintro ⟨origin,c,hc,rfl⟩
    exact List.mem_filterMap.mpr ⟨_,hc,rfl⟩

theorem Closed.append {xs : List Entry} (h : Closed log) (hx : Closed xs) : Closed (log ++ xs) := by
  intro pre id post heq
  rcases List.append_eq_append_iff.mp heq with ⟨mid,rfl,hmid⟩|⟨mid,rfl,hmid⟩
  · exact hx mid id post hmid
  · cases mid with
    | nil => exact hx [] id post hmid.symm
    | cons e mid =>
      obtain ⟨rfl,rfl⟩ := List.cons.inj hmid
      obtain ⟨ids,rest,rfl⟩ := h pre id mid rfl
      exact ⟨ids,rest ++ xs,by simp⟩

theorem closed_of_forall {xs : List Entry} (hx : ∀ id, .discarded id ∉ xs) : Closed xs := by
  rintro pre id post rfl
  exact absurd (List.mem_append_right _ List.mem_cons_self) (hx id)

/-- The entries of a dropped session. -/
theorem closed_discards (ids : List ℕ) :
    Closed (ids.map Entry.discarded ++ [.event .disconnected]) := by
  induction ids with
  | nil => exact closed_of_forall (by simp)
  | cons i ids ih =>
    intro pre id post heq
    cases pre with
    | nil =>
      obtain ⟨-,rfl⟩ := List.cons.inj heq
      exact ⟨ids,[],rfl⟩
    | cons e pre => exact ih pre id post (List.cons.inj heq).2

/-- The entries of a move that does not end a session; with a live receiver no event is lost. -/
def Ongoing (w : Worker) (e : Entry) : Prop :=
  e.discarded? = none ∧ e ≠ .event .disconnected ∧ (w.receiver = none → e.lost? = none)

theorem push_ongoing (w : Worker) (origin : Origin) (c : Command) :
    Writes (Ongoing w) w (w.evict.push origin c) := by
  refine (push_writes w origin c).mono fun e he => ?_
  obtain ⟨hq,hlost⟩ := he
  cases e with
  | queued => exact ⟨rfl,by simp,fun _ => rfl⟩
  | dropped => exact ⟨rfl,by simp,fun _ => rfl⟩
  | lost id => exact ⟨rfl,by simp,fun hr => absurd hr (hlost id rfl)⟩
  | _ => exact absurd hq Bool.false_ne_true

theorem retire_ongoing (w : Worker) (c : Command) : Writes (Ongoing w) w (w.retire c) := by
  refine (retire_writes w c).mono fun e he => ?_
  obtain ⟨p,-,-,rfl⟩ := he
  exact ⟨rfl,by simp,fun _ => rfl⟩

/-- What a move writes, when it is not the end of a session. -/
theorem Move.appends (hm : Move env good w w') :
    (∃ peer, w.peer = some peer ∧ w' = w.dropPeer.note (.event .disconnected)) ∨
      Writes (Ongoing w) w w' := by
  cases hm with
  | disconnect peer hp => exact .inl ⟨peer,hp,rfl⟩
  | book => exact .inr (.refl _ w)
  | accept => exact .inr (.refl _ w)
  | webcam => exact .inr (.refl _ w)
  | queue origin command => exact .inr (push_ongoing w origin command)
  | ack peer c => exact .inr (retire_ongoing w c)
  | restart peer c command => exact .inr ((retire_ongoing w c).trans (push_ongoing _ .worker command))
  | report peer e hp he =>
    refine .inr (writes_one ⟨rfl,fun hd => ?_,fun _ => rfl⟩ rfl)
    simp [Entry.event.inj hd,Event.isReport] at he
  | _ => exact .inr ⟨_,rfl,by simp [Ongoing,Entry.discarded?,Entry.lost?]⟩

theorem Move.closed (h : Closed w.log) (hm : Move env good w w') : Closed w'.log := by
  rcases hm.appends with ⟨peer,-,rfl⟩|⟨xs,hxs,hx⟩
  · have hlog : (w.dropPeer.note (.event .disconnected)).log =
        w.log ++ ((w.pending.map PendingCommand.id).map Entry.discarded ++
          [.event .disconnected]) := by
      simp [note,dropPeer]
    exact hlog ▸ h.append (closed_discards _)
  · refine hxs ▸ h.append (closed_of_forall fun id hmem => ?_)
    exact absurd (hx _ hmem).1 (Option.some_ne_none id)

end Entries

section Law

/-- Where a session ends, no command is pending any more. -/
def Emptied (log : List Entry) : Prop :=
  Each (fun before e => e = .event .disconnected →
    ∀ id ∈ before.filterMap Entry.queued?, id ∈ removals before) log

theorem Emptied.append {xs : List Entry} (h : Emptied log) (hx : .event .disconnected ∉ xs) :
    Emptied (log ++ xs) := by
  refine Each.append h xs fun pre e post heq he => ?_
  rw [heq,he] at hx
  exact absurd (List.mem_append_right _ List.mem_cons_self) hx

theorem Move.emptied (hl : Ledger (policy env.cfg) (retryQueue env w)) (h : Emptied w.log)
    (hm : Move env good w w') : Emptied w'.log := by
  rcases hm.appends with ⟨peer,-,rfl⟩|⟨xs,hxs,hx⟩
  · have hdrop : Ledger (policy env.cfg) (retryQueue env w.dropPeer) := (dropPeer_steps w).ledger hl
    have hkeep : Emptied w.dropPeer.log := h.append (by simp)
    refine hkeep.snoc fun _ id hid => ?_
    rw [← entered_trace] at hid
    have hlt : id < w.dropPeer.queuedCount := List.mem_range.mp (hdrop.entered ▸ hid)
    rw [← left_trace]
    by_contra hleft
    obtain ⟨p,hp,-⟩ := hdrop.in_items hlt hleft
    exact List.not_mem_nil hp
  · exact hxs ▸ h.append fun hmem => (hx _ hmem).2.1 rfl

/-- What holds between any two moves. -/
structure QueueInv (env : Env) (w : Worker) : Prop where
  session : SessionInv w
  ledger : Ledger (policy env.cfg) (retryQueue env w)
  closed : Closed w.log
  emptied : Emptied w.log

theorem Move.queueInv (h : QueueInv env w) (hm : Move env good w w') : QueueInv env w' :=
  ⟨hm.session h.session,hm.ledger h.ledger,hm.closed h.closed,hm.emptied h.ledger h.emptied⟩

theorem start_queueInv (env : Env) (receiver : Option ℕ) : QueueInv env (start env receiver) :=
  ⟨start_session env receiver,ledger_empty _ _,closed_of_forall fun _ => List.not_mem_nil,
    each_nil⟩

theorem entryLaw {before : List Entry} {e : Entry} (hs : SessionLaw before e)
    (ha : ∀ a, e.act? = some a → Law (policy env.cfg) (before.filterMap Entry.act?) a)
    (hd : e = .event .disconnected → ∀ id ∈ before.filterMap Entry.queued?, id ∈ removals before) :
    EntryLaw env.cfg before e := by
  cases e with
  | queued id origin c =>
    have hlaw := ha _ rfl
    rwa [Law,entered_trace] at hlaw
  | transmitted dst id c t =>
    obtain ⟨henter,hleft,hcount,hspace,horder⟩ := ha _ rfl
    simp only [sends_trace,left_trace] at hleft hcount hspace horder
    exact ⟨hs,enter_trace.mp henter,hleft,hcount,hspace,horder⟩
  | acked id a =>
    obtain ⟨k,held,henter,-,-,-,hack,hname,htime⟩ := ha _ rfl
    obtain ⟨origin,q,hq,rfl⟩ := enter_trace.mp henter
    exact ⟨hack,origin,q,hq,hname,htime⟩
  | dropped id name cause =>
    obtain ⟨k,held,henter,-,hheld,hmax,hmay⟩ := ha _ rfl
    obtain ⟨origin,q,hq,rfl⟩ := enter_trace.mp henter
    rw [left_trace,entered_trace] at hheld
    rw [sends_trace] at hmax hmay
    cases cause with
    | capped =>
      refine ⟨⟨origin,q,hq,hmay.1⟩,by simp,fun _ => ?_⟩
      have hfull : MAX_PENDING_COMMANDS ≤ held := hmay.2
      omega
    | exhausted => exact ⟨⟨origin,q,hq,hmay.1⟩,fun _ => Nat.le_antisymm hmax hmay.2,by simp⟩
  | discarded id =>
    obtain ⟨k,held,henter,-⟩ := ha _ rfl
    obtain ⟨origin,q,hq,-⟩ := enter_trace.mp henter
    exact ⟨origin,q,hq⟩
  | lost id =>
    obtain ⟨k,held,henter,-⟩ := ha _ rfl
    obtain ⟨origin,q,hq,-⟩ := enter_trace.mp henter
    exact ⟨origin,q,hq⟩
  | event e =>
    cases e with
    | disconnected => exact hd rfl
    | _ => trivial
  | sent => trivial

theorem QueueInv.entries (h : QueueInv env w) : Each (EntryLaw env.cfg) w.log :=
  ((h.session.law.and h.ledger.law.of_filterMap).and h.emptied).mono
    fun _ _ _ hlaw => entryLaw hlaw.1.1 hlaw.1.2 hlaw.2

theorem QueueInv.places (h : QueueInv env w) (hlost : ∀ id, .lost id ∉ w.log) {id : ℕ}
    {origin : Origin} {c : Command} (hc : .queued id origin c ∈ w.log) :
    w.pending.countP (fun p => p.id == id)+(w.log.filterMap Entry.acked?).count id+
      (w.log.filterMap Entry.dropped?).count id+(w.log.filterMap Entry.discarded?).count id = 1 := by
  have hentered : id ∈ entered (retryQueue env w).trace :=
    List.mem_filterMap.mpr ⟨_,enter_trace.mpr ⟨origin,c,hc,rfl⟩,rfl⟩
  rw [h.ledger.entered,List.mem_range] at hentered
  have hplace := h.ledger.places id
  rw [if_pos hentered] at hplace
  have hpending : ((retryQueue env w).items.map Item.id).count id =
      w.pending.countP fun p => p.id == id := by
    rw [retryQueue,List.map_map,List.count,List.countP_map]
    rfl
  have hleft : (left (retryQueue env w).trace).count id = _ :=
    (congrArg _ (left_trace w.log)).trans (count_removals w.log id)
  have hnone : (w.log.filterMap Entry.lost?).count id = 0 := by
    refine List.count_eq_zero.mpr fun hmem => ?_
    obtain ⟨e,he,hid⟩ := List.mem_filterMap.mp hmem
    cases e with
    | lost i => exact hlost i he
    | _ => exact absurd hid.symm (Option.some_ne_none id)
  omega

theorem QueueInv.law (h : QueueInv env w) (hlost : ∀ id, .lost id ∉ w.log) :
    CommandLaw env.cfg w where
  session := h.session.session
  places _ _ _ hc := h.places hlost hc
  entries := h.entries
  closed := h.closed
  queued p hp := enter_trace.mp (h.ledger.payload p.item (List.mem_map_of_mem hp))
  capacity := by simpa [retryQueue,policy] using h.ledger.capacity
  attempts id := by
    rw [← sends_trace]
    exact h.ledger.bounded id

end Law

end Client
end Robocol
