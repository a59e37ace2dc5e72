import Robocol.OpModes

/-! What the stage of the fake controller says of its past: its OpMode was ordered, the stream is
switched on and off in turns, and a crash is reported in the first pass that finds the crashing
OpMode out of time. -/
namespace Robocol

open Cmd Client

namespace FakeRc

section Orders

/-- The mode is one that was ordered. -/
def Mode.Ordered (passes : List (ℕ × Option Order)) : Mode → Prop
  | .inited name => ∃ t, (t,some (.init name)) ∈ passes
  | .running name since => (since,some (.run name)) ∈ passes
  | _ => True

variable {passes passes' : List (ℕ × Option Order)} {mode : Mode} {s : Stage} {now t : ℕ} {order : Order}
  {env : Env} {rc : FakeRc} {as : List Arrival} {c : Command} {name : String}

theorem Mode.Ordered.mono (h : mode.Ordered passes) (hsub : passes ⊆ passes') : mode.Ordered passes' := by
  cases mode with
  | inited name =>
    obtain ⟨t,ht⟩ := h
    exact ⟨t,hsub ht⟩
  | running name since => exact hsub h
  | _ => trivial

theorem obey_ordered (h : (now,some order) ∈ passes) : (s.obey now order).1.mode.Ordered passes := by
  cases order with
  | init name =>
    simp only [Stage.obey]
    split
    · trivial
    · exact ⟨now,h⟩
  | run name => exact h
  | restart => trivial

theorem run_ordered (passes : List (ℕ × Option Order)) : (Stage.run passes).1.mode.Ordered passes := by
  induction passes using List.reverseRecOn with
  | nil => trivial
  | append_singleton passes p ih =>
    obtain ⟨now,order⟩ := p
    have htaken : ((Stage.run passes).1.take now order).1.mode.Ordered (passes ++ [(now,order)]) := by
      cases order with
      | none => exact ih.mono (List.subset_append_left _ _)
      | some order => exact obey_ordered (List.mem_append_right _ List.mem_cons_self)
    rw [Stage.run,List.foldl_append]
    show ((((Stage.run passes).1.take now order).1.expire now).1).mode.Ordered _
    rw [Stage.expire]
    split
    · trivial
    · exact htaken

theorem running_ordered {phantomUntil : Option ℕ} (h : (run env (start now phantomUntil) as).state = .running) :
    ∃ t, (t,some (.run (run env (start now phantomUntil) as).opmode)) ∈ orders env (start now phantomUntil) as := by
  have hrefines := (start_refines now phantomUntil).run env as
  have hordered := run_ordered (orders env (start now phantomUntil) as)
  rw [Stage.run] at hordered
  rw [hrefines.opmode]
  have hstate := h.symm.trans hrefines.state
  cases hmode : ((orders env (start now phantomUntil) as).foldl Stage.next ({},[])).1.mode with
  | running name since =>
    rw [hmode] at hordered
    exact ⟨since,hordered⟩
  | _ => rw [hmode] at hstate; cases hstate

theorem init_ordered {phantomUntil : Option ℕ} (h : (run env (start now phantomUntil) as).state = .init) :
    ∃ t, (t,some (.init (run env (start now phantomUntil) as).opmode)) ∈ orders env (start now phantomUntil) as := by
  have hrefines := (start_refines now phantomUntil).run env as
  have hordered := run_ordered (orders env (start now phantomUntil) as)
  rw [Stage.run] at hordered
  rw [hrefines.opmode]
  have hstate := h.symm.trans hrefines.state
  cases hmode : ((orders env (start now phantomUntil) as).foldl Stage.next ({},[])).1.mode with
  | inited name =>
    rw [hmode] at hordered
    exact hordered
  | _ => rw [hmode] at hstate; cases hstate

/-- An order of a run was taken in one of its passes. -/
theorem mem_orders (h : (t,some order) ∈ orders env rc as) : ∃ front a c, front ++ [a] <+: as ∧
    (run env rc front).taken a = some c ∧ orderOf c = some order := by
  induction as generalizing rc with
  | nil => exact absurd h List.not_mem_nil
  | cons a as ih =>
    rcases List.mem_cons.mp h with heq|hmem
    · obtain ⟨c,hc,ho⟩ := Option.bind_eq_some_iff.mp (Prod.mk.inj heq).2.symm
      exact ⟨[],a,c,by simp,hc,ho⟩
    · obtain ⟨front,b,c,hfront,hc,ho⟩ := ih hmem
      exact ⟨a :: front,b,c,List.cons_prefix_cons.mpr ⟨rfl,hfront⟩,hc,ho⟩

theorem orderOf_run (h : orderOf c = some (.run name)) :
    c.acknowledged = false ∧ c.name = RUN_OP_MODE ∧ c.extra = name := by
  rw [orderOf] at h
  split_ifs at h with hack hinit hrun hrestart
  · cases Option.some.inj h
  · exact ⟨by simpa using hack,hrun,Order.run.inj (Option.some.inj h)⟩
  · cases Option.some.inj h

theorem orderOf_init (h : orderOf c = some (.init name)) :
    c.acknowledged = false ∧ c.name = INIT_OP_MODE ∧ c.extra = name := by
  rw [orderOf] at h
  split_ifs at h with hack hinit hrun hrestart
  · exact ⟨by simpa using hack,hinit,Order.init.inj (Option.some.inj h)⟩
  · cases Option.some.inj h
  · cases Option.some.inj h

end Orders

section Streams

/-- The stream changes among notifications. -/
def switches (said : List Notice) : List String :=
  said.filterMap fun n => if n.1 = STREAM_CHANGE then some n.2 else none

/-- On, off, on, and so forth. -/
def turns : ℕ → List String
  | 0 => []
  | n+1 => turns n ++ [if n % 2 = 0 then "true" else "false"]

/-- The stream was switched in turns, and is on behind an odd number of them. -/
def InTurns (said : List Notice) (camera : Bool) : Prop :=
  ∃ n, switches said = turns n ∧ camera = decide (n % 2 = 1)

variable {said : List Notice} {camera : Bool} {s : Stage} {now : ℕ} {env : Env}

theorem orders_snoc (env : Env) (rc : FakeRc) (as : List Arrival) (x : Arrival) :
    orders env rc (as ++ [x]) =
      orders env rc as ++ [(x.now,((run env rc as).taken x).bind orderOf)] := by
  induction as generalizing rc with
  | nil => rfl
  | cons a as ih => exact congrArg _ (ih (rc.pass env a))

theorem Stage.run_snoc (passes : List (ℕ × Option Order)) (p : ℕ × Option Order) :
    Stage.run (passes ++ [p]) = (((Stage.run passes).1.pass p.1 p.2).1,
      (Stage.run passes).2 ++ ((Stage.run passes).1.pass p.1 p.2).2) := List.foldl_append

theorem InTurns.aside {name : String} (h : InTurns said camera) (hn : name ≠ STREAM_CHANGE)
    (extra : String) :
    InTurns (said ++ [(name,extra)]) camera := by
  obtain ⟨k,hk,hcamera⟩ := h
  refine ⟨k,?_,hcamera⟩
  rw [switches,List.filterMap_append,← switches,hk]
  simp [hn]

theorem InTurns.switch (h : InTurns said camera) (after : Bool) :
    InTurns (said ++ switch camera after) after := by
  obtain ⟨k,hk,hcamera⟩ := h
  rw [FakeRc.switch]
  by_cases hsame : camera = after
  · rw [if_pos hsame,List.append_nil]
    exact ⟨k,hk,hsame ▸ hcamera⟩
  · rw [if_neg hsame]
    have hafter : after = !camera := by cases camera <;> cases after <;> simp_all
    refine ⟨k+1,?_,?_⟩
    · rw [switches,List.filterMap_append,← switches,hk,turns,hafter,hcamera]
      congr 1
      rcases Nat.mod_two_eq_zero_or_one k with hmod|hmod <;> simp [hmod]
    · rw [hafter,hcamera]
      rcases Nat.mod_two_eq_zero_or_one k with hmod|hmod <;> simp [hmod,Nat.add_mod]

variable (now) in
theorem InTurns.take (h : InTurns said s.camera) (order : Option Order) :
    InTurns (said ++ (s.take now order).2) (s.take now order).1.camera := by
  cases order with
  | none => simpa [Stage.take] using h
  | some order =>
    cases order with
    | init name =>
      simp only [Stage.take,Stage.obey]
      split
      · rw [← List.append_assoc]
        exact (h.switch false).aside (by decide) _
      · rw [← List.append_assoc]
        exact (h.switch true).aside (by decide) _
    | run name => exact h.aside (by decide) _
    | restart => exact h.switch false

variable (now) in
theorem InTurns.expire (h : InTurns said s.camera) :
    InTurns (said ++ (s.expire now).2) (s.expire now).1.camera := by
  rw [Stage.expire]
  split
  · have htrace : InTurns (said ++ [(SHOW_STACKTRACE,CRASH_STACKTRACE)]) s.camera := h.aside (by decide) _
    have hinit : NOTIFY_INIT_OP_MODE ≠ STREAM_CHANGE := by decide
    simpa using (htrace.switch false).aside hinit DEFAULT_OP_MODE
  · simpa using h

theorem run_inTurns (passes : List (ℕ × Option Order)) :
    InTurns (Stage.run passes).2 (Stage.run passes).1.camera := by
  induction passes using List.reverseRecOn with
  | nil => exact ⟨0,rfl,rfl⟩
  | append_singleton passes p ih =>
    rw [Stage.run_snoc]
    have hall : InTurns ((Stage.run passes).2 ++ ((Stage.run passes).1.take p.1 p.2).2 ++ _) _ :=
      (ih.take p.1 p.2).expire p.1
    rw [List.append_assoc] at hall
    exact hall

/-- Over all arrivals the stream is switched on, off, on and so forth, and is on if and only if the
last switch said so. -/
theorem streams_inTurns (env : Env) (now : ℕ) (phantomUntil : Option ℕ) (as : List Arrival) :
    InTurns ((run env (start now phantomUntil) as).sent.filterMap notice)
      (run env (start now phantomUntil) as).webcamAvailable := by
  have hrefines := (start_refines now phantomUntil).run env as
  rw [hrefines.said,hrefines.camera]
  exact run_inTurns _

end Streams

section Crashes

/-- The stack traces among packets. -/
def traces (sent : List (SocketAddr × Packet)) : ℕ :=
  (sent.filterMap notice).countP fun n => n.1 == SHOW_STACKTRACE

/-- The crashing OpMode was run in a pass at the time `t`, and behind it came passes without orders,
of which none was late enough. -/
def Waiting (passes : List (ℕ × Option Order)) (t : ℕ) : Prop :=
  ∃ front mid, passes = front ++ (t,some (.run CRASH_OPMODE)) :: mid ∧
    ∀ q ∈ mid, q.2 = none ∧ q.1-t < CRASH_DELAY

/-- The last pass is the first one that is late enough, and has no order either. -/
def CrashDue (passes : List (ℕ × Option Order)) : Prop :=
  ∃ before t last, passes = before ++ [(last,none)] ∧ Waiting before t ∧ CRASH_DELAY ≤ last-t

variable {passes : List (ℕ × Option Order)} {p : ℕ × Option Order} {s : Stage} {now t : ℕ}

theorem take_running (order : Option Order) (name : String) :
    (s.take now order).1.mode = .running name t ↔
      (order = some (.run name) ∧ t = now) ∨ order = none ∧ s.mode = .running name t := by
  cases order with
  | none => simp [Stage.take]
  | some order =>
    cases order with
    | init other =>
      simp only [Stage.take,Stage.obey]
      split <;> simp
    | run other =>
      simp only [Stage.take,Stage.obey,Mode.running.injEq,Option.some.injEq,Order.run.injEq]
      constructor
      · rintro ⟨rfl,rfl⟩
        exact .inl ⟨rfl,rfl⟩
      · rintro (⟨rfl,rfl⟩|⟨h,-⟩)
        · exact ⟨rfl,rfl⟩
        · cases h
    | restart => simp [Stage.take,Stage.obey]

theorem expire_running (name : String) :
    (s.expire now).1.mode = .running name t ↔ s.mode = .running name t ∧ ¬s.Expired now := by
  rw [Stage.expire]
  by_cases h : s.Expired now
  · simp [h]
  · simp [h]

theorem expired_iff (h : s.mode = .running CRASH_OPMODE t) : s.Expired now ↔ CRASH_DELAY ≤ now-t := by
  constructor
  · rintro ⟨since,hs,hle⟩
    obtain ⟨-,rfl⟩ := Mode.running.inj (h.symm.trans hs)
    exact hle
  · exact fun hle => ⟨t,h,hle⟩

theorem waiting_snoc : Waiting (passes ++ [p]) t ↔
    (p = (t,some (.run CRASH_OPMODE)) ∨ p.2 = none ∧ Waiting passes t ∧ p.1-t < CRASH_DELAY) := by
  constructor
  · rintro ⟨front,mid,hcut,hmid⟩
    rcases List.eq_nil_or_concat mid with rfl|⟨mid,q,rfl⟩
    · exact .inl (List.singleton_inj.mp (List.append_inj' hcut rfl).2)
    · rw [List.concat_eq_append,← List.cons_append,← List.append_assoc] at hcut
      obtain ⟨hfront,hlast⟩ := List.append_inj' hcut rfl
      obtain rfl := List.singleton_inj.mp hlast
      obtain ⟨hnone,hlt⟩ := hmid p (by simp)
      exact .inr ⟨hnone,⟨front,mid,hfront,fun q hq => hmid q (by simp [hq])⟩,hlt⟩
  · rintro (rfl|⟨hnone,⟨front,mid,rfl,hmid⟩,hlt⟩)
    · exact ⟨passes,[],rfl,by simp⟩
    · refine ⟨front,mid ++ [p],by simp,fun q hq => ?_⟩
      rcases List.mem_append.mp hq with hq|hq
      · exact hmid q hq
      · rw [List.mem_singleton.mp hq]
        exact ⟨hnone,hlt⟩

/-- The machine runs the crashing OpMode exactly while its crash is waited for. -/
theorem running_iff_waiting (passes : List (ℕ × Option Order)) (t : ℕ) :
    (Stage.run passes).1.mode = .running CRASH_OPMODE t ↔ Waiting passes t := by
  induction passes using List.reverseRecOn with
  | nil =>
    refine iff_of_false (by simp [Stage.run]) ?_
    rintro ⟨front,mid,hcut,-⟩
    exact absurd hcut.symm (List.append_ne_nil_of_right_ne_nil _ (List.cons_ne_nil _ _))
  | append_singleton passes p ih =>
    rw [Stage.run_snoc,waiting_snoc]
    show (((Stage.run passes).1.take p.1 p.2).1.expire p.1).1.mode = _ ↔ _
    obtain ⟨now,order⟩ := p
    rw [expire_running]
    have hrunning : ((Stage.run passes).1.take now order).1.mode = .running CRASH_OPMODE t ↔
        (order = some (.run CRASH_OPMODE) ∧ t = now) ∨ order = none ∧ Waiting passes t := by
      rw [take_running,ih]
    constructor
    · rintro ⟨hmode,hin⟩
      have hlt := Nat.lt_of_not_le fun hle => hin ((expired_iff hmode).mpr hle)
      rcases hrunning.mp hmode with ⟨rfl,rfl⟩|⟨rfl,hwaiting⟩
      · exact .inl rfl
      · exact .inr ⟨rfl,hwaiting,hlt⟩
    · intro h
      have hmode : ((Stage.run passes).1.take now order).1.mode = .running CRASH_OPMODE t := by
        rcases h with heq|⟨rfl,hwaiting,-⟩
        · obtain ⟨rfl,rfl⟩ := Prod.mk.inj heq
          exact hrunning.mpr (.inl ⟨rfl,rfl⟩)
        · exact hrunning.mpr (.inr ⟨rfl,hwaiting⟩)
      refine ⟨hmode,fun hexpired => ?_⟩
      have hle := (expired_iff hmode).mp hexpired
      rcases h with heq|⟨-,-,hlt⟩
      · obtain ⟨rfl,-⟩ := Prod.mk.inj heq
        rw [Nat.sub_self] at hle
        exact absurd hle (by decide)
      · exact absurd hle (Nat.not_le.mpr hlt)

/-- A crash is due in a pass if and only if the machine finds its stage expired there. -/
theorem expired_iff_due (passes : List (ℕ × Option Order)) (now : ℕ) (order : Option Order) :
    ((Stage.run passes).1.take now order).1.Expired now ↔ CrashDue (passes ++ [(now,order)]) := by
  constructor
  · rintro ⟨t,hmode,hle⟩
    rcases (take_running order CRASH_OPMODE).mp hmode with ⟨-,rfl⟩|⟨rfl,hmode⟩
    · rw [Nat.sub_self] at hle
      exact absurd hle (by decide)
    · exact ⟨passes,t,now,rfl,(running_iff_waiting passes t).mp hmode,hle⟩
  · rintro ⟨before,t,last,hcut,hwaiting,hle⟩
    obtain ⟨rfl,hlast⟩ := List.append_inj' hcut rfl
    obtain ⟨rfl,rfl⟩ := Prod.mk.inj (List.singleton_inj.mp hlast)
    exact ⟨t,(running_iff_waiting passes t).mpr hwaiting,hle⟩

theorem switch_traces (before after : Bool) :
    (switch before after).countP (fun n => n.1 == SHOW_STACKTRACE) = 0 := by
  cases before <;> cases after <;> decide

theorem take_traces (order : Option Order) :
    (s.take now order).2.countP (fun n => n.1 == SHOW_STACKTRACE) = 0 := by
  have hinit : (NOTIFY_INIT_OP_MODE == SHOW_STACKTRACE) = false := by decide
  have hrun : (NOTIFY_RUN_OP_MODE == SHOW_STACKTRACE) = false := by decide
  cases order with
  | none => rfl
  | some order =>
    cases order with
    | init name =>
      simp only [Stage.take,Stage.obey]
      split <;> rw [List.countP_append,switch_traces] <;> simp [hinit]
    | run name => simp [Stage.take,Stage.obey,hrun]
    | restart => exact switch_traces _ _

theorem expire_traces : (s.expire now).2.countP (fun n => n.1 == SHOW_STACKTRACE) =
    if s.Expired now then 1 else 0 := by
  have hinit : (NOTIFY_INIT_OP_MODE == SHOW_STACKTRACE) = false := by decide
  rw [Stage.expire]
  split
  · simp [List.countP_append,switch_traces,hinit]
  · rfl

/-- What a pass behind some arrivals says of crashes. -/
structure CrashLaw (env : Env) (rc : FakeRc) (as : List Arrival) (x : Arrival) : Prop where
  due : CrashDue (orders env rc (as ++ [x])) →
    traces (run env rc (as ++ [x])).sent = traces (run env rc as).sent+1
  quiet : ¬CrashDue (orders env rc (as ++ [x])) →
    traces (run env rc (as ++ [x])).sent = traces (run env rc as).sent

/-- A pass sends one stack trace where a crash is due, and else none: behind the last order to run
the crashing OpMode, in the first pass that is late enough, unless another order came before. -/
theorem crash_reported (env : Env) (now : ℕ) (phantomUntil : Option ℕ) (as : List Arrival) (x : Arrival) :
    CrashLaw env (start now phantomUntil) as x := by
  have hbefore : _ = (Stage.run _).2 := ((start_refines now phantomUntil).run env as).said
  have hafter : _ = (Stage.run _).2 := ((start_refines now phantomUntil).run env (as ++ [x])).said
  rw [orders_snoc,Stage.run_snoc] at hafter
  have hcount : traces (run env (start now phantomUntil) (as ++ [x])).sent =
      traces (run env (start now phantomUntil) as).sent+
        if ((Stage.run (orders env (start now phantomUntil) as)).1.take x.now
          (((run env (start now phantomUntil) as).taken x).bind orderOf)).1.Expired x.now then 1 else 0 := by
    rw [traces,traces,hafter,hbefore,List.countP_append]
    congr 1
    rw [Stage.pass,List.countP_append,take_traces,expire_traces,Nat.zero_add]
  constructor
  · intro hdue
    rw [orders_snoc,← expired_iff_due] at hdue
    rw [hcount,if_pos hdue]
  · intro hdue
    rw [orders_snoc,← expired_iff_due] at hdue
    rw [hcount,if_neg hdue,Nat.add_zero]

end Crashes

end FakeRc
end Robocol
