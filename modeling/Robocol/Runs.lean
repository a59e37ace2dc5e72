import Mathlib.Data.List.Induction
import Mathlib.Logic.Relation

/-! Runs of a machine whose steps may stop it, and the histories such a machine writes.
An invariant is proved once for a step and carried to every run here. -/
namespace Robocol
namespace Runs

section Machine

variable {σ ι α β : Type}

/-- A property of what a computation returns, and one of the state it stops in. -/
def Ends (Inv : α → Prop) (Stop : σ → Prop) : Except σ α → Prop
  | .ok a => Inv a
  | .error s => Stop s

variable {Inv Inv' : α → Prop} {Stop Stop' : σ → Prop} {r : Except σ α}

@[simp] theorem ends_ok (a : α) : Ends Inv Stop (.ok a) ↔ Inv a := Iff.rfl

@[simp] theorem ends_error (s : σ) : Ends Inv Stop (.error s) ↔ Stop s := Iff.rfl

theorem Ends.mono (h : Ends Inv Stop r) (hi : ∀ a, Inv a → Inv' a) (hs : ∀ s, Stop s → Stop' s) :
    Ends Inv' Stop' r := by
  cases r with
  | ok a => exact hi a h
  | error s => exact hs s h

theorem Ends.bind {Inv' : β → Prop} {f : α → Except σ β} (h : Ends Inv Stop r)
    (hf : ∀ a, Inv a → Ends Inv' Stop (f a)) : Ends Inv' Stop (r >>= f) := by
  cases r with
  | ok a => exact hf a h
  | error s => exact h

theorem Ends.map {Inv' : β → Prop} {f : α → β} (h : Ends Inv Stop r) (hf : ∀ a, Inv a → Inv' (f a)) :
    Ends Inv' Stop (f <$> r) := by
  cases r with
  | ok a => exact hf a h
  | error s => exact h

theorem Ends.and (h : Ends Inv Stop r) (h' : Ends Inv' Stop' r) :
    Ends (fun a => Inv a ∧ Inv' a) (fun s => Stop s ∧ Stop' s) r := by
  cases r with
  | ok a => exact ⟨h,h'⟩
  | error s => exact ⟨h,h'⟩

theorem Ends.ite {b : Prop} [Decidable b] {r' : Except σ α} (h : b → Ends Inv Stop r)
    (h' : ¬b → Ends Inv Stop r') : Ends Inv Stop (if b then r else r') :=
  iteInduction (motive := Ends Inv Stop) h h'

/-- Every step that a run takes satisfies `P`. -/
def Along (step : σ → ι → Except σ σ) (P : σ → ι → Prop) : σ → List ι → Prop
  | _, [] => True
  | s, i :: is => P s i ∧ ∀ s', step s i = .ok s' → Along step P s' is

theorem Along.of_mem {step : σ → ι → Except σ σ} {P : σ → ι → Prop} {is : List ι}
    (h : ∀ i ∈ is, ∀ s, P s i) (s : σ) : Along step P s is := by
  induction is generalizing s with
  | nil => trivial
  | cons i is ih => exact ⟨h i (by simp) s,fun s' _ => ih (fun j hj => h j (by simp [hj])) s'⟩

theorem Along.of_forall {step : σ → ι → Except σ σ} {P : σ → ι → Prop} (h : ∀ s i, P s i) (s : σ)
    (is : List ι) : Along step P s is :=
  .of_mem (fun i _ s => h s i) s

instance decidableAlong {step : σ → ι → Except σ σ} {P : σ → ι → Prop}
    [∀ s i, Decidable (P s i)] : (s : σ) → (is : List ι) → Decidable (Along step P s is)
  | _, [] => .isTrue trivial
  | s, i :: is =>
    match hr : step s i with
    | .error _ => decidable_of_iff (P s i) ⟨fun h => ⟨h,fun s' he => by simp [hr] at he⟩,fun h => h.1⟩
    | .ok s' =>
      have : Decidable (Along step P s' is) := decidableAlong s' is
      decidable_of_iff (P s i ∧ Along step P s' is)
        ⟨fun h => ⟨h.1,fun t ht => Except.ok.inj (hr.symm.trans ht) ▸ h.2⟩,
          fun h => ⟨h.1,h.2 s' hr⟩⟩

/-- The state a run ends in, whether or not it stopped there. -/
def final : Except σ σ → σ
  | .ok s => s
  | .error s => s

/-- What holds however a run ends, holds where it ends. -/
theorem Ends.at_final {Inv Stop Q : σ → Prop} {r : Except σ σ} (h : Ends Inv Stop r)
    (hi : ∀ s, Inv s → Q s) (hs : ∀ s, Stop s → Q s) : Q (final r) := by
  cases r with
  | ok s => exact hi s h
  | error s => exact hs s h

theorem ok_final {r : Except σ σ} (h : r.isOk = true) : r = .ok (final r) := by
  cases r with
  | ok s => rfl
  | error s => cases h

theorem Along.and {step : σ → ι → Except σ σ} {P Q : σ → ι → Prop} {s : σ} {is : List ι}
    (hP : Along step P s is) (hQ : Along step Q s is) : Along step (fun s i => P s i ∧ Q s i) s is := by
  induction is generalizing s with
  | nil => trivial
  | cons i is ih => exact ⟨⟨hP.1,hQ.1⟩,fun s' hr => ih (hP.2 s' hr) (hQ.2 s' hr)⟩

/-- An invariant kept by every step that satisfies `P` holds after a run of such steps. -/
theorem run_ends {step : σ → ι → Except σ σ} {P : σ → ι → Prop} {Inv : σ → Prop}
    (hstep : ∀ s i, Inv s → P s i → Ends Inv Stop (step s i)) (s : σ) (is : List ι)
    (hs : Inv s) (hP : Along step P s is) : Ends Inv Stop (is.foldlM step s) := by
  induction is generalizing s with
  | nil => exact hs
  | cons i is ih =>
    have h1 := hstep s i hs hP.1
    rw [List.foldlM_cons]
    cases hr : step s i with
    | error s' =>
      rw [hr] at h1
      exact h1
    | ok s' =>
      rw [hr] at h1
      exact ih s' h1 (hP.2 s' hr)

/-- A relation kept by every round of a loop that may stop. -/
theorem foldlM_ends {f : σ → ι → Except σ σ} {Inv : σ → Prop}
    (hf : ∀ s i, Inv s → Ends Inv Stop (f s i)) (s : σ) (is : List ι) (hs : Inv s) :
    Ends Inv Stop (is.foldlM f s) :=
  run_ends (P := fun _ _ => True) (fun s i h _ => hf s i h) s is hs
    (Along.of_forall (fun _ _ => trivial) s is)

end Machine

section History

variable {α : Type} {P Q : List α → α → Prop} {log : List α} {e : α}

/-- Each entry of a history satisfies `P` with the entries before it. -/
def Each (P : List α → α → Prop) (log : List α) : Prop :=
  ∀ pre e post, log = pre ++ e :: post → P pre e

theorem each_nil : Each P [] := by
  intro pre e post h
  exact absurd h.symm (List.append_ne_nil_of_right_ne_nil _ (List.cons_ne_nil _ _))

theorem Each.snoc (h : Each P log) (he : P log e) : Each P (log ++ [e]) := by
  intro pre x post heq
  rcases List.eq_nil_or_concat post with rfl|⟨post,y,rfl⟩
  · obtain ⟨rfl,hx⟩ := List.append_inj' heq rfl
    rwa [← List.singleton_inj.mp hx]
  · have hcut : log ++ [e] = (pre ++ x :: post) ++ [y] := by simpa using heq
    obtain ⟨hlog,-⟩ := List.append_inj' hcut rfl
    exact h pre x post hlog

theorem Each.append (h : Each P log) (xs : List α)
    (hx : ∀ pre e post, xs = pre ++ e :: post → P (log ++ pre) e) : Each P (log ++ xs) := by
  induction xs using List.reverseRecOn with
  | nil => simpa using h
  | append_singleton xs e ih =>
    rw [← List.append_assoc]
    refine (ih fun pre x post heq => hx pre x (post ++ [e]) ?_).snoc (hx xs e [] rfl)
    simp [heq]

theorem Each.take (h : Each P log) {xs : List α} (hx : xs <+: log) : Each P xs := by
  obtain ⟨ys,rfl⟩ := hx
  intro pre e post heq
  exact h pre e (post ++ ys) (by simp [heq])

theorem Each.mono (h : Each P log) (hPQ : ∀ pre e, pre <+: log → P pre e → Q pre e) : Each Q log := by
  intro pre e post heq
  exact hPQ pre e ⟨_,heq.symm⟩ (h pre e post heq)

/-- A law of what a history is seen as is one of the history. -/
theorem Each.of_filterMap {β : Type} {f : α → Option β} {P : List β → β → Prop}
    (h : Each P (log.filterMap f)) :
    Each (fun pre e => ∀ a, f e = some a → P (pre.filterMap f) a) log := by
  rintro pre e post rfl a ha
  exact h (pre.filterMap f) a (post.filterMap f) (by simp [ha])

theorem Each.and (h : Each P log) (h' : Each Q log) : Each (fun pre e => P pre e ∧ Q pre e) log :=
  fun pre e post heq => ⟨h pre e post heq,h' pre e post heq⟩

/-- One history goes on as another, each new entry satisfying `P` with the entries before it. -/
def Extends (P : List α → α → Prop) (log log' : List α) : Prop :=
  ∃ xs, log' = log ++ xs ∧ ∀ pre e post, xs = pre ++ e :: post → P (log ++ pre) e

variable {log' log'' : List α}

theorem Extends.refl (P : List α → α → Prop) (log : List α) : Extends P log log :=
  ⟨[],(List.append_nil _).symm,fun _ _ _ h =>
    absurd h.symm (List.append_ne_nil_of_right_ne_nil _ (List.cons_ne_nil _ _))⟩

theorem Extends.trans (h : Extends P log log') (h' : Extends P log' log'') : Extends P log log'' := by
  obtain ⟨xs,rfl,hx⟩ := h
  obtain ⟨ys,rfl,hy⟩ := h'
  refine ⟨xs ++ ys,List.append_assoc _ _ _,fun pre e post heq => ?_⟩
  obtain ⟨mid,rfl,hmid⟩|⟨mid,hxs,hmid⟩ := List.append_eq_append_iff.mp heq
  · rw [← List.append_assoc]
    exact hy mid e post hmid
  · cases mid with
    | nil =>
      obtain rfl : xs = pre := hxs.trans (List.append_nil _)
      simpa using hy [] e post (by simpa using hmid.symm)
    | cons y mid =>
      obtain ⟨rfl,-⟩ := List.cons.inj hmid
      exact hx pre e mid hxs

theorem Extends.mono (h : Extends P log log') (hPQ : ∀ pre e, log <+: pre → P pre e → Q pre e) :
    Extends Q log log' := by
  obtain ⟨xs,rfl,hx⟩ := h
  exact ⟨xs,rfl,fun pre e post heq => hPQ _ e (List.prefix_append _ _) (hx pre e post heq)⟩

/-- A law of the entries that are there is one of what the history goes on as. -/
theorem Each.extend (h : Each P log) (hext : Extends P log log') : Each P log' := by
  obtain ⟨xs,rfl,hx⟩ := hext
  exact h.append xs hx

end History

section Causes

variable {σ ι α : Type} {step : σ → ι → Except σ σ} {log : σ → List α} {P : ι → List α → α → Prop}
  {Q : List α → α → Prop} {s : σ} {is : List ι}

/-- Each entry of the history behind a run was written while one of its inputs was handled, and is
one that `P` allows this input to write there. -/
def Written (step : σ → ι → Except σ σ) (log : σ → List α) (P : ι → List α → α → Prop) (s : σ)
    (is : List ι) : Prop :=
  ∀ pre e post, log (final (is.foldlM step s)) = pre ++ e :: post →
    ∃ front i back, is = front ++ i :: back ∧ log (final (front.foldlM step s)) <+: pre ∧
      pre ++ [e] <+: log (final ((front ++ [i]).foldlM step s)) ∧ P i pre e

theorem Written.and_each (h : Written step log P s is) (hQ : Each Q (log (final (is.foldlM step s)))) :
    Written step log (fun i pre e => P i pre e ∧ Q pre e) s is := by
  intro pre e post hcut
  obtain ⟨front,i,back,his,hbefore,hafter,hP⟩ := h pre e post hcut
  exact ⟨front,i,back,his,hbefore,hafter,hP,hQ pre e post hcut⟩

/-- What a step writes by its input, a run does. -/
theorem run_written {Inv : σ → Prop}
    (hstep : ∀ s i, Inv s → Ends (fun t => Inv t ∧ Extends (P i) (log s) (log t))
      (fun t => Extends (P i) (log s) (log t)) (step s i))
    (is : List ι) (hs : Inv s) (hlog : log s = []) : Written step log P s is := by
  induction is using List.reverseRecOn with
  | nil =>
    intro pre e post hcut
    have hnil : log s = pre ++ e :: post := hcut
    exact absurd (hnil.symm.trans hlog) (List.append_ne_nil_of_right_ne_nil _ (List.cons_ne_nil _ _))
  | append_singleton is i ih =>
    have hmore {pre : List α} {e : α} {post : List α}
        (hcut : log (final (is.foldlM step s)) = pre ++ e :: post) :
        ∃ front j back, is ++ [i] = front ++ j :: back ∧ log (final (front.foldlM step s)) <+: pre ∧
          pre ++ [e] <+: log (final ((front ++ [j]).foldlM step s)) ∧ P j pre e := by
      obtain ⟨front,j,back,rfl,hrest⟩ := ih pre e post hcut
      exact ⟨front,j,back ++ [i],by simp,hrest⟩
    intro pre e post hcut
    cases hr : is.foldlM step s with
    | error t =>
      have hlast : (is ++ [i]).foldlM step s = .error t := by
        rw [List.foldlM_append,hr]
        rfl
      rw [hlast] at hcut
      exact hmore (by rw [hr]; exact hcut)
    | ok t =>
      have hinv : Inv t := by
        have hrun : Ends Inv (fun _ => True) (is.foldlM step s) :=
          foldlM_ends (fun u j hu => (hstep u j hu).mono (fun _ h => h.1) fun _ _ => trivial) s is hs
        rwa [hr] at hrun
      have hlast : (is ++ [i]).foldlM step s = step t i := by
        rw [List.foldlM_append,hr]
        exact bind_pure (step t i)
      obtain ⟨xs,hxs,hx⟩ : Extends (P i) (log t) (log (final (step t i))) :=
        (hstep t i hinv).at_final (fun _ h => h.2) fun _ h => h
      have hwhole : log t ++ xs = pre ++ e :: post := by rw [← hxs,← hlast,hcut]
      have hwrites {mid : List α} (hpre : pre = log t ++ mid) (hmid : xs = mid ++ e :: post) :
          ∃ front j back, is ++ [i] = front ++ j :: back ∧ log (final (front.foldlM step s)) <+: pre ∧
            pre ++ [e] <+: log (final ((front ++ [j]).foldlM step s)) ∧ P j pre e := by
        refine ⟨is,i,[],rfl,?_,?_,hpre ▸ hx mid e post hmid⟩
        · rw [hr]
          exact ⟨mid,hpre.symm⟩
        · exact ⟨post,by rw [hcut]; simp⟩
      obtain ⟨mid,hpre,hmid⟩|⟨mid,hfront,hmid⟩ := List.append_eq_append_iff.mp hwhole
      · exact hwrites hpre hmid
      · cases mid with
        | nil =>
          have hpre : pre = log t ++ [] := by rw [List.append_nil,hfront,List.append_nil]
          exact hwrites hpre hmid.symm
        | cons x mid =>
          obtain ⟨rfl,-⟩ := List.cons.inj hmid
          exact hmore (by rw [hr]; exact hfront)

end Causes

section Courses

variable {σ ι : Type} {step : σ → ι → σ} {Law : σ → ι → Prop} {s : σ} {is front : List ι} {i : ι}
  {P Q : σ → Prop}

/-- Each input is one that the law allows in the state that it meets. -/
def Lawful (step : σ → ι → σ) (Law : σ → ι → Prop) (s : σ) (is : List ι) : Prop :=
  ∀ front i, front ++ [i] <+: is → Law (front.foldl step s) i

/-- At some moment of the run the state satisfied `P`. -/
def Once (step : σ → ι → σ) (s : σ) (is : List ι) (P : σ → Prop) : Prop :=
  ∃ front, front <+: is ∧ P (front.foldl step s)

theorem lawful_nil : Lawful step Law s [] := by
  intro front i h
  simpa using h.length_le

theorem Lawful.take (h : Lawful step Law s is) (hfront : front <+: is) : Lawful step Law s front :=
  fun pre j hpre => h pre j (hpre.trans hfront)

theorem lawful_snoc : Lawful step Law s (is ++ [i]) ↔ Lawful step Law s is ∧ Law (is.foldl step s) i := by
  constructor
  · intro h
    exact ⟨h.take (List.prefix_append _ _),h is i List.prefix_rfl⟩
  · rintro ⟨h,hi⟩ front j hj
    rcases List.prefix_concat_iff.mp hj with heq|hj
    · obtain ⟨rfl,hlast⟩ := List.append_inj' heq rfl
      exact List.singleton_inj.mp hlast ▸ hi
    · exact h front j hj

theorem lawful_cons : Lawful step Law s (i :: is) ↔ Law s i ∧ Lawful step Law (step s i) is := by
  constructor
  · intro h
    refine ⟨h [] i (by simp),fun front j hj => h (i :: front) j ?_⟩
    simpa using hj
  · rintro ⟨hi,h⟩ front j hj
    cases front with
    | nil => exact (List.cons_prefix_cons.mp hj).1 ▸ hi
    | cons k front =>
      obtain ⟨rfl,hrest⟩ := List.cons_prefix_cons.mp hj
      exact h front j hrest

theorem lawful_append {js : List ι} :
    Lawful step Law s (is ++ js) ↔ Lawful step Law s is ∧ Lawful step Law (is.foldl step s) js := by
  induction is generalizing s with
  | nil => exact ⟨fun h => ⟨lawful_nil,h⟩,fun h => h.2⟩
  | cons i is ih => rw [List.cons_append,lawful_cons,lawful_cons,ih,List.foldl_cons,and_assoc]

instance decidableLawful [∀ s i, Decidable (Law s i)] : (s : σ) → (is : List ι) →
    Decidable (Lawful step Law s is)
  | _, [] => .isTrue lawful_nil
  | s, i :: is =>
    have : Decidable (Lawful step Law (step s i) is) := decidableLawful (step s i) is
    decidable_of_iff _ lawful_cons.symm

/-- What holds at the start, and is kept by every input that is allowed, holds behind a run. -/
theorem Lawful.induction {I : List ι → σ → Prop} (h : Lawful step Law s is) (hstart : I [] s)
    (hstep : ∀ is i, Lawful step Law s is → I is (is.foldl step s) → Law (is.foldl step s) i →
      I (is ++ [i]) (step (is.foldl step s) i)) : I is (is.foldl step s) := by
  induction is using List.reverseRecOn with
  | nil => exact hstart
  | append_singleton is i ih =>
    obtain ⟨hfront,hi⟩ := lawful_snoc.mp h
    rw [List.foldl_append]
    exact hstep is i hfront (ih hfront) hi

theorem Once.now (h : P (is.foldl step s)) : Once step s is P := ⟨is,List.prefix_rfl,h⟩

theorem Once.later (h : Once step s front P) (hfront : front <+: is) : Once step s is P := by
  obtain ⟨pre,hpre,hP⟩ := h
  exact ⟨pre,hpre.trans hfront,hP⟩

theorem Once.mono (h : Once step s is P) (hPQ : ∀ t, P t → Q t) : Once step s is Q := by
  obtain ⟨pre,hpre,hP⟩ := h
  exact ⟨pre,hpre,hPQ _ hP⟩

end Courses

section Interleaved

variable {σ ι : Type}

/-- One input, with the states before and after it. -/
structure Handled (σ ι : Type) where
  input : ι
  before : σ
  after : σ

/-- A machine that handles inputs one after the other, and in between does other things. -/
inductive Feed (idle : σ → σ → Prop) (handles : σ → ι → σ → Prop) :
    σ → List (Handled σ ι) → σ → Prop
  | start (s : σ) : Feed idle handles s [] s
  | idle {s t u : σ} {hs : List (Handled σ ι)} (h : Feed idle handles s hs t) (hi : idle t u) :
      Feed idle handles s hs u
  | handle {s t u : σ} {hs : List (Handled σ ι)} (i : ι) (h : Feed idle handles s hs t)
      (hi : handles t i u) : Feed idle handles s (hs ++ [⟨i,t,u⟩]) u

variable {idle : σ → σ → Prop} {handles : σ → ι → σ → Prop} {s t : σ} {hs pre post : List (Handled σ ι)}
  {x : Handled σ ι}

/-- What came before a handled input is a history of its own. -/
theorem Feed.at (h : Feed idle handles s hs t) (hcut : hs = pre ++ x :: post) :
    Feed idle handles s pre x.before ∧ handles x.before x.input x.after := by
  induction h generalizing post with
  | start => exact absurd hcut.symm (List.append_ne_nil_of_right_ne_nil _ (List.cons_ne_nil _ _))
  | idle h hi ih => exact ih hcut
  | @handle u v hs i h hi ih =>
    rcases List.eq_nil_or_concat post with rfl|⟨post,y,rfl⟩
    · obtain ⟨rfl,hx⟩ := List.append_inj' hcut rfl
      obtain rfl := List.singleton_inj.mp hx
      exact ⟨h,hi⟩
    · have hsnoc : hs ++ [⟨i,u,v⟩] = (pre ++ x :: post) ++ [y] := by simpa using hcut
      exact ih (List.append_inj' hsnoc rfl).1

/-- An invariant of a state and its history, kept by every input that satisfies `P`. -/
theorem Feed.invariant {I : List (Handled σ ι) → σ → Prop} {P : Handled σ ι → Prop}
    (h : Feed idle handles s hs t) (hP : ∀ x ∈ hs, P x) (hs0 : I [] s)
    (hidle : ∀ hs t u, I hs t → idle t u → I hs u)
    (hhandle : ∀ hs t i u, I hs t → handles t i u → P ⟨i,t,u⟩ → I (hs ++ [⟨i,t,u⟩]) u) :
    I hs t := by
  induction h with
  | start => exact hs0
  | idle h hi ih => exact hidle _ _ _ (ih hP) hi
  | handle i h hi ih =>
    have hbefore := ih fun x hx => hP x (List.mem_append_left _ hx)
    exact hhandle _ _ i _ hbefore hi (hP _ (List.mem_append_right _ List.mem_cons_self))

theorem Feed.trans {u : σ} {hs' : List (Handled σ ι)} (h : Feed idle handles s hs t)
    (h' : Feed idle handles t hs' u) : Feed idle handles s (hs ++ hs') u := by
  induction h' with
  | start => simpa using h
  | idle h' hi ih => exact ih.idle hi
  | handle i h' hi ih =>
    rw [← List.append_assoc]
    exact ih.handle i hi

end Interleaved

section Prefixes

/-- A property of the start holds all along a run iff no step breaks it. -/
theorem forall_prefix_iff {ι : Type} {P : List ι → Prop} {C : List ι → ι → Prop} {is : List ι}
    (hnil : P []) (hsnoc : ∀ front, ∀ i ∈ is, P front → (P (front ++ [i]) ↔ C front i)) :
    (∀ front, front <+: is → P front) ↔ ∀ front i, front ++ [i] <+: is → C front i := by
  have hmem {front : List ι} {i : ι} (h : front ++ [i] <+: is) : i ∈ is := h.subset (by simp)
  constructor
  · intro h front i hi
    exact (hsnoc front i (hmem hi) (h front ((List.prefix_append _ _).trans hi))).1 (h _ hi)
  · intro h front
    induction front using List.reverseRecOn with
    | nil => exact fun _ => hnil
    | append_singleton front i ih =>
      intro hi
      exact (hsnoc front i (hmem hi) (ih ((List.prefix_append _ _).trans hi))).2 (h front i hi)

end Prefixes

end Runs
end Robocol
