import Robocol.Chunked

/-! Interrupted reads. A reader is run beside one whose reads are never interrupted: an
interruption moves the first alone, and any other answer is the same on both. The loops that
read on after an interruption then agree. -/
namespace Robocol
namespace Readers

open Filter

section Agreement

variable {ρ σ α β : Type} {R : ℕ → ρ → ρ → Prop} {j k : ℕ} {cost : α → ℕ}

/-- `f` ends as `run` does. -/
def Follows (f run : ℕ → Option β) : Prop :=
  ∀ x, (∀ᶠ fuel in atTop, run fuel = some x) → ∀ᶠ fuel in atTop, f fuel = some x

theorem Follows.refl (f : ℕ → Option β) : Follows f f := fun _ h => h

theorem Follows.of_eq {f run : ℕ → Option β} (h : ∀ᶠ fuel in atTop, f fuel = run fuel) :
    Follows f run := by
  intro x hx
  filter_upwards [h,hx] with fuel hf hr
  rw [hf,hr]

theorem Follows.succ {f run : ℕ → Option β} (h : ∀ᶠ fuel in atTop, f (fuel+1) = run fuel) :
    Follows f run := by
  intro x hx
  apply eventually_of_succ
  filter_upwards [h,hx] with fuel hf hr
  rw [hf,hr]

theorem eventually_unique {f : ℕ → Option β} {x y : β} (hx : ∀ᶠ fuel in atTop, f fuel = some x)
    (hy : ∀ᶠ fuel in atTop, f fuel = some y) : x = y := by
  obtain ⟨fuel,hf,hg⟩ := (hx.and hy).exists
  exact Option.some.inj (hf.symm.trans hg)

/-- Two runs with one result, not an interruption, that leave related readers: `k` bounds what
the first reader has left, and a success has used up its cost of that. -/
inductive Agrees (R : ℕ → ρ → ρ → Prop) (k : ℕ) (cost : α → ℕ) (run run' : ℕ → Run ρ α) : Prop
  | ok (a : α) (r r' : ρ) (j : ℕ) (hrun : ∀ᶠ fuel in atTop, run fuel = some (.ok a,r))
      (hrun' : ∀ᶠ fuel in atTop, run' fuel = some (.ok a,r')) (h : R j r r') (hj : j+cost a ≤ k)
  | error (e : IoError) (r r' : ρ) (j : ℕ)
      (hrun : ∀ᶠ fuel in atTop, run fuel = some (.error e,r))
      (hrun' : ∀ᶠ fuel in atTop, run' fuel = some (.error e,r')) (h : R j r r') (hj : j ≤ k)
      (he : e.kind ≠ .interrupted)

theorem Agrees.spend {cost' : α → ℕ} {run run' : ℕ → Run ρ α} (h : Agrees R j cost run run')
    (hjk : j ≤ k) (hcost : ∀ a, cost' a+j ≤ cost a+k) : Agrees R k cost' run run' := by
  cases h with
  | ok a r r' i hrun hrun' h hi =>
    have hc := hcost a
    exact .ok a r r' i hrun hrun' h (by omega)
  | error e r r' i hrun hrun' h hi he => exact .error e r r' i hrun hrun' h (hi.trans hjk) he

theorem Agrees.mono {run run' : ℕ → Run ρ α} (h : Agrees R j cost run run') (hjk : j ≤ k) :
    Agrees R k cost run run' :=
  h.spend hjk fun a => Nat.add_le_add_left hjk (cost a)

theorem Agrees.follow {run run' f f' : ℕ → Run ρ α} (h : Agrees R k cost run run')
    (hf : Follows f run) (hf' : Follows f' run') : Agrees R k cost f f' := by
  cases h with
  | ok a r r' i hrun hrun' h hi => exact .ok a r r' i (hf _ hrun) (hf' _ hrun') h hi
  | error e r r' i hrun hrun' h hi he => exact .error e r r' i (hf _ hrun) (hf' _ hrun') h hi he

theorem Agrees.of_ok {a : α} {r r' : ρ} (h : R j r r') (hj : j+cost a ≤ k) :
    Agrees R k cost (fun _ => some (.ok a,r)) fun _ => some (.ok a,r') :=
  .ok a r r' j (.of_forall fun _ => rfl) (.of_forall fun _ => rfl) h hj

theorem Agrees.of_error {e : IoError} {r r' : ρ} (h : R j r r') (hj : j ≤ k)
    (he : e.kind ≠ .interrupted) :
    Agrees R k cost (fun _ => some (.error e,r)) fun _ => some (.error e,r') :=
  .error e r r' j (.of_forall fun _ => rfl) (.of_forall fun _ => rfl) h hj he

/-- `f` fails where `run` does, and goes on as `next` from what `run` gives. -/
structure Chains (up : ρ → σ) (run : ℕ → Run ρ α) (f : ℕ → Run σ β) (next : α → ρ → ℕ → Run σ β) :
    Prop where
  ok {a : α} {r : ρ} : (∀ᶠ fuel in atTop, run fuel = some (.ok a,r)) → Follows f (next a r)
  error {e : IoError} {r : ρ} : (∀ᶠ fuel in atTop, run fuel = some (.error e,r)) →
    ∀ᶠ fuel in atTop, f fuel = some (.error e,up r)

theorem Agrees.chain {up : ρ → σ} {run run' : ℕ → Run ρ α} {f f' : ℕ → Run σ β}
    {next : α → ρ → ℕ → Run σ β} {Q : ℕ → σ → σ → Prop} {cost' : β → ℕ}
    (h : Agrees R k cost run run') (hup : ∀ {j r r'}, R j r r' → Q j (up r) (up r'))
    (hf : Chains up run f next) (hf' : Chains up run' f' next)
    (hnext : ∀ a r r' j, R j r r' → j+cost a ≤ k → Agrees Q k cost' (next a r) (next a r')) :
    Agrees Q k cost' f f' := by
  cases h with
  | ok a r r' j hrun hrun' h hj => exact (hnext a r r' j h hj).follow (hf.ok hrun) (hf'.ok hrun')
  | error e r r' j hrun hrun' h hj he =>
    exact .error e _ _ j (hf.error hrun) (hf'.error hrun') (hup h) hj he

/-- An answer of both readers, or an interruption of the first while the second, `r'`, stays
where it is. -/
inductive Answers (R : ℕ → ρ → ρ → Prop) (k : ℕ) (r' : ρ) (run run' : ℕ → Run ρ (List UInt8)) : Prop
  | same (h : Agrees R k List.length run run')
  | interrupted (e : IoError) (r : ρ) (j : ℕ)
      (hrun : ∀ᶠ fuel in atTop, run fuel = some (.error e,r)) (he : e.kind = .interrupted)
      (h : R j r r') (hj : j < k)

/-- A loop over reads of `run` fails with any error but an interruption, and begins `again` after
one. -/
structure Retries (run : ℕ → Run ρ (List UInt8)) (f : ℕ → Run ρ β) (again : ρ → ℕ → Run ρ β)
    (next : List UInt8 → ρ → ℕ → Run ρ β) : Prop where
  ok {xs : List UInt8} {r : ρ} : (∀ᶠ fuel in atTop, run fuel = some (.ok xs,r)) →
    Follows f (next xs r)
  error {e : IoError} {r : ρ} : (∀ᶠ fuel in atTop, run fuel = some (.error e,r)) →
    e.kind ≠ .interrupted → ∀ᶠ fuel in atTop, f fuel = some (.error e,r)
  interrupted {e : IoError} {r : ρ} : (∀ᶠ fuel in atTop, run fuel = some (.error e,r)) →
    e.kind = .interrupted → Follows f (again r)

theorem Answers.retry {r r' : ρ} {run run' : ℕ → Run ρ (List UInt8)} {again : ρ → ℕ → Run ρ β}
    {next : List UInt8 → ρ → ℕ → Run ρ β} {cost : β → ℕ} (h : Answers R k r' run run')
    (hf : Retries run (again r) again next) (hf' : Retries run' (again r') again next)
    (hagain : ∀ r1 j, R j r1 r' → j < k → Agrees R j cost (again r1) (again r'))
    (hnext : ∀ xs r1 r1' j, R j r1 r1' → j+xs.length ≤ k →
      Agrees R k cost (next xs r1) (next xs r1')) :
    Agrees R k cost (again r) (again r') := by
  cases h with
  | interrupted e r1 j hrun he h1 hj =>
    exact ((hagain r1 j h1 hj).mono (Nat.le_of_lt hj)).follow (hf.interrupted hrun he) (.refl _)
  | same hsame =>
    cases hsame with
    | ok xs r1 r1' j hrun hrun' h1 hj =>
      exact (hnext xs r1 r1' j h1 hj).follow (hf.ok hrun) (hf'.ok hrun')
    | error e r1 r1' j hrun hrun' h1 hj he =>
      exact .error e r1 r1' j (hf.error hrun he) (hf'.error hrun' he) h1 hj he

/-- `R k r r'`: the reader `r'` is `r` without the interruptions. `k` bounds the interruptions and
the bytes that may still come. -/
structure Shadows [Read ρ] (R : ℕ → ρ → ρ → Prop) : Prop where
  self {k : ℕ} {r r' : ρ} : R k r r' → ∃ j, R j r' r'
  read {k : ℕ} {r r' : ρ} (n : ℕ) : R k r r' →
    Answers R k r' (fun fuel => Read.read fuel r n) fun fuel => Read.read fuel r' n

/-- The answers of two buffers. -/
inductive Fills [BufRead ρ] (R : ℕ → ρ → ρ → Prop) (k : ℕ) (r r' : ρ) : Prop
  | ok (xs : List UInt8) (r1 r1' : ρ)
      (hrun : ∀ᶠ fuel in atTop, BufRead.fillBuf fuel r = some (.ok xs,r1))
      (hrun' : ∀ᶠ fuel in atTop, BufRead.fillBuf fuel r' = some (.ok xs,r1'))
      (h : ∀ n ≤ xs.length, ∃ j, R j (BufRead.consume r1 n) (BufRead.consume r1' n) ∧ j+n ≤ k)
  | error (e : IoError) (r1 r1' : ρ) (j : ℕ)
      (hrun : ∀ᶠ fuel in atTop, BufRead.fillBuf fuel r = some (.error e,r1))
      (hrun' : ∀ᶠ fuel in atTop, BufRead.fillBuf fuel r' = some (.error e,r1')) (h : R j r1 r1')
      (hj : j ≤ k) (he : e.kind ≠ .interrupted)
  | interrupted (e : IoError) (r1 : ρ) (j : ℕ)
      (hrun : ∀ᶠ fuel in atTop, BufRead.fillBuf fuel r = some (.error e,r1))
      (he : e.kind = .interrupted) (h : R j r1 r') (hj : j < k)

structure BufShadows [BufRead ρ] (R : ℕ → ρ → ρ → Prop) : Prop extends Shadows R where
  fillBuf {k : ℕ} {r r' : ρ} : R k r r' → Fills R k r r'

variable [Read ρ]

/-- What `read_exact` does with `n` more bytes to come once a read has given `xs`. -/
def exactNext (n : ℕ) (got : List UInt8) : List UInt8 → ρ → ℕ → Run ρ (List UInt8)
  | [], r => fun _ => some (.error ⟨.unexpectedEof,"failed to fill whole buffer"⟩,r)
  | x :: xs, r => fun fuel => readExact fuel r (n-(xs.length+1)) (got ++ x :: xs)

theorem readExact_retries {n : ℕ} (hn : n ≠ 0) (got : List UInt8) (r : ρ) :
    Retries (fun fuel => Read.read fuel r n) (fun fuel => readExact fuel r n got)
      (fun r fuel => readExact fuel r n got) (exactNext n got) where
  ok {xs r1} hrun := by
    apply Follows.succ
    filter_upwards [hrun] with fuel hf
    cases xs with
    | nil => simp only [readExact,if_neg hn,hf,exactNext]
    | cons x xs => simp only [readExact,if_neg hn,hf,exactNext]
  error hrun he := by
    apply eventually_of_succ
    filter_upwards [hrun] with fuel hf
    simp only [readExact,if_neg hn,hf,if_neg he]
  interrupted hrun he := by
    apply Follows.succ
    filter_upwards [hrun] with fuel hf
    simp only [readExact,if_neg hn,hf,if_pos he]

theorem Shadows.readExact (hR : Shadows R) (n : ℕ) (got : List UInt8) {r r' : ρ} (h : R k r r') :
    Agrees R k (fun _ => 0) (fun fuel => readExact fuel r n got)
      fun fuel => readExact fuel r' n got := by
  induction k using Nat.strong_induction_on generalizing n got r r' with
  | _ k ih =>
    by_cases hn : n = 0
    · have hdone : Agrees R k (fun _ => 0) (fun _ => some (.ok got,r)) fun _ => some (.ok got,r') :=
        .of_ok h le_rfl
      refine hdone.follow (.succ ?_) (.succ ?_)
      · exact .of_forall fun fuel => by simp only [Readers.readExact,if_pos hn]
      · exact .of_forall fun fuel => by simp only [Readers.readExact,if_pos hn]
    · refine (hR.read n h).retry (readExact_retries hn got r) (readExact_retries hn got r')
        (fun r1 j h1 hj => ih j hj n got h1) fun xs r1 r1' j h1 hj => ?_
      cases xs with
      | nil => exact .of_error h1 hj (by decide)
      | cons x xs =>
        rw [List.length_cons] at hj
        exact (ih j (by omega) (n-(xs.length+1)) (got ++ x :: xs) h1).mono (by omega)

end Agreement

/-- Whether a read comes back as `ErrorKind::Interrupted`. -/
def interruption : Except IoError (List UInt8) → Bool
  | .ok _ => false
  | .error e => e.kind = .interrupted

namespace Script

/-- The same stream without its interruptions. -/
def uninterrupted (r : Script) : Script := ⟨r.pieces.filter fun p => !interruption p⟩

def resultSize : Except IoError (List UInt8) → ℕ
  | .ok bs => bs.length+1
  | .error _ => 1

/-- The bytes that a script holds, and one more for each of its results. -/
def size (r : Script) : ℕ := r.pieces.foldr (fun p n => resultSize p+n) 0

def Beside (k : ℕ) (r r' : Script) : Prop := r' = r.uninterrupted ∧ r.size ≤ k

theorem uninterrupted_uninterrupted (r : Script) : r.uninterrupted.uninterrupted = r.uninterrupted := by
  simp only [uninterrupted,List.filter_filter,Bool.and_self]

/-- What a script gives without its interruptions it gives with them, one at a time between. -/
theorem read_uninterrupted (r : Script) (n : ℕ) :
    (∀ xs, (r.read n).1 = .ok xs →
      r.uninterrupted.read n = (.ok xs,(r.read n).2.uninterrupted) ∧
        (r.read n).2.size+xs.length ≤ r.size) ∧
    ∀ e, (r.read n).1 = .error e → (r.read n).2.size < r.size ∧
      if e.kind = .interrupted then (r.read n).2.uninterrupted = r.uninterrupted
      else r.uninterrupted.read n = (.error e,(r.read n).2.uninterrupted) := by
  obtain ⟨pieces⟩ := r
  cases pieces with
  | nil => simp [read,uninterrupted]
  | cons p rest =>
    cases p with
    | error e =>
      by_cases he : e.kind = .interrupted
      · simp [read,uninterrupted,interruption,size,resultSize,he]
      · simp [read,uninterrupted,interruption,size,resultSize,he]
    | ok bs =>
      by_cases hle : bs.length ≤ n
      · simp [read,uninterrupted,interruption,size,resultSize,hle]
        omega
      · simp [read,uninterrupted,interruption,size,resultSize,hle]
        omega

theorem shadows : Shadows Beside where
  self := by
    rintro k r _ ⟨rfl,-⟩
    exact ⟨_,r.uninterrupted_uninterrupted.symm,le_rfl⟩
  read := by
    rintro k r _ n ⟨rfl,hk⟩
    obtain ⟨hok,herr⟩ := r.read_uninterrupted n
    cases hres : (r.read n).1 with
    | ok xs =>
      obtain ⟨hread,hsize⟩ := hok xs hres
      exact .same (.ok xs (r.read n).2 _ (r.read n).2.size (.of_forall fun _ => by rw [← hres]; rfl)
        (.of_forall fun _ => congrArg some hread) ⟨rfl,le_rfl⟩ (hsize.trans hk))
    | error e =>
      obtain ⟨hlt,hread⟩ := herr e hres
      have hrun : ∀ᶠ fuel in atTop, Read.read fuel r n = some (.error e,(r.read n).2) :=
        .of_forall fun _ => by rw [← hres]; rfl
      by_cases he : e.kind = .interrupted
      · rw [if_pos he] at hread
        exact .interrupted e (r.read n).2 (r.read n).2.size hrun he ⟨hread.symm,le_rfl⟩
          (Nat.lt_of_lt_of_le hlt hk)
      · rw [if_neg he] at hread
        exact .same (.error e (r.read n).2 _ (r.read n).2.size hrun
          (.of_forall fun _ => congrArg some hread) ⟨rfl,le_rfl⟩ (by omega) he)

end Script

namespace BufReader

variable {ρ : Type} {R : ℕ → ρ → ρ → Prop} {k : ℕ} {r r' : BufReader ρ}

/-- The same bytes are buffered, and the inner readers are related. -/
def Beside (R : ℕ → ρ → ρ → Prop) (k : ℕ) (r r' : BufReader ρ) : Prop :=
  ∃ j, R j r.inner r'.inner ∧ r'.buf = r.buf ∧ r.buf.length+j ≤ k

variable [Read ρ]

theorem fillBuf_chains (hb : r.buf = []) :
    Chains (fun inner => ⟨inner,[]⟩) (fun fuel => Read.read fuel r.inner DEFAULT_BUF_SIZE)
      (fun fuel => r.fillBuf fuel) fun bs inner _ => some (.ok bs,⟨inner,bs⟩) where
  ok hrun := by
    apply Follows.of_eq
    filter_upwards [hrun] with fuel hf
    simp only [fillBuf,hb,if_true,hf]
  error hrun := by
    filter_upwards [hrun] with fuel hf
    simp only [fillBuf,hb,if_true,hf]

theorem fillBuf_beside (hR : Shadows R) (h : Beside R k r r') : Fills (Beside R) k r r' := by
  obtain ⟨i,hi,hbuf,hk⟩ := h
  by_cases hb : r.buf = []
  · have hb' : r'.buf = [] := hbuf.trans hb
    have hc := fillBuf_chains hb
    have hc' := fillBuf_chains hb'
    cases hR.read DEFAULT_BUF_SIZE hi with
    | interrupted e r1 j hrun he h1 hj =>
      exact .interrupted e _ j (hc.error hrun) he ⟨j,h1,hb',by simp⟩ (by omega)
    | same hsame =>
      cases hsame with
      | error e r1 r1' j hrun hrun' h1 hj he =>
        exact .error e _ _ j (hc.error hrun) (hc'.error hrun') ⟨j,h1,rfl,by simp⟩ (by omega) he
      | ok xs r1 r1' j hrun hrun' h1 hj =>
        refine .ok xs ⟨r1,xs⟩ ⟨r1',xs⟩ (hc.ok hrun _ (.of_forall fun _ => rfl))
          (hc'.ok hrun' _ (.of_forall fun _ => rfl))
          fun n hn => ⟨(xs.drop n).length+j,⟨j,h1,rfl,le_rfl⟩,?_⟩
        rw [List.length_drop]
        omega
  · have hb' : r'.buf ≠ [] := hbuf.symm ▸ hb
    refine .ok r.buf r r' (.of_forall fun fuel => ?_) (.of_forall fun fuel => ?_)
      fun n hn => ⟨(r.buf.drop n).length+i,⟨i,hi,?_,le_rfl⟩,?_⟩
    · simp only [BufRead.fillBuf,fillBuf,if_neg hb]
    · simp only [BufRead.fillBuf,fillBuf,if_neg hb']
      rw [hbuf]
    · simp only [BufRead.consume,consume,hbuf]
    · rw [List.length_drop]
      omega

theorem read_chains {n : ℕ} (hn : ¬(r.buf = [] ∧ DEFAULT_BUF_SIZE ≤ n)) :
    Chains id (fun fuel => BufRead.fillBuf fuel r) (fun fuel => r.read fuel n)
      fun bs r _ => some (.ok (bs.take n),r.consume (min n bs.length)) where
  ok {bs r1} hrun := by
    apply Follows.of_eq
    filter_upwards [hrun] with fuel hf
    have hf : r.fillBuf fuel = some (.ok bs,r1) := hf
    simp only [BufReader.read,if_neg hn,hf]
  error {e r1} hrun := by
    filter_upwards [hrun] with fuel hf
    have hf : r.fillBuf fuel = some (.error e,r1) := hf
    simp only [BufReader.read,if_neg hn,hf,id]

theorem read_beside {n : ℕ} (h : Fills (Beside R) k r r')
    (hn : ¬(r.buf = [] ∧ DEFAULT_BUF_SIZE ≤ n)) (hn' : ¬(r'.buf = [] ∧ DEFAULT_BUF_SIZE ≤ n)) :
    Answers (Beside R) k r' (fun fuel => r.read fuel n) fun fuel => r'.read fuel n := by
  have hc := read_chains hn
  have hc' := read_chains hn'
  cases h with
  | interrupted e r1 j hrun he h1 hj => exact .interrupted e r1 j (hc.error hrun) he h1 hj
  | error e r1 r1' j hrun hrun' h1 hj he =>
    exact .same (.error e r1 r1' j (hc.error hrun) (hc'.error hrun') h1 hj he)
  | ok xs r1 r1' hrun hrun' hconsume =>
    obtain ⟨j,h1,hj⟩ := hconsume (min n xs.length) (Nat.min_le_right _ _)
    have hboth : Agrees (Beside R) k List.length
        (fun _ => some (.ok (xs.take n),r1.consume (min n xs.length)))
        fun _ => some (.ok (xs.take n),r1'.consume (min n xs.length)) :=
      .of_ok h1 (by simpa using hj)
    exact .same (hboth.follow (hc.ok hrun) (hc'.ok hrun'))

theorem read_past {n : ℕ} (hn : r.buf = [] ∧ DEFAULT_BUF_SIZE ≤ n) :
    Chains (fun inner => ⟨inner,[]⟩) (fun fuel => Read.read fuel r.inner n)
      (fun fuel => r.read fuel n) fun bs inner _ => some (.ok bs,⟨inner,[]⟩) where
  ok hrun := by
    apply Follows.of_eq
    filter_upwards [hrun] with fuel hf
    simp only [BufReader.read,if_pos hn,hf]
  error hrun := by
    filter_upwards [hrun] with fuel hf
    simp only [BufReader.read,if_pos hn,hf]

theorem shadows (hR : Shadows R) : BufShadows (Beside R) where
  self := by
    rintro k r r' ⟨i,hi,-,-⟩
    obtain ⟨j,hj⟩ := hR.self hi
    exact ⟨_,j,hj,rfl,le_rfl⟩
  fillBuf := fillBuf_beside hR
  read := by
    intro k r r' n h
    have hfill := fillBuf_beside hR h
    obtain ⟨i,hi,hbuf,hk⟩ := h
    by_cases hb : r.buf = [] ∧ DEFAULT_BUF_SIZE ≤ n
    · have hb' : r'.buf = [] ∧ DEFAULT_BUF_SIZE ≤ n := ⟨hbuf.trans hb.1,hb.2⟩
      have hempty {j : ℕ} {t t' : ρ} (h : R j t t') : Beside R j ⟨t,[]⟩ ⟨t',[]⟩ := ⟨j,h,rfl,by simp⟩
      cases hR.read n hi with
      | interrupted e r1 j hrun he h1 hj =>
        exact .interrupted e _ j ((read_past hb).error hrun) he ⟨j,h1,hb'.1,by simp⟩ (by omega)
      | same hsame =>
        exact .same ((hsame.mono (by omega)).chain hempty (read_past hb) (read_past hb')
          fun xs r1 r1' j h1 hj => .of_ok (hempty h1) hj)
    · have hb' : ¬(r'.buf = [] ∧ DEFAULT_BUF_SIZE ≤ n) := hbuf.symm ▸ hb
      exact read_beside hfill hb hb'

/-- The same stream without its interruptions. -/
def uninterrupted (r : BufReader Script) : BufReader Script := ⟨r.inner.uninterrupted,r.buf⟩

theorem beside_uninterrupted (r : BufReader Script) :
    Beside Script.Beside (r.buf.length+r.inner.size) r r.uninterrupted :=
  ⟨r.inner.size,⟨rfl,le_rfl⟩,rfl,le_rfl⟩

end BufReader

end Readers

namespace HeaderLines

open Filter Readers

variable {ρ : Type} [Read ρ] {R : ℕ → ρ → ρ → Prop} {k : ℕ} {r r' : ρ}

/-- What the line reader does once a read has given `xs`. -/
def crlfNext (out : List UInt8) (total : ℕ) : List UInt8 → ρ → ℕ → Run ρ (ℕ × List UInt8)
  | [], r => fun _ => some (.ok (total,out),r)
  | b :: _, r => fun fuel =>
    if b = LF ∨ LINE_CAP < (out ++ [b]).length then some (.ok (total+1,out ++ [b]),r)
    else readUntilCrlf fuel r (out ++ [b]) (total+1)

theorem readUntilCrlf_retries (out : List UInt8) (total : ℕ) (r : ρ) :
    Retries (fun fuel => Read.read fuel r 1) (fun fuel => readUntilCrlf fuel r out total)
      (fun r fuel => readUntilCrlf fuel r out total) (crlfNext out total) where
  ok {xs r1} hrun := by
    apply Follows.succ
    filter_upwards [hrun] with fuel hf
    cases xs with
    | nil => simp only [readUntilCrlf,hf,crlfNext]
    | cons b bs => simp only [readUntilCrlf,hf,crlfNext]
  error hrun he := by
    apply eventually_of_succ
    filter_upwards [hrun] with fuel hf
    simp only [readUntilCrlf,hf,if_neg he]
  interrupted hrun he := by
    apply Follows.succ
    filter_upwards [hrun] with fuel hf
    simp only [readUntilCrlf,hf,if_pos he]

theorem readUntilCrlf_agrees (hR : Shadows R) (out : List UInt8) (total : ℕ) (h : R k r r') :
    Agrees R k (fun t => t.1-total) (fun fuel => readUntilCrlf fuel r out total)
      fun fuel => readUntilCrlf fuel r' out total := by
  induction k using Nat.strong_induction_on generalizing out total r r' with
  | _ k ih =>
    refine (hR.read 1 h).retry (readUntilCrlf_retries out total r)
      (readUntilCrlf_retries out total r') (fun r1 j h1 hj => ih j hj out total h1)
      fun xs r1 r1' j h1 hj => ?_
    cases xs with
    | nil => exact .of_ok h1 (by simpa using hj)
    | cons b bs =>
      rw [List.length_cons] at hj
      by_cases hstop : b = LF ∨ LINE_CAP < (out ++ [b]).length
      · simp only [crlfNext,if_pos hstop]
        exact .of_ok h1 (by simp only; omega)
      · simp only [crlfNext,if_neg hstop]
        exact (ih j (by omega) (out ++ [b]) (total+1) h1).spend (by omega) fun t => by omega

/-- What becomes of the bytes of a line. -/
def headerNext (t : ℕ × List UInt8) (r : ρ) : ℕ → Run ρ StdText.Text :=
  if t.1 = 0 then fun _ => some (.error ⟨.unexpectedEof,"stream ended mid-header"⟩,r)
  else fun _ => some (.ok (StdText.fromUtf8Lossy (popLineEnd t.2)),r)

theorem readHeaderLine_chains (r : ρ) :
    Chains id (fun fuel => readUntilCrlf fuel r [] 0) (fun fuel => readHeaderLine fuel r)
      headerNext where
  ok hrun := by
    apply Follows.of_eq
    filter_upwards [hrun] with fuel hf
    simp only [readHeaderLine,hf,headerNext,ite_apply]
  error hrun := by
    filter_upwards [hrun] with fuel hf
    simp only [readHeaderLine,hf,id]

theorem readHeaderLine_agrees (hR : Shadows R) (h : R k r r') :
    Agrees R k (fun _ => 1) (fun fuel => readHeaderLine fuel r) fun fuel => readHeaderLine fuel r' := by
  refine (readUntilCrlf_agrees hR [] 0 h).chain id (readHeaderLine_chains r)
    (readHeaderLine_chains r') fun t r1 r1' j h1 hj => ?_
  by_cases ht : t.1 = 0
  · simp only [headerNext,if_pos ht]
    exact .of_error h1 (by omega) (by decide)
  · simp only [headerNext,if_neg ht]
    exact .of_ok h1 (by omega)

theorem skipPartHeaders_chains (length : Option ℕ) (r : ρ) :
    Chains id (fun fuel => readHeaderLine fuel r) (fun fuel => skipPartHeaders fuel r length)
      fun line r fuel => if line = [] then some (.ok length,r)
        else skipPartHeaders fuel r (contentLength line length) where
  ok hrun := by
    apply Follows.succ
    filter_upwards [hrun] with fuel hf
    simp only [skipPartHeaders,hf]
  error hrun := by
    apply eventually_of_succ
    filter_upwards [hrun] with fuel hf
    simp only [skipPartHeaders,hf,id]

theorem skipPartHeaders_agrees (hR : Shadows R) (length : Option ℕ) (h : R k r r') :
    Agrees R k (fun _ => 1) (fun fuel => skipPartHeaders fuel r length)
      fun fuel => skipPartHeaders fuel r' length := by
  induction k using Nat.strong_induction_on generalizing length r r' with
  | _ k ih =>
    refine (readHeaderLine_agrees hR h).chain id (skipPartHeaders_chains length r)
      (skipPartHeaders_chains length r') fun line r1 r1' j h1 hj => ?_
    by_cases hnil : line = []
    · simp only [if_pos hnil]
      exact .of_ok h1 hj
    · simp only [if_neg hnil]
      exact (ih j (by omega) (contentLength line length) h1).mono (by omega)

end HeaderLines

namespace ChunkedReader

open Filter Readers StdText HeaderLines

variable {ρ : Type} [Readers.Read ρ] {R : ℕ → ρ → ρ → Prop} {k : ℕ} {r r' : ρ}

theorem sizeLine_chains (r : ρ) :
    Chains id (fun fuel => readHeaderLine fuel r) (fun fuel => sizeLine fuel r)
      fun line r fuel => if line = [] then sizeLine fuel r else some (.ok line,r) where
  ok hrun := by
    apply Follows.succ
    filter_upwards [hrun] with fuel hf
    simp only [sizeLine,hf]
  error hrun := by
    apply eventually_of_succ
    filter_upwards [hrun] with fuel hf
    simp only [sizeLine,hf,id]

theorem sizeLine_agrees (hR : Shadows R) (h : R k r r') :
    Agrees R k (fun _ => 1) (fun fuel => sizeLine fuel r) fun fuel => sizeLine fuel r' := by
  induction k using Nat.strong_induction_on generalizing r r' with
  | _ k ih =>
    refine (readHeaderLine_agrees hR h).chain id (sizeLine_chains r) (sizeLine_chains r')
      fun line r1 r1' j h1 hj => ?_
    by_cases hnil : line = []
    · simp only [if_pos hnil]
      exact (ih j (by omega) h1).mono (by omega)
    · simp only [if_neg hnil]
      exact .of_ok h1 hj

/-- A read of chunk data that was interrupted leaves the first reader within the chunk, and the
second before the size line that announces it. -/
inductive Beside (R : ℕ → ρ → ρ → Prop) : ℕ → ChunkedReader ρ → ChunkedReader ρ → Prop
  | same {k : ℕ} {r r' : ρ} (remaining : ℕ) (done : Bool) (h : R k r r') :
      Beside R k ⟨r,remaining,done⟩ ⟨r',remaining,done⟩
  | ahead {j k : ℕ} {r r' r1' : ρ} (line : Text) (size : ℕ) (hself : R j r' r')
      (hline : ∀ᶠ fuel in atTop, sizeLine fuel r' = some (.ok line,r1'))
      (hsize : fromStrRadix 16 (trim (splitFirst ';' line)) = some (size+1)) (h : R k r r1') :
      Beside R k ⟨r,size+1,false⟩ ⟨r',0,false⟩

/-- What becomes of the bytes of a chunk, of which `remaining` were left. -/
def dataNext (remaining : ℕ) (done : Bool) : List UInt8 → ρ → ℕ → Run (ChunkedReader ρ) (List UInt8)
  | [], r => fun _ => some (.error ⟨.unexpectedEof,"chunk body truncated"⟩,⟨r,remaining,done⟩)
  | b :: bs, r => fun fuel =>
    if remaining-(bs.length+1) = 0 then
      match readExact fuel r 2 [] with
      | none => none
      | some (.error e,r) => some (.error e,⟨r,0,done⟩)
      | some (.ok _,r) => some (.ok (b :: bs),⟨r,0,done⟩)
    else some (.ok (b :: bs),⟨r,remaining-(bs.length+1),done⟩)

theorem readData_chains (remaining n : ℕ) (done : Bool) (r : ρ) :
    Chains (fun r => ⟨r,remaining,done⟩) (fun fuel => Read.read fuel r (min remaining n))
      (fun fuel => readData fuel ⟨r,remaining,done⟩ n) (dataNext remaining done) where
  ok {xs r1} hrun := by
    apply Follows.of_eq
    filter_upwards [hrun] with fuel hf
    cases xs with
    | nil => simp only [readData,hf,dataNext]
    | cons x xs =>
      by_cases hz : remaining-(xs.length+1) = 0
      · cases hexact : readExact fuel r1 2 [] with
        | none => simp only [readData,hf,dataNext,hz,if_true,hexact]
        | some t =>
          obtain ⟨res,r2⟩ := t
          cases res with
          | ok ys => simp only [readData,hf,dataNext,hz,if_true,hexact]
          | error e => simp only [readData,hf,dataNext,hz,if_true,hexact]
      · simp only [readData,hf,dataNext,if_neg hz]
  error hrun := by
    filter_upwards [hrun] with fuel hf
    simp only [readData,hf]

theorem dataNext_chains {remaining : ℕ} (done : Bool) {b : UInt8} {bs : List UInt8}
    (hz : remaining-(bs.length+1) = 0) (r : ρ) :
    Chains (fun r => ⟨r,0,done⟩) (fun fuel => readExact fuel r 2 [])
      (dataNext remaining done (b :: bs) r) fun _ r _ => some (.ok (b :: bs),⟨r,0,done⟩) where
  ok hrun := by
    apply Follows.of_eq
    filter_upwards [hrun] with fuel hf
    simp only [dataNext,hz,if_true,hf]
  error hrun := by
    filter_upwards [hrun] with fuel hf
    simp only [dataNext,hz,if_true,hf]

theorem dataNext_agrees (hR : Shadows R) (remaining : ℕ) (done : Bool) (xs : List UInt8) {j : ℕ}
    (h : R j r r') (hj : j+xs.length ≤ k) :
    Agrees (Beside R) k List.length (dataNext remaining done xs r) (dataNext remaining done xs r') := by
  cases xs with
  | nil => exact .of_error (.same _ _ h) hj (by decide)
  | cons x xs =>
    by_cases hz : remaining-(xs.length+1) = 0
    · have hexact : Agrees R k (fun _ => (x :: xs).length) (fun fuel => readExact fuel r 2 [])
          fun fuel => readExact fuel r' 2 [] :=
        (hR.readExact 2 [] h).spend (by omega) fun _ => by omega
      exact hexact.chain (.same 0 done) (dataNext_chains done hz r) (dataNext_chains done hz r')
        fun _ r1 r1' i h1 hi => .of_ok (.same _ _ h1) hi
    · simp only [dataNext,if_neg hz]
      exact .of_ok (.same _ _ h) hj

theorem readData_answers (hR : Shadows R) (remaining n : ℕ) (done : Bool) (h : R k r r') :
    Agrees (Beside R) k List.length (fun fuel => readData fuel ⟨r,remaining,done⟩ n)
      (fun fuel => readData fuel ⟨r',remaining,done⟩ n) ∨
    ∃ e r1 j, (∀ᶠ fuel in atTop, readData fuel ⟨r,remaining,done⟩ n =
        some (.error e,⟨r1,remaining,done⟩)) ∧ e.kind = .interrupted ∧ R j r1 r' ∧ j < k := by
  have hc := readData_chains (ρ := ρ) remaining n done
  cases hR.read (min remaining n) h with
  | interrupted e r1 j hrun he h1 hj => exact .inr ⟨e,r1,j,(hc r).error hrun,he,h1,hj⟩
  | same hsame =>
    exact .inl (hsame.chain (.same remaining done) (hc r) (hc r') fun xs r1 r1' j h1 hj =>
      dataNext_agrees hR remaining done xs h1 hj)

theorem read_within (fuel : ℕ) (r : ρ) {remaining n : ℕ} (hr : remaining ≠ 0) (hn : n ≠ 0) :
    read fuel ⟨r,remaining,false⟩ n = readData fuel ⟨r,remaining,false⟩ n := by
  simp only [read,Bool.false_eq_true,hn,or_self,if_false,if_neg hr]

/-- What becomes of a size line. -/
def sizeNext (n : ℕ) (line : Text) (r : ρ) : ℕ → Run (ChunkedReader ρ) (List UInt8) :=
  match fromStrRadix 16 (trim (splitFirst ';' line)) with
  | none => fun _ =>
    some (.error ⟨.invalidData,"bad chunk size: " ++ debugText line⟩,⟨r,0,false⟩)
  | some 0 => fun _ => some (.ok [],⟨r,0,true⟩)
  | some (size+1) => fun fuel => readData fuel ⟨r,size+1,false⟩ n

theorem read_chains {n : ℕ} (hn : n ≠ 0) (r : ρ) :
    Chains (fun r => ⟨r,0,false⟩) (fun fuel => sizeLine fuel r) (fun fuel => read fuel ⟨r,0,false⟩ n)
      (sizeNext n) where
  ok {line r1} hrun := by
    have hcond : ¬(false = true ∨ n = 0) := by simpa using hn
    apply Follows.of_eq
    filter_upwards [hrun] with fuel hf
    cases hsize : fromStrRadix 16 (trim (splitFirst ';' line)) with
    | none => simp only [read,if_neg hcond,if_true,hf,sizeNext,hsize]
    | some size =>
      cases size with
      | zero => simp only [read,if_neg hcond,if_true,hf,sizeNext,hsize]
      | succ size => simp only [read,if_neg hcond,if_true,hf,sizeNext,hsize]
  error hrun := by
    have hcond : ¬(false = true ∨ n = 0) := by simpa using hn
    filter_upwards [hrun] with fuel hf
    simp only [read,if_neg hcond,if_true,hf]

theorem sizeNext_data {n size : ℕ} {line : Text}
    (hsize : fromStrRadix 16 (trim (splitFirst ';' line)) = some (size+1)) (r : ρ) :
    sizeNext n line r = fun fuel => readData fuel ⟨r,size+1,false⟩ n := by
  simp only [sizeNext,hsize]

theorem read_next_answers (hR : Shadows R) {n : ℕ} (hn : n ≠ 0) (h : R k r r') :
    Answers (Beside R) k ⟨r',0,false⟩ (fun fuel => read fuel ⟨r,0,false⟩ n)
      fun fuel => read fuel ⟨r',0,false⟩ n := by
  have hc := read_chains (ρ := ρ) hn
  cases sizeLine_agrees hR h with
  | error e r1 r1' j hrun hrun' h1 hj he =>
    exact .same (.error e _ _ j ((hc r).error hrun) ((hc r').error hrun') (.same _ _ h1) hj he)
  | ok line r1 r1' j hrun hrun' h1 hj =>
    have hl := (hc r).ok hrun
    have hl' := (hc r').ok hrun'
    cases hsize : fromStrRadix 16 (trim (splitFirst ';' line)) with
    | none =>
      simp only [sizeNext,hsize] at hl hl'
      exact .same ((Agrees.of_error (.same _ _ h1) (by omega) (by simp)).follow hl hl')
    | some size =>
      cases size with
      | zero =>
        simp only [sizeNext,hsize] at hl hl'
        exact .same ((Agrees.of_ok (.same _ _ h1) (by simp; omega)).follow hl hl')
      | succ size =>
        rw [sizeNext_data hsize] at hl hl'
        rcases readData_answers hR (size+1) n false h1 with hsame|⟨e,r2,i,hdata,he,h2,hi⟩
        · exact .same ((hsame.mono (by omega)).follow hl hl')
        · obtain ⟨m,hself⟩ := hR.self h
          exact .interrupted e ⟨r2,size+1,false⟩ i (hl _ hdata) he
            (.ahead line size hself hrun' hsize h2) (by omega)

/-- The reader of a chunked body can be interrupted within the data of a chunk, and reads on
there. -/
theorem shadows (hR : Shadows R) : Shadows (Beside R) where
  self := by
    rintro k _ _ (⟨remaining,done,h⟩|⟨line,size,hself,-,-,-⟩)
    · obtain ⟨j,hj⟩ := hR.self h
      exact ⟨j,.same remaining done hj⟩
    · exact ⟨_,.same 0 false hself⟩
  read := by
    intro k c c' n h
    by_cases hn : n = 0
    · refine .same (.ok [] c c' k (.of_forall fun fuel => ?_) (.of_forall fun fuel => ?_) h le_rfl)
      · simp only [Readers.Read.read,read,hn,or_true,if_true]
      · simp only [Readers.Read.read,read,hn,or_true,if_true]
    cases h with
    | same remaining done h =>
      cases done with
      | true =>
        refine .same (.ok [] _ _ k (.of_forall fun fuel => ?_) (.of_forall fun fuel => ?_)
          (.same remaining true h) le_rfl)
        · simp only [Readers.Read.read,read,true_or,if_true]
        · simp only [Readers.Read.read,read,true_or,if_true]
      | false =>
        by_cases hr : remaining = 0
        · subst hr
          exact read_next_answers hR hn h
        · have hl (r : ρ) := Follows.of_eq (.of_forall fun fuel => read_within fuel r hr hn)
          rcases readData_answers hR remaining n false h with hsame|⟨e,r1,j,hdata,he,h1,hj⟩
          · exact .same (hsame.follow (hl _) (hl _))
          · exact .interrupted e ⟨r1,remaining,false⟩ j (hl _ _ hdata) he (.same _ _ h1) hj
    | ahead line size hself hline hsize h =>
      have hl (r : ρ) :=
        Follows.of_eq (.of_forall fun fuel => read_within fuel r (Nat.succ_ne_zero size) hn)
      have hl' := (read_chains hn _).ok hline
      rw [sizeNext_data hsize] at hl'
      rcases readData_answers hR (size+1) n false h with hsame|⟨e,r1,j,hdata,he,h1,hj⟩
      · exact .same (hsame.follow (hl _) hl')
      · exact .interrupted e ⟨r1,size+1,false⟩ j (hl _ _ hdata) he
          (.ahead line size hself hline hsize h1) hj

end ChunkedReader
end Robocol
