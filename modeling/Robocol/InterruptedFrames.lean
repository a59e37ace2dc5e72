import Robocol.Interruptions
import Robocol.VideoStream

/-! The frame loop over a stream with interruptions, beside the same stream without them. Only
the search for a delimiter does not read on after an interruption. -/
namespace Robocol
namespace MjpegStream

open Filter Readers StdText HeaderLines Borders

section Bodies

variable {ρ : Type} [BufRead ρ] {delim P A S S' : List UInt8} {r r' r1 r1' r2 : ρ}

/-- The buffers of a reader give these bytes, in non-empty pieces, and then it is left as the
second. -/
inductive Gives : ρ → List UInt8 → ρ → Prop
  | refl (r : ρ) : Gives r [] r
  | fill {r r1 r2 : ρ} (xs S : List UInt8)
      (hfill : ∀ᶠ fuel in atTop, BufRead.fillBuf fuel r = some (.ok xs,r1)) (hxs : xs ≠ [])
      (h : Gives (BufRead.consume r1 xs.length) S r2) : Gives r (xs ++ S) r2

/-- The bytes that come before an interruption do not complete the delimiter. -/
def CutShort (delim : List UInt8) (r : ρ) : Prop :=
  ∃ S r1 e r2, Gives r S r1 ∧ ¬delim <:+: S ∧
    (∀ᶠ fuel in atTop, BufRead.fillBuf fuel r1 = some (.error e,r2)) ∧ e.kind = .interrupted

/-- The delimiter comes, and before it no more than a frame may have. -/
def Whole (delim : List UInt8) (r : ρ) : Prop :=
  ∃ S i r1, Gives r S r1 ∧ FirstAt delim S i ∧ i ≤ MAX_FRAME_BYTES

/-- A frame body is interrupted that is whole without the interruptions. -/
def Dropped (delim : List UInt8) (r r' : ρ) : Prop := CutShort delim r ∧ Whole delim r'

theorem Gives.prefix_or (h : Gives r S r1) (h' : Gives r S' r1') : S <+: S' ∨ S' <+: S := by
  induction h generalizing S' with
  | refl r => exact .inl List.nil_prefix
  | fill xs S hfill hxs h ih =>
    cases h' with
    | refl => exact .inr List.nil_prefix
    | fill ys T hfill' hys h' =>
      have heq := eventually_unique hfill hfill'
      simp only [Prod.mk.injEq,Except.ok.injEq] at heq
      obtain ⟨rfl,rfl⟩ := heq
      simpa only [List.prefix_append_right_inj] using ih h'

theorem Gives.shadow {R : ℕ → ρ → ρ → Prop} (hR : BufShadows R) {k : ℕ} (hr : R k r r')
    (h : Gives r S r1) : ∃ r1', Gives r' S r1' := by
  induction h generalizing k r' with
  | refl r => exact ⟨r',.refl r'⟩
  | fill xs S hfill hxs h ih =>
    cases hR.fillBuf hr with
    | interrupted e r2 j hrun he h2 hj => cases eventually_unique hfill hrun
    | error e r2 r2' j hrun hrun' h2 hj he => cases eventually_unique hfill hrun
    | ok ys r2 r2' hrun hrun' hc =>
      have heq := eventually_unique hfill hrun
      simp only [Prod.mk.injEq,Except.ok.injEq] at heq
      obtain ⟨rfl,rfl⟩ := heq
      obtain ⟨j,hj,-⟩ := hc xs.length le_rfl
      obtain ⟨r3',h3⟩ := ih hj
      exact ⟨r3',.fill xs S hrun' hxs h3⟩

theorem noEnd_iff : NoEnd delim S ↔ ¬delim <:+: S := by
  constructor
  · rintro h ⟨s,t,rfl⟩
    exact h (s ++ delim) (List.prefix_append _ t) (List.suffix_append s delim)
  · rintro h Q hQ hs
    exact h (hs.isInfix.trans hQ.isInfix)

theorem FirstEnd.firstAt {T : List UInt8} (h : FirstEnd A delim) :
    FirstAt delim (A ++ delim ++ T) A.length := by
  refine ⟨?_,fun j hj hocc => ?_⟩
  · rw [List.append_assoc,List.drop_left]
    exact List.prefix_append delim T
  · obtain ⟨U,hU⟩ := hocc
    have htake : A.take j = (A ++ delim ++ T).take j := by
      rw [List.append_assoc,List.take_append_of_le_length (Nat.le_of_lt hj)]
    have hcut : A.take j ++ delim ++ U = A ++ delim ++ T := by
      rw [List.append_assoc,hU,htake,List.take_append_drop]
    have hle : (A.take j ++ delim).length ≤ (A ++ delim).length := by simp
    have hpre : A.take j ++ delim <+: A ++ delim :=
      List.prefix_of_prefix_length_le ⟨U,hcut⟩ (List.prefix_append _ T) hle
    have hlen := congrArg List.length (h _ hpre (List.suffix_append _ _))
    simp only [List.length_append,List.length_take] at hlen
    omega

/-- What the search does once some bytes are scanned. -/
def scanNext (delim : List UInt8) (failure : List ℕ) (xs : List UInt8) (r : ρ) :
    Scan → ℕ → Run ρ (List UInt8)
  | .found consumed out => fun _ => some (.ok out,BufRead.consume r consumed)
  | .overflow consumed => fun _ =>
    some (.error ⟨.invalidData,"frame exceeds size cap"⟩,BufRead.consume r consumed)
  | .more out matched => fun fuel =>
    readUntilDelimFrom delim failure fuel (BufRead.consume r xs.length) out matched

theorem readUntilDelimFrom_scans {failure : List ℕ} {xs out : List UInt8} {m : ℕ} {scan : Scan}
    (hfill : ∀ᶠ fuel in atTop, BufRead.fillBuf fuel r = some (.ok xs,r1)) (hxs : xs ≠ [])
    (hscan : scanBytes delim failure xs 0 out m = some scan) :
    Follows (fun fuel => readUntilDelimFrom delim failure fuel r out m)
      (scanNext delim failure xs r1 scan) := by
  apply Follows.succ
  filter_upwards [hfill] with fuel hf
  cases scan with
  | found consumed out => simp only [readUntilDelimFrom,hf,if_neg hxs,hscan,scanNext]
  | overflow consumed => simp only [readUntilDelimFrom,hf,if_neg hxs,hscan,scanNext]
  | more out matched => simp only [readUntilDelimFrom,hf,if_neg hxs,hscan,scanNext]

theorem readUntilDelimFrom_error {failure : List ℕ} {out : List UInt8} {m : ℕ} {e : IoError}
    (hfill : ∀ᶠ fuel in atTop, BufRead.fillBuf fuel r = some (.error e,r1)) :
    ∀ᶠ fuel in atTop, readUntilDelimFrom delim failure fuel r out m = some (.error e,r1) := by
  apply eventually_of_succ
  filter_upwards [hfill] with fuel hf
  simp only [readUntilDelimFrom,hf]

theorem readUntilDelimFrom_end {failure : List ℕ} {out : List UInt8} {m : ℕ}
    (hfill : ∀ᶠ fuel in atTop, BufRead.fillBuf fuel r = some (.ok [],r1)) :
    ∀ᶠ fuel in atTop, readUntilDelimFrom delim failure fuel r out m =
      some (.error ⟨.unexpectedEof,"stream ended mid-frame"⟩,r1) := by
  apply eventually_of_succ
  filter_upwards [hfill] with fuel hf
  simp only [readUntilDelimFrom,hf,if_true]

theorem Gives.found {failure : List ℕ} (ht : TableTo delim failure delim.length)
    (h : Gives r S r1) {out : List UInt8} {m : ℕ} (hscan : Scanned delim P out m)
    (hopen : NoEnd delim P) (hcap : out.length ≤ MAX_FRAME_BYTES) (hfirst : FirstEnd A delim)
    (hend : A ++ delim <+: P ++ S) (hA : A.length ≤ MAX_FRAME_BYTES) :
    ∃ r2, ∀ᶠ fuel in atTop, readUntilDelimFrom delim failure fuel r out m = some (.ok A,r2) := by
  induction h generalizing P out m with
  | refl r =>
    rw [List.append_nil] at hend
    exact absurd (List.suffix_append A delim) (hopen _ hend)
  | @fill r r1 r2 xs S hfill hxs h ih =>
    obtain ⟨s,hrun,hs⟩ := scanBytes_spec ht xs 0 hscan hopen hcap
    cases hs with
    | found ys zs B hcut hB hfirst' hcap' =>
      have hpre : B ++ delim <+: P ++ (xs ++ S) := by
        rw [← hB,hcut]
        exact ⟨zs ++ S,by simp⟩
      obtain rfl := hfirst'.unique hfirst hpre hend
      exact ⟨_,readUntilDelimFrom_scans hfill hxs hrun _ (.of_forall fun _ => rfl)⟩
    | overflow ys zs out' m' hcut hnone hscanned hover =>
      have hpre : P ++ ys <+: P ++ (xs ++ S) := ⟨zs ++ S,by simp [hcut]⟩
      have hle := hscanned.length_le (hnone.le hpre hend)
      omega
    | more out' m' hnone hscanned hcap' =>
      rw [← List.append_assoc] at hend
      obtain ⟨r3,hrest⟩ := ih hscanned hnone hcap' hend
      exact ⟨r3,readUntilDelimFrom_scans hfill hxs hrun _ hrest⟩

theorem Gives.stops {failure : List ℕ} (ht : TableTo delim failure delim.length)
    (h : Gives r S r1) {e : IoError}
    (herr : ∀ᶠ fuel in atTop, BufRead.fillBuf fuel r1 = some (.error e,r2))
    {out : List UInt8} {m : ℕ} (hscan : Scanned delim P out m) (hopen : NoEnd delim P)
    (hcap : out.length ≤ MAX_FRAME_BYTES) (hnone : NoEnd delim (P ++ S))
    (hend : P ++ S <+: A ++ delim) (hA : A.length ≤ MAX_FRAME_BYTES) :
    ∀ᶠ fuel in atTop, readUntilDelimFrom delim failure fuel r out m = some (.error e,r2) := by
  induction h generalizing P out m with
  | refl r => exact readUntilDelimFrom_error herr
  | @fill r r1 r3 xs S hfill hxs h ih =>
    obtain ⟨s,hrun,hs⟩ := scanBytes_spec ht xs 0 hscan hopen hcap
    cases hs with
    | found ys zs B hcut hB hfirst' hcap' =>
      have hpre : B ++ delim <+: P ++ (xs ++ S) := by
        rw [← hB,hcut]
        exact ⟨zs ++ S,by simp⟩
      exact absurd (List.suffix_append B delim) (hnone _ hpre)
    | overflow ys zs out' m' hcut hnone' hscanned hover =>
      have hpre : P ++ ys <+: P ++ (xs ++ S) := ⟨zs ++ S,by simp [hcut]⟩
      have hle := hscanned.length_le (hpre.trans hend)
      omega
    | more out' m' hnone' hscanned hcap' =>
      rw [← List.append_assoc] at hnone hend
      exact readUntilDelimFrom_scans hfill hxs hrun _ (ih herr hscanned hnone' hcap' hnone hend)

/-- What the search comes to beside one without interruptions: the delimiter on both, the same
failure on both, or an interruption behind bytes without a delimiter. -/
inductive Hunt (R : ℕ → ρ → ρ → Prop) (k : ℕ) (delim P : List UInt8) (r : ρ)
    (run run' : ℕ → Run ρ (List UInt8)) : Prop
  | found (A S : List UInt8) (r1 r1' r2 : ρ) (j : ℕ)
      (hrun : ∀ᶠ fuel in atTop, run fuel = some (.ok A,r1))
      (hrun' : ∀ᶠ fuel in atTop, run' fuel = some (.ok A,r1')) (h : R j r1 r1') (hj : j ≤ k)
      (hgives : Gives r S r2) (hend : A ++ delim <+: P ++ S) (hfirst : FirstEnd A delim)
      (hcap : A.length ≤ MAX_FRAME_BYTES)
  | failed (e : IoError) (r1 r1' : ρ) (hrun : ∀ᶠ fuel in atTop, run fuel = some (.error e,r1))
      (hrun' : ∀ᶠ fuel in atTop, run' fuel = some (.error e,r1'))
  | interrupted (e : IoError) (S : List UInt8) (r1 r2 : ρ)
      (hrun : ∀ᶠ fuel in atTop, run fuel = some (.error e,r2)) (hgives : Gives r S r1)
      (hnone : NoEnd delim (P ++ S))
      (herr : ∀ᶠ fuel in atTop, BufRead.fillBuf fuel r1 = some (.error e,r2))
      (he : e.kind = .interrupted)

theorem Hunt.fill {R : ℕ → ρ → ρ → Prop} {j k : ℕ} {xs : List UInt8}
    {run run' f f' : ℕ → Run ρ (List UInt8)} (hjk : j ≤ k) (hxs : xs ≠ [])
    (hfill : ∀ᶠ fuel in atTop, BufRead.fillBuf fuel r = some (.ok xs,r1))
    (h : Hunt R j delim (P ++ xs) (BufRead.consume r1 xs.length) run run') (hf : Follows f run)
    (hf' : Follows f' run') : Hunt R k delim P r f f' := by
  cases h with
  | found A S r2 r2' r3 i hrun hrun' h hi hgives hend hfirst hcap =>
    rw [List.append_assoc] at hend
    exact .found A (xs ++ S) r2 r2' r3 i (hf _ hrun) (hf' _ hrun') h (hi.trans hjk)
      (.fill xs S hfill hxs hgives) hend hfirst hcap
  | failed e r2 r2' hrun hrun' => exact .failed e r2 r2' (hf _ hrun) (hf' _ hrun')
  | interrupted e S r2 r3 hrun hgives hnone herr he =>
    rw [List.append_assoc] at hnone
    exact .interrupted e (xs ++ S) r2 r3 (hf _ hrun) (.fill xs S hfill hxs hgives) hnone herr he

theorem readUntilDelimFrom_hunt {R : ℕ → ρ → ρ → Prop} (hR : BufShadows R) {failure : List ℕ}
    (ht : TableTo delim failure delim.length) {k : ℕ} (hr : R k r r') {out : List UInt8} {m : ℕ}
    (hscan : Scanned delim P out m) (hopen : NoEnd delim P) (hcap : out.length ≤ MAX_FRAME_BYTES) :
    Hunt R k delim P r (fun fuel => readUntilDelimFrom delim failure fuel r out m)
      fun fuel => readUntilDelimFrom delim failure fuel r' out m := by
  induction k using Nat.strong_induction_on generalizing P out m r r' with
  | _ k ih =>
    cases hR.fillBuf hr with
    | interrupted e r1 j hrun he h1 hj =>
      exact .interrupted e [] r r1 (readUntilDelimFrom_error hrun) (.refl r) (by simpa using hopen)
        hrun he
    | error e r1 r1' j hrun hrun' h1 hj he =>
      exact .failed e r1 r1' (readUntilDelimFrom_error hrun) (readUntilDelimFrom_error hrun')
    | ok xs r1 r1' hrun hrun' hc =>
      by_cases hxs : xs = []
      · subst hxs
        exact .failed _ r1 r1' (readUntilDelimFrom_end hrun) (readUntilDelimFrom_end hrun')
      · obtain ⟨s,hscans,hs⟩ := scanBytes_spec ht xs 0 hscan hopen hcap
        have hl := readUntilDelimFrom_scans hrun hxs hscans
        have hl' := readUntilDelimFrom_scans hrun' hxs hscans
        cases hs with
        | found ys zs A hcut hA hfirst hcap' =>
          have hle : 0+ys.length ≤ xs.length := by simp [hcut]
          obtain ⟨j,h2,hj⟩ := hc _ hle
          have hend : A ++ delim <+: P ++ (xs ++ []) := by
            rw [← hA,hcut]
            exact ⟨zs,by simp⟩
          exact .found A (xs ++ []) _ _ _ j (hl _ (.of_forall fun _ => rfl))
            (hl' _ (.of_forall fun _ => rfl)) h2 (by omega) (.fill xs [] hrun hxs (.refl _)) hend
            hfirst hcap'
        | overflow ys zs out' m' hcut hnone hscanned hover =>
          exact .failed _ _ _ (hl _ (.of_forall fun _ => rfl)) (hl' _ (.of_forall fun _ => rfl))
        | more out' m' hnone hscanned hcap' =>
          obtain ⟨j,h2,hj⟩ := hc xs.length le_rfl
          have hpos := List.length_pos_iff.mpr hxs
          exact (ih j (by omega) h2 hscanned hnone hcap').fill (by omega) hxs hrun hl hl'

/-- A frame body on both readers. -/
inductive Body (R : ℕ → ρ → ρ → Prop) (k : ℕ) (delim : List UInt8) (r r' : ρ) : Prop
  | whole (A : List UInt8) (r1 r1' : ρ) (j : ℕ)
      (hrun : ∀ᶠ fuel in atTop, readUntilDelim fuel r delim = some (.ok A,r1))
      (hrun' : ∀ᶠ fuel in atTop, readUntilDelim fuel r' delim = some (.ok A,r1')) (h : R j r1 r1')
      (hj : j ≤ k) (hkept : ¬Dropped delim r r')
  | failed (e e' : IoError) (r1 r1' : ρ)
      (hrun : ∀ᶠ fuel in atTop, readUntilDelim fuel r delim = some (.error e,r1))
      (hrun' : ∀ᶠ fuel in atTop, readUntilDelim fuel r' delim = some (.error e',r1'))
      (hkept : ¬Dropped delim r r')
  | dropped (e : IoError) (A : List UInt8) (r1 r1' : ρ) (j : ℕ)
      (hrun : ∀ᶠ fuel in atTop, readUntilDelim fuel r delim = some (.error e,r1))
      (hrun' : ∀ᶠ fuel in atTop, readUntilDelim fuel r' delim = some (.ok A,r1'))
      (h : R j r1' r1') (hdrop : Dropped delim r r')

theorem readUntilDelim_follows {t : List ℕ} (ht : kmpFailure delim = some t) (r : ρ) :
    Follows (fun fuel => readUntilDelim fuel r delim)
      fun fuel => readUntilDelimFrom delim t fuel r [] 0 :=
  .of_eq (.of_forall fun fuel => by simp only [readUntilDelim,ht])

theorem readUntilDelim_hunt {R : ℕ → ρ → ρ → Prop} (hR : BufShadows R) (hd : delim ≠ []) {k : ℕ}
    (hr : R k r r') : Hunt R k delim [] r (fun fuel => readUntilDelim fuel r delim)
      fun fuel => readUntilDelim fuel r' delim := by
  obtain ⟨t,ht,-,htable⟩ := kmpFailure_table delim hd
  have h := readUntilDelimFrom_hunt hR htable hr (Scanned.start hd) (.nil hd) (Nat.zero_le _)
  have hf := readUntilDelim_follows (ρ := ρ) ht
  cases h with
  | found A S r1 r1' r2 j hrun hrun' h hj hgives hend hfirst hcap =>
    exact .found A S r1 r1' r2 j (hf r _ hrun) (hf r' _ hrun') h hj hgives hend hfirst hcap
  | failed e r1 r1' hrun hrun' => exact .failed e r1 r1' (hf r _ hrun) (hf r' _ hrun')
  | interrupted e S r1 r2 hrun hgives hnone herr he =>
    exact .interrupted e S r1 r2 (hf r _ hrun) hgives hnone herr he

theorem Whole.of_found {r2 : ρ} (hgives : Gives r S r2) (hend : A ++ delim <+: [] ++ S)
    (hfirst : FirstEnd A delim) (hcap : A.length ≤ MAX_FRAME_BYTES) : Whole delim r := by
  obtain ⟨T,rfl⟩ := hend
  exact ⟨_,A.length,r2,hgives,hfirst.firstAt,hcap⟩

theorem Whole.reads (hd : delim ≠ []) (h : Whole delim r) :
    ∃ A r1, ∀ᶠ fuel in atTop, readUntilDelim fuel r delim = some (.ok A,r1) := by
  obtain ⟨S,i,r1,hgives,hi,hcap⟩ := h
  obtain ⟨t,ht,-,htable⟩ := kmpFailure_table delim hd
  obtain ⟨hcut,hlen,hfirst⟩ := hi.cut hd
  have hend : S.take i ++ delim <+: [] ++ S := ⟨S.drop (i+delim.length),hcut.symm⟩
  obtain ⟨r2,hrun⟩ := hgives.found htable (Scanned.start hd) (.nil hd) (Nat.zero_le _) hfirst hend
    (hlen.symm ▸ hcap)
  exact ⟨_,r2,readUntilDelim_follows ht r _ hrun⟩

theorem Dropped.fails {R : ℕ → ρ → ρ → Prop} (hR : BufShadows R) (hd : delim ≠ []) {k : ℕ}
    (hr : R k r r') (h : Dropped delim r r') :
    ∃ e r1, ∀ᶠ fuel in atTop, readUntilDelim fuel r delim = some (.error e,r1) := by
  obtain ⟨⟨S,r1,e,r2,hgives,hnone,herr,-⟩,⟨S',i,r3,hgives',hi,hcap⟩⟩ := h
  obtain ⟨t,ht,-,htable⟩ := kmpFailure_table delim hd
  obtain ⟨hcut,hlen,-⟩ := hi.cut hd
  have hend : S'.take i ++ delim <+: S' := ⟨S'.drop (i+delim.length),hcut.symm⟩
  obtain ⟨r4,hboth⟩ := hgives.shadow hR hr
  have hnone' := noEnd_iff.mpr hnone
  have hpre : S <+: S'.take i ++ delim := by
    rcases hboth.prefix_or hgives' with hS|hS
    · exact hnone'.le hS hend
    · exact absurd (List.suffix_append _ _) (hnone' _ (hend.trans hS))
  exact ⟨e,r2,readUntilDelim_follows ht r _ (hgives.stops htable herr (Scanned.start hd) (.nil hd)
    (Nat.zero_le _) hnone' hpre (hlen.symm ▸ hcap))⟩

theorem body_cases {R : ℕ → ρ → ρ → Prop} (hR : BufShadows R) (hd : delim ≠ []) {k : ℕ}
    (hr : R k r r') : Body R k delim r r' := by
  have hsound {e' : IoError} {r3 : ρ}
      (hrun' : ∀ᶠ fuel in atTop, readUntilDelim fuel r' delim = some (.error e',r3)) :
      ¬Dropped delim r r' := by
    intro hdrop
    obtain ⟨A,r4,hreads⟩ := hdrop.2.reads hd
    cases eventually_unique hrun' hreads
  cases readUntilDelim_hunt hR hd hr with
  | found A S r1 r1' r2 j hrun hrun' h hj hgives hend hfirst hcap =>
    refine .whole A r1 r1' j hrun hrun' h hj fun hdrop => ?_
    obtain ⟨e,r3,hfails⟩ := hdrop.fails hR hd hr
    cases eventually_unique hrun hfails
  | failed e r1 r1' hrun hrun' => exact .failed e e r1 r1' hrun hrun' (hsound hrun')
  | interrupted e S r1 r2 hrun hgives hnone herr he =>
    obtain ⟨i,hself⟩ := hR.self hr
    have hshort : CutShort delim r := ⟨S,r1,e,r2,hgives,noEnd_iff.mp hnone,herr,he⟩
    cases readUntilDelim_hunt hR hd hself with
    | found A S' r3 r3' r4 j hrun' hsame h hj hgives' hend hfirst hcap =>
      obtain ⟨-,rfl⟩ := Prod.mk.inj (eventually_unique hrun' hsame)
      exact .dropped e A r2 r3 j hrun hrun' h ⟨hshort,.of_found hgives' hend hfirst hcap⟩
    | failed e' r3 r3' hrun' _ => exact .failed e e' r2 r3 hrun hrun' (hsound hrun')
    | interrupted e' S' r3 r4 hrun' hgives' hnone' herr' he' =>
      exact .failed e e' r2 r4 hrun hrun' (hsound hrun')

end Bodies

section Pump

variable {ρ : Type} [BufRead ρ] {delim jpeg : List UInt8} {cfg : StreamConfig} {r r' b b' b1 r1 : ρ}
  {s s1 : Shared} {n : Option ℕ} {delivered : Bool}

/-- The next frame would be sent, and is lost to an interruption of its body. -/
def Hit (delim : List UInt8) (r r' : ρ) (s : Shared) : Prop :=
  ∃ n b b', s.load.1 = false ∧ s.receiver ≠ some 0 ∧ Dropped delim b b' ∧
    (∀ᶠ fuel in atTop, skipPartHeaders fuel r none = some (.ok n,b)) ∧
    ∀ᶠ fuel in atTop, skipPartHeaders fuel r' none = some (.ok n,b')

/-- Some frame is lost: both loops come to it in step. -/
inductive Struck (delim : List UInt8) (cfg : StreamConfig) : ρ → ρ → Shared → Prop
  | here {r r' : ρ} {s : Shared} (h : Hit delim r r' s) : Struck delim cfg r r' s
  | later {r r' r1 r1' : ρ} {s s1 : Shared}
      (hround : ∀ᶠ fuel in atTop, pumpRound delim cfg fuel r s = some (.next r1 s1))
      (hround' : ∀ᶠ fuel in atTop, pumpRound delim cfg fuel r' s = some (.next r1' s1))
      (h : Struck delim cfg r1 r1' s1) : Struck delim cfg r r' s

theorem Hit.dropped (h : Hit delim r r' s)
    (hheads : ∀ᶠ fuel in atTop, skipPartHeaders fuel r none = some (.ok n,b))
    (hheads' : ∀ᶠ fuel in atTop, skipPartHeaders fuel r' none = some (.ok n,b')) :
    Dropped delim b b' := by
  obtain ⟨m,c,c',-,-,hdrop,hc,hc'⟩ := h
  cases eventually_unique hheads hc
  cases eventually_unique hheads' hc'
  exact hdrop

theorem pumpRound_stopped (hstop : s.load.1 = true) :
    ∀ᶠ fuel in atTop, pumpRound delim cfg fuel r s = some (.ended .stopped r s.load.2) :=
  .of_forall fun fuel => by simp only [pumpRound,hstop,if_true]

theorem pumpRound_headless {e : IoError} (hgo : s.load.1 = false)
    (hheads : ∀ᶠ fuel in atTop, skipPartHeaders fuel r none = some (.error e,b)) :
    ∀ᶠ fuel in atTop, pumpRound delim cfg fuel r s = some (.ended .broken b s.load.2) := by
  filter_upwards [hheads] with fuel hf
  simp only [pumpRound,hgo,Bool.false_eq_true,if_false,hf]

theorem pumpRound_cut (cfg : StreamConfig) {e : IoError} (hgo : s.load.1 = false)
    (hheads : ∀ᶠ fuel in atTop, skipPartHeaders fuel r none = some (.ok n,b))
    (hbody : ∀ᶠ fuel in atTop, readUntilDelim fuel b delim = some (.error e,b1)) :
    ∀ᶠ fuel in atTop, pumpRound delim cfg fuel r s = some (.ended .broken b1 s.load.2) := by
  filter_upwards [hheads,hbody] with fuel hf hg
  simp only [pumpRound,hgo,Bool.false_eq_true,if_false,hf,hg]

theorem pumpRound_read (cfg : StreamConfig) {line : Except IoError Text} (hgo : s.load.1 = false)
    (hheads : ∀ᶠ fuel in atTop, skipPartHeaders fuel r none = some (.ok n,b))
    (hbody : ∀ᶠ fuel in atTop, readUntilDelim fuel b delim = some (.ok jpeg,b1))
    (hline : ∀ᶠ fuel in atTop, readHeaderLine fuel b1 = some (line,r1)) :
    ∀ᶠ fuel in atTop, pumpRound delim cfg fuel r s =
      some (if (s.load.2.send (.frame cfg.source (trimCrlf jpeg))).1 = true
        then .next r1 (s.load.2.send (.frame cfg.source (trimCrlf jpeg))).2
        else .ended .refused r1 (s.load.2.send (.frame cfg.source (trimCrlf jpeg))).2) := by
  filter_upwards [hheads,hbody,hline] with fuel hf hg hh
  simp only [pumpRound,hgo,Bool.false_eq_true,if_false,hf,hg,hh]

/-- One round of both loops: the same frame is sent, or both end with nothing more sent, or the
frame is lost to an interruption. -/
inductive Rounds (R : ℕ → ρ → ρ → Prop) (k : ℕ) (delim : List UInt8) (cfg : StreamConfig)
    (r r' : ρ) (s : Shared) : Prop
  | next (r1 r1' : ρ) (s1 : Shared) (j : ℕ)
      (hrun : ∀ᶠ fuel in atTop, pumpRound delim cfg fuel r s = some (.next r1 s1))
      (hrun' : ∀ᶠ fuel in atTop, pumpRound delim cfg fuel r' s = some (.next r1' s1))
      (h : R j r1 r1') (hj : j < k) (hkept : ¬Hit delim r r' s)
  | ended (e e' : PumpEnd) (r1 r1' : ρ) (s1 s1' : Shared)
      (hrun : ∀ᶠ fuel in atTop, pumpRound delim cfg fuel r s = some (.ended e r1 s1))
      (hrun' : ∀ᶠ fuel in atTop, pumpRound delim cfg fuel r' s = some (.ended e' r1' s1'))
      (hsent : s1.sent = s1'.sent) (hkept : ¬Hit delim r r' s)
  | hit (e : PumpEnd) (r1 r1' : ρ) (s1 s1' : Shared) (f : VideoEvent) (j : ℕ)
      (hrun : ∀ᶠ fuel in atTop, pumpRound delim cfg fuel r s = some (.ended e r1 s1))
      (hrun' : ∀ᶠ fuel in atTop, pumpRound delim cfg fuel r' s = some (.next r1' s1'))
      (h : R j r1' r1') (hsent : s1.sent = s.sent) (hsent' : s1'.sent = s.sent ++ [f])
      (hhit : Hit delim r r' s)

theorem readHeaderLine_both {R : ℕ → ρ → ρ → Prop} (hR : BufShadows R) {k : ℕ} (h : R k r r') :
    ∃ line r1 r1' j, (∀ᶠ fuel in atTop, readHeaderLine fuel r = some (line,r1)) ∧
      (∀ᶠ fuel in atTop, readHeaderLine fuel r' = some (line,r1')) ∧ R j r1 r1' ∧ j ≤ k := by
  cases readHeaderLine_agrees hR.toShadows h with
  | ok line r1 r1' j hrun hrun' h1 hj => exact ⟨.ok line,r1,r1',j,hrun,hrun',h1,by omega⟩
  | error e r1 r1' j hrun hrun' h1 hj he => exact ⟨.error e,r1,r1',j,hrun,hrun',h1,hj⟩

theorem pumpRound_cases {R : ℕ → ρ → ρ → Prop} (hR : BufShadows R) (hd : delim ≠ [])
    (cfg : StreamConfig) {k : ℕ} (h : R k r r') (s : Shared) : Rounds R k delim cfg r r' s := by
  cases hgo : s.load.1 with
  | true =>
    refine .ended .stopped .stopped r r' _ _ (pumpRound_stopped hgo) (pumpRound_stopped hgo) rfl ?_
    rintro ⟨-,-,-,hgo',-⟩
    rw [hgo] at hgo'
    cases hgo'
  | false =>
    cases skipPartHeaders_agrees hR.toShadows none h with
    | error e b b' j hheads hheads' hb hj he =>
      refine .ended .broken .broken b b' _ _ (pumpRound_headless hgo hheads)
        (pumpRound_headless hgo hheads') rfl ?_
      rintro ⟨m,c,c',-,-,-,hc,-⟩
      cases eventually_unique hheads hc
    | ok n b b' j hheads hheads' hb hj =>
      cases body_cases hR hd hb with
      | failed e e' b1 b1' hbody hbody' hkept =>
        exact .ended .broken .broken b1 b1' _ _ (pumpRound_cut cfg hgo hheads hbody)
          (pumpRound_cut cfg hgo hheads' hbody') rfl fun hhit => hkept (hhit.dropped hheads hheads')
      | whole A b1 b1' i hbody hbody' hb1 hi hkept =>
        obtain ⟨line,r1,r1',l,hline,hline',hr1,hl⟩ := readHeaderLine_both hR hb1
        have hrun := pumpRound_read cfg hgo hheads hbody hline
        have hrun' := pumpRound_read cfg hgo hheads' hbody' hline'
        have hkept' : ¬Hit delim r r' s := fun hhit => hkept (hhit.dropped hheads hheads')
        by_cases hsent : (s.load.2.send (.frame cfg.source (trimCrlf A))).1 = true
        · rw [if_pos hsent] at hrun hrun'
          exact .next r1 r1' _ l hrun hrun' hr1 (by omega) hkept'
        · rw [if_neg hsent] at hrun hrun'
          exact .ended .refused .refused r1 r1' _ _ hrun hrun' rfl hkept'
      | dropped e A b1 b1' i hbody hbody' hb1 hdrop =>
        obtain ⟨line,r1,r1',l,hline,hsame,hr1,-⟩ := readHeaderLine_both hR hb1
        obtain ⟨-,rfl⟩ := Prod.mk.inj (eventually_unique hline hsame)
        have hrun := pumpRound_cut cfg hgo hheads hbody
        have hrun' := pumpRound_read cfg hgo hheads' hbody' hline
        by_cases hsent : (s.load.2.send (.frame cfg.source (trimCrlf A))).1 = true
        · obtain ⟨hrecv,hlist⟩ := send_accepted hsent
          rw [if_pos hsent] at hrun'
          exact .hit .broken b1 r1 _ _ _ l hrun hrun' hr1 rfl hlist
            ⟨n,b,b',hgo,hrecv,hdrop,hheads,hheads'⟩
        · obtain ⟨hrecv,hkeep⟩ := send_refused (by simpa using hsent)
          rw [if_neg hsent,hkeep] at hrun'
          refine .ended .broken .refused b1 r1 _ _ hrun hrun' rfl ?_
          rintro ⟨-,-,-,-,hne,-⟩
          exact hne hrecv

theorem pumpRound_sent {fuel : ℕ} {x : Round ρ} (h : pumpRound delim cfg fuel r s = some x) :
    s.sent <+: x.shared.sent := by
  rcases pumpRound_shared h with ⟨hshared,-⟩|⟨e,hshared,-⟩
  · rw [hshared]
    exact List.prefix_rfl
  · rw [hshared]
    by_cases hsent : (s.load.2.send e).1 = true
    · rw [(send_accepted hsent).2]
      exact List.prefix_append s.sent [e]
    · rw [(send_refused (by simpa using hsent)).2]
      exact List.prefix_rfl

theorem pumpLoop_sent {fuel : ℕ} {res : Except IoError Bool}
    (h : pumpLoop delim cfg fuel r s delivered = some (res,r1,s1)) : s.sent <+: s1.sent := by
  induction fuel generalizing r s delivered with
  | zero => cases h
  | succ fuel ih =>
    rw [pumpLoop_round] at h
    cases hround : pumpRound delim cfg fuel r s with
    | none => simp only [hround] at h; cases h
    | some x =>
      have hsent := pumpRound_sent hround
      cases x with
      | ended e r2 s2 =>
        simp only [hround,Option.some.injEq,Prod.mk.injEq] at h
        exact h.2.2 ▸ hsent
      | next r2 s2 =>
        simp only [hround] at h
        exact hsent.trans (ih h)

theorem pumpLoop_next (hround : ∀ᶠ fuel in atTop, pumpRound delim cfg fuel r s = some (.next r1 s1)) :
    Follows (fun fuel => pumpLoop delim cfg fuel r s delivered)
      fun fuel => pumpLoop delim cfg fuel r1 s1 true := by
  apply Follows.succ
  filter_upwards [hround] with fuel hf
  simp only [pumpLoop_round,hf]

theorem pumpLoop_ended {e : PumpEnd}
    (hround : ∀ᶠ fuel in atTop, pumpRound delim cfg fuel r s = some (.ended e r1 s1)) :
    ∀ᶠ fuel in atTop, pumpLoop delim cfg fuel r s delivered = some (.ok delivered,r1,s1) := by
  apply eventually_of_succ
  filter_upwards [hround] with fuel hf
  simp only [pumpLoop_round,hf]

theorem pumpLoop_ends {R : ℕ → ρ → ρ → Prop} (hR : BufShadows R) (hd : delim ≠ [])
    (cfg : StreamConfig) {k : ℕ} (h : R k r r') (s : Shared) (delivered : Bool) :
    ∃ out, ∀ᶠ fuel in atTop, pumpLoop delim cfg fuel r s delivered = some out := by
  induction k using Nat.strong_induction_on generalizing r r' s delivered with
  | _ k ih =>
    cases pumpRound_cases hR hd cfg h s with
    | ended e e' r1 r1' s1 s1' hrun => exact ⟨_,pumpLoop_ended hrun⟩
    | hit e r1 r1' s1 s1' f j hrun => exact ⟨_,pumpLoop_ended hrun⟩
    | next r1 r1' s1 j hrun hrun' h1 hj =>
      obtain ⟨out,hout⟩ := ih j hj h1 s1 true
      exact ⟨out,pumpLoop_next hrun out hout⟩

/-- The loops send the same exactly if no frame is lost, by induction on what the interrupted
reader has left. -/
theorem pumpLoop_struck {R : ℕ → ρ → ρ → Prop} (hR : BufShadows R) (hd : delim ≠ [])
    (cfg : StreamConfig) {k : ℕ} (h : R k r r') (s : Shared) (delivered : Bool) :
    ∃ out out', (∀ᶠ fuel in atTop, pumpLoop delim cfg fuel r s delivered = some out) ∧
      (∀ᶠ fuel in atTop, pumpLoop delim cfg fuel r' s delivered = some out') ∧
      (out.2.2.sent = out'.2.2.sent ↔ ¬Struck delim cfg r r' s) := by
  induction k using Nat.strong_induction_on generalizing r r' s delivered with
  | _ k ih =>
    cases pumpRound_cases hR hd cfg h s with
    | ended e e' r1 r1' s1 s1' hrun hrun' hsent hkept =>
      refine ⟨_,_,pumpLoop_ended hrun,pumpLoop_ended hrun',iff_of_true hsent ?_⟩
      rintro (hhit|⟨hround,-,-⟩)
      · exact hkept hhit
      · cases eventually_unique hrun hround
    | hit e r1 r1' s1 s1' f j hrun hrun' h1 hsent hsent' hhit =>
      obtain ⟨out,hout⟩ := pumpLoop_ends hR hd cfg h1 s1' true
      obtain ⟨fuel,hlast⟩ := hout.exists
      have hmore := (pumpLoop_sent hlast).length_le
      refine ⟨_,out,pumpLoop_ended hrun,pumpLoop_next hrun' out hout,iff_of_false ?_ ?_⟩
      · intro hsame
        rw [← hsame,hsent,hsent',List.length_append,List.length_singleton] at hmore
        omega
      · exact not_not_intro (.here hhit)
    | next r1 r1' s1 j hrun hrun' h1 hj hkept =>
      obtain ⟨out,out',hout,hout',hiff⟩ := ih j hj h1 s1 true
      refine ⟨out,out',pumpLoop_next hrun out hout,pumpLoop_next hrun' out' hout',hiff.trans ?_⟩
      refine not_congr ⟨fun hlost => .later hrun hrun' hlost,?_⟩
      rintro (hhit|⟨hround,hround',hlost⟩)
      · exact absurd hhit hkept
      · cases eventually_unique hrun hround
        cases eventually_unique hrun' hround'
        exact hlost

/-- `pump_frames` ends with these events sent. -/
def Sends (delim : List UInt8) (cfg : StreamConfig) (r : ρ) (s : Shared) (events : List VideoEvent) :
    Prop :=
  ∃ res r1 s1, (∀ᶠ fuel in atTop, pumpFrames fuel r delim cfg s = some (res,r1,s1)) ∧
    s1.sent = events

/-- Behind the line of the first boundary a frame is lost. -/
def Loses (delim : List UInt8) (cfg : StreamConfig) (r r' : ρ) (s : Shared) : Prop :=
  ∃ line b b', (∀ᶠ fuel in atTop, readHeaderLine fuel r = some (.ok line,b)) ∧
    (∀ᶠ fuel in atTop, readHeaderLine fuel r' = some (.ok line,b')) ∧ Struck delim cfg b b' s

theorem pumpFrames_loses {R : ℕ → ρ → ρ → Prop} (hR : BufShadows R) (hd : delim ≠ []) {k : ℕ}
    (h : R k r r') (s : Shared) :
    ∃ events events', Sends delim cfg r s events ∧ Sends delim cfg r' s events' ∧
      (events = events' ↔ ¬Loses delim cfg r r' s) := by
  cases readHeaderLine_agrees hR.toShadows h with
  | error e b b' j hline hline' hb hj he =>
    refine ⟨s.sent,s.sent,⟨.ok false,b,s,?_,rfl⟩,⟨.ok false,b',s,?_,rfl⟩,iff_of_true rfl ?_⟩
    · filter_upwards [hline] with fuel hf
      simp only [pumpFrames,hf]
    · filter_upwards [hline'] with fuel hf
      simp only [pumpFrames,hf]
    · rintro ⟨l,c,c',hc,-⟩
      cases eventually_unique hline hc
  | ok line b b' j hline hline' hb hj =>
    obtain ⟨⟨res,r1,s1⟩,⟨res',r1',s1'⟩,hout,hout',hiff⟩ :=
      pumpLoop_struck hR hd cfg hb s false
    refine ⟨s1.sent,s1'.sent,⟨res,r1,s1,?_,rfl⟩,⟨res',r1',s1',?_,rfl⟩,hiff.trans (not_congr ?_)⟩
    · filter_upwards [hline,hout] with fuel hf hg
      simp only [pumpFrames,hf,hg]
    · filter_upwards [hline',hout'] with fuel hf hg
      simp only [pumpFrames,hf,hg]
    · refine ⟨fun hlost => ⟨line,b,b',hline,hline',hlost⟩,?_⟩
      rintro ⟨l,c,c',hc,hc',hlost⟩
      cases eventually_unique hline hc
      cases eventually_unique hline' hc'
      exact hlost

end Pump

/-- The reader of a chunked body behind its response head. -/
def chunked (r : BufReader Script) : BufReader (ChunkedReader (BufReader Script)) :=
  .new (.new r)

/-- Whatever is interrupted: the frames are those of the stream without interruptions exactly if
no interruption comes within the body of a frame that would have been sent. Lines, the sizes of
chunks and what ends a chunk are read over any interruptions. -/
theorem frames_uninterrupted_iff (boundary : String) (cfg : StreamConfig) (s : Shared)
    (r : BufReader Script) :
    (∃ events events', Sends (utf8 "--" ++ utf8 boundary) cfg r s events ∧
      Sends (utf8 "--" ++ utf8 boundary) cfg r.uninterrupted s events' ∧
      (events = events' ↔ ¬Loses (utf8 "--" ++ utf8 boundary) cfg r r.uninterrupted s)) ∧
    ∃ events events', Sends (utf8 "--" ++ utf8 boundary) cfg (chunked r) s events ∧
      Sends (utf8 "--" ++ utf8 boundary) cfg (chunked r.uninterrupted) s events' ∧
      (events = events' ↔
        ¬Loses (utf8 "--" ++ utf8 boundary) cfg (chunked r) (chunked r.uninterrupted) s) := by
  have hd : utf8 "--" ++ utf8 boundary ≠ [] := List.cons_ne_nil _ _
  have hplain := BufReader.shadows Script.shadows
  have hchunked := BufReader.shadows (ChunkedReader.shadows hplain.toShadows)
  have hr := r.beside_uninterrupted
  have hc : BufReader.Beside (ChunkedReader.Beside (BufReader.Beside Script.Beside)) _ (chunked r)
      (chunked r.uninterrupted) := ⟨_,.same 0 false hr,rfl,le_rfl⟩
  exact ⟨pumpFrames_loses hplain hd hr s,pumpFrames_loses hchunked hd hc s⟩

/-- A frame with an interruption between its bytes. -/
def interruptedFrame : Script :=
  ⟨[.ok (utf8 "--f\r\nA: 1\r\n\r\n" ++ [255,216]),.error ⟨.interrupted,"interrupted"⟩,
    .ok ([255,217] ++ utf8 "\r\n--f--\r\n")]⟩

def listening : Shared := { stop := fun _ => false }

theorem interruption_loses_frame :
    ¬∃ events, Sends (utf8 "--" ++ utf8 "f") cameraConfig (BufReader.new interruptedFrame) listening
        events ∧
      Sends (utf8 "--" ++ utf8 "f") cameraConfig (BufReader.new interruptedFrame).uninterrupted
        listening events := by
  rintro ⟨events,⟨res,r1,s1,hrun,hs1⟩,⟨res',r1',s1',hrun',hs1'⟩⟩
  obtain ⟨fuel,hf,hg⟩ := ((tendsto_add_atTop_nat 60).eventually (hrun.and hrun')).exists
  have hnone : (pumpFrames (fuel+60) (BufReader.new interruptedFrame) (utf8 "--" ++ utf8 "f")
      cameraConfig listening).map (fun out => out.2.2.sent) = some [] := rfl
  have hframe : (pumpFrames (fuel+60) (BufReader.new interruptedFrame).uninterrupted
      (utf8 "--" ++ utf8 "f") cameraConfig listening).map (fun out => out.2.2.sent) =
        some [.frame "camera" [255,216,255,217]] := rfl
  rw [hf] at hnone
  rw [hg] at hframe
  have hs : s1.sent = [] := Option.some.inj hnone
  have hs' : s1'.sent = [.frame "camera" [255,216,255,217]] := Option.some.inj hframe
  rw [← hs1',hs'] at hs1
  rw [hs1] at hs
  cases hs

end MjpegStream
end Robocol
