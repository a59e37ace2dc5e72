import Robocol.Chunked

/-! Readers that may stop early: a connection that is lost, or closed in the middle of what was to
be sent. They give bytes in order until they end or fail, and then nothing any more. -/
namespace Robocol
namespace Readers

open Filter

/-- What a read says behind the last byte: the end of input, or an error that is not retried. -/
def Stops : Except IoError (List UInt8) → Prop
  | .ok xs => xs = []
  | .error e => e.kind ≠ .interrupted

section Laws

variable {ρ : Type} {D : ρ → ℕ → ℕ → List UInt8 → Prop} {r : ρ} {lo hi n : ℕ} {S : List UInt8}

inductive Reads (D : ρ → ℕ → ℕ → List UInt8 → Prop) (lo hi : ℕ) (S : List UInt8) (n : ℕ) (r' : ρ) :
    Except IoError (List UInt8) → Prop
  | bytes {xs S' : List UInt8} (hne : xs ≠ []) (hS : S = xs ++ S') (hlen : xs.length ≤ n)
      (hhi : xs.length ≤ hi) (hr : D r' (lo-xs.length) (hi-xs.length) S') : Reads D lo hi S n r' (.ok xs)
  | spent {res : Except IoError (List UInt8)} (hlo : lo = 0) (hres : Stops res) (hr : D r' 0 0 S) :
      Reads D lo hi S n r' res

/-- `D r lo hi S`: the reader `r` gives bytes of `S` in order, at least `lo` and at most `hi` of
them, before it stops. -/
structure Dwindles [Read ρ] (D : ρ → ℕ → ℕ → List UInt8 → Prop) : Prop where
  read {r : ρ} {lo hi n : ℕ} {S : List UInt8} : D r lo hi S → 0 < n →
    ∃ res r', (∀ᶠ fuel in atTop, Read.read fuel r n = some (res,r')) ∧ Reads D lo hi S n r' res

inductive Filled [BufRead ρ] (D : ρ → ℕ → ℕ → List UInt8 → Prop) (lo hi : ℕ) (S : List UInt8) (r' : ρ) :
    Except IoError (List UInt8) → Prop
  | bytes {xs S' : List UInt8} (hne : xs ≠ []) (hS : S = xs ++ S') (hhi : xs.length ≤ hi)
      (hr : ∀ k ≤ xs.length, D (BufRead.consume r' k) (lo-k) (hi-k) (S.drop k)) :
      Filled D lo hi S r' (.ok xs)
  | spent {res : Except IoError (List UInt8)} (hlo : lo = 0) (hres : Stops res)
      (hr : D (BufRead.consume r' 0) 0 0 S) : Filled D lo hi S r' res

structure BufDwindles [BufRead ρ] (D : ρ → ℕ → ℕ → List UInt8 → Prop) : Prop extends Dwindles D where
  fillBuf {r : ρ} {lo hi : ℕ} {S : List UInt8} : D r lo hi S →
    ∃ res r', (∀ᶠ fuel in atTop, BufRead.fillBuf fuel r = some (res,r')) ∧ Filled D lo hi S r' res

/-- An operation on the next `k` bytes, with `S` behind them, came to `a`; or they were not all
there, and the reader has stopped. -/
inductive Passes {α : Type} (D : ρ → ℕ → ℕ → List UInt8 → Prop) (lo hi k : ℕ) (S : List UInt8) (a : α)
    (run : ℕ → Run ρ α) : Prop
  | through (r' : ρ) (hhi : k ≤ hi) (hr : D r' (lo-k) (hi-k) S)
      (hrun : ∀ᶠ fuel in atTop, run fuel = some (.ok a,r'))
  | short (res : Except IoError α) (r' : ρ) (S' : List UInt8) (hlo : lo < k) (hr : D r' 0 0 S')
      (hrun : ∀ᶠ fuel in atTop, run fuel = some (res,r'))

/-- Nothing comes behind the end. -/
theorem Dwindles.read_over [Read ρ] (hD : Dwindles D) (h : D r lo hi S) (hend : hi = 0 ∨ S = []) (hn : 0 < n) :
    ∃ res r', Stops res ∧ D r' 0 0 S ∧ ∀ᶠ fuel in atTop, Read.read fuel r n = some (res,r') := by
  obtain ⟨res,r',hread,hgave⟩ := hD.read h hn
  cases hgave with
  | bytes hne hS hlen hhi hr =>
    rcases hend with rfl|rfl
    · exact absurd (List.length_eq_zero_iff.mp (Nat.le_zero.mp hhi)) hne
    · exact absurd (List.append_eq_nil_iff.mp hS.symm).1 hne
  | spent hlo hres hr => exact ⟨res,r',hres,hr,hread⟩

theorem Dwindles.read_one [Read ρ] (hD : Dwindles D) {b : UInt8} (h : D r lo hi (b :: S)) :
    (∃ r', 1 ≤ hi ∧ D r' (lo-1) (hi-1) S ∧ ∀ᶠ fuel in atTop, Read.read fuel r 1 = some (.ok [b],r')) ∨
    lo = 0 ∧ ∃ res r', Stops res ∧ D r' 0 0 (b :: S) ∧
      ∀ᶠ fuel in atTop, Read.read fuel r 1 = some (res,r') := by
  obtain ⟨res,r',hread,hgave⟩ := hD.read h Nat.one_pos
  cases hgave with
  | @bytes xs S' hne hS hlen hhi hr =>
    obtain ⟨x,rfl⟩ : ∃ x, xs = [x] := List.length_eq_one_iff.mp
      (Nat.le_antisymm hlen (List.length_pos_iff.mpr hne))
    obtain ⟨rfl,rfl⟩ := List.cons.inj hS
    exact .inl ⟨r',hhi,hr,hread⟩
  | spent hlo hres hr => exact .inr ⟨hlo,res,r',hres,hr,hread⟩

/-- What the reader gives of `S`, and then ends. -/
def Cut (D : ρ → List UInt8 → Prop) (r : ρ) (lo hi : ℕ) (S : List UInt8) : Prop :=
  ∃ T, D r T ∧ T <+: S ∧ lo = T.length ∧ hi = T.length

theorem Delivers.dwindles [Read ρ] {D : ρ → List UInt8 → Prop} (hD : Delivers D) : Dwindles (Cut D) where
  read := by
    rintro r lo hi n S ⟨T,hT,hpre,rfl,rfl⟩ hn
    obtain ⟨xs,r',T',rfl,hlen,hnil,hr',hread⟩ := hD.read hT hn
    refine ⟨.ok xs,r',hread,?_⟩
    by_cases hne : xs = []
    · obtain ⟨-,rfl⟩ := List.append_eq_nil_iff.mp (hnil hne)
      exact .spent (by simp [hne]) hne ⟨[],hr',List.nil_prefix,rfl,rfl⟩
    · obtain ⟨U,rfl⟩ := hpre
      have hlength : (xs ++ T').length-xs.length = T'.length := by simp
      refine .bytes hne (List.append_assoc _ _ _) hlen (by simp) ?_
      rw [hlength]
      exact ⟨T',hr',List.prefix_append _ _,rfl,rfl⟩

theorem BufDelivers.dwindles [BufRead ρ] {D : ρ → List UInt8 → Prop} (hD : BufDelivers D) :
    BufDwindles (Cut D) where
  toDwindles := hD.toDelivers.dwindles
  fillBuf := by
    rintro r lo hi S ⟨T,hT,hpre,rfl,rfl⟩
    obtain ⟨xs,r',T',rfl,hnil,hr',hfill⟩ := hD.fillBuf hT
    refine ⟨.ok xs,r',hfill,?_⟩
    by_cases hne : xs = []
    · obtain ⟨-,rfl⟩ := List.append_eq_nil_iff.mp (hnil hne)
      refine .spent (by simp [hne]) hne ⟨[],?_,List.nil_prefix,rfl,rfl⟩
      simpa [hne] using hr' 0 (Nat.zero_le _)
    · obtain ⟨U,rfl⟩ := hpre
      refine .bytes hne (List.append_assoc _ _ _) (by simp) fun k hk => ?_
      have hdrop : (xs ++ T' ++ U).drop k = (xs ++ T').drop k ++ U :=
        List.drop_append_of_le_length (by simp; omega)
      exact ⟨_,hr' k hk,⟨U,hdrop.symm⟩,by simp,by simp⟩

end Laws

namespace BufReader

variable {ρ : Type} {D : ρ → ℕ → ℕ → List UInt8 → Prop} {r : BufReader ρ} {lo hi n : ℕ} {S : List UInt8}

/-- The buffer is sure to come, then what the inner reader gives. -/
def Ahead (D : ρ → ℕ → ℕ → List UInt8 → Prop) (r : BufReader ρ) (lo hi : ℕ) (S : List UInt8) : Prop :=
  ∃ S', S = r.buf ++ S' ∧ r.buf.length ≤ hi ∧ D r.inner (lo-r.buf.length) (hi-r.buf.length) S'

theorem ahead_new {r : ρ} (h : D r lo hi S) : Ahead D (new r) lo hi S := ⟨S,rfl,Nat.zero_le _,h⟩

theorem ahead_consume {inner : ρ} {xs S' : List UInt8} (hhi : xs.length ≤ hi)
    (hr : D inner (lo-xs.length) (hi-xs.length) S') (k : ℕ) (hk : k ≤ xs.length) :
    Ahead D (consume ⟨inner,xs⟩ k) (lo-k) (hi-k) ((xs ++ S').drop k) := by
  refine ⟨S',List.drop_append_of_le_length hk,?_,?_⟩
  · simp only [consume,List.length_drop]
    omega
  · simp only [consume,List.length_drop]
    have hlo : lo-k-(xs.length-k) = lo-xs.length := by omega
    have hhi : hi-k-(xs.length-k) = hi-xs.length := by omega
    rwa [hlo,hhi]

variable [Read ρ]

theorem fillBuf_ahead (hD : Dwindles D) (h : Ahead D r lo hi S) :
    ∃ res r', (∀ᶠ fuel in atTop, r.fillBuf fuel = some (res,r')) ∧ Filled (Ahead D) lo hi S r' res := by
  obtain ⟨inner,buf⟩ := r
  obtain ⟨S',rfl,hbuf,hinner⟩ := h
  by_cases hb : buf = []
  · subst hb
    obtain ⟨res,inner',hread,hgave⟩ := hD.read hinner (n := DEFAULT_BUF_SIZE) (by decide)
    cases hgave with
    | @bytes xs T hne hS hlen hhi hr =>
      refine ⟨.ok xs,⟨inner',xs⟩,?_,.bytes hne hS hhi fun k hk => ?_⟩
      · filter_upwards [hread] with fuel hf
        simp [fillBuf,hf]
      · rw [List.nil_append,hS]
        exact ahead_consume hhi hr k hk
    | spent hlo hres hr =>
      refine ⟨res,⟨inner',[]⟩,?_,.spent hlo hres ⟨_,rfl,Nat.zero_le _,hr⟩⟩
      filter_upwards [hread] with fuel hf
      cases res with
      | ok xs => simp [fillBuf,hf,show xs = [] from hres]
      | error e => simp [fillBuf,hf]
  · refine ⟨.ok buf,⟨inner,buf⟩,.of_forall fun fuel => by simp [fillBuf,hb],?_⟩
    exact .bytes hb rfl hbuf fun k hk => ahead_consume hbuf hinner k hk

theorem read_ahead (hD : Dwindles D) (h : Ahead D r lo hi S) (hn : 0 < n) :
    ∃ res r', (∀ᶠ fuel in atTop, r.read fuel n = some (res,r')) ∧ Reads (Ahead D) lo hi S n r' res := by
  by_cases hb : r.buf = [] ∧ DEFAULT_BUF_SIZE ≤ n
  · obtain ⟨inner,buf⟩ := r
    obtain ⟨rfl,hsize⟩ := hb
    obtain ⟨S',rfl,-,hinner⟩ := h
    obtain ⟨res,inner',hread,hgave⟩ := hD.read hinner hn
    refine ⟨res,⟨inner',[]⟩,?_,?_⟩
    · filter_upwards [hread] with fuel hf
      simp [read,hsize,hf]
    · cases hgave with
      | bytes hne hS hlen hhi hr => exact .bytes hne hS hlen hhi ⟨_,rfl,Nat.zero_le _,hr⟩
      | spent hlo hres hr => exact .spent hlo hres ⟨_,rfl,Nat.zero_le _,hr⟩
  · obtain ⟨res,r',hfill,hgave⟩ := fillBuf_ahead hD h
    cases hgave with
    | @bytes xs S' hne hS hhi hr =>
      have hmin : min n xs.length ≤ xs.length := Nat.min_le_right _ _
      have hlen : (xs.take n).length = min n xs.length := List.length_take
      have hcut : S = xs.take n ++ S.drop (min n xs.length) := by
        have htake : xs.take n = xs.take (min n xs.length) := by simp
        rw [htake,hS,List.drop_append_of_le_length hmin,← List.append_assoc,List.take_append_drop]
      refine ⟨.ok (xs.take n),r'.consume (min n xs.length),?_,.bytes ?_ hcut ?_ ?_ ?_⟩
      · filter_upwards [hfill] with fuel hf
        simp [read,if_neg hb,hf]
      · have hpos := List.length_pos_iff.mpr hne
        exact List.length_pos_iff.mp (by omega)
      · omega
      · omega
      · rw [hlen]
        exact hr _ hmin
    | spent hlo hres hr =>
      cases res with
      | ok xs =>
        obtain rfl : xs = [] := hres
        refine ⟨.ok [],r'.consume 0,?_,.spent hlo rfl hr⟩
        filter_upwards [hfill] with fuel hf
        simp [read,if_neg hb,hf]
      | error e =>
        refine ⟨.error e,r',?_,.spent hlo hres hr⟩
        filter_upwards [hfill] with fuel hf
        simp [read,if_neg hb,hf]

theorem dwindles (hD : Dwindles D) : BufDwindles (Ahead D) where
  read := read_ahead hD
  fillBuf := fillBuf_ahead hD

end BufReader

end Readers

namespace HeaderLines

open Filter Readers StdText

variable {ρ : Type} [Read ρ] {D : ρ → ℕ → ℕ → List UInt8 → Prop} {r : ρ} {lo hi : ℕ} {S : List UInt8}

section Errors

/-- Interrupted reads are retried, and so no error that is returned is one. -/
theorem readUntilCrlf_error {fuel : ℕ} {out : List UInt8} {total : ℕ} {e : IoError} {r r' : ρ}
    (h : readUntilCrlf fuel r out total = some (.error e,r')) : e.kind ≠ .interrupted := by
  induction fuel generalizing r out total with
  | zero => cases h
  | succ fuel ih =>
    rw [readUntilCrlf] at h
    split at h
    · cases h
    · cases h
    · simp only at h
      split at h
      · cases h
      · exact ih h
    · rename_i hkind
      split at h
      · exact ih h
      · rename_i hno
        obtain rfl := Except.error.inj (Prod.mk.inj (Option.some.inj h)).1
        exact hno

theorem readHeaderLine_error {fuel : ℕ} {e : IoError} {r r' : ρ}
    (h : readHeaderLine fuel r = some (.error e,r')) : e.kind ≠ .interrupted := by
  rw [readHeaderLine] at h
  split at h
  · cases h
  · rename_i hline
    obtain rfl := Except.error.inj (Prod.mk.inj (Option.some.inj h)).1
    exact readUntilCrlf_error hline
  · split at h
    · obtain rfl := Except.error.inj (Prod.mk.inj (Option.some.inj h)).1
      simp
    · cases h

end Errors

section Lines

/-- The end is reached within a line. -/
theorem readUntilCrlf_stop {res : Except IoError (List UInt8)} {r r' : ρ} (out : List UInt8) (total : ℕ)
    (hres : Stops res) (hread : ∀ᶠ fuel in atTop, Read.read fuel r 1 = some (res,r')) :
    ∃ res', (∀ᶠ fuel in atTop, readUntilCrlf fuel r out total = some (res',r')) ∧
      ∀ x, res' = .ok x → x = (total,out) := by
  cases res with
  | ok xs =>
    obtain rfl : xs = [] := hres
    refine ⟨.ok (total,out),eventually_of_succ ?_,by simp⟩
    filter_upwards [hread] with fuel hf
    simp only [readUntilCrlf,hf]
  | error e =>
    refine ⟨.error e,eventually_of_succ ?_,by simp⟩
    filter_upwards [hread] with fuel hf
    simp only [readUntilCrlf,hf,if_neg (show e.kind ≠ .interrupted from hres)]

theorem readUntilCrlf_passes (hD : Dwindles D) (line out : List UInt8) (total : ℕ) (r : ρ) {lo hi : ℕ}
    (h : D r lo hi (line ++ LF :: S)) (hline : LF ∉ line) (hcap : out.length+line.length ≤ LINE_CAP) :
    Passes D lo hi (line.length+1) S (total+line.length+1,out ++ line ++ [LF])
      (readUntilCrlf · r out total) := by
  induction line generalizing out total r lo hi with
  | nil =>
    rcases hD.read_one h with ⟨r',hhi,hr,hread⟩|⟨hlo,res,r',hres,hr,hread⟩
    · refine .through r' hhi hr (eventually_of_succ ?_)
      filter_upwards [hread] with fuel hf
      simp [readUntilCrlf,hf]
    · obtain ⟨res',hrun,-⟩ := readUntilCrlf_stop out total hres hread
      exact .short res' r' _ (by simp [hlo]) hr hrun
  | cons b line ih =>
    simp only [List.mem_cons,not_or] at hline
    simp only [List.length_cons] at hcap
    rcases hD.read_one h with ⟨r1,hhi,hr1,hread⟩|⟨hlo,res,r',hres,hr,hread⟩
    · have hlen : (out ++ [b]).length = out.length+1 := by simp
      have hstop : ¬(b = LF ∨ LINE_CAP < (out ++ [b]).length) := by
        rintro (rfl|hlt)
        · exact hline.1 rfl
        · omega
      have htotal : total+1+line.length+1 = total+(b :: line).length+1 := by simp; omega
      have hstep {res : Except IoError (ℕ × List UInt8)} {r2 : ρ}
          (hrest : ∀ᶠ fuel in atTop, readUntilCrlf fuel r1 (out ++ [b]) (total+1) = some (res,r2)) :
          ∀ᶠ fuel in atTop, readUntilCrlf fuel r out total = some (res,r2) := by
        refine eventually_of_succ ?_
        filter_upwards [hread,hrest] with fuel hf hg
        simp only [readUntilCrlf,hf,if_neg hstop,hg]
      cases ih (out ++ [b]) (total+1) r1 hr1 hline.2 (by omega) with
      | through r2 hhi2 hr2 hrun =>
        refine .through r2 (by simp; omega) ?_ ?_
        · have hlo' : lo-1-(line.length+1) = lo-((b :: line).length+1) := by simp; omega
          have hhi' : hi-1-(line.length+1) = hi-((b :: line).length+1) := by simp; omega
          rwa [hlo',hhi'] at hr2
        · have hout : out ++ [b] ++ line ++ [LF] = out ++ b :: line ++ [LF] := by simp
          rw [htotal,hout] at hrun
          exact hstep hrun
      | short res r2 S' hlo2 hr2 hrun =>
        exact .short res r2 S' (by simp; omega) hr2 (hstep hrun)
    · obtain ⟨res',hrun,-⟩ := readUntilCrlf_stop out total hres hread
      exact .short res' r' _ (by simp [hlo]) hr hrun

/-- A header line comes whole, or the reader stops within it. -/
theorem readHeaderLine_passes (hD : Dwindles D) {line : List UInt8} (h : D r lo hi (line ++ CRLF ++ S))
    (hcr : CR ∉ line) (hlf : LF ∉ line) (hcap : line.length+1 ≤ LINE_CAP) :
    Passes D lo hi (line.length+2) S (fromUtf8Lossy line) (readHeaderLine · r) := by
  have hs : line ++ CRLF ++ S = (line ++ [CR]) ++ LF :: S := by simp [CRLF]
  rw [hs] at h
  have hlf' : LF ∉ line ++ [CR] := by
    simp only [List.mem_append,List.mem_singleton,not_or]
    exact ⟨hlf,by decide⟩
  have hlen : (line ++ [CR]).length+1 = line.length+2 := by simp
  cases hlen ▸ readUntilCrlf_passes hD (line ++ [CR]) [] 0 r h hlf' (by simpa using hcap) with
  | through r' hhi hr hrun =>
    refine .through r' hhi hr ?_
    filter_upwards [hrun] with fuel hf
    have hpop : popLineEnd ([] ++ (line ++ [CR]) ++ [LF]) = line := by
      simpa [CRLF] using popLineEnd_line hcr hlf
    simp only [readHeaderLine,hf,hpop]
    simp
  | short res r' S' hlo hr hrun =>
    cases res with
    | error e =>
      refine .short (.error e) r' S' hlo hr ?_
      filter_upwards [hrun] with fuel hf
      simp only [readHeaderLine,hf]
    | ok x =>
      refine .short (if x.1 = 0 then .error ⟨.unexpectedEof,"stream ended mid-header"⟩
        else .ok (fromUtf8Lossy (popLineEnd x.2))) r' S' hlo hr ?_
      filter_upwards [hrun] with fuel hf
      simp only [readHeaderLine,hf]
      split <;> rfl

theorem readHeaderLine_over (hD : Dwindles D) (h : D r lo hi S) (hend : hi = 0 ∨ S = []) :
    ∃ e r', D r' 0 0 S ∧ ∀ᶠ fuel in atTop, readHeaderLine fuel r = some (.error e,r') := by
  obtain ⟨res,r',hres,hr,hread⟩ := hD.read_over h hend Nat.one_pos
  obtain ⟨res',hrun,hnothing⟩ := readUntilCrlf_stop [] 0 hres hread
  cases res' with
  | error e =>
    refine ⟨e,r',hr,?_⟩
    filter_upwards [hrun] with fuel hf
    simp only [readHeaderLine,hf]
  | ok x =>
    obtain rfl := hnothing x rfl
    refine ⟨⟨.unexpectedEof,"stream ended mid-header"⟩,r',hr,?_⟩
    filter_upwards [hrun] with fuel hf
    simp [readHeaderLine,hf]

theorem readHeaderLine_whole (hD : Dwindles D) {l : HeaderLine} (h : D r lo hi (l.bytes ++ CRLF ++ S)) :
    Passes D lo hi (l.bytes.length+2) S (fromUtf8Lossy l.bytes) (readHeaderLine · r) :=
  readHeaderLine_passes hD h l.no_cr l.no_lf (Nat.le_trans (Nat.succ_le_succ l.short) (by decide))

theorem length_headerBlock_cons (l : HeaderLine) (headers : List HeaderLine) :
    (headerBlock (l :: headers)).length = l.bytes.length+2+(headerBlock headers).length := by
  simp [headerBlock,CRLF]
  omega

theorem skipPartHeaders_over (hD : Dwindles D) (h : D r lo hi S) (hend : hi = 0 ∨ S = [])
    (length : Option ℕ) :
    ∃ e r', D r' 0 0 S ∧ ∀ᶠ fuel in atTop, skipPartHeaders fuel r length = some (.error e,r') := by
  obtain ⟨e,r',hr,hline⟩ := readHeaderLine_over hD h hend
  refine ⟨e,r',hr,eventually_of_succ ?_⟩
  filter_upwards [hline] with fuel hf
  simp only [skipPartHeaders,hf]

theorem skipPartHeaders_short (hD : Dwindles D) {res : Except IoError Text} {r' : ρ}
    (hr : D r' 0 0 S) (hline : ∀ᶠ fuel in atTop, readHeaderLine fuel r = some (res,r')) (length : Option ℕ) :
    ∃ res' r'', D r'' 0 0 S ∧ ∀ᶠ fuel in atTop, skipPartHeaders fuel r length = some (res',r'') := by
  cases res with
  | error e =>
    refine ⟨.error e,r',hr,eventually_of_succ ?_⟩
    filter_upwards [hline] with fuel hf
    simp only [skipPartHeaders,hf]
  | ok line =>
    by_cases hnil : line = []
    · refine ⟨.ok length,r',hr,eventually_of_succ ?_⟩
      filter_upwards [hline] with fuel hf
      simp only [skipPartHeaders,hf,if_pos hnil]
    · obtain ⟨e,r'',hr'',hrest⟩ := skipPartHeaders_over hD hr (.inl rfl) (contentLength line length)
      refine ⟨.error e,r'',hr'',eventually_of_succ ?_⟩
      filter_upwards [hline,hrest] with fuel hf hg
      simp only [skipPartHeaders,hf,if_neg hnil,hg]

/-- The header block of a part comes whole, or the reader stops within it. -/
theorem skipPartHeaders_passes (hD : Dwindles D) (headers : List HeaderLine) (length : Option ℕ) (r : ρ)
    {lo hi : ℕ} (h : D r lo hi (headerBlock headers ++ S)) :
    ∃ length', Passes D lo hi (headerBlock headers).length S length' (skipPartHeaders · r length) := by
  induction headers generalizing length r lo hi with
  | nil =>
    refine ⟨length,?_⟩
    have h : D r lo hi ([] ++ CRLF ++ S) := h
    cases readHeaderLine_passes hD h (by simp) (by simp) (by decide) with
    | through r' hhi hr hrun =>
      refine .through r' hhi hr (eventually_of_succ ?_)
      filter_upwards [hrun] with fuel hf
      simp [skipPartHeaders,hf]
    | short res r' S' hlo hr hrun =>
      obtain ⟨res',r'',hr'',hskip⟩ := skipPartHeaders_short hD hr hrun length
      exact .short res' r'' S' hlo hr'' hskip
  | cons l headers ih =>
    rw [headerBlock_cons] at h
    rw [length_headerBlock_cons]
    cases readHeaderLine_whole hD h with
    | through r1 hhi hr1 hline =>
      obtain ⟨length',hpasses⟩ := ih (contentLength (fromUtf8Lossy l.bytes) length) r1 hr1
      have hstep {res : Except IoError (Option ℕ)} {r2 : ρ} (hrest : ∀ᶠ fuel in atTop, skipPartHeaders
          fuel r1 (contentLength (fromUtf8Lossy l.bytes) length) = some (res,r2)) :
          ∀ᶠ fuel in atTop, skipPartHeaders fuel r length = some (res,r2) := by
        refine eventually_of_succ ?_
        filter_upwards [hline,hrest] with fuel hf hg
        simp only [skipPartHeaders,hf,if_neg (fromUtf8Lossy_ne_nil l.ne_nil),hg]
      refine ⟨length',?_⟩
      cases hpasses with
      | through r2 hhi2 hr2 hrest =>
        rw [Nat.sub_sub,Nat.sub_sub] at hr2
        exact .through r2 (by omega) hr2 (hstep hrest)
      | short res r2 S' hlo2 hr2 hrest => exact .short res r2 S' (by omega) hr2 (hstep hrest)
    | short res r' S' hlo hr hrun =>
      obtain ⟨res',r'',hr'',hskip⟩ := skipPartHeaders_short hD hr hrun length
      exact ⟨none,.short res' r'' S' (by omega) hr'' hskip⟩

end Lines

end HeaderLines

namespace ChunkedReader

open Filter Readers StdText HeaderLines

variable {ρ : Type} {D : ρ → List UInt8 → Prop} {c : ChunkedReader ρ} {lo hi n : ℕ} {S : List UInt8}

/-- Behind the last chunk, or behind the end of the stream. -/
def Spent (D : ρ → List UInt8 → Prop) (c : ChunkedReader ρ) : Prop := c.done = true ∨ D c.inner []

/-- The bytes that come of a chunk and the chunks behind it where `k` come from its data on: `gap`
of them if its data has come and its CRLF has not. -/
def withinChunk (gap k size rest : ℕ) : ℕ :=
  if k < size then k else if k < size+2 then gap else size+rest

/-- The bytes of the body that are sure to come where `k` bytes of its encoding do. The last read of
a chunk is lost without the CRLF, with all that it has read. -/
def sure : ℕ → List Chunk → ℕ
  | _, [] => 0
  | k, c :: chunks =>
    withinChunk 0 (k-(c.line.bytes.length+2)) c.data.length (sure (k-c.encoded.length) chunks)

def possible : ℕ → List Chunk → ℕ
  | _, [] => 0
  | k, c :: chunks => withinChunk (c.data.length-1) (k-(c.line.bytes.length+2)) c.data.length
      (possible (k-c.encoded.length) chunks)

/-- The first `k` bytes of the encoding end behind the data of a chunk and before the end of its
CRLF. -/
def EndsBehindData : ℕ → List Chunk → Prop
  | _, [] => False
  | k, c :: chunks => (c.data.length ≤ k-(c.line.bytes.length+2) ∧ k < c.encoded.length) ∨
      EndsBehindData (k-c.encoded.length) chunks

theorem withinChunk_sub {gap k size rest x : ℕ} (hx : x < size) (hk : x ≤ k) :
    withinChunk gap k size rest-x = withinChunk (gap-x) (k-x) (size-x) rest := by
  simp only [withinChunk]
  split_ifs <;> omega

theorem withinChunk_all {gap k size rest : ℕ} (hk : size+2 ≤ k) :
    withinChunk gap k size rest = size+rest := by
  rw [withinChunk,if_neg (by omega),if_neg (by omega)]

theorem length_encoded (c : Chunk) :
    c.encoded.length = c.line.bytes.length+2+(c.data.length+2) := by
  simp [Chunk.encoded,CRLF]
  omega

theorem sure_zero (chunks : List Chunk) : sure 0 chunks = 0 := by
  cases chunks with
  | nil => rfl
  | cons c chunks =>
    rw [sure,Nat.zero_sub,withinChunk,if_pos (List.length_pos_iff.mpr c.ne_nil)]

/-- All of the body comes with all of its encoding. -/
theorem sure_all (chunks : List Chunk) {k : ℕ} (hk : (chunks.flatMap Chunk.encoded).length ≤ k) :
    sure k chunks = (chunkBody chunks).length := by
  induction chunks generalizing k with
  | nil => rfl
  | cons c chunks ih =>
    have hc := length_encoded c
    rw [List.flatMap_cons,List.length_append] at hk
    rw [sure,withinChunk_all (by omega),ih (by omega)]
    simp [chunkBody]

theorem sure_eq_possible {k : ℕ} {chunks : List Chunk} (h : ¬EndsBehindData k chunks) :
    sure k chunks = possible k chunks := by
  induction chunks generalizing k with
  | nil => rfl
  | cons c chunks ih =>
    obtain ⟨hnow,hlater⟩ := not_or.mp h
    have hc := length_encoded c
    have hpos := List.length_pos_iff.mpr c.ne_nil
    rw [sure,possible,ih hlater]
    simp only [withinChunk]
    split_ifs <;> omega

/-- What the chunked reader gives of an encoding that is cut somewhere: `T` is what the inner reader
has of it. -/
inductive Broken (D : ρ → List UInt8 → Prop) : ChunkedReader ρ → ℕ → ℕ → List UInt8 → Prop
  | spent {c : ChunkedReader ρ} (S : List UInt8) (h : Spent D c) : Broken D c 0 0 S
  | next (inner : ρ) (T : List UInt8) (chunks : List Chunk) (last : SizeLine 0)
      (trailer : List UInt8) (hT : T <+: encodeChunks chunks last trailer) (h : D inner T) :
      Broken D ⟨inner,0,false⟩ (sure T.length chunks) (possible T.length chunks) (chunkBody chunks)
  | within (inner : ρ) (T data : List UInt8) (chunks : List Chunk) (last : SizeLine 0)
      (trailer : List UInt8) (hne : data ≠ [])
      (hT : T <+: data ++ (CRLF ++ encodeChunks chunks last trailer)) (h : D inner T) :
      Broken D ⟨inner,data.length,false⟩
        (withinChunk 0 T.length data.length (sure (T.length-(data.length+2)) chunks))
        (withinChunk (data.length-1) T.length data.length (possible (T.length-(data.length+2)) chunks))
        (data ++ chunkBody chunks)

theorem gives_over {res : Except IoError (List UInt8)} (hlo : lo = 0) (hres : Stops res) (h : Spent D c) :
    Reads (Broken D) lo hi S n c res := .spent hlo hres (.spent S h)

variable [Readers.Read ρ]

section Errors

theorem readExact_error {fuel n : ℕ} {got : List UInt8} {e : IoError} {r r' : ρ}
    (h : readExact fuel r n got = some (.error e,r')) : e.kind ≠ .interrupted := by
  induction fuel generalizing r n got with
  | zero => cases h
  | succ fuel ih =>
    rw [readExact] at h
    split at h
    · cases h
    · split at h
      · cases h
      · obtain rfl := Except.error.inj (Prod.mk.inj (Option.some.inj h)).1
        simp
      · exact ih h
      · split at h
        · exact ih h
        · rename_i hno
          obtain rfl := Except.error.inj (Prod.mk.inj (Option.some.inj h)).1
          exact hno

theorem sizeLine_error {fuel : ℕ} {e : IoError} {r r' : ρ}
    (h : sizeLine fuel r = some (.error e,r')) : e.kind ≠ .interrupted := by
  induction fuel generalizing r with
  | zero => cases h
  | succ fuel ih =>
    rw [sizeLine] at h
    split at h
    · cases h
    · rename_i hline
      obtain rfl := Except.error.inj (Prod.mk.inj (Option.some.inj h)).1
      exact readHeaderLine_error hline
    · split at h
      · exact ih h
      · cases h

/-- A `read_exact` that fails has read all there was. -/
theorem readExact_drains (hD : Delivers D) (n : ℕ) (S got : List UInt8) (r : ρ) (h : D r S)
    (hn : S.length < n) :
    ∃ e r', D r' [] ∧ ∀ᶠ fuel in atTop, readExact fuel r n got = some (.error e,r') := by
  induction n using Nat.strong_induction_on generalizing S got r with
  | _ n ih =>
    obtain ⟨xs,r1,S1,hS,hlen,hne,hr1,hread⟩ := hD.read h (n := n) (by omega)
    have hpos : n ≠ 0 := by omega
    cases xs with
    | nil =>
      obtain ⟨-,rfl⟩ := List.append_eq_nil_iff.mp (hS.symm.trans (hne rfl))
      refine ⟨⟨.unexpectedEof,"failed to fill whole buffer"⟩,r1,hr1,eventually_of_succ ?_⟩
      filter_upwards [hread] with fuel hf
      simp only [readExact,if_neg hpos,hf]
    | cons x xs =>
      have hl := congrArg List.length hS
      simp only [List.length_append,List.length_cons] at hl
      obtain ⟨e,r2,hr2,hrest⟩ := ih (n-(xs.length+1)) (by omega) S1 (got ++ x :: xs) r1 hr1 (by omega)
      refine ⟨e,r2,hr2,eventually_of_succ ?_⟩
      filter_upwards [hread,hrest] with fuel hf hg
      simp only [readExact,if_neg hpos,hf,hg]

end Errors

section Breaking

theorem readData_over (hD : Delivers D) {inner : ρ} (h : D inner []) (done : Bool) {size : ℕ} (hn : 0 < n)
    (hsize : 0 < size) :
    ∃ res c', (∀ᶠ fuel in atTop, readData fuel ⟨inner,size,done⟩ n = some (res,c')) ∧
      Stops res ∧ Spent D c' := by
  obtain ⟨r1,hr1,hread⟩ := hD.read_end h (n := min size n) (by omega)
  refine ⟨.error ⟨.unexpectedEof,"chunk body truncated"⟩,⟨r1,size,done⟩,?_,by simp [Stops],.inr hr1⟩
  filter_upwards [hread] with fuel hf
  simp only [readData,hf]

theorem read_spent (hD : Delivers D) (h : Spent D c) (hn : 0 < n) :
    ∃ res c', (∀ᶠ fuel in atTop, read fuel c n = some (res,c')) ∧ Stops res ∧ Spent D c' := by
  obtain ⟨inner,remaining,done⟩ := c
  have hn0 : n ≠ 0 := Nat.pos_iff_ne_zero.mp hn
  by_cases hdone : done = true
  · exact ⟨.ok [],_,.of_forall fun fuel => by simp [read,hdone],rfl,h⟩
  · obtain rfl : done = false := by simpa using hdone
    have hinner : D inner [] := h.resolve_left (by simp)
    by_cases hr : remaining = 0
    · obtain ⟨e,r1,hr1,hline⟩ := sizeLine_end hD inner hinner
      obtain ⟨fuel,hfuel⟩ := hline.exists
      refine ⟨.error e,⟨r1,remaining,false⟩,?_,sizeLine_error hfuel,.inr hr1⟩
      filter_upwards [hline] with fuel hf
      simp [read,hn0,hr,hf]
    · obtain ⟨res,c',hdata,hres⟩ := readData_over hD hinner false hn (Nat.pos_iff_ne_zero.mpr hr)
      refine ⟨res,c',?_,hres⟩
      filter_upwards [hdata] with fuel hf
      simp [read,hn0,hr,hf]

/-- Within a chunk, the bytes that are read are given if the end of the chunk can be read with them. -/
theorem readData_broken (hD : Delivers D) (inner : ρ) (T data : List UInt8) (chunks : List Chunk)
    (last : SizeLine 0) (trailer : List UInt8) (hne : data ≠ [])
    (hT : T <+: data ++ (CRLF ++ encodeChunks chunks last trailer)) (h : D inner T) (hn : 0 < n) :
    ∃ res c', (∀ᶠ fuel in atTop, readData fuel ⟨inner,data.length,false⟩ n = some (res,c')) ∧
      Reads (Broken D) (withinChunk 0 T.length data.length (sure (T.length-(data.length+2)) chunks))
        (withinChunk (data.length-1) T.length data.length (possible (T.length-(data.length+2)) chunks))
        (data ++ chunkBody chunks) n c' res := by
  have hpos : 0 < data.length := List.length_pos_iff.mpr hne
  obtain ⟨xs,r1,T1,hcut,hlen,hnil,hr1,hread⟩ := hD.read h (n := min data.length n) (by omega)
  cases xs with
  | nil =>
    obtain rfl : T1 = [] := (List.append_eq_nil_iff.mp (hcut.symm.trans (hnil rfl))).2
    refine ⟨.error ⟨.unexpectedEof,"chunk body truncated"⟩,⟨r1,data.length,false⟩,?_,
      gives_over ?_ (by simp [Stops]) (.inr hr1)⟩
    · filter_upwards [hread] with fuel hf
      simp only [readData,hf]
    · rw [hcut,withinChunk,if_pos (by simpa using hpos)]
      rfl
  | cons x xs =>
    obtain ⟨rest,rfl⟩ : x :: xs <+: data := by
      have hpre : x :: xs <+: data ++ (CRLF ++ encodeChunks chunks last trailer) :=
        (List.prefix_append _ T1).trans (hcut ▸ hT)
      exact List.prefix_of_prefix_length_le hpre (List.prefix_append data _) (by omega)
    have hT1 : T1 <+: rest ++ (CRLF ++ encodeChunks chunks last trailer) := by
      rw [hcut,List.append_assoc] at hT
      exact (List.prefix_append_right_inj _).mp hT
    have hleft : (x :: xs ++ rest).length-(xs.length+1) = rest.length := by simp
    have hmost : (x :: xs).length ≤ n := hlen.trans (Nat.min_le_right _ _)
    have hTlen : T.length = (x :: xs).length+T1.length := by rw [hcut,List.length_append]
    by_cases hr : rest = []
    · have hz : (x :: xs ++ rest).length-(xs.length+1) = 0 := by simp [hr]
      obtain rfl := hr
      rw [List.nil_append] at hT1
      rw [List.append_nil] at hread hz
      rw [List.append_nil,hTlen]
      rcases cut_cases hT1 with ⟨-,htwo⟩|⟨T2,rfl,hT2⟩
      · obtain ⟨e,r2,hr2,hexact⟩ := readExact_drains hD 2 T1 [] r1 hr1 htwo
        obtain ⟨fuel,hfuel⟩ := hexact.exists
        refine ⟨.error e,⟨r2,0,false⟩,?_,gives_over ?_ (readExact_error hfuel) (.inr hr2)⟩
        · filter_upwards [hread,hexact] with fuel hf hg
          simp only [readData,hf,hz,if_true,hg]
        · have hgap : (x :: xs).length+T1.length < (x :: xs).length+2 := Nat.add_lt_add_left htwo _
          rw [withinChunk,if_neg (by omega),if_pos hgap]
      · obtain ⟨r2,hr2,hexact⟩ := hD.readExact 2 CRLF T2 [] r1 hr1 rfl
        have hrest : (x :: xs).length+(CRLF ++ T2).length = (x :: xs).length+2+T2.length := by
          simp only [CRLF,List.length_append,List.length_cons,List.length_nil]
          omega
        refine ⟨.ok (x :: xs),⟨r2,0,false⟩,?_,.bytes (List.cons_ne_nil _ _) rfl hmost ?_ ?_⟩
        · filter_upwards [hread,hexact] with fuel hf hg
          simp only [readData,hf,hz,if_true,hg]
        · rw [hrest,withinChunk_all (by omega)]
          exact Nat.le_add_right _ _
        · rw [hrest,withinChunk_all (by omega),withinChunk_all (by omega),Nat.add_sub_cancel_left,
            Nat.add_sub_cancel_left,Nat.add_sub_cancel_left]
          exact .next r2 T2 chunks last trailer hT2 hr2
    · have hx : (x :: xs).length < (x :: xs ++ rest).length := by
        have hrpos := List.length_pos_iff.mpr hr
        rw [List.length_append]
        omega
      have hdrop : (x :: xs ++ rest).length-(x :: xs).length = rest.length := by simp
      have hgap : (x :: xs ++ rest).length-1-(x :: xs).length = rest.length-1 := by omega
      have hback : T.length-((x :: xs ++ rest).length+2) = T1.length-(rest.length+2) := by
        rw [List.length_append]
        omega
      refine ⟨.ok (x :: xs),⟨r1,rest.length,false⟩,?_,.bytes (List.cons_ne_nil _ _)
        (List.append_assoc _ _ _) hmost ?_ ?_⟩
      · filter_upwards [hread] with fuel hf
        simp only [readData,hf,hleft,if_neg (mt List.length_eq_zero_iff.mp hr)]
      · simp only [withinChunk]
        split_ifs <;> omega
      · rw [withinChunk_sub hx (by omega),withinChunk_sub hx (by omega),hdrop,hgap,hback,hTlen,
          Nat.add_sub_cancel_left,Nat.zero_sub]
        exact .within r1 T1 rest chunks last trailer hr hT1 hr1

/-- A stream that ends within a size line announces no data that could come. -/
theorem read_sizeless (hD : Delivers D) {size : ℕ} (l : SizeLine size) (inner : ρ) (T : List UInt8)
    (h : D inner T) (hT : T <+: l.bytes ++ CRLF) (hlt : T.length < (l.bytes ++ CRLF).length) (hn : 0 < n) :
    ∃ res c', (∀ᶠ fuel in atTop, read fuel ⟨inner,0,false⟩ n = some (res,c')) ∧ Stops res ∧ Spent D c' := by
  have hcond : ¬(false = true ∨ n = 0) := by
    simp only [Bool.false_eq_true,false_or]
    omega
  obtain ⟨res,r1,hr1,hline⟩ := sizeLine_cut hD l T inner h hT hlt
  cases res with
  | error e =>
    obtain ⟨fuel,hfuel⟩ := hline.exists
    refine ⟨.error e,⟨r1,0,false⟩,?_,sizeLine_error hfuel,.inr hr1⟩
    filter_upwards [hline] with fuel hf
    simp only [read,if_neg hcond,if_true,hf]
  | ok line =>
    cases hsize : fromStrRadix 16 (trim (splitFirst ';' line)) with
    | none =>
      refine ⟨.error ⟨.invalidData,"bad chunk size: " ++ debugText line⟩,⟨r1,0,false⟩,?_,
        by simp [Stops],.inr hr1⟩
      filter_upwards [hline] with fuel hf
      simp only [read,if_neg hcond,if_true,hf,hsize]
    | some size =>
      cases size with
      | zero =>
        refine ⟨.ok [],⟨r1,0,true⟩,?_,rfl,.inl rfl⟩
        filter_upwards [hline] with fuel hf
        simp only [read,if_neg hcond,if_true,hf,hsize]
      | succ size =>
        obtain ⟨res,c',hdata,hres⟩ := readData_over hD hr1 false hn (Nat.succ_pos size)
        refine ⟨res,c',?_,hres⟩
        filter_upwards [hline,hdata] with fuel hf hg
        simp only [read,if_neg hcond,if_true,hf,hsize]
        exact hg

theorem read_broken (hD : Delivers D) (inner : ρ) (T : List UInt8) (chunks : List Chunk)
    (last : SizeLine 0) (trailer : List UInt8) (hT : T <+: encodeChunks chunks last trailer)
    (h : D inner T) (hn : 0 < n) :
    ∃ res c', (∀ᶠ fuel in atTop, read fuel ⟨inner,0,false⟩ n = some (res,c')) ∧
      Reads (Broken D) (sure T.length chunks) (possible T.length chunks) (chunkBody chunks) n c' res := by
  have hn0 : n ≠ 0 := Nat.pos_iff_ne_zero.mp hn
  cases chunks with
  | nil =>
    have hT : T <+: last.bytes ++ CRLF ++ trailer := hT
    rcases cut_cases hT with ⟨hT,hlt⟩|⟨T',rfl,-⟩
    · obtain ⟨res,c',hrun,hres,hc'⟩ := read_sizeless hD last inner T h hT hlt hn
      exact ⟨res,c',hrun,gives_over rfl hres hc'⟩
    · obtain ⟨r1,-,hline⟩ := sizeLine_bytes hD last T' inner h
      refine ⟨.ok [],⟨r1,0,true⟩,?_,gives_over rfl rfl (.inl rfl)⟩
      filter_upwards [hline] with fuel hf
      have hsize := last.size_eq (by decide)
      simp [read,hn0,hf,hsize]
  | cons chunk chunks =>
    have hT : T <+: chunk.line.bytes ++ CRLF ++
        (chunk.data ++ (CRLF ++ encodeChunks chunks last trailer)) := by
      simpa [encodeChunks,Chunk.encoded] using hT
    have hheader : (chunk.line.bytes ++ CRLF).length = chunk.line.bytes.length+2 := by simp [CRLF]
    have hencoded := length_encoded chunk
    have hpos := List.length_pos_iff.mpr chunk.ne_nil
    rcases cut_cases hT with ⟨hT,hlt⟩|⟨T',rfl,hT'⟩
    · obtain ⟨res,c',hrun,hres,hc'⟩ := read_sizeless hD chunk.line inner T h hT hlt hn
      refine ⟨res,c',hrun,gives_over ?_ hres hc'⟩
      rw [sure,withinChunk,if_pos (by omega)]
      omega
    · obtain ⟨r1,hr1,hline⟩ := sizeLine_bytes hD chunk.line T' inner h
      obtain ⟨res,c',hdata,hreads⟩ :=
        readData_broken hD r1 T' chunk.data chunks last trailer chunk.ne_nil hT' hr1 hn
      have hfront : (chunk.line.bytes ++ CRLF ++ T').length-(chunk.line.bytes.length+2) = T'.length := by
        rw [List.length_append,hheader,Nat.add_sub_cancel_left]
      have hback : (chunk.line.bytes ++ CRLF ++ T').length-chunk.encoded.length =
          T'.length-(chunk.data.length+2) := by
        rw [hencoded,Nat.sub_add_eq,hfront]
      refine ⟨res,c',?_,?_⟩
      · filter_upwards [hline,hdata] with fuel hf hg
        obtain ⟨size,hs⟩ := Nat.exists_eq_succ_of_ne_zero (Nat.pos_iff_ne_zero.mp hpos)
        have hsize := (chunk.line.size_eq chunk.small).trans (congrArg some hs)
        rw [hs] at hg
        simp only [read,Bool.false_eq_true,hn0,or_self,if_false,if_true,hf,hsize]
        exact hg
      · rw [sure,possible,hfront,hback]
        exact hreads

/-- Taking a broken encoding apart gives bytes of the body in order, until it runs into the cut. -/
theorem dwindles (hD : Delivers D) : Dwindles (Broken D) where
  read := by
    intro c lo hi n S h hn
    cases h with
    | spent S h =>
      obtain ⟨res,c',hrun,hres,hc'⟩ := read_spent hD h hn
      exact ⟨res,c',hrun,gives_over rfl hres hc'⟩
    | next inner T chunks last trailer hT h => exact read_broken hD inner T chunks last trailer hT h hn
    | within inner T data chunks last trailer hne hT h =>
      obtain ⟨res,c',hdata,hreads⟩ := readData_broken hD inner T data chunks last trailer hne hT h hn
      refine ⟨res,c',?_,hreads⟩
      filter_upwards [hdata] with fuel hf
      have hz : data.length ≠ 0 := by simpa using hne
      simp only [Readers.Read.read,read,Bool.false_eq_true,Nat.pos_iff_ne_zero.mp hn,or_self,
        if_false,hz,hf]

end Breaking

end ChunkedReader
end Robocol
