import Robocol.Text
import Robocol.MjpegStream

/-! Frames out of a multipart body. The delimiter search is followed by the longest part
of the delimiter that the bytes read so far end in; the frame loop by what is left of the
body behind each delimiter. -/
namespace Robocol
namespace MjpegStream

open Filter Readers StdText HeaderLines Borders

section Failure

variable {p P : List UInt8} {c : UInt8} {failure : List ℕ} {i k : ℕ}

theorem kmpFallback_spec (hc : p[i]? = some c) (hk : k < p.length) (ht : TableTo p failure k)
    (hb : Bounds p P c k) (fuel : ℕ) (hfuel : k < fuel) :
    ∃ j ≤ k, kmpFallback p failure i fuel k = some j ∧ Bounds p P c j ∧ (j = 0 ∨ p[j]? = some c) := by
  induction fuel generalizing k with
  | zero => omega
  | succ fuel ih =>
    rcases Nat.eq_zero_or_pos k with h0|h0
    · obtain rfl := h0
      exact ⟨0,le_rfl,by simp [kmpFallback],hb,.inl rfl⟩
    · have hget : p[k]? = some p[k] := List.getElem?_eq_getElem hk
      by_cases heq : c = p[k]
      · refine ⟨k,le_rfl,?_,hb,.inr (by rw [hget,heq])⟩
        simp [kmpFallback,h0,hc,hget,heq]
      · have hne : p[k]? ≠ some c := by
          rw [hget]
          exact fun h => heq (Option.some.inj h).symm
        obtain ⟨f,hf,hl⟩ := ht.lookup h0 le_rfl
        obtain ⟨hbf,hlt⟩ := hb.fallback hne h0 hl
        obtain ⟨j,hj,hrun,hbj,hend⟩ := ih (by omega) (ht.mono (by omega)) hbf (by omega)
        refine ⟨j,by omega,?_,hbj,hend⟩
        simp [kmpFallback,h0,hc,hget,heq,hf,hrun]

/-- One round appends `p[i]` to the text `p[1..i]` and records the longest border it leaves. -/
theorem kmpRound_spec (h1 : 1 ≤ i) (hi : i < p.length) (hlen : failure.length = p.length)
    (ht : TableTo p failure i) (hk : Longest p (p.take i).tail k) :
    ∃ t j, kmpRound p (failure,k) i = some (t,j) ∧ t.length = p.length ∧ TableTo p t (i+1) ∧
      Longest p (p.take (i+1)).tail j := by
  have hki := hk.1.le_length
  rw [List.length_tail,List.length_take] at hki
  have hget : p[i]? = some p[i] := List.getElem?_eq_getElem hi
  have htext : (p.take (i+1)).tail = (p.take i).tail ++ [p[i]] := by
    rw [List.take_add_one,hget,Option.toList_some,List.tail_append_of_ne_nil]
    intro h
    have hl := congrArg List.length h
    simp only [List.length_take,List.length_nil] at hl
    omega
  obtain ⟨j,hj,hrun,hbj,hend⟩ :=
    kmpFallback_spec hget (by omega) (ht.mono (by omega)) (hk.bounds p[i]) (k+1) (by omega)
  have hgetj : p[j]? = some p[j] := List.getElem?_eq_getElem (by omega)
  obtain ⟨m,hm,hround⟩ : ∃ m, Longest p (p.take (i+1)).tail m ∧
      kmpRound p (failure,k) i = some (failure.set i m,m) := by
    rw [htext]
    by_cases heq : p[i] = p[j]
    · exact ⟨j+1,hbj.extend (by rw [hgetj,heq]),by simp [kmpRound,hrun,hget,hgetj,heq]⟩
    · have hne : p[j]? ≠ some p[i] := by
        rw [hgetj]
        exact fun h => heq (Option.some.inj h).symm
      obtain rfl : j = 0 := hend.resolve_right hne
      exact ⟨0,hbj.stop hne,by simp [kmpRound,hrun,hget,hgetj,heq]⟩
  refine ⟨_,m,hround,by simpa using hlen,fun n hn => ?_,hm⟩
  rcases Nat.lt_succ_iff_lt_or_eq.mp hn with hn|rfl
  · obtain ⟨f,hf,hl⟩ := ht n hn
    exact ⟨f,by rw [List.getElem?_set_ne (by omega),hf],hl⟩
  · exact ⟨m,by rw [List.getElem?_set_self (by omega)],hm⟩

theorem kmpRounds_spec (n : ℕ) (h1 : 1 ≤ i) (hi : i+n = p.length) (hlen : failure.length = p.length)
    (ht : TableTo p failure i) (hk : Longest p (p.take i).tail k) :
    ∃ t j, (List.range' i n).foldlM (kmpRound p) (failure,k) = some (t,j) ∧ t.length = p.length ∧
      TableTo p t p.length := by
  induction n generalizing i failure k with
  | zero =>
    obtain rfl : i = p.length := by omega
    exact ⟨failure,k,rfl,hlen,ht⟩
  | succ n ih =>
    obtain ⟨t,j,hround,hlen',ht',hj⟩ := kmpRound_spec h1 (by omega) hlen ht hk
    obtain ⟨t',j',hrest,hlen'',ht''⟩ := ih (by omega) (by omega) hlen' ht' hj
    refine ⟨t',j',?_,hlen'',ht''⟩
    rw [List.range'_succ,List.foldlM_cons,hround]
    exact hrest

theorem kmpFailure_table (p : List UInt8) (hp : p ≠ []) :
    ∃ t, kmpFailure p = some t ∧ t.length = p.length ∧ TableTo p t p.length := by
  have hpos : 0 < p.length := List.length_pos_iff.mpr hp
  have ht : TableTo p (List.replicate p.length 0) 1 := by
    intro n hn
    obtain rfl : n = 0 := by omega
    refine ⟨0,by simp [hpos],?_⟩
    cases p with
    | nil => exact absurd rfl hp
    | cons b bs => exact longest_nil _
  have hk : Longest p (p.take 1).tail 0 := by
    cases p with
    | nil => exact absurd rfl hp
    | cons b bs => exact longest_nil _
  obtain ⟨t,j,hrun,hlen,htable⟩ :=
    kmpRounds_spec (p.length-1) le_rfl (by omega) (by simp) ht hk
  exact ⟨t,by simp [kmpFailure,hrun],hlen,htable⟩

theorem border_entry {n : ℕ} (ht : TableTo p failure n) (hi : i < n) (hn : n ≤ p.length) :
    ∃ k ≤ i, failure[i]? = some k ∧ p.take k <:+ p.take (i+1) ∧
      ∀ j ≤ i, p.take j <:+ p.take (i+1) → j ≤ k := by
  obtain ⟨k,hk,hl⟩ := ht i hi
  have hle := hl.1.le_length
  rw [List.length_tail,List.length_take] at hle
  refine ⟨k,by omega,hk,hl.1.2.trans (List.tail_suffix _),fun j hj hs => ?_⟩
  refine hl.2 j ⟨by omega,suffix_tail_of_lt hs ?_⟩
  simp only [List.length_take]
  omega

theorem matchByte_total (ht : TableTo p failure p.length) (byte : UInt8) (fuel : ℕ)
    (out : List UInt8) (hk : k < p.length) (hfuel : k < fuel) :
    (∃ out', matchByte p failure byte fuel out k = some (.found out')) ∨
    ∃ out', ∃ m < p.length, matchByte p failure byte fuel out k = some (.next out' m) := by
  induction fuel generalizing out k with
  | zero => omega
  | succ fuel ih =>
    have hget : p[k]? = some p[k] := List.getElem?_eq_getElem hk
    by_cases heq : byte = p[k]
    · by_cases hlast : k+1 = p.length
      · exact .inl ⟨out,by simp [matchByte,hget,heq,hlast]⟩
      · exact .inr ⟨out,k+1,by omega,by simp [matchByte,hget,heq,hlast]⟩
    · rcases Nat.eq_zero_or_pos k with rfl|h0
      · exact .inr ⟨out ++ [byte],0,hk,by simp [matchByte,hget,heq]⟩
      · obtain ⟨f,hf,hl⟩ := ht.lookup h0 (by omega)
        have hlt := hl.1.le_length
        rw [List.length_tail,List.length_take] at hlt
        have hle : f ≤ k := by omega
        have hstep : matchByte p failure byte (fuel+1) out k =
            matchByte p failure byte fuel (out ++ p.take (k-f)) f := by
          simp [matchByte,hget,heq,Nat.pos_iff_ne_zero.mp h0,hf,hle]
        rw [hstep]
        exact ih _ (by omega) (by omega)

/-- The failure table holds the longest proper borders, and falling back along it always ends. -/
theorem kmpFailure_borders (p : List UInt8) :
    ∃ t, kmpFailure p = some t ∧ t.length = p.length ∧
      (∀ i < p.length, ∃ k ≤ i, t[i]? = some k ∧ p.take k <:+ p.take (i+1) ∧
        ∀ j ≤ i, p.take j <:+ p.take (i+1) → j ≤ k) ∧
      (∀ matched < p.length, 0 < matched → ∃ fallback < matched, t[matched-1]? = some fallback) ∧
      ∀ (byte : UInt8) (out : List UInt8), ∀ matched < p.length,
        (∃ out', matchByte p t byte (matched+1) out matched = some (.found out')) ∨
        ∃ out', ∃ m < p.length, matchByte p t byte (matched+1) out matched = some (.next out' m) := by
  by_cases hp : p = []
  · subst hp
    exact ⟨[],rfl,rfl,by simp,by simp,by simp⟩
  · obtain ⟨t,hrun,hlen,ht⟩ := kmpFailure_table p hp
    refine ⟨t,hrun,hlen,fun i hi => border_entry ht hi le_rfl,fun k hk h0 => ?_,
      fun byte out k hk => matchByte_total ht byte (k+1) out hk (by omega)⟩
    obtain ⟨f,hle,hf,-⟩ := border_entry ht (show k-1 < p.length by omega) le_rfl
    exact ⟨f,by omega,hf⟩

end Failure

section Search

variable {delim P A : List UInt8} {failure : List ℕ} {byte : UInt8}

/-- The state of the search after the bytes `P`: what was copied out and the part of the
delimiter held back spell `P`, and no longer part could have been held back. -/
structure Scanned (delim P out : List UInt8) (matched : ℕ) : Prop where
  spells : out ++ delim.take matched = P
  longest : Longest delim P matched
  open_end : matched < delim.length

theorem Scanned.start (hd : delim ≠ []) : Scanned delim [] [] 0 :=
  ⟨rfl,longest_nil delim,List.length_pos_iff.mpr hd⟩

theorem take_of_border {f k : ℕ} (hk : k ≤ delim.length) (h : EndsIn delim (delim.take k).tail f) :
    delim.take k = delim.take (k-f) ++ delim.take f := by
  obtain ⟨t,ht⟩ := h.2.trans (List.tail_suffix _)
  have hlen := congrArg List.length ht
  have hf := h.1
  have hle := h.le_length
  simp only [List.length_append,List.length_take,List.length_tail] at hlen hle
  have htl : t = delim.take (k-f) := by
    have htk := congrArg (List.take (k-f)) ht
    rwa [List.take_left' (by omega),List.take_take,Nat.min_eq_left (by omega)] at htk
  rw [← ht,htl]

/-- One byte: the search ends exactly when the bytes so far end in the delimiter. -/
theorem matchByte_spec (ht : TableTo delim failure delim.length) {out : List UInt8} {k : ℕ}
    (hout : out ++ delim.take k = P) (hk : k < delim.length) (hb : Bounds delim P byte k)
    (fuel : ℕ) (hfuel : k < fuel) :
    (∃ out', matchByte delim failure byte fuel out k = some (.found out') ∧
      out' ++ delim = P ++ [byte]) ∨
    ∃ out' m, matchByte delim failure byte fuel out k = some (.next out' m) ∧
      Scanned delim (P ++ [byte]) out' m := by
  induction fuel generalizing out k with
  | zero => omega
  | succ fuel ih =>
    have hget : delim[k]? = some delim[k] := List.getElem?_eq_getElem hk
    by_cases heq : byte = delim[k]
    · have htake : delim.take (k+1) = delim.take k ++ [byte] := by
        rw [List.take_add_one,hget,Option.toList_some,heq]
      by_cases hlast : k+1 = delim.length
      · left
        refine ⟨out,by simp [matchByte,hget,heq,hlast],?_⟩
        rw [← hout,List.append_assoc,← htake,hlast,List.take_length]
      · right
        refine ⟨out,k+1,by simp [matchByte,hget,heq,hlast],?_,
          hb.extend (by rw [hget,heq]),by omega⟩
        rw [htake,← List.append_assoc,hout]
    · have hne : delim[k]? ≠ some byte := by
        rw [hget]
        exact fun h => heq (Option.some.inj h).symm
      rcases Nat.eq_zero_or_pos k with h0|h0
      · obtain rfl := h0
        right
        refine ⟨out ++ [byte],0,by simp [matchByte,hget,heq],?_,hb.stop hne,hk⟩
        simpa using hout
      · obtain ⟨f,hf,hl⟩ := ht.lookup h0 (by omega)
        obtain ⟨hbf,hlt⟩ := hb.fallback hne h0 hl
        have hout' : (out ++ delim.take (k-f)) ++ delim.take f = P := by
          rw [List.append_assoc,← take_of_border (Nat.le_of_lt hk) hl.1,hout]
        have hstep : matchByte delim failure byte (fuel+1) out k =
            matchByte delim failure byte fuel (out ++ delim.take (k-f)) f := by
          have hle : f ≤ k := by omega
          simp [matchByte,hget,heq,Nat.pos_iff_ne_zero.mp h0,hf,hle]
        rw [hstep]
        exact ih hout' (by omega) hbf (by omega)

/-- `A ++ delim` ends in the delimiter, and no shorter front part of it does. -/
def FirstEnd (A delim : List UInt8) : Prop :=
  ∀ Q, Q <+: A ++ delim → delim <:+ Q → Q = A ++ delim

theorem Scanned.length_le {out : List UInt8} {m : ℕ} (h : Scanned delim P out m)
    (hP : P <+: A ++ delim) : out.length ≤ A.length := by
  have hm := h.open_end
  have hlen := congrArg List.length h.spells
  simp only [List.length_append,List.length_take] at hlen
  rcases Nat.le_total P.length A.length with hle|hle
  · omega
  · have hPle := hP.length_le
    simp only [List.length_append] at hPle
    have hsplit : P = A ++ delim.take (P.length-A.length) := by
      rw [List.prefix_iff_eq_take.mp hP,List.take_append,List.take_of_length_le hle]
      simp
    have hends : EndsIn delim P (P.length-A.length) := by
      refine ⟨by omega,?_⟩
      conv_rhs => rw [hsplit]
      exact List.suffix_append _ _
    have hmax := h.longest.2 _ hends
    omega

def NoEnd (delim P : List UInt8) : Prop := ∀ Q, Q <+: P → ¬delim <:+ Q

theorem NoEnd.nil (hd : delim ≠ []) : NoEnd delim [] := by
  intro Q hQ hs
  obtain rfl := List.prefix_nil.mp hQ
  exact hd (List.suffix_nil.mp hs)

theorem Scanned.noEnd {out : List UInt8} {m : ℕ} (h : Scanned delim (P ++ [byte]) out m)
    (hP : NoEnd delim P) : NoEnd delim (P ++ [byte]) := by
  intro Q hQ hs
  rcases List.prefix_concat_iff.mp hQ with rfl|hQ
  · have hlast := h.longest.eq_length_iff.mpr hs
    have hopen := h.open_end
    omega
  · exact hP Q hQ hs

theorem NoEnd.le {S : List UInt8} (h : NoEnd delim P) (hP : P <+: S) (hA : A ++ delim <+: S) :
    P <+: A ++ delim := by
  rcases List.prefix_or_prefix_of_prefix hP hA with hle|hle
  · exact hle
  · exact absurd (List.suffix_append A delim) (h _ hle)

/-- What a scan of some bytes behind `P` leads to: the first end of the delimiter, more bytes than
a frame may have, or neither. -/
inductive Scans (delim P xs : List UInt8) (consumed : ℕ) : Scan → Prop
  | found (ys zs A : List UInt8) (hcut : xs = ys ++ zs) (hA : P ++ ys = A ++ delim)
      (hfirst : FirstEnd A delim) (hcap : A.length ≤ MAX_FRAME_BYTES) :
      Scans delim P xs consumed (.found (consumed+ys.length) A)
  | overflow (ys zs out : List UInt8) (m : ℕ) (hcut : xs = ys ++ zs) (hopen : NoEnd delim (P ++ ys))
      (hscan : Scanned delim (P ++ ys) out m) (hcap : MAX_FRAME_BYTES < out.length) :
      Scans delim P xs consumed (.overflow (consumed+ys.length))
  | more (out : List UInt8) (m : ℕ) (hopen : NoEnd delim (P ++ xs))
      (hscan : Scanned delim (P ++ xs) out m) (hcap : out.length ≤ MAX_FRAME_BYTES) :
      Scans delim P xs consumed (.more out m)

theorem Scans.cons {xs : List UInt8} {consumed : ℕ} {s : Scan}
    (h : Scans delim (P ++ [byte]) xs (consumed+1) s) : Scans delim P (byte :: xs) consumed s := by
  have hcons (ys : List UInt8) : (P ++ [byte]) ++ ys = P ++ byte :: ys := by simp
  have hlen (ys : List UInt8) : consumed+1+ys.length = consumed+(byte :: ys).length := by
    simp only [List.length_cons]
    omega
  cases h with
  | found ys zs A hcut hA hfirst hcap =>
    rw [hlen]
    exact .found (byte :: ys) zs A (by rw [hcut,List.cons_append]) (by rw [← hcons,hA]) hfirst hcap
  | overflow ys zs out m hcut hopen hscan hcap =>
    rw [hlen]
    rw [hcons] at hopen hscan
    exact .overflow (byte :: ys) zs out m (by rw [hcut,List.cons_append]) hopen hscan hcap
  | more out m hopen hscan hcap =>
    rw [hcons] at hopen hscan
    exact .more out m hopen hscan hcap

theorem scanBytes_spec (ht : TableTo delim failure delim.length) (xs : List UInt8) (consumed : ℕ)
    {out : List UInt8} {m : ℕ} (h : Scanned delim P out m) (hopen : NoEnd delim P)
    (hcap : out.length ≤ MAX_FRAME_BYTES) :
    ∃ s, scanBytes delim failure xs consumed out m = some s ∧ Scans delim P xs consumed s := by
  induction xs generalizing P consumed out m with
  | nil =>
    rw [← List.append_nil P] at h hopen
    exact ⟨_,rfl,.more out m hopen h hcap⟩
  | cons byte xs ih =>
    rcases matchByte_spec ht h.spells h.open_end (h.longest.bounds byte) (m+1) (by omega) with
      ⟨A,hrun,hfound⟩|⟨out',m',hrun,hscan⟩
    · have hlen : A.length ≤ out.length := by
        have hm := h.open_end
        have hspell := congrArg List.length h.spells
        have hend := congrArg List.length hfound
        simp only [List.length_append,List.length_take,List.length_singleton] at hspell hend
        omega
      have hfirst : FirstEnd A delim := by
        intro Q hQ hs
        rw [hfound] at hQ ⊢
        rcases List.prefix_concat_iff.mp hQ with hQ|hQ
        · exact hQ
        · exact absurd hs (hopen Q hQ)
      refine ⟨.found (consumed+1) A,by simp [scanBytes,hrun],?_⟩
      exact .found [byte] xs A rfl hfound.symm hfirst (hlen.trans hcap)
    · have hnone := hscan.noEnd hopen
      by_cases hover : MAX_FRAME_BYTES < out'.length
      · refine ⟨.overflow (consumed+1),by simp [scanBytes,hrun,hover],?_⟩
        exact .overflow [byte] xs out' m' rfl hnone hscan hover
      · obtain ⟨s,hrest,hs⟩ := ih (consumed+1) hscan hnone (Nat.le_of_not_lt hover)
        exact ⟨s,by simp [scanBytes,hrun,hover,hrest],hs.cons⟩

inductive Searches (delim S : List UInt8) : Except IoError (List UInt8) → Prop
  | found (A T : List UInt8) (hcut : S = A ++ delim ++ T) (hfirst : FirstEnd A delim)
      (hcap : A.length ≤ MAX_FRAME_BYTES) : Searches delim S (.ok A)
  | overflow (P out : List UInt8) (m : ℕ) (hP : P <+: S) (hopen : NoEnd delim P)
      (hscan : Scanned delim P out m) (hcap : MAX_FRAME_BYTES < out.length) :
      Searches delim S (.error ⟨.invalidData,"frame exceeds size cap"⟩)
  | ended (hopen : NoEnd delim S) :
      Searches delim S (.error ⟨.unexpectedEof,"stream ended mid-frame"⟩)

variable {ρ : Type} [BufRead ρ] {D : ρ → List UInt8 → Prop}

/-- The search over whatever the reader has available each time, by induction on what it still has
to give. -/
theorem readUntilDelimFrom_spec (hD : BufDelivers D) (ht : TableTo delim failure delim.length)
    (S : List UInt8) {out : List UInt8} {m : ℕ} (r : ρ) (h : Scanned delim P out m)
    (hopen : NoEnd delim P) (hcap : out.length ≤ MAX_FRAME_BYTES) (hr : D r S) :
    ∃ res r', Searches delim (P ++ S) res ∧
      (∀ A, res = .ok A → D r' ((P ++ S).drop (A.length+delim.length))) ∧
      ∀ᶠ fuel in atTop, readUntilDelimFrom delim failure fuel r out m = some (res,r') := by
  induction hn : S.length using Nat.strong_induction_on generalizing P S out m r with
  | _ n ih =>
    obtain ⟨xs,r1,S',hS,hnil,hconsume,hfill⟩ := hD.fillBuf hr
    by_cases hxs : xs = []
    · rw [hnil hxs,List.append_nil]
      refine ⟨_,r1,.ended hopen,by simp,eventually_of_succ ?_⟩
      filter_upwards [hfill] with fuel hf
      simp only [readUntilDelimFrom,hf,hxs,if_true]
    · obtain ⟨s,hscan,hs⟩ := scanBytes_spec ht xs 0 h hopen hcap
      cases hs with
      | found ys zs A hcut hA hfirst hA' =>
        have hwhole : P ++ S = A ++ delim ++ (zs ++ S') := by
          rw [hS,hcut,List.append_assoc,← List.append_assoc,hA]
        have hrest : S.drop ys.length = zs ++ S' := by
          rw [hS,hcut,List.append_assoc,List.drop_left]
        have hle : ys.length ≤ xs.length := by simp [hcut]
        refine ⟨.ok A,BufRead.consume r1 ys.length,.found A _ hwhole hfirst hA',fun B hB => ?_,eventually_of_succ ?_⟩
        · obtain rfl := Except.ok.inj hB
          rw [hwhole,← List.length_append,List.drop_left,← hrest]
          exact hconsume ys.length hle
        · filter_upwards [hfill] with fuel hf
          rw [Nat.zero_add] at hscan
          simp only [readUntilDelimFrom,hf,if_neg hxs,hscan]
      | overflow ys zs out' m' hcut hnone hscanned hover =>
        have hP : P ++ ys <+: P ++ S := ⟨zs ++ S',by simp [hS,hcut]⟩
        refine ⟨_,BufRead.consume r1 (0+ys.length),.overflow _ out' m' hP hnone hscanned hover,by simp,eventually_of_succ ?_⟩
        filter_upwards [hfill] with fuel hf
        simp only [readUntilDelimFrom,hf,if_neg hxs,hscan]
      | more out' m' hnone hscanned hcap' =>
        have hlen : S'.length < n := by
          have hl := congrArg List.length hS
          have hx := List.length_pos_iff.mpr hxs
          simp only [List.length_append] at hl
          omega
        have hr1 := hconsume xs.length le_rfl
        rw [hS,List.drop_left] at hr1
        obtain ⟨res,r2,hres,hr2,hrest⟩ := ih S'.length hlen S' _ hscanned hnone hcap' hr1 rfl
        have hwhole : (P ++ xs) ++ S' = P ++ S := by rw [hS,List.append_assoc]
        rw [hwhole] at hres hr2
        refine ⟨res,r2,hres,hr2,eventually_of_succ ?_⟩
        filter_upwards [hfill,hrest] with fuel hf hg
        simp only [readUntilDelimFrom,hf,if_neg hxs,hscan,hg]

theorem readUntilDelim_searches (hD : BufDelivers D) (hd : delim ≠ []) (S : List UInt8) (r : ρ)
    (hr : D r S) :
    ∃ res r', Searches delim S res ∧ (∀ A, res = .ok A → D r' (S.drop (A.length+delim.length))) ∧
      ∀ᶠ fuel in atTop, readUntilDelim fuel r delim = some (res,r') := by
  obtain ⟨t,hrun,-,ht⟩ := kmpFailure_table delim hd
  obtain ⟨res,r',hres,hr',hread⟩ :=
    readUntilDelimFrom_spec hD ht S r (Scanned.start hd) (.nil hd) (Nat.zero_le _) hr
  refine ⟨res,r',hres,hr',?_⟩
  filter_upwards [hread] with fuel hf
  simp only [readUntilDelim,hrun,hf]

theorem FirstEnd.unique {B S : List UInt8} (hA : FirstEnd A delim) (hB : FirstEnd B delim)
    (hSA : A ++ delim <+: S) (hSB : B ++ delim <+: S) : A = B := by
  have hsame : A ++ delim = B ++ delim := by
    rcases List.prefix_or_prefix_of_prefix hSA hSB with hle|hle
    · exact hB _ hle (List.suffix_append _ _)
    · exact (hA _ hle (List.suffix_append _ _)).symm
  exact List.append_cancel_right hsame

theorem Searches.eq_ok {T : List UInt8} {res : Except IoError (List UInt8)}
    (h : Searches delim (A ++ delim ++ T) res) (hfirst : FirstEnd A delim)
    (hA : A.length ≤ MAX_FRAME_BYTES) : res = .ok A := by
  have hend : A ++ delim <+: A ++ delim ++ T := List.prefix_append _ _
  cases h with
  | found B U hcut hfirst' hB =>
    rw [hfirst'.unique hfirst ⟨U,hcut.symm⟩ hend]
  | overflow P out m hP hopen hscan hcap =>
    have hle := hscan.length_le (hopen.le hP hend)
    omega
  | ended hopen => exact absurd (List.suffix_append _ _) (hopen _ hend)

theorem readUntilDelim_spec (hD : BufDelivers D) (hd : delim ≠ []) (hA : A.length ≤ MAX_FRAME_BYTES)
    (hfirst : FirstEnd A delim) (T : List UInt8) (r : ρ) (hr : D r (A ++ delim ++ T)) :
    ∃ r', D r' T ∧ ∀ᶠ fuel in atTop, readUntilDelim fuel r delim = some (.ok A,r') := by
  obtain ⟨res,r',hres,hr',hread⟩ := readUntilDelim_searches hD hd _ r hr
  obtain rfl := hres.eq_ok hfirst hA
  have hrest := hr' A rfl
  rw [← List.length_append,List.drop_left] at hrest
  exact ⟨r',hrest,hread⟩

end Search

section Occurrences

/-- The pattern occurs in `S` at offset `i`, and nowhere before it. -/
def FirstAt (pattern S : List UInt8) (i : ℕ) : Prop :=
  pattern <+: S.drop i ∧ ∀ j < i, ¬pattern <+: S.drop j

instance (pattern S : List UInt8) (i : ℕ) : Decidable (FirstAt pattern S i) :=
  inferInstanceAs (Decidable (_ ∧ _))

variable {A T S delim : List UInt8} {i : ℕ}

theorem FirstAt.firstEnd (h : FirstAt delim (A ++ delim ++ T) A.length) : FirstEnd A delim := by
  rintro Q ⟨rest,hQ⟩ ⟨t,rfl⟩
  have ht : ¬t.length < A.length := by
    intro hlt
    apply h.2 t.length hlt
    rw [← hQ,List.append_assoc,List.append_assoc,List.drop_left]
    exact List.prefix_append _ _
  rw [List.append_assoc] at hQ
  have hlen := congrArg List.length hQ
  simp only [List.length_append] at hlen
  obtain ⟨-,hrest⟩ := List.append_inj hQ (by omega)
  have hl := congrArg List.length hrest
  simp only [List.length_append] at hl
  obtain rfl : rest = [] := List.length_eq_zero_iff.mp (by omega)
  simpa using hQ

theorem FirstAt.cut (h : FirstAt delim S i) (hd : delim ≠ []) :
    S = S.take i ++ delim ++ S.drop (i+delim.length) ∧ (S.take i).length = i ∧
      FirstEnd (S.take i) delim := by
  obtain ⟨T,hT⟩ := h.1
  have hrest : S.drop (i+delim.length) = T := by
    rw [← List.drop_drop,← hT,List.drop_left]
  have hcut : S = S.take i ++ delim ++ T := by
    rw [List.append_assoc,hT,List.take_append_drop]
  have hlen : (S.take i).length = i := by
    have hpos := List.length_pos_iff.mpr hd
    have hl := congrArg List.length hT
    simp only [List.length_append,List.length_drop] at hl
    rw [List.length_take]
    omega
  rw [hrest]
  refine ⟨hcut,hlen,FirstAt.firstEnd (T := T) ?_⟩
  rw [← hcut,hlen]
  exact h

variable {ρ : Type} [BufRead ρ] {D : ρ → List UInt8 → Prop}

/-- The first delimiter is found wherever it is, whatever it overlaps with and however the bytes
arrive: what lies before it is returned and the reader is left right behind it, unless that is more
than a frame may have. Without a delimiter nothing is returned. -/
theorem readUntilDelim_first (hD : BufDelivers D) (hd : delim ≠ []) (S : List UInt8) (r : ρ)
    (hr : D r S) :
    (∀ i, FirstAt delim S i → i ≤ MAX_FRAME_BYTES → ∃ r', D r' (S.drop (i+delim.length)) ∧
      ∀ᶠ fuel in atTop, readUntilDelim fuel r delim = some (.ok (S.take i),r')) ∧
    (∀ i, FirstAt delim S i → MAX_FRAME_BYTES < i → ∃ r', ∀ᶠ fuel in atTop,
      readUntilDelim fuel r delim = some (.error ⟨.invalidData,"frame exceeds size cap"⟩,r')) ∧
    (¬delim <:+: S → ∃ e r', (e = ⟨.unexpectedEof,"stream ended mid-frame"⟩ ∨
        e = ⟨.invalidData,"frame exceeds size cap"⟩) ∧
      ∀ᶠ fuel in atTop, readUntilDelim fuel r delim = some (.error e,r')) := by
  refine ⟨fun i hi hcap => ?_,fun i hi hcap => ?_,fun hnone => ?_⟩
  · obtain ⟨hcut,hlen,hfirst⟩ := hi.cut hd
    rw [hcut] at hr
    exact readUntilDelim_spec hD hd (hlen.symm ▸ hcap) hfirst _ r hr
  · obtain ⟨hcut,hlen,hfirst⟩ := hi.cut hd
    have hend : S.take i ++ delim <+: S := ⟨S.drop (i+delim.length),hcut.symm⟩
    obtain ⟨res,r',hres,-,hread⟩ := readUntilDelim_searches hD hd S r hr
    cases hres with
    | found A T hA hfirst' hcap' =>
      have hsame := hfirst'.unique hfirst ⟨T,hA.symm⟩ hend
      rw [hsame,hlen] at hcap'
      omega
    | overflow P out m hP hopen hscan hover => exact ⟨r',hread⟩
    | ended hopen => exact absurd (List.suffix_append _ _) (hopen _ hend)
  · obtain ⟨res,r',hres,-,hread⟩ := readUntilDelim_searches hD hd S r hr
    cases hres with
    | found A T hA => exact absurd ⟨A,T,hA.symm⟩ hnone
    | overflow P out m hP hopen hscan hover => exact ⟨_,r',.inr rfl,hread⟩
    | ended hopen => exact ⟨_,r',.inl rfl,hread⟩

theorem readUntilDelim_dashes :
    ∃ r', BufReader.After Script.Spells r' [7] ∧ ∀ᶠ fuel in atTop,
      readUntilDelim fuel (BufReader.new (⟨[.ok [1,45],.ok [45,45],.ok [102,7]]⟩ : Script))
        [45,45,102] = some (.ok [1,45],r') := by
  have hfirst : FirstAt [45,45,102] [1,45,45,45,102,7] 2 := by decide
  exact (readUntilDelim_first (BufReader.delivers Script.delivers) (by decide) [1,45,45,45,102,7] _
    ⟨_,⟨[[1,45],[45,45],[102,7]],rfl,by decide,rfl⟩,rfl⟩).1 2 hfirst (by decide)

end Occurrences

section Multipart

/-- A boundary parameter without line ends, short enough for the line reader. -/
structure Boundary where
  text : String
  no_cr : CR ∉ utf8 text
  no_lf : LF ∉ utf8 text
  short : (utf8 text).length+2 ≤ 8000

/-- `format!("--{}", head.boundary).into_bytes()`. -/
def Boundary.delim (b : Boundary) : List UInt8 := utf8 "--" ++ utf8 b.text

theorem Boundary.delim_eq (b : Boundary) : b.delim = 45 :: 45 :: utf8 b.text := rfl

structure Part (delim : List UInt8) where
  headers : List HeaderLine
  frame : List UInt8
  first : FirstAt delim (frame ++ CRLF ++ delim) (frame.length+2)
  fits : frame.length+2 ≤ MAX_FRAME_BYTES

variable {delim : List UInt8}

def lineEnd : List (Part delim) → List UInt8
  | [] => utf8 "--"
  | _ :: _ => []

def afterLine : List (Part delim) → List UInt8
  | [] => []
  | p :: ps => headerBlock p.headers ++ (p.frame ++ CRLF ++ delim ++ (lineEnd ps ++ CRLF ++ afterLine ps))

/-- A multipart body, from its first delimiter to the line of its last one. -/
def multipart (delim : List UInt8) (parts : List (Part delim)) : List UInt8 :=
  delim ++ CRLF ++ afterLine parts

def SendsAll {ρ : Type} [BufRead ρ] (r : ρ) (cfg : StreamConfig) (s : Shared)
    (parts : List (Part delim)) : Prop :=
  ∃ r' s', (∀ᶠ fuel in atTop, pumpFrames fuel r delim cfg s = some (.ok true,r',s')) ∧
    s'.sent = s.sent ++ parts.map fun p => .frame cfg.source p.frame

theorem trimCrlf_append (frame : List UInt8) : trimCrlf (frame ++ CRLF) = frame := by
  have hs : CRLF.isSuffixOf (frame ++ CRLF) = true := by
    rw [List.isSuffixOf_iff_suffix]
    exact List.suffix_append _ _
  have hl : (frame ++ CRLF).length-2 = frame.length := by simp [CRLF]
  rw [trimCrlf,if_pos hs,hl,List.take_left]

theorem lineEnd_line (parts : List (Part delim)) :
    CR ∉ lineEnd parts ∧ LF ∉ lineEnd parts ∧ (lineEnd parts).length+1 ≤ LINE_CAP := by
  cases parts with
  | nil =>
    have h : CR ∉ utf8 "--" ∧ LF ∉ utf8 "--" ∧ (utf8 "--").length+1 ≤ LINE_CAP := by decide
    exact h
  | cons p ps => exact ⟨by simp [lineEnd],by simp [lineEnd],by simp [lineEnd,LINE_CAP]⟩

variable {ρ : Type} [BufRead ρ] {D : ρ → List UInt8 → Prop}

theorem pumpLoop_spec (hD : BufDelivers D) (hd : delim ≠ []) (cfg : StreamConfig)
    (parts : List (Part delim)) (r : ρ) (s : Shared) (delivered : Bool)
    (hstop : ∀ i, s.stop i = false) (hrecv : s.receiver = none) (hr : D r (afterLine parts)) :
    ∃ r' s', (∀ᶠ fuel in atTop, pumpLoop delim cfg fuel r s delivered =
        some (.ok (delivered || !parts.isEmpty),r',s')) ∧
      s'.sent = s.sent ++ parts.map fun p => .frame cfg.source p.frame := by
  induction parts generalizing r s delivered with
  | nil =>
    obtain ⟨r',e,hr',hskip⟩ := skipPartHeaders_end hD.toDelivers none r hr
    refine ⟨r',{ s with loads := s.loads+1 },eventually_of_succ ?_,(List.append_nil _).symm⟩
    filter_upwards [hskip] with fuel hf
    simp only [pumpLoop,Shared.load,hstop,Bool.false_eq_true,if_false,hf]
    simp
  | cons p parts ih =>
    obtain ⟨r1,length,hr1,hskip⟩ := skipPartHeaders_block hD.toDelivers p.headers _ none r hr
    have hfirst : FirstEnd (p.frame ++ CRLF) delim := by
      apply FirstAt.firstEnd (T := [])
      simpa [CRLF] using p.first
    have hA : (p.frame ++ CRLF).length ≤ MAX_FRAME_BYTES := by simpa [CRLF] using p.fits
    obtain ⟨r2,hr2,hread⟩ := readUntilDelim_spec hD hd hA hfirst _ r1 hr1
    obtain ⟨hcr,hlf,hcap⟩ := lineEnd_line parts
    obtain ⟨r3,hr3,hline⟩ := readHeaderLine_line hD.toDelivers _ _ r2 hr2 hcr hlf hcap
    let s1 : Shared := { s with loads := s.loads+1, sent := s.sent ++ [.frame cfg.source p.frame] }
    obtain ⟨r4,s2,hrest,hsent⟩ := ih r3 s1 true hstop hrecv hr3
    refine ⟨r4,s2,eventually_of_succ ?_,by simpa [s1] using hsent⟩
    filter_upwards [hskip,hread,hline,hrest] with fuel hf hg hh hi
    simp only [pumpLoop,Shared.load,hstop,Bool.false_eq_true,if_false,hf,hg,hh,Shared.send,hrecv,
      trimCrlf_append,if_true]
    simpa [s1,hrecv] using hi

theorem pumpFrames_spec (hD : BufDelivers D) (b : Boundary) (cfg : StreamConfig)
    (parts : List (Part b.delim)) (hparts : parts ≠ []) (r : ρ) (s : Shared)
    (hstop : ∀ i, s.stop i = false) (hrecv : s.receiver = none)
    (hr : D r (multipart b.delim parts)) : SendsAll r cfg s parts := by
  have hcr : CR ∉ b.delim := by simp [b.delim_eq,CR]; exact b.no_cr
  have hlf : LF ∉ b.delim := by simp [b.delim_eq,LF]; exact b.no_lf
  have hcap : b.delim.length+1 ≤ LINE_CAP := by
    have hs := b.short
    simp only [b.delim_eq,List.length_cons,LINE_CAP]
    omega
  obtain ⟨r1,hr1,hline⟩ := readHeaderLine_line hD.toDelivers _ _ r hr hcr hlf hcap
  obtain ⟨r2,s2,hloop,hsent⟩ :=
    pumpLoop_spec hD (by simp [b.delim_eq]) cfg parts r1 s false hstop hrecv hr1
  refine ⟨r2,s2,?_,hsent⟩
  filter_upwards [hline,hloop] with fuel hf hg
  have hsome : parts.isEmpty = false := by simpa using hparts
  simpa only [pumpFrames,hf,hsome,Bool.not_false,Bool.or_true] using hg

end Multipart

/-- Framing is lossless: over any reader that gives the bytes of a multipart body in order,
however it cuts its reads, exactly the frames of the body are sent, and the same frames are
sent where the body comes in chunks of any sizes. -/
theorem pumpFrames_lossless {ρ : Type} [Readers.Read ρ] {D : ρ → List UInt8 → Prop}
    (hD : Delivers D) (b : Boundary) (cfg : StreamConfig) (parts : List (Part b.delim))
    (hparts : parts ≠ []) (s : Shared) (hstop : ∀ i, s.stop i = false)
    (hrecv : s.receiver = none) :
    (∀ r : BufReader ρ, BufReader.After D r (multipart b.delim parts) → SendsAll r cfg s parts) ∧
    ∀ (chunks : List Chunk) (last : SizeLine 0) (trailer : List UInt8) (r : BufReader ρ),
      chunkBody chunks = multipart b.delim parts →
      BufReader.After D r (encodeChunks chunks last trailer) →
      SendsAll (BufReader.new (ChunkedReader.new r)) cfg s parts := by
  have hbuf := BufReader.delivers hD
  constructor
  · intro r hr
    exact pumpFrames_spec hbuf b cfg parts hparts r s hstop hrecv hr
  · intro chunks last trailer r hbody hr
    have hchunked := BufReader.delivers (ChunkedReader.delivers hbuf.toDelivers)
    have hnext := ChunkedReader.Decodes.next r chunks last trailer hr
    rw [hbody] at hnext
    exact pumpFrames_spec hchunked b cfg parts hparts _ s hstop hrecv ⟨_,hnext,rfl⟩

def boundaryF : Boundary := ⟨"f",by decide,by decide,by decide⟩

def dashedPart : Part boundaryF.delim where
  headers := [⟨[65],by decide,by decide,by decide,by decide⟩]
  frame := [255,45,45]
  first := by decide
  fits := by decide

def dashedChunk : Chunk where
  data := multipart boundaryF.delim [dashedPart]
  ne_nil := by decide
  small := by decide
  line := ⟨⟨[48,49,54],[0,1,6],by decide,by decide,by decide,[59,120],by decide,by decide,by decide⟩,
    by decide⟩

def zeroLine : SizeLine 0 :=
  ⟨.bare [48] [0] rfl (List.cons_ne_nil _ _) rfl,Nat.le_of_ble_eq_true rfl⟩

def cameraConfig : StreamConfig := ⟨"camera","192.168.43.1",8080,"/stream"⟩

theorem pumpFrames_dashed :
    SendsAll (BufReader.new (⟨(multipart boundaryF.delim [dashedPart]).map fun b => .ok [b]⟩ : Script))
      cameraConfig ⟨fun _ => false,0,none,[]⟩ [dashedPart] ∧
    SendsAll (BufReader.new (ChunkedReader.new (BufReader.new
        (⟨[.ok (encodeChunks [dashedChunk] zeroLine CRLF)]⟩ : Script))))
      cameraConfig ⟨fun _ => false,0,none,[]⟩ [dashedPart] := by
  have h := pumpFrames_lossless Script.delivers boundaryF cameraConfig [dashedPart] (by decide)
    ⟨fun _ => false,0,none,[]⟩ (fun _ => rfl) rfl
  constructor
  · exact h.1 _ ⟨_,Script.spells_single _,by decide⟩
  · exact h.2 [dashedChunk] zeroLine CRLF _ (by decide)
      ⟨_,⟨[encodeChunks [dashedChunk] zeroLine CRLF],rfl,by decide,rfl⟩,by decide⟩

end MjpegStream
end Robocol
