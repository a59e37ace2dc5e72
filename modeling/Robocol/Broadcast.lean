import Robocol.CameraEvents
import Robocol.ContentType
import Robocol.Dwindling
import Robocol.InterruptedFrames

/-! A camera from end to end: what is shown of a broadcast that may be cut anywhere, on each of the
connections of a run. -/
namespace Robocol
namespace MjpegStream

open Readers StdText HeaderLines Filter Borders

section Search

variable {ρ : Type} [BufRead ρ] {D : ρ → ℕ → ℕ → List UInt8 → Prop} {delim P A : List UInt8}
  {failure : List ℕ} {lo hi : ℕ}

/-- The search ends behind the delimiter, or where the reader stops before it. -/
inductive Seeks (D : ρ → ℕ → ℕ → List UInt8 → Prop) (lo hi k : ℕ) (T A : List UInt8)
    (run : ℕ → Run ρ (List UInt8)) : Prop
  | found (r' : ρ) (hhi : k ≤ hi) (hr : D r' (lo-k) (hi-k) T)
      (hrun : ∀ᶠ fuel in atTop, run fuel = some (.ok A,r'))
  | missed (e : IoError) (r' : ρ) (hlo : lo < k) (hrun : ∀ᶠ fuel in atTop, run fuel = some (.error e,r'))

variable (delim failure) in
theorem readUntilDelimFrom_stop {res : Except IoError (List UInt8)} {r r' : ρ} (hres : Stops res)
    (hfill : ∀ᶠ fuel in atTop, BufRead.fillBuf fuel r = some (res,r')) (out : List UInt8) (m : ℕ) :
    ∃ e, ∀ᶠ fuel in atTop, readUntilDelimFrom delim failure fuel r out m = some (.error e,r') := by
  cases res with
  | ok xs =>
    obtain rfl : xs = [] := hres
    refine ⟨⟨.unexpectedEof,"stream ended mid-frame"⟩,eventually_of_succ ?_⟩
    filter_upwards [hfill] with fuel hf
    simp only [readUntilDelimFrom,hf,if_true]
  | error e =>
    refine ⟨e,eventually_of_succ ?_⟩
    filter_upwards [hfill] with fuel hf
    simp only [readUntilDelimFrom,hf]

/-- `P` has been read of a text with the delimiter behind `A`. By induction on what comes behind. -/
theorem readUntilDelimFrom_seeks (hD : BufDwindles D) (ht : TableTo delim failure delim.length)
    (hfirst : FirstEnd A delim) (hA : A.length ≤ MAX_FRAME_BYTES) (T S : List UInt8) {out : List UInt8}
    {m : ℕ} (r : ρ) {lo hi : ℕ} (hwhole : P ++ S = A ++ delim ++ T) (h : Scanned delim P out m)
    (hopen : NoEnd delim P) (hcap : out.length ≤ MAX_FRAME_BYTES) (hr : D r lo hi S) :
    Seeks D lo hi ((A ++ delim).length-P.length) T A (readUntilDelimFrom delim failure · r out m) := by
  induction hn : S.length using Nat.strong_induction_on generalizing P S out m r lo hi with
  | _ n ih =>
    have hend : A ++ delim <+: P ++ S := hwhole ▸ List.prefix_append _ _
    have hshort : P.length < (A ++ delim).length := by
      by_contra hle
      exact hopen _ (List.prefix_of_prefix_length_le hend (List.prefix_append _ _) (Nat.le_of_not_lt hle))
        (List.suffix_append _ _)
    obtain ⟨res,r1,hfill,hgave⟩ := hD.fillBuf hr
    cases hgave with
    | spent hlo hres hr1 =>
      obtain ⟨e,hrun⟩ := readUntilDelimFrom_stop delim failure hres hfill out m
      exact .missed e r1 (by omega) hrun
    | @bytes xs S' hne hS hhi hconsume =>
      obtain ⟨s,hscan,hs⟩ := scanBytes_spec ht xs 0 h hopen hcap
      cases hs with
      | found ys zs B hcut hB hfirst' hB' =>
        have hPy : P ++ ys <+: P ++ S := ⟨zs ++ S',by simp [hS,hcut]⟩
        obtain rfl := hfirst'.unique hfirst (hB ▸ hPy) hend
        have hlen : (B ++ delim).length-P.length = ys.length := by
          rw [← hB,List.length_append,Nat.add_sub_cancel_left]
        have hle : ys.length ≤ xs.length := by simp [hcut]
        have hT : S.drop ys.length = T := by
          have hsplit : P ++ S = P ++ ys ++ S.drop ys.length := by
            rw [hS,hcut,List.append_assoc,List.drop_left]
            simp
          rw [hB,hwhole] at hsplit
          exact (List.append_cancel_left hsplit).symm
        refine .found (BufRead.consume r1 ys.length) (hlen ▸ hle.trans hhi) ?_ (eventually_of_succ ?_)
        · rw [hlen,← hT]
          exact hconsume ys.length hle
        · filter_upwards [hfill] with fuel hf
          rw [Nat.zero_add] at hscan
          simp only [readUntilDelimFrom,hf,if_neg hne,hscan]
      | overflow ys zs out' m' hcut hnone hscanned hover =>
        have hP : P ++ ys <+: P ++ S := ⟨zs ++ S',by simp [hS,hcut]⟩
        have hle := hscanned.length_le (hnone.le hP hend)
        omega
      | more out' m' hnone hscanned hcap' =>
        have hx := List.length_pos_iff.mpr hne
        have hlen : S'.length < n := by
          have hl := congrArg List.length hS
          simp only [List.length_append] at hl
          omega
        have hr1 := hconsume xs.length le_rfl
        rw [hS,List.drop_left] at hr1
        have hwhole' : (P ++ xs) ++ S' = A ++ delim ++ T := by rw [← hwhole,hS,List.append_assoc]
        have hmore : (P ++ xs).length < (A ++ delim).length := by
          by_contra hle
          have hend' : A ++ delim <+: (P ++ xs) ++ S' := hwhole' ▸ List.prefix_append _ _
          exact hnone _ (List.prefix_of_prefix_length_le hend' (List.prefix_append _ _)
            (Nat.le_of_not_lt hle)) (List.suffix_append _ _)
        have hstep {res : Except IoError (List UInt8)} {r2 : ρ}
            (hrest : ∀ᶠ fuel in atTop, readUntilDelimFrom delim failure fuel
              (BufRead.consume r1 xs.length) out' m' = some (res,r2)) :
            ∀ᶠ fuel in atTop, readUntilDelimFrom delim failure fuel r out m = some (res,r2) := by
          refine eventually_of_succ ?_
          filter_upwards [hfill,hrest] with fuel hf hg
          simp only [readUntilDelimFrom,hf,if_neg hne,hscan,hg]
        have hseeks := ih S'.length hlen S' _ hwhole' hscanned hnone hcap' hr1 rfl
        have hleft : (A ++ delim).length-(P ++ xs).length = (A ++ delim).length-P.length-xs.length := by
          simp only [List.length_append]
          omega
        have hlt : xs.length < (A ++ delim).length-P.length := by
          simp only [List.length_append] at hmore ⊢
          omega
        rw [hleft] at hseeks
        generalize (A ++ delim).length-P.length = k at hseeks hlt
        cases hseeks with
        | found r2 hhi2 hr2 hrun =>
          have hsum : xs.length+(k-xs.length) = k := by omega
          rw [Nat.sub_sub,Nat.sub_sub,hsum] at hr2
          exact .found r2 (by omega) hr2 (hstep hrun)
        | missed e r2 hlo2 hrun => exact .missed e r2 (by omega) (hstep hrun)

theorem readUntilDelim_seeks (hD : BufDwindles D) (hd : delim ≠ []) (hfirst : FirstEnd A delim)
    (hA : A.length ≤ MAX_FRAME_BYTES) (T : List UInt8) (r : ρ) (hr : D r lo hi (A ++ delim ++ T)) :
    Seeks D lo hi (A ++ delim).length T A (readUntilDelim · r delim) := by
  obtain ⟨t,htable,-,ht⟩ := kmpFailure_table delim hd
  have hseeks := readUntilDelimFrom_seeks hD ht hfirst hA T _ r (List.nil_append _) (Scanned.start hd)
    (.nil hd) (Nat.zero_le _) hr
  have hrun (fuel : ℕ) : readUntilDelim fuel r delim = readUntilDelimFrom delim t fuel r [] 0 := by
    simp only [readUntilDelim,htable]
  simp only [hrun]
  exact hseeks

theorem readUntilDelim_over (hD : BufDwindles D) (hd : delim ≠ []) {S : List UInt8} {r : ρ} (h : D r 0 0 S) :
    ∃ e r', ∀ᶠ fuel in atTop, readUntilDelim fuel r delim = some (.error e,r') := by
  obtain ⟨t,htable,-,ht⟩ := kmpFailure_table delim hd
  obtain ⟨res,r1,hfill,hgave⟩ := hD.fillBuf h
  cases hgave with
  | bytes hne hS hhi hr => exact absurd (List.length_eq_zero_iff.mp (Nat.le_zero.mp hhi)) hne
  | spent hlo hres hr1 =>
    obtain ⟨e,hrun⟩ := readUntilDelimFrom_stop delim t hres hfill [] 0
    refine ⟨e,r1,?_⟩
    filter_upwards [hrun] with fuel hf
    simp only [readUntilDelim,htable,hf]

end Search

section Frames

variable {ρ : Type} [BufRead ρ] {D : ρ → ℕ → ℕ → List UInt8 → Prop} {delim S : List UInt8}
  {cfg : StreamConfig} {r : ρ} {s s' : Shared} {lo hi : ℕ}

/-- The bytes of a part, and of the delimiter behind it. -/
def Part.reach (p : Part delim) : ℕ := (headerBlock p.headers).length+(p.frame ++ CRLF ++ delim).length

/-- The frames that are complete within the next `k` bytes: those whose delimiter has come. -/
def arrived : ℕ → List (Part delim) → ℕ
  | _, [] => 0
  | k, p :: parts => if k < p.reach then 0 else arrived (k-(p.reach+((lineEnd parts).length+2))) parts+1

/-- The frames complete within the first `k` bytes of the body. -/
def shown (k : ℕ) (parts : List (Part delim)) : ℕ := arrived (k-(delim.length+2)) parts

theorem reach_pos (p : Part delim) : 0 < p.reach := by
  simp only [Part.reach,List.length_append,CRLF,List.length_cons]
  omega

theorem arrived_zero (parts : List (Part delim)) : arrived 0 parts = 0 := by
  cases parts with
  | nil => rfl
  | cons p parts => rw [arrived,if_pos (reach_pos p)]

theorem arrived_le (k : ℕ) (parts : List (Part delim)) : arrived k parts ≤ parts.length := by
  induction parts generalizing k with
  | nil => exact le_rfl
  | cons p parts ih =>
    rw [arrived]
    split
    · exact Nat.zero_le _
    · exact Nat.succ_le_succ (ih _)

theorem arrived_all (parts : List (Part delim)) :
    arrived (afterLine parts).length parts = parts.length := by
  induction parts with
  | nil => rfl
  | cons p parts ih =>
    have hlen : (afterLine (p :: parts)).length =
        p.reach+((lineEnd parts).length+2)+(afterLine parts).length := by
      simp only [afterLine,Part.reach,List.length_append,CRLF,List.length_cons,List.length_nil]
      omega
    rw [arrived,if_neg (by omega),hlen,Nat.add_sub_cancel_left,ih,List.length_cons]

theorem shown_all (parts : List (Part delim)) : shown (multipart delim parts).length parts = parts.length := by
  have hlen : (multipart delim parts).length-(delim.length+2) = (afterLine parts).length := by
    simp [multipart,CRLF]
    omega
  rw [shown,hlen,arrived_all]

/-- What the loop came to: it sent the first `n` frames. -/
structure Pumps (parts : List (Part delim)) (cfg : StreamConfig) (s s' : Shared) (lo hi n : ℕ) : Prop where
  most : n ≤ arrived hi parts
  least : (∀ i, s.stop i = false) → arrived lo parts ≤ n
  sends : SendsFrames cfg s s' ((parts.take n).map Part.frame)

theorem load_sends (hlive : s.receiver = none) : SendsFrames cfg s s.load.2 [] :=
  ⟨hlive,(List.append_nil _).symm⟩

variable (delim cfg s) in
theorem pumpLoop_over (hD : BufDwindles D) (h : D r lo hi S) (hend : hi = 0 ∨ S = []) (delivered : Bool) :
    ∃ r', ∀ᶠ fuel in atTop, pumpLoop delim cfg fuel r s delivered = some (.ok delivered,r',s.load.2) := by
  by_cases hstop : s.load.1 = true
  · exact ⟨r,pumpLoop_ended (pumpRound_stopped hstop)⟩
  · obtain ⟨e,r',-,hskip⟩ := skipPartHeaders_over hD.toDwindles h hend none
    exact ⟨r',pumpLoop_ended (pumpRound_headless (by simpa using hstop) hskip)⟩

/-- The channel behind a round that sends the frame of a part. -/
def Shared.sentFrame (s : Shared) (cfg : StreamConfig) (p : Part delim) : Shared :=
  { s.load.2 with sent := s.sent ++ [.frame cfg.source p.frame] }

/-- A round comes to the end of the stream, or through a part, and perhaps to the end behind it. -/
inductive RoundOf (D : ρ → ℕ → ℕ → List UInt8 → Prop) (cfg : StreamConfig) (r : ρ) (s : Shared) (lo hi : ℕ)
    (p : Part delim) (parts : List (Part delim)) : Prop
  | ended (e : PumpEnd) (r' : ρ) (hlo : lo < p.reach)
      (hrun : ∀ᶠ fuel in atTop, pumpRound delim cfg fuel r s = some (.ended e r' s.load.2))
  | last (r' : ρ) (S : List UInt8) (hhi : p.reach ≤ hi) (hlo : lo < p.reach+((lineEnd parts).length+2))
      (hr : D r' 0 0 S)
      (hrun : ∀ᶠ fuel in atTop, pumpRound delim cfg fuel r s = some (.next r' (s.sentFrame cfg p)))
  | next (r' : ρ) (hhi : p.reach ≤ hi) (hr : D r' (lo-(p.reach+((lineEnd parts).length+2)))
        (hi-(p.reach+((lineEnd parts).length+2))) (afterLine parts))
      (hrun : ∀ᶠ fuel in atTop, pumpRound delim cfg fuel r s = some (.next r' (s.sentFrame cfg p)))

theorem pumpRound_part (hD : BufDwindles D) (hd : delim ≠ []) (cfg : StreamConfig) (p : Part delim)
    (parts : List (Part delim)) (hlive : s.receiver = none) (hgo : s.load.1 = false)
    (hr : D r lo hi (afterLine (p :: parts))) : RoundOf D cfg r s lo hi p parts := by
  have hreach : p.reach = (headerBlock p.headers).length+(p.frame ++ CRLF ++ delim).length := rfl
  obtain ⟨length,hskips⟩ := skipPartHeaders_passes hD.toDwindles p.headers none r hr
  cases hskips with
  | short res r1 S1 hlo hr1 hskip =>
    cases res with
    | error e => exact .ended .broken r1 (by omega) (pumpRound_headless hgo hskip)
    | ok length =>
      obtain ⟨e,r2,hseek⟩ := readUntilDelim_over hD hd hr1
      exact .ended .broken r2 (by omega) (pumpRound_cut cfg hgo hskip hseek)
  | through r1 hhi1 hr1 hskip =>
    have hfirst : FirstEnd (p.frame ++ CRLF) delim := by
      apply FirstAt.firstEnd (T := [])
      simpa [CRLF] using p.first
    have hA : (p.frame ++ CRLF).length ≤ MAX_FRAME_BYTES := by simpa [CRLF] using p.fits
    cases readUntilDelim_seeks hD hd hfirst hA _ r1 hr1 with
    | missed e r2 hlo2 hseek => exact .ended .broken r2 (by omega) (pumpRound_cut cfg hgo hskip hseek)
    | found r2 hhi2 hr2 hseek =>
      rw [Nat.sub_sub,Nat.sub_sub,← hreach] at hr2
      have hround {line : Except IoError Text} {r3 : ρ}
          (hline : ∀ᶠ fuel in atTop, readHeaderLine fuel r2 = some (line,r3)) :
          ∀ᶠ fuel in atTop, pumpRound delim cfg fuel r s = some (.next r3 (s.sentFrame cfg p)) := by
        have hread := pumpRound_read cfg hgo hskip hseek hline
        simp only [send_live (show s.load.2.receiver = none from hlive),trimCrlf_append,if_true] at hread
        exact hread
      obtain ⟨hcr,hlf,hcap⟩ := lineEnd_line parts
      cases readHeaderLine_passes hD.toDwindles hr2 hcr hlf hcap with
      | through r3 hhi3 hr3 hline =>
        rw [Nat.sub_sub,Nat.sub_sub] at hr3
        exact .next r3 (by omega) hr3 (hround hline)
      | short res r3 S3 hlo3 hr3 hline => exact .last r3 S3 (by omega) (by omega) hr3 (hround hline)

variable (cfg) in
/-- The frame loop over a stream that may stop anywhere, from the line behind a delimiter on. -/
theorem pumpLoop_pumps (hD : BufDwindles D) (hd : delim ≠ []) (parts : List (Part delim)) (r : ρ) (s : Shared)
    {lo hi : ℕ} (delivered : Bool) (hlive : s.receiver = none) (hr : D r lo hi (afterLine parts)) :
    ∃ n r' s', Pumps parts cfg s s' lo hi n ∧ ∀ᶠ fuel in atTop,
      pumpLoop delim cfg fuel r s delivered = some (.ok (delivered || decide (n ≠ 0)),r',s') := by
  induction parts generalizing r s lo hi delivered with
  | nil =>
    obtain ⟨r',hrun⟩ := pumpLoop_over delim cfg s hD hr (.inr rfl) delivered
    refine ⟨0,r',s.load.2,⟨Nat.zero_le _,fun _ => le_rfl,load_sends hlive⟩,?_⟩
    simpa using hrun
  | cons p parts ih =>
    have hsends : SendsFrames cfg s (s.sentFrame cfg p) [p.frame] := ⟨hlive,rfl⟩
    by_cases hstop : s.load.1 = true
    · refine ⟨0,r,s.load.2,⟨Nat.zero_le _,fun h => ?_,load_sends hlive⟩,?_⟩
      · exact absurd ((h s.loads).symm.trans hstop) Bool.false_ne_true
      · simpa using pumpLoop_ended (pumpRound_stopped hstop)
    cases pumpRound_part hD hd cfg p parts hlive (by simpa using hstop) hr with
    | ended e r' hlo hrun =>
      refine ⟨0,r',s.load.2,⟨Nat.zero_le _,fun _ => ?_,load_sends hlive⟩,by simpa using pumpLoop_ended hrun⟩
      rw [arrived,if_pos hlo]
    | last r1 S1 hhi hlo hr1 hrun =>
      obtain ⟨r2,hover⟩ := pumpLoop_over delim cfg (s.sentFrame cfg p) hD hr1 (.inl rfl) true
      refine ⟨1,r2,(s.sentFrame cfg p).load.2,⟨?_,fun _ => ?_,?_⟩,?_⟩
      · rw [arrived,if_neg (by omega)]
        exact Nat.le_add_left _ _
      · rw [arrived]
        split
        · exact Nat.zero_le _
        · rw [Nat.sub_eq_zero_of_le hlo.le,arrived_zero]
      · exact hsends.trans (load_sends hsends.live)
      · simpa using pumpLoop_next hrun _ hover
    | next r1 hhi hr1 hrun =>
      obtain ⟨n,r2,s2,hpumps,hrest⟩ := ih r1 (s.sentFrame cfg p) true hsends.live hr1
      refine ⟨n+1,r2,s2,⟨?_,fun h => ?_,?_⟩,?_⟩
      · rw [arrived,if_neg (by omega)]
        exact Nat.succ_le_succ hpumps.most
      · rw [arrived]
        split
        · exact Nat.zero_le _
        · exact Nat.succ_le_succ (hpumps.least h)
      · exact hsends.trans hpumps.sends
      · simpa using pumpLoop_next hrun _ hrest

variable (delim cfg s) in
theorem pumpFrames_over (hD : BufDwindles D) (h : D r 0 0 S) :
    ∃ r', ∀ᶠ fuel in atTop, pumpFrames fuel r delim cfg s = some (.ok false,r',s) := by
  obtain ⟨e,r',-,hline⟩ := readHeaderLine_over hD.toDwindles h (.inl rfl)
  refine ⟨r',?_⟩
  filter_upwards [hline] with fuel hf
  simp only [pumpFrames,hf]

/-- Of a body that may stop anywhere, the frames are sent that are complete. -/
structure SendsFirst (parts : List (Part delim)) (cfg : StreamConfig) (s s' : Shared) (least most n : ℕ) : Prop where
  most : n ≤ most
  least : (∀ i, s.stop i = false) → least ≤ n
  sends : SendsFrames cfg s s' ((parts.take n).map Part.frame)

theorem pumpFrames_sends (hD : BufDwindles D) (b : Boundary) (cfg : StreamConfig)
    (parts : List (Part b.delim)) (hlive : s.receiver = none) (hr : D r lo hi (multipart b.delim parts)) :
    ∃ n r' s', SendsFirst parts cfg s s' (shown lo parts) (shown hi parts) n ∧ ∀ᶠ fuel in atTop,
      pumpFrames fuel r b.delim cfg s = some (.ok (decide (n ≠ 0)),r',s') := by
  have hcr : CR ∉ b.delim := by simp [b.delim_eq,CR]; exact b.no_cr
  have hlf : LF ∉ b.delim := by simp [b.delim_eq,LF]; exact b.no_lf
  have hcap : b.delim.length+1 ≤ LINE_CAP := by
    have hs := b.short
    simp only [b.delim_eq,List.length_cons,LINE_CAP]
    omega
  cases readHeaderLine_passes hD.toDwindles hr hcr hlf hcap with
  | through r1 hhi hr1 hline =>
    obtain ⟨n,r2,s2,hpumps,hloop⟩ :=
      pumpLoop_pumps cfg hD (by simp [b.delim_eq]) parts r1 s false hlive hr1
    refine ⟨n,r2,s2,⟨hpumps.most,hpumps.least,hpumps.sends⟩,?_⟩
    filter_upwards [hline,hloop] with fuel hf hg
    simpa only [pumpFrames,hf,Bool.false_or] using hg
  | short res r1 S1 hlo hr1 hline =>
    have hnone : shown lo parts = 0 := by rw [shown,Nat.sub_eq_zero_of_le hlo.le,arrived_zero]
    have hquiet : SendsFrames cfg s s.load.2 [] := load_sends hlive
    cases res with
    | error e =>
      refine ⟨0,r1,s,⟨Nat.zero_le _,fun _ => hnone.le,.none hlive⟩,?_⟩
      filter_upwards [hline] with fuel hf
      simp only [pumpFrames,hf]
      rfl
    | ok line =>
      obtain ⟨r2,hloop⟩ := pumpLoop_over b.delim cfg s hD hr1 (.inl rfl) false
      refine ⟨0,r2,s.load.2,⟨Nat.zero_le _,fun _ => hnone.le,hquiet⟩,?_⟩
      filter_upwards [hline,hloop] with fuel hf hg
      simp only [pumpFrames,hf,hg]
      rfl

end Frames

section Heads

variable {ρ : Type} [BufRead ρ] {D : ρ → ℕ → ℕ → List UInt8 → Prop} {S : List UInt8} {lo hi : ℕ}
  {boundary : Option String} {chunked : Bool}

theorem readHeadLines_over (hD : Dwindles D) (boundary : Option String) (chunked : Bool) {r : ρ}
    (h : D r 0 0 S) :
    ∃ e r', D r' 0 0 S ∧ ∀ᶠ fuel in atTop, readHeadLines fuel r boundary chunked = some (.error e,r') := by
  obtain ⟨e,r',hr,hline⟩ := readHeaderLine_over hD h (.inl rfl)
  refine ⟨e,r',hr,eventually_of_succ ?_⟩
  filter_upwards [hline] with fuel hf
  simp only [readHeadLines,hf]

theorem readHeadLines_short (hD : Dwindles D) {res : Except IoError Text} {r r' : ρ} (hr : D r' 0 0 S)
    (hline : ∀ᶠ fuel in atTop, readHeaderLine fuel r = some (res,r')) :
    ∃ res' r'', D r'' 0 0 S ∧ ∀ᶠ fuel in atTop, readHeadLines fuel r boundary chunked = some (res',r'') := by
  cases res with
  | error e =>
    refine ⟨.error e,r',hr,eventually_of_succ ?_⟩
    filter_upwards [hline] with fuel hf
    simp only [readHeadLines,hf]
  | ok line =>
    by_cases hnil : line = []
    · refine ⟨.ok (boundary,chunked),r',hr,eventually_of_succ ?_⟩
      filter_upwards [hline] with fuel hf
      simp only [readHeadLines,hf,if_pos hnil]
    · obtain ⟨e,r'',hr'',hrest⟩ := readHeadLines_over hD ((parseBoundary line).or boundary)
        (chunked || announcesChunked line) hr
      refine ⟨.error e,r'',hr'',eventually_of_succ ?_⟩
      filter_upwards [hline,hrest] with fuel hf hg
      simp only [readHeadLines,hf,if_neg hnil,hg]

/-- Whether a header says that the body comes in chunks. -/
def saysChunked (headers : List HeaderLine) : Bool :=
  headers.any fun l => announcesChunked (fromUtf8Lossy l.bytes)

theorem readHeadLines_passes (hD : Dwindles D) (headers : List HeaderLine) (boundary : Option String)
    (chunked : Bool) (r : ρ) {lo hi : ℕ} (h : D r lo hi (headerBlock headers ++ S)) :
    Passes D lo hi (headerBlock headers).length S (lastBoundary boundary headers,chunked || saysChunked headers)
      (readHeadLines · r boundary chunked) := by
  induction headers generalizing boundary chunked r lo hi with
  | nil =>
    have h : D r lo hi ([] ++ CRLF ++ S) := h
    cases readHeaderLine_passes hD h (by simp) (by simp) (by decide) with
    | through r' hhi hr hrun =>
      refine .through r' hhi hr (eventually_of_succ ?_)
      filter_upwards [hrun] with fuel hf
      simp [readHeadLines,hf,lastBoundary,saysChunked]
    | short res r' S' hlo hr hrun =>
      obtain ⟨res',r'',hr'',hlines⟩ := readHeadLines_short hD hr hrun
      exact .short res' r'' S' hlo hr'' hlines
  | cons l headers ih =>
    rw [headerBlock_cons] at h
    rw [length_headerBlock_cons]
    cases readHeaderLine_whole hD h with
    | through r1 hhi hr1 hline =>
      have hstep {res : Except IoError (Option String × Bool)} {r2 : ρ} (hrest : ∀ᶠ fuel in atTop,
          readHeadLines fuel r1 ((parseBoundary (fromUtf8Lossy l.bytes)).or boundary)
            (chunked || announcesChunked (fromUtf8Lossy l.bytes)) = some (res,r2)) :
          ∀ᶠ fuel in atTop, readHeadLines fuel r boundary chunked = some (res,r2) := by
        refine eventually_of_succ ?_
        filter_upwards [hline,hrest] with fuel hf hg
        simp only [readHeadLines,hf,if_neg (fromUtf8Lossy_ne_nil l.ne_nil),hg]
      cases ih _ _ r1 hr1 with
      | through r2 hhi2 hr2 hrest =>
        rw [Nat.sub_sub,Nat.sub_sub] at hr2
        rw [Bool.or_assoc] at hrest
        exact .through r2 (by omega) hr2 (hstep hrest)
      | short res r2 S' hlo2 hr2 hrest => exact .short res r2 S' (by omega) hr2 (hstep hrest)
    | short res r' S' hlo hr hrun =>
      obtain ⟨res',r'',hr'',hlines⟩ := readHeadLines_short hD hr hrun
      exact .short res' r'' S' (by omega) hr'' hlines

def Response.headers {h : ContentType} (resp : Response h) : List HeaderLine :=
  resp.before ++ resp.contentType :: resp.after

theorem Response.length_bytes {h : ContentType} (resp : Response h) :
    resp.bytes.length = resp.status.bytes.length+2+(headerBlock resp.headers).length := by
  simp only [Response.bytes,Response.headers,List.length_append,CRLF,List.length_cons,List.length_nil]

theorem readResponseHead_passes (hD : Dwindles D) {h : ContentType} {b : String}
    (hb : parseBoundary h.line = some b) (resp : Response h) {r : ρ} (hr : D r lo hi (resp.bytes ++ S)) :
    Passes D lo hi resp.bytes.length S ⟨b,saysChunked resp.headers⟩ (readResponseHead · r) := by
  have hok : (splitWhitespace (fromUtf8Lossy resp.status.bytes)).contains "200".toList = true :=
    List.contains_iff_mem.2 resp.ok
  have hlast : lastBoundary none resp.headers = some b := by
    rw [Response.headers,lastBoundary,List.foldl_append,List.foldl_cons,resp.is_line,hb,Option.some_or]
    exact lastBoundary_of_none (some b) resp.others
  rw [Response.bytes,List.append_assoc] at hr
  rw [resp.length_bytes]
  cases readHeaderLine_whole hD hr with
  | through r1 hhi hr1 hstatus =>
    cases readHeadLines_passes hD resp.headers none false r1 hr1 with
    | through r2 hhi2 hr2 hlines =>
      rw [Nat.sub_sub,Nat.sub_sub] at hr2
      refine .through r2 (by omega) hr2 ?_
      filter_upwards [hstatus,hlines] with fuel hf hg
      simp only [readResponseHead,hf,hok,hg,hlast]
      rfl
    | short res r2 S' hlo hr2 hlines =>
      have hshort : ∃ res', ∀ᶠ fuel in atTop, readResponseHead fuel r = some (res',r2) := by
        cases res with
        | error e =>
          refine ⟨.error e,?_⟩
          filter_upwards [hstatus,hlines] with fuel hf hg
          simp only [readResponseHead,hf,hok,hg]
          rfl
        | ok x =>
          obtain ⟨found,chunked⟩ := x
          cases found with
          | none =>
            refine ⟨.error ⟨.invalidData,"no multipart boundary in response"⟩,?_⟩
            filter_upwards [hstatus,hlines] with fuel hf hg
            simp only [readResponseHead,hf,hok,hg]
            rfl
          | some b =>
            refine ⟨.ok ⟨b,chunked⟩,?_⟩
            filter_upwards [hstatus,hlines] with fuel hf hg
            simp only [readResponseHead,hf,hok,hg]
            rfl
      obtain ⟨res',hrun⟩ := hshort
      exact .short res' r2 S' (by omega) hr2 hrun
  | short res r1 S' hlo hr1 hstatus =>
    cases res with
    | error e =>
      refine .short (.error e) r1 S' (by omega) hr1 ?_
      filter_upwards [hstatus] with fuel hf
      simp only [readResponseHead,hf]
    | ok status =>
      by_cases hcode : (splitWhitespace status).contains "200".toList = true
      · obtain ⟨e,r2,hr2,hlines⟩ := readHeadLines_over hD none false hr1
        refine .short (.error e) r2 S' (by omega) hr2 ?_
        filter_upwards [hstatus,hlines] with fuel hf hg
        simp only [readResponseHead,hf,hcode,hg]
        rfl
      · refine .short (.error ⟨.invalidData,"unexpected HTTP status: " ++ String.ofList status⟩) r1 S'
          (by omega) hr1 ?_
        filter_upwards [hstatus] with fuel hf
        simp only [readResponseHead,hf,hcode]
        rfl

end Heads

section Broadcasts

/-- How a body is sent: as it is, or in chunks that spell it. -/
inductive Transfer (body : List UInt8)
  | plain
  | chunked (chunks : List Chunk) (last : SizeLine 0) (trailer : List UInt8) (spells : chunkBody chunks = body)

def Transfer.isChunked {body : List UInt8} : Transfer body → Bool
  | plain => false
  | chunked _ _ _ _ => true

def Transfer.bytes {body : List UInt8} : Transfer body → List UInt8
  | plain => body
  | chunked chunks last trailer _ => encodeChunks chunks last trailer

/-- All that a camera has to say to one client. -/
structure Broadcast where
  contentType : ContentType
  head : Response contentType
  boundary : Boundary
  parts : List (Part boundary.delim)
  transfer : Transfer (multipart boundary.delim parts)
  plain : contentType.Plain
  named : boundary.text = String.ofList contentType.value
  announced : saysChunked head.headers = transfer.isChunked

variable {v : Broadcast} {T : List UInt8}

def Broadcast.bytes (v : Broadcast) : List UInt8 := v.head.bytes ++ v.transfer.bytes

/-- The frames that are complete within the bytes of the body that come where `T` comes of the
broadcast: those of a chunk without all of its CRLF may come or not. -/
def Broadcast.least (v : Broadcast) (T : List UInt8) : ℕ :=
  let k := T.length-v.head.bytes.length
  match v.transfer with
  | .plain => shown k v.parts
  | .chunked chunks _ _ _ => shown (ChunkedReader.sure k chunks) v.parts

def Broadcast.most (v : Broadcast) (T : List UInt8) : ℕ :=
  let k := T.length-v.head.bytes.length
  match v.transfer with
  | .plain => shown k v.parts
  | .chunked chunks _ _ _ => shown (ChunkedReader.possible k chunks) v.parts

theorem Broadcast.least_whole (v : Broadcast) : v.least v.bytes = v.parts.length := by
  have hlen : v.bytes.length-v.head.bytes.length = v.transfer.bytes.length := by simp [Broadcast.bytes]
  rw [Broadcast.least,hlen]
  cases v.transfer with
  | plain => exact shown_all v.parts
  | chunked chunks last trailer spells =>
    have hall : (chunks.flatMap Chunk.encoded).length ≤ (encodeChunks chunks last trailer).length := by
      rw [encodeChunks,List.length_append]
      exact Nat.le_add_right _ _
    have hsure := ChunkedReader.sure_all chunks hall
    rw [spells] at hsure
    exact (congrArg (shown · v.parts) hsure).trans (shown_all v.parts)

/-- `T` breaks off where the data of a chunk has come and its CRLF has not. -/
def Broadcast.BreaksBehindData (v : Broadcast) (T : List UInt8) : Prop :=
  match v.transfer with
  | .plain => False
  | .chunked chunks _ _ _ => ChunkedReader.EndsBehindData (T.length-v.head.bytes.length) chunks

theorem Broadcast.least_eq_most (h : ¬v.BreaksBehindData T) : v.least T = v.most T := by
  obtain ⟨contentType,head,boundary,parts,transfer,plain,named,announced⟩ := v
  cases transfer with
  | plain => rfl
  | chunked chunks last trailer spells =>
    exact congrArg (shown · parts) (ChunkedReader.sure_eq_possible h)

theorem shown_le {delim : List UInt8} (k : ℕ) (parts : List (Part delim)) : shown k parts ≤ parts.length :=
  arrived_le _ _

theorem Broadcast.most_le (v : Broadcast) (T : List UInt8) : v.most T ≤ v.parts.length := by
  rw [Broadcast.most]
  split <;> exact shown_le _ _

/-- The frames of a broadcast, in order. -/
def Broadcast.frames (v : Broadcast) : List (List UInt8) := v.parts.map Part.frame

theorem shown_zero {delim : List UInt8} (parts : List (Part delim)) : shown 0 parts = 0 := by
  rw [shown,Nat.zero_sub,arrived_zero]

theorem Broadcast.least_short (hlt : T.length < v.head.bytes.length) : v.least T = 0 := by
  rw [Broadcast.least,Nat.sub_eq_zero_of_le hlt.le]
  cases v.transfer with
  | plain => exact shown_zero v.parts
  | chunked chunks last trailer spells =>
    exact (congrArg (shown · v.parts) (ChunkedReader.sure_zero chunks)).trans (shown_zero v.parts)

end Broadcasts

section Connections

variable {α ρ : Type} [Readers.Read ρ] {D : ρ → List UInt8 → Prop} {cfg : StreamConfig} {a : Attempt α ρ}
  {v : Broadcast} {T : List UInt8} {s s' : Shared}

/-- An attempt showed the first `n` frames of a broadcast, and told its caller whether any. -/
structure ShowsFirst (v : Broadcast) (T : List UInt8) (cfg : StreamConfig) (s s' : Shared)
    (res : Except IoError Bool) (n : ℕ) : Prop where
  most : n ≤ v.most T
  least : (∀ i, s.stop i = false) → v.least T ≤ n
  sends : SendsFrames cfg s s' (v.frames.take n)
  tells : res.toOption.getD false = decide (n ≠ 0)

theorem ShowsFirst.of_sends {res : Except IoError Bool} {least most n : ℕ}
    (h : SendsFirst v.parts cfg s s' least most n) (hmost : most ≤ v.most T) (hleast : v.least T ≤ least)
    (hres : res = .ok (decide (n ≠ 0))) : ShowsFirst v T cfg s s' res n := by
  refine ⟨h.most.trans hmost,fun hgo => hleast.trans (h.least hgo),?_,by rw [hres]; rfl⟩
  rw [Broadcast.frames,← List.map_take]
  exact h.sends

theorem streamOnce_plain {fuel : ℕ} {stream : ρ} {head : ResponseHead} {r r' : BufReader ρ}
    {res : Except IoError Bool} (hopen : openStream cfg a = .ok stream)
    (hhead : readResponseHead fuel (BufReader.new stream) = some (.ok head,r)) (hplain : head.chunked = false)
    (hpump : pumpFrames fuel r (utf8 "--" ++ utf8 head.boundary) cfg s = some (res,r',s')) :
    streamOnce fuel cfg a s = some (res,s') := by
  simp only [streamOnce,hopen,hhead,hplain,Bool.false_eq_true,if_false,hpump,Option.map_some]

theorem streamOnce_chunked {fuel : ℕ} {stream : ρ} {head : ResponseHead} {r : BufReader ρ}
    {r' : BufReader (ChunkedReader (BufReader ρ))} {res : Except IoError Bool}
    (hopen : openStream cfg a = .ok stream)
    (hhead : readResponseHead fuel (BufReader.new stream) = some (.ok head,r)) (hchunked : head.chunked = true)
    (hpump : pumpFrames fuel (BufReader.new (ChunkedReader.new r)) (utf8 "--" ++ utf8 head.boundary) cfg s =
      some (res,r',s')) :
    streamOnce fuel cfg a s = some (res,s') := by
  simp only [streamOnce,hopen,hhead,hchunked,if_true,hpump,Option.map_some]

theorem streamOnce_body (hD : Readers.Delivers D) {stream : ρ} {r : BufReader ρ}
    (hopen : openStream cfg a = .ok stream) (hlive : s.receiver = none)
    (hhead : ∀ᶠ fuel in atTop, readResponseHead fuel (BufReader.new stream) =
      some (.ok ⟨v.boundary.text,saysChunked v.head.headers⟩,r))
    {k : ℕ} (hk : k = T.length-v.head.bytes.length)
    (hr : Cut (BufReader.After D) r k k v.transfer.bytes) :
    ∃ n res s', ShowsFirst v T cfg s s' res n ∧ ∀ᶠ fuel in atTop, streamOnce fuel cfg a s = some (res,s') := by
  have hbuf := BufReader.delivers hD
  obtain ⟨contentType,head,boundary,parts,transfer,plain,named,announced⟩ := v
  subst hk
  cases transfer with
  | plain =>
    obtain ⟨n,r',s',hsends,hpump⟩ := pumpFrames_sends hbuf.dwindles boundary cfg parts hlive hr
    refine ⟨n,_,s',.of_sends hsends le_rfl le_rfl rfl,?_⟩
    filter_upwards [hhead,hpump] with fuel hf hg
    exact streamOnce_plain hopen hf announced hg
  | chunked chunks last trailer spells =>
    obtain ⟨U,hU,hpre,hlen,-⟩ := hr
    have hbroken := ChunkedReader.Broken.next r U chunks last trailer hpre hU
    rw [spells,← hlen] at hbroken
    obtain ⟨n,r',s',hsends,hpump⟩ := pumpFrames_sends
      (BufReader.dwindles (ChunkedReader.dwindles hbuf.toDelivers)) boundary cfg parts hlive
      (BufReader.ahead_new hbroken)
    refine ⟨n,_,s',.of_sends hsends le_rfl le_rfl rfl,?_⟩
    filter_upwards [hhead,hpump] with fuel hf hg
    exact streamOnce_chunked hopen hf announced hg

theorem streamOnce_shows (hD : Readers.Delivers D) {stream : ρ} (hopen : openStream cfg a = .ok stream)
    (hstream : D stream T) (hT : T <+: v.bytes) (hlive : s.receiver = none) :
    ∃ n res s', ShowsFirst v T cfg s s' res n ∧ ∀ᶠ fuel in atTop, streamOnce fuel cfg a s = some (res,s') := by
  have hbuf := BufReader.delivers hD
  have hb : parseBoundary v.contentType.line = some v.boundary.text :=
    v.named ▸ (parseBoundary_value_iff v.contentType).mpr v.plain
  have hcut : Cut (BufReader.After D) (BufReader.new stream) T.length T.length (v.head.bytes ++ v.transfer.bytes) :=
    ⟨T,⟨T,hstream,rfl⟩,hT,rfl,rfl⟩
  cases readResponseHead_passes hbuf.dwindles.toDwindles hb v.head hcut with
  | through r hhi hr hhead => exact streamOnce_body hD hopen hlive hhead rfl hr
  | short res r S hlo hr hhead =>
    have hquiet {res : Except IoError Bool} (hres : res.toOption.getD false = false) :
        ShowsFirst v T cfg s s res 0 :=
      ⟨Nat.zero_le _,fun _ => (Broadcast.least_short hlo).le,.none hlive,hres⟩
    cases res with
    | error e =>
      refine ⟨0,.error e,s,hquiet rfl,?_⟩
      filter_upwards [hhead] with fuel hf
      simp only [streamOnce,hopen,hf]
    | ok head =>
      refine ⟨0,.ok false,s,hquiet rfl,?_⟩
      obtain ⟨U,hU,-,-,hnil⟩ := hr
      obtain rfl := List.length_eq_zero_iff.mp hnil.symm
      cases hchunked : head.chunked with
      | false =>
        have hover : Cut (BufReader.After D) r 0 0 [] := ⟨[],hU,List.prefix_rfl,rfl,rfl⟩
        obtain ⟨r',hpump⟩ := pumpFrames_over (utf8 "--" ++ utf8 head.boundary) cfg s
          hbuf.dwindles hover
        filter_upwards [hhead,hpump] with fuel hf hg
        exact streamOnce_plain hopen hf hchunked hg
      | true =>
        have hover : ChunkedReader.Broken (BufReader.After D) (ChunkedReader.new r) 0 0 [] :=
          .spent [] (.inr hU)
        obtain ⟨r',hpump⟩ := pumpFrames_over (utf8 "--" ++ utf8 head.boundary) cfg s
          (BufReader.dwindles (ChunkedReader.dwindles hbuf.toDelivers)) (BufReader.ahead_new hover)
        filter_upwards [hhead,hpump] with fuel hf hg
        exact streamOnce_chunked hopen hf hchunked hg

end Connections

section Runs

variable {α ρ : Type} [Readers.Read ρ] {D : ρ → List UInt8 → Prop} {cfg : StreamConfig} {a : Attempt α ρ}
  {s s' : Shared} {jpegs : List (List UInt8)} {fuel : ℕ}

/-- How a pass ends whose attempt delivered these frames. -/
def passEnd (cfg : StreamConfig) (jpegs : List (List UInt8)) (s : Shared) : Except Shared Shared :=
  let (stopped,s) := sleepOrStop RECONNECT_DELAY (reportEnd cfg (decide (jpegs ≠ [])) s)
  if stopped then .error s else .ok s

theorem streamPass_end {res : Except IoError Bool} (honce : streamOnce fuel cfg a s = some (res,s'))
    (htells : res.toOption.getD false = decide (jpegs ≠ [])) :
    streamPass fuel cfg a s = some (passEnd cfg jpegs s') := by
  simp only [streamPass,honce,htells,passEnd]

theorem passed_end : passed (passEnd cfg jpegs s) =
    (sleepSteps ((RECONNECT_DELAY+SLEEP_STEP-1)/SLEEP_STEP) (reportEnd cfg (decide (jpegs ≠ [])) s)).2 := by
  have hif (t : Bool × Shared) : passed (if t.1 then .error t.2 else .ok t.2) = t.2 := by
    obtain ⟨stopped,u⟩ := t
    cases stopped <;> rfl
  exact hif _

theorem passEnd_sends (h : SendsFrames cfg s s' jpegs) : (passed (passEnd cfg jpegs s')).receiver = none ∧
    (passed (passEnd cfg jpegs s')).sent = s.sent ++ session cfg.source jpegs := by
  obtain ⟨hlive,hsent⟩ := sleepSteps_sent ((RECONNECT_DELAY+SLEEP_STEP-1)/SLEEP_STEP)
    (reportEnd cfg (decide (jpegs ≠ [])) s')
  rw [passed_end,hlive,hsent,reportEnd,session]
  by_cases hnil : jpegs = []
  · rw [if_pos hnil]
    simp [hnil,h.live,h.sent]
  · rw [if_neg hnil,if_pos (by simpa using hnil),send_live h.live]
    exact ⟨h.live,by rw [h.sent,List.append_assoc]⟩

variable (cfg jpegs) in
theorem passEnd_goes (hgo : ∀ i, s.stop i = false) : ∃ u, passEnd cfg jpegs s = .ok u := by
  have hstop := reportEnd_stop cfg (decide (jpegs ≠ [])) s
  obtain ⟨hseen,-⟩ := sleepSteps_spec ((RECONNECT_DELAY+SLEEP_STEP-1)/SLEEP_STEP)
    (reportEnd cfg (decide (jpegs ≠ [])) s)
  have hno : ¬(sleepSteps ((RECONNECT_DELAY+SLEEP_STEP-1)/SLEEP_STEP)
      (reportEnd cfg (decide (jpegs ≠ [])) s)).1 = true := by
    rw [hseen,hstop]
    simp [hgo]
  exact ⟨_,if_neg hno⟩

/-- What an attempt finds: nobody, or a camera of whose broadcast a front part comes, however it is
cut into reads. -/
inductive Finds (D : ρ → List UInt8 → Prop) (cfg : StreamConfig) (a : Attempt α ρ) :
    Option (Broadcast × List UInt8) → Prop
  | nobody (e : IoError) (hopen : openStream cfg a = .error e) : Finds D cfg a none
  | camera (v : Broadcast) (T : List UInt8) (stream : ρ) (hopen : openStream cfg a = .ok stream)
      (hstream : D stream T) (hT : T <+: v.bytes) : Finds D cfg a (some (v,T))

/-- What is shown of what an attempt finds: the first frames, no more than came. While nobody stops
the stream none is missing, and they are just those that came unless a chunk breaks off at its end. -/
def Shown (unstopped : Prop) : Option (Broadcast × List UInt8) → List (List UInt8) → Prop
  | none, jpegs => jpegs = []
  | some (v,T), jpegs => ∃ n ≤ v.most T, jpegs = v.frames.take n ∧
      (unstopped → v.least T ≤ n ∧ (¬v.BreaksBehindData T → n = v.most T))

theorem streamOnce_finds (hD : Readers.Delivers D) (hlive : s.receiver = none)
    {found : Option (Broadcast × List UInt8)} (h : Finds D cfg a found) :
    ∃ jpegs res s', Shown (∀ i, s.stop i = false) found jpegs ∧ SendsFrames cfg s s' jpegs ∧
      res.toOption.getD false = decide (jpegs ≠ []) ∧
      ∀ᶠ fuel in atTop, streamOnce fuel cfg a s = some (res,s') := by
  cases h with
  | nobody e hopen =>
    refine ⟨[],.error e,s,rfl,.none hlive,rfl,.of_forall fun fuel => ?_⟩
    simp only [streamOnce,hopen]
  | camera v T stream hopen hstream hT =>
    obtain ⟨n,res,s',hshows,hrun⟩ := streamOnce_shows hD hopen hstream hT hlive
    have hexact : (∀ i, s.stop i = false) → v.least T ≤ n ∧ (¬v.BreaksBehindData T → n = v.most T) :=
      fun hgo => ⟨hshows.least hgo,fun hend => Nat.le_antisymm hshows.most
        (Broadcast.least_eq_most hend ▸ hshows.least hgo)⟩
    refine ⟨v.frames.take n,res,s',⟨n,hshows.most,rfl,hexact⟩,hshows.sends,?_,hrun⟩
    have hle : n ≤ v.frames.length := by
      rw [Broadcast.frames,List.length_map]
      exact hshows.most.trans (v.most_le T)
    have hnil : v.frames.take n = [] ↔ n = 0 := by
      rw [← List.length_eq_zero_iff,List.length_take,Nat.min_eq_left hle]
    rw [hshows.tells]
    simp only [ne_eq,hnil]

theorem runStream_shows (hD : Readers.Delivers D) {attempts : List (Attempt α ρ)}
    {found : List (Option (Broadcast × List UInt8))} (h : List.Forall₂ (Finds D cfg) attempts found)
    (hlive : s.receiver = none) :
    ∃ p screens, (∀ᶠ fuel in atTop, runStream fuel cfg attempts s = some p) ∧
      List.Forall₂ (Shown (∀ i, s.stop i = false)) (found.take screens.length) screens ∧
      p.shared.sent = s.sent ++ screens.flatMap (session cfg.source) ∧
      ((∀ i, s.stop i = false) → p.isReturned = false ∧ screens.length = found.length) := by
  induction h generalizing s with
  | nil =>
    by_cases hstop : s.load.1 = true
    · refine ⟨.returned s.load.2,[],.of_forall fun fuel => ?_,.nil,(List.append_nil _).symm,fun hgo => ?_⟩
      · simp only [runStream,hstop,if_true]
      · exact absurd ((hgo s.loads).symm.trans hstop) Bool.false_ne_true
    · refine ⟨.attempting s.load.2,[],.of_forall fun fuel => ?_,.nil,(List.append_nil _).symm,
        fun _ => ⟨rfl,rfl⟩⟩
      simp only [runStream,if_neg hstop]
  | @cons a x attempts found hfinds _ ih =>
    by_cases hstop : s.load.1 = true
    · refine ⟨.returned s.load.2,[],.of_forall fun fuel => ?_,.nil,(List.append_nil _).symm,fun hgo => ?_⟩
      · simp only [runStream,hstop,if_true]
      · exact absurd ((hgo s.loads).symm.trans hstop) Bool.false_ne_true
    · obtain ⟨jpegs,res,s1,hshown,hsends,htells,honce⟩ := streamOnce_finds (s := s.load.2) hD hlive hfinds
      obtain ⟨hlive1,hsent1⟩ := passEnd_sends hsends
      have hpass : ∀ᶠ fuel in atTop, streamPass fuel cfg a s.load.2 = some (passEnd cfg jpegs s1) := by
        filter_upwards [honce] with fuel hf
        exact streamPass_end hf htells
      cases hend : passEnd cfg jpegs s1 with
      | error u =>
        rw [hend] at hpass hsent1
        refine ⟨.returned u,[jpegs],?_,.cons hshown .nil,?_,fun hgo => ?_⟩
        · filter_upwards [hpass] with fuel hf
          simp only [runStream,if_neg hstop,hf]
        · rw [List.flatMap_singleton]
          exact hsent1
        · obtain ⟨fuel,hf⟩ := honce.exists
          have hkeep : s1.stop = s.load.2.stop := streamOnce_stop hf
          obtain ⟨w,hw⟩ := passEnd_goes cfg jpegs (s := s1) (hkeep ▸ hgo)
          rw [hw] at hend
          cases hend
      | ok u =>
        rw [hend] at hpass hlive1 hsent1
        have hkeep : u.stop = s.stop := by
          obtain ⟨fuel,hf⟩ := hpass.exists
          exact (streamPass_stop hf).trans rfl
        obtain ⟨p,screens,hrun,hall,hsent,hlen⟩ := ih (s := u) hlive1
        rw [hkeep] at hall hlen
        refine ⟨p,jpegs :: screens,?_,.cons hshown hall,?_,fun hgo => ?_⟩
        · filter_upwards [hpass,hrun] with fuel hf hg
          simp only [runStream,if_neg hstop,hf,hg]
        · rw [hsent,List.flatMap_cons,← List.append_assoc]
          exact congrArg (· ++ _) hsent1
        · exact ⟨(hlen hgo).1,congrArg (·+1) (hlen hgo).2⟩

/-- `Content-Type: multipart/x-mixed-replace; boundary={t}` -/
def mixedReplace (t : Token) : ContentType :=
  { charsetLast with
    boundary := { charsetLast.boundary with value := .token t }
    back := []
    only := fun _ h => absurd h List.not_mem_nil }

theorem mixedReplace_plain (t : Token) : (mixedReplace t).Plain :=
  ⟨rfl,fun _ h => absurd h List.not_mem_nil,rfl⟩

def tokenF : Token := ⟨"f".toList,by decide,List.all_eq_true.1 (by decide)⟩

theorem others_nil : ∀ l ∈ ([] : List HeaderLine), parseBoundary (fromUtf8Lossy l.bytes) = none :=
  fun _ h => absurd h List.not_mem_nil

def oneFrameHead : Response (mixedReplace tokenF) where
  status := ⟨utf8 "HTTP/1.0 200 OK",by decide,by decide,by decide,by decide⟩
  before := []
  contentType := ⟨utf8 "Content-Type: multipart/x-mixed-replace; boundary=f",by decide,by decide,
    by decide,by decide⟩
  after := []
  ok := by decide +kernel
  is_line := by decide +kernel
  others := others_nil

end Runs

end MjpegStream
end Robocol
