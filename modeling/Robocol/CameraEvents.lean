import Robocol.VideoStream

/-! The events of a camera source, over all its connections. Each connection that delivers frames
is a session of its own, and is closed before the next one is tried. -/
namespace Robocol
namespace MjpegStream

open Readers StdText HeaderLines

/-- What a connection that delivered these frames sends, once it is over. -/
def session (source : String) (jpegs : List (List UInt8)) : List VideoEvent :=
  if jpegs = [] then [] else jpegs.map (.frame source) ++ [.disconnected source]

/-- From `s` to `s'` these frames were sent and nothing else, to a receiver that is there. -/
structure SendsFrames (cfg : StreamConfig) (s s' : Shared) (jpegs : List (List UInt8)) : Prop where
  live : s'.receiver = none
  sent : s'.sent = s.sent ++ jpegs.map (.frame cfg.source)

section Pump

variable {ρ : Type} [BufRead ρ] {delim : List UInt8} {cfg : StreamConfig} {fuel : ℕ} {r : ρ}
  {s s' : Shared}

theorem send_live (hr : s.receiver = none) (e : VideoEvent) :
    s.send e = (true,{ s with sent := s.sent ++ [e] }) := by
  rw [Shared.send,hr]

theorem SendsFrames.none (hr : s.receiver = .none) : SendsFrames cfg s s [] :=
  ⟨hr,(List.append_nil _).symm⟩

theorem SendsFrames.trans {u : Shared} {as bs : List (List UInt8)} (h : SendsFrames cfg s s' as)
    (h' : SendsFrames cfg s' u bs) : SendsFrames cfg s u (as ++ bs) :=
  ⟨h'.live,by rw [h'.sent,h.sent,List.append_assoc,List.map_append]⟩

/-- With a receiver that is there, a round sends one frame or is the last one and sends nothing. -/
theorem pumpRound_live (hr : s.receiver = none) {x : Round ρ}
    (h : pumpRound delim cfg fuel r s = some x) :
    (∃ jpeg r' s', x = .next r' s' ∧ SendsFrames cfg s s' [jpeg]) ∨
    ∃ e r' s', x = .ended e r' s' ∧ SendsFrames cfg s s' [] := by
  have hload : SendsFrames cfg s s.load.2 [] := ⟨hr,(List.append_nil _).symm⟩
  rw [pumpRound] at h
  generalize s.load = t at h hload
  obtain ⟨stopped,u⟩ := t
  cases stopped with
  | true =>
    obtain rfl := Option.some.inj h
    exact .inr ⟨_,_,_,rfl,hload⟩
  | false =>
    simp only [Bool.false_eq_true,if_false] at h
    split at h
    · cases h
    · obtain rfl := Option.some.inj h
      exact .inr ⟨_,_,_,rfl,hload⟩
    · split at h
      · cases h
      · obtain rfl := Option.some.inj h
        exact .inr ⟨_,_,_,rfl,hload⟩
      · rename_i jpeg _ _
        split at h
        · cases h
        · simp only [send_live hload.live,if_true,Option.some.injEq] at h
          refine .inl ⟨trimCrlf jpeg,_,_,h.symm,hload.trans ⟨hload.live,rfl⟩⟩

theorem pumpLoop_live (hr : s.receiver = none) {delivered : Bool} {res : Except IoError Bool} {r' : ρ}
    (h : pumpLoop delim cfg fuel r s delivered = some (res,r',s')) :
    ∃ jpegs, SendsFrames cfg s s' jpegs ∧ res = .ok (delivered || jpegs ≠ []) := by
  induction fuel generalizing r s delivered with
  | zero => cases h
  | succ fuel ih =>
    rw [pumpLoop_round] at h
    cases hround : pumpRound delim cfg fuel r s with
    | none => simp only [hround] at h; cases h
    | some x =>
      rcases pumpRound_live hr hround with ⟨jpeg,r1,s1,rfl,hsend⟩|⟨e,r1,s1,rfl,hsend⟩
      · simp only [hround] at h
        obtain ⟨jpegs,hsends,hres⟩ := ih hsend.live h
        exact ⟨jpeg :: jpegs,hsend.trans hsends,by simpa using hres⟩
      · simp only [hround,Option.some.injEq,Prod.mk.injEq] at h
        obtain ⟨rfl,-,rfl⟩ := h
        exact ⟨[],hsend,by simp⟩

theorem pumpFrames_live (hr : s.receiver = none) {res : Except IoError Bool} {r' : ρ}
    (h : pumpFrames fuel r delim cfg s = some (res,r',s')) :
    ∃ jpegs, SendsFrames cfg s s' jpegs ∧ res = .ok (decide (jpegs ≠ [])) := by
  rw [pumpFrames] at h
  split at h
  · cases h
  · simp only [Option.some.injEq,Prod.mk.injEq] at h
    obtain ⟨rfl,-,rfl⟩ := h
    exact ⟨[],.none hr,rfl⟩
  · simpa using pumpLoop_live hr h

/-- The channel after at most `n` rounds of the frame loop, or where it waits for the stream. -/
def pumpAt (delim : List UInt8) (cfg : StreamConfig) (fuel : ℕ) : ℕ → ρ → Shared → Shared
  | 0, _, s => s
  | n+1, r, s =>
    match pumpRound delim cfg fuel r s with
    | none => s
    | some (.ended _ _ s) => s
    | some (.next r s) => pumpAt delim cfg fuel n r s

def pumpFramesAt (fuel n : ℕ) (r : ρ) (delim : List UInt8) (cfg : StreamConfig) (s : Shared) : Shared :=
  match readHeaderLine fuel r with
  | some (.ok _,r) => pumpAt delim cfg fuel n r s
  | _ => s

theorem pumpAt_live (n : ℕ) (hr : s.receiver = none) :
    ∃ jpegs, SendsFrames cfg s (pumpAt delim cfg fuel n r s) jpegs := by
  induction n generalizing r s with
  | zero => exact ⟨[],.none hr⟩
  | succ n ih =>
    rw [pumpAt]
    cases hround : pumpRound delim cfg fuel r s with
    | none => exact ⟨[],.none hr⟩
    | some x =>
      rcases pumpRound_live hr hround with ⟨jpeg,r1,s1,rfl,hsend⟩|⟨e,r1,s1,rfl,hsend⟩
      · obtain ⟨jpegs,hsends⟩ := ih (r := r1) hsend.live
        exact ⟨jpeg :: jpegs,hsend.trans hsends⟩
      · exact ⟨[],hsend⟩

theorem pumpFramesAt_live (n : ℕ) (hr : s.receiver = none) :
    ∃ jpegs, SendsFrames cfg s (pumpFramesAt fuel n r delim cfg s) jpegs := by
  rw [pumpFramesAt]
  split
  · exact pumpAt_live n hr
  · exact ⟨[],.none hr⟩

end Pump

section Connections

variable {α ρ : Type} [Readers.Read ρ] {cfg : StreamConfig} {fuel : ℕ} {a : Attempt α ρ} {s s' : Shared}

theorem streamOnce_live (hr : s.receiver = none) {res : Except IoError Bool}
    (h : streamOnce fuel cfg a s = some (res,s')) :
    ∃ jpegs, SendsFrames cfg s s' jpegs ∧ res.toOption.getD false = decide (jpegs ≠ []) := by
  rw [streamOnce] at h
  split at h
  · obtain ⟨rfl,rfl⟩ := Prod.mk.inj (Option.some.inj h)
    exact ⟨[],.none hr,rfl⟩
  · split at h
    · cases h
    · obtain ⟨rfl,rfl⟩ := Prod.mk.inj (Option.some.inj h)
      exact ⟨[],.none hr,rfl⟩
    · simp only at h
      split at h
      all_goals
        obtain ⟨t,ht,heq⟩ := Option.map_eq_some_iff.mp h
        obtain ⟨rfl,rfl⟩ := Prod.mk.inj heq
        obtain ⟨jpegs,hsends,hres⟩ := pumpFrames_live hr ht
        exact ⟨jpegs,hsends,by rw [hres]; rfl⟩

def Delivers (fuel : ℕ) (cfg : StreamConfig) (a : Attempt α ρ) (jpegs : List (List UInt8)) : Prop :=
  ∃ s s' res, streamOnce fuel cfg a s = some (res,s') ∧ SendsFrames cfg s s' jpegs

theorem sleepSteps_sent (n : ℕ) (s : Shared) :
    (sleepSteps n s).2.receiver = s.receiver ∧ (sleepSteps n s).2.sent = s.sent := by
  induction n generalizing s with
  | zero => exact ⟨rfl,rfl⟩
  | succ n ih =>
    cases hs : s.stop s.loads with
    | true => simp only [sleepSteps,Shared.load,hs,if_true,and_self]
    | false =>
      simp only [sleepSteps,Shared.load,hs,Bool.false_eq_true,if_false]
      exact ih _

def Progress.shared : Progress → Shared
  | .returned s => s
  | .attempting s => s

/-- The state behind a pass of the loop, whether it returns or goes on. -/
def passed : Except Shared Shared → Shared
  | .ok s => s
  | .error s => s

theorem streamPass_live (hr : s.receiver = none) {x : Except Shared Shared}
    (h : streamPass fuel cfg a s = some x) :
    ∃ jpegs, Delivers fuel cfg a jpegs ∧ (passed x).receiver = none ∧
      (passed x).sent = s.sent ++ session cfg.source jpegs := by
  rw [streamPass] at h
  cases honce : streamOnce fuel cfg a s with
  | none => simp only [honce] at h; cases h
  | some t =>
    obtain ⟨res,s1⟩ := t
    obtain ⟨jpegs,hsends,hres⟩ := streamOnce_live hr honce
    simp only [honce,Option.some.injEq,hres] at h
    have hreport : (reportEnd cfg (decide (jpegs ≠ [])) s1).receiver = none ∧
        (reportEnd cfg (decide (jpegs ≠ [])) s1).sent = s.sent ++ session cfg.source jpegs := by
      rw [reportEnd,session]
      by_cases hnil : jpegs = []
      · rw [if_pos hnil]
        simp [hnil,hsends.live,hsends.sent]
      · rw [if_neg hnil,if_pos (by simpa using hnil),send_live hsends.live]
        exact ⟨hsends.live,by rw [hsends.sent,List.append_assoc]⟩
    generalize reportEnd cfg (decide (jpegs ≠ [])) s1 = u at h hreport
    obtain ⟨hlive,hsent⟩ := sleepSteps_sent ((RECONNECT_DELAY+SLEEP_STEP-1)/SLEEP_STEP) u
    have hpassed : passed x = (sleepOrStop RECONNECT_DELAY u).2 := by
      rw [← h]
      split <;> rfl
    refine ⟨jpegs,⟨s,s1,res,honce,hsends⟩,?_,?_⟩
    · rw [hpassed,sleepOrStop,hlive,hreport.1]
    · rw [hpassed,sleepOrStop,hsent,hreport.2]

/-- The channel while the attempt is under way, as far as its stream has come. -/
def streamAt (fuel n : ℕ) (cfg : StreamConfig) (a : Attempt α ρ) (s : Shared) : Shared :=
  match openStream cfg a with
  | .error _ => s
  | .ok stream =>
    match readResponseHead fuel (BufReader.new stream) with
    | some (.ok head,r) =>
      let delim := utf8 "--" ++ utf8 head.boundary
      if head.chunked then pumpFramesAt fuel n (BufReader.new (ChunkedReader.new r)) delim cfg s
      else pumpFramesAt fuel n r delim cfg s
    | _ => s

theorem streamAt_live (fuel n : ℕ) (a : Attempt α ρ) (hr : s.receiver = none) :
    ∃ jpegs, SendsFrames cfg s (streamAt fuel n cfg a s) jpegs := by
  rw [streamAt]
  split
  · exact ⟨[],.none hr⟩
  · split
    · simp only
      split
      · exact pumpFramesAt_live n hr
      · exact pumpFramesAt_live n hr
    · exact ⟨[],.none hr⟩

/-- From `s` on, the attempts that are over sent one session each. -/
structure Sessions (fuel : ℕ) (cfg : StreamConfig) (attempts : List (Attempt α ρ)) (s s' : Shared)
    (deliveries : List (List (List UInt8))) : Prop where
  live : s'.receiver = none
  delivers : List.Forall₂ (Delivers fuel cfg) (attempts.take deliveries.length) deliveries
  sent : s'.sent = s.sent ++ deliveries.flatMap (session cfg.source)

theorem Sessions.none (attempts : List (Attempt α ρ)) (hr : s.receiver = .none) :
    Sessions fuel cfg attempts s s.load.2 [] :=
  ⟨hr,.nil,(List.append_nil _).symm⟩

theorem runStream_live (attempts : List (Attempt α ρ)) (hr : s.receiver = none) {p : Progress}
    (h : runStream fuel cfg attempts s = some p) :
    ∃ deliveries, Sessions fuel cfg attempts s p.shared deliveries ∧
      (p.isReturned = false → deliveries.length = attempts.length) := by
  induction attempts generalizing s with
  | nil =>
    refine ⟨[],?_,fun _ => rfl⟩
    have hshared : p.shared = s.load.2 := by
      simp only [runStream,Option.some.injEq] at h
      rw [← h]
      split <;> rfl
    exact hshared ▸ .none [] hr
  | cons a attempts ih =>
    have hload : s.load.2.receiver = .none := hr
    simp only [runStream] at h
    by_cases hstopped : s.load.1 = true
    · rw [if_pos hstopped] at h
      obtain rfl := Option.some.inj h
      exact ⟨[],.none _ hr,fun hno => by cases hno⟩
    · rw [if_neg hstopped] at h
      cases hpass : streamPass fuel cfg a s.load.2 with
      | none => simp only [hpass] at h; cases h
      | some x =>
        obtain ⟨jpegs,hdelivers,hlive,hsent⟩ := streamPass_live hload hpass
        cases x with
        | error s1 =>
          simp only [hpass,Option.some.injEq] at h
          subst h
          refine ⟨[jpegs],⟨hlive,.cons hdelivers .nil,?_⟩,fun hno => by cases hno⟩
          rw [List.flatMap_singleton]
          exact hsent
        | ok s1 =>
          simp only [hpass] at h
          obtain ⟨deliveries,⟨hlive',hall,hsent'⟩,hlen⟩ := ih hlive h
          refine ⟨jpegs :: deliveries,⟨hlive',.cons hdelivers hall,?_⟩,fun hno => ?_⟩
          · rw [hsent',List.flatMap_cons,← List.append_assoc]
            exact congrArg (· ++ _) hsent
          · rw [List.length_cons,List.length_cons,hlen hno]

/-- To a receiver that is there, a run sends one session for each attempt that is over; in the
attempt that comes behind them it has sent frames so far, and nothing else. -/
theorem run_sends_sessions (fuel : ℕ) (cfg : StreamConfig) (attempts : List (Attempt α ρ))
    (stop : ℕ → Bool) {p : Progress}
    (h : runStream fuel cfg attempts { stop := stop } = some p) :
    ∃ deliveries, List.Forall₂ (Delivers fuel cfg) (attempts.take deliveries.length) deliveries ∧
      p.shared.sent = deliveries.flatMap (session cfg.source) ∧
      ∀ s, p = .attempting s → deliveries.length = attempts.length ∧
        ∀ (fuel n : ℕ) (a : Attempt α ρ), ∃ jpegs : List (List UInt8),
          (streamAt fuel n cfg a s).sent =
            deliveries.flatMap (session cfg.source) ++ jpegs.map (.frame cfg.source) := by
  obtain ⟨deliveries,⟨hlive,hall,hsent⟩,hlen⟩ := runStream_live attempts rfl h
  rw [List.nil_append] at hsent
  refine ⟨deliveries,hall,hsent,fun s hp => ?_⟩
  subst hp
  refine ⟨hlen rfl,fun fuel n a => ?_⟩
  obtain ⟨jpegs,hsends⟩ : ∃ jpegs, SendsFrames cfg s (streamAt fuel n cfg a s) jpegs :=
    streamAt_live fuel n a hlive
  exact ⟨jpegs,hsends.sent.trans (congrArg (· ++ _) hsent)⟩

/-- A camera that serves one frame, closes, and is tried again. -/
theorem one_frame_session : ∃ (p : Progress) (deliveries : List (List (List UInt8))),
    List.Forall₂ (Delivers 200 cameraConfig) ([oneFrame,oneFrame].take deliveries.length) deliveries ∧
      p.shared.sent = deliveries.flatMap (session cameraConfig.source) := by
  have hruns : (runStream 200 cameraConfig [oneFrame,oneFrame] { stop := fun _ => false }).isSome = true := by
    decide +kernel
  obtain ⟨p,hp⟩ := Option.isSome_iff_exists.mp hruns
  obtain ⟨deliveries,hall,hsent,-⟩ := run_sends_sessions _ _ _ _ hp
  exact ⟨p,deliveries,hall,hsent⟩

end Connections
end MjpegStream
end Robocol
