import Robocol.MjpegFraming

/-! One camera source: connecting to it, reading the head of the response, and the loop
that connects again whenever the stream has ended. -/
namespace Robocol
namespace MjpegStream

open Readers StdText HeaderLines

/-- Durations in milliseconds. -/
def RECONNECT_DELAY : ℕ := 1000
def SLEEP_STEP : ℕ := 50

structure ResponseHead where
  boundary : String
  chunked : Bool

def parseBoundary (headerLine : Text) : Option String := do
  let (name,value) ← splitOnce ':' headerLine
  if !eqIgnoreAsciiCase (trim name) "content-type".toList then none
  let idx ← find "boundary=".toList (value.map toAsciiLowercase)
  let raw := trim (value.drop (idx+"boundary=".length))
  return String.ofList (trimMatches '\x22' raw)

/-- Whether a header line announces chunked transfer. -/
def announcesChunked (line : Text) : Bool :=
  match splitOnce ':' line with
  | some (name,value) => eqIgnoreAsciiCase (trim name) "transfer-encoding".toList &&
      contains "chunked".toList (value.map toAsciiLowercase)
  | none => false

section Head

variable {ρ : Type} [BufRead ρ]

/-- The header lines of the response, up to the empty one. -/
def readHeadLines : ℕ → ρ → Option String → Bool → Run ρ (Option String × Bool)
  | 0, _, _, _ => none
  | fuel+1, r, boundary, chunked =>
    match readHeaderLine fuel r with
    | none => none
    | some (.error e,r) => some (.error e,r)
    | some (.ok line,r) =>
      if line = [] then some (.ok (boundary,chunked),r)
      else readHeadLines fuel r ((parseBoundary line).or boundary) (chunked || announcesChunked line)

def readResponseHead (fuel : ℕ) (r : ρ) : Run ρ ResponseHead :=
  match readHeaderLine fuel r with
  | none => none
  | some (.error e,r) => some (.error e,r)
  | some (.ok status,r) =>
    if !(splitWhitespace status).contains "200".toList then
      some (.error ⟨.invalidData,"unexpected HTTP status: " ++ String.ofList status⟩,r)
    else
      match readHeadLines fuel r none false with
      | none => none
      | some (.error e,r) => some (.error e,r)
      | some (.ok (none,_),r) => some (.error ⟨.invalidData,"no multipart boundary in response"⟩,r)
      | some (.ok (some boundary,chunked),r) => some (.ok ⟨boundary,chunked⟩,r)

end Head

section Attempts

variable {α ρ : Type}

/-- What the network does in one attempt: the addresses a host has, what connecting to one gives,
and whether the socket calls behind it succeed. -/
structure Attempt (α ρ : Type) where
  lookup : String → UInt16 → Except IoError (List α)
  connect : α → Except IoError ρ
  setReadTimeout : Except IoError Unit := .ok ()
  write : List UInt8 → Except IoError Unit := fun _ => .ok ()
  flush : Except IoError Unit := .ok ()

def request (cfg : StreamConfig) : List UInt8 :=
  utf8 s!"GET {cfg.path} HTTP/1.0\r\nHost: {cfg.host}\r\nAccept: */*\r\n\r\n"

/-- The part of `stream_once` up to the response. -/
def openStream (cfg : StreamConfig) (a : Attempt α ρ) : Except IoError ρ := do
  match ← a.lookup cfg.host cfg.port with
  | [] => throw ⟨.notFound,"host resolved to no addresses"⟩
  | addr :: _ =>
    let stream ← a.connect addr
    a.setReadTimeout
    a.write (request cfg)
    a.flush
    return stream

variable [Readers.Read ρ]

def streamOnce (fuel : ℕ) (cfg : StreamConfig) (a : Attempt α ρ) (s : Shared) :
    Option (Except IoError Bool × Shared) :=
  match openStream cfg a with
  | .error e => some (.error e,s)
  | .ok stream =>
    match readResponseHead fuel (BufReader.new stream) with
    | none => none
    | some (.error e,_) => some (.error e,s)
    | some (.ok head,r) =>
      let delim := utf8 "--" ++ utf8 head.boundary
      if head.chunked then
        (pumpFrames fuel (BufReader.new (ChunkedReader.new r)) delim cfg s).map fun t => (t.1,t.2.2)
      else (pumpFrames fuel r delim cfg s).map fun t => (t.1,t.2.2)

/-- The loop of `sleep_or_stop` with `n` steps to go, and the load behind it. -/
def sleepSteps : ℕ → Shared → Bool × Shared
  | 0, s => s.load
  | n+1, s =>
    let (stopped,s) := s.load
    if stopped then (true,s) else sleepSteps n s

def sleepOrStop (dur : ℕ) (s : Shared) : Bool × Shared :=
  sleepSteps ((dur+SLEEP_STEP-1)/SLEEP_STEP) s

/-- The end of a stream that had been delivering is reported, whether anyone takes the report. -/
def reportEnd (cfg : StreamConfig) (delivered : Bool) (s : Shared) : Shared :=
  if delivered then (s.send (.disconnected cfg.source)).2 else s

/-- The body of the loop of `run_stream`. An error is the state in which it returns. -/
def streamPass (fuel : ℕ) (cfg : StreamConfig) (a : Attempt α ρ) (s : Shared) :
    Option (Except Shared Shared) :=
  match streamOnce fuel cfg a s with
  | none => none
  | some (result,s) =>
    let (stopped,s) := sleepOrStop RECONNECT_DELAY (reportEnd cfg (result.toOption.getD false) s)
    some (if stopped then .error s else .ok s)

/-- Where a run stands once the attempts that are known are over: returned, or at the beginning
of another attempt. -/
inductive Progress
  | returned (s : Shared)
  | attempting (s : Shared)

def Progress.isReturned : Progress → Bool
  | .returned _ => true
  | .attempting _ => false

def runStream (fuel : ℕ) (cfg : StreamConfig) : List (Attempt α ρ) → Shared → Option Progress
  | [], s =>
    let (stopped,s) := s.load
    some (if stopped then .returned s else .attempting s)
  | a :: attempts, s =>
    let (stopped,s) := s.load
    if stopped then some (.returned s)
    else
      match streamPass fuel cfg a s with
      | none => none
      | some (.error s) => some (.returned s)
      | some (.ok s) => runStream fuel cfg attempts s

end Attempts

section Ends

variable {ρ : Type} [BufRead ρ] {delim : List UInt8} {cfg : StreamConfig}

/-- How the frame loop ends: told to stop, out of stream, or with a send that failed. Its caller
learns nothing of this. -/
inductive PumpEnd
  | stopped | broken | refused
  deriving DecidableEq

inductive Round (ρ : Type)
  | ended (e : PumpEnd) (r : ρ) (s : Shared)
  | next (r : ρ) (s : Shared)

/-- One round of the loop of `pump_frames`. -/
def pumpRound (delim : List UInt8) (cfg : StreamConfig) (fuel : ℕ) (r : ρ) (s : Shared) :
    Option (Round ρ) :=
  let (stopped,s) := s.load
  if stopped then some (.ended .stopped r s)
  else
    match skipPartHeaders fuel r none with
    | none => none
    | some (.error _,r) => some (.ended .broken r s)
    | some (.ok _,r) =>
      match readUntilDelim fuel r delim with
      | none => none
      | some (.error _,r) => some (.ended .broken r s)
      | some (.ok jpeg,r) =>
        match readHeaderLine fuel r with
        | none => none
        | some (_,r) =>
          let (sent,s) := s.send (.frame cfg.source (trimCrlf jpeg))
          some (if sent then .next r s else .ended .refused r s)

theorem pumpLoop_round (fuel : ℕ) (r : ρ) (s : Shared) (delivered : Bool) :
    pumpLoop delim cfg (fuel+1) r s delivered = match pumpRound delim cfg fuel r s with
      | none => none
      | some (.ended _ r s) => some (.ok delivered,r,s)
      | some (.next r s) => pumpLoop delim cfg fuel r s true := by
  simp only [pumpLoop,pumpRound]
  split
  · rfl
  · cases hskip : skipPartHeaders fuel r none with
    | none => rfl
    | some t =>
      obtain ⟨res,r1⟩ := t
      cases res with
      | error e => rfl
      | ok length =>
        cases hread : readUntilDelim fuel r1 delim with
        | none => simp only [hread]
        | some t =>
          obtain ⟨res,r2⟩ := t
          cases res with
          | error e => simp only [hread]
          | ok jpeg =>
            cases hline : readHeaderLine fuel r2 with
            | none => simp only [hread,hline]
            | some t =>
              obtain ⟨line,r3⟩ := t
              simp only [hread,hline]
              split <;> rfl

def pumpEnd (delim : List UInt8) (cfg : StreamConfig) : ℕ → ρ → Shared → Option PumpEnd
  | 0, _, _ => none
  | fuel+1, r, s =>
    match pumpRound delim cfg fuel r s with
    | none => none
    | some (.ended e _ _) => some e
    | some (.next r s) => pumpEnd delim cfg fuel r s

def pumpFramesEnd (fuel : ℕ) (r : ρ) (delim : List UInt8) (cfg : StreamConfig) (s : Shared) :
    Option PumpEnd :=
  match readHeaderLine fuel r with
  | none => none
  | some (.error _,_) => some .broken
  | some (.ok _,r) => pumpEnd delim cfg fuel r s

def Round.shared : Round ρ → Shared
  | .ended _ _ s => s
  | .next _ s => s

theorem send_stop (s : Shared) (e : VideoEvent) : (s.send e).2.stop = s.stop := by
  rw [Shared.send]
  split <;> rfl

theorem send_refused {s : Shared} {e : VideoEvent} (h : (s.send e).1 = false) :
    s.receiver = some 0 ∧ (s.send e).2 = s := by
  cases hr : s.receiver with
  | none => simp [Shared.send,hr] at h
  | some n =>
    cases n with
    | zero => exact ⟨rfl,by simp [Shared.send,hr]⟩
    | succ n => simp [Shared.send,hr] at h

theorem send_accepted {s : Shared} {e : VideoEvent} (h : (s.send e).1 = true) :
    s.receiver ≠ some 0 ∧ (s.send e).2.sent = s.sent ++ [e] := by
  cases hr : s.receiver with
  | none => simp [Shared.send,hr]
  | some n =>
    cases n with
    | zero => simp [Shared.send,hr] at h
    | succ n => simp [Shared.send,hr]

theorem pumpRound_shared {fuel : ℕ} {r : ρ} {s : Shared} {x : Round ρ}
    (h : pumpRound delim cfg fuel r s = some x) :
    x.shared = s.load.2 ∧ (∀ r' s', x ≠ .ended .refused r' s') ∨
    ∃ e, x.shared = (s.load.2.send e).2 ∧
      ∀ r' s', x = .ended .refused r' s' → (s.load.2.send e).1 = false := by
  rw [pumpRound] at h
  generalize s.load = t at h ⊢
  obtain ⟨stopped,u⟩ := t
  cases stopped with
  | true =>
    obtain rfl := Option.some.inj h
    exact .inl ⟨rfl,by simp⟩
  | false =>
    simp only [Bool.false_eq_true,if_false] at h
    split at h
    · cases h
    · obtain rfl := Option.some.inj h
      exact .inl ⟨rfl,by simp⟩
    · split at h
      · cases h
      · obtain rfl := Option.some.inj h
        exact .inl ⟨rfl,by simp⟩
      · rename_i jpeg _ _
        split at h
        · cases h
        · obtain rfl := Option.some.inj h
          refine .inr ⟨.frame cfg.source (trimCrlf jpeg),?_⟩
          by_cases hsent : (u.send (.frame cfg.source (trimCrlf jpeg))).1 = true
          · rw [if_pos hsent]
            exact ⟨rfl,by simp⟩
          · rw [if_neg hsent]
            exact ⟨rfl,fun _ _ _ => by simpa using hsent⟩

theorem pumpRound_keeps {fuel : ℕ} {r : ρ} {s : Shared} {x : Round ρ}
    (h : pumpRound delim cfg fuel r s = some x) :
    x.shared.stop = s.stop ∧ ∀ r' s', x = .ended .refused r' s' → s'.receiver = some 0 := by
  rcases pumpRound_shared h with ⟨hshared,hnot⟩|⟨e,hshared,hrefused⟩
  · exact ⟨by rw [hshared]; rfl,fun r' s' hx => absurd hx (hnot r' s')⟩
  · refine ⟨by rw [hshared,send_stop]; rfl,fun r' s' hx => ?_⟩
    obtain ⟨hnone,hsame⟩ := send_refused (hrefused r' s' hx)
    have hs' : s' = (s.load.2.send e).2 := by rw [← hshared,hx,Round.shared]
    rw [hs',hsame]
    exact hnone

theorem pumpLoop_stop {fuel : ℕ} {r r' : ρ} {s s' : Shared} {delivered : Bool}
    {res : Except IoError Bool} (h : pumpLoop delim cfg fuel r s delivered = some (res,r',s')) :
    s'.stop = s.stop := by
  induction fuel generalizing r s delivered with
  | zero => cases h
  | succ fuel ih =>
    rw [pumpLoop_round] at h
    cases hround : pumpRound delim cfg fuel r s with
    | none => simp only [hround] at h; cases h
    | some x =>
      obtain ⟨hstop,-⟩ := pumpRound_keeps hround
      cases x with
      | ended e r1 s1 =>
        simp only [hround,Option.some.injEq,Prod.mk.injEq] at h
        exact h.2.2 ▸ hstop
      | next r1 s1 =>
        simp only [hround] at h
        exact (ih h).trans hstop

theorem pumpLoop_refused {fuel : ℕ} {r : ρ} {s : Shared} (delivered : Bool)
    (h : pumpEnd delim cfg fuel r s = some .refused) :
    ∃ d r' s', pumpLoop delim cfg fuel r s delivered = some (.ok d,r',s') ∧ s'.receiver = some 0 := by
  induction fuel generalizing r s delivered with
  | zero => cases h
  | succ fuel ih =>
    rw [pumpEnd] at h
    rw [pumpLoop_round]
    cases hround : pumpRound delim cfg fuel r s with
    | none => simp only [hround] at h; cases h
    | some x =>
      cases x with
      | ended e r1 s1 =>
        simp only [hround,Option.some.injEq] at h
        exact ⟨delivered,r1,s1,rfl,(pumpRound_keeps hround).2 r1 s1 (h ▸ rfl)⟩
      | next r1 s1 =>
        simp only [hround] at h
        exact ih true h

theorem pumpFrames_stop {fuel : ℕ} {r r' : ρ} {s s' : Shared} {res : Except IoError Bool}
    (h : pumpFrames fuel r delim cfg s = some (res,r',s')) : s'.stop = s.stop := by
  rw [pumpFrames] at h
  split at h
  · cases h
  · simp only [Option.some.injEq,Prod.mk.injEq] at h
    exact h.2.2 ▸ rfl
  · exact pumpLoop_stop h

theorem pumpFrames_refused {fuel : ℕ} {r : ρ} {s : Shared}
    (h : pumpFramesEnd fuel r delim cfg s = some .refused) :
    ∃ d r' s', pumpFrames fuel r delim cfg s = some (.ok d,r',s') ∧ s'.receiver = some 0 := by
  rw [pumpFramesEnd] at h
  rw [pumpFrames]
  cases hline : readHeaderLine fuel r with
  | none => simp only [hline] at h; cases h
  | some t =>
    obtain ⟨res,r1⟩ := t
    cases res with
    | error e => simp only [hline] at h; cases h
    | ok line =>
      simp only [hline] at h
      exact pumpLoop_refused false h

end Ends

section Exit

variable {α ρ : Type} [Readers.Read ρ] {cfg : StreamConfig} {fuel : ℕ}

/-- How the frame loop of an attempt ends, if the attempt gets there. -/
def streamEnd (fuel : ℕ) (cfg : StreamConfig) (a : Attempt α ρ) (s : Shared) : Option PumpEnd :=
  match openStream cfg a with
  | .error _ => none
  | .ok stream =>
    match readResponseHead fuel (BufReader.new stream) with
    | none => none
    | some (.error _,_) => none
    | some (.ok head,r) =>
      let delim := utf8 "--" ++ utf8 head.boundary
      if head.chunked then pumpFramesEnd fuel (BufReader.new (ChunkedReader.new r)) delim cfg s
      else pumpFramesEnd fuel r delim cfg s

/-- An attempt from `s` in which a send fails, that of a frame or that of the disconnection, and
the state at that send. -/
def Refuses (fuel : ℕ) (cfg : StreamConfig) (a : Attempt α ρ) (s s' : Shared) : Prop :=
  ∃ delivered, streamOnce fuel cfg a s = some (.ok delivered,s') ∧
    (streamEnd fuel cfg a s = some .refused ∨ delivered = true ∧ s'.receiver = some 0)

theorem streamOnce_stop {a : Attempt α ρ} {s s' : Shared} {res : Except IoError Bool}
    (h : streamOnce fuel cfg a s = some (res,s')) : s'.stop = s.stop := by
  rw [streamOnce] at h
  split at h
  · simp only [Option.some.injEq,Prod.mk.injEq] at h
    exact h.2 ▸ rfl
  · split at h
    · cases h
    · simp only [Option.some.injEq,Prod.mk.injEq] at h
      exact h.2 ▸ rfl
    · simp only at h
      split at h
      all_goals
        obtain ⟨t,ht,heq⟩ := Option.map_eq_some_iff.mp h
        obtain ⟨-,rfl⟩ := Prod.mk.inj heq
        exact pumpFrames_stop ht

theorem Refuses.receiver {a : Attempt α ρ} {s s' : Shared} (h : Refuses fuel cfg a s s') :
    s'.receiver = some 0 := by
  obtain ⟨delivered,honce,hend|⟨-,hnone⟩⟩ := h
  · rw [streamEnd] at hend
    rw [streamOnce] at honce
    cases hopen : openStream cfg a with
    | error e => simp only [hopen] at hend; cases hend
    | ok stream =>
      simp only [hopen] at hend honce
      cases hhead : readResponseHead fuel (BufReader.new stream) with
      | none => simp only [hhead] at hend; cases hend
      | some t =>
        obtain ⟨res,r⟩ := t
        cases res with
        | error e => simp only [hhead] at hend; cases hend
        | ok head =>
          simp only [hhead] at hend honce
          split at hend
          all_goals
            rename_i hchunked
            obtain ⟨d,r',s1,hpump,hnone⟩ := pumpFrames_refused hend
            simp only [hchunked,if_true,if_false,Bool.false_eq_true,hpump,Option.map_some,
              Option.some.injEq,Prod.mk.injEq] at honce
            exact honce.2 ▸ hnone
  · exact hnone

theorem sleepSteps_spec (n : ℕ) (s : Shared) :
    ((sleepSteps n s).1 = true ↔ ∃ i ≤ n, s.stop (s.loads+i) = true) ∧
      ((sleepSteps n s).1 = false → (sleepSteps n s).2 = { s with loads := s.loads+n+1 }) := by
  induction n generalizing s with
  | zero => exact ⟨by simp [sleepSteps,Shared.load],fun _ => rfl⟩
  | succ n ih =>
    cases hs : s.stop s.loads with
    | true =>
      simp only [sleepSteps,Shared.load,hs,if_true,true_iff]
      exact ⟨⟨0,Nat.zero_le _,hs⟩,by simp⟩
    | false =>
      obtain ⟨hseen,hstate⟩ := ih { s with loads := s.loads+1 }
      simp only [sleepSteps,Shared.load,hs,Bool.false_eq_true,if_false]
      refine ⟨hseen.trans ⟨?_,?_⟩,fun h => ?_⟩
      · rintro ⟨i,hi,h⟩
        exact ⟨i+1,by omega,by rwa [Nat.add_right_comm,Nat.add_assoc] at h⟩
      · rintro ⟨i,hi,h⟩
        cases i with
        | zero => exact absurd (hs.symm.trans h) Bool.false_ne_true
        | succ i => exact ⟨i,by omega,by rwa [Nat.add_right_comm,Nat.add_assoc]⟩
      · rw [hstate h]
        simp only [Shared.mk.injEq,and_true,true_and]
        omega

theorem sleepSteps_stop (n : ℕ) (s : Shared) : (sleepSteps n s).2.stop = s.stop := by
  induction n generalizing s with
  | zero => rfl
  | succ n ih =>
    cases hs : s.stop s.loads with
    | true => simp only [sleepSteps,Shared.load,hs,if_true]
    | false =>
      simp only [sleepSteps,Shared.load,hs,Bool.false_eq_true,if_false]
      exact ih _

theorem reportEnd_stop (cfg : StreamConfig) (delivered : Bool) (s : Shared) :
    (reportEnd cfg delivered s).stop = s.stop := by
  rw [reportEnd]
  split
  · exact send_stop _ _
  · rfl

theorem streamPass_stop {a : Attempt α ρ} {s s' : Shared}
    (h : streamPass fuel cfg a s = some (.ok s')) : s'.stop = s.stop := by
  rw [streamPass] at h
  cases honce : streamOnce fuel cfg a s with
  | none => simp only [honce] at h; cases h
  | some t =>
    obtain ⟨res,s1⟩ := t
    simp only [honce,Option.some.injEq] at h
    by_cases hstopped : (sleepOrStop RECONNECT_DELAY (reportEnd cfg (res.toOption.getD false) s1)).1 = true
    · rw [if_pos hstopped] at h
      cases h
    · rw [if_neg hstopped] at h
      rw [← Except.ok.inj h,sleepOrStop,sleepSteps_stop,reportEnd_stop,streamOnce_stop honce]

theorem runStream_append (before after : List (Attempt α ρ)) {s s' : Shared}
    (h : runStream fuel cfg before s = some (.attempting s')) :
    ∃ u, s'.stop = s.stop ∧ u.load = (false,s') ∧
      runStream fuel cfg (before ++ after) s = runStream fuel cfg after u := by
  induction before generalizing s with
  | nil =>
    cases hs : s.stop s.loads with
    | true => simp [runStream,Shared.load,hs] at h
    | false =>
      simp only [runStream,Shared.load,hs,Bool.false_eq_true,if_false,Option.some.injEq,
        Progress.attempting.injEq] at h
      exact ⟨s,by rw [← h],by rw [Shared.load,hs,← h],rfl⟩
  | cons a before ih =>
    cases hs : s.stop s.loads with
    | true => simp [runStream,Shared.load,hs] at h
    | false =>
      simp only [runStream,Shared.load,hs,Bool.false_eq_true,if_false,List.cons_append] at h ⊢
      cases hpass : streamPass fuel cfg a { s with loads := s.loads+1 } with
      | none => simp only [hpass] at h; cases h
      | some r =>
        cases r with
        | error s1 => simp [hpass] at h
        | ok s1 =>
          simp only [hpass] at h ⊢
          obtain ⟨u,hstop,hload,hrun⟩ := ih h
          have hkeep := streamPass_stop hpass
          exact ⟨u,hstop.trans hkeep,hload,hrun⟩

/-- Behind a failed send the run does nothing but look at the flag: once for each step of its
sleep, once behind the sleep, and once before it connects again. -/
theorem runStream_refused {a : Attempt α ρ} {u s s' : Shared} (hload : u.load = (false,s))
    (h : Refuses fuel cfg a s s') :
    ∃ p, runStream fuel cfg [a] u = some p ∧
      (p.isReturned = true ↔ ∃ i < 22, s'.stop (s'.loads+i) = true) := by
  have hnone := h.receiver
  obtain ⟨delivered,honce,-⟩ := h
  have hreport : reportEnd cfg delivered s' = s' := by
    rw [reportEnd]
    split
    · simp only [Shared.send,hnone]
    · rfl
  obtain ⟨hseen,hslept⟩ := sleepSteps_spec 20 s'
  have hpass : streamPass fuel cfg a s =
      some (if (sleepSteps 20 s').1 then .error (sleepSteps 20 s').2 else .ok (sleepSteps 20 s').2) := by
    simp only [streamPass,honce,Except.toOption,Option.getD_some,hreport]
    rfl
  simp only [runStream,hload,Bool.false_eq_true,if_false,hpass]
  cases hs : (sleepSteps 20 s').1 with
  | true =>
    obtain ⟨i,hi,hstop⟩ := hseen.mp hs
    exact ⟨_,rfl,by simpa [Progress.isReturned] using ⟨i,by omega,hstop⟩⟩
  | false =>
    have hunseen : ∀ i ≤ 20, s'.stop (s'.loads+i) = false := by
      intro i hi
      by_contra hstop
      exact absurd (hs.symm.trans (hseen.mpr ⟨i,hi,by simpa using hstop⟩)) Bool.false_ne_true
    refine ⟨_,rfl,?_⟩
    simp only [hslept hs,Shared.load]
    cases hlast : s'.stop (s'.loads+20+1) with
    | true => simpa [Progress.isReturned] using ⟨21,by omega,hlast⟩
    | false =>
      simp only [Bool.false_eq_true,if_false,Progress.isReturned,false_iff,not_exists,not_and,
        Bool.not_eq_true]
      intro i hi
      rcases Nat.lt_or_ge i 21 with hlt|hge
      · exact hunseen i (by omega)
      · obtain rfl : i = 21 := by omega
        exact hlast

/-- The attempts end in one in which a send fails; `s'` is the state at that send. -/
def EndsRefused (fuel : ℕ) (cfg : StreamConfig) (attempts : List (Attempt α ρ)) (s s' : Shared) :
    Prop :=
  ∃ before a s1, attempts = before ++ [a] ∧
    runStream fuel cfg before s = some (.attempting s1) ∧ Refuses fuel cfg a s1 s'

/-- A run that connects no more once a send has failed. -/
def ExitsOnDrop (fuel : ℕ) (cfg : StreamConfig) (attempts : List (Attempt α ρ)) (s : Shared) : Prop :=
  ∀ front s', front <+: attempts → EndsRefused fuel cfg front s s' →
    ∃ u, runStream fuel cfg front s = some (.returned u)

/-- The stop flag is set at one of the next 22 times it is read after a failed send. -/
def StopFollows (fuel : ℕ) (cfg : StreamConfig) (attempts : List (Attempt α ρ)) (s : Shared) : Prop :=
  ∀ front s', front <+: attempts → EndsRefused fuel cfg front s s' →
    ∃ i < 22, s.stop (s'.loads+i) = true

/-- A dropped receiver is no reason to return: after a failed send the run connects again unless it
happens to see the stop flag before. -/
theorem exitsOnDrop_iff_stopFollows (fuel : ℕ) (cfg : StreamConfig) (attempts : List (Attempt α ρ))
    (s : Shared) : ExitsOnDrop fuel cfg attempts s ↔ StopFollows fuel cfg attempts s := by
  have hiff (front : List (Attempt α ρ)) (s' : Shared) (h : EndsRefused fuel cfg front s s') :
      (∃ u, runStream fuel cfg front s = some (.returned u)) ↔ ∃ i < 22, s.stop (s'.loads+i) = true := by
    obtain ⟨before,a,s1,rfl,hrun,hrefuses⟩ := h
    obtain ⟨u,hstop,hload,happend⟩ := runStream_append before [a] hrun
    obtain ⟨p,hp,hreturned⟩ := runStream_refused hload hrefuses
    have hkeep : s'.stop = s.stop := by
      obtain ⟨delivered,honce,-⟩ := hrefuses
      exact (streamOnce_stop honce).trans hstop
    rw [happend,hp,← hkeep,← hreturned]
    cases p with
    | returned v => simp [Progress.isReturned]
    | attempting v => simp [Progress.isReturned]
  constructor
  · intro h front s' hfront hends
    exact (hiff front s' hends).mp (h front s' hfront hends)
  · intro h front s' hfront hends
    exact (hiff front s' hends).mpr (h front s' hfront hends)

/-- A camera that serves one frame to whoever connects. -/
def oneFrame : Attempt Unit Script where
  lookup _ _ := .ok [()]
  connect _ := .ok ⟨[.ok (utf8
    "HTTP/1.0 200 OK\r\nContent-Type: multipart/x-mixed-replace; boundary=f\r\n\r\n" ++
    multipart boundaryF.delim [dashedPart])]⟩

/-- Nobody listens any more, and nobody sets the flag. -/
def unheard : Shared := { stop := fun _ => false, receiver := some 0 }

theorem unheard_connects_again : ¬ExitsOnDrop 200 cameraConfig [oneFrame] unheard := by
  intro h
  have hfirst : runStream 200 cameraConfig ([] : List (Attempt Unit Script)) unheard =
      some (.attempting { unheard with loads := 1 }) := rfl
  have honce : (streamOnce 200 cameraConfig oneFrame { unheard with loads := 1 }).map (·.1) =
      some (.ok false) := by decide +kernel
  have hend : streamEnd 200 cameraConfig oneFrame { unheard with loads := 1 } = some .refused := by
    decide +kernel
  have hagain : (runStream 200 cameraConfig [oneFrame] unheard).map Progress.isReturned = some false := by
    decide +kernel
  obtain ⟨⟨res,s'⟩,hrun,hres⟩ := Option.map_eq_some_iff.mp honce
  obtain rfl : res = .ok false := hres
  obtain ⟨u,hu⟩ := h [oneFrame] s' List.prefix_rfl ⟨[],oneFrame,_,rfl,hfirst,false,hrun,.inl hend⟩
  rw [hu] at hagain
  cases hagain

end Exit

end MjpegStream
end Robocol
