import Robocol.FrameFeed
import Robocol.WebcamPacing

/-! The recovery of a stalled stream. Its clock runs from the last frame request: chunks that
arrive do not stop it, and what it discards is whatever has not arrived by then. -/
namespace Robocol
namespace Client

open Cmd Runs Worker

variable {env : Env} {w v : Worker}

section Timers

def beforeTimers (env : Env) (w : Worker) (r : Received) : Except Worker Worker := do
  let w ← receive env w r
  let w ← checkTimeout env w
  return beat env w

theorem socketStep_eq (env : Env) (w : Worker) (r : Received) :
    socketStep env w r =
      beforeTimers env w r >>= fun v => (v.webcamTimers env).retransmitPending env := by
  simp [socketStep,beforeTimers]

/-- There is a stream, no request is deferred, and the last one was made that long ago. -/
def Stalled (env : Env) (v : Worker) : Prop :=
  v.webcamAvailable = true ∧ v.webcamPendingRequest = false ∧
    ∃ t ∈ v.lastWebcamRequest, t+WEBCAM_STALL_TIMEOUT ≤ env.clock v.clockReads

theorem stalled_frames (h : Stalled env v) : (v.webcamTimers env).webcamFrames = ∅ := by
  obtain ⟨hav,hpend,t,ht,hlong⟩ := h
  have hlast : v.lastWebcamRequest = some t := ht
  have hdue : WEBCAM_STALL_TIMEOUT ≤ env.clock v.clockReads-t := Nat.le_sub_of_add_le' hlong
  have hcleared : v.webcamTimers env = { v with
      clockReads := v.clockReads+1, webcamFrames := ∅ }.requestWebcamFramePaced env := by
    rw [webcamTimers,hpend,hav]
    simp only [Bool.false_eq_true,if_false,Bool.not_false,Bool.and_true,if_true,hlast,elapsed,hdue,hpend,hav]
  rw [hcleared,(requestWebcamFramePaced_requests _).frames]

theorem unstalled_frames (h : ¬Stalled env v) : (v.webcamTimers env).webcamFrames = v.webcamFrames := by
  rw [webcamTimers]
  cases hpend : v.webcamPendingRequest with
  | true =>
    obtain ⟨n,hread⟩ := isDue_eq env v v.lastWebcamRequest env.cfg.webcamMinFrameInterval
    simp only [if_true]
    generalize v.isDue env v.lastWebcamRequest env.cfg.webcamMinFrameInterval = x at hread
    obtain ⟨due,u⟩ := x
    obtain rfl : u = { v with clockReads := v.clockReads+n } := hread
    cases due with
    | true => exact (sendWebcamRequest_requests _).frames
    | false => simp [hpend]
  | false =>
    simp only [Bool.false_eq_true,if_false,hpend]
    cases hav : v.webcamAvailable with
    | false => rfl
    | true =>
      cases hlast : v.lastWebcamRequest with
      | none => rfl
      | some t =>
        have hsoon : ¬WEBCAM_STALL_TIMEOUT ≤ env.clock v.clockReads-t := by
          intro hdue
          have hpos : 0 < WEBCAM_STALL_TIMEOUT := by decide
          exact h ⟨hav,hpend,t,hlast,by omega⟩
        simp only [elapsed,Bool.not_false,Bool.and_true,if_true,hsoon,if_false]

theorem beforeTimers_keeps (w : Worker) (r : Received) : Keeps env w (beforeTimers env w r) :=
  (receive_keeps w r).bind fun v => (checkTimeout_keeps_pace v).bind fun v => (beat_calm v).goes

end Timers

section Passes

/-- Of every pass of a run, the state in which it comes to the webcam timers. -/
def EachPass (env : Env) (w₀ : Worker) (inputs : List Input) (P : Worker → Prop) : Prop :=
  ∀ pre r post w v, inputs = pre ++ .socket r :: post → run env w₀ pre = .ok w →
    beforeTimers env w r = .ok v → P v

/-- There is a stream, no request is deferred, and all requests were made that long ago. -/
structure Overdue (env : Env) (times : List ℕ) (v : Worker) : Prop where
  available : v.webcamAvailable = true
  undeferred : v.webcamPendingRequest = false
  old : ∀ t ∈ times, t+WEBCAM_STALL_TIMEOUT ≤ env.clock v.clockReads

/-- Stall recovery goes by the requests of the run so far, and by nothing else. -/
structure StallsByRequests (env : Env) (w₀ v : Worker) (hs : List (Handled Worker Unit)) : Prop where
  feed : Feed Quiet (Asks env) w₀ hs v
  count : requestCount v = hs.length
  discards : Overdue env (requestTimes env hs) v → (v.webcamTimers env).webcamFrames = ∅
  spares : ¬Overdue env (requestTimes env hs) v → (v.webcamTimers env).webcamFrames = v.webcamFrames

theorem stalled_iff {hs : List (Handled Worker Unit)} (h : Counted env hs v) (hv : WebcamInv env v) :
    Stalled env v ↔ Overdue env (requestTimes env hs) v := by
  constructor
  · rintro ⟨hav,hpend,t,ht,hlong⟩
    refine ⟨hav,hpend,fun s hs' => ?_⟩
    have hle := h.le_last hs' ht
    omega
  · intro hover
    obtain ⟨t,ht⟩ := Option.ne_none_iff_exists'.1 (hv.last hover.available)
    refine ⟨hover.available,hover.undeferred,t,ht,hover.old t ?_⟩
    rw [h.last] at ht
    exact List.mem_of_getLast? ht

theorem stalls_by_requests (env : Env) (receiver : Option ℕ) (inputs : List Input) :
    EachPass env (start env receiver) inputs fun v =>
      ∃ hs, StallsByRequests env (start env receiver) v hs := by
  intro pre r post w v _ hrun hpass
  have hbefore : Keeps env _ (run env (start env receiver) pre) := run_keeps (start env receiver) pre
  have hfront : Keeps env w (beforeTimers env w r) := beforeTimers_keeps w r
  rw [hrun] at hbefore
  rw [hpass] at hfront
  obtain ⟨hv,hs,hfeed⟩ := Goes.trans hbefore hfront (webcamInv_start env receiver)
  have hcounted := feed_counted rfl rfl hfeed
  have hiff := stalled_iff hcounted hv
  exact ⟨hs,hfeed,hcounted.count,fun h => stalled_frames (hiff.2 h),fun h => unstalled_frames (hiff.not.2 h)⟩

/-- A reception accepts a chunk of frame `n`, and `u` is the state behind it. -/
def AcceptsChunk (env : Env) (w : Worker) (r : Received) (n : ℤ) (u : Worker) : Prop :=
  receive env w r = .ok u ∧ ∃ f f', w.webcamFrames.get? n = some f ∧
    u.webcamFrames.get? n = some f' ∧ f'.remaining < f.remaining

/-- What a clock of the chunks would give: no pass discards a frame that has just accepted one. -/
def SparesArriving (env : Env) (w₀ : Worker) (inputs : List Input) : Prop :=
  ∀ n front r back w u, inputs = front ++ .socket r :: back → run env w₀ front = .ok w →
    AcceptsChunk env w r n u → ∀ pre r' post w' v, inputs = pre ++ .socket r' :: post →
      front.length ≤ pre.length → run env w₀ pre = .ok w' → beforeTimers env w' r' = .ok v →
        env.clock v.clockReads < u.lastRx+WEBCAM_STALL_TIMEOUT →
          (v.webcamTimers env).webcamFrames.get? n = v.webcamFrames.get? n

/-- A clock that stands, but for one second that passes before its reading 24. -/
def pausingClock (n : ℕ) : ℕ := if n < 24 then 0 else 10^9

theorem pausingClock_mono : Monotone pausingClock := by
  intro m n h
  rw [pausingClock,pausingClock]
  by_cases hn : n < 24
  · rw [if_pos hn,if_pos (h.trans_lt hn)]
  · rw [if_neg hn]
    split
    · exact Nat.zero_le _
    · exact le_rfl

def slowEnv : Env := { frameEnv [⟨1,5000⟩] [⟨1,0,"AQID"⟩] with
  clock := pausingClock, clock_mono := pausingClock_mono }

/-- A frame of two chunks is announced right behind its request. -/
def announced : List Input := [fromRobot (.keepAlive {}),
  fromRobot (.command (Command.new STREAM_CHANGE "true" 4)),
  fromRobot (.command (Command.new RECEIVE_FRAME_BEGIN (beginText ⟨1,5000⟩) 5))]

def firstChunk : Received := .datagram ((Packet.serialize
  (.command (Command.new RECEIVE_FRAME_CHUNK (chunkText ⟨1,0,"AQID"⟩) 6))).getD []) robot

def waiting : Worker := final (run slowEnv (start slowEnv none) announced)
def arrived : Worker := final (receive slowEnv waiting firstChunk)
def behindChunk : Worker := final (beforeTimers slowEnv waiting firstChunk)

theorem firstChunk_accepted : AcceptsChunk slowEnv waiting firstChunk 1 arrived := by
  have hbefore : (waiting.webcamFrames.get? 1).map (·.remaining) = some 2 := by decide +kernel
  have hafter : (arrived.webcamFrames.get? 1).map (·.remaining) = some 1 := by decide +kernel
  obtain ⟨f,hf,htwo⟩ := Option.map_eq_some_iff.1 hbefore
  obtain ⟨f',hf',hone⟩ := Option.map_eq_some_iff.1 hafter
  exact ⟨ok_final (by decide +kernel),f,f',hf,hf',by rw [htwo,hone]; exact Nat.one_lt_two⟩

theorem arriving_frame_discarded :
    ¬SparesArriving slowEnv (start slowEnv none) (announced ++ [.socket firstChunk]) := by
  intro h
  have hrun : run slowEnv (start slowEnv none) announced = .ok waiting := ok_final (by decide +kernel)
  have hpass : beforeTimers slowEnv waiting firstChunk = .ok behindChunk := ok_final (by decide +kernel)
  have hfresh : slowEnv.clock behindChunk.clockReads < arrived.lastRx+WEBCAM_STALL_TIMEOUT := by
    decide +kernel
  have hkept := h 1 announced firstChunk [] waiting arrived rfl hrun firstChunk_accepted announced
    firstChunk [] waiting behindChunk rfl le_rfl hrun hpass hfresh
  have hthere : (behindChunk.webcamFrames.get? 1).isSome = true := by decide +kernel
  have hgone : ((behindChunk.webcamTimers slowEnv).webcamFrames.get? 1).isSome = false := by
    decide +kernel
  rw [hkept,hthere] at hgone
  exact absurd hgone.symm Bool.false_ne_true

end Passes
end Client
end Robocol
