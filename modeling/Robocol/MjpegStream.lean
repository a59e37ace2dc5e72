import Robocol.Borders
import Robocol.Chunked

/-! The MJPEG stream reader: boundary search by a failure table, and the loop that turns
a multipart body into frame events. -/
namespace Robocol

open Filter Readers StdText HeaderLines

def MAX_FRAME_BYTES : ℕ := 16*1024*1024

namespace MjpegStream

inductive VideoEvent
  | frame (source : String) (jpeg : List UInt8)
  | disconnected (source : String)
  deriving DecidableEq

structure StreamConfig where
  source : String
  host : String
  port : UInt16
  path : String
  deriving DecidableEq

/-- The stop flag and the event channel, as one thread sees them: what each load of the flag
returns, and how many more sends succeed (`none` where the receiver is never dropped). -/
structure Shared where
  stop : ℕ → Bool
  loads : ℕ := 0
  receiver : Option ℕ := none
  sent : List VideoEvent := []

def Shared.load (s : Shared) : Bool × Shared := (s.stop s.loads,{ s with loads := s.loads+1 })

/-- Whether the event was sent, and the channel after it. -/
def Shared.send (s : Shared) (e : VideoEvent) : Bool × Shared :=
  match s.receiver with
  | none => (true,{ s with sent := s.sent ++ [e] })
  | some 0 => (false,s)
  | some (n+1) => (true,{ s with receiver := some n, sent := s.sent ++ [e] })

/-- `while k > 0 && pattern[i] != pattern[k] { k = failure[k - 1]; }` -/
def kmpFallback (pattern : List UInt8) (failure : List ℕ) (i : ℕ) : ℕ → ℕ → Option ℕ
  | 0, _ => none
  | fuel+1, k =>
    if 0 < k then do
      let a ← pattern[i]?
      let b ← pattern[k]?
      if a = b then return k
      else
        let next ← failure[k-1]?
        kmpFallback pattern failure i fuel next
    else return k

/-- One round of the loop of `kmp_failure`, on the table and `k`. -/
def kmpRound (pattern : List UInt8) (s : List ℕ × ℕ) (i : ℕ) : Option (List ℕ × ℕ) := do
  let k ← kmpFallback pattern s.1 i (s.2+1) s.2
  let a ← pattern[i]?
  let b ← pattern[k]?
  let k := if a = b then k+1 else k
  return (s.1.set i k,k)

/-- `none` where the source would index out of range or loop without end. -/
def kmpFailure (pattern : List UInt8) : Option (List ℕ) := do
  let s ← (List.range' 1 (pattern.length-1)).foldlM (kmpRound pattern)
    (List.replicate pattern.length 0,0)
  return s.1

inductive ByteStep
  | found (out : List UInt8)
  | next (out : List UInt8) (matched : ℕ)

/-- The inner loop of `read_until_delim`: one byte against the delimiter. -/
def matchByte (delim : List UInt8) (failure : List ℕ) (byte : UInt8) :
    ℕ → List UInt8 → ℕ → Option ByteStep
  | 0, _, _ => none
  | fuel+1, out, matched => do
    let d ← delim[matched]?
    if byte = d then
      if matched+1 = delim.length then return .found out else return .next out (matched+1)
    else if matched = 0 then return .next (out ++ [byte]) 0
    else
      let fallback ← failure[matched-1]?
      if fallback ≤ matched then
        matchByte delim failure byte fuel (out ++ delim.take (matched-fallback)) fallback
      else none

inductive Scan
  | found (consumed : ℕ) (out : List UInt8)
  | overflow (consumed : ℕ)
  | more (out : List UInt8) (matched : ℕ)

/-- The loop over the available bytes. -/
def scanBytes (delim : List UInt8) (failure : List ℕ) :
    List UInt8 → ℕ → List UInt8 → ℕ → Option Scan
  | [], _, out, matched => return .more out matched
  | byte :: bytes, consumed, out, matched => do
    match ← matchByte delim failure byte (matched+1) out matched with
    | .found out => return .found (consumed+1) out
    | .next out matched =>
      if MAX_FRAME_BYTES < out.length then return .overflow (consumed+1)
      else scanBytes delim failure bytes (consumed+1) out matched

section Stream

variable {ρ : Type} [BufRead ρ]

def readUntilDelimFrom (delim : List UInt8) (failure : List ℕ) :
    ℕ → ρ → List UInt8 → ℕ → Run ρ (List UInt8)
  | 0, _, _, _ => none
  | fuel+1, r, out, matched =>
    match BufRead.fillBuf fuel r with
    | none => none
    | some (.error e,r) => some (.error e,r)
    | some (.ok available,r) =>
      if available = [] then some (.error ⟨.unexpectedEof,"stream ended mid-frame"⟩,r)
      else
        match scanBytes delim failure available 0 out matched with
        | none => none
        | some (.found consumed out) => some (.ok out,BufRead.consume r consumed)
        | some (.overflow consumed) =>
          some (.error ⟨.invalidData,"frame exceeds size cap"⟩,BufRead.consume r consumed)
        | some (.more out matched) =>
          readUntilDelimFrom delim failure fuel (BufRead.consume r available.length) out matched

def readUntilDelim (fuel : ℕ) (r : ρ) (delim : List UInt8) : Run ρ (List UInt8) :=
  match kmpFailure delim with
  | none => none
  | some failure => readUntilDelimFrom delim failure fuel r [] 0

/-- `if jpeg.ends_with(b"\r\n") { jpeg.truncate(jpeg.len() - 2); }` -/
def trimCrlf (jpeg : List UInt8) : List UInt8 :=
  if CRLF.isSuffixOf jpeg then jpeg.take (jpeg.length-2) else jpeg

/-- The loop of `pump_frames`. Its result is whether a frame was delivered. -/
def pumpLoop (delim : List UInt8) (cfg : StreamConfig) :
    ℕ → ρ → Shared → Bool → Option (Except IoError Bool × ρ × Shared)
  | 0, _, _, _ => none
  | fuel+1, r, s, delivered =>
    let (stopped,s) := s.load
    if stopped then some (.ok delivered,r,s)
    else
      match skipPartHeaders fuel r none with
      | none => none
      | some (.error _,r) => some (.ok delivered,r,s)
      | some (.ok _,r) =>
        match readUntilDelim fuel r delim with
        | none => none
        | some (.error _,r) => some (.ok delivered,r,s)
        | some (.ok jpeg,r) =>
          match readHeaderLine fuel r with
          | none => none
          | some (_,r) =>
            let (sent,s) := s.send (.frame cfg.source (trimCrlf jpeg))
            if sent then pumpLoop delim cfg fuel r s true else some (.ok delivered,r,s)

def pumpFrames (fuel : ℕ) (r : ρ) (delim : List UInt8) (cfg : StreamConfig) (s : Shared) :
    Option (Except IoError Bool × ρ × Shared) :=
  match readHeaderLine fuel r with
  | none => none
  | some (.error _,r) => some (.ok false,r,s)
  | some (.ok _,r) => pumpLoop delim cfg fuel r s false

end Stream

end MjpegStream
end Robocol
