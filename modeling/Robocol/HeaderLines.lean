import Robocol.Readers
import Robocol.StdText

/-! CRLF-terminated lines: the capped line reader, the header line on top of it, and
the header block of one part. -/
namespace Robocol
namespace HeaderLines

open Filter Readers StdText

def CR : UInt8 := 13
def LF : UInt8 := 10
def CRLF : List UInt8 := [CR,LF]

def LINE_CAP : ℕ := 8192

variable {ρ : Type} [Read ρ]

/-- The bytes of the line so far are in `out`, `total` of them from this call. -/
def readUntilCrlf : ℕ → ρ → List UInt8 → ℕ → Run ρ (ℕ × List UInt8)
  | 0, _, _, _ => none
  | fuel+1, r, out, total =>
    match Read.read fuel r 1 with
    | none => none
    | some (.ok [],r) => some (.ok (total,out),r)
    | some (.ok (byte :: _),r) =>
      let out := out ++ [byte]
      if byte = LF ∨ LINE_CAP < out.length then some (.ok (total+1,out),r)
      else readUntilCrlf fuel r out (total+1)
    | some (.error e,r) =>
      if e.kind = .interrupted then readUntilCrlf fuel r out total else some (.error e,r)

/-- `while matches!(line.last(), Some(b'\r' | b'\n')) { line.pop(); }` -/
def popLineEnd (line : List UInt8) : List UInt8 :=
  (line.reverse.dropWhile fun b => b == CR || b == LF).reverse

def readHeaderLine (fuel : ℕ) (r : ρ) : Run ρ Text :=
  match readUntilCrlf fuel r [] 0 with
  | none => none
  | some (.error e,r) => some (.error e,r)
  | some (.ok (n,line),r) =>
    if n = 0 then some (.error ⟨.unexpectedEof,"stream ended mid-header"⟩,r)
    else some (.ok (fromUtf8Lossy (popLineEnd line)),r)

/-- The `content-length` of a header line, if that is what the line is. -/
def contentLength (line : Text) (current : Option ℕ) : Option ℕ :=
  match splitOnce ':' line with
  | some (name,value) =>
    if eqIgnoreAsciiCase (trim name) "content-length".toList then fromStrRadix 10 (trim value)
    else current
  | none => current

def skipPartHeaders : ℕ → ρ → Option ℕ → Run ρ (Option ℕ)
  | 0, _, _ => none
  | fuel+1, r, length =>
    match readHeaderLine fuel r with
    | none => none
    | some (.error e,r) => some (.error e,r)
    | some (.ok line,r) =>
      if line = [] then some (.ok length,r)
      else skipPartHeaders fuel r (contentLength line length)

variable {D : ρ → List UInt8 → Prop}

theorem readUntilCrlf_line (hD : Delivers D) (line S out : List UInt8) (total : ℕ) (r : ρ)
    (h : D r (line ++ LF :: S)) (hline : LF ∉ line) (hcap : out.length+line.length ≤ LINE_CAP) :
    ∃ r', D r' S ∧ ∀ᶠ fuel in atTop,
      readUntilCrlf fuel r out total = some (.ok (total+line.length+1,out ++ line ++ [LF]),r') := by
  induction line generalizing out total r with
  | nil =>
    obtain ⟨r',hr',hread⟩ := hD.read_one h
    refine ⟨r',hr',eventually_of_succ ?_⟩
    filter_upwards [hread] with fuel hf
    simp [readUntilCrlf,hf]
  | cons b line ih =>
    simp only [List.mem_cons,not_or] at hline
    simp only [List.length_cons] at hcap
    obtain ⟨r1,hr1,hread⟩ := hD.read_one h
    have hlen : (out ++ [b]).length = out.length+1 := by simp
    obtain ⟨r2,hr2,hrest⟩ := ih (out ++ [b]) (total+1) r1 hr1 hline.2 (by omega)
    refine ⟨r2,hr2,eventually_of_succ ?_⟩
    filter_upwards [hread,hrest] with fuel hf hg
    have hstop : ¬(b = LF ∨ LINE_CAP < (out ++ [b]).length) := by
      rintro (rfl|hlt)
      · exact hline.1 rfl
      · omega
    have htotal : total+1+line.length+1 = total+(b :: line).length+1 := by simp; omega
    simp only [readUntilCrlf,hf,if_neg hstop,hg,htotal,List.append_assoc,List.cons_append,
      List.nil_append]

theorem popLineEnd_append {line back : List UInt8} (hcr : CR ∉ line) (hlf : LF ∉ line)
    (hback : ∀ b ∈ back, b = CR ∨ b = LF) : popLineEnd (line ++ back) = line := by
  have hstop : line.reverse.dropWhile (fun b => b == CR || b == LF) = line.reverse := by
    cases hr : line.reverse with
    | nil => rfl
    | cons b bs =>
      have hb : b ∈ line := by
        rw [← List.mem_reverse,hr]
        exact List.mem_cons_self ..
      apply List.dropWhile_cons_of_neg
      simp only [Bool.or_eq_true,beq_iff_eq]
      rintro (rfl|rfl)
      · exact hcr hb
      · exact hlf hb
  have hall : ∀ b ∈ back.reverse, (b == CR || b == LF) = true := by simpa using hback
  rw [popLineEnd,List.reverse_append,List.dropWhile_append_of_pos hall,hstop,List.reverse_reverse]

theorem popLineEnd_line {line : List UInt8} (hcr : CR ∉ line) (hlf : LF ∉ line) :
    popLineEnd (line ++ CRLF) = line :=
  popLineEnd_append hcr hlf (by simp [CRLF])

/-- A header line is delivered without its line end, and the reader is left just past it. -/
theorem readHeaderLine_line (hD : Delivers D) (line S : List UInt8) (r : ρ)
    (h : D r (line ++ CRLF ++ S)) (hcr : CR ∉ line) (hlf : LF ∉ line)
    (hcap : line.length+1 ≤ LINE_CAP) :
    ∃ r', D r' S ∧ ∀ᶠ fuel in atTop, readHeaderLine fuel r = some (.ok (fromUtf8Lossy line),r') := by
  have hs : line ++ CRLF ++ S = (line ++ [CR]) ++ LF :: S := by simp [CRLF]
  rw [hs] at h
  have hlf' : LF ∉ line ++ [CR] := by
    simp only [List.mem_append,List.mem_singleton,not_or]
    exact ⟨hlf,by decide⟩
  obtain ⟨r',hr',hread⟩ := readUntilCrlf_line hD (line ++ [CR]) S [] 0 r h hlf' (by simpa using hcap)
  refine ⟨r',hr',?_⟩
  filter_upwards [hread] with fuel hf
  have hpop : popLineEnd ([] ++ (line ++ [CR]) ++ [LF]) = line := by
    simpa [CRLF] using popLineEnd_line hcr hlf
  simp only [readHeaderLine,hf,hpop]
  simp

theorem readUntilCrlf_full (hD : Delivers D) (line S out : List UInt8) (total : ℕ) (r : ρ)
    (h : D r (line ++ S)) (hline : LF ∉ line) (hout : out.length ≤ LINE_CAP)
    (hcap : out.length+line.length = LINE_CAP+1) :
    ∃ r', D r' S ∧ ∀ᶠ fuel in atTop,
      readUntilCrlf fuel r out total = some (.ok (total+line.length,out ++ line),r') := by
  induction line generalizing out total r with
  | nil =>
    simp only [List.length_nil] at hcap
    omega
  | cons b line ih =>
    simp only [List.mem_cons,not_or] at hline
    simp only [List.length_cons] at hcap
    obtain ⟨r1,hr1,hread⟩ := hD.read_one h
    have hlen : (out ++ [b]).length = out.length+1 := by simp
    by_cases hfull : LINE_CAP < (out ++ [b]).length
    · obtain rfl : line = [] := List.eq_nil_of_length_eq_zero (by omega)
      refine ⟨r1,hr1,eventually_of_succ ?_⟩
      filter_upwards [hread] with fuel hf
      simp only [readUntilCrlf,hf,if_pos (Or.inr hfull)]
      rfl
    · obtain ⟨r2,hr2,hrest⟩ := ih (out ++ [b]) (total+1) r1 hr1 hline.2 (by omega) (by omega)
      refine ⟨r2,hr2,eventually_of_succ ?_⟩
      filter_upwards [hread,hrest] with fuel hf hg
      have hstop : ¬(b = LF ∨ LINE_CAP < (out ++ [b]).length) := by
        rintro (rfl|hlt)
        · exact hline.1 rfl
        · exact hfull hlt
      have htotal : total+1+line.length = total+(b :: line).length := by simp; omega
      simp only [readUntilCrlf,hf,if_neg hstop,hg,htotal,List.append_assoc,List.cons_append,
        List.nil_append]

/-- A line of the full cap is delivered, but its line feed is left for the next reader. -/
theorem readHeaderLine_full (hD : Delivers D) (line S : List UInt8) (r : ρ)
    (h : D r (line ++ CRLF ++ S)) (hcr : CR ∉ line) (hlf : LF ∉ line)
    (hcap : line.length = LINE_CAP) :
    ∃ r', D r' (LF :: S) ∧
      ∀ᶠ fuel in atTop, readHeaderLine fuel r = some (.ok (fromUtf8Lossy line),r') := by
  have hs : line ++ CRLF ++ S = (line ++ [CR]) ++ LF :: S := by simp [CRLF]
  rw [hs] at h
  have hlf' : LF ∉ line ++ [CR] := by
    simp only [List.mem_append,List.mem_singleton,not_or]
    exact ⟨hlf,by decide⟩
  obtain ⟨r',hr',hread⟩ := readUntilCrlf_full hD (line ++ [CR]) (LF :: S) [] 0 r h hlf' (by simp)
    (by simpa using hcap)
  refine ⟨r',hr',?_⟩
  filter_upwards [hread] with fuel hf
  have hpop : popLineEnd ([] ++ (line ++ [CR])) = line := by
    exact popLineEnd_append hcr hlf (by simp)
  simp only [readHeaderLine,hf,hpop]
  simp

theorem readUntilCrlf_end (hD : Delivers D) (line out : List UInt8) (total : ℕ) (r : ρ) (h : D r line)
    (hline : LF ∉ line) (hcap : out.length+line.length ≤ LINE_CAP) :
    ∃ r', D r' [] ∧ ∀ᶠ fuel in atTop,
      readUntilCrlf fuel r out total = some (.ok (total+line.length,out ++ line),r') := by
  induction line generalizing out total r with
  | nil =>
    obtain ⟨r',hr',hread⟩ := hD.read_end h Nat.one_pos
    refine ⟨r',hr',eventually_of_succ ?_⟩
    filter_upwards [hread] with fuel hf
    simp [readUntilCrlf,hf]
  | cons b line ih =>
    simp only [List.mem_cons,not_or] at hline
    simp only [List.length_cons] at hcap
    obtain ⟨r1,hr1,hread⟩ := hD.read_one h
    have hlen : (out ++ [b]).length = out.length+1 := by simp
    obtain ⟨r2,hr2,hrest⟩ := ih (out ++ [b]) (total+1) r1 hr1 hline.2 (by omega)
    refine ⟨r2,hr2,eventually_of_succ ?_⟩
    filter_upwards [hread,hrest] with fuel hf hg
    have hstop : ¬(b = LF ∨ LINE_CAP < (out ++ [b]).length) := by
      rintro (rfl|hlt)
      · exact hline.1 rfl
      · omega
    have htotal : total+1+line.length = total+(b :: line).length := by simp; omega
    simp only [readUntilCrlf,hf,if_neg hstop,hg,htotal,List.append_assoc,List.cons_append,
      List.nil_append]

theorem readHeaderLine_end (hD : Delivers D) (r : ρ) (h : D r []) :
    ∃ r', D r' [] ∧ ∀ᶠ fuel in atTop,
      readHeaderLine fuel r = some (.error ⟨.unexpectedEof,"stream ended mid-header"⟩,r') := by
  obtain ⟨r',hr',hread⟩ := readUntilCrlf_end hD [] [] 0 r h (by simp) (by simp)
  refine ⟨r',hr',?_⟩
  filter_upwards [hread] with fuel hf
  simp [readHeaderLine,hf]

/-- A stream that ends within a line gives what there is of it, or fails. -/
theorem readHeaderLine_cut (hD : Delivers D) (line : List UInt8) (r : ρ) (h : D r line)
    (hline : LF ∉ line) (hcap : line.length ≤ LINE_CAP) :
    ∃ res r', D r' [] ∧ ∀ᶠ fuel in atTop, readHeaderLine fuel r = some (res,r') := by
  obtain ⟨r',hr',hread⟩ := readUntilCrlf_end hD line [] 0 r h hline (by simpa using hcap)
  by_cases hnil : line = []
  · refine ⟨.error ⟨.unexpectedEof,"stream ended mid-header"⟩,r',hr',?_⟩
    filter_upwards [hread] with fuel hf
    simp [readHeaderLine,hf,hnil]
  · refine ⟨.ok (fromUtf8Lossy (popLineEnd line)),r',hr',?_⟩
    filter_upwards [hread] with fuel hf
    simp [readHeaderLine,hf,hnil]

/-- A non-empty line of bytes other than CR and LF, short enough for the line reader. -/
structure HeaderLine where
  bytes : List UInt8
  ne_nil : bytes ≠ []
  no_cr : CR ∉ bytes
  no_lf : LF ∉ bytes
  short : bytes.length ≤ 8000

/-- Header lines and the blank line that ends the block. -/
def headerBlock (headers : List HeaderLine) : List UInt8 :=
  (headers.flatMap fun l => l.bytes ++ CRLF) ++ CRLF

theorem headerBlock_cons (l : HeaderLine) (headers : List HeaderLine) (S : List UInt8) :
    headerBlock (l :: headers) ++ S = l.bytes ++ CRLF ++ (headerBlock headers ++ S) := by
  simp [headerBlock]

theorem readHeaderLine_of (hD : Delivers D) (l : HeaderLine) (S : List UInt8) (r : ρ)
    (h : D r (l.bytes ++ CRLF ++ S)) :
    ∃ r', D r' S ∧ ∀ᶠ fuel in atTop, readHeaderLine fuel r = some (.ok (fromUtf8Lossy l.bytes),r') :=
  readHeaderLine_line hD l.bytes S r h l.no_cr l.no_lf
    (Nat.le_trans (Nat.succ_le_succ l.short) (by decide))

theorem skipPartHeaders_block (hD : Delivers D) (headers : List HeaderLine) (S : List UInt8)
    (length : Option ℕ) (r : ρ) (h : D r (headerBlock headers ++ S)) :
    ∃ r' length', D r' S ∧ ∀ᶠ fuel in atTop,
      skipPartHeaders fuel r length = some (.ok length',r') := by
  induction headers generalizing length r with
  | nil =>
    obtain ⟨r',hr',hline⟩ := readHeaderLine_line hD [] S r h (by simp) (by simp) (by decide)
    refine ⟨r',length,hr',eventually_of_succ ?_⟩
    filter_upwards [hline] with fuel hf
    simp [skipPartHeaders,hf]
  | cons l headers ih =>
    rw [headerBlock_cons] at h
    obtain ⟨r1,hr1,hline⟩ := readHeaderLine_of hD l _ r h
    obtain ⟨r2,length',hr2,hrest⟩ :=
      ih (contentLength (fromUtf8Lossy l.bytes) length) r1 hr1
    refine ⟨r2,length',hr2,eventually_of_succ ?_⟩
    filter_upwards [hline,hrest] with fuel hf hg
    simp only [skipPartHeaders,hf,if_neg (fromUtf8Lossy_ne_nil l.ne_nil),hg]

theorem skipPartHeaders_end (hD : Delivers D) (length : Option ℕ) (r : ρ) (h : D r []) :
    ∃ r' e, D r' [] ∧ ∀ᶠ fuel in atTop, skipPartHeaders fuel r length = some (.error e,r') := by
  obtain ⟨r',hr',hline⟩ := readHeaderLine_end hD r h
  refine ⟨r',⟨.unexpectedEof,"stream ended mid-header"⟩,hr',eventually_of_succ ?_⟩
  filter_upwards [hline] with fuel hf
  simp only [skipPartHeaders,hf]

end HeaderLines
end Robocol
