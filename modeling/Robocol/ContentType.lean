import Mathlib.Data.List.Induction
import Robocol.VideoStream

/-! The boundary of a stream in the header that announces it: the parameters of a media type as
HTTP has them, and which of these headers the extraction by search and trimming reads rightly. -/
namespace Robocol
namespace MjpegStream

open Readers StdText HeaderLines Filter

section Grammar

def isOws (c : Char) : Bool := c = ' ' || c = '\t'

/-- Optional white space. -/
structure Ows where
  chars : Text
  ows : ∀ c ∈ chars, isOws c = true

/-- A digit, a letter, or one of some marks. -/
def isTchar (c : Char) : Bool :=
  let n := c.toNat
  (48 ≤ n && n ≤ 57) || (65 ≤ n && n ≤ 90) || (97 ≤ n && n ≤ 122) ||
    "!#$%&'*+-.^_`|~".toList.contains c

structure Token where
  chars : Text
  ne_nil : chars ≠ []
  tchars : ∀ c ∈ chars, isTchar c = true

/-- What stands for itself in a quoted string. -/
def isQdtext (c : Char) : Bool :=
  c = '\t' || c = ' ' || c = '!' || ('#' ≤ c && c ≤ '[') || (']' ≤ c && c ≤ '~') || 0x80 ≤ c.toNat

/-- What may stand behind a backslash in one. -/
def isQuotable (c : Char) : Bool := c = '\t' || (' ' ≤ c && c ≤ '~') || 0x80 ≤ c.toNat

inductive QuotedChar
  | text (c : Char) (h : isQdtext c = true)
  | pair (c : Char) (h : isQuotable c = true)

def QuotedChar.raw : QuotedChar → Text
  | text c _ => [c]
  | pair c _ => ['\x5c',c]

def QuotedChar.char : QuotedChar → Char
  | text c _ => c
  | pair c _ => c

def QuotedChar.isPair : QuotedChar → Bool
  | text _ _ => false
  | pair _ _ => true

inductive ParamValue
  | token (t : Token)
  | quoted (cs : List QuotedChar)

def ParamValue.raw : ParamValue → Text
  | token t => t.chars
  | quoted cs => '\x22' :: (cs.flatMap QuotedChar.raw ++ ['\x22'])

/-- What the value means. -/
def ParamValue.value : ParamValue → Text
  | token t => t.chars
  | quoted cs => cs.map QuotedChar.char

/-- The number of its quoted pairs. -/
def ParamValue.pairs : ParamValue → ℕ
  | token _ => 0
  | quoted cs => cs.countP QuotedChar.isPair

/-- A parameter and the separator before it. -/
structure Param where
  before : Ows
  after : Ows
  name : Token
  value : ParamValue

def Param.body (p : Param) : Text := p.name.chars ++ '=' :: p.value.raw

def Param.text (p : Param) : Text := p.before.chars ++ ';' :: (p.after.chars ++ p.body)

/-- The header of a stream with exactly one boundary. Names are the same in any letter case. -/
structure ContentType where
  name : Text
  space : Ows
  mediaType : Text
  front : List Param
  boundary : Param
  back : List Param
  trailing : Ows
  is_contentType : name.map toAsciiLowercase = "content-type".toList
  is_multipart : mediaType.map toAsciiLowercase = "multipart/x-mixed-replace".toList
  is_boundary : boundary.name.chars.map toAsciiLowercase = "boundary".toList
  only : ∀ p ∈ front ++ back, p.name.chars.map toAsciiLowercase ≠ "boundary".toList

namespace ContentType

def fieldValue (h : ContentType) : Text :=
  h.space.chars ++ h.mediaType ++ h.front.flatMap Param.text ++ h.boundary.text ++
    h.back.flatMap Param.text ++ h.trailing.chars

def line (h : ContentType) : Text := h.name ++ ':' :: h.fieldValue

/-- The boundary the server means. -/
def value (h : ContentType) : Text := h.boundary.value.value

/-- The boundary stands last, nothing before it looks like one, and it needs no quoted pair. -/
structure Plain (h : ContentType) : Prop where
  last : h.back = []
  hidden : ∀ p ∈ h.front, contains "boundary=".toList (p.body.map toAsciiLowercase) = false
  unescaped : h.boundary.value.pairs = 0

end ContentType

end Grammar

section Search

variable {h : ContentType}

def KEY : Text := "boundary=".toList

theorem key_ne_nil : KEY ≠ [] := by decide

theorem key_eq : KEY = "boundary".toList ++ ['='] := by decide

theorem ows_not_key {w : Ows} : ∀ c ∈ w.chars.map toAsciiLowercase, c ∉ KEY := by
  intro c hc
  obtain ⟨d,hd,rfl⟩ := List.mem_map.1 hc
  have hows := w.ows d hd
  simp only [isOws,Bool.or_eq_true,decide_eq_true_eq] at hows
  rcases hows with rfl|rfl <;> decide

/-- What stands ahead of the separator of the boundary. -/
def ContentType.ahead (h : ContentType) : Text :=
  h.space.chars ++ h.mediaType ++ h.front.flatMap Param.text ++ h.boundary.before.chars

/-- What stands behind the name of the boundary. -/
def ContentType.behind (h : ContentType) : Text :=
  h.boundary.value.raw ++ (h.back.flatMap Param.text ++ h.trailing.chars)

theorem fieldValue_eq (h : ContentType) : h.fieldValue =
    h.ahead ++ ';' :: (h.boundary.after.chars ++ (h.boundary.name.chars ++ '=' :: h.behind)) := by
  simp [ContentType.fieldValue,ContentType.ahead,ContentType.behind,Param.text,Param.body]

theorem key_behind (h : ContentType) :
    (h.boundary.name.chars ++ '=' :: h.behind).map toAsciiLowercase =
      KEY ++ h.behind.map toAsciiLowercase := by
  have heq : toAsciiLowercase '=' = '=' := by decide
  rw [List.map_append,h.is_boundary,List.map_cons,heq,key_eq,List.append_assoc,List.singleton_append]

theorem find_key (h : ContentType) : find KEY (h.fieldValue.map toAsciiLowercase) =
    (find KEY (h.ahead.map toAsciiLowercase)).or
      (some (h.boundary.after.chars.length+(h.ahead.length+1))) := by
  have hsep : toAsciiLowercase ';' = ';' := by decide
  rw [fieldValue_eq,List.map_append,List.map_cons,hsep,List.map_append,key_behind,
    find_append_sep (by decide) key_ne_nil,find_not_mem_append ows_not_key key_ne_nil,
    find_append_self key_ne_nil]
  simp

theorem toAsciiLowercase_space {c : Char} (h : isWhitespace c = true) : toAsciiLowercase c = c := by
  refine if_neg ?_
  rintro ⟨hA,hZ⟩
  have hA : 65 ≤ c.toNat := hA
  have hZ : c.toNat ≤ 90 := hZ
  simp only [isWhitespace,Bool.or_eq_true,Bool.and_eq_true,decide_eq_true_eq] at h
  omega

theorem mem_name {c : Char} (hc : c ∈ h.name) : toAsciiLowercase c ∈ "content-type".toList :=
  h.is_contentType ▸ List.mem_map_of_mem hc

theorem splitOnce_line (h : ContentType) : splitOnce ':' h.line = some (h.name,h.fieldValue) := by
  refine splitOnce_append (fun hc => ?_) _
  exact absurd (mem_name hc) (by decide)

theorem trim_name (h : ContentType) : trim h.name = h.name := by
  refine trim_of_all fun c hc => ?_
  have hmem := mem_name hc
  by_contra hspace
  rw [Bool.not_eq_false] at hspace
  rw [toAsciiLowercase_space hspace] at hmem
  have hsolid : "content-type".toList.all (fun d => !isWhitespace d) = true := by decide
  have hc := List.all_eq_true.1 hsolid c hmem
  rw [hspace] at hc
  exact absurd hc Bool.false_ne_true

theorem parseBoundary_line (h : ContentType) : parseBoundary h.line =
    (find KEY (h.fieldValue.map toAsciiLowercase)).map fun idx =>
      String.ofList (trimMatches '\x22' (trim (h.fieldValue.drop (idx+KEY.length)))) := by
  have hname : eqIgnoreAsciiCase h.name "content-type".toList = true := by
    rw [eqIgnoreAsciiCase,h.is_contentType]
    decide
  have hlength : "boundary=".length = KEY.length := by decide
  rw [parseBoundary,splitOnce_line]
  simp only [Option.bind_eq_bind,Option.bind_some,trim_name,hname,hlength]
  have hkey : "boundary=".toList = KEY := rfl
  rw [hkey]
  cases find KEY (h.fieldValue.map toAsciiLowercase) <;> rfl

/-- What the extraction trims: all behind the first place that looks like a boundary. -/
theorem parseBoundary_eq (h : ContentType) : ∃ early : Text,
    parseBoundary h.line = some (String.ofList (trimMatches '\x22' (trim (early ++ h.behind)))) ∧
    (find KEY (h.ahead.map toAsciiLowercase) = none → early = []) ∧
    (find KEY (h.ahead.map toAsciiLowercase) ≠ none → ';' ∈ early) := by
  rw [parseBoundary_line,find_key]
  cases hfind : find KEY (h.ahead.map toAsciiLowercase) with
  | none =>
    refine ⟨[],?_,fun _ => rfl,fun hne => absurd rfl hne⟩
    have hname : h.boundary.name.chars.length+1 = KEY.length := by
      have hlength := congrArg List.length h.is_boundary
      rw [List.length_map] at hlength
      rw [hlength]
      rfl
    have hcut : h.fieldValue = (h.ahead ++ ';' :: (h.boundary.after.chars ++
        (h.boundary.name.chars ++ ['=']))) ++ h.behind := by simp [fieldValue_eq]
    rw [Option.none_or,Option.map_some,hcut,List.drop_left' (by simp; omega)]
    rfl
  | some j =>
    have hle := find_le hfind
    rw [List.length_map] at hle
    refine ⟨h.ahead.drop (j+KEY.length) ++
      ';' :: (h.boundary.after.chars ++ (h.boundary.name.chars ++ ['='])),?_,by simp,by simp⟩
    rw [Option.some_or,Option.map_some,fieldValue_eq,List.drop_append_of_le_length hle]
    simp

theorem find_params {pre : Text} (hpre : find KEY (pre.map toAsciiLowercase) = none)
    (ps : List Param) : find KEY ((pre ++ ps.flatMap Param.text).map toAsciiLowercase) = none ↔
      ∀ p ∈ ps, contains KEY (p.body.map toAsciiLowercase) = false := by
  induction ps using List.reverseRecOn with
  | nil => simpa using hpre
  | append_singleton ps p ih =>
    have hsep : toAsciiLowercase ';' = ';' := by decide
    have htext : pre ++ (ps ++ [p]).flatMap Param.text =
        (pre ++ ps.flatMap Param.text ++ p.before.chars) ++ ';' :: (p.after.chars ++ p.body) := by
      simp [Param.text]
    have hbefore (s : Text) : find KEY ((s ++ p.before.chars).map toAsciiLowercase) =
        find KEY (s.map toAsciiLowercase) := by
      rw [List.map_append,find_append_of_not_mem ows_not_key key_ne_nil]
    have hbody : find KEY ((p.after.chars ++ p.body).map toAsciiLowercase) = none ↔
        contains KEY (p.body.map toAsciiLowercase) = false := by
      rw [List.map_append,find_not_mem_append ows_not_key key_ne_nil,Option.map_eq_none_iff,contains,
        Option.isSome_eq_false_iff,Option.isNone_iff_eq_none]
    rw [htext,List.map_append,List.map_cons,hsep,find_append_sep (by decide) key_ne_nil,hbefore,
      Option.or_eq_none_iff,Option.map_eq_none_iff,hbody,List.forall_mem_append,List.forall_mem_singleton]
    exact and_congr_left' ih

/-- Nothing before the boundary looks like one iff no parameter there does. -/
theorem find_before (h : ContentType) : find KEY (h.ahead.map toAsciiLowercase) = none ↔
    ∀ p ∈ h.front, contains "boundary=".toList (p.body.map toAsciiLowercase) = false := by
  have hnone : find KEY "multipart/x-mixed-replace".toList = none := by decide
  have hmedia : find KEY ((h.space.chars ++ h.mediaType).map toAsciiLowercase) = none := by
    rw [List.map_append,h.is_multipart,find_not_mem_append ows_not_key key_ne_nil,hnone]
    rfl
  rw [ContentType.ahead,List.map_append,find_append_of_not_mem ows_not_key key_ne_nil]
  exact find_params hmedia h.front

end Search

section Counts

variable {h : ContentType}

theorem count_raw_sep (v : ParamValue) : v.raw.count ';' = v.value.count ';' := by
  cases v with
  | token t => rfl
  | quoted cs =>
    have hcs : (cs.flatMap QuotedChar.raw).count ';' = (cs.map QuotedChar.char).count ';' := by
      induction cs with
      | nil => rfl
      | cons c cs ih =>
        rw [List.flatMap_cons,List.count_append,ih,List.map_cons,List.count_cons]
        cases c <;> simp [QuotedChar.raw,QuotedChar.char,List.count_cons,Nat.add_comm]
    rw [ParamValue.raw,ParamValue.value,← hcs,List.count_cons,List.count_append]
    simp

/-- Each quoted pair costs a backslash more than it means. -/
theorem count_raw_backslash (v : ParamValue) :
    v.raw.count '\x5c' = v.value.count '\x5c'+v.pairs := by
  cases v with
  | token t => rfl
  | quoted cs =>
    have hcs : (cs.flatMap QuotedChar.raw).count '\x5c' =
        (cs.map QuotedChar.char).count '\x5c'+cs.countP QuotedChar.isPair := by
      induction cs with
      | nil => rfl
      | cons c cs ih =>
        rw [List.flatMap_cons,List.count_append,ih,List.map_cons,List.count_cons,List.countP_cons]
        cases c <;> simp [QuotedChar.raw,QuotedChar.char,QuotedChar.isPair,List.count_cons] <;> omega
    rw [ParamValue.raw,ParamValue.value,ParamValue.pairs,← hcs,List.count_cons,List.count_append]
    simp

/-- A parameter brings a separator of its own. -/
theorem count_text (p : Param) : 0 < p.text.count ';' := List.count_pos_iff.2 (by simp [Param.text])

end Counts

section Plain

variable {h : ContentType}

theorem ows_space {c : Char} (h : isOws c = true) : isWhitespace c = true := by
  simp only [isOws,Bool.or_eq_true,decide_eq_true_eq] at h
  rcases h with rfl|rfl <;> decide

theorem tchar_solid {c : Char} (h : isTchar c = true) : isWhitespace c = false := by
  have hmarks : "!#$%&'*+-.^_`|~".toList.all (fun d => !isWhitespace d) = true := by decide
  rw [isTchar,Bool.or_eq_true,List.contains_iff_mem] at h
  rcases h with halnum|hmark
  · simp only [Bool.or_eq_true,Bool.and_eq_true,decide_eq_true_eq] at halnum
    simp only [isWhitespace,Bool.or_eq_false_iff,Bool.and_eq_false_iff,decide_eq_false_iff_not]
    omega
  · simpa using List.all_eq_true.1 hmarks c hmark

/-- A value without quoted pairs comes out of the trimming as it is meant. -/
theorem trim_raw (v : ParamValue) (w : Ows) (hpairs : v.pairs = 0) :
    trimMatches '\x22' (trim (v.raw ++ w.chars)) = v.value := by
  have hw : ∀ c ∈ w.chars, isWhitespace c = true := fun c hc => ows_space (w.ows c hc)
  cases v with
  | token t =>
    have hsolid : ∀ c ∈ t.chars, isWhitespace c = false := fun c hc => tchar_solid (t.tchars c hc)
    have hquote : '\x22' ∉ t.chars := fun hc => absurd (t.tchars _ hc) (by decide)
    rw [ParamValue.raw,trim_append_space t.ne_nil (fun c hc => hsolid c (List.mem_of_head? hc))
      (fun c hc => hsolid c (List.mem_of_getLast? hc)) hw,trimMatches_of_not_mem hquote]
    rfl
  | quoted cs =>
    rw [ParamValue.pairs,List.countP_eq_zero] at hpairs
    have hraw : cs.flatMap QuotedChar.raw = cs.map QuotedChar.char := by
      rw [List.map_eq_flatMap]
      refine List.flatMap_congr fun c hc => ?_
      cases c with
      | text c h => rfl
      | pair c h => exact absurd rfl (hpairs _ hc)
    have hquote : '\x22' ∉ cs.map QuotedChar.char := by
      intro hmem
      obtain ⟨c,hc,hchar⟩ := List.mem_map.1 hmem
      cases c with
      | text d h =>
        rw [QuotedChar.char] at hchar
        rw [hchar] at h
        exact absurd h (by decide)
      | pair d h => exact absurd rfl (hpairs _ hc)
    have hhead : ∀ c ∈ ('\x22' :: (cs.map QuotedChar.char ++ ['\x22'])).head?, isWhitespace c = false := by
      intro c hc
      rw [← Option.some.inj hc]
      decide
    have hlast : ∀ c ∈ ('\x22' :: (cs.map QuotedChar.char ++ ['\x22'])).getLast?, isWhitespace c = false := by
      intro c hc
      rw [← List.cons_append,List.getLast?_concat] at hc
      rw [← Option.some.inj hc]
      decide
    rw [ParamValue.raw,hraw,trim_append_space (by simp) hhead hlast hw,trimMatches_quoted hquote]
    rfl

theorem parseBoundary_value_iff (h : ContentType) :
    parseBoundary h.line = some (String.ofList h.value) ↔ h.Plain := by
  obtain ⟨early,hparse,hnone,hfound⟩ := parseBoundary_eq h
  rw [hparse,Option.some.injEq,String.ofList_inj]
  constructor
  · intro heq
    have hcount {c : Char} (hspace : isWhitespace c = false) (hquote : c ≠ '\x22') :
        early.count c+h.boundary.value.raw.count c+(h.back.flatMap Param.text).count c ≤ h.value.count c := by
      rw [← heq,count_trimMatches hquote,count_trim hspace,ContentType.behind]
      simp only [List.count_append]
      omega
    have hsep := hcount (c := ';') (by decide) (by decide)
    have hbackslash := hcount (c := '\x5c') (by decide) (by decide)
    rw [count_raw_sep,ContentType.value] at hsep
    rw [count_raw_backslash,ContentType.value] at hbackslash
    refine ⟨?_,?_,by omega⟩
    · cases hback : h.back with
      | nil => rfl
      | cons p back =>
        have hp := count_text p
        rw [hback,List.flatMap_cons,List.count_append] at hsep
        omega
    · rw [← find_before]
      by_contra hne
      have hearly := List.count_pos_iff.2 (hfound hne)
      omega
  · intro hplain
    rw [hnone (find_before h |>.2 hplain.hidden),List.nil_append,ContentType.behind,hplain.last,List.flatMap_nil,
      List.nil_append]
    exact trim_raw _ _ hplain.unescaped

end Plain
section Responses

variable {ρ : Type} [BufRead ρ] {D : ρ → List UInt8 → Prop}

/-- The last header line that has a boundary is the one that counts. -/
def lastBoundary (boundary : Option String) (headers : List HeaderLine) : Option String :=
  headers.foldl (fun b l => (parseBoundary (fromUtf8Lossy l.bytes)).or b) boundary

theorem lastBoundary_of_none {headers : List HeaderLine} (boundary : Option String)
    (h : ∀ l ∈ headers, parseBoundary (fromUtf8Lossy l.bytes) = none) :
    lastBoundary boundary headers = boundary := by
  induction headers generalizing boundary with
  | nil => rfl
  | cons l headers ih =>
    rw [lastBoundary,List.foldl_cons,h l (by simp),Option.none_or]
    exact ih boundary fun l hl => h l (by simp [hl])

theorem readHeadLines_block (hD : Readers.Delivers D) (headers : List HeaderLine) (S : List UInt8)
    (boundary : Option String) (chunked : Bool) (r : ρ) (h : D r (headerBlock headers ++ S)) :
    ∃ r' chunked', D r' S ∧ ∀ᶠ fuel in atTop,
      readHeadLines fuel r boundary chunked = some (.ok (lastBoundary boundary headers,chunked'),r') := by
  induction headers generalizing boundary chunked r with
  | nil =>
    obtain ⟨r',hr',hline⟩ := readHeaderLine_line hD [] S r h (by simp) (by simp) (by decide)
    refine ⟨r',chunked,hr',eventually_of_succ ?_⟩
    filter_upwards [hline] with fuel hf
    simp [readHeadLines,hf,lastBoundary]
  | cons l headers ih =>
    rw [headerBlock_cons] at h
    obtain ⟨r1,hr1,hline⟩ := readHeaderLine_of hD l _ r h
    obtain ⟨r2,chunked',hr2,hrest⟩ := ih ((parseBoundary (fromUtf8Lossy l.bytes)).or boundary)
      (chunked || announcesChunked (fromUtf8Lossy l.bytes)) r1 hr1
    refine ⟨r2,chunked',hr2,eventually_of_succ ?_⟩
    filter_upwards [hline,hrest] with fuel hf hg
    simp only [readHeadLines,hf,if_neg (fromUtf8Lossy_ne_nil l.ne_nil),hg]
    rfl

/-- The head of a response that has the header, and no other boundary behind it. -/
structure Response (h : ContentType) where
  status : HeaderLine
  before : List HeaderLine
  contentType : HeaderLine
  after : List HeaderLine
  ok : "200".toList ∈ splitWhitespace (fromUtf8Lossy status.bytes)
  is_line : fromUtf8Lossy contentType.bytes = h.line
  others : ∀ l ∈ after, parseBoundary (fromUtf8Lossy l.bytes) = none

def Response.bytes {h : ContentType} (resp : Response h) : List UInt8 :=
  resp.status.bytes ++ CRLF ++ headerBlock (resp.before ++ resp.contentType :: resp.after)

/-- Every such response gives the boundary, whatever reader delivers it and whatever follows. -/
def ContentType.Yields (h : ContentType) (b : String) : Prop :=
  ∀ (ρ : Type) [BufRead ρ] (D : ρ → List UInt8 → Prop), Readers.Delivers D →
    ∀ (resp : Response h) (S : List UInt8) (r : ρ), D r (resp.bytes ++ S) →
      ∃ chunked r', D r' S ∧ ∀ᶠ fuel in atTop,
        readResponseHead fuel r = some (.ok ⟨b,chunked⟩,r')

theorem yields_of_parse {h : ContentType} {b : String} (hb : parseBoundary h.line = some b) :
    h.Yields b := by
  intro ρ _ D hD resp S r hr
  rw [Response.bytes,List.append_assoc] at hr
  obtain ⟨r1,hr1,hstatus⟩ := readHeaderLine_of hD resp.status _ r hr
  obtain ⟨r2,chunked,hr2,hlines⟩ := readHeadLines_block hD _ S none false r1 hr1
  have hlast : lastBoundary none (resp.before ++ resp.contentType :: resp.after) = some b := by
    rw [lastBoundary,List.foldl_append,List.foldl_cons,resp.is_line,hb,Option.some_or]
    exact lastBoundary_of_none (some b) resp.others
  have hok : (splitWhitespace (fromUtf8Lossy resp.status.bytes)).contains "200".toList = true :=
    List.contains_iff_mem.2 resp.ok
  refine ⟨chunked,r2,hr2,?_⟩
  filter_upwards [hstatus,hlines] with fuel hf hg
  simp only [readResponseHead,hf,hok,hg,hlast]
  rfl

/-- The boundary of a stream is found iff the extraction by search and trimming suits its header. -/
theorem boundary_iff (h : ContentType) :
    (parseBoundary h.line = some (String.ofList h.value) ↔ h.Plain) ∧
      ∃ b, parseBoundary h.line = some b ∧ h.Yields b := by
  obtain ⟨early,hparse,-⟩ := parseBoundary_eq h
  exact ⟨parseBoundary_value_iff h,_,hparse,yields_of_parse hparse⟩

/-- `Content-Type: multipart/x-mixed-replace; boundary=frame; charset=utf-8` -/
def charsetLast : ContentType where
  name := "Content-Type".toList
  space := ⟨[' '],List.all_eq_true.1 (by decide)⟩
  mediaType := "multipart/x-mixed-replace".toList
  front := []
  boundary := {
    before := ⟨[],by simp⟩
    after := ⟨[' '],List.all_eq_true.1 (by decide)⟩
    name := ⟨"boundary".toList,by decide,List.all_eq_true.1 (by decide)⟩
    value := .token ⟨"frame".toList,by decide,List.all_eq_true.1 (by decide)⟩ }
  back := [{
    before := ⟨[],by simp⟩
    after := ⟨[' '],List.all_eq_true.1 (by decide)⟩
    name := ⟨"charset".toList,by decide,List.all_eq_true.1 (by decide)⟩
    value := .token ⟨"utf-8".toList,by decide,List.all_eq_true.1 (by decide)⟩ }]
  trailing := ⟨[],by simp⟩
  is_contentType := by decide
  is_multipart := by decide
  is_boundary := by decide
  only := by simp

theorem charsetLast_missed :
    ¬∀ h : ContentType, parseBoundary h.line = some (String.ofList h.value) := by
  intro h
  exact absurd (h charsetLast) (by decide +kernel)

end Responses
end MjpegStream
end Robocol
