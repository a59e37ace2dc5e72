import Robocol.MjpegStream

/-! The URL of a camera. The parser takes exactly the texts of a grammar, and what it reads can be
written as a URL that is read back. -/
namespace Robocol

namespace StdText

/-- `s.strip_prefix(pattern)`. -/
def stripPrefix (pattern s : Text) : Option Text :=
  if pattern.isPrefixOf s then some (s.drop pattern.length) else none

/-- `s.rsplit_once(c)`. -/
def rsplitOnce (c : Char) (s : Text) : Option (Text × Text) :=
  (splitOnce c s.reverse).map fun (a,b) => (b.reverse,a.reverse)

/-- `s.parse::<u16>()`, without the reason it fails. -/
def parseU16 (s : Text) : Option UInt16 :=
  (fromStrRadix 10 s).bind fun n => if n < 2^16 then some (UInt16.ofNat n) else none

/-- A decimal numeral. -/
structure Numeral (s : Text) (n : ℕ) : Prop where
  some_digit : s ≠ []
  digits : ∀ c ∈ s, c.isDigit
  value : Nat.ofDigitChars 10 s 0 = n

variable {c : Char} {s t a b : Text} {k m n : ℕ} {port : UInt16}

section Splits

theorem splitOnce_eq_some : splitOnce c s = some (a,b) ↔ s = a ++ c :: b ∧ c ∉ a := by
  refine ⟨fun h => ?_,fun h => h.1 ▸ splitOnce_append h.2 b⟩
  induction s generalizing a with
  | nil => cases h
  | cons d s ih =>
    rw [splitOnce] at h
    split at h
    · rename_i hd
      obtain ⟨rfl,rfl⟩ := Prod.mk.inj (Option.some.inj h)
      exact ⟨hd ▸ rfl,List.not_mem_nil⟩
    · rename_i hd
      obtain ⟨⟨a',b'⟩,hsplit,hab⟩ := Option.map_eq_some_iff.mp h
      obtain ⟨rfl,rfl⟩ := Prod.mk.inj hab
      obtain ⟨rfl,ha⟩ := ih hsplit
      exact ⟨rfl,fun hmem => (List.mem_cons.mp hmem).elim (Ne.symm hd) ha⟩

theorem splitOnce_eq_none : splitOnce c s = none ↔ c ∉ s := by
  constructor
  · intro h hmem
    obtain ⟨a,b,rfl,ha⟩ := List.eq_append_cons_of_mem hmem
    rw [splitOnce_append ha] at h
    cases h
  · intro h
    cases hsplit : splitOnce c s with
    | none => rfl
    | some p => exact absurd ((splitOnce_eq_some.mp hsplit).1 ▸ by simp) h

theorem rsplitOnce_eq_some : rsplitOnce c s = some (a,b) ↔ s = a ++ c :: b ∧ c ∉ b := by
  rw [rsplitOnce,Option.map_eq_some_iff]
  constructor
  · rintro ⟨⟨x,y⟩,hsplit,hxy⟩
    obtain ⟨rfl,rfl⟩ := Prod.mk.inj hxy
    obtain ⟨hs,hx⟩ := splitOnce_eq_some.mp hsplit
    refine ⟨?_,fun hmem => hx (List.mem_reverse.mp hmem)⟩
    rw [← List.reverse_reverse s,hs]
    simp
  · rintro ⟨rfl,hb⟩
    refine ⟨(b.reverse,a.reverse),splitOnce_eq_some.mpr ⟨by simp,?_⟩,by simp⟩
    exact fun hmem => hb (List.mem_reverse.mp hmem)

theorem rsplitOnce_eq_none : rsplitOnce c s = none ↔ c ∉ s := by
  rw [rsplitOnce,Option.map_eq_none_iff,splitOnce_eq_none,List.mem_reverse]

theorem find_char (c : Char) (s : Text) : find [c] s = (splitOnce c s).map fun p => p.1.length := by
  induction s with
  | nil => rfl
  | cons d s ih =>
    rw [find,splitOnce,ih]
    by_cases hd : d = c
    · rw [if_pos hd,if_pos (by simp [hd])]
      rfl
    · rw [if_neg hd,if_neg (by simp [Ne.symm hd]),Option.map_map,Option.map_map]
      rfl

end Splits
section Numerals

theorem toDigit_ten : toDigit 10 c = some n ↔ c.isDigit = true ∧ c.toNat-48 = n := by
  rw [isDigit_iff]
  simp only [toDigit]
  by_cases h : 48 ≤ c.toNat ∧ c.toNat ≤ 57
  · rw [if_pos h,if_pos (by omega),Option.some.injEq,and_iff_right h]
  · have hlarge : ¬(if 48 ≤ c.toNat ∧ c.toNat ≤ 57 then c.toNat-48
        else if 97 ≤ c.toNat ∧ c.toNat ≤ 122 then c.toNat-97+10
        else if 65 ≤ c.toNat ∧ c.toNat ≤ 90 then c.toNat-65+10
        else 10) < 10 := by
      rw [if_neg h]
      split_ifs <;> omega
    rw [if_neg hlarge]
    exact iff_of_false (Option.some_ne_none n).symm fun hn => h hn.1

theorem le_ofDigitChars (s : Text) (k : ℕ) : k ≤ Nat.ofDigitChars 10 s k := by
  rw [Nat.ofDigitChars_eq_ofDigitChars_zero]
  have hle := Nat.le_mul_of_pos_left k (Nat.pow_pos (n := s.length) (show 0 < 10 by decide))
  omega

theorem foldlM_pushDigit_iff (hk : k < USIZE_LIMIT) : s.foldlM (pushDigit 10) k = some n ↔
    (∀ c ∈ s, c.isDigit = true) ∧ Nat.ofDigitChars 10 s k = n ∧ n < USIZE_LIMIT := by
  induction s generalizing k with
  | nil =>
    rw [Nat.ofDigitChars_nil]
    constructor
    · intro h
      obtain rfl := Option.some.inj h
      exact ⟨fun _ hc => absurd hc List.not_mem_nil,rfl,hk⟩
    · rintro ⟨-,rfl,-⟩
      rfl
  | cons c s ih =>
    rw [List.foldlM_cons,Nat.ofDigitChars_cons,List.forall_mem_cons]
    by_cases hdigit : c.isDigit = true
    · have hpush : pushDigit 10 k c =
          if 10*k+(c.toNat-48) < USIZE_LIMIT then some (10*k+(c.toNat-48)) else none := by
        rw [pushDigit,toDigit_ten.mpr ⟨hdigit,rfl⟩,Nat.mul_comm 10 k]
        rfl
      rw [hpush,and_iff_right hdigit]
      by_cases hlt : 10*k+(c.toNat-48) < USIZE_LIMIT
      · rw [if_pos hlt]
        exact ih hlt
      · rw [if_neg hlt]
        refine iff_of_false (Option.some_ne_none n).symm ?_
        rintro ⟨-,rfl,hlimit⟩
        exact hlt (Nat.lt_of_le_of_lt (le_ofDigitChars s _) hlimit)
    · have hpush : pushDigit 10 k c = none := by
        cases hd : toDigit 10 c with
        | none => simp [pushDigit,hd]
        | some d => exact absurd (toDigit_ten.mp hd).1 hdigit
      rw [hpush]
      exact iff_of_false (Option.some_ne_none n).symm fun h => hdigit h.1.1

theorem numeral_iff : (if s = [] then none else s.foldlM (pushDigit 10) 0) = some n ↔
    n < USIZE_LIMIT ∧ Numeral s n := by
  by_cases hs : s = []
  · rw [if_pos hs]
    exact iff_of_false (Option.some_ne_none n).symm fun h => h.2.some_digit hs
  · rw [if_neg hs,foldlM_pushDigit_iff (by decide)]
    constructor
    · rintro ⟨hdigits,hn,hlt⟩
      exact ⟨hlt,hs,hdigits,hn⟩
    · rintro ⟨hlt,h⟩
      exact ⟨h.digits,h.value,hlt⟩

/-- A plus sign may stand before the numeral, and leading zeros do not count. -/
theorem fromStrRadix_iff : fromStrRadix 10 s = some n ↔
    n < USIZE_LIMIT ∧ ∃ digits, Numeral digits n ∧ (s = digits ∨ s = '+' :: digits) := by
  have hsign {digits : Text} (h : Numeral ('+' :: digits) n) : False :=
    absurd (h.digits '+' List.mem_cons_self) (by decide)
  rw [fromStrRadix]
  by_cases hplus : s.head? = some '+'
  · obtain ⟨s,rfl⟩ := List.head?_eq_some_iff.mp hplus
    rw [if_pos hplus,List.tail_cons,numeral_iff]
    refine and_congr_right fun _ => ⟨fun h => ⟨s,h,.inr rfl⟩,?_⟩
    rintro ⟨digits,h,rfl|hs⟩
    · exact (hsign h).elim
    · exact (List.cons.inj hs).2 ▸ h
  · rw [if_neg hplus,numeral_iff]
    refine and_congr_right fun _ => ⟨fun h => ⟨s,h,.inl rfl⟩,?_⟩
    rintro ⟨digits,h,rfl|rfl⟩
    · exact h
    · exact absurd rfl hplus

theorem parseU16_iff : parseU16 s = some port ↔
    ∃ digits, Numeral digits port.toNat ∧ (s = digits ∨ s = '+' :: digits) := by
  rw [parseU16,Option.bind_eq_some_iff]
  constructor
  · rintro ⟨n,hn,hport⟩
    by_cases hlt : n < 2^16
    · rw [if_pos hlt] at hport
      obtain rfl := Option.some.inj hport
      rw [UInt16.toNat_ofNat',Nat.mod_eq_of_lt hlt]
      exact (fromStrRadix_iff.mp hn).2
    · rw [if_neg hlt] at hport
      cases hport
  · intro h
    have hlt := port.toNat_lt
    refine ⟨port.toNat,fromStrRadix_iff.mpr ⟨hlt.trans (by decide),h⟩,?_⟩
    rw [if_pos hlt,UInt16.ofNat_toNat]

theorem Numeral.not_mem {c : Char} {digits : Text} {n : ℕ} (h : Numeral digits n) (hc : c.isDigit = false) :
    c ∉ digits := fun hmem => absurd (h.digits c hmem) (by simp [hc])

theorem signed_not_mem {c : Char} {digits : Text} {n : ℕ} (hs : s = digits ∨ s = '+' :: digits)
    (h : Numeral digits n) (hc : c.isDigit = false) (hplus : c ≠ '+') : c ∉ s := by
  obtain rfl|rfl := hs
  · exact h.not_mem hc
  · exact fun hmem => (List.mem_cons.mp hmem).elim hplus (h.not_mem hc)

theorem numeral_toDigits (n : ℕ) : Numeral (Nat.toDigits 10 n) n where
  some_digit := Nat.toDigits_ne_nil
  digits _ hc := Nat.isDigit_of_mem_toDigits (by decide) (by decide) hc
  value := Nat.ofDigitChars_ten_toDigits

end Numerals

end StdText

namespace MjpegStream

open StdText

/-- Where the path begins, the authority ends. -/
def authorityPath (rest : Text) : Text × Text :=
  match find ['/'] rest with
  | some i => (rest.take i,rest.drop i)
  | none => (rest,['/'])

def hostPort (authority : Text) : Option (Text × UInt16) :=
  match rsplitOnce ':' authority with
  | some (h,p) => (parseU16 p).map fun port => (h,port)
  | none => some (authority,80)

def schemeless (url : Text) : Text := (stripPrefix "http://".toList url).getD url

def StreamConfig.parse (source url : String) : Option StreamConfig :=
  let rest := schemeless url.toList
  let (authority,path) := authorityPath rest
  (hostPort authority).bind fun (host,port) =>
    if host = [] then none
    else some { source := source, host := String.ofList host, port := port, path := String.ofList path }

/-- The path as it is written, and as it is asked for. -/
inductive PathText : Text → Text → Prop
  | absent : PathText [] ['/']
  | given (s : Text) : PathText ('/' :: s) ('/' :: s)

inductive PortText : Text → UInt16 → Prop
  | absent : PortText [] 80
  | given {s digits : Text} {port : UInt16} (hs : s = digits ∨ s = '+' :: digits)
      (h : Numeral digits port.toNat) : PortText (':' :: s) port

/-- `[http://]host[:port][/path]`; a host that holds colons has its port written. -/
inductive Spells (cfg : StreamConfig) : Text → Prop
  | intro {scheme port path : Text} (hscheme : scheme = [] ∨ scheme = "http://".toList)
      (hhost : cfg.host ≠ "") (hslash : '/' ∉ cfg.host.toList)
      (hcolon : port = [] → ':' ∉ cfg.host.toList) (hport : PortText port cfg.port)
      (hpath : PathText path cfg.path.toList) : Spells cfg (scheme ++ (cfg.host.toList ++ port ++ path))

/-- What can be written as a URL. -/
structure Writable (cfg : StreamConfig) : Prop where
  host_ne : cfg.host ≠ ""
  no_slash : '/' ∉ cfg.host.toList
  absolute : cfg.path.toList.head? = some '/'

def StreamConfig.url (cfg : StreamConfig) : String :=
  "http://" ++ (cfg.host ++ ":" ++ cfg.port.toNat.repr ++ cfg.path)

variable {cfg : StreamConfig} {source url : String} {rest authority path host s p : Text} {port : UInt16}

section Parts

theorem authorityPath_iff : authorityPath rest = (authority,path) ↔
    ∃ p, rest = authority ++ p ∧ '/' ∉ authority ∧ PathText p path := by
  rw [authorityPath,find_char]
  cases hsplit : splitOnce '/' rest with
  | none =>
    have hnone := splitOnce_eq_none.mp hsplit
    constructor
    · rintro h
      obtain ⟨rfl,rfl⟩ := Prod.mk.inj h
      exact ⟨[],(List.append_nil _).symm,hnone,.absent⟩
    · rintro ⟨p,rfl,-,hpath⟩
      cases hpath with
      | absent => rw [List.append_nil]; rfl
      | given s => exact absurd (by simp) hnone
  | some cut =>
    obtain ⟨a,b⟩ := cut
    obtain ⟨rfl,ha⟩ := splitOnce_eq_some.mp hsplit
    simp only [Option.map_some,List.take_left,List.drop_left]
    constructor
    · rintro h
      obtain ⟨rfl,rfl⟩ := Prod.mk.inj h
      exact ⟨'/' :: b,rfl,ha,.given b⟩
    · rintro ⟨p,hrest,hauthority,hpath⟩
      cases hpath with
      | absent =>
        rw [List.append_nil] at hrest
        exact absurd (hrest ▸ by simp) hauthority
      | given s =>
        have hsame := splitOnce_append hauthority s
        rw [← hrest,hsplit] at hsame
        obtain ⟨rfl,rfl⟩ := Prod.mk.inj (Option.some.inj hsame)
        rfl

theorem hostPort_iff : hostPort authority = some (host,port) ↔
    ∃ p, authority = host ++ p ∧ (p = [] → ':' ∉ host) ∧ PortText p port := by
  rw [hostPort]
  cases hsplit : rsplitOnce ':' authority with
  | none =>
    have hnone := rsplitOnce_eq_none.mp hsplit
    constructor
    · intro h
      obtain ⟨rfl,rfl⟩ := Prod.mk.inj (Option.some.inj h)
      exact ⟨[],(List.append_nil _).symm,fun _ => hnone,.absent⟩
    · rintro ⟨p,rfl,-,hport⟩
      cases hport with
      | absent => rw [List.append_nil]
      | given hs h => exact absurd (by simp) hnone
  | some cut =>
    obtain ⟨a,b⟩ := cut
    obtain ⟨rfl,hb⟩ := rsplitOnce_eq_some.mp hsplit
    constructor
    · intro h
      obtain ⟨port,hparse,hsame⟩ := Option.map_eq_some_iff.mp h
      obtain ⟨rfl,rfl⟩ := Prod.mk.inj hsame
      obtain ⟨digits,hdigits,hs⟩ := parseU16_iff.mp hparse
      exact ⟨':' :: b,rfl,fun h => absurd h (List.cons_ne_nil _ _),.given hs hdigits⟩
    · rintro ⟨p,hauthority,hcolon,hport⟩
      cases hport with
      | absent =>
        rw [List.append_nil] at hauthority
        exact absurd (hauthority ▸ by simp) (hcolon rfl)
      | given hs h =>
        have hsame := rsplitOnce_eq_some.mpr ⟨hauthority,signed_not_mem hs h (by decide) (by decide)⟩
        rw [hsplit] at hsame
        obtain ⟨rfl,rfl⟩ := Prod.mk.inj (Option.some.inj hsame)
        exact Option.map_eq_some_iff.mpr ⟨port,parseU16_iff.mpr ⟨_,h,hs⟩,rfl⟩

end Parts
section Urls

theorem parse_parts : StreamConfig.parse source url = some cfg ↔ ∃ authority,
    authorityPath (schemeless url.toList) = (authority,cfg.path.toList) ∧
      hostPort authority = some (cfg.host.toList,cfg.port) ∧ cfg.host ≠ "" ∧ cfg.source = source := by
  rw [StreamConfig.parse,Option.bind_eq_some_iff]
  constructor
  · rintro ⟨⟨host,port⟩,hhost,hcfg⟩
    by_cases hempty : host = []
    · simp only [if_pos hempty,reduceCtorEq] at hcfg
    · simp only [if_neg hempty] at hcfg
      obtain rfl := Option.some.inj hcfg
      refine ⟨_,Prod.ext rfl (String.toList_ofList).symm,?_,fun h => hempty ?_,rfl⟩
      · rw [String.toList_ofList]
        exact hhost
      · exact String.toList_ofList.symm.trans (congrArg String.toList h)
  · rintro ⟨authority,hpath,hhost,hne,rfl⟩
    refine ⟨(cfg.host.toList,cfg.port),by rw [hpath]; exact hhost,?_⟩
    have hempty : cfg.host.toList ≠ [] := fun h => hne (String.toList_eq_nil_iff.mp h)
    simp only [if_neg hempty,hpath,String.ofList_toList]

theorem PortText.no_slash (h : PortText s port) : '/' ∉ s := by
  cases h with
  | absent => exact List.not_mem_nil
  | given hs h =>
    exact fun hmem => (List.mem_cons.mp hmem).elim (by decide) (signed_not_mem hs h (by decide) (by decide))

/-- What is written without the scheme does not begin like one: its port would be empty. -/
theorem schemeless_of_absent {path' : Text} (hslash : '/' ∉ host) (hcolon : p = [] → ':' ∉ host)
    (hport : PortText p port) (hpath : PathText path path') :
    schemeless (host ++ p ++ path) = host ++ p ++ path := by
  have hno : '/' ∉ host ++ p := fun hmem => (List.mem_append.mp hmem).elim hslash hport.no_slash
  rw [schemeless,stripPrefix,if_neg,Option.getD_none]
  intro hpre
  obtain ⟨t,ht⟩ := List.isPrefixOf_iff_prefix.mp hpre
  have hcut : authorityPath (host ++ p ++ path) = (host ++ p,path') := authorityPath_iff.mpr ⟨path,rfl,hno,hpath⟩
  have hcut' : authorityPath ("http://".toList ++ t) = ("http:".toList,'/' :: '/' :: t) :=
    authorityPath_iff.mpr ⟨'/' :: '/' :: t,rfl,by decide,.given _⟩
  rw [ht,hcut] at hcut'
  have hsome := hostPort_iff.mpr ⟨p,(Prod.mk.inj hcut').1.symm,hcolon,hport⟩
  have hnone : hostPort "http:".toList = none := by decide
  rw [hnone] at hsome
  cases hsome

theorem schemeless_http (s : Text) : schemeless ("http://".toList ++ s) = s := by
  rw [schemeless,stripPrefix,if_pos (List.isPrefixOf_iff_prefix.mpr (List.prefix_append _ _)),List.drop_left]
  rfl

theorem schemeless_spec (s : Text) :
    ∃ scheme, (scheme = [] ∨ scheme = "http://".toList) ∧ s = scheme ++ schemeless s := by
  by_cases hpre : "http://".toList <+: s
  · obtain ⟨t,rfl⟩ := hpre
    exact ⟨_,.inr rfl,by rw [schemeless_http]⟩
  · refine ⟨[],.inl rfl,?_⟩
    rw [schemeless,stripPrefix,if_neg (fun h => hpre (List.isPrefixOf_iff_prefix.mp h))]
    rfl

theorem parse_of_spells (h : Spells cfg url.toList) : StreamConfig.parse cfg.source url = some cfg := by
  generalize hurl : url.toList = u at h
  cases h with
  | @intro scheme p path hscheme hhost hslash hcolon hport hpath =>
    have hno : '/' ∉ cfg.host.toList ++ p := fun hmem => (List.mem_append.mp hmem).elim hslash hport.no_slash
    have hrest : schemeless url.toList = cfg.host.toList ++ p ++ path := by
      rw [hurl]
      obtain rfl|rfl := hscheme
      · exact schemeless_of_absent hslash hcolon hport hpath
      · exact schemeless_http _
    refine parse_parts.mpr ⟨cfg.host.toList ++ p,?_,hostPort_iff.mpr ⟨p,rfl,hcolon,hport⟩,hhost,rfl⟩
    exact authorityPath_iff.mpr ⟨path,hrest,hno,hpath⟩

theorem spells_of_parse (h : StreamConfig.parse source url = some cfg) : Spells cfg url.toList := by
  obtain ⟨authority,hcut,hhostPort,hhost,-⟩ := parse_parts.mp h
  obtain ⟨path,hrest,hno,hpath⟩ := authorityPath_iff.mp hcut
  obtain ⟨p,rfl,hcolon,hport⟩ := hostPort_iff.mp hhostPort
  obtain ⟨scheme,hscheme,hurl⟩ := schemeless_spec url.toList
  rw [hurl,hrest]
  exact .intro hscheme hhost (fun hmem => hno (List.mem_append_left p hmem)) hcolon hport hpath

theorem PathText.absolute {path' : Text} (h : PathText path path') : path'.head? = some '/' := by
  cases h <;> rfl

theorem Spells.writable (h : Spells cfg s) : Writable cfg := by
  cases h with
  | intro _ hhost hslash _ _ hpath => exact ⟨hhost,hslash,hpath.absolute⟩

theorem Writable.spells (h : Writable cfg) : Spells cfg cfg.url.toList := by
  obtain ⟨s,hs⟩ := List.head?_eq_some_iff.mp h.absolute
  have hurl : cfg.url.toList = "http://".toList ++ (cfg.host.toList ++
      ':' :: Nat.toDigits 10 cfg.port.toNat ++ cfg.path.toList) := by
    simp [StreamConfig.url,Nat.toList_repr]
  rw [hurl]
  refine .intro (.inr rfl) h.host_ne h.no_slash (fun hnil => absurd hnil (List.cons_ne_nil _ _))
    (.given (.inl rfl) (numeral_toDigits _)) ?_
  rw [hs]
  exact .given s

/-- An encrypted stream is never taken for one on port 80. -/
theorem parse_https (source : String) (hurl : "https://".toList <+: url.toList) :
    StreamConfig.parse source url = none := by
  obtain ⟨t,ht⟩ := hurl
  have hrest : schemeless url.toList = url.toList := by
    rw [schemeless,stripPrefix,if_neg (by rw [← ht]; simp)]
    rfl
  have hcut : authorityPath url.toList = ("https:".toList,'/' :: '/' :: t) :=
    authorityPath_iff.mpr ⟨'/' :: '/' :: t,ht.symm,by decide,.given _⟩
  have hnone : hostPort "https:".toList = none := by decide
  simp only [StreamConfig.parse,hrest,hcut,hnone,Option.bind_none]

/-- The parser takes the spellings of a configuration and nothing else; what it takes it takes again as
the URL of what it read; and it can give every configuration that can be written. -/
theorem urls_parse :
    (∀ source url cfg, StreamConfig.parse source url = some cfg ↔
        cfg.source = source ∧ Spells cfg url.toList) ∧
      (∀ source url, (StreamConfig.parse source url).bind (fun cfg => StreamConfig.parse source cfg.url) =
        StreamConfig.parse source url) ∧
      ∀ cfg : StreamConfig, (∃ url, StreamConfig.parse cfg.source url = some cfg) ↔ Writable cfg := by
  have hsource {source url : String} {cfg : StreamConfig} (h : StreamConfig.parse source url = some cfg) :
      cfg.source = source := by
    obtain ⟨_,_,_,_,hsource⟩ := parse_parts.mp h
    exact hsource
  refine ⟨fun source url cfg => ⟨fun h => ⟨hsource h,spells_of_parse h⟩,?_⟩,fun source url => ?_,fun cfg => ?_⟩
  · rintro ⟨rfl,h⟩
    exact parse_of_spells h
  · cases h : StreamConfig.parse source url with
    | none => rfl
    | some cfg =>
      obtain rfl := hsource h
      exact parse_of_spells (spells_of_parse h).writable.spells
  · constructor
    · rintro ⟨url,h⟩
      exact (spells_of_parse h).writable
    · exact fun h => ⟨cfg.url,parse_of_spells h.spells⟩

example : StreamConfig.parse "limelight" "http://[::1]:5800" =
    some ⟨"limelight","[::1]",5800,"/"⟩ := by decide +kernel

end Urls

end MjpegStream
end Robocol
