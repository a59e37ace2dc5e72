import Mathlib.Data.List.Induction
import Mathlib.Data.List.TakeWhile
import Std.Data.String.ToNat
import Robocol.InferRc

/-! When the report tells that a Robot Controller advertises other versions than ours. -/
namespace Robocol
namespace Capture

open Std (ExtTreeMap ExtTreeSet)

section Decimals

variable {n m : ℕ} {c d : Char} {xs ys : List Char}

def decimal (n : ℕ) : List Char := Nat.toDigits 10 n

theorem decimal_isDigit (n : ℕ) : ∀ c ∈ decimal n, c.isDigit = true :=
  fun _ hc => Nat.isDigit_of_mem_toDigits (by decide) (by decide) hc

theorem decimal_injective (h : decimal n = decimal m) : n = m := by
  apply Nat.repr_injective
  rw [Nat.repr_eq_ofList_toDigits,Nat.repr_eq_ofList_toDigits]
  exact congrArg String.ofList h

theorem takeWhile_decimal (n : ℕ) (hc : c.isDigit = false) (xs : List Char) :
    (decimal n ++ c :: xs).takeWhile Char.isDigit = decimal n := by
  rw [List.takeWhile_append_of_pos (decimal_isDigit n),List.takeWhile_cons_of_neg (by simp [hc]),
    List.append_nil]

theorem decimal_cut (hc : c.isDigit = false) (hd : d.isDigit = false)
    (h : decimal n ++ c :: xs = decimal m ++ d :: ys) : n = m ∧ c :: xs = d :: ys := by
  have hfront := congrArg (List.takeWhile Char.isDigit) h
  rw [takeWhile_decimal n hc,takeWhile_decimal m hd] at hfront
  refine ⟨decimal_injective hfront,?_⟩
  rw [hfront] at h
  exact List.append_cancel_left h

/-- A number that a text goes on from is the front part of the number that stands there. -/
theorem decimal_front (hd : d.isDigit = false) (h : decimal n ++ xs = decimal m ++ d :: ys) :
    decimal n <+: decimal m := by
  have hfront := congrArg (List.takeWhile Char.isDigit) h
  rw [takeWhile_decimal m hd,List.takeWhile_append_of_pos (decimal_isDigit n)] at hfront
  exact ⟨_,hfront⟩

end Decimals

section Keys

variable {p q : PeerDiscovery}

/-- The two packets advertise the same versions, the same build and the same kind of peer. -/
def SameAdvert (p q : PeerDiscovery) : Prop :=
  p.robocolVersion = q.robocolVersion ∧ p.sdkMajorVersion = q.sdkMajorVersion ∧
    p.sdkMinorVersion = q.sdkMinorVersion ∧ p.sdkBuildMonth = q.sdkBuildMonth ∧
    p.sdkBuildYear = q.sdkBuildYear ∧ p.peerType = q.peerType

theorem toList_byte (b : UInt8) : (toString b).toList = decimal b.toNat := Nat.toList_repr
theorem toList_word (b : UInt16) : (toString b).toList = decimal b.toNat := Nat.toList_repr

/-- The filing text behind its versions. -/
def keyTail (p : PeerDiscovery) : List Char :=
  ' ' :: "build=".toList ++ (decimal p.sdkBuildMonth.toNat ++ '/' :: (decimal p.sdkBuildYear.toNat
    ++ ' ' :: ("type=".toList ++ (PeerType.debug p.peerType).toList)))

theorem peerKey_toList (p : PeerDiscovery) : (peerKey p).toList =
    "robocol=".toList ++ (decimal p.robocolVersion.toNat ++ ' ' :: ("sdk=".toList
      ++ (decimal p.sdkMajorVersion.toNat ++ '.' :: (decimal p.sdkMinorVersion.toNat ++ keyTail p)))) := by
  have hsdk : " sdk=".toList = ' ' :: "sdk=".toList := rfl
  have hdot : ".".toList = ['.'] := rfl
  have hbuild : " build=".toList = ' ' :: "build=".toList := rfl
  have hslash : "/".toList = ['/'] := rfl
  have htype : " type=".toList = ' ' :: "type=".toList := rfl
  unfold peerKey
  simp only [keyTail,String.toList_append,toList_byte,toList_word,hsdk,hdot,hbuild,hslash,htype,
    List.append_assoc,List.cons_append,List.nil_append]

theorem oursText_toList : oursText.toList =
    "robocol=".toList ++ (decimal ours.robocolVersion.toNat ++ ' ' :: ("sdk=".toList
      ++ (decimal ours.sdkMajorVersion.toNat ++ '.' :: decimal ours.sdkMinorVersion.toNat))) := by
  have hsdk : " sdk=".toList = ' ' :: "sdk=".toList := rfl
  have hdot : ".".toList = ['.'] := rfl
  simp only [oursText,String.toList_append,toList_byte,hsdk,hdot,List.append_assoc,List.cons_append,
    List.nil_append]

theorem debug_injective {a b : PeerType} (h : (PeerType.debug a).toList = (PeerType.debug b).toList) :
    a = b := by
  have hdebug := String.toList_injective h
  cases a <;> cases b <;> first | rfl | exact absurd hdebug (by decide)

theorem keyTail_eq (h : keyTail p = keyTail q) : p.sdkBuildMonth = q.sdkBuildMonth ∧
    p.sdkBuildYear = q.sdkBuildYear ∧ p.peerType = q.peerType := by
  have hbuild := List.append_cancel_left h
  obtain ⟨hmonth,hyears⟩ := decimal_cut (by decide) (by decide) hbuild
  obtain ⟨hyear,htypes⟩ := decimal_cut (by decide) (by decide) (List.cons.inj hyears).2
  have htype := List.append_cancel_left (List.cons.inj htypes).2
  exact ⟨UInt8.toNat_inj.mp hmonth,UInt16.toNat_inj.mp hyear,debug_injective htype⟩

theorem peerKey_eq_iff : peerKey p = peerKey q ↔ SameAdvert p q := by
  constructor
  · intro h
    have htext := congrArg String.toList h
    rw [peerKey_toList,peerKey_toList] at htext
    obtain ⟨hrobocol,hrest⟩ := decimal_cut (by decide) (by decide) (List.append_cancel_left htext)
    have hsdk := List.append_cancel_left (List.cons.inj hrest).2
    obtain ⟨hmajor,hrest⟩ := decimal_cut (by decide) (by decide) hsdk
    obtain ⟨hminor,htail⟩ := decimal_cut (by decide) (by decide) (List.cons.inj hrest).2
    exact ⟨UInt8.toNat_inj.mp hrobocol,UInt8.toNat_inj.mp hmajor,UInt8.toNat_inj.mp hminor,
      keyTail_eq htail⟩
  · rintro ⟨hrobocol,hmajor,hminor,hmonth,hyear,htype⟩
    unfold peerKey
    rw [hrobocol,hmajor,hminor,hmonth,hyear,htype]

/-- Robocol version and major version are ours, and the decimals of the minor version begin
with those of ours. -/
def ReadsAsOurs (p : PeerDiscovery) : Prop :=
  p.robocolVersion = ours.robocolVersion ∧ p.sdkMajorVersion = ours.sdkMajorVersion ∧
    (p.sdkMinorVersion.toNat = ours.sdkMinorVersion.toNat ∨
      p.sdkMinorVersion.toNat/10 = ours.sdkMinorVersion.toNat ∨
      p.sdkMinorVersion.toNat/100 = ours.sdkMinorVersion.toNat)

theorem decimal_front_iff (m : UInt8) : decimal ours.sdkMinorVersion.toNat <+: decimal m.toNat ↔
    m.toNat = ours.sdkMinorVersion.toNat ∨ m.toNat/10 = ours.sdkMinorVersion.toNat ∨
      m.toNat/100 = ours.sdkMinorVersion.toNat := by
  have hall : ∀ k : Fin 256, (decimal ours.sdkMinorVersion.toNat).isPrefixOf (decimal k.val) = true ↔
      k.val = ours.sdkMinorVersion.toNat ∨ k.val/10 = ours.sdkMinorVersion.toNat ∨
        k.val/100 = ours.sdkMinorVersion.toNat := by decide +kernel
  rw [← List.isPrefixOf_iff_prefix]
  exact hall ⟨m.toNat,m.toNat_lt⟩

theorem startsWith_oursText : startsWith (peerKey p) oursText = true ↔ ReadsAsOurs p := by
  rw [startsWith,List.isPrefixOf_iff_prefix,ReadsAsOurs,← decimal_front_iff,oursText_toList,
    peerKey_toList]
  constructor
  · rintro ⟨t,ht⟩
    rw [List.append_assoc,List.append_assoc,List.cons_append] at ht
    obtain ⟨hrobocol,hrest⟩ := decimal_cut (by decide) (by decide) (List.append_cancel_left ht)
    rw [List.append_assoc,List.append_assoc,List.cons_append] at hrest
    have hsdk := List.append_cancel_left (List.cons.inj hrest).2
    obtain ⟨hmajor,hrest⟩ := decimal_cut (by decide) (by decide) hsdk
    exact ⟨(UInt8.toNat_inj.mp hrobocol).symm,(UInt8.toNat_inj.mp hmajor).symm,
      decimal_front (by decide) (List.cons.inj hrest).2⟩
  · rintro ⟨hrobocol,hmajor,t,hminor⟩
    refine ⟨t ++ keyTail p,?_⟩
    rw [hrobocol,hmajor,← hminor]
    simp only [List.append_assoc,List.cons_append]

end Keys

section Peers

variable {json : SerdeJson} {rc : EndpointSet} {dgs : List Datagram} {dg : Datagram} {p : PeerDiscovery}

theorem report_snoc (json : SerdeJson) (rc : EndpointSet) (dgs : List Datagram) (dg : Datagram) :
    report json rc (dgs ++ [dg]) = (report json rc dgs).observe json dg (Packet.parse dg.payload) := by
  rw [report,List.foldl_append]
  rfl

theorem report_rc (json : SerdeJson) (rc : EndpointSet) (dgs : List Datagram) :
    (report json rc dgs).rc = rc := by
  induction dgs using List.reverseRecOn with
  | nil => rfl
  | append_singleton dgs dg ih => rw [report_snoc,(observe_frame json _ dg).1,ih]

/-- The datagram brings a discovery packet that is filed under `key`. -/
def FiledUnder (key : String) (dg : Datagram) : Bool := (discovery dg).map peerKey = some key

theorem observePeer_rows (r : Report) (dg : Datagram) (p : PeerDiscovery) (key : String) :
    (r.observePeer dg p).peers[key]?.map Prod.fst =
      if peerKey p = key then (r.peers[key]?.map Prod.fst).or (some (dir dg r.rc))
      else r.peers[key]?.map Prod.fst := by
  rw [Report.observePeer,ExtTreeMap.getElem?_insert]
  by_cases hkey : peerKey p = key
  · subst hkey
    cases hrow : r.peers[peerKey p]? <;> simp [ExtTreeMap.getD_eq_getD_getElem?,hrow]
  · simp [hkey]

/-- Every row has the direction of the first datagram that was filed under its key. -/
theorem report_peers (key : String) : (report json rc dgs).peers[key]?.map Prod.fst =
    (dgs.find? (FiledUnder key)).map fun dg => dir dg rc := by
  induction dgs using List.reverseRecOn with
  | nil => simp [report]
  | append_singleton dgs dg ih =>
    rw [report_snoc,(observe_frame json _ dg).2.1,List.find?_append,Option.map_or,← ih]
    cases hp : discovery dg with
    | none => simp [FiledUnder,hp]
    | some p =>
      rw [Option.elim_some,observePeer_rows,report_rc]
      by_cases hkey : peerKey p = key
      · simp [FiledUnder,hp,hkey]
      · simp [FiledUnder,hp,hkey]

theorem bump_mem_iff (r : Report) (key : String) : Action.bump key ∈ r.actions ↔
    r.peers[key]?.map Prod.fst = some "RC->DS" ∧ startsWith key oursText = false := by
  have hother (b : Bool) (x : Action) (hx : x ≠ .bump key) : Action.bump key ∉ only b x := by
    cases b <;> simp [only,hx.symm]
  have hrows : Action.bump key ∈ r.peers.toList.filterMap bumpAction ↔
      r.peers[key]?.map Prod.fst = some "RC->DS" ∧ startsWith key oursText = false := by
    rw [List.mem_filterMap]
    constructor
    · rintro ⟨⟨k,d,n⟩,hrow,haction⟩
      rw [ExtTreeMap.mem_toList_iff_getElem?_eq_some] at hrow
      simp only [bumpAction,Option.ite_none_right_eq_some,Option.some.injEq,Action.bump.injEq] at haction
      obtain ⟨⟨rfl,hstarts⟩,rfl⟩ := haction
      exact ⟨by rw [hrow]; rfl,hstarts⟩
    · rintro ⟨hrow,hstarts⟩
      obtain ⟨⟨d,n⟩,hrow,rfl⟩ := Option.map_eq_some_iff.mp hrow
      refine ⟨(key,"RC->DS",n),ExtTreeMap.mem_toList_iff_getElem?_eq_some.mpr hrow,?_⟩
      simp [bumpAction,hstarts]
  simp only [Report.actions,List.mem_append,hrows]
  simp [hother]

end Peers

section Alarm

variable {json : SerdeJson} {rc : EndpointSet} {dgs : List Datagram} {p : PeerDiscovery}

/-- The packet advertises a version that is not ours. -/
def Skewed (p : PeerDiscovery) : Prop :=
  p.robocolVersion ≠ ours.robocolVersion ∨ p.sdkMajorVersion ≠ ours.sdkMajorVersion ∨
    p.sdkMinorVersion ≠ ours.sdkMinorVersion

/-- Whatever a Robot Controller advertises that is not ours has its action item. -/
def AlarmsOnSkew (json : SerdeJson) (rc : EndpointSet) (dgs : List Datagram) (frames skipped : ℕ) :
    Prop :=
  ∀ dg ∈ dgs, ∀ p, discovery dg = some p → dg.sender ∈ rc → Skewed p →
    Lists ((report json rc dgs).print frames skipped) (.bump (peerKey p))

/-- The first to advertise what `p` does is a Robot Controller. -/
def FirstFromRc (rc : EndpointSet) (dgs : List Datagram) (p : PeerDiscovery) : Prop :=
  ∃ pre first post q, dgs = pre ++ first :: post ∧ discovery first = some q ∧ SameAdvert q p ∧
    first.sender ∈ rc ∧ ∀ dg ∈ pre, ∀ q, discovery dg = some q → ¬SameAdvert q p

theorem filedUnder_iff {dg : Datagram} : FiledUnder (peerKey p) dg = true ↔
    ∃ q, discovery dg = some q ∧ SameAdvert q p := by
  simp only [FiledUnder,decide_eq_true_eq,Option.map_eq_some_iff,peerKey_eq_iff]

theorem find_firstFromRc :
    (dgs.find? (FiledUnder (peerKey p))).map (fun dg => dir dg rc) = some "RC->DS" ↔
      FirstFromRc rc dgs p := by
  rw [Option.map_eq_some_iff]
  constructor
  · rintro ⟨first,hfind,hdir⟩
    obtain ⟨hfirst,pre,post,hdgs,hpre⟩ := List.find?_eq_some_iff_append.mp hfind
    obtain ⟨q,hq,hsame⟩ := filedUnder_iff.mp hfirst
    refine ⟨pre,first,post,q,hdgs,hq,hsame,dir_fromRc.mp hdir,fun dg hdg q hq hsame => ?_⟩
    have hnot := hpre dg hdg
    rw [filedUnder_iff.mpr ⟨q,hq,hsame⟩] at hnot
    cases hnot
  · rintro ⟨pre,first,post,q,hdgs,hq,hsame,hrc,hpre⟩
    refine ⟨first,List.find?_eq_some_iff_append.mpr ⟨filedUnder_iff.mpr ⟨q,hq,hsame⟩,pre,post,hdgs,
      fun dg hdg => ?_⟩,dir_fromRc.mpr hrc⟩
    rw [Bool.not_eq_true',Bool.eq_false_iff,ne_eq,filedUnder_iff]
    rintro ⟨q,hq,hsame⟩
    exact hpre dg hdg q hq hsame

/-- The alarm on an advertisement depends on its first sender and on how its versions read. -/
theorem bump_listed_iff {frames skipped : ℕ} :
    Lists ((report json rc dgs).print frames skipped) (.bump (peerKey p)) ↔
      FirstFromRc rc dgs p ∧ ¬ReadsAsOurs p := by
  rw [lists_print,bump_mem_iff,report_peers,find_firstFromRc,← startsWith_oursText,Bool.not_eq_true]

theorem alarmsOnSkew_iff (json : SerdeJson) (rc : EndpointSet) (dgs : List Datagram)
    (frames skipped : ℕ) : AlarmsOnSkew json rc dgs frames skipped ↔
      ∀ dg ∈ dgs, ∀ p, discovery dg = some p → dg.sender ∈ rc → Skewed p →
        FirstFromRc rc dgs p ∧ ¬ReadsAsOurs p := by
  constructor
  · intro h dg hdg p hp hrc hskew
    exact bump_listed_iff.mp (h dg hdg p hp hrc hskew)
  · intro h dg hdg p hp hrc hskew
    exact bump_listed_iff.mpr (h dg hdg p hp hrc hskew)

/-- JSON that is never asked. -/
def unaskedJson : SerdeJson where
  frameBegin _ := none
  frameChunk _ := none
  opModeMetas _ := none
  strings _ := none
  configMetaText _ := none
  frameBeginText _ := ""
  frameChunkText _ := ""
  value _ := none
  render _ := ""

def newerAdvert : PeerDiscovery := { robocolVersion := 125 }
def newerFromDs : Datagram := carrying dsEnd rcEnd (.peerDiscovery newerAdvert)
def newerFromRc : Datagram := carrying rcEnd dsEnd (.peerDiscovery newerAdvert)

def onlyRc : EndpointSet := (∅ : EndpointSet).insert rcEnd

theorem mem_onlyRc {e : Endpoint} : e ∈ onlyRc ↔ e = rcEnd := by
  rw [onlyRc,ExtTreeSet.mem_insert,endpointCmp_eq_iff]
  simp [eq_comm]

/-- A Driver Station and a Robot Controller of one newer version, the Driver Station first. -/
theorem newer_unlisted : ¬AlarmsOnSkew unaskedJson onlyRc [newerFromDs,newerFromRc] 2 0 := by
  have hds : discovery newerFromDs = some newerAdvert := by decide
  have hrc : discovery newerFromRc = some newerAdvert := by decide
  intro h
  have hlisted := h newerFromRc (by simp) newerAdvert hrc (mem_onlyRc.mpr rfl) (.inl (by decide))
  obtain ⟨⟨pre,first,post,q,hdgs,-,-,hfirst,hpre⟩,-⟩ := bump_listed_iff.mp hlisted
  cases pre with
  | nil =>
    obtain rfl := (List.cons.inj hdgs).1
    have heq : dsEnd = rcEnd := mem_onlyRc.mp hfirst
    revert heq
    decide
  | cons dg pre =>
    obtain rfl := (List.cons.inj hdgs).1
    exact hpre newerFromDs List.mem_cons_self newerAdvert hds ⟨rfl,rfl,rfl,rfl,rfl,rfl⟩

end Alarm

end Capture
end Robocol
