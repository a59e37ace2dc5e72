import Robocol.Ipv4Packets

/-! The runs of `datagrams` in which a fragmented datagram comes in. -/
namespace Robocol
namespace Capture

open Overlays

section Own

variable {D : Fragmented} {as bs : List Arrival} {n : ℕ}

/-- Only fragments of `D` came in. -/
def OnlyOf (D : Fragmented) (as : List Arrival) : Prop := ∀ a ∈ as, a.2 ∈ D.fragments

/-- Every fragment of `D` came in. -/
def AllOf (D : Fragmented) (as : List Arrival) : Prop := ∀ g ∈ D.fragments, ∃ a ∈ as, a.2 = g

theorem announced_mem (h : announced as = some n) :
    ∃ a ∈ as, a.2.more = false ∧ a.2.offset+a.2.body.length = n := by
  induction as with
  | nil => cases h
  | cons a as ih =>
    rw [announced,Option.or_eq_some_iff] at h
    rcases h with h|⟨-,h⟩
    · obtain ⟨b,hb,hlast⟩ := ih h
      exact ⟨b,List.mem_cons_of_mem a hb,hlast⟩
    · simp only [Option.ite_none_left_eq_some,Option.some.injEq,Bool.not_eq_true] at h
      exact ⟨a,List.mem_cons_self,h⟩

theorem announced_isSome {a : Arrival} (ha : a ∈ as) (hmore : a.2.more = false) :
    ∃ n, announced as = some n := by
  induction as with
  | nil => cases ha
  | cons b as ih =>
    rcases List.mem_cons.mp ha with rfl|ha
    · cases hn : announced as with
      | none => exact ⟨_,by simp [announced,hn,hmore]; rfl⟩
      | some n => exact ⟨n,by simp [announced,hn]⟩
    · obtain ⟨n,hn⟩ := ih ha
      exact ⟨n,by simp [announced,hn]⟩

theorem OnlyOf.announced (h : OnlyOf D as) (hn : announced as = some n) : n = D.data.length := by
  obtain ⟨a,ha,hmore,rfl⟩ := announced_mem hn
  have hlast := fragmentsFrom_last (h a ha) hmore
  rwa [Nat.zero_add] at hlast

theorem AllOf.announced (h : AllOf D as) (ho : OnlyOf D as) :
    Capture.announced as = some D.data.length := by
  obtain ⟨g,hg,hmore⟩ := exists_last (m := 0) D.pieces_ne_nil
  obtain ⟨a,ha,rfl⟩ := h g hg
  obtain ⟨n,hn⟩ := announced_isSome ha hmore
  rw [hn,ho.announced hn]

theorem chunk_mem {g : Fragment} (h : g ∈ D.fragments) : g.chunk ∈ placed 0 D.pieces := by
  rw [← fragmentsFrom_chunks]
  exact List.mem_map_of_mem h

theorem OnlyOf.placed (h : OnlyOf D as) : ∀ c ∈ chunks as, c ∈ placed 0 D.pieces := by
  intro c hc
  obtain ⟨a,ha,rfl⟩ := List.mem_map.mp hc
  exact chunk_mem (h a ha)

theorem AllOf.covered (h : AllOf D as) : Covered (chunks as) D.data.length := by
  refine covered_of_placed fun c hc => ?_
  rw [← fragmentsFrom_chunks] at hc
  obtain ⟨g,hg,rfl⟩ := List.mem_map.mp hc
  obtain ⟨a,ha,rfl⟩ := h g hg
  exact List.mem_map_of_mem (f := fun a : Arrival => a.2.chunk) ha

/-- All fragments of a datagram, and no others, show its payload. -/
theorem AllOf.shows (h : AllOf D as) (ho : OnlyOf D as) : Shows (chunks as) D.data :=
  h.covered.shows fun c hc => pieceOf_placed (ho.placed c hc)

/-- What came in of a datagram is complete exactly when every fragment came in. -/
theorem OnlyOf.complete_iff (h : OnlyOf D as) : Complete as ↔ AllOf D as := by
  constructor
  · rintro ⟨n,hn,hcov⟩ g hg
    rw [h.announced hn] at hcov
    have hmem := mem_of_covered h.placed hcov (chunk_mem hg) (Fragmented.body_ne_nil hg)
    obtain ⟨a,ha,hchunk⟩ := List.mem_map.mp hmem
    exact ⟨a,ha,fragmentsFrom_inj D.nonempty (h a ha) hg (congrArg Prod.fst hchunk)⟩
  · intro hall
    exact ⟨_,hall.announced h,hall.covered⟩

/-- What completes a datagram is its payload. -/
theorem OnlyOf.eq_data {buf : List UInt8} (h : OnlyOf D as) (hn : Capture.announced as = some buf.length)
    (hshows : Shows (chunks as) buf) : buf = D.data := by
  have hcomplete : Complete as := ⟨_,hn,hshows.covered⟩
  exact hshows.unique ((h.complete_iff.mp hcomplete).shows h) (h.announced hn)

end Own

section Runs

variable {key : Key} {as : List Arrival} {st st' : Decoding} {f : Frame}

def Frame.arrival (key : Key) (f : Frame) : Option Arrival :=
  (f.fragment.filter fun r => r.1 = key).map fun r => (f.ts,r.2)

/-- The fragments of the key, in the order they came in. -/
def arrivals (key : Key) (fs : List Frame) : List Arrival := fs.filterMap (Frame.arrival key)

/-- The frames without the fragments of the key. -/
def without (key : Key) (fs : List Frame) : List Frame := fs.filter (Apart key)

theorem arrival_apart (h : Apart key f) : f.arrival key = none := by
  rw [Apart] at h
  cases hf : f.fragment with
  | none => simp [Frame.arrival,hf]
  | some r =>
    have hne : r.1 ≠ key := by simpa [hf] using h
    simp [Frame.arrival,hf,hne]

theorem arrival_fragment {g : Fragment} (h : f.fragment = some (key,g)) :
    f.arrival key = some (f.ts,g) := by
  simp [Frame.arrival,h]

theorem arrivals_append (key : Key) (fs gs : List Frame) :
    arrivals key (fs ++ gs) = arrivals key fs ++ arrivals key gs := List.filterMap_append

theorem arrivals_one {g : Fragment} (h : f.fragment = some (key,g)) : arrivals key [f] = [(f.ts,g)] := by
  rw [arrivals,List.filterMap_cons_some (arrival_fragment h),List.filterMap_nil]

theorem apart_or_fragment (key : Key) (f : Frame) :
    Apart key f ∨ ∃ g, f.fragment = some (key,g) := by
  cases hf : f.fragment with
  | none => exact .inl (by simp [Apart,hf])
  | some r =>
    obtain ⟨k,g⟩ := r
    by_cases hk : k = key
    · exact .inr ⟨g,by rw [hk]⟩
    · exact .inl (by simp [Apart,hf,hk])

theorem not_apart {g : Fragment} (h : f.fragment = some (key,g)) : ¬Apart key f := by
  simp [Apart,h]

/-- As long as nothing completes, the other frames give what they give without the fragments. -/
theorem Beside.run (h : Beside key as st st') (fs : List Frame)
    (hq : ∀ pre, pre <+: fs → ¬Complete (as ++ arrivals key pre)) :
    ∃ t t' dgs, fs.foldlM handleFrame st = some t ∧ (without key fs).foldlM handleFrame st' = some t' ∧
      Beside key (as ++ arrivals key fs) t t' ∧ t.out = st.out ++ dgs ∧ t'.out = st'.out ++ dgs := by
  induction fs generalizing as st st' with
  | nil => exact ⟨st,st',[],rfl,rfl,by simpa [arrivals] using h,by simp,by simp⟩
  | cons f fs ih =>
    rcases apart_or_fragment key f with hf|⟨g,hf⟩
    · have harr (l : List Frame) : arrivals key (f :: l) = arrivals key l := by
        rw [arrivals,List.filterMap_cons_none (arrival_apart hf),arrivals]
      obtain ⟨u,u',new,hu,hu',hb,hout,hout'⟩ := h.apart_step hf
      obtain ⟨t,t',dgs,ht,ht',hb',hrest,hrest'⟩ := ih hb fun pre hpre => by
        rw [← harr]
        exact hq _ (List.cons_prefix_cons.mpr ⟨rfl,hpre⟩)
      refine ⟨t,t',new ++ dgs,?_,?_,?_,?_,?_⟩
      · rw [List.foldlM_cons,hu]
        exact ht
      · rw [without,List.filter_cons_of_pos (by simpa using hf),List.foldlM_cons,hu']
        exact ht'
      · rwa [harr]
      · rw [hrest,hout,List.append_assoc]
      · rw [hrest',hout',List.append_assoc]
    · have harr (l : List Frame) : as ++ arrivals key (f :: l) = (as ++ [(f.ts,g)]) ++ arrivals key l := by
        rw [arrivals,List.filterMap_cons_some (arrival_fragment hf),arrivals]
        simp
      have hmissing : ¬Complete (as ++ [(f.ts,g)]) := by
        have hq' := hq [f] (by simp)
        rwa [harr,arrivals,List.filterMap_nil,List.append_nil] at hq'
      obtain ⟨u,new,hu,hb,hout,hnew⟩ := h.fragment_step hf
      rw [hold,if_neg hmissing] at hb
      obtain ⟨t,t',dgs,ht,ht',hb',hrest,hrest'⟩ := ih hb fun pre hpre => by
        rw [← harr]
        exact hq _ (List.cons_prefix_cons.mpr ⟨rfl,hpre⟩)
      have hnil : new = [] := by
        rcases hnew with ⟨-,hnil⟩|⟨buf,-,-,hn,hshows,-⟩
        · exact hnil
        · exact absurd ⟨_,hn,hshows.covered⟩ hmissing
      refine ⟨t,t',dgs,?_,?_,?_,?_,hrest'⟩
      · rw [List.foldlM_cons,hu]
        exact ht
      · rw [without,List.filter_cons_of_neg (by simpa using not_apart hf)]
        exact ht'
      · rwa [harr]
      · rw [hrest,hout,hnil,List.append_nil]

theorem datagrams_eq {fs : List Frame} {t : Decoding} (h : fs.foldlM handleFrame {} = some t) :
    datagrams fs = some (t.out,t.skipped) := by
  rw [datagrams,h]
  rfl

theorem run_append {fs gs : List Frame} {t u : Decoding} (h : fs.foldlM handleFrame st = some t)
    (h' : gs.foldlM handleFrame t = some u) : (fs ++ gs).foldlM handleFrame st = some u := by
  rw [List.foldlM_append,h]
  exact h'

theorem run_one {t : Decoding} (h : handleFrame st f = some t) : [f].foldlM handleFrame st = some t := by
  rw [List.foldlM_cons,h]
  rfl

end Runs

section Delivery

variable {D : Fragmented} {before lead mid post : List Frame} {first last : Frame}

/-- No fragment is pending for the key after these frames. -/
def Idle (key : Key) (before : List Frame) : Prop :=
  ∀ st, before.foldlM handleFrame {} = some st → st.reasm.pending key = none

/-- The fragments of `D` come in among other frames: `first` brings the first of them, and
`last` the last one that was missing. -/
structure Delivery (D : Fragmented) (lead : List Frame) (first : Frame) (mid : List Frame)
    (last : Frame) (post : List Frame) : Prop where
  before : ∀ f ∈ lead, Apart D.key f
  begins : ∃ g ∈ D.fragments, Carries first D.key g
  between : ∀ f ∈ mid, Apart D.key f ∨ ∃ g ∈ D.fragments, Carries f D.key g
  ends : ∃ g ∈ D.fragments, Carries last D.key g ∧ ∀ f ∈ first :: mid, ¬Carries f D.key g
  all : ∀ g ∈ D.fragments, ∃ f ∈ first :: mid ++ [last], Carries f D.key g
  after : ∀ f ∈ post, Apart D.key f

/-- Behind `before`, the frame `last` gives `dg`, and all others give what they give without
the fragments of the key in `fs` and `last`. -/
def InsertsAt (key : Key) (before fs : List Frame) (last : Frame) (post : List Frame)
    (dg : Datagram) : Prop :=
  ∃ out₁ out₂ n₁ n₂,
    datagrams (before ++ fs) = some (out₁,n₁) ∧
    datagrams (before ++ fs ++ [last]) = some (out₁ ++ [dg],n₁) ∧
    datagrams (before ++ fs ++ [last] ++ post) = some (out₁ ++ dg :: out₂,n₂) ∧
    datagrams (before ++ without key fs) = some (out₁,n₁) ∧
    datagrams (before ++ without key fs ++ post) = some (out₁ ++ out₂,n₂)

theorem Carries.fragment_of {f : Frame} {g : Fragment} (h : Carries f D.key g)
    (hg : g ∈ D.fragments) : f.fragment = some (D.key,g) :=
  h.fragment (Fragmented.more_or_offset hg)

theorem arrivals_apart {key : Key} {fs : List Frame} (h : ∀ f ∈ fs, Apart key f) :
    arrivals key fs = [] :=
  List.filterMap_eq_nil_iff.mpr fun f hf => arrival_apart (h f hf)

theorem without_apart {key : Key} {fs : List Frame} (h : ∀ f ∈ fs, Apart key f) :
    without key fs = fs :=
  List.filter_eq_self.mpr fun f hf => by simpa using h f hf

theorem not_complete_nil : ¬Complete [] := by
  rintro ⟨n,hn,-⟩
  cases hn

theorem arrival_mem {fs : List Frame} {f : Frame} {g : Fragment} (hf : f ∈ fs)
    (hc : Carries f D.key g) (hg : g ∈ D.fragments) : (f.ts,g) ∈ arrivals D.key fs :=
  List.mem_filterMap.mpr ⟨f,hf,arrival_fragment (hc.fragment_of hg)⟩

theorem mem_arrivals {fs : List Frame} {a : Arrival}
    (h : ∀ f ∈ fs, Apart D.key f ∨ ∃ g ∈ D.fragments, Carries f D.key g)
    (ha : a ∈ arrivals D.key fs) : a.2 ∈ D.fragments ∧ ∃ f ∈ fs, Carries f D.key a.2 := by
  obtain ⟨f,hf,hfa⟩ := List.mem_filterMap.mp ha
  rcases h f hf with hap|⟨g,hg,hc⟩
  · rw [arrival_apart hap] at hfa
    cases hfa
  · rw [arrival_fragment (hc.fragment_of hg)] at hfa
    cases hfa
    exact ⟨hg,f,hf,hc⟩

theorem onlyOf_arrivals {fs : List Frame}
    (h : ∀ f ∈ fs, Apart D.key f ∨ ∃ g ∈ D.fragments, Carries f D.key g) :
    OnlyOf D (arrivals D.key fs) := fun _ ha => (mem_arrivals h ha).1

theorem allOf_arrivals {fs : List Frame} (h : ∀ g ∈ D.fragments, ∃ f ∈ fs, Carries f D.key g) :
    AllOf D (arrivals D.key fs) := by
  intro g hg
  obtain ⟨f,hf,hc⟩ := h g hg
  exact ⟨_,arrival_mem hf hc hg,rfl⟩

/-- Without `g`, nothing completes. -/
theorem not_complete_of_missing {fs : List Frame} {g : Fragment}
    (h : ∀ f ∈ fs, Apart D.key f ∨ ∃ g ∈ D.fragments, Carries f D.key g)
    (hg : g ∈ D.fragments) (hmissing : ∀ f ∈ fs, ¬Carries f D.key g) :
    ¬Complete (arrivals D.key fs) := by
  intro hcomplete
  obtain ⟨a,ha,rfl⟩ := (onlyOf_arrivals h).complete_iff.mp hcomplete g hg
  obtain ⟨-,f,hf,hc⟩ := mem_arrivals h ha
  exact hmissing f hf hc

theorem Delivery.frames (h : Delivery D lead first mid last post) :
    ∀ f ∈ lead ++ first :: mid, Apart D.key f ∨ ∃ g ∈ D.fragments, Carries f D.key g := by
  intro f hf
  rcases List.mem_append.mp hf with hf|hf
  · exact .inl (h.before f hf)
  · rcases List.mem_cons.mp hf with rfl|hf
    · exact .inr h.begins
    · exact h.between f hf

/-- Up to `last`, nothing completes. -/
theorem Delivery.quiet (h : Delivery D lead first mid last post) {pre : List Frame}
    (hpre : pre <+: lead ++ first :: mid) : ¬Complete (arrivals D.key pre) := by
  obtain ⟨g,hg,-,hmissing⟩ := h.ends
  refine not_complete_of_missing (fun f hf => h.frames f (hpre.mem hf)) hg fun f hf hc => ?_
  rcases List.mem_append.mp (hpre.mem hf) with hf'|hf'
  · exact not_apart (hc.fragment_of hg) (h.before f hf')
  · exact hmissing f hf' hc

/-- With `last`, the fragments are all there, from `first` on. -/
theorem Delivery.arrived (h : Delivery D lead first mid last post) {g : Fragment}
    (hg : g ∈ D.fragments) (hc : Carries last D.key g) :
    OnlyOf D (arrivals D.key (lead ++ first :: mid) ++ [(last.ts,g)]) ∧
      AllOf D (arrivals D.key (lead ++ first :: mid) ++ [(last.ts,g)]) ∧
      ∃ a as, arrivals D.key (lead ++ first :: mid) = (first.ts,a) :: as := by
  rw [← arrivals_one (hc.fragment_of hg),← arrivals_append]
  refine ⟨onlyOf_arrivals fun f hf => ?_,allOf_arrivals fun g' hg' => ?_,?_⟩
  · rcases List.mem_append.mp hf with hf|hf
    · exact h.frames f hf
    · rw [List.mem_singleton.mp hf]
      exact .inr ⟨g,hg,hc⟩
  · obtain ⟨f,hf,hcf⟩ := h.all g' hg'
    exact ⟨f,by simpa using .inr (by simpa using hf),hcf⟩
  · obtain ⟨a,ha,hfirst⟩ := h.begins
    refine ⟨a,arrivals D.key mid,?_⟩
    rw [arrivals_append,arrivals_apart h.before,← List.singleton_append,arrivals_append,
      arrivals_one (hfirst.fragment_of ha)]
    rfl

/-- The whole payload in one packet gives what `parse_udp` makes of it. -/
theorem datagrams_whole {whole : Frame} {ident : UInt16} {dg : Datagram} {ts : F64}
    (hw : Carries whole (D.src,D.dst,ident) ⟨0,false,D.data⟩)
    (hdg : parseUdp ts (.v4 D.src) (.v4 D.dst) D.data true = some (some dg)) :
    datagrams [whole] = some ([{ dg with ts := whole.ts, fragmented := false }],0) := by
  exact datagrams_eq (run_one (hw.whole (parseUdp_at hdg whole.ts false) {}))

theorem datagrams_reassembles (D : Fragmented) (before lead mid post : List Frame)
    (first last : Frame) (hidle : Idle D.key before) (h : Delivery D lead first mid last post) :
    ∃ dg, parseUdp first.ts (.v4 D.src) (.v4 D.dst) D.data true = some (some dg) ∧
      dg.ts = first.ts ∧ dg.fragmented = true ∧
      (∀ whole ident, Carries whole (D.src,D.dst,ident) ⟨0,false,D.data⟩ →
        datagrams [whole] = some ([{ dg with ts := whole.ts, fragmented := false }],0)) ∧
      InsertsAt D.key before (lead ++ first :: mid) last post dg := by
  obtain ⟨dg,hdg⟩ := parseUdp_some first.ts (.v4 D.src) (.v4 D.dst) Fragmented.eight_le_length true
  obtain ⟨hts,-,-,hmark⟩ := parseUdp_fields hdg
  refine ⟨dg,hdg,hts,hmark,fun whole ident hw => datagrams_whole hw hdg,?_⟩
  obtain ⟨st,hst⟩ := run_total {} before
  have hbeside : Beside D.key [] st st := ⟨hidle st hst,fun _ _ => rfl,rfl⟩
  have hquiet (pre : List Frame) (hpre : pre <+: lead ++ first :: mid) :
      ¬Complete ([] ++ arrivals D.key pre) := h.quiet hpre
  obtain ⟨t,t',out,ht,ht',hb,hout,hout'⟩ := hbeside.run (lead ++ first :: mid) hquiet
  obtain ⟨g,hg,hc,-⟩ := h.ends
  obtain ⟨honly,hall,a,as,has⟩ := h.arrived hg hc
  rw [List.nil_append] at hb
  obtain ⟨u,new,hu,hbu,hnew,hemit⟩ := hb.fragment_step (hc.fragment_of hg)
  rw [hold,if_pos (honly.complete_iff.mpr hall)] at hbu
  obtain rfl : new = [dg] := by
    rcases hemit with ⟨hnot,-⟩|⟨buf,dg',rfl,hn,hshows,hparse⟩
    · exact absurd (honly.complete_iff.mpr hall) hnot
    · rw [honly.eq_data hn hshows,has,List.cons_append,entryOf_ts] at hparse
      have heq : some dg' = some (some dg) := hparse.symm.trans hdg
      cases heq
      rfl
  have hover (pre : List Frame) (hpre : pre <+: post) : ¬Complete ([] ++ arrivals D.key pre) := by
    rw [arrivals_apart fun f hf => h.after f (hpre.mem hf)]
    exact not_complete_nil
  obtain ⟨v,v',rest,hv,hv',hbv,hrest,hrest'⟩ := hbu.run post hover
  rw [without_apart h.after] at hv'
  have hlast := run_one hu
  refine ⟨t.out,rest,t.skipped,v.skipped,?_,?_,?_,?_,?_⟩
  · exact datagrams_eq (run_append hst ht)
  · rw [datagrams_eq (run_append (run_append hst ht) hlast),hnew,hbu.skipped,← hb.skipped]
  · rw [datagrams_eq (run_append (run_append (run_append hst ht) hlast) hv),hrest,hnew]
    simp
  · rw [datagrams_eq (run_append hst ht'),hout',← hout,hb.skipped]
  · rw [datagrams_eq (run_append (run_append hst ht') hv'),hrest',hout',← hout,hbv.skipped]

/-- Eleven bytes of UDP in two fragments. -/
def twoPieces : Fragmented where
  src := (192,168,43,1)
  dst := (192,168,43,2)
  ident := 7
  pieces := [[78,149,78,149,0,11,0,0],[1,2,3]]
  many := by decide
  nonempty := by decide
  aligned := by decide

def plainHeader : Ipv4Header := ⟨0,64,0,false,false,[],rfl,by decide⟩

def rawFrame (ts : UInt64) (key : Key) (g : Fragment) : Frame :=
  ⟨⟨ts⟩,LINKTYPE_RAW,plainHeader.packet key g⟩

theorem carries_rawFrame (ts : UInt64) (key : Key) {g : Fragment} (hg : plainHeader.Fits g) :
    Carries (rawFrame ts key g) key g :=
  ⟨plainHeader,[],hg,by rw [List.append_nil]; rfl⟩

def frontPiece : Fragment := ⟨0,true,[78,149,78,149,0,11,0,0]⟩
def backPiece : Fragment := ⟨8,false,[1,2,3]⟩

/-- The back comes first, twice, and the front behind it. -/
theorem datagrams_reassembles_swapped :
    ∃ dg, dg.ts = ⟨1⟩ ∧ InsertsAt twoPieces.key [] ([] ++ rawFrame 1 twoPieces.key backPiece ::
      [rawFrame 2 twoPieces.key backPiece]) (rawFrame 3 twoPieces.key frontPiece) [] dg := by
  have hfront : frontPiece ∈ twoPieces.fragments := by decide
  have hback : backPiece ∈ twoPieces.fragments := by decide
  have hcfront : Carries (rawFrame 3 twoPieces.key frontPiece) twoPieces.key frontPiece :=
    carries_rawFrame 3 _ ⟨by decide,by decide,by decide⟩
  have hcback (ts : UInt64) : Carries (rawFrame ts twoPieces.key backPiece) twoPieces.key backPiece :=
    carries_rawFrame ts _ ⟨by decide,by decide,by decide⟩
  have hnot (ts : UInt64) : ¬Carries (rawFrame ts twoPieces.key backPiece) twoPieces.key frontPiece := by
    intro hc
    have heq : some (twoPieces.key,frontPiece) = some (twoPieces.key,backPiece) := by
      rw [← hc.fragment_of hfront,(hcback ts).fragment_of hback]
    simp [frontPiece,backPiece] at heq
  have hall : ∀ g ∈ twoPieces.fragments, g = frontPiece ∨ g = backPiece := by decide
  obtain ⟨dg,-,hts,-,-,hinserts⟩ := datagrams_reassembles twoPieces [] []
    [rawFrame 2 twoPieces.key backPiece] [] (rawFrame 1 twoPieces.key backPiece)
    (rawFrame 3 twoPieces.key frontPiece) (fun st hst => by cases hst; rfl)
    { before := by simp
      begins := ⟨backPiece,hback,hcback 1⟩
      between := by
        intro f hf
        rw [List.mem_singleton.mp hf]
        exact .inr ⟨backPiece,hback,hcback 2⟩
      ends := by
        refine ⟨frontPiece,hfront,hcfront,fun f hf => ?_⟩
        rcases List.mem_cons.mp hf with rfl|hf
        · exact hnot 1
        · rw [List.mem_singleton.mp hf]
          exact hnot 2
      all := by
        intro g hg
        rcases hall g hg with rfl|rfl
        · exact ⟨_,by simp,hcfront⟩
        · exact ⟨_,List.mem_cons_self,hcback 1⟩
      after := by simp }
  exact ⟨dg,hts,hinserts⟩

end Delivery

end Capture
end Robocol
