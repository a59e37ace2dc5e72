import Robocol.Reassembly

/-! One key, used for two datagrams after another. Nothing ever drops what an incomplete
datagram left pending, so the fragments of the next one come on top of it. -/
namespace Robocol
namespace Capture

open Overlays

section Holds

variable {key : Key} {D : Fragmented} {as bs : List Arrival} {a : Arrival} {st st' : Decoding} {f : Frame}

/-- The fragments that are still pending for the key after `fs`. -/
def leftover (key : Key) (fs : List Frame) : List Arrival := (arrivals key fs).foldl hold []

theorem foldl_hold_quiet (hq : ∀ pre, pre <+: bs → ¬Complete (as ++ pre)) :
    bs.foldl hold as = as ++ bs := by
  induction bs generalizing as with
  | nil => simp
  | cons b bs ih =>
    have hb : ¬Complete (as ++ [b]) := hq [b] (by simp)
    rw [List.foldl_cons,hold,if_neg hb,ih fun pre hpre => ?_]
    · simp
    · have hcons := hq (b :: pre) (List.cons_prefix_cons.mpr ⟨rfl,hpre⟩)
      simpa using hcons

theorem OnlyOf.snoc (h : OnlyOf D as) (ha : a.2 ∈ D.fragments) : OnlyOf D (as ++ [a]) := by
  intro b hb
  rcases List.mem_append.mp hb with hb|hb
  · exact h b hb
  · rw [List.mem_singleton.mp hb]
    exact ha

theorem OnlyOf.foldl_hold (h : OnlyOf D as) (h' : OnlyOf D bs) : OnlyOf D (bs.foldl hold as) := by
  induction bs generalizing as with
  | nil => exact h
  | cons b bs ih =>
    refine ih ?_ fun c hc => h' c (List.mem_cons_of_mem b hc)
    by_cases hc : Complete (as ++ [b])
    · rw [hold,if_pos hc]
      intro c hc'
      cases hc'
    · rw [hold,if_neg hc]
      exact h.snoc (h' b List.mem_cons_self)

theorem without_append (key : Key) (fs gs : List Frame) :
    without key (fs ++ gs) = without key fs ++ without key gs := List.filter_append ..

theorem Beside.run_holds (h : Beside key as st st') (fs : List Frame) :
    ∃ t t', fs.foldlM handleFrame st = some t ∧ (without key fs).foldlM handleFrame st' = some t' ∧
      Beside key ((arrivals key fs).foldl hold as) t t' := by
  induction fs generalizing as st st' with
  | nil => exact ⟨st,st',rfl,rfl,h⟩
  | cons f fs ih =>
    rw [← List.singleton_append,arrivals_append,without_append,List.foldl_append]
    rcases apart_or_fragment key f with hf|⟨g,hf⟩
    · obtain ⟨u,u',-,hu,hu',hb,-,-⟩ := h.apart_step hf
      have hone : ∀ e ∈ [f], Apart key e := by simpa using hf
      rw [arrivals_apart hone,without_apart hone]
      obtain ⟨t,t',ht,ht',hb'⟩ := ih hb
      exact ⟨t,t',run_append (run_one hu) ht,run_append (run_one hu') ht',hb'⟩
    · obtain ⟨u,-,hu,hb,-,-⟩ := h.fragment_step hf
      obtain ⟨t,t',ht,ht',hb'⟩ := ih hb
      have hnone : without key [f] = [] := List.filter_cons_of_neg (by simpa using not_apart hf)
      rw [arrivals_one hf,hnone]
      exact ⟨t,t',run_append (run_one hu) ht,ht',hb'⟩

/-- What `f` gives behind `fs`. -/
def pushed (fs : List Frame) (f : Frame) : Option (List Datagram) := do
  let (out,_) ← datagrams fs
  let (out',_) ← datagrams (fs ++ [f])
  return out'.drop out.length

theorem pushed_eq {fs : List Frame} {t u : Decoding} {dgs : List Datagram}
    (ht : fs.foldlM handleFrame {} = some t) (hu : handleFrame t f = some u)
    (hout : u.out = t.out ++ dgs) : pushed fs f = some dgs := by
  rw [pushed,datagrams_eq ht,datagrams_eq (run_append ht (run_one hu))]
  simp only [Option.bind_eq_bind,Option.bind_some,hout,List.drop_left]
  rfl

theorem prefix_snoc_append {α : Type} {p xs ys : List α} {x : α} (h : p ++ [x] <+: xs ++ ys) :
    p ++ [x] <+: xs ∨ ∃ q, p = xs ++ q ∧ q ++ [x] <+: ys := by
  rcases List.prefix_or_prefix_of_prefix h (List.prefix_append xs ys) with hle|hle
  · exact .inl hle
  · rcases List.prefix_concat_iff.mp hle with rfl|⟨q,rfl⟩
    · exact .inl (List.prefix_refl _)
    · rw [List.append_assoc,List.prefix_append_right_inj] at h
      exact .inr ⟨q,rfl,h⟩

/-- What `D` gives, whenever it is taken to have come in. -/
def Own (D : Fragmented) (dg : Datagram) : Prop :=
  ∃ ts, parseUdp ts (.v4 D.src) (.v4 D.dst) D.data true = some (some dg)

theorem Beside.silent {g : Fragment} (h : Beside key as st st') (hf : f.fragment = some (key,g))
    (hc : ¬Complete (as ++ [(f.ts,g)])) : ∃ u, handleFrame st f = some u ∧ u.out = st.out ++ [] := by
  obtain ⟨u,dgs,hu,-,hout,⟨-,rfl⟩|⟨buf,-,-,hn,hshows,-⟩⟩ := h.fragment_step hf
  · exact ⟨u,hu,hout⟩
  · exact absurd ⟨_,hn,hshows.covered⟩ hc

theorem Beside.complete {g : Fragment} (h : Beside key as st st') (hkey : D.key = key)
    (hf : f.fragment = some (key,g)) (hn : announced (as ++ [(f.ts,g)]) = some D.data.length)
    (hshows : Shows (chunks (as ++ [(f.ts,g)])) D.data) :
    ∃ u dg, handleFrame st f = some u ∧ Own D dg ∧ u.out = st.out ++ [dg] := by
  subst hkey
  obtain ⟨u,dgs,hu,-,hout,⟨hc,-⟩|⟨buf,r,rfl,hn',hshows',hparse⟩⟩ := h.fragment_step hf
  · exact absurd ⟨_,hn,hshows.covered⟩ hc
  · have hlen : some buf.length = some D.data.length := hn'.symm.trans hn
    obtain rfl := hshows'.unique hshows (Option.some.inj hlen)
    obtain ⟨dg,hdg⟩ := parseUdp_some (entryOf (as ++ [(f.ts,g)])).ts (.v4 D.src) (.v4 D.dst)
      Fragmented.eight_le_length true
    obtain rfl : r = some dg := Option.some.inj (hparse.symm.trans hdg)
    exact ⟨u,dg,hu,⟨_,hdg⟩,hout⟩

theorem Beside.own {g : Fragment} (h : Beside key as st st') (hkey : D.key = key)
    (hf : f.fragment = some (key,g)) (honly : OnlyOf D (as ++ [(f.ts,g)])) :
    ∃ u dgs, handleFrame st f = some u ∧ u.out = st.out ++ dgs ∧
      (dgs = [] ∨ ∃ dg, Own D dg ∧ dgs = [dg]) := by
  by_cases hc : Complete (as ++ [(f.ts,g)])
  · have hall := honly.complete_iff.mp hc
    obtain ⟨u,dg,hu,hown,hout⟩ := h.complete hkey hf (hall.announced honly) (hall.shows honly)
    exact ⟨u,[dg],hu,hout,.inr ⟨dg,hown,rfl⟩⟩
  · obtain ⟨u,hu,hout⟩ := h.silent hf hc
    exact ⟨u,[],hu,hout,.inl rfl⟩

end Holds

section Reuse

variable {D₁ D₂ : Fragmented} {before old pre post fs : List Frame} {last f : Frame}

/-- Fragments of `D₁`, perhaps not all of them, and behind them those of `D₂` under the same key:
`last` brings the last one that was missing of `D₂`. -/
structure Reuse (D₁ D₂ : Fragmented) (old pre : List Frame) (last : Frame) (post : List Frame) : Prop where
  same : D₁.key = D₂.key
  first : ∀ f ∈ old, Apart D₁.key f ∨ ∃ g ∈ D₁.fragments, Carries f D₁.key g
  second : ∀ f ∈ pre, Apart D₂.key f ∨ ∃ g ∈ D₂.fragments, Carries f D₂.key g
  ends : ∃ g ∈ D₂.fragments, Carries last D₂.key g ∧ ∀ f ∈ pre, ¬Carries f D₂.key g
  all : ∀ g ∈ D₂.fragments, ∃ f ∈ pre ++ [last], Carries f D₂.key g
  after : ∀ f ∈ post, Apart D₂.key f ∨ ∃ g ∈ D₂.fragments, Carries f D₂.key g

/-- `last` gives `D₂`, every other fragment gives nothing or one of the two datagrams as it was
sent, and the frames besides give what they give without the fragments. -/
structure KeepsApart (D₁ D₂ : Fragmented) (before old pre : List Frame) (last : Frame)
    (post : List Frame) : Prop where
  whole : ∃ dg, Own D₂ dg ∧ pushed (before ++ (old ++ pre)) last = some [dg]
  own : ∀ p f, p ++ [f] <+: old ++ (pre ++ last :: post) → ¬Apart D₂.key f →
    pushed (before ++ p) f = some [] ∨
      ∃ dg, (Own D₁ dg ∨ Own D₂ dg) ∧ pushed (before ++ p) f = some [dg]
  others : ∀ p f, p ++ [f] <+: old ++ (pre ++ last :: post) → Apart D₂.key f →
    pushed (before ++ p) f = pushed (before ++ without D₂.key p) f

/-- The frames `p` behind an idle start, with the fragments and without them. -/
theorem idle_runs {key : Key} (hidle : Idle key before) (p : List Frame) :
    ∃ t t', (before ++ p).foldlM handleFrame {} = some t ∧
      (before ++ without key p).foldlM handleFrame {} = some t' ∧ Beside key (leftover key p) t t' := by
  obtain ⟨st,hst⟩ := run_total {} before
  have hbeside : Beside key [] st st := ⟨hidle st hst,fun _ _ => rfl,rfl⟩
  obtain ⟨t,t',ht,ht',hb⟩ := hbeside.run_holds p
  exact ⟨t,t',run_append hst ht,run_append hst ht',hb⟩

theorem others_pushed {key : Key} (hidle : Idle key before) (p : List Frame) (hf : Apart key f) :
    pushed (before ++ p) f = pushed (before ++ without key p) f := by
  obtain ⟨t,t',ht,ht',hb⟩ := idle_runs hidle p
  obtain ⟨u,u',dgs,hu,hu',-,hout,hout'⟩ := hb.apart_step hf
  rw [pushed_eq ht hu hout,pushed_eq ht' hu' hout']

/-- Where only fragments of `D` are pending, a fragment of `D` gives nothing or `D`. -/
theorem own_pushed {D : Fragmented} {g : Fragment} (hidle : Idle D.key before) {p : List Frame}
    (honly : OnlyOf D (leftover D.key p)) (hf : f.fragment = some (D.key,g)) (hg : g ∈ D.fragments) :
    pushed (before ++ p) f = some [] ∨ ∃ dg, Own D dg ∧ pushed (before ++ p) f = some [dg] := by
  obtain ⟨t,t',ht,-,hb⟩ := idle_runs hidle p
  obtain ⟨u,dgs,hu,hout,rfl|⟨dg,hown,rfl⟩⟩ := hb.own rfl hf (honly.snoc hg)
  · exact .inl (pushed_eq ht hu hout)
  · exact .inr ⟨dg,hown,pushed_eq ht hu hout⟩

theorem arrivals_le (key : Key) {q : List Frame} (h : q <+: fs) :
    arrivals key q <+: arrivals key fs := h.filterMap _

theorem leftover_append (key : Key) (fs gs : List Frame) :
    leftover key (fs ++ gs) = (arrivals key gs).foldl hold (leftover key fs) := by
  rw [leftover,arrivals_append,List.foldl_append,leftover]

/-- Before `D₂` is there, the fragments of it come on top of what was left. -/
theorem leftover_quiet {key : Key}
    (hleft : ∀ as, as <+: arrivals key pre → ¬Complete (leftover key old ++ as)) {q : List Frame}
    (hq : q <+: pre) : leftover key (old ++ q) = leftover key old ++ arrivals key q := by
  rw [leftover_append,foldl_hold_quiet fun as has => hleft as (has.trans (arrivals_le key hq))]

theorem Reuse.arrived (h : Reuse D₁ D₂ old pre last post) {g : Fragment} (hg : g ∈ D₂.fragments)
    (hc : Carries last D₂.key g) :
    OnlyOf D₂ (arrivals D₂.key pre ++ [(last.ts,g)]) ∧
      AllOf D₂ (arrivals D₂.key pre ++ [(last.ts,g)]) := by
  refine ⟨(onlyOf_arrivals h.second).snoc hg,?_⟩
  rw [← arrivals_one (hc.fragment_of hg),← arrivals_append]
  exact allOf_arrivals h.all

/-- On top of whatever is left, the fragments of `D₂` show `D₂`. -/
theorem Reuse.on_top (h : Reuse D₁ D₂ old pre last post) (as : List Arrival) {g : Fragment}
    (hg : g ∈ D₂.fragments) (hc : Carries last D₂.key g) :
    announced (as ++ arrivals D₂.key pre ++ [(last.ts,g)]) = some D₂.data.length ∧
      Shows (chunks (as ++ arrivals D₂.key pre ++ [(last.ts,g)])) D₂.data := by
  obtain ⟨honly,hall⟩ := h.arrived hg hc
  rw [List.append_assoc,announced_append,hall.announced honly,Option.some_or]
  refine ⟨rfl,?_⟩
  rw [chunks,List.map_append]
  exact (hall.shows honly).over _

theorem Reuse.leftover_after (h : Reuse D₁ D₂ old pre last post)
    (hleft : ∀ as, as <+: arrivals D₂.key pre → ¬Complete (leftover D₂.key old ++ as))
    {q : List Frame} (hq : q <+: post) : OnlyOf D₂ (leftover D₂.key (old ++ (pre ++ (last :: q)))) := by
  obtain ⟨g,hg,hc,-⟩ := h.ends
  obtain ⟨hn,hshows⟩ := h.on_top (leftover D₂.key old) hg hc
  have hsplit : old ++ (pre ++ (last :: q)) = old ++ pre ++ ([last] ++ q) := by simp
  rw [hsplit,leftover_append,leftover_quiet hleft (List.prefix_refl _),arrivals_append,
    arrivals_one (hc.fragment_of hg),List.foldl_append,List.foldl_cons,List.foldl_nil,hold,
    if_pos ⟨_,hn,hshows.covered⟩]
  refine OnlyOf.foldl_hold (fun a ha => by cases ha) (onlyOf_arrivals fun f hf => ?_)
  exact h.after f (hq.mem hf)

theorem Reuse.old_pushed (h : Reuse D₁ D₂ old pre last post) (hidle : Idle D₂.key before) {p : List Frame}
    (hp : p ++ [f] <+: old) (hf : ¬Apart D₂.key f) :
    pushed (before ++ p) f = some [] ∨ ∃ dg, Own D₁ dg ∧ pushed (before ++ p) f = some [dg] := by
  have hmem : f ∈ old := hp.mem (by simp)
  rw [← h.same] at hf hidle
  obtain ⟨g,hg,hc⟩ := (h.first f hmem).resolve_left hf
  have honly : OnlyOf D₁ (leftover D₁.key p) :=
    OnlyOf.foldl_hold (fun a ha => by cases ha)
      (onlyOf_arrivals fun e he => h.first e (hp.mem (List.mem_append_left _ he)))
  exact own_pushed hidle honly (hc.fragment_of hg) hg

/-- As long as `D₂` is not there, nothing comes of its fragments. -/
theorem Reuse.pre_pushed (h : Reuse D₁ D₂ old pre last post) (hidle : Idle D₂.key before)
    (hleft : ∀ as, as <+: arrivals D₂.key pre → ¬Complete (leftover D₂.key old ++ as)) {p : List Frame}
    (hp : p ++ [f] <+: pre) (hf : ¬Apart D₂.key f) : pushed (before ++ (old ++ p)) f = some [] := by
  obtain ⟨g,hg,hc⟩ := (h.second f (hp.mem (by simp))).resolve_left hf
  have hq : p <+: pre := (List.prefix_append p [f]).trans hp
  obtain ⟨t,t',ht,-,hb⟩ := idle_runs hidle (old ++ p)
  rw [leftover_quiet hleft hq] at hb
  have hnot : ¬Complete (leftover D₂.key old ++ arrivals D₂.key p ++ [(f.ts,g)]) := by
    have hnext := hleft _ (arrivals_le D₂.key hp)
    rwa [arrivals_append,arrivals_one (hc.fragment_of hg),← List.append_assoc] at hnext
  obtain ⟨u,hu,hout⟩ := hb.silent (hc.fragment_of hg) hnot
  exact pushed_eq ht hu hout

theorem Reuse.post_pushed (h : Reuse D₁ D₂ old pre last post) (hidle : Idle D₂.key before)
    (hleft : ∀ as, as <+: arrivals D₂.key pre → ¬Complete (leftover D₂.key old ++ as)) {p : List Frame}
    (hp : p ++ [f] <+: post) (hf : ¬Apart D₂.key f) :
    pushed (before ++ (old ++ (pre ++ last :: p))) f = some [] ∨
      ∃ dg, Own D₂ dg ∧ pushed (before ++ (old ++ (pre ++ last :: p))) f = some [dg] := by
  obtain ⟨g,hg,hc⟩ := (h.after f (hp.mem (by simp))).resolve_left hf
  have honly := h.leftover_after hleft ((List.prefix_append p [f]).trans hp)
  exact own_pushed hidle honly (hc.fragment_of hg) hg

theorem datagrams_keepsApart (D₁ D₂ : Fragmented) (before old pre post : List Frame) (last : Frame)
    (hidle : Idle D₂.key before) (h : Reuse D₁ D₂ old pre last post)
    (hleft : ∀ as, as <+: arrivals D₂.key pre → ¬Complete (leftover D₂.key old ++ as)) :
    KeepsApart D₁ D₂ before old pre last post := by
  obtain ⟨g,hg,hc,-⟩ := h.ends
  have hwhole : ∃ dg, Own D₂ dg ∧ pushed (before ++ (old ++ pre)) last = some [dg] := by
    obtain ⟨t,t',ht,-,hb⟩ := idle_runs hidle (old ++ pre)
    rw [leftover_quiet hleft (List.prefix_refl _)] at hb
    obtain ⟨hn,hshows⟩ := h.on_top (leftover D₂.key old) hg hc
    obtain ⟨u,dg,hu,hown,hout⟩ := hb.complete rfl (hc.fragment_of hg) hn hshows
    exact ⟨dg,hown,pushed_eq ht hu hout⟩
  refine ⟨hwhole,fun p f hcut hf => ?_,fun p f _ hf => others_pushed hidle p hf⟩
  rcases prefix_snoc_append hcut with hp|⟨p,rfl,hrest⟩
  · exact (h.old_pushed hidle hp hf).imp_right (Exists.imp fun _ hdg => ⟨.inl hdg.1,hdg.2⟩)
  rcases prefix_snoc_append hrest with hp|⟨p,rfl,hp⟩
  · exact .inl (h.pre_pushed hidle hleft hp hf)
  · cases p with
    | nil =>
      obtain rfl : f = last := (List.cons_prefix_cons.mp hp).1
      obtain ⟨dg,hown,hdg⟩ := hwhole
      exact .inr ⟨dg,.inr hown,by simpa using hdg⟩
    | cons e p =>
      obtain ⟨rfl,hq⟩ := List.cons_prefix_cons.mp hp
      exact (h.post_pushed hidle hleft hq hf).imp_right (Exists.imp fun _ hdg => ⟨.inr hdg.1,hdg.2⟩)

/-- Sixteen times the byte `b`, in two fragments, always under one identification. -/
def sixteen (b : UInt8) : Fragmented where
  src := (192,168,43,1)
  dst := (192,168,43,2)
  ident := 7
  pieces := [[78,149,78,149,0,24,0,0] ++ List.replicate 8 b,List.replicate 8 b]
  many := by simp
  nonempty := by simp
  aligned := by simp

def sixteenFront (b : UInt8) : Fragment := ⟨0,true,[78,149,78,149,0,24,0,0] ++ List.replicate 8 b⟩
def sixteenBack (b : UInt8) : Fragment := ⟨16,false,List.replicate 8 b⟩

def frontFrame (b : UInt8) : Frame := rawFrame b.toUInt64 (sixteen b).key (sixteenFront b)
def backFrame (b : UInt8) : Frame := rawFrame b.toUInt64 (sixteen b).key (sixteenBack b)

theorem carries_front (b : UInt8) : Carries (frontFrame b) (sixteen b).key (sixteenFront b) :=
  carries_rawFrame _ _ ⟨by simp [sixteenFront,Ipv4Header.length,plainHeader],by simp [sixteenFront],
    by simp [sixteenFront]⟩

theorem carries_back (b : UInt8) : Carries (backFrame b) (sixteen b).key (sixteenBack b) :=
  carries_rawFrame _ _ ⟨by simp [sixteenBack,Ipv4Header.length,plainHeader],by simp [sixteenBack],
    by simp [sixteenBack]⟩

theorem sixteen_fragments (b : UInt8) : (sixteen b).fragments = [sixteenFront b,sixteenBack b] := by
  simp [Fragmented.fragments,sixteen,fragmentsFrom,sixteenFront,sixteenBack]

theorem front_ne_back (b : UInt8) : sixteenFront b ≠ sixteenBack b := by
  simp [sixteenFront,sixteenBack]

/-- The front of the first datagram, and behind it the two fragments of the second one. -/
theorem reuse_sixteen {x y : Frame} {g g' : Fragment} (hx : Carries x (sixteen 2).key g)
    (hy : Carries y (sixteen 2).key g') (hne : g ≠ g') (hall : (sixteen 2).fragments.Perm [g,g']) :
    Reuse (sixteen 1) (sixteen 2) [frontFrame 1] [x] y [] where
  same := rfl
  first f hf := by
    rw [List.mem_singleton.mp hf]
    exact .inr ⟨sixteenFront 1,by simp [sixteen_fragments],carries_front 1⟩
  second f hf := by
    rw [List.mem_singleton.mp hf]
    exact .inr ⟨g,hall.mem_iff.mpr (by simp),hx⟩
  ends := by
    refine ⟨g',hall.mem_iff.mpr (by simp),hy,fun f hf hc => hne ?_⟩
    rw [List.mem_singleton.mp hf] at hc
    have heq : some ((sixteen 2).key,g) = some ((sixteen 2).key,g') := by
      rw [← hx.fragment_of (hall.mem_iff.mpr (by simp)),hc.fragment_of (hall.mem_iff.mpr (by simp))]
    simpa using heq
  all := by
    intro h hh
    rcases List.mem_pair.mp (hall.mem_iff.mp hh) with rfl|rfl
    · exact ⟨x,by simp,hx⟩
    · exact ⟨y,by simp,hy⟩
  after := by simp

theorem idle_nil (key : Key) : Idle key [] := by
  intro st hst
  cases hst
  rfl

theorem datagrams_keepsApart_in_order :
    KeepsApart (sixteen 1) (sixteen 2) [] [frontFrame 1] [frontFrame 2] (backFrame 2) [] := by
  refine datagrams_keepsApart (sixteen 1) (sixteen 2) [] [frontFrame 1] [frontFrame 2] []
    (backFrame 2) (idle_nil _) (reuse_sixteen (carries_front 2) (carries_back 2) (front_ne_back 2)
      (by rw [sixteen_fragments])) fun as has => ?_
  have hcases : as = [] ∨ as = arrivals (sixteen 2).key [frontFrame 2] := by
    have hone : arrivals (sixteen 2).key [frontFrame 2] = [(⟨2⟩,sixteenFront 2)] := by decide
    rw [hone] at has ⊢
    rcases List.prefix_cons_iff.mp has with hnil|⟨bs,rfl,hbs⟩
    · exact .inl hnil
    · exact .inr (by rw [List.prefix_nil.mp hbs])
  rcases hcases with rfl|rfl <;> decide

/-- The back of the second datagram completes the front of the first one. -/
theorem datagrams_mixes : Reuse (sixteen 1) (sixteen 2) [frontFrame 1] [backFrame 2] (frontFrame 2) [] ∧
    datagrams [frontFrame 1,backFrame 2,frontFrame 2] =
      some ([⟨⟨1⟩,.v4 (192,168,43,1),.v4 (192,168,43,2),20117,20117,
        List.replicate 8 1 ++ List.replicate 8 2,true⟩],0) ∧
    ¬KeepsApart (sixteen 1) (sixteen 2) [] [frontFrame 1] [backFrame 2] (frontFrame 2) [] := by
  refine ⟨reuse_sixteen (carries_back 2) (carries_front 2) (front_ne_back 2).symm
    (by rw [sixteen_fragments]; exact List.Perm.swap ..),by decide,fun h => ?_⟩
  obtain ⟨dg,-,hdg⟩ := h.whole
  have hnone : pushed ([] ++ ([frontFrame 1] ++ [backFrame 2])) (frontFrame 2) = some [] := by decide
  rw [hnone] at hdg
  simp at hdg

end Reuse

end Capture
end Robocol
