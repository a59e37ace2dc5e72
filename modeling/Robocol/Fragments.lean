import Mathlib.Data.List.Induction
import Robocol.Datagrams
import Robocol.Overlays
import Robocol.Pieces

/-! What a reassembly holds: the fragments that came in for its key since it was last complete.
Frames of other keys neither see nor change it. -/
namespace Robocol
namespace Capture

open ByteLayout Overlays Pieces

section Fill

variable {total : ℕ} {cs : List (ℕ × List UInt8)} {b : List UInt8 × List Bool}

/-- A buffer and its mask, after the chunks `cs`. -/
structure Laid (total : ℕ) (cs : List (ℕ × List UInt8)) (b : List UInt8 × List Bool) : Prop where
  length : b.1.length = total
  masked : b.2.length = total
  shown : ∀ q < total, ∀ x, seen cs q = some x → b.1[q]? = some x
  marked : ∀ q < total, b.2[q]? = some (seen cs q).isSome

theorem laid_blank (total : ℕ) :
    Laid total [] (List.replicate total 0,List.replicate total false) where
  length := List.length_replicate
  masked := List.length_replicate
  shown := by simp
  marked q hq := by simp [hq]

theorem seen_snoc (c : ℕ × List UInt8) (q : ℕ) :
    seen (cs ++ [c]) q = (showsAt c q).or (seen cs q) := by
  rw [seen_append,seen_singleton]

/-- A chunk behind the end is left out. -/
theorem Laid.beyond (h : Laid total cs b) {c : ℕ × List UInt8} (hc : total ≤ c.1) :
    Laid total (cs ++ [c]) b := by
  have hsame (q : ℕ) (hq : q < total) : seen (cs ++ [c]) q = seen cs q := by
    rw [seen_snoc,showsAt,if_neg (by omega),Option.none_or]
  exact ⟨h.length,h.masked,fun q hq x hx => h.shown q hq x (hsame q hq ▸ hx),
    fun q hq => hsame q hq ▸ h.marked q hq⟩

theorem Laid.write (h : Laid total cs b) {off : ℕ} {chunk buf' : List UInt8} {filled' : List Bool}
    (hbuf : write b.1 off (chunk.take (total-off)) = some buf')
    (hfilled : write b.2 off (List.replicate (chunk.take (total-off)).length true) = some filled') :
    Laid total (cs ++ [(off,chunk)]) (buf',filled') where
  length := (write_length hbuf).trans h.length
  masked := (write_length hfilled).trans h.masked
  shown q hq x hx := by
    rw [write_showsAt hbuf,showsAt_take off chunk hq]
    rw [seen_snoc,Option.or_eq_some_iff] at hx
    rcases hx with hx|⟨hnone,hx⟩
    · rw [hx,Option.some_or]
    · rw [hnone,Option.none_or,h.shown q hq x hx]
  marked q hq := by
    rw [write_showsAt hfilled,showsAt_replicate,showsAt_take off chunk hq,h.marked q hq,seen_snoc]
    cases showsAt (off,chunk) q <;> rfl

theorem Laid.round (h : Laid total cs b) (c : ℕ × List UInt8) :
    ∃ b', fillRound total b c = some b' ∧ Laid total (cs ++ [c]) b' := by
  obtain ⟨buf,filled⟩ := b
  obtain ⟨off,chunk⟩ := c
  by_cases hoff : total ≤ off
  · exact ⟨_,if_pos hoff,h.beyond hoff⟩
  have hlen : buf.length = total := h.length
  have hmask : filled.length = total := h.masked
  have hsize : min (off+chunk.length) total-off = (chunk.take (total-off)).length := by simp; omega
  have hfront : slice chunk 0 (chunk.take (total-off)).length = some (chunk.take (total-off)) := by
    rw [slice_eq (Nat.zero_le _) (by simp),List.length_take,List.drop_zero,← List.take_take]
    simp
  obtain ⟨buf',hbuf⟩ : ∃ buf', ByteLayout.write buf off (chunk.take (total-off)) = some buf' :=
    ⟨_,if_pos (by simp; omega)⟩
  obtain ⟨filled',hfilled⟩ : ∃ filled', ByteLayout.write filled off
      (List.replicate (chunk.take (total-off)).length true) = some filled' :=
    ⟨_,if_pos (by simp; omega)⟩
  refine ⟨(buf',filled'),?_,h.write hbuf hfilled⟩
  simp only [fillRound,if_neg hoff,hsize,hfront,hbuf,hfilled,Option.bind_eq_bind,Option.bind_some]
  rfl

theorem Laid.rounds (h : Laid total cs b) (ds : List (ℕ × List UInt8)) :
    ∃ b', ds.foldlM (fillRound total) b = some b' ∧ Laid total (cs ++ ds) b' := by
  induction ds generalizing cs b with
  | nil => exact ⟨b,rfl,by simpa using h⟩
  | cons d ds ih =>
    obtain ⟨b₁,hb₁,h₁⟩ := h.round d
    obtain ⟨b',hb',h'⟩ := ih h₁
    refine ⟨b',?_,by simpa using h'⟩
    rw [List.foldlM_cons,hb₁]
    exact hb'

theorem Laid.all_iff (h : Laid total cs b) : b.2.all id = true ↔ Covered cs total := by
  rw [List.all_eq_true]
  constructor
  · intro hall q hq
    have hmark := h.marked q hq
    exact (hall _ (List.mem_of_getElem? hmark) : (seen cs q).isSome = true)
  · intro hcov m hm
    obtain ⟨q,hq⟩ := List.mem_iff_getElem?.mp hm
    obtain ⟨hlt,-⟩ := List.getElem?_eq_some_iff.mp hq
    have hmark := h.marked q (h.masked ▸ hlt)
    rw [hq,hcov q (h.masked ▸ hlt)] at hmark
    exact Option.some.inj hmark

theorem Laid.shows (h : Laid total cs b) (hcov : Covered cs total) : Shows cs b.1 := by
  intro q hq
  rw [h.length] at hq
  obtain ⟨x,hx⟩ := Option.isSome_iff_exists.mp (hcov q hq)
  rw [hx,h.shown q hq x hx]

end Fill

section Held

/-- A fragment with the time it came in at. -/
abbrev Arrival := F64 × Fragment

variable {as : List Arrival} {a : Arrival} {n : ℕ}

def Fragment.chunk (g : Fragment) : ℕ × List UInt8 := (g.offset,g.body)

def chunks (as : List Arrival) : List (ℕ × List UInt8) := as.map fun a => a.2.chunk

/-- The length that the last fragment without more behind it gives. -/
def announced : List Arrival → Option ℕ
  | [] => none
  | a :: as => (announced as).or (if a.2.more then none else some (a.2.offset+a.2.body.length))

/-- The fragments reach every position of the announced length. -/
def Complete (as : List Arrival) : Prop := ∃ n ∈ announced as, Covered (chunks as) n

instance (as : List Arrival) : Decidable (Complete as) :=
  inferInstanceAs (Decidable (∃ n ∈ announced as, Covered (chunks as) n))

/-- What is left when `a` is in. -/
def hold (as : List Arrival) (a : Arrival) : List Arrival :=
  if Complete (as ++ [a]) then [] else as ++ [a]

/-- The entry that the fragments `as` make. -/
def entryOf (as : List Arrival) : Pending := as.foldl (fun entry a => entry.add a.1 a.2) {}

def held (as : List Arrival) : Option Pending := if as = [] then none else some (entryOf as)

theorem announced_append (as bs : List Arrival) :
    announced (as ++ bs) = (announced bs).or (announced as) := by
  induction as with
  | nil => simp [announced]
  | cons a as ih => rw [List.cons_append,announced,ih,announced,Option.or_assoc]

theorem entryOf_snoc (as : List Arrival) (a : Arrival) :
    entryOf (as ++ [a]) = (entryOf as).add a.1 a.2 := by
  rw [entryOf,List.foldl_append]
  rfl

theorem entryOf_chunks (as : List Arrival) : (entryOf as).chunks = chunks as := by
  induction as using List.reverseRecOn with
  | nil => rfl
  | append_singleton as a ih => simp [entryOf_snoc,Pending.add,ih,chunks,Fragment.chunk]

theorem entryOf_total (as : List Arrival) : (entryOf as).total = announced as := by
  induction as using List.reverseRecOn with
  | nil => rfl
  | append_singleton as a ih =>
    rw [entryOf_snoc,announced_append]
    cases hmore : a.2.more <;> simp [Pending.add,announced,hmore,ih]

theorem entryOf_ts (a : Arrival) (as : List Arrival) : (entryOf (a :: as)).ts = a.1 := by
  induction as using List.reverseRecOn with
  | nil => rfl
  | append_singleton as b ih =>
    have hsome : (entryOf (a :: as)).chunks.isEmpty = false := by rw [entryOf_chunks]; rfl
    rw [← List.cons_append,entryOf_snoc,Pending.add,hsome]
    exact ih

theorem held_getD (as : List Arrival) : (held as).getD {} = entryOf as := by
  by_cases h : as = []
  · rw [held,if_pos h,h]
    rfl
  · rw [held,if_neg h,Option.getD_some]

@[simp] theorem held_nil : held [] = none := rfl

theorem held_snoc (as : List Arrival) (a : Arrival) : held (as ++ [a]) = some (entryOf (as ++ [a])) :=
  if_neg (by simp)

end Held

section Reassemble

variable {key : Key} {as : List Arrival} {st : Decoding} {ts : F64} {g : Fragment}

/-- The state with `p` pending for `key`. -/
def Decoding.keep (st : Decoding) (key : Key) (p : Option Pending) : Decoding :=
  { st with reasm.pending := Function.update st.reasm.pending key p }

/-- As long as something is missing, the fragment is only kept. -/
theorem reassemble_waits {entry : Pending} (hentry : ((st.reasm.pending key).getD {}).add ts g = entry)
    (h : ∀ n ∈ entry.total, ¬Covered entry.chunks n) :
    reassemble ts key g st = some (st.keep key (some entry)) := by
  rw [reassemble,hentry]
  cases hn : entry.total with
  | none => rfl
  | some n =>
    obtain ⟨b,hb,hlaid⟩ := (laid_blank n).rounds entry.chunks
    have hmask : ¬b.2.all id = true := fun hall => h n hn (hlaid.all_iff.mp hall)
    simp only [hb,Option.bind_eq_bind,Option.bind_some,hmask]
    rfl

/-- The fragment that completes the announced length lets go of what was pending. -/
theorem reassemble_ends {entry : Pending} {n : ℕ} (hn : entry.total = some n)
    (h : Covered entry.chunks n) :
    ∃ buf dg, buf.length = n ∧ Shows entry.chunks buf ∧
      parseUdp entry.ts (.v4 key.1) (.v4 key.2.1) buf true = some dg ∧
      ∀ st : Decoding, ((st.reasm.pending key).getD {}).add ts g = entry →
        reassemble ts key g st = some ((st.keep key none).push dg) := by
  obtain ⟨b,hb,hlaid⟩ := (laid_blank n).rounds entry.chunks
  rw [List.nil_append] at hlaid
  obtain ⟨dg,hdg⟩ := parseUdp_total entry.ts (.v4 key.1) (.v4 key.2.1) b.1 true
  refine ⟨b.1,dg,hlaid.length,hlaid.shows h,hdg,fun st hentry => ?_⟩
  rw [reassemble,hentry,hn]
  simp only [hb,Option.bind_eq_bind,Option.bind_some,hlaid.all_iff.mpr h,if_true,hdg]
  rfl

theorem add_of_held (h : st.reasm.pending key = held as) :
    ((st.reasm.pending key).getD {}).add ts g = entryOf (as ++ [(ts,g)]) := by
  rw [h,held_getD,entryOf_snoc]

theorem reassemble_keeps (h : st.reasm.pending key = held as) (hc : ¬Complete (as ++ [(ts,g)])) :
    reassemble ts key g st = some (st.keep key (held (as ++ [(ts,g)]))) := by
  rw [held_snoc]
  refine reassemble_waits (add_of_held h) fun n hn hcov => hc ⟨n,?_,?_⟩
  · rwa [entryOf_total] at hn
  · rwa [entryOf_chunks] at hcov

theorem reassemble_completes (h : st.reasm.pending key = held as) (hc : Complete (as ++ [(ts,g)])) :
    ∃ buf dg, announced (as ++ [(ts,g)]) = some buf.length ∧ Shows (chunks (as ++ [(ts,g)])) buf ∧
      parseUdp (entryOf (as ++ [(ts,g)])).ts (.v4 key.1) (.v4 key.2.1) buf true = some dg ∧
      reassemble ts key g st = some ((st.keep key none).push dg) := by
  obtain ⟨n,hn,hcov⟩ := hc
  rw [← entryOf_chunks] at hcov
  obtain ⟨buf,dg,rfl,hshows,hdg,hends⟩ :=
    reassemble_ends ((entryOf_total _).trans hn) hcov
  rw [entryOf_chunks] at hshows
  exact ⟨buf,dg,hn,hshows,hdg,hends st (add_of_held h)⟩

/-- What is pending for the key alone decides what a fragment does. -/
theorem reassemble_local (ts : F64) (key : Key) (g : Fragment) (p : Option Pending) :
    ∃ p' dg, ∀ st : Decoding, st.reasm.pending key = p →
      reassemble ts key g st = some ((st.keep key p').push dg) := by
  by_cases h : ∃ n, ((p.getD {}).add ts g).total = some n ∧ Covered ((p.getD {}).add ts g).chunks n
  · obtain ⟨n,hn,hcov⟩ := h
    obtain ⟨-,dg,-,-,-,hends⟩ := reassemble_ends hn hcov
    exact ⟨none,dg,fun st hst => hends st (by rw [hst])⟩
  · refine ⟨some ((p.getD {}).add ts g),none,fun st hst => ?_⟩
    rw [reassemble_waits (by rw [hst]) fun n hn hcov => h ⟨n,hn,hcov⟩]
    simp [Decoding.push]

end Reassemble

section Frames

variable {f : Frame} {key : Key} {g : Fragment} {st st' : Decoding} {as : List Arrival}

/-- The fragment a frame is taken for, and its key. -/
def Frame.fragment (f : Frame) : Option (Key × Fragment) :=
  match stripLink f.linktype f.data with
  | none => none
  | some ip =>
    if ip.head?.map (fun b : UInt8 => b >>> 4) = some 4 then
      (readV4 ip).join.filter fun r => r.2.more || r.2.offset != 0
    else none

/-- The frame is no fragment of the key. -/
def Apart (key : Key) (f : Frame) : Prop := f.fragment.map Prod.fst ≠ some key

instance (key : Key) : DecidablePred (Apart key) := fun f =>
  inferInstanceAs (Decidable (f.fragment.map Prod.fst ≠ some key))

theorem handleFrame_fragment (h : f.fragment = some (key,g)) (st : Decoding) :
    handleFrame st f = reassemble f.ts key g st := by
  rw [Frame.fragment] at h
  cases hip : stripLink f.linktype f.data with
  | none => simp [hip] at h
  | some ip =>
    simp only [hip,Option.ite_none_right_eq_some,Option.filter_eq_some_iff] at h
    obtain ⟨hversion,hread,hg⟩ := h
    obtain ⟨r,hr⟩ := readV4_total ip
    rw [hr,Option.join_some] at hread
    have hnot : (!g.more && g.offset == 0) = false := by
      cases hmore : g.more <;> simp_all
    simp only [handleFrame,hip,hversion,handleV4,hr,hread,Option.bind_eq_bind,Option.bind_some,hnot]
    rfl

theorem handleV4_plain (ts : F64) {ip : List UInt8}
    (h : (readV4 ip).join.filter (fun r => r.2.more || r.2.offset != 0) = none) :
    ∃ dg, ∀ st, handleV4 ts ip st = some (st.push dg) := by
  obtain ⟨r,hr⟩ := readV4_total ip
  rw [hr,Option.join_some] at h
  cases r with
  | none => exact ⟨none,fun st => by simp [handleV4,hr,Decoding.push]⟩
  | some r =>
    obtain ⟨key,g⟩ := r
    have hwhole : (!g.more && g.offset == 0) = true := by
      cases hmore : g.more <;> simp_all
    obtain ⟨dg,hdg⟩ := parseUdp_total ts (.v4 key.1) (.v4 key.2.1) g.body false
    refine ⟨dg,fun st => ?_⟩
    simp only [handleV4,hr,Option.bind_eq_bind,Option.bind_some,hwhole,if_true,hdg]
    rfl

/-- A frame that is no fragment adds what it adds, whatever is pending. -/
theorem handleFrame_plain (h : f.fragment = none) :
    ∃ dg n, ∀ st, handleFrame st f = some { st.push dg with skipped := st.skipped+n } := by
  have skip (hskip : ∀ st, handleFrame st f = some { st with skipped := st.skipped+1 }) :
      ∃ dg n, ∀ st, handleFrame st f = some { st.push dg with skipped := st.skipped+n } :=
    ⟨none,1,fun st => by simp [hskip st,Decoding.push]⟩
  rw [Frame.fragment] at h
  cases hip : stripLink f.linktype f.data with
  | none => exact skip fun st => by simp only [handleFrame,hip]
  | some ip =>
    by_cases h4 : ip.head?.map (fun b : UInt8 => b >>> 4) = some 4
    · simp only [hip,h4,if_true] at h
      obtain ⟨dg,hdg⟩ := handleV4_plain f.ts h
      refine ⟨dg,0,fun st => ?_⟩
      simp only [handleFrame,hip,h4,hdg]
      rfl
    · by_cases h6 : ip.head?.map (fun b : UInt8 => b >>> 4) = some 6
      · obtain ⟨dg,hdg⟩ := handleV6_pushes f.ts ip
        refine ⟨dg,0,fun st => ?_⟩
        simp only [handleFrame,hip,h6,hdg]
        rfl
      · refine skip fun st => ?_
        simp only [handleFrame,hip]

theorem handleFrame_total (st : Decoding) (f : Frame) : ∃ t, handleFrame st f = some t := by
  cases hf : f.fragment with
  | none =>
    obtain ⟨dg,n,hstep⟩ := handleFrame_plain hf
    exact ⟨_,hstep st⟩
  | some r =>
    obtain ⟨p,dg,hstep⟩ := reassemble_local f.ts r.1 r.2 (st.reasm.pending r.1)
    exact ⟨_,(handleFrame_fragment hf st).trans (hstep st rfl)⟩

/-- No capture makes the decoder panic. -/
theorem run_total (st : Decoding) (fs : List Frame) : ∃ t, fs.foldlM handleFrame st = some t := by
  induction fs generalizing st with
  | nil => exact ⟨st,rfl⟩
  | cons f fs ih =>
    obtain ⟨u,hu⟩ := handleFrame_total st f
    obtain ⟨t,ht⟩ := ih u
    exact ⟨t,by rw [List.foldlM_cons,hu]; exact ht⟩

/-- Two decodings, one of them with the fragments `as` of the key, one without any. -/
structure Beside (key : Key) (as : List Arrival) (st st' : Decoding) : Prop where
  held : st.reasm.pending key = held as
  apart : ∀ k, k ≠ key → st.reasm.pending k = st'.reasm.pending k
  skipped : st.skipped = st'.skipped

theorem Beside.apart_step (h : Beside key as st st') (hf : Apart key f) :
    ∃ t t' dgs, handleFrame st f = some t ∧ handleFrame st' f = some t' ∧ Beside key as t t' ∧
      t.out = st.out ++ dgs ∧ t'.out = st'.out ++ dgs := by
  cases hg : f.fragment with
  | none =>
    obtain ⟨dg,n,hstep⟩ := handleFrame_plain hg
    refine ⟨_,_,dg.toList,hstep st,hstep st',⟨h.held,h.apart,?_⟩,rfl,rfl⟩
    simp only [h.skipped]
  | some r =>
    obtain ⟨k,g⟩ := r
    have hk : k ≠ key := by
      rintro rfl
      exact hf (by rw [hg]; rfl)
    obtain ⟨p,dg,hstep⟩ := reassemble_local f.ts k g (st.reasm.pending k)
    refine ⟨_,_,dg.toList,(handleFrame_fragment hg st).trans (hstep st rfl),
      (handleFrame_fragment hg st').trans (hstep st' (h.apart k hk).symm),⟨?_,?_,h.skipped⟩,rfl,rfl⟩
    · exact (Function.update_of_ne hk.symm _ _).trans h.held
    · intro j hj
      by_cases hjk : j = k
      · subst hjk
        simp [Decoding.keep,Decoding.push]
      · simp [Decoding.keep,Decoding.push,hjk,h.apart j hj]

theorem Beside.fragment_step (h : Beside key as st st') (hf : f.fragment = some (key,g)) :
    ∃ t dgs, handleFrame st f = some t ∧ Beside key (hold as (f.ts,g)) t st' ∧ t.out = st.out ++ dgs ∧
      ((¬Complete (as ++ [(f.ts,g)]) ∧ dgs = []) ∨ ∃ buf dg, dgs = dg.toList ∧
        announced (as ++ [(f.ts,g)]) = some buf.length ∧ Shows (chunks (as ++ [(f.ts,g)])) buf ∧
        parseUdp (entryOf (as ++ [(f.ts,g)])).ts (.v4 key.1) (.v4 key.2.1) buf true = some dg) := by
  rw [handleFrame_fragment hf]
  have hother (p : Option Pending) (k : Key) (hk : k ≠ key) :
      (st.keep key p).reasm.pending k = st'.reasm.pending k :=
    (Function.update_of_ne hk _ _).trans (h.apart k hk)
  by_cases hc : Complete (as ++ [(f.ts,g)])
  · obtain ⟨buf,dg,hn,hshows,hdg,hstep⟩ := reassemble_completes h.held hc
    refine ⟨_,dg.toList,hstep,⟨?_,hother none,h.skipped⟩,rfl,.inr ⟨buf,dg,rfl,hn,hshows,hdg⟩⟩
    rw [hold,if_pos hc]
    exact Function.update_self _ _ _
  · refine ⟨_,[],reassemble_keeps h.held hc,⟨?_,hother _,h.skipped⟩,
      (List.append_nil _).symm,.inl ⟨hc,rfl⟩⟩
    rw [hold,if_neg hc]
    exact Function.update_self _ _ _

end Frames

end Capture
end Robocol
