import Mathlib.Data.List.Count
import Mathlib.Data.List.Range
import Robocol.Runs

/-! A queue whose items are sent again and again until they leave it, and its ledger: every item
that entered is in the queue or has left it once, and its sends are bounded, spaced and begun in
order. -/
namespace Robocol
namespace RetryQueue

open Runs Relation

variable {κ ρ : Type}

structure Item (κ : Type) where
  id : ℕ
  payload : κ
  attempts : ℕ
  last : Option ℕ

/-- One more send, at time `t`. -/
def Item.sentAt (p : Item κ) (t : ℕ) : Item κ := { p with attempts := p.attempts+1, last := some t }

inductive Act (κ ρ : Type)
  | enter (id : ℕ) (payload : κ)
  | send (id : ℕ) (payload : κ) (time : ℕ)
  | leave (id : ℕ) (reason : ρ)

/-- `mayLeave payload attempts held reason` allows an item to leave, after so many attempts and
from a queue that holds so many items. -/
structure Policy (κ ρ : Type) where
  capacity : ℕ
  maxAttempts : ℕ
  retry : ℕ
  mayLeave : κ → ℕ → ℕ → ρ → Prop

structure Queue (κ ρ : Type) where
  items : List (Item κ)
  next : ℕ
  now : ℕ
  trace : List (Act κ ρ)

inductive Step (P : Policy κ ρ) : Queue κ ρ → Queue κ ρ → Prop
  | wait (q : Queue κ ρ) (now : ℕ) (h : q.now ≤ now) : Step P q { q with now := now }
  | enter (q : Queue κ ρ) (payload : κ) (h : q.items.length < P.capacity) :
      Step P q { q with
        items := q.items ++ [⟨q.next,payload,0,none⟩]
        next := q.next+1
        trace := q.trace ++ [.enter q.next payload] }
  | leave (q : Queue κ ρ) (before after : List (Item κ)) (p : Item κ) (reason : ρ)
      (hp : q.items = before ++ p :: after)
      (h : P.mayLeave p.payload p.attempts q.items.length reason) :
      Step P q { q with items := before ++ after, trace := q.trace ++ [.leave p.id reason] }
  | send (q : Queue κ ρ) (before after : List (Item κ)) (p : Item κ) (t : ℕ)
      (hp : q.items = before ++ p :: after) (hnow : q.now ≤ t)
      (hattempts : p.attempts < P.maxAttempts) (hdue : ∀ l, p.last = some l → P.retry ≤ t-l)
      (hbefore : ∀ x ∈ before, x.last ≠ none ∨ P.maxAttempts ≤ x.attempts) :
      Step P q { q with
        items := before ++ p.sentAt t :: after
        now := t
        trace := q.trace ++ [.send p.id p.payload t] }

abbrev Steps (P : Policy κ ρ) : Queue κ ρ → Queue κ ρ → Prop := ReflTransGen (Step P)

section Traces

def Act.enter? : Act κ ρ → Option ℕ
  | .enter id _ => some id
  | _ => none

def Act.leave? : Act κ ρ → Option ℕ
  | .leave id _ => some id
  | _ => none

def Act.sendOf (id : ℕ) : Act κ ρ → Option ℕ
  | .send i _ t => if i = id then some t else none
  | _ => none

/-- The ids that entered, those that left, and the times at which one was sent. -/
def entered (trace : List (Act κ ρ)) : List ℕ := trace.filterMap Act.enter?
def left (trace : List (Act κ ρ)) : List ℕ := trace.filterMap Act.leave?
def sends (trace : List (Act κ ρ)) (id : ℕ) : List ℕ := trace.filterMap (Act.sendOf id)

variable (trace : List (Act κ ρ)) (i id t : ℕ) (payload : κ) (reason : ρ)

@[simp] theorem entered_enter : entered (trace ++ [.enter i payload]) = entered trace ++ [i] := by
  simp [entered,Act.enter?]

@[simp] theorem entered_leave : entered (trace ++ [.leave i reason]) = entered trace := by
  simp [entered,Act.enter?]

@[simp] theorem entered_send : entered (trace ++ [.send i payload t]) = entered trace := by
  simp [entered,Act.enter?]

@[simp] theorem left_enter : left (trace ++ [.enter i payload]) = left trace := by
  simp [left,Act.leave?]

@[simp] theorem left_leave : left (trace ++ [.leave i reason]) = left trace ++ [i] := by
  simp [left,Act.leave?]

@[simp] theorem left_send : left (trace ++ [.send i payload t]) = left trace := by
  simp [left,Act.leave?]

@[simp] theorem sends_enter : sends (trace ++ [.enter i payload]) id = sends trace id := by
  simp [sends,Act.sendOf]

@[simp] theorem sends_leave : sends (trace ++ [.leave i reason]) id = sends trace id := by
  simp [sends,Act.sendOf]

@[simp] theorem sends_send_self : sends (trace ++ [.send id payload t]) id = sends trace id ++ [t] := by
  simp [sends,Act.sendOf]

theorem sends_send_other (h : i ≠ id) : sends (trace ++ [.send i payload t]) id = sends trace id := by
  simp [sends,Act.sendOf,h]

end Traces

/-- What an act may be, given those before it. -/
def Law (P : Policy κ ρ) (before : List (Act κ ρ)) : Act κ ρ → Prop
  | .enter id _ => id = (entered before).length
  | .send id payload t =>
    .enter id payload ∈ before ∧ id ∉ left before ∧ (sends before id).length < P.maxAttempts ∧
      (∀ t' ∈ sends before id, t'+P.retry ≤ t) ∧
      (sends before id = [] → ∀ other, sends before other ≠ [] → other < id)
  | .leave id reason =>
    ∃ payload held, .enter id payload ∈ before ∧ id ∉ left before ∧
      held+(left before).length = (entered before).length ∧
      (sends before id).length ≤ P.maxAttempts ∧ P.mayLeave payload (sends before id).length held reason

structure Ledger (P : Policy κ ρ) (q : Queue κ ρ) : Prop where
  law : Each (Law P) q.trace
  places : ∀ id, (q.items.map Item.id).count id+(left q.trace).count id = if id < q.next then 1 else 0
  entered : entered q.trace = List.range q.next
  held : q.items.length+(left q.trace).length = q.next
  sorted : q.items.Pairwise fun a b => a.id < b.id
  payload : ∀ p ∈ q.items, .enter p.id p.payload ∈ q.trace
  attempts : ∀ p ∈ q.items, (sends q.trace p.id).length = p.attempts
  bounded : ∀ id, (sends q.trace id).length ≤ P.maxAttempts
  sent : ∀ id, sends q.trace id ≠ [] → id < q.next
  last : ∀ p ∈ q.items, ∀ t ∈ sends q.trace p.id, ∃ l, p.last = some l ∧ t ≤ l
  past : ∀ p ∈ q.items, ∀ l, p.last = some l → l ≤ q.now ∧ sends q.trace p.id ≠ []
  order : ∀ other, sends q.trace other ≠ [] → ∀ id < other,
    id ∈ left q.trace ∨ sends q.trace id ≠ []
  capacity : q.items.length ≤ P.capacity

variable {P : Policy κ ρ} {q q' : Queue κ ρ}

section Invariant

theorem Ledger.item_lt (h : Ledger P q) {p : Item κ} (hp : p ∈ q.items) : p.id < q.next := by
  by_contra hle
  have hplace := h.places p.id
  rw [if_neg hle] at hplace
  have hpos : 0 < (q.items.map Item.id).count p.id :=
    List.count_pos_iff.mpr (List.mem_map_of_mem hp)
  omega

theorem Ledger.not_left (h : Ledger P q) {p : Item κ} (hp : p ∈ q.items) : p.id ∉ left q.trace := by
  intro hleft
  have hplace := h.places p.id
  rw [if_pos (h.item_lt hp)] at hplace
  have hpos : 0 < (q.items.map Item.id).count p.id :=
    List.count_pos_iff.mpr (List.mem_map_of_mem hp)
  have hpos' : 0 < (left q.trace).count p.id := List.count_pos_iff.mpr hleft
  omega

/-- What entered and has not left is there. -/
theorem Ledger.in_items (h : Ledger P q) {id : ℕ} (hid : id < q.next) (hleft : id ∉ left q.trace) :
    ∃ p ∈ q.items, p.id = id := by
  have hplace := h.places id
  rw [if_pos hid,List.count_eq_zero.mpr hleft] at hplace
  exact List.mem_map.mp (List.count_pos_iff.mp (by omega))

/-- The items before one in the queue entered before it, those after it later. -/
theorem Ledger.around (h : Ledger P q) {before after : List (Item κ)} {p : Item κ}
    (hp : q.items = before ++ p :: after) :
    (∀ x ∈ before, x.id < p.id) ∧ ∀ x ∈ after, p.id < x.id := by
  have hsorted := h.sorted
  rw [hp] at hsorted
  obtain ⟨-,htail,hcross⟩ := List.pairwise_append.mp hsorted
  exact ⟨fun x hx => hcross x hx p (List.mem_cons_self ..),(List.pairwise_cons.mp htail).1⟩

theorem Ledger.enter (h : Ledger P q) (payload : κ) (hroom : q.items.length < P.capacity) :
    Ledger P { q with
      items := q.items ++ [⟨q.next,payload,0,none⟩]
      next := q.next+1
      trace := q.trace ++ [.enter q.next payload] } := by
  have hnone : sends q.trace q.next = [] := by
    by_contra hne
    exact Nat.lt_irrefl _ (h.sent q.next hne)
  constructor
  case law =>
    refine h.law.snoc ?_
    rw [Law,h.entered,List.length_range]
  case places =>
    intro id
    have hplace := h.places id
    simp only [List.map_append,List.map_cons,List.map_nil,List.count_append,left_enter,
      List.count_singleton]
    by_cases hid : q.next = id
    · subst hid
      simp at hplace ⊢
      omega
    · have hlt : id < q.next+1 ↔ id < q.next := by omega
      simp only [hlt,beq_iff_eq,if_neg hid]
      omega
  case entered => simp only [entered_enter,h.entered,List.range_succ]
  case held =>
    have hheld := h.held
    simp only [left_enter,List.length_append,List.length_singleton]
    omega
  case sorted =>
    refine List.pairwise_append.mpr ⟨h.sorted,List.pairwise_singleton _ _,fun a ha b hb => ?_⟩
    rw [List.mem_singleton.mp hb]
    exact h.item_lt ha
  case payload =>
    intro p hp
    rcases List.mem_append.mp hp with hp|hp
    · exact List.mem_append_left _ (h.payload p hp)
    · rw [List.mem_singleton.mp hp]
      exact List.mem_append_right _ (List.mem_singleton_self _)
  case attempts =>
    intro p hp
    rw [sends_enter]
    rcases List.mem_append.mp hp with hp|hp
    · exact h.attempts p hp
    · rw [List.mem_singleton.mp hp,hnone]
      rfl
  case bounded => simpa only [sends_enter] using h.bounded
  case sent =>
    intro id hid
    rw [sends_enter] at hid
    exact Nat.lt_succ_of_lt (h.sent id hid)
  case last =>
    intro p hp t ht
    rw [sends_enter] at ht
    rcases List.mem_append.mp hp with hp|hp
    · exact h.last p hp t ht
    · rw [List.mem_singleton.mp hp,hnone] at ht
      exact absurd ht List.not_mem_nil
  case past =>
    intro p hp l hl
    rw [sends_enter]
    rcases List.mem_append.mp hp with hp|hp
    · exact h.past p hp l hl
    · rw [List.mem_singleton.mp hp] at hl
      exact absurd hl.symm (Option.some_ne_none l)
  case order => simpa only [sends_enter,left_enter] using h.order
  case capacity =>
    simp only [List.length_append,List.length_singleton]
    omega

theorem Ledger.leave (h : Ledger P q) {before after : List (Item κ)} {p : Item κ} {reason : ρ}
    (hp : q.items = before ++ p :: after)
    (hmay : P.mayLeave p.payload p.attempts q.items.length reason) :
    Ledger P { q with items := before ++ after, trace := q.trace ++ [.leave p.id reason] } := by
  have hmem : p ∈ q.items := by simp [hp]
  have hsub : (before ++ after).Sublist q.items := by
    rw [hp]
    exact (List.Sublist.refl before).append (List.sublist_cons_self p after)
  have hold : ∀ x ∈ before ++ after, x ∈ q.items := fun x hx => hsub.subset hx
  constructor
  case law =>
    refine h.law.snoc ?_
    refine ⟨p.payload,q.items.length,h.payload p hmem,h.not_left hmem,?_,h.bounded p.id,?_⟩
    · rw [h.held,h.entered,List.length_range]
    · rwa [h.attempts p hmem]
  case places =>
    intro id
    have hplace := h.places id
    simp only [hp,List.map_append,List.map_cons,List.count_append,List.count_cons,left_leave,
      List.count_nil] at hplace ⊢
    omega
  case entered => rw [entered_leave,h.entered]
  case held =>
    have hheld := h.held
    simp only [hp,List.length_append,List.length_cons,left_leave,List.length_nil] at hheld ⊢
    omega
  case sorted => exact h.sorted.sublist hsub
  case payload => exact fun x hx => List.mem_append_left _ (h.payload x (hold x hx))
  case attempts => simpa only [sends_leave] using fun x hx => h.attempts x (hold x hx)
  case bounded => simpa only [sends_leave] using h.bounded
  case sent => simpa only [sends_leave] using h.sent
  case last => simpa only [sends_leave] using fun x hx => h.last x (hold x hx)
  case past => simpa only [sends_leave] using fun x hx => h.past x (hold x hx)
  case order =>
    intro other hother id hid
    rw [sends_leave] at hother ⊢
    rw [left_leave]
    exact (h.order other hother id hid).imp_left (List.mem_append_left _)
  case capacity => exact hsub.length_le.trans h.capacity

/-- The times of a send and of those before it, for an item of the queue. -/
theorem Ledger.due (h : Ledger P q) {p : Item κ} (hp : p ∈ q.items) {t : ℕ} (hnow : q.now ≤ t)
    (hdue : ∀ l, p.last = some l → P.retry ≤ t-l) : ∀ t' ∈ sends q.trace p.id, t'+P.retry ≤ t := by
  intro t' ht'
  obtain ⟨l,hl,hle⟩ := h.last p hp t' ht'
  have hpast := (h.past p hp l hl).1
  have hspace := hdue l hl
  omega

end Invariant

section Sending

variable {before after : List (Item κ)} {p : Item κ} {t : ℕ}

/-- Every item before one that is sent has been sent before. -/
theorem Ledger.begun (h : Ledger P q) (hp : q.items = before ++ p :: after)
    (hattempts : p.attempts < P.maxAttempts)
    (hbefore : ∀ x ∈ before, x.last ≠ none ∨ P.maxAttempts ≤ x.attempts) :
    ∀ id < p.id, id ∈ left q.trace ∨ sends q.trace id ≠ [] := by
  intro id hid
  have hmem : p ∈ q.items := by simp [hp]
  by_cases hleft : id ∈ left q.trace
  · exact .inl hleft
  · right
    obtain ⟨x,hx,rfl⟩ := h.in_items (hid.trans (h.item_lt hmem)) hleft
    have hxin : x ∈ before := by
      rw [hp] at hx
      rcases List.mem_append.mp hx with hx|hx
      · exact hx
      · rcases List.mem_cons.mp hx with rfl|hx
        · exact absurd hid (Nat.lt_irrefl _)
        · exact absurd ((h.around hp).2 x hx) (Nat.lt_asymm hid)
    rcases hbefore x hxin with hlast|hmax
    · obtain ⟨l,hl⟩ := Option.ne_none_iff_exists'.mp hlast
      exact (h.past x hx l hl).2
    · intro hnil
      have hcount := h.attempts x hx
      rw [hnil] at hcount
      simp only [List.length_nil] at hcount
      omega

/-- The law of a send: the item is there, it is due, and none before it was passed over. -/
theorem Ledger.law_send (h : Ledger P q) (hp : p ∈ q.items) (hnow : q.now ≤ t)
    (hattempts : p.attempts < P.maxAttempts) (hdue : ∀ l, p.last = some l → P.retry ≤ t-l) :
    Law P q.trace (.send p.id p.payload t) := by
  refine ⟨h.payload p hp,h.not_left hp,?_,h.due hp hnow hdue,fun hnil other hsent => ?_⟩
  · rwa [h.attempts p hp]
  · by_contra hle
    rcases Nat.lt_or_eq_of_le (Nat.le_of_not_lt hle) with hlt|rfl
    · rcases h.order other hsent p.id hlt with hleft|hne
      · exact h.not_left hp hleft
      · exact hne hnil
    · exact hsent hnil

/-- A send changes the item it is of, and no other. -/
theorem Ledger.mem_sent (h : Ledger P q) (hp : q.items = before ++ p :: after) {x : Item κ}
    (hx : x ∈ before ++ p.sentAt t :: after) : x = p.sentAt t ∨ x ∈ q.items ∧ p.id ≠ x.id := by
  obtain ⟨hlow,hhigh⟩ := h.around hp
  rcases List.mem_append.mp hx with hx|hx
  · exact .inr ⟨by simp [hp,hx],(Nat.ne_of_lt (hlow x hx)).symm⟩
  · rcases List.mem_cons.mp hx with rfl|hx
    · exact .inl rfl
    · exact .inr ⟨by simp [hp,hx],Nat.ne_of_lt (hhigh x hx)⟩

theorem Ledger.send (h : Ledger P q) (hp : q.items = before ++ p :: after) (hnow : q.now ≤ t)
    (hattempts : p.attempts < P.maxAttempts) (hdue : ∀ l, p.last = some l → P.retry ≤ t-l)
    (hbefore : ∀ x ∈ before, x.last ≠ none ∨ P.maxAttempts ≤ x.attempts) :
    Ledger P { q with
      items := before ++ p.sentAt t :: after
      now := t
      trace := q.trace ++ [.send p.id p.payload t] } := by
  have hmem : p ∈ q.items := by simp [hp]
  have hids : (before ++ p.sentAt t :: after).map Item.id = q.items.map Item.id := by
    simp only [hp,List.map_append,List.map_cons]
    rfl
  have hlen : (before ++ p.sentAt t :: after).length = q.items.length := by simp [hp]
  have hbegun := h.begun hp hattempts hbefore
  constructor
  case law => exact h.law.snoc (h.law_send hmem hnow hattempts hdue)
  case places => simpa only [hids,left_send] using h.places
  case entered => rw [entered_send,h.entered]
  case held => simpa only [hlen,left_send] using h.held
  case sorted =>
    have hsorted := h.sorted
    rw [← List.pairwise_map (f := Item.id) (R := (· < ·))] at hsorted ⊢
    rwa [hids]
  case payload =>
    intro x hx
    rcases h.mem_sent hp hx with rfl|⟨hx,-⟩
    · exact List.mem_append_left _ (h.payload p hmem)
    · exact List.mem_append_left _ (h.payload x hx)
  case attempts =>
    intro x hx
    rcases h.mem_sent hp hx with rfl|⟨hx,hne⟩
    · simp only [Item.sentAt,sends_send_self,List.length_append,h.attempts p hmem]
      rfl
    · rw [sends_send_other _ _ _ _ _ hne]
      exact h.attempts x hx
  case bounded =>
    intro id
    by_cases hid : p.id = id
    · subst hid
      simp only [sends_send_self,List.length_append,h.attempts p hmem]
      exact hattempts
    · rw [sends_send_other _ _ _ _ _ hid]
      exact h.bounded id
  case sent =>
    intro id hsent
    by_cases hid : p.id = id
    · exact hid ▸ h.item_lt hmem
    · rw [sends_send_other _ _ _ _ _ hid] at hsent
      exact h.sent id hsent
  case last =>
    intro x hx t' ht'
    rcases h.mem_sent hp hx with rfl|⟨hx,hne⟩
    · refine ⟨t,rfl,?_⟩
      simp only [Item.sentAt,sends_send_self] at ht'
      rcases List.mem_append.mp ht' with ht'|ht'
      · exact (Nat.le_add_right _ _).trans (h.due hmem hnow hdue t' ht')
      · exact (List.mem_singleton.mp ht').le
    · rw [sends_send_other _ _ _ _ _ hne] at ht'
      exact h.last x hx t' ht'
  case past =>
    intro x hx l hl
    rcases h.mem_sent hp hx with rfl|⟨hx,hne⟩
    · obtain rfl : t = l := Option.some.inj hl
      exact ⟨le_rfl,by simp [Item.sentAt]⟩
    · rw [sends_send_other _ _ _ _ _ hne]
      obtain ⟨hle,hne⟩ := h.past x hx l hl
      exact ⟨hle.trans hnow,hne⟩
  case order =>
    intro other hsent id hid
    simp only [left_send]
    by_cases heq : p.id = id
    · subst heq
      exact .inr (by simp)
    · rw [sends_send_other _ _ _ _ _ heq]
      by_cases hoth : p.id = other
      · exact hbegun id (hoth ▸ hid)
      · rw [sends_send_other _ _ _ _ _ hoth] at hsent
        exact h.order other hsent id hid
  case capacity => exact hlen ▸ h.capacity

theorem Ledger.wait (h : Ledger P q) {now : ℕ} (hnow : q.now ≤ now) : Ledger P { q with now := now } :=
  { h with past := fun p hp l hl => ⟨((h.past p hp l hl).1).trans hnow,(h.past p hp l hl).2⟩ }

theorem Step.ledger (h : Ledger P q) (hs : Step P q q') : Ledger P q' := by
  cases hs with
  | wait now hnow => exact h.wait hnow
  | enter payload hroom => exact h.enter payload hroom
  | leave before after p reason hp hmay => exact h.leave hp hmay
  | send before after p t hp hnow hattempts hdue hbefore =>
    exact h.send hp hnow hattempts hdue hbefore

theorem Steps.ledger (h : Ledger P q) (hs : Steps P q q') : Ledger P q' := by
  induction hs with
  | refl => exact h
  | tail _ hstep ih => exact hstep.ledger ih

theorem ledger_empty (P : Policy κ ρ) (now : ℕ) : Ledger P ⟨[],0,now,[]⟩ := by
  refine ⟨each_nil,?_,rfl,rfl,.nil,?_,?_,?_,?_,?_,?_,?_,Nat.zero_le _⟩
  all_goals simp [left,sends]

end Sending

section Leaving

/-- All items that a test picks leave, one after the other. -/
theorem leave_all (hit : Item κ → Bool) (reason : Item κ → ρ) (before items : List (Item κ))
    (q : Queue κ ρ) (hq : q.items = before ++ items)
    (hmay : ∀ p ∈ items, hit p = true → ∀ held, P.mayLeave p.payload p.attempts held (reason p)) :
    Steps P q { q with
      items := before ++ items.filter fun p => !hit p
      trace := q.trace ++ (items.filter hit).map fun p => .leave p.id (reason p) } := by
  induction items generalizing before q with
  | nil =>
    have hsame : q = { q with items := before ++ [], trace := q.trace ++ [] } := by
      simp only [List.append_nil] at hq ⊢
      rw [← hq]
    exact hsame ▸ .refl
  | cons p items ih =>
    have htail : ∀ x ∈ items, hit x = true → ∀ held, P.mayLeave x.payload x.attempts held (reason x) :=
      fun x hx => hmay x (List.mem_cons_of_mem p hx)
    by_cases hhit : hit p = true
    · have hleave : Step P q { q with
          items := before ++ items, trace := q.trace ++ [.leave p.id (reason p)] } :=
        .leave q before items p (reason p) hq (hmay p List.mem_cons_self hhit _)
      have hrest := ih before { q with
          items := before ++ items, trace := q.trace ++ [.leave p.id (reason p)] } rfl htail
      simpa [hhit] using (ReflTransGen.single hleave).trans hrest
    · have hrest := ih (before ++ [p]) q (by simpa using hq) htail
      simpa [hhit] using hrest

end Leaving

end RetryQueue
end Robocol
