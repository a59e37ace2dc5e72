import Robocol.PacketRoundTrip
import Robocol.Report

/-! Which endpoints of a capture are taken for Robot Controllers, and what that makes of the
directions. -/
namespace Robocol
namespace Capture

open Std (ExtTreeSet)

/-- One datagram of the loop: senders of telemetry, and senders of `CMD_NOTIFY*`. -/
def inferRound (senders : EndpointSet × EndpointSet) (dg : Datagram) : EndpointSet × EndpointSet :=
  match Packet.parse dg.payload with
  | .ok (.telemetry _) => (senders.1.insert dg.sender,senders.2)
  | .ok (.command c) =>
    if startsWith c.name "CMD_NOTIFY" then (senders.1,senders.2.insert dg.sender) else senders
  | _ => senders

def inferRc (dgs : List Datagram) : EndpointSet :=
  let senders := dgs.foldl inferRound (∅,∅)
  if senders.1.isEmpty then senders.2 else senders.1

section Endpoints

theorem octets_injective {a b : IpAddr} (h : a.octets = b.octets) : a = b := by
  cases a with
  | v4 a =>
    cases b with
    | v4 b => simpa [IpAddr.octets,Prod.ext_iff] using h
    | v6 b => simp [IpAddr.octets] at h
  | v6 a =>
    cases b with
    | v4 b => simp [IpAddr.octets] at h
    | v6 b => simpa [IpAddr.octets] using h

@[simp] theorem endpointCmp_eq_iff {e e' : Endpoint} : endpointCmp e e' = .eq ↔ e = e' := by
  simp only [endpointCmp,compareLex_eq_eq,compareOn,Std.LawfulEqOrd.compare_eq_iff_eq]
  constructor
  · rintro ⟨haddr,hport⟩
    exact Prod.ext (octets_injective haddr) hport
  · rintro rfl
    exact ⟨rfl,rfl⟩

theorem isEmpty_endpoints {s : EndpointSet} : s.isEmpty = true ↔ ∀ e, e ∉ s :=
  ExtTreeSet.isEmpty_iff.trans ExtTreeSet.eq_empty_iff_forall_not_mem

end Endpoints

section Infer

variable {dgs : List Datagram} {e : Endpoint}

def IsTelemetry (dg : Datagram) : Prop := ∃ t, Packet.parse dg.payload = .ok (.telemetry t)

def IsNotify (dg : Datagram) : Prop :=
  ∃ c, Packet.parse dg.payload = .ok (.command c) ∧ startsWith c.name "CMD_NOTIFY" = true

theorem mem_inferRound (senders : EndpointSet × EndpointSet) (dg : Datagram) :
    (e ∈ (inferRound senders dg).1 ↔ e ∈ senders.1 ∨ (IsTelemetry dg ∧ dg.sender = e)) ∧
      (e ∈ (inferRound senders dg).2 ↔ e ∈ senders.2 ∨ (IsNotify dg ∧ dg.sender = e)) := by
  rw [inferRound,IsTelemetry,IsNotify]
  cases Packet.parse dg.payload with
  | error err => simp
  | ok packet =>
    cases packet with
    | telemetry t => simp [or_comm]
    | command c => by_cases hname : startsWith c.name "CMD_NOTIFY" = true <;> simp [hname,or_comm]
    | _ => simp

theorem mem_foldl_inferRound (senders : EndpointSet × EndpointSet) (dgs : List Datagram) :
    (e ∈ (dgs.foldl inferRound senders).1 ↔
        e ∈ senders.1 ∨ ∃ dg ∈ dgs, IsTelemetry dg ∧ dg.sender = e) ∧
      (e ∈ (dgs.foldl inferRound senders).2 ↔
        e ∈ senders.2 ∨ ∃ dg ∈ dgs, IsNotify dg ∧ dg.sender = e) := by
  induction dgs generalizing senders with
  | nil => simp
  | cons dg dgs ih =>
    obtain ⟨hone,htwo⟩ := mem_inferRound (e := e) senders dg
    obtain ⟨hone',htwo'⟩ := ih (inferRound senders dg)
    rw [List.foldl_cons,hone',htwo',hone,htwo]
    simp only [List.mem_cons,exists_eq_or_imp,or_assoc,and_self]

/-- The capture has telemetry, whoever sent it. -/
def HasTelemetry (dgs : List Datagram) : Prop := ∃ dg ∈ dgs, IsTelemetry dg

/-- Telemetry decides where there is any, `CMD_NOTIFY*` where there is none. -/
theorem mem_inferRc : e ∈ inferRc dgs ↔
    (∃ dg ∈ dgs, IsTelemetry dg ∧ dg.sender = e) ∨
      (¬HasTelemetry dgs ∧ ∃ dg ∈ dgs, IsNotify dg ∧ dg.sender = e) := by
  have hmem (e : Endpoint) := mem_foldl_inferRound (e := e) (∅,∅) dgs
  simp only [ExtTreeSet.not_mem_empty,false_or] at hmem
  by_cases htel : HasTelemetry dgs
  · obtain ⟨dg,hdg,ht⟩ := htel
    have hne : (dgs.foldl inferRound (∅,∅)).1.isEmpty = false := by
      rw [Bool.eq_false_iff,ne_eq,isEmpty_endpoints]
      exact fun hall => hall dg.sender ((hmem dg.sender).1.mpr ⟨dg,hdg,ht,rfl⟩)
    have hhas : HasTelemetry dgs := ⟨dg,hdg,ht⟩
    simp only [inferRc,hne,Bool.false_eq_true,if_false,(hmem e).1,hhas,not_true_eq_false,false_and,
      or_false]
  · have hnone : ¬∃ dg ∈ dgs, IsTelemetry dg ∧ dg.sender = e :=
      fun ⟨dg,hdg,ht,_⟩ => htel ⟨dg,hdg,ht⟩
    have hempty : (dgs.foldl inferRound (∅,∅)).1.isEmpty = true := by
      rw [isEmpty_endpoints]
      intro e' he'
      obtain ⟨dg,hdg,ht,-⟩ := (hmem e').1.mp he'
      exact htel ⟨dg,hdg,ht⟩
    simp only [inferRc,hempty,if_true,(hmem e).2,hnone,htel,not_false_eq_true,true_and,false_or]

end Infer

section Labels

variable {rc : EndpointSet} {dg : Datagram}

theorem colon_mem_dir (h : dg.sender ∉ rc) (h' : dg.receiver ∉ rc) : ':' ∈ (dir dg rc).toList := by
  rw [dir,if_neg (by simpa using h),if_neg (by simpa using h')]
  simp

/-- A datagram is labelled as coming from a Robot Controller exactly when its sender is one of them. -/
theorem dir_fromRc : dir dg rc = "RC->DS" ↔ dg.sender ∈ rc := by
  by_cases h : dg.sender ∈ rc
  · simp [dir,h]
  · refine iff_of_false ?_ h
    by_cases h' : dg.receiver ∈ rc
    · simp [dir,h,h']
    · intro heq
      have hcolon := colon_mem_dir h h'
      rw [heq] at hcolon
      revert hcolon
      decide

theorem dir_toRc : dir dg rc = "DS->RC" ↔ dg.sender ∉ rc ∧ dg.receiver ∈ rc := by
  by_cases h : dg.sender ∈ rc
  · simp [dir,h]
  · by_cases h' : dg.receiver ∈ rc
    · simp [dir,h,h']
    · refine iff_of_false ?_ fun hrc => h' hrc.2
      intro heq
      have hcolon := colon_mem_dir h h'
      rw [heq] at hcolon
      revert hcolon
      decide

end Labels

section Roles

variable {Ds : Endpoint → Prop} {dgs : List Datagram}

/-- A Driver Station sends no telemetry and no notification of its own. -/
structure Roles (Ds : Endpoint → Prop) (dgs : List Datagram) : Prop where
  telemetry : ∀ dg ∈ dgs, Ds dg.sender → ¬IsTelemetry dg
  notify : ∀ dg ∈ dgs, Ds dg.sender → ∀ c, Packet.parse dg.payload = .ok (.command c) →
    c.acknowledged = false → startsWith c.name "CMD_NOTIFY" = false

/-- Every command that reaches a Driver Station is answered with its acknowledgement. -/
def Answers (Ds : Endpoint → Prop) (dgs : List Datagram) : Prop :=
  ∀ dg ∈ dgs, Ds dg.receiver → ∀ c, Packet.parse dg.payload = .ok (.command c) →
    c.acknowledged = false → ∃ answer ∈ dgs, answer.sender = dg.receiver ∧
      answer.receiver = dg.sender ∧ Packet.parse answer.payload = .ok (.command c.ackOf)

/-- No Driver Station is taken for a Robot Controller, and no datagram between the two is
labelled the wrong way round. -/
structure LabelsRight (Ds : Endpoint → Prop) (dgs : List Datagram) : Prop where
  inferred : ∀ e ∈ inferRc dgs, ¬Ds e
  toRc : ∀ dg : Datagram, Ds dg.sender → ¬Ds dg.receiver → dir dg (inferRc dgs) ≠ "RC->DS"
  toDs : ∀ dg : Datagram, ¬Ds dg.sender → Ds dg.receiver → dir dg (inferRc dgs) ≠ "DS->RC"

/-- A Driver Station acknowledges a notification. -/
def AcksNotify (Ds : Endpoint → Prop) (dgs : List Datagram) : Prop :=
  ∃ dg ∈ dgs, Ds dg.sender ∧ ∃ c, Packet.parse dg.payload = .ok (.command c) ∧
    c.acknowledged = true ∧ startsWith c.name "CMD_NOTIFY" = true

theorem labelsRight_of (h : ∀ e ∈ inferRc dgs, ¬Ds e) : LabelsRight Ds dgs where
  inferred := h
  toRc _ hsender _ hdir := h _ (dir_fromRc.mp hdir) hsender
  toDs _ _ hreceiver hdir := h _ (dir_toRc.mp hdir).2 hreceiver

/-- What a Driver Station sends under a notification's name is an acknowledgement. -/
theorem Roles.acks (h : Roles Ds dgs) {dg : Datagram} (hdg : dg ∈ dgs) (hds : Ds dg.sender)
    (hnotify : IsNotify dg) : AcksNotify Ds dgs := by
  obtain ⟨c,hc,hname⟩ := hnotify
  refine ⟨dg,hdg,hds,c,hc,?_,hname⟩
  by_contra hack
  have hnot := h.notify dg hdg hds c hc (by simpa using hack)
  rw [hnot] at hname
  cases hname

theorem labelsRight_iff (Ds : Endpoint → Prop) (dgs : List Datagram) (h : Roles Ds dgs) :
    LabelsRight Ds dgs ↔ HasTelemetry dgs ∨ ¬AcksNotify Ds dgs := by
  constructor
  · intro hright
    by_contra hnot
    rw [not_or,not_not] at hnot
    obtain ⟨htel,dg,hdg,hds,c,hc,-,hname⟩ := hnot
    exact hright.inferred _ (mem_inferRc.mpr (.inr ⟨htel,dg,hdg,⟨c,hc,hname⟩,rfl⟩)) hds
  · intro hcond
    refine labelsRight_of fun e he hds => ?_
    rcases mem_inferRc.mp he with ⟨dg,hdg,ht,rfl⟩|⟨htel,dg,hdg,hnotify,rfl⟩
    · exact h.telemetry dg hdg hds ht
    · exact (hcond.resolve_left htel) (h.acks hdg hds hnotify)

def rcEnd : Endpoint := (.v4 (192,168,43,1),20884)
def dsEnd : Endpoint := (.v4 (192,168,43,2),20884)

/-- A datagram that brings a packet. -/
def carrying (src dst : Endpoint) (packet : Packet) : Datagram :=
  ⟨⟨0⟩,src.1,dst.1,src.2,dst.2,packet.layout,false⟩

def emptyList : Command := .new "CMD_NOTIFY_OP_MODE_LIST" "[]" 1
def listFromRc : Datagram := carrying rcEnd dsEnd (.command emptyList)
def ackFromDs : Datagram := carrying dsEnd rcEnd (.command emptyList.ackOf)
def telemetryFromRc : Datagram := carrying rcEnd dsEnd (.telemetry {})

theorem listFromRc_parsed : Packet.parse listFromRc.payload = .ok (.command emptyList) := by decide

theorem ackFromDs_parsed : Packet.parse ackFromDs.payload = .ok (.command emptyList.ackOf) := by decide

theorem roles_acked {dgs : List Datagram}
    (h : ∀ dg ∈ dgs, dg.sender = dsEnd → dg = ackFromDs) : Roles (· = dsEnd) dgs where
  telemetry dg hdg hds := by
    rintro ⟨t,ht⟩
    rw [h dg hdg hds,ackFromDs_parsed] at ht
    cases ht
  notify dg hdg hds c hc hack := by
    rw [h dg hdg hds,ackFromDs_parsed] at hc
    cases hc
    cases hack

theorem labelsRight_telemetry :
    LabelsRight (· = dsEnd) [listFromRc,ackFromDs,telemetryFromRc] := by
  have hparsed : Packet.parse telemetryFromRc.payload = .ok (.telemetry {}) := by decide
  exact (labelsRight_iff (· = dsEnd) [listFromRc,ackFromDs,telemetryFromRc]
    (roles_acked (by decide))).mpr (.inl ⟨telemetryFromRc,by simp,{},hparsed⟩)

/-- Without telemetry, the Driver Station that acknowledges the list is taken for a Robot
Controller, and what it sends is labelled as coming from one. -/
theorem acker_inferred : Roles (· = dsEnd) [listFromRc,ackFromDs] ∧
    Answers (· = dsEnd) [listFromRc,ackFromDs] ∧ ¬LabelsRight (· = dsEnd) [listFromRc,ackFromDs] ∧
    dir ackFromDs (inferRc [listFromRc,ackFromDs]) = "RC->DS" := by
  have hds : dsEnd ∈ inferRc [listFromRc,ackFromDs] := by
    refine mem_inferRc.mpr (.inr ⟨?_,ackFromDs,by simp,⟨_,ackFromDs_parsed,by decide⟩,rfl⟩)
    rintro ⟨dg,hdg,t,ht⟩
    rcases List.mem_pair.mp hdg with rfl|rfl
    · rw [listFromRc_parsed] at ht
      cases ht
    · rw [ackFromDs_parsed] at ht
      cases ht
  refine ⟨roles_acked (by decide),?_,fun hright => hright.inferred _ hds rfl,dir_fromRc.mpr hds⟩
  intro dg hdg hreceiver c hc hack
  rcases List.mem_pair.mp hdg with rfl|rfl
  · rw [listFromRc_parsed] at hc
    cases hc
    exact ⟨ackFromDs,by simp,rfl,rfl,ackFromDs_parsed⟩
  · rw [ackFromDs_parsed] at hc
    cases hc
    cases hack

end Roles

end Capture
end Robocol
