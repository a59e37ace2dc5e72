import Robocol.CommandQueue
import Robocol.PacketRoundTrip
import Robocol.Restarts

/-! The worker, its peers and the network between them, which may lose, repeat, delay and
reorder datagrams: what an ack that retires a command says of the peer. -/
namespace Robocol
namespace Client

open Cmd Runs Relation Worker

/-- The largest payload of a UDP datagram. -/
def MAX_DATAGRAM : ℕ := 65507

/-- `arrived` is what the peers got, with the address of the one that did. -/
structure Net where
  worker : Worker
  arrived : List (SocketAddr × List UInt8) := []

inductive NetEvent
  | input (i : Input)
  | deliver (dst : SocketAddr) (packet : Packet)

def netStep (env : Env) (n : Net) : NetEvent → Except Net Net
  | .input i =>
    match step env n.worker i with
    | .ok w => .ok { n with worker := w }
    | .error w => .error { n with worker := w }
  | .deliver dst packet =>
    .ok { n with arrived := n.arrived ++ packet.serialize.toList.map fun bytes => (dst,bytes) }

/-- The command a datagram reads as, if it is one. -/
def readCommand (data : List UInt8) : Option Command :=
  match Packet.parse data with
  | .ok (.command c) => some c
  | _ => none

def IsAck (data : List UInt8) : Prop := ∃ a ∈ readCommand data, a.acknowledged = true

/-- A peer answers a command, but not an ack. -/
def Acknowledges (bytes data : List UInt8) : Prop :=
  ∃ c ∈ readCommand bytes, c.acknowledged = false ∧
    (Packet.command (Command.ackOf c)).serialize = some data

/-- The bytes tell of this command. -/
def Carries (bytes : List UInt8) (c : Command) : Prop := ∃ d ∈ readCommand bytes, key d = key c

/-- What arrives was sent, and an ack answers what its sender got. -/
def NetLaw (n : Net) : NetEvent → Prop
  | .deliver dst packet =>
    (dst,packet) ∈ n.worker.log.filterMap Entry.datagram? ∧
      ∀ bytes ∈ packet.serialize, bytes.length ≤ MAX_DATAGRAM
  | .input (.socket (.datagram data src)) =>
    IsAck data → ∃ m ∈ n.arrived, m.1 = src ∧ Acknowledges m.2 data
  | .input _ => True

/-- The commands that were queued, and those under one id. -/
def queuedCommands (log : List Entry) : List Command :=
  log.filterMap fun e => match e with
    | .queued _ _ c => some c
    | _ => none

def queuedAs (log : List Entry) (id : ℕ) : List Command :=
  log.filterMap fun e => match e with
    | .queued i _ c => if i = id then some c else none
    | _ => none

/-- No two commands that were queued answer to the name and timestamp of an ack, but differ. -/
def Unambiguous (w : Worker) : Packet → Prop
  | .command a =>
    a.acknowledged = true → ∀ c ∈ queuedCommands w.log, ∀ d ∈ queuedCommands w.log,
      c.name = a.name ∧ c.timestamp = a.timestamp → d.name = a.name ∧ d.timestamp = a.timestamp →
        c.extra = d.extra
  | _ => True

def ClearAcks (env : Env) (n : Net) : NetEvent → Prop
  | .input i => Offers env Unambiguous n.worker i
  | .deliver _ _ => True

/-- The peer has received the command an ack retires. -/
def ReceivedLaw (arrived : List (SocketAddr × List UInt8)) (before : List Entry) : Entry → Prop
  | .acked id _ =>
    ∃ c ∈ queuedAs before id, ∃ m ∈ arrived, sessionOf before = some m.1 ∧ Carries m.2 c
  | _ => True

variable {env : Env} {w w' : Worker} {arrived : List (SocketAddr × List UInt8)}

section Bytes

theorem strings_le_layout (c : Command) :
    (utf8 c.name).length ≤ c.layout.length ∧
      (c.acknowledged = false → (utf8 c.extra).length ≤ c.layout.length) := by
  constructor
  · simp only [Command.layout,Wire.strU16,List.length_append]
    omega
  · intro hun
    simp only [Command.layout,Command.extraLayout,hun,Bool.false_eq_true,if_false,Wire.strU16,
      List.length_append]
    omega

theorem layout_acknowledged {c : Command} (hack : c.acknowledged = true) :
    c.layout = { c with extra := "" }.layout := by
  simp only [Command.layout,Command.payload,Command.extraLayout,hack,if_true]

theorem parse_of_fits {packet : Packet} {bytes : List UInt8} (hfit : packet.Fits)
    (hser : packet.serialize = some bytes) : Packet.parse bytes = .ok packet := by
  obtain rfl := Option.some.inj (packet.serialize_eq.symm.trans hser)
  simpa using packet.parse_layout hfit []

/-- A datagram of the worker that reads as a command is that command. -/
theorem command_of_bytes {packet : Packet} {bytes : List UInt8} {c : Command}
    (hkind : IsControl packet ∨ ∃ d, packet = .command d) (hser : packet.serialize = some bytes)
    (hlen : bytes.length ≤ MAX_DATAGRAM) (hparse : Packet.parse bytes = .ok (.command c))
    (hun : c.acknowledged = false) : packet = .command c := by
  have hfits (hfit : packet.Fits) : packet = .command c :=
    Except.ok.inj ((parse_of_fits hfit hser).symm.trans hparse)
  cases packet with
  | command d =>
    obtain rfl := Option.some.inj ((Packet.serialize_eq (.command d)).symm.trans hser)
    obtain ⟨hname,hextra⟩ := strings_le_layout d
    have hlen' : d.layout.length ≤ 65507 := hlen
    cases hack : d.acknowledged with
    | false =>
      have hextra' := hextra hack
      exact hfits ⟨by omega,by omega,fun h => absurd (hack.symm.trans h) Bool.false_ne_true⟩
    | true =>
      have hshort : (utf8 d.name).length ≤ 65535 := by omega
      have hblank : (Packet.command { d with extra := "" }).Fits :=
        ⟨hshort,by simp [utf8],fun _ => rfl⟩
      have hsame : (Packet.command { d with extra := "" }).serialize = some d.layout := by
        rw [Packet.serialize_eq,layout_acknowledged hack]
        rfl
      have hread := (parse_of_fits hblank hsame).symm.trans hparse
      obtain rfl := Packet.command.inj (Except.ok.inj hread)
      exact absurd (hun.symm.trans hack) Bool.false_ne_true
  | heartbeat hb => exact hfits (hkind.resolve_right (by simp))
  | gamepad g => exact hfits trivial
  | peerDiscovery p => exact hfits trivial
  | telemetry t => exact hfits (hkind.resolve_right (by simp))
  | keepAlive k => exact hfits trivial

theorem mem_readCommand {data : List UInt8} {c : Command} :
    c ∈ readCommand data ↔ Packet.parse data = .ok (.command c) := by
  rw [readCommand]
  split
  · rename_i d hd
    simp [hd]
  · rename_i hno
    simpa using hno c

theorem ack_of_bytes {bytes data : List UInt8} {a : Command} (hack : Acknowledges bytes data)
    (hparse : Packet.parse data = .ok (.command a)) :
    ∃ c, Packet.parse bytes = .ok (.command c) ∧ c.acknowledged = false ∧ a = Command.ackOf c := by
  obtain ⟨c,hc,hun,hser⟩ := hack
  have hread := mem_readCommand.mp hc
  obtain ⟨hname,-,-⟩ := Packet.parse_fits (.command c) hread
  have hfit : (Packet.command (Command.ackOf c)).Fits :=
    ⟨hname,by simp [utf8,Command.ackOf],fun _ => rfl⟩
  exact ⟨c,hread,hun,
    Packet.command.inj (Except.ok.inj (hparse.symm.trans (parse_of_fits hfit hser)))⟩

end Bytes

section Worker

/-- What is known of an ack in the state it is handled in. -/
def AckSound (arrived : List (SocketAddr × List UInt8)) (v : Worker) (packet : Packet) : Prop :=
  Unambiguous v packet ∧ ∀ a, packet = .command a → a.acknowledged = true →
    ∃ m ∈ arrived, v.peer = some m.1 ∧ ∃ c, Packet.parse m.2 = .ok (.command c) ∧
      c.acknowledged = false ∧ a = Command.ackOf c

/-- What arrived had been handed to the socket. -/
def Arrived (arrived : List (SocketAddr × List UInt8)) (log : List Entry) : Prop :=
  ∀ m ∈ arrived, ∃ packet, (m.1,packet) ∈ log.filterMap Entry.datagram? ∧
    packet.serialize = some m.2 ∧ m.2.length ≤ MAX_DATAGRAM

structure AckInv (env : Env) (arrived : List (SocketAddr × List UInt8)) (w : Worker) : Prop where
  queue : QueueInv env w
  handed : Arrived arrived w.log
  received : Each (ReceivedLaw arrived) w.log

theorem Arrived.grow {log log' : List Entry} (h : Arrived arrived log) (hlog : log <+: log') :
    Arrived arrived log' := by
  intro m hm
  obtain ⟨packet,hp,hrest⟩ := h m hm
  exact ⟨packet,(hlog.sublist.filterMap Entry.datagram?).subset hp,hrest⟩

theorem AckInv.transmitted (h : AckInv env arrived w) {m : SocketAddr × List UInt8} {c : Command}
    (hm : m ∈ arrived) (hparse : Packet.parse m.2 = .ok (.command c)) (hun : c.acknowledged = false) :
    ∃ id origin q, .queued id origin q ∈ w.log ∧ key q = key c := by
  obtain ⟨packet,hp,hser,hlen⟩ := h.handed m hm
  obtain ⟨e,he,hdgram⟩ := List.mem_filterMap.mp hp
  obtain ⟨pre,post,hlog⟩ := List.append_of_mem he
  have hlaw := h.queue.entries pre e post hlog
  have hsession := h.queue.session.law pre e post hlog
  cases e with
  | transmitted dst id d t =>
    obtain ⟨-,rfl⟩ := Prod.mk.inj (Option.some.inj hdgram)
    obtain rfl := Packet.command.inj (command_of_bytes (.inr ⟨d,rfl⟩) hser hlen hparse hun)
    obtain ⟨-,⟨origin,q,hq,hkey⟩,-⟩ := hlaw
    exact ⟨id,origin,q,hlog ▸ List.mem_append_left _ hq,hkey⟩
  | sent dst packet' =>
    obtain ⟨-,rfl⟩ := Prod.mk.inj (Option.some.inj hdgram)
    have hcontrol : IsControl packet' := by
      rcases hsession with ⟨-,hc⟩|⟨-,rfl⟩
      · exact hc
      · trivial
    obtain rfl := command_of_bytes (.inl hcontrol) hser hlen hparse hun
    obtain ⟨d,rfl⟩ := hcontrol
    exact absurd hun.symm Bool.false_ne_true
  | _ => exact absurd hdgram.symm (Option.some_ne_none _)

theorem AckInv.carries (h : AckInv env arrived w) {a : Command} {p : PendingCommand}
    (hsound : AckSound arrived w (.command a)) (hack : a.acknowledged = true)
    (hp : p ∈ w.pending) (hnames : names a p) :
    ∃ c ∈ queuedAs w.log p.id, ∃ m ∈ arrived, w.peer = some m.1 ∧ Carries m.2 c := by
  obtain ⟨m,hm,hpeer,c,hparse,hun,rfl⟩ := hsound.2 a rfl hack
  obtain ⟨id,origin,q,hq,hkey⟩ := h.transmitted hm hparse hun
  obtain ⟨origin',c',hc',hkey'⟩ := enter_trace.mp
    (h.queue.ledger.payload p.item (List.mem_map_of_mem hp))
  have hqueued (id : ℕ) (origin : Origin) (d : Command) (hd : .queued id origin d ∈ w.log) :
      d ∈ queuedCommands w.log := List.mem_filterMap.mpr ⟨_,hd,rfl⟩
  obtain ⟨hn,ht,hx⟩ : q.name = c.name ∧ q.timestamp = c.timestamp ∧ q.extra = c.extra := by
    simpa only [key,Prod.mk.injEq] using hkey
  have hname' : c'.name = c.name ∧ c'.timestamp = c.timestamp := by
    have hk : key c' = key p.command := hkey'
    simp only [key,Prod.mk.injEq] at hk
    exact ⟨hk.1.trans hnames.1,hk.2.1.trans hnames.2⟩
  have hextra := hsound.1 hack q (hqueued _ _ _ hq) c' (hqueued _ _ _ hc') ⟨hn,ht⟩ hname'
  refine ⟨c',List.mem_filterMap.mpr ⟨_,hc',if_pos rfl⟩,m,hm,hpeer,c,mem_readCommand.mpr hparse,?_⟩
  simp only [key,Prod.mk.injEq]
  exact ⟨hname'.1.symm,hname'.2.symm,hx.symm.trans hextra⟩

theorem push_inert (w : Worker) (origin : Origin) (c : Command) :
    Writes (fun e => e.inert = true ∧ ∀ id a, e ≠ .acked id a) w (w.evict.push origin c) := by
  refine (push_writes w origin c).mono fun e he => ?_
  cases e <;> first | exact absurd he.1 Bool.false_ne_true | exact ⟨rfl,by simp⟩

/-- What a move writes: an ack stands there only for a pending command it names. -/
theorem Move.appends_acks {good : Worker → Packet → Prop} (hm : Move env good w w') :
    ∃ xs, w'.log = w.log ++ xs ∧ ((∀ id a, .acked id a ∉ xs) ∨ (∀ e ∈ xs, e.inert = true) ∧
      ∀ id a, .acked id a ∈ xs → good w (.command a) ∧ a.acknowledged = true ∧
        ∃ p ∈ w.pending, p.id = id ∧ names a p) := by
  cases hm with
  | book => exact ⟨[],by simp,.inl (by simp)⟩
  | accept => exact ⟨[],by simp [acceptKey],.inl (by simp)⟩
  | webcam => exact ⟨[],by simp,.inl (by simp)⟩
  | disconnect =>
    exact ⟨(w.pending.map fun p => .discarded p.id) ++ [.event .disconnected],
      by simp [note,dropPeer],.inl (by simp)⟩
  | queue origin command =>
    obtain ⟨xs,hxs,hx⟩ := push_inert w origin command
    exact ⟨xs,hxs,.inl fun id a hmem => (hx _ hmem).2 id a rfl⟩
  | ack peer c hp hok hack =>
    obtain ⟨xs,hxs,hx⟩ := retire_writes w c
    refine ⟨xs,hxs,.inr ⟨fun e hmem => ?_,fun id a hmem => ?_⟩⟩
    · obtain ⟨p,-,-,rfl⟩ := hx e hmem
      rfl
    · obtain ⟨p,hpend,hnames,he⟩ := hx _ hmem
      obtain ⟨rfl,rfl⟩ := Entry.acked.inj he
      exact ⟨hok,hack,p,hpend,rfl,hnames⟩
  | restart peer c command hp hok hack =>
    obtain ⟨xs,hxs,hx⟩ := retire_writes w c
    obtain ⟨ys,hys,hy⟩ := push_inert (w.retire c) .worker command
    refine ⟨xs ++ ys,by rw [hys,hxs,List.append_assoc],.inr ⟨fun e hmem => ?_,fun id a hmem => ?_⟩⟩
    · rcases List.mem_append.mp hmem with hmem|hmem
      · obtain ⟨p,-,-,rfl⟩ := hx e hmem
        rfl
      · exact (hy e hmem).1
    · obtain ⟨p,hpend,hnames,he⟩ := hx _
        ((List.mem_append.mp hmem).resolve_right fun hm => (hy _ hm).2 id a rfl)
      obtain ⟨rfl,rfl⟩ := Entry.acked.inj he
      exact ⟨hok,hack,p,hpend,rfl,hnames⟩
  | _ => exact ⟨_,rfl,.inl (by simp)⟩

theorem Move.ackInv (h : AckInv env arrived w) (hm : Move env (AckSound arrived) w w') :
    AckInv env arrived w' := by
  refine ⟨hm.queueInv h.queue,h.handed.grow hm.grows,?_⟩
  obtain ⟨xs,hxs,hx⟩ := hm.appends_acks
  refine hxs ▸ h.received.append xs fun pre e post heq => ?_
  cases e with
  | acked id a =>
    have hmem : .acked id a ∈ xs := heq ▸ List.mem_append_right pre List.mem_cons_self
    obtain ⟨hinert,hacks⟩ := hx.resolve_left fun hn => hn id a hmem
    obtain ⟨hsound,hack,p,hp,rfl,hnames⟩ := hacks id a hmem
    obtain ⟨c,hc,m,hm,hpeer,hcarries⟩ := h.carries hsound hack hp hnames
    have hsession : sessionOf (w.log ++ pre) = sessionOf w.log :=
      sessionOf_inert fun e he => hinert e (heq ▸ List.mem_append_left _ he)
    refine ⟨c,?_,m,hm,hsession.trans (h.queue.session.session.trans hpeer),hcarries⟩
    rw [queuedAs,List.filterMap_append]
    exact List.mem_append_left _ hc
  | _ => trivial

end Worker

section Network

theorem Arrived.append {log : List Entry} {m : SocketAddr × List UInt8} {packet : Packet}
    (h : Arrived arrived log) (hp : (m.1,packet) ∈ log.filterMap Entry.datagram?)
    (hser : packet.serialize = some m.2) (hlen : m.2.length ≤ MAX_DATAGRAM) :
    Arrived (arrived ++ [m]) log := by
  intro x hx
  rcases List.mem_append.mp hx with hx|hx
  · exact h x hx
  · rw [List.mem_singleton.mp hx]
    exact ⟨packet,hp,hser,hlen⟩

theorem AckInv.deliver (h : AckInv env arrived w) {dst : SocketAddr} {packet : Packet}
    (hp : (dst,packet) ∈ w.log.filterMap Entry.datagram?)
    (hlen : ∀ bytes ∈ packet.serialize, bytes.length ≤ MAX_DATAGRAM) :
    AckInv env (arrived ++ packet.serialize.toList.map fun bytes => (dst,bytes)) w := by
  rw [packet.serialize_eq] at hlen ⊢
  have hlen' := hlen packet.layout rfl
  refine ⟨h.queue,h.handed.append (m := (dst,packet.layout)) hp packet.serialize_eq hlen',?_⟩
  refine h.received.mono fun before e _ hlaw => ?_
  cases e with
  | acked id a =>
    obtain ⟨c,hc,m,hm,hrest⟩ := hlaw
    exact ⟨c,hc,m,List.mem_append_left _ hm,hrest⟩
  | _ => trivial

theorem done_ne_packet {r : Except Worker Worker} {packet : Packet} :
    Intake.done <$> r ≠ .ok (.packet packet w) := by
  intro h
  cases r with
  | ok v => cases h
  | error v => cases h

theorem latch_packet {read packet : Packet} {src : SocketAddr}
    (h : w.latch env read src = .ok (.packet packet w')) : read = packet := by
  unfold latch at h
  split at h
  · exact absurd h done_ne_packet
  · cases hs : ({ w with peer := some src }.send (.connected src)) with
    | ok v =>
      rw [hs] at h
      exact (Intake.packet.inj (Except.ok.inj h)).1
    | error v =>
      rw [hs] at h
      cases h

theorem intake_parse {data : List UInt8} {src : SocketAddr} {packet : Packet}
    (h : w.intake env data src = .ok (.packet packet w')) :
    Packet.parse data = .ok packet ∧ w'.peer = some src := by
  have hends : Ends (Admitted env (fun _ _ => True) w src) (Stopped env (fun _ _ => True) w)
      (w.intake env data src) := intake_ends w data src
  rw [h] at hends
  refine ⟨?_,hends.2⟩
  unfold intake at h
  split at h
  · exact absurd h done_ne_packet
  · split at h
    · cases h
    · simp only at h
      split at h
      · exact absurd h done_ne_packet
      · rename_i read hread
        split at h
        · exact latch_packet h ▸ hread
        · obtain ⟨rfl,-⟩ := Intake.packet.inj (Except.ok.inj h)
          exact hread

theorem input_sound {n : Net} {i : Input} (hnet : NetLaw n (.input i))
    (hclear : ClearAcks env n (.input i)) : Offers env (AckSound n.arrived) n.worker i := by
  rintro v packet ⟨data,src,rfl,hin⟩
  refine ⟨hclear v packet ⟨data,src,rfl,hin⟩,?_⟩
  rintro a rfl hack
  obtain ⟨hparse,hpeer⟩ := intake_parse hin
  have hdata : IsAck data := ⟨a,mem_readCommand.mpr hparse,hack⟩
  obtain ⟨m,hm,rfl,hacks⟩ := hnet hdata
  obtain ⟨c,hc,hun,rfl⟩ := ack_of_bytes hacks hparse
  exact ⟨m,hm,hpeer,c,hc,hun,rfl⟩

/-- Where queued commands that share a name and timestamp do not differ, an ack retires only
what the peer has received. -/
theorem acks_retire_received (env : Env) (receiver : Option ℕ) (events : List NetEvent)
    (hnet : Along (netStep env) NetLaw ⟨start env receiver,[]⟩ events)
    (hclear : Along (netStep env) (ClearAcks env) ⟨start env receiver,[]⟩ events) :
    Ends (fun n => Each (ReceivedLaw n.arrived) n.worker.log)
      (fun n => Each (ReceivedLaw n.arrived) n.worker.log)
      (events.foldlM (netStep env) ⟨start env receiver,[]⟩) := by
  have hstart : AckInv env [] (start env receiver) :=
    ⟨start_queueInv env receiver,by simp [Arrived],each_nil⟩
  have hstep (n : Net) (e : NetEvent) (hn : AckInv env n.arrived n.worker)
      (he : NetLaw n e ∧ ClearAcks env n e) :
      Ends (fun n => AckInv env n.arrived n.worker)
        (fun n => Each (ReceivedLaw n.arrived) n.worker.log) (netStep env n e) := by
    cases e with
    | deliver dst packet => exact hn.deliver he.1.1 he.1.2
    | input i =>
      have hkeep (v v' : Worker) (hv : AckInv env n.arrived v)
          (hm : Move env (AckSound n.arrived) v v') : AckInv env n.arrived v' := hm.ackInv hv
      have hfollows : Follows env (AckSound n.arrived) n.worker (step env n.worker i) :=
        step_follows n.worker i (input_sound he.1 he.2)
      rw [netStep]
      cases hr : step env n.worker i with
      | ok w =>
        rw [hr] at hfollows
        exact Moves.keep hkeep hn hfollows
      | error w =>
        rw [hr] at hfollows
        obtain ⟨v,hv,hlog,-⟩ := hfollows
        show Each (ReceivedLaw n.arrived) w.log
        rcases hlog with hlog|hlog
        · exact hlog ▸ (Moves.keep hkeep hn hv).received
        · refine hlog ▸ (Moves.keep hkeep hn hv).received.append _ fun pre x post heq => ?_
          obtain ⟨p,-,rfl⟩ := List.mem_map.mp (heq ▸ List.mem_append_right pre List.mem_cons_self)
          trivial
  exact (run_ends hstep _ events hstart (hnet.and hclear)).mono (fun _ hn => hn.received)
    fun _ hn => hn

end Network

section Runs

instance (data : List UInt8) : Decidable (IsAck data) :=
  inferInstanceAs (Decidable (∃ a ∈ readCommand data, a.acknowledged = true))

instance (bytes data : List UInt8) : Decidable (Acknowledges bytes data) :=
  inferInstanceAs (Decidable (∃ c ∈ readCommand bytes, _ ∧ _))

instance (bytes : List UInt8) (c : Command) : Decidable (Carries bytes c) :=
  inferInstanceAs (Decidable (∃ d ∈ readCommand bytes, _))

instance (n : Net) : (e : NetEvent) → Decidable (NetLaw n e)
  | .deliver _ _ => inferInstanceAs (Decidable (_ ∧ _))
  | .input (.socket (.datagram _ _)) => inferInstanceAs (Decidable (_ → _))
  | .input (.socket .timedOut) | .input (.socket (.failed _)) | .input (.control _) => .isTrue trivial

instance (w : Worker) : (packet : Packet) → Decidable (Unambiguous w packet)
  | .command _ => inferInstanceAs (Decidable (_ → _))
  | .heartbeat _ | .gamepad _ | .peerDiscovery _ | .telemetry _ | .keepAlive _ => .isTrue trivial

instance (env : Env) (n : Net) : (e : NetEvent) → Decidable (ClearAcks env n e)
  | .input i => inferInstanceAs (Decidable (Offers env Unambiguous n.worker i))
  | .deliver _ _ => .isTrue trivial

instance (arrived : List (SocketAddr × List UInt8)) (before : List Entry) :
    (e : Entry) → Decidable (ReceivedLaw arrived before e)
  | .acked id _ => inferInstanceAs (Decidable (∃ c ∈ queuedAs before id, _))
  | .event _ | .dropped _ _ _ | .sent _ _ | .transmitted _ _ _ _ | .queued _ _ _ | .discarded _
  | .lost _ => .isTrue trivial

def begin : Net := ⟨start sampleEnv none,[]⟩

def initA : Command := ⟨9,7,false,INIT_OP_MODE,"A"⟩

/-- The client queues these OpModes in one go, and the robot gets and acks the first of them. -/
def initAll (opmodes : List String) : List NetEvent :=
  .input (fromRobot (.keepAlive {})) ::
    (opmodes.map fun name => .input (.control (RobocolClient.initOpmode name))) ++
      [.input (.socket .timedOut),.deliver robot (.command initA),
        .input (fromRobot (.command (Command.ackOf initA)))]

def tickingEnv : Env := { sampleEnv with wall := fun n => n+1 }

def firstInit : Command := ⟨9,6,false,INIT_OP_MODE,"A"⟩
def secondInit : Command := ⟨10,7,false,INIT_OP_MODE,"B"⟩

/-- The wall clock goes on between two commands of one name, and their acks come in the other order. -/
def initBoth : List NetEvent :=
  [.input (fromRobot (.keepAlive {})),.input (.control (RobocolClient.initOpmode "A")),
    .input (.control (RobocolClient.initOpmode "B")),.input (.socket .timedOut),
    .deliver robot (.command firstInit),.deliver robot (.command secondInit),
    .input (fromRobot (.command (Command.ackOf secondInit))),
    .input (fromRobot (.command (Command.ackOf firstInit)))]

theorem both_inits_received :
    Ends (fun n => Each (ReceivedLaw n.arrived) n.worker.log)
      (fun n => Each (ReceivedLaw n.arrived) n.worker.log)
      (initBoth.foldlM (netStep tickingEnv) ⟨start tickingEnv none,[]⟩) :=
  acks_retire_received tickingEnv none initBoth (by decide +kernel) (by decide +kernel)

/-- Two commands of one name, queued at one clock reading: the ack of the first retires both. -/
theorem ack_retires_unreceived :
    Along (netStep sampleEnv) NetLaw begin (initAll ["A","B"]) ∧
    ¬Each (ReceivedLaw (final ((initAll ["A","B"]).foldlM (netStep sampleEnv) begin)).arrived)
      (final ((initAll ["A","B"]).foldlM (netStep sampleEnv) begin)).worker.log := by
  refine ⟨by decide +kernel,fun h => ?_⟩
  let log := (final ((initAll ["A","B"]).foldlM (netStep sampleEnv) begin)).worker.log
  have hlaw := h (log.take 17) (.acked 4 (Command.ackOf initA)) (log.drop 18) (by decide +kernel)
  exact absurd hlaw (by decide +kernel)

end Runs

end Client
end Robocol
