import Robocol.Deployment

/-! What the station shows of the controller. Whatever the network does, every event of a session
with the controller tells of a moment at which it was so. -/
namespace Robocol

open Cmd Client Runs

namespace Deployment

open Worker

/-- What an event says of the controller. -/
def Shows (site : Site) (rc : FakeRc) : Event → Prop
  | .robotState state => rc.state = state
  | .telemetry t => rc.state = t.robotState
  | .opModeList list => list = parseOpmodeList site.env.json FakeRc.OPMODES
  | .opModeInited name =>
    if name = DEFAULT_OP_MODE then rc.state = .stopped else rc.state = .init ∧ rc.opmode = name
  | .opModeRunning name => rc.state = .running ∧ rc.opmode = name
  | .activeConfiguration text => text = site.rcEnv.configMetaText rc.activeConfig
  | .configurationList text => text = site.rcEnv.configsText rc.configs
  | .configuration xml => xml = FakeRc.FAKE_CONFIG_XML ∨ ∃ key, rc.savedXml key = some xml
  | .userDeviceList text => text = FakeRc.USER_DEVICE_TYPES
  | .scanResult text => text = FakeRc.SCAN_RESP
  | .lynxModules _ | .command _ _ => False
  | .stacktrace text => text = FakeRc.CRASH_STACKTRACE ∧ rc.state = .stopped
  | .webcamAvailable available => rc.webcamAvailable = available
  | _ => True

variable {site : Site} {d d0 : Deployment} {acts front : List Act} {src dst : SocketAddr}
  {p q : Packet} {e : Event} {a : FakeRc.Arrival} {before after rc : FakeRc} {c : Command}

section Messages

theorem notes_show (h : FakeRc.Notes site.rcEnv a before rc.standing c.name c.extra) (w : Worker)
    (he : (w.commandEvent site.env c).1 = some e) : Shows site rc e := by
  obtain ⟨seq,timestamp,acknowledged,name,extra⟩ := c
  simp only at h
  cases h with
  | opModeList =>
    obtain rfl := Option.some.inj he
    rfl
  | @inited c _ _ hstate hopmode hne =>
    obtain rfl : Event.opModeInited c.extra = e := Option.some.inj he
    rw [Shows,if_neg hne]
    exact ⟨hstate,hopmode⟩
  | stopped hstate =>
    obtain rfl : Event.opModeInited DEFAULT_OP_MODE = e := Option.some.inj he
    rw [Shows,if_pos rfl]
    exact hstate
  | running _ _ hstate hopmode =>
    obtain rfl := Option.some.inj he
    exact ⟨hstate,hopmode⟩
  | @stream available hcam =>
    have hread : (StdText.trim (if available then "true" else "false").toList == "true".toList) =
        available := by cases available <;> decide +kernel
    have hevent : some (Event.webcamAvailable (StdText.trim (if available then "true" else "false").toList ==
        "true".toList)) = some e := he
    rw [hread] at hevent
    obtain rfl := Option.some.inj hevent
    exact hcam
  | activeConfig =>
    obtain rfl := Option.some.inj he
    rfl
  | configs =>
    obtain rfl := Option.some.inj he
    rfl
  | savedXml _ _ hxml =>
    obtain rfl := Option.some.inj he
    obtain ⟨config,-,hsaved⟩ := Option.bind_eq_some_iff.mp hxml
    exact .inr ⟨_,hsaved⟩
  | cannedXml =>
    obtain rfl := Option.some.inj he
    exact .inl rfl
  | devices =>
    obtain rfl := Option.some.inj he
    rfl
  | scan =>
    obtain rfl := Option.some.inj he
    rfl
  | stacktrace hstate =>
    obtain rfl := Option.some.inj he
    exact ⟨rfl,hstate⟩
  | frameBegin =>
    have hnone : none = some e := he
    cases hnone
  | frameChunk =>
    have hchunk : (w.handleFrameChunk site.env _).1 = some e := he
    obtain ⟨frames,hnone|⟨data,hshow|⟨-,hask⟩⟩⟩ := handleFrameChunk_eq site.env w
      _
    · rw [hnone] at hchunk
      cases hchunk
    · rw [hshow] at hchunk
      obtain rfl := Option.some.inj hchunk
      trivial
    · rw [hask] at hchunk
      obtain rfl := Option.some.inj hchunk
      trivial

theorem message_telemetry {t : Telemetry}
    (hm : FakeRc.Message site.rcEnv a before after (dst,.telemetry t)) : after.state = t.robotState := by
  cases hm with
  | telemeters => rfl
  | battery => rfl

theorem message_heartbeat {hb : Heartbeat}
    (hm : FakeRc.Message site.rcEnv a before after (dst,.heartbeat hb)) : before.state = hb.robotState := by
  cases hm with
  | beats => rfl

/-- A packet between two states of the controller says nothing but what is so in one of them. -/
theorem message_shows (hm : FakeRc.Message site.rcEnv a before after (dst,p)) (hread : p.ReadsAs q)
    (ht : Tells site.env q e) : Shows site before e ∨ Shows site after e := by
  cases ht with
  | @state _ state hs =>
    cases hread with
    | self =>
      cases p with
      | heartbeat hb => exact .inl ((message_heartbeat hm).trans (Option.some.inj hs))
      | telemetry t => exact .inr ((message_telemetry hm).trans (Option.some.inj hs))
      | _ => cases hs
    | heartbeat hsame => exact .inl ((message_heartbeat hm).trans (hsame.symm.trans (Option.some.inj hs)))
    | telemetry hsame => exact .inr ((message_telemetry hm).trans (hsame.symm.trans (Option.some.inj hs)))
    | ack => cases hs
  | telemetry t =>
    cases hread with
    | self => exact .inr (message_telemetry hm)
    | telemetry hsame => exact .inr ((message_telemetry hm).trans hsame.symm)
  | @command c _ w hack he =>
    cases hread with
    | self =>
      cases hm with
      | acks => exact absurd hack (by simp [Command.ackOf])
      | notes _ hc => exact .inr (notes_show hc w he)
    | ack hacked => exact absurd (hacked.symm.trans hack) (by simp)

theorem message_connects (hm : FakeRc.Message site.rcEnv a before after (dst,p)) (hread : p.ReadsAs q)
    (hbusy : isBusyReply q = false) : after.ds = some dst := by
  cases hm with
  | refuses => cases hread with
    | self => exact absurd hbusy (by decide)
  | accepts _ _ h => exact h
  | beats _ h => exact h
  | telemeters h => exact h
  | battery h => exact h
  | acks _ _ h => exact h
  | notes h => exact h

theorem message_refuses (hm : FakeRc.Message site.rcEnv a before after (dst,p)) (hread : p.ReadsAs q)
    (hbusy : isBusyReply q = true) : before.heldAgainst a.now dst = true := by
  cases hm with
  | refuses _ h => exact h
  | accepts => cases hread with
    | self => exact absurd hbusy (by decide)
  | beats => cases hread <;> exact absurd hbusy Bool.false_ne_true
  | telemeters => cases hread <;> exact absurd hbusy Bool.false_ne_true
  | battery => cases hread <;> exact absurd hbusy Bool.false_ne_true
  | acks => cases hread <;> exact absurd hbusy Bool.false_ne_true
  | notes => cases hread <;> exact absurd hbusy Bool.false_ne_true

end Messages

section Runs

/-- What an entry says of the controller was so at some moment of the run. -/
def TrueOnce (site : Site) (d0 : Deployment) (acts : List Act) (before : List Entry) : Entry → Prop
  | .event (.connected src) =>
    src = site.controller → Once (act site) d0 acts fun d => d.rc.ds = some site.station
  | .event (.peerBusy src) => src = site.controller →
    Once (act site) d0 acts fun d => ∃ now, d.rc.heldAgainst now site.station = true
  | .event e => sessionOf before = some site.controller →
    Once (act site) d0 acts fun d => Shows site d.rc e
  | _ => True

theorem hears_said (hsent : d0.rc.sent = []) {i : Input}
    (hi : Delivers site (run site d0 acts) (.station i)) (h : Hears i site.controller q) :
    ∃ p, SaidIn site d0 acts (site.station,p) ∧ p.ReadsAs q := by
  obtain ⟨data,rfl,hparse⟩ := h
  obtain ⟨p,hp,hser,hlen⟩ := hi rfl
  exact ⟨p,sent_said hsent acts _ hp,read_back hser hlen hparse⟩

theorem once_before {a : FakeRc.Arrival} (hfront : front ++ [.controller a] <+: acts)
    {P : Deployment → Prop} (h : P (run site d0 front)) : Once (act site) d0 acts P :=
  ⟨front,(List.prefix_append _ _).trans hfront,h⟩

theorem source_true (hsent : d0.rc.sent = []) {i : Input}
    (hi : Delivers site (run site d0 acts) (.station i)) {pre : List Entry} {x : Entry}
    (hx : SourceLaw site.env i pre x) : TrueOnce site d0 acts pre x := by
  have htells (e : Event) (h : ∃ src q, Hears i src q ∧ sessionOf pre = some src ∧ Tells site.env q e) :
      sessionOf pre = some site.controller → Once (act site) d0 acts fun d => Shows site d.rc e := by
    intro hsession
    obtain ⟨src,q,hears,hsrc,ht⟩ := h
    obtain rfl := Option.some.inj (hsrc.symm.trans hsession)
    obtain ⟨p,⟨front,a,hfront,hm⟩,hread⟩ := hears_said hsent hi hears
    rcases message_shows hm hread ht with hshows|hshows
    · exact once_before hfront hshows
    · exact ⟨_,hfront,hshows⟩
  cases x with
  | event e =>
    cases e with
    | connected src =>
      rintro rfl
      obtain ⟨q,hears,hbusy⟩ := hx
      obtain ⟨p,⟨front,a,hfront,hm⟩,hread⟩ := hears_said hsent hi hears
      exact ⟨_,hfront,message_connects hm hread hbusy⟩
    | peerBusy src =>
      rintro rfl
      obtain ⟨q,hears,hbusy⟩ := hx
      obtain ⟨p,⟨front,a,hfront,hm⟩,hread⟩ := hears_said hsent hi hears
      exact once_before hfront ⟨a.now,message_refuses hm hread hbusy⟩
    | disconnected => exact fun _ => .now trivial
    | protocolError text => exact fun _ => .now trivial
    | _ => exact htells _ hx
  | _ => trivial

theorem TrueOnce.later {pre : List Entry} {x : Entry} (h : TrueOnce site d0 front pre x)
    (hfront : front <+: acts) : TrueOnce site d0 acts pre x := by
  cases x with
  | event e => cases e <;> exact fun hs => (h hs).later hfront
  | _ => trivial

theorem run_true (hsound : d0.Sound) (hsent : d0.rc.sent = []) (hlog : d0.log = [])
    (h : Lawful (act site) (Delivers site) d0 acts) : Each (TrueOnce site d0 acts) (run site d0 acts).log := by
  refine h.induction (I := fun acts d => Each (TrueOnce site _ acts) d.log) (hlog ▸ each_nil) ?_
  intro acts x _ heach hx
  have hlater : Each (TrueOnce site d0 (acts ++ [x])) (run site d0 acts).log :=
    heach.mono fun _ _ _ he => he.later (List.prefix_append _ _)
  cases x with
  | controller a => exact hlater
  | station i =>
    obtain ⟨-,hsourced⟩ := act_station site (run_sound site hsound acts) i
    refine hlater.extend (hsourced.mono fun pre e _ he => ?_)
    exact (source_true hsent hx he).later (List.prefix_append _ _)

/-- Whatever the network loses, repeats, delays or reorders, and whatever strangers send: at each
event of a session with the controller there was a moment at which the controller was so. -/
theorem shown_true (site : Site) (receiver : Option ℕ) (now : ℕ) (phantomUntil : Option ℕ)
    (acts : List Act)
    (h : Lawful (act site) (Delivers site) (start site receiver now phantomUntil) acts) :
    Each (TrueOnce site (start site receiver now phantomUntil) acts)
      (run site (start site receiver now phantomUntil) acts).log :=
  run_true (start_sound site receiver now phantomUntil) rfl rfl h

theorem meeting_true : Each (TrueOnce field (start field none 0 none) meeting)
    (run field (start field none 0 none) meeting).log :=
  shown_true field none 0 none meeting (by decide +kernel)

end Runs

end Deployment
end Robocol
