import EventEnvelope.Proofs.Interning

/-! Configuration that was accepted, put to use. The settings hold the root topic against the
alphabet of symbols but not against the length limit, which is a setting of its own. Main statement:
the configured root topic serves every emitter and every channel key exactly if it is within the
configured limit, and else none. -/

namespace EventEnvelope

namespace Settings

variable {env : Environment} {cfg : Settings}

theorem rootTopic_of_ofEnvironment (h : ofEnvironment env = .ok cfg) :
    read env "root_topic" "stellara_event" symbolText = .ok cfg.rootTopic := by
  obtain ⟨_, _, upTo₁₀, _, rfl⟩ := Checked.both_eq_ok h
  obtain ⟨_, _, upTo₉, _, rfl⟩ := Checked.both_eq_ok upTo₁₀
  obtain ⟨_, _, upTo₈, _, rfl⟩ := Checked.both_eq_ok upTo₉
  obtain ⟨_, _, upTo₇, _, rfl⟩ := Checked.both_eq_ok upTo₈
  obtain ⟨_, _, upTo₆, _, rfl⟩ := Checked.both_eq_ok upTo₇
  obtain ⟨_, _, upTo₅, _, rfl⟩ := Checked.both_eq_ok upTo₆
  obtain ⟨_, _, upTo₄, _, rfl⟩ := Checked.both_eq_ok upTo₅
  obtain ⟨_, _, upTo₃, _, rfl⟩ := Checked.both_eq_ok upTo₄
  obtain ⟨_, _, upTo₂, rooted, rfl⟩ := Checked.both_eq_ok upTo₃
  obtain ⟨_, _, upTo₁, _, rfl⟩ := Checked.both_eq_ok upTo₂
  obtain ⟨_, _, made, _, rfl⟩ := Checked.both_eq_ok upTo₁
  cases made
  exact rooted

/-- A root topic that was accepted is in the alphabet of symbols. -/
theorem isSymbolText_rootTopic (h : ofEnvironment env = .ok cfg) :
    Text.isSymbolText cfg.rootTopic = true := by
  have rooted := rootTopic_of_ofEnvironment h
  unfold read at rooted
  split at rooted
  · next given =>
    have checked := Checked.under_eq_ok rooted
    unfold symbolText at checked
    split at checked
    · next known => exact Except.ok.inj checked ▸ known
    · cases checked
  · rw [← Except.ok.inj rooted]
    decide

end Settings

/-- Text in the alphabet of symbols fails to be interned only by its length. -/
theorem Admission.symbolOf_of_isSymbolText {r : String} (known : Text.isSymbolText r = true)
    (limit : Nat) :
    symbolOf limit (.plain r)
      = if r.length ≤ limit then .ok ⟨r⟩ else .error (.longSymbol r limit) := by
  have symbolic : Text.isSymbol r = true := known
  have nonempty := ((Text.isSymbol_iff r).mp symbolic).1
  simp only [symbolOf, Text.content, Text.shown, CodeText.isEmpty_iff, nonempty, symbolic, if_false,
    if_true, CodeText.length, Int.ofNat_lt, ← Nat.not_le, ite_not]

/-- A root topic just as long as the limit. -/
def Environment.exchange : Environment :=
  [("STELLARA_ROOT_TOPIC", "dex_event"), ("stellara_symbol_max_length", "9")]

/-- The default root topic under a limit that has no room for it. -/
def Environment.cramped : Environment := [("STELLARA_SYMBOL_MAX_LENGTH", "4")]

def Surroundings.configured (env : Environment) : Surroundings :=
  { Surroundings.ledger with config := .ofEnvironment env }

theorem Config.settings_ofEnvironment {env : Environment} {cfg : Settings}
    (accepted : Settings.ofEnvironment env = .ok cfg) :
    (Config.ofEnvironment env).settings.1 = .ok cfg := by
  simp only [settings, ofEnvironment, accepted]

theorem Settings.ofEnvironment_exchange : ∃ cfg, ofEnvironment .exchange = .ok cfg ∧
    cfg.rootTopic = "dex_event" ∧ cfg.symbolMaxLength = 9 := ⟨_, rfl, rfl, rfl⟩

theorem Settings.ofEnvironment_cramped : ∃ cfg, ofEnvironment .cramped = .ok cfg ∧
    cfg.rootTopic = "stellara_event" ∧ cfg.symbolMaxLength = 4 := ⟨_, rfl, rfl, rfl⟩

namespace Build

variable {s : Surroundings} {env : Environment} {cfg : Settings}

theorem settings_eq_ok (inForce : s.config.settings.1 = .ok cfg) :
    ∃ s', settings s = (.ok cfg, s') ∧ s'.config.settings.1 = .ok cfg := by
  have kept := s.config.settings_fst
  rcases read : s.config.settings with ⟨r, c⟩
  rw [read] at kept inForce
  cases inForce
  refine ⟨{ s with config := c }, ?_, kept⟩
  unfold settings
  rw [read]

theorem admitted_fst {α : Type} (r : Except EncodingFault α) (s : Surroundings) :
    (admitted r s).1 = r.mapError .encoding := by
  cases r <;> rfl

theorem symbol_plain_fst (inForce : s.config.settings.1 = .ok cfg) (r : String) :
    (symbol (.plain r) s).1
      = (Admission.symbolOf cfg.symbolMaxLength (.plain r)).mapError .encoding := by
  obtain ⟨s', asked, _⟩ := settings_eq_ok inForce
  have limited : symbolLimit true s = (.ok cfg.symbolMaxLength, s') := by
    change (settings >>= fun r => pure (r.symbolMaxLength : Int)) s = _
    rw [bind_apply, asked]
    rfl
  change
    ((symbolLimit true >>= fun limit => admitted (Admission.symbolOf limit (.plain r))) s).1 = _
  rw [bind_apply, limited]
  exact admitted_fst ..

theorem root_configured (accepted : Settings.ofEnvironment env = .ok cfg)
    (inForce : s.config.settings.1 = .ok cfg) :
    (root .null s).1 = if cfg.rootTopic.length ≤ cfg.symbolMaxLength then .ok ⟨cfg.rootTopic⟩
      else .error (.encoding (.longSymbol cfg.rootTopic cfg.symbolMaxLength)) := by
  -- The settings are asked for twice, for the root topic and for the limit, and stay the same.
  obtain ⟨s', asked, kept⟩ := settings_eq_ok inForce
  change ((settings >>= fun r => symbol (.plain r.rootTopic)) s).1 = _
  rw [bind_apply, asked]
  simp only [symbol_plain_fst kept,
    Admission.symbolOf_of_isSymbolText (Settings.isSymbolText_rootTopic accepted)]
  split <;> rfl

theorem emitter_fst (rootTopic : Datum) (metered : Bool) (s : Surroundings) :
    (emitter rootTopic metered s).1 = (root rootTopic s).1.map fun r => ⟨r, metered⟩ :=
  congrArg Prod.fst (bind_pure_apply ..)

theorem channelKey_fst (eventType rootTopic : Datum) (s : Surroundings) :
    (channelKey eventType rootTopic s).1
      = (root rootTopic s).1.map fun r => [.symbol r, eventType] :=
  congrArg Prod.fst (bind_pure_apply ..)

/-- Under accepted settings, read from this environment or from one before, an emitter and a channel
key without a root topic of their own get the configured one if the configured limit leaves room for
it. If not, both fail for every topic, and with the same fault. -/
theorem emitter_returns_configured (accepted : Settings.ofEnvironment env = .ok cfg)
    (inForce : s.config.settings.1 = .ok cfg) :
    (cfg.rootTopic.length ≤ cfg.symbolMaxLength →
      (∀ metered, (emitter .null metered s).1 = .ok ⟨⟨cfg.rootTopic⟩, metered⟩) ∧
      ∀ topic, (channelKey (.topic topic) .null s).1
        = .ok [.symbol ⟨cfg.rootTopic⟩, .topic topic]) ∧
    (cfg.symbolMaxLength < cfg.rootTopic.length →
      (∀ metered, (emitter .null metered s).1
        = .error (.encoding (.longSymbol cfg.rootTopic cfg.symbolMaxLength))) ∧
      ∀ topic, (channelKey (.topic topic) .null s).1
        = .error (.encoding (.longSymbol cfg.rootTopic cfg.symbolMaxLength))) := by
  simp only [emitter_fst, channelKey_fst, root_configured accepted inForce]
  constructor
  · intro within
    simp only [if_pos within, Except.map, implies_true, and_self]
  · intro beyond
    simp only [if_neg (Nat.not_le.mpr beyond), Except.map, implies_true, and_self]

/-- The ledger under variables that make the limit as long as the root topic. -/
theorem emitter_returns_exchange :
    ∃ cfg, Settings.ofEnvironment Environment.exchange = .ok cfg ∧
      cfg.rootTopic.length = cfg.symbolMaxLength ∧
      (emitter .null true (.configured .exchange)).1 = .ok ⟨⟨"dex_event"⟩, true⟩ ∧
      (channelKey (.topic .vote) .null (.configured .exchange)).1
        = .ok [.symbol ⟨"dex_event"⟩, .topic .vote] := by
  obtain ⟨cfg, accepted, named, limited⟩ := Settings.ofEnvironment_exchange
  have served := (emitter_returns_configured (s := .configured .exchange) accepted
    (Config.settings_ofEnvironment accepted)).1 (by rw [named, limited]; decide)
  rw [named] at served
  exact ⟨cfg, accepted, by rw [named, limited]; decide, served.1 true, served.2 .vote⟩

/-- A limit below the length of the root topic is accepted, and no emitter can be had. -/
theorem emitter_fails_cramped :
    ∃ cfg, Settings.ofEnvironment Environment.cramped = .ok cfg ∧
      (emitter .null false (.configured .cramped)).1
        = .error (.encoding (.longSymbol "stellara_event" 4)) ∧
      (channelKey (.topic .mint) .null (.configured .cramped)).1
        = .error (.encoding (.longSymbol "stellara_event" 4)) := by
  obtain ⟨cfg, accepted, named, limited⟩ := Settings.ofEnvironment_cramped
  have rooted := root_configured (s := .configured .cramped) accepted
    (Config.settings_ofEnvironment accepted)
  rw [named, limited] at rooted
  have failed := rooted.trans (if_neg (by decide))
  refine ⟨cfg, accepted, ?_, ?_⟩
  · rw [emitter_fst, failed]
    rfl
  · rw [channelKey_fst, failed]
    rfl

end Build

end EventEnvelope
