import EventEnvelope.Proofs.ClockReading
import EventEnvelope.Proofs.OlderRecord
import EventEnvelope.Proofs.PublishedRecords
import EventEnvelope.Proofs.RecordRoundTrip

/-! What the bytes of a record say about where it comes from. The channel of a standardized record
starts with a symbol, that of an older one with plain text, whatever the symbol spells. Two
operations may share the topic of their older records; then one puts keys behind it and the other
does not. Main statement: records with the same bytes are of the same kind, and older ones are of
the same operation and equal. -/

namespace EventEnvelope

variable {σ τ : Type}

namespace Operation

/-- Topic and number of keys tell the older channels of all operations apart. -/
theorem eq_of_legacyChannel {op op' : Operation}
    (topic : op.layout.legacyTopic = op'.layout.legacyTopic)
    (keys : op.layout.legacyKeys.length = op'.layout.legacyKeys.length) : op = op' := by
  have apart : ∀ x ∈ all, ∀ y ∈ all, x.layout.legacyTopic = y.layout.legacyTopic →
      x.layout.legacyKeys.length = y.layout.legacyKeys.length → x = y := by decide +kernel
  exact apart op op.mem_all op' op'.mem_all topic keys

/-- No key of an older channel may be left out. -/
theorem build_legacyChannel {op : Operation} {args : CallerArguments} {s s' : Surroundings}
    {e : Emission} (h : op.build args s = (.ok e, s')) :
    ∃ keys, e.legacy.channel = .topic op.layout.legacyTopic :: keys ∧
      keys.length = op.layout.legacyKeys.length := by
  obtain ⟨m, emitter, now, made⟩ := build_makes h
  refine ⟨_, made.channel, List.filterMap_length_eq_length.mpr ?_⟩
  intro f hf
  obtain ⟨listed, required, _⟩ :=
    op.placed (List.mem_append_left _ hf) (op.early_of_legacyKeys f hf)
  obtain ⟨v, _, value⟩ := made.value_of_required listed required
  simp [value]

end Operation

/-- What a record is: the standardized one of a request, or the older one of an operation. -/
inductive Origin
  | standard
  | older (op : Operation)
deriving DecidableEq, Repr

/-- The records that a turn has to publish, each with what it is. -/
inductive Turn.Publishes (turn : Turn σ) : Origin → Publication → Prop
  | standard {r : Records} (built : turn.built = .ok r) :
      Publishes turn .standard (r.standard.publication turn.call.emitter.root)
  | older {op : Operation} {positional : List Datum} {named : List (String × Datum)} {r : Records}
      {p : Publication} (asked : turn.call.request = .operation op positional named)
      (built : turn.built = .ok r) (legacy : r.legacy = some p) : Publishes turn (.older op) p

/-- Every attempt is one at a record that some turn has to publish. -/
theorem publishes_of_mem_attempts {t : Transport σ} {w : World σ} {cs : List Call} {a : Attempt}
    (h : a ∈ attempts t w cs) :
    ∃ turn ∈ turns t w cs, ∃ origin, turn.Publishes origin a.record := by
  obtain ⟨turn, listed, r, built, published⟩ := mem_attempts h
  refine ⟨turn, listed, ?_⟩
  rcases List.mem_cons.mp published with standard | older
  · exact ⟨.standard, standard ▸ .standard built⟩
  · have legacy := Option.mem_toList.mp older
    cases asked : turn.call.request with
    | operation op positional named => exact ⟨.older op, .older asked built legacy⟩
    | standard positional named =>
      have made : turn.call.request.Builds _ _ r := Request.builds_of_build (Prod.ext built rfl)
      rw [asked] at made
      cases made
      cases legacy

/-- A record, and what a consumer finds in its place. -/
inductive Origin.Shows : Origin → Publication → Publication → Prop
  | standard (p : Publication) (root : Symbol) (rest : List Datum) (payload : Datum) :
      Shows .standard p ⟨.symbol root :: rest, payload⟩
  | older (op : Operation) {p : Publication} {keys : List Datum}
      (channel : p.channel = .topic op.layout.legacyTopic :: keys)
      (length : keys.length = op.layout.legacyKeys.length) :
      Shows (.older op) p ⟨.plain op.layout.legacyTopic.id :: keys, p.payload⟩

namespace Origin.Shows

variable {origin origin' : Origin} {p p' q : Publication}

/-- The head of the channel tells the two kinds of record apart. -/
theorem head (h : origin.Shows p q) : ∃ first, q.channel.head? = some first ∧
    ((∃ root, first = .symbol root) ↔ origin = .standard) ∧
      ((∃ s, first = .plain s) ↔ origin ≠ .standard) := by
  cases h with
  | standard p root rest payload =>
    exact ⟨.symbol root, rfl, by simp [Datum.symbol], by simp [Datum.symbol, Datum.plain]⟩
  | older op channel length =>
    exact ⟨.plain op.layout.legacyTopic.id, rfl, by simp [Datum.symbol, Datum.plain],
      by simp [Datum.plain]⟩

/-- What is found says what the record is, and of an older record nothing is lost. -/
theorem unique (h : origin.Shows p q) (h' : origin'.Shows p' q) :
    origin' = origin ∧ (origin ≠ .standard → p' = p) := by
  generalize found : q = q' at h'
  cases h with
  | standard p root rest payload =>
    cases h' with
    | standard => exact ⟨rfl, fun older => absurd rfl older⟩
    | older => cases found
  | older op channel length =>
    cases h' with
    | standard => cases found
    | older op' channel' length' =>
      injection found with heads payload
      injection heads with first keys
      have topic : op.layout.legacyTopic = op'.layout.legacyTopic :=
        Topic.id_injective (by simpa [Datum.plain] using first)
      have counts : op.layout.legacyKeys.length = op'.layout.legacyKeys.length := by
        rw [← length, ← length', keys]
      obtain rfl := Operation.eq_of_legacyChannel topic counts
      have channels : p'.channel = p.channel := by rw [channel, channel', keys]
      refine ⟨rfl, fun _ => ?_⟩
      cases p
      cases p'
      cases channels
      cases payload
      rfl

end Origin.Shows

/-- A record that was written is found by whoever reads the bytes. -/
theorem Turn.Publishes.shows {turn : Turn σ} {origin : Origin} {p : Publication} {bs : Bytes}
    (h : turn.Publishes origin p) (integers : turn.before.surroundings.TellsIntegers)
    (written : p.encode = .ok bs) :
    ∃ q, (Publication.decode bs).outcome = (.ok q, []) ∧ origin.Shows p q := by
  cases h with
  | @standard r built =>
    have typed := Request.standard_isTyped (Prod.ext built rfl)
    have carried := Publication.encode_portable
      (p := r.standard.publication turn.call.emitter.root) rfl typed.isPortable_payload
      typed.free_payload
    exact ⟨_, carried.of_ok written, .standard _ _ _ _⟩
  | @older op positional named r p asked made legacy =>
    have builds := Request.builds_of_build (Prod.ext made rfl)
    rw [asked] at builds
    cases builds with
    | operation bound built =>
      cases legacy
      obtain ⟨topic, vs, channel, carried⟩ := (Operation.build_isLegacy integers built).encode
      obtain ⟨keys, channel', length⟩ := Operation.build_legacyChannel built
      cases channel.symm.trans channel'
      exact ⟨_, carried.of_ok written, .older op channel length⟩

section Sessions

variable (t : Transport σ) (w : World σ) (cs : List Call) (u : Transport τ) (w' : World τ)
  (cs' : List Call)

/-- Two sessions of any emitters, on clocks that tell integers. Every attempt is one at a record
that some turn has to publish; a consumer of its bytes finds a symbol at the head of the channel
when it is standardized and plain text when it is older; and no record of the other session has the
same bytes unless it is of the same kind, and if older, of the same operation and the same record.
-/
theorem attempts_identified
    (integers : ∀ turn ∈ turns t w cs, turn.before.surroundings.TellsIntegers)
    (integers' : ∀ turn ∈ turns u w' cs', turn.before.surroundings.TellsIntegers) :
    (∀ a ∈ attempts t w cs, ∃ turn ∈ turns t w cs, ∃ origin, turn.Publishes origin a.record) ∧
      ∀ turn ∈ turns t w cs, ∀ origin p bs, turn.Publishes origin p → p.encode = .ok bs →
        (∃ q first, (Publication.decode bs).outcome = (.ok q, []) ∧
          q.channel.head? = some first ∧ ((∃ root, first = .symbol root) ↔ origin = .standard) ∧
          ((∃ s, first = .plain s) ↔ origin ≠ .standard)) ∧
        ∀ turn' ∈ turns u w' cs', ∀ origin' p', turn'.Publishes origin' p' →
          p'.encode = .ok bs → origin' = origin ∧ (origin ≠ .standard → p' = p) := by
  refine ⟨fun a ha => publishes_of_mem_attempts ha, ?_⟩
  intro turn listed origin p bs published written
  obtain ⟨q, read, shown⟩ := published.shows (integers turn listed) written
  obtain ⟨first, head, kinds⟩ := shown.head
  refine ⟨⟨q, first, read, head, kinds⟩, ?_⟩
  intro turn' listed' origin' p' published' written'
  obtain ⟨q', read', shown'⟩ := published'.shows (integers' turn' listed') written'
  have same : q' = q := by
    rw [read] at read'
    cases read'
    rfl
  exact shown.unique (same ▸ shown')

end Sessions

/-- A proposal, and the proposal of an upgrade, below a root that is spelled as the topic of both
older records. -/
def Call.proposals : List Call :=
  [.operation .proposalCreated [.address ⟨"alice"⟩, .number 1, .plain "budget", .plain "spend"] [],
    .operation .upgradeProposed [.address ⟨"alice"⟩, .number 1, .plain "hash", .address ⟨"vault"⟩,
      .plain "budget", .number 2, .number 3600] []].map fun q =>
    ⟨⟨⟨"propose"⟩, false⟩, fun _ => .ledger, q⟩

theorem attempts_identified_proposals :
    let w : World (List Publication) := ⟨.ledger, [], []⟩
    (∀ turn ∈ turns .keeping w Call.proposals, turn.before.surroundings.TellsIntegers) ∧
    ∃ turn ∈ turns .keeping w Call.proposals, ∃ turn' ∈ turns .keeping w Call.proposals,
      ∃ p p', turn.Publishes (.older .proposalCreated) p ∧
        turn'.Publishes (.older .upgradeProposed) p' ∧ p.channel.head? = p'.channel.head? ∧
        ∃ bs, p.encode = .ok bs ∧ p'.encode ≠ .ok bs := by
  intro w
  have integers : ∀ turn ∈ turns .keeping w Call.proposals,
      turn.before.surroundings.TellsIntegers := by
    intro turn listed
    simp only [Call.proposals, List.map_cons, List.map_nil, turns, List.mem_cons, List.not_mem_nil,
      or_false] at listed
    rcases listed with rfl | rfl <;> exact Surroundings.ledger_tellsIntegers
  obtain ⟨turn, turn', both, p, p', published, published', heads, bs, written⟩ :
      ∃ turn turn', turns .keeping w Call.proposals = [turn, turn'] ∧
        ∃ p p', turn.Publishes (.older .proposalCreated) p ∧
          turn'.Publishes (.older .upgradeProposed) p' ∧ p.channel.head? = p'.channel.head? ∧
          ∃ bs, p.encode = .ok bs :=
    ⟨_, _, rfl, _, _, .older rfl rfl rfl, .older rfl rfl rfl, rfl, _, rfl⟩
  have listed : turn ∈ turns .keeping w Call.proposals := by simp [both]
  have listed' : turn' ∈ turns .keeping w Call.proposals := by simp [both]
  refine ⟨integers, turn, listed, turn', listed', p, p', published, published', heads, bs, written,
    fun same => ?_⟩
  have identified := (attempts_identified .keeping w Call.proposals .keeping w Call.proposals
    integers
    integers).2 turn listed _ p bs published written
  cases (identified.2 turn' listed' _ p' published' same).1

end EventEnvelope
