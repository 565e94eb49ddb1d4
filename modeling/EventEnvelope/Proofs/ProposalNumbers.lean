import EventEnvelope.Proofs.Accounting
import EventEnvelope.Proofs.OlderRecord
import EventEnvelope.Proofs.PublishedRecords

/-! The numbers of proposals. Eight operations are about a proposal and put its number into both of
their records: among the data and under a key of the standardized one, and in front of the older
one. Where that is a struct, it refuses a negative number; a row takes any. Main statement: over a
session of such operations every record has the number that the caller gave, and a negative one only
comes from the three operations with a row; the other five publish nothing for a negative number. -/

namespace EventEnvelope

variable {σ : Type}

/-- The record is about the proposal with this number. -/
inductive Publication.IsOfProposal (n : Int) : Publication → Prop
  | standard {e : Envelope} (root : Symbol) (data : e.at? (.data 0) = some (.number n))
      (metadata : e.at? (.key .proposalId) = some (.number n)) :
      IsOfProposal n (e.publication root)
  | row {channel rest : List Datum} : IsOfProposal n ⟨channel, .tuple (.number n :: rest)⟩
  | struct {channel : List Datum} {s : LegacyStruct}
      (held : s.get? .proposalId = some (.number n)) : IsOfProposal n ⟨channel, .struct s⟩

namespace Operation

/-- The operations about a proposal. -/
def governing : List Operation :=
  [vote, proposalCreated, proposalExecuted, proposalApproved, proposalRejected, proposalCancelled,
    upgradeProposed, upgradeExecuted]

/-- Those whose older record is a row, which takes a number of any sign. -/
def rowGoverning : List Operation := [vote, proposalCreated, proposalExecuted]

theorem proposalId_asked {op : Operation} (governs : op ∈ governing) :
    Field.proposalId ∈ op.layout.params ∧ Field.proposalId ∉ op.layout.optional ∧
      op.layout.holds .proposalId (.data 0) = true ∧
      op.layout.holds .proposalId (.key .proposalId) = true := by
  revert op
  decide

/-- The number stands in front of a row, or first in a struct. -/
theorem legacy_of_governing {op : Operation} (governs : op ∈ governing) :
    (op ∈ rowGoverning ∧ ∃ fs, op.layout.legacy = .row (.proposalId :: fs)) ∨
      op ∉ rowGoverning ∧ ∃ kind fs, op.layout.legacy = .struct kind ∧
        kind.fields = .proposalId :: fs := by
  simp only [governing, List.mem_cons, List.not_mem_nil, or_false] at governs
  rcases governs with rfl | rfl | rfl | rfl | rfl | rfl | rfl | rfl
  case inl | inr.inl | inr.inr.inl => exact .inl ⟨by decide, _, rfl⟩
  all_goals exact .inr ⟨by decide, _, _, rfl, rfl⟩

end Operation

/-- A struct that was filled with a number in front holds that number, which is not negative. -/
theorem Layout.proposalId_of_read {a : Assignment} {now : Datum} {kind : LegacyKind}
    {fs : List Field} {s : LegacyStruct} {n : Int} (first : kind.fields = .proposalId :: fs)
    (own : a .proposalId = some (.number n)) (h : kind.read (structFields a now kind) = .ok s) :
    s.get? .proposalId = some (.number n) ∧ 0 ≤ n := by
  have found : Datum.get? (structFields a now kind) Field.proposalId.name
      = some (Value.number n).toDatum := by
    rw [structFields, first, List.filterMap_cons]
    simp [own, Datum.get?, Datum.plain, Datum.content?, Text.content]
  obtain ⟨v, read, held⟩ := LegacyKind.get?_of_read h (f := .proposalId) (by simp [first])
  have same := Coerce.eq_of_value rfl (LegacyKind.value_of_readField found read)
  have fits := (Value.fits_iff (f := .proposalId) (v := v.1) (by rw [same]; rfl)).mp v.2
  exact ⟨same ▸ held, fits rfl n same⟩

namespace Operation

variable {op : Operation} {args : CallerArguments} {s s' : Surroundings} {e : Emission}

/-- Both records of an operation about a proposal have the number that the caller gave. -/
theorem isOfProposal_of_build (governs : op ∈ governing) (h : op.build args s = (.ok e, s')) :
    ∃ n, args .proposalId = .number n ∧ (∀ root, (e.standard.publication root).IsOfProposal n) ∧
      e.legacy.IsOfProposal n ∧ (n < 0 → op ∈ rowGoverning) := by
  obtain ⟨m, emitter, now, made⟩ := build_makes h
  obtain ⟨listed, required, data, metadata⟩ := proposalId_asked governs
  obtain ⟨v, value, own⟩ := made.value_of_required listed required
  obtain ⟨n, admitted, rfl⟩ := Option.map_eq_some_iff.mp value
  have given := (Admission.integer_eq_ok (eq_ok_of_toOption admitted)).1
  have standard (root : Symbol) : (e.standard.publication root).IsOfProposal n :=
    .standard root (made.at?_eq made.distinct own rfl data)
      (made.at?_eq made.distinct own rfl metadata)
  have payload := made.payload
  have older : e.legacy = ⟨e.legacy.channel, e.legacy.payload⟩ := rfl
  -- A row takes the number as it is; a struct holds it against a bound of its own.
  rcases legacy_of_governing governs with ⟨free, fs, row⟩ | ⟨_, kind, fs, struct, first⟩
  · rw [row, Layout.legacyPayload, List.filterMap_cons] at payload
    simp only [Layout.rowValue, own, Option.map_some] at payload
    refine ⟨n, given, standard, ?_, fun _ => free⟩
    rw [older, ← Except.ok.inj payload]
    exact .row
  · rw [struct] at payload
    obtain ⟨held, read, same⟩ := eq_ok_of_map payload
    obtain ⟨number, natural⟩ := Layout.proposalId_of_read first own read
    refine ⟨n, given, standard, ?_, fun negative => absurd negative (Int.not_lt.mpr natural)⟩
    rw [older, ← same]
    exact .struct number

end Operation

/-- The request calls the operation, which is about a proposal, with this number. -/
inductive Request.Asks (op : Operation) (n : Int) : Request → Prop
  | call {positional : List Datum} {named : List (String × Datum)} {args : CallerArguments}
      (governs : op ∈ Operation.governing) (bound : op.bind positional named = .ok args)
      (number : args .proposalId = .number n) : Asks op n (.operation op positional named)

def Request.IsGovernance : Request → Prop
  | operation op _ _ => op ∈ Operation.governing
  | standard _ _ => False

namespace Request

variable {q : Request} {s s' : Surroundings} {r : Records}

theorem isOfProposal_of_build (governs : q.IsGovernance) (h : q.build s = (.ok r, s')) :
    ∃ op n, q.Asks op n ∧ (∀ root, ∀ p ∈ r.publications root, p.IsOfProposal n) ∧
      (n < 0 → op ∈ Operation.rowGoverning) := by
  cases builds_of_build h with
  | @operation op _ _ args e bound built =>
    obtain ⟨n, number, standard, legacy, row⟩ := Operation.isOfProposal_of_build governs built
    refine ⟨op, n, .call governs bound number, fun root => ?_, row⟩
    change ∀ p ∈ [e.standard.publication root, e.legacy], p.IsOfProposal n
    rw [List.forall_mem_cons, List.forall_mem_singleton]
    exact ⟨standard root, legacy⟩
  | standard built => exact governs.elim

theorem Asks.isGovernance {op : Operation} {n : Int} (asks : q.Asks op n) : q.IsGovernance := by
  cases asks with
  | call governs bound number => exact governs

theorem Asks.isListed {op : Operation} {n : Int} (asks : q.Asks op n) : q.IsListed := by
  cases asks with
  | call governs bound number => trivial

theorem Asks.unique {op op' : Operation} {n n' : Int} (asks : q.Asks op n)
    (asks' : q.Asks op' n') : op = op' ∧ n = n' := by
  cases asks with
  | call governs bound number =>
    cases asks' with
    | call governs' bound' number' =>
      cases bound.symm.trans bound'
      cases number.symm.trans number'
      exact ⟨rfl, rfl⟩

theorem Asks.topic?_eq {op : Operation} {n : Int} (asks : q.Asks op n) :
    q.topic? = some op.topic := by
  cases asks with
  | call governs bound number =>
    rw [topic?, bound]
    rfl

theorem Asks.build_eq_error {op : Operation} {n : Int} (asks : q.Asks op n) (negative : n < 0)
    (struct : op ∉ Operation.rowGoverning) (s : Surroundings) :
    ∃ e, (q.build s).1 = .error e := by
  cases built : (q.build s).1 with
  | error e => exact ⟨e, rfl⟩
  | ok r =>
    obtain ⟨op', n', asked, _, row⟩ := isOfProposal_of_build asks.isGovernance (Prod.ext built rfl)
    obtain ⟨rfl, rfl⟩ := asks.unique asked
    exact absurd (row negative) struct

/-- What is not built ends as an encoding fault or as what the host raised, with nothing handed
over. -/
theorem ends_of_build_error {e : Failure} {topic : Topic} (em : Emitter) (t : Transport σ)
    {w : World σ} (about : q.topic? = some topic) (h : (q.build w.surroundings).1 = .error e) :
    (q.perform em t w).1 = .error (e.asEncoding topic) ∧
      (q.perform em t w).2.transport = w.transport := by
  cases q.performed em t w with
  | unasked topicless _ _ => cases about.symm.trans topicless
  | asked about' emits =>
    cases about.symm.trans about'
    cases emits with
    | rejected built ends =>
      cases h.symm.trans built
      exact ⟨ends.reply, ends.transport⟩
    | refused built _ _ => cases h.symm.trans built
    | published built _ _ => cases h.symm.trans built

end Request

/-- A call with a negative number where the older record is a struct: nothing is published, and the
reply is an encoding fault where the clock answers. -/
theorem Call.turn_negative {c : Call} {op : Operation} {n : Int} (asks : c.request.Asks op n)
    (negative : n < 0) (struct : op ∉ Operation.rowGoverning) (t : Transport σ) (w : World σ) :
    (c.turn t w).made t = [] ∧ (c.turn t w).after.transport = (c.turn t w).before.transport ∧
      ∃ e, (c.turn t w).reply = .error e ∧
        ((c.turn t w).before.surroundings.Answers → ∃ fault, e = .encoding fault) := by
  have topic := asks.topic?_eq
  obtain ⟨e, built⟩ := asks.build_eq_error negative struct (w.enter c.host).surroundings
  have ends := Request.ends_of_build_error c.emitter t topic built
  have observed := Request.ends_of_build_error c.emitter t.observed
    (w := (w.enter c.host).observed) topic built
  refine ⟨congrArg Prod.snd observed.2, ends.2, _, ends.1, fun answers => ?_⟩
  exact Failure.asEncoding_of_isEncodable
    (Request.isEncodable_of_build topic asks.isListed answers built) op.topic

/-! Which numbers are taken, all other arguments being the same. -/

/-- The arguments with another number for the proposal. -/
def CallerArguments.withProposal (args : CallerArguments) (n : Int) : CallerArguments := fun f =>
  if f = .proposalId then .number n else args f

namespace Operation

variable {op : Operation} {args : CallerArguments} {s : Surroundings} {m n now : Int}

theorem legacyFields_of_rowGoverning (free : op ∈ rowGoverning) : op.legacyFields = [] := by
  revert op
  decide

theorem proposalId_mem_legacyFields (governs : op ∈ governing) (struct : op ∉ rowGoverning) :
    Field.proposalId ∈ op.legacyFields := by
  revert op
  decide

theorem Admits.bounds (governs : op ∈ governing) (h : op.Admits (args.withProposal n) s now) :
    (Datum.number n).IsAmount ∧ (op ∈ rowGoverning ∨ 0 ≤ n) := by
  have listed := (proposalId_asked governs).1
  have number : args.withProposal n .proposalId = .number n := rfl
  constructor
  · obtain ⟨_, absent⟩ | takes := h.arguments .proposalId listed
    · cases absent
    · exact takes
  · by_cases free : op ∈ rowGoverning
    · exact .inl free
    · exact .inr (h.counts .proposalId listed (proposalId_mem_legacyFields governs free) rfl n rfl)

/-- One number in range is as good as another, where the older record leaves it free or it is not
negative. -/
theorem Admits.renumbered (h : op.Admits (args.withProposal m) s now)
    (range : (Datum.number n).IsAmount) (bounded : op ∈ rowGoverning ∨ 0 ≤ n) :
    op.Admits (args.withProposal n) s now := by
  have other (f : Field) (apart : f ≠ .proposalId) :
      args.withProposal n f = args.withProposal m f := by
    simp only [CallerArguments.withProposal, if_neg apart]
  refine ⟨?_, ?_, ?_, h.identity, h.clock, h.version⟩
  · intro f listed
    by_cases same : f = .proposalId
    · subst same
      exact .inr range
    · rw [Lacks, other f same]
      exact h.arguments f listed
  · intro f listed carried count k own
    by_cases same : f = .proposalId
    · subst same
      cases own
      refine bounded.resolve_left fun free => ?_
      rw [legacyFields_of_rowGoverning free] at carried
      cases carried
    · exact h.counts f listed carried count k (other f same ▸ own)
  · intro claimed base bonus
    rw [other .baseRewards (by decide), other .bonusRewards (by decide)]
    exact h.total claimed base bonus

theorem build_returns_iff (reading : s.clock s.ticks = .value (.number now)) :
    (∃ e, (op.build args s).1 = .ok e) ↔ op.Admits args s now := by
  cases op.settles_build args reading with
  | returned run admitted _ => exact iff_of_true ⟨_, congrArg Prod.fst run⟩ admitted
  | refused run refused _ =>
    refine iff_of_false ?_ refused
    rintro ⟨e, built⟩
    rw [run] at built
    cases built

/-- A number is taken just as zero is, if it is in range and, for a struct, not negative. -/
theorem build_withProposal_iff (governs : op ∈ governing)
    (reading : s.clock s.ticks = .value (.number now)) (n : Int) :
    (∃ e, (op.build (args.withProposal n) s).1 = .ok e) ↔
      (∃ e, (op.build (args.withProposal 0) s).1 = .ok e) ∧ (Datum.number n).IsAmount ∧
        (op ∈ rowGoverning ∨ 0 ≤ n) := by
  rw [build_returns_iff reading, build_returns_iff reading]
  constructor
  · intro h
    have zero : (Datum.number 0).IsAmount := ⟨by decide, by decide⟩
    exact ⟨h.renumbered zero (.inr (Int.le_refl 0)), h.bounds governs⟩
  · rintro ⟨h, range, bounded⟩
    exact h.renumbered range bounded

end Operation

/-- In a session of operations about proposals, every record that is published has the number that
its caller gave, and that is negative only for the three operations with a row. The other five
publish nothing for a negative number and end in an encoding fault. What a number does to a call is
just that: otherwise it is taken if zero is, and if it is in range. -/
theorem attempts_isOfProposal (t : Transport σ) (w : World σ) {cs : List Call}
    (governed : ∀ c ∈ cs, c.request.IsGovernance) :
    (∀ a ∈ attempts t w cs, ∃ turn ∈ turns t w cs, ∃ op n, turn.call.request.Asks op n ∧
      a.record.IsOfProposal n ∧ (n < 0 → op ∈ Operation.rowGoverning)) ∧
    (∀ turn ∈ turns t w cs, ∀ op n, turn.call.request.Asks op n → n < 0 →
      op ∉ Operation.rowGoverning →
        turn.made t = [] ∧ turn.after.transport = turn.before.transport ∧
          ∃ e, turn.reply = .error e ∧
            (turn.before.surroundings.Answers → ∃ fault, e = .encoding fault)) ∧
    ∀ op ∈ Operation.governing, ∀ (args : CallerArguments) (s : Surroundings) (now n : Int),
      s.clock s.ticks = .value (.number now) →
        ((∃ e, (op.build (args.withProposal n) s).1 = .ok e) ↔
          (∃ e, (op.build (args.withProposal 0) s).1 = .ok e) ∧ (Datum.number n).IsAmount ∧
            (op ∈ Operation.rowGoverning ∨ 0 ≤ n)) := by
  have taken {turn : Turn σ} (listed : turn ∈ turns t w cs) :
      ∃ c ∈ cs, ∃ w', turn = c.turn t w' := by
    obtain ⟨c, hc, w', _, same⟩ :=
      exists_of_mem_turns (P := fun _ => True) (fun _ _ _ => trivial) trivial listed
    exact ⟨c, hc, w', same⟩
  refine ⟨?_, ?_, ?_⟩
  · intro a ha
    obtain ⟨turn, listed, r, built, published⟩ := mem_attempts ha
    obtain ⟨c, hc, w', rfl⟩ := taken listed
    obtain ⟨op, n, asks, numbered, row⟩ :=
      Request.isOfProposal_of_build (governed c hc) (Prod.ext built rfl)
    exact ⟨_, listed, op, n, asks, numbered _ _ published, row⟩
  · intro turn listed op n asks negative struct
    obtain ⟨c, _, w', rfl⟩ := taken listed
    exact Call.turn_negative asks negative struct t w'
  · intro op governs args s now n reading
    exact Operation.build_withProposal_iff governs reading n

def Call.votes (proposal : Int) : Call :=
  .onLedger (.operation .vote
    [.address ⟨"bob"⟩, .number proposal, .plain "yes", .number 1] [])

def Call.rejects (proposal : Int) : Call :=
  .onLedger (.operation .proposalRejected [.address ⟨"alice"⟩] [("proposal_id", .number proposal)])

theorem Call.asks_votes (proposal : Int) : (Call.votes proposal).request.Asks .vote proposal :=
  .call (by decide) rfl rfl

theorem Call.asks_rejects (proposal : Int) :
    (Call.rejects proposal).request.Asks .proposalRejected proposal :=
  .call (by decide) rfl rfl

/-- A vote and a rejection, and a rejection with a negative number. -/
theorem attempts_isOfProposal_council :
    let cs := [Call.votes 7, Call.rejects 7, Call.rejects (-1)]
    let w : World (List Publication) := ⟨.ledger, [], []⟩
    (∀ c ∈ cs, c.request.IsGovernance) ∧ (attempts .keeping w cs).length = 4 ∧
    (∀ a ∈ attempts .keeping w cs, ∃ turn ∈ turns .keeping w cs, ∃ op n,
      turn.call.request.Asks op n ∧ a.record.IsOfProposal n ∧
        (n < 0 → op ∈ Operation.rowGoverning)) ∧
    ∃ turn ∈ turns .keeping w cs, turn.call = .rejects (-1) ∧ turn.made .keeping = [] ∧
      ∃ fault, turn.reply = .error (.encoding fault) := by
  intro cs w
  have governed : ∀ c ∈ cs, c.request.IsGovernance := by
    rw [List.forall_mem_cons, List.forall_mem_cons, List.forall_mem_singleton]
    exact ⟨(Call.asks_votes 7).isGovernance, (Call.asks_rejects 7).isGovernance,
      (Call.asks_rejects (-1)).isGovernance⟩
  obtain ⟨numbered, refused, _⟩ := attempts_isOfProposal .keeping w governed
  have last : (Call.rejects (-1)).turn .keeping (leave .keeping w [.votes 7, .rejects 7])
      ∈ turns .keeping w cs := .tail _ (.tail _ (.head _))
  obtain ⟨unpublished, _, e, replied, encoding⟩ :=
    refused _ last .proposalRejected (-1) (Call.asks_rejects (-1)) (by decide) (by decide)
  obtain ⟨fault, rfl⟩ := encoding fun n => ⟨_, rfl⟩
  exact ⟨governed, rfl, numbered, _, last, rfl, unpublished, fault, replied⟩

/-- A vote on a proposal with a negative number is published in both forms. -/
theorem attempts_negative_vote :
    let w : World (List Publication) := ⟨.ledger, [], []⟩
    ∃ a b, attempts .keeping w [Call.votes (-1)] = [a, b] ∧ a.outcome = .ok () ∧
      b.outcome = .ok () ∧ a.record.IsOfProposal (-1) ∧ b.record.IsOfProposal (-1) := by
  intro w
  exact ⟨_, _, rfl, rfl, rfl, .standard _ rfl rfl, .row⟩

end EventEnvelope
