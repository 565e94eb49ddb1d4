import EventEnvelope.Proofs.Accounting
import EventEnvelope.Publisher.EventLog

/-! What the counters tell about a log in memory. Every older record in the log was counted, for the
topic of the call that sent it. A standardized record was counted when its call came to an end; a
call that was cut short behind it leaves it in the log uncounted. Main statement: the standardized
records of a topic are those counted and one more for each call about it that was cut short. -/

namespace EventEnvelope

namespace PublishedRecord

/-- Whether the channel is that of a standardized record of the topic. -/
def isStandard (topic : Topic) (r : PublishedRecord) : Bool :=
  match r.channel with
  | [.text (.symbol _), .text (.topic t)] => t = topic
  | _ => false

/-- Whether the channel is one of the older format: it starts with a topic. -/
def isLegacy (r : PublishedRecord) : Bool :=
  match r.channel with
  | .text (.topic _) :: _ => true
  | _ => false

end PublishedRecord

namespace EventLog

/-- Publications as the log enters them, numbered from `first` on. -/
def entered (first : Nat) (ps : List Publication) : List PublishedRecord :=
  (ps.zipIdx first).map fun p => ⟨p.2, p.1.channel, p.1.payload⟩

theorem publish_cases (l : EventLog) (p : Publication) :
    (publish l p).outcome = .ok () ∧ (publish l p).state = l.append p ∨
    (∃ e, (publish l p).outcome = .error e) ∧ (publish l p).state = l := by
  unfold publish
  split
  · exact .inl ⟨rfl, rfl⟩
  · split
    · exact .inr ⟨⟨_, rfl⟩, rfl⟩
    · exact .inr ⟨⟨_, rfl⟩, rfl⟩
    · exact .inl ⟨rfl, rfl⟩

/-- Records handed over are entered up to the first that is refused. -/
theorem handOver_records (l : EventLog) (ps : List Publication) :
    ∃ accepted, accepted <+: ps ∧
      (Transport.handOver publish l ps).2.records
        = l.records ++ entered l.records.length accepted ∧
      ((Transport.handOver publish l ps).1 = .ok () ↔ accepted = ps) := by
  induction ps generalizing l with
  | nil =>
    unfold Transport.handOver
    exact ⟨[], List.prefix_refl _, by simp [entered], by simp⟩
  | cons p ps ih =>
    unfold Transport.handOver
    rcases publish_cases l p with ⟨accepted, state⟩ | ⟨⟨e, refused⟩, state⟩
    · rw [accepted, state]
      obtain ⟨rest, initial, records, all⟩ := ih (l.append p)
      refine ⟨p :: rest, ?_, ?_, ?_⟩
      · exact List.cons_prefix_cons.mpr ⟨rfl, initial⟩
      · dsimp only
        rw [records]
        simp [append, entered]
      · dsimp only
        rw [all, List.cons.injEq, and_iff_right rfl]
    · rw [refused, state]
      refine ⟨[], List.nil_prefix, ?_, ?_⟩
      · simp [entered]
      · simp

end EventLog

/-- An older record that a request builds goes to a channel of the older format. -/
theorem Request.legacy_channel {q : Request} {s s' : Surroundings} {r : Records} {p : Publication}
    (h : q.build s = (.ok r, s')) (legacy : r.legacy = some p) :
    ∃ topic keys, p.channel = .text (.topic topic) :: keys := by
  cases builds_of_build h with
  | operation bound built =>
    cases legacy
    obtain ⟨a, _, _, _, a', _, _, _, _, _, _, _, channel, _⟩ := Operation.build_eq_ok built
    exact ⟨_, _, channel⟩
  | standard built => cases legacy

namespace Turn

/-- What a turn added to the log. -/
def added (turn : Turn EventLog) : List PublishedRecord :=
  turn.after.transport.records.drop turn.before.transport.records.length

/-- How a turn shows in the log and in the counts of publications. It leaves both alone; or it is
cut short behind its standardized record, which stays in the log uncounted; or its records are all
in the log, and counted. -/
inductive Logs (turn : Turn EventLog) : Prop where
  | nothing (none : turn.added = [])
      (uncounted : ∀ topic, (turn.after.counters.tally topic).standard
          = (turn.before.counters.tally topic).standard ∧
        (turn.after.counters.tally topic).legacy = (turn.before.counters.tally topic).legacy)
  | cut {e : Envelope} {f : Failure} {first : Nat}
      (about : turn.call.request.topic? = some e.topic) (replied : turn.reply = .error f)
      (lone : turn.added = EventLog.entered first [e.publication turn.call.emitter.root])
      (uncounted : ∀ topic, (turn.after.counters.tally topic).standard
          = (turn.before.counters.tally topic).standard ∧
        (turn.after.counters.tally topic).legacy = (turn.before.counters.tally topic).legacy)
  | whole {r : Records} {first : Nat} (about : turn.call.request.topic? = some r.standard.topic)
      (replied : turn.reply = .ok r)
      (all : turn.added = EventLog.entered first (r.publications turn.call.emitter.root))
      (older : ∀ p, r.legacy = some p → ∃ topic keys, p.channel = .text (.topic topic) :: keys)
      (adds : turn.Adds r.standard.topic ⟨0, 0, 1, if r.legacy.isNone then 0 else 1⟩)

end Turn

theorem Tally.ofSeries_unpublished {ss : List Series} (h : ∀ s ∈ ss, s.family ≠ .published)
    (topic : Topic) : (ofSeries topic ss).standard = 0 ∧ (ofSeries topic ss).legacy = 0 := by
  constructor <;>
  · apply List.count_eq_zero.mpr
    intro listed
    exact h _ listed rfl

namespace Turn

variable (turn : Turn EventLog)

theorem added_eq {entries : List PublishedRecord} (h : turn.after.transport.records
    = turn.before.transport.records ++ entries) : turn.added = entries := by
  rw [added, h, List.drop_left]

theorem uncounted_of_unpublished (ss : List Series)
    (counters : turn.after.counters = ss.foldl Counters.bump turn.before.counters)
    (formed : turn.before.counters.IsFormed) (own : ∀ s ∈ ss, s.IsFormed ∧ s.family ≠ .published)
    (topic : Topic) : (turn.after.counters.tally topic).standard
        = (turn.before.counters.tally topic).standard ∧
      (turn.after.counters.tally topic).legacy = (turn.before.counters.tally topic).legacy := by
  obtain ⟨standard, legacy⟩ := Tally.ofSeries_unpublished (fun s hs => (own s hs).2) topic
  rw [counters, Counters.tally_foldl_bump formed (fun s hs => (own s hs).1)]
  rw [Tally.standard_add, Tally.legacy_add, standard, legacy]
  exact ⟨rfl, rfl⟩

end Turn

/-- Short of all of its records, a request hands over the standardized one at most. -/
theorem Records.prefix_publications {r : Records} {root : Symbol} {accepted : List Publication}
    (initial : accepted <+: r.publications root) (short : accepted ≠ r.publications root) :
    accepted = [] ∨ accepted = [r.standard.publication root] := by
  obtain ⟨e, legacy⟩ := r
  unfold publications at initial short
  cases accepted with
  | nil => exact .inl rfl
  | cons first rest =>
    obtain ⟨rfl, others⟩ := List.cons_prefix_cons.mp initial
    right
    cases legacy with
    | none => rw [List.prefix_nil.mp others]
    | some p =>
      cases rest with
      | nil => rfl
      | cons second rest =>
        obtain ⟨rfl, none⟩ := List.cons_prefix_cons.mp others
        rw [List.prefix_nil.mp none] at short
        exact absurd rfl short

/-- A turn that hands publications over enters those that come before the first refusal. -/
theorem Call.turn_entered (c : Call) {w : World EventLog} {ps : List Publication}
    {outcome : Except Failure Unit} {left : EventLog}
    (handed : Transport.handOver EventLog.publish w.transport ps = (outcome, left))
    (kept : (c.turn EventLog.publish w).after.transport = left) :
    ∃ accepted, accepted <+: ps ∧ (outcome = .ok () ↔ accepted = ps) ∧
      (c.turn EventLog.publish w).after.transport.records
        = w.transport.records ++ EventLog.entered w.transport.records.length accepted := by
  obtain ⟨accepted, initial, records, all⟩ := EventLog.handOver_records w.transport ps
  rw [handed] at records all
  exact ⟨accepted, initial, all, (congrArg EventLog.records kept).trans records⟩

theorem Call.turn_logs (c : Call) {w : World EventLog} (metered : c.emitter.metered = true)
    (formed : w.counters.IsFormed) :
    (c.turn EventLog.publish w).after.transport.records
        = w.transport.records ++ (c.turn EventLog.publish w).added ∧
      (c.turn EventLog.publish w).Logs := by
  have unmoved (kept : (c.turn EventLog.publish w).after.transport = w.transport) :
      (c.turn EventLog.publish w).after.transport.records
        = (c.turn EventLog.publish w).before.transport.records ++ [] := by
    rw [kept, List.append_nil]
    rfl
  cases c.request.performed c.emitter EventLog.publish (w.enter c.host) with
  | unasked topicless built ends =>
    have none := Turn.added_eq _ (unmoved ends.transport)
    rw [none]
    refine ⟨unmoved ends.transport, .nothing none fun topic => ?_⟩
    exact Turn.uncounted_of_unpublished _ [] ends.counters formed (by simp) topic
  | @asked topic about emits =>
    cases emits with
    | @rejected e built ends =>
      rw [Emitter.counted_of_metered metered] at ends
      have none := Turn.added_eq _ (unmoved ends.transport)
      rw [none]
      refine ⟨unmoved ends.transport, .nothing none fun topic => ?_⟩
      refine Turn.uncounted_of_unpublished _ _ ends.counters formed ?_ topic
      unfold Emitter.rejections
      split <;> simp [Series.encodingError, Series.IsFormed, CounterFamily.labelNames]
    | @refused r e left built refusal ends =>
      rw [Emitter.counted_of_metered metered] at ends
      rw [id_eq] at refusal
      have uncounted := (c.turn EventLog.publish w).uncounted_of_unpublished _ ends.counters formed
        (by simp [Series.publishFailure, Series.IsFormed, CounterFamily.labelNames])
      obtain ⟨accepted, initial, all, records⟩ := c.turn_entered (w := w) refusal ends.transport
      have added := (c.turn EventLog.publish w).added_eq records
      rw [added]
      refine ⟨records, ?_⟩
      -- not all of the records were entered, so that it was the standardized one at most
      have short : accepted ≠ r.publications c.emitter.root :=
        fun same => by simpa using all.mpr same
      rcases Records.prefix_publications initial short with rfl | rfl
      · exact .nothing added uncounted
      · have named := Request.topic_of_build about (Prod.ext built rfl)
        exact .cut (about.trans (congrArg some named.symm)) ends.reply added uncounted
    | @published r left built acceptance ends =>
      rw [Emitter.counted_of_metered metered] at ends
      rw [id_eq] at acceptance
      obtain ⟨accepted, _, all, records⟩ := c.turn_entered (w := w) acceptance ends.transport
      rw [all.mp rfl] at records
      have added := (c.turn EventLog.publish w).added_eq records
      rw [added]
      have named := Request.topic_of_build about (Prod.ext built rfl)
      refine ⟨records, .whole (about.trans (congrArg some named.symm)) ends.reply added ?_ ?_⟩
      · exact fun p => Request.legacy_channel (Prod.ext built rfl)
      · rw [named]
        exact Turn.adds_of_counted formed (r.isOf_series topic) (r.ofSeries_series topic)
          ends.counters

/-- How a turn that was cut short is told: it answered with a failure, though it had added to the
log. -/
def Turn.isCut (turn : Turn EventLog) (topic : Topic) : Bool :=
  turn.call.request.topic? = some topic && !turn.added.isEmpty && turn.reply matches .error _

namespace PublishedRecord

theorem isStandard_publication (e : Envelope) (root : Symbol) (n : Nat) (topic : Topic) :
    isStandard topic ⟨n, (e.publication root).channel, (e.publication root).payload⟩
      = decide (e.topic = topic) := rfl

theorem isLegacy_publication (e : Envelope) (root : Symbol) (n : Nat) :
    isLegacy ⟨n, (e.publication root).channel, (e.publication root).payload⟩ = false := rfl

variable {p : Publication} {t : Topic} {keys : List Datum}

theorem isStandard_older (h : p.channel = .text (.topic t) :: keys) (n : Nat) (topic : Topic) :
    isStandard topic ⟨n, p.channel, p.payload⟩ = false := by
  rw [h]
  rfl

theorem isLegacy_older (h : p.channel = .text (.topic t) :: keys) (n : Nat) :
    isLegacy ⟨n, p.channel, p.payload⟩ = true := by
  rw [h]
  rfl

end PublishedRecord

open PublishedRecord in
/-- In the log, the records of a request are one standardized record and the older one, if any. -/
theorem Records.countP_entered {r : Records}
    (older : ∀ p, r.legacy = some p → ∃ topic keys, p.channel = .text (.topic topic) :: keys)
    (first : Nat) (root : Symbol) (topic : Topic) :
    (EventLog.entered first (r.publications root)).countP (isStandard topic)
        = (if topic = r.standard.topic then 1 else 0) ∧
      (EventLog.entered first (r.publications root)).countP isLegacy
        = if r.legacy.isNone then 0 else 1 := by
  obtain ⟨e, legacy⟩ := r
  cases legacy with
  | none =>
    simp [EventLog.entered, publications, List.countP_cons, isStandard_publication,
      isLegacy_publication, eq_comm]
  | some p =>
    obtain ⟨t, keys, channel⟩ := older p rfl
    simp [EventLog.entered, publications, List.countP_cons, isStandard_publication,
      isLegacy_publication, isStandard_older channel, isLegacy_older channel, eq_comm]

open PublishedRecord in
theorem Turn.Logs.tally {turn : Turn EventLog} (h : turn.Logs) (topic : Topic) :
    turn.added.countP (isStandard topic) + (turn.before.counters.tally topic).standard
        = (turn.after.counters.tally topic).standard + (if turn.isCut topic then 1 else 0) ∧
      (turn.after.counters.tally topic).legacy = (turn.before.counters.tally topic).legacy
        + if turn.call.request.topic? = some topic then turn.added.countP isLegacy else 0 := by
  cases h with
  | nothing none uncounted =>
    rw [(uncounted topic).1, (uncounted topic).2]
    simp [none, isCut]
  | cut about replied lone uncounted =>
    rw [(uncounted topic).1, (uncounted topic).2]
    simp [isCut, about, replied, lone, EventLog.entered, List.countP_cons, isStandard_publication,
      isLegacy_publication]
    omega
  | @whole r first about replied all older adds =>
    obtain ⟨standard, legacy⟩ := r.countP_entered older first turn.call.emitter.root topic
    have uncut : turn.isCut topic = false := by simp [isCut, replied]
    rw [adds topic, uncut, about, all, standard, legacy]
    by_cases same : topic = r.standard.topic
    · simp [same, Nat.add_comm]
    · simp [same, Ne.symm same]

section Session

variable {w : World EventLog} {cs : List Call}

open PublishedRecord in
/-- Log and counts grow together, but for the standardized records of calls that were cut short. -/
theorem leave_log (metered : ∀ c ∈ cs, c.emitter.metered = true) (formed : w.counters.IsFormed)
    (topic : Topic) :
    let left := leave EventLog.publish w cs
    let ts := turns EventLog.publish w cs
    left.transport.records = w.transport.records ++ ts.flatMap Turn.added ∧
    (ts.flatMap Turn.added).countP (isStandard topic) + (w.counters.tally topic).standard
      = (left.counters.tally topic).standard + ts.countP (Turn.isCut · topic) ∧
    (left.counters.tally topic).legacy = (w.counters.tally topic).legacy
      + ((ts.filter (·.call.request.topic? = some topic)).flatMap Turn.added).countP isLegacy := by
  induction cs generalizing w with
  | nil => simp [leave, turns]
  | cons c cs ih =>
    rw [List.forall_mem_cons] at metered
    obtain ⟨records, logs⟩ := c.turn_logs metered.1 formed
    obtain ⟨standard, legacy⟩ := logs.tally topic
    obtain ⟨grown, standards, legacies⟩ :=
      ih metered.2 (w := (c.turn EventLog.publish w).after) (c.turn_isFormed _ formed)
    have before : (c.turn EventLog.publish w).before.counters = w.counters := rfl
    rw [before] at standard legacy
    simp only [leave_cons, turns, List.flatMap_cons]
    refine ⟨?_, ?_, ?_⟩
    · rw [grown, records, List.append_assoc]
    · rw [List.countP_append, List.countP_cons]
      omega
    · rw [legacies, legacy, List.filter_cons]
      by_cases about : (c.turn EventLog.publish w).call.request.topic? = some topic
      · simp [about, Nat.add_assoc]
      · simp [about]

open PublishedRecord in
/-- On a fresh log with fresh counters: the older records that calls about a topic left in the log
are those counted for it. The standardized ones are those counted and one more for each call about
the topic that was cut short, so that count and log agree exactly when no call was. -/
theorem log_counted (metered : ∀ c ∈ cs, c.emitter.metered = true)
    (empty : w.transport.records = []) (fresh : w.counters = []) (topic : Topic) :
    let left := leave EventLog.publish w cs
    let ts := turns EventLog.publish w cs
    let counted := left.counters.tally topic
    left.transport.records = ts.flatMap Turn.added ∧
    counted.legacy
      = ((ts.filter (·.call.request.topic? = some topic)).flatMap Turn.added).countP isLegacy ∧
    left.transport.records.countP (isStandard topic)
      = counted.standard + ts.countP (Turn.isCut · topic) ∧
    (counted.standard = left.transport.records.countP (isStandard topic) ↔
      ∀ turn ∈ ts, turn.isCut topic = false) := by
  intro left ts counted
  have formed : w.counters.IsFormed := by
    rw [fresh]
    simp [Counters.IsFormed]
  obtain ⟨records, standard, legacy⟩ := leave_log metered formed topic
  have records : left.transport.records = ts.flatMap Turn.added := by
    rw [empty, List.nil_append] at records
    exact records
  have standard : left.transport.records.countP (isStandard topic)
      = counted.standard + ts.countP (Turn.isCut · topic) := by
    rw [fresh, Counters.tally_nil, Tally.standard_zero, ← records] at standard
    exact standard
  rw [fresh, Counters.tally_nil, Tally.legacy_zero, Nat.zero_add] at legacy
  have agree : counted.standard = left.transport.records.countP (isStandard topic) ↔
      ts.countP (Turn.isCut · topic) = 0 := by
    omega
  refine ⟨records, legacy, standard, agree.trans ?_⟩
  simp only [List.countP_eq_zero, Bool.not_eq_true]

end Session

def World.deaf : World EventLog := ⟨.ledger, ⟨[.topic .transfer], []⟩, []⟩

theorem log_counted_mixed :
    let cs := Request.mixed.map Call.onLedger
    let left := leave EventLog.publish .deaf cs
    (∀ c ∈ cs, c.emitter.metered = true) ∧ World.deaf.transport.records = [] ∧
    World.deaf.counters = [] ∧ left.transport.records.length = 3 ∧
    left.transport.records.countP (PublishedRecord.isStandard .transfer)
      = (left.counters.tally .transfer).standard + 2 := by
  intro cs left
  have metered := Call.metered_onLedger Request.mixed
  have counted := (log_counted metered rfl rfl .transfer (w := .deaf)).2.2.1
  have cut : (turns EventLog.publish .deaf cs).countP (Turn.isCut · .transfer) = 2 := by
    decide +kernel
  rw [cut] at counted
  exact ⟨metered, rfl, rfl, by decide +kernel, counted⟩

/-- A transfer whose older record is refused leaves a standardized record that nobody counted. -/
theorem log_uncounted_transfer :
    let call := Call.onLedger (.operation .transfer
      [.address ⟨"alice"⟩, .address ⟨"bob"⟩, .number 1, .address ⟨"token"⟩] [])
    let left := leave EventLog.publish .deaf [call]
    left.transport.records.countP (PublishedRecord.isStandard .transfer) = 1 ∧
      left.counters.tally .transfer = ⟨0, 1, 0, 0⟩ := by
  decide +kernel

end EventEnvelope
