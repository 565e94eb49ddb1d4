import EventEnvelope.Proofs.AlikeSurroundings
import EventEnvelope.Proofs.LogCounts
import EventEnvelope.Proofs.PublishedRecords
import EventEnvelope.SteadyClock

/-! Time that never goes back. A steady clock tells the latest of the whole numbers that it has
read, and a reading that it refuses leaves no trace. Building a record stamps it with one reading,
taken while it is built. Main statement: on a steady clock that all calls share, the times of the
standardized records never decrease, and none is below zero. -/

namespace EventEnvelope

variable {σ : Type}

namespace SteadyClock

variable {c : SteadyClock} {raw : Datum}

/-- The latest of the whole numbers among the readings, and not before `earliest`. Readings that are
no numbers do not count. -/
def latest (earliest : Int) (raws : List Datum) : Int :=
  (raws.filterMap fun raw => (Reading.seconds raw).toOption).foldl max earliest

theorem read_of_ok {n : Int} (accepted : Reading.seconds raw = .ok n) :
    c.read raw = (.ok (max c.last n), { c with last := max c.last n }) := by
  have raised : (if n < c.last then c.last else n) = max c.last n := by omega
  simp only [read, accepted, raised]

theorem read_of_error {e : Failure} (refused : Reading.seconds raw = .error e) :
    c.read raw = (.error e, c) := by
  simp only [read, refused]

/-- One more reading: its answer is the latest number with it, unless it is refused. -/
theorem read_eq (c : SteadyClock) (raw : Datum) : c.read raw
    = ((Reading.seconds raw).map fun _ => latest c.last [raw],
      { c with last := latest c.last [raw] }) := by
  cases told : Reading.seconds raw with
  | error e =>
    rw [read_of_error told]
    simp [latest, told, Except.toOption, Except.map]
  | ok n =>
    rw [read_of_ok told]
    simp [latest, told, Except.toOption, Except.map]

theorem latest_append (earliest : Int) (xs ys : List Datum) :
    latest earliest (xs ++ ys) = latest (latest earliest xs) ys := by
  simp [latest, List.filterMap_append, List.foldl_append]

theorem le_latest (earliest : Int) (raws : List Datum) : earliest ≤ latest earliest raws := by
  unfold latest
  induction raws.filterMap fun raw => (Reading.seconds raw).toOption generalizing earliest with
  | nil => exact Int.le_refl _
  | cons n ns ih => exact Int.le_trans (Int.le_max_left _ n) (ih _)

theorem readAll_snd (c : SteadyClock) (raws : List Datum) :
    (c.readAll raws).2 = { c with last := latest c.last raws } := by
  induction raws generalizing c with
  | nil => rfl
  | cons raw raws ih =>
    have first := c.read_eq raw
    simp only [readAll, first, ih]
    rw [← latest_append]
    rfl

theorem readAll_append (c : SteadyClock) (xs ys : List Datum) : c.readAll (xs ++ ys)
    = ((c.readAll xs).1 ++ ((c.readAll xs).2.readAll ys).1, ((c.readAll xs).2.readAll ys).2) := by
  induction xs generalizing c with
  | nil => rfl
  | cons x xs ih => simp only [List.cons_append, readAll, ih]

/-- Each answer is the latest number read so far, unless its own reading was refused. -/
theorem readAll_getElem? (c : SteadyClock) (raws : List Datum) (i : Nat) :
    (c.readAll raws).1[i]? = raws[i]?.map fun raw =>
      (Reading.seconds raw).map fun _ => latest c.last (raws.take (i + 1)) := by
  induction raws generalizing c i with
  | nil => rfl
  | cons raw raws ih =>
    have first := c.read_eq raw
    cases i with
    | zero => simp [readAll, first]
    | succ i =>
      have later : latest c.last (raw :: raws.take (i + 1))
          = latest (latest c.last [raw]) (raws.take (i + 1)) := by
        rw [← latest_append]
        rfl
      simp [readAll, first, ih, later]

/-- A refused reading is reported in its place, and every other answer is as if it had not been. -/
theorem readAll_refused {bad : Datum} {e : Failure} (refused : Reading.seconds bad = .error e)
    (c : SteadyClock) (before after : List Datum) :
    ∃ later left, c.readAll (before ++ after) = ((c.readAll before).1 ++ later, left) ∧
      c.readAll (before ++ bad :: after) = ((c.readAll before).1 ++ .error e :: later, left) := by
  refine ⟨_, _, readAll_append c before after, ?_⟩
  rw [readAll_append, readAll, read_of_error refused]

/-- What a steady clock tells when it is asked once more, after `n` raw readings. The wording of a
refusal is the host's. -/
def tell (c : SteadyClock) (wording : Failure → String) (raws : Nat → Datum) (n : Nat) : Reading :=
  match ((c.readAll ((List.range n).map raws)).2.read (raws n)).1 with
  | .ok t => .value (.number t)
  | .error e => .raised (wording e)

variable {wording : Failure → String} {raws : Nat → Datum}

theorem eq_latest_of_tell {n : Nat} {d : Datum} (told : c.tell wording raws n = .value d) :
    d = .number (latest c.last ((List.range (n + 1)).map raws)) := by
  unfold tell at told
  rw [readAll_snd, read_eq] at told
  rw [List.range_succ, List.map_append, latest_append]
  cases read : Reading.seconds (raws n) with
  | error e =>
    rw [read] at told
    cases told
  | ok m =>
    rw [read] at told
    cases told
    rfl

theorem latest_mono (earliest : Int) (raws : Nat → Datum) {m n : Nat} (h : m ≤ n) :
    latest earliest ((List.range m).map raws) ≤ latest earliest ((List.range n).map raws) := by
  induction h with
  | refl => exact Int.le_refl _
  | step _ ih =>
    rw [List.range_succ, List.map_append, latest_append]
    exact Int.le_trans ih (le_latest _ _)

end SteadyClock

namespace Surroundings

/-- The same clock, asked as often or more often. -/
structure Onward (s s' : Surroundings) : Prop where
  clock : s'.clock = s.clock
  ticks : s.ticks ≤ s'.ticks

theorem Onward.trans {s s' s'' : Surroundings} (h : s.Onward s') (h' : s'.Onward s'') :
    s.Onward s'' :=
  ⟨h'.clock.trans h.clock, Nat.le_trans h.ticks h'.ticks⟩

theorem Still.onward {s s' : Surroundings} (h : s.Still s') : s.Onward s' :=
  ⟨h.clock, Nat.le_of_eq h.ticks.symm⟩

theorem Alike.onward {s s' : Surroundings} (h : s.Alike s') : s.Onward s' :=
  ⟨h.clock, Nat.le_of_eq h.ticks.symm⟩

theorem Reports.onward {s s' : Surroundings} (h : s.Reports s') : s.Onward s' := by
  obtain ⟨log, rfl⟩ := h
  exact ⟨rfl, Nat.le_refl _⟩

/-- The clock's answer to one question, as an integer. -/
def Tells (s : Surroundings) (k : Nat) (n : Int) : Prop :=
  ∃ d, s.clock k = .value d ∧ Coerce.integer d = .ok n

theorem Onward.tells {s s' : Surroundings} {k : Nat} {n : Int} (h : s.Onward s')
    (told : s'.Tells k n) : s.Tells k n := by
  unfold Tells at told ⊢
  rwa [h.clock] at told

end Surroundings

namespace Build

variable {α β : Type}

/-- A step that leaves the clock in its place, though it may read it. -/
def KeepsClock (x : Build α) : Prop := ∀ s : Surroundings, s.Onward (x s).2

theorem Asks.keepsClock {x : Build α} (h : x.Asks) : x.KeepsClock := fun s => (h.alike s).onward

theorem Timeless.keepsClock {x : Build α} (h : x.Timeless) : x.KeepsClock :=
  fun s => (h.still s).onward

theorem KeepsClock.bind {x : Build α} {f : α → Build β} (hx : x.KeepsClock)
    (hf : ∀ a, (f a).KeepsClock) : KeepsClock (x >>= f) := by
  intro s
  have first := hx s
  rw [bind_apply]
  rcases went : x s with ⟨r, mid⟩
  rw [went] at first
  cases r with
  | error e => exact first
  | ok a => exact first.trans (hf a mid)

theorem keepsClock_now : KeepsClock now := by
  intro s
  unfold now
  split <;> exact ⟨rfl, Nat.le_succ _⟩

theorem keepsClock_of (r : Except Failure α) : KeepsClock (of r) := fun _ => ⟨rfl, Nat.le_refl _⟩

theorem keepsClock_stamp (d : Draft) (given : Datum) : KeepsClock (stamp d given) := by
  apply timeless_identity.keepsClock.bind
  intro identity
  apply (timeless_admitted _).keepsClock.bind
  intro emitter
  split
  all_goals
    apply KeepsClock.bind
    case hf =>
      intro time
      apply timeless_version.keepsClock.bind
      intro current
      cases Draft.stamps time current with
      | ok pair => exact (timeless_pure _).keepsClock
      | error faults => exact (timeless_throw rfl).keepsClock
  · exact keepsClock_now
  · exact (timeless_pure _).keepsClock

theorem keepsClock_envelope (topic actor data metadata given : Datum) :
    KeepsClock (envelope topic actor data metadata given) :=
  (asks_topic topic).keepsClock.bind fun _ =>
    (asks_draft _ actor data metadata).keepsClock.bind fun d => keepsClock_stamp d given

theorem keepsClock_standard (topic actor data metadata : Datum) :
    KeepsClock (standard topic actor data metadata) :=
  (asks_topic topic).keepsClock.bind fun _ => keepsClock_envelope _ actor data metadata .null

/-- An envelope for which no time was given is stamped with one reading, taken while it is built. -/
theorem stamped_of_envelope {topic actor data metadata : Datum} {s s' : Surroundings} {e : Envelope}
    (h : envelope topic actor data metadata .null s = (.ok e, s')) :
    ∃ k, s.ticks ≤ k ∧ k < s'.ticks ∧ s.Tells k e.timestamp := by
  obtain ⟨found, mid, named, rest⟩ := bind_eq_ok h
  obtain ⟨d, drafted, filled, stamped⟩ := bind_eq_ok rest
  have before : s.Onward drafted := by
    have first := (asks_topic topic).keepsClock s
    have second := (asks_draft found actor data metadata).keepsClock mid
    rw [named] at first
    rw [filled] at second
    exact first.trans second
  obtain ⟨emitter, time, t, v, _, timed, stamps, rfl⟩ := stamp_eq_ok stamped
  rcases timed with ⟨_, asked⟩ | ⟨given, _⟩
  · obtain ⟨told, rfl⟩ := now_eq_ok asked
    have tells : drafted.Tells drafted.ticks t := ⟨time, told, Draft.integer_of_stamps stamps⟩
    exact ⟨drafted.ticks, before.ticks, Nat.lt_succ_self _, before.tells tells⟩
  · exact absurd rfl given

end Build

theorem Operation.keepsClock_build (op : Operation) (args : CallerArguments) :
    (op.build args).KeepsClock := by
  apply (op.layout.timeless_check args _ _).keepsClock.bind
  intro a
  apply Build.keepsClock_now.bind
  intro now
  apply (op.layout.timeless_settle _ args _ _).keepsClock.bind
  intro a'
  apply (Build.timeless_admitted _).keepsClock.bind
  intro m
  apply (Build.keepsClock_stamp _ now).bind
  intro e
  cases Layout.legacyPayload a' now op.layout.legacy with
  | ok payload => exact (Build.timeless_pure _).keepsClock
  | error faults => exact (Build.timeless_throw rfl).keepsClock

namespace Request

theorem keepsClock_build (q : Request) : q.build.KeepsClock := by
  cases q with
  | operation op positional named =>
    exact (Build.keepsClock_of _).bind fun args =>
      (op.keepsClock_build args).bind fun e => (Build.timeless_pure _).keepsClock
  | standard positional named =>
    exact (Build.keepsClock_of _).bind fun bound =>
      (Build.keepsClock_standard _ _ _ _).bind fun e => (Build.timeless_pure _).keepsClock

/-- The standardized record of a request is stamped with one of the readings taken for it. -/
theorem stamped_of_build {q : Request} {s s' : Surroundings} {r : Records}
    (h : q.build s = (.ok r, s')) :
    ∃ k, s.ticks ≤ k ∧ k < s'.ticks ∧ s.Tells k r.standard.timestamp := by
  cases builds_of_build h with
  | operation bound built =>
    obtain ⟨reading, told, ticks, keeps⟩ := Operation.build_reads built
    cases reading with
    | null =>
      obtain ⟨second, told, coerced⟩ := keeps.again rfl
      exact ⟨s.ticks + 1, by omega, by simp [ticks, Datum.readings], second, told, coerced⟩
    | _ =>
      refine ⟨s.ticks, Nat.le_refl _, ?_, _, told, keeps.coerced (by simp)⟩
      rw [ticks]
      exact Nat.lt_succ_self _
  | @standard _ _ topic _ _ _ _ built =>
    obtain ⟨found, mid, named, rest⟩ := Build.bind_eq_ok built
    have before := (Build.asks_topic topic).keepsClock s
    rw [named] at before
    obtain ⟨k, first, last, tells⟩ := Build.stamped_of_envelope rest
    exact ⟨k, Nat.le_trans before.ticks first, last, before.tells tells⟩

end Request

/-- The host lets all calls share one clock, which others may ask as well. -/
def Call.SharesClock (c : Call) : Prop := ∀ s : Surroundings, s.Onward (c.host s)

namespace Turn

/-- The time of the standardized record that a turn built. -/
def stamp? (turn : Turn σ) : Option Int :=
  turn.built.toOption.map fun r => (r.standard.timestamp : Int)

end Turn

namespace Call

variable (c : Call) (t : Transport σ) (w : World σ)

theorem turn_reports : (c.request.build (w.enter c.host).surroundings).2.Reports
    (c.turn t w).after.surroundings := by
  cases c.request.performed c.emitter t (w.enter c.host) with
  | unasked _ _ ends => exact ends.surroundings
  | asked _ emits =>
    cases emits with
    | rejected _ ends => exact ends.surroundings
    | refused _ _ ends => exact ends.surroundings
    | published _ _ ends => exact ends.surroundings

variable {c} in
theorem turn_onward (shared : c.SharesClock) :
    w.surroundings.Onward (c.turn t w).after.surroundings :=
  (shared w.surroundings).trans
    ((c.request.keepsClock_build _).trans (c.turn_reports t w).onward)

variable {c} in
/-- A turn stamps its record with one of the readings taken between its beginning and its end. -/
theorem stamp?_told (shared : c.SharesClock) {n : Int} (stamped : (c.turn t w).stamp? = some n) :
    ∃ k, w.surroundings.ticks ≤ k ∧ k < (c.turn t w).after.surroundings.ticks ∧
      w.surroundings.Tells k n := by
  obtain ⟨r, present, rfl⟩ := Option.map_eq_some_iff.mp stamped
  have built : (c.request.build (w.enter c.host).surroundings).1 = .ok r :=
    eq_ok_of_toOption present
  obtain ⟨k, first, last, tells⟩ := Request.stamped_of_build (Prod.ext built rfl)
  have entered := shared w.surroundings
  exact ⟨k, Nat.le_trans entered.ticks first,
    Nat.lt_of_lt_of_le last (c.turn_reports t w).onward.ticks, entered.tells tells⟩

end Call

section Session

variable {t : Transport σ} {w : World σ} {cs : List Call}

/-- The times of a session are readings taken from its beginning on. -/
theorem stamps_told (shared : ∀ c ∈ cs, c.SharesClock) :
    ∀ n ∈ (turns t w cs).filterMap Turn.stamp?,
      ∃ k, w.surroundings.ticks ≤ k ∧ w.surroundings.Tells k n := by
  induction cs generalizing w with
  | nil => simp [turns]
  | cons c cs ih =>
    rw [List.forall_mem_cons] at shared
    intro n hn
    obtain ⟨turn, listed, stamped⟩ := List.mem_filterMap.mp hn
    rcases List.mem_cons.mp listed with rfl | later
    · obtain ⟨k, first, _, tells⟩ := Call.stamp?_told t w shared.1 stamped
      exact ⟨k, first, tells⟩
    · have onward := Call.turn_onward t w shared.1
      obtain ⟨k, first, tells⟩ := ih shared.2 n (List.mem_filterMap.mpr ⟨turn, later, stamped⟩)
      exact ⟨k, Nat.le_trans onward.ticks first, onward.tells tells⟩

/-- Readings that come in an order of their own bring the times of a session into that order. -/
theorem stamps_pairwise (shared : ∀ c ∈ cs, c.SharesClock) {R : Int → Int → Prop}
    (ordered : ∀ j k m n, j < k → w.surroundings.Tells j m → w.surroundings.Tells k n → R m n) :
    ((turns t w cs).filterMap Turn.stamp?).Pairwise R := by
  induction cs generalizing w with
  | nil => simp [turns]
  | cons c cs ih =>
    rw [List.forall_mem_cons] at shared
    have onward := Call.turn_onward t w shared.1
    have rest := ih (w := (c.turn t w).after) shared.2 fun j k m n earlier told told' =>
      ordered j k m n earlier (onward.tells told) (onward.tells told')
    rw [turns, List.filterMap_cons]
    cases stamped : (c.turn t w).stamp? with
    | none => exact rest
    | some m =>
      refine List.pairwise_cons.mpr ⟨fun n hn => ?_, rest⟩
      obtain ⟨j, _, last, told⟩ := Call.stamp?_told t w shared.1 stamped
      obtain ⟨k, first, told'⟩ := stamps_told shared.2 n hn
      exact ordered j k m n (Nat.lt_of_lt_of_le last first) told (onward.tells told')

end Session

/-- The time of a standardized record, told from the record alone. -/
def Publication.time? (p : Publication) : Option Int :=
  match p.channel, p.payload with
  | [.text (.symbol _), .text (.topic _)], .tuple [_, _, _, _, .number n, _] => some n
  | _, _ => none

namespace Publication

theorem time?_publication (e : Envelope) (root : Symbol) :
    (e.publication root).time? = some (e.timestamp : Int) := rfl

theorem time?_older {p : Publication} {topic : Topic} {keys : List Datum}
    (older : p.channel = .topic topic :: keys) : p.time? = none := by
  unfold time?
  rw [older]
  rfl

end Publication

theorem Block.times {root : Symbol} {built reply : Except Failure Records} {block : List Attempt}
    (h : Block root built block reply)
    (older : ∀ r p, built = .ok r → r.legacy = some p → p.time? = none) :
    block.filterMap (·.record.time?)
      = (built.toOption.map fun r => (r.standard.timestamp : Int)).toList := by
  cases h with
  | unbuilt e e' => rfl
  | refused r e => rfl
  | alone e => rfl
  | refusedLegacy e p f | both e p =>
    have none := older _ p rfl rfl
    simp [Publication.time?_publication, none, Except.toOption]

/-- The attempts of a turn show one time if it built its records, and none otherwise. -/
theorem Turn.Accounts.times {turn : Turn σ} {block : List Attempt} (h : turn.Accounts block) :
    block.filterMap (·.record.time?) = turn.stamp?.toList := by
  refine h.shape.times fun r p built older => ?_
  obtain ⟨topic, keys, channel⟩ := Request.legacy_channel (Prod.ext built rfl) older
  exact Publication.time?_older channel

theorem flatten_times {ts : List (Turn σ)} {blocks : List (List Attempt)}
    (h : List.Forall₂ Turn.Accounts ts blocks) :
    blocks.flatten.filterMap (·.record.time?) = ts.filterMap Turn.stamp? := by
  induction h with
  | nil => rfl
  | @cons turn block ts blocks accounts _ ih =>
    rw [List.flatten_cons, List.filterMap_append, accounts.times, ih, List.filterMap_cons]
    cases turn.stamp? <;> rfl

section Session

variable (t : Transport σ) (w : World σ) (cs : List Call)

/-- The times that the attempts of a session show are those of the records that its turns built. -/
theorem attempts_times :
    (attempts t w cs).filterMap (·.record.time?) = (turns t w cs).filterMap Turn.stamp? := by
  obtain ⟨blocks, left, accounts⟩ := observed_eq_append_flatten t w.observed cs
  have recorded : attempts t w cs = blocks.flatten := by
    simpa [attempts, World.observed] using left
  have observed : (turns t w cs).filterMap Turn.stamp?
      = (turns t.observed w.observed cs).filterMap Turn.stamp? := by
    rw [turns_of_observed, List.filterMap_map]
    rfl
  rw [recorded, observed, flatten_times accounts]

end Session

namespace SteadyClock

theorem eq_latest_of_tells {c : SteadyClock} {wording : Failure → String} {raws : Nat → Datum}
    {s : Surroundings} (clock : s.clock = c.tell wording raws) {k : Nat} {n : Int}
    (told : s.Tells k n) : n = latest c.last ((List.range (k + 1)).map raws) := by
  obtain ⟨d, told, coerced⟩ := told
  rw [clock] at told
  cases eq_latest_of_tell told
  exact (Except.ok.inj coerced).symm

/-- A steady clock that starts at zero tells the latest number it has read, and a refused reading
leaves every other answer as it would be without it. On such a clock, whoever else asks it between
the calls, the standardized records that a session tries to publish bear times that never decrease
and are not below zero; the records without a time are those of the older format. -/
theorem times_nondecreasing (a : Address) :
    (∀ (raws : List Datum) (i : Nat), ((start a).readAll raws).1[i]? = raws[i]?.map fun raw =>
      (Reading.seconds raw).map fun _ => latest 0 (raws.take (i + 1))) ∧
    (∀ (before after : List Datum) (bad : Datum) (e : Failure), Reading.seconds bad = .error e →
      ∃ later left, (start a).readAll (before ++ after)
          = (((start a).readAll before).1 ++ later, left) ∧
        (start a).readAll (before ++ bad :: after)
          = (((start a).readAll before).1 ++ .error e :: later, left)) ∧
    ∀ (wording : Failure → String) (raws : Nat → Datum) (t : Transport σ) (w : World σ)
      (cs : List Call), w.surroundings.clock = (start a).tell wording raws →
      (∀ c ∈ cs, c.SharesClock) →
      let times := (attempts t w cs).filterMap (·.record.time?)
      times.Pairwise (· ≤ ·) ∧ (∀ n ∈ times, 0 ≤ n) ∧
        ∀ made ∈ attempts t w cs, (∃ n, made.record.time? = some n) ∨
          ∃ topic keys, made.record.channel = .topic topic :: keys := by
  refine ⟨(start a).readAll_getElem?, ?_, ?_⟩
  · intro before after bad e refused
    exact readAll_refused refused (start a) before after
  · intro wording raws t w cs clock shared times
    have shown : times = (turns t w cs).filterMap Turn.stamp? := attempts_times t w cs
    rw [shown]
    refine ⟨stamps_pairwise shared fun j k m n earlier told told' => ?_, fun n hn => ?_, ?_⟩
    · rw [eq_latest_of_tells clock told, eq_latest_of_tells clock told']
      exact latest_mono _ raws (by omega)
    · obtain ⟨k, _, told⟩ := stamps_told shared n hn
      rw [eq_latest_of_tells clock told]
      exact le_latest 0 _
    · intro made listed
      obtain ⟨turn, _, r, built, record⟩ := mem_attempts listed
      rcases List.mem_cons.mp record with standard | older
      · rw [standard]
        exact .inl ⟨_, Publication.time?_publication _ _⟩
      · exact .inr (Request.legacy_channel (Prod.ext built rfl) (Option.mem_toList.mp older))

/-- Raw readings of a clock that is set back, and once tells a text that is no number. -/
def unsettled : Nat → Datum
  | 0 => .number 5
  | 1 => .plain "noon"
  | 2 => .number 3
  | _ => .real ⟨0x401E000000000000⟩

/-- Four transfers, of which the second gets no time; the last gets seven and a half, cut. -/
theorem times_nondecreasing_unsettled :
    let clock := (start ⟨"ledger"⟩).tell (fun _ => "not a number") unsettled
    let w : World (List Publication) := ⟨{ Surroundings.ledger with clock }, [], []⟩
    let transfer : Call := ⟨⟨⟨"stellara_event"⟩, true⟩, id, .operation .transfer
      [.address ⟨"alice"⟩, .address ⟨"bob"⟩, .number 1, .address ⟨"token"⟩] []⟩
    let times := (attempts .keeping w (List.replicate 4 transfer)).filterMap (·.record.time?)
    times = [5, 5, 7] ∧ times.Pairwise (· ≤ ·) := by
  intro clock w transfer times
  have shared : ∀ c ∈ List.replicate 4 transfer, c.SharesClock := by
    intro c hc s
    cases List.eq_of_mem_replicate hc
    exact ⟨rfl, Nat.le_refl _⟩
  obtain ⟨_, _, session⟩ := times_nondecreasing (σ := List Publication) ⟨"ledger"⟩
  obtain ⟨ordered, _⟩ := session _ unsettled .keeping w _ rfl shared
  exact ⟨by decide +kernel, ordered⟩

end SteadyClock

end EventEnvelope
