import EventEnvelope.Proofs.PublishOrder
import EventEnvelope.Proofs.RecordRoundTrip
import EventEnvelope.Publisher.StreamPublisher

/-! Sessions on a stream. Each call hands its records to the stream in their order and stops at the
first that is refused or has no bytes. Main statement: what the stream was asked to append, and how
it answered, is what the calls handed over; each entry gives its record back, and is marked for what
it is. -/

namespace EventEnvelope

/-- A record on its way out, with the part it plays. -/
inductive Outgoing
  | standard (e : Envelope) (root : Symbol)
  | legacy (p : Publication)

def Outgoing.publication : Outgoing → Publication
  | standard e root => e.publication root
  | legacy p => p

/-- The records of a call, in the order in which they go out. -/
def Records.outgoing (r : Records) (root : Symbol) : List Outgoing :=
  .standard r.standard root :: (r.legacy.map Outgoing.legacy).toList

theorem Records.map_outgoing (r : Records) (root : Symbol) :
    (r.outgoing root).map Outgoing.publication = r.publications root := by
  obtain ⟨e, legacy⟩ := r
  cases legacy <;> rfl

/-- The envelope that a consumer of the stream makes of a standardized entry. -/
def StreamEntry.envelope (entry : StreamEntry) (current : Int) : Reported Envelope := do
  let p ← Publication.decode entry.record
  Envelope.ofPublication current p.channel p.payload

namespace Outgoing

/-- An entry of the stream gives a record back: a standardized one as its envelope, with a warning
where the consumer is older, and one of the older format as its channel and payload, the topic as
plain text. The kind of the entry tells the two apart. -/
def IsRecoveredFrom (o : Outgoing) (entry : StreamEntry) : Prop :=
  match o with
  | standard e _ => entry.kind = .standard ∧ ∀ current, (entry.envelope current).outcome
      = (.ok e, if current < e.version then
        [Version.warning current (.number e.version) (.topic e.topic)] else [])
  | legacy p => entry.kind = .legacy ∧ ∃ (topic : Topic) (vs : List Value),
      p.channel = .topic topic :: vs.map Value.toDatum ∧ (Publication.decode entry.record).outcome
        = (.ok ⟨.plain topic.id :: vs.map Value.toDatum, p.payload⟩, [])

def IsSound : Outgoing → Prop
  | standard e _ => e.IsTyped
  | legacy p => p.IsLegacy

/-- The channel of a sound record starts with a text. -/
theorem IsSound.topicText {o : Outgoing} (sound : o.IsSound) :
    ∃ title, StreamPublisher.topicText o.publication.channel = .ok title := by
  cases o with
  | standard e root => exact ⟨_, rfl⟩
  | legacy r =>
    obtain ⟨⟨topic, vs, channel⟩, _⟩ := sound
    refine ⟨topic.id, ?_⟩
    rw [publication, channel]
    rfl

/-- A sound record within the limits of the binary form is recovered from the entry that carries
it. -/
theorem IsSound.encode {o : Outgoing} (sound : o.IsSound) (p : StreamPublisher)
    (title : CodeText) :
    Wire.Written o.publication.fits o.publication.isEncodable o.publication.encode fun record =>
      o.IsRecoveredFrom (p.entry o.publication.channel title record) := by
  cases o with
  | standard e root =>
    exact (Envelope.IsTyped.encode_publication sound root).imp fun _ read => ⟨rfl, read⟩
  | legacy r =>
    obtain ⟨topic, vs, channel, written⟩ := Publication.IsLegacy.encode sound
    have kind : StreamPublisher.kindOf r.channel = .legacy := by
      rw [channel]
      rfl
    exact written.imp fun _ read => ⟨kind, topic, vs, channel, read⟩

end Outgoing

/-- How a client's error reaches the caller. -/
def ClientError.failure (e : ClientError) : Failure :=
  match e.kind with
  | .connection | .timeout => .publish (.unavailable e.text)
  | .response => .publish (.rejected e.text)
  | .system | .other => .client e

/-- What an answer of the client comes to for the caller. -/
def ClientAnswer.outcome : ClientAnswer → Except Failure Unit
  | id d => (StreamPublisher.idText d).map fun _ => ()
  | raised e => .error e.failure

namespace StreamPublisher

/-- Everything the client was asked to append, with its answers. -/
def appends (p : StreamPublisher) : List (StreamEntry × ClientAnswer) :=
  p.entries.zipIdx.map fun e => (e.1, p.answers e.2)

theorem appends_append (p : StreamPublisher) (e : StreamEntry) (last : Datum) :
    appends { p with entries := p.entries ++ [e], lastMessageId := last }
      = p.appends ++ [(e, p.answers p.entries.length)] := by
  simp [appends, List.zipIdx_append]

/-- An append is answered once, and stays on record whatever the answer is. -/
theorem answered_apply (p : StreamPublisher) (e : StreamEntry) :
    (p.answered e).outcome = (p.answers p.entries.length).outcome ∧
      (p.answered e).state.appends = p.appends ++ [(e, p.answers p.entries.length)] := by
  have kept := p.appends_append e
  unfold answered
  generalize p.answers p.entries.length = answer at kept ⊢
  cases answer with
  | raised err =>
    refine ⟨?_, kept p.lastMessageId⟩
    simp only [refusal, ClientAnswer.outcome, ClientError.failure]
    cases err.kind <;> rfl
  | id d =>
    simp only [ClientAnswer.outcome]
    cases idText d with
    | error failure => exact ⟨rfl, kept p.lastMessageId⟩
    | ok text => exact ⟨rfl, kept text⟩

end StreamPublisher

/-- A record with the entry that was appended for it, and the client's answer. -/
structure Sent where
  record : Outgoing
  entry : StreamEntry
  answer : ClientAnswer

/-- How records are sent one after another: up to the first that is too large, holds a text without
bytes, or is refused. -/
inductive Sending : List Outgoing → List Sent → Except Failure Unit → Prop where
  | done : Sending [] [] (.ok ())
  | oversized (o : Outgoing) (r : List Outgoing) (beyond : o.publication.fits = false) :
      Sending (o :: r) [] (.error .badValue)
  | unencodable (o : Outgoing) (r : List Outgoing) (beyond : o.publication.fits = false)
      (broken : o.publication.isEncodable = false) : Sending (o :: r) [] (.error .unencodable)
  | refused (x : Sent) (r : List Outgoing) (e : Failure) (refusal : x.answer.outcome = .error e) :
      Sending (x.record :: r) [x] (.error e)
  | accepted (x : Sent) {r : List Outgoing} {xs : List Sent} {reply : Except Failure Unit}
      (acceptance : x.answer.outcome = .ok ()) (rest : Sending r xs reply) :
      Sending (x.record :: r) (x :: xs) reply

def Sent.append (x : Sent) : StreamEntry × ClientAnswer := (x.entry, x.answer)

namespace StreamPublisher

theorem publish_of_written {r : Publication} {title : CodeText} {bs : Bytes}
    (titled : topicText r.channel = .ok title) (encoded : r.encode = .ok bs)
    (p : StreamPublisher) : publish p r = p.answered (p.entry r.channel title bs) := by
  rw [publish, titled]
  dsimp only
  rw [encoded]

/-- A record without bytes stops those behind it, and the stream is as it was. -/
theorem handOver_of_unwritten {r : Publication} {title : CodeText} {e : Failure}
    (titled : topicText r.channel = .ok title) (refused : r.encode = .error e)
    (p : StreamPublisher) (rs : List Publication) :
    Transport.handOver publish p (r :: rs) = (.error e, p) := by
  have stopped : publish p r = ⟨.error e, p, []⟩ := by
    rw [publish, titled]
    dsimp only
    rw [refused]
  rw [Transport.handOver, stopped]

/-- Sound records are sent one after another, and each is recovered from its entry. -/
theorem handOver_sends {os : List Outgoing} (sound : ∀ o ∈ os, o.IsSound) (p : StreamPublisher) :
    ∃ sent, Sending os sent (Transport.handOver publish p (os.map Outgoing.publication)).1 ∧
      (Transport.handOver publish p (os.map Outgoing.publication)).2.appends
        = p.appends ++ sent.map Sent.append ∧
      ∀ x ∈ sent, x.record.IsRecoveredFrom x.entry := by
  induction os generalizing p with
  | nil => exact ⟨[], .done, by simp [Transport.handOver], by simp⟩
  | cons o r ih =>
    have first : o.IsSound := sound o (by simp)
    obtain ⟨title, titled⟩ := first.topicText
    cases first.encode p title with
    | bytes record within encoded recovered =>
      let entry := p.entry o.publication.channel title record
      obtain ⟨answer, appended⟩ := p.answered_apply entry
      let x : Sent := ⟨o, entry, p.answers p.entries.length⟩
      rw [List.map_cons, Transport.handOver, publish_of_written titled encoded, answer]
      -- the append is on record either way; the answer decides whether the others are sent
      cases outcome : (p.answers p.entries.length).outcome with
      | error e =>
        exact ⟨[x], .refused x r e outcome, appended, by simpa [x] using recovered⟩
      | ok _ =>
        obtain ⟨sent, sending, rest, others⟩ := ih (fun o' ho => sound o' (by simp [ho]))
          (p.answered entry).state
        refine ⟨x :: sent, .accepted x outcome sending, ?_, ?_⟩
        · dsimp only
          rw [rest, appended, List.append_assoc]
          rfl
        · intro y hy
          rcases List.mem_cons.mp hy with rfl | later
          · exact recovered
          · exact others y later
    | oversized beyond refused =>
      rw [List.map_cons, handOver_of_unwritten titled refused]
      exact ⟨[], .oversized o r beyond, by simp, by simp⟩
    | unencodable beyond broken refused =>
      rw [List.map_cons, handOver_of_unwritten titled refused]
      exact ⟨[], .unencodable o r beyond broken, by simp, by simp⟩

end StreamPublisher

/-- What a turn sent to the stream: nothing when its records were not built, else its records. The
caller gets the records back just when all of them went out, and a record that cannot be represented
is reported before anything is sent. -/
inductive Turn.Sends (turn : Turn StreamPublisher) : List Sent → Prop where
  | unbuilt (e e' : Failure) (built : turn.built = .error e) (replied : turn.reply = .error e') :
      Sends turn []
  | built (r : Records) {sent : List Sent} {outcome : Except Failure Unit}
      (built : turn.built = .ok r)
      (sending : Sending (r.outgoing turn.call.emitter.root) sent outcome)
      (replied : turn.reply = outcome.map fun _ => r) : Sends turn sent

theorem Request.isSound {q : Request} {s s' : Surroundings} {r : Records}
    (integers : s.TellsIntegers) (h : q.build s = (.ok r, s')) (root : Symbol) :
    ∀ o ∈ r.outgoing root, o.IsSound := by
  have typed := standard_isTyped h
  cases builds_of_build h with
  | operation bound built =>
    have legacy := Operation.build_isLegacy integers built
    intro o ho
    rcases List.mem_pair.mp ho with rfl | rfl
    · exact typed
    · exact legacy
  | standard built =>
    intro o ho
    rcases List.mem_singleton.mp ho with rfl
    exact typed

/-- One turn: what the stream is asked to append is what the turn sent. -/
theorem Turn.sends (c : Call) (w : World StreamPublisher)
    (integers : (w.enter c.host).surroundings.TellsIntegers) :
    ∃ sent, (c.turn StreamPublisher.publish w).Sends sent ∧
      (c.turn StreamPublisher.publish w).after.transport.appends
        = w.transport.appends ++ sent.map Sent.append ∧
      ∀ x ∈ sent, x.record.IsRecoveredFrom x.entry := by
  have served := Turn.served c StreamPublisher.publish w
  generalize built : (c.turn StreamPublisher.publish w).built = b at served
  generalize replied : (c.turn StreamPublisher.publish w).reply = reply at served
  generalize (c.turn StreamPublisher.publish w).after.transport = left at served ⊢
  cases served with
  | unbuilt e e' => exact ⟨[], .unbuilt e e' built replied, by simp, by simp⟩
  | @handed r reply left answered kept =>
    have sound := Request.isSound integers (Prod.ext built rfl) c.emitter.root
    obtain ⟨sent, sending, appended, recovered⟩ :=
      StreamPublisher.handOver_sends sound w.transport
    rw [Records.map_outgoing] at sending appended
    exact ⟨sent, .built r built sending (replied.trans answered), kept ▸ appended, recovered⟩

theorem ClientAnswer.not_encoding (a : ClientAnswer) (fault : EncodingFault) :
    a.outcome ≠ .error (.encoding fault) := by
  cases a with
  | raised e =>
    simp only [outcome, ClientError.failure]
    cases e.kind <;> simp
  | id d =>
    simp only [outcome, StreamPublisher.idText]
    split
    · split <;> simp [Except.map]
    · simp [Except.map]

theorem Sending.not_encoding {os : List Outgoing} {sent : List Sent} {reply : Except Failure Unit}
    (h : Sending os sent reply) (fault : EncodingFault) : reply ≠ .error (.encoding fault) := by
  induction h with
  | done => simp
  | oversized o r beyond => simp
  | unencodable o r beyond broken => simp
  | accepted x acceptance rest ih => exact ih
  | refused x r e refusal =>
    rintro ⟨⟩
    exact x.answer.not_encoding fault refusal

theorem Turn.Sends.nil_of_encoding {turn : Turn StreamPublisher} {sent : List Sent}
    (h : turn.Sends sent) {fault : EncodingFault} (reply : turn.reply = .error (.encoding fault)) :
    sent = [] := by
  cases h with
  | unbuilt e e' built replied => rfl
  | @built r sent outcome built sending replied =>
    have pure := sending.not_encoding fault
    rw [replied] at reply
    cases outcome with
    | error e => cases reply; exact absurd rfl pure
    | ok _ => cases reply

/-- How a turn went on the stream. -/
structure Turn.Streams (turn : Turn StreamPublisher) (sent : List Sent) : Prop where
  sends : turn.Sends sent
  recovered : ∀ x ∈ sent, x.record.IsRecoveredFrom x.entry
  encoding : ∀ fault, turn.reply = .error (.encoding fault) → sent = []

/-- In a session whose clocks tell integers, the stream was asked to append what the calls sent, in
order, and every entry gives its record back. -/
theorem session_recovered (w : World StreamPublisher) (cs : List Call)
    (integers : ∀ turn ∈ turns StreamPublisher.publish w cs,
      turn.before.surroundings.TellsIntegers) :
    ∃ sent : List (List Sent),
      List.Forall₂ Turn.Streams (turns StreamPublisher.publish w cs) sent ∧
        (leave StreamPublisher.publish w cs).transport.appends
          = w.transport.appends ++ sent.flatten.map Sent.append := by
  induction cs generalizing w with
  | nil => exact ⟨[], .nil, by simp [leave]⟩
  | cons c cs ih =>
    rw [turns, List.forall_mem_cons] at integers
    obtain ⟨sent, sends, appended, recovered⟩ := Turn.sends c w integers.1
    obtain ⟨others, streams, rest⟩ := ih (c.turn StreamPublisher.publish w).after integers.2
    refine ⟨sent :: others, .cons ⟨sends, recovered, fun _ => sends.nil_of_encoding⟩ streams, ?_⟩
    rw [leave_cons, rest, appended, List.flatten_cons, List.map_append, List.append_assoc]

/-- A client that times out on the second append and accepts all others. -/
def ClientAnswer.hesitant : Nat → ClientAnswer
  | 1 => .raised ⟨.timeout, "TimeoutError", "timed out"⟩
  | _ => .id (.plain "1700000000-0")

def World.ledger : World StreamPublisher where
  surroundings := .ledger
  transport := .start "stellara:events" 100000 "stellara-1" ClientAnswer.hesitant
  counters := []

def Call.transfers : List Call :=
  List.replicate 2 ⟨⟨⟨"stellara_event"⟩, false⟩, fun _ => .ledger, .operation .transfer
    [.address ⟨"alice"⟩, .address ⟨"bob"⟩, .number 5, .address ⟨"token"⟩] []⟩

theorem session_recovered_transfers :
    (leave StreamPublisher.publish .ledger Call.transfers).transport.entries.length = 4 ∧
      ∃ sent : List (List Sent),
        List.Forall₂ Turn.Streams (turns StreamPublisher.publish .ledger Call.transfers) sent ∧
          (leave StreamPublisher.publish .ledger Call.transfers).transport.appends
            = World.ledger.transport.appends ++ sent.flatten.map Sent.append := by
  refine ⟨by decide +kernel, session_recovered .ledger Call.transfers fun turn hturn => ?_⟩
  simp only [Call.transfers, List.replicate, turns, List.mem_cons, List.not_mem_nil,
    or_false] at hturn
  rcases hturn with rfl | rfl <;> exact Surroundings.ledger_tellsIntegers

/-- A transfer to an address that is a surrogate and nothing else. -/
def Call.brokenTransfer : Call :=
  ⟨⟨⟨"stellara_event"⟩, false⟩, fun _ => .ledger, .operation .transfer
    [.address ⟨"alice"⟩, .plain (.broken "" ⟨0⟩ (.proper "")), .number 1, .address ⟨"token"⟩] []⟩

/-- Its records are built, and the first that is handed to the stream has no bytes. -/
theorem session_unencodable :
    let turn := Call.brokenTransfer.turn StreamPublisher.publish .ledger
    turn.built.toOption.isSome = true ∧ turn.reply = .error .unencodable ∧
      turn.after.transport.entries = [] :=
  ⟨by decide +kernel, rfl, by decide +kernel⟩

end EventEnvelope
