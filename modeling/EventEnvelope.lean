import EventEnvelope.Codec.Event
import EventEnvelope.Codec.Record
import EventEnvelope.Collector
import EventEnvelope.Emitter
import EventEnvelope.LogLine
import EventEnvelope.Publisher.EventLog
import EventEnvelope.Publisher.StreamPublisher
import EventEnvelope.SteadyClock
import EventEnvelope.Proofs.JsonEnvelope
import EventEnvelope.Proofs.StreamSession
import EventEnvelope.Proofs.Wire.Found
import EventEnvelope.Proofs.ForeignEnvelope
import EventEnvelope.Proofs.ForeignRecord
import EventEnvelope.Proofs.ArgumentAdmission
import EventEnvelope.Proofs.OperationAdmission
import EventEnvelope.Proofs.LogCounts
import EventEnvelope.Proofs.ClockReading
import EventEnvelope.Proofs.DecodeFailure
import EventEnvelope.Proofs.OlderRecord
import EventEnvelope.Proofs.StandardChannel
import EventEnvelope.Proofs.TransportTexts
import EventEnvelope.Proofs.EnvelopeFraming
import EventEnvelope.Proofs.RecordIdentity
import EventEnvelope.Proofs.StandardPaths
import EventEnvelope.Proofs.Readability
import EventEnvelope.Proofs.EnvelopeAdmission
import EventEnvelope.Proofs.SteadyTime
import EventEnvelope.Proofs.ConsumerVersion
import EventEnvelope.Proofs.Rebuilding
import EventEnvelope.Proofs.FormDetection
import EventEnvelope.Proofs.StreamDelivery
import EventEnvelope.Proofs.Json.Noted
import EventEnvelope.Proofs.ForeignJson
import EventEnvelope.Proofs.TypedArguments
import EventEnvelope.Proofs.MetadataMapping
import EventEnvelope.Proofs.Interning
import EventEnvelope.Proofs.RecordForm
import EventEnvelope.Proofs.TopicLookup
import EventEnvelope.Proofs.Configuration
import EventEnvelope.Proofs.LogLines
import EventEnvelope.Proofs.ProposalNumbers
import EventEnvelope.Proofs.Wire.SignedWidth
import EventEnvelope.Proofs.LogHistory
