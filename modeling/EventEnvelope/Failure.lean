import EventEnvelope.Datum.Display
import EventEnvelope.Fault

/-!
Why an operation does not return: each cause with the values that explain it, and the text that
reports it.
-/

namespace EventEnvelope

inductive EncodingFault
  | notText (d : Datum)
  | emptySymbol
  | longSymbol (s : CodeText) (limit : Int)
  | symbolAlphabet (t : Text)
  | notAddress (d : Datum)
  | notInteger (d : Datum)
  | outOfRange (n : Int)
  | notFlag (d : Datum)
  | unsupported (d : Datum)
  | unknownKey (d : Datum)
  | noValues (k : MetadataKey)
  | repeatedKey (k : MetadataKey)
  | notSequence (key values : Datum)
  | unserializable (d : Datum)
  | envelope (t : Topic) (faults : List Fault)
  | record (t : Topic) (faults : List Fault)

namespace EncodingFault

def got (d : Datum) : String := d.typeName ++ ": " ++ d.inspect

def message : EncodingFault → String
  | notText d => "Cannot intern non-text value " ++ d.inspect
  | emptySymbol => "Cannot intern an empty symbol"
  | longSymbol s limit =>
    "Symbol " ++ Quoted.text (s.take 16) ++ "... is "
      ++ Datum.numberText s.length ++ " chars, limit is " ++ Datum.numberText limit
  | symbolAlphabet t => "Symbol " ++ t.inspect ++ " contains characters outside [A-Za-z0-9_]"
  | notAddress d => "Not a valid address: " ++ d.inspect
  | notInteger d => "Expected an integer, got " ++ got d
  | outOfRange n => "Integer " ++ Datum.numberText n ++ " is outside the 128-bit range"
  | notFlag d => "Expected a bool, got " ++ got d
  | unsupported d => "Unsupported value type " ++ got d
  | unknownKey d => "Metadata key " ++ d.inspect ++ " is not in the vocabulary"
  | noValues k => "Metadata key " ++ Quoted.text k.id ++ " needs at least one value"
  | repeatedKey k => "Metadata key " ++ Quoted.text k.id ++ " encoded twice"
  | notSequence key values =>
    "Metadata key " ++ key.inspect ++ " needs a sequence of values, got " ++ got values
  | unserializable d => "Cannot serialize " ++ got d
  | envelope t _ => "Cannot build " ++ t.id ++ " envelope: " ++ Fault.notice
  | record t _ => "Cannot represent " ++ t.id ++ " event: " ++ Fault.notice

def faults? : EncodingFault → Option (List Fault)
  | envelope _ faults | record _ faults => some faults
  | _ => none

end EncodingFault

inductive DecodeFault
  | malformed | invalidText | reservedByte | trailingBytes | tooDeep | notJson
deriving DecidableEq, Repr

/-- A request that the kind of a value does not support. -/
inductive Misuse
  | notIterable | notMeasurable | notIndexable | notHashable | notComparable | notNumeric
  | notRenderable | fieldName | arguments
deriving DecidableEq, Repr

inductive ClientErrorKind
  | connection | timeout | response | system | other
deriving DecidableEq, Repr

/-- An error that a transport's client reports. -/
structure ClientError where
  kind : ClientErrorKind
  name : String
  text : String
deriving DecidableEq, Repr

inductive PublishFault
  | unavailable (text : String)
  | rejected (text : String)
deriving DecidableEq, Repr

def PublishFault.message : PublishFault → String
  | unavailable text => "Redis unavailable: " ++ text
  | rejected text => "Redis rejected XADD: " ++ text

inductive Failure
  | encoding (fault : EncodingFault)
  | unknownTopic (name : Datum)
  | invalid (faults : List Fault)
  | misuse (m : Misuse)
  | notMap
  | absentKey
  | manyValues (k : MetadataKey) (count : Nat)
  | emptyData
  | undecodable (fault : DecodeFault)
  | undecodableEvent (fault : DecodeFault)
  | notEventMap (d : Datum)
  | notEnvelope (channel payload : Nat)
  | badValue
  | unencodable
  | infiniteValue
  | clock (text : String)
  | transport (first : Datum)
  | publish (fault : PublishFault)
  | client (error : ClientError)

namespace Failure

/-- The text that reports a failure, for failures that have one of their own. The wording of decode
faults is the caller's. -/
def message? (reason : DecodeFault → String) : Failure → Option String
  | encoding fault => some fault.message
  | unknownTopic name => some ("Unknown event topic " ++ name.inspect)
  | manyValues k count =>
    some ("Metadata key " ++ Quoted.text k.id ++ " holds " ++ Datum.numberText count ++ " values")
  | emptyData => some "Cannot deserialize empty data."
  | undecodableEvent fault => some ("Undecodable event bytes: " ++ reason fault)
  | notEventMap d => some ("Expected an event map, got " ++ d.typeName)
  | notEnvelope channel payload =>
    some ("Not a standardized record: channel=" ++ Datum.numberText channel ++ " items, payload="
      ++ Datum.numberText payload ++ " items")
  | clock text => some text
  | transport first => some ("Simulated transport failure on " ++ first.inspect)
  | publish fault => some fault.message
  | _ => none

def faults? : Failure → Option (List Fault)
  | invalid faults => some faults
  | encoding fault => fault.faults?
  | _ => none

end Failure

end EventEnvelope
