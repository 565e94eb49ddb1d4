import EventEnvelope.LegacyStruct
import EventEnvelope.MetadataKey
import EventEnvelope.Number.Binary64
import EventEnvelope.Text.Utf8
import EventEnvelope.Topic

/-!
What callers and foreign documents may hand to the library: a tree of plain data, texts of several
kinds, structs, and values that only the wire knows.
-/

namespace EventEnvelope

/-- A text of a class that a caller defined. The class decides how the text reads inside another
text, how it is inspected and, as a member of a vocabulary, which text is its value. -/
structure ForeignText where
  content : CodeText
  shown : CodeText
  value : Option CodeText
  inspected : String
  className : String
deriving DecidableEq, Repr

/-- A text together with what it is known to be. Only the content takes part in comparisons. -/
inductive Text
  | plain (s : CodeText)
  | address (a : Address)
  | symbol (s : Symbol)
  | topic (t : Topic)
  | key (k : MetadataKey)
  | group (g : TopicGroup)
  | foreign (f : ForeignText)
deriving DecidableEq, Repr

namespace Text

def content : Text → CodeText
  | plain s => s
  | address a => a.text
  | symbol s => s.text
  | topic t => t.id
  | key k => k.id
  | group g => g.id
  | foreign f => f.content

/-- How the text reads inside another text: a group shows its name in full, a foreign text what its
class says, all else its content. -/
def shown : Text → CodeText
  | group g => "TopicGroup." ++ g.name
  | foreign f => f.shown
  | t => t.content

/-- What travels in place of the text: its value as a member of a vocabulary, else what it shows. -/
def carried : Text → CodeText
  | foreign f => f.value.getD f.shown
  | t => t.content

end Text

inductive Datum
  | null
  | flag (b : Bool)
  | number (n : Int)
  | real (x : Binary64)
  | text (t : Text)
  | bytes (bs : Bytes)
  | list (xs : List Datum)
  | tuple (xs : List Datum)
  | set (xs : List Datum)
  | map (entries : List (Datum × Datum))
  | struct (s : LegacyStruct)
  | ext (code : Nat) (bs : Bytes)
  | timestamp (seconds : Int) (nanoseconds : Nat)

namespace Value

def toDatum : Value → Datum
  | flag b => .flag b
  | number n => .number n
  | symbol s => .text (.symbol s)
  | address a => .text (.address a)

end Value

namespace Datum

instance : Inhabited Datum := ⟨null⟩

def plain (s : CodeText) : Datum := .text (.plain s)

def symbol (s : Symbol) : Datum := .text (.symbol s)

def address (a : Address) : Datum := .text (.address a)

def topic (t : Topic) : Datum := .text (.topic t)

/-- The value as an element of an event, when it is one already. -/
def toValue? : Datum → Option Value
  | flag b => some (.flag b)
  | number n => some (.number n)
  | text (.symbol s) => some (.symbol s)
  | text (.address a) => some (.address a)
  | _ => none

def content? : Datum → Option CodeText
  | text t => some t.content
  | _ => none

/-- The content of a text that is characters throughout. -/
def proper? (d : Datum) : Option String := d.content?.bind CodeText.proper?

def characters (s : CodeText) : List Datum :=
  s.points.map fun p => plain (.ofPoints [p])

def octets (bs : Bytes) : List Datum :=
  bs.map fun b => number b.toNat

def fieldPairs (s : LegacyStruct) : List Datum :=
  s.entries.map fun e => tuple [plain e.1.name, e.2.toDatum]

/-- The elements that a value yields one after another; nothing for a value without elements. -/
def elements? : Datum → Option (List Datum)
  | list xs | tuple xs | set xs => some xs
  | map es => some (es.map Prod.fst)
  | text t => some (characters t.content)
  | bytes bs => some (octets bs)
  | struct s => some (fieldPairs s)
  | ext code bs => some [number code, bytes bs]
  | _ => none

def length? : Datum → Option Nat
  | struct _ => none
  | d => d.elements?.map List.length

/-- The elements of a value that is read as a sequence; texts, bytes and maps are not. -/
def sequence? : Datum → Option (List Datum)
  | text _ | bytes _ | map _ => none
  | d => d.elements?

mutual

/-- Values that may serve as keys: no list, set or map, and no tuple that holds one. -/
def isHashable : Datum → Bool
  | list _ | set _ | map _ => false
  | tuple xs => areHashable xs
  | _ => true

def areHashable : List Datum → Bool
  | [] => true
  | x :: r => isHashable x && areHashable r

end

end Datum

end EventEnvelope
