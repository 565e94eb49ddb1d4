import EventEnvelope.Datum

/-!
Equality and order across kinds. Texts compare by content, and flags, integers and doubles as
numbers, so that a topic finds a plain text and `1` finds `true`. An extension value compares as the
tuple of its code and its bytes. Maps keep the place of a key's first occurrence and its last value.
-/

namespace EventEnvelope

/-- A number of any kind on one scale, in units of `2 ^ -1074`. -/
inductive Quantity
  | finite (units : Int)
  | infinite (negative : Bool)
  | undefined
deriving DecidableEq, Repr

namespace Quantity

def same : Quantity → Quantity → Bool
  | finite a, finite b => a = b
  | infinite a, infinite b => a = b
  | _, _ => false

def atLeast : Quantity → Quantity → Bool
  | undefined, _ | _, undefined => false
  | finite a, finite b => b ≤ a
  | infinite negative, infinite below => !negative || below
  | infinite negative, finite _ => !negative
  | finite _, infinite below => below

end Quantity

namespace Datum

def quantity? : Datum → Option Quantity
  | flag b => some (.finite (if b then Binary64.unitsPerOne else 0))
  | number n => some (.finite (n * Binary64.unitsPerOne))
  | real x =>
    some (if x.isNan then .undefined
      else if x.isFinite then .finite x.units
      else .infinite x.isNegative)
  | _ => none

def sameLeaf (a b : Datum) : Bool :=
  match a.quantity?, b.quantity? with
  | some p, some q => p.same q
  | _, _ =>
    match a, b with
    | null, null => true
    | text s, text t => s.content == t.content
    | bytes bs, bytes cs => bs == cs
    | struct s, struct t => s = t
    | ext c bs, ext d cs => c = d && bs == cs
    | timestamp s n, timestamp t m => s = t && n = m
    | _, _ => false

mutual

def same : Datum → Datum → Bool
  | list xs, d =>
    match d with
    | list ys => sameAll xs ys
    | _ => false
  | tuple xs, d =>
    match d with
    | tuple ys => sameAll xs ys
    | ext code bs => sameAll xs [number code, bytes bs]
    | _ => false
  | ext code bs, d =>
    match d with
    | tuple [x, y] => sameLeaf (number code) x && sameLeaf (bytes bs) y
    | d => sameLeaf (ext code bs) d
  | set xs, d =>
    match d with
    | set ys => xs.length = ys.length && includedIn xs ys
    | _ => false
  | map es, d =>
    match d with
    | map fs => es.length = fs.length && entriesIn es fs
    | _ => false
  | a, d => sameLeaf a d

def sameAll : List Datum → List Datum → Bool
  | [], [] => true
  | x :: xs, y :: ys => same x y && sameAll xs ys
  | _, _ => false

def includedIn : List Datum → List Datum → Bool
  | [], _ => true
  | x :: xs, ys => ys.any (fun y => same x y) && includedIn xs ys

def entriesIn : List (Datum × Datum) → List (Datum × Datum) → Bool
  | [], _ => true
  | (k, v) :: es, fs => fs.any (fun f => same k f.1 && same v f.2) && entriesIn es fs

end

def leafAtLeast? (a b : Datum) : Option Bool :=
  match a, b with
  | text s, text t => some (!decide (s.content < t.content))
  | bytes bs, bytes cs => some (!decide (bs < cs))
  | _, _ =>
    match a.quantity?, b.quantity? with
    | some p, some q => some (p.atLeast q)
    | _, _ => none

/-- The order of an extension value and a sequence, at the first difference. -/
def extAtLeast? (code : Nat) (bs : Bytes) : List Datum → Option Bool
  | [] => some true
  | y :: ys =>
    if sameLeaf (number code) y then
      match ys with
      | [] => some true
      | z :: r =>
        if sameLeaf (bytes bs) z then some r.isEmpty else leafAtLeast? (bytes bs) z
    else leafAtLeast? (number code) y

mutual

/-- `a ≥ b`, where the two kinds can be ordered. Sequences compare at the first difference. -/
def atLeast? : Datum → Datum → Option Bool
  | list xs, d =>
    match d with
    | list ys => atLeastAll? xs ys
    | _ => none
  | tuple xs, d =>
    match d with
    | tuple ys => atLeastAll? xs ys
    | ext code bs => atLeastAll? xs [number code, bytes bs]
    | _ => none
  | ext code bs, d =>
    match d with
    | tuple ys => extAtLeast? code bs ys
    | ext other cs => extAtLeast? code bs [number other, bytes cs]
    | _ => none
  | set xs, d =>
    match d with
    | set ys => some (includedIn ys xs)
    | _ => none
  | a, d => leafAtLeast? a d

def atLeastAll? : List Datum → List Datum → Option Bool
  | [], [] => some true
  | [], _ :: _ => some false
  | _ :: _, [] => some true
  | x :: xs, y :: ys => if same x y then atLeastAll? xs ys else atLeast? x y

end

def find? (es : List (Datum × Datum)) (k : Datum) : Option Datum :=
  (es.find? fun e => same e.1 k).map Prod.snd

def get? (es : List (Datum × Datum)) (k : String) : Option Datum :=
  (es.find? fun e => e.1.content? == some (.proper k)).map Prod.snd

/-- A map with one more entry: an equal key keeps its place and its form, and takes the new value.
-/
def insert (es : List (Datum × Datum)) (k v : Datum) : List (Datum × Datum) :=
  if es.any fun e => same e.1 k then es.map fun e => if same e.1 k then (e.1, v) else e
  else es ++ [(k, v)]

def ofEntries (es : List (Datum × Datum)) : List (Datum × Datum) :=
  es.foldl (fun m e => insert m e.1 e.2) []

end Datum

end EventEnvelope
