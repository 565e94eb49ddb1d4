/-!
Texts as sequences of code points. A surrogate is a code point that stands for no character: a text
is a run of characters, and behind it nothing or a surrogate and another text. Main statements: a
text is told by its code points, and each sequence of code points is a text.
-/

namespace EventEnvelope

/-- One of the code points from U+D800 to U+DFFF, by its distance from the first. -/
structure Surrogate where
  offset : Fin 0x800
deriving DecidableEq, Repr

namespace Surrogate

def toNat (u : Surrogate) : Nat := 0xd800 + u.offset

/-- Leading surrogates come first in a pair, the others second. -/
def isLeading (u : Surrogate) : Bool := u.offset.val < 0x400

end Surrogate

inductive CodePoint
  | char (c : Char)
  | surrogate (u : Surrogate)
deriving DecidableEq, Repr

def CodePoint.toNat : CodePoint → Nat
  | char c => c.toNat
  | surrogate u => u.toNat

inductive CodeText
  | proper (s : String)
  | broken (s : String) (u : Surrogate) (rest : CodeText)
deriving DecidableEq, Repr

namespace CodeText

instance : Coe String CodeText := ⟨proper⟩

instance : Inhabited CodeText := ⟨proper ""⟩

/-- The text as characters, when it holds no surrogate. -/
def proper? : CodeText → Option String
  | proper s => some s
  | broken _ _ _ => none

def isProper (s : CodeText) : Bool := s.proper?.isSome

def points : CodeText → List CodePoint
  | proper s => s.toList.map .char
  | broken s u rest => s.toList.map .char ++ .surrogate u :: rest.points

/-- The text of some code points behind a run of characters, of which the last comes first. -/
def ofPointsAfter (run : List Char) : List CodePoint → CodeText
  | [] => proper (String.ofList run.reverse)
  | .char c :: r => ofPointsAfter (c :: run) r
  | .surrogate u :: r => broken (String.ofList run.reverse) u (ofPointsAfter [] r)

def ofPoints (ps : List CodePoint) : CodeText := ofPointsAfter [] ps

def isEmpty : CodeText → Bool
  | proper s => s.isEmpty
  | broken _ _ _ => false

def length : CodeText → Nat
  | proper s => s.length
  | broken s _ rest => s.length + 1 + rest.length

def take (n : Nat) (s : CodeText) : CodeText := ofPoints (s.points.take n)

def append : CodeText → CodeText → CodeText
  | proper s, proper t => proper (s ++ t)
  | proper s, broken t u rest => broken (s ++ t) u rest
  | broken s u rest, t => broken s u (append rest t)

instance : Append CodeText := ⟨append⟩

/-- Texts are ordered as the numbers of their code points are. -/
instance : LT CodeText := ⟨fun s t => s.points.map CodePoint.toNat < t.points.map CodePoint.toNat⟩

instance (s t : CodeText) : Decidable (s < t) :=
  inferInstanceAs (Decidable (s.points.map CodePoint.toNat < t.points.map CodePoint.toNat))

/-- The text with three replacement characters for each surrogate, one for each byte that a
surrogate would take. -/
def replaced : CodeText → String
  | proper s => s
  | broken s _ rest => s ++ "\ufffd\ufffd\ufffd" ++ rest.replaced

theorem points_ofPointsAfter (run : List Char) (ps : List CodePoint) :
    (ofPointsAfter run ps).points = run.reverse.map .char ++ ps := by
  induction ps generalizing run with
  | nil => simp [ofPointsAfter, points]
  | cons p r ih =>
    cases p with
    | char c => simp [ofPointsAfter, ih]
    | surrogate u => simp [ofPointsAfter, points, ih]

@[simp] theorem points_ofPoints (ps : List CodePoint) : (ofPoints ps).points = ps :=
  points_ofPointsAfter [] ps

theorem ofPointsAfter_chars (run cs : List Char) (ps : List CodePoint) :
    ofPointsAfter run (cs.map .char ++ ps) = ofPointsAfter (cs.reverse ++ run) ps := by
  induction cs generalizing run with
  | nil => rfl
  | cons c r ih =>
    simp only [List.map_cons, List.cons_append, ofPointsAfter, ih, List.reverse_cons,
      List.append_assoc, List.nil_append]

@[simp] theorem ofPoints_points (s : CodeText) : ofPoints s.points = s := by
  induction s with
  | proper s =>
    have run := ofPointsAfter_chars [] s.toList []
    simpa [ofPoints, points, ofPointsAfter] using run
  | broken s u rest ih =>
    have run := ofPointsAfter_chars [] s.toList (.surrogate u :: rest.points)
    rw [ofPoints] at ih
    simpa [ofPoints, points, ofPointsAfter, ih] using run

theorem points_injective {s t : CodeText} (h : s.points = t.points) : s = t := by
  rw [← ofPoints_points s, h, ofPoints_points]

@[simp] theorem length_points (s : CodeText) : s.points.length = s.length := by
  induction s with
  | proper s => simp [points, length, String.length]
  | broken s u rest ih =>
    simp only [points, length, String.length, List.length_append, List.length_map,
      List.length_cons, ih]
    omega

theorem isEmpty_iff {s : CodeText} : s.isEmpty = true ↔ s = proper "" := by
  cases s <;> simp [isEmpty]

end CodeText

end EventEnvelope
