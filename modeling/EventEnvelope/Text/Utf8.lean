import EventEnvelope.Bytes
import EventEnvelope.Text.CodeText

/-!
Texts as bytes. A text with a surrogate has no bytes. Main statement: decoding accepts exactly what
encoding produces, so a text has at most one byte form.
-/

namespace EventEnvelope.Utf8

def encode (s : String) : Bytes := s.toByteArray.data.toList

/-- Nothing when the bytes are not valid: overlong forms, surrogates and cut sequences are
refused. -/
def decode? (bs : Bytes) : Option String := String.fromUTF8? ⟨bs.toArray⟩

/-- The bytes of a text, if all of it is characters. -/
def encode? (s : CodeText) : Option Bytes := s.proper?.map encode

theorem decode?_encode (s : String) : decode? (encode s) = some s := by
  have h : (⟨(encode s).toArray⟩ : ByteArray) = s.toByteArray := by simp [encode]
  unfold decode?
  rw [h, String.fromUTF8?, dif_pos s.isValidUTF8]
  rfl

theorem eq_encode_of_decode? {bs : Bytes} {s : String} (h : decode? bs = some s) :
    bs = encode s := by
  unfold decode? String.fromUTF8? at h
  split at h
  · cases h; simp [encode, String.fromUTF8]
  · cases h

theorem decode?_eq_some_iff {bs : Bytes} {s : String} : decode? bs = some s ↔ bs = encode s :=
  ⟨eq_encode_of_decode?, fun h => h ▸ decode?_encode s⟩

end EventEnvelope.Utf8
