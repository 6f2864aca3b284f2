import Schaufel.Foundation.BigEndian

/-!
# What PostgreSQL reads from a COPY stream in binary format

A row is the number of its fields, in two bytes, and its fields; a field is the number of its bytes,
in four bytes, and its bytes.  The number of bytes of a NULL is `0xFFFFFFFF`, and no bytes follow.
-/

namespace Schaufel

/-- The number of bytes that stands for NULL. -/
def nullLength : Nat := 0xFFFFFFFF

/-- The fields of a row; `none` is NULL. -/
abbrev Fields := List (Option (List UInt8))

/-! ### The reader -/

/-- Read a field off the front of a stream. -/
def readField (stream : List UInt8) : Option (Option (List UInt8) × List UInt8) := do
  let (len, rest) ← readNumber 4 stream
  if len = nullLength then some (none, rest)
  else if len ≤ rest.length then some (some (rest.take len), rest.drop len)
  else none

/-- Read some fields off the front of a stream. -/
def readFields : Nat → List UInt8 → Option (Fields × List UInt8)
  | 0, stream => some ([], stream)
  | n + 1, stream => do
    let (field, rest) ← readField stream
    let (fields, rest') ← readFields n rest
    some (field :: fields, rest')

/-- The fields of a row, if nothing is left over. -/
def decodeTuple (stream : List UInt8) : Option Fields := do
  let (n, rest) ← readNumber 2 stream
  let (fields, rest') ← readFields n rest
  if rest' = [] then some fields else none

/-! ### Rows that are well formed -/

/-- The bytes of a field. -/
def encodeField (field : Option (List UInt8)) : List UInt8 :=
  bigEndian 4 (field.elim nullLength List.length) ++ field.getD []

/-- The bytes of a row. -/
def encodeTuple (fields : Fields) : List UInt8 :=
  bigEndian 2 fields.length ++ fields.flatMap encodeField

theorem readField_encodeField {field : Option (List UInt8)}
    (h : ∀ bytes ∈ field, bytes.length < nullLength) (rest : List UInt8) :
    readField (encodeField field ++ rest) = some (field, rest) := by
  cases field with
  | none =>
    have hread : readNumber 4 (bigEndian 4 nullLength ++ rest) = some (nullLength, rest) :=
      readNumber_bigEndian (by decide) rest
    simp [readField, encodeField, hread]
  | some bytes =>
    have hlt : bytes.length < nullLength := h bytes rfl
    have hread := readNumber_bigEndian (Nat.lt_trans hlt (by decide : nullLength < 256 ^ 4))
      (bytes ++ rest)
    have hne : bytes.length ≠ nullLength := Nat.ne_of_lt hlt
    simp [readField, encodeField, hread, hne]

theorem readFields_flatMap {fields : Fields}
    (h : ∀ field ∈ fields, ∀ bytes ∈ field, bytes.length < nullLength) (rest : List UInt8) :
    readFields fields.length (fields.flatMap encodeField ++ rest) = some (fields, rest) := by
  induction fields with
  | nil => rfl
  | cons field fields ih =>
    have hfield := readField_encodeField (h field (List.mem_cons_self ..))
      (fields.flatMap encodeField ++ rest)
    have hfields := ih fun f hf => h f (List.mem_cons_of_mem field hf)
    simp [readFields, List.flatMap_cons, List.append_assoc, hfield, hfields]

/-- A row is read as the fields it was made of. -/
theorem decodeTuple_encodeTuple {fields : Fields} (hcount : fields.length < 2 ^ 16)
    (h : ∀ field ∈ fields, ∀ bytes ∈ field, bytes.length < nullLength) :
    decodeTuple (encodeTuple fields) = some fields := by
  have hnumber : readNumber 2 (encodeTuple fields) =
      some (fields.length, fields.flatMap encodeField) :=
    readNumber_bigEndian (by omega) _
  have hfields := readFields_flatMap h []
  rw [List.append_nil] at hfields
  simp [decodeTuple, hnumber, hfields]

end Schaufel
