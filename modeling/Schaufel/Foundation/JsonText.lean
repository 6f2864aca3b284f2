import Schaufel.Foundation.Utf8

/-!
# JSON texts

A JSON text is a sequence of tokens with blanks between them, whose kinds form a value.  A string
token is a list of elements: characters in UTF-8 that stand for themselves, escapes of two
characters, and escapes with four hexadecimal digits.

Since the kinds alone decide whether the tokens form a value, a text stays one when elements of its
strings are replaced by others.  A backslash only stands at the start of an escape or is escaped
itself, so a text falls into `Piece`s none of which starts within an escape.
-/

namespace Schaufel.JsonText

/-! ### Elements of a string -/

/-- The backslash. -/
def backslash : UInt8 := 92

/-- The second characters of the escapes of two characters: `"`, `\`, `/`, `b`, `f`, `n`, `r` and
`t`. -/
def simpleEscapes : List UInt8 := [34, 92, 47, 98, 102, 110, 114, 116]

/-- A decimal digit. -/
def isDigit (b : UInt8) : Bool := 48 ≤ b && b ≤ 57

/-- A hexadecimal digit. -/
def isHexDigit (b : UInt8) : Bool := isDigit b || (65 ≤ b && b ≤ 70) || (97 ≤ b && b ≤ 102)

/-- An element of a string. -/
inductive Element
  /-- A character that stands for itself. -/
  | plain (c : Char) (hc : 0x20 ≤ c.toNat ∧ c ≠ '"' ∧ c ≠ '\\')
  /-- An escape of two characters. -/
  | simple (b : UInt8) (hb : b ∈ simpleEscapes)
  /-- An escape with four hexadecimal digits. -/
  | unicode (digits : List UInt8) (hlength : digits.length = 4)
      (hdigits : digits.all isHexDigit = true)

/-- An escape with digits. -/
def unicodeEscape (digits : List UInt8) : List UInt8 := backslash :: 117 :: digits

/-- The bytes of an element. -/
def Element.bytes : Element → List UInt8
  | .plain c _ => String.utf8EncodeChar c
  | .simple b _ => [backslash, b]
  | .unicode digits _ _ => unicodeEscape digits

/-! ### Tokens -/

/-- A number. -/
structure Number (text : List UInt8) : Prop where
  /-- A sign, an integer without leading zeros, a fraction and an exponent, each of the others
  possibly absent. -/
  parts : ∃ sign int frac exp, text = sign ++ int ++ frac ++ exp ∧ sign ∈ [[], [45]] ∧
    (int = [48] ∨ ∃ d ds, int = d :: ds ∧ d ≠ 48 ∧ int.all isDigit = true) ∧
    (frac = [] ∨ ∃ ds, frac = 46 :: ds ∧ ds ≠ [] ∧ ds.all isDigit = true) ∧
    (exp = [] ∨ ∃ e s ds, exp = e :: (s ++ ds) ∧ e ∈ [101, 69] ∧ s ∈ [[], [43], [45]] ∧ ds ≠ [] ∧
      ds.all isDigit = true)

/-- The literals `false`, `null` and `true`. -/
def literals : List (List UInt8) :=
  [[102, 97, 108, 115, 101], [110, 117, 108, 108], [116, 114, 117, 101]]

/-- What the grammar sees of a token. -/
inductive Kind
  | beginArray | endArray | beginObject | endObject | nameSeparator | valueSeparator | scalar
  | string
  deriving DecidableEq

/-- A token. -/
inductive Token
  | beginArray | endArray | beginObject | endObject | nameSeparator | valueSeparator
  | literal (name : List UInt8) (hname : name ∈ literals)
  | number (text : List UInt8) (htext : Number text)
  | string (elements : List Element)

def Token.kind : Token → Kind
  | .beginArray => .beginArray
  | .endArray => .endArray
  | .beginObject => .beginObject
  | .endObject => .endObject
  | .nameSeparator => .nameSeparator
  | .valueSeparator => .valueSeparator
  | .literal _ _ => .scalar
  | .number _ _ => .scalar
  | .string _ => .string

/-- The bytes of a token. -/
def Token.bytes : Token → List UInt8
  | .beginArray => [91]
  | .endArray => [93]
  | .beginObject => [123]
  | .endObject => [125]
  | .nameSeparator => [58]
  | .valueSeparator => [44]
  | .literal name _ => name
  | .number text _ => text
  | .string elements => [34] ++ elements.flatMap Element.bytes ++ [34]

/-! ### Texts -/

/-- The tokens of a value. -/
inductive Value : List Kind → Prop
  | scalar : Value [.scalar]
  | string : Value [.string]
  | array (values : List (List Kind)) : (∀ v ∈ values, Value v) →
      Value ([.beginArray] ++ List.intercalate [.valueSeparator] values ++ [.endArray])
  | object (values : List (List Kind)) : (∀ v ∈ values, Value v) →
      Value ([.beginObject] ++
        List.intercalate [.valueSeparator] (values.map fun v => [.string, .nameSeparator] ++ v) ++
        [.endObject])

/-- A space, a tab, a line feed or a carriage return. -/
def isBlank (b : UInt8) : Bool := b = 32 || b = 9 || b = 10 || b = 13

/-- A token with the blanks before it. -/
structure Spaced where
  blanks : List UInt8
  token : Token
  blanks_all : blanks.all isBlank = true

def Spaced.bytes (s : Spaced) : List UInt8 := s.blanks ++ s.token.bytes

/-- The bytes are a JSON text. -/
def WellFormed (text : List UInt8) : Prop :=
  ∃ (tokens : List Spaced) (trailing : List UInt8), Value (tokens.map fun s => s.token.kind) ∧
    trailing.all isBlank = true ∧ text = tokens.flatMap Spaced.bytes ++ trailing

/-! ### Pieces -/

/-- A byte that is no backslash, or an escape. -/
inductive Piece : List UInt8 → Prop
  | byte {b : UInt8} : b ≠ backslash → b ≠ 0 → Piece [b]
  | simple {b : UInt8} : b ∈ simpleEscapes → Piece [backslash, b]
  | unicode {digits : List UInt8} : digits.length = 4 → digits.all isHexDigit = true →
      Piece (unicodeEscape digits)

/-- A byte that is neither a backslash nor a null byte. -/
def isCommon (b : UInt8) : Bool := b ≠ backslash && b ≠ 0

theorem piece_of_isCommon {b : UInt8} (h : isCommon b = true) : Piece [b] := by
  rw [isCommon, Bool.and_eq_true, decide_eq_true_eq, decide_eq_true_eq] at h
  exact .byte h.1 h.2

theorem isCommon_of_isBlank {b : UInt8} (h : isBlank b = true) : isCommon b = true := by
  simp only [isBlank, Bool.or_eq_true, decide_eq_true_eq] at h
  rcases h with ((rfl | rfl) | rfl) | rfl <;> rfl

theorem isCommon_of_isDigit {b : UInt8} (h : isDigit b = true) : isCommon b = true := by
  rw [isDigit, Bool.and_eq_true, decide_eq_true_eq, decide_eq_true_eq] at h
  rw [isCommon, Bool.and_eq_true, decide_eq_true_eq, decide_eq_true_eq]
  refine ⟨?_, ?_⟩
  · rintro rfl
    exact absurd h.2 (by decide)
  · rintro rfl
    exact absurd h.1 (by decide)

/-- A literal in a list of bytes that all satisfy a test. -/
theorem all_of_mem {P : UInt8 → Bool} {options : List (List UInt8)}
    (h : options.all (fun o => o.all P) = true) {s : List UInt8} (hs : s ∈ options) :
    s.all P = true :=
  List.all_eq_true.mp h s hs

theorem all_isCommon_of_isDigit {ds : List UInt8} (h : ds.all isDigit = true) :
    ds.all isCommon = true := by
  rw [List.all_eq_true] at h ⊢
  exact fun b hb => isCommon_of_isDigit (h b hb)

theorem Number.isCommon {text : List UInt8} (h : Number text) : text.all isCommon = true := by
  obtain ⟨sign, int, frac, exp, rfl, hsign, hint, hfrac, hexp⟩ := h.parts
  simp only [List.all_append, Bool.and_eq_true]
  refine ⟨⟨⟨all_of_mem (by decide) hsign, ?_⟩, ?_⟩, ?_⟩
  · rcases hint with rfl | ⟨d, ds, -, -, hall⟩
    · rfl
    · exact all_isCommon_of_isDigit hall
  · rcases hfrac with rfl | ⟨ds, rfl, -, hall⟩
    · rfl
    · rw [List.all_cons, all_isCommon_of_isDigit hall]
      rfl
  · rcases hexp with rfl | ⟨e, s, ds, rfl, he, hs, -, hall⟩
    · rfl
    · rw [List.all_cons, List.all_append, all_of_mem (by decide) hs, all_isCommon_of_isDigit hall]
      simp only [List.mem_cons, List.not_mem_nil, or_false] at he
      rcases he with rfl | rfl <;> rfl

/-- The bytes of a character that stands for itself. -/
theorem isCommon_of_plain {c : Char} (hc : 0x20 ≤ c.toNat ∧ c ≠ '"' ∧ c ≠ '\\') :
    (String.utf8EncodeChar c).all isCommon = true := by
  rw [List.all_eq_true]
  intro b hb
  rw [isCommon, Bool.and_eq_true, decide_eq_true_eq, decide_eq_true_eq]
  by_cases hascii : c.toNat ≤ 0x7F
  · rw [Utf8.encode_eq, if_pos hascii, List.mem_singleton] at hb
    have hval : b.toNat = c.toNat := by
      rw [hb, UInt8.toNat_ofNat']
      omega
    refine ⟨?_, ?_⟩
    · rintro rfl
      exact hc.2.2 (Char.ext (UInt32.toNat_inj.mp hval.symm))
    · rintro rfl
      rw [← hval] at hc
      exact absurd hc.1 (by decide)
  · have hle := Utf8.Multibyte.le_of_mem ⟨c, by omega, rfl⟩ hb
    refine ⟨?_, ?_⟩ <;>
    · rintro rfl
      exact absurd hle (by decide)

/-! ### Replacing an escape -/

/-- The elements with others in the place of an escape. -/
def Element.replace (digits : List UInt8) (new : List Element) : Element → List Element
  | .plain c hc => [.plain c hc]
  | .simple b hb => [.simple b hb]
  | .unicode d hlength hdigits => if d = digits then new else [.unicode d hlength hdigits]

def Token.replace (digits : List UInt8) (new : List Element) : Token → Token
  | .string elements => .string (elements.flatMap (Element.replace digits new))
  | t => t

def Spaced.replace (digits : List UInt8) (new : List Element) (s : Spaced) : Spaced :=
  { s with token := s.token.replace digits new }

/-- A piece with other bytes in the place of an escape. -/
def replacePiece (digits bytes piece : List UInt8) : List UInt8 :=
  if piece = unicodeEscape digits then bytes else piece

/-- The bytes fall into pieces, and the other bytes are what replacing the escape among the pieces
gives. -/
def Replaced (digits bytes text text' : List UInt8) : Prop :=
  ∃ pieces : List (List UInt8), (∀ p ∈ pieces, Piece p) ∧ text = pieces.flatten ∧
    text' = (pieces.map (replacePiece digits bytes)).flatten

section Replace

variable {digits bytes : List UInt8}

theorem Replaced.nil : Replaced digits bytes [] [] := ⟨[], by simp, rfl, rfl⟩

theorem Replaced.append {s s' t t' : List UInt8} (h : Replaced digits bytes s s')
    (h' : Replaced digits bytes t t') : Replaced digits bytes (s ++ t) (s' ++ t') := by
  obtain ⟨ps, hps, rfl, rfl⟩ := h
  obtain ⟨qs, hqs, rfl, rfl⟩ := h'
  refine ⟨ps ++ qs, ?_, by rw [List.flatten_append], by rw [List.map_append, List.flatten_append]⟩
  intro p hp
  exact (List.mem_append.mp hp).elim (hps p) (hqs p)

theorem Replaced.flatMap {α : Type*} {f g : α → List UInt8} (xs : List α)
    (h : ∀ x ∈ xs, Replaced digits bytes (f x) (g x)) :
    Replaced digits bytes (xs.flatMap f) (xs.flatMap g) := by
  induction xs with
  | nil => exact .nil
  | cons x xs ih =>
    rw [List.flatMap_cons, List.flatMap_cons]
    exact (h x List.mem_cons_self).append (ih fun y hy => h y (List.mem_cons_of_mem _ hy))

/-- A piece that is not the escape stays. -/
theorem Replaced.of_piece {p : List UInt8} (hp : Piece p) (hne : p ≠ unicodeEscape digits) :
    Replaced digits bytes p p :=
  ⟨[p], by simpa using hp, by simp, by simp [replacePiece, hne]⟩

/-- So does everything that has no backslash. -/
theorem Replaced.of_isCommon {s : List UInt8} (hs : s.all isCommon = true) :
    Replaced digits bytes s s := by
  induction s with
  | nil => exact .nil
  | cons b s ih =>
    rw [List.all_cons, Bool.and_eq_true] at hs
    refine @Replaced.append _ _ [b] [b] _ _ ?_ (ih hs.2)
    exact .of_piece (piece_of_isCommon hs.1) (by simp [unicodeEscape])

variable {new : List Element}

theorem Element.replaced (e : Element) :
    Replaced digits (new.flatMap Element.bytes) e.bytes
      ((e.replace digits new).flatMap Element.bytes) := by
  cases e with
  | plain c hc =>
    rw [Element.replace, List.flatMap_singleton]
    exact .of_isCommon (isCommon_of_plain hc)
  | simple b hb =>
    rw [Element.replace, List.flatMap_singleton]
    refine .of_piece (.simple hb) ?_
    intro heq
    simp only [Element.bytes, unicodeEscape, List.cons.injEq] at heq
    exact absurd hb (heq.2.1 ▸ by decide)
  | unicode d hlength hdigits =>
    rw [Element.replace]
    split_ifs with hd
    · subst hd
      exact ⟨[unicodeEscape d], by simpa using Piece.unicode hlength hdigits,
        by simp [Element.bytes], by simp [replacePiece]⟩
    · rw [List.flatMap_singleton]
      refine .of_piece (.unicode hlength hdigits) ?_
      intro heq
      simp only [Element.bytes, unicodeEscape, List.cons.injEq, true_and] at heq
      exact hd heq

theorem Token.replaced (t : Token) :
    Replaced digits (new.flatMap Element.bytes) t.bytes (t.replace digits new).bytes := by
  cases t with
  | literal name hname => exact .of_isCommon (all_of_mem (by decide) hname)
  | number text htext => exact .of_isCommon htext.isCommon
  | string elements =>
    have helements := Replaced.flatMap elements fun e _ => @Element.replaced digits new e
    rw [← List.flatMap_assoc] at helements
    exact ((Replaced.of_isCommon (by decide)).append helements).append (.of_isCommon (by decide))
  | _ => exact .of_isCommon (by decide)

theorem Token.kind_replace (t : Token) : (t.replace digits new).kind = t.kind := by
  cases t <;> rfl

/-- A text stays one when elements take the place of an escape. -/
theorem WellFormed.replace {text : List UInt8} (h : WellFormed text) (digits : List UInt8)
    (new : List Element) :
    ∃ text', Replaced digits (new.flatMap Element.bytes) text text' ∧ WellFormed text' := by
  obtain ⟨tokens, trailing, hvalue, htrailing, rfl⟩ := h
  have hblanks : ∀ {s : List UInt8}, s.all isBlank = true → s.all isCommon = true := by
    intro s hs
    rw [List.all_eq_true] at hs ⊢
    exact fun b hb => isCommon_of_isBlank (hs b hb)
  refine ⟨(tokens.map (Spaced.replace digits new)).flatMap Spaced.bytes ++ trailing,
    .append ?_ (.of_isCommon (hblanks htrailing)), tokens.map (Spaced.replace digits new), trailing,
    ?_, htrailing, rfl⟩
  · rw [List.flatMap_map]
    exact .flatMap tokens fun s _ =>
      (Replaced.of_isCommon (hblanks s.blanks_all)).append s.token.replaced
  · rw [List.map_map]
    simpa [Function.comp_def, Spaced.replace, Token.kind_replace] using hvalue

end Replace

/-- A text falls into pieces. -/
theorem WellFormed.exists_pieces {text : List UInt8} (h : WellFormed text) :
    ∃ pieces : List (List UInt8), (∀ p ∈ pieces, Piece p) ∧ text = pieces.flatten := by
  obtain ⟨_, ⟨pieces, hpieces, htext, -⟩, -⟩ := h.replace [] []
  exact ⟨pieces, hpieces, htext⟩

/-- Behind a byte that is no backslash the pieces go on. -/
theorem exists_pieces_of_cons {b : UInt8} (hb : b ≠ backslash) {rest : List UInt8}
    {pieces : List (List UInt8)} (hpieces : ∀ p ∈ pieces, Piece p)
    (h : b :: rest = pieces.flatten) :
    ∃ pieces' : List (List UInt8), (∀ p ∈ pieces', Piece p) ∧ rest = pieces'.flatten := by
  cases pieces with
  | nil => cases h
  | cons piece pieces =>
    rw [List.forall_mem_cons] at hpieces
    rw [List.flatten_cons] at h
    cases hpieces.1 with
    | byte _ _ => exact ⟨pieces, hpieces.2, (List.cons.inj h).2⟩
    | simple _ => exact absurd (List.cons.inj h).1 hb
    | unicode _ _ => exact absurd (List.cons.inj h).1 hb

/-- Behind a backslash that starts a piece is the second character of an escape. -/
theorem escape_of_cons {c : UInt8} {rest : List UInt8} {pieces : List (List UInt8)}
    (hpieces : ∀ p ∈ pieces, Piece p) (h : backslash :: c :: rest = pieces.flatten) :
    c ∈ simpleEscapes ∨ c = 117 := by
  cases pieces with
  | nil => cases h
  | cons piece pieces =>
    rw [List.forall_mem_cons] at hpieces
    rw [List.flatten_cons] at h
    cases hpieces.1 with
    | byte hb _ => exact absurd (List.cons.inj h).1.symm hb
    | simple hb => exact .inl ((List.cons.inj (List.cons.inj h).2).1 ▸ hb)
    | unicode _ _ => exact .inr (List.cons.inj (List.cons.inj h).2).1

end Schaufel.JsonText
