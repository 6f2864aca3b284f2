import Schaufel.Kafka.Partitions

/-!
# What becomes of a list of partitions

A list of partitions has numbers and ranges of numbers, written in decimal and separated by commas.
It should become the array of the numbers it names, in order.

`explode_partitions` takes a number with a leading zero for an octal one, and what cannot be read
that way for a number of its own: `010` becomes 8, and `08` becomes 0 and 8.  It stores the last 32
bits of numbers of up to 64 bits.  And it aborts at the first comma.
-/

namespace Schaufel.Kafka

/-! ### Lists of partitions -/

/-- A number in decimal. -/
structure Numeral where
  text : CString
  ne_nil : text ≠ []
  isDigit : ∀ c ∈ text, isDigit c = true

/-- The number. -/
def Numeral.value (n : Numeral) : Nat := ofDigits 10 n.text

/-- An item of a list: a number or a range. -/
inductive Item
  | number (n : Numeral)
  | range (a b : Numeral)

/-- The text of an item. -/
def Item.text : Item → CString
  | .number n => n.text
  | .range a b => a.text ++ 45 :: b.text

/-- The numbers in an item. -/
def Item.numerals : Item → List Numeral
  | .number n => [n]
  | .range a b => [a, b]

/-- The partitions of an item. -/
def Item.listing : Item → List Nat
  | .number n => [n.value]
  | .range a b => span (a.value, b.value)

/-- The text of a list. -/
def specText (items : List Item) : CString := [44].intercalate (items.map Item.text)

/-- The partitions of a list. -/
def listing (items : List Item) : List Nat := items.flatMap Item.listing

/-! ### How a number is read -/

namespace Numeral

variable (n : Numeral)

/-- The digits that are read at first. -/
def first : CString := n.text.takeWhile (isDigitOf (pieceBase n.text))

/-- The digits that are left. -/
def rest : CString := n.text.dropWhile (isDigitOf (pieceBase n.text))

/-- The number that is read at first. -/
def read : Nat := pieceValue n.first

/-- The number that is read from what is left. -/
def left : Option Nat := if n.rest = [] then none else some (pieceValue n.rest)

theorem first_append_rest : n.first ++ n.rest = n.text := List.takeWhile_append_dropWhile

theorem toNat_of_mem {c : UInt8} (h : c ∈ n.text) : 48 ≤ c.toNat ∧ c.toNat < 58 :=
  (isDigit_iff c).mp (n.isDigit c h)

/-- The first digit is a digit of the base. -/
theorem exists_first : ∃ c ds, n.text = c :: ds ∧
    n.first = c :: ds.takeWhile (isDigitOf (pieceBase n.text)) := by
  obtain ⟨c, ds, hcons⟩ := List.exists_cons_of_ne_nil n.ne_nil
  have hc := n.toNat_of_mem (by rw [hcons]; exact .head _)
  have hdigit : isDigitOf (pieceBase n.text) c = true := by
    rw [isDigitOf_iff (pieceBase_le _), pieceBase, hcons, List.head?_cons]
    split
    · rename_i hzero
      obtain rfl := Option.some.inj hzero
      decide
    · exact hc
  refine ⟨c, ds, hcons, ?_⟩
  rw [first]
  conv_lhs => rw [hcons]
  rw [List.takeWhile_cons, ← hcons, if_pos hdigit]

theorem pieceBase_first : pieceBase n.first = pieceBase n.text := by
  obtain ⟨c, ds, htext, hfirst⟩ := n.exists_first
  rw [hfirst, htext]
  rfl

theorem isPiece_first : IsPiece n.first := by
  obtain ⟨c, ds, htext, hfirst⟩ := n.exists_first
  refine ⟨by rw [hfirst]; exact List.cons_ne_nil _ _, fun d hd => ?_⟩
  rw [pieceBase_first]
  exact List.all_eq_true.mp List.all_takeWhile d hd

/-- What is left begins with an 8 or a 9 behind a leading zero. -/
theorem head_rest {c : UInt8} (hc : c ∈ n.rest.head?) :
    n.text.head? = some 48 ∧ isDigitOf (pieceBase n.text) c = false ∧ 56 ≤ c.toNat := by
  have hmem : c ∈ n.text := (List.dropWhile_suffix _).subset (List.mem_of_mem_head? hc)
  have hdigit := n.toNat_of_mem hmem
  have hfalse : isDigitOf (pieceBase n.text) c = false := by
    have hhead := List.head?_dropWhile_not (isDigitOf (pieceBase n.text)) n.text
    rw [show (n.text.dropWhile _).head? = some c from hc] at hhead
    exact hhead
  have hzero : n.text.head? = some 48 := by
    by_contra hne
    rw [pieceBase, if_neg hne, ← Bool.not_eq_true, isDigitOf_iff (Nat.le_refl 10)] at hfalse
    omega
  refine ⟨hzero, hfalse, ?_⟩
  rw [pieceBase, if_pos hzero, ← Bool.not_eq_true, isDigitOf_iff (by decide)] at hfalse
  omega

theorem isPiece_rest (h : n.rest ≠ []) : IsPiece n.rest ∧ pieceBase n.rest = 10 := by
  have hbase : pieceBase n.rest = 10 := by
    refine if_neg fun hzero => ?_
    have := (n.head_rest hzero).2.2
    exact absurd this (by decide)
  refine ⟨⟨h, fun c hc => ?_⟩, hbase⟩
  rw [hbase, isDigitOf_iff (Nat.le_refl 10)]
  exact n.toNat_of_mem ((List.dropWhile_suffix _).subset hc)

end Numeral

/-- A text that goes on with no number. -/
def Stops (tail : CString) : Prop := ∀ c ∈ tail.head?, isDigit c = false ∧ c ≠ 120 ∧ c ≠ 88

theorem Stops.ends {tail : CString} (h : Stops tail) (ds : CString) : Ends ds tail := by
  intro c hc
  obtain ⟨hdigit, hx⟩ := h c hc
  refine ⟨?_, hx⟩
  rw [← Bool.not_eq_true, isDigitOf_iff (pieceBase_le ds)]
  rw [← Bool.not_eq_true, isDigit_iff] at hdigit
  have := pieceBase_le ds
  omega

theorem Numeral.ends_first (n : Numeral) {tail : CString} (h : Stops tail) :
    Ends n.first (n.rest ++ tail) := by
  intro c hc
  rw [n.pieceBase_first]
  by_cases hrest : n.rest = []
  · rw [hrest, List.nil_append] at hc
    exact h.ends n.text c hc
  · rw [List.head?_append_of_ne_nil _ hrest] at hc
    obtain ⟨-, hfalse, -⟩ := n.head_rest hc
    have hdigit := n.toNat_of_mem ((List.dropWhile_suffix _).subset (List.mem_of_mem_head? hc))
    refine ⟨hfalse, ?_, ?_⟩
    · rintro rfl
      exact absurd hdigit.2 (by decide)
    · rintro rfl
      exact absurd hdigit.2 (by decide)

/-! ### How an item is read -/

/-- What the rounds write for some ranges. -/
def emitAll : List (Nat × Nat) → List Int32 → Option (List Int32)
  | [], out => some out
  | range :: ranges, out => (emit range out).bind (emitAll ranges)

/-- A number by itself. -/
def Numeral.leftRange (n : Numeral) : List (Nat × Nat) := n.left.toList.map fun x => (x, x)

/-- The ranges that are read from an item. -/
def Item.readings : Item → List (Nat × Nat)
  | .number n => (n.read, n.read) :: n.leftRange
  | .range a b =>
    match a.left with
    | none => (a.read, b.read) :: b.leftRange
    | some x => (a.read, a.read) :: (x, b.read) :: b.leftRange

variable {tail : CString} {out : List Int32}

/-- A round for what is left of a number. -/
theorem explodeLoop_rest (n : Numeral) (htail : Stops tail) (hdash : tail.head? ≠ some 45)
    (hout : out.length ≤ 8190) :
    explodeLoop (n.rest ++ tail) out = (emitAll n.leftRange out).bind (explodeLoop tail) := by
  unfold Numeral.leftRange Numeral.left
  split
  · rename_i hnil
    rw [hnil]
    rfl
  · rename_i hne
    have hread := readRange_single (n.isPiece_rest hne).1 (htail.ends _) hdash
    rw [explodeLoop_of_readRange (by simp [hne]) hout hread]
    simp [emitAll]

theorem bind_emit_congr {range : Nat × Nat} {f g : List Int32 → Option (List Int32)}
    (h : ∀ out', out'.length ≤ 8190 → f out' = g out') :
    (emit range out).bind f = (emit range out).bind g := by
  rcases hemit : emit range out with _ | out'
  · rfl
  · exact h out' (length_le_of_emit hemit)

/-- No `-` follows the digits that are read at first. -/
theorem Numeral.head_rest_append (n : Numeral) (hdash : n.rest = [] → tail.head? ≠ some 45) :
    (n.rest ++ tail).head? ≠ some 45 := by
  by_cases hrest : n.rest = []
  · rw [hrest]
    exact hdash hrest
  · rw [List.head?_append_of_ne_nil _ hrest]
    intro hhead
    exact absurd (n.head_rest hhead).2.2 (by decide)

/-- The rounds for one item write what is read from it, and go on behind it. -/
theorem explodeLoop_item (item : Item) (htail : Stops tail) (hdash : tail.head? ≠ some 45)
    (hout : out.length ≤ 8190) :
    explodeLoop (item.text ++ tail) out = (emitAll item.readings out).bind (explodeLoop tail) := by
  cases item with
  | number n =>
    have hread :=
      readRange_single n.isPiece_first (n.ends_first htail) (n.head_rest_append fun _ => hdash)
    rw [Item.text, ← n.first_append_rest, List.append_assoc,
      explodeLoop_of_readRange (by simp [n.isPiece_first.1]) hout hread, Item.readings, emitAll,
      Option.bind_assoc]
    exact bind_emit_congr fun out' hout' => explodeLoop_rest n htail hdash hout'
  | range a b =>
    have htext : (Item.range a b).text ++ tail =
        a.first ++ (a.rest ++ 45 :: (b.first ++ (b.rest ++ tail))) := by
      rw [Item.text, ← a.first_append_rest, ← b.first_append_rest]
      simp
    rw [htext, Item.readings, Numeral.left]
    split
    · rename_i hnone
      have hrest : a.rest = [] := by simpa using hnone
      have hread := readRange_pair a.isPiece_first b.isPiece_first (b.ends_first htail)
      rw [hrest, List.nil_append, explodeLoop_of_readRange (by simp) hout hread, emitAll,
        Option.bind_assoc]
      exact bind_emit_congr fun out' hout' => explodeLoop_rest b htail hdash hout'
    · rename_i x hx
      obtain ⟨hrest, rfl⟩ : ¬ a.rest = [] ∧ pieceValue a.rest = x := by simpa using hx
      have hstops : Stops (45 :: (b.first ++ (b.rest ++ tail))) := by
        rintro c ⟨⟩
        decide
      have hread := readRange_single a.isPiece_first (a.ends_first hstops)
        (a.head_rest_append fun h => absurd h hrest)
      have hread' := readRange_pair (a.isPiece_rest hrest).1 b.isPiece_first (b.ends_first htail)
      rw [explodeLoop_of_readRange (by simp [hrest]) hout hread, emitAll, Option.bind_assoc]
      refine bind_emit_congr fun out' hout' => ?_
      rw [explodeLoop_of_readRange (by simp) hout' hread', emitAll, Option.bind_assoc]
      exact bind_emit_congr fun out'' hout'' => explodeLoop_rest b htail hdash hout''

/-- Some ranges are too large or too many. -/
def Overflows (ranges : List (Nat × Nat)) (written : Nat) : Prop :=
  (∃ range ∈ ranges, 2 ^ 64 ≤ max range.1 range.2 + 1) ∨
  8190 < written + (ranges.flatMap span).length

/-- What some ranges come to. -/
theorem emitAll_eq (ranges : List (Nat × Nat)) (out : List Int32) (hout : out.length ≤ 8190) :
    (Overflows ranges out.length ∧ emitAll ranges out = none) ∨
      (¬ Overflows ranges out.length ∧
        emitAll ranges out = some (out ++ (ranges.flatMap span).map Int32.ofNat)) := by
  induction ranges generalizing out with
  | nil =>
    refine .inr ⟨?_, by simp [emitAll]⟩
    simpa [Overflows] using hout
  | cons range ranges ih =>
    rw [emitAll, emit, Overflows, List.exists_mem_cons_iff, List.flatMap_cons, List.length_append]
    split
    · rename_i hlimit
      refine .inl ⟨?_, rfl⟩
      rcases hlimit with hlarge | hmany
      · exact .inl (.inl hlarge)
      · exact .inr (by omega)
    · rename_i hlimit
      rw [not_or] at hlimit
      have hlength : (out ++ (span range).map Int32.ofNat).length =
          out.length + (span range).length := by
        rw [List.length_append, List.length_map]
      have hih := ih (out ++ (span range).map Int32.ofNat) (by omega)
      rw [Overflows, hlength, Nat.add_assoc] at hih
      rw [Option.bind_some, or_iff_right hlimit.1]
      refine hih.imp_right fun h => ⟨h.1, h.2.trans ?_⟩
      simp

/-- A list of one item: what is read from it is written. -/
theorem explodePartitions_single (item : Item) :
    (Overflows item.readings 0 ∧ explodePartitions (some item.text) = none) ∨
      (¬ Overflows item.readings 0 ∧ explodePartitions (some item.text) =
        some ((item.readings.flatMap span).map Int32.ofNat ++ [-1])) := by
  have hitem : explodeLoop (item.text ++ []) [] =
      (emitAll item.readings []).bind (explodeLoop []) :=
    explodeLoop_item item (fun c hc => nomatch hc) (fun h => nomatch h) (Nat.zero_le _)
  rw [List.append_nil] at hitem
  rw [explodePartitions, Option.bind_some, hitem]
  obtain ⟨hover, hnone⟩ | ⟨hfits, hsome⟩ := emitAll_eq item.readings [] (Nat.zero_le _)
  · exact .inl ⟨hover, by rw [hnone]; rfl⟩
  · refine .inr ⟨hfits, ?_⟩
    rw [hsome, Option.bind_some, explodeLoop, if_pos rfl]
    rfl

/-- There is no number at a comma. -/
theorem explodeLoop_comma (rest : CString) (out : List Int32) :
    explodeLoop (44 :: rest) out = none := by
  have hread : readRange (44 :: rest) = none := by
    have hstrtoul : strtoul0 (44 :: rest) = ⟨0, 44 :: rest, false⟩ := rfl
    rw [readRange, hstrtoul]
    simp
  rw [explodeLoop, if_neg (List.cons_ne_nil _ _)]
  split
  · rfl
  · rename_i heq
    rw [hread] at heq
    cases heq

/-- A list of several items aborts. -/
theorem explodePartitions_many (item item' : Item) (items : List Item) :
    explodePartitions (some (specText (item :: item' :: items))) = none := by
  have htext : specText (item :: item' :: items) =
      item.text ++ 44 :: specText (item' :: items) := by
    simp [specText, List.intercalate]
  have hstops : Stops (44 :: specText (item' :: items)) := by
    rintro c ⟨⟩
    decide
  rw [explodePartitions, Option.bind_some, htext,
    explodeLoop_item item hstops (by simp) (Nat.zero_le _)]
  cases emitAll item.readings [] with
  | none => rfl
  | some out => rw [Option.bind_some, explodeLoop_comma]; rfl

/-! ### Numbers that are read as they are written -/

/-- A number that is taken for an octal one, and is another number then. -/
def Numeral.ReadsOctal (n : Numeral) : Prop := n.text.head? = some 48 ∧ 8 ≤ n.value

/-- Digits of the base are read to their end. -/
theorem Numeral.read_of_rest {n : Numeral} (h : n.rest = []) :
    n.left = none ∧ n.read = pieceValue n.text := by
  have hfirst := n.first_append_rest
  rw [h, List.append_nil] at hfirst
  refine ⟨if_pos h, ?_⟩
  rw [Numeral.read, hfirst]

theorem Numeral.read_of_not_readsOctal {n : Numeral} (h : ¬ n.ReadsOctal) :
    n.left = none ∧ n.read = n.value := by
  have hrest : n.rest = [] := by
    by_contra hne
    obtain ⟨c, hc⟩ := Option.ne_none_iff_exists'.mp (mt List.head?_eq_none_iff.mp hne)
    obtain ⟨hzero, -, hle⟩ := n.head_rest hc
    have hmem : c ∈ n.text := (List.dropWhile_suffix _).subset (List.mem_of_mem_head? hc)
    have hdigit : c.toNat - 48 ≤ n.value := le_ofDigits_of_mem (by decide) hmem
    exact h ⟨hzero, by omega⟩
  obtain ⟨hleft, hread⟩ := Numeral.read_of_rest hrest
  refine ⟨hleft, hread.trans ?_⟩
  unfold pieceValue pieceBase
  split
  · rename_i hzero
    have hlt : ofDigits 10 n.text < 8 := Nat.lt_of_not_le fun hle => h ⟨hzero, hle⟩
    exact ofDigits_eq_of_lt (by decide) hlt
  · rfl

/-- What is read at first is too small, and what is left is no smaller than 8. -/
theorem Numeral.read_of_readsOctal {n : Numeral} (h : n.ReadsOctal) :
    n.read < n.value ∧ ∀ x ∈ n.left, 8 ≤ x ∧ x ≤ n.value ∧ (x = n.value → n.read = 0) := by
  obtain ⟨hzero, hle⟩ := h
  have hbase : pieceBase n.first = 8 := n.pieceBase_first.trans (if_pos hzero)
  have hread : n.read = ofDigits 8 n.first := by rw [Numeral.read, pieceValue, hbase]
  have hvalue : n.value = ofDigits 10 n.first * 10 ^ n.rest.length + ofDigits 10 n.rest := by
    rw [← ofDigits_append, n.first_append_rest, Numeral.value]
  have hmono : ofDigits 8 n.first ≤ ofDigits 10 n.first := ofDigits_le_ofDigits (by decide) _
  have hshift : ofDigits 10 n.first ≤ ofDigits 10 n.first * 10 ^ n.rest.length :=
    Nat.le_mul_of_pos_right _ (Nat.pow_pos (by decide))
  by_cases hrest : n.rest = []
  · refine ⟨?_, by simp [Numeral.left, hrest]⟩
    have hvalue' : n.value = ofDigits 10 n.first := by simpa [hrest, ofDigits] using hvalue
    rw [hread, hvalue']
    refine ofDigits_lt_ofDigits (by decide) (by decide) (fun c hc => ?_) (hvalue' ▸ hle)
    have hdigit := n.isPiece_first.2 c hc
    rw [hbase, isDigitOf_iff (by decide)] at hdigit
    exact hdigit.2
  · obtain ⟨c, hc⟩ := Option.ne_none_iff_exists'.mp (mt List.head?_eq_none_iff.mp hrest)
    have hhead := (n.head_rest hc).2.2
    have hdigit : c.toNat - 48 ≤ ofDigits 10 n.rest :=
      le_ofDigits_of_mem (by decide) (List.mem_of_mem_head? hc)
    have hleft : n.left = some (ofDigits 10 n.rest) := by
      rw [Numeral.left, if_neg hrest, pieceValue, (n.isPiece_rest hrest).2]
    refine ⟨by omega, fun x hx => ?_⟩
    obtain rfl := Option.some.inj (hleft.symm.trans hx)
    refine ⟨by omega, by omega, fun heq => by omega⟩

/-- What is read is no larger than the number. -/
theorem Numeral.read_le (n : Numeral) : n.read ≤ n.value ∧ ∀ x ∈ n.left, x ≤ n.value := by
  by_cases h : n.ReadsOctal
  · obtain ⟨hlt, hleft⟩ := n.read_of_readsOctal h
    exact ⟨Nat.le_of_lt hlt, fun x hx => (hleft x hx).2.1⟩
  · obtain ⟨hleft, hread⟩ := n.read_of_not_readsOctal h
    rw [hleft]
    exact ⟨hread.le, fun x hx => nomatch hx⟩

theorem Numeral.readsOctal_of_left {n : Numeral} {x : Nat} (h : n.left = some x) :
    n.ReadsOctal := by
  by_contra hno
  rw [(n.read_of_not_readsOctal hno).1] at h
  cases h

/-! ### Items that are read as they are written -/

@[simp] theorem length_span (range : Nat × Nat) :
    (span range).length = max range.1 range.2 - min range.1 range.2 + 1 := List.length_range'

@[simp] theorem head?_span (range : Nat × Nat) :
    (span range).head? = some (min range.1 range.2) := by
  simp [span, List.range'_succ]

@[simp] theorem getLast?_span (range : Nat × Nat) :
    (span range).getLast? = some (max range.1 range.2) := by
  simp [span, List.getLast?_range']

@[simp] theorem span_self (x : Nat) : span (x, x) = [x] := by simp [span]

theorem mem_span {range : Nat × Nat} {x : Nat} :
    x ∈ span range ↔ min range.1 range.2 ≤ x ∧ x ≤ max range.1 range.2 := by
  simp only [span, List.mem_range'_1]
  omega

theorem flatMap_leftRange (n : Numeral) : n.leftRange.flatMap span = n.left.toList := by
  rw [Numeral.leftRange]
  cases n.left <;> simp

/-- Numbers that are read as they are written make up the item. -/
theorem Item.readings_of_not_readsOctal {item : Item} (h : ∀ n ∈ item.numerals, ¬ n.ReadsOctal) :
    item.readings.flatMap span = item.listing := by
  cases item with
  | number n =>
    obtain ⟨hleft, hread⟩ := n.read_of_not_readsOctal (h n (.head _))
    rw [Item.readings, List.flatMap_cons, flatMap_leftRange, hleft, hread, span_self]
    rfl
  | range a b =>
    obtain ⟨hleft, hread⟩ := a.read_of_not_readsOctal (h a (.head _))
    obtain ⟨hleft', hread'⟩ := b.read_of_not_readsOctal (h b (.tail _ (.head _)))
    rw [Item.readings, hleft, List.flatMap_cons, flatMap_leftRange, hleft', hread, hread']
    exact List.append_nil _

theorem Numeral.not_readsOctal_of_read_eq {n : Numeral} (h : n.read = n.value) : ¬ n.ReadsOctal :=
  fun hoctal => (n.read_of_readsOctal hoctal).1.ne h

/-- Behind something that is left of the first number, the range begins anew. -/
theorem span_ne_of_left {a b : Numeral} {x : Nat} (hleft : a.left = some x) :
    a.read :: (span (x, b.read) ++ b.left.toList) ≠ span (a.value, b.value) := by
  intro heq
  have hlt := (a.read_of_readsOctal (Numeral.readsOctal_of_left hleft)).1
  have hle := b.read_le.1
  have hhead : a.read = min a.value b.value := by
    have := congrArg List.head? heq
    rw [head?_span] at this
    exact Option.some.inj this
  -- the numbers of a range ascend, but the second number is read behind the first
  have hsorted : (a.read :: (span (x, b.read) ++ b.left.toList)).Pairwise (· < ·) := by
    rw [heq]
    exact List.pairwise_lt_range'
  have hmem : b.read ∈ span (x, b.read) ++ b.left.toList :=
    List.mem_append_left _ (mem_span.mpr ⟨min_le_right _ _, le_max_right _ _⟩)
  have := List.rel_of_pairwise_cons hsorted hmem
  omega

/-- No other numbers do. -/
theorem Item.not_readsOctal_of_readings {item : Item}
    (h : item.readings.flatMap span = item.listing) :
    ∀ n ∈ item.numerals, ¬ n.ReadsOctal := by
  cases item with
  | number n =>
    rw [Item.readings, List.flatMap_cons, flatMap_leftRange, span_self] at h
    have hread : n.read = n.value := (List.cons.inj h).1
    simpa [Item.numerals] using Numeral.not_readsOctal_of_read_eq hread
  | range a b =>
    rw [Item.readings] at h
    have hle := a.read_le.1
    have hle' := b.read_le.1
    split at h
    · rename_i hleft
      rw [List.flatMap_cons, flatMap_leftRange, Item.listing] at h
      have hhead : min a.read b.read = min a.value b.value := by
        have := congrArg List.head? h
        simpa [List.head?_append] using this
      have hlength := congrArg List.length h
      simp only [List.length_append, length_span] at hlength
      rcases hleft' : b.left with _ | y
      · rw [hleft', Option.toList_none, List.length_nil] at hlength
        have hread : a.read = a.value := by omega
        have hread' : b.read = b.value := by omega
        simpa [Item.numerals] using
          ⟨Numeral.not_readsOctal_of_read_eq hread, Numeral.not_readsOctal_of_read_eq hread'⟩
      · -- what is left of the second number is the last one of the range, and 0 the first one
        obtain ⟨hlt, hrest⟩ := b.read_of_readsOctal (Numeral.readsOctal_of_left hleft')
        obtain ⟨hy, hyle, hyzero⟩ := hrest y hleft'
        have hlast : y = max a.value b.value := by
          have := congrArg List.getLast? h
          rw [hleft', getLast?_span] at this
          simpa using this
        rw [hleft', Option.toList_some, List.length_singleton] at hlength
        omega
    · rename_i x hleft
      rw [List.flatMap_cons, List.flatMap_cons, flatMap_leftRange, span_self] at h
      exact absurd h (span_ne_of_left hleft)

/-! ### Lists that are expanded as they are written -/

/-- Every number of a list is one of 32 bits. -/
def NumbersFit (items : List Item) : Prop := ∀ item ∈ items, ∀ n ∈ item.numerals, n.value < 2 ^ 31

/-- The list has numbers of 32 bits and no more than 8190 partitions. -/
def Fits (items : List Item) : Prop := NumbersFit items ∧ (listing items).length ≤ 8190

/-- The array lists the partitions in order; only a list that does not fit aborts. -/
def AsWritten (items : List Item) (result : Option (List Int32)) : Prop :=
  (NumbersFit items ∧ result = some ((listing items).map Int32.ofNat ++ [-1])) ∨
  (¬ Fits items ∧ result = none)

/-- A list of one item without octal numbers that fits, or a list that does not fit and aborts: it
has several items, or what is read of the one item is too large or too much. -/
def ReadAsWritten (items : List Item) : Prop :=
  (items.length ≤ 1 ∧ Fits items ∧ ∀ item ∈ items, ∀ n ∈ item.numerals, ¬ n.ReadsOctal) ∨
    (¬ Fits items ∧ (2 ≤ items.length ∨ ∃ item ∈ items, Overflows item.readings 0))

theorem Numeral.leftRange_le {n : Numeral} {range : Nat × Nat} (h : range ∈ n.leftRange) :
    max range.1 range.2 ≤ n.value := by
  obtain ⟨x, hx, rfl⟩ := List.mem_map.mp h
  rw [max_self]
  exact n.read_le.2 x (Option.mem_toList.mp hx)

/-- What is read of an item is no larger than its numbers. -/
theorem Item.readings_lt {item : Item} {bound : Nat} (h : ∀ n ∈ item.numerals, n.value < bound) :
    ∀ range ∈ item.readings, max range.1 range.2 < bound := by
  cases item with
  | number n =>
    have hn := h n (.head _)
    have hread := n.read_le.1
    refine List.forall_mem_cons.mpr ⟨?_, fun range hrange => ?_⟩
    · simp only [max_self]
      omega
    · exact Nat.lt_of_le_of_lt (Numeral.leftRange_le hrange) hn
  | range a b =>
    have ha := h a (.head _)
    have hb := h b (.tail _ (.head _))
    have hread := a.read_le
    have hread' := b.read_le.1
    have hleft : ∀ range ∈ b.leftRange, max range.1 range.2 < bound :=
      fun range hrange => Nat.lt_of_le_of_lt (Numeral.leftRange_le hrange) hb
    rw [Item.readings]
    split
    · refine List.forall_mem_cons.mpr ⟨?_, hleft⟩
      simp only [max_lt_iff]
      omega
    · rename_i x hx
      have hle := hread.2 x hx
      refine List.forall_mem_cons.mpr ⟨?_, List.forall_mem_cons.mpr ⟨?_, hleft⟩⟩
      · simp only [max_self]
        omega
      · simp only [max_lt_iff]
        omega

theorem Item.listing_lt {item : Item} {bound : Nat} (h : ∀ n ∈ item.numerals, n.value < bound) :
    ∀ x ∈ item.listing, x < bound := by
  intro x hx
  cases item with
  | number n =>
    obtain rfl := List.mem_singleton.mp hx
    exact h n (.head _)
  | range a b =>
    have ha := h a (.head _)
    have hb := h b (.tail _ (.head _))
    have hle := (mem_span.mp hx).2
    simp only [le_max_iff] at hle
    omega

/-- Numbers of 32 bits can be told apart in the array. -/
theorem eq_of_map_ofNat {l l' : List Nat} (h : ∀ x ∈ l, x < 2 ^ 31) (h' : ∀ x ∈ l', x < 2 ^ 31)
    (heq : l.map Int32.ofNat = l'.map Int32.ofNat) : l = l' := by
  have hback : ∀ l : List Nat, (∀ x ∈ l, x < 2 ^ 31) →
      (l.map Int32.ofNat).map (fun i => i.toInt.toNat) = l := by
    intro l hl
    rw [List.map_map]
    conv_rhs => rw [← List.map_id l]
    refine List.map_congr_left fun x hx => ?_
    simp only [Function.comp_apply, Int32.toInt_ofNat_of_lt (hl x hx), Int.toNat_natCast, id]
  rw [← hback l h, ← hback l' h', heq]

/-- One item comes out as it is written exactly if it has no octal numbers. -/
theorem Item.map_readings_eq_iff {item : Item} (h : ∀ n ∈ item.numerals, n.value < 2 ^ 31) :
    (item.readings.flatMap span).map Int32.ofNat = item.listing.map Int32.ofNat ↔
      ∀ n ∈ item.numerals, ¬ n.ReadsOctal := by
  constructor
  · intro heq
    refine Item.not_readsOctal_of_readings (eq_of_map_ofNat ?_ (Item.listing_lt h) heq)
    intro x hx
    obtain ⟨range, hrange, hx⟩ := List.mem_flatMap.mp hx
    exact Nat.lt_of_le_of_lt (mem_span.mp hx).2 (Item.readings_lt h range hrange)
  · intro hoctal
    rw [Item.readings_of_not_readsOctal hoctal]

/-- An item that fits and has no octal numbers is written completely. -/
theorem Item.not_overflows {item : Item} (h : ∀ n ∈ item.numerals, n.value < 2 ^ 31)
    (hlength : item.listing.length ≤ 8190) (hoctal : ∀ n ∈ item.numerals, ¬ n.ReadsOctal) :
    ¬ Overflows item.readings 0 := by
  rintro (⟨range, hrange, hlarge⟩ | hmany)
  · have := Item.readings_lt h range hrange
    omega
  · rw [Item.readings_of_not_readsOctal hoctal] at hmany
    omega

theorem asWritten_nil : AsWritten [] (explodePartitions (some (specText []))) := by
  have hloop : explodeLoop [] [] = some [] := by rw [explodeLoop, if_pos rfl]
  refine .inl ⟨List.forall_mem_nil _, ?_⟩
  rw [show specText [] = [] from rfl, explodePartitions, Option.bind_some, hloop]
  rfl

theorem asWritten_singleton_iff (item : Item) :
    AsWritten [item] (explodePartitions (some (specText [item]))) ↔ ReadAsWritten [item] := by
  have htext : specText [item] = item.text := by simp [specText, List.intercalate]
  have hlisting : listing [item] = item.listing := by simp [listing]
  have hnumbers : NumbersFit [item] ↔ ∀ n ∈ item.numerals, n.value < 2 ^ 31 := by simp [NumbersFit]
  rw [htext, AsWritten, ReadAsWritten, Fits, hlisting, hnumbers]
  simp only [List.length_singleton, Nat.le_refl, true_and, List.mem_singleton, forall_eq,
    exists_eq_left]
  obtain ⟨hover, hnone⟩ | ⟨hover, hsome⟩ := explodePartitions_single item
  · rw [hnone]
    constructor
    · rintro (⟨-, habsurd⟩ | ⟨hfits, -⟩)
      · cases habsurd
      · exact .inr ⟨hfits, .inr hover⟩
    · rintro (⟨⟨hfits, hlength⟩, hoctal⟩ | ⟨hfits, -⟩)
      · exact absurd hover (Item.not_overflows hfits hlength hoctal)
      · exact .inr ⟨hfits, rfl⟩
  · rw [hsome]
    constructor
    · rintro (⟨hfits, heq⟩ | ⟨-, habsurd⟩)
      · have hoctal :=
          (Item.map_readings_eq_iff hfits).mp (List.append_cancel_right (Option.some.inj heq))
        rw [Overflows, Item.readings_of_not_readsOctal hoctal, not_or, Nat.zero_add,
          Nat.not_lt] at hover
        exact .inl ⟨⟨hfits, hover.2⟩, hoctal⟩
      · cases habsurd
    · rintro (⟨⟨hfits, -⟩, hoctal⟩ | ⟨-, hseveral | habsurd⟩)
      · exact .inl ⟨hfits, by rw [Item.readings_of_not_readsOctal hoctal]⟩
      · exact absurd hseveral (by decide)
      · exact absurd habsurd hover

/-- Exactly these lists are expanded as they are written. -/
theorem asWritten_iff (items : List Item) :
    AsWritten items (explodePartitions (some (specText items))) ↔ ReadAsWritten items := by
  match items with
  | [] =>
    refine iff_of_true asWritten_nil (.inl ⟨by decide, ⟨List.forall_mem_nil _, by decide⟩, ?_⟩)
    exact List.forall_mem_nil _
  | [item] => exact asWritten_singleton_iff item
  | item :: item' :: items =>
    rw [explodePartitions_many, AsWritten, ReadAsWritten]
    simp

end Schaufel.Kafka
