import Schaufel.Foundation.Strtoul
import Mathlib.Data.Nat.Basic
import Mathlib.Data.List.Infix

/-!
# Lists of partitions

`explode_partitions` turns a text such as `0-5,7` into an array of partition numbers that ends with
-1.  A round of its loop reads a number, or two numbers with a `-` between them, and writes the
range down.

The text goes on where the number ends.  A separator is not skipped, so that the next round finds no
number at a comma.
-/

namespace Schaufel.Kafka

/-! ### The program -/

/-- The two numbers of a range in ascending order, swapped by addition. -/
def sortRange (a b : UInt64) : UInt64 × UInt64 :=
  if b < a then
    let a := a + b
    let b := a - b
    let a := a - b
    (a, b)
  else (a, b)

/-- The part of a round that reads: the range and the text behind it.  A text without a number and a
number out of range abort. -/
def readRange (parts : CString) : Option ((UInt64 × UInt64) × CString) :=
  let a := strtoul0 parts
  match a.endptr with
  | 45 :: rest =>
    let b := strtoul0 rest
    if a.erange || b.erange then none else some (sortRange a.value b.value, b.endptr)
  | endptr =>
    if endptr = parts then none
    else if a.erange then none else some (sortRange a.value a.value, endptr)

/-- The part of a round that writes.  The number of entries is counted; more than 8190 abort. -/
def writeRange (a b : UInt64) (out : List Int32) : Option (List Int32) :=
  if a ≤ b then
    if 8190 < (out ++ [Int32.ofNat a.toNat]).length then none
    else writeRange (a + 1) b (out ++ [Int32.ofNat a.toNat])
  else some out
termination_by 8191 - out.length
decreasing_by
  rw [List.length_append, List.length_singleton] at *
  omega

theorem readRange_lt {parts rest : CString} {range : UInt64 × UInt64}
    (h : readRange parts = some (range, rest)) : rest.length < parts.length := by
  have hsuffix := strtoul0_suffix parts
  simp only [readRange] at h
  split at h
  · rename_i rest' hend
    split at h
    · cases h
    · obtain rfl := (Prod.mk.inj (Option.some.inj h)).2
      have hle := (strtoul0_suffix rest').length_le
      have hle' := hsuffix.length_le
      rw [hend, List.length_cons] at hle'
      omega
  · split at h
    · cases h
    · rename_i hne
      split at h
      · cases h
      · obtain rfl := (Prod.mk.inj (Option.some.inj h)).2
        refine Nat.lt_of_le_of_ne hsuffix.length_le fun hlength => hne ?_
        exact hsuffix.eq_of_length hlength

/-- The loop of `explode_partitions`: one round for each range, to the end of the text. -/
def explodeLoop (parts : CString) (out : List Int32) : Option (List Int32) :=
  if parts = [] then some out
  else
    match _h : readRange parts with
    | none => none
    | some (range, rest) => (writeRange range.1 range.2 out).bind (explodeLoop rest)
termination_by parts.length
decreasing_by exact readRange_lt _h

/-- `explode_partitions`: the array up to its terminator; `none` says that the program aborts. -/
def explodePartitions (parts : Option CString) : Option (List Int32) :=
  parts.bind fun parts => (explodeLoop parts []).map (· ++ [-1])

/-! ### One round -/

/-- Swapping by addition swaps, also if the sum is out of range. -/
theorem sortRange_toNat (a b : UInt64) :
    (sortRange a b).1.toNat = min a.toNat b.toNat ∧
      (sortRange a b).2.toNat = max a.toNat b.toNat := by
  unfold sortRange
  split
  · rename_i hlt
    have hb : a + b - b = a := UInt64.add_sub_cancel a b
    have ha : a + b - a = b := by rw [UInt64.add_comm]; exact UInt64.add_sub_cancel b a
    have hle := Nat.le_of_lt (UInt64.lt_iff_toNat_lt.mp hlt)
    simp only [hb, ha]
    exact ⟨(Nat.min_eq_right hle).symm, (Nat.max_eq_left hle).symm⟩
  · rename_i hge
    have hle := UInt64.not_lt.mp hge
    exact ⟨(Nat.min_eq_left hle).symm, (Nat.max_eq_right hle).symm⟩

/-- Up to the largest number of 64 bits there is always a next one, and the loop runs into its
limit. -/
theorem writeRange_max (a b : UInt64) (hb : b.toNat + 1 = 2 ^ 64) (out : List Int32) :
    writeRange a b out = none := by
  fun_induction writeRange a b out with
  | case1 => rfl
  | case2 a out hle hlength ih => exact ih
  | case3 a out hlt =>
    have ha := a.toNat_lt
    rw [UInt64.le_iff_toNat_le] at hlt
    omega

theorem writeRange_eq {a b : UInt64} (hb : b.toNat + 1 < 2 ^ 64) {n : Nat}
    (hn : a.toNat + n = b.toNat + 1) {out : List Int32} (hout : out.length ≤ 8190) :
    writeRange a b out =
      if 8190 < out.length + n then none
      else some (out ++ (List.range' a.toNat n).map Int32.ofNat) := by
  induction n generalizing a out with
  | zero =>
    rw [writeRange, if_neg, if_neg (by omega)]
    · simp
    · rw [UInt64.le_iff_toNat_le]
      omega
  | succ n ih =>
    have hle : a ≤ b := by
      rw [UInt64.le_iff_toNat_le]
      omega
    have hsucc : (a + 1).toNat = a.toNat + 1 := by
      rw [UInt64.toNat_add]
      exact Nat.mod_eq_of_lt (by show a.toNat + 1 < _; omega)
    rw [writeRange, if_pos hle, List.length_append, List.length_singleton]
    split
    · rw [if_pos (by omega)]
    · rw [ih (by omega) (by simp; omega), hsucc, List.length_append, List.length_singleton,
        List.range'_succ]
      simp only [List.map_cons, List.append_assoc, List.singleton_append]
      rw [Nat.add_assoc, Nat.add_comm 1 n]

/-- The numbers of a range, whichever of its ends comes first. -/
def span (range : Nat × Nat) : List Nat :=
  List.range' (min range.1 range.2) (max range.1 range.2 - min range.1 range.2 + 1)

/-- What a round writes for two numbers of any size. -/
def emit (range : Nat × Nat) (out : List Int32) : Option (List Int32) :=
  if 2 ^ 64 ≤ max range.1 range.2 + 1 ∨ 8190 < out.length + (span range).length then none
  else some (out ++ (span range).map Int32.ofNat)

theorem length_le_of_emit {range : Nat × Nat} {out out' : List Int32}
    (h : emit range out = some out') : out'.length ≤ 8190 := by
  unfold emit at h
  split at h
  · cases h
  · rename_i hlimit
    obtain rfl := Option.some.inj h
    rw [List.length_append, List.length_map]
    omega

theorem writeRange_sortRange {v w : Nat} (h : max v w < 2 ^ 64) {out : List Int32}
    (hout : out.length ≤ 8190) :
    writeRange (sortRange (UInt64.ofNat v) (UInt64.ofNat w)).1
      (sortRange (UInt64.ofNat v) (UInt64.ofNat w)).2 out = emit (v, w) out := by
  obtain ⟨hmin, hmax⟩ := sortRange_toNat (UInt64.ofNat v) (UInt64.ofNat w)
  rw [UInt64.toNat_ofNat_of_lt' (by show v < 2 ^ 64; omega),
    UInt64.toNat_ofNat_of_lt' (by show w < 2 ^ 64; omega)] at hmin hmax
  by_cases htop : max v w + 1 = 2 ^ 64
  · rw [writeRange_max _ _ (hmax ▸ htop), emit, if_pos (.inl htop.ge)]
  · have hn : (sortRange (UInt64.ofNat v) (UInt64.ofNat w)).1.toNat + (max v w - min v w + 1) =
        (sortRange (UInt64.ofNat v) (UInt64.ofNat w)).2.toNat + 1 := by
      rw [hmin, hmax]
      omega
    rw [writeRange_eq (by rw [hmax]; omega) hn hout, hmin, emit, span, List.length_range']
    refine if_congr ?_ rfl rfl
    simp only []
    omega

/-- A round that reads two numbers writes their range. -/
theorem explodeLoop_of_readRange {parts tail : CString} {v w : Nat} {out : List Int32}
    (hparts : parts ≠ []) (hout : out.length ≤ 8190)
    (h : readRange parts =
      if 2 ^ 64 ≤ max v w then none else some (sortRange (UInt64.ofNat v) (UInt64.ofNat w), tail)) :
    explodeLoop parts out = (emit (v, w) out).bind (explodeLoop tail) := by
  rw [explodeLoop, if_neg hparts]
  by_cases hmax : 2 ^ 64 ≤ max v w
  · rw [if_pos hmax] at h
    rw [emit, if_pos (.inl (by show 2 ^ 64 ≤ max v w + 1; omega))]
    split
    · rfl
    · rename_i heq
      rw [h] at heq
      cases heq
  · rw [if_neg hmax] at h
    split
    · rename_i heq
      rw [h] at heq
      cases heq
    · rename_i range rest heq
      obtain ⟨rfl, rfl⟩ := Prod.mk.inj (Option.some.inj (h.symm.trans heq))
      rw [writeRange_sortRange (Nat.lt_of_not_le hmax) hout]

theorem readRange_single {p tail : CString} (hp : IsPiece p) (htail : Ends p tail)
    (hdash : tail.head? ≠ some 45) :
    readRange (p ++ tail) = if 2 ^ 64 ≤ max (pieceValue p) (pieceValue p) then none
      else some (sortRange (UInt64.ofNat (pieceValue p)) (UInt64.ofNat (pieceValue p)), tail) := by
  have hne : tail ≠ p ++ tail := fun h => hp.1 (List.self_eq_append_left.mp h)
  rw [readRange, strtoul0_piece hp htail, Nat.max_self]
  simp only [endptr_readingOf]
  split
  · exact absurd rfl hdash
  · rw [if_neg hne]
    by_cases hv : 2 ^ 64 ≤ pieceValue p
    · rw [if_pos hv, readingOf_of_le hv]
      rfl
    · rw [if_neg hv, readingOf_of_not_le hv]
      rfl

theorem readRange_pair {p q tail : CString} (hp : IsPiece p) (hq : IsPiece q)
    (htail : Ends q tail) :
    readRange (p ++ 45 :: (q ++ tail)) = if 2 ^ 64 ≤ max (pieceValue p) (pieceValue q) then none
      else some (sortRange (UInt64.ofNat (pieceValue p)) (UInt64.ofNat (pieceValue q)), tail) := by
  have hdash : Ends p (45 :: (q ++ tail)) := by
    rintro c ⟨⟩
    exact ⟨rfl, by decide, by decide⟩
  rw [readRange, strtoul0_piece hp hdash]
  simp only [endptr_readingOf, strtoul0_piece hq htail]
  by_cases hv : 2 ^ 64 ≤ pieceValue p
  · have hmax : 2 ^ 64 ≤ max (pieceValue p) (pieceValue q) := le_max_of_le_left hv
    rw [if_pos hmax, readingOf_of_le hv]
    rfl
  · by_cases hw : 2 ^ 64 ≤ pieceValue q
    · have hmax : 2 ^ 64 ≤ max (pieceValue p) (pieceValue q) := le_max_of_le_right hw
      rw [if_pos hmax, readingOf_of_not_le hv, readingOf_of_le hw]
      rfl
    · have hmax : ¬ 2 ^ 64 ≤ max (pieceValue p) (pieceValue q) := by
        rw [le_max_iff]
        exact not_or.mpr ⟨hv, hw⟩
      rw [if_neg hmax, readingOf_of_not_le hv, readingOf_of_not_le hw]
      rfl

end Schaufel.Kafka
