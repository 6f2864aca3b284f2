import Mathlib.Data.List.Infix
import Schaufel.Json.Timestamp

/-!
# Needles

A needle is a JSON pointer together with what is to become of the value it points to: a filter gives
a verdict on the value, an action accepts or refuses the message by that verdict, and a type says
how the value is written.  `src/hooks/jsonexport.c` and `src/exports.c` share this machinery in two
copies; where they differ (the timestamps) a parameter stands for the difference.

`json-c` is given by three functions (`JsonC`).  A call that would take the string of a JSON null,
or that goes through a null pointer, does not come back: its result is `none`.
-/

namespace Schaufel

/-- `json_tokener_parse`, `json_pointer_get` and `json_object_get_string`.  A pointer may resolve to
the JSON null, for which `json-c` has no object. -/
structure JsonC where
  Obj : Type
  parse : CString → Option Obj
  pointerGet : Obj → CString → Option (Option Obj)
  getString : Obj → CString
  /-- The length of a string is an `int`. -/
  length_getString : ∀ o, (getString o).length < 2 ^ 31

/-! ### Types, actions and filters -/

/-- `PqTypes`. -/
inductive PqType
  | undefined
  | text
  | timestamp
  deriving DecidableEq, Repr

/-- `ActionTypes`; the exports producer has no `storeMeta`. -/
inductive ActionType
  | undefined
  | store
  | storeTrue
  | discardFalse
  | discardTrue
  | storeMeta
  deriving DecidableEq, Repr

/-- `FilterTypes`: `noop`, `match`, `substr` and `exists`. -/
inductive FilterType
  | undefined
  | noop
  | matchData
  | substr
  | existsKey
  deriving DecidableEq, Repr

/-- The column `store` of `action_types`. -/
def ActionType.store? : ActionType → Bool
  | .undefined => false
  | .store => true
  | .storeTrue => true
  | .discardFalse => false
  | .discardTrue => false
  | .storeMeta => true

/-- The column `needs_data` of `filter_types`. -/
def FilterType.needsData : FilterType → Bool
  | .undefined => false
  | .noop => false
  | .matchData => true
  | .substr => true
  | .existsKey => false

/-- The column `action` of `action_types`: whether a verdict is accepted. -/
def ActionType.run : ActionType → Bool → Option Bool
  | .undefined, _ => none
  | .store, _ => some true
  | .storeTrue, verdict => some verdict
  | .discardFalse, verdict => some verdict
  | .discardTrue, verdict => some !verdict
  | .storeMeta, _ => some true

/-! ### Needles -/

/-- The part of a needle that `_needles` sets. -/
structure NeedleConf where
  jpointer : CString
  pqtype : PqType
  action : ActionType
  filter : FilterType
  filterData : Option CString
  deriving DecidableEq, Repr

/-- A needle: its configuration and its output.  `result` is the bytes it points to. -/
structure Needle where
  conf : NeedleConf
  length : UInt32
  result : Option (List UInt8)
  metadata : Bool
  deriving DecidableEq, Repr

/-- A needle without output. -/
def NeedleConf.fresh (conf : NeedleConf) : Needle := ⟨conf, 0, none, false⟩

/-- The part of a needle that a message leaves behind. -/
def Needle.key (n : Needle) : NeedleConf × Bool := (n.conf, n.metadata)

/-- The column `free` of `pq_types`: a text belongs to `json-c`, a timestamp is freed. -/
def Needle.free (n : Needle) : Option Needle :=
  match n.conf.pqtype with
  | .undefined => none
  | .text => some n
  | .timestamp => some { n with result := none }

/-- A needle with a type can be freed. -/
theorem Needle.free_isSome {n : Needle} (h : n.conf.pqtype ≠ .undefined) :
    ∃ n', n.free = some n' := by
  unfold Needle.free
  cases htype : n.conf.pqtype with
  | undefined => exact absurd htype h
  | text => exact ⟨n, rfl⟩
  | timestamp => exact ⟨{ n with result := none }, rfl⟩

section Deref

variable (J : JsonC) (timestamp : CString → Option (List UInt8)) (haystack : J.Obj)

/-- The column `filter` of `filter_types`: the verdict on what `json_pointer_get` found. -/
def NeedleConf.runFilter (conf : NeedleConf) (found : Option (Option J.Obj)) : Option Bool :=
  match conf.filter with
  | .undefined => none
  | .noop => some true
  | .existsKey => some found.isSome
  | .matchData =>
    match found.join with
    | none => some false
    | some o => conf.filterData.map fun data => J.getString o = data
  | .substr =>
    match found.join with
    | none => some false
    | some o => conf.filterData.map fun data => data <:+: J.getString o

/-- The column `format` of `pq_types`: the bytes of a value, `some none` if it is refused.  Neither
format survives a JSON null. -/
def NeedleConf.runFormat (conf : NeedleConf) (value : Option J.Obj) :
    Option (Option (List UInt8)) :=
  match value with
  | none => none
  | some o =>
    match conf.pqtype with
    | .undefined => none
    | .text => some (some (J.getString o))
    | .timestamp => some (timestamp (J.getString o))

/-- `_action_store_meta` marks a needle that found a value. -/
def Needle.markMeta (n : Needle) (value : Option J.Obj) : Needle :=
  { n with metadata := n.metadata || (n.conf.action = .storeMeta && value.isSome) }

/-- The second half of the loop of `_deref`: what was found is formatted.  What a refused format
leaves behind is freed before anybody reads it. -/
def Needle.format (n : Needle) (found : Option (Option J.Obj)) : Option (Int × Needle) :=
  match found with
  | none => some (0, { n with result := none, length := 0xFFFFFFFF })
  | some value =>
    match n.conf.runFormat J timestamp value with
    | none => none
    | some none => some (-1, n)
    | some (some bytes) => some (0, { n with result := some bytes, length := .ofNat bytes.length })

/-- What `json_pointer_get` finds for a needle. -/
def NeedleConf.found (conf : NeedleConf) : Option (Option J.Obj) :=
  J.pointerGet haystack conf.jpointer

/-- The answer of the action to the verdict of the filter. -/
def NeedleConf.answer (conf : NeedleConf) : Option Bool :=
  (conf.runFilter J (conf.found J haystack)).bind conf.action.run

/-- The body of the loop of `_deref`: 0 if the loop goes on, 1 if the action refuses, -1 if the
format does. -/
def Needle.deref (n : Needle) : Option (Int × Needle) :=
  match n.conf.answer J haystack with
  | none => none
  | some false => some (1, n)
  | some true =>
    (n.markMeta J (n.conf.found J haystack).join).format J timestamp (n.conf.found J haystack)

/-- `_deref`: the return value and the needles afterwards. -/
def deref : List Needle → Option (Int × List Needle)
  | [] => some (0, [])
  | n :: rest =>
    match n.deref J timestamp haystack with
    | none => none
    | some (ret, n') =>
      if ret ≠ 0 then some (ret, n' :: rest)
      else (deref rest).map fun r => (r.1, n' :: r.2)

/-! ### What a needle asks for -/

/-- The action accepts the verdict of the filter. -/
def NeedleConf.Accepts (conf : NeedleConf) : Prop := conf.answer J haystack = some true

/-- The field of a needle: NULL if the pointer does not resolve, and otherwise the bytes of the
value, if it can be formatted. -/
def NeedleConf.field (conf : NeedleConf) : Option (Option (List UInt8)) :=
  match conf.found J haystack with
  | none => some none
  | some value => (conf.runFormat J timestamp value).join.map some

/-- A needle with its field. -/
def Needle.filled (n : Needle) (field : Option (List UInt8)) : Needle :=
  { n with
    length := field.elim 0xFFFFFFFF fun bytes => .ofNat bytes.length
    result := field
    metadata := n.metadata || (n.conf.action = .storeMeta && field.isSome) }

variable {J timestamp haystack}

/-- A field is short enough for its length. -/
theorem NeedleConf.length_field {maxSecond : UInt32} {conf : NeedleConf} {bytes : List UInt8}
    (h : conf.field J (pqtimestamp maxSecond) haystack = some (some bytes)) :
    bytes.length < 2 ^ 31 := by
  unfold NeedleConf.field at h
  split at h
  · cases h
  rename_i value _
  cases value with
  | none => cases h
  | some o =>
    unfold NeedleConf.runFormat at h
    cases htype : conf.pqtype with
    | undefined => simp [htype] at h
    | text =>
      have hbytes : J.getString o = bytes := by simpa [htype] using h
      rw [← hbytes]
      exact J.length_getString o
    | timestamp =>
      have hbytes : pqtimestamp maxSecond (J.getString o) = some bytes := by simpa [htype] using h
      rw [length_pqtimestamp hbytes]
      decide

/-- The format succeeds exactly if there is a field, and the needle then holds it. -/
theorem Needle.format_eq_zero_iff {n n' : Needle} :
    (n.markMeta J (n.conf.found J haystack).join).format J timestamp (n.conf.found J haystack) =
        some (0, n') ↔
      ∃ field, n.conf.field J timestamp haystack = some field ∧ n' = n.filled field := by
  unfold NeedleConf.field
  cases n.conf.found J haystack with
  | none => simp [Needle.format, Needle.markMeta, Needle.filled, eq_comm]
  | some value =>
    cases value with
    | none => simp [Needle.format, NeedleConf.runFormat]
    | some o =>
      have hconf : (n.markMeta J (some o)).conf = n.conf := rfl
      rcases hformat : n.conf.runFormat J timestamp (some o) with _ | _ | bytes
      · simp [Needle.format, hconf, hformat]
      · simp [Needle.format, hconf, hformat]
      · simp [Needle.format, hformat, Needle.markMeta, Needle.filled, eq_comm]

/-- The loop goes on exactly if the needle accepts the message and its field can be formatted, and
the needle then holds its field. -/
theorem Needle.deref_eq_zero_iff {n n' : Needle} :
    n.deref J timestamp haystack = some (0, n') ↔
      n.conf.Accepts J haystack ∧
        ∃ field, n.conf.field J timestamp haystack = some field ∧ n' = n.filled field := by
  rw [← Needle.format_eq_zero_iff]
  unfold Needle.deref NeedleConf.Accepts
  rcases n.conf.answer J haystack with _ | _ | _ <;> simp

/-- `_deref` returns 0 exactly if every needle accepts the message and has a field. -/
theorem deref_eq_zero_iff {ns ns' : List Needle} :
    deref J timestamp haystack ns = some (0, ns') ↔
      (∀ n ∈ ns, n.conf.Accepts J haystack ∧ (n.conf.field J timestamp haystack).isSome = true) ∧
        ns' = ns.map fun n => n.filled ((n.conf.field J timestamp haystack).getD none) := by
  induction ns generalizing ns' with
  | nil =>
    constructor
    · intro h
      obtain ⟨-, rfl⟩ := Prod.mk.inj (Option.some.inj h)
      exact ⟨List.forall_mem_nil _, rfl⟩
    · rintro ⟨-, rfl⟩
      rfl
  | cons n rest ih =>
    rw [deref, List.forall_mem_cons, List.map_cons]
    constructor
    · intro h
      cases hn : n.deref J timestamp haystack with
      | none => simp [hn] at h
      | some r =>
        obtain ⟨ret, n'⟩ := r
        by_cases hret : ret = 0
        · subst hret
          simp only [hn, ne_eq, not_true_eq_false, if_false, Option.map_eq_some_iff] at h
          obtain ⟨⟨ret', rest'⟩, hrest, heq⟩ := h
          obtain ⟨rfl, rfl⟩ := Prod.mk.inj heq
          obtain ⟨haccept, field, hfield, rfl⟩ := Needle.deref_eq_zero_iff.mp hn
          obtain ⟨hall, hmap⟩ := ih.mp hrest
          refine ⟨⟨⟨haccept, ?_⟩, hall⟩, ?_⟩
          · rw [hfield]
            rfl
          · rw [hfield, hmap]
            rfl
        · simp [hn, hret] at h
    · rintro ⟨⟨⟨haccept, hsome⟩, hall⟩, rfl⟩
      obtain ⟨field, hfield⟩ := Option.isSome_iff_exists.mp hsome
      have hn := Needle.deref_eq_zero_iff.mpr ⟨haccept, field, hfield, rfl⟩
      simp [hn, ih.mpr ⟨hall, rfl⟩, hfield]

/-- The loop does not touch the configuration of a needle, and only `storeMeta` marks it. -/
theorem Needle.deref_keeps {n n' : Needle} {ret : Int} (hmeta : n.conf.action ≠ .storeMeta)
    (h : n.deref J timestamp haystack = some (ret, n')) : n'.key = n.key := by
  have hmark : ∀ value, (n.markMeta J value).key = n.key := by
    intro value
    simp [Needle.key, Needle.markMeta, hmeta]
  unfold Needle.deref at h
  split at h
  · cases h
  · obtain ⟨-, rfl⟩ := Prod.mk.inj (Option.some.inj h)
    rfl
  · unfold Needle.format at h
    split at h
    · obtain ⟨-, rfl⟩ := Prod.mk.inj (Option.some.inj h)
      exact hmark _
    · split at h
      · cases h
      all_goals
        obtain ⟨-, rfl⟩ := Prod.mk.inj (Option.some.inj h)
        exact hmark _

/-- `_deref` keeps the configurations, and without `storeMeta` the marks. -/
theorem deref_keeps {ns ns' : List Needle} {ret : Int}
    (hmeta : ∀ n ∈ ns, n.conf.action ≠ .storeMeta)
    (h : deref J timestamp haystack ns = some (ret, ns')) :
    ns'.map Needle.key = ns.map Needle.key := by
  induction ns generalizing ret ns' with
  | nil =>
    obtain ⟨-, rfl⟩ := Prod.mk.inj (Option.some.inj h)
    rfl
  | cons n rest ih =>
    rw [List.forall_mem_cons] at hmeta
    rw [deref] at h
    split at h
    · cases h
    rename_i ret' n' hn
    have hkey := Needle.deref_keeps hmeta.1 hn
    split at h
    · obtain ⟨-, rfl⟩ := Prod.mk.inj (Option.some.inj h)
      rw [List.map_cons, List.map_cons, hkey]
    · obtain ⟨⟨ret'', rest'⟩, hrest, heq⟩ := Option.map_eq_some_iff.mp h
      obtain ⟨-, rfl⟩ := Prod.mk.inj heq
      rw [List.map_cons, List.map_cons, hkey, ih hmeta.2 hrest]

/-! ### What a needle does not survive -/

/-- Every function pointer and string that a needle uses is there. -/
structure NeedleConf.Defined (conf : NeedleConf) : Prop where
  /-- The needle has a formatter. -/
  pqtype : conf.pqtype ≠ .undefined
  /-- The needle has an action. -/
  action : conf.action ≠ .undefined
  /-- The needle has a filter. -/
  filter : conf.filter ≠ .undefined
  /-- The filter has the string it needs. -/
  filterData : conf.filter.needsData = true → conf.filterData.isSome = true

/-- The filter and the action of a defined needle come back. -/
theorem NeedleConf.Defined.answer_ne_none {conf : NeedleConf} (h : conf.Defined) :
    conf.answer J haystack ≠ none := by
  have hdata := h.filterData
  have hfilter : (conf.runFilter J (conf.found J haystack)).isSome = true := by
    unfold NeedleConf.runFilter
    cases hconf : conf.filter with
    | undefined => exact absurd hconf h.filter
    | noop => rfl
    | existsKey => rfl
    | matchData =>
      obtain ⟨data, hsome⟩ := Option.isSome_iff_exists.mp (hdata (by rw [hconf]; rfl))
      cases (conf.found J haystack).join <;> simp [hsome]
    | substr =>
      obtain ⟨data, hsome⟩ := Option.isSome_iff_exists.mp (hdata (by rw [hconf]; rfl))
      cases (conf.found J haystack).join <;> simp [hsome]
  obtain ⟨verdict, hverdict⟩ := Option.isSome_iff_exists.mp hfilter
  rw [NeedleConf.answer, hverdict, Option.bind_some]
  cases haction : conf.action with
  | undefined => exact absurd haction h.action
  | _ => exact Option.some_ne_none _

/-- The loop of `_deref` dies exactly of a JSON null that the action lets through. -/
theorem Needle.deref_eq_none_iff {n : Needle} (h : n.conf.Defined) :
    n.deref J timestamp haystack = none ↔
      n.conf.Accepts J haystack ∧ n.conf.found J haystack = some none := by
  unfold Needle.deref NeedleConf.Accepts
  rcases hanswer : n.conf.answer J haystack with _ | _ | _
  · exact absurd hanswer h.answer_ne_none
  · simp
  · simp only [true_and]
    rcases n.conf.found J haystack with _ | _ | o
    · simp [Needle.format]
    · simp [Needle.format, NeedleConf.runFormat]
    · have hconf : (n.markMeta J (some o)).conf = n.conf := rfl
      simp only [Option.join_some, Needle.format, hconf, NeedleConf.runFormat]
      cases htype : n.conf.pqtype with
      | undefined => exact absurd htype h.pqtype
      | text => simp
      | timestamp => cases timestamp (J.getString o) <;> simp

/-- `_deref` comes to a needle that points to a JSON null and lets it through. -/
def ReachesNull (J : JsonC) (timestamp : CString → Option (List UInt8)) (haystack : J.Obj)
    (ns : List Needle) : Prop :=
  ∃ before n after, ns = before ++ n :: after ∧
    (∀ m ∈ before, m.conf.Accepts J haystack ∧ (m.conf.field J timestamp haystack).isSome = true) ∧
    n.conf.Accepts J haystack ∧ n.conf.found J haystack = some none

theorem reachesNull_cons {n : Needle} {rest : List Needle} :
    ReachesNull J timestamp haystack (n :: rest) ↔
      (n.conf.Accepts J haystack ∧ n.conf.found J haystack = some none) ∨
        ((n.conf.Accepts J haystack ∧ (n.conf.field J timestamp haystack).isSome = true) ∧
          ReachesNull J timestamp haystack rest) := by
  constructor
  · rintro ⟨before, m, after, heq, hbefore, hm⟩
    cases before with
    | nil =>
      obtain ⟨rfl, -⟩ := List.cons.inj heq
      exact .inl hm
    | cons n' before =>
      obtain ⟨rfl, rfl⟩ := List.cons.inj heq
      rw [List.forall_mem_cons] at hbefore
      exact .inr ⟨hbefore.1, before, m, after, rfl, hbefore.2, hm⟩
  · rintro (hn | ⟨hn, before, m, after, rfl, hbefore, hm⟩)
    · exact ⟨[], n, rest, rfl, List.forall_mem_nil _, hn⟩
    · exact ⟨n :: before, m, after, rfl, List.forall_mem_cons.mpr ⟨hn, hbefore⟩, hm⟩

/-- `_deref` with defined needles comes back exactly if it reaches no JSON null. -/
theorem deref_eq_none_iff {ns : List Needle} (hns : ∀ n ∈ ns, n.conf.Defined) :
    deref J timestamp haystack ns = none ↔ ReachesNull J timestamp haystack ns := by
  induction ns with
  | nil =>
    refine iff_of_false (Option.some_ne_none _) ?_
    rintro ⟨before, n, after, heq, -⟩
    exact List.cons_ne_nil _ _ (List.append_eq_nil_iff.mp heq.symm).2
  | cons n rest ih =>
    rw [List.forall_mem_cons] at hns
    have hnone : n.deref J timestamp haystack = none ↔ _ := Needle.deref_eq_none_iff hns.1
    rw [reachesNull_cons, ← hnone, deref]
    rcases hn : n.deref J timestamp haystack with _ | ⟨ret, n'⟩
    · simp
    · by_cases hret : ret = 0
      · subst hret
        obtain ⟨haccept, field, hfield, -⟩ := Needle.deref_eq_zero_iff.mp hn
        simp [ih hns.2, haccept, hfield]
      · have hgo : ¬ (n.conf.Accepts J haystack ∧
            (n.conf.field J timestamp haystack).isSome = true) := by
          rintro ⟨haccept, hsome⟩
          obtain ⟨field, hfield⟩ := Option.isSome_iff_exists.mp hsome
          rw [Needle.deref_eq_zero_iff.mpr ⟨haccept, field, hfield, rfl⟩] at hn
          exact hret (Prod.mk.inj (Option.some.inj hn)).1.symm
        simp [hret, hgo]

end Deref

end Schaufel
