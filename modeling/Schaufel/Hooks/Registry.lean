import Schaufel.Hooks.Fnv
import Schaufel.Json.Tree

/-!
# Hooks: validation and initialisation

`hooks_validate` checks the hooks of a list, and `hooks_add` makes their contexts when a thread or
the queue starts.  Both find a hook by its type; the validator of the hook decides about the other
settings, and its init function reads them again.

The validator of `xmark` checks that the names of the hash and of the fold are strings, and the init
function looks them up in their tables: a name that is not there leaves a null pointer, which is
called for the first message.
-/

namespace Schaufel

namespace Hooks

/-! ### The hook xmark -/

/-- `struct internal` of xmark.c. -/
structure XmarkInternal where
  xmark : UInt32
  field : Option CString
  hash : Option (List UInt8 → Nat → UInt32)
  fold : Option (UInt32 → UInt32)

/-- `h_xmark_validate`. -/
def hXmarkValidate (config : Setting) : Bool :=
  (config.lookupInt (ascii "xmark")).isSome &&
    (match config.getMember (ascii "field") with
    | none => true
    | some field =>
      field.getString.isSome && (config.lookupString (ascii "hash")).isSome &&
        (match config.getMember (ascii "fold") with
        | none => true
        | some fold => fold.getString.isSome))

/-- The fold of a hook: that of the name, or the one that does nothing. -/
def xmarkFold (config : Setting) : Option (Option (UInt32 → UInt32)) :=
  match config.getMember (ascii "fold") with
  | none => some (foldInit (ascii "fold_noop"))
  | some fold => fold.getString.map foldInit

/-- `h_xmark_init`; it aborts where a setting has the wrong type. -/
def hXmarkInit (config : Setting) : Option XmarkInternal := do
  let xmark ← config.lookupInt (ascii "xmark")
  match config.getMember (ascii "field") with
  | none => return ⟨xmark.toUInt32, none, none, none⟩
  | some field =>
    let field ← field.getString
    let hash ← config.lookupString (ascii "hash")
    let fold ← xmarkFold config
    return ⟨xmark.toUInt32, some field, fnvInit hash, fold⟩

/-! ### The hooks that are there -/

/-- The hooks of `hooks_register`. -/
inductive HookKind
  | dummy
  | xmark
  | jsonexport
  deriving DecidableEq, Repr

/-- The table `hooks_available`. -/
def hooksAvailable : List (HookKind × CString) :=
  [(.dummy, ascii "dummy"), (.xmark, ascii "xmark"), (.jsonexport, ascii "jsonexport")]

/-- `_find_hook`. -/
def findHook (name : CString) : Option HookKind := lookupName hooksAvailable name

/-- The context of a hook. -/
inductive HookContext
  | dummy
  | xmark (internal : XmarkInternal)
  | jsonexport (internal : Internal)

/-- The column `validate` of the table. -/
def HookKind.validate (hook : Setting) : HookKind → Except Fault Setting
  | .dummy => .ok hook
  | .xmark => if hXmarkValidate hook then .ok hook else .error .refused
  | .jsonexport => hJsonexportValidate hook

/-- The column `init` of the table. -/
def HookKind.init (hook : Setting) : HookKind → Option HookContext
  | .dummy => some .dummy
  | .xmark => (hXmarkInit hook).map .xmark
  | .jsonexport => (hJsonexportInit hook).map .jsonexport

/-- One round of the loop of `hooks_validate`. -/
def hookValidate (hook : Setting) : Except Fault Setting :=
  match (hook.lookupString (ascii "type")).bind findHook with
  | none => .error .refused
  | some kind => kind.validate hook

/-- The loop of `hooks_validate`, which goes on behind a hook that is refused. -/
def hooksLoop : List Setting → Except Fault (List Setting)
  | [] => .ok []
  | hook :: rest => (both (hookValidate hook) (hooksLoop rest)).map fun r => r.1 :: r.2

/-- `hooks_validate`. -/
def hooksValidate (conf : Setting) : Except Fault Setting :=
  match conf with
  | .list hooks => (hooksLoop hooks).map .list
  | _ => .error .refused

/-- One round of the loop of `hooks_add`: a hook without a type, or of a type that is not there, is
dereferenced. -/
def hookInit (hook : Setting) : Option HookContext :=
  ((hook.lookupString (ascii "type")).bind findHook).bind (HookKind.init hook)

/-- `hooks_add`. -/
def hooksAdd (conf : Setting) : Option (List HookContext) := conf.elements.mapM hookInit

/-! ### What the hooks use -/

/-- Every function pointer and string that a hook uses is there. -/
def HookContext.Defined : HookContext → Prop
  | .dummy => True
  | .xmark internal => internal.field.isSome → internal.hash.isSome ∧ internal.fold.isSome
  | .jsonexport internal => ∀ n ∈ internal.needles, n.conf.Defined

/-- The names in the settings of a hook are known: an xmark hook with a field names a hash of the
table and, if any, a fold of the table; the elements of `jpointers` are no lists, and their types
and actions are strings. -/
def Named (hook : Setting) : HookKind → Prop
  | .dummy => True
  | .xmark => (hook.getMember (ascii "field")).isSome →
      ((hook.lookupString (ascii "hash")).bind fnvInit).isSome ∧
        ∀ fold ∈ hook.getMember (ascii "fold"), (fold.getString.bind foldInit).isSome
  | .jsonexport => ∀ child ∈ jpointerElements hook, child.jpointer.Named

/-! ### Validation and initialisation agree -/

variable {hook hook' : Setting}

/-- An xmark hook that is accepted can be made; its functions are there exactly if their names
are. -/
theorem xmark_defined_iff (h : hXmarkValidate hook = true) :
    (∃ ctx, HookKind.init hook .xmark = some ctx ∧ ctx.Defined) ↔ Named hook .xmark := by
  simp only [hXmarkValidate, Bool.and_eq_true] at h
  obtain ⟨hxmark, hfield⟩ := h
  obtain ⟨xmark, hxmark⟩ := Option.isSome_iff_exists.mp hxmark
  simp only [HookKind.init, hXmarkInit, hxmark, Named]
  cases hmember : hook.getMember (ascii "field") with
  | none => simp [HookContext.Defined]
  | some setting =>
    simp only [hmember, Bool.and_eq_true] at hfield
    obtain ⟨⟨hfield, hhash⟩, hfold⟩ := hfield
    obtain ⟨field, hfield⟩ := Option.isSome_iff_exists.mp hfield
    obtain ⟨hash, hhash⟩ := Option.isSome_iff_exists.mp hhash
    simp only [hfield, hhash, xmarkFold]
    cases hfoldmember : hook.getMember (ascii "fold") with
    | none => simp [HookContext.Defined, foldInit_noop]
    | some setting =>
      simp only [hfoldmember] at hfold
      obtain ⟨fold, hfold⟩ := Option.isSome_iff_exists.mp hfold
      simp [HookContext.Defined, hfold]

/-- A validator keeps the type of its hook. -/
theorem lookupString_type_of_validate {kind : HookKind} (h : kind.validate hook = .ok hook') :
    hook'.lookupString (ascii "type") = hook.lookupString (ascii "type") := by
  cases kind with
  | dummy =>
    obtain rfl := Except.ok.inj h
    rfl
  | xmark =>
    simp only [HookKind.validate] at h
    split at h
    · obtain rfl := Except.ok.inj h
      rfl
    · cases h
  | jsonexport =>
    obtain ⟨settings, -, rfl⟩ := map_eq_ok_iff.mp h
    rw [Setting.lookupString, Setting.lookupString, setJpointers,
      Setting.getMember_set_of_ne (by decide)]

/-- A hook that is accepted can be made, with everything it uses, exactly if its names are known. -/
theorem kind_defined_iff {kind : HookKind} (h : kind.validate hook = .ok hook') :
    (∃ ctx, kind.init hook' = some ctx ∧ ctx.Defined) ↔ Named hook kind := by
  cases kind with
  | dummy => simp [HookKind.init, HookContext.Defined, Named]
  | xmark =>
    simp only [HookKind.validate] at h
    split at h
    · rename_i hvalidate
      obtain rfl := Except.ok.inj h
      exact xmark_defined_iff hvalidate
    · cases h
  | jsonexport =>
    rw [Named, ← jsonexport_defined_iff h]
    simp [HookKind.init, HookContext.Defined]

/-- The kind of a hook, if it has one. -/
def kindOf (hook : Setting) : Option HookKind := (hook.lookupString (ascii "type")).bind findHook

/-- The names in the settings of a hook are known. -/
def HookNamed (hook : Setting) : Prop := ∀ kind ∈ kindOf hook, Named hook kind

theorem hook_defined_iff (h : hookValidate hook = .ok hook') :
    (∃ ctx, hookInit hook' = some ctx ∧ ctx.Defined) ↔ HookNamed hook := by
  unfold hookValidate at h
  split at h
  · cases h
  · rename_i kind hkind
    rw [hookInit, lookupString_type_of_validate h, hkind, Option.bind_some, kind_defined_iff h,
      HookNamed, kindOf, hkind]
    simp

/-- All hooks of an accepted list are accepted. -/
theorem hooksLoop_eq_ok_iff {hooks hooks' : List Setting} :
    hooksLoop hooks = .ok hooks' ↔
      List.Forall₂ (fun hook hook' => hookValidate hook = .ok hook') hooks hooks' := by
  induction hooks generalizing hooks' with
  | nil => simp [hooksLoop, eq_comm]
  | cons hook rest ih =>
    rw [hooksLoop, map_eq_ok_iff, List.forall₂_cons_left_iff]
    constructor
    · rintro ⟨⟨new, news⟩, hboth, rfl⟩
      obtain ⟨hhook, hrest⟩ := both_eq_ok_iff.mp hboth
      exact ⟨new, news, hhook, ih.mp hrest, rfl⟩
    · rintro ⟨new, news, hhook, hrest, rfl⟩
      exact ⟨(new, news), both_eq_ok_iff.mpr ⟨hhook, ih.mpr hrest⟩, rfl⟩

/-- An xmark hook that names a hash which does not exist. -/
def unknownHash : Setting :=
  .list [.group [(ascii "type", .string (ascii "xmark")), (ascii "xmark", .int 0),
    (ascii "field", .string (ascii "f")), (ascii "hash", .string (ascii "md5"))]]

/-- A jsonexport hook with a list in its `jpointers`. -/
def nestedPointers : Setting :=
  .list [.group [(ascii "type", .string (ascii "jsonexport")),
    (ascii "jpointers", .list [.list []])]]

/-- Both lists are accepted.  The hash of the first hook is a null pointer; the second hook cannot
be made. -/
theorem unsound_hooks_accepted :
    (∃ conf ctx, hooksValidate unknownHash = .ok conf ∧ hooksAdd conf = some [ctx] ∧
      ¬ ctx.Defined) ∧
      ∃ conf, hooksValidate nestedPointers = .ok conf ∧ hooksAdd conf = none := by
  refine ⟨⟨_, _, rfl, rfl, fun hdefined => ?_⟩, _, rfl, rfl⟩
  exact absurd (hdefined rfl).1 Bool.false_ne_true

/-- For every list of hooks that `hooks_validate` accepts, `hooks_add` succeeds and everything the
hooks use is defined exactly if the names in the settings of the hooks are known. -/
theorem hooks_validation_sound_iff {conf conf' : Setting} (h : hooksValidate conf = .ok conf') :
    (∃ ctxs, hooksAdd conf' = some ctxs ∧ ∀ ctx ∈ ctxs, ctx.Defined) ↔
      ∀ hook ∈ conf.elements, HookNamed hook := by
  unfold hooksValidate at h
  split at h
  · rename_i hooks
    obtain ⟨hooks', hloop, rfl⟩ := map_eq_ok_iff.mp h
    rw [hooksAdd, exists_mapM_iff]
    refine (forall_mem_iff_of_forall₂ (fun _ _ hvalidate => ?_) (hooksLoop_eq_ok_iff.mp hloop)).symm
    exact (hook_defined_iff hvalidate).symm
  · cases h

/-- An xmark hook with a field and a hash, and a jsonexport hook with one pointer. -/
def soundHooks : Setting :=
  .list [.group [(ascii "type", .string (ascii "xmark")), (ascii "xmark", .int 0),
      (ascii "field", .string (ascii "f")), (ascii "hash", .string (ascii "fnv32a_str"))],
    .group [(ascii "type", .string (ascii "jsonexport")),
      (ascii "jpointers", .list [.string (ascii "/a")])]]

theorem hooks_validation_sound_example :
    ∃ conf ctxs, hooksValidate soundHooks = .ok conf ∧ hooksAdd conf = some ctxs ∧
      ∀ ctx ∈ ctxs, ctx.Defined := by
  have hnamed : ∀ hook ∈ soundHooks.elements, HookNamed hook := by
    intro hook hmem kind hkind
    rcases List.mem_pair.mp hmem with rfl | rfl
    · obtain rfl : HookKind.xmark = kind := Option.some.inj hkind
      exact fun _ => ⟨rfl, fun _ h => nomatch h⟩
    · obtain rfl : HookKind.jsonexport = kind := Option.some.inj hkind
      intro child hchild
      obtain rfl := List.mem_singleton.mp hchild
      trivial
  obtain ⟨ctxs, hadd, hdefined⟩ := (hooks_validation_sound_iff rfl).mpr hnamed
  exact ⟨_, ctxs, rfl, hadd, hdefined⟩

/-! ### Where the validator does not come back -/

/-- The validator comes back from a hook. -/
def HookSound (hook : Setting) : Prop :=
  kindOf hook = some .jsonexport → JpointersSound Jsonexport.actionTypes hook

theorem hookValidate_eq_crash_iff : hookValidate hook = .error .crash ↔ ¬ HookSound hook := by
  unfold hookValidate HookSound kindOf
  cases hkind : (hook.lookupString (ascii "type")).bind findHook with
  | none => simp
  | some kind =>
    cases kind with
    | dummy => simp [HookKind.validate]
    | xmark => simp only [HookKind.validate]; split <;> simp
    | jsonexport => simp [HookKind.validate, hJsonexportValidate_eq_crash_iff]

theorem hooksLoop_eq_crash_iff {hooks : List Setting} :
    hooksLoop hooks = .error .crash ↔ ∃ hook ∈ hooks, ¬ HookSound hook := by
  induction hooks with
  | nil => simp [hooksLoop]
  | cons hook rest ih =>
    rw [hooksLoop, map_eq_error_iff, both_eq_crash_iff, ih, hookValidate_eq_crash_iff,
      List.exists_mem_cons_iff]

/-- The validator comes back from a list of hooks, or from what is in the place of one. -/
def HooksSound (conf : Setting) : Prop :=
  ∀ hooks, conf = .list hooks → ∀ hook ∈ hooks, HookSound hook

theorem hooksValidate_eq_crash_iff {conf : Setting} :
    hooksValidate conf = .error .crash ↔ ¬ HooksSound conf := by
  unfold hooksValidate HooksSound
  cases conf with
  | list hooks => simp [map_eq_error_iff, hooksLoop_eq_crash_iff]
  | _ => simp

end Hooks

end Schaufel
