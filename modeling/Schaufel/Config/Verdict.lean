import Schaufel.Foundation.CString

/-!
# Verdicts of the validators

A validator returns true or false, or it does not come back: it aborts, or it dereferences a null
pointer.  What it leaves of the configuration matters only if it accepts, since the program ends
otherwise.
-/

namespace Schaufel

/-- Why a validator does not accept. -/
inductive Fault
  /-- It returns false. -/
  | refused
  /-- It does not come back. -/
  | crash
  deriving DecidableEq, Repr

/-- A string that must be there. -/
def required (value : Option CString) : Except Fault CString :=
  match value with
  | none => .error .refused
  | some s => .ok s

theorem ok_ne_crash {α : Type} (a : α) : (.ok a : Except Fault α) ≠ .error .crash :=
  fun h => nomatch h

theorem refused_ne_crash {α : Type} : (.error .refused : Except Fault α) ≠ .error .crash :=
  fun h => nomatch h

/-- A computation succeeds exactly if its parts do. -/
theorem bind_eq_ok_iff {α β : Type} {x : Except Fault α} {f : α → Except Fault β} {b : β} :
    x >>= f = .ok b ↔ ∃ a, x = .ok a ∧ f a = .ok b := by
  cases x with
  | error e => simp [bind, Except.bind]
  | ok a => simp [bind, Except.bind]

/-- A computation fails exactly if one of its parts does. -/
theorem bind_eq_error_iff {α β : Type} {x : Except Fault α} {f : α → Except Fault β} {e : Fault} :
    x >>= f = .error e ↔ x = .error e ∨ ∃ a, x = .ok a ∧ f a = .error e := by
  cases x with
  | error e => simp [bind, Except.bind]
  | ok a => simp [bind, Except.bind]

/-- Behind a part that always comes back, a computation crashes where the rest of it does. -/
theorem bind_eq_crash_iff {α β : Type} {x : Except Fault α} {f : α → Except Fault β}
    (hx : x ≠ .error .crash) : x >>= f = .error .crash ↔ ∃ a, x = .ok a ∧ f a = .error .crash := by
  rw [bind_eq_error_iff, or_iff_right hx]

/-- A string that is missing is no crash. -/
theorem required_ne_crash (value : Option CString) : required value ≠ .error .crash := by
  cases value with
  | none => exact refused_ne_crash
  | some s => exact ok_ne_crash s

theorem required_eq_ok_iff {value : Option CString} {s : CString} :
    required value = .ok s ↔ value = some s := by
  cases value with
  | none => simp [required]
  | some s => simp [required]

theorem map_eq_ok_iff {α β : Type} {x : Except Fault α} {f : α → β} {b : β} :
    x.map f = .ok b ↔ ∃ a, x = .ok a ∧ f a = b := by
  cases x with
  | error e => simp [Except.map]
  | ok a => simp [Except.map]

theorem map_eq_error_iff {α β : Type} {x : Except Fault α} {f : α → β} {e : Fault} :
    x.map f = .error e ↔ x = .error e := by
  cases x with
  | error e => simp [Except.map]
  | ok a => simp [Except.map]

/-- Two checks that are both made: the second one also if the first one refuses. -/
def both {α β : Type} (x : Except Fault α) (y : Except Fault β) : Except Fault (α × β) :=
  match x, y with
  | .ok a, .ok b => .ok (a, b)
  | .error .crash, _ => .error .crash
  | _, .error .crash => .error .crash
  | _, _ => .error .refused

theorem both_eq_ok_iff {α β : Type} {x : Except Fault α} {y : Except Fault β} {a : α} {b : β} :
    both x y = .ok (a, b) ↔ x = .ok a ∧ y = .ok b := by
  rcases x with (_ | _) | a' <;> rcases y with (_ | _) | b' <;> simp [both]

theorem both_eq_crash_iff {α β : Type} {x : Except Fault α} {y : Except Fault β} :
    both x y = .error .crash ↔ x = .error .crash ∨ y = .error .crash := by
  rcases x with (_ | _) | a' <;> rcases y with (_ | _) | b' <;> simp [both]

end Schaufel
