import Schaufel.Foundation.CString

/-!
# Hash functions

The FNV hashes of `src/utils/fnv.c` and the functions that fold a hash into fewer bits.  A
configuration names them; a name that is in no table gives a null pointer, which is `none` here.

A hash function gets the address of a buffer, given by the bytes from there on, and a length.
-/

namespace Schaufel

/-- `_fnv32a`. -/
def fnv32a (buf : List UInt8) (hval : UInt32) : UInt32 :=
  buf.foldl (fun hval c => (hval ^^^ c.toUInt32) * 0x01000193) hval

/-- `fnv32a_int`, which reads four bytes whatever the length is. -/
def fnv32aInt (buf : List UInt8) (_len : Nat) : UInt32 := fnv32a (buf.take 4) 0x811c9dc5

/-- `fnv32a_str`. -/
def fnv32aStr (buf : List UInt8) (len : Nat) : UInt32 := fnv32a (buf.take len) 0x811c9dc5

/-- `_fold`. -/
def foldHash (fold : UInt32) (hval : UInt32) : UInt32 :=
  (hval >>> (32 - fold)) ^^^ (hval &&& ((1 <<< fold) - 1))

/-- `fold_noop`. -/
def foldNoop (hval : UInt32) : UInt32 := hval

/-- The table `fnv_types` without its first row, which stands for a name that is not there. -/
def fnvTypes : List (CString × (List UInt8 → Nat → UInt32)) :=
  [(ascii "fnv32a_str", fnv32aStr), (ascii "fnv32a_int", fnv32aInt)]

/-- The table `fold_types` without its first row. -/
def foldTypes : List (CString × (UInt32 → UInt32)) :=
  [(ascii "fold_noop", foldNoop),
    (ascii "fold31", foldHash 31), (ascii "fold30", foldHash 30), (ascii "fold29", foldHash 29),
    (ascii "fold28", foldHash 28), (ascii "fold27", foldHash 27), (ascii "fold26", foldHash 26),
    (ascii "fold25", foldHash 25), (ascii "fold24", foldHash 24), (ascii "fold23", foldHash 23),
    (ascii "fold22", foldHash 22), (ascii "fold21", foldHash 21), (ascii "fold20", foldHash 20),
    (ascii "fold19", foldHash 19), (ascii "fold18", foldHash 18), (ascii "fold17", foldHash 17),
    (ascii "fold16", foldHash 16), (ascii "fold15", foldHash 15), (ascii "fold14", foldHash 14),
    (ascii "fold13", foldHash 13), (ascii "fold12", foldHash 12), (ascii "fold11", foldHash 11),
    (ascii "fold10", foldHash 10), (ascii "fold9", foldHash 9), (ascii "fold8", foldHash 8),
    (ascii "fold7", foldHash 7), (ascii "fold6", foldHash 6), (ascii "fold5", foldHash 5),
    (ascii "fold4", foldHash 4), (ascii "fold3", foldHash 3), (ascii "fold2", foldHash 2),
    (ascii "fold1", foldHash 1)]

/-- `fnv_init`. -/
def fnvInit (name : CString) : Option (List UInt8 → Nat → UInt32) := fnvTypes.lookup name

/-- `fold_init`. -/
def foldInit (name : CString) : Option (UInt32 → UInt32) := foldTypes.lookup name

/-- The fold that is taken if none is named. -/
theorem foldInit_noop : foldInit (ascii "fold_noop") = some foldNoop := rfl

end Schaufel
