import Mathlib.Algebra.Order.Ring.Nat
import Schaufel.Foundation.Run
import Schaufel.Foundation.Strtok

/-!
# Host lists

A host of a postgres producer is a list of masters, separated by commas, and optionally a list of
replicas behind a semicolon.  The functions of `src/utils/helper.c` that take it apart collect the
hosts in the growing arrays of `src/utils/array.c`.

An array that is full doubles its length, and a loop clears the new part of the payload.  The index
of that loop has 32 bits.  Once the new length is 2 ^ 32 it is larger than every index, and the loop
never ends: an array takes 2 ^ 31 strings (`exec_arrayInsert`, `exec_arrayInsert_eq_none`).

## Main results

* `exists_parseHostinfo`: the arrays hold the hosts, and nothing is read or written behind the
  payload.
* `parseHostinfo_eq_none_iff`: when the functions do not come back.
* `host_lists_iff`: lists of hosts are recovered exactly if they have at most 2 ^ 31 elements.
-/

namespace Schaufel

/-! ### Arrays of strings -/

/-- `struct Array`; the payload is the memory that is allocated for it. -/
structure StrArray where
  payload : List (Option CString)
  len : Nat
  used : Nat
  deriving DecidableEq, Repr

/-- `array_init(1)`. -/
def arrayInit : StrArray := ⟨[none], 1, 0⟩

/-- `array_used`. -/
def arrayUsed (array : Option StrArray) : Nat := array.elim 0 StrArray.used

/-- The place of the payload that `array_get` reads, if it reads one.  For an array that holds
nothing `used - 1` is the largest `size_t`, so that every index is read. -/
def StrArray.readIndex (a : StrArray) (index : Nat) : Option Nat :=
  if a.used ≠ 0 ∧ a.used - 1 < index then none else some index

/-- `array_get`. -/
def arrayGet (array : Option StrArray) (index : Nat) : Option CString :=
  array.bind fun a => (a.readIndex index).bind fun i => a.payload[i]?.join

/-- A write to the payload; behind its end it is an error. -/
def storeAt (payload : List (Option CString)) (i : Nat) (val : Option CString) :
    Option (List (Option CString)) :=
  if i < payload.length then some (payload.set i val) else none

/-- The loop of `array_insert` that clears the payload from an index of 32 bits on; `none` if it has
not ended after some rounds. -/
def clearFrom (len : Nat) : Nat → UInt32 → List (Option CString) → Option (List (Option CString))
  | 0, _, _ => none
  | rounds + 1, i, payload =>
    if i.toNat < len then (storeAt payload i.toNat none).bind (clearFrom len rounds (i + 1))
    else some payload

/-- The part of `array_insert` that makes room.  What `realloc` leaves in the new part is not read
before it is written. -/
def StrArray.grow (a : StrArray) : Option StrArray :=
  if a.used = a.len then
    let len := a.len * 2
    let payload := a.payload ++ List.replicate (len - a.payload.length) none
    (clearFrom len len (UInt32.ofNat (a.used + 1)) payload).map fun payload =>
      ⟨payload, len, a.used⟩
  else some a

/-- `array_insert`; it does not come back if a loop does not end or a write is outside of the
payload. -/
def arrayInsert (a : StrArray) (val : CString) : Option StrArray :=
  a.grow.bind fun a =>
    (storeAt a.payload a.used (some val)).map fun payload => ⟨payload, a.len, a.used + 1⟩

/-! ### The loop that clears the payload -/

/-- The loop ends if the length is a number of 32 bits, and keeps what is before the index. -/
theorem exists_clearFrom {len rounds : Nat} {i : UInt32} {payload : List (Option CString)}
    (hlen : len < 2 ^ 32) (hpayload : payload.length = len) (hi : i.toNat ≤ len)
    (hrounds : len < i.toNat + rounds) :
    ∃ payload', clearFrom len rounds i payload = some payload' ∧ payload'.length = len ∧
      payload'.take i.toNat = payload.take i.toNat := by
  induction rounds generalizing i payload with
  | zero => omega
  | succ rounds ih =>
    unfold clearFrom
    by_cases hlt : i.toNat < len
    · have hnext : (i + 1).toNat = i.toNat + 1 := by
        rw [UInt32.toNat_add]
        exact Nat.mod_eq_of_lt (by show i.toNat + 1 < 2 ^ 32; omega)
      obtain ⟨payload', hclear, hlength, htake⟩ :=
        @ih (i + 1) (payload.set i.toNat none) (by rwa [List.length_set]) (by omega) (by omega)
      rw [if_pos hlt, storeAt, if_pos (hpayload ▸ hlt), Option.bind_some]
      refine ⟨payload', hclear, hlength, ?_⟩
      have hshorter := congrArg (List.take i.toNat) htake
      rw [List.take_take, List.take_take, hnext, Nat.min_eq_left (Nat.le_succ _)] at hshorter
      rw [hshorter, List.take_set_of_le (Nat.le_refl _)]
    · rw [if_neg hlt]
      exact ⟨payload, rfl, hpayload, rfl⟩

/-- No index of 32 bits reaches a length of 2 ^ 32. -/
theorem clearFrom_eq_none {len : Nat} (hlen : 2 ^ 32 ≤ len) (rounds : Nat) (i : UInt32)
    (payload : List (Option CString)) : clearFrom len rounds i payload = none := by
  induction rounds generalizing i payload with
  | zero => rfl
  | succ rounds ih =>
    rw [clearFrom, if_pos (Nat.lt_of_lt_of_le i.toNat_lt hlen)]
    cases storeAt payload i.toNat none with
    | none => rfl
    | some payload => exact ih (i + 1) payload

/-! ### What an array holds -/

/-- An array holds some strings, and has a place for each of them. -/
structure StrArray.Holds (a : StrArray) (vals : List CString) : Prop where
  used : a.used = vals.length
  len : a.len = a.payload.length
  pow : ∃ k ≤ 31, a.len = 2 ^ k
  le : a.used ≤ a.len
  take : a.payload.take a.used = vals.map some

theorem holds_arrayInit : arrayInit.Holds [] := ⟨rfl, rfl, ⟨0, by decide, rfl⟩, Nat.zero_le _, rfl⟩

/-- An array that holds fewer than 2 ^ 31 strings grows if it is full. -/
theorem StrArray.Holds.exists_grow {a : StrArray} {vals : List CString} (h : a.Holds vals)
    (hlt : vals.length < 2 ^ 31) : ∃ a', a.grow = some a' ∧ a'.Holds vals ∧ a'.used < a'.len := by
  obtain ⟨k, hk, hpow⟩ := h.pow
  have hpos : 0 < 2 ^ k := Nat.two_pow_pos k
  have hused := h.used
  have hle := h.le
  unfold StrArray.grow
  by_cases hfull : a.used = a.len
  · -- the next power of two still has 32 bits
    have hlt31 : 2 ^ k < 2 ^ 31 := by omega
    have hk31 : k < 31 := (Nat.pow_lt_pow_iff_right (by decide)).mp hlt31
    have hsmall : 2 ^ (k + 1) ≤ 2 ^ 31 := Nat.pow_le_pow_right (by decide) hk31
    have hnew : a.len * 2 = 2 ^ (k + 1) := by rw [hpow, Nat.pow_succ]
    have hindex : (UInt32.ofNat (a.used + 1)).toNat = a.used + 1 := by
      rw [UInt32.toNat_ofNat']
      omega
    have hpayload : (a.payload ++ List.replicate (a.len * 2 - a.payload.length) none).length =
        a.len * 2 := by
      rw [List.length_append, List.length_replicate, ← h.len]
      omega
    have hlast : a.len * 2 < (UInt32.ofNat (a.used + 1)).toNat + a.len * 2 := by omega
    obtain ⟨payload, hclear, hlength, htake⟩ :=
      exists_clearFrom (by omega) hpayload (by rw [hindex]; omega) hlast
    have hshorter := congrArg (List.take a.used) htake
    rw [List.take_take, List.take_take, hindex, Nat.min_eq_left (Nat.le_succ _),
      List.take_append_of_le_length (h.len ▸ h.le), h.take] at hshorter
    rw [if_pos hfull]
    simp only [hclear, Option.map_some]
    exact ⟨_, rfl, ⟨hused, hlength.symm, ⟨k + 1, hk31, hnew⟩, by simp only; omega, hshorter⟩, by
      simp only; omega⟩
  · rw [if_neg hfull]
    exact ⟨a, rfl, h, by omega⟩

theorem StrArray.Holds.exists_insert {a : StrArray} {vals : List CString} (h : a.Holds vals)
    (hlt : vals.length < 2 ^ 31) (val : CString) :
    ∃ a', arrayInsert a val = some a' ∧ a'.Holds (vals ++ [val]) := by
  obtain ⟨a', hgrow, h', hroom⟩ := h.exists_grow hlt
  have hplace : a'.used < a'.payload.length := h'.len ▸ hroom
  rw [arrayInsert, hgrow, Option.bind_some, storeAt, if_pos hplace]
  refine ⟨_, rfl, ?_, ?_, h'.pow, hroom, ?_⟩
  · rw [List.length_append, ← h'.used]
    rfl
  · show a'.len = (a'.payload.set a'.used (some val)).length
    rw [List.length_set, h'.len]
  · show (a'.payload.set a'.used (some val)).take (a'.used + 1) = (vals ++ [val]).map some
    rw [List.take_add_one, List.take_set_of_le (Nat.le_refl _), h'.take,
      List.getElem?_set_self hplace, List.map_append]
    rfl

/-- Another string behind 2 ^ 31 ones doubles the length to 2 ^ 32. -/
theorem StrArray.Holds.insert_eq_none {a : StrArray} {vals : List CString} (h : a.Holds vals)
    (hlength : vals.length = 2 ^ 31) (val : CString) : arrayInsert a val = none := by
  obtain ⟨k, hk, hpow⟩ := h.pow
  have hsmall : 2 ^ k ≤ 2 ^ 31 := Nat.pow_le_pow_right (by decide) hk
  have hused := h.used
  have hle := h.le
  have hfull : a.used = a.len := by omega
  rw [arrayInsert, StrArray.grow, if_pos hfull]
  simp only
  rw [clearFrom_eq_none (by omega)]
  rfl

/-- Up to 2 ^ 31 strings are collected. -/
theorem exec_arrayInsert {vals : List CString} (h : vals.length ≤ 2 ^ 31) :
    ∃ a, exec arrayInsert arrayInit vals = some a ∧ a.Holds vals := by
  induction vals using List.reverseRecOn with
  | nil => exact ⟨arrayInit, rfl, holds_arrayInit⟩
  | append_singleton vals val ih =>
    rw [List.length_append, List.length_singleton] at h
    obtain ⟨a, ha, hholds⟩ := ih (by omega)
    obtain ⟨a', hinsert, hholds'⟩ := hholds.exists_insert (by omega) val
    exact ⟨a', exec_concat_eq_some.mpr ⟨a, ha, hinsert⟩, hholds'⟩

/-- More than 2 ^ 31 strings are not. -/
theorem exec_arrayInsert_eq_none {vals : List CString} (h : 2 ^ 31 < vals.length) :
    exec arrayInsert arrayInit vals = none := by
  have hfirst : (vals.take (2 ^ 31)).length = 2 ^ 31 := by
    rw [List.length_take]
    omega
  obtain ⟨a, ha, hholds⟩ := exec_arrayInsert (Nat.le_of_eq hfirst)
  rw [← List.take_append_drop (2 ^ 31) vals, exec_append, ha, Option.bind_some]
  cases hrest : vals.drop (2 ^ 31) with
  | nil =>
    have := congrArg List.length hrest
    rw [List.length_drop, List.length_nil] at this
    omega
  | cons val rest =>
    rw [exec_cons, hholds.insert_eq_none hfirst]
    rfl

/-! ### Splitting a string -/

/-- The loop of `_delimit_by` on what is left of the string. -/
def delimitLoop (delim : UInt8) : Nat → CString → StrArray → Option StrArray
  | 0, _, _ => none
  | rounds + 1, save, a =>
    match strtok delim save with
    | none => some a
    | some (token, save) => (arrayInsert a token).bind (delimitLoop delim rounds save)

/-- `_delimit_by`; without any token it returns a null pointer. -/
def delimitBy (str : Option CString) (delim : UInt8) : Option (Option StrArray) :=
  match str with
  | none => some none
  | some str =>
    if strtok delim str = none then some none
    else (delimitLoop delim (str.length + 1) str arrayInit).map some

/-- The loop collects the tokens. -/
theorem delimitLoop_eq {delim : UInt8} {rounds : Nat} {save : CString} (h : save.length < rounds)
    (a : StrArray) : delimitLoop delim rounds save a = exec arrayInsert a (tokens delim save) := by
  induction rounds generalizing save a with
  | zero => omega
  | succ rounds ih =>
    unfold delimitLoop
    rcases htoken : strtok delim save with _ | ⟨token, rest⟩
    · rw [tokens_of_strtok_eq_none htoken]
      rfl
    · obtain ⟨htokens, hlength⟩ := tokens_of_strtok htoken
      rw [htokens, exec_cons]
      simp only
      cases arrayInsert a token with
      | none => rfl
      | some a' => exact ih (by omega) a'

theorem delimitBy_some (str : CString) (delim : UInt8) :
    delimitBy (some str) delim =
      if tokens delim str = [] then some none
      else (exec arrayInsert arrayInit (tokens delim str)).map some := by
  have hnil : strtok delim str = none ↔ tokens delim str = [] := by
    refine ⟨tokens_of_strtok_eq_none, fun hnil => ?_⟩
    rcases htoken : strtok delim str with _ | ⟨token, rest⟩
    · rfl
    · rw [(tokens_of_strtok htoken).1] at hnil
      cases hnil
  simp only [delimitBy, delimitLoop_eq (Nat.lt_succ_self str.length), hnil]

/-- The strings of an array, or none. -/
def Stores (array : Option StrArray) (vals : List CString) : Prop :=
  arrayUsed array = vals.length ∧ ∀ i, arrayGet array i = vals[i]?

/-- `array_get` reads inside the payload only. -/
def ReadsInside (array : Option StrArray) : Prop :=
  ∀ a ∈ array, ∀ index, ∀ i ∈ a.readIndex index, i < a.len ∧ i < a.payload.length

/-- What an array holds is read from it, and nothing else is read. -/
theorem StrArray.Holds.stores {a : StrArray} {vals : List CString} (h : a.Holds vals)
    (hne : vals ≠ []) : Stores (some a) vals ∧ ReadsInside (some a) := by
  have hpos : 0 < vals.length := List.length_pos_iff.mpr hne
  have hused := h.used
  have hle := h.le
  have hlen := h.len
  refine ⟨⟨hused, fun i => ?_⟩, ?_⟩
  · simp only [arrayGet, StrArray.readIndex, Option.bind_some]
    by_cases hi : i < vals.length
    · have hget := congrArg (·[i]?) h.take
      simp only [hused, List.getElem?_take, if_pos hi, List.getElem?_map] at hget
      rw [if_neg (by omega), Option.bind_some, hget]
      cases vals[i]? <;> rfl
    · rw [if_pos (by omega), List.getElem?_eq_none (by omega)]
      rfl
  · intro a' ha' index i hi
    obtain rfl := Option.some.inj ha'
    unfold StrArray.readIndex at hi
    split_ifs at hi with hbehind
    · cases hi
    · obtain rfl := Option.some.inj hi
      omega

/-- `_delimit_by` collects the tokens. -/
theorem exists_delimitBy (str : Option CString) {delim : UInt8}
    (h : (str.elim [] (tokens delim)).length ≤ 2 ^ 31) :
    ∃ array, delimitBy str delim = some array ∧ Stores array (str.elim [] (tokens delim)) ∧
      ReadsInside array := by
  have hnull : Stores none [] ∧ ReadsInside none := ⟨⟨rfl, fun _ => rfl⟩, fun a ha => by cases ha⟩
  cases str with
  | none => exact ⟨none, rfl, hnull⟩
  | some str =>
    rw [delimitBy_some]
    rw [Option.elim_some] at h ⊢
    by_cases hnil : tokens delim str = []
    · rw [if_pos hnil, hnil]
      exact ⟨none, rfl, hnull⟩
    · obtain ⟨a, ha, hholds⟩ := exec_arrayInsert h
      rw [if_neg hnil, ha]
      exact ⟨some a, rfl, hholds.stores hnil⟩

theorem delimitBy_eq_none_iff {str : Option CString} {delim : UInt8} :
    delimitBy str delim = none ↔ 2 ^ 31 < (str.elim [] (tokens delim)).length := by
  constructor
  · intro hnone
    by_contra hle
    obtain ⟨array, hsome, -⟩ := exists_delimitBy str (Nat.not_lt.mp hle)
    rw [hnone] at hsome
    cases hsome
  · intro hlt
    cases str with
    | none => exact absurd hlt (Nat.not_lt_zero _)
    | some str =>
      rw [Option.elim_some] at hlt
      have hne : tokens delim str ≠ [] := fun hnil => by
        rw [hnil] at hlt
        exact absurd hlt (Nat.not_lt_zero _)
      rw [delimitBy_some, if_neg hne, exec_arrayInsert_eq_none hlt]
      rfl

/-! ### The hosts that a string names -/

/-- `parse_hostinfo_master` and `parse_hostinfo_replica`: a list of the host string. -/
def parseHostinfo (k : Nat) (hostinfo : CString) : Option (Option StrArray) :=
  (delimitBy (some hostinfo) 59).bind fun a => delimitBy (arrayGet a k) 44

/-- `parse_hostinfo_master`. -/
def parseHostinfoMaster (hostinfo : CString) : Option (Option StrArray) := parseHostinfo 0 hostinfo

/-- `parse_hostinfo_replica`. -/
def parseHostinfoReplica (hostinfo : CString) : Option (Option StrArray) := parseHostinfo 1 hostinfo

/-- The hosts in one of the lists of a host string. -/
def hostList (hostinfo : CString) (k : Nat) : List CString :=
  (tokens 59 hostinfo)[k]?.elim [] (tokens 44)

/-- The masters of a host string. -/
def hostMasters (hostinfo : CString) : List CString := hostList hostinfo 0

/-- The replicas of a host string. -/
def hostReplicas (hostinfo : CString) : List CString := hostList hostinfo 1

/-- The hosts of a list are read from its array. -/
theorem exists_parseHostinfo {hostinfo : CString} {k : Nat}
    (hlists : (tokens 59 hostinfo).length ≤ 2 ^ 31)
    (hhosts : (hostList hostinfo k).length ≤ 2 ^ 31) :
    ∃ array, parseHostinfo k hostinfo = some array ∧ Stores array (hostList hostinfo k) ∧
      ReadsInside array := by
  obtain ⟨lists, hsome, hstores, -⟩ := exists_delimitBy (some hostinfo) hlists
  rw [parseHostinfo, hsome, Option.bind_some, hstores.2 k]
  exact exists_delimitBy _ hhosts

theorem parseHostinfo_eq_none_iff {hostinfo : CString} {k : Nat} :
    parseHostinfo k hostinfo = none ↔
      2 ^ 31 < (tokens 59 hostinfo).length ∨ 2 ^ 31 < (hostList hostinfo k).length := by
  rcases Nat.lt_or_ge (2 ^ 31) (tokens 59 hostinfo).length with hmany | hlists
  · have hnone : delimitBy (some hostinfo) 59 = none := delimitBy_eq_none_iff.mpr hmany
    rw [parseHostinfo, hnone]
    exact iff_of_true rfl (.inl hmany)
  · obtain ⟨lists, hsome, hstores, -⟩ := exists_delimitBy (some hostinfo) hlists
    rw [parseHostinfo, hsome, Option.bind_some, hstores.2 k, delimitBy_eq_none_iff,
      or_iff_right (Nat.not_lt.mpr hlists)]
    rfl

/-! ### Round trips -/

/-- A list of hosts. -/
structure HostNames where
  hosts : List CString
  ne_nil : hosts ≠ []
  valid : ∀ host ∈ hosts, host ≠ [] ∧ 44 ∉ host ∧ 59 ∉ host

namespace HostNames

variable (ms rs : HostNames)

/-- The hosts with commas between them. -/
def join : CString := [44].intercalate ms.hosts

theorem tokens_join : tokens 44 ms.join = ms.hosts :=
  tokens_intercalate ms.ne_nil fun host h => ⟨(ms.valid host h).1, (ms.valid host h).2.1⟩

/-- The list is a token of its own. -/
theorem tokens_semicolon_join : tokens 59 ms.join = [ms.join] := by
  apply tokens_of_not_mem
  · exact not_mem_intercalate (by decide) fun host h => (ms.valid host h).2.2
  · intro hnil
    have htokens := ms.tokens_join
    rw [hnil] at htokens
    exact ms.ne_nil htokens.symm

/-- The hosts are those of a list that names them. -/
theorem hostList_eq {s : CString} {k : Nat} (h : (tokens 59 s)[k]? = some ms.join) :
    hostList s k = ms.hosts := by
  rw [hostList, h]
  exact ms.tokens_join

/-- Masters and replicas with a semicolon between them. -/
def hostinfo : CString := ms.join ++ 59 :: rs.join

theorem tokens_hostinfo : tokens 59 (hostinfo ms rs) = [ms.join, rs.join] := by
  rw [hostinfo, tokens_append_cons, ms.tokens_semicolon_join, rs.tokens_semicolon_join]
  rfl

end HostNames

/-- A function returns an array of exactly these strings. -/
def Yields (result : Option (Option StrArray)) (vals : List CString) : Prop :=
  ∃ array, result = some array ∧ Stores array vals ∧ ReadsInside array

theorem yields_parseHostinfo_iff {hostinfo : CString} {k : Nat}
    (hlists : (tokens 59 hostinfo).length ≤ 2) :
    Yields (parseHostinfo k hostinfo) (hostList hostinfo k) ↔
      (hostList hostinfo k).length ≤ 2 ^ 31 := by
  constructor
  · rintro ⟨array, hsome, -⟩
    by_contra hmany
    rw [parseHostinfo_eq_none_iff.mpr (.inr (Nat.not_le.mp hmany))] at hsome
    cases hsome
  · intro hhosts
    exact exists_parseHostinfo (Nat.le_trans hlists (by decide)) hhosts

/-- Masters and replicas are recovered from a host string, and masters alone, too. -/
structure HostsRecovered (ms rs : HostNames) : Prop where
  masters : Yields (parseHostinfoMaster (ms.hostinfo rs)) ms.hosts
  replicas : Yields (parseHostinfoReplica (ms.hostinfo rs)) rs.hosts
  mastersAlone : Yields (parseHostinfoMaster ms.join) ms.hosts
  noReplicas : Yields (parseHostinfoReplica ms.join) []
  /-- The array of the lists, which does not outlive the call, is read inside its payload, too. -/
  lists : ∀ hostinfo ∈ [ms.hostinfo rs, ms.join],
    ∃ lists, delimitBy (some hostinfo) 59 = some lists ∧ ReadsInside lists

/-- Hosts are recovered exactly if there are at most 2 ^ 31 of each kind. -/
theorem host_lists_iff (ms rs : HostNames) :
    HostsRecovered ms rs ↔ ms.hosts.length ≤ 2 ^ 31 ∧ rs.hosts.length ≤ 2 ^ 31 := by
  have hboth := ms.tokens_hostinfo rs
  have halone := ms.tokens_semicolon_join
  have hm : hostList (ms.hostinfo rs) 0 = ms.hosts := ms.hostList_eq (by rw [hboth]; rfl)
  have hr : hostList (ms.hostinfo rs) 1 = rs.hosts := rs.hostList_eq (by rw [hboth]; rfl)
  have ha : hostList ms.join 0 = ms.hosts := ms.hostList_eq (by rw [halone]; rfl)
  have hn : hostList ms.join 1 = [] := by
    rw [hostList, halone]
    rfl
  have hboth2 : (tokens 59 (ms.hostinfo rs)).length ≤ 2 := by simp [hboth]
  have halone2 : (tokens 59 ms.join).length ≤ 2 := by simp [halone]
  have hmasters := yields_parseHostinfo_iff (k := 0) hboth2
  have hreplicas := yields_parseHostinfo_iff (k := 1) hboth2
  have hmastersAlone := yields_parseHostinfo_iff (k := 0) halone2
  have hnoReplicas := yields_parseHostinfo_iff (k := 1) halone2
  rw [hm] at hmasters
  rw [hr] at hreplicas
  rw [ha] at hmastersAlone
  rw [hn] at hnoReplicas
  constructor
  · intro h
    exact ⟨hmasters.mp h.masters, hreplicas.mp h.replicas⟩
  · rintro ⟨hms, hrs⟩
    refine ⟨hmasters.mpr hms, hreplicas.mpr hrs, hmastersAlone.mpr hms,
      hnoReplicas.mpr (Nat.zero_le _), fun hostinfo hmem => ?_⟩
    have htwo : (tokens 59 hostinfo).length ≤ 2 := by
      rcases List.mem_pair.mp hmem with rfl | rfl
      · exact hboth2
      · exact halone2
    obtain ⟨lists, hlists, -, hinside⟩ :=
      exists_delimitBy (some hostinfo) (Nat.le_trans htwo (by decide))
    exact ⟨lists, hlists, hinside⟩

/-- The same host some number of times. -/
def HostNames.repeated (n : Nat) (h : n ≠ 0) : HostNames where
  hosts := List.replicate n [97]
  ne_nil := by simpa using h
  valid := fun host hmem => by
    rw [List.eq_of_mem_replicate hmem]
    decide

/-- The masters of a list of 2 ^ 31 + 1 hosts are never returned. -/
theorem long_host_list_hangs :
    parseHostinfoMaster (HostNames.repeated (2 ^ 31 + 1) (by decide)).join = none ∧
      ∀ rs, ¬ HostsRecovered (HostNames.repeated (2 ^ 31 + 1) (by decide)) rs := by
  have hnone : parseHostinfoMaster (HostNames.repeated (2 ^ 31 + 1) (by decide)).join = none := by
    have hlist := (HostNames.repeated (2 ^ 31 + 1) (by decide)).tokens_semicolon_join
    rw [parseHostinfoMaster, parseHostinfo_eq_none_iff,
      HostNames.hostList_eq _ (by rw [hlist]; rfl), HostNames.repeated, List.length_replicate]
    exact .inr (Nat.lt_succ_self _)
  refine ⟨hnone, fun rs h => ?_⟩
  obtain ⟨array, hsome, -⟩ := h.mastersAlone
  rw [hnone] at hsome
  cases hsome

end Schaufel
