import Schaufel.Hooks.Xmark
import Schaufel.Metadata.Lookup

/-!
# Metadata are a finite map

`src/utils/metadata.c` keeps the metadata of a message in a hash table, which is created by the
first insertion.  The key of an entry is a string, and its hash is the one of Jenkins.  The index of
the loop over the bytes of a key has 32 bits: for a key of 2 ^ 32 bytes or more the loop never ends.

An insertion of a key that is present replaces the entry, and returns a null pointer.

## Main results

* `MetadataTable.finite_map_iff`: the metadata are a finite map exactly if every key that is hashed
  has fewer than 2 ^ 32 bytes.
* `MetadataTable.entries_owned`: a value that was handed over is in the table, or was passed to
  `mdatum_free`.
* `MetadataTable.find_eq_metadataFind`: the table and the list of entries by which the hooks are
  modelled give the same answers.
-/

namespace Schaufel

/-- `struct mdatum` without its node. -/
structure MEntry where
  key : CString
  datum : MDatum
  deriving DecidableEq, Repr

namespace MetadataTable

/-! ### The hash of a key -/

/-- One round of the loop of `htable_default_hash`.  A `char` has a sign. -/
def hashByte (hash : UInt32) (c : UInt8) : UInt32 :=
  let hash := hash + c.toInt8.toInt32.toUInt32
  let hash := hash + (hash <<< 10)
  hash ^^^ (hash >>> 6)

/-- The loop of `htable_default_hash` from an index of 32 bits on; `none` if it has not ended after
some rounds. -/
def hashLoop (key : CString) : Nat → UInt32 → UInt32 → Option UInt32
  | 0, _, _ => none
  | rounds + 1, i, hash =>
    if i.toNat < key.length then key[i.toNat]?.bind fun c =>
      hashLoop key rounds (i + 1) (hashByte hash c)
    else some hash

/-- `htable_default_hash`. -/
def htableDefaultHash (key : CString) : Option UInt32 :=
  (hashLoop key (key.length + 1) 0 0).map fun hash : UInt32 =>
    let hash := hash + (hash <<< 3)
    let hash := hash ^^^ (hash >>> 11)
    hash + (hash <<< 15)

theorem hashLoop_isSome {key : CString} (hkey : key.length < 2 ^ 32) {rounds : Nat}
    {i hash : UInt32} (hi : i.toNat ≤ key.length) (hrounds : key.length < i.toNat + rounds) :
    (hashLoop key rounds i hash).isSome = true := by
  induction rounds generalizing i hash with
  | zero => omega
  | succ rounds ih =>
    unfold hashLoop
    by_cases hlt : i.toNat < key.length
    · have hnext : (i + 1).toNat = i.toNat + 1 := by
        rw [UInt32.toNat_add]
        exact Nat.mod_eq_of_lt (by show i.toNat + 1 < 2 ^ 32; omega)
      rw [if_pos hlt, List.getElem?_eq_getElem hlt, Option.bind_some]
      exact ih (by omega) (by omega)
    · rw [if_neg hlt]
      rfl

/-- No index of 32 bits reaches the end of a longer key. -/
theorem hashLoop_eq_none {key : CString} (hkey : 2 ^ 32 ≤ key.length) (rounds : Nat)
    (i hash : UInt32) : hashLoop key rounds i hash = none := by
  induction rounds generalizing i hash with
  | zero => rfl
  | succ rounds ih =>
    have hlt : i.toNat < key.length := Nat.lt_of_lt_of_le i.toNat_lt hkey
    rw [hashLoop, if_pos hlt, List.getElem?_eq_getElem hlt, Option.bind_some]
    exact ih _ _

theorem htableDefaultHash_eq_none_iff {key : CString} :
    htableDefaultHash key = none ↔ 2 ^ 32 ≤ key.length := by
  rw [htableDefaultHash, Option.map_eq_none_iff]
  constructor
  · intro hnone
    by_contra hshort
    have hsome := @hashLoop_isSome key (Nat.not_le.mp hshort) (key.length + 1) 0 0 (Nat.zero_le _)
      (Nat.lt_add_left _ (Nat.lt_succ_self _))
    rw [hnone] at hsome
    cases hsome
  · exact fun hkey => hashLoop_eq_none hkey _ _ _

/-! ### The functions -/

/-- `_keyeq_func`. -/
def keyeqFunc (a b : MEntry) : Bool := a.key == b.key

/-- `_hash_func`. -/
def hashFunc (a : MEntry) : Option UInt32 := htableDefaultHash a.key

/-- `_metadata_init`. -/
def metadataInit : HTable MEntry := HTable.htableCreate

/-- `metadata_find`; only the key of the query is set. -/
def find (md : Option (HTable MEntry)) (key : CString) : Option (Option NodePtr) :=
  match md with
  | none => some none
  | some m => m.htableFind hashFunc keyeqFunc ⟨key, ⟨.string, [], 0⟩⟩

/-- `metadata_insert`: the metadata afterwards, and what is returned. -/
def insert (md : Option (HTable MEntry)) (key : CString) (value : Option MDatum) :
    Option (Option (HTable MEntry) × Option NodePtr) :=
  match value with
  | none => some (md, none)
  | some value => do
    let (m, isNewNode) ← (md.getD metadataInit).htableInsert hashFunc keyeqFunc ⟨key, value⟩
    let ret ← m.htableFind hashFunc keyeqFunc ⟨key, value⟩
    some (some m, if isNewNode then ret else none)

/-- The values that `mdatum_free` frees; a function is disowned only. -/
def mdatumFree (entries : List MEntry) : List MDatum :=
  (entries.map MEntry.datum).filter fun datum => datum.type ≠ .func

theorem keyed : HTable.Keyed hashFunc keyeqFunc MEntry.key := by
  refine ⟨fun a b => ?_, fun a b h => ?_⟩
  · exact beq_iff_eq
  · rw [hashFunc, hashFunc, h]

/-- Short keys have a hash. -/
theorem exists_hashFunc {a : MEntry} (h : a.key.length < 2 ^ 32) :
    ∃ hash, hashFunc a = some hash := by
  rw [← Option.ne_none_iff_exists', hashFunc, Ne, htableDefaultHash_eq_none_iff]
  exact Nat.not_le.mpr h

/-- Other keys are never found. -/
theorem find_eq_none {m : HTable MEntry} {key : CString} (h : 2 ^ 32 ≤ key.length) :
    find (some m) key = none := by
  have hhash : hashFunc ⟨key, ⟨.string, [], 0⟩⟩ = none := htableDefaultHash_eq_none_iff.mpr h
  simp [find, HTable.htableFind, hhash]

/-- Other keys are never inserted. -/
theorem insert_eq_none (md : Option (HTable MEntry)) {key : CString} (h : 2 ^ 32 ≤ key.length)
    (value : MDatum) : insert md key (some value) = none := by
  have hhash : hashFunc ⟨key, value⟩ = none := htableDefaultHash_eq_none_iff.mpr h
  simp [insert, HTable.htableInsert, hhash]

/-! ### What was inserted -/

/-- A call of `metadata_insert`: the key, and the value. -/
abbrev InsertCall := CString × Option MDatum

/-- The metadata after a call. -/
def step (md : Option (HTable MEntry)) (call : InsertCall) : Option (Option (HTable MEntry)) :=
  (insert md call.1 call.2).map Prod.fst

/-- The entries that some calls insert. -/
def inserted (calls : List InsertCall) : List MEntry :=
  calls.filterMap fun call => call.2.map fun value => ⟨call.1, value⟩

/-- The entry that was inserted last under a key. -/
def latest (calls : List InsertCall) (key : CString) : Option MEntry :=
  (inserted calls).reverse.find? fun e => e.key = key

/-- What a call should return. -/
def returned (before : List InsertCall) (key : CString) (value : Option MDatum) : Option MEntry :=
  value.bind fun value => if latest before key = none then some ⟨key, value⟩ else none

/-- A pointer to an entry, or a null pointer. -/
inductive Points (md : Option (HTable MEntry)) : Option NodePtr → Option MEntry → Prop
  | null : Points md none none
  | entry (m : HTable MEntry) (hm : md = some m) (p : NodePtr) (n : HTableNode MEntry)
      (hn : m.nodes[p]? = some n) : Points md (some p) (some n.content)

/-- The metadata after some calls are a finite map at a key: every call returned what it should, and
what was inserted last is found. -/
structure FiniteMap (calls : List InsertCall) (k : CString) : Prop where
  insert : ∀ before key value, before ++ [(key, value)] <+: calls →
    ∃ md md' ret, exec step none before = some md ∧
      MetadataTable.insert md key value = some (md', ret) ∧
      Points md' ret (returned before key value)
  find : ∃ md ret, exec step none calls = some md ∧ MetadataTable.find md k = some ret ∧
    Points md ret (latest calls k)

theorem inserted_concat (calls : List InsertCall) (key : CString) (value : Option MDatum) :
    inserted (calls ++ [(key, value)]) = inserted calls ++ (value.map (MEntry.mk key)).toList := by
  rw [inserted, List.filterMap_append]
  cases value with
  | none => simp [inserted]
  | some value => simp [inserted]

/-- A call without a value inserts nothing. -/
theorem inserted_concat_none (calls : List InsertCall) (key : CString) :
    inserted (calls ++ [(key, none)]) = inserted calls := by
  rw [inserted_concat, Option.map_none, Option.toList_none, List.append_nil]

/-- The keys of some calls and of one more call are short. -/
theorem short_of_concat {calls : List InsertCall} {key : CString} {value : Option MDatum}
    (h : ∀ e ∈ inserted (calls ++ [(key, value)]), e.key.length < 2 ^ 32) :
    (∀ e ∈ inserted calls, e.key.length < 2 ^ 32) ∧
      (value.isSome = true → key.length < 2 ^ 32) := by
  rw [inserted_concat] at h
  refine ⟨fun e he => h e (List.mem_append_left _ he), fun hsome => ?_⟩
  obtain ⟨v, rfl⟩ := Option.isSome_iff_exists.mp hsome
  exact h ⟨key, v⟩ (List.mem_append_right _ (by simp))

theorem latest_concat (calls : List InsertCall) (key k : CString) (value : MDatum) :
    latest (calls ++ [(key, some value)]) k =
      if k = key then some ⟨key, value⟩ else latest calls k := by
  rw [latest, inserted_concat, Option.map_some, Option.toList_some, List.reverse_append,
    List.reverse_singleton, List.singleton_append, List.find?_cons]
  by_cases hk : k = key
  · simp [hk]
  · have hne : key ≠ k := Ne.symm hk
    simp [hk, hne, latest]

/-! ### Runs -/

/-- The metadata after some calls: no table before the first entry, and then one with the
entries. -/
inductive Represents (calls : List InsertCall) : Option (HTable MEntry) → Prop
  | null (h : inserted calls = []) : Represents calls none
  | table (m : HTable MEntry) (bs : List (List NodePtr))
      (hlive : m.Live hashFunc MEntry.key [] bs (latest calls)) (hfit : m.Fitting)
      (howned : (m.entries bs ++ m.dropped).Perm (inserted calls)) (hne : inserted calls ≠ []) :
      Represents calls (some m)

variable {calls : List InsertCall} {md : Option (HTable MEntry)} {m : HTable MEntry}
  {key k : CString}

/-- A key is looked up in a table. -/
theorem exists_pointer {bs : List (List NodePtr)} {f : CString → Option MEntry}
    (hlive : m.Live hashFunc MEntry.key [] bs f) (query : MEntry)
    (hshort : query.key.length < 2 ^ 32) :
    ∃ r, m.htableFind hashFunc keyeqFunc query = some r ∧ Points (some m) r (f query.key) := by
  obtain ⟨hash, hhash⟩ := exists_hashFunc hshort
  obtain ⟨r, hfind, hresult⟩ := hlive.exists_htableFind keyed hhash
  refine ⟨r, hfind, ?_⟩
  rcases hresult with ⟨rfl, hnone⟩ | ⟨p, n, rfl, hn, hsome⟩
  · rw [hnone]
    exact .null
  · rw [hsome]
    exact .entry m rfl p n hn

/-- The table into which the next entry is inserted. -/
theorem Represents.getD (h : Represents calls md) :
    ∃ bs, (md.getD metadataInit).Live hashFunc MEntry.key [] bs (latest calls) ∧
      (md.getD metadataInit).Fitting ∧
      ((md.getD metadataInit).entries bs ++ (md.getD metadataInit).dropped).Perm
        (inserted calls) := by
  cases h with
  | null h =>
    have hnone : latest calls = fun _ => none := by
      funext k
      rw [latest, h]
      rfl
    rw [hnone, h]
    exact ⟨_, HTable.live_htableCreate, HTable.fitting_htableCreate, .refl _⟩
  | table m bs hlive hfit howned hne => exact ⟨bs, hlive, hfit, howned⟩

/-- What was inserted last is found. -/
theorem Represents.exists_find (h : Represents calls md)
    (hk : inserted calls ≠ [] → k.length < 2 ^ 32) :
    ∃ ret, find md k = some ret ∧ Points md ret (latest calls k) := by
  cases h with
  | null h =>
    rw [latest, h]
    exact ⟨none, rfl, .null⟩
  | table m bs hlive hfit howned hne => exact exists_pointer hlive ⟨k, ⟨.string, [], 0⟩⟩ (hk hne)

/-- One call. -/
theorem Represents.exists_insert (h : Represents calls md) {value : Option MDatum}
    (hkey : value.isSome = true → key.length < 2 ^ 32) :
    ∃ md' ret, insert md key value = some (md', ret) ∧ Represents (calls ++ [(key, value)]) md' ∧
      Points md' ret (returned calls key value) := by
  cases value with
  | none =>
    have hsame := inserted_concat_none calls key
    refine ⟨md, none, rfl, ?_, .null⟩
    cases h with
    | null h => exact .null (hsame.trans h)
    | table m bs hlive hfit howned hne =>
      have hlatest : latest (calls ++ [(key, none)]) = latest calls := by
        funext k
        rw [latest, latest, hsame]
      refine .table m bs ?_ hfit ?_ ?_
      · rwa [hlatest]
      · rwa [hsame]
      · rwa [hsame]
  | some value =>
    obtain ⟨bs, hlive, hfit, howned⟩ := h.getD
    obtain ⟨hash, hhash⟩ := @exists_hashFunc ⟨key, value⟩ (hkey rfl)
    obtain ⟨m', bs', hinsert, hlive', hfit', hdropped⟩ := hlive.exists_htableInsert keyed hfit hhash
    obtain ⟨r, hfind, hpoints⟩ := exists_pointer hlive' ⟨key, value⟩ (hkey rfl)
    rw [Function.update_self] at hpoints
    have hmoved := (hlive.perm_insert hlive' hdropped).trans (howned.cons _)
    have hupdate : Function.update (latest calls) key (some ⟨key, value⟩) =
        latest (calls ++ [(key, some value)]) := by
      funext k
      rw [latest_concat, Function.update_apply]
    rw [hupdate] at hlive'
    refine ⟨some m', if (latest calls key).isNone then r else none, ?_,
      .table m' bs' hlive' hfit' ?_ ?_, ?_⟩
    · simp [insert, hinsert, hfind]
    · rw [inserted_concat, Option.map_some, Option.toList_some]
      exact hmoved.trans (List.perm_append_singleton _ _).symm
    · rw [inserted_concat]
      simp
    · rw [returned, Option.bind_some]
      cases hlatest : latest calls key with
      | none =>
        rw [if_pos rfl, if_pos Option.isNone_none]
        exact hpoints
      | some e =>
        rw [if_neg (by simp), if_neg (by simp)]
        exact .null

/-- Calls with short keys. -/
theorem exists_exec (h : ∀ e ∈ inserted calls, e.key.length < 2 ^ 32) :
    ∃ md, exec step none calls = some md ∧ Represents calls md := by
  induction calls using List.reverseRecOn with
  | nil => exact ⟨none, rfl, .null rfl⟩
  | append_singleton calls call ih =>
    obtain ⟨key, value⟩ := call
    obtain ⟨hbefore, hkey⟩ := short_of_concat h
    obtain ⟨md, hexec, hrep⟩ := ih hbefore
    obtain ⟨md', ret, hinsert, hrep', -⟩ := hrep.exists_insert hkey
    refine ⟨md', exec_concat_eq_some.mpr ⟨md, hexec, ?_⟩, hrep'⟩
    rw [step, hinsert]
    rfl

/-- Metadata are a finite map exactly if the keys that are hashed have fewer than 2 ^ 32 bytes:
those that are inserted, and the one that is looked up, unless there is no entry at all. -/
theorem finite_map_iff (calls : List InsertCall) (k : CString) :
    FiniteMap calls k ↔
      (∀ e ∈ inserted calls, e.key.length < 2 ^ 32) ∧
      (inserted calls ≠ [] → k.length < 2 ^ 32) := by
  constructor
  · intro h
    have hshort : ∀ e ∈ inserted calls, e.key.length < 2 ^ 32 := by
      intro e he
      obtain ⟨⟨key, value⟩, hmem, hvalue⟩ := List.mem_filterMap.mp he
      obtain ⟨v, rfl, rfl⟩ := Option.map_eq_some_iff.mp hvalue
      obtain ⟨before, after, rfl⟩ := List.append_of_mem hmem
      by_contra hlong
      obtain ⟨md, md', ret, -, hinsert, -⟩ := h.insert before key (some v) ⟨after, by simp⟩
      rw [insert_eq_none md (Nat.not_lt.mp hlong)] at hinsert
      cases hinsert
    refine ⟨hshort, fun hne => ?_⟩
    by_contra hlong
    obtain ⟨md, ret, hexec, hfind, -⟩ := h.find
    obtain ⟨md', hexec', hrep⟩ := exists_exec hshort
    obtain rfl := Option.some.inj (hexec.symm.trans hexec')
    cases hrep with
    | null h => exact hne h
    | table m bs hlive hfit howned hne =>
      rw [find_eq_none (Nat.not_lt.mp hlong)] at hfind
      cases hfind
  · rintro ⟨hshort, hk⟩
    refine ⟨fun before key value hprefix => ?_, ?_⟩
    · obtain ⟨after, rfl⟩ := hprefix
      have hcalls : ∀ e ∈ inserted (before ++ [(key, value)]), e.key.length < 2 ^ 32 := by
        intro e he
        apply hshort e
        rw [inserted, List.filterMap_append]
        exact List.mem_append_left _ he
      obtain ⟨hbefore, hkey⟩ := short_of_concat hcalls
      obtain ⟨md, hexec, hrep⟩ := exists_exec hbefore
      obtain ⟨md', ret, hinsert, -, hpoints⟩ := hrep.exists_insert hkey
      exact ⟨md, md', ret, hexec, hinsert, hpoints⟩
    · obtain ⟨md, hexec, hrep⟩ := exists_exec hshort
      obtain ⟨ret, hfind, hpoints⟩ := hrep.exists_find hk
      exact ⟨md, ret, hexec, hfind, hpoints⟩

/-- A key of 2 ^ 32 bytes is never inserted. -/
theorem long_key_hangs :
    insert none (List.replicate (2 ^ 32) 97) (some ⟨.string, [97, 0], 2⟩) = none ∧
      ∀ k, ¬ FiniteMap [(List.replicate (2 ^ 32) 97, some ⟨.string, [97, 0], 2⟩)] k := by
  have hnone : insert none (List.replicate (2 ^ 32) 97) (some ⟨.string, [97, 0], 2⟩) = none :=
    insert_eq_none none (Nat.le_of_eq List.length_replicate.symm) _
  refine ⟨hnone, fun k h => ?_⟩
  obtain ⟨md, md', ret, hexec, hinsert, -⟩ := h.insert [] _ _ (List.prefix_refl _)
  obtain rfl := Option.some.inj hexec
  rw [hnone] at hinsert
  cases hinsert

/-! ### Ownership and the model of the hooks -/

/-- The values that were handed over are those that were freed when they were replaced and those
that will be freed with the table: no value is lost, and none is freed twice. -/
theorem entries_owned (h : ∀ e ∈ inserted calls, e.key.length < 2 ^ 32) :
    ∃ md, exec step none calls = some md ∧
      (mdatumFree (md.getD metadataInit).contents ++ mdatumFree (md.getD metadataInit).dropped).Perm
        (mdatumFree (inserted calls)) := by
  obtain ⟨md, hexec, hrep⟩ := exists_exec h
  obtain ⟨bs, hlive, -, howned⟩ := hrep.getD
  refine ⟨md, hexec, ?_⟩
  rw [mdatumFree, mdatumFree, ← List.filter_append, ← List.map_append]
  exact (((hlive.entries_perm_contents.symm.append_right _).trans howned).map MEntry.datum).filter _

/-- The list of entries by which the hooks are modelled. -/
def asList (calls : List InsertCall) : Metadata :=
  (inserted calls).foldl (fun md e => metadataInsert md (keyName e.key) e.datum) []

/-- Keys are told apart by their names. -/
theorem keyName_injective : Function.Injective keyName := by
  intro key key' h
  have hchar : Function.Injective fun c : UInt8 => Char.ofNat c.toNat := by
    intro c c' hc
    have hvalid : ∀ c : UInt8, (Char.ofNat c.toNat).toNat = c.toNat := by
      intro c
      have hlt : c.toNat.isValidChar := .inl (Nat.lt_trans c.toNat_lt (by decide))
      rw [Char.ofNat, dif_pos hlt]
      rfl
    have hnat := congrArg Char.toNat hc
    simp only [hvalid] at hnat
    exact UInt8.toNat_inj.mp hnat
  exact List.map_injective_iff.mpr hchar (String.ofList_injective h)

/-- The list gives the entries that were inserted last. -/
theorem metadataFind_asList (calls : List InsertCall) (k : CString) :
    metadataFind (some (asList calls)) k = (latest calls k).map MEntry.datum := by
  induction calls using List.reverseRecOn with
  | nil => rfl
  | append_singleton calls call ih =>
    obtain ⟨key, value⟩ := call
    cases value with
    | none =>
      rw [asList, latest, inserted_concat_none]
      exact ih
    | some value =>
      have hlist : asList (calls ++ [(key, some value)]) =
          metadataInsert (asList calls) (keyName key) value := by
        rw [asList, inserted_concat, List.foldl_append]
        rfl
      rw [metadataFind, Option.bind_some] at ih ⊢
      rw [hlist, lookup_metadataInsert, latest_concat, ih]
      by_cases hk : k = key
      · rw [if_pos (congrArg keyName hk), if_pos hk]
        rfl
      · rw [if_neg (keyName_injective.ne hk), if_neg hk]

/-- The table and the list by which the hooks are modelled give the same answers. -/
theorem find_eq_metadataFind (h : ∀ e ∈ inserted calls, e.key.length < 2 ^ 32)
    (hk : inserted calls ≠ [] → k.length < 2 ^ 32) :
    ∃ md ret e, exec step none calls = some md ∧ find md k = some ret ∧ Points md ret e ∧
      e.map MEntry.datum = metadataFind (some (asList calls)) k := by
  obtain ⟨md, hexec, hrep⟩ := exists_exec h
  obtain ⟨ret, hfind, hpoints⟩ := hrep.exists_find hk
  exact ⟨md, ret, latest calls k, hexec, hfind, hpoints, (metadataFind_asList calls k).symm⟩

end MetadataTable

end Schaufel
