import Schaufel.Foundation.KeyedEntries
import Schaufel.Metadata.Shrinking

/-!
# Finding what was inserted

The invariant `Live` of a table says which nodes are in which bucket: every node that was not freed
is in exactly one, and that is the bucket of its hash.  So a node is found in the bucket of the hash
of the query if there is one at all.  The nodes in the buckets stand for a map from keys to
contents; an insertion changes it under one key, also when the array of buckets grows.

The array has its smallest size, or more than half as many nodes as buckets, and never more nodes
than buckets (`Fitting`).
-/

namespace Schaufel

variable {ν κ : Type}

namespace Chains

/-- The content of the node at an address. -/
def content? (m : Chains ν) (p : NodePtr) : Option ν := m.nodes[p]?.map HTableNode.content

/-- What the nodes of some buckets have in them. -/
def entries (m : Chains ν) (bs : List (List NodePtr)) : List ν := bs.flatten.filterMap m.content?

variable {m m' : Chains ν} {bs bs' : List (List NodePtr)} {p : NodePtr} {l : List NodePtr} {c : ν}

theorem SameNodes.content?_eq (h : SameNodes m m') : m'.content? = m.content? := by
  funext p
  have hsnd := congrArg (Option.map Prod.snd) (h.getElem? p)
  rwa [Option.map_map, Option.map_map] at hsnd

theorem mem_entries : c ∈ m.entries bs ↔ ∃ p ∈ bs.flatten, m.content? p = some c :=
  List.mem_filterMap

/-- The contents of the same nodes in other buckets. -/
theorem SameNodes.entries_perm (h : SameNodes m m') (hperm : bs'.flatten.Perm bs.flatten) :
    (m'.entries bs').Perm (m.entries bs) := by
  unfold entries
  rw [h.content?_eq]
  exact hperm.filterMap _

/-- The content of one node, and those of the other ones. -/
theorem entries_perm_cons (hperm : bs.flatten.Perm (p :: l)) (hc : m.content? p = some c) :
    (m.entries bs).Perm (c :: l.filterMap m.content?) := by
  have hmap := hperm.filterMap m.content?
  rwa [List.filterMap_cons_some hc] at hmap

end Chains

namespace HTable

variable {hfunc : ν → Option UInt32} {eqfunc : ν → ν → Bool} {key : ν → κ} {tbl tbl' : HTable ν}
  {freed freed' : List NodePtr} {bs bs' : List (List NodePtr)} {f : κ → Option ν}

/-- The functions that the user gives look at a key only. -/
structure Keyed (hfunc : ν → Option UInt32) (eqfunc : ν → ν → Bool) (key : ν → κ) : Prop where
  eq_iff : ∀ a b, eqfunc a b = true ↔ key a = key b
  hash_congr : ∀ a b, key a = key b → hfunc a = hfunc b

/-- What the nodes have in them, in the order of their allocation. -/
def contents (tbl : HTable ν) : List ν := tbl.nodes.map HTableNode.content

/-- The invariant of a table with its buckets, the nodes that were freed and the map it stands
for. -/
structure Live (hfunc : ν → Option UInt32) (key : ν → κ) (tbl : HTable ν) (freed : List NodePtr)
    (bs : List (List NodePtr)) (f : κ → Option ν) : Prop where
  buckets : Buckets tbl.next tbl.items bs
  length : bs.length = tbl.size
  /-- Every node is in a bucket, or was freed. -/
  perm : (bs.flatten ++ freed).Perm (List.range tbl.nodes.length)
  placed : ∀ (j : Nat) (b : List NodePtr), bs[j]? = some b → ∀ p ∈ b, tbl.At tbl.size j p
  hash : ∀ p ∈ bs.flatten, ∀ n, tbl.nodes[p]? = some n → hfunc n.content = some n.hash
  entries : KeyedEntries key f (tbl.entries bs)
  nitems : tbl.nitems = bs.flatten.length
  pow : ∃ k, 3 ≤ k ∧ tbl.size = 2 ^ k
  mask : tbl.mask = UInt32.ofNat (tbl.size - 1)

/-- A table has its smallest size, or more than half as many nodes as buckets, and never more nodes
than buckets. -/
structure Fitting (tbl : HTable ν) : Prop where
  le : tbl.nitems ≤ tbl.size
  large : tbl.size = minSize ∨ tbl.size / 2 < tbl.nitems

theorem live_htableCreate :
    Live hfunc key (htableCreate : HTable ν) [] (List.replicate minSize []) (fun _ => none) := by
  have hempty : ∀ (j : Nat) (b : List NodePtr), (List.replicate minSize ([] : List NodePtr))[j]? =
      some b →
      b = [] := fun j b hb => List.eq_of_mem_replicate (List.mem_of_getElem? hb)
  refine ⟨⟨rfl, fun j b hb => ?_, List.nodup_nil⟩, rfl, .refl _, fun j b hb p hp => ?_,
    fun p hp => ?_, keyedEntries_nil, rfl, ⟨3, Nat.le_refl 3, rfl⟩, rfl⟩
  · rw [hempty j b hb]
    exact chain_nil _
  · rw [hempty j b hb] at hp
    cases hp
  · cases hp

theorem fitting_htableCreate : (htableCreate : HTable ν).Fitting := ⟨Nat.zero_le _, .inl rfl⟩

namespace Live

theorem toNat_and_mask (h : tbl.Live hfunc key freed bs f) (hash : UInt32) :
    (hash &&& tbl.mask).toNat = hash.toNat % tbl.size := by
  obtain ⟨k, -, hk⟩ := h.pow
  rw [h.mask, hk, Schaufel.toNat_and_mask]

/-- The bucket of a hash. -/
theorem exists_bucket (h : tbl.Live hfunc key freed bs f) (hash : UInt32) :
    ∃ b, bs[hash.toNat % tbl.size]? = some b ∧
      tbl.items[(hash &&& tbl.mask).toNat]? = some b.head? := by
  obtain ⟨k, -, hk⟩ := h.pow
  have hlt : hash.toNat % tbl.size < bs.length := by
    rw [h.length]
    apply Nat.mod_lt
    rw [hk]
    exact Nat.two_pow_pos k
  refine ⟨_, List.getElem?_eq_getElem hlt, ?_⟩
  rw [h.toNat_and_mask, h.buckets.getElem?_items, List.getElem?_eq_getElem hlt]
  rfl

theorem lt_of_mem (h : tbl.Live hfunc key freed bs f) {p : NodePtr} (hp : p ∈ bs.flatten) :
    p < tbl.nodes.length :=
  List.mem_range.mp (h.perm.mem_iff.mp (List.mem_append_left _ hp))

/-- Every node of a bucket has a content. -/
theorem length_entries (h : tbl.Live hfunc key freed bs f) :
    (tbl.entries bs).length = bs.flatten.length := by
  rw [Chains.entries, List.length_filterMap_eq_countP, List.countP_eq_length]
  intro p hp
  rw [Chains.content?, Option.isSome_map, List.getElem?_eq_getElem (h.lt_of_mem hp)]
  rfl

/-- A node in a bucket has what the map has under its key. -/
theorem eq_some (h : tbl.Live hfunc key freed bs f) {p : NodePtr} (hp : p ∈ bs.flatten)
    {n : HTableNode ν} (hn : tbl.nodes[p]? = some n) : f (key n.content) = some n.content := by
  refine (h.entries.eq_some_iff _ _).mpr ⟨Chains.mem_entries.mpr ⟨p, hp, ?_⟩, rfl⟩
  rw [Chains.content?, hn]
  rfl

/-- A node of a key is in the bucket of the hash of the key. -/
theorem mem_bucket (hkeyed : Keyed hfunc eqfunc key) (h : tbl.Live hfunc key freed bs f) {query : ν}
    {hash : UInt32} (hhash : hfunc query = some hash) {b : List NodePtr}
    (hb : bs[hash.toNat % tbl.size]? = some b) {p : NodePtr} (hp : p ∈ bs.flatten)
    {n : HTableNode ν} (hn : tbl.nodes[p]? = some n) (hkey : key n.content = key query) :
    p ∈ b := by
  have hnode := h.hash p hp n hn
  rw [hkeyed.hash_congr _ _ hkey, hhash] at hnode
  obtain ⟨l, hl, hmem⟩ := List.mem_flatten.mp hp
  obtain ⟨j, hj⟩ := List.mem_iff_getElem?.mp hl
  obtain ⟨n', hn', hplace⟩ := h.placed j l hj p hmem
  obtain rfl := Option.some.inj (hn.symm.trans hn')
  rw [← Option.some.inj hnode] at hplace
  rw [hplace, hj] at hb
  rwa [← Option.some.inj hb]

/-- If no node of the bucket has the key, nothing is under the key. -/
theorem eq_none (hkeyed : Keyed hfunc eqfunc key) (h : tbl.Live hfunc key freed bs f) {query : ν}
    {hash : UInt32} (hhash : hfunc query = some hash) {b : List NodePtr}
    (hb : bs[hash.toNat % tbl.size]? = some b)
    (hall : ∀ p ∈ b, ∀ c, tbl.content? p = some c → eqfunc c query = false) :
    f (key query) = none := by
  rw [Option.eq_none_iff_forall_not_mem]
  intro c hc
  obtain ⟨hmem, hkey⟩ := (h.entries.eq_some_iff _ _).mp hc
  obtain ⟨p, hp, hcontent⟩ := Chains.mem_entries.mp hmem
  obtain ⟨n, hn, rfl⟩ := Option.map_eq_some_iff.mp hcontent
  have hnot := hall p (h.mem_bucket hkeyed hhash hb hp hn hkey) _ hcontent
  rw [(hkeyed.eq_iff _ _).mpr hkey] at hnot
  cases hnot

/-- The nodes of a bucket are in memory. -/
theorem bucket_lt (h : tbl.Live hfunc key freed bs f) {j : Nat} {b : List NodePtr}
    (hb : bs[j]? = some b) :
    ∀ p ∈ b, p < tbl.nodes.length := fun p hp => (h.placed j b hb p hp).lt

/-! ### Finding -/

/-- The walk along the bucket of a hash leads to what the map has under the key. -/
theorem exists_search (hkeyed : Keyed hfunc eqfunc key) (h : tbl.Live hfunc key freed bs f)
    {query : ν} {hash : UInt32} (hhash : hfunc query = some hash) {b : List NodePtr}
    (hb : bs[hash.toNat % tbl.size]? = some b) :
    ∃ r, tbl.search (fun content => eqfunc content query) tbl.nodes.length b.head? = some r ∧
      (r = none ∧ f (key query) = none ∨
        ∃ p n, r = some p ∧ p ∈ bs.flatten ∧ tbl.nodes[p]? = some n ∧ key n.content = key query ∧
          f (key query) = some n.content) := by
  have hvalid := h.bucket_lt hb
  have hrounds := Chains.length_bucket_le h.buckets hb hvalid
  refine ⟨_, Chains.search_eq (h.buckets.chain _ b hb) hvalid hrounds, ?_⟩
  cases hfind : b.find? fun p => tbl.nodes[p]?.any fun n => eqfunc n.content query with
  | none =>
    refine .inl ⟨rfl, h.eq_none hkeyed hhash hb fun p hp c hc => ?_⟩
    obtain ⟨n, hn, rfl⟩ := Option.map_eq_some_iff.mp hc
    have hnot := List.find?_eq_none.mp hfind p hp
    rw [hn, Option.any_some] at hnot
    exact Bool.eq_false_iff.mpr hnot
  | some p =>
    have hany := List.find?_some hfind
    rw [Option.any_eq_true] at hany
    obtain ⟨n, hn, heq⟩ := hany
    have hkey := (hkeyed.eq_iff _ _).mp heq
    have hp := mem_flatten_of_getElem? hb (List.mem_of_find?_eq_some hfind)
    exact .inr ⟨p, n, rfl, hp, hn, hkey, hkey ▸ h.eq_some hp hn⟩

/-- `htable_find` leads to what the map has under the key. -/
theorem exists_htableFind (hkeyed : Keyed hfunc eqfunc key) (h : tbl.Live hfunc key freed bs f)
    {query : ν} {hash : UInt32} (hhash : hfunc query = some hash) :
    ∃ r, tbl.htableFind hfunc eqfunc query = some r ∧
      (r = none ∧ f (key query) = none ∨ ∃ p n, r = some p ∧ tbl.nodes[p]? = some n ∧
        f (key query) = some n.content) := by
  obtain ⟨b, hb, hhead⟩ := h.exists_bucket hash
  obtain ⟨r, hsearch, hresult⟩ := h.exists_search hkeyed hhash hb
  refine ⟨r, ?_, hresult.imp id ?_⟩
  · simp only [htableFind, hhash, hhead, bind, Option.bind_some]
    exact hsearch
  · rintro ⟨p, n, hr, -, hn, -, hf⟩
    exact ⟨p, n, hr, hn, hf⟩

/-! ### Resizing -/

/-- The nodes are moved to the buckets of another array. -/
theorem resized (h : tbl.Live hfunc key freed bs f) {m : Chains ν} {bs' : List (List NodePtr)}
    {size : Nat} (hb : Buckets m.next m.items bs') (hsame : tbl.SameNodes m)
    (hperm : bs'.flatten.Perm bs.flatten) (hlength : bs'.length = size)
    (hplaced : ∀ (j : Nat) (b : List NodePtr), bs'[j]? = some b → ∀ p ∈ b, m.At size j p)
    (hpow : ∃ k, 3 ≤ k ∧ size = 2 ^ k) :
    Live hfunc key { tbl with
      toChains := m, size := size, mask := UInt32.ofNat (size - 1) } freed bs' f := by
  refine ⟨hb, hlength, ?_, hplaced, fun p hp n hn => ?_, ?_, ?_, hpow, rfl⟩
  · show (bs'.flatten ++ freed).Perm (List.range m.nodes.length)
    rw [hsame.length_eq]
    exact (hperm.append_right freed).trans h.perm
  · have hnode := hsame.getElem? p
    rw [hn, Option.map_some] at hnode
    obtain ⟨n', hn', heq⟩ := Option.map_eq_some_iff.mp hnode.symm
    obtain ⟨hhash, hcontent⟩ := Prod.mk.inj heq
    rw [← hhash, ← hcontent]
    exact h.hash p (hperm.mem_iff.mp hp) n' hn'
  · exact h.entries.perm (hsame.entries_perm hperm).symm
  · exact h.nitems.trans hperm.length_eq.symm

/-- The array is doubled or halved when it has to be. -/
theorem exists_htableResize (h : tbl.Live hfunc key freed bs f) (hle : tbl.nitems ≤ tbl.size + 1)
    (hlarge : tbl.size = minSize ∨ tbl.size / 2 ≤ tbl.nitems) :
    ∃ tbl' bs', htableResize tbl = some tbl' ∧ tbl'.Live hfunc key freed bs' f ∧ tbl'.Fitting ∧
      tbl'.dropped = tbl.dropped := by
  obtain ⟨k, hk, hpow⟩ := h.pow
  have hmin : minSize = 2 ^ 3 := rfl
  have hsize : minSize ≤ tbl.size := by
    rw [hpow, hmin]
    exact Nat.pow_le_pow_right (by decide) hk
  unfold htableResize
  by_cases hfew : tbl.nitems < minSize
  · rw [if_pos hfew]
    refine ⟨tbl, bs, rfl, h, ⟨Nat.le_of_lt (Nat.lt_of_lt_of_le hfew hsize), .inl ?_⟩, rfl⟩
    -- a power of two below 16
    rcases hlarge with hsize | hhalf
    · exact hsize
    · have hlt : 2 ^ k < 2 ^ 4 := by
        rw [← hpow]
        unfold minSize at hfew
        omega
      have hk' : k < 4 := (Nat.pow_lt_pow_iff_right (by decide)).mp hlt
      obtain rfl : k = 3 := by omega
      exact hpow
  rw [if_neg hfew]
  have hmany : 8 ≤ tbl.nitems := Nat.not_lt.mp hfew
  by_cases hgrow : tbl.size < tbl.nitems
  · have hdouble : tbl.size * 2 = 2 ^ (k + 1) := by rw [hpow, Nat.pow_succ]
    have hmasks : Chains.Masks tbl.size tbl.mask (UInt32.ofNat (tbl.size * 2 - 1)) := by
      refine ⟨h.toNat_and_mask, fun hash => ?_⟩
      rw [hdouble, Schaufel.toNat_and_mask]
    obtain ⟨m, bs', hexec, hb', hsame, hperm, hlength, hplaced⟩ :=
      Chains.exists_double hmasks h.length h.buckets h.placed
    have hlive := h.resized hb' hsame hperm hlength hplaced ⟨k + 1, Nat.le_succ_of_le hk, hdouble⟩
    rw [if_pos hgrow]
    simp only [hexec, Option.map_some]
    refine ⟨_, bs', rfl, hlive, ⟨?_, .inr ?_⟩, rfl⟩
    · show tbl.nitems ≤ tbl.size * 2
      omega
    · show tbl.size * 2 / 2 < tbl.nitems
      omega
  rw [if_neg hgrow]
  by_cases hshrink : tbl.nitems ≤ tbl.size / 2
  · -- there are at least 16 buckets
    obtain ⟨k, rfl⟩ : ∃ i, k = i + 1 := ⟨k - 1, by omega⟩
    have hpow' : tbl.size = 2 ^ k * 2 := by rw [hpow, Nat.pow_succ]
    have hhalf : tbl.size / 2 = 2 ^ k := by omega
    have hk' : 3 ≤ k := by
      have hle : 2 ^ 3 ≤ 2 ^ k := by omega
      exact (Nat.pow_le_pow_iff_right (by decide)).mp hle
    have hrest : tbl.size - tbl.size / 2 = tbl.size / 2 := by omega
    have hlength : bs.length = tbl.size / 2 * 2 := by
      rw [h.length]
      omega
    have hplaced : ∀ (j : Nat) (b : List NodePtr), bs[j]? = some b → ∀ p ∈ b,
        tbl.At (tbl.size / 2 * 2) j p := by
      have hsize : tbl.size / 2 * 2 = tbl.size := by omega
      rw [hsize]
      exact h.placed
    obtain ⟨m, bs', hexec, hb', hsame, hperm, hlength', hplaced'⟩ :=
      Chains.exists_halve hlength h.buckets hplaced
    have hlive := h.resized hb' hsame hperm hlength' hplaced' ⟨k, hk', hhalf⟩
    rw [if_pos hshrink]
    simp only [hrest, hexec, Option.map_some]
    refine ⟨_, bs', rfl, hlive, ⟨?_, .inr ?_⟩, rfl⟩
    · exact hshrink
    · show tbl.size / 2 / 2 < tbl.nitems
      unfold minSize at hlarge
      omega
  · rw [if_neg hshrink]
    exact ⟨tbl, bs, rfl, h, ⟨Nat.not_lt.mp hgrow, .inr (Nat.not_le.mp hshrink)⟩, rfl⟩

/-! ### Inserting -/

/-- A node of the key gets the new content. -/
theorem exists_update [DecidableEq κ] (hkeyed : Keyed hfunc eqfunc key)
    (h : tbl.Live hfunc key freed bs f) {content : ν} {hash : UInt32}
    (hhash : hfunc content = some hash) {p : NodePtr} (hp : p ∈ bs.flatten) {n : HTableNode ν}
    (hn : tbl.nodes[p]? = some n) (hkey : key n.content = key content) :
    ∃ tbl', tbl.update hash p content = some tbl' ∧
      tbl'.Live hfunc key freed bs (Function.update f (key content) (some content)) ∧
      tbl'.nitems = tbl.nitems ∧ tbl'.size = tbl.size ∧
      tbl'.dropped = tbl.dropped ++ [n.content] := by
  have hnhash : n.hash = hash := by
    have hnode := h.hash p hp n hn
    rw [hkeyed.hash_congr _ _ hkey, hhash] at hnode
    exact (Option.some.inj hnode).symm
  have hlt := (List.getElem?_eq_some_iff.mp hn).1
  have hlinks : tbl.SameLinks ⟨tbl.items, tbl.nodes.set p ⟨n.next, hash, content⟩⟩ :=
    map_set_eq_self hn (congrArg (Prod.mk n.next) hnhash.symm)
  have hbuckets : Buckets (Chains.next ⟨tbl.items, tbl.nodes.set p ⟨n.next, hash, content⟩⟩)
      tbl.items bs := by
    rw [hlinks.next_eq]
    exact h.buckets
  -- the other nodes have what they had
  have hperm := List.perm_cons_erase hp
  have hother : (bs.flatten.erase p).filterMap
      (Chains.content? ⟨tbl.items, tbl.nodes.set p ⟨n.next, hash, content⟩⟩) =
        (bs.flatten.erase p).filterMap tbl.content? := by
    refine List.filterMap_congr fun q hq => ?_
    have hne : p ≠ q := by
      rintro rfl
      exact h.buckets.nodup.not_mem_erase hq
    rw [Chains.content?, Chains.content?, List.getElem?_set_ne hne]
  have hold : tbl.content? p = some n.content := by
    rw [Chains.content?, hn]
    rfl
  have hnew : Chains.content? ⟨tbl.items, tbl.nodes.set p ⟨n.next, hash, content⟩⟩ p =
      some content := by
    rw [Chains.content?, List.getElem?_set_self hlt]
    rfl
  have hentries := (h.entries.perm (Chains.entries_perm_cons hperm hold)).replace hkey
  rw [← hother] at hentries
  rw [update, hn, Option.map_some]
  refine ⟨_, rfl, ⟨hbuckets, h.length, ?_,
    fun j b hb q hq => (h.placed j b hb q hq).of_sameLinks hlinks, fun q hq n' hn' => ?_,
    hentries.perm (Chains.entries_perm_cons hperm hnew).symm, h.nitems, h.pow, h.mask⟩, rfl, rfl,
    rfl⟩
  · have hall := h.perm
    rwa [← hlinks.length_eq] at hall
  · by_cases hqp : p = q
    · subst hqp
      have hself : (tbl.nodes.set p ⟨n.next, hash, content⟩)[p]? = some n' := hn'
      rw [List.getElem?_set_self hlt] at hself
      obtain rfl := Option.some.inj hself
      exact hhash
    · have hsame : (tbl.nodes.set p ⟨n.next, hash, content⟩)[q]? = some n' := hn'
      rw [List.getElem?_set_ne hqp] at hsame
      exact h.hash q hq n' hsame

/-- A new node is put in front of the bucket of its hash. -/
theorem link [DecidableEq κ] (h : tbl.Live hfunc key freed bs f) {content : ν} {hash : UInt32}
    (hhash : hfunc content = some hash) (hmissing : f (key content) = none) {b : List NodePtr}
    (hb : bs[hash.toNat % tbl.size]? = some b) :
    (tbl.link hash b.head? content).Live hfunc key freed
      (bs.set (hash.toNat % tbl.size) (tbl.nodes.length :: b))
      (Function.update f (key content) (some content)) := by
  have hfree : tbl.nodes.length ∉ bs.flatten := fun hmem => Nat.lt_irrefl _ (h.lt_of_mem hmem)
  have hold : ∀ {q}, q < tbl.nodes.length →
      (tbl.link hash b.head? content).nodes[q]? = tbl.nodes[q]? :=
    fun hq => List.getElem?_append_left hq
  have hself : (tbl.link hash b.head? content).nodes[tbl.nodes.length]? =
      some ⟨b.head?, hash, content⟩ :=
    List.getElem?_concat_length
  have hat : ∀ {j q}, tbl.At tbl.size j q → (tbl.link hash b.head? content).At tbl.size j q := by
    rintro j q ⟨n, hn, hplace⟩
    exact ⟨n, (hold (List.getElem?_eq_some_iff.mp hn).1).trans hn, hplace⟩
  have hnext : (tbl.link hash b.head? content).next =
      Function.update tbl.next tbl.nodes.length b.head? := by
    funext q
    by_cases hq : q = tbl.nodes.length
    · subst hq
      rw [Function.update_self, Chains.next, hself]
      rfl
    · rw [Function.update_of_ne hq, Chains.next, Chains.next]
      rcases Nat.lt_or_gt_of_ne hq with hlt | hgt
      · rw [hold hlt]
      · have hlong : (tbl.link hash b.head? content).nodes.length ≤ q := by
          simp only [HTable.link, List.length_append, List.length_singleton]
          omega
        rw [List.getElem?_eq_none hlong, List.getElem?_eq_none (Nat.le_of_lt hgt)]
  have hlength : (tbl.link hash b.head? content).nodes.length = tbl.nodes.length + 1 := by
    simp [HTable.link]
  have hperm := Buckets.perm_push hb tbl.nodes.length
  refine ⟨?_, ?_, ?_, fun j l hl q hq => ?_, fun q hq n hn => ?_, ?_, ?_, h.pow, h.mask⟩
  · have hpush := h.buckets.push hb hfree
    rw [← hnext, ← h.toNat_and_mask] at hpush
    rw [← h.toNat_and_mask]
    exact hpush
  · rw [List.length_set]
    exact h.length
  · rw [hlength, List.range_succ]
    refine (hperm.append_right freed).trans ?_
    exact (h.perm.cons _).trans (List.perm_append_singleton _ _).symm
  · show (tbl.link hash b.head? content).At tbl.size j q
    rw [List.getElem?_set] at hl
    split_ifs at hl with hj hlt
    · obtain rfl := Option.some.inj hl
      rcases List.mem_cons.mp hq with rfl | hq
      · exact ⟨_, hself, hj⟩
      · exact hat (hj ▸ h.placed _ b hb q hq)
    · exact hat (h.placed j l hl q hq)
  · rcases List.mem_cons.mp (hperm.mem_iff.mp hq) with rfl | hq
    · rw [hself] at hn
      rw [← Option.some.inj hn]
      exact hhash
    · rw [hold (h.lt_of_mem hq)] at hn
      exact h.hash q hq n hn
  · have hcontent : (tbl.link hash b.head? content).content? tbl.nodes.length = some content := by
      rw [Chains.content?, hself]
      rfl
    have hother : bs.flatten.filterMap (tbl.link hash b.head? content).content? =
        tbl.entries bs := by
      refine List.filterMap_congr fun q hq => ?_
      rw [Chains.content?, Chains.content?, hold (h.lt_of_mem hq)]
    have hentries := h.entries.cons hmissing
    rw [← hother] at hentries
    exact hentries.perm (Chains.entries_perm_cons hperm hcontent).symm
  · show tbl.nitems + 1 = _
    rw [h.nitems, hperm.length_eq]
    rfl

/-- `htable_insert` puts the content under its key. -/
theorem exists_htableInsert [DecidableEq κ] (hkeyed : Keyed hfunc eqfunc key)
    (h : tbl.Live hfunc key freed bs f) (hfit : tbl.Fitting) {content : ν} {hash : UInt32}
    (hhash : hfunc content = some hash) :
    ∃ tbl' bs', tbl.htableInsert hfunc eqfunc content = some (tbl', (f (key content)).isNone) ∧
      tbl'.Live hfunc key freed bs' (Function.update f (key content) (some content)) ∧
      tbl'.Fitting ∧
      tbl'.dropped = tbl.dropped ++ (f (key content)).toList := by
  obtain ⟨b, hb, hhead⟩ := h.exists_bucket hash
  obtain ⟨r, hsearch, hresult⟩ := h.exists_search hkeyed hhash hb
  simp only [htableInsert, hhash, hhead, bind, Option.bind_some, hsearch]
  rcases hresult with ⟨rfl, hmissing⟩ | ⟨p, n, rfl, hp, hn, hkey, hf⟩
  · obtain ⟨tbl', bs', hresize, hlive, hfit', hdropped⟩ :=
      (h.link hhash hmissing hb).exists_htableResize
      (Nat.succ_le_succ hfit.le) (hfit.large.imp id fun hlt => Nat.le_succ_of_le (Nat.le_of_lt hlt))
    refine ⟨tbl', bs', ?_, hlive, hfit', ?_⟩
    · simp only [hresize, Option.map_some, hmissing, Option.isNone_none]
    · rw [hdropped, hmissing, Option.toList_none, List.append_nil]
      rfl
  · obtain ⟨tbl', hupdate, hlive, hnitems, hsize, hdropped⟩ :=
      h.exists_update hkeyed hhash hp hn hkey
    refine ⟨tbl', bs, ?_, hlive, ⟨?_, ?_⟩, ?_⟩
    · simp only [hupdate, Option.map_some, hf, Option.isNone_some]
    · rw [hnitems, hsize]
      exact hfit.le
    · rw [hnitems, hsize]
      exact hfit.large
    · rw [hdropped, hf]
      rfl

/-- What is handed over is in the table, or was dropped. -/
theorem perm_insert [DecidableEq κ] (h : tbl.Live hfunc key freed bs f) {content : ν}
    (h' : tbl'.Live hfunc key freed' bs' (Function.update f (key content) (some content)))
    (hdropped : tbl'.dropped = tbl.dropped ++ (f (key content)).toList) :
    (tbl'.entries bs' ++ tbl'.dropped).Perm (content :: (tbl.entries bs ++ tbl.dropped)) := by
  rw [hdropped]
  exact perm_append_moved (h.entries.perm_insert h'.entries) tbl.dropped

end Live

/-! ### A table from which nothing was deleted -/

theorem filterMap_getElem?_range {α : Type} (l : List α) :
    (List.range l.length).filterMap (fun i => l[i]?) = l := by
  induction l using List.reverseRecOn with
  | nil => rfl
  | append_singleton l a ih =>
    have hold : (List.range l.length).filterMap (fun i => (l ++ [a])[i]?) =
        (List.range l.length).filterMap fun i => l[i]? :=
      List.filterMap_congr fun i hi => List.getElem?_append_left (List.mem_range.mp hi)
    rw [List.length_append, List.length_singleton, List.range_succ, List.filterMap_append, hold, ih]
    simp

/-- The nodes in the buckets are all nodes. -/
theorem Live.entries_perm_contents (h : tbl.Live hfunc key [] bs f) :
    (tbl.entries bs).Perm tbl.contents := by
  have hcontents : (List.range tbl.nodes.length).filterMap tbl.content? = tbl.contents := by
    have hlist := filterMap_getElem?_range tbl.contents
    simp only [contents, List.length_map, List.getElem?_map] at hlist
    exact hlist
  have hperm := h.perm
  rw [List.append_nil] at hperm
  rw [← hcontents]
  exact hperm.filterMap _

end HTable

end Schaufel
