import Mathlib.Algebra.Order.Ring.Nat
import Mathlib.Data.List.Perm.Subperm
import Mathlib.Data.Nat.Bitwise
import Schaufel.Metadata.HTable

/-!
# The table grows

When the array of buckets is doubled, a node of bucket `i` has its place in bucket `i` or in bucket
`i + size`, since one more bit of its hash counts.  The loop of `_htable_resize` takes the latter
out of their chain one after the other.

The invariant of the loop over the buckets is `Placed`: the buckets that were handled and those of
the new half have the nodes that belong there, the others still have their old ones.  Along the
chain of one bucket, the nodes before `curr` have their place there.

## Main results

* `toNat_and_mask`: a masked hash is the hash modulo the number of buckets.
* `exists_growBucket`: the nodes of one bucket.
* `exists_double`: all buckets of a table.
-/

namespace Schaufel

/-! ### Masks -/

/-- The low bits of a hash, for any power of two: the mask has 32 bits. -/
theorem toNat_and_mask (hash : UInt32) (k : Nat) :
    (hash &&& UInt32.ofNat (2 ^ k - 1)).toNat = hash.toNat % 2 ^ k := by
  rw [UInt32.toNat_and, UInt32.toNat_ofNat']
  apply Nat.eq_of_testBit_eq
  intro i
  rw [Nat.testBit_and, Nat.testBit_mod_two_pow, Nat.testBit_mod_two_pow,
    Nat.testBit_two_pow_sub_one]
  by_cases hi : i < 32
  · simp [hi, Bool.and_comm]
  · have hbit : hash.toNat.testBit i = false := by
      apply Nat.testBit_lt_two_pow
      exact Nat.lt_of_lt_of_le hash.toNat_lt
        (Nat.pow_le_pow_right (by decide) (Nat.le_of_not_lt hi))
    simp [hbit]

/-- One more bit leads to the same bucket or to the one as far behind it as there were buckets. -/
theorem mod_double (x size : Nat) :
    x % (size * 2) = x % size ∨ x % (size * 2) = x % size + size := by
  have hbit : x / size % 2 = 0 ∨ x / size % 2 = 1 := Nat.mod_two_eq_zero_or_one _
  rw [Nat.mod_mul]
  rcases hbit with hzero | hone
  · left
    rw [hzero, Nat.mul_zero, Nat.add_zero]
  · right
    rw [hone, Nat.mul_one]

namespace Chains

variable {ν : Type} {m m' : Chains ν} {bs : List (List NodePtr)} {size idx : Nat}

/-! ### One bucket -/

/-- The number of buckets that counts for the nodes of a bucket when some of the buckets were
handled. -/
def width (size handled j : Nat) : Nat := if handled ≤ j ∧ j < size then size else size * 2

/-- The nodes are where they belong when some of the buckets were handled. -/
def Placed (m : Chains ν) (size handled : Nat) (bs : List (List NodePtr)) : Prop :=
  ∀ (j : Nat) (b : List NodePtr), bs[j]? = some b → ∀ p ∈ b, m.At (width size handled j) j p

/-- A walk along a bucket needs no more rounds than there are nodes. -/
theorem length_bucket_le {b : List NodePtr} (h : Buckets m.next m.items bs) (hb : bs[idx]? = some b)
    (hvalid : ∀ p ∈ b, p < m.nodes.length) : b.length ≤ m.nodes.length := by
  have hnodup : b.Nodup := (List.nodup_flatten.mp h.nodup).1 b (List.mem_of_getElem? hb)
  have hsub : b ⊆ List.range m.nodes.length := fun p hp => List.mem_range.mpr (hvalid p hp)
  simpa using (List.Nodup.subperm hnodup hsub).length_le

/-- A node is taken out of its bucket. -/
theorem exists_takeOut {kept rest : List NodePtr} {curr : NodePtr} (h : Buckets m.next m.items bs)
    (hi : bs[idx]? = some (kept ++ curr :: rest)) (hvalid : ∀ p ∈ kept, p < m.nodes.length) :
    ∃ m', m.takeOut idx kept.getLast? rest.head? = some m' ∧
      Buckets m'.next m'.items (bs.set idx (kept ++ rest)) ∧ SameNodes m m' := by
  cases hlast : kept.getLast? with
  | none =>
    obtain rfl := List.getLast?_eq_none_iff.mp hlast
    have hlt : idx < m.items.length := by
      rw [h.length_eq]
      exact (List.getElem?_eq_some_iff.mp hi).1
    exact ⟨_, exists_setItem hlt _, h.unlinkHead hi, .refl _⟩
  | some prev =>
    obtain ⟨m', hset, hitems, hnext, hsame⟩ :=
      exists_setNext (hvalid prev (List.mem_of_getLast? hlast)) rest.head?
    refine ⟨m', hset, ?_, hsame⟩
    rw [hitems, hnext]
    exact h.unlink hi hlast

/-- A node that is in no bucket is put in front of one. -/
theorem exists_putFront {b : List NodePtr} {curr : NodePtr} (h : Buckets m.next m.items bs)
    (hi : bs[idx]? = some b) (hcurr : curr < m.nodes.length) (hfree : curr ∉ bs.flatten) :
    ∃ m', m.putFront idx curr = some m' ∧ Buckets m'.next m'.items (bs.set idx (curr :: b)) ∧
      SameNodes m m' := by
  obtain ⟨m₁, hset, hitems, hnext, hsame⟩ := exists_setNext hcurr b.head?
  have hitem : m.items[idx]? = some b.head? := by
    rw [h.getElem?_items, hi]
    rfl
  have hlt : idx < m₁.items.length := by
    rw [hitems, h.length_eq]
    exact (List.getElem?_eq_some_iff.mp hi).1
  have hpush := h.push hi hfree
  rw [← hnext, ← hitems] at hpush
  simp only [putFront, hitem, hset, bind, Option.bind_some]
  exact ⟨_, exists_setItem hlt _, hpush, hsame⟩

/-- The loop over the nodes of a bucket: `kept` has the nodes that stay, `rest` those that were not
looked at, and the nodes of the other buckets are where they belong. -/
structure Growing (m : Chains ν) (size idx : Nat) (bs : List (List NodePtr))
    (kept rest : List NodePtr) : Prop where
  length : bs.length = size * 2
  buckets : Buckets m.next m.items bs
  bucket : bs[idx]? = some (kept ++ rest)
  kept : ∀ p ∈ kept, m.At (size * 2) idx p
  rest : ∀ p ∈ rest, m.At size idx p
  others : ∀ (j : Nat) (b : List NodePtr), j ≠ idx → bs[j]? = some b →
    ∀ p ∈ b, m.At (width size (idx + 1) j) j p

namespace Growing

variable {kept rest : List NodePtr} {curr : NodePtr}

/-- At the end of the chain all nodes have their place. -/
theorem placed (h : m.Growing size idx bs kept []) : m.Placed size (idx + 1) bs := by
  intro j b hb p hp
  by_cases hj : j = idx
  · subst hj
    rw [h.bucket, List.append_nil] at hb
    obtain rfl := Option.some.inj hb
    have hwidth : width size (j + 1) j = size * 2 := if_neg fun hle => Nat.not_succ_le_self j hle.1
    rw [hwidth]
    exact h.kept p hp
  · exact h.others j b hj hb p hp

/-- A node that belongs to the bucket stays. -/
theorem stay (h : m.Growing size idx bs kept (curr :: rest)) (hcurr : m.At (size * 2) idx curr) :
    m.Growing size idx bs (kept ++ [curr]) rest := by
  refine ⟨h.length, h.buckets, ?_, fun p hp => ?_, fun p hp => ?_, h.others⟩
  · rw [h.bucket, List.append_assoc]
    rfl
  · rcases List.mem_append.mp hp with hp | hp
    · exact h.kept p hp
    · rw [List.mem_singleton.mp hp]
      exact hcurr
  · exact h.rest p (List.mem_cons_of_mem curr hp)

/-- A node that belongs to the other half is moved there. -/
theorem move (h : m.Growing size idx bs kept (curr :: rest)) (hidx : idx < size)
    (hcurr : m.At (size * 2) (idx + size) curr) :
    ∃ m₁ m' bs', m.takeOut idx kept.getLast? rest.head? = some m₁ ∧
      m₁.putFront (idx + size) curr = some m' ∧ m'.Growing size idx bs' kept rest ∧ SameNodes m m' ∧
      bs'.flatten.Perm bs.flatten := by
  have hlength := h.length
  have hneq : idx ≠ idx + size := by omega
  obtain ⟨m₁, hout, hb₁, hsame₁⟩ := exists_takeOut h.buckets h.bucket fun p hp => (h.kept p hp).lt
  have hperm₁ := Buckets.perm_cons h.bucket
  have hfree : curr ∉ (bs.set idx (kept ++ rest)).flatten :=
    (List.nodup_cons.mp (hperm₁.nodup_iff.mp h.buckets.nodup)).1
  obtain ⟨b, hb⟩ : ∃ b, bs[idx + size]? = some b := ⟨_, List.getElem?_eq_getElem (by omega)⟩
  have hb' : (bs.set idx (kept ++ rest))[idx + size]? = some b := by
    rw [List.getElem?_set_ne hneq, hb]
  obtain ⟨m₂, hfront, hb₂, hsame₂⟩ := exists_putFront hb₁ hb' (hsame₁.length_eq ▸ hcurr.lt) hfree
  have hsame := hsame₁.trans hsame₂
  refine ⟨m₁, m₂, _, hout, hfront, ⟨?_, hb₂, ?_, fun p hp => (h.kept p hp).of_sameNodes hsame,
    fun p hp => (h.rest p (List.mem_cons_of_mem curr hp)).of_sameNodes hsame,
    fun j l hj hl p hp => ?_⟩, hsame, (Buckets.perm_push hb' curr).trans hperm₁.symm⟩
  · rwa [List.length_set, List.length_set]
  · rw [List.getElem?_set_ne hneq.symm, List.getElem?_set_self (by omega)]
  · rw [List.getElem?_set] at hl
    split_ifs at hl with htarget hlt
    · obtain rfl := Option.some.inj hl
      rw [← htarget]
      rcases List.mem_cons.mp hp with rfl | hp
      · have hwidth : width size (idx + 1) (idx + size) = size * 2 := if_neg (by omega)
        rw [hwidth]
        exact hcurr.of_sameNodes hsame
      · exact (h.others _ b hneq.symm hb p hp).of_sameNodes hsame
    · rw [List.getElem?_set_ne hj.symm] at hl
      exact (h.others j l hj hl p hp).of_sameNodes hsame

end Growing

/-- What the loop has to know of the masks. -/
structure Masks (size : Nat) (mask newMask : UInt32) : Prop where
  old : ∀ hash : UInt32, (hash &&& mask).toNat = hash.toNat % size
  new : ∀ hash : UInt32, (hash &&& newMask).toNat = hash.toNat % (size * 2)

/-- A node belongs to the other half exactly if the masks make a difference. -/
theorem Masks.target {mask newMask hash : UInt32} (h : Masks size mask newMask)
    (hhash : hash.toNat % size = idx) :
    (hash &&& newMask).toNat = if hash &&& mask = hash &&& newMask then idx else idx + size := by
  split_ifs with heq
  · rw [← heq, h.old, hhash]
  · have hne : hash.toNat % (size * 2) ≠ hash.toNat % size := fun hmod => heq <| by
      rw [← UInt32.toNat_inj, h.old, h.new, hmod]
    rw [h.new, (mod_double hash.toNat size).resolve_left hne, hhash]

/-- The loop over the nodes of one bucket. -/
theorem exists_growBucket {mask newMask : UInt32} {rounds : Nat} {kept rest : List NodePtr}
    (hmasks : Masks size mask newMask) (hidx : idx < size) (h : m.Growing size idx bs kept rest)
    (hrounds : rest.length ≤ rounds) :
    ∃ m' bs' kept', growBucket mask newMask idx rounds kept.getLast? rest.head? m = some m' ∧
      m'.Growing size idx bs' kept' [] ∧ SameNodes m m' ∧ bs'.flatten.Perm bs.flatten := by
  induction rest generalizing m bs kept rounds with
  | nil =>
    have hend : growBucket mask newMask idx rounds kept.getLast? none m = some m := by
      unfold growBucket
      rfl
    exact ⟨m, bs, kept, hend, h, .refl m, .refl _⟩
  | cons curr rest ih =>
    obtain ⟨rounds, rfl⟩ : ∃ r, rounds = r + 1 := Nat.exists_eq_succ_of_ne_zero (by
      rintro rfl
      exact Nat.not_succ_le_zero _ hrounds)
    have hrounds' : rest.length ≤ rounds := Nat.le_of_succ_le_succ hrounds
    obtain ⟨n, hn, hhash⟩ := h.rest curr List.mem_cons_self
    have hnext : n.next = rest.head? := by
      rw [← (h.buckets.chain idx _ h.bucket).apply_eq, next, hn]
      rfl
    have htarget := hmasks.target hhash
    have hplace : m.At (size * 2) (n.hash &&& newMask).toNat curr := ⟨n, hn, (hmasks.new _).symm⟩
    rw [List.head?_cons, growBucket, hn]
    simp only [bind, Option.bind_some]
    by_cases hstays : n.hash &&& mask = n.hash &&& newMask
    · rw [if_pos hstays] at htarget
      rw [htarget] at hplace
      obtain ⟨m', bs', kept', hgrow, hresult⟩ := ih (h.stay hplace) hrounds'
      rw [List.getLast?_concat] at hgrow
      rw [if_neg (not_not.mpr hstays), hnext]
      exact ⟨m', bs', kept', hgrow, hresult⟩
    · rw [if_neg hstays] at htarget
      rw [htarget] at hplace
      obtain ⟨m₁, m₂, bs₂, hout, hfront, hgrowing, hsame, hperm⟩ := h.move hidx hplace
      obtain ⟨m', bs', kept', hgrow, hdone, hsame', hperm'⟩ := ih hgrowing hrounds'
      rw [if_pos hstays, hnext, hout, Option.bind_some, htarget, hfront, Option.bind_some]
      exact ⟨m', bs', kept', hgrow, hdone, hsame.trans hsame', hperm'.trans hperm⟩

/-! ### All buckets -/

/-- The loop over the buckets, up to some of them. -/
theorem exists_growLoop {mask newMask : UInt32} {k : Nat} (hmasks : Masks size mask newMask)
    (hsize : bs.length = size * 2) (h : Buckets m.next m.items bs) (hplaced : m.Placed size 0 bs)
    (hk : k ≤ size) :
    ∃ m' bs', exec (growStep mask newMask) m (List.range k) = some m' ∧
      Buckets m'.next m'.items bs' ∧ SameNodes m m' ∧ bs'.flatten.Perm bs.flatten ∧
      bs'.length = size * 2 ∧ m'.Placed size k bs' := by
  induction k with
  | zero => exact ⟨m, bs, rfl, h, .refl m, .refl _, hsize, hplaced⟩
  | succ k ih =>
    obtain ⟨m₁, bs₁, hexec, hb₁, hsame₁, hperm₁, hlength₁, hplaced₁⟩ := ih (Nat.le_of_succ_le hk)
    obtain ⟨b, hb⟩ : ∃ b, bs₁[k]? = some b := ⟨_, List.getElem?_eq_getElem (by omega)⟩
    have hrest : ∀ p ∈ b, m₁.At size k p := by
      intro p hp
      have hat := hplaced₁ k b hb p hp
      rwa [width, if_pos ⟨Nat.le_refl k, hk⟩] at hat
    have hgrowing : m₁.Growing size k bs₁ [] b := by
      refine ⟨hlength₁, hb₁, hb, fun p hp => absurd hp List.not_mem_nil, hrest,
        fun j l hj hl p hp => ?_⟩
      -- only the bucket `k` changes its kind
      have hwidth : width size (k + 1) j = width size k j := by
        unfold width
        congr 1
        apply propext
        omega
      rw [hwidth]
      exact hplaced₁ j l hl p hp
    have hrounds := length_bucket_le hb₁ hb fun p hp => (hrest p hp).lt
    obtain ⟨m', bs', kept, hgrow, hdone, hsame', hperm'⟩ :=
      exists_growBucket hmasks hk hgrowing hrounds
    refine ⟨m', bs', ?_, hdone.buckets, hsame₁.trans hsame', hperm'.trans hperm₁, hdone.length,
      hdone.placed⟩
    rw [List.range_succ, exec_concat_eq_some]
    refine ⟨m₁, hexec, ?_⟩
    rw [growStep, hb₁.getElem?_items, hb]
    exact hgrow

/-- The array is copied, with an empty half behind it, and the nodes are moved. -/
theorem exists_double {mask newMask : UInt32} (hmasks : Masks size mask newMask)
    (hsize : bs.length = size) (h : Buckets m.next m.items bs)
    (hplaced : ∀ (j : Nat) (b : List NodePtr), bs[j]? = some b → ∀ p ∈ b, m.At size j p) :
    ∃ m' bs', exec (growStep mask newMask) ⟨m.items.take size ++ List.replicate size none, m.nodes⟩
        (List.range size) = some m' ∧
      Buckets m'.next m'.items bs' ∧ SameNodes m m' ∧ bs'.flatten.Perm bs.flatten ∧
      bs'.length = size * 2 ∧
      ∀ (j : Nat) (b : List NodePtr), bs'[j]? = some b → ∀ p ∈ b, m'.At (size * 2) j p := by
  have hall : m.items.take size = m.items := by
    apply List.take_of_length_le
    rw [h.length_eq, hsize]
  rw [hall]
  have hlength : (bs ++ List.replicate size []).length = size * 2 := by
    rw [List.length_append, List.length_replicate, hsize]
    omega
  have hstart : (Chains.mk (m.items ++ List.replicate size none) m.nodes).Placed size 0
      (bs ++ List.replicate size []) := by
    intro j b hb p hp
    rcases getElem?_append_replicate hb with ⟨hb', hlt⟩ | rfl
    · rw [width, if_pos ⟨Nat.zero_le j, hsize ▸ hlt⟩]
      exact hplaced j b hb' p hp
    · cases hp
  obtain ⟨m', bs', hexec, hb', hsame, hperm, hlength', hend⟩ :=
    exists_growLoop hmasks hlength (h.append_replicate size) hstart (Nat.le_refl size)
  rw [List.flatten_append, List.flatten_replicate_nil, List.append_nil] at hperm
  refine ⟨m', bs', hexec, hb', hsame, hperm, hlength', fun j b hb p hp => ?_⟩
  have hat := hend j b hb p hp
  rwa [width, if_neg fun hand => Nat.lt_irrefl _ (Nat.lt_of_lt_of_le hand.2 hand.1)] at hat

end Chains

end Schaufel
