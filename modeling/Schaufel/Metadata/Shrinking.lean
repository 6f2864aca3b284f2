import Schaufel.Metadata.Growth

/-!
# The table shrinks

When the array of buckets is halved, one bit of a hash less counts, so that the buckets `i` and
`i + size` become one.  The loop of `_htable_resize` over the upper buckets puts each of their
chains behind the last node of the lower one; it reaches them through the old array, which is freed
afterwards.

The invariant of the loop is `Shrinking`.  It looks at the buckets of both arrays: those that were
handled are empty, and the others are where the old array leads to.

## Main results

* `last_eq`: the walk to the last node of a chain.
* `exists_halve`: all buckets of a table.
-/

namespace Schaufel

namespace Chains

variable {ν : Type} {m m' : Chains ν} {bs : List (List NodePtr)} {items : List (Option NodePtr)}
  {size k : Nat} {b b' : List NodePtr}

/-! ### One bucket -/

/-- The walk along a chain ends at its last node. -/
theorem last_eq {rounds : Nat} {p d : NodePtr} (hchain : Chain m.next (p :: b))
    (hvalid : ∀ q ∈ p :: b, q < m.nodes.length) (hrounds : b.length < rounds)
    (hd : (p :: b).getLast? = some d) : m.last rounds p = some d := by
  induction b generalizing p rounds with
  | nil =>
    obtain ⟨rounds, rfl⟩ : ∃ r, rounds = r + 1 := ⟨rounds - 1, by simp at hrounds; omega⟩
    obtain rfl : p = d := by simpa using hd
    obtain ⟨n, hn⟩ : ∃ n, m.nodes[p]? = some n :=
      ⟨_, List.getElem?_eq_getElem (hvalid p List.mem_cons_self)⟩
    have hnext : n.next = none := by
      have hnone := hchain.1
      rwa [next, hn] at hnone
    rw [last, hn, Option.bind_some, hnext]
  | cons q b ih =>
    obtain ⟨rounds, rfl⟩ : ∃ r, rounds = r + 1 := ⟨rounds - 1, by simp at hrounds; omega⟩
    obtain ⟨n, hn⟩ : ∃ n, m.nodes[p]? = some n :=
      ⟨_, List.getElem?_eq_getElem (hvalid p List.mem_cons_self)⟩
    have hnext : n.next = some q := by
      have hsome := hchain.1
      rwa [next, hn] at hsome
    rw [last, hn, Option.bind_some, hnext]
    rw [List.getLast?_cons_cons] at hd
    exact ih hchain.2 (fun r hr => hvalid r (List.mem_cons_of_mem p hr))
      (Nat.lt_of_succ_lt_succ hrounds) hd

/-- One round of the loop puts the chain of the upper bucket behind that of the lower one. -/
theorem exists_shrinkStep (hupper : items[size + k]? = some b'.head?)
    (hlower : m.items[k]? = some b.head?) (hchain : Chain m.next b) (hnodup : b.Nodup)
    (hvalid : ∀ p ∈ b, p < m.nodes.length) :
    ∃ m', shrinkStep items size m (size + k) = some m' ∧ m'.items = m.items.set k (b ++ b').head? ∧
      m'.next = Buckets.mergedNext m.next b b' ∧ SameNodes m m' := by
  have hlt : k < m.items.length := (List.getElem?_eq_some_iff.mp hlower).1
  have hsub : size + k - size = k := Nat.add_sub_cancel_left size k
  simp only [shrinkStep, hupper, hsub, hlower, bind, Option.bind_some]
  cases b' with
  | nil =>
    refine ⟨m, rfl, ?_, ?_, .refl m⟩
    · rw [List.append_nil, set_eq_self hlower]
    · unfold Buckets.mergedNext
      cases hlast : b.getLast? with
      | none => rfl
      | some d =>
        obtain ⟨ys, rfl⟩ := List.getLast?_eq_some_iff.mp hlast
        exact (Function.update_eq_self_iff.mpr hchain.apply_eq.symm).symm
  | cons first b' =>
    cases b with
    | nil => exact ⟨_, exists_setItem hlt _, rfl, rfl, .refl m⟩
    | cons curr b =>
      obtain ⟨d, hd⟩ : ∃ d, (curr :: b).getLast? = some d :=
        ⟨_, List.getLast?_eq_some_getLast (by simp)⟩
      have hrounds : b.length < m.nodes.length := by
        have hsub : curr :: b ⊆ List.range m.nodes.length :=
          fun p hp => List.mem_range.mpr (hvalid p hp)
        have hle := (List.Nodup.subperm hnodup hsub).length_le
        rwa [List.length_range] at hle
      obtain ⟨m', hset, hitems, hnext, hsame⟩ :=
        exists_setNext (hvalid d (List.mem_of_getLast? hd)) (some first)
      have hlast := last_eq hchain hvalid hrounds hd
      simp only [List.head?_cons, hlast, Option.bind_some]
      refine ⟨m', hset, ?_, ?_, hsame⟩
      · rw [hitems]
        exact (set_eq_self hlower).symm
      · rw [hnext, Buckets.mergedNext, hd]
        rfl

/-! ### All buckets -/

/-- One bit less leads to the lower one of two buckets. -/
theorem At.half {j : Nat} {p : NodePtr} (h : m.At (size * 2) j p) : m.At size (j % size) p := by
  obtain ⟨n, hn, rfl⟩ := h
  exact ⟨n, hn, (Nat.mod_mod_of_dvd _ (Nat.dvd_mul_right size 2)).symm⟩

/-- The loop over the upper buckets when `k` of them were handled: `bs` has the chains of the new
array and behind them those of the upper half of the old array `items`. -/
structure Shrinking (m : Chains ν) (items : List (Option NodePtr)) (size k : Nat)
    (bs : List (List NodePtr)) : Prop where
  length : bs.length = size * 2
  buckets : Buckets m.next (bs.map List.head?) bs
  lower : m.items = (bs.take size).map List.head?
  /-- The other chains of the upper half are where the old array leads to. -/
  upper : ∀ j, size + k ≤ j → items[j]? = bs[j]?.map List.head?
  handled : ∀ j, size ≤ j → j < size + k → bs[j]? = some []
  placed : ∀ (j : Nat) (b : List NodePtr), bs[j]? = some b → ∀ p ∈ b, m.At size (j % size) p

/-- One round of the loop. -/
theorem Shrinking.step (h : m.Shrinking items size k bs) (hk : k < size) :
    ∃ m' bs', shrinkStep items size m (size + k) = some m' ∧ m'.Shrinking items size (k + 1) bs' ∧
      SameNodes m m' ∧ bs'.flatten.Perm bs.flatten := by
  have hlength := h.length
  have hne : k ≠ size + k := by omega
  obtain ⟨b, hb⟩ : ∃ b, bs[k]? = some b := ⟨_, List.getElem?_eq_getElem (by omega)⟩
  obtain ⟨b', hb'⟩ : ∃ b', bs[size + k]? = some b' := ⟨_, List.getElem?_eq_getElem (by omega)⟩
  have hupper : items[size + k]? = some b'.head? := by
    rw [h.upper _ (Nat.le_refl _), hb']
    rfl
  have hlower : m.items[k]? = some b.head? := by
    rw [h.lower, List.getElem?_map, List.getElem?_take, if_pos hk, hb]
    rfl
  obtain ⟨m', hstep, hitems, hnext, hsame⟩ :=
    exists_shrinkStep hupper hlower (h.buckets.chain k b hb)
    ((List.nodup_flatten.mp h.buckets.nodup).1 b (List.mem_of_getElem? hb))
    fun p hp => (h.placed k b hb p hp).lt
  have hmerge := h.buckets.merge hb hb' hne
  -- the two buckets that have changed, and the other ones
  have hcases : ∀ j l, ((bs.set (size + k) []).set k (b ++ b'))[j]? = some l →
      j = k ∧ l = b ++ b' ∨ j = size + k ∧ l = [] ∨ j ≠ k ∧ j ≠ size + k ∧ bs[j]? = some l := by
    intro j l hl
    rw [List.getElem?_set, List.getElem?_set] at hl
    split_ifs at hl with hj hlt hj'
    · exact .inl ⟨hj.symm, (Option.some.inj hl).symm⟩
    · exact .inr (.inl ⟨hj'.symm, (Option.some.inj hl).symm⟩)
    · exact .inr (.inr ⟨Ne.symm hj, Ne.symm hj', hl⟩)
  refine ⟨m', _, hstep, ⟨?_, ?_, ?_, fun j hj => ?_, fun j hj hj' => ?_, fun j l hl p hp => ?_⟩,
    hsame, Buckets.perm_merge hb hb' hne⟩
  · rw [List.length_set, List.length_set, h.length]
  · rw [hnext, ← hmerge.items_eq]
    exact hmerge
  · have hout : (bs.take size).length ≤ size + k := by
      rw [List.length_take]
      omega
    rw [hitems, h.lower, List.take_set, List.take_set, List.set_eq_of_length_le hout, List.map_set]
  · rw [List.getElem?_set_ne (by omega), List.getElem?_set_ne (by omega)]
    exact h.upper j (by omega)
  · rw [List.getElem?_set_ne (by omega)]
    by_cases heq : j = size + k
    · rw [heq, List.getElem?_set_self (by omega)]
    · rw [List.getElem?_set_ne (Ne.symm heq)]
      exact h.handled j hj (by omega)
  · rcases hcases j l hl with ⟨rfl, rfl⟩ | ⟨rfl, rfl⟩ | ⟨-, -, hl⟩
    · rcases List.mem_append.mp hp with hp | hp
      · exact (h.placed j b hb p hp).of_sameNodes hsame
      · have hat := h.placed (size + j) b' hb' p hp
        rw [Nat.add_mod_left] at hat
        exact hat.of_sameNodes hsame
    · cases hp
    · exact (h.placed j l hl p hp).of_sameNodes hsame

/-- The loop over the upper buckets, up to some of them. -/
theorem exists_shrinkLoop (h : m.Shrinking items size 0 bs) (hk : k ≤ size) :
    ∃ m' bs', exec (shrinkStep items size) m (List.range' size k) = some m' ∧
      m'.Shrinking items size k bs' ∧ SameNodes m m' ∧ bs'.flatten.Perm bs.flatten := by
  induction k with
  | zero => exact ⟨m, bs, rfl, h, .refl m, .refl _⟩
  | succ k ih =>
    obtain ⟨m₁, bs₁, hexec, hshrinking, hsame, hperm⟩ := ih (Nat.le_of_succ_le hk)
    obtain ⟨m', bs', hstep, hdone, hsame', hperm'⟩ := hshrinking.step hk
    refine ⟨m', bs', ?_, hdone, hsame.trans hsame', hperm'.trans hperm⟩
    rw [List.range'_1_concat, exec_concat_eq_some]
    exact ⟨m₁, hexec, hstep⟩

/-- The lower half of the array is copied, and the chains of the upper half are put behind those of
it. -/
theorem exists_halve (hsize : bs.length = size * 2) (h : Buckets m.next m.items bs)
    (hplaced : ∀ (j : Nat) (b : List NodePtr), bs[j]? = some b → ∀ p ∈ b, m.At (size * 2) j p) :
    ∃ m' bs', exec (shrinkStep m.items size) ⟨m.items.take size, m.nodes⟩ (List.range' size size) =
      some m' ∧
      Buckets m'.next m'.items bs' ∧ SameNodes m m' ∧ bs'.flatten.Perm bs.flatten ∧
      bs'.length = size ∧
      ∀ (j : Nat) (b : List NodePtr), bs'[j]? = some b → ∀ p ∈ b, m'.At size j p := by
  have hstart : (Chains.mk (m.items.take size) m.nodes).Shrinking m.items size 0 bs := by
    refine ⟨hsize, ?_, ?_, fun j _ => h.getElem?_items j, fun j hj hj' => ?_, fun j b hb p hp => ?_⟩
    · rw [← h.items_eq]
      exact h
    · rw [h.items_eq, List.map_take]
    · omega
    · exact (hplaced j b hb p hp).half
  obtain ⟨m', bs', hexec, hend, hsame, hperm⟩ := exists_shrinkLoop hstart (Nat.le_refl size)
  -- nothing is left in the upper half
  have hupper : (bs'.drop size).flatten = [] := by
    rw [List.flatten_eq_nil_iff]
    intro b hb
    obtain ⟨j, hj⟩ := List.mem_iff_getElem?.mp hb
    rw [List.getElem?_drop] at hj
    have hlt := (List.getElem?_eq_some_iff.mp hj).1
    rw [hend.length] at hlt
    rw [hend.handled (size + j) (Nat.le_add_right _ _) (by omega)] at hj
    exact (Option.some.inj hj).symm
  have hflatten : (bs'.take size).flatten = bs'.flatten := by
    have hsplit := congrArg List.flatten (List.take_append_drop size bs')
    rwa [List.flatten_append, hupper, List.append_nil] at hsplit
  have hbucket : ∀ j b, (bs'.take size)[j]? = some b → j < size ∧ bs'[j]? = some b := by
    intro j b hb
    rw [List.getElem?_take] at hb
    split_ifs at hb with hlt
    exact ⟨hlt, hb⟩
  refine ⟨m', bs'.take size, hexec, ⟨hend.lower, fun j b hb => ?_, ?_⟩, hsame, ?_, ?_,
    fun j b hb p hp => ?_⟩
  · exact hend.buckets.chain j b (hbucket j b hb).2
  · rw [hflatten]
    exact hend.buckets.nodup
  · rw [hflatten]
    exact hperm
  · rw [List.length_take, hend.length]
    omega
  · obtain ⟨hlt, hb⟩ := hbucket j b hb
    have hat := hend.placed j b hb p hp
    rwa [Nat.mod_eq_of_lt hlt] at hat

end Chains

end Schaufel
