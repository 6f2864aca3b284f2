import Schaufel.Metadata.Lookup

/-!
# Tables from which nodes are deleted

`htable_delete` takes a node out of its chain, passes it to `bnffunc` and frees it, and the array of
buckets is halved when few nodes are left.  A node that was freed stays in the list of nodes, but
memory that was freed holds anything: the caller of `htableDelete` chooses what is found there
afterwards.  What is proved for every such choice does not depend on memory that was freed.
-/

namespace Schaufel

variable {ν κ : Type}

namespace Chains

/-- The loop of `htable_delete`: the first node of a kind, and the one before it. -/
def searchPrev (m : Chains ν) (found : ν → Bool) :
    Nat → Option NodePtr → Option NodePtr → Option (Option (Option NodePtr × NodePtr))
  | _, _, none => some none
  | 0, _, some _ => none
  | rounds + 1, prev, some p =>
    m.nodes[p]?.bind fun n =>
      if found n.content then some (some (prev, p)) else m.searchPrev found rounds (some p) n.next

/-- `freefunc` of a node; afterwards there is `junk` at its address. -/
def free (m : Chains ν) (junk : HTableNode ν) (p : NodePtr) : Chains ν :=
  { m with nodes := m.nodes.set p junk }

variable {m : Chains ν}

/-- The walk of `htable_delete` ends at the first node of a kind, with the node before it. -/
theorem searchPrev_cases (found : ν → Bool) (kept : List NodePtr) {rounds : Nat} {b : List NodePtr}
    (hchain : Chain m.next b) (hvalid : ∀ p ∈ b, p < m.nodes.length) (hrounds : b.length ≤ rounds) :
    (m.searchPrev found rounds kept.getLast? b.head? = some none ∧
      ∀ p ∈ b, ∀ c, m.content? p = some c → found c = false) ∨
    ∃ pre p rest n, b = pre ++ p :: rest ∧ m.nodes[p]? = some n ∧ found n.content = true ∧
      m.searchPrev found rounds kept.getLast? b.head? =
        some (some ((kept ++ pre).getLast?, p)) := by
  induction b generalizing rounds kept with
  | nil =>
    refine .inl ⟨?_, fun p hp => by cases hp⟩
    unfold searchPrev
    rfl
  | cons q b ih =>
    obtain ⟨rounds, rfl⟩ : ∃ r, rounds = r + 1 := ⟨rounds - 1, by simp at hrounds; omega⟩
    obtain ⟨n, hn⟩ : ∃ n, m.nodes[q]? = some n :=
      ⟨_, List.getElem?_eq_getElem (hvalid q List.mem_cons_self)⟩
    have hnext : n.next = b.head? := by
      rw [← hchain.1, next, hn]
      rfl
    have hwalk : m.searchPrev found (rounds + 1) kept.getLast? (q :: b).head? =
        if found n.content then some (some (kept.getLast?, q))
        else m.searchPrev found rounds (some q) b.head? := by
      rw [List.head?_cons, searchPrev, hn, Option.bind_some, hnext]
    rw [hwalk]
    by_cases hfound : found n.content = true
    · refine .inr ⟨[], q, b, n, rfl, hn, hfound, ?_⟩
      rw [if_pos hfound, List.append_nil]
    · have hrest := ih (kept ++ [q]) hchain.2 (fun p hp => hvalid p (List.mem_cons_of_mem q hp))
        (Nat.le_of_succ_le_succ hrounds)
      rw [List.getLast?_concat] at hrest
      rw [if_neg hfound]
      rcases hrest with ⟨hnone, hall⟩ | ⟨pre, p, rest, n', rfl, hn', hfound', hsome⟩
      · refine .inl ⟨hnone, fun p hp c hc => ?_⟩
        rcases List.mem_cons.mp hp with rfl | hp
        · rw [content?, hn, Option.map_some, Option.some_inj] at hc
          rw [← hc]
          exact Bool.eq_false_iff.mpr hfound
        · exact hall p hp c hc
      · refine .inr ⟨q :: pre, p, rest, n', rfl, hn', hfound', ?_⟩
        rw [hsome, List.append_assoc]
        rfl

end Chains

namespace HTable

section Functions

variable (hfunc : ν → Option UInt32) (eqfunc : ν → ν → Bool)

/-- `htable_delete`; the pointer is that of the node that was freed, and there is none if the result
is false. -/
def htableDelete (tbl : HTable ν) (query : ν) (junk : HTableNode ν) :
    Option (HTable ν × Option NodePtr) := do
  let hash ← hfunc query
  let idx := (hash &&& tbl.mask).toNat
  let head ← tbl.items[idx]?
  match ← tbl.searchPrev (fun item => eqfunc item query) tbl.nodes.length none head with
  | none => some (tbl, none)
  | some (prev, item) =>
    let n ← tbl.nodes[item]?
    let m ← tbl.takeOut idx prev n.next
    let tbl := { tbl with
      toChains := m.free junk item
      nitems := tbl.nitems - 1
      dropped := tbl.dropped ++ [n.content] }
    (htableResize tbl).map fun tbl => (tbl, some item)

end Functions

variable {hfunc : ν → Option UInt32} {eqfunc : ν → ν → Bool} {key : ν → κ} {tbl tbl' : HTable ν}
  {freed freed' : List NodePtr} {bs bs' : List (List NodePtr)} {f : κ → Option ν}

namespace Live

/-- A node is taken out of its bucket and freed. -/
theorem remove [DecidableEq κ] (h : tbl.Live hfunc key freed bs f) {idx : Nat}
    {kept rest : List NodePtr} {p : NodePtr} (hb : bs[idx]? = some (kept ++ p :: rest))
    {n : HTableNode ν} (hn : tbl.nodes[p]? = some n) {m : Chains ν}
    (hm : Buckets m.next m.items (bs.set idx (kept ++ rest))) (hsame : tbl.SameNodes m)
    (junk : HTableNode ν) :
    Live hfunc key { tbl with
        toChains := m.free junk p
        nitems := tbl.nitems - 1
        dropped := tbl.dropped ++ [n.content] } (freed ++ [p]) (bs.set idx (kept ++ rest))
      (Function.update f (key n.content) none) := by
  have hperm := Buckets.perm_cons hb
  have hfree : p ∉ (bs.set idx (kept ++ rest)).flatten :=
    (List.nodup_cons.mp (hperm.nodup_iff.mp h.buckets.nodup)).1
  have hsub : ∀ {q}, q ∈ (bs.set idx (kept ++ rest)).flatten → q ∈ bs.flatten := fun hq =>
    hperm.mem_iff.mpr (List.mem_cons_of_mem p hq)
  -- the nodes that are left are not the one whose memory has changed
  have hother : ∀ {q}, q ∈ (bs.set idx (kept ++ rest)).flatten →
      (m.free junk p).nodes[q]? = m.nodes[q]? := by
    intro q hq
    have hne : p ≠ q := by
      rintro rfl
      exact hfree hq
    exact List.getElem?_set_ne hne
  have hnode : ∀ {q}, q ∈ (bs.set idx (kept ++ rest)).flatten →
      (m.free junk p).nodes[q]?.map (fun n => (n.hash, n.content)) =
        tbl.nodes[q]?.map fun n => (n.hash, n.content) := by
    intro q hq
    rw [hother hq]
    exact hsame.getElem? q
  have hcontent : tbl.content? p = some n.content := by
    rw [Chains.content?, hn]
    rfl
  refine ⟨hm.congr fun q hq => ?_, ?_, ?_, fun j l hl q hq => ?_, fun q hq n' hn' => ?_, ?_, ?_,
    h.pow, h.mask⟩
  · show (m.free junk p).next q = m.next q
    rw [Chains.next, hother hq]
    rfl
  · rw [List.length_set]
    exact h.length
  · have hlength : (m.free junk p).nodes.length = tbl.nodes.length := by
      rw [Chains.free, List.length_set]
      exact hsame.length_eq
    show List.Perm _ (List.range (m.free junk p).nodes.length)
    rw [hlength, ← List.append_assoc]
    refine (List.perm_append_singleton _ _).trans ((hperm.symm.append_right freed).trans h.perm)
  · have hmem := mem_flatten_of_getElem? hl hq
    have hhash := congrArg (Option.map Prod.fst) (hnode hmem)
    rw [Option.map_map, Option.map_map] at hhash
    show (m.free junk p).At tbl.size j q
    refine Chains.At.congr ?_ hhash
    rw [List.getElem?_set] at hl
    split_ifs at hl with hj hlt
    · obtain rfl := Option.some.inj hl
      have hq' : q ∈ kept ++ p :: rest := by
        rcases List.mem_append.mp hq with hq | hq
        · exact List.mem_append_left _ hq
        · exact List.mem_append_right _ (List.mem_cons_of_mem p hq)
      exact hj ▸ h.placed idx _ hb q hq'
    · exact h.placed j l hl q hq
  · have hsome := hnode hq
    have hfreed : (m.free junk p).nodes[q]? = some n' := hn'
    rw [hfreed, Option.map_some] at hsome
    obtain ⟨n₀, hn₀, heq⟩ := Option.map_eq_some_iff.mp hsome.symm
    obtain ⟨hhash, hcontent'⟩ := Prod.mk.inj heq
    rw [← hhash, ← hcontent']
    exact h.hash q (hsub hq) n₀ hn₀
  · have hrest : (m.free junk p).entries (bs.set idx (kept ++ rest)) =
        (bs.set idx (kept ++ rest)).flatten.filterMap tbl.content? := by
      refine List.filterMap_congr fun q hq => ?_
      have hsnd := congrArg (Option.map Prod.snd) (hnode hq)
      rwa [Option.map_map, Option.map_map] at hsnd
    show KeyedEntries key _ ((m.free junk p).entries _)
    rw [hrest]
    exact (h.entries.perm (Chains.entries_perm_cons hperm hcontent)).tail
  · have hcount := hperm.length_eq
    show tbl.nitems - 1 = _
    rw [h.nitems, hcount]
    rfl

/-- `htable_delete` removes what is under the key, whatever the freed node is overwritten with. -/
theorem exists_htableDelete [DecidableEq κ] (hkeyed : Keyed hfunc eqfunc key)
    (h : tbl.Live hfunc key freed bs f) (hfit : tbl.Fitting) {query : ν} {hash : UInt32}
    (hhash : hfunc query = some hash) (junk : HTableNode ν) :
    ∃ tbl' r bs', tbl.htableDelete hfunc eqfunc query junk = some (tbl', r) ∧
      r.isSome = (f (key query)).isSome ∧
      tbl'.Live hfunc key (freed ++ r.toList) bs' (Function.update f (key query) none) ∧
      tbl'.Fitting ∧
      tbl'.dropped = tbl.dropped ++ (f (key query)).toList := by
  obtain ⟨b, hb, hhead⟩ := h.exists_bucket hash
  have hvalid := h.bucket_lt hb
  have hrounds := Chains.length_bucket_le h.buckets hb hvalid
  simp only [htableDelete, hhash, hhead, bind, Option.bind_some]
  rcases Chains.searchPrev_cases (fun item => eqfunc item query) []
      (h.buckets.chain _ b hb) hvalid hrounds with
    ⟨hsearch, hall⟩ | ⟨pre, p, rest, n, rfl, hn, hfound, hsearch⟩
  · have hnone := h.eq_none hkeyed hhash hb hall
    rw [List.getLast?_nil] at hsearch
    simp only [hsearch, Option.bind_some]
    refine ⟨tbl, none, bs, rfl, by rw [hnone]; rfl, ?_, hfit, by rw [hnone]; simp⟩
    have hsame : Function.update f (key query) none = f :=
      Function.update_eq_self_iff.mpr hnone.symm
    rw [Option.toList_none, List.append_nil, hsame]
    exact h
  · have hp := mem_flatten_of_getElem? hb (List.mem_append_right pre List.mem_cons_self)
    have hkey := (hkeyed.eq_iff _ _).mp hfound
    have hf : f (key query) = some n.content := hkey ▸ h.eq_some hp hn
    have hnext : n.next = rest.head? := by
      rw [← (h.buckets.chain _ _ hb).apply_eq, Chains.next, hn]
      rfl
    obtain ⟨m, hout, hbuckets, hsame⟩ := Chains.exists_takeOut h.buckets hb
      fun q hq => hvalid q (List.mem_append_left _ hq)
    have hlive := h.remove hb hn hbuckets hsame junk
    have hcount : 0 < tbl.nitems := by
      rw [h.nitems]
      exact List.length_pos_of_mem hp
    obtain ⟨tbl', bs', hresize, hlive', hfit', hdropped⟩ := hlive.exists_htableResize
      (by have hle := hfit.le; show tbl.nitems - 1 ≤ tbl.size + 1; omega)
      (hfit.large.imp id fun hlt => by show tbl.size / 2 ≤ tbl.nitems - 1; omega)
    rw [List.getLast?_nil, List.nil_append] at hsearch
    rw [← h.toNat_and_mask, ← hnext] at hout
    simp only [hsearch, Option.bind_some, hn, hout, hresize, Option.map_some]
    refine ⟨tbl', some p, bs', rfl, by rw [hf]; rfl, ?_, hfit', ?_⟩
    · rw [← hkey]
      exact hlive'
    · rw [hdropped, hf]
      rfl

/-- What is deleted is dropped, and the other contents stay. -/
theorem perm_delete [DecidableEq κ] (h : tbl.Live hfunc key freed bs f) {k : κ}
    (h' : tbl'.Live hfunc key freed' bs' (Function.update f k none))
    (hdropped : tbl'.dropped = tbl.dropped ++ (f k).toList) :
    (tbl'.entries bs' ++ tbl'.dropped).Perm (tbl.entries bs ++ tbl.dropped) := by
  rw [hdropped]
  exact perm_append_moved (h.entries.perm_delete h'.entries) tbl.dropped

end Live

end HTable

end Schaufel
