import Schaufel.Metadata.Deletion
import Schaufel.Metadata.FiniteMap

/-!
# The life of a table

A table is created, nodes are added to it, deleted from it and looked up in it, and at the end
`htable_free_items` frees the nodes that are left.  Seen from outside it is a finite map:
`MapSession` gives the answers that the calls should have.

`htableFreeItems` knows which nodes were freed.  It has no result if it reads one of them or frees
one again.

## Main results

* `table_refines_map`: in whatever order the functions are called, and whatever the memory of
  deleted nodes is used for, the calls have the answers of a finite map, and in the end every node
  was freed once and every content was passed to `bnffunc` once.
* `MetadataTable.values_freed_once`: every value that was given to metadata is freed once when they
  are freed.
-/

namespace Schaufel

variable {ν κ : Type}

/-! ### Freeing a table -/

/-- The nodes that were freed, and the contents that were passed to `bnffunc`. -/
structure Teardown (ν : Type) where
  freed : List NodePtr
  dropped : List ν
  deriving DecidableEq, Repr

namespace Chains

/-- The loop of `htable_free_items` along a chain: the pointer to the next node is read first. -/
def freeChain (m : Chains ν) : Nat → Option NodePtr → Teardown ν → Option (Teardown ν)
  | _, none, t => some t
  | 0, some _, _ => none
  | rounds + 1, some p, t =>
    if p ∈ t.freed then none
    else m.nodes[p]?.bind fun n =>
      m.freeChain rounds n.next ⟨t.freed ++ [p], t.dropped ++ [n.content]⟩

/-- The nodes of a chain are freed one after the other. -/
theorem freeChain_eq {m : Chains ν} {rounds : Nat} {b : List NodePtr} (hchain : Chain m.next b)
    (hvalid : ∀ p ∈ b, p < m.nodes.length) (hrounds : b.length ≤ rounds) (t : Teardown ν)
    (hnodup : (t.freed ++ b).Nodup) :
    m.freeChain rounds b.head? t = some ⟨t.freed ++ b, t.dropped ++ b.filterMap m.content?⟩ := by
  induction b generalizing rounds t with
  | nil =>
    unfold freeChain
    simp
  | cons p b ih =>
    obtain ⟨rounds, rfl⟩ : ∃ r, rounds = r + 1 := ⟨rounds - 1, by simp at hrounds; omega⟩
    obtain ⟨n, hn⟩ : ∃ n, m.nodes[p]? = some n :=
      ⟨_, List.getElem?_eq_getElem (hvalid p List.mem_cons_self)⟩
    have hnext : n.next = b.head? := by
      rw [← hchain.1, next, hn]
      rfl
    have hcontent : m.content? p = some n.content := by
      rw [content?, hn]
      rfl
    have hfree : p ∉ t.freed := fun hmem =>
      (List.nodup_append.mp hnodup).2.2 p hmem p List.mem_cons_self rfl
    rw [List.append_cons] at hnodup
    rw [List.head?_cons, freeChain, if_neg hfree, hn, Option.bind_some, hnext,
      ih hchain.2 (fun q hq => hvalid q (List.mem_cons_of_mem p hq))
        (Nat.le_of_succ_le_succ hrounds)
        ⟨t.freed ++ [p], t.dropped ++ [n.content]⟩ hnodup,
      List.filterMap_cons_some hcontent]
    simp

end Chains

namespace HTable

/-- One round of the loop of `htable_free_items` over the buckets. -/
def freeBucket (tbl : HTable ν) (t : Teardown ν) (idx : Nat) : Option (Teardown ν) :=
  tbl.items[idx]?.bind fun head => tbl.freeChain tbl.nodes.length head t

/-- `htable_free_items`, when some nodes were freed before. -/
def htableFreeItems (tbl : HTable ν) (freed : List NodePtr) : Option (Teardown ν) :=
  exec tbl.freeBucket ⟨freed, tbl.dropped⟩ (List.range tbl.size)

variable {hfunc : ν → Option UInt32} {eqfunc : ν → ν → Bool} {key : ν → κ} {tbl : HTable ν}
  {freed : List NodePtr} {bs : List (List NodePtr)} {f : κ → Option ν}

/-- The loop over the buckets, up to some of them. -/
theorem Live.exec_freeBucket (h : tbl.Live hfunc key freed bs f) {k : Nat} (hk : k ≤ tbl.size) :
    exec tbl.freeBucket ⟨freed, tbl.dropped⟩ (List.range k) =
      some ⟨freed ++ (bs.take k).flatten,
        tbl.dropped ++ (bs.take k).flatten.filterMap tbl.content?⟩ := by
  induction k with
  | zero => simp
  | succ k ih =>
    have hlt : k < bs.length := by
      rw [h.length]
      exact hk
    obtain ⟨b, hb⟩ : ∃ b, bs[k]? = some b := ⟨_, List.getElem?_eq_getElem hlt⟩
    have htake : bs.take (k + 1) = bs.take k ++ [b] := by
      rw [List.take_add_one, hb]
      rfl
    -- the nodes up to this bucket are different ones, and none of them was freed before
    have hnodup : (freed ++ (bs.take k).flatten ++ b).Nodup := by
      have hall : (freed ++ bs.flatten).Nodup :=
        (List.perm_append_comm.trans h.perm).nodup_iff.mpr List.nodup_range
      rw [← List.take_append_drop (k + 1) bs, List.flatten_append, htake, List.flatten_append,
        ← List.append_assoc, ← List.append_assoc] at hall
      simpa using (List.nodup_append.mp hall).1
    have hvalid := h.bucket_lt hb
    have hwalk := Chains.freeChain_eq (h.buckets.chain k b hb) hvalid
      (Chains.length_bucket_le h.buckets hb hvalid)
      ⟨freed ++ (bs.take k).flatten, tbl.dropped ++ (bs.take k).flatten.filterMap tbl.content?⟩
        hnodup
    rw [List.range_succ, exec_concat_eq_some]
    refine ⟨_, ih (Nat.le_of_succ_le hk), ?_⟩
    rw [freeBucket, h.buckets.getElem?_items, hb, Option.map_some, Option.bind_some, hwalk, htake]
    simp

/-- `htable_free_items` frees the nodes that are in a bucket. -/
theorem Live.htableFreeItems_eq (h : tbl.Live hfunc key freed bs f) :
    tbl.htableFreeItems freed = some ⟨freed ++ bs.flatten, tbl.dropped ++ tbl.entries bs⟩ := by
  have hall : bs.take tbl.size = bs := List.take_of_length_le (Nat.le_of_eq h.length)
  rw [htableFreeItems, h.exec_freeBucket (Nat.le_refl _), hall]
  rfl

end HTable

/-! ### Sessions -/

/-- A call of a function of the table; `junk` is what the memory of a deleted node has in it
afterwards. -/
inductive TableCall (ν : Type) where
  | insert (content : ν)
  | delete (query : ν) (junk : HTableNode ν)
  | find (query : ν)
  deriving DecidableEq, Repr

/-- What a call returns; of a node, what it has in it. -/
inductive TableAnswer (ν : Type) where
  | inserted (isNew : Bool)
  | deleted (result : Bool)
  | found (content : Option ν)
  deriving DecidableEq, Repr

/-- The node that is passed to the function, the hash of which is computed first. -/
def TableCall.node : TableCall ν → ν
  | .insert content => content
  | .delete query _ => query
  | .find query => query

/-- What is handed over to the table by a call. -/
def TableCall.content? : TableCall ν → Option ν
  | .insert content => some content
  | .delete _ _ => none
  | .find _ => none

/-- A table in use: the nodes that were freed, and the answers up to now. -/
structure TableSession (ν : Type) where
  tbl : HTable ν
  freed : List NodePtr
  answers : List (TableAnswer ν)
  deriving DecidableEq, Repr

namespace TableSession

/-- `htable_create`. -/
def init : TableSession ν := ⟨HTable.htableCreate, [], []⟩

/-- One call. -/
def step (hfunc : ν → Option UInt32) (eqfunc : ν → ν → Bool) (s : TableSession ν) :
    TableCall ν → Option (TableSession ν)
  | .insert content =>
    (s.tbl.htableInsert hfunc eqfunc content).map fun (tbl, isNew) =>
      ⟨tbl, s.freed, s.answers ++ [.inserted isNew]⟩
  | .delete query junk =>
    (s.tbl.htableDelete hfunc eqfunc query junk).map fun (tbl, node) =>
      ⟨tbl, s.freed ++ node.toList, s.answers ++ [.deleted node.isSome]⟩
  | .find query =>
    (s.tbl.htableFind hfunc eqfunc query).bind fun
      | none => some { s with answers := s.answers ++ [.found none] }
      | some p => (s.tbl.content? p).map fun content =>
          { s with answers := s.answers ++ [.found (some content)] }

end TableSession

/-- A finite map in use. -/
structure MapSession (κ ν : Type) where
  map : κ → Option ν
  answers : List (TableAnswer ν)

namespace MapSession

def init : MapSession κ ν := ⟨fun _ => none, []⟩

/-- What a call should do. -/
def step [DecidableEq κ] (key : ν → κ) (s : MapSession κ ν) : TableCall ν → MapSession κ ν
  | .insert content =>
    ⟨Function.update s.map (key content) (some content),
      s.answers ++ [.inserted (s.map (key content)).isNone]⟩
  | .delete query _ =>
    ⟨Function.update s.map (key query) none, s.answers ++ [.deleted (s.map (key query)).isSome]⟩
  | .find query => ⟨s.map, s.answers ++ [.found (s.map (key query))]⟩

end MapSession

/-- A table in use and the map it stands for, after some contents were handed over. -/
structure Simulates (hfunc : ν → Option UInt32) (key : ν → κ) (s : TableSession ν)
    (a : MapSession κ ν) (given : List ν) (bs : List (List NodePtr)) : Prop where
  live : s.tbl.Live hfunc key s.freed bs a.map
  fitting : s.tbl.Fitting
  answers : s.answers = a.answers
  owned : (s.tbl.entries bs ++ s.tbl.dropped).Perm given

section Refinement

variable {hfunc : ν → Option UInt32} {eqfunc : ν → ν → Bool} {key : ν → κ} {s : TableSession ν}
  {a : MapSession κ ν} {given : List ν} {bs : List (List NodePtr)}

theorem simulates_init :
    Simulates hfunc key (.init : TableSession ν) .init [] (List.replicate HTable.minSize []) := by
  exact ⟨HTable.live_htableCreate, HTable.fitting_htableCreate, rfl, .refl _⟩

variable [DecidableEq κ]

/-- One call does to the table what it should do to the map. -/
theorem Simulates.step (hkeyed : HTable.Keyed hfunc eqfunc key)
    (h : Simulates hfunc key s a given bs) (call : TableCall ν)
    (hhash : (hfunc call.node).isSome = true) :
    ∃ s' bs', s.step hfunc eqfunc call = some s' ∧
      Simulates hfunc key s' (a.step key call) (given ++ call.content?.toList) bs' := by
  obtain ⟨hash, hhash⟩ := Option.isSome_iff_exists.mp hhash
  cases call with
  | insert content =>
    have hhash : hfunc content = some hash := hhash
    obtain ⟨tbl', bs', hinsert, hlive, hfit, hdropped⟩ :=
      h.live.exists_htableInsert hkeyed h.fitting hhash
    refine ⟨_, bs', congrArg (Option.map _) hinsert, ⟨hlive, hfit, ?_, ?_⟩⟩
    · rw [h.answers]
      rfl
    · show (tbl'.entries bs' ++ tbl'.dropped).Perm _
      refine (h.live.perm_insert hlive hdropped).trans ((h.owned.cons content).trans ?_)
      exact (List.perm_append_singleton content given).symm
  | delete query junk =>
    have hhash : hfunc query = some hash := hhash
    obtain ⟨tbl', node, bs', hdelete, hnode, hlive, hfit, hdropped⟩ :=
      h.live.exists_htableDelete hkeyed h.fitting hhash junk
    refine ⟨_, bs', congrArg (Option.map _) hdelete, ⟨hlive, hfit, ?_, ?_⟩⟩
    · rw [h.answers]
      exact congrArg (fun b => a.answers ++ [.deleted b]) hnode
    · show (tbl'.entries bs' ++ tbl'.dropped).Perm _
      simpa [TableCall.content?] using (h.live.perm_delete hlive hdropped).trans h.owned
  | find query =>
    have hhash : hfunc query = some hash := hhash
    obtain ⟨r, hfind, hresult⟩ := h.live.exists_htableFind hkeyed hhash
    have hgiven : given ++ (TableCall.find query).content?.toList = given := List.append_nil given
    rw [hgiven]
    rcases hresult with ⟨rfl, hnone⟩ | ⟨p, n, rfl, hn, hsome⟩
    · refine ⟨{ s with answers := s.answers ++ [.found none] }, bs, ?_, h.live, h.fitting, ?_,
        h.owned⟩
      · rw [TableSession.step, hfind]
        rfl
      · rw [MapSession.step, hnone, h.answers]
    · have hcontent : s.tbl.content? p = some n.content := by
        rw [Chains.content?, hn]
        rfl
      refine ⟨{ s with answers := s.answers ++ [.found (some n.content)] }, bs, ?_, h.live,
        h.fitting, ?_, h.owned⟩
      · rw [TableSession.step, hfind, Option.bind_some]
        simp only [hcontent, Option.map_some]
      · rw [MapSession.step, hsome, h.answers]

/-- The calls of a session, one after the other. -/
theorem exists_simulates (hkeyed : HTable.Keyed hfunc eqfunc key) {calls : List (TableCall ν)}
    (hhash : ∀ call ∈ calls, (hfunc call.node).isSome = true) :
    ∃ s bs, exec (TableSession.step hfunc eqfunc) .init calls = some s ∧
      Simulates hfunc key s (calls.foldl (MapSession.step key) .init)
        (calls.filterMap TableCall.content?)
        bs := by
  induction calls using List.reverseRecOn with
  | nil => exact ⟨_, _, rfl, simulates_init⟩
  | append_singleton calls call ih =>
    obtain ⟨s, bs, hexec, hsim⟩ := ih fun c hc => hhash c (List.mem_append_left _ hc)
    obtain ⟨s', bs', hstep, hsim'⟩ := hsim.step hkeyed call (hhash call (by simp))
    refine ⟨s', bs', exec_concat_eq_some.mpr ⟨s, hexec, hstep⟩, ?_⟩
    rw [List.foldl_append, List.filterMap_append]
    have hlast : List.filterMap TableCall.content? [call] = call.content?.toList := by
      cases call with
      | insert => rfl
      | delete => rfl
      | find => rfl
    rw [hlast]
    exact hsim'

end Refinement

/-- A table that is used in any order of calls gives the answers of a finite map, whatever the
memory of deleted nodes is used for.  It has as many nodes as the map has keys, and the number of
its buckets fits.  When it is freed, every node was freed once, and everything that was handed over
was passed to `bnffunc` once. -/
theorem table_refines_map [DecidableEq κ] (hfunc : ν → Option UInt32) (eqfunc : ν → ν → Bool)
    (key : ν → κ) (hkeyed : HTable.Keyed hfunc eqfunc key) (calls : List (TableCall ν))
    (hhash : ∀ call ∈ calls, (hfunc call.node).isSome = true) :
    ∃ s, ∃ keys : List κ, ∃ t, exec (TableSession.step hfunc eqfunc) .init calls = some s ∧
      s.answers = (calls.foldl (MapSession.step key) .init).answers ∧
      keys.Nodup ∧ (∀ k, k ∈ keys ↔ (calls.foldl (MapSession.step key) .init).map k ≠ none) ∧
      s.tbl.nitems = keys.length ∧ s.tbl.Fitting ∧
      s.tbl.htableFreeItems s.freed = some t ∧ t.freed.Perm (List.range s.tbl.nodes.length) ∧
      t.dropped.Perm (calls.filterMap TableCall.content?) := by
  obtain ⟨s, bs, hexec, hsim⟩ := exists_simulates hkeyed hhash
  have hlive := hsim.live
  refine ⟨s, (s.tbl.entries bs).map key, _, hexec, hsim.answers, hlive.entries.distinct,
    fun k => ?_, ?_, hsim.fitting, hlive.htableFreeItems_eq, ?_, ?_⟩
  · rw [Ne, hlive.entries.eq_none_iff, not_not]
  · rw [List.length_map, hlive.length_entries, hlive.nitems]
  · exact List.perm_append_comm.trans hlive.perm
  · exact List.perm_append_comm.trans hsim.owned

/-- Nine nodes make the table grow; it shrinks when one of them is deleted, and the last one is
still found. -/
theorem table_refines_map_shrinks :
    ∃ s t,
      exec (TableSession.step (fun c : Nat × Nat => some (UInt32.ofNat c.1))
        (fun a b => a.1 == b.1)) .init
        ((List.range 9).map (fun i => .insert (i, i)) ++
          [.delete (3, 0) ⟨some 3, 3, (3, 0)⟩, .find (3, 0), .find (8, 0)]) = some s ∧
      s.answers.drop 9 = [.deleted true, .found none, .found (some (8, 8))] ∧
      s.tbl.htableFreeItems s.freed = some t ∧ t.freed.Perm (List.range s.tbl.nodes.length) := by
  have hkeyed : HTable.Keyed (fun c : Nat × Nat => some (UInt32.ofNat c.1)) (fun a b => a.1 == b.1)
      Prod.fst := by
    refine ⟨fun a b => beq_iff_eq, fun a b h => ?_⟩
    rw [h]
  obtain ⟨s, keys, t, hexec, hanswers, -, -, -, -, hfree, hfreed, -⟩ :=
    table_refines_map (fun c : Nat × Nat => some (UInt32.ofNat c.1)) (fun a b => a.1 == b.1)
      Prod.fst hkeyed
      ((List.range 9).map (fun i => .insert (i, i)) ++
        [.delete (3, 0) ⟨some 3, 3, (3, 0)⟩, .find (3, 0), .find (8, 0)]) (fun _ _ => rfl)
  refine ⟨s, t, hexec, ?_, hfree, hfreed⟩
  rw [hanswers]
  decide

/-! ### Metadata -/

namespace MetadataTable

/-- `metadata_free`: the nodes that were freed and the values that `mdatum_free` has freed, also
those that were replaced before.  The pointer of the caller is not changed. -/
def metadataFree (md : Option (HTable MEntry)) : Option (List NodePtr × List MDatum) :=
  match md with
  | none => some ([], [])
  | some m => (m.htableFreeItems []).map fun t => (t.freed, mdatumFree t.dropped)

/-- When metadata are freed, every node of the table is freed once, and every value that was handed
over was freed once: when it was replaced, or now. -/
theorem values_freed_once (calls : List InsertCall)
    (h : ∀ e ∈ inserted calls, e.key.length < 2 ^ 32) :
    ∃ md nodes values, exec step none calls = some md ∧ metadataFree md = some (nodes, values) ∧
      nodes.Perm (List.range (md.elim 0 fun m => m.nodes.length)) ∧
      values.Perm (mdatumFree (inserted calls)) := by
  obtain ⟨md, hexec, hrep⟩ := exists_exec h
  cases hrep with
  | null hnone =>
    refine ⟨none, [], [], hexec, rfl, .refl _, ?_⟩
    rw [hnone]
    exact .refl _
  | table m bs hlive hfit howned hne =>
    refine ⟨some m, _, _, hexec, congrArg (Option.map _) hlive.htableFreeItems_eq, ?_, ?_⟩
    · exact List.perm_append_comm.trans hlive.perm
    · exact ((List.perm_append_comm.trans howned).map MEntry.datum).filter _

/-- A value that is replaced is freed then, and the other one with the table. -/
theorem values_freed_once_replaced :
    ∃ md nodes values,
      exec step none [([97], some ⟨.string, [97, 0], 2⟩), ([97], some ⟨.string, [98, 0], 2⟩)] =
        some md ∧
      metadataFree md = some (nodes, values) ∧
      values.Perm [⟨.string, [97, 0], 2⟩, ⟨.string, [98, 0], 2⟩] := by
  obtain ⟨md, nodes, values, hexec, hfree, -, hvalues⟩ := values_freed_once
    [([97], some ⟨.string, [97, 0], 2⟩), ([97], some ⟨.string, [98, 0], 2⟩)] (by
      intro e he
      have hlength : e.key.length = 1 := by
        simp only [inserted, List.filterMap_cons, List.filterMap_nil, Option.map_some,
          List.mem_cons, List.not_mem_nil, or_false] at he
        rcases he with rfl | rfl <;> rfl
      rw [hlength]
      decide)
  exact ⟨md, nodes, values, hexec, hfree, hvalues⟩

end MetadataTable

end Schaufel
