import Mathlib.Data.List.Perm.Subperm
import Schaufel.Queue.Effects

/-!
# The end of a queue

`queue_free` walks along the `next` pointers and frees the message and the node of every entry, and
then `bin_destroy` frees the tree of the marks, root after root.  `queueFree` lists the blocks of
memory in the order in which they are freed; it fails where the source would read a node that is
gone, and if a loop does not end.

Whether everything is freed is a question about the life of the queue before: a node is allocated by
`queue_add` and linked later, and it is freed by `queue_get` or on an error path.  `Housed` says
that no node gets lost in between and that no mark has two nodes in the tree.  It is kept by every
step, and so `queueFree_spec` applies whenever no thread is left in the queue.
-/

namespace Schaufel

/-! ### The model -/

/-- The blocks of memory that belong to a queue. -/
inductive Block
  /-- The `struct Message` of a list node. -/
  | message (p : Ptr)
  /-- The `struct MessageList` at an address. -/
  | node (p : Ptr)
  /-- The `struct Xmark` of a mark. -/
  | xmark (m : UInt32)
  /-- The `struct node` of a mark. -/
  | treeNode (m : UInt32)
  /-- The `struct Queue`. -/
  | queue
  deriving DecidableEq, Repr

section Model

variable {δ μ β : Type}

/-- `message_free`: what is freed and the pointer afterwards.  To free the null pointer is to do
nothing. -/
def messageFree (msg : Option Block) : List Block × Option Block := (msg.toList, none)

/-- `message_list_free` on a node whose message pointer is `msg`. -/
def messageListFree (p : Ptr) (msg : Option Block) : List Block := (messageFree msg).1 ++ [.node p]

/-- The loop of `queue_free`, which frees the message of a node itself before it calls
`message_list_free`. -/
def freeNodes : Nat → Heap δ μ → Option Ptr → Option (List Block)
  | _, _, none => some []
  | 0, _, some _ => none
  | rounds + 1, h, some p => do
    let r ← h p
    let m := messageFree (some (.message p))
    let freed ← freeNodes rounds (Function.update h p none) r.next
    some (m.1 ++ messageListFree p m.2 ++ freed)

/-- `_xmark_free`. -/
def xmarkFree (n : Node β) : List Block := [.xmark n.elem, .treeNode n.elem]

/-- `tdelete`: the node that compares as equal is taken out of the tree. -/
def tdelete (key : UInt32) (tree : List (Node β)) : List (Node β) :=
  tree.eraseP fun n => binIntcomp n.elem key = 0

/-- `bin_destroy`.  Which node is the root is up to the implementation of `tsearch` and `tdelete`:
it is at the position `root tree` in the order of the tree. -/
def binDestroy (root : List (Node β) → Nat) : Nat → List (Node β) → Option (List Block)
  | _, [] => some []
  | 0, _ :: _ => none
  | rounds + 1, n :: tree => do
    let node ← (n :: tree)[root (n :: tree) % (tree.length + 1)]?
    let freed ← binDestroy root rounds (tdelete node.elem (n :: tree))
    some (xmarkFree node ++ freed)

/-- `queue_free` on a queue, without the hooks. -/
def queueFree (root : List (Node Xmark) → Nat) (rounds : Nat) (q : Queue δ μ) :
    Option (List Block) := do
  let nodes ← freeNodes rounds q.heap q.first
  let marks ← binDestroy root rounds q.xtree
  some (nodes ++ marks ++ [.queue])

end Model

/-! ### The loops -/

section Loops

variable {δ μ β : Type}

/-- The blocks of a list node. -/
def nodeBlocks (p : Ptr) : List Block := [.message p, .node p]

/-- The walk frees the blocks of every node it visits, and reads no node after it was freed. -/
theorem freeNodes_spec {h : Heap δ μ} {ps : List Ptr} {rounds : Nat} (hchain : Chain (nextOf h) ps)
    (hnodup : ps.Nodup) (hlive : ∀ p ∈ ps, (h p).isSome) (hrounds : ps.length ≤ rounds) :
    freeNodes rounds h ps.head? = some (ps.flatMap nodeBlocks) := by
  induction ps generalizing h rounds with
  | nil => cases rounds <;> rfl
  | cons p ps ih =>
    obtain ⟨r, hr⟩ := Option.isSome_iff_exists.mp (hlive p List.mem_cons_self)
    obtain ⟨hp, hnodup⟩ := List.nodup_cons.mp hnodup
    obtain ⟨rounds, rfl⟩ := Nat.exists_eq_add_of_le' hrounds
    have hnext : r.next = ps.head? := by simpa [nextOf, hr] using hchain.1
    -- the rest of the list does not notice that the node is gone
    have hrest : ∀ a ∈ ps, Function.update h p none a = h a := fun a ha =>
      Function.update_of_ne (by rintro rfl; exact hp ha) _ _
    have hwalk : freeNodes (rounds + ps.length) (Function.update h p none) ps.head? =
        some (ps.flatMap nodeBlocks) := by
      refine ih (hchain.2.congr fun a ha => ?_) hnodup (fun a ha => ?_) (Nat.le_add_left _ _)
      · rw [nextOf, nextOf, hrest a ha]
      · rw [hrest a ha]
        exact hlive a (List.mem_cons_of_mem p ha)
    rw [List.length_cons, ← Nat.add_assoc, List.head?_cons]
    simp only [freeNodes, hr, hnext, hwalk, Option.bind_eq_bind, Option.bind_some]
    rfl

/-- With one node per key, `tdelete` takes out the node it is given. -/
theorem tdelete_perm {tree : List (Node β)} (hkeys : (tree.map Node.elem).Nodup) {node : Node β}
    (hmem : node ∈ tree) : (node :: tdelete node.elem tree).Perm tree := by
  obtain ⟨n, l₁, l₂, -, hn, rfl, herase⟩ := List.exists_of_eraseP (p := fun n : Node β =>
    binIntcomp n.elem node.elem = 0) hmem (by simp [binIntcomp_eq_zero_iff.mpr])
  have helem : n.elem = node.elem := binIntcomp_eq_zero_iff.mp (by simpa using hn)
  obtain rfl : n = node := List.inj_on_of_nodup_map hkeys (by simp) hmem helem
  rw [tdelete, herase]
  exact List.perm_middle.symm

/-- `bin_destroy` frees the blocks of every node of the tree, in some order. -/
theorem binDestroy_spec (root : List (Node β) → Nat) {tree : List (Node β)} {rounds : Nat}
    (hkeys : (tree.map Node.elem).Nodup) (hrounds : tree.length ≤ rounds) :
    ∃ order : List (Node β), order.Perm tree ∧
      binDestroy root rounds tree = some (order.flatMap xmarkFree) := by
  induction rounds generalizing tree with
  | zero =>
    obtain rfl := List.length_eq_zero_iff.mp (Nat.le_zero.mp hrounds)
    exact ⟨[], .refl _, rfl⟩
  | succ rounds ih =>
    cases tree with
    | nil => exact ⟨[], .refl _, rfl⟩
    | cons n tree =>
      have hlt : root (n :: tree) % (tree.length + 1) < (n :: tree).length :=
        Nat.mod_lt _ (Nat.succ_pos _)
      set node := (n :: tree)[root (n :: tree) % (tree.length + 1)] with hnode
      have hperm : (node :: tdelete node.elem (n :: tree)).Perm (n :: tree) :=
        tdelete_perm hkeys (List.getElem_mem hlt)
      have hrest : ((tdelete node.elem (n :: tree)).map Node.elem).Nodup :=
        (List.nodup_cons.mp (((hperm.map Node.elem).nodup_iff).mpr hkeys)).2
      have hlength := hperm.length_eq
      obtain ⟨order, horder, hdestroy⟩ := ih hrest (by simp at hlength hrounds; omega)
      refine ⟨node :: order, (horder.cons node).trans hperm, ?_⟩
      simp only [binDestroy, List.getElem?_eq_getElem hlt, ← hnode, hdestroy, Option.bind_eq_bind,
        Option.bind_some, List.flatMap_cons]

end Loops

/-! ### The tree while threads work -/

section Tree

variable {δ μ β : Type}

/-- The marks that have a node in the tree. -/
def binKeys (tree : List (Node β)) : List UInt32 := tree.map Node.elem

theorem binKeys_binModify (m : UInt32) (f : β → β) (tree : List (Node β)) :
    binKeys (binModify m f tree) = binKeys tree := by
  rw [binKeys, binKeys, binModify, List.map_map]
  refine List.map_congr_left fun n _ => ?_
  simp only [Function.comp_apply]
  split <;> rfl

/-- A mark has a node in the tree exactly when `bin_find` finds it. -/
theorem mem_binKeys_iff {tree : List (Node β)} {m : UInt32} :
    m ∈ binKeys tree ↔ (binFind tree m).isSome := by
  induction tree with
  | nil => simp [binKeys]
  | cons n tree ih =>
    rw [binFind_cons, binKeys, List.map_cons, List.mem_cons]
    by_cases hn : n.elem = m
    · simp [hn]
    · rw [if_neg hn, ← ih]
      simp [binKeys, Ne.symm hn]

/-- `bin_search` with a key that is not there adds it. -/
theorem binKeys_binSearch {tree : List (Node β)} {m : UInt32} (hnew : binFind tree m = none)
    (x : β) : (binKeys (binSearch ⟨m, x⟩ tree)).Perm (m :: binKeys tree) := by
  induction tree with
  | nil => exact .refl _
  | cons n tree ih =>
    rw [binFind_cons] at hnew
    have hne : n.elem ≠ m := fun h => by simp [h] at hnew
    have hne' : ¬ binIntcomp m n.elem = 0 := fun h => hne (binIntcomp_eq_zero_iff.mp h).symm
    rw [if_neg hne] at hnew
    simp only [binSearch, if_neg hne']
    split
    · exact .refl _
    · exact ((ih hnew).cons n.elem).trans (.swap _ _ _)

theorem Queue.modifyXmark_keys (q : Queue δ μ) (m : UInt32) (f : Xmark → Xmark) :
    binKeys (q.modifyXmark m f).xtree = binKeys q.xtree :=
  binKeys_binModify m f q.xtree

theorem Queue.settle_keys (q : Queue δ μ) (m : UInt32) :
    binKeys (q.settle m).xtree = binKeys q.xtree := by
  rw [settle_eq]
  simp only [binKeys_binModify]

theorem Queue.modifyNode_xtree {q q' : Queue δ μ} {p : Ptr} {f : MessageList δ μ → MessageList δ μ}
    (h : q.modifyNode p f = some q') : q'.xtree = q.xtree := by
  obtain ⟨heap, -, rfl⟩ := Option.map_eq_some_iff.mp h
  rfl

/-- To link a node is to write to the nodes of the tree at most. -/
theorem Queue.link_keys {q q' : Queue δ μ} {p : Ptr} {m : UInt32} (h : q.link p m = some q') :
    binKeys q'.xtree = binKeys q.xtree := by
  obtain ⟨q₁, h₁, h⟩ := Option.bind_eq_some_iff.mp h
  obtain ⟨q₂, h₂, h⟩ := Option.bind_eq_some_iff.mp h
  obtain rfl := Option.some.inj h
  have hglobal : q₂.xtree = q₁.xtree := by
    unfold Queue.linkGlobal at h₂
    split at h₂
    · obtain rfl := Option.some.inj h₂
      rfl
    · obtain ⟨q₃, h₃, h₂⟩ := Option.bind_eq_some_iff.mp h₂
      obtain ⟨q₄, h₄, h₂⟩ := Option.bind_eq_some_iff.mp h₂
      obtain rfl := Option.some.inj h₂
      exact (Queue.modifyNode_xtree h₄).trans (Queue.modifyNode_xtree h₃)
  have hxmark : binKeys q₁.xtree = binKeys q.xtree := by
    obtain ⟨x, -, h₁⟩ := Option.bind_eq_some_iff.mp h₁
    split at h₁
    · obtain rfl := Option.some.inj h₁
      exact q.modifyXmark_keys _ _
    · obtain ⟨q₃, h₃, h₁⟩ := Option.bind_eq_some_iff.mp h₁
      obtain rfl := Option.some.inj h₁
      exact (q₃.modifyXmark_keys _ _).trans (congrArg binKeys (Queue.modifyNode_xtree h₃))
  exact (q₂.modifyXmark_keys m fun x => { x with count := x.count + 1 }).trans
    ((congrArg binKeys hglobal).trans hxmark)

theorem Queue.unlinkGlobal_xtree {q q' : Queue δ μ} {next prev : Option Ptr}
    (h : q.unlinkGlobal next prev = some q') : q'.xtree = q.xtree := by
  obtain ⟨q₁, h₁, h₂⟩ := Option.bind_eq_some_iff.mp h
  have hnext : q₁.xtree = q.xtree := by
    cases next with
    | none => cases h₁; rfl
    | some n => exact Queue.modifyNode_xtree h₁
  have hprev : q'.xtree = q₁.xtree := by
    cases prev with
    | none => cases h₂; rfl
    | some n => exact Queue.modifyNode_xtree h₂
  exact hprev.trans hnext

/-- `queue_get` frees the first node of the mark and writes to the nodes of the tree at most. -/
theorem Queue.take_frees {q q' : Queue δ μ} {m : UInt32} {msg msg' : Message δ μ}
    (h : q.take m msg = some (q', msg')) :
    (∃ x p, binFind q.xtree m = some x ∧ x.first = some p ∧ q'.heap p = none) ∧
      binKeys q'.xtree = binKeys q.xtree := by
  obtain ⟨x, hx, h⟩ := Option.bind_eq_some_iff.mp h
  obtain ⟨p, hp, h⟩ := Option.bind_eq_some_iff.mp h
  obtain ⟨r, -, h⟩ := Option.bind_eq_some_iff.mp h
  obtain ⟨q₁, h₁, h⟩ := Option.bind_eq_some_iff.mp h
  obtain ⟨r', -, h⟩ := Option.bind_eq_some_iff.mp h
  cases h
  refine ⟨⟨x, p, hx, hp, Function.update_self ..⟩, ?_⟩
  have hkeys : binKeys q₁.xtree = binKeys q.xtree :=
    (congrArg binKeys (Queue.unlinkGlobal_xtree h₁)).trans (q.modifyXmark_keys _ _)
  exact (q₁.settle_keys m).trans hkeys

/-- `_xmark_find` keeps one node per mark. -/
theorem Queue.xmarkFind_keys {q q' : Queue δ μ} {m : UInt32} {alloc : Bool}
    (h : q.xmarkFind m alloc = some q') (hkeys : (binKeys q.xtree).Nodup) :
    (binKeys q'.xtree).Nodup := by
  unfold Queue.xmarkFind at h
  cases hx : binFind q.xtree m with
  | some x =>
    rw [hx] at h
    cases h
    exact hkeys
  | none =>
    rw [hx] at h
    cases alloc with
    | false => cases h
    | true =>
      cases h
      refine (binKeys_binSearch hx _).nodup_iff.mpr (List.nodup_cons.mpr ⟨fun hmem => ?_, hkeys⟩)
      simp [mem_binKeys_iff, hx] at hmem

end Tree

/-! ### No node gets lost -/

section Housed

variable {ι δ μ ε : Type}

/-- Every live node is linked or held by a thread in `queue_add`, and no mark has two nodes in the
tree. -/
structure Housed (s : QueueState ι δ μ) (ps : List Ptr) : Prop where
  node : ∀ p, (s.q.heap p).isSome → p ∈ ps ∨ ∃ t, (s.call t).node = some p
  keys : (binKeys s.q.xtree).Nodup

/-- A step of the thread `t` that loses no node. -/
theorem Housed.of_spares {s s' : QueueState ι δ μ} {ps ps' : List Ptr} {t : ι} (hs : Housed s ps)
    (hspares : Spares t s s') (hkeys : (binKeys s'.q.xtree).Nodup)
    (hborn : ∀ p, (s'.q.heap p).isSome → (s.q.heap p).isSome ∨ (s'.call t).node = some p)
    (hheld : ∀ p, (s.call t).node = some p → (s'.q.heap p).isSome →
      p ∈ ps' ∨ (s'.call t).node = some p)
    (hlinked : ∀ p ∈ ps, (s'.q.heap p).isSome → p ∈ ps') : Housed s' ps' := by
  refine ⟨fun p hp => ?_, hkeys⟩
  rcases hborn p hp with hold | hnew
  · rcases hs.node p hold with hmem | ⟨t', ht'⟩
    · exact Or.inl (hlinked p hmem hp)
    · by_cases htt : t' = t
      · subst htt
        exact (hheld p ht' hp).imp_right fun h => ⟨t', h⟩
      · exact Or.inr ⟨t', (hspares.node_eq htt).trans ht'⟩
  · exact Or.inr ⟨t, hnew⟩

/-- The head and the `next` pointers determine the addresses of the list. -/
theorem GlobalList.eq_of_heap_eq {q q' : Queue δ μ} {ps ps' : List Ptr} (h : GlobalList q ps)
    (h' : GlobalList q' ps') (hheap : ∀ a ∈ ps, q'.heap a = q.heap a)
    (hfirst : q'.first = q.first) : ps' = ps := by
  have hchain : Chain (nextOf q'.heap) ps := h.next.congr fun a ha => by
    rw [nextOf, nextOf, hheap a ha]
  exact h'.next.eq_of_head?_eq hchain (h'.first.symm.trans (hfirst.trans h.first))

/-- A step that leaves the nodes alone. -/
theorem Housed.of_heap_eq {s s' : QueueState ι δ μ} {ps ps' : List Ptr} {t : ι} (hs : Housed s ps)
    (hinv : QueueInv s ps) (hinv' : QueueInv s' ps') (hspares : Spares t s s')
    (hheap : s'.q.heap = s.q.heap) (hfirst : s'.q.first = s.q.first)
    (hkeys : (binKeys s'.q.xtree).Nodup)
    (hnode : ∀ p, (s.call t).node = some p → (s'.call t).node = some p) : Housed s' ps' := by
  obtain rfl := hinv.spells.list.eq_of_heap_eq hinv'.spells.list
    (fun a _ => congrFun hheap a) hfirst
  refine hs.of_spares hspares hkeys (fun p hp => Or.inl ?_) (fun p hp _ => Or.inr (hnode p hp))
    fun p hp _ => hp
  rwa [hheap] at hp

/-- An entry is taken: the list loses the node that is freed and no other one. -/
theorem mem_of_take {q q' : Queue δ μ} {ps ps' : List Ptr} {es : List (Entry δ μ)}
    {es' : List (Entry δ μ)} {m : UInt32} {msg msg' : Message δ μ} (hs : Spells q ps es)
    (hs' : Spells q' ps' es') (h : q.take m msg = some (q', msg')) {p : Ptr} (hp : p ∈ ps)
    (hlive : (q'.heap p).isSome) : p ∈ ps' := by
  obtain ⟨⟨x, a, hx, ha, hfree⟩, -⟩ := Queue.take_frees h
  obtain ⟨q₂, ps₂, e, es₁, es₂, hsplit, -, -, htake, hs₂, hsub, -, -⟩ :=
    take_spec hs hx (by rw [ha]; simp) msg
  cases h.symm.trans htake
  obtain rfl : ps' = ps₂ := hs₂.list.eq_of_heap_eq hs'.list (fun _ _ => rfl) rfl
  have hhead : a ∈ ofMark q.heap m ps := by
    rw [(hs.xmark m x hx).first] at ha
    exact List.mem_of_head? ha
  -- with the node that was freed, the new list is as long as the old one
  have hgone : a ∉ ps' := fun hmem => by
    have := hs'.list.live a hmem
    simp [hfree] at this
  have hnodup : (a :: ps').Nodup := List.nodup_cons.mpr ⟨hgone, hs'.list.nodup⟩
  have hsubset : a :: ps' ⊆ ps :=
    List.cons_subset.mpr ⟨List.mem_of_mem_filter hhead, hsub⟩
  have hlen : ps.length = es.length := by simpa using congrArg List.length hs.entries
  have hlen' : ps'.length = (es₁ ++ es₂).length := by simpa using congrArg List.length hs₂.entries
  have hperm : (a :: ps').Perm ps := by
    refine (hnodup.subperm hsubset).perm_of_length_le ?_
    rw [hlen, hsplit, List.length_cons, hlen']
    simp
    omega
  rcases List.mem_cons.mp (hperm.mem_iff.mpr hp) with rfl | hmem
  · simp [hfree] at hlive
  · exact hmem

variable [DecidableEq ι]

/-- `queue_get` loses no node. -/
theorem Housed.of_get {s s' : QueueState ι δ μ} {ps ps' : List Ptr} {t : ι} {msg : Message δ μ}
    {x : Option UInt32} (hs : Housed s ps) (hinv : QueueInv s ps) (hinv' : QueueInv s' ps')
    (hspares : Spares t s s') (hnode : (s.call t).node = none) (h : GetOutcome s t msg x s') :
    Housed s' ps' := by
  have hnone : ∀ p, (s.call t).node = some p → (s'.call t).node = some p := fun p hp => by
    rw [hnode] at hp
    cases hp
  cases h with
  | wait hfirst => exact hs.of_heap_eq hinv hinv' hspares rfl rfl hs.keys hnone
  | xwait hm hy hfirst => exact hs.of_heap_eq hinv hinv' hspares rfl rfl hs.keys hnone
  | crash => exact hs.of_heap_eq hinv hinv' hspares rfl rfl hs.keys hnone
  | @take m y q msg' hm hy hfirst hq =>
    have hspells := hinv'.spells
    rw [QueueState.handed_q] at hspells
    obtain ⟨q₂, ps₂, e, es₁, es₂, -, -, -, htake, -, -, hsame, -⟩ :=
      take_spec hinv.spells hy hfirst msg
    cases hq.symm.trans htake
    refine hs.of_spares hspares ?_ (fun p hp => Or.inl ?_) (fun p hp => ?_) fun p hp hlive => ?_
    · rw [QueueState.handed_q, (Queue.take_frees hq).2]
      exact hs.keys
    · by_cases hmem : p ∈ ps
      · exact hinv.spells.list.live p hmem
      · rwa [QueueState.handed_q, hsame p hmem] at hp
    · rw [hnode] at hp
      cases hp
    · rw [QueueState.handed_q] at hlive
      exact mem_of_take hinv.spells hspells hq hp hlive

/-- `queue_add` behind the mutex loses no node. -/
theorem Housed.of_add {s s' : QueueState ι δ μ} {ps ps' : List Ptr} {t : ι} {args msg : Message δ μ}
    {p : Ptr} (hs : Housed s ps) (hinv : QueueInv s ps) (hinv' : QueueInv s' ps')
    (hspares : Spares t s s') (hnode : (s.call t).node = some p)
    (hp : s.q.heap p = some ⟨msg, none, none, none⟩)
    (hfind : (binFind s.q.xtree msg.mark).isSome) (h : AddOutcome s t args p msg.mark s') :
    Housed s' ps' := by
  have hmem := hinv.not_mem_of_node hnode
  obtain ⟨q₂, hlink, hspells₂, hsame, -⟩ := link_spec hinv.spells hp hmem hfind
  cases h with
  | wait hlen =>
    refine hs.of_heap_eq hinv hinv' hspares rfl rfl hs.keys fun a ha => ?_
    rw [QueueState.setCall_call, Function.update_self, ← ha, hnode]
    rfl
  | crash hcrash =>
    exact hs.of_heap_eq hinv hinv' hspares rfl rfl hs.keys fun _ ha => ha
  | @link x n q hlen hx hn hq =>
    cases hq.symm.trans hlink
    have hspells := hinv'.spells
    rw [QueueState.linked_q] at hspells
    obtain rfl : ps' = ps ++ [p] := hspells₂.list.eq_of_heap_eq hspells.list
      (fun _ _ => rfl) rfl
    refine hs.of_spares hspares ?_ (fun a ha => Or.inl ?_) (fun a ha _ => Or.inl ?_)
      fun a ha _ => ?_
    · rw [QueueState.linked_q, Queue.link_keys hq]
      exact hs.keys
    · rw [QueueState.linked_q] at ha
      by_cases hap : a = p
      · rw [hap, hp]
        rfl
      · by_cases hlinked : a ∈ ps
        · exact hinv.spells.list.live a hlinked
        · rwa [hsame a hlinked hap] at ha
    · obtain rfl : p = a := Option.some.inj (hnode.symm.trans ha)
      exact List.mem_append_right ps (List.mem_singleton_self p)
    · exact List.mem_append_left [p] ha

/-- A call from outside the queue holds no node. -/
theorem Call.node_eq_none_of_outside {c : Call δ μ} (h : c.outside = true) : c.node = none := by
  cases c <;> first | rfl | cases h

/-- No step loses a node. -/
theorem Housed.step {conf : QueueConf δ μ ε} {s s' : QueueState ι δ μ} {ps ps' : List Ptr}
    {b : QueueAction ι δ μ ε} (hs : Housed s ps) (hinv : QueueInv s ps) (hinv' : QueueInv s' ps')
    (h : QueueStep conf s b s') : Housed s' ps' := by
  have hspares := (hinv.step h).1.2
  -- a thread that holds no node leaves the nodes alone
  have hquiet : ∀ t : ι, (s.call t).node = none → Spares t s s' → s'.q.heap = s.q.heap →
      s'.q.first = s.q.first → s'.q.xtree = s.q.xtree → Housed s' ps' := by
    intro t hnone hspares hheap hfirst htree
    refine hs.of_heap_eq hinv hinv' hspares hheap hfirst (by rw [htree]; exact hs.keys)
      fun p hp => ?_
    rw [hnone] at hp
    cases hp
  cases h with
  | @addNoMem t args env hout | @addRefused t args p env hout hp hrun =>
    exact hquiet t (Call.node_eq_none_of_outside hout) hspares rfl rfl rfl
  | @count t c hout =>
    refine hquiet t (Call.node_eq_none_of_outside hout) hspares ?_ ?_ ?_ <;> cases c <;> rfl
  | @timeout t msg x sig hcall | @xtimeout t msg m sig y hcall hy | @preget t msg env hcall hrun
  | @pregetRefused t msg env hcall hrun =>
    exact hquiet t (by rw [hcall]; rfl) hspares rfl rfl rfl
  | lockCrash hcall hp | xtimeoutCrash hcall hy =>
    exact hs.of_heap_eq hinv hinv' hspares rfl rfl hs.keys fun _ ha => ha
  | @addAccepted t args p env hout hp hrun =>
    have hother : ∀ a v, a ≠ p → Function.update s.q.heap p v a = s.q.heap a := fun a v ha =>
      Function.update_of_ne ha _ _
    have hps : ps' = ps := by
      refine hinv.spells.list.eq_of_heap_eq hinv'.spells.list (fun a ha => hother a _ ?_) rfl
      rintro rfl
      have hlive := hinv.spells.list.live a ha
      simp [hp] at hlive
    refine hs.of_spares (t := t) hspares hs.keys (fun a ha => ?_) (fun a ha => ?_) fun a ha _ => ?_
    · by_cases hap : a = p
      · right
        rw [hap, QueueState.setCall_call, Function.update_self]
        rfl
      · left
        rw [← hother a _ hap]
        exact ha
    · rw [Call.node_eq_none_of_outside hout] at ha
      cases ha
    · rwa [hps]
  | @lockNoMem t args p n alloc hcall hp hx =>
    have hheld : (s.call t).node = some p := congrArg Call.node hcall
    have hother : ∀ a, a ≠ p → Function.update s.q.heap p none a = s.q.heap a := fun a ha =>
      Function.update_of_ne ha _ _
    have hps : ps' = ps := by
      refine hinv.spells.list.eq_of_heap_eq hinv'.spells.list (fun a ha => hother a ?_) rfl
      rintro rfl
      exact hinv.not_mem_of_node hheld ha
    have hne : ∀ a, (Function.update s.q.heap p none a).isSome → a ≠ p := by
      rintro a ha rfl
      simp at ha
    refine hs.of_spares (t := t) hspares hs.keys (fun a ha => Or.inl ?_) (fun a ha hlive => ?_)
      fun a ha _ => ?_
    · rw [← hother a (hne a ha)]
      exact ha
    · exact absurd (Option.some.inj (hheld.symm.trans ha)).symm (hne a hlive)
    · rwa [hps]
  | @lock t args p n alloc q s' hcall hp hx hadd =>
    have hok := hinv.call t
    rw [hcall] at hok
    obtain ⟨-, msg, hmsg⟩ := hok
    cases hp.symm.trans hmsg
    obtain ⟨hinv₀, -, hfind, hheap⟩ := hinv.of_xmarkFind t hx
    have hs₀ : Housed { s with q := q } ps := by
      refine ⟨fun a ha => hs.node a ?_, Queue.xmarkFind_keys hx hs.keys⟩
      rwa [← hheap]
    have hspares₀ : Spares t { s with q := q } s' :=
      ⟨hspares.calls, fun t' ht' a ha => (hspares.heap t' ht' a ha).trans (congrFun hheap a).symm⟩
    refine hs₀.of_add hinv₀ hinv' hspares₀ ?_ ((congrFun hheap p).trans hmsg) hfind hadd
    rw [hcall]
    rfl
  | @wakeAdd t args p m sig s' hcall hadd =>
    have hok := hinv.call t
    rw [hcall] at hok
    obtain ⟨-, ⟨msg, hmsg, rfl⟩, hfind⟩ := hok
    refine hs.of_add hinv hinv' hspares ?_ hmsg hfind hadd
    exact congrArg Call.node hcall
  | @getNoMem t msg alloc s' hout hx hget =>
    have hs₀ : Housed (s.emit [.getLocked t msg.mark]) ps := ⟨hs.node, hs.keys⟩
    exact hs₀.of_get (hinv.of_emit rfl) hinv' ⟨hspares.calls, hspares.heap⟩
      (Call.node_eq_none_of_outside hout) hget
  | @get t msg alloc q s' hout hx hget =>
    obtain ⟨hinv₀, -, -, hheap⟩ := hinv.of_xmarkFind t hx
    have hlocked : QueueInv ({ s with q := q }.emit [.getLocked t msg.mark]) ps := hinv₀.of_emit rfl
    have hs₀ : Housed ({ s with q := q }.emit [.getLocked t msg.mark]) ps := by
      refine ⟨fun a ha => hs.node a ?_, Queue.xmarkFind_keys hx hs.keys⟩
      rwa [← hheap]
    have hspares₀ : Spares t ({ s with q := q }.emit [.getLocked t msg.mark]) s' :=
      ⟨hspares.calls, fun t' ht' a ha => (hspares.heap t' ht' a ha).trans (congrFun hheap a).symm⟩
    exact hs₀.of_get hlocked hinv' hspares₀ (Call.node_eq_none_of_outside hout) hget
  | @wakeGet t msg x sig s' hcall hget =>
    exact hs.of_get hinv hinv' hspares (congrArg Call.node hcall) hget
  | @wakeXget t msg m sig s' hcall hget =>
    exact hs.of_get hinv hinv' hspares (congrArg Call.node hcall) hget

end Housed

/-! ### The blocks of a queue -/

/-- The block is one of those that make up the queue. -/
def Queue.owns {δ μ : Type} (q : Queue δ μ) : Block → Bool
  | .message p | .node p => (q.heap p).isSome
  | .xmark m | .treeNode m => (binFind q.xtree m).isSome
  | .queue => true

/-- Blocks of different owners are different. -/
theorem nodup_flatMap_of_owner {α κ : Type} (key : α → κ) {f : α → List Block} {l : List α}
    (hnodup : (l.map key).Nodup) (hf : ∀ a, (f a).Nodup)
    (howner : ∀ a a' b, b ∈ f a → b ∈ f a' → key a = key a') : (l.flatMap f).Nodup := by
  refine List.nodup_flatMap.mpr ⟨fun a _ => hf a, ?_⟩
  refine (List.pairwise_map.mp hnodup).imp fun {a a'} hne b hb hb' => ?_
  exact hne (howner a a' b hb hb')

/-- When no thread is in the queue, `queue_free` frees every block of it once and nothing else. -/
theorem queueFree_spec {ι δ μ : Type} {s : QueueState ι δ μ} {ps : List Ptr} (hinv : QueueInv s ps)
    (hs : Housed s ps) (hout : ∀ t, (s.call t).outside = true) (root : List (Node Xmark) → Nat)
    {rounds : Nat} (hnodes : (routed s.history).length ≤ rounds)
    (hmarks : s.q.xtree.length ≤ rounds) :
    ∃ blocks, queueFree root rounds s.q = some blocks ∧ blocks.Nodup ∧
      ∀ b, b ∈ blocks ↔ s.q.owns b = true := by
  have hlist := hinv.spells.list
  have hlength : ps.length = (routed s.history).length := by
    simpa using congrArg List.length hinv.spells.entries
  have hwalk := freeNodes_spec hlist.next hlist.nodup hlist.live (hlength.trans_le hnodes)
  obtain ⟨order, hperm, hdestroy⟩ := binDestroy_spec root hs.keys hmarks
  have hlive : ∀ p, p ∈ ps ↔ (s.q.heap p).isSome := by
    refine fun p => ⟨hlist.live p, fun hp => (hs.node p hp).resolve_right ?_⟩
    rintro ⟨t, ht⟩
    rw [Call.node_eq_none_of_outside (hout t)] at ht
    cases ht
  have hkeys : ∀ m, (∃ n ∈ order, m = n.elem) ↔ (binFind s.q.xtree m).isSome := by
    intro m
    rw [← mem_binKeys_iff, binKeys, List.mem_map]
    simp only [hperm.mem_iff, eq_comm]
  refine ⟨ps.flatMap nodeBlocks ++ order.flatMap xmarkFree ++ [.queue], ?_, ?_, ?_⟩
  · rw [queueFree, hlist.first, hwalk, hdestroy]
    rfl
  · have hnodeBlocks : (ps.flatMap nodeBlocks).Nodup := by
      refine nodup_flatMap_of_owner id (by simpa using hlist.nodup) (fun p => ?_) fun p p' b => ?_
      · simp [nodeBlocks]
      · cases b <;> simp [nodeBlocks] <;> rintro rfl rfl <;> rfl
    have hmarkBlocks : (order.flatMap xmarkFree).Nodup := by
      refine nodup_flatMap_of_owner Node.elem ?_ (fun n => ?_) fun n n' b => ?_
      · exact (hperm.map Node.elem).nodup_iff.mpr hs.keys
      · simp [xmarkFree]
      · cases b <;> simp [xmarkFree] <;> intro h h' <;> exact h.symm.trans h'
    refine List.nodup_append.mpr ⟨List.nodup_append.mpr ⟨hnodeBlocks, hmarkBlocks, ?_⟩,
      List.nodup_singleton _, ?_⟩
    · intro b hb b' hb'
      obtain ⟨p, -, hp⟩ := List.mem_flatMap.mp hb
      obtain ⟨n, -, hn⟩ := List.mem_flatMap.mp hb'
      rintro rfl
      cases b <;> simp [nodeBlocks, xmarkFree] at hp hn
    · intro b hb b' hb'
      rw [List.mem_singleton.mp hb']
      rintro rfl
      simp [nodeBlocks, xmarkFree] at hb
  · intro b
    cases b <;>
      simp only [List.mem_append, List.mem_flatMap, nodeBlocks, xmarkFree, List.mem_cons,
        List.not_mem_nil, or_false, false_or, reduceCtorEq, and_false, exists_false,
        Block.message.injEq, Block.node.injEq, Block.xmark.injEq, Block.treeNode.injEq,
        exists_eq_right', Queue.owns, hlive, hkeys]

end Schaufel
