import Schaufel.Foundation.BucketChains
import Schaufel.Foundation.Run

/-!
# The hash table

`src/utils/htable.c` keeps nodes in chains, one for each bucket of an array.  A node is in the
bucket of its hash, of which the low bits count.  When there are more nodes than buckets the array
is doubled, and nodes are moved to the other half of it in place; the array is halved again when few
nodes are left.

The nodes are in memory one behind the other, in the order of their allocation, and allocations
succeed.  Reading or writing at an address without a node or behind the end of the array, and a walk
along a chain that does not end, are no result.  The functions of the table get the functions of the
user of the table: a hash, which need not end, and an equality.
-/

namespace Schaufel

/-- The address of a node; the null pointer is `none : Option NodePtr`. -/
abbrev NodePtr := Nat

/-- `HTableNode`, with what the user of the table puts behind it. -/
structure HTableNode (ν : Type) where
  next : Option NodePtr
  hash : UInt32
  content : ν
  deriving DecidableEq, Repr

/-- An array of buckets and the nodes in memory. -/
structure Chains (ν : Type) where
  items : List (Option NodePtr)
  nodes : List (HTableNode ν)
  deriving DecidableEq, Repr

/-- `HTable`.  `dropped` are the contents for which `bnffunc` was called. -/
structure HTable (ν : Type) extends Chains ν where
  nitems : Nat
  size : Nat
  mask : UInt32
  dropped : List ν
  deriving DecidableEq, Repr

variable {ν : Type}

/-! ### Memory -/

namespace Chains

/-- The pointer from a node to the next one of its chain. -/
def next (m : Chains ν) (p : NodePtr) : Option NodePtr := m.nodes[p]?.bind HTableNode.next

/-- Write to the array. -/
def setItem (m : Chains ν) (i : Nat) (v : Option NodePtr) : Option (Chains ν) :=
  if i < m.items.length then some { m with items := m.items.set i v } else none

/-- Write to the pointer of a node. -/
def setNext (m : Chains ν) (p : NodePtr) (v : Option NodePtr) : Option (Chains ν) :=
  m.nodes[p]?.map fun n => { m with nodes := m.nodes.set p { n with next := v } }

/-- Walk along a chain to the first node of a kind. -/
def search (m : Chains ν) (found : ν → Bool) : Nat → Option NodePtr → Option (Option NodePtr)
  | _, none => some none
  | 0, some _ => none
  | rounds + 1, some p =>
    m.nodes[p]?.bind fun n =>
      if found n.content then some (some p) else m.search found rounds n.next

/-- Walk along a chain to its last node. -/
def last (m : Chains ν) : Nat → NodePtr → Option NodePtr
  | 0, _ => none
  | rounds + 1, p =>
    m.nodes[p]?.bind fun n =>
      match n.next with
      | none => some p
      | some q => m.last rounds q

/-! ### Resizing -/

/-- The node behind `prev`, or the first one of a bucket, is taken out of its chain. -/
def takeOut (m : Chains ν) (idx : Nat) (prev next : Option NodePtr) : Option (Chains ν) :=
  match prev with
  | none => m.setItem idx next
  | some prev => m.setNext prev next

/-- A node is put in front of a bucket. -/
def putFront (m : Chains ν) (idx : Nat) (curr : NodePtr) : Option (Chains ν) := do
  let head ← m.items[idx]?
  let m ← m.setNext curr head
  m.setItem idx (some curr)

/-- The loop of `_htable_resize` over the nodes of one bucket: those whose hash leads to another
bucket in the larger array are taken out, and put in front of that one.  `prev` is the last node
that has stayed, so that it is another node than `curr`. -/
def growBucket (mask newMask : UInt32) (idx : Nat) :
    Nat → Option NodePtr → Option NodePtr → Chains ν → Option (Chains ν)
  | _, _, none, m => some m
  | 0, _, some _, _ => none
  | rounds + 1, prev, some curr, m => do
    let n ← m.nodes[curr]?
    if n.hash &&& mask ≠ n.hash &&& newMask then
      let m ← m.takeOut idx prev n.next
      let m ← m.putFront (n.hash &&& newMask).toNat curr
      growBucket mask newMask idx rounds prev n.next m
    else growBucket mask newMask idx rounds (some curr) n.next m

/-- One round of the loop over the buckets when the array is doubled. -/
def growStep (mask newMask : UInt32) (m : Chains ν) (idx : Nat) : Option (Chains ν) :=
  m.items[idx]?.bind fun head => growBucket mask newMask idx m.nodes.length none head m

/-- One round of the loop over the upper buckets when the array is halved: the chain is put behind
that of the lower bucket. -/
def shrinkStep (items : List (Option NodePtr)) (newSize : Nat) (m : Chains ν) (idx : Nat) :
    Option (Chains ν) := do
  match ← items[idx]? with
  | none => some m
  | some first =>
    match ← m.items[idx - newSize]? with
    | none => m.setItem (idx - newSize) (some first)
    | some curr =>
      let curr ← m.last m.nodes.length curr
      m.setNext curr (some first)

end Chains

namespace HTable

/-- `MIN_HTABLE_SIZE`. -/
def minSize : Nat := 8

/-- `_htable_resize`. -/
def htableResize (tbl : HTable ν) : Option (HTable ν) :=
  if tbl.nitems < minSize then some tbl
  else if tbl.size < tbl.nitems then
    let newSize := tbl.size * 2
    let newMask := UInt32.ofNat (newSize - 1)
    let copy : Chains ν := ⟨tbl.items.take tbl.size ++ List.replicate tbl.size none, tbl.nodes⟩
    (exec (Chains.growStep tbl.mask newMask) copy (List.range tbl.size)).map fun m =>
      { tbl with toChains := m, size := newSize, mask := newMask }
  else if tbl.nitems ≤ tbl.size / 2 then
    let newSize := tbl.size / 2
    let newMask := UInt32.ofNat (newSize - 1)
    let copy : Chains ν := ⟨tbl.items.take newSize, tbl.nodes⟩
    (exec (Chains.shrinkStep tbl.items newSize) copy (List.range' newSize (tbl.size - newSize))).map
      fun m =>
      { tbl with toChains := m, size := newSize, mask := newMask }
  else some tbl

/-! ### Finding and inserting -/

/-- `htable_create`. -/
def htableCreate : HTable ν :=
  { items := List.replicate minSize none, nodes := [], nitems := 0, size := minSize,
    mask := UInt32.ofNat (minSize - 1), dropped := [] }

section Functions

variable (hfunc : ν → Option UInt32) (eqfunc : ν → ν → Bool)

/-- `htable_find`. -/
def htableFind (tbl : HTable ν) (query : ν) : Option (Option NodePtr) := do
  let hash ← hfunc query
  let head ← tbl.items[(hash &&& tbl.mask).toNat]?
  tbl.search (fun content => eqfunc content query) tbl.nodes.length head

/-- A node of `htable_insert` gets another content. -/
def update (tbl : HTable ν) (hash : UInt32) (p : NodePtr) (content : ν) : Option (HTable ν) :=
  tbl.nodes[p]?.map fun item =>
    { tbl with
      nodes := tbl.nodes.set p ⟨item.next, hash, content⟩
      dropped := tbl.dropped ++ [item.content] }

/-- A new node of `htable_insert` is put in front of its bucket. -/
def link (tbl : HTable ν) (hash : UInt32) (head : Option NodePtr) (content : ν) : HTable ν :=
  { tbl with
    nodes := tbl.nodes ++ [⟨head, hash, content⟩]
    items := tbl.items.set (hash &&& tbl.mask).toNat (some tbl.nodes.length)
    nitems := tbl.nitems + 1 }

/-- `htable_insert`; the boolean is `isNewNode`. -/
def htableInsert (tbl : HTable ν) (content : ν) : Option (HTable ν × Bool) := do
  let hash ← hfunc content
  let head ← tbl.items[(hash &&& tbl.mask).toNat]?
  match ← tbl.search (fun item => eqfunc item content) tbl.nodes.length head with
  | some p => (tbl.update hash p content).map fun tbl => (tbl, false)
  | none => (htableResize (tbl.link hash head content)).map fun tbl => (tbl, true)

end Functions

end HTable

/-! ### What the writes do -/

namespace Chains

variable {m m' : Chains ν} {p : NodePtr} {v : Option NodePtr} {i : Nat}

/-- The nodes are the same apart from their pointers. -/
def SameNodes (m m' : Chains ν) : Prop :=
  m'.nodes.map (fun n => (n.hash, n.content)) = m.nodes.map fun n => (n.hash, n.content)

theorem SameNodes.refl (m : Chains ν) : SameNodes m m := rfl

theorem SameNodes.trans {m₁ m₂ m₃ : Chains ν} (h : SameNodes m₁ m₂) (h' : SameNodes m₂ m₃) :
    SameNodes m₁ m₃ := Eq.trans h' h

theorem SameNodes.length_eq (h : SameNodes m m') : m'.nodes.length = m.nodes.length := by
  simpa using congrArg List.length h

/-- The hash and the content of a node are what they were. -/
theorem SameNodes.getElem? (h : SameNodes m m') (p : NodePtr) :
    m'.nodes[p]?.map (fun n => (n.hash, n.content)) = m.nodes[p]?.map fun n =>
      (n.hash, n.content) := by
  rw [← List.getElem?_map, ← List.getElem?_map, h]

/-- The node at an address has a hash that leads to a bucket. -/
def At (m : Chains ν) (size i : Nat) (p : NodePtr) : Prop :=
  ∃ n, m.nodes[p]? = some n ∧ n.hash.toNat % size = i

/-- The bucket of a node is given by its hash. -/
theorem At.congr {size : Nat} (hat : m.At size i p)
    (h : m'.nodes[p]?.map HTableNode.hash = m.nodes[p]?.map HTableNode.hash) : m'.At size i p := by
  obtain ⟨n, hn, hhash⟩ := hat
  rw [hn, Option.map_some, Option.map_eq_some_iff] at h
  obtain ⟨n', hn', heq⟩ := h
  refine ⟨n', hn', ?_⟩
  rw [heq, hhash]

theorem At.of_sameNodes {size : Nat} (hat : m.At size i p) (h : SameNodes m m') :
    m'.At size i p := by
  have hfst := congrArg (Option.map Prod.fst) (h.getElem? p)
  rw [Option.map_map, Option.map_map] at hfst
  exact hat.congr hfst

theorem At.lt {size : Nat} (hat : m.At size i p) : p < m.nodes.length := by
  obtain ⟨n, hn, -⟩ := hat
  exact (List.getElem?_eq_some_iff.mp hn).1

/-- The pointers and the hashes of the nodes are the same. -/
def SameLinks (m m' : Chains ν) : Prop :=
  m'.nodes.map (fun n => (n.next, n.hash)) = m.nodes.map fun n => (n.next, n.hash)

theorem SameLinks.getElem? (h : SameLinks m m') (p : NodePtr) :
    m'.nodes[p]?.map (fun n => (n.next, n.hash)) = m.nodes[p]?.map fun n => (n.next, n.hash) := by
  rw [← List.getElem?_map, ← List.getElem?_map, h]

theorem SameLinks.next_eq (h : SameLinks m m') : m'.next = m.next := by
  funext p
  have hfst := congrArg (Option.bind · Prod.fst) (h.getElem? p)
  simp only [Option.bind_map] at hfst
  exact hfst

theorem SameLinks.length_eq (h : SameLinks m m') : m'.nodes.length = m.nodes.length := by
  simpa using congrArg List.length h

theorem At.of_sameLinks {size : Nat} (hat : m.At size i p) (h : SameLinks m m') :
    m'.At size i p := by
  have hsnd := congrArg (Option.map Prod.snd) (h.getElem? p)
  rw [Option.map_map, Option.map_map] at hsnd
  exact hat.congr hsnd

theorem exists_setItem (h : i < m.items.length) (v : Option NodePtr) :
    m.setItem i v = some { m with items := m.items.set i v } := if_pos h

/-- A write to the pointer of a node. -/
theorem exists_setNext (h : p < m.nodes.length) (v : Option NodePtr) :
    ∃ m', m.setNext p v = some m' ∧ m'.items = m.items ∧ m'.next = Function.update m.next p v ∧
      SameNodes m m' := by
  have hn : m.nodes[p]? = some m.nodes[p] := List.getElem?_eq_getElem h
  rw [setNext, hn, Option.map_some]
  refine ⟨_, rfl, rfl, ?_, ?_⟩
  · funext q
    by_cases hq : q = p
    · subst hq
      rw [Function.update_self, next, List.getElem?_set_self h]
      rfl
    · rw [Function.update_of_ne hq, next, next, List.getElem?_set_ne (Ne.symm hq)]
  · exact map_set_eq_self hn rfl

/-- The walk along a chain finds the first node of a kind. -/
theorem search_eq {found : ν → Bool} {rounds : Nat} {b : List NodePtr} (hchain : Chain m.next b)
    (hvalid : ∀ p ∈ b, p < m.nodes.length) (hrounds : b.length ≤ rounds) :
    m.search found rounds b.head? =
      some (b.find? fun p => m.nodes[p]?.any fun n => found n.content) := by
  induction b generalizing rounds with
  | nil =>
    cases rounds with
    | zero => rfl
    | succ rounds => rfl
  | cons p b ih =>
    cases rounds with
    | zero => exact absurd hrounds (Nat.not_succ_le_zero _)
    | succ rounds =>
      obtain ⟨n, hn⟩ : ∃ n, m.nodes[p]? = some n :=
        ⟨_, List.getElem?_eq_getElem (hvalid p List.mem_cons_self)⟩
      have hnext : n.next = b.head? := by
        rw [← hchain.1, next, hn]
        rfl
      have hrest := ih hchain.2 (fun q hq => hvalid q (List.mem_cons_of_mem p hq))
        (Nat.le_of_succ_le_succ hrounds)
      rw [List.head?_cons, search, hn, Option.bind_some, List.find?_cons, hn, Option.any_some]
      cases found n.content with
      | true => rfl
      | false => simpa [hnext] using hrest

end Chains

end Schaufel
