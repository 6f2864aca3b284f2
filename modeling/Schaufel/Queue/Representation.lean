import Mathlib.Data.List.Dedup
import Schaufel.Foundation.PointerChain
import Schaufel.Queue.Model

/-!
# What the memory of a queue represents

`Spells q ps es` says that the memory of the queue `q` represents the sequence `es` of entries, the
nodes being at the addresses `ps`: the doubly linked list of the queue visits `ps` in both
directions, the `xnext` list of every mark visits exactly the addresses of that mark, and all head
and tail pointers and counters agree with these lists.

The two operations on the memory are specified against this relation: `link_spec` appends one entry
at the end, `take_spec` removes the oldest entry of a mark.  Both also say that the operation does
not fail, that is, that it dereferences only live nodes.
-/

namespace Schaufel

/-- An entry of the routed queue. -/
structure Entry (δ μ : Type) where
  mark : UInt32
  data : Option δ
  datalen : Nat
  metadata : Option μ
  deriving DecidableEq, Repr

/-- The entry a message makes in the queue. -/
def Message.entry {δ μ : Type} (msg : Message δ μ) : Entry δ μ :=
  ⟨msg.mark, msg.data, msg.datalen, msg.metadata⟩

@[simp] theorem Message.entry_mark {δ μ : Type} (msg : Message δ μ) : msg.entry.mark = msg.mark :=
  rfl

/-! ### Views of the heap -/

section Views

variable {δ μ : Type}

/-- The `next` pointer at an address. -/
def nextOf (h : Heap δ μ) (p : Ptr) : Option Ptr := (h p).bind MessageList.next

/-- The `prev` pointer at an address. -/
def prevOf (h : Heap δ μ) (p : Ptr) : Option Ptr := (h p).bind MessageList.prev

/-- The `xnext` pointer at an address. -/
def xnextOf (h : Heap δ μ) (p : Ptr) : Option Ptr := (h p).bind MessageList.xnext

/-- The message at an address. -/
def msgAt (h : Heap δ μ) (p : Ptr) : Option (Message δ μ) := (h p).map MessageList.msg

/-- The addresses of `ps` whose message has the mark `m`. -/
def ofMark (h : Heap δ μ) (m : UInt32) (ps : List Ptr) : List Ptr :=
  ps.filter fun p => (msgAt h p).map Message.mark = some m

/-- A pointer field of a heap after one node was written. -/
theorem bind_update (h : Heap δ μ) (p : Ptr) (n : MessageList δ μ)
    (f : MessageList δ μ → Option Ptr) :
    (fun a => (Function.update h p (some n) a).bind f) =
      Function.update (fun a => (h a).bind f) p (f n) := by
  funext a
  by_cases ha : a = p
  · subst ha
    simp
  · simp [Function.update_of_ne ha]

/-- Writing back the value a pointer field already has changes nothing. -/
theorem bind_update_of_eq {h : Heap δ μ} {p : Ptr} {n : MessageList δ μ} (hp : h p = some n)
    {n' : MessageList δ μ} {f : MessageList δ μ → Option Ptr} (hf : f n' = f n) :
    (fun a => (Function.update h p (some n') a).bind f) = fun a => (h a).bind f := by
  rw [bind_update, hf]
  refine Function.update_eq_self_iff.mpr ?_
  simp [hp]

/-- Writing back a node with the same message leaves all messages in place. -/
theorem msgAt_update_of_eq {h : Heap δ μ} {p : Ptr} {n : MessageList δ μ} (hp : h p = some n)
    {n' : MessageList δ μ} (hf : n'.msg = n.msg) :
    msgAt (Function.update h p (some n')) = msgAt h := by
  funext a
  by_cases ha : a = p
  · subst ha
    simp [msgAt, hp, hf]
  · simp [msgAt, Function.update_of_ne ha]

/-- Assigning to the `next` field of a live node. -/
theorem assign_next {h : Heap δ μ} {p : Ptr} (hp : (h p).isSome) (v : Option Ptr) :
    ∃ h', assign h p (fun n => { n with next := v }) = some h' ∧
      nextOf h' = Function.update (nextOf h) p v ∧ prevOf h' = prevOf h ∧
      xnextOf h' = xnextOf h ∧ msgAt h' = msgAt h ∧ (∀ a, a ≠ p → h' a = h a) := by
  obtain ⟨n, hn⟩ := Option.isSome_iff_exists.mp hp
  refine ⟨Function.update h p (some { n with next := v }), ?_, ?_, ?_, ?_, ?_, ?_⟩
  · simp [assign, hn]
  · exact bind_update _ _ _ _
  · exact bind_update_of_eq hn rfl
  · exact bind_update_of_eq hn rfl
  · exact msgAt_update_of_eq hn rfl
  · exact fun a ha => Function.update_of_ne ha _ _

/-- Assigning to the `prev` field of a live node. -/
theorem assign_prev {h : Heap δ μ} {p : Ptr} (hp : (h p).isSome) (v : Option Ptr) :
    ∃ h', assign h p (fun n => { n with prev := v }) = some h' ∧
      nextOf h' = nextOf h ∧ prevOf h' = Function.update (prevOf h) p v ∧
      xnextOf h' = xnextOf h ∧ msgAt h' = msgAt h ∧ (∀ a, a ≠ p → h' a = h a) := by
  obtain ⟨n, hn⟩ := Option.isSome_iff_exists.mp hp
  refine ⟨Function.update h p (some { n with prev := v }), ?_, ?_, ?_, ?_, ?_, ?_⟩
  · simp [assign, hn]
  · exact bind_update_of_eq hn rfl
  · exact bind_update _ _ _ _
  · exact bind_update_of_eq hn rfl
  · exact msgAt_update_of_eq hn rfl
  · exact fun a ha => Function.update_of_ne ha _ _

/-- Assigning to the `xnext` field of a live node. -/
theorem assign_xnext {h : Heap δ μ} {p : Ptr} (hp : (h p).isSome) (v : Option Ptr) :
    ∃ h', assign h p (fun n => { n with xnext := v }) = some h' ∧
      nextOf h' = nextOf h ∧ prevOf h' = prevOf h ∧
      xnextOf h' = Function.update (xnextOf h) p v ∧ msgAt h' = msgAt h ∧
      (∀ a, a ≠ p → h' a = h a) := by
  obtain ⟨n, hn⟩ := Option.isSome_iff_exists.mp hp
  refine ⟨Function.update h p (some { n with xnext := v }), ?_, ?_, ?_, ?_, ?_, ?_⟩
  · simp [assign, hn]
  · exact bind_update_of_eq hn rfl
  · exact bind_update_of_eq hn rfl
  · exact bind_update _ _ _ _
  · exact msgAt_update_of_eq hn rfl
  · exact fun a ha => Function.update_of_ne ha _ _

/-- An address is live exactly when it holds a message. -/
theorem isSome_of_msgAt {h : Heap δ μ} {p : Ptr} : (h p).isSome = (msgAt h p).isSome := by
  simp [msgAt]

end Views

/-! ### The lists in memory -/

section Lists

variable {δ μ : Type}

/-- The doubly linked list of the queue visits the addresses `ps`. -/
structure GlobalList (q : Queue δ μ) (ps : List Ptr) : Prop where
  /-- No node is visited twice. -/
  nodup : ps.Nodup
  /-- All nodes are live. -/
  live : ∀ p ∈ ps, (q.heap p).isSome
  /-- `q->first` is the first node. -/
  first : q.first = ps.head?
  /-- `q->last` is the last node. -/
  last : q.last = ps.getLast?
  /-- The `next` pointers run through the list. -/
  next : Chain (nextOf q.heap) ps
  /-- The `prev` pointers run through the list backwards. -/
  prev : Chain (prevOf q.heap) ps.reverse

/-- The `xnext` list of a `struct Xmark` visits the addresses `ps`. -/
structure XmarkList (h : Heap δ μ) (x : Xmark) (ps : List Ptr) : Prop where
  /-- `x->first` is the first node. -/
  first : x.first = ps.head?
  /-- `x->last` is the last node. -/
  last : x.last = ps.getLast?
  /-- The `xnext` pointers run through the list. -/
  xnext : Chain (xnextOf h) ps
  /-- `x->count` is the number of nodes. -/
  count : x.count = ps.length

/-- The memory of the queue represents the entries `es`, their nodes being at the addresses `ps`. -/
structure Spells (q : Queue δ μ) (ps : List Ptr) (es : List (Entry δ μ)) : Prop where
  /-- The list of the queue visits `ps`. -/
  list : GlobalList q ps
  /-- The messages at these addresses make the entries, in order. -/
  entries : ps.map (fun p => (msgAt q.heap p).map Message.entry) = es.map some
  /-- `q->length` is the number of entries. -/
  length : q.length = es.length
  /-- The list of a mark visits exactly the nodes of that mark. -/
  xmark : ∀ m x, binFind q.xtree m = some x → XmarkList q.heap x (ofMark q.heap m ps)
  /-- Every mark in the queue has an entry in the tree. -/
  known : ∀ e ∈ es, (binFind q.xtree e.mark).isSome

/-- The list of the queue after a fresh node was linked behind the last one. -/
theorem GlobalList.link {q : Queue δ μ} {ps : List Ptr} (hl : GlobalList q ps) {p : Ptr}
    (hp : p ∉ ps) (hlive : (q.heap p).isSome) (hnext : nextOf q.heap p = none)
    (hprev : prevOf q.heap p = none) :
    ∃ h, q.linkGlobal p =
        some { q with heap := h, first := (ps ++ [p]).head?, last := some p } ∧
      Chain (nextOf h) (ps ++ [p]) ∧ Chain (prevOf h) (ps ++ [p]).reverse ∧
      xnextOf h = xnextOf q.heap ∧ msgAt h = msgAt q.heap ∧
      (∀ a, a ∉ ps → a ≠ p → h a = q.heap a) := by
  cases hlast : ps.getLast? with
  | none =>
    obtain rfl : ps = [] := List.getLast?_eq_none_iff.mp hlast
    refine ⟨q.heap, ?_, ?_, ?_, rfl, rfl, fun _ _ _ => rfl⟩
    · simp [Queue.linkGlobal, hl.last]
    · simp [hnext]
    · simp [hprev]
  | some l =>
    have hmem : l ∈ ps := List.mem_of_getLast? hlast
    have hlp : l ≠ p := fun h => hp (h ▸ hmem)
    obtain ⟨h₁, heq₁, hn₁, hp₁, hx₁, hm₁, hf₁⟩ := assign_prev hlive (some l)
    have hlive₁ : (h₁ l).isSome := by
      rw [isSome_of_msgAt, hm₁, ← isSome_of_msgAt]
      exact hl.live l hmem
    obtain ⟨h₂, heq₂, hn₂, hp₂, hx₂, hm₂, hf₂⟩ := assign_next hlive₁ (some p)
    have hfirst : (ps ++ [p]).head? = q.first := by
      rw [hl.first]
      cases ps with
      | nil => simp at hlast
      | cons a ps => rfl
    refine ⟨h₂, ?_, ?_, ?_, hx₂.trans hx₁, hm₂.trans hm₁, ?_⟩
    · simp [Queue.linkGlobal, Queue.modifyNode, hl.last, hlast, heq₁, heq₂, hfirst]
    · rw [hn₂, hn₁]
      exact hl.next.concat hl.nodup hp hnext hlast
    · rw [hp₂, hp₁, List.reverse_append]
      refine ⟨?_, hl.prev.update_of_not_mem (by simpa using hp) _⟩
      simp [List.head?_reverse, hlast]
    · intro a ha hap
      have hal : a ≠ l := fun h => ha (h ▸ hmem)
      exact (hf₂ a hal).trans (hf₁ a hap)

/-- The list of the queue after a node was spliced out of the middle. -/
theorem GlobalList.unlink {q : Queue δ μ} {l₁ l₂ : List Ptr} {a : Ptr}
    (hl : GlobalList q (l₁ ++ a :: l₂)) :
    ∃ h, q.unlinkGlobal l₂.head? l₁.getLast? =
        some { q with heap := h, first := (l₁ ++ l₂).head?, last := (l₁ ++ l₂).getLast? } ∧
      Chain (nextOf h) (l₁ ++ l₂) ∧ Chain (prevOf h) (l₁ ++ l₂).reverse ∧
      xnextOf h = xnextOf q.heap ∧ msgAt h = msgAt q.heap ∧
      (∀ b, b ∉ l₁ ++ l₂ → h b = q.heap b) := by
  have hrev : (l₁ ++ a :: l₂).reverse = l₂.reverse ++ a :: l₁.reverse := by simp
  have hnd : (l₂.reverse ++ a :: l₁.reverse).Nodup := hrev ▸ List.nodup_reverse.mpr hl.nodup
  have hprev := hl.prev
  rw [hrev] at hprev
  -- the node behind the removed one gets its `prev` pointer, or `q->last` does
  obtain ⟨h₁, heq₁, hn₁, hp₁, hx₁, hm₁, hf₁⟩ : ∃ h,
      q.relinkNext l₂.head? l₁.getLast? =
        some { q with heap := h, last := (l₁ ++ l₂).getLast? } ∧
      nextOf h = nextOf q.heap ∧ Chain (prevOf h) (l₂.reverse ++ l₁.reverse) ∧
      xnextOf h = xnextOf q.heap ∧ msgAt h = msgAt q.heap ∧
      (∀ b, b ∉ l₁ ++ l₂ → h b = q.heap b) := by
    cases l₂ with
    | nil =>
      refine ⟨q.heap, ?_, rfl, by simpa using hprev.2, rfl, rfl, fun _ _ => rfl⟩
      simp [Queue.relinkNext]
    | cons n l₂ =>
      obtain ⟨h, heq, hn, hp, hx, hm, hf⟩ :=
        assign_prev (hl.live n (by simp)) l₁.getLast?
      refine ⟨h, ?_, hn, ?_, hx, hm, fun b hb => hf b ?_⟩
      · simp [Queue.relinkNext, Queue.modifyNode, heq, hl.last]
      · rw [hp, ← List.head?_reverse]
        exact hprev.unlink hnd (by simp)
      · rintro rfl
        simp at hb
  -- the node before the removed one gets its `next` pointer, or `q->first` does
  cases hlast : l₁.getLast? with
  | none =>
    obtain rfl : l₁ = [] := List.getLast?_eq_none_iff.mp hlast
    refine ⟨h₁, ?_, ?_, by simpa using hp₁, hx₁, hm₁, hf₁⟩
    · rw [hlast] at heq₁
      simp [Queue.unlinkGlobal, heq₁, Queue.relinkPrev]
    · rw [hn₁]
      exact hl.next.2
  | some b =>
    have hmem : b ∈ l₁ := List.mem_of_getLast? hlast
    have hlive : (h₁ b).isSome := by
      rw [isSome_of_msgAt, hm₁, ← isSome_of_msgAt]
      exact hl.live b (List.mem_append_left _ hmem)
    obtain ⟨h, heq, hn, hp, hx, hm, hf⟩ := assign_next hlive l₂.head?
    have hfirst : (l₁ ++ l₂).head? = q.first := by
      rw [hl.first]
      cases l₁ with
      | nil => simp at hlast
      | cons c l₁ => rfl
    refine ⟨h, ?_, ?_, ?_, hx.trans hx₁, hm.trans hm₁, fun c hc => ?_⟩
    · rw [hlast] at heq₁
      simp [Queue.unlinkGlobal, heq₁, Queue.relinkPrev, Queue.modifyNode, heq, hfirst]
    · rw [hn, hn₁]
      exact hl.next.unlink hl.nodup hlast
    · rw [hp, List.reverse_append]
      exact hp₁
    · have hcb : c ≠ b := fun h => hc (h ▸ List.mem_append_left _ hmem)
      exact (hf c hcb).trans (hf₁ c hc)

/-- The list of a mark after a fresh node was linked behind its last one. -/
theorem XmarkList.link {q : Queue δ μ} {m : UInt32} {x : Xmark} {xs : List Ptr}
    (hx : XmarkList q.heap x xs) (hfind : binFind q.xtree m = some x) (hnd : xs.Nodup)
    (hlive : ∀ a ∈ xs, (q.heap a).isSome) {p : Ptr} (hp : p ∉ xs)
    (hxnext : xnextOf q.heap p = none) :
    ∃ h t x', q.linkXmark p m = some { q with heap := h, xtree := t } ∧
      binFind t m = some x' ∧ (∀ m', m' ≠ m → binFind t m' = binFind q.xtree m') ∧
      XmarkList h { x' with count := x'.count + 1 } (xs ++ [p]) ∧
      nextOf h = nextOf q.heap ∧ prevOf h = prevOf q.heap ∧ msgAt h = msgAt q.heap ∧
      (∀ b, b ∉ xs → h b = q.heap b) := by
  cases hlast : xs.getLast? with
  | none =>
    obtain rfl : xs = [] := List.getLast?_eq_none_iff.mp hlast
    refine ⟨q.heap, binModify m (fun x => { x with last := some p, first := some p }) q.xtree,
      { x with last := some p, first := some p }, ?_, ?_, ?_, ?_, rfl, rfl, rfl, fun _ _ => rfl⟩
    · simp [Queue.linkXmark, hfind, hx.last, Queue.modifyXmark]
    · rw [binFind_binModify, if_pos rfl, hfind]
      rfl
    · intro m' hm'
      rw [binFind_binModify, if_neg hm']
    · exact ⟨rfl, rfl, ⟨hxnext, trivial⟩, by simp [hx.count]⟩
  | some l =>
    obtain ⟨h, heq, hn, hpr, hxn, hm, hf⟩ :=
      assign_xnext (hlive l (List.mem_of_getLast? hlast)) (some p)
    refine ⟨h, binModify m (fun x => { x with last := some p }) q.xtree,
      { x with last := some p }, ?_, ?_, ?_, ?_, hn, hpr, hm, fun b hb => hf b ?_⟩
    · simp [Queue.linkXmark, hfind, hx.last, hlast, Queue.modifyNode, heq, Queue.modifyXmark]
    · rw [binFind_binModify, if_pos rfl, hfind]
      rfl
    · intro m' hm'
      rw [binFind_binModify, if_neg hm']
    · refine ⟨?_, by simp, ?_, by simp [hx.count]⟩
      · rw [hx.first]
        cases xs with
        | nil => simp at hlast
        | cons c xs => rfl
      · rw [hxn]
        exact hx.xnext.concat hnd hp hxnext hlast
    · rintro rfl
      exact hb (List.mem_of_getLast? hlast)

/-- The addresses of a mark only depend on the messages in memory. -/
theorem ofMark_congr {h h' : Heap δ μ} {ps : List Ptr} (hm : ∀ p ∈ ps, msgAt h' p = msgAt h p)
    (m : UInt32) : ofMark h' m ps = ofMark h m ps :=
  List.filter_congr fun p hp => by rw [hm p hp]

/-- Appending an address appends it to the list of its own mark only. -/
theorem ofMark_concat {h : Heap δ μ} {p : Ptr} {msg : Message δ μ} (hp : msgAt h p = some msg)
    (m : UInt32) (ps : List Ptr) :
    ofMark h m (ps ++ [p]) = if msg.mark = m then ofMark h m ps ++ [p] else ofMark h m ps := by
  unfold ofMark
  rw [List.filter_append]
  split <;> simp_all

/-- The list of a mark is left alone by an operation that keeps the `xnext` pointers of its
nodes. -/
theorem XmarkList.congr {h h' : Heap δ μ} {x : Xmark} {xs : List Ptr} (hx : XmarkList h x xs)
    (hxn : ∀ p ∈ xs, xnextOf h' p = xnextOf h p) : XmarkList h' x xs :=
  ⟨hx.first, hx.last, hx.xnext.congr hxn, hx.count⟩

/-! ### Specification of the two operations -/

/-- Linking a fresh node appends its entry to the represented sequence. -/
theorem link_spec {q : Queue δ μ} {ps : List Ptr} {es : List (Entry δ μ)} (hs : Spells q ps es)
    {p : Ptr} {msg : Message δ μ} (hnode : q.heap p = some ⟨msg, none, none, none⟩) (hp : p ∉ ps)
    (hfind : (binFind q.xtree msg.mark).isSome) :
    ∃ q', q.link p msg.mark = some q' ∧ Spells q' (ps ++ [p]) (es ++ [msg.entry]) ∧
      (∀ a, a ∉ ps → a ≠ p → q'.heap a = q.heap a) ∧
      (∀ m, (binFind q'.xtree m).isSome = (binFind q.xtree m).isSome) := by
  obtain ⟨x, hx⟩ := Option.isSome_iff_exists.mp hfind
  have hxs := hs.xmark _ x hx
  have hsub : ∀ a ∈ ofMark q.heap msg.mark ps, a ∈ ps := fun a ha => List.mem_of_mem_filter ha
  obtain ⟨h₁, t, x', heq₁, ht, ht', hx₁, hn₁, hp₁, hm₁, hf₁⟩ :=
    hxs.link hx (hs.list.nodup.filter _) (fun a ha => hs.list.live a (hsub a ha))
      (fun ha => hp (hsub p ha)) (by simp [xnextOf, hnode])
  have hmsg : msgAt q.heap p = some msg := by simp [msgAt, hnode]
  have hlive₁ : ∀ a ∈ ps, (h₁ a).isSome := by
    intro a ha
    rw [isSome_of_msgAt, hm₁, ← isSome_of_msgAt]
    exact hs.list.live a ha
  have hl₁ : GlobalList { q with heap := h₁, xtree := t } ps :=
    ⟨hs.list.nodup, hlive₁, hs.list.first, hs.list.last, hn₁ ▸ hs.list.next, hp₁ ▸ hs.list.prev⟩
  have hnext : nextOf h₁ p = none := by
    rw [hn₁]
    simp [nextOf, hnode]
  have hprev : prevOf h₁ p = none := by
    rw [hp₁]
    simp [prevOf, hnode]
  have hlivep : (h₁ p).isSome := by simp [isSome_of_msgAt, hm₁, hmsg]
  obtain ⟨h₂, heq₂, hn₂, hp₂, hx₂, hm₂, hf₂⟩ := hl₁.link hp hlivep hnext hprev
  have hm : msgAt h₂ = msgAt q.heap := hm₂.trans hm₁
  have hfind' : ∀ m, binFind (binModify msg.mark (fun x => { x with count := x.count + 1 }) t) m =
      if m = msg.mark then some { x' with count := x'.count + 1 } else binFind q.xtree m := by
    intro m
    rw [binFind_binModify, ht]
    split
    · rfl
    · exact ht' m ‹_›
  refine ⟨{ q with
    heap := h₂, first := (ps ++ [p]).head?, last := some p, length := q.length + 1
    added := q.added + 1
    xtree := binModify msg.mark (fun x => { x with count := x.count + 1 }) t }, ?_, ?_, ?_, ?_⟩
  · simp [Queue.link, heq₁, heq₂, Queue.modifyXmark]
  · refine ⟨⟨?_, ?_, rfl, by simp, hn₂, hp₂⟩, ?_, by simp [hs.length], ?_, ?_⟩
    · rw [← List.concat_eq_append]
      exact hs.list.nodup.concat hp
    · intro a ha
      rw [isSome_of_msgAt, hm, ← isSome_of_msgAt]
      rcases List.mem_append.mp ha with ha | ha
      · exact hs.list.live a ha
      · obtain rfl := List.mem_singleton.mp ha
        simp [hnode]
    · simp [hm, hs.entries, hmsg]
    · intro m y hy
      rw [hfind'] at hy
      rw [ofMark_congr (fun a _ => congrFun hm a), ofMark_concat hmsg]
      by_cases hmm : m = msg.mark
      · subst hmm
        rw [if_pos rfl, Option.some.injEq] at hy
        rw [if_pos rfl, ← hy]
        exact hx₁.congr fun a _ => congrFun hx₂ a
      · rw [if_neg hmm] at hy
        rw [if_neg (Ne.symm hmm)]
        refine (hs.xmark m y hy).congr fun a ha => ?_
        -- the nodes of another mark are not touched at all
        have hne : a ∉ ofMark q.heap msg.mark ps := by
          intro ha'
          have h₁ := of_decide_eq_true (List.mem_filter.mp ha).2
          have h₂ := of_decide_eq_true (List.mem_filter.mp ha').2
          exact hmm (Option.some.inj (h₁.symm.trans h₂))
        have hxa : xnextOf h₂ a = xnextOf h₁ a := congrFun hx₂ a
        rw [hxa, xnextOf, xnextOf, hf₁ a hne]
    · intro e he
      rw [hfind']
      split
      · rfl
      · rcases List.mem_append.mp he with he | he
        · exact hs.known e he
        · obtain rfl := List.mem_singleton.mp he
          exact absurd rfl ‹¬ _›
  · intro a ha hap
    exact (hf₂ a ha hap).trans (hf₁ a fun h => ha (hsub a h))
  · intro m
    rw [hfind']
    split
    · subst m
      rw [hx]
      rfl
    · rfl

/-- The fields of a queue after the counters were adjusted. -/
theorem settle_eq (q : Queue δ μ) (m : UInt32) :
    q.settle m = { q with
      length := if q.first = none then 0 else q.length - 1
      delivered := q.delivered + 1
      last := if q.first = none then none else q.last
      xtree := binModify m
        (fun x => if x.first = none then { x with last := none, count := 0 } else x)
        (binModify m (fun x => { x with count := x.count - 1 }) q.xtree) } := by
  unfold Queue.settle Queue.modifyXmark
  by_cases h : q.first = none
  · simp [h]
  · simp [h]

/-- The list of a mark after its first node was taken out. -/
theorem XmarkList.tail {h : Heap δ μ} {x : Xmark} {a : Ptr} {xs : List Ptr}
    (hx : XmarkList h x (a :: xs)) :
    XmarkList h (if xs.head? = none then { x with first := xs.head?, last := none, count := 0 }
      else { x with first := xs.head?, count := x.count - 1 }) xs := by
  cases xs with
  | nil => exact ⟨rfl, rfl, trivial, rfl⟩
  | cons b xs =>
    refine ⟨rfl, ?_, hx.xnext.2, ?_⟩
    · simp [hx.last]
    · simp [hx.count]

/-- Cutting the addresses at a node cuts the represented sequence at its entry. -/
theorem entries_split {h : Heap δ μ} {l₁ l₂ : List Ptr} {a : Ptr} {es : List (Entry δ μ)}
    (he : (l₁ ++ a :: l₂).map (fun p => (msgAt h p).map Message.entry) = es.map some) :
    ∃ es₁ e es₂, es = es₁ ++ e :: es₂ ∧
      l₁.map (fun p => (msgAt h p).map Message.entry) = es₁.map some ∧
      (msgAt h a).map Message.entry = some e ∧
      l₂.map (fun p => (msgAt h p).map Message.entry) = es₂.map some := by
  rw [List.map_append, List.map_cons] at he
  obtain ⟨es₁, es', rfl, h₁, h'⟩ := List.map_eq_append_iff.mp he.symm
  obtain ⟨e, es₂, rfl, h₂, h₃⟩ := List.map_eq_cons_iff.mp h'
  exact ⟨es₁, e, es₂, rfl, h₁.symm, h₂.symm, h₃.symm⟩

/-- The marks of the entries are the marks of the messages in memory. -/
theorem exists_addr_of_entry {h : Heap δ μ} {ps : List Ptr} {es : List (Entry δ μ)}
    (he : ps.map (fun p => (msgAt h p).map Message.entry) = es.map some) {e : Entry δ μ}
    (hmem : e ∈ es) : ∃ p ∈ ps, (msgAt h p).map Message.mark = some e.mark := by
  have hsome : some e ∈ ps.map fun p => (msgAt h p).map Message.entry := by
    rw [he]
    exact List.mem_map_of_mem hmem
  obtain ⟨p, hp, hpe⟩ := List.mem_map.mp hsome
  obtain ⟨msg, hmsg, rfl⟩ := Option.map_eq_some_iff.mp hpe
  exact ⟨p, hp, by rw [hmsg]; rfl⟩

/-- Freeing a node outside a list does not concern the list. -/
theorem free_apply_of_mem {h : Heap δ μ} {a : Ptr} {l : List Ptr} (ha : a ∉ l) :
    ∀ b ∈ l, Function.update h a none b = h b := by
  intro b hb
  have hba : b ≠ a := by
    rintro rfl
    exact ha hb
  exact Function.update_of_ne hba _ _

/-- A queue whose lists skip the node `a`, the oldest one of its mark, represents the sequence
without the entry of `a`. -/
theorem Spells.skip {q q' : Queue δ μ} {l₁ l₂ : List Ptr} {a : Ptr} {es₁ es₂ : List (Entry δ μ)}
    {msg : Message δ μ} {x : Xmark} (hs : Spells q (l₁ ++ a :: l₂) (es₁ ++ msg.entry :: es₂))
    (hes₁ : l₁.map (fun p => (msgAt q.heap p).map Message.entry) = es₁.map some)
    (hes₂ : l₂.map (fun p => (msgAt q.heap p).map Message.entry) = es₂.map some)
    (hmsg : msgAt q.heap a = some msg) (hold : ofMark q.heap msg.mark l₁ = [])
    (hfirst : q'.first = (l₁ ++ l₂).head?) (hlast : q'.last = (l₁ ++ l₂).getLast?)
    (hlen : q'.length = (es₁ ++ es₂).length)
    (hnext : Chain (nextOf q'.heap) (l₁ ++ l₂)) (hprev : Chain (prevOf q'.heap) (l₁ ++ l₂).reverse)
    (hm : ∀ b ∈ l₁ ++ l₂, msgAt q'.heap b = msgAt q.heap b)
    (hxn : ∀ b ∈ l₁ ++ l₂, xnextOf q'.heap b = xnextOf q.heap b)
    (hx : XmarkList q.heap x (ofMark q.heap msg.mark l₂))
    (hfind : ∀ m, binFind q'.xtree m = if m = msg.mark then some x else binFind q.xtree m) :
    Spells q' (l₁ ++ l₂) (es₁ ++ es₂) := by
  have hof : ∀ m, ofMark q'.heap m (l₁ ++ l₂) = ofMark q.heap m (l₁ ++ l₂) := ofMark_congr hm
  have hsub : ∀ m, ∀ b ∈ ofMark q.heap m (l₁ ++ l₂), b ∈ l₁ ++ l₂ :=
    fun m b hb => List.mem_of_mem_filter hb
  have hmem : ∀ b ∈ l₁ ++ l₂, b ∈ l₁ ++ a :: l₂ := by
    intro b hb
    rcases List.mem_append.mp hb with hb | hb <;> simp [hb]
  refine ⟨⟨?_, ?_, hfirst, hlast, hnext, hprev⟩, ?_, hlen, ?_, ?_⟩
  · exact (List.nodup_cons.mp (List.nodup_middle.mp hs.list.nodup)).2
  · intro b hb
    rw [isSome_of_msgAt, hm b hb, ← isSome_of_msgAt]
    exact hs.list.live b (hmem b hb)
  · rw [List.map_append (f := some), ← hes₁, ← hes₂, ← List.map_append]
    exact List.map_congr_left fun b hb => by rw [hm b hb]
  · intro m y hy
    rw [hfind] at hy
    rw [hof]
    refine XmarkList.congr ?_ fun b hb => hxn b (hsub m b hb)
    by_cases hmm : m = msg.mark
    · subst hmm
      rw [if_pos rfl, Option.some.injEq] at hy
      have hxs : ofMark q.heap msg.mark (l₁ ++ l₂) = ofMark q.heap msg.mark l₂ := by
        rw [ofMark, List.filter_append]
        exact congrArg (· ++ _) hold
      rw [hxs, ← hy]
      exact hx
    · rw [if_neg hmm] at hy
      have hxs : ofMark q.heap m (l₁ ++ l₂) = ofMark q.heap m (l₁ ++ a :: l₂) := by
        have hne : decide ((msgAt q.heap a).map Message.mark = some m) = false := by
          rw [hmsg]
          simpa using Ne.symm hmm
        rw [ofMark, ofMark, List.filter_append, List.filter_append, List.filter_cons, hne]
        rfl
      rw [hxs]
      exact hs.xmark m y hy
  · intro f hf
    rw [hfind]
    split
    · rfl
    · refine hs.known f ?_
      rcases List.mem_append.mp hf with h | h <;> simp [h]

/-- The pointers of a node lead to its neighbours. -/
theorem GlobalList.neighbours {q : Queue δ μ} {l₁ l₂ : List Ptr} {a : Ptr} {r : MessageList δ μ}
    (hl : GlobalList q (l₁ ++ a :: l₂)) (hr : q.heap a = some r) :
    r.next = l₂.head? ∧ r.prev = l₁.getLast? := by
  have hrev : (l₁ ++ a :: l₂).reverse = l₂.reverse ++ a :: l₁.reverse := by simp
  have hchain := hl.prev
  rw [hrev] at hchain
  constructor
  · simpa [nextOf, hr] using hl.next.apply_eq
  · simpa [prevOf, hr] using hchain.apply_eq

/-- The counter after a node was taken out: it is set to zero where nothing is left. -/
theorem Spells.length_skip {q : Queue δ μ} {l₁ l₂ : List Ptr} {a : Ptr} {e : Entry δ μ}
    {es₁ es₂ : List (Entry δ μ)} (hs : Spells q (l₁ ++ a :: l₂) (es₁ ++ e :: es₂)) :
    (if (l₁ ++ l₂).head? = none then (0 : Int) else q.length - 1) = (es₁ ++ es₂).length := by
  have hcard : (l₁ ++ l₂).length = (es₁ ++ es₂).length := by
    have hall := congrArg List.length hs.entries
    simp only [List.length_map, List.length_append, List.length_cons] at hall ⊢
    omega
  split
  · rename_i hnil
    rw [← hcard, List.head?_eq_none_iff.mp hnil]
    rfl
  · rw [hs.length]
    simp only [List.length_append, List.length_cons]
    omega

/-- The marks after the first node of a mark was taken out. -/
theorem binFind_taken {t : List (Node Xmark)} {m : UInt32} {x : Xmark}
    (hfind : binFind t m = some x) (xnext : Option Ptr) (m' : UInt32) :
    binFind (binModify m
        (fun x => if x.first = none then { x with last := none, count := 0 } else x)
        (binModify m (fun x => { x with count := x.count - 1 })
          (binModify m (fun x => { x with first := xnext }) t))) m' =
      if m' = m then
        some (if xnext = none then { x with first := xnext, last := none, count := 0 }
          else { x with first := xnext, count := x.count - 1 })
      else binFind t m' := by
  rw [binFind_binModify, binFind_binModify, binFind_binModify, hfind]
  split
  · simp
  · rw [binFind_binModify, if_neg ‹_›, binFind_binModify, if_neg ‹_›]

/-- Taking a message out removes the oldest entry of the mark from the represented sequence. -/
theorem take_spec {q : Queue δ μ} {ps : List Ptr} {es : List (Entry δ μ)} (hs : Spells q ps es)
    {m : UInt32} {x : Xmark} (hfind : binFind q.xtree m = some x) (hfirst : x.first ≠ none)
    (msg : Message δ μ) :
    ∃ q' ps' e es₁ es₂, es = es₁ ++ e :: es₂ ∧ e.mark = m ∧ (∀ f ∈ es₁, f.mark ≠ m) ∧
      q.take m msg =
        some (q', { msg with data := e.data, datalen := e.datalen, metadata := e.metadata }) ∧
      Spells q' ps' (es₁ ++ es₂) ∧ (∀ a ∈ ps', a ∈ ps) ∧ (∀ a, a ∉ ps → q'.heap a = q.heap a) ∧
      (∀ m', (binFind q'.xtree m').isSome = (binFind q.xtree m').isSome) := by
  have hxs := hs.xmark m x hfind
  obtain ⟨a, xs, hcons⟩ : ∃ a xs, ofMark q.heap m ps = a :: xs := by
    cases hof : ofMark q.heap m ps with
    | nil => exact absurd (by rw [hxs.first, hof]; rfl) hfirst
    | cons a xs => exact ⟨a, xs, rfl⟩
  rw [hcons] at hxs
  obtain ⟨l₁, l₂, rfl, hl₁, ha, hl₂⟩ := List.filter_eq_cons_iff.mp hcons
  obtain ⟨r, hr⟩ := Option.isSome_iff_exists.mp (hs.list.live a (by simp))
  obtain ⟨es₁, e, es₂, rfl, hes₁, he, hes₂⟩ := entries_split hs.entries
  have hmsg : msgAt q.heap a = some r.msg := by simp [msgAt, hr]
  obtain rfl : r.msg.entry = e := by simpa [hmsg] using he
  obtain rfl : r.msg.mark = m := by simpa [hmsg] using ha
  -- the neighbours of the node, as the two lists have them
  have hxnext : r.xnext = xs.head? := by simpa [xnextOf, hr] using hxs.xnext.1
  obtain ⟨hnext, hprev⟩ := hs.list.neighbours hr
  have hl : GlobalList (q.modifyXmark r.msg.mark fun x => { x with first := r.xnext })
      (l₁ ++ a :: l₂) :=
    ⟨hs.list.nodup, hs.list.live, hs.list.first, hs.list.last, hs.list.next, hs.list.prev⟩
  obtain ⟨h, heq, hn, hp, hxn, hm, hf⟩ := hl.unlink
  have hnotin : a ∉ l₁ ++ l₂ := (List.nodup_cons.mp (List.nodup_middle.mp hs.list.nodup)).1
  have hha : h a = some r := (hf a hnotin).trans hr
  have hfree := free_apply_of_mem (h := h) hnotin
  have hlast : (if (l₁ ++ l₂).head? = none then none else (l₁ ++ l₂).getLast?) =
      (l₁ ++ l₂).getLast? := by
    cases l₁ ++ l₂ <;> rfl
  have hlen := hs.length_skip
  set t := binModify r.msg.mark
    (fun x => if x.first = none then { x with last := none, count := 0 } else x)
    (binModify r.msg.mark (fun x => { x with count := x.count - 1 })
      (binModify r.msg.mark (fun x => { x with first := r.xnext }) q.xtree)) with ht
  have hfind' : ∀ m, binFind t m = if m = r.msg.mark then
      some (if xs.head? = none then { x with first := xs.head?, last := none, count := 0 }
        else { x with first := xs.head?, count := x.count - 1 })
      else binFind q.xtree m := by
    intro m
    rw [ht, hxnext]
    exact binFind_taken hfind _ m
  refine ⟨{ q with
    heap := Function.update h a none, first := (l₁ ++ l₂).head?, last := (l₁ ++ l₂).getLast?
    length := ((es₁ ++ es₂).length : Int), delivered := q.delivered + 1, xtree := t },
    l₁ ++ l₂, r.msg.entry, es₁, es₂, rfl, rfl, ?_, ?_, ?_, ?_, ?_, ?_⟩
  · intro f hf' hfm
    obtain ⟨p, hp, hpm⟩ := exists_addr_of_entry hes₁ hf'
    exact hl₁ p hp (by simp [hpm, hfm])
  · simp only [Queue.take, hfind, hxs.first, List.head?_cons, hr, hnext, hprev,
      Option.bind_eq_bind, Option.bind_some]
    rw [heq]
    simp only [settle_eq, Queue.free, Queue.modifyXmark, Option.bind_some, hha, hlen, hlast]
    rfl
  · refine hs.skip hes₁ hes₂ hmsg (List.filter_eq_nil_iff.mpr hl₁) rfl rfl rfl ?_ ?_ ?_ ?_ ?_ hfind'
    · exact hn.congr fun b hb => by simp only [nextOf, hfree b hb]
    · exact hp.congr fun b hb => by simp only [prevOf, hfree b (List.mem_reverse.mp hb)]
    · intro b hb
      have hb' : msgAt (Function.update h a none) b = msgAt h b := by simp only [msgAt, hfree b hb]
      exact hb'.trans (congrFun hm b)
    · intro b hb
      have hb' : xnextOf (Function.update h a none) b = xnextOf h b := by
        simp only [xnextOf, hfree b hb]
      exact hb'.trans (congrFun hxn b)
    · have hxs' : ofMark q.heap r.msg.mark l₂ = xs := hl₂
      rw [hxs']
      exact hxs.tail
  · intro b hb
    rcases List.mem_append.mp hb with hb | hb <;> simp [hb]
  · intro b hb
    have hba : b ≠ a := by
      rintro rfl
      simp at hb
    have hb' : b ∉ l₁ ++ l₂ := by
      intro hmem
      rcases List.mem_append.mp hmem with hmem | hmem <;> simp [hmem] at hb
    exact (Function.update_of_ne hba _ _).trans (hf b hb')
  · intro m
    rw [hfind']
    split
    · subst m
      rw [hfind]
      rfl
    · rfl

end Lists

end Schaufel
