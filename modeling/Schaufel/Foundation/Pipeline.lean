import Mathlib.Data.List.Basic

/-!
# A connection with pipelined requests

A client appends requests to an output buffer, and the buffer is sent when the client asks for a
reply while none has arrived.  The server answers the requests it was sent, in order and whenever it
likes; an answer waits until the client takes it.

`outstanding` counts the requests whose answer was not taken yet.  The answers given are those taken
followed by those that wait, which is carried by the structure itself: what a client loses when it
closes the connection is exactly what waits then, or what the server answers later.

For a server that executes the requests, an answer is the request that was executed.  `Executes`
says that this happens in the order in which the requests were issued.
-/

namespace Schaufel

/-- A connection, with the history of the answers given and of the answers taken. -/
structure Pipeline (α : Type*) where
  /-- Requests in the output buffer of the client. -/
  unsent : Nat
  /-- Requests sent and not answered. -/
  sent : Nat
  /-- Answers the client has not taken. -/
  unread : List α
  /-- All answers given so far. -/
  answered : List α
  /-- The answers the client has taken. -/
  taken : List α
  /-- Answers are taken in the order in which they were given. -/
  inOrder : answered = taken ++ unread

namespace Pipeline

variable {α : Type*}

/-- A fresh connection. -/
def init : Pipeline α := ⟨0, 0, [], [], [], rfl⟩

/-- A request goes to the output buffer. -/
def append (p : Pipeline α) : Pipeline α := { p with unsent := p.unsent + 1 }

/-- The output buffer is sent. -/
def flush (p : Pipeline α) : Pipeline α := { p with unsent := 0, sent := p.sent + p.unsent }

/-- The server answers the oldest requests it has. -/
def serve (p : Pipeline α) (answers : List α) : Option (Pipeline α) :=
  if answers.length ≤ p.sent then
    some { p with
      sent := p.sent - answers.length
      unread := p.unread ++ answers
      answered := p.answered ++ answers
      inOrder := by rw [p.inOrder, List.append_assoc] }
  else none

/-- The client takes the oldest answer, if there is one. -/
def take (p : Pipeline α) : Option (α × Pipeline α) :=
  match h : p.unread with
  | [] => none
  | a :: rest =>
    some (a, { p with
      unread := rest
      taken := p.taken ++ [a]
      inOrder := by rw [p.inOrder, h, List.append_assoc, List.singleton_append] })

/-- The client asks for a reply: the output buffer is sent unless an answer has arrived already
(`buffered`), the server gives `answers` meanwhile, and the oldest answer is taken. -/
def getReply (p : Pipeline α) (buffered : Bool) (answers : List α) : Option (α × Pipeline α) :=
  ((if buffered && !p.unread.isEmpty then p else p.flush).serve answers).bind take

/-- The requests whose answer was not taken. -/
def outstanding (p : Pipeline α) : Nat := p.unsent + p.sent + p.unread.length

@[simp] theorem outstanding_init : (init : Pipeline α).outstanding = 0 := rfl

@[simp] theorem outstanding_append (p : Pipeline α) : p.append.outstanding = p.outstanding + 1 := by
  simp only [outstanding, append]
  omega

@[simp] theorem outstanding_flush (p : Pipeline α) : p.flush.outstanding = p.outstanding := by
  simp only [outstanding, flush]
  omega

theorem serve_eq_some {p q : Pipeline α} {answers : List α} (h : p.serve answers = some q) :
    answers.length ≤ p.sent ∧ q.outstanding = p.outstanding ∧ q.taken = p.taken ∧
      q.unread = p.unread ++ answers := by
  unfold serve at h
  split at h
  · rename_i hle
    obtain rfl := Option.some.inj h
    refine ⟨hle, ?_, rfl, rfl⟩
    simp only [outstanding, List.length_append]
    omega
  · cases h

/-- A server that was sent nothing answers nothing. -/
theorem serve_of_sent_eq_zero {p q : Pipeline α} {answers : List α} (hsent : p.sent = 0)
    (h : p.serve answers = some q) : q = p := by
  obtain rfl : answers = [] := List.length_eq_zero_iff.mp (by have := (serve_eq_some h).1; omega)
  rcases p with ⟨unsent, sent, unread, answered, taken, inOrder⟩
  simp only [serve, List.length_nil, Nat.zero_le, if_true, Nat.sub_zero, List.append_nil,
    Option.some.injEq] at h
  exact h.symm

theorem take_eq_some {p q : Pipeline α} {a : α} (h : p.take = some (a, q)) :
    p.outstanding = q.outstanding + 1 ∧ q.taken = p.taken ++ [a] := by
  unfold take at h
  split at h
  · cases h
  · rename_i b rest hunread
    obtain ⟨rfl, rfl⟩ := Prod.mk.inj (Option.some.inj h)
    refine ⟨?_, rfl⟩
    simp only [outstanding, hunread, List.length_cons]
    omega

/-- Asking for a reply takes one answer, so one request less is outstanding. -/
theorem getReply_eq_some {p q : Pipeline α} {buffered : Bool} {answers : List α} {a : α}
    (h : p.getReply buffered answers = some (a, q)) :
    p.outstanding = q.outstanding + 1 ∧ q.taken = p.taken ++ [a] := by
  obtain ⟨r, hserve, htake⟩ := Option.bind_eq_some_iff.mp h
  obtain ⟨-, hout, htaken, -⟩ := serve_eq_some hserve
  obtain ⟨hout', htaken'⟩ := take_eq_some htake
  rw [← hout', hout, htaken', htaken]
  split
  · exact ⟨rfl, rfl⟩
  · exact ⟨(outstanding_flush p).symm, rfl⟩

/-- An answer that waits can be taken. -/
theorem exists_take {p : Pipeline α} {a : α} {rest : List α} (h : p.unread = a :: rest) :
    ∃ q, p.take = some (a, q) ∧ q.unread = rest ∧ q.unsent = p.unsent := by
  unfold take
  split
  · rename_i hnil
    rw [hnil] at h
    cases h
  · rename_i b rest' hcons
    obtain ⟨rfl, rfl⟩ := List.cons.inj (hcons.symm.trans h)
    exact ⟨_, rfl, rfl, rfl⟩

/-- A server that answers nothing but the oldest request: its answer is the one that is taken. -/
theorem exists_getReply_singleton {p : Pipeline α} (hunread : p.unread = [])
    (hout : 0 < p.outstanding) (buffered : Bool) (a : α) :
    ∃ q, p.getReply buffered [a] = some (a, q) ∧ q.unread = [] ∧ q.unsent = 0 := by
  have hle : [a].length ≤ p.flush.sent := by
    simp only [outstanding, hunread, List.length_nil, Nat.add_zero] at hout
    simp only [flush, List.length_singleton]
    omega
  have hflush : (if buffered && !p.unread.isEmpty then p else p.flush) = p.flush := by
    simp [hunread]
  rw [getReply, hflush, serve, if_pos hle, Option.bind_some]
  refine exists_take ?_
  show p.unread ++ [a] = [a]
  rw [hunread, List.nil_append]

/-- Nothing is lost when a connection is closed on which no request is outstanding. -/
theorem answered_eq_taken_of_outstanding {p q : Pipeline α} {late : List α}
    (hout : p.outstanding = 0) (h : p.serve late = some q) : q.answered = q.taken := by
  have hout : p.unsent + p.sent + p.unread.length = 0 := hout
  obtain rfl := serve_of_sent_eq_zero (by omega) h
  have hunread : q.unread = [] := List.length_eq_zero_iff.mp (by omega)
  rw [q.inOrder, hunread, List.append_nil]

/-! ### A server that executes the requests -/

/-- The server executes up to `n` of the requests it was sent, in the order in which they were
issued. -/
def execute (p : Pipeline α) (issued : List α) (n : Nat) : Pipeline α :=
  (p.serve ((issued.drop p.answered.length).take (min n p.sent))).getD p

/-- The client asks for a reply and waits for it: the server executes `n` requests meanwhile, and
one more if there is no answer yet.  There is no reply if the server has nothing to execute. -/
def awaitReply (p : Pipeline α) (issued : List α) (buffered : Bool) (n : Nat) :
    Option (α × Pipeline α) :=
  if buffered && !p.unread.isEmpty then (p.execute issued n).take
  else (p.flush.execute issued (if p.unread.isEmpty then n + 1 else n)).take

/-- The requests that were executed are the oldest of those issued, and the others are under way. -/
structure Executes (issued : List α) (p : Pipeline α) : Prop where
  /-- Requests are executed in the order in which they were issued. -/
  isPrefix : p.answered <+: issued
  /-- No request is lost or made up. -/
  length_eq : issued.length = p.answered.length + p.sent + p.unsent

section Executes

variable {issued : List α} {p : Pipeline α}

theorem executes_init : Executes [] (init : Pipeline α) := ⟨List.nil_prefix, rfl⟩

theorem Executes.append (h : Executes issued p) (a : α) : Executes (issued ++ [a]) p.append := by
  refine ⟨h.isPrefix.trans (List.prefix_append _ _), ?_⟩
  rw [List.length_append, List.length_singleton, h.length_eq]
  simp only [Pipeline.append]
  omega

theorem Executes.flush (h : Executes issued p) : Executes issued p.flush := by
  refine ⟨h.isPrefix, ?_⟩
  rw [h.length_eq]
  simp only [Pipeline.flush]
  omega

/-- What the server executes are the next requests. -/
theorem Executes.execute (h : Executes issued p) (n : Nat) :
    Executes issued (p.execute issued n) ∧ (p.execute issued n).outstanding = p.outstanding ∧
      (p.execute issued n).unread.length = p.unread.length + min n p.sent := by
  set next := (issued.drop p.answered.length).take (min n p.sent) with hnext
  have hlength : next.length = min n p.sent := by
    have := h.length_eq
    rw [hnext, List.length_take, List.length_drop]
    omega
  have hsplit : p.answered ++ issued.drop p.answered.length = issued := by
    obtain ⟨rest, rfl⟩ := h.isPrefix
    rw [List.drop_left]
  have hserve : p.serve next = some { p with
      sent := p.sent - next.length
      unread := p.unread ++ next
      answered := p.answered ++ next
      inOrder := by rw [p.inOrder, List.append_assoc] } := by
    rw [serve, if_pos (by omega)]
  rw [Pipeline.execute, ← hnext, hserve, Option.getD_some]
  refine ⟨⟨?_, ?_⟩, ?_, ?_⟩
  · show p.answered ++ next <+: issued
    rw [← hsplit, List.prefix_append_right_inj]
    exact List.take_prefix _ _
  · rw [h.length_eq, List.length_append]
    dsimp only
    omega
  · simp only [outstanding, List.length_append]
    omega
  · rw [List.length_append, hlength]

/-- Taking an answer executes nothing. -/
theorem Executes.take (h : Executes issued p) (hunread : 0 < p.unread.length) :
    ∃ a q, p.take = some (a, q) ∧ Executes issued q ∧ q.outstanding + 1 = p.outstanding := by
  obtain ⟨a, rest, hcons⟩ := List.exists_cons_of_length_pos hunread
  have htake : ∃ q, p.take = some (a, q) ∧ q.answered = p.answered ∧ q.sent = p.sent ∧
      q.unsent = p.unsent := by
    unfold Pipeline.take
    split
    · rename_i hnil
      rw [hnil] at hcons
      cases hcons
    · rename_i b rest' hcons'
      obtain ⟨rfl, rfl⟩ := List.cons.inj (hcons'.symm.trans hcons)
      exact ⟨_, rfl, rfl, rfl, rfl⟩
  obtain ⟨q, hq, hanswered, hsent, hunsent⟩ := htake
  refine ⟨a, q, hq, ⟨?_, ?_⟩, (take_eq_some hq).1.symm⟩
  · rw [hanswered]
    exact h.isPrefix
  · rw [hanswered, hsent, hunsent]
    exact h.length_eq

/-- Whoever waits for a reply while a request is outstanding gets one. -/
theorem Executes.awaitReply (h : Executes issued p) (hout : 0 < p.outstanding) (buffered : Bool)
    (n : Nat) :
    ∃ a q, p.awaitReply issued buffered n = some (a, q) ∧ Executes issued q ∧
      q.outstanding + 1 = p.outstanding := by
  unfold Pipeline.awaitReply
  split_ifs with hbuffered hempty
  · obtain ⟨hexec, hsame, hunread⟩ := h.execute n
    rw [← hsame]
    refine hexec.take ?_
    simp only [Bool.and_eq_true, Bool.not_eq_true', List.isEmpty_eq_false_iff] at hbuffered
    have := List.length_pos_iff.mpr hbuffered.2
    omega
  · obtain ⟨hexec, hsame, hunread⟩ := h.flush.execute (n + 1)
    rw [← outstanding_flush p, ← hsame]
    refine hexec.take ?_
    rw [List.isEmpty_iff] at hempty
    simp only [outstanding, hempty, List.length_nil] at hout
    simp only [Pipeline.flush] at hunread ⊢
    omega
  · obtain ⟨hexec, hsame, hunread⟩ := h.flush.execute n
    rw [← outstanding_flush p, ← hsame]
    refine hexec.take ?_
    have := List.length_pos_iff.mpr (mt List.isEmpty_iff.mpr hempty)
    simp only [Pipeline.flush] at hunread ⊢
    omega

/-- Without an outstanding request all of them were executed. -/
theorem Executes.answered_eq (h : Executes issued p) (hout : p.outstanding = 0) :
    p.answered = issued := by
  refine h.isPrefix.eq_of_length ?_
  have := h.length_eq
  simp only [outstanding] at hout
  omega

end Executes

end Pipeline

end Schaufel
