import Schaufel.Foundation.Pipeline
import Schaufel.Foundation.Run

/-!
# The redis consumer and its pipeline

`redis_consumer_consume` keeps up to `pipeline` many `BLPOP` commands under way on a hiredis
connection, which is a `Pipeline` of answers.  Without pipelining each call sends one command and
waits for its answer.  With it, the first calls only append commands; from the call on that fills
the pipeline every call takes one answer and the next one appends a command again, so that all but
one of the commands of the pipeline stay under way between two calls.

`redis_consumer_free` closes the connection and takes none of the answers that are still to come.
The elements that the server has removed from the list for them are gone.
-/

namespace Schaufel

/-- What the server did for one `BLPOP key 1`. -/
inductive Blpop
  /-- An element was removed from the list. -/
  | popped (element : List UInt8)
  /-- The list stayed empty for a second. -/
  | timedOut
  /-- The command was refused, for instance because the key holds something else. -/
  | refused
  deriving DecidableEq, Repr

/-- The element that the server removed from the list. -/
def Blpop.element : Blpop → Option (List UInt8)
  | .popped element => some element
  | .timedOut => none
  | .refused => none

/-- The `redisReply` of hiredis, as far as the consumer looks at it. -/
inductive RedisReply
  | array (elements : List (List UInt8))
  | nil
  | error
  deriving DecidableEq, Repr

/-- The reply in which the server tells what it did. -/
def Blpop.reply (topic : List UInt8) : Blpop → RedisReply
  | .popped element => .array [topic, element]
  | .timedOut => .nil
  | .refused => .error

/-- `struct Meta` of redis.c. -/
structure RedisMeta where
  c : Pipeline Blpop
  topic : List UInt8
  pipeCur : UInt64
  pipeMax : UInt64
  pipeFull : Bool

/-- `redis_meta_init`, for a connection that could be established. -/
def redisMetaInit (topic : List UInt8) (pipeMax : UInt64) : RedisMeta :=
  { c := .init, topic := topic, pipeCur := 0, pipeMax := pipeMax, pipeFull := false }

/-- What the environment does during one call of `redis_consumer_consume`. -/
structure RedisCall where
  /-- `redisAppendCommand` returned `REDIS_OK`. -/
  appended : Bool
  /-- `redisGetReply` returned `REDIS_OK`. -/
  replied : Bool
  /-- hiredis has read an answer before that the consumer did not take. -/
  buffered : Bool
  /-- What the server did for the next commands it was sent. -/
  answers : List Blpop
  deriving DecidableEq, Repr

/-- The data and the length that are set on a message. -/
structure RedisMessage where
  data : List UInt8
  len : Nat
  deriving DecidableEq, Repr

namespace RedisMeta

/-- `redisAppendCommand`; the process aborts if it fails. -/
def appendCommand (m : RedisMeta) (call : RedisCall) : Option RedisMeta :=
  if call.appended then some { m with c := m.c.append } else none

/-- `redis_meta_get_reply`; the process aborts if `redisGetReply` fails. -/
def getReply (m : RedisMeta) (call : RedisCall) : Option (Blpop × RedisMeta) :=
  if call.replied then
    (m.c.getReply call.buffered call.answers).map fun r => (r.1, { m with c := r.2 })
  else none

end RedisMeta

/-- `redis_consumer_handle_reply`: the message that is set, if any. -/
def redisConsumerHandleReply : RedisReply → Option RedisMessage
  | .array [_, element] => some { data := element ++ [0], len := element.length }
  | _ => none

namespace RedisMeta

/-- The call without pipelining: `redisCommand` appends the command and waits for its reply. -/
def consumePlain (m : RedisMeta) (call : RedisCall) : Option (RedisMeta × Option RedisMessage) := do
  let m ← m.appendCommand call
  let (answer, m) ← m.getReply call
  some (m, redisConsumerHandleReply (answer.reply m.topic))

/-- The first half of the call with pipelining: another command if there is room for one. -/
def fillPipe (m : RedisMeta) (call : RedisCall) : Option RedisMeta :=
  if m.pipeCur < m.pipeMax then
    (m.appendCommand call).map fun m => { m with pipeCur := m.pipeCur + 1 }
  else some m

/-- The pipeline is full as soon as no other command may be appended. -/
def markFull (m : RedisMeta) : RedisMeta :=
  if m.pipeMax ≤ m.pipeCur then { m with pipeFull := true } else m

/-- The second half of the call with pipelining: one answer if the pipeline is full. -/
def drainPipe (m : RedisMeta) (call : RedisCall) : Option (RedisMeta × Option RedisMessage) :=
  if m.pipeFull then
    (m.getReply call).map fun r =>
      ({ r.2 with
          pipeCur := r.2.pipeCur - 1
          pipeFull := if r.2.pipeCur - 1 = 0 then false else r.2.pipeFull },
        redisConsumerHandleReply (r.1.reply m.topic))
  else
    -- No reply is asked for; the server may go on with what it was sent.
    (m.c.serve call.answers).map fun c => ({ m with c := c }, none)

/-- `redis_consumer_consume`. -/
def redisConsumerConsume (m : RedisMeta) (call : RedisCall) :
    Option (RedisMeta × Option RedisMessage) :=
  if m.pipeMax = 0 then m.consumePlain call
  else (m.fillPipe call).bind fun m => m.markFull.drainPipe call

end RedisMeta

/-! ### Runs of a consumer -/

/-- A consumer with the elements its calls have handed out. -/
structure RedisConsumer where
  md : RedisMeta
  handed : List (List UInt8)

namespace RedisConsumer

/-- A consumer just made. -/
def init (topic : List UInt8) (pipeMax : UInt64) : RedisConsumer :=
  ⟨redisMetaInit topic pipeMax, []⟩

/-- One call of `redis_consumer_consume` with a message that is empty before it. -/
def consume (s : RedisConsumer) (call : RedisCall) : Option RedisConsumer :=
  (s.md.redisConsumerConsume call).map fun r =>
    ⟨r.1, s.handed ++ (r.2.map fun msg => msg.data.take msg.len).toList⟩

/-- The elements that the server has removed from the list. -/
def popped (s : RedisConsumer) : List (List UInt8) := s.md.c.answered.filterMap Blpop.element

/-- `redis_consumer_free`: `redisFree` closes the connection; the server may still go on with what
it was sent. -/
def free (s : RedisConsumer) (late : List Blpop) : Option RedisConsumer :=
  (s.md.c.serve late).map fun c => { s with md := { s.md with c := c } }

/-! ### What one call does -/

/-- What one call does, for a consumer whose pipeline has room for a command. -/
inductive Step (s : RedisConsumer) (call : RedisCall) : RedisConsumer → Prop
  | plain (a : Blpop) (c : Pipeline Blpop) (hmax : s.md.pipeMax = 0)
      (hreply : s.md.c.append.getReply call.buffered call.answers = some (a, c)) :
      Step s call ⟨{ s.md with c := c }, s.handed ++ a.element.toList⟩
  | reads (a : Blpop) (c : Pipeline Blpop) (hroom : s.md.pipeCur < s.md.pipeMax)
      (hfull : s.md.pipeMax ≤ s.md.pipeCur + 1 ∨ s.md.pipeFull = true)
      (hreply : s.md.c.append.getReply call.buffered call.answers = some (a, c)) :
      Step s call ⟨{ s.md with c := c, pipeFull := !decide (s.md.pipeCur = 0) },
        s.handed ++ a.element.toList⟩
  | fills (c : Pipeline Blpop) (hroom : s.md.pipeCur < s.md.pipeMax)
      (hlast : ¬ s.md.pipeMax ≤ s.md.pipeCur + 1) (hfull : s.md.pipeFull = false)
      (hserve : s.md.c.append.serve call.answers = some c) :
      Step s call ⟨{ s.md with c := c, pipeCur := s.md.pipeCur + 1 }, s.handed⟩

/-- The message that is set for an answer holds the element that was removed. -/
theorem handleReply_reply (topic : List UInt8) (a : Blpop) :
    ((redisConsumerHandleReply (a.reply topic)).map fun msg => msg.data.take msg.len) =
      a.element := by
  cases a with
  | popped element => simp [Blpop.reply, redisConsumerHandleReply, Blpop.element]
  | timedOut => rfl
  | refused => rfl

variable {s s' : RedisConsumer} {call : RedisCall}

/-- A call of which hiredis reports no failure takes the answer it waits for. -/
theorem consume_plain (hmax : s.md.pipeMax = 0) (happended : call.appended = true)
    (hreplied : call.replied = true) :
    s.consume call = (s.md.c.append.getReply call.buffered call.answers).map fun r =>
      ⟨{ s.md with c := r.2 }, s.handed ++ r.1.element.toList⟩ := by
  simp only [consume, RedisMeta.redisConsumerConsume, if_pos hmax, RedisMeta.consumePlain,
    RedisMeta.appendCommand, if_pos happended, RedisMeta.getReply, if_pos hreplied,
    Option.bind_eq_bind, Option.bind_some]
  cases s.md.c.append.getReply call.buffered call.answers with
  | none => rfl
  | some r => simp [handleReply_reply]

theorem pipeMax_ne_zero (hroom : s.md.pipeCur < s.md.pipeMax) : s.md.pipeMax ≠ 0 := by
  intro hmax
  rw [hmax] at hroom
  exact absurd hroom UInt64.not_lt_zero

theorem consume_full (hroom : s.md.pipeCur < s.md.pipeMax)
    (hfull : s.md.pipeMax ≤ s.md.pipeCur + 1 ∨ s.md.pipeFull = true)
    (happended : call.appended = true) (hreplied : call.replied = true) :
    s.consume call = (s.md.c.append.getReply call.buffered call.answers).map fun r =>
      ⟨{ s.md with c := r.2, pipeFull := !decide (s.md.pipeCur = 0) },
        s.handed ++ r.1.element.toList⟩ := by
  have hmark : ∀ m : RedisMeta, m.pipeMax ≤ m.pipeCur ∨ m.pipeFull = true →
      m.markFull = { m with pipeFull := true } := by
    intro m hm
    unfold RedisMeta.markFull
    split
    · rfl
    · rename_i hlt
      rw [← hm.resolve_left hlt]
  simp only [consume, RedisMeta.redisConsumerConsume, if_neg (pipeMax_ne_zero hroom),
    RedisMeta.fillPipe, if_pos hroom, RedisMeta.appendCommand, if_pos happended, Option.map_some,
    Option.bind_some]
  rw [hmark _ hfull]
  simp only [RedisMeta.drainPipe, if_true, RedisMeta.getReply, if_pos hreplied, Option.map_map]
  congr 1
  funext r
  simp only [Function.comp_apply, handleReply_reply]
  by_cases hzero : s.md.pipeCur = 0 <;> simp [hzero]

theorem consume_filling (hroom : s.md.pipeCur < s.md.pipeMax)
    (hlast : ¬ s.md.pipeMax ≤ s.md.pipeCur + 1) (hfull : s.md.pipeFull = false)
    (happended : call.appended = true) :
    s.consume call = (s.md.c.append.serve call.answers).map fun c =>
      ⟨{ s.md with c := c, pipeCur := s.md.pipeCur + 1 }, s.handed⟩ := by
  simp only [consume, RedisMeta.redisConsumerConsume, if_neg (pipeMax_ne_zero hroom),
    RedisMeta.fillPipe, if_pos hroom, RedisMeta.appendCommand, if_pos happended, Option.map_some,
    Option.bind_some, RedisMeta.markFull, if_neg hlast, RedisMeta.drainPipe, hfull,
    Bool.false_eq_true, if_false, Option.map_map]
  congr 1
  funext c
  simp

/-- The pipeline has room for a command, or there is none. -/
def HasRoom (s : RedisConsumer) : Prop :=
  (s.md.pipeMax = 0 ∧ s.md.pipeCur = 0) ∨ s.md.pipeCur < s.md.pipeMax

/-- A call that returns has appended its command. -/
theorem appended_of_consume (hroom : s.HasRoom) (h : s.consume call = some s') :
    call.appended = true := by
  by_contra happended
  rcases hroom with ⟨hmax, -⟩ | hroom
  · simp [consume, RedisMeta.redisConsumerConsume, hmax, RedisMeta.consumePlain,
      RedisMeta.appendCommand, happended] at h
  · simp [consume, RedisMeta.redisConsumerConsume, pipeMax_ne_zero hroom, RedisMeta.fillPipe, hroom,
      RedisMeta.appendCommand, happended] at h

/-- A call that returns and has asked for a reply got one. -/
theorem replied_of_consume (hroom : s.HasRoom)
    (hfull : s.md.pipeMax ≤ s.md.pipeCur + 1 ∨ s.md.pipeFull = true)
    (h : s.consume call = some s') : call.replied = true := by
  have happended := appended_of_consume hroom h
  by_contra hreplied
  rcases hroom with ⟨hmax, -⟩ | hroom
  · simp [consume, RedisMeta.redisConsumerConsume, hmax, RedisMeta.consumePlain,
      RedisMeta.appendCommand, happended, RedisMeta.getReply, hreplied] at h
  · rcases hfull with hlast | hfull
    · simp [consume, RedisMeta.redisConsumerConsume, pipeMax_ne_zero hroom, RedisMeta.fillPipe,
        hroom, RedisMeta.appendCommand, happended, RedisMeta.markFull, hlast, RedisMeta.drainPipe,
        RedisMeta.getReply, hreplied] at h
    · simp [consume, RedisMeta.redisConsumerConsume, pipeMax_ne_zero hroom, RedisMeta.fillPipe,
        hroom, RedisMeta.appendCommand, happended, RedisMeta.markFull, RedisMeta.drainPipe, hfull,
        RedisMeta.getReply, hreplied, apply_ite] at h

theorem Step.of_consume (hroom : s.HasRoom) (h : s.consume call = some s') : Step s call s' := by
  have happended := appended_of_consume hroom h
  rcases hroom with ⟨hmax, hcur⟩ | hlt
  · have hreplied :=
      replied_of_consume (.inl ⟨hmax, hcur⟩) (.inl (by rw [hmax]; exact UInt64.zero_le)) h
    rw [consume_plain hmax happended hreplied] at h
    obtain ⟨⟨a, c⟩, hreply, rfl⟩ := Option.map_eq_some_iff.mp h
    exact .plain a c hmax hreply
  · by_cases hfull : s.md.pipeMax ≤ s.md.pipeCur + 1 ∨ s.md.pipeFull = true
    · rw [consume_full hlt hfull happended (replied_of_consume (.inr hlt) hfull h)] at h
      obtain ⟨⟨a, c⟩, hreply, rfl⟩ := Option.map_eq_some_iff.mp h
      exact .reads a c hlt hfull hreply
    · have hlast : ¬ s.md.pipeMax ≤ s.md.pipeCur + 1 := fun hle => hfull (.inl hle)
      have hnot : s.md.pipeFull = false := by simpa using fun htrue => hfull (.inr htrue)
      rw [consume_filling hlt hlast hnot happended] at h
      obtain ⟨c, hserve, rfl⟩ := Option.map_eq_some_iff.mp h
      exact .fills c hlt hlast hnot hserve

/-! ### What every run keeps -/

/-- The commands under way are those that `pipe_cur` counts, and the elements handed out are those
of the answers that were taken. -/
structure Inv (pipeMax : UInt64) (s : RedisConsumer) : Prop where
  /-- The size of the pipeline never changes. -/
  pipeMax_eq : s.md.pipeMax = pipeMax
  /-- Between two calls there is room for a command. -/
  room : s.HasRoom
  /-- `pipe_cur` counts the commands under way. -/
  outstanding : s.md.c.outstanding = s.md.pipeCur.toNat
  /-- The element of every answer that was taken was handed out. -/
  handed : s.handed = s.md.c.taken.filterMap Blpop.element

theorem inv_init (topic : List UInt8) (pipeMax : UInt64) : Inv pipeMax (init topic pipeMax) := by
  refine ⟨rfl, ?_, rfl, rfl⟩
  by_cases hmax : pipeMax = 0
  · exact .inl ⟨hmax, rfl⟩
  · exact .inr (UInt64.pos_iff_ne_zero.mpr hmax)

theorem toNat_add_one_of_lt {n m : UInt64} (h : n < m) : (n + 1).toNat = n.toNat + 1 := by
  have hlt : n.toNat < m.toNat := UInt64.lt_iff_toNat_lt.mp h
  have := m.toNat_lt
  rw [UInt64.toNat_add, UInt64.toNat_one]
  omega

/-- One command is appended and one answer taken: as many commands are under way as before, and the
element of the answer is handed out. -/
theorem Inv.takes {pipeMax : UInt64} (hs : Inv pipeMax s) {a : Blpop} {c : Pipeline Blpop}
    (hreply : s.md.c.append.getReply call.buffered call.answers = some (a, c)) :
    c.outstanding = s.md.pipeCur.toNat ∧
      s.handed ++ a.element.toList = c.taken.filterMap Blpop.element := by
  obtain ⟨hout, htaken⟩ := Pipeline.getReply_eq_some hreply
  rw [Pipeline.outstanding_append, hs.outstanding] at hout
  refine ⟨(Nat.succ.inj hout).symm, ?_⟩
  rw [htaken, List.filterMap_append, hs.handed]
  cases a <;> rfl

theorem Inv.consume {pipeMax : UInt64} (hs : Inv pipeMax s) (h : s.consume call = some s') :
    Inv pipeMax s' := by
  cases Step.of_consume hs.room h with
  | plain a c hzero hreply =>
    obtain ⟨hout, hhanded⟩ := hs.takes hreply
    exact ⟨hs.pipeMax_eq, hs.room, hout, hhanded⟩
  | reads a c hlt hfull hreply =>
    obtain ⟨hout, hhanded⟩ := hs.takes hreply
    exact ⟨hs.pipeMax_eq, hs.room, hout, hhanded⟩
  | fills c hlt hlast hfull hserve =>
    obtain ⟨-, hout, htaken, -⟩ := Pipeline.serve_eq_some hserve
    rw [Pipeline.outstanding_append, hs.outstanding, ← toNat_add_one_of_lt hlt] at hout
    refine ⟨hs.pipeMax_eq, .inr (UInt64.not_le.mp hlast), hout, ?_⟩
    show s.handed = c.taken.filterMap Blpop.element
    rw [htaken, hs.handed]
    rfl

theorem inv_of_exec {topic : List UInt8} {pipeMax : UInt64} {calls : List RedisCall}
    (h : exec consume (init topic pipeMax) calls = some s) : Inv pipeMax s :=
  exec_invariant (inv_init topic pipeMax) (fun _ _ _ ht hst => ht.consume hst) h

/-! ### Where the answers stay -/

/-- Until the pipeline is full nothing is sent. -/
theorem nothing_sent_of_exec {topic : List UInt8} {pipeMax : UInt64} {calls : List RedisCall}
    (h : exec consume (init topic pipeMax) calls = some s) (hfew : calls.length < pipeMax.toNat) :
    s.md.pipeCur.toNat = calls.length ∧ s.md.pipeFull = false ∧ s.md.c.sent = 0 ∧
      s.md.c.answered = [] := by
  refine exec_induction (P := fun calls s => calls.length < pipeMax.toNat →
    s.md.pipeCur.toNat = calls.length ∧ s.md.pipeFull = false ∧ s.md.c.sent = 0 ∧
      s.md.c.answered = []) ?_ ?_ h hfew
  · exact fun _ => ⟨rfl, rfl, rfl, rfl⟩
  · intro calls t call t' ht ih hst hfew
    rw [List.length_append, List.length_singleton] at hfew ⊢
    obtain ⟨hcur, hfull, hsent, hanswered⟩ := ih (by omega)
    have hinv := inv_of_exec ht
    have hlt : t.md.pipeCur < t.md.pipeMax := by
      rw [UInt64.lt_iff_toNat_lt, hinv.pipeMax_eq]
      omega
    cases Step.of_consume hinv.room hst with
    | plain a c hzero hreply => exact absurd hzero (pipeMax_ne_zero hlt)
    | reads a c hlt hfull' hreply =>
      rw [hfull, UInt64.le_iff_toNat_le, toNat_add_one_of_lt hlt, hinv.pipeMax_eq] at hfull'
      have := hfull'.resolve_right Bool.false_ne_true
      omega
    | fills c hlt hlast hfull hserve =>
      obtain rfl : c = t.md.c.append := Pipeline.serve_of_sent_eq_zero hsent hserve
      refine ⟨?_, hfull, hsent, hanswered⟩
      show (t.md.pipeCur + 1).toNat = calls.length + 1
      rw [toNat_add_one_of_lt hlt, hcur]

/-- A call during which the server does `answers`, and of which hiredis reports no failure. -/
def undisturbed (answers : List Blpop) : RedisCall := ⟨true, true, false, answers⟩

/-- A server that always answers no more than the oldest command leaves the others of a full
pipeline waiting, however many calls are made. -/
theorem exists_exec_waiting (topic : List UInt8) {pipeMax : UInt64} (hmax : pipeMax ≠ 0) (a : Blpop)
    (n : Nat) :
    ∃ calls s, calls.length = n ∧ exec consume (init topic pipeMax) calls = some s ∧
      s.md.c.unread = [] ∧
      ((n < pipeMax.toNat ∧ s.md.pipeCur.toNat = n ∧ s.md.pipeFull = false) ∨
        (pipeMax.toNat ≤ n ∧ s.md.pipeCur.toNat + 1 = pipeMax.toNat ∧ s.md.c.unsent = 0)) := by
  induction n with
  | zero =>
    refine ⟨[], _, rfl, rfl, rfl, .inl ⟨?_, rfl, rfl⟩⟩
    exact UInt64.lt_iff_toNat_lt.mp (UInt64.pos_iff_ne_zero.mpr hmax)
  | succ n ih =>
    obtain ⟨calls, s, hlen, hexec, hunread, hphase⟩ := ih
    have hinv := inv_of_exec hexec
    have hlt : s.md.pipeCur < s.md.pipeMax := by
      rw [UInt64.lt_iff_toNat_lt, hinv.pipeMax_eq]
      omega
    by_cases hlast : pipeMax.toNat ≤ s.md.pipeCur.toNat + 1
    · obtain ⟨c, hreply, hunread', hunsent⟩ := Pipeline.exists_getReply_singleton
        (p := s.md.c.append) hunread (by rw [Pipeline.outstanding_append]; omega) false a
      have hstep := @consume_full s (undisturbed [a]) hlt (.inl ?_) rfl rfl
      · rw [undisturbed, hreply, Option.map_some] at hstep
        refine ⟨calls ++ [undisturbed [a]], _, by simp [hlen],
          exec_concat_eq_some.mpr ⟨s, hexec, hstep⟩, hunread', .inr ⟨?_, ?_, hunsent⟩⟩
        · omega
        · show s.md.pipeCur.toNat + 1 = pipeMax.toNat
          omega
      · rw [UInt64.le_iff_toNat_le, toNat_add_one_of_lt hlt, hinv.pipeMax_eq]
        exact hlast
    · obtain ⟨-, hcur, hfull⟩ : n < pipeMax.toNat ∧ s.md.pipeCur.toNat = n ∧
          s.md.pipeFull = false :=
        hphase.resolve_right (by omega)
      have hstep := @consume_filling s (undisturbed []) hlt ?_ hfull rfl
      · refine ⟨calls ++ [undisturbed []], _, by simp [hlen],
          exec_concat_eq_some.mpr ⟨s, hexec, hstep⟩, ?_, .inl ⟨?_, ?_, hfull⟩⟩
        · show s.md.c.unread ++ [] = []
          rw [List.append_nil, hunread]
        · omega
        · show (s.md.pipeCur + 1).toNat = n + 1
          rw [toNat_add_one_of_lt hlt, hcur]
      · rw [UInt64.le_iff_toNat_le, toNat_add_one_of_lt hlt, hinv.pipeMax_eq]
        exact hlast

/-! ### What is lost -/

/-- Closing the connection hands out nothing. -/
theorem free_eq_some {late : List Blpop} (h : s.free late = some s') :
    s'.handed = s.handed ∧ s.md.c.serve late = some s'.md.c := by
  obtain ⟨c, hserve, rfl⟩ := Option.map_eq_some_iff.mp h
  exact ⟨rfl, hserve⟩

/-- Nothing is lost when no command is under way. -/
theorem Inv.handed_eq_popped {pipeMax : UInt64} (hs : Inv pipeMax s) {late : List Blpop}
    (hcur : s.md.pipeCur.toNat = 0) (h : s.free late = some s') : s'.handed = s'.popped := by
  obtain ⟨hhanded, hserve⟩ := free_eq_some h
  have hout : s.md.c.outstanding = 0 := by rw [hs.outstanding, hcur]
  rw [hhanded, hs.handed, popped, Pipeline.answered_eq_taken_of_outstanding hout hserve,
    (Pipeline.serve_eq_some hserve).2.2.1]

/-- With a pipeline of two and two elements in the list, two calls and `redis_consumer_free`: both
elements are removed from the list and only the first one is handed out. -/
theorem pipelined_element_lost :
    ((exec consume (init [116] 2) [undisturbed [], undisturbed [.popped [97], .popped [98]]]).bind
        fun s => (s.free []).map fun s' => (s'.handed, s'.popped)) =
      some ([[97]], [[97], [98]]) := by
  decide

/-- The consumer loses nothing, whatever is in the list, exactly when at most one command is under
way at a time or the pipeline is never filled. -/
theorem redis_consumer_loses_nothing_iff (topic : List UInt8) (pipeMax : UInt64) (n : Nat) :
    (∀ calls s late s', calls.length = n → exec consume (init topic pipeMax) calls = some s →
        s.free late = some s' → s'.handed = s'.popped) ↔
      pipeMax ≤ 1 ∨ n < pipeMax.toNat := by
  constructor
  · intro hnothing
    by_contra hmany
    have hmany : 1 < pipeMax.toNat ∧ pipeMax.toNat ≤ n := by
      rw [UInt64.le_iff_toNat_le, UInt64.toNat_one] at hmany
      omega
    have hmax : pipeMax ≠ 0 := by
      rintro rfl
      exact absurd hmany.1 (by decide)
    -- All commands but the oldest are still under way; the server answers one of them at the end.
    obtain ⟨calls, s, hlen, hexec, hunread, hphase⟩ :=
      exists_exec_waiting topic hmax (.popped []) n
    obtain ⟨-, hcur, hunsent⟩ := hphase.resolve_left (by omega)
    have hinv := inv_of_exec hexec
    have hsent : 1 ≤ s.md.c.sent := by
      have hout := hinv.outstanding
      simp only [Pipeline.outstanding, hunread, hunsent, List.length_nil] at hout
      omega
    have hlost := hnothing calls s [.popped []] _ hlen hexec
      (by rw [free, Pipeline.serve, List.length_singleton, if_pos hsent, Option.map_some])
    have hpopped : s.handed = s.popped := by
      rw [hinv.handed, popped, s.md.c.inOrder, hunread, List.append_nil]
    have : (s.md.c.answered ++ [Blpop.popped []]).filterMap Blpop.element = s.popped ++ [[]] :=
      List.filterMap_append
    exact absurd (hpopped.symm.trans (hlost.trans this)) (by simp)
  · rintro hcond calls s late s' rfl hexec hfree
    have hinv := inv_of_exec hexec
    rcases hcond with hone | hfew
    · refine hinv.handed_eq_popped ?_ hfree
      have hroom := hinv.room
      rw [HasRoom, hinv.pipeMax_eq, UInt64.lt_iff_toNat_lt] at hroom
      rw [UInt64.le_iff_toNat_le, UInt64.toNat_one] at hone
      rcases hroom with ⟨-, hcur⟩ | hlt
      · rw [hcur]
        rfl
      · omega
    · obtain ⟨-, -, hsent, hanswered⟩ := nothing_sent_of_exec hexec hfew
      obtain ⟨hhanded, hserve⟩ := free_eq_some hfree
      have hnone : s.md.c.taken = [] := by
        have := s.md.c.inOrder
        rw [hanswered] at this
        exact (List.append_eq_nil_iff.mp this.symm).1
      rw [hhanded, hinv.handed, popped, Pipeline.serve_of_sent_eq_zero hsent hserve, hanswered,
        hnone]

end RedisConsumer

end Schaufel
