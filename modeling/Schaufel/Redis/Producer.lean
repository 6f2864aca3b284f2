import Schaufel.Redis.Consumer

/-!
# The redis producer and its pipeline

`redis_producer_produce` sends an `LPUSH` for every message.  Without pipelining it waits for each
reply.  With it, commands are only appended to the output buffer of hiredis and counted in
`pipe_cur`; the call that fills the pipeline asks for as many replies as were counted, and
`redis_producer_free` asks for those that are left.

A call of hiredis that reports a failure ends the process.  Asking for a reply while no command is
outstanding would block forever, which is a verdict of its own here.
-/

namespace Schaufel

/-- The command `LPUSH topic element`. -/
structure Lpush where
  topic : List UInt8
  element : List UInt8
  deriving DecidableEq, Repr

/-- What the environment does while a reply is asked for. -/
structure RedisWait where
  /-- hiredis reports no failure. -/
  replied : Bool
  /-- hiredis has read a reply before that was not taken. -/
  buffered : Bool
  /-- How many commands the server executes, beyond the one whose reply is needed. -/
  executed : Nat

/-- Why a call does not return. -/
inductive RedisFault
  /-- The process aborts because hiredis reports a failure. -/
  | aborted
  /-- The call waits for a reply that never comes. -/
  | blocked
  deriving DecidableEq, Repr

/-- `struct Meta` of a producer, with the commands issued so far, and for every reply that was asked
for the counter and the number of outstanding commands at that moment. -/
structure RedisProducer where
  c : Pipeline Lpush
  topic : List UInt8
  pipeCur : UInt64
  pipeMax : UInt64
  issued : List Lpush
  requests : List (UInt64 × Nat)

namespace RedisProducer

/-- `redis_producer_init`, for a connection that could be established. -/
def init (topic : List UInt8) (pipeMax : UInt64) : RedisProducer :=
  { c := .init, topic := topic, pipeCur := 0, pipeMax := pipeMax, issued := [], requests := [] }

/-- The command for a message: `%b` takes as many bytes as the length says. -/
def lpush (topic : List UInt8) (msg : RedisMessage) : Lpush := ⟨topic, msg.data.take msg.len⟩

/-- `redisAppendCommand`, and the first half of `redisCommand`. -/
def appendCommand (s : RedisProducer) (appended : Bool) (msg : RedisMessage) :
    Except RedisFault RedisProducer :=
  if appended then .ok { s with c := s.c.append, issued := s.issued ++ [lpush s.topic msg] }
  else .error .aborted

/-- `redis_meta_get_reply`, and the second half of `redisCommand`. -/
def getReply (s : RedisProducer) (wait : RedisWait) : Except RedisFault RedisProducer :=
  if wait.replied then
    match s.c.awaitReply s.issued wait.buffered wait.executed with
    | some r => .ok { s with c := r.2, requests := s.requests ++ [(s.pipeCur, s.c.outstanding)] }
    | none => .error .blocked
  else .error .aborted

/-- The loop of `redis_meta_check_pipeline`, which takes `pipe_cur` many turns. -/
def drainLoop (waits : Nat → RedisWait) : Nat → RedisProducer → Except RedisFault RedisProducer
  | 0, s => .ok s
  | turns + 1, s => (s.getReply (waits turns)).bind fun s =>
    if 0 < s.pipeCur - 1 then drainLoop waits turns { s with pipeCur := s.pipeCur - 1 }
    else .ok { s with pipeCur := s.pipeCur - 1 }

/-- `redis_meta_check_pipeline`. -/
def checkPipeline (s : RedisProducer) (lazy : Bool) (waits : Nat → RedisWait) :
    Except RedisFault (Int64 × RedisProducer) :=
  if s.pipeCur = 0 then .ok (0, s)
  else if lazy && s.pipeCur < s.pipeMax then .ok (-1, s)
  else (drainLoop waits s.pipeCur.toNat s).map fun t => (s.pipeCur.toInt64, t)

/-- `redis_producer_produce`. -/
def produce (s : RedisProducer) (msg : RedisMessage) (appended : Bool) (waits : Nat → RedisWait) :
    Except RedisFault RedisProducer :=
  if s.pipeMax = 0 then (s.appendCommand appended msg).bind fun s => s.getReply (waits 0)
  else (s.appendCommand appended msg).bind fun s =>
    (checkPipeline { s with pipeCur := s.pipeCur + 1 } true waits).map Prod.snd

/-- `redis_producer_free`. -/
def free (s : RedisProducer) (waits : Nat → RedisWait) : Except RedisFault RedisProducer :=
  (s.checkPipeline false waits).map Prod.snd

/-! ### Runs of a producer -/

/-- What can happen between the start and the end of a producer. -/
inductive Action
  /-- A call of `redis_producer_produce`. -/
  | produce (msg : RedisMessage) (appended : Bool) (waits : Nat → RedisWait)
  /-- The server executes commands that it was sent. -/
  | execute (n : Nat)

/-- One action; a call that does not return ends the run. -/
def step (s : RedisProducer) : Action → Option RedisProducer
  | .produce msg appended waits => (s.produce msg appended waits).toOption
  | .execute n => some { s with c := s.c.execute s.issued n }

/-- The message that an action hands to the producer. -/
def Action.message : Action → Option RedisMessage
  | .produce msg _ _ => some msg
  | .execute _ => none

/-! ### What the pieces do -/

/-- A request for a reply at which the counter is right and a command is outstanding. -/
def Justified (r : UInt64 × Nat) : Prop := r.1.toNat = r.2 ∧ 0 < r.2

/-- While a command is outstanding, only a failure keeps a reply from coming. -/
theorem getReply_spec {s : RedisProducer} (hs : s.c.Executes s.issued) (hout : 0 < s.c.outstanding)
    (wait : RedisWait) :
    (s.getReply wait = .error .aborted ∧ wait.replied = false) ∨
      ∃ c, s.getReply wait =
          .ok { s with c := c, requests := s.requests ++ [(s.pipeCur, s.c.outstanding)] } ∧
        c.Executes s.issued ∧ c.outstanding + 1 = s.c.outstanding := by
  unfold getReply
  split_ifs with hreplied
  · obtain ⟨a, c, hreply, hexec, hless⟩ := hs.awaitReply hout wait.buffered wait.executed
    exact .inr ⟨c, by rw [hreply], hexec, hless⟩
  · exact .inl ⟨rfl, by simpa using hreplied⟩

/-- The state after the loop. -/
structure Drained (s t : RedisProducer) : Prop where
  topic_eq : t.topic = s.topic
  pipeMax_eq : t.pipeMax = s.pipeMax
  issued_eq : t.issued = s.issued
  /-- The counter is back to zero. -/
  pipeCur_eq : t.pipeCur = 0
  executes : t.c.Executes t.issued
  /-- No command is outstanding. -/
  outstanding_eq : t.c.outstanding = 0
  /-- Every reply was asked for with a reason. -/
  requests : ∃ rs, t.requests = s.requests ++ rs ∧ ∀ r ∈ rs, Justified r

/-- The loop asks for the replies of all outstanding commands, one by one. -/
theorem drainLoop_spec (waits : Nat → RedisWait) {turns : Nat} {s : RedisProducer}
    (hs : s.c.Executes s.issued) (hcur : s.pipeCur.toNat = turns) (hout : s.c.outstanding = turns)
    (hpos : 0 < turns) :
    (drainLoop waits turns s = .error .aborted ∧ ∃ k, (waits k).replied = false) ∨
      ∃ t, drainLoop waits turns s = .ok t ∧ Drained s t := by
  induction turns generalizing s with
  | zero => exact absurd hpos (Nat.lt_irrefl 0)
  | succ turns ih =>
    have hjustified : Justified (s.pipeCur, s.c.outstanding) := ⟨hcur.trans hout.symm, by omega⟩
    have hnext : (s.pipeCur - 1).toNat = turns := by
      rw [UInt64.toNat_sub_of_le _ _ (UInt64.le_iff_toNat_le.mpr (by
        rw [hcur, UInt64.toNat_one]
        omega)), hcur]
      rfl
    rw [drainLoop]
    rcases getReply_spec hs (by omega) (waits turns) with
      ⟨habort, hwait⟩ | ⟨c, hreply, hexec, hless⟩
    · rw [habort]
      exact .inl ⟨rfl, turns, hwait⟩
    · rw [hreply]
      dsimp only [Except.bind]
      split_ifs with hmore
      · rw [UInt64.lt_iff_toNat_lt, hnext] at hmore
        rcases ih (s := { s with
            c := c
            requests := s.requests ++ [(s.pipeCur, s.c.outstanding)]
            pipeCur := s.pipeCur - 1 }) hexec hnext (by dsimp only; omega) hmore with
              habort | ⟨t, ht, hd⟩
        · exact .inl habort
        · obtain ⟨rs, hrs, hall⟩ := hd.requests
          refine .inr ⟨t, ht, hd.topic_eq, hd.pipeMax_eq, hd.issued_eq, hd.pipeCur_eq, hd.executes,
            hd.outstanding_eq, (s.pipeCur, s.c.outstanding) :: rs, ?_, ?_⟩
          · rw [hrs, List.append_assoc, List.singleton_append]
          · exact List.forall_mem_cons.mpr ⟨hjustified, hall⟩
      · have hlast : s.pipeCur - 1 = 0 := by
          rwa [UInt64.pos_iff_ne_zero, not_not] at hmore
        rw [hlast] at hnext
        refine .inr ⟨_, rfl, rfl, rfl, rfl, hlast, hexec, ?_, [_], rfl, by simpa using hjustified⟩
        show c.outstanding = 0
        have hzero : (0 : UInt64).toNat = 0 := rfl
        omega

/-- `redis_meta_check_pipeline` leaves the state alone or drains the pipeline. -/
theorem checkPipeline_spec {s : RedisProducer} (hs : s.c.Executes s.issued)
    (hcur : s.pipeCur.toNat = s.c.outstanding) (lazy : Bool) (waits : Nat → RedisWait) :
    (s.checkPipeline lazy waits = .error .aborted ∧ ∃ k, (waits k).replied = false) ∨
      (∃ code, s.checkPipeline lazy waits = .ok (code, s) ∧
        (s.pipeCur = 0 ∨ (lazy = true ∧ s.pipeCur < s.pipeMax))) ∨
      ∃ code t, s.checkPipeline lazy waits = .ok (code, t) ∧ Drained s t := by
  unfold checkPipeline
  split_ifs with hzero hlazy
  · exact .inr (.inl ⟨0, rfl, .inl hzero⟩)
  · exact .inr (.inl ⟨-1, rfl, .inr (by simpa using hlazy)⟩)
  · have hpos : 0 < s.pipeCur.toNat := UInt64.lt_iff_toNat_lt.mp (UInt64.pos_iff_ne_zero.mpr hzero)
    rcases drainLoop_spec waits hs rfl hcur.symm hpos with ⟨habort, hwait⟩ | ⟨t, ht, hd⟩
    · rw [habort]
      exact .inl ⟨rfl, hwait⟩
    · rw [ht]
      exact .inr (.inr ⟨_, t, rfl, hd⟩)

/-! ### What every run keeps -/

/-- What holds between two calls. -/
structure Inv (topic : List UInt8) (pipeMax : UInt64) (s : RedisProducer) : Prop where
  topic_eq : s.topic = topic
  pipeMax_eq : s.pipeMax = pipeMax
  /-- The server executes the commands in the order in which they were issued. -/
  executes : s.c.Executes s.issued
  /-- `pipe_cur` counts the outstanding commands. -/
  counted : s.pipeCur.toNat = s.c.outstanding
  /-- The pipeline has room for a command, or there is none. -/
  room : (pipeMax = 0 ∧ s.pipeCur = 0) ∨ s.pipeCur < pipeMax
  /-- With pipelining, every reply was asked for with a reason. -/
  justified : pipeMax ≠ 0 → ∀ r ∈ s.requests, Justified r

variable {topic : List UInt8} {pipeMax : UInt64} {s t : RedisProducer}

theorem inv_init (topic : List UInt8) (pipeMax : UInt64) :
    Inv topic pipeMax (init topic pipeMax) := by
  refine ⟨rfl, rfl, Pipeline.executes_init, rfl, ?_, by simp [init]⟩
  by_cases hmax : pipeMax = 0
  · exact .inl ⟨hmax, rfl⟩
  · exact .inr (UInt64.pos_iff_ne_zero.mpr hmax)

theorem Inv.execute (hs : Inv topic pipeMax s) (n : Nat) :
    Inv topic pipeMax { s with c := s.c.execute s.issued n } := by
  obtain ⟨hexec, hout, -⟩ := hs.executes.execute n
  exact ⟨hs.topic_eq, hs.pipeMax_eq, hexec, hs.counted.trans hout.symm, hs.room, hs.justified⟩

/-- A drained pipeline has room. -/
theorem Drained.inv {s : RedisProducer} (hd : Drained s t) (htopic : s.topic = topic)
    (hmax : s.pipeMax = pipeMax) (hjustified : pipeMax ≠ 0 → ∀ r ∈ s.requests, Justified r) :
    Inv topic pipeMax t := by
  refine ⟨hd.topic_eq.trans htopic, hd.pipeMax_eq.trans hmax, hd.executes, ?_, ?_, ?_⟩
  · rw [hd.pipeCur_eq, hd.outstanding_eq]
    rfl
  · rw [hd.pipeCur_eq]
    by_cases hzero : pipeMax = 0
    · exact .inl ⟨hzero, rfl⟩
    · exact .inr (UInt64.pos_iff_ne_zero.mpr hzero)
  · intro hne r hr
    obtain ⟨rs, hrs, hall⟩ := hd.requests
    rw [hrs] at hr
    exact (List.mem_append.mp hr).elim (hjustified hne r) (hall r)

/-- A call appends its command and returns, unless hiredis reports a failure. -/
theorem Inv.produce (hs : Inv topic pipeMax s) (msg : RedisMessage) (appended : Bool)
    (waits : Nat → RedisWait) :
    (s.produce msg appended waits = .error .aborted ∧
        (appended = false ∨ ∃ k, (waits k).replied = false)) ∨
      ∃ t, s.produce msg appended waits = .ok t ∧ Inv topic pipeMax t ∧
        t.issued = s.issued ++ [lpush topic msg] := by
  cases appended with
  | false =>
    refine .inl ⟨?_, .inl rfl⟩
    rw [RedisProducer.produce, appendCommand, if_neg Bool.false_ne_true]
    split_ifs <;> rfl
  | true =>
    obtain ⟨rfl, rfl, hexec, hcur, hroom, hjustified⟩ := hs
    have happend := hexec.append (lpush s.topic msg)
    unfold RedisProducer.produce appendCommand
    rw [if_pos rfl]
    dsimp only [Except.bind]
    rcases hroom with ⟨hmax, hzero⟩ | hlt
    · -- without pipelining: one command, one reply
      have hout : s.c.outstanding = 0 := by rw [← hcur, hzero]; rfl
      rw [if_pos hmax]
      rcases getReply_spec (s := { s with
        c := s.c.append, issued := s.issued ++ [lpush s.topic msg] })
        happend (by simp) (waits 0) with ⟨habort, hwait⟩ | ⟨c, hreply, hexec', hless⟩
      · exact .inl ⟨habort, .inr ⟨0, hwait⟩⟩
      · refine .inr ⟨_, hreply,
          ⟨rfl, rfl, hexec', ?_, .inl ⟨hmax, hzero⟩, fun hne => absurd hmax hne⟩, rfl⟩
        rw [Pipeline.outstanding_append, hout] at hless
        show s.pipeCur.toNat = c.outstanding
        omega
    · have hmax : s.pipeMax ≠ 0 := by
        intro hmax
        rw [hmax] at hlt
        exact absurd hlt UInt64.not_lt_zero
      have hnext : (s.pipeCur + 1).toNat = s.c.append.outstanding := by
        rw [RedisConsumer.toNat_add_one_of_lt hlt, Pipeline.outstanding_append, hcur]
      rw [if_neg hmax]
      rcases checkPipeline_spec
        (s := { s with
          c := s.c.append
          issued := s.issued ++ [lpush s.topic msg]
          pipeCur := s.pipeCur + 1 })
        happend hnext true waits with ⟨habort, hwait⟩ | ⟨code, hkeep, hwhy⟩ | ⟨code, t, hdrain, hd⟩
      · rw [habort]
        exact .inl ⟨rfl, .inr hwait⟩
      · rw [hkeep]
        refine .inr ⟨_, rfl, ⟨rfl, rfl, happend, hnext, ?_, hjustified⟩, rfl⟩
        rcases hwhy with hzero | ⟨-, hroom⟩
        · exact .inr (hzero ▸ UInt64.pos_iff_ne_zero.mpr hmax)
        · exact .inr hroom
      · rw [hdrain]
        exact .inr ⟨t, rfl, hd.inv rfl rfl hjustified, hd.issued_eq⟩

/-- `redis_producer_free` waits for what is left, unless hiredis reports a failure. -/
theorem Inv.free (hs : Inv topic pipeMax s) (waits : Nat → RedisWait) :
    (s.free waits = .error .aborted ∧ ∃ k, (waits k).replied = false) ∨
      ∃ t, s.free waits = .ok t ∧ Inv topic pipeMax t ∧ t.issued = s.issued ∧
        t.c.outstanding = 0 := by
  unfold RedisProducer.free
  rcases checkPipeline_spec hs.executes hs.counted false waits with
    ⟨habort, hwait⟩ | ⟨code, hkeep, hwhy⟩ | ⟨code, t, hdrain, hd⟩
  · rw [habort]
    exact .inl ⟨rfl, hwait⟩
  · rw [hkeep]
    have hzero : s.pipeCur = 0 := hwhy.resolve_right fun h => Bool.false_ne_true h.1
    refine .inr ⟨s, rfl, hs, rfl, ?_⟩
    rw [← hs.counted, hzero]
    rfl
  · rw [hdrain]
    exact .inr ⟨t, rfl, hd.inv hs.topic_eq hs.pipeMax_eq hs.justified, hd.issued_eq,
      hd.outstanding_eq⟩

/-- One action keeps the invariant and issues the command of its message. -/
theorem Inv.step (hs : Inv topic pipeMax s) {act : Action} (h : s.step act = some t) :
    Inv topic pipeMax t ∧ t.issued = s.issued ++ act.message.toList.map (lpush topic) := by
  cases act with
  | produce msg appended waits =>
    rcases hs.produce msg appended waits with ⟨habort, -⟩ | ⟨t', ht', hinv, hissued⟩
    · rw [RedisProducer.step, habort] at h
      cases h
    · rw [RedisProducer.step, ht'] at h
      obtain rfl := Option.some.inj h
      exact ⟨hinv, hissued⟩
  | execute n =>
    obtain rfl := Option.some.inj h
    exact ⟨hs.execute n, by simp [Action.message]⟩

theorem inv_of_exec {acts : List Action} (h : exec step (init topic pipeMax) acts = some s) :
    Inv topic pipeMax s ∧ s.issued = (acts.filterMap Action.message).map (lpush topic) := by
  refine exec_induction (P := fun acts s => Inv topic pipeMax s ∧
    s.issued = (acts.filterMap Action.message).map (lpush topic)) ⟨inv_init topic pipeMax, rfl⟩ ?_ h
  intro acts t act t' _ ih hstep
  obtain ⟨hinv, hissued⟩ := ih.1.step hstep
  refine ⟨hinv, ?_⟩
  rw [hissued, ih.2, List.filterMap_append, List.map_append]
  cases act <;> rfl

/-- A producer that has come to its end has had all its commands executed. -/
theorem executed_of_free {acts : List Action} (h : exec step (init topic pipeMax) acts = some s)
    {waits : Nat → RedisWait} (hfree : s.free waits = .ok t) :
    Inv topic pipeMax t ∧ t.c.outstanding = 0 ∧
      t.c.answered = (acts.filterMap Action.message).map (lpush topic) := by
  obtain ⟨hinv, hissued⟩ := inv_of_exec h
  rcases hinv.free waits with ⟨habort, -⟩ | ⟨t', ht', hinv', hissued', hout⟩
  · rw [habort] at hfree
    cases hfree
  · obtain rfl := Except.ok.inj (ht'.symm.trans hfree)
    refine ⟨hinv', hout, ?_⟩
    rw [hinv'.executes.answered_eq hout, hissued', hissued]

/-- With a pipeline of any size the counter is right, no call waits for a reply that never comes,
and the server executes the commands it would execute without pipelining. -/
theorem redis_pipelining_transparent (hmax : pipeMax ≠ 0) {acts : List Action}
    (h : exec step (init topic pipeMax) acts = some s) :
    s.pipeCur.toNat = s.c.outstanding ∧ s.pipeCur < pipeMax ∧ (∀ r ∈ s.requests, Justified r) ∧
    (∀ msg appended waits, s.produce msg appended waits ≠ .error .blocked) ∧
    (∀ waits, s.free waits ≠ .error .blocked) ∧
    (∀ msg waits, (∀ k, (waits k).replied = true) →
      (∃ t, s.produce msg true waits = .ok t) ∧ ∃ t, s.free waits = .ok t) ∧
    ∀ waits t, s.free waits = .ok t →
      t.c.outstanding = 0 ∧ (∀ r ∈ t.requests, Justified r) ∧
      t.c.answered = (acts.filterMap Action.message).map (lpush topic) ∧
      ∀ acts' s' waits' t', exec step (init topic 0) acts' = some s' → s'.free waits' = .ok t' →
        acts'.filterMap Action.message = acts.filterMap Action.message →
        t'.c.answered = t.c.answered := by
  obtain ⟨hinv, -⟩ := inv_of_exec h
  refine ⟨hinv.counted, hinv.room.resolve_left fun hnone => hmax hnone.1, hinv.justified hmax, ?_,
    ?_, ?_, ?_⟩
  · intro msg appended waits hblocked
    rcases hinv.produce msg appended waits with ⟨habort, -⟩ | ⟨t, ht, -⟩
    · exact absurd (habort.symm.trans hblocked) (by simp)
    · exact absurd (ht.symm.trans hblocked) (by simp)
  · intro waits hblocked
    rcases hinv.free waits with ⟨habort, -⟩ | ⟨t, ht, -⟩
    · exact absurd (habort.symm.trans hblocked) (by simp)
    · exact absurd (ht.symm.trans hblocked) (by simp)
  · intro msg waits hwaits
    have hnever : ¬ ∃ k, (waits k).replied = false := by
      rintro ⟨k, hk⟩
      rw [hwaits k] at hk
      cases hk
    refine ⟨?_, ?_⟩
    · rcases hinv.produce msg true waits with ⟨-, hwhy⟩ | ⟨t, ht, -⟩
      · rcases hwhy with hfalse | hwhy
        · cases hfalse
        · exact absurd hwhy hnever
      · exact ⟨t, ht⟩
    · rcases hinv.free waits with ⟨-, hwhy⟩ | ⟨t, ht, -⟩
      · exact absurd hwhy hnever
      · exact ⟨t, ht⟩
  · intro waits t hfree
    obtain ⟨hinv', hout, hanswered⟩ := executed_of_free h hfree
    refine ⟨hout, hinv'.justified hmax, hanswered, ?_⟩
    intro acts' s' waits' t' h' hfree' hsame
    rw [(executed_of_free h' hfree').2.2, hsame, hanswered]

/-- Three messages and a pipeline of two. -/
theorem redis_pipelining_transparent_three :
    ∃ s, exec step (init [113] 2)
        (List.replicate 3 (.produce ⟨[97], 1⟩ true fun _ => ⟨true, false, 0⟩)) = some s ∧
      s.pipeCur.toNat = s.c.outstanding ∧ s.pipeCur < 2 ∧
      ∃ t, s.free (fun _ => ⟨true, false, 0⟩) = .ok t ∧ t.c.outstanding = 0 ∧
        t.c.answered = List.replicate 3 ⟨[113], [97]⟩ := by
  refine exists_of_exec_isSome (by decide +kernel) fun s hexec => ?_
  obtain ⟨hcur, hlt, -, -, -, hreturns, hfree⟩ := redis_pipelining_transparent (by decide) hexec
  obtain ⟨-, t, ht⟩ := hreturns ⟨[], 0⟩ (fun _ => ⟨true, false, 0⟩) fun _ => rfl
  obtain ⟨hout, -, hanswered, -⟩ := hfree _ t ht
  exact ⟨hcur, hlt, t, ht, hout, hanswered⟩

end RedisProducer

end Schaufel
