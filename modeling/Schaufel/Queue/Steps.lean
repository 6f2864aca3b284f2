import Schaufel.Queue.Model

/-!
# What a step of the queue can do

`AddOutcome` and `GetOutcome` list the ways in which the code of `queue_add` and `queue_get` can run
from the mutex to the next release of it, and `QueueStep` lists the steps of the system.  The
invariants of the queue and of the threads around it are proved by cases on these relations; the
step function itself is unfolded here only.
-/

namespace Schaufel

variable {ι δ μ ε : Type} [DecidableEq ι]

/-- The thread is not in the middle of a call. -/
def Call.outside : Call δ μ → Bool
  | .idle | .addReturned .. | .getReturned .. => true
  | _ => false

namespace QueueState

/-! ### The fields of an updated state -/

section Fields

variable (s : QueueState ι δ μ) (t : ι) (c : Call δ μ) (es : List (Event ι δ μ)) (b : Bool)
  (cond : Cond)

@[simp] theorem setCall_q : (s.setCall t c).q = s.q := rfl

@[simp] theorem setCall_history : (s.setCall t c).history = s.history := rfl

@[simp] theorem setCall_crashed : (s.setCall t c).crashed = s.crashed := rfl

@[simp] theorem setCall_call : (s.setCall t c).call = Function.update s.call t c := rfl

omit [DecidableEq ι]

@[simp] theorem emit_q : (s.emit es).q = s.q := rfl

@[simp] theorem emit_history : (s.emit es).history = s.history ++ es := rfl

@[simp] theorem emit_crashed : (s.emit es).crashed = s.crashed := rfl

@[simp] theorem emit_call : (s.emit es).call = s.call := rfl

theorem emit_nil (s : QueueState ι δ μ) : s.emit [] = s := by
  rw [emit, List.append_nil]

@[simp] theorem broadcastIf_q : (s.broadcastIf b cond).q = s.q := by
  cases b <;> rfl

@[simp] theorem broadcastIf_history : (s.broadcastIf b cond).history = s.history := by
  cases b <;> rfl

@[simp] theorem broadcastIf_crashed : (s.broadcastIf b cond).crashed = s.crashed := by
  cases b <;> rfl

@[simp] theorem broadcastIf_call : (s.broadcastIf b cond).call t =
    if b then (s.call t).signal cond else s.call t := by
  cases b <;> rfl

end Fields

/-- The state after the node `p` with message `msg` was linked under the mark `m`, whose record was
`x` before, and the queue became `q`. -/
def linked (s : QueueState ι δ μ) (t : ι) (args msg : Message δ μ) (m : UInt32) (x : Xmark)
    (q : Queue δ μ) : QueueState ι δ μ :=
  ((({ s with q := q }.broadcastIf (s.q.length = 0) .producer).broadcastIf (x.count = 0)
    (.xproducer m)).setCall t (.addReturned args .ok)).emit [.queued t msg]

/-- The state after a message was taken out for the mark `m` and the queue became `q`. -/
def handed (s : QueueState ι δ μ) (t : ι) (msg : Message δ μ) (m : UInt32) (q : Queue δ μ) :
    QueueState ι δ μ :=
  ((({ s with q := q }.broadcastIf true .consumer).broadcastIf true (.xconsumer m)).setCall t
    (.taken msg)).emit [.delivered t msg]

end QueueState

/-- The outcomes of the wait loop of `queue_add` and the code behind it. -/
inductive AddOutcome (s : QueueState ι δ μ) (t : ι) (args : Message δ μ) (p : Ptr) (m : UInt32) :
    QueueState ι δ μ → Prop
  | wait (hlen : maxQueueSize < s.q.length) :
      AddOutcome s t args p m (s.setCall t (.addWait args p m false))
  | link {x : Xmark} {n : MessageList δ μ} {q : Queue δ μ} (hlen : s.q.length ≤ maxQueueSize)
      (hx : binFind s.q.xtree m = some x) (hn : s.q.heap p = some n)
      (hq : s.q.link p m = some q) : AddOutcome s t args p m (s.linked t args n.msg m x q)
  | crash (h : binFind s.q.xtree m = none ∨ s.q.heap p = none ∨ s.q.link p m = none) :
      AddOutcome s t args p m { s with crashed := true }

/-- The outcomes of the wait loops of `queue_get` and the code behind them. -/
inductive GetOutcome (s : QueueState ι δ μ) (t : ι) (msg : Message δ μ) (x : Option UInt32) :
    QueueState ι δ μ → Prop
  | wait (hfirst : s.q.first = none) : GetOutcome s t msg x (s.setCall t (.getWait msg x false))
  | xwait {m : UInt32} {y : Xmark} (hm : x = some m) (hy : binFind s.q.xtree m = some y)
      (hfirst : y.first = none) : GetOutcome s t msg x (s.setCall t (.getXwait msg m false))
  | take {m : UInt32} {y : Xmark} {q : Queue δ μ} {msg' : Message δ μ} (hm : x = some m)
      (hy : binFind s.q.xtree m = some y) (hfirst : y.first ≠ none)
      (hq : s.q.take m msg = some (q, msg')) : GetOutcome s t msg x (s.handed t msg' m q)
  | crash (h : x = none ∨ ∃ m, x = some m ∧ (binFind s.q.xtree m = none ∨
        ∃ y, binFind s.q.xtree m = some y ∧ y.first ≠ none ∧ s.q.take m msg = none)) :
      GetOutcome s t msg x { s with crashed := true }

/-- The steps of the system. -/
inductive QueueStep (conf : QueueConf δ μ ε) (s : QueueState ι δ μ) :
    QueueAction ι δ μ ε → QueueState ι δ μ → Prop
  | addNoMem {t : ι} {args : Message δ μ} {env : ε} (hout : (s.call t).outside = true) :
      QueueStep conf s (.add t args none env)
        ((s.setCall t (.addReturned args .enomem)).emit
          (args.data.toList.map (fun d => .effect t (.freeData d)) ++ [.dropped t args]))
  | addRefused {t : ι} {args : Message δ μ} {p : Ptr} {env : ε}
      (hout : (s.call t).outside = true) (hp : s.q.heap p = none)
      (hrun : (hooklistRun conf.postadd env args).accept = false) :
      QueueStep conf s (.add t args (some p) env)
        (((s.emit ((hooklistRun conf.postadd env args).effects.map (.effect t))).setCall t
          (.addReturned args .ebadmsg)).emit
            (args.metadata.toList.map (fun h => .effect t (.freeMeta h)) ++ [.discarded t args]))
  | addAccepted {t : ι} {args : Message δ μ} {p : Ptr} {env : ε}
      (hout : (s.call t).outside = true) (hp : s.q.heap p = none)
      (hrun : (hooklistRun conf.postadd env args).accept = true) :
      QueueStep conf s (.add t args (some p) env)
        ({ s.emit ((hooklistRun conf.postadd env args).effects.map (.effect t)) with
          q := s.q.store p ⟨(hooklistRun conf.postadd env args).msg, none, none, none⟩ }.setCall t
            (.adding args p))
  | lockCrash {t : ι} {args : Message δ μ} {p : Ptr} {alloc : Bool}
      (hcall : s.call t = .adding args p) (hp : s.q.heap p = none) :
      QueueStep conf s (.lock t alloc) { s with crashed := true }
  | lockNoMem {t : ι} {args : Message δ μ} {p : Ptr} {n : MessageList δ μ} {alloc : Bool}
      (hcall : s.call t = .adding args p) (hp : s.q.heap p = some n)
      (hx : s.q.xmarkFind n.msg.mark alloc = none) :
      QueueStep conf s (.lock t alloc)
        (({ s with q := s.q.free p }.setCall t (.addReturned args .enomem)).emit
          (args.release.map (Event.effect t) ++ [Event.dropped t args]))
  | lock {t : ι} {args : Message δ μ} {p : Ptr} {n : MessageList δ μ} {alloc : Bool}
      {q : Queue δ μ} {s' : QueueState ι δ μ} (hcall : s.call t = .adding args p)
      (hp : s.q.heap p = some n) (hx : s.q.xmarkFind n.msg.mark alloc = some q)
      (hadd : AddOutcome { s with q := q } t args p n.msg.mark s') :
      QueueStep conf s (.lock t alloc) s'
  | wakeAdd {t : ι} {args : Message δ μ} {p : Ptr} {m : UInt32} {sig : Bool}
      {s' : QueueState ι δ μ} (hcall : s.call t = .addWait args p m sig)
      (hadd : AddOutcome s t args p m s') : QueueStep conf s (.wake t false) s'
  | getNoMem {t : ι} {msg : Message δ μ} {alloc : Bool} {s' : QueueState ι δ μ}
      (hout : (s.call t).outside = true) (hx : s.q.xmarkFind msg.mark alloc = none)
      (hget : GetOutcome (s.emit [.getLocked t msg.mark]) t msg none s') :
      QueueStep conf s (.get t msg alloc) s'
  | get {t : ι} {msg : Message δ μ} {alloc : Bool} {q : Queue δ μ} {s' : QueueState ι δ μ}
      (hout : (s.call t).outside = true) (hx : s.q.xmarkFind msg.mark alloc = some q)
      (hget : GetOutcome { s.emit [.getLocked t msg.mark] with q := q } t msg (some msg.mark) s') :
      QueueStep conf s (.get t msg alloc) s'
  | wakeGet {t : ι} {msg : Message δ μ} {x : Option UInt32} {sig : Bool} {s' : QueueState ι δ μ}
      (hcall : s.call t = .getWait msg x sig) (hget : GetOutcome s t msg x s') :
      QueueStep conf s (.wake t false) s'
  | wakeXget {t : ι} {msg : Message δ μ} {m : UInt32} {sig : Bool} {s' : QueueState ι δ μ}
      (hcall : s.call t = .getXwait msg m sig) (hget : GetOutcome s t msg (some m) s') :
      QueueStep conf s (.wake t false) s'
  | timeout {t : ι} {msg : Message δ μ} {x : Option UInt32} {sig : Bool}
      (hcall : s.call t = .getWait msg x sig) :
      QueueStep conf s (.wake t true) (s.setCall t (.getReturned msg .etimedout))
  | xtimeout {t : ι} {msg : Message δ μ} {m : UInt32} {sig : Bool} {y : Xmark}
      (hcall : s.call t = .getXwait msg m sig) (hy : binFind s.q.xtree m = some y) :
      QueueStep conf s (.wake t true) (s.setCall t (.getReturned msg .etimedout))
  | xtimeoutCrash {t : ι} {msg : Message δ μ} {m : UInt32} {sig : Bool}
      (hcall : s.call t = .getXwait msg m sig) (hy : binFind s.q.xtree m = none) :
      QueueStep conf s (.wake t true) { s with crashed := true }
  | preget {t : ι} {msg : Message δ μ} {env : ε} (hcall : s.call t = .taken msg)
      (hrun : (hooklistRun conf.preget env msg).accept = true) :
      QueueStep conf s (.preget t env)
        ((s.emit ((hooklistRun conf.preget env msg).effects.map (.effect t))).setCall t
          (.getReturned (hooklistRun conf.preget env msg).msg .ok))
  | pregetRefused {t : ι} {msg : Message δ μ} {env : ε} (hcall : s.call t = .taken msg)
      (hrun : (hooklistRun conf.preget env msg).accept = false) :
      QueueStep conf s (.preget t env)
        (((s.emit ((hooklistRun conf.preget env msg).effects.map (.effect t))).setCall t
          (.getReturned (hooklistRun conf.preget env msg).msg .ebadmsg)).emit [.discarded t msg])
  | count {t : ι} {c : Counter} (hout : (s.call t).outside = true) :
      QueueStep conf s (.count t c) ({ s with q := s.q.reset c }.emit [.counted t c (s.q.read c)])

/-! ### The step function has no other steps -/

/-- The code of `queue_add` behind the lock. -/
theorem addOutcome_addLoop (s : QueueState ι δ μ) (t : ι) (args : Message δ μ) (p : Ptr)
    (m : UInt32) : AddOutcome s t args p m (s.addLoop t args p m) := by
  unfold QueueState.addLoop
  split
  · exact .wait ‹_›
  · rename_i hlen
    split
    · exact .link (Int.not_lt.mp hlen) ‹_› ‹_› ‹_›
    · rename_i hcrash
      refine .crash ?_
      cases hx : binFind s.q.xtree m with
      | none => exact Or.inl rfl
      | some x =>
        cases hn : s.q.heap p with
        | none => exact Or.inr (Or.inl rfl)
        | some n =>
          cases hq : s.q.link p m with
          | none => exact Or.inr (Or.inr rfl)
          | some q => exact absurd hq (hcrash x n q hx hn)

/-- The code of `queue_get` behind its first wait loop, when it was not left by a timeout. -/
theorem getOutcome_getLoop₂ (s : QueueState ι δ μ) (t : ι) (msg : Message δ μ)
    (x : Option UInt32) : GetOutcome s t msg x (s.getLoop₂ t msg x false) := by
  unfold QueueState.getLoop₂
  cases x with
  | none => exact .crash (Or.inl rfl)
  | some m =>
    dsimp only
    split
    · exact .crash (Or.inr ⟨m, rfl, Or.inl ‹_›⟩)
    · rename_i y hy
      split
      · exact .xwait rfl hy (‹_ ∧ _›).1
      · rename_i hfirst
        have hfirst : y.first ≠ none := fun h => hfirst ⟨h, rfl⟩
        rw [if_neg Bool.false_ne_true]
        split
        · exact .crash (Or.inr ⟨m, rfl, Or.inr ⟨y, hy, hfirst, ‹_›⟩⟩)
        · exact .take rfl hy hfirst ‹_›

/-- The code of `queue_get` behind the lock, when no wait was left by a timeout. -/
theorem getOutcome_getLoop₁ (s : QueueState ι δ μ) (t : ι) (msg : Message δ μ)
    (x : Option UInt32) : GetOutcome s t msg x (s.getLoop₁ t msg x false) := by
  unfold QueueState.getLoop₁
  split
  · exact .wait (‹_ ∧ _›).1
  · rw [if_neg Bool.false_ne_true]
    exact getOutcome_getLoop₂ s t msg x

/-- A timeout of the first wait returns. -/
theorem getLoop₁_timeout (s : QueueState ι δ μ) (t : ι) (msg : Message δ μ) (x : Option UInt32) :
    s.getLoop₁ t msg x true = s.setCall t (.getReturned msg .etimedout) := by
  simp [QueueState.getLoop₁]

/-- Every enabled action is one of the listed steps. -/
theorem queueStep_of_step {conf : QueueConf δ μ ε} {s s' : QueueState ι δ μ}
    {a : QueueAction ι δ μ ε} (h : s.step conf a = some s') :
    s.crashed = false ∧ QueueStep conf s a s' := by
  have hcr : s.crashed = false := by
    cases hc : s.crashed with
    | false => rfl
    | true => cases a <;> simp [QueueState.step, hc] at h
  have hne : ¬s.crashed = true := by simp [hcr]
  refine ⟨hcr, ?_⟩
  cases a with
  | add t args newmsg env =>
    cases newmsg with
    | none =>
      cases hcall : s.call t <;> simp [QueueState.step, hcr, hcall] at h <;> subst h <;>
        exact .addNoMem (by rw [hcall]; rfl)
    | some p =>
      have hout : (s.call t).outside = true := by
        cases hcall : s.call t <;> simp [QueueState.step, hcr, hcall] at h <;> rfl
      have hp : s.q.heap p = none := by
        cases hp : s.q.heap p with
        | none => rfl
        | some n => cases hcall : s.call t <;> simp [QueueState.step, hcr, hcall, hp] at h
      cases hrun : (hooklistRun conf.postadd env args).accept with
      | false =>
        cases hcall : s.call t <;> simp [QueueState.step, hcr, hcall, hp, hrun] at h <;>
          subst h <;> exact .addRefused hout hp hrun
      | true =>
        cases hcall : s.call t <;> simp only [QueueState.step, if_neg hne, hcall, hp, hrun,
          Option.isSome_none, Bool.false_eq_true, if_false, if_true, Option.some.injEq,
          reduceCtorEq] at h <;> subst h <;> exact .addAccepted hout hp hrun
  | lock t alloc =>
    cases hcall : s.call t <;> simp only [QueueState.step, if_neg hne, hcall, reduceCtorEq] at h
    rename_i args p
    cases hp : s.q.heap p with
    | none =>
      simp only [hp, Option.some.injEq] at h
      subst h
      exact .lockCrash hcall hp
    | some n =>
      cases hx : s.q.xmarkFind n.msg.mark alloc with
      | none =>
        simp only [hp, hx, Option.some.injEq] at h
        subst h
        exact .lockNoMem hcall hp hx
      | some q =>
        simp only [hp, hx, Option.some.injEq] at h
        subst h
        exact .lock hcall hp hx (addOutcome_addLoop _ _ _ _ _)
  | get t msg alloc =>
    have hout : (s.call t).outside = true := by
      cases hcall : s.call t <;> simp [QueueState.step, hcr, hcall] at h <;> rfl
    cases hx : s.q.xmarkFind msg.mark alloc with
    | none =>
      refine .getNoMem hout hx ?_
      cases hcall : s.call t <;> simp only [QueueState.step, if_neg hne, hcall, hx,
        Option.some.injEq, reduceCtorEq] at h <;> subst h <;> exact getOutcome_getLoop₁ _ _ _ _
    | some q =>
      refine .get hout hx ?_
      cases hcall : s.call t <;> simp only [QueueState.step, if_neg hne, hcall, hx,
        Option.some.injEq, reduceCtorEq] at h <;> subst h <;> exact getOutcome_getLoop₁ _ _ _ _
  | wake t timeout =>
    cases timeout with
    | false =>
      cases hcall : s.call t <;> simp [QueueState.step, hcr, hcall] at h <;> subst h
      case addWait => exact .wakeAdd hcall (addOutcome_addLoop _ _ _ _ _)
      case getWait => exact .wakeGet hcall (getOutcome_getLoop₁ _ _ _ _)
      case getXwait => exact .wakeXget hcall (getOutcome_getLoop₂ _ _ _ _)
    | true =>
      cases hcall : s.call t <;> simp [QueueState.step, hcr, hcall] at h <;> subst h
      case getWait =>
        rw [getLoop₁_timeout]
        exact .timeout hcall
      case getXwait msg m sig =>
        cases hy : binFind s.q.xtree m with
        | none =>
          simp only [QueueState.getLoop₂, hy]
          exact .xtimeoutCrash hcall hy
        | some y =>
          simp only [QueueState.getLoop₂, hy, Bool.true_eq_false, and_false, if_false, if_true]
          exact .xtimeout hcall hy
  | preget t env =>
    cases hcall : s.call t <;> simp [QueueState.step, hcr, hcall] at h
    rename_i msg
    cases hrun : (hooklistRun conf.preget env msg).accept with
    | false =>
      simp only [hrun, Bool.false_eq_true, if_false, Option.some.injEq] at h
      subst h
      exact .pregetRefused hcall hrun
    | true =>
      simp only [hrun, if_true, Option.some.injEq] at h
      subst h
      exact .preget hcall hrun
  | count t c =>
    have hout : (s.call t).outside = true := by
      cases hcall : s.call t <;> simp [QueueState.step, hcr, hcall] at h <;> rfl
    cases hcall : s.call t <;> simp only [QueueState.step, if_neg hne, hcall, Option.some.injEq,
      reduceCtorEq] at h <;> subst h <;> exact .count hout

end Schaufel
