import Schaufel.Foundation.Ledger
import Schaufel.System.Flow

/-!
# Messages on their way

`SystemState.carry s t` is the message on its way that the thread `t` has, with its stage.  In
contrast to `SystemState.hand` it is empty where the thread has the shell of a message only, before
`consumer_consume` and behind `producer_produce`.

`TransitStep` describes a step of the system by what it does to the messages on their way and by the
run of hooks that it is; it is read off the `FlowStep` (`FlowStep.transit`).  `Event.ledgerOp?`
reads off an event what it means for the books of a `Ledger` whose sources are the consumers, whose
sinks are the producers and whose keys are the marks.
-/

namespace Schaufel

/-- The message on its way that a thread has, with its stage. -/
def SystemState.carry (s : SystemState) (t : Thread) : Option (Stage × Msg) :=
  (s.stage t).bind fun st => (s.hand t).map fun msg => (st, msg)

section Carry

variable {s s' : SystemState} {t : Thread}

theorem carry_eq_some_iff {st : Stage} {msg : Msg} :
    s.carry t = some (st, msg) ↔ s.stage t = some st ∧ s.hand t = some msg := by
  unfold SystemState.carry
  cases s.stage t <;> cases s.hand t <;> simp

theorem carry_eq_none (h : s.stage t = none ∨ s.hand t = none) : s.carry t = none := by
  rcases h with h | h <;> simp [SystemState.carry, h]

theorem carry_congr (hhand : s'.hand = s.hand) (hstage : s'.stage = s.stage) :
    s'.carry = s.carry := by
  funext t
  rw [SystemState.carry, SystemState.carry, hhand, hstage]

/-- What a thread has on its way changes where its hands and its stage change. -/
theorem carry_update {m : Option Msg} {st : Option Stage}
    (hhand : s'.hand = Function.update s.hand t m)
    (hstage : s'.stage = Function.update s.stage t st) :
    s'.carry = Function.update s.carry t (st.bind fun st => m.map fun msg => (st, msg)) := by
  funext t'
  by_cases ht : t' = t
  · subst ht
    simp only [SystemState.carry, hhand, hstage, Function.update_self]
  · simp only [SystemState.carry, hhand, hstage, Function.update_of_ne ht]

/-- A thread that has no message on its way handles the shell of one. -/
theorem carry_of_off {m : Option Msg} (hhand : s'.hand = Function.update s.hand t m)
    (hbefore : s.stage t = none) (hstage : s'.stage = s.stage) : s'.carry = s.carry := by
  have hupdate : s'.stage = Function.update s.stage t none := by
    rw [hstage, ← hbefore, Function.update_eq_self]
  rw [carry_update hhand hupdate, Option.bind_none, ← carry_eq_none (Or.inl hbefore),
    Function.update_eq_self]

end Carry

/-- What an event means for the books. -/
def Event.ledgerOp? : Event Thread Nat Table → Option (LedgerOp Nat Nat UInt32)
  | .consumed (.consumer i) msg => if msg.data.isSome then some (.issue i) else none
  | .discarded (.consumer i) _ | .dropped (.consumer i) _ => some (.drop i)
  | .queued (.consumer i) msg => some (.file i msg.mark)
  | .delivered (.producer j) msg => some (.fetch j msg.mark)
  | .discarded (.producer j) _ => some (.refuse j)
  | .produced (.producer j) _ => some (.finish j)
  | _ => none

/-- Events that concern no message on its way. -/
def Event.isSilent : Event Thread Nat Table → Bool
  | .effect .. | .getLocked .. | .counted .. | .stored .. => true
  | .consumed _ msg => msg.data.isNone
  | .discarded .. | .dropped .. | .queued .. | .delivered .. | .produced .. => false

/-- The events concern no message on its way. -/
def Silent (evs : List (Event Thread Nat Table)) : Prop := ∀ e ∈ evs, e.isSilent = true

theorem silent_nil : Silent [] := List.forall_mem_nil _

theorem silent_effects (t : Thread) (l : List (Effect Nat Table)) :
    Silent (l.map (Event.effect t)) := by
  intro e he
  obtain ⟨x, -, rfl⟩ := List.mem_map.mp he
  rfl

theorem Silent.append {evs evs' : List (Event Thread Nat Table)} (h : Silent evs)
    (h' : Silent evs') : Silent (evs ++ evs') := by
  intro e he
  rcases List.mem_append.mp he with he | he
  · exact h e he
  · exact h' e he

theorem silent_of_isIdle {evs : List (Event Thread Nat Table)} (h : ∀ e ∈ evs, e.isIdle = true) :
    Silent evs := by
  intro e he
  have hidle := h e he
  cases e <;> first | rfl | cases hidle

/-- What a function reads off silent events, if it reads nothing off them. -/
theorem Silent.filterMap_eq_nil {β : Type} {evs : List (Event Thread Nat Table)} (h : Silent evs)
    {f : Event Thread Nat Table → Option β} (hf : ∀ e, e.isSilent = true → f e = none) :
    evs.filterMap f = [] :=
  List.filterMap_eq_nil_iff.mpr fun e he => hf e (h e he)

/-- A step of the system as seen from the messages on their way; `run?` is the run of hooks that it
is. -/
inductive TransitStep (conf : SystemConf) (s s' : SystemState) (run? : Option HookRun) : Prop
  /-- No message moves. -/
  | quiet {evs : List (Event Thread Nat Table)} (hrun : run? = none) (hevs : Silent evs)
      (hcarry : s'.carry = s.carry) (hhist : s'.queue.history = s.queue.history ++ evs)
  /-- The process is gone. -/
  | crashed {evs : List (Event Thread Nat Table)} (hrun : run? = none) (hevs : Silent evs)
      (hcrash : s'.queue.crashed = true) (hhist : s'.queue.history = s.queue.history ++ evs)
  /-- A message with data is consumed. -/
  | consumed {i : Nat} {msg : Msg} {evs : List (Event Thread Nat Table)} (hrun : run? = none)
      (hevs : Silent evs) (hdata : msg.data.isSome = true) (hfrom : s.carry (.consumer i) = none)
      (hcarry : s'.carry = Function.update s.carry (.consumer i) (some (.fresh, msg)))
      (hhist : s'.queue.history = s.queue.history ++ (evs ++ [.consumed (.consumer i) msg]))
  /-- A list of hooks accepts the message. -/
  | hooked {t : Thread} {p : HookPoint} {env : HookEnv} {st st' : Stage} {msg : Msg}
      {evs : List (Event Thread Nat Table)} (hrun : run? = some ⟨t, p, env⟩) (hevs : Silent evs)
      (hpass : HookPass t p st st') (hfrom : s.carry t = some (st, msg))
      (haccept : (hooklistRun (scriptHooks (conf.hooks t p)) env msg).accept = true)
      (hcarry : s'.carry = Function.update s.carry t
        (some (st', (hooklistRun (scriptHooks (conf.hooks t p)) env msg).msg)))
      (hhist : s'.queue.history = s.queue.history ++ evs)
  /-- A hook refuses the message. -/
  | refused {t : Thread} {p : HookPoint} {env : HookEnv} {st st' : Stage} {msg : Msg}
      {evs : List (Event Thread Nat Table)} (hrun : run? = some ⟨t, p, env⟩) (hevs : Silent evs)
      (hpass : HookPass t p st st') (hfrom : s.carry t = some (st, msg))
      (haccept : (hooklistRun (scriptHooks (conf.hooks t p)) env msg).accept = false)
      (hcarry : s'.carry = Function.update s.carry t none)
      (hhist : s'.queue.history = s.queue.history ++ (evs ++ [.discarded t msg]))
  /-- `queue_add` drops the message for want of memory. -/
  | dropped {i : Nat} {st : Stage} {msg args : Msg} {evs : List (Event Thread Nat Table)}
      (hrun : run? = none) (hevs : Silent evs) (hst : st = .preadded ∨ st = .postadded)
      (hfrom : s.carry (.consumer i) = some (st, msg))
      (hcarry : s'.carry = Function.update s.carry (.consumer i) none)
      (hhist : s'.queue.history = s.queue.history ++ (evs ++ [.dropped (.consumer i) args]))
  /-- The message is queued. -/
  | queued {i : Nat} {msg : Msg} (hrun : run? = none)
      (hfrom : s.carry (.consumer i) = some (.postadded, msg))
      (hcarry : s'.carry = Function.update s.carry (.consumer i) none)
      (hhist : s'.queue.history = s.queue.history ++ [.queued (.consumer i) msg])
  /-- A producer takes the oldest entry of a mark. -/
  | fetched {j : Nat} {msg : Msg} {e : Entry Nat Table} {es₁ es₂ : List (Entry Nat Table)}
      {evs : List (Event Thread Nat Table)} (hrun : run? = none) (hevs : Silent evs)
      (hfrom : s.carry (.producer j) = none) (hsplit : routed s.queue.history = es₁ ++ e :: es₂)
      (hmark : e.mark = msg.mark) (hold : ∀ f ∈ es₁, f.mark ≠ msg.mark)
      (hrest : routed s'.queue.history = es₁ ++ es₂)
      (hcarry : s'.carry = Function.update s.carry (.producer j) (some (.received, msg.receive e)))
      (hhist : s'.queue.history =
        s.queue.history ++ (evs ++ [.delivered (.producer j) (msg.receive e)]))
  /-- `producer_produce`. -/
  | produced {j : Nat} {msg : Msg} (hrun : run? = none)
      (hfrom : s.carry (.producer j) = some (.postgot, msg))
      (hcarry : s'.carry = Function.update s.carry (.producer j) none)
      (hhist : s'.queue.history = s.queue.history ++ [.produced (.producer j) msg])

/-- What `consumer_consume` writes: a message with data is announced last, and nothing else concerns
a message on its way. -/
theorem consumeMsg_cases {i : Nat} {msg msg' : Msg} {r : ConsumeResult}
    {evs : List (Event Thread Nat Table)} (hdata : msg.data = none)
    (h : consumeMsg (.consumer i) msg r = some (msg', evs)) :
    (msg'.data = none ∧ Silent evs) ∨ (msg'.data.isSome = true ∧
      ∃ evs', Silent evs' ∧ evs = evs' ++ [.consumed (.consumer i) msg']) := by
  cases r with
  | fail => cases h
  | nothing =>
    cases h
    exact Or.inl ⟨hdata, silent_nil⟩
  | data buf len =>
    cases h
    exact Or.inr ⟨rfl, [_], silent_effects _ [_], rfl⟩
  | record part offset payload len table =>
    cases h
    have hevs : ∀ l : List (Effect Nat Table),
        Silent ((payload.toList.map fun d => Event.effect (.consumer i) (.newData d)) ++
        l.map (Event.effect (.consumer i))) := by
      refine fun l => Silent.append (fun e he => ?_) (silent_effects _ _)
      obtain ⟨d, -, rfl⟩ := List.mem_map.mp he
      rfl
    cases payload with
    | none => exact Or.inl ⟨rfl, (hevs _).append fun e he => by cases List.mem_singleton.mp he; rfl⟩
    | some d => exact Or.inr ⟨rfl, _, hevs _, rfl⟩

/-- `metadata_callback_run` and the release concern no message on its way. -/
theorem silent_callbackRun {t : Thread} {msg msg' : Msg} {stored : Bool}
    {evs : List (Event Thread Nat Table)} (h : callbackRun t msg stored = some (msg', evs)) :
    Silent evs := by
  unfold callbackRun at h
  split at h
  · cases h
    exact silent_nil
  · split at h
    · cases h
      exact silent_effects _ [_]
    · split at h
      · cases h
        intro e he
        simp only [List.mem_append, List.mem_cons, List.mem_map, List.not_mem_nil, or_false] at he
        rcases he with (rfl | rfl | rfl) | ⟨d, -, rfl⟩ <;> rfl
      · cases h

/-! ### Steps of the system -/

/-- Every message on its way has data. -/
def Loaded (s : SystemState) : Prop :=
  ∀ t st msg, s.carry t = some (st, msg) → msg.data.isSome = true

/-- Every step of the flow of messages is a step of the messages on their way. -/
theorem FlowStep.transit {conf : SystemConf} {s s' : SystemState} {a : SystemAction}
    (h : FlowStep conf s s' a) (hload : Loaded s) : TransitStep conf s s' a.hookRun? := by
  cases h with
  | idle hidle hhand hhist hstage hrun =>
    exact .quiet hrun (silent_of_isIdle hidle) (carry_congr hhand hstage) hhist
  | crashed hidle hcrash hhist hrun => exact .crashed hrun (silent_of_isIdle hidle) hcrash hhist
  | appear hmsg hfrom hhand hhist hbefore hstage hrun =>
    exact .quiet hrun silent_nil (carry_of_off hhand hbefore hstage)
      (by rw [hhist, List.append_nil])
  | @forget t msg hfrom hdata hhand hhist hstage hrun =>
    -- a message without data is not on its way
    have hnone : s.carry t = none := by
      rw [Option.eq_none_iff_forall_ne_some]
      rintro ⟨st, msg'⟩ hcarry
      obtain ⟨-, hhand'⟩ := carry_eq_some_iff.mp hcarry
      obtain rfl : msg' = msg := Option.some.inj (hhand'.symm.trans hfrom)
      have hsome := hload t st msg' hcarry
      rw [hdata] at hsome
      cases hsome
    refine .quiet hrun silent_nil ?_ (by rw [hhist, List.append_nil])
    rw [carry_update hhand hstage, Option.bind_none, ← hnone, Function.update_eq_self]
  | consumed hfrom hdata hfits hmsg hhand hhist hbefore hstage hrun =>
    have hcarry := carry_update hhand hstage
    rcases consumeMsg_cases hdata hmsg with ⟨hnone, hevs⟩ | ⟨hsome, evs', hevs, rfl⟩
    · refine .quiet hrun hevs ?_ hhist
      rw [hcarry, hnone, Option.map_none, Option.bind_none, ← carry_eq_none (Or.inl hbefore),
        Function.update_eq_self]
    · obtain ⟨d, hd⟩ := Option.isSome_iff_exists.mp hsome
      rw [hd] at hcarry
      exact .consumed hrun hevs hsome (carry_eq_none (Or.inl hbefore)) hcarry hhist
  | hooked hpoint hfrom hdata haccept hhand hhist hstage =>
    obtain ⟨p, st, st', ⟨hrun, rfl, hpass, hbefore⟩, hstage⟩ := hstage
    exact .hooked hrun (silent_effects _ _) hpass (carry_eq_some_iff.mpr ⟨hbefore, hfrom⟩) haccept
      (carry_update hhand hstage) hhist
  | @refusedPreadd i env msg ha hfrom haccept hhand hhist hbefore hstage =>
    subst ha
    exact .refused rfl (silent_effects _ _) (.preadd i) (carry_eq_some_iff.mpr ⟨hbefore, hfrom⟩)
      haccept
      (carry_update hhand hstage) hhist
  | @refusedPostadd i p env msg ha hfrom haccept hhand hhist hbefore hstage =>
    subst ha
    rw [← List.append_assoc (List.map _ _)] at hhist
    refine .refused rfl ((silent_effects _ _).append fun e he => ?_) (.postadd i)
      (carry_eq_some_iff.mpr ⟨hbefore, hfrom⟩) haccept (carry_update hhand hstage) hhist
    obtain ⟨d, -, rfl⟩ := List.mem_map.mp he
    rfl
  | refused hpoint hfrom haccept hhand hhist hstage =>
    obtain ⟨⟨p, st, st', hrun, rfl, hpass, hbefore⟩, hstage⟩ := hstage
    exact .refused hrun (silent_effects _ _) hpass (carry_eq_some_iff.mpr ⟨hbefore, hfrom⟩) haccept
      (carry_update hhand hstage) hhist
  | noNode hfrom hhand hhist hbefore hstage hrun =>
    refine .dropped hrun (fun e he => ?_) (Or.inl rfl) (carry_eq_some_iff.mpr ⟨hbefore, hfrom⟩)
      (carry_update hhand hstage) hhist
    obtain ⟨d, -, rfl⟩ := List.mem_map.mp he
    rfl
  | noMark ha hcall hmark hdata haccept hfrom hhand hhist hbefore hstage =>
    subst ha
    exact .dropped rfl (silent_effects _ _) (Or.inr rfl) (carry_eq_some_iff.mpr ⟨hbefore, hfrom⟩)
      (carry_update hhand hstage) hhist
  | queued hfrom hdata hhand hhist hbefore hstage hrun =>
    exact .queued hrun (carry_eq_some_iff.mpr ⟨hbefore, hfrom⟩) (carry_update hhand hstage) hhist
  | taken hidle hfrom hsplit hmark hold hrest hhand hhist hstage hrun =>
    exact .fetched hrun (silent_of_isIdle hidle) (carry_eq_none (Or.inr hfrom))
      hsplit hmark hold hrest
      (carry_update hhand hstage) hhist
  | @produced j msg hfrom hhand hhist hbefore hstage hrun =>
    have hsame : s'.hand = Function.update s.hand (.producer j) (some msg) := by
      rw [hhand, ← hfrom, Function.update_eq_self]
    exact .produced hrun (carry_eq_some_iff.mpr ⟨hbefore, hfrom⟩) (carry_update hsame hstage) hhist
  | callback hfrom hprod hmsg hhand hhist hbefore hstage hrun =>
    exact .quiet hrun (silent_callbackRun hmsg) (carry_of_off hhand hbefore hstage) hhist
  | released hfrom henv hhand hhist hbefore hstage hrun =>
    exact .quiet hrun (silent_effects _ _) (carry_of_off hhand hbefore hstage) hhist

/-- The messages on their way keep their data. -/
theorem TransitStep.loaded {conf : SystemConf} {s s' : SystemState} {run? : Option HookRun}
    (h : TransitStep conf s s' run?) (hok : ThreadsOk conf s) (hload : Loaded s)
    (hcr : s'.queue.crashed = false) : Loaded s' := by
  have hupdate : ∀ {t : Thread} {o : Option (Stage × Msg)},
      s'.carry = Function.update s.carry t o →
      (∀ st msg, o = some (st, msg) → msg.data.isSome = true) → Loaded s' := by
    intro t o hcarry ho t' st msg hmsg
    rw [hcarry] at hmsg
    rcases of_update_eq_some hmsg with ⟨-, hnew⟩ | ⟨-, hold⟩
    · exact ho st msg hnew
    · exact hload t' st msg hold
  cases h with
  | quiet hrun hevs hcarry hhist =>
    intro t st msg hmsg
    rw [hcarry] at hmsg
    exact hload t st msg hmsg
  | crashed hrun hevs hcrash => simp [hcrash] at hcr
  | consumed hrun hevs hdata hfrom hcarry =>
    refine hupdate hcarry ?_
    rintro _ _ ⟨⟩
    exact hdata
  | hooked hrun hevs hpass hfrom haccept hcarry =>
    refine hupdate hcarry ?_
    rintro _ _ ⟨⟩
    exact hooklistRun_data_of_accepted haccept (hload _ _ _ hfrom)
  | fetched hrun hevs hfrom hsplit hmark hold hrest hcarry =>
    refine hupdate hcarry ?_
    rintro _ _ ⟨⟩
    exact hok.entries _ (by rw [hsplit]; simp)
  | refused hrun hevs hpass hfrom haccept hcarry => exact hupdate hcarry (by simp)
  | dropped hrun hevs hst hfrom hcarry => exact hupdate hcarry (by simp)
  | queued hrun hfrom hcarry | produced hrun hfrom hcarry => exact hupdate hcarry (by simp)

/-- At the beginning no message is on its way. -/
theorem carry_init (conf : SystemConf) : (SystemState.init conf).carry = fun _ => none := by
  funext t
  exact carry_eq_none (Or.inl (by rw [(threadsOk_init conf).2.2]))

end Schaufel
