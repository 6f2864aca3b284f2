import Mathlib.Data.Fintype.EquivFin
import Schaufel.Queue.HookPoints

/-!
# Calls that go through

The queue kills the process only in `queue_get`, and only after `_xmark_find` had no memory.  So a
call of `queue_get` that has memory goes on (`QueueInv.get_alive`), and so does every call of
`queue_add` (`QueueInv.adding_alive`), which waits as long as the queue is full.  An address for a
new list node is left in every state (`QueueState.Roomy.exists_free`).
-/

namespace Schaufel

variable {ι δ μ ε : Type} [DecidableEq ι]

/-- The action belongs to a call of `queue_add`. -/
def QueueAction.Adds (q : QueueState ι δ μ) : QueueAction ι δ μ ε → Prop
  | .add .. | .lock .. => True
  | .wake t _ => ∃ args p m sig, q.call t = .addWait args p m sig
  | _ => False

/-- The code of `queue_add` behind the lock never kills the process. -/
theorem QueueInv.addOutcome_alive {q q' : QueueState ι δ μ} {ps : List Ptr} (hinv : QueueInv q ps)
    {t : ι} {args msg : Message δ μ} {p : Ptr} (hp : q.q.heap p = some ⟨msg, none, none, none⟩)
    (hmem : p ∉ ps) (hfind : (binFind q.q.xtree msg.mark).isSome)
    (h : AddOutcome q t args p msg.mark q') :
    q'.crashed = q.crashed ∧ (maxQueueSize < q.q.length →
      q' = q.setCall t (.addWait args p msg.mark false)) ∧
      (∀ a, a ∉ p :: ps → q'.q.heap a = q.q.heap a) := by
  obtain ⟨q₂, hlink, -, hheap, -⟩ := link_spec hinv.spells hp hmem hfind
  cases h with
  | wait hlen => exact ⟨rfl, fun _ => rfl, fun a _ => rfl⟩
  | link hlen hx hn hq =>
    refine ⟨by simp [QueueState.linked], fun hfull => absurd hlen (Int.not_le.mpr hfull),
      fun a ha => ?_⟩
    obtain rfl := Option.some.inj (hq.symm.trans hlink)
    rw [QueueState.linked_q]
    exact hheap a (List.not_mem_of_not_mem_cons ha) (List.ne_of_not_mem_cons ha)
  | crash hnone =>
    rcases hnone with hnone | hnone | hnone
    · rw [hnone] at hfind
      cases hfind
    · rw [hp] at hnone
      cases hnone
    · rw [hlink] at hnone
      cases hnone

/-- What a step of `queue_add` behind the lock does. -/
theorem QueueInv.adding_alive {conf : QueueConf δ μ ε} {q q' : QueueState ι δ μ} {ps : List Ptr}
    {b : QueueAction ι δ μ ε} (hinv : QueueInv q ps) (h : QueueStep conf q b q')
    (hadds : b.Adds q) :
    q'.crashed = q.crashed ∧ (maxQueueSize < (routed q.history).length →
      routed q'.history = routed q.history ∧
      ∀ args p m sig, q.call b.thread = .addWait args p m sig →
        q'.call b.thread = .addWait args p m false) := by
  have hquiet : ∀ {evs : List (Event ι δ μ)}, q'.history = q.history ++ evs → fifoOps evs = [] →
      routed q'.history = routed q.history := fun hhist hnil => by
    rw [hhist, routed_append_of_fifoOps_eq_nil hnil]
  -- a thread outside the queue waits for nothing
  have houtside : ∀ {t}, (q.call t).outside = true →
      ∀ args p m sig, q.call t ≠ .addWait args p m sig := by
    intro t hout args p m sig hcall
    rw [hcall] at hout
    cases hout
  have hlength := hinv.spells.length
  cases h with
  | addNoMem hout =>
    exact ⟨rfl, fun _ => ⟨hquiet rfl (by simp),
      fun args p m sig hcall => absurd hcall (houtside hout _ _ _ _)⟩⟩
  | addRefused hout hp hrun =>
    refine ⟨rfl, fun _ => ⟨?_, fun args p m sig hcall => absurd hcall (houtside hout _ _ _ _)⟩⟩
    exact hquiet (List.append_assoc _ _ _) (by simp)
  | addAccepted hout hp hrun =>
    exact ⟨rfl, fun _ => ⟨hquiet rfl (by simp),
      fun args p m sig hcall => absurd hcall (houtside hout _ _ _ _)⟩⟩
  | @lockCrash t args p alloc hcall hp =>
    have hok := hinv.call t
    rw [hcall] at hok
    obtain ⟨-, msg, hmsg⟩ := hok
    rw [hp] at hmsg
    cases hmsg
  | @lockNoMem t args p n alloc hcall hp hx =>
    refine ⟨rfl, fun _ => ⟨hquiet rfl ?_, fun args p m sig hcall' => ?_⟩⟩
    · rw [fifoOps_append, fifoOps_dropped, fifoOps_effects, List.append_nil]
    · cases hcall.symm.trans hcall'
  | @lock t args p n alloc xq q' hcall hp hx hadd =>
    have hok := hinv.call t
    rw [hcall] at hok
    obtain ⟨hmem, msg, hmsg⟩ := hok
    cases hp.symm.trans hmsg
    obtain ⟨hspells, hfind, hheap, -, hlen, -⟩ := xmarkFind_spec hinv.spells hx
    obtain ⟨hinv', -, -, -⟩ := hinv.of_xmarkFind t hx
    obtain ⟨hcr, hfull, -⟩ :=
      hinv'.addOutcome_alive (by rw [← hmsg]; exact congrFun hheap p) hmem hfind hadd
    refine ⟨hcr, fun hlong => ?_⟩
    have hq' := hfull (by rw [hlen, hlength]; exact hlong)
    rw [hq']
    exact ⟨rfl, fun args p m sig hcall' => by cases hcall.symm.trans hcall'⟩
  | @wakeAdd t args p m sig q' hcall hadd =>
    have hok := hinv.call t
    rw [hcall] at hok
    obtain ⟨hmem, ⟨msg, hmsg, rfl⟩, hfind⟩ := hok
    obtain ⟨hcr, hfull, -⟩ := hinv.addOutcome_alive hmsg hmem hfind hadd
    refine ⟨hcr, fun hlong => ?_⟩
    have hq' := hfull (by rw [hlength]; exact hlong)
    rw [hq']
    refine ⟨rfl, fun args' p' m' sig' hcall' => ?_⟩
    cases hcall.symm.trans hcall'
    exact Function.update_self t _ _
  | getNoMem | get | preget | pregetRefused | count => exact hadds.elim
  | wakeGet hcall | wakeXget hcall | timeout hcall | xtimeout hcall | xtimeoutCrash hcall =>
    obtain ⟨args, p, m, sig, hcall'⟩ := hadds
    cases hcall.symm.trans hcall'

/-- A call of `queue_get` that has memory does not kill the process. -/
theorem QueueInv.get_alive {conf : QueueConf δ μ ε} {q q' : QueueState ι δ μ} {ps : List Ptr}
    {t : ι} {msg : Message δ μ} (hinv : QueueInv q ps) (h : QueueStep conf q (.get t msg true) q')
    (hout : (q.call t).outside = true) (hup : q.crashed = false) : q'.crashed = false := by
  refine (h.not_crashed hup).resolve_right fun hcall => ?_
  -- the frame of the thread has changed
  have hframe : ∀ {c}, q'.call t = c → c.outside = true := fun hc => by
    rwa [← hc, hcall]
  have hwhose : ∀ {t' msg' evs}, Getting q t' msg' evs (.get t msg true : QueueAction ι δ μ ε) →
      t' = t := by
    rintro t' msg' evs ⟨⟩
    rfl
  obtain ⟨-, hfifo⟩ := hinv.step h
  cases hfifo with
  | addBlocked hfrom | added hfrom => cases hfrom
  | getBlocked hfrom _ hcall' | getXblocked hfrom _ hcall' =>
    rw [hwhose hfrom] at hcall'
    cases hframe hcall'
  | taken hfrom _ _ _ _ hcall' =>
    rw [hwhose hfrom] at hcall'
    cases hframe hcall'
  | crashed hfrom hnull =>
    rcases hnull with ⟨alloc, ha, hx⟩ | ⟨sig, hwait⟩
    · cases ha
      unfold Queue.xmarkFind at hx
      split at hx <;> cases hx
    · rw [hwhose hfrom] at hwait
      rw [hwait] at hout
      cases hout

/-! ### Addresses -/

/-- A step writes to finitely many addresses. -/
theorem QueueInv.heap_off {conf : QueueConf δ μ ε} {q q' : QueueState ι δ μ} {ps : List Ptr}
    {b : QueueAction ι δ μ ε} (hinv : QueueInv q ps) (h : QueueStep conf q b q') :
    ∃ l : List Ptr, ∀ a ∉ l, q'.q.heap a = q.q.heap a := by
  have hget : ∀ {q₀ : QueueState ι δ μ} {t msg x}, QueueInv q₀ ps → q₀.q.heap = q.q.heap →
      GetOutcome q₀ t msg x q' → ∃ l : List Ptr, ∀ a ∉ l, q'.q.heap a = q.q.heap a := by
    intro q₀ t msg x hinv₀ hheap hout
    cases hout with
    | wait | xwait | crash => exact ⟨[], fun a _ => congrFun hheap a⟩
    | @take m y q₂ msg' hm hy hfirst hq =>
      obtain ⟨q₃, ps', e, es₁, es₂, -, -, -, htake, -, -, hsame, -⟩ :=
        take_spec hinv₀.spells hy hfirst msg
      cases hq.symm.trans htake
      refine ⟨ps, fun a ha => ?_⟩
      rw [QueueState.handed_q, hsame a ha, hheap]
  cases h with
  | addNoMem | addRefused | lockCrash | timeout | xtimeout | xtimeoutCrash | preget
  | pregetRefused =>
    exact ⟨[], fun a _ => rfl⟩
  | @count t c => exact ⟨[], fun a _ => by cases c <;> rfl⟩
  | @addAccepted t args p env =>
    exact ⟨[p], fun a ha => Function.update_of_ne (List.ne_of_not_mem_cons ha) _ _⟩
  | @lockNoMem t args p =>
    exact ⟨[p], fun a ha => Function.update_of_ne (List.ne_of_not_mem_cons ha) _ _⟩
  | @lock t args p n alloc xq q' hcall hp hx hadd =>
    have hok := hinv.call t
    rw [hcall] at hok
    obtain ⟨hmem, msg, hmsg⟩ := hok
    cases hp.symm.trans hmsg
    obtain ⟨-, hfind, hheap, -⟩ := xmarkFind_spec hinv.spells hx
    obtain ⟨hinv', -⟩ := hinv.of_xmarkFind t hx
    obtain ⟨-, -, hoff⟩ :=
      hinv'.addOutcome_alive (by rw [← hmsg]; exact congrFun hheap p) hmem hfind hadd
    exact ⟨p :: ps, fun a ha => (hoff a ha).trans (congrFun hheap a)⟩
  | @wakeAdd t args p m sig q' hcall hadd =>
    have hok := hinv.call t
    rw [hcall] at hok
    obtain ⟨hmem, ⟨msg, hmsg, rfl⟩, hfind⟩ := hok
    obtain ⟨-, -, hoff⟩ := hinv.addOutcome_alive hmsg hmem hfind hadd
    exact ⟨p :: ps, hoff⟩
  | getNoMem hout hx hout' => exact hget (hinv.of_emit rfl) rfl hout'
  | @get t msg alloc xq q' hout hx hout' =>
    obtain ⟨-, -, hheap, -⟩ := xmarkFind_spec hinv.spells hx
    obtain ⟨hinv', -⟩ := hinv.of_xmarkFind t hx
    have hlocked : QueueInv ({ q with q := xq }.emit [.getLocked t msg.mark]) ps :=
      hinv'.of_emit rfl
    exact hget hlocked hheap hout'
  | wakeGet hcall hout' => exact hget hinv rfl hout'
  | wakeXget hcall hout' => exact hget hinv rfl hout'

/-- All but finitely many addresses are free. -/
def QueueState.Roomy (q : QueueState ι δ μ) : Prop := ∃ l : List Ptr, ∀ a ∉ l, q.q.heap a = none

theorem QueueState.Roomy.step {conf : QueueConf δ μ ε} {q q' : QueueState ι δ μ} {ps : List Ptr}
    {b : QueueAction ι δ μ ε} (h : q.Roomy) (hinv : QueueInv q ps) (hstep : QueueStep conf q b q') :
    q'.Roomy := by
  obtain ⟨l, hl⟩ := h
  obtain ⟨l', hl'⟩ := hinv.heap_off hstep
  refine ⟨l' ++ l, fun a ha => ?_⟩
  rw [hl' a fun hmem => ha (List.mem_append_left l hmem),
    hl a fun hmem => ha (List.mem_append_right l' hmem)]

omit [DecidableEq ι] in
/-- `message_list_init` can find memory. -/
theorem QueueState.Roomy.exists_free {q : QueueState ι δ μ} (h : q.Roomy) :
    ∃ p, q.q.heap p = none := by
  obtain ⟨l, hl⟩ := h
  obtain ⟨p, hp⟩ := Infinite.exists_notMem_finset l.toFinset
  exact ⟨p, hl p fun hmem => hp (List.mem_toFinset.mpr hmem)⟩

end Schaufel
