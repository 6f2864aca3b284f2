import Schaufel.Config.Totality

/-!
# Accepted lists

A list of consumers or producers is accepted if every entry is: its number of threads is positive,
it has a type, its hooks are accepted, and so is the entry by the validator of its type.  The list
afterwards has what the validators make of the entries, in their places, and the entries they append
behind them.
-/

namespace Schaufel

/-- The elements of the hooks of an entry; an entry without hooks has none. -/
def hookElements (entry : Setting) : List Setting :=
  ((entry.getMember (ascii "hooks")).map Setting.elements).getD []

theorem hookElements_congr {entry e : Setting}
    (h : e.getMember (ascii "hooks") = entry.getMember (ascii "hooks")) :
    hookElements e = hookElements entry := by
  rw [hookElements, h]
  rfl

/-- An entry as its validator gets it: with its hooks as they are checked. -/
structure Prepared (entry child : Setting) : Prop where
  /-- The entry is a group. -/
  isGroup : child.isGroup = true
  /-- The hooks are those of the entry, as they are checked. -/
  hooks : Hooks.hooksLoop (hookElements entry) = .ok (hookElements child)
  /-- All other settings are those of the entry. -/
  others : ∀ name, name ≠ ascii "hooks" → child.getMember name = entry.getMember name

/-- An entry that is accepted, with what its validator makes of it and the entries it appends. -/
structure Accepted (type : ThreadType) (entry : Setting) (result : Setting × List Setting) :
    Prop where
  /-- The validator of the type of the entry accepts it. -/
  validated : ∃ child kind m, Prepared entry child ∧ entry.lookupString (ascii "type") = some kind ∧
    validatorInit kind = some m ∧ m.validate type child = .ok result
  /-- So does the loop, whatever its variables are. -/
  step : ∀ s : ThreadLoop, s.stopped = false → ∃ child kind,
    s.step type entry = some (((s.readType entry).record child kind).accept result.1 result.2)

namespace ThreadLoop

variable {type : ThreadType} {s s' : ThreadLoop} {entry child : Setting}

/-- A judgement never takes a refusal back. -/
theorem Judged.ret {kind : CString} (h : Judged type s child kind s') (hret : s'.ret = true) :
    s.ret = true := by
  cases h with
  | unknown hm => cases hret
  | refuses m hm hvalidate => cases hret
  | accepts m child' instances hm hvalidate => exact hret

/-- Behind a round that refuses nothing, the threads and the type of the entry were not refused
either. -/
theorem readType_ret_of_step (hs : s.stopped = false) (h : step type s entry = some s')
    (hret : s'.ret = true) : (s.readType entry).ret = true := by
  rw [step_eq_round hs, round] at h
  split at h
  · cases h
  · split at h
    · split at h
      · cases h
      · obtain ⟨kind, -, hjudged⟩ := Judged.of_judge h
        cases hjudged.ret hret
      · obtain ⟨kind, -, hjudged⟩ := Judged.of_judge h
        exact hjudged.ret hret
    · obtain rfl := Option.some.inj h
      cases hret

/-- A loop never takes a refusal back. -/
theorem ret_of_exec {entries : List Setting} (h : exec (step type) s entries = some s')
    (hret : s'.ret = true) : s.ret = true := by
  by_contra hrefused
  refine exec_invariant (P := fun t : ThreadLoop => ¬ t.ret = true) hrefused ?_ h hret
  intro t entry t' hrefused hstep hret
  rcases hstopped : t.stopped with _ | _
  · have hread := readType_ret_of_step hstopped hstep hret
    rw [readType, Bool.and_eq_true, Bool.and_eq_true] at hread
    exact hrefused hread.1.1
  · rw [step, if_pos hstopped] at hstep
    obtain rfl := Option.some.inj hstep
    exact hrefused hret

/-- What a round makes of an entry if nothing is refused. -/
theorem accepted_of_step (hs : s.stopped = false) (h : step type s entry = some s')
    (hret : s'.ret = true) :
    ∃ result, Accepted type entry result ∧ s'.stopped = false ∧ s'.done = s.done ++ [result.1] ∧
      s'.appended = s.appended ++ result.2 := by
  have hread := readType_ret_of_step hs h hret
  rw [readType, Bool.and_eq_true, Option.isSome_iff_exists] at hread
  obtain ⟨-, kind, hkind⟩ := hread
  have hgroup := Setting.isGroup_of_getMember (Setting.getMember_of_lookupString hkind)
  obtain ⟨child, hhooklist, hchild, hhooks, hframe⟩ := exists_hooklist hgroup
  have hround : ∀ t, t.stopped = false → step type t entry = round type (t.readType entry) entry :=
    fun t ht => step_eq_round ht
  simp only [round, hhooklist] at hround
  have helements : hookElements entry =
      ((entry.getMember (ascii "hooks")).getD (.list [])).elements := by
    rw [hookElements]
    cases entry.getMember (ascii "hooks") <;> rfl
  generalize (entry.getMember (ascii "hooks")).getD (.list []) = hooks at hround helements
  cases hooks with
  | list elements =>
    rcases hloop : Hooks.hooksLoop elements with (_ | _) | hooks'
    · -- refused hooks leave a refusal behind
      have hrefused := (hround s hs).symm.trans h
      simp only [Setting.isList, Hooks.hooksValidate, hloop] at hrefused
      obtain ⟨kind, -, hjudged⟩ := Judged.of_judge hrefused
      cases hjudged.ret hret
    · have hcrash := (hround s hs).symm.trans h
      simp [Setting.isList, Hooks.hooksValidate, hloop, Except.map] at hcrash
    · have hprepared : Prepared entry (child.set (ascii "hooks") (.list hooks')) := by
        refine ⟨?_, ?_, fun name hne => (Setting.getMember_set_of_ne hne).trans (hframe name hne)⟩
        · rw [Setting.isGroup_set, hchild]
        · rw [helements, hookElements, Setting.getMember_set_self hhooks]
          exact hloop
      have hjudge : ∀ t, t.stopped = false → step type t entry =
          judge type (t.readType entry) (child.set (ascii "hooks") (.list hooks')) := by
        simpa [Setting.isList, Hooks.hooksValidate, hloop, Except.map] using hround
      obtain ⟨kind', hkind', hjudged⟩ := Judged.of_judge ((hjudge s hs).symm.trans h)
      obtain rfl := Option.some.inj ((readType_confStr hkind).symm.trans hkind')
      cases hjudged with
      | unknown hm => cases hret
      | refuses m hm hvalidate => cases hret
      | accepts m child' instances hm hvalidate =>
        refine ⟨(child', instances),
          ⟨⟨_, kind, m, hprepared, hkind, hm, hvalidate⟩, fun t ht => ?_⟩, hs, rfl, rfl⟩
        refine ⟨child.set (ascii "hooks") (.list hooks'), kind, (hjudge t ht).trans ?_⟩
        simp only [judge, readType_confStr hkind, hm, hvalidate]
  | _ =>
    obtain rfl := Option.some.inj ((hround s hs).symm.trans h)
    cases hret

/-- A loop that refuses nothing accepts every entry. -/
theorem accepted_of_exec {entries : List Setting} (hs : s.stopped = false)
    (h : exec (step type) s entries = some s') (hret : s'.ret = true) :
    ∃ results, List.Forall₂ (Accepted type) entries results ∧
      s'.done = s.done ++ results.map Prod.fst ∧
      s'.appended = s.appended ++ results.flatMap Prod.snd := by
  induction entries generalizing s with
  | nil =>
    obtain rfl := Option.some.inj h
    exact ⟨[], .nil, by simp, by simp⟩
  | cons entry entries ih =>
    rw [exec_cons] at h
    obtain ⟨t, ht, hrest⟩ := Option.bind_eq_some_iff.mp h
    obtain ⟨result, haccepted, hstopped, hdone, happended⟩ :=
      accepted_of_step hs ht (ret_of_exec hrest hret)
    obtain ⟨results, hresults, hdone', happended'⟩ := ih hstopped hrest
    refine ⟨result :: results, .cons haccepted hresults, ?_, ?_⟩
    · simp [hdone', hdone]
    · simp [happended', happended]

end ThreadLoop

variable {type : ThreadType} {config : Setting} {entries : List Setting} {v : ThreadVerdict}

/-- An accepted list: every entry is accepted, and the list has what is made of the entries. -/
theorem accepted_of_threadValidate (hentries : config.getMember type.name = some (.list entries))
    (hv : threadValidate type config = some v) (haccepted : v.accepted = true) :
    ∃ results, List.Forall₂ (Accepted type) entries results ∧
      v.entries = results.map Prod.fst ++ results.flatMap Prod.snd := by
  simp only [threadValidate, hentries] at hv
  split at hv
  · obtain rfl := Option.some.inj hv
    cases haccepted
  · obtain ⟨s, hexec, rfl⟩ := Option.map_eq_some_iff.mp hv
    obtain ⟨results, hresults, hdone, happended⟩ := ThreadLoop.accepted_of_exec rfl hexec haccepted
    refine ⟨results, hresults, ?_⟩
    simp only [hdone, happended]
    rfl

end Schaufel
