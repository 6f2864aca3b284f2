import Schaufel.Foundation.CString

/-!
# The tokens of a string

`strtok_r` skips delimiters and cuts off what comes before the next one, so that empty pieces
between delimiters are never found.  Called until it returns a null pointer it finds `tokens`, one
after the other.
-/

namespace Schaufel

variable {delim : UInt8} {save token rest : CString}

/-- `strtok_r` on what is left of a string: the token, and what is left behind it. -/
def strtok (delim : UInt8) (save : CString) : Option (CString × CString) :=
  match save.dropWhile (· == delim) with
  | [] => none
  | c :: s => some ((c :: s).takeWhile (· != delim), ((c :: s).dropWhile (· != delim)).tail)

/-- What `strtok_r` finds one after the other: the pieces between delimiters that are not empty. -/
def tokens (delim : UInt8) (str : CString) : List CString := (str.splitOn delim).filter (· ≠ [])

@[simp] theorem tokens_nil (delim : UInt8) : tokens delim [] = [] := rfl

theorem tokens_append_cons (delim : UInt8) (x rest : CString) :
    tokens delim (x ++ delim :: rest) = tokens delim x ++ tokens delim rest := by
  rw [tokens, List.splitOn_append_cons_self, List.filter_append]
  rfl

theorem tokens_cons_self (delim : UInt8) (rest : CString) :
    tokens delim (delim :: rest) = tokens delim rest :=
  tokens_append_cons delim [] rest

/-- A string without delimiters is a token. -/
theorem tokens_of_not_mem (hmem : delim ∉ token) (hne : token ≠ []) :
    tokens delim token = [token] := by
  rw [tokens, List.splitOn_eq_singleton hmem]
  simp [hne]

/-- Names between delimiters are the tokens. -/
theorem tokens_intercalate {delim : UInt8} {names : List CString} (hne : names ≠ [])
    (hnames : ∀ name ∈ names, name ≠ [] ∧ delim ∉ name) :
    tokens delim ([delim].intercalate names) = names := by
  rw [tokens, List.splitOn_intercalate delim (fun name h => (hnames name h).2) hne]
  exact List.filter_eq_self.mpr fun name h => by simpa using (hnames name h).1

/-- A character of no name is not in the names with another one between them. -/
theorem not_mem_intercalate {sep c : UInt8} {names : List CString} (hsep : c ≠ sep)
    (hnames : ∀ name ∈ names, c ∉ name) : c ∉ [sep].intercalate names := by
  induction names with
  | nil => simp
  | cons name names ih =>
    rw [List.forall_mem_cons] at hnames
    by_cases hnil : names = []
    · rw [hnil, List.intercalate_singleton]
      exact hnames.1
    · rw [List.intercalate_cons_of_ne_nil hnil, List.mem_append, List.mem_append,
        List.mem_singleton]
      simp [hnames.1, hsep, ih hnames.2]

/-- The delimiters that are skipped are in no token. -/
theorem tokens_dropWhile (delim : UInt8) (save : CString) :
    tokens delim (save.dropWhile (· == delim)) = tokens delim save := by
  induction save with
  | nil => rfl
  | cons c save ih =>
    rw [List.dropWhile_cons]
    split
    · rename_i hc
      obtain rfl : c = delim := beq_iff_eq.mp hc
      rw [ih, tokens_cons_self]
    · rfl

/-- The text up to a delimiter is a token. -/
theorem tokens_takeWhile {s : CString} (hne : s.takeWhile (· != delim) ≠ []) :
    tokens delim s = s.takeWhile (· != delim) :: tokens delim (s.dropWhile (· != delim)).tail := by
  have hmem : delim ∉ s.takeWhile (· != delim) := fun h => by
    simpa using List.all_eq_true.mp List.all_takeWhile delim h
  have hfirst := tokens_of_not_mem hmem hne
  have hsplit := List.takeWhile_append_dropWhile (p := (· != delim)) (l := s)
  cases hrest : s.dropWhile (· != delim) with
  | nil =>
    rw [hrest, List.append_nil] at hsplit
    rw [hsplit] at hfirst ⊢
    exact hfirst
  | cons c rest =>
    have hc : (c != delim) = false := by
      have := List.head?_dropWhile_not (· != delim) s
      rw [hrest] at this
      simpa using this
    obtain rfl : c = delim := by simpa using hc
    rw [hrest] at hsplit
    conv_lhs => rw [← hsplit]
    rw [tokens_append_cons, hfirst]
    rfl

/-- `strtok_r` returns a null pointer if there is no token. -/
theorem tokens_of_strtok_eq_none (h : strtok delim save = none) : tokens delim save = [] := by
  unfold strtok at h
  split at h
  · rename_i hnil
    rw [← tokens_dropWhile, hnil, tokens_nil]
  · cases h

/-- `strtok_r` finds the first token, and leaves the others for its next calls. -/
theorem tokens_of_strtok (h : strtok delim save = some (token, rest)) :
    tokens delim save = token :: tokens delim rest ∧ rest.length < save.length := by
  unfold strtok at h
  split at h
  · cases h
  · rename_i c s hdrop
    obtain ⟨rfl, rfl⟩ := Prod.mk.inj (Option.some.inj h)
    have hc : (c != delim) = true := by
      have := List.head?_dropWhile_not (· == delim) save
      rw [hdrop] at this
      simpa using this
    have hne : (c :: s).takeWhile (· != delim) ≠ [] := by
      rw [List.takeWhile_cons, if_pos hc]
      exact List.cons_ne_nil _ _
    refine ⟨?_, ?_⟩
    · rw [← tokens_dropWhile, hdrop]
      exact tokens_takeWhile hne
    · have hle : (c :: s).length ≤ save.length := by
        rw [← hdrop]
        exact (List.dropWhile_sublist _).length_le
      have hrest : ((c :: s).dropWhile (· != delim)).length ≤ s.length := by
        rw [List.dropWhile_cons, if_pos hc]
        exact (List.dropWhile_sublist _).length_le
      rw [List.length_tail]
      rw [List.length_cons] at hle
      omega

end Schaufel
