import Schaufel.Foundation.DecimalPrefix
import Schaufel.Foundation.Strtok

/-!
# Connection strings

`parse_connstring` of `src/utils/helper.c` takes `host`, `host:port` or `host:port:directory` apart
with `strtok_r`, and reads the port with `atoi`.

The first token is copied with `strdup` before it is compared with a null pointer, so that a string
without any token, which should be reported as one without a host, crashes.  A port that is no `int`
comes out of `atoi` as another number.  All other strings are classified by their first three tokens
(`connExact_iff`), and what consists of a host, a port and possibly a directory is recovered
(`parseConnstring_text`).
-/

namespace Schaufel

/-! ### Numbers -/

/-- `strtol` in base 10: a number that is no `long` is replaced by the closest one. -/
def strtol10 (s : CString) : Int64 := .ofInt (max (-2 ^ 63) (min (2 ^ 63 - 1) (signedNumber s)))

/-- `atoi`. -/
def atoi (s : CString) : Int32 := (strtol10 s).toInt32

theorem toInt_atoi {s : CString} (hle : -2 ^ 31 ≤ signedNumber s) (hlt : signedNumber s < 2 ^ 31) :
    (atoi s).toInt = signedNumber s := by
  have hclamp : max (-2 ^ 63) (min (2 ^ 63 - 1) (signedNumber s)) = signedNumber s := by omega
  have hlong : (strtol10 s).toInt = signedNumber s := by
    rw [strtol10, hclamp]
    exact Int64.toInt_ofInt_of_le (by omega) (by omega)
  rw [atoi, Int64.toInt_toInt32, hlong]
  exact Int.bmod_eq_of_le (by omega) (by omega)

theorem atoi_of_signedNumber_eq_zero {s : CString} (h : signedNumber s = 0) : atoi s = 0 := by
  rw [atoi, strtol10, h]
  rfl

/-! ### The parser -/

/-- What `parse_connstring` returns, and what it has written to `*hostname`, `*port` and, if it is
asked for, `*socket_dir`. -/
structure ConnResult where
  res : Int32
  hostname : Option CString
  port : Int32
  socketDir : Option (Option CString)
  deriving DecidableEq, Repr

/-- `parse_connstring`; `port` is what `*port` was before, and `requested` says that `socket_dir` is
no null pointer.  The function does not come back from a string without tokens: the token is copied
before it is looked at. -/
def parseConnstring (conninfo : CString) (port : Int32) (requested : Bool) : Option ConnResult :=
  let noDir : Option (Option CString) := if requested then some none else none
  match strtok 58 conninfo with
  | none => none
  | some (hostname, save) =>
    match strtok 58 save with
    | none => some ⟨1, some hostname, port, noDir⟩
    | some (portStr, save) =>
      if atoi portStr = 0 then some ⟨-1, some hostname, atoi portStr, noDir⟩
      else if requested then
        match strtok 58 save with
        | none => some ⟨0, some hostname, atoi portStr, noDir⟩
        | some (socketStr, _) => some ⟨0, some hostname, atoi portStr, some (some socketStr)⟩
      else some ⟨0, some hostname, atoi portStr, noDir⟩

section Results

variable (port : Int32) (requested : Bool)

/-- The result for each list of tokens. -/
def connResult : List CString → Option ConnResult
  | [] => none
  | [hostname] => some ⟨1, some hostname, port, if requested then some none else none⟩
  | hostname :: portStr :: rest =>
    if atoi portStr = 0 then some ⟨-1, some hostname, 0, if requested then some none else none⟩
    else some ⟨0, some hostname, atoi portStr, if requested then some rest.head? else none⟩

/-- Only the tokens count. -/
theorem parseConnstring_eq (conninfo : CString) :
    parseConnstring conninfo port requested = connResult port requested (tokens 58 conninfo) := by
  unfold parseConnstring
  rcases hhost : strtok 58 conninfo with _ | ⟨hostname, save⟩
  · rw [tokens_of_strtok_eq_none hhost]
    rfl
  · rw [(tokens_of_strtok hhost).1]
    simp only
    rcases hport : strtok 58 save with _ | ⟨portStr, save'⟩
    · rw [tokens_of_strtok_eq_none hport]
      rfl
    · rw [(tokens_of_strtok hport).1]
      simp only [connResult]
      split_ifs with hzero hrequested
      · rw [hzero]
      · rw [hzero]
      · rcases hdir : strtok 58 save' with _ | ⟨socketStr, save''⟩
        · rw [tokens_of_strtok_eq_none hdir]
          rfl
        · rw [(tokens_of_strtok hdir).1]
          rfl
      · rfl

/-- What should be returned for some tokens. -/
inductive Classified : List CString → ConnResult → Prop
  /-- There is no host. -/
  | noHost (p : Int32) : Classified [] ⟨-1, none, p, if requested then some none else none⟩
  /-- There is a host only, and `*port` is as it was. -/
  | hostOnly (host : CString) :
      Classified [host] ⟨1, some host, port, if requested then some none else none⟩
  /-- The second token does not start with a number, or the number is zero. -/
  | noPort (host t : CString) (rest : List CString) (h : Option CString) (p : Int32)
      (hzero : signedNumber t = 0) :
      Classified (host :: t :: rest) ⟨-1, h, p, if requested then some none else none⟩
  /-- The second token starts with the port. -/
  | hostPort (host t : CString) (rest : List CString) (p : Int32) (hne : signedNumber t ≠ 0)
      (hport : p.toInt = signedNumber t) :
      Classified (host :: t :: rest) ⟨0, some host, p, if requested then some rest.head? else none⟩

/-- The function returns what it should. -/
def ConnExact (conninfo : CString) : Prop :=
  ∃ r, parseConnstring conninfo port requested = some r ∧
    Classified port requested (tokens 58 conninfo) r

/-- There is a token, and the port is an `int`. -/
def ConnSound (conninfo : CString) : Prop :=
  tokens 58 conninfo ≠ [] ∧
    ∀ t ∈ (tokens 58 conninfo)[1]?, -2 ^ 31 ≤ signedNumber t ∧ signedNumber t < 2 ^ 31

theorem connExact_iff (conninfo : CString) :
    ConnExact port requested conninfo ↔ ConnSound conninfo := by
  unfold ConnExact ConnSound
  rw [parseConnstring_eq]
  rcases tokens 58 conninfo with _ | ⟨host, _ | ⟨t, rest⟩⟩
  · simp [connResult]
  · refine iff_of_true ⟨_, rfl, .hostOnly host⟩ ⟨List.cons_ne_nil _ _, fun t ht => ?_⟩
    cases ht
  · constructor
    · rintro ⟨r, -, hclass⟩
      refine ⟨List.cons_ne_nil _ _, fun t' ht' => ?_⟩
      obtain rfl := Option.some.inj ht'
      cases hclass with
      | noPort _ _ _ h p hzero => omega
      | hostPort _ _ _ p hne hport =>
        have hle := p.le_toInt
        have hlt := p.toInt_lt
        omega
    · rintro ⟨-, hrange⟩
      obtain ⟨hle, hlt⟩ := hrange t rfl
      have hatoi := toInt_atoi hle hlt
      simp only [connResult]
      by_cases hzero : signedNumber t = 0
      · rw [if_pos (atoi_of_signedNumber_eq_zero hzero)]
        exact ⟨_, rfl, .noPort host t rest _ _ hzero⟩
      · have hne : atoi t ≠ 0 := fun h => hzero (by rw [← hatoi, h]; rfl)
        rw [if_neg hne]
        exact ⟨_, rfl, .hostPort host t rest _ hzero hatoi⟩

end Results

/-! ### Hosts, ports and directories -/

/-- A host, a port and possibly a directory; the port is written with some number of digits. -/
structure Endpoint where
  host : CString
  host_ne : host ≠ []
  host_noColon : 58 ∉ host
  port : Nat
  port_pos : 0 < port
  port_lt : port < 2 ^ 31
  width : Nat
  port_lt_pow : port < 10 ^ width
  dir : Option CString
  dir_valid : ∀ d ∈ dir, d ≠ [] ∧ 58 ∉ d

namespace Endpoint

variable (e : Endpoint)

/-- The digits of the port. -/
def portStr : CString := toDigits e.width e.port

/-- `host:port` or `host:port:dir`. -/
def text : CString := [58].intercalate (e.host :: e.portStr :: e.dir.toList)

theorem signedNumber_portStr : signedNumber e.portStr = e.port := by
  rw [portStr, signedNumber_digits fun c hc => (isDigit_iff c).mpr (toNat_of_mem_toDigits hc),
    ofDigits_toDigits, Nat.mod_eq_of_lt e.port_lt_pow]

theorem portStr_valid : e.portStr ≠ [] ∧ 58 ∉ e.portStr := by
  refine ⟨fun hnil => ?_, fun hmem => ?_⟩
  · have hzero := e.signedNumber_portStr
    rw [hnil] at hzero
    exact absurd (Int.natCast_eq_zero.mp hzero.symm) (Nat.ne_of_gt e.port_pos)
  · exact absurd (toNat_of_mem_toDigits hmem).2 (by decide)

theorem tokens_text : tokens 58 e.text = e.host :: e.portStr :: e.dir.toList := by
  refine tokens_intercalate (List.cons_ne_nil _ _) fun name hname => ?_
  rcases List.mem_cons.mp hname with rfl | hname
  · exact ⟨e.host_ne, e.host_noColon⟩
  · rcases List.mem_cons.mp hname with rfl | hname
    · exact e.portStr_valid
    · exact e.dir_valid name (Option.mem_toList.mp hname)

theorem atoi_portStr : atoi e.portStr = Int32.ofNat e.port ∧ atoi e.portStr ≠ 0 := by
  have hpos := e.port_pos
  have hlt := e.port_lt
  have hatoi : (atoi e.portStr).toInt = e.port := by
    rw [toInt_atoi, e.signedNumber_portStr] <;> rw [e.signedNumber_portStr] <;> omega
  refine ⟨Int32.toInt.inj ?_, fun hzero => ?_⟩
  · rw [hatoi, Int32.toInt_ofNat_of_lt hlt]
  · rw [hzero] at hatoi
    have : (0 : Int) = e.port := hatoi
    omega

/-- Host, port and directory are recovered. -/
theorem parseConnstring_text (port : Int32) (requested : Bool) :
    parseConnstring e.text port requested =
      some ⟨0, some e.host, Int32.ofNat e.port, if requested then some e.dir else none⟩ := by
  obtain ⟨hport, hne⟩ := e.atoi_portStr
  rw [parseConnstring_eq, e.tokens_text, connResult, if_neg hne, hport, Option.head?_toList]

end Endpoint

/-- What is returned for a string: it is classified, and if it is made of a host, a port and
possibly a directory, they are recovered. -/
structure ConnParsed (port : Int32) (requested : Bool) (conninfo : CString) : Prop where
  exact : ConnExact port requested conninfo
  recovered : ∀ e : Endpoint, conninfo = e.text →
    parseConnstring conninfo port requested =
      some ⟨0, some e.host, Int32.ofNat e.port, if requested then some e.dir else none⟩

/-- The parser does what it should exactly if there is a token and the port is an `int`. -/
theorem parse_connstring_exact_iff (port : Int32) (requested : Bool) (conninfo : CString) :
    ConnParsed port requested conninfo ↔ ConnSound conninfo := by
  constructor
  · intro h
    exact (connExact_iff port requested conninfo).mp h.exact
  · intro hsound
    refine ⟨(connExact_iff port requested conninfo).mpr hsound, ?_⟩
    rintro e rfl
    exact e.parseConnstring_text port requested

/-- The parser does not come back from a string without a token, and of a port that is no `int` it
makes another one. -/
theorem no_token_crashes :
    (parseConnstring [] 0 true = none ∧ ¬ ConnParsed 0 true []) ∧
    (parseConnstring (ascii "::") 0 true = none ∧ ¬ ConnParsed 0 true (ascii "::")) ∧
    (parseConnstring (ascii "h:4294967297") 0 true = some ⟨0, some (ascii "h"), 1, some none⟩ ∧
      ¬ ConnParsed 0 true (ascii "h:4294967297")) := by
  refine ⟨⟨rfl, ?_⟩, ⟨rfl, ?_⟩, by decide, ?_⟩
  · rintro ⟨⟨r, hr, -⟩, -⟩
    cases hr
  · rintro ⟨⟨r, hr, -⟩, -⟩
    cases hr
  · intro h
    have hport := ((connExact_iff 0 true _).mp h.exact).2 (ascii "4294967297") (by decide)
    exact absurd hport (by decide)

end Schaufel
