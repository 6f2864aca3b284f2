import Schaufel.Foundation.Run
import Schaufel.Queue.Message

/-!
# The file consumer and the file producer

`src/file.c` reads a file line by line and appends payloads to a file.  A stream that is read is
given by the bytes that are left, one that is written by the bytes that are there.  Both are bytes
of any kind: `getline` reports the length of a line, so that a null byte in it does no harm, and
takes what is left if the last newline is missing.

The producer hands a payload to `fwrite` as one item of its length.  `fwrite` returns the number of
items it has written, and that is 0 if the length is 0; the producer takes it for a failure and
aborts.

## Main results

* `file_verbatim_iff`: payloads are copied verbatim exactly if none of them is empty.
* `file_copied`: what the consumer makes of a file, the producer appends as it was.
-/

namespace Schaufel

variable {μ : Type}

/-- The payload of a message: the bytes behind its data pointer, as many as its length says. -/
def Message.payload (msg : Message (List UInt8) μ) : List UInt8 :=
  (msg.data.getD []).take msg.datalen

/-- A message whose buffer has at least the bytes that its length says. -/
structure FilledMessage (μ : Type) extends Message (List UInt8) μ where
  filled : ∃ buf, data = some buf ∧ datalen ≤ buf.length

/-! ### The consumer -/

/-- `getline`: the bytes up to the first newline and including it, or all that are left, and what is
left then.  At the end of the file it returns -1. -/
def getline : List UInt8 → Option (List UInt8 × List UInt8)
  | [] => none
  | c :: fp =>
    if c = 10 then some ([c], fp)
    else
      match getline fp with
      | none => some ([c], [])
      | some (line, rest) => some (c :: line, rest)

/-- `file_consumer_consume`: the return value, the message and the stream.  The buffer of a line
ends with a null byte. -/
def fileConsumerConsume (fp : List UInt8) (msg : Message (List UInt8) μ) :
    Int × Message (List UInt8) μ × List UInt8 :=
  match getline fp with
  | none => (-1, msg, fp)
  | some (line, rest) => (0, { msg with data := some (line ++ [0]), datalen := line.length }, rest)

/-- Successive calls of `file_consumer_consume`, each for a message of the list: the messages of the
calls that return 0. -/
def handedOut : List UInt8 → List (Message (List UInt8) μ) → List (Message (List UInt8) μ)
  | _, [] => []
  | fp, msg :: msgs =>
    let (ret, msg', fp') := fileConsumerConsume fp msg
    (if ret = 0 then [msg'] else []) ++ handedOut fp' msgs

/-- Only an empty stream has no line. -/
theorem getline_eq_none_iff {fp : List UInt8} : getline fp = none ↔ fp = [] := by
  cases fp with
  | nil => simp [getline]
  | cons c fp =>
    rw [getline]
    split_ifs
    · simp
    · split <;> simp

/-- A line is not empty, and it is taken off the front of the stream. -/
theorem getline_eq_some {fp line rest : List UInt8} (h : getline fp = some (line, rest)) :
    line ≠ [] ∧ line ++ rest = fp := by
  induction fp generalizing line rest with
  | nil => simp [getline] at h
  | cons c fp ih =>
    rw [getline] at h
    split_ifs at h
    · obtain ⟨rfl, rfl⟩ := Prod.mk.inj (Option.some.inj h)
      exact ⟨List.cons_ne_nil c [], rfl⟩
    · split at h
      · rename_i hnone
        obtain ⟨rfl, rfl⟩ := Prod.mk.inj (Option.some.inj h)
        exact ⟨List.cons_ne_nil c [], by rw [getline_eq_none_iff.mp hnone, List.append_nil]⟩
      · rename_i line' rest' hsome
        obtain ⟨rfl, rfl⟩ := Prod.mk.inj (Option.some.inj h)
        exact ⟨List.cons_ne_nil c line', by rw [List.cons_append, (ih hsome).2]⟩

/-- What a call does: at the end of the file it changes nothing, before it hands out a line. -/
theorem fileConsumerConsume_cases (fp : List UInt8) (msg : Message (List UInt8) μ) :
    (fp = [] ∧ fileConsumerConsume fp msg = (-1, msg, fp)) ∨
      ∃ line rest, line ≠ [] ∧ line ++ rest = fp ∧
        fileConsumerConsume fp msg =
          (0, { msg with data := some (line ++ [0]), datalen := line.length }, rest) := by
  unfold fileConsumerConsume
  split
  · rename_i hnone
    exact .inl ⟨getline_eq_none_iff.mp hnone, rfl⟩
  · rename_i line rest hsome
    obtain ⟨hne, happend⟩ := getline_eq_some hsome
    exact .inr ⟨line, rest, hne, happend, rfl⟩

/-- A message that was handed out carries a line. -/
theorem filled_of_mem_handedOut {fp : List UInt8} {calls : List (Message (List UInt8) μ)}
    {msg : Message (List UInt8) μ} (h : msg ∈ handedOut fp calls) :
    (∃ buf, msg.data = some buf ∧ msg.datalen ≤ buf.length) ∧ msg.payload ≠ [] := by
  induction calls generalizing fp with
  | nil => simp [handedOut] at h
  | cons call calls ih =>
    rw [handedOut] at h
    obtain ⟨rfl, hcall⟩ | ⟨line, rest, hne, -, hcall⟩ := fileConsumerConsume_cases fp call
    · rw [hcall] at h
      exact ih h
    · rw [hcall] at h
      rcases List.mem_append.mp h with hmem | hmem
      · obtain rfl := List.mem_singleton.mp hmem
        exact ⟨⟨line ++ [0], rfl, by simp⟩, by simpa [Message.payload] using hne⟩
      · exact ih hmem

/-- After any number of calls, what was handed out and what is left are the stream; a call at a
time, it comes to its end. -/
theorem handedOut_append (fp : List UInt8) (calls : List (Message (List UInt8) μ)) :
    ∃ rest, ((handedOut fp calls).map Message.payload).flatten ++ rest = fp ∧
      rest.length ≤ fp.length - calls.length := by
  induction calls generalizing fp with
  | nil => exact ⟨fp, rfl, Nat.le_refl _⟩
  | cons call calls ih =>
    obtain ⟨rfl, hcall⟩ | ⟨line, fp', hne, rfl, hcall⟩ := fileConsumerConsume_cases fp call
    · obtain ⟨rest, hrest, hle⟩ := ih []
      refine ⟨rest, ?_, ?_⟩
      · simpa [handedOut, hcall] using hrest
      · simpa using hle
    · obtain ⟨rest, hrest, hle⟩ := ih fp'
      refine ⟨rest, ?_, ?_⟩
      · simp [handedOut, hcall, Message.payload, hrest]
      · have hpos := List.length_pos_iff.mpr hne
        rw [List.length_append, List.length_cons]
        omega

/-- With enough calls the payloads are the whole stream. -/
theorem flatten_handedOut {fp : List UInt8} {calls : List (Message (List UInt8) μ)}
    (h : fp.length ≤ calls.length) : ((handedOut fp calls).map Message.payload).flatten = fp := by
  obtain ⟨rest, hrest, hle⟩ := handedOut_append fp calls
  have hnil : rest = [] := by
    apply List.eq_nil_of_length_eq_zero
    omega
  rwa [hnil, List.append_nil] at hrest

/-! ### The producer -/

/-- `fwrite` on a stream that takes everything: the number of items written, and the stream.  Items
of no bytes are not written. -/
def fwrite (ptr : List UInt8) (size nmemb : Nat) (fp : List UInt8) : Nat × List UInt8 :=
  if size = 0 ∨ nmemb = 0 then (0, fp) else (nmemb, fp ++ ptr.take (size * nmemb))

/-- `file_producer_produce`: the stream afterwards, `none` if the process aborts. -/
def fileProducerProduce (fp : List UInt8) (msg : FilledMessage μ) : Option (List UInt8) :=
  let line := msg.data.getD []
  let len := msg.datalen
  let nmemb := 1
  let (ret, fp') := fwrite line len nmemb fp
  if ret < nmemb then none else some fp'

theorem FilledMessage.payload_eq_nil_iff (msg : FilledMessage μ) :
    msg.payload = [] ↔ msg.datalen = 0 := by
  obtain ⟨buf, hdata, hle⟩ := msg.filled
  rw [Message.payload, hdata, Option.getD_some, ← List.length_eq_zero_iff, List.length_take]
  omega

/-- An empty payload aborts the process, every other one is appended. -/
theorem fileProducerProduce_eq (fp : List UInt8) (msg : FilledMessage μ) :
    fileProducerProduce fp msg = if msg.payload = [] then none else some (fp ++ msg.payload) := by
  unfold fileProducerProduce fwrite
  by_cases hlen : msg.datalen = 0
  · rw [if_pos (msg.payload_eq_nil_iff.mpr hlen)]
    simp [hlen]
  · rw [if_neg fun hnil => hlen (msg.payload_eq_nil_iff.mp hnil)]
    simp [hlen, Message.payload]

/-- The producer called on each message in turn. -/
theorem exec_fileProducerProduce_iff {fp : List UInt8} {msgs : List (FilledMessage μ)} :
    exec fileProducerProduce fp msgs = some (fp ++ (msgs.map fun msg => msg.payload).flatten) ↔
      ∀ msg ∈ msgs, msg.payload ≠ [] := by
  induction msgs generalizing fp with
  | nil => simp
  | cons msg msgs ih =>
    rw [exec_cons, fileProducerProduce_eq]
    by_cases hempty : msg.payload = []
    · simp [hempty]
    · rw [if_neg hempty, Option.bind_some, List.map_cons, List.flatten_cons, ← List.append_assoc,
        ih]
      simp [hempty]

/-! ### Copies -/

/-- The payloads that the consumer hands out are the file, once it was called often enough; and the
producer appends the payloads of the messages to whatever is in its file. -/
structure Verbatim (content : List UInt8) (msgs : List (FilledMessage μ)) : Prop where
  consumed : ∀ calls : List (Message (List UInt8) μ), content.length ≤ calls.length →
    ((handedOut content calls).map Message.payload).flatten = content
  produced : ∀ fp,
      exec fileProducerProduce fp msgs = some (fp ++ (msgs.map fun msg => msg.payload).flatten)

/-- Payloads are copied verbatim exactly if none of those to be written is empty. -/
theorem file_verbatim_iff (content : List UInt8) (msgs : List (FilledMessage μ)) :
    Verbatim content msgs ↔ ∀ msg ∈ msgs, msg.payload ≠ [] := by
  constructor
  · intro h
    exact exec_fileProducerProduce_iff.mp (h.produced [])
  · intro hne
    exact ⟨fun calls => flatten_handedOut, fun fp => exec_fileProducerProduce_iff.mpr hne⟩

/-- A message with a payload and the terminator behind it, as a consumer makes it. -/
def terminated (bytes : List UInt8) : FilledMessage Unit :=
  ⟨⟨some (bytes ++ [0]), bytes.length, 0, none⟩, bytes ++ [0], rfl, by simp⟩

/-- An empty record aborts the process. -/
theorem empty_payload_aborts :
    exec fileProducerProduce [] [terminated [97, 10], terminated [], terminated [98, 10]] = none ∧
      ¬ Verbatim [97, 10] [terminated [97, 10], terminated [], terminated [98, 10]] := by
  refine ⟨rfl, fun h => ?_⟩
  have hproduced := h.produced []
  cases hproduced

/-- What the consumer makes of a file, the producer appends as it was. -/
theorem file_copied {content : List UInt8} {calls : List (Message (List UInt8) μ)}
    (h : content.length ≤ calls.length) (fp : List UInt8) {msgs : List (FilledMessage μ)}
    (hmsgs : msgs.map (fun msg => msg.toMessage) = handedOut content calls) :
    exec fileProducerProduce fp msgs = some (fp ++ content) := by
  have hpayloads : msgs.map (fun msg => msg.payload) =
      (handedOut content calls).map Message.payload := by
    rw [← hmsgs, List.map_map]
    rfl
  have hne : ∀ msg ∈ msgs, msg.payload ≠ [] := by
    intro msg hmem
    have hout : msg.toMessage ∈ handedOut content calls := by
      rw [← hmsgs]
      exact List.mem_map_of_mem hmem
    exact (filled_of_mem_handedOut hout).2
  rw [exec_fileProducerProduce_iff.mpr hne, hpayloads, flatten_handedOut h]

end Schaufel
