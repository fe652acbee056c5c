import Marshal.Proofs.Wire.Machine

/-!
  The reader stays inside the message.

  Every step of the reader leaves it at a place of the message, with the bytes from there
  on, and every offset that it keeps for an error lies in the message (`sound_of_step`).
  By induction on the steps this holds of everything that it reaches (`sound_of_reaches`),
  whatever lengths and counts the message announces. A refusal therefore points into the
  message (`decode_safe`).
-/

namespace Marshal.Wire

/-! ### Places of a message -/

/-- Whether an input is a place of a message with the bytes from there on. -/
structure Input.Within (message : List UInt8) (input : Input) : Prop where
  offset_le : input.offset ≤ message.length
  rest_eq : input.rest = message.drop input.offset

namespace Input

variable {message : List UInt8} {input rest : Input}

theorem within_start (message : List UInt8) : Within message ⟨0, message⟩ :=
  ⟨Nat.zero_le _, rfl⟩

theorem Within.eq_mk (h : input.Within message) :
    input = ⟨input.offset, message.drop input.offset⟩ := by
  rw [← h.rest_eq]

theorem Within.remaining_eq (h : input.Within message) :
    input.remaining = message.length - input.offset := by
  rw [remaining, h.rest_eq, List.length_drop]

theorem Within.take {count : Nat} {bytes : List UInt8} (h : input.Within message)
    (htake : input.take count = .ok (bytes, rest)) :
    rest.Within message ∧ rest.offset = input.offset + count ∧
      bytes = (message.drop input.offset).take count := by
  unfold Input.take at htake
  split at htake
  · next hcount =>
    cases htake
    rw [h.remaining_eq] at hcount
    have hoffset := h.offset_le
    refine ⟨⟨?_, ?_⟩, rfl, ?_⟩
    · dsimp only
      omega
    · dsimp only
      rw [h.rest_eq, List.drop_drop]
    · rw [h.rest_eq]
  · cases htake

theorem Within.word {order : ByteOrder} {width n : Nat} (h : input.Within message)
    (hword : input.word order width = .ok (n, rest)) :
    rest.Within message ∧ rest.offset = input.offset + width ∧
      n = order.ofBytes ((message.drop input.offset).take width) := by
  unfold Input.word at hword
  obtain ⟨bytes, htake, rfl⟩ := wrap_ok_iff.1 hword
  obtain ⟨hrest, hoffset, rfl⟩ := h.take htake
  exact ⟨hrest, hoffset, rfl⟩

theorem take_error {count : Nat} {e : Error} (h : input.take count = .error e) :
    ∃ lacking, e = .corrupt input.offset (.missing lacking) := by
  unfold Input.take at h
  split at h
  · cases h
  · cases h
    exact ⟨_, rfl⟩

theorem word_error {order : ByteOrder} {width : Nat} {e : Error}
    (h : input.word order width = .error e) :
    ∃ lacking, e = .corrupt input.offset (.missing lacking) := by
  unfold Input.word at h
  cases htake : input.take width with
  | ok result => rw [htake] at h; cases h
  | error e' =>
    rw [htake] at h
    cases h
    exact take_error htake

end Input

/-- Text is refused inside its bytes, or where they begin. -/
theorem readText_error {offset : Nat} {bytes : List UInt8} {e : Error}
    (h : readText offset bytes = .error e) :
    (∃ index, index < bytes.length ∧ e = .corrupt (offset + index) .interiorNul) ∨
      ∃ fault, e = .utf8 offset fault := by
  unfold readText at h
  split at h
  · next index hindex =>
    cases h
    obtain ⟨hlt, -⟩ := List.findIdx?_eq_some_iff_getElem.1 hindex
    exact .inl ⟨index, hlt, rfl⟩
  · split at h
    · cases h
    · next fault _ =>
      cases h
      exact .inr ⟨fault, rfl⟩

/-! ### What a reader keeps in mind -/

section Sound

variable {order : ByteOrder} {t : TypeTree} {message : List UInt8} {a : Reading} {task : Task}
  {tasks more : List Task} {input rest : Input}

/-- Whether the offsets that a task may name in an error lie in the message, and the word of
    a boolean is the one at its offset. -/
def Task.Sound (order : ByteOrder) (t : TypeTree) (message : List UInt8) : Task → Prop
  | .value _ | .content _ => True
  | .boolean offset word =>
      offset + 4 ≤ message.length ∧ word = order.ofBytes ((message.drop offset).take 4) ∧
        ∃ tasks, Reaches order (.start t message)
          ⟨.value (.scalar .bool) :: tasks, ⟨offset, message.drop offset⟩⟩
  | .elements offset _ _ => offset ≤ message.length
  | .terminator offset bytes => offset + bytes.length ≤ message.length
  | .ending offset bytes stop _ =>
      offset + bytes.length ≤ message.length ∧ stop ≤ message.length

/-- The invariant of the reader. -/
structure Reading.Sound (order : ByteOrder) (t : TypeTree) (message : List UInt8)
    (a : Reading) : Prop where
  within : a.input.Within message
  tasks : ∀ task ∈ a.tasks, task.Sound order t message

/-- A step leads from a place of the message to another and leaves sound tasks. -/
theorem sound_of_step (hreach : Reaches order (.start t message) ⟨task :: tasks, input⟩)
    (hinput : input.Within message) (htask : task.Sound order t message)
    (h : task.step order input = .ok (more, rest)) :
    rest.Within message ∧ ∀ task ∈ more, task.Sound order t message := by
  have hnone : ∀ task ∈ ([] : List Task), task.Sound order t message := nofun
  cases task with
  | value type =>
    cases type with
    | scalar type =>
      cases type with
      | bool =>
        rw [Task.step, taking_ok_iff] at h
        obtain ⟨word, hword, rfl⟩ := h
        obtain ⟨hrest, hoffset, hn⟩ := hinput.word hword
        have hle := hrest.offset_le
        rw [hoffset] at hle
        rw [hinput.eq_mk] at hreach
        refine ⟨hrest, ?_⟩
        intro task htask
        rw [List.mem_singleton.1 htask]
        exact ⟨hle, hn, tasks, hreach⟩
      | int c =>
        rw [Task.step, taking_ok_iff] at h
        obtain ⟨word, hword, rfl⟩ := h
        exact ⟨(hinput.word hword).1, hnone⟩
      | double =>
        rw [Task.step, taking_ok_iff] at h
        obtain ⟨word, hword, rfl⟩ := h
        exact ⟨(hinput.word hword).1, hnone⟩
      | text =>
        rw [Task.step, taking_ok_iff] at h
        obtain ⟨length, hword, rfl⟩ := h
        exact ⟨(hinput.word hword).1, by simp [Task.Sound]⟩
    | array type =>
      rw [Task.step, taking_ok_iff] at h
      obtain ⟨count, hword, rfl⟩ := h
      exact ⟨(hinput.word hword).1, by simp [Task.Sound, hinput.offset_le]⟩
    | struct types =>
      cases h
      exact ⟨hinput, by simp [Task.Sound]⟩
    | dictEntry keyType valueType =>
      cases h
      exact ⟨hinput, by simp [Task.Sound]⟩
  | boolean offset word =>
    rw [step_boolean, ite_error_ok_iff] at h
    cases h.2
    exact ⟨hinput, hnone⟩
  | elements offset count type =>
    rw [step_elements, ite_error_ok_iff] at h
    cases h.2
    refine ⟨hinput, ?_⟩
    intro task htask
    rw [List.eq_of_mem_replicate htask]
    exact trivial
  | content length =>
    rw [Task.step, taking_ok_iff] at h
    obtain ⟨bytes, htake, rfl⟩ := h
    obtain ⟨hrest, hoffset, -⟩ := hinput.take htake
    obtain ⟨hlength, -⟩ := take_ok_iff.1 htake
    have hle := hrest.offset_le
    rw [hoffset, ← hlength] at hle
    exact ⟨hrest, by simpa [Task.Sound] using hle⟩
  | terminator offset bytes =>
    rw [Task.step, taking_ok_iff] at h
    obtain ⟨last, htake, rfl⟩ := h
    exact ⟨(hinput.take htake).1, by simpa [Task.Sound] using ⟨htask, hinput.offset_le⟩⟩
  | ending offset bytes stop last =>
    rw [step_ending, ite_error_ok_iff, map_ok_iff] at h
    obtain ⟨-, v, -, hv⟩ := h
    cases hv
    exact ⟨hinput, hnone⟩

/-- Wherever the reader comes from the start of a message, the invariant holds. -/
theorem sound_of_reaches (h : Reaches order (.start t message) a) : a.Sound order t message := by
  induction h with
  | refl =>
    refine ⟨Input.within_start message, ?_⟩
    intro task htask
    rw [List.mem_singleton.1 htask]
    exact trivial
  | tail hreach hmove ih =>
    cases hmove with
    | step hstep =>
      have htask := ih.tasks _ (List.mem_cons_self ..)
      obtain ⟨hrest, hmore⟩ := sound_of_step hreach ih.within htask hstep
      refine ⟨hrest, ?_⟩
      intro task hmem
      rcases List.mem_append.1 hmem with hmem | hmem
      · exact hmore task hmem
      · exact ih.tasks task (List.mem_cons_of_mem _ hmem)

/-- The errors that point into a message: to one of its offsets, and for what is no boolean
    to the four bytes of a boolean that is read there. -/
inductive PointsInto (order : ByteOrder) (t : TypeTree) (message : List UInt8) : Error → Prop where
  | corrupt {offset : Nat} {corruption : Corruption} (h : offset ≤ message.length) :
      PointsInto order t message (.corrupt offset corruption)
  | notBoolean {offset word : Nat} (h : offset + 4 ≤ message.length)
      (hword : word = order.ofBytes ((message.drop offset).take 4)) (hlt : 1 < word)
      (hread : ∃ tasks, Reaches order (.start t message)
        ⟨.value (.scalar .bool) :: tasks, ⟨offset, message.drop offset⟩⟩) :
      PointsInto order t message (.notBoolean offset word)
  | utf8 {offset : Nat} {fault : Text.Utf8.Fault} (h : offset ≤ message.length) :
      PointsInto order t message (.utf8 offset fault)

theorem pointsInto_of_take {count : Nat} {e : Error} (hinput : input.Within message)
    (h : input.take count = .error e) : PointsInto order t message e := by
  obtain ⟨lacking, rfl⟩ := Input.take_error h
  exact .corrupt hinput.offset_le

theorem pointsInto_of_word {width : Nat} {e : Error} (hinput : input.Within message)
    (h : input.word order width = .error e) : PointsInto order t message e := by
  obtain ⟨lacking, rfl⟩ := Input.word_error h
  exact .corrupt hinput.offset_le

/-- From a sound place, an error points into the message. -/
theorem pointsInto_of_step {e : Error} (hinput : input.Within message)
    (htask : task.Sound order t message) (h : task.step order input = .error e) :
    PointsInto order t message e := by
  cases task with
  | value type =>
    cases type with
    | scalar type =>
      cases type <;> rw [Task.step, taking_error_iff] at h <;> exact pointsInto_of_word hinput h
    | array type =>
      rw [Task.step, taking_error_iff] at h
      exact pointsInto_of_word hinput h
    | struct types => cases h
    | dictEntry keyType valueType => cases h
  | boolean offset word =>
    obtain ⟨hle, hword, hread⟩ := htask
    rw [step_boolean] at h
    split at h
    · cases h
    · next hlt =>
      cases h
      exact .notBoolean hle hword (Nat.lt_of_not_le hlt) hread
  | elements offset count type =>
    rw [step_elements] at h
    split at h
    · cases h
    · cases h
      exact .corrupt htask
  | content length =>
    rw [Task.step, taking_error_iff] at h
    exact pointsInto_of_take hinput h
  | terminator offset bytes =>
    rw [Task.step, taking_error_iff] at h
    exact pointsInto_of_take hinput h
  | ending offset bytes stop last =>
    obtain ⟨hbytes, hstop⟩ := htask
    rw [step_ending] at h
    split at h
    · cases htext : readText offset bytes with
      | ok v => rw [htext] at h; cases h
      | error e' =>
        rw [htext] at h
        cases h
        rcases readText_error htext with ⟨index, hlt, rfl⟩ | ⟨fault, rfl⟩
        · apply PointsInto.corrupt
          omega
        · apply PointsInto.utf8
          omega
    · cases h
      exact .corrupt hstop

theorem pointsInto_of_refuses {e : Error} (ha : a.Sound order t message)
    (h : Refuses order a e) : PointsInto order t message e := by
  cases h with
  | step h => exact pointsInto_of_step ha.within (ha.tasks _ (List.mem_cons_self ..)) h
  | finish h =>
    unfold Input.finish at h
    split at h
    · cases h
    · cases h
      exact .corrupt ha.within.offset_le

/-! ### Whole messages -/

/-- Where nothing is left to do, the reader has come to the end of the message. -/
theorem offset_eq_length {offset : Nat}
    (h : Reaches order (.start t message) ⟨[], ⟨offset, []⟩⟩) : offset = message.length := by
  obtain ⟨hle, hrest⟩ := (sound_of_reaches h).within
  have hend : message.length ≤ offset := List.drop_eq_nil_iff.1 hrest.symm
  exact Nat.le_antisymm hle hend

/-- The machine gets to the end of exactly the messages that are read. -/
theorem reaches_end_iff :
    Reaches order (.start t message) ⟨[], ⟨message.length, []⟩⟩ ↔
      ∃ v, decode order t message = .ok v := by
  rw [decode_isOk_iff]
  constructor
  · intro h
    exact ⟨message.length, h⟩
  · intro h
    obtain ⟨offset, hdone⟩ := h
    rwa [offset_eq_length hdone] at hdone

/-- Decoding never leaves the message. Wherever the reader comes, it stands at an offset of
    the message with the bytes from there on, what it takes from there lies in the message,
    and the count of an array is compared after a division by at least one. Decoding ends
    with a value or with an error that points into the message, and it accepts and refuses
    what the steps of the reader do. -/
theorem decode_safe (order : ByteOrder) (t : TypeTree) (message : List UInt8) :
    (∀ a, Reaches order (.start t message) a →
      a.input.offset ≤ message.length ∧
      a.input.rest = message.drop a.input.offset ∧
      a.input.remaining = message.length - a.input.offset ∧
      (∀ count bytes rest, a.input.take count = .ok (bytes, rest) →
        a.input.offset + count ≤ message.length ∧
        bytes = (message.drop a.input.offset).take count ∧
        rest = ⟨a.input.offset + count, message.drop (a.input.offset + count)⟩) ∧
      (∀ offset count element tasks, a.tasks = .elements offset count element :: tasks →
        0 < elementRoom element)) ∧
    ((∃ v, decode order t message = .ok v) ∨
      ∃ e, decode order t message = .error e ∧ PointsInto order t message e) ∧
    ((∃ v, decode order t message = .ok v) ↔
      Reaches order (.start t message) ⟨[], ⟨message.length, []⟩⟩) ∧
    (∀ e, decode order t message = .error e ↔
      ∃ a, Reaches order (.start t message) a ∧ Refuses order a e) := by
  refine ⟨?_, ?_, reaches_end_iff.symm, fun _ => decode_error_iff⟩
  · intro a ha
    have hwithin := (sound_of_reaches ha).within
    refine ⟨hwithin.offset_le, hwithin.rest_eq, hwithin.remaining_eq, ?_, ?_⟩
    · intro count bytes rest htake
      obtain ⟨hrest, hoffset, hbytes⟩ := hwithin.take htake
      have hle := hrest.offset_le
      have hplace := hrest.eq_mk
      rw [hoffset] at hle hplace
      exact ⟨hle, hbytes, hplace⟩
    · intro offset count element tasks _
      exact Nat.lt_of_lt_of_le Nat.zero_lt_one (Nat.le_max_right ..)
  · cases hdecode : decode order t message with
    | ok v => exact .inl ⟨v, rfl⟩
    | error e =>
      obtain ⟨a, ha, he⟩ := refuses_of_decode hdecode
      exact .inr ⟨e, rfl, pointsInto_of_refuses (sound_of_reaches ha) he⟩

end Sound

end Marshal.Wire
