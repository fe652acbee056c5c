import Marshal.Proofs.Wire.Safety

/-!
  Messages mark their own end.

  More bytes behind a message change nothing in what the reader does before it comes to
  them: every step on the shorter message is a step on the longer one (`reaches_extend`),
  also through the check of a count, which more bytes can only help to pass. So a message
  that is accepted is refused with anything behind it, at its end, and what is cut off from
  it is refused because bytes are missing (`decode_delimited`).
-/

namespace Marshal.Wire

/-! ### More bytes behind an input -/

def Input.extend (back : List UInt8) (input : Input) : Input :=
  ⟨input.offset, input.rest ++ back⟩

def Reading.extend (back : List UInt8) (a : Reading) : Reading :=
  ⟨a.tasks, a.input.extend back⟩

section Extend

variable {order : ByteOrder} {back : List UInt8} {input rest : Input}

theorem Input.Spans.extend {bytes : List UInt8} (h : input.Spans bytes rest) :
    (input.extend back).Spans bytes (rest.extend back) := by
  obtain ⟨hbytes, hoffset⟩ := h
  refine ⟨?_, hoffset⟩
  simp [Input.extend, hbytes]

@[simp]
theorem remaining_extend (back : List UInt8) (input : Input) :
    (input.extend back).remaining = input.remaining + back.length := by
  simp [Input.extend, Input.remaining]

theorem take_extend {count : Nat} {bytes : List UInt8} (h : input.take count = .ok (bytes, rest)) :
    (input.extend back).take count = .ok (bytes, rest.extend back) := by
  obtain ⟨hlength, hspans⟩ := take_ok_iff.1 h
  exact take_ok_iff.2 ⟨hlength, hspans.extend⟩

theorem word_extend {width n : Nat} (h : input.word order width = .ok (n, rest)) :
    (input.extend back).word order width = .ok (n, rest.extend back) := by
  obtain ⟨hlt, hspans⟩ := word_ok_iff.1 h
  exact word_ok_iff.2 ⟨hlt, hspans.extend⟩

/-- A task that takes bytes takes the same ones from a longer input. -/
theorem taking_extend {α : Type} {x y : Except Error (α × Input)} {left : α → List Task}
    {more : List Task}
    (hxy : ∀ v, x = .ok (v, rest) → y = .ok (v, rest.extend back))
    (h : taking x left = .ok (more, rest)) : taking y left = .ok (more, rest.extend back) := by
  obtain ⟨v, hv, rfl⟩ := taking_ok_iff.1 h
  exact taking_ok_iff.2 ⟨v, hxy v hv, rfl⟩

/-- A step never looks behind the bytes that it takes, apart from the guard of a count, which more
bytes only relax. -/
theorem step_extend {task : Task} {more : List Task}
    (h : task.step order input = .ok (more, rest)) :
    task.step order (input.extend back) = .ok (more, rest.extend back) := by
  cases task with
  | value type =>
    cases type with
    | scalar type =>
      cases type <;> rw [Task.step] at h ⊢ <;> exact taking_extend (fun _ => word_extend) h
    | array type =>
      rw [Task.step] at h ⊢
      exact taking_extend (fun _ => word_extend) h
    | struct types => cases h; rfl
    | dictEntry keyType valueType => cases h; rfl
  | boolean offset word =>
    rw [step_boolean, ite_error_ok_iff] at h ⊢
    cases h.2
    exact ⟨h.1, rfl⟩
  | elements offset count type =>
    rw [step_elements, ite_error_ok_iff] at h ⊢
    obtain ⟨hguard, h⟩ := h
    cases h
    -- the guard looks at all the bytes behind the count, and there are more of them now
    refine ⟨Nat.le_trans hguard (Nat.div_le_div_right ?_), rfl⟩
    rw [remaining_extend]
    exact Nat.le_add_right ..
  | content length =>
    rw [Task.step] at h ⊢
    exact taking_extend (fun _ => take_extend) h
  | terminator offset bytes =>
    rw [Task.step] at h ⊢
    exact taking_extend (fun _ => take_extend) h
  | ending offset bytes stop last =>
    rw [step_ending, ite_error_ok_iff, map_ok_iff] at h ⊢
    obtain ⟨hlast, v, hv, h⟩ := h
    cases h
    exact ⟨hlast, v, hv, rfl⟩

theorem corrupt_of_take {count : Nat} {e : Error} (h : input.take count = .error e) :
    ∃ offset corruption, e = .corrupt offset corruption := by
  obtain ⟨lacking, rfl⟩ := Input.take_error h
  exact ⟨_, _, rfl⟩

theorem corrupt_of_word {width : Nat} {e : Error} (h : input.word order width = .error e) :
    ∃ offset corruption, e = .corrupt offset corruption := by
  obtain ⟨lacking, rfl⟩ := Input.word_error h
  exact ⟨_, _, rfl⟩

/-- A step that is refused for another reason than the bytes that are there is refused with
    more of them as well. -/
theorem step_error_extend {task : Task} {e : Error} (h : task.step order input = .error e) :
    (∃ offset corruption, e = .corrupt offset corruption) ∨
      task.step order (input.extend back) = .error e := by
  cases task with
  | value type =>
    cases type with
    | scalar type =>
      cases type <;> rw [Task.step, taking_error_iff] at h <;> exact .inl (corrupt_of_word h)
    | array type =>
      rw [Task.step, taking_error_iff] at h
      exact .inl (corrupt_of_word h)
    | struct types => cases h
    | dictEntry keyType valueType => cases h
  | boolean offset word =>
    right
    rw [step_boolean] at h ⊢
    split at h
    · cases h
    · next hlt => rw [if_neg hlt, ← h]
  | elements offset count type =>
    left
    rw [step_elements] at h
    split at h
    · cases h
    · cases h
      exact ⟨_, _, rfl⟩
  | content length =>
    rw [Task.step, taking_error_iff] at h
    exact .inl (corrupt_of_take h)
  | terminator offset bytes =>
    rw [Task.step, taking_error_iff] at h
    exact .inl (corrupt_of_take h)
  | ending offset bytes stop last =>
    right
    rw [step_ending] at h ⊢
    split at h
    · next hlast =>
      rw [if_pos hlast]
      cases htext : readText offset bytes with
      | ok v => rw [htext] at h; cases h
      | error e' => rw [htext] at h; cases h; rfl
    · next hlast => rw [if_neg hlast, ← h]

theorem Move.extend {a b : Reading} (h : Move order a b) :
    Move order (a.extend back) (b.extend back) := by
  cases h with
  | step h => exact .step (step_extend h)

/-- What the reader reaches, it reaches with more bytes at the end as well. -/
theorem reaches_extend {a b : Reading} (back : List UInt8) (h : Reaches order a b) :
    Reaches order (a.extend back) (b.extend back) :=
  h.lift (Reading.extend back) fun _ _ => Move.extend

/-- A refusal that is not about the bytes stays one when more bytes follow. -/
theorem Refuses.extend {a : Reading} {e : Error} (back : List UInt8)
    (h : Refuses order a e) :
    (∃ offset corruption, e = .corrupt offset corruption) ∨ Refuses order (a.extend back) e := by
  cases h with
  | step h => exact (step_error_extend h).imp_right .step
  | finish h =>
    left
    unfold Input.finish at h
    split at h
    · cases h
    · cases h
      exact ⟨_, _, rfl⟩

end Extend

/-! ### Whole messages -/

section Whole

variable {order : ByteOrder} {t : TypeTree} {message back : List UInt8} {v : Value}

/-- Bytes behind a message that is accepted are refused where they begin. -/
theorem decode_append (h : decode order t message = .ok v) (hback : back ≠ []) :
    decode order t (message ++ back) =
      .error (.corrupt message.length (.trailing back.length)) := by
  have hend := reaches_extend back (reaches_end_iff.2 ⟨v, h⟩)
  refine decode_error_iff.2 ⟨_, hend, .finish ?_⟩
  have hlength : back.length ≠ 0 := mt List.length_eq_zero_iff.1 hback
  simp [Input.finish, Input.extend, Input.remaining, hlength]

/-- A message that is accepted is refused when its last bytes are missing. -/
theorem decode_cut (h : decode order t (message ++ back) = .ok v) (hback : back ≠ []) :
    ∃ offset corruption, decode order t message = .error (.corrupt offset corruption) ∧
      offset ≤ message.length := by
  cases hcut : decode order t message with
  | ok w =>
    have hlonger := decode_append hcut hback
    rw [h] at hlonger
    cases hlonger
  | error e =>
    obtain ⟨a, ha, he⟩ := refuses_of_decode hcut
    rcases he.extend back with ⟨offset, corruption, rfl⟩ | he'
    · cases pointsInto_of_refuses (sound_of_reaches ha) he with
      | corrupt hle => exact ⟨offset, corruption, rfl, hle⟩
    · -- the longer message would be refused in the same place
      have hrefused := decode_error_iff.2 ⟨_, reaches_extend back ha, he'⟩
      cases h.symm.trans hrefused

end Whole

/-- Where a message is accepted, no proper beginning of it is: it is refused as corrupt, not
    beyond its last byte. Nor is any message that it is the beginning of: that is refused at
    the end of the accepted one. -/
theorem decode_delimited (order : ByteOrder) (t : TypeTree) (message : List UInt8) (v : Value)
    (h : decode order t message = .ok v) :
    (∀ front, front <+: message → front ≠ message →
      ∃ offset corruption, decode order t front = .error (.corrupt offset corruption) ∧
        offset ≤ front.length) ∧
    (∀ longer, message <+: longer → longer ≠ message →
      decode order t longer =
        .error (.corrupt message.length (.trailing (longer.length - message.length)))) := by
  constructor
  · intro front hfront hne
    obtain ⟨back, rfl⟩ := hfront
    apply decode_cut h
    intro hback
    rw [hback, List.append_nil] at hne
    exact hne rfl
  · intro longer hlonger hne
    obtain ⟨back, rfl⟩ := hlonger
    rw [List.length_append, Nat.add_sub_cancel_left]
    apply decode_append h
    intro hback
    rw [hback, List.append_nil] at hne
    exact hne rfl

/-- The elements of the array take no bytes, so its count is checked against the number
    behind the array, which is cut in two. -/
theorem decode_delimited_by_guard :
    decode .little (.struct [.array (.struct []), .scalar (.int .uint16)]) [2, 0, 0, 0, 5, 0] =
      .ok (.struct [.array [.struct [], .struct []], .ofWord .uint16 5]) ∧
    (∃ offset corruption,
      decode .little (.struct [.array (.struct []), .scalar (.int .uint16)]) [2, 0, 0, 0, 5] =
        .error (.corrupt offset corruption) ∧ offset ≤ 5) ∧
    decode .little (.struct [.array (.struct []), .scalar (.int .uint16)])
        [2, 0, 0, 0, 5, 0, 7] = .error (.corrupt 6 (.trailing 1)) := by
  have hdecode : decode .little (.struct [.array (.struct []), .scalar (.int .uint16)])
      [2, 0, 0, 0, 5, 0] = .ok (.struct [.array [.struct [], .struct []], .ofWord .uint16 5]) := rfl
  obtain ⟨hcut, hlonger⟩ := decode_delimited _ _ _ _ hdecode
  exact ⟨hdecode, hcut [2, 0, 0, 0, 5] ⟨[0], rfl⟩ (by decide),
    hlonger [2, 0, 0, 0, 5, 0, 7] ⟨[7], rfl⟩ (by decide)⟩

end Marshal.Wire
