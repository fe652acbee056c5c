import Marshal.Proofs.Wire.Canonical
import Mathlib.Logic.Relation

/-!
  The reader as a machine.

  A `Reading` is what the reader still has to do, innermost first, with the bytes that are
  left. Every step takes from the bytes at most once and is either a taking or a check, so
  the inputs of the machine are all the places at which the reader ever stands. The machine
  gives no value; it accepts and refuses what the reader does, with the same refusals
  (`decode_isOk_iff`, `decode_error_iff`).
-/

namespace Marshal.Wire

/-! ### Tasks and steps -/

inductive Task where
  /-- A value of a type is to be read. -/
  | value (type : TypeTree)
  /-- The word of the boolean at an offset is to be checked. -/
  | boolean (offset word : Nat)
  /-- The count at an offset is to be checked against the bytes behind it. -/
  | elements (offset count : Nat) (type : TypeTree)
  /-- The bytes of a text are to be taken. -/
  | content (length : Nat)
  /-- The byte behind the bytes of a text is to be taken. -/
  | terminator (offset : Nat) (bytes : List UInt8)
  /-- The bytes of a text are to be checked, with the byte behind them. -/
  | ending (offset : Nat) (bytes : List UInt8) (stop : Nat) (last : List UInt8)

def taking {α : Type} (x : Except Error (α × Input)) (tasks : α → List Task) :
    Except Error (List Task × Input) := do
  let (a, rest) ← x
  return (tasks a, rest)

theorem taking_ok_iff {α : Type} {x : Except Error (α × Input)} {tasks : α → List Task}
    {more : List Task} {rest : Input} :
    taking x tasks = .ok (more, rest) ↔ ∃ a, x = .ok (a, rest) ∧ more = tasks a :=
  wrap_ok_iff

theorem taking_error_iff {α : Type} {x : Except Error (α × Input)} {tasks : α → List Task}
    {e : Error} : taking x tasks = .error e ↔ x = .error e := by
  cases x with
  | ok result => exact ⟨nofun, nofun⟩
  | error e' => exact ⟨fun h => by cases h; rfl, fun h => by cases h; rfl⟩

/-- The tasks that a task leaves behind, and the input after it. -/
def Task.step (order : ByteOrder) : Task → Input → Except Error (List Task × Input)
  | .value (.scalar .bool), input =>
      taking (input.word order 4) fun word => [.boolean input.offset word]
  | .value (.scalar (.int c)), input => taking (input.word order c.width) fun _ => []
  | .value (.scalar .double), input => taking (input.word order 8) fun _ => []
  | .value (.scalar .text), input => taking (input.word order 4) fun length => [.content length]
  | .value (.array type), input =>
      taking (input.word order 4) fun count => [.elements input.offset count type]
  | .value (.struct types), input => .ok (types.map .value, input)
  | .value (.dictEntry keyType valueType), input =>
      .ok ([.value keyType, .value valueType], input)
  | .boolean offset word, input =>
      if word ≤ 1 then .ok ([], input) else .error (.notBoolean offset word)
  | .elements offset count type, input =>
      if count ≤ input.remaining / elementRoom type then
        .ok (List.replicate count (.value type), input)
      else .error (.corrupt offset (.oversizedArray count type input.remaining))
  | .content length, input =>
      taking (input.take length) fun bytes => [.terminator input.offset bytes]
  | .terminator offset bytes, input =>
      taking (input.take 1) fun last => [.ending offset bytes input.offset last]
  | .ending offset bytes stop last, input =>
      if last = [0] then (readText offset bytes).map fun _ => ([], input)
      else .error (.corrupt stop .unterminatedText)

section Step

variable (order : ByteOrder) (input : Input)

theorem step_boolean (offset word : Nat) :
    (Task.boolean offset word).step order input =
      if word ≤ 1 then .ok ([], input) else .error (.notBoolean offset word) :=
  rfl

theorem step_elements (offset count : Nat) (type : TypeTree) :
    (Task.elements offset count type).step order input =
      if count ≤ input.remaining / elementRoom type then
        .ok (List.replicate count (.value type), input)
      else .error (.corrupt offset (.oversizedArray count type input.remaining)) :=
  rfl

theorem step_ending (offset : Nat) (bytes : List UInt8) (stop : Nat) (last : List UInt8) :
    (Task.ending offset bytes stop last).step order input =
      if last = [0] then (readText offset bytes).map fun _ => ([], input)
      else .error (.corrupt stop .unterminatedText) :=
  rfl

end Step

structure Reading where
  tasks : List Task
  input : Input

def Reading.start (type : TypeTree) (message : List UInt8) : Reading :=
  ⟨[.value type], ⟨0, message⟩⟩

inductive Move (order : ByteOrder) : Reading → Reading → Prop where
  | step {task : Task} {tasks more : List Task} {input rest : Input}
      (h : task.step order input = .ok (more, rest)) :
      Move order ⟨task :: tasks, input⟩ ⟨more ++ tasks, rest⟩

/-- Where the reader stops with an error: at a task, or at the end because of the bytes
    that are left. -/
inductive Refuses (order : ByteOrder) : Reading → Error → Prop where
  | step {task : Task} {tasks : List Task} {input : Input} {e : Error}
      (h : task.step order input = .error e) : Refuses order ⟨task :: tasks, input⟩ e
  | finish {input : Input} {e : Error} (h : input.finish = .error e) :
      Refuses order ⟨[], input⟩ e

abbrev Reaches (order : ByteOrder) : Reading → Reading → Prop :=
  Relation.ReflTransGen (Move order)

/-! ### The machine does what the reader does -/

section Follows

variable {order : ByteOrder} {α β : Type} {a : Reading} {task : Task}
  {tasks middle more : List Task} {input rest : Input}

/-- Whether the machine gets to the end of what a reader does: to the tasks behind it and
    the input that the reader leaves, or to the refusal of the reader. -/
def Follows (order : ByteOrder) (a : Reading) (tasks : List Task) :
    Except Error (α × Input) → Prop
  | .ok (_, rest) => Reaches order a ⟨tasks, rest⟩
  | .error e => ∃ b, Reaches order a b ∧ Refuses order b e

theorem Follows.done {v : α} : Follows order ⟨tasks, input⟩ tasks (.ok (v, input)) :=
  .refl

theorem Follows.move (h : task.step order input = .ok (more, rest))
    {x : Except Error (α × Input)} (hx : Follows order ⟨more ++ middle, rest⟩ tasks x) :
    Follows order ⟨task :: middle, input⟩ tasks x := by
  cases x with
  | ok result => exact .head (.step h) hx
  | error e =>
    obtain ⟨b, hb, he⟩ := hx
    exact ⟨b, .head (.step h) hb, he⟩

theorem Follows.refuse {e : Error} (h : task.step order input = .error e) :
    Follows order ⟨task :: middle, input⟩ tasks (.error e : Except Error (α × Input)) :=
  ⟨_, .refl, .step h⟩

/-- The machine follows a reader in two halves if it follows each half. -/
theorem Follows.bind {x : Except Error (α × Input)} {f : α × Input → Except Error (β × Input)}
    (hx : Follows order a middle x)
    (hf : ∀ v rest, x = .ok (v, rest) → Follows order ⟨middle, rest⟩ tasks (f (v, rest))) :
    Follows order a tasks (x >>= f) := by
  cases x with
  | error e => exact hx
  | ok result =>
    obtain ⟨v, rest⟩ := result
    have hrest := hf v rest rfl
    rw [ok_bind]
    cases hy : f (v, rest) with
    | ok last => rw [hy] at hrest; exact hx.trans hrest
    | error e =>
      rw [hy] at hrest
      obtain ⟨b, hb, he⟩ := hrest
      exact ⟨b, hx.trans hb, he⟩

theorem Follows.map {x : Except Error (α × Input)} (f : α → β) (hx : Follows order a tasks x) :
    Follows order a tasks (do let (v, rest) ← x; return (f v, rest)) :=
  hx.bind fun _ _ _ => .done

/-- A task that takes bytes is followed by what the reader does with them. -/
theorem Follows.taking {x : Except Error (α × Input)} {f : α × Input → Except Error (β × Input)}
    (left : α → List Task) (hstep : task.step order input = taking x left)
    (hf : ∀ v rest, x = .ok (v, rest) →
      Follows order ⟨left v ++ middle, rest⟩ tasks (f (v, rest))) :
    Follows order ⟨task :: middle, input⟩ tasks (x >>= f) := by
  cases x with
  | error e => exact .refuse hstep
  | ok result => exact .move hstep (hf result.1 result.2 rfl)

theorem follows_readScalar (type : ScalarType) (tasks : List Task) (input : Input) :
    Follows order ⟨.value (.scalar type) :: tasks, input⟩ tasks (readScalar order type input) := by
  cases type with
  | bool =>
    apply Follows.taking (fun word => [.boolean input.offset word]) rfl
    intro word rest _
    have hstep := step_boolean order rest input.offset word
    match word with
    | 0 => exact .move hstep .done
    | 1 => exact .move hstep .done
    | other + 2 => exact .refuse (hstep.trans (if_neg (by omega)))
  | int c => exact Follows.taking (fun _ => []) rfl fun _ _ _ => .done
  | double => exact Follows.taking (fun _ => []) rfl fun _ _ _ => .done
  | text =>
    apply Follows.taking (fun length => [.content length]) rfl
    intro length start _
    apply Follows.taking (fun bytes => [.terminator start.offset bytes]) rfl
    intro bytes stop _
    apply Follows.taking (fun last => [.ending start.offset bytes stop.offset last]) rfl
    intro last rest _
    have hstep := step_ending order rest start.offset bytes stop.offset last
    dsimp only
    by_cases hlast : last = [0]
    · rw [if_pos hlast] at hstep ⊢
      cases htext : readText start.offset bytes with
      | ok v =>
        rw [htext] at hstep
        exact .move hstep .done
      | error e =>
        rw [htext] at hstep
        exact .refuse hstep
    · rw [if_neg hlast] at hstep ⊢
      exact .refuse hstep

theorem follows_readMany {t : TypeTree}
    (hone : ∀ tasks input, Follows order ⟨.value t :: tasks, input⟩ tasks (read order t input))
    (count : Nat) (tasks : List Task) (input : Input) :
    Follows order ⟨List.replicate count (.value t) ++ tasks, input⟩ tasks
      (readMany (read order t) count input) := by
  induction count generalizing input with
  | zero => exact .done
  | succ count ih =>
    apply (hone _ input).bind
    intro v rest _
    exact (ih rest).map _

mutual

/-- The machine reads a value as the reader does, whatever is left to do behind it. -/
theorem follows_read (t : TypeTree) (tasks : List Task) (input : Input) :
    Follows order ⟨.value t :: tasks, input⟩ tasks (read order t input) :=
  match t with
  | .scalar type => follows_readScalar type tasks input
  | .array t => by
    apply Follows.taking (fun count => [.elements input.offset count t]) rfl
    intro count rest _
    have hstep := step_elements order rest input.offset count t
    dsimp only
    by_cases hguard : count ≤ rest.remaining / elementRoom t
    · rw [if_pos hguard] at hstep ⊢
      exact .move hstep ((follows_readMany (follows_read t) count tasks rest).map _)
    · rw [if_neg hguard] at hstep ⊢
      exact .refuse hstep
  | .struct ts => .move rfl ((follows_readFields ts tasks input).map _)
  | .dictEntry k w => by
    refine .move rfl ((follows_read k (.value w :: tasks) input).bind ?_)
    intro key middle _
    exact (follows_read w tasks middle).map _

theorem follows_readFields (ts : List TypeTree) (tasks : List Task) (input : Input) :
    Follows order ⟨ts.map .value ++ tasks, input⟩ tasks (readFields order ts input) :=
  match ts with
  | [] => .done
  | t :: ts => by
    rw [List.map_cons, List.cons_append, readFields]
    apply (follows_read t (ts.map Task.value ++ tasks) input).bind
    intro v rest _
    exact (follows_readFields ts tasks rest).map _

end

end Follows

/-! ### Where the machine stops -/

section Stop

variable {order : ByteOrder} {a b c : Reading}

/-- The machine has no choice. -/
theorem Move.unique (hb : Move order a b) (hc : Move order a c) : b = c := by
  cases hb with
  | step hb =>
    cases hc with
    | step hc =>
      rw [hb] at hc
      cases hc
      rfl

theorem Refuses.not_move {e : Error} (h : Refuses order a e) : ¬ Move order a b := by
  intro hmove
  cases hmove with
  | step hstep =>
    cases h with
    | step h =>
      rw [hstep] at h
      cases h

/-- The machine is deterministic, so it ends with one error at most. -/
theorem Refuses.unique {e e' : Error} (h : Refuses order a e) (h' : Refuses order a e') :
    e = e' := by
  cases h with
  | step h =>
    cases h' with
    | step h' =>
      rw [h] at h'
      exact Except.error.inj h'
  | finish h =>
    cases h' with
    | finish h' =>
      rw [h] at h'
      exact Except.error.inj h'

theorem not_move_of_done {input : Input} : ¬ Move order ⟨[], input⟩ b := nofun

theorem not_refuses_of_done {offset : Nat} {e : Error} :
    ¬ Refuses order ⟨[], ⟨offset, []⟩⟩ e := by
  intro h
  cases h with
  | finish h => cases h

/-- There is one place at most where the machine stops. -/
theorem eq_of_stopped (hb : Reaches order a b) (hc : Reaches order a c)
    (hbStop : ∀ d, ¬ Move order b d) (hcStop : ∀ d, ¬ Move order c d) : b = c := by
  have hunique : Relator.RightUnique (Move order) := fun _ _ _ => Move.unique
  rcases Relation.ReflTransGen.total_of_right_unique hunique hb hc with h | h
  · rcases h.cases_head with rfl | ⟨d, hmove, -⟩
    · rfl
    · exact absurd hmove (hbStop d)
  · rcases h.cases_head with rfl | ⟨d, hmove, -⟩
    · rfl
    · exact absurd hmove (hcStop d)

end Stop

/-! ### Whole messages -/

section Whole

variable {order : ByteOrder} {t : TypeTree} {message : List UInt8}

theorem follows_start (order : ByteOrder) (t : TypeTree) (message : List UInt8) :
    Follows order (.start t message) [] (read order t ⟨0, message⟩) :=
  follows_read t [] ⟨0, message⟩

theorem reaches_of_decode {v : Value} (h : decode order t message = .ok v) :
    ∃ offset, Reaches order (.start t message) ⟨[], ⟨offset, []⟩⟩ := by
  obtain ⟨⟨offset, bytes⟩, hread, hrest⟩ := whole_ok_iff.1 h
  have hfollows := follows_start order t message
  rw [hread] at hfollows
  cases hrest
  exact ⟨offset, hfollows⟩

theorem refuses_of_decode {e : Error} (h : decode order t message = .error e) :
    ∃ a, Reaches order (.start t message) a ∧ Refuses order a e := by
  have hfollows := follows_start order t message
  unfold decode whole at h
  cases hread : read order t ⟨0, message⟩ with
  | error e' =>
    rw [hread] at h hfollows
    cases h
    exact hfollows
  | ok result =>
    obtain ⟨v, rest⟩ := result
    rw [hread, ok_bind] at h
    rw [hread] at hfollows
    cases hfinish : rest.finish with
    | ok u => simp only [hfinish] at h; cases h
    | error e' =>
      simp only [hfinish] at h
      cases h
      exact ⟨_, hfollows, .finish hfinish⟩

/-- A message is refused where the machine stops, with the error of the machine. -/
theorem decode_error_iff {e : Error} :
    decode order t message = .error e ↔
      ∃ a, Reaches order (.start t message) a ∧ Refuses order a e := by
  constructor
  · exact refuses_of_decode
  · intro h
    obtain ⟨a, ha, he⟩ := h
    cases hdecode : decode order t message with
    | ok v =>
      obtain ⟨offset, hdone⟩ := reaches_of_decode hdecode
      have hsame := eq_of_stopped ha hdone (fun _ => he.not_move) fun _ => not_move_of_done
      rw [hsame] at he
      exact absurd he not_refuses_of_done
    | error e' =>
      obtain ⟨b, hb, he'⟩ := refuses_of_decode hdecode
      have hsame := eq_of_stopped ha hb (fun _ => he.not_move) fun _ => he'.not_move
      rw [hsame] at he
      rw [he'.unique he]

/-- A message is accepted when the machine comes to the end of tasks and bytes. -/
theorem decode_isOk_iff :
    (∃ v, decode order t message = .ok v) ↔
      ∃ offset, Reaches order (.start t message) ⟨[], ⟨offset, []⟩⟩ := by
  constructor
  · intro h
    obtain ⟨v, hv⟩ := h
    exact reaches_of_decode hv
  · intro h
    obtain ⟨offset, hdone⟩ := h
    cases hdecode : decode order t message with
    | ok v => exact ⟨v, rfl⟩
    | error e =>
      obtain ⟨a, ha, he⟩ := refuses_of_decode hdecode
      have hsame := eq_of_stopped ha hdone (fun _ => he.not_move) fun _ => not_move_of_done
      rw [hsame] at he
      exact absurd he not_refuses_of_done

end Whole

end Marshal.Wire
