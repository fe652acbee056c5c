import Marshal.Proofs.Conformance.Positions
import Marshal.Proofs.Wire.Writable

/-!
  Writing and strict checking agree.

  Writing does not check a value first: it refuses it on the way, wherever it does not fit. What
  it refuses is what strict checking refuses or would change, and where no struct stands for a
  dict entry both stop at the same place with the same error (`write_agrees`). Checking alone
  takes a pair for a dict entry, so pairs are the only place where the two part.
-/

namespace Marshal

/-! ### Runs that agree -/

/-- Whether two runs both succeed or both fail with the same error. -/
inductive Agree {ε α β : Type} : Except ε α → Except ε β → Prop where
  | ok (a : α) (b : β) : Agree (.ok a) (.ok b)
  | error (e : ε) : Agree (.error e) (.error e)

section Agree

variable {ε α β γ δ : Type}

theorem Agree.error_or_ok {x : Except ε α} {y : Except ε β} (h : Agree x y) :
    (∃ e, x = .error e ∧ y = .error e) ∨ ∃ a b, x = .ok a ∧ y = .ok b := by
  cases h with
  | ok a b => exact .inr ⟨a, b, rfl, rfl⟩
  | error e => exact .inl ⟨e, rfl, rfl⟩

theorem Agree.bind {x : Except ε α} {y : Except ε β} {f : α → Except ε γ} {g : β → Except ε δ}
    (h : Agree x y) (hrest : ∀ a b, Agree (f a) (g b)) : Agree (x >>= f) (y >>= g) := by
  cases h with
  | ok a b => exact hrest a b
  | error e => exact .error e

/-- Two runs that start with the same step agree when they do after it. -/
theorem Agree.bind_same {x : Except ε α} {f : α → Except ε γ} {g : α → Except ε δ}
    (hrest : ∀ a, x = .ok a → Agree (f a) (g a)) : Agree (x >>= f) (x >>= g) := by
  cases x with
  | ok a => exact hrest a rfl
  | error e => exact .error e

theorem Agree.then_return {x : Except ε α} {y : Except ε β} (h : Agree x y) (f : β → γ) :
    Agree x (y >>= fun b => pure (f b)) := by
  cases h with
  | ok a b => exact .ok a (f b)
  | error e => exact .error e

theorem Agree.inside {s : Step} {x : Except Error α} {y : Except Error β} (h : Agree x y) :
    Agree (inside s x) (inside s y) := by
  cases h with
  | ok a b => exact .ok a b
  | error e => exact .error (e.within s)

/-- Two checks that agree on each element agree on the row: they stop at the same element. -/
theorem agree_eachElement {f : Value → Except Error α} {g : Value → Except Error β} (index : Nat)
    {vs : List Value} (h : ∀ v ∈ vs, Agree (f v) (g v)) :
    Agree (eachElement f index vs) (eachElement g index vs) := by
  induction vs generalizing index with
  | nil => exact .ok [] []
  | cons v vs ih =>
    rcases List.forall_mem_cons.1 h with ⟨hfirst, hrest⟩
    rw [eachElement, eachElement]
    apply Agree.bind hfirst.inside
    intro a b
    apply Agree.bind (ih (index + 1) hrest)
    intro as bs
    exact .ok _ _

end Agree

/-! ### Values without pairs -/

/-- Whether no struct of a value stands where its type has a dict entry. -/
def PairFree (t : TypeTree) (v : Value) : Prop :=
  ∀ (p : Path) (k w : TypeTree) (vs : List Value),
    walk p.steps t v ≠ some (.dictEntry k w, .struct vs)

theorem pairFree_scalar (c : ScalarType) (v : Value) : PairFree (.scalar c) v := by
  intro p k w vs hwalk
  rcases p with ⟨_ | ⟨s, steps⟩⟩
  · cases hwalk
  · rcases walk_cons_eq_some_iff.1 hwalk with ⟨part, hpart, -⟩
    rw [part_scalar] at hpart
    cases hpart

theorem PairFree.part {s : Step} {t : TypeTree} {v : Value} {part : TypeTree × Value}
    (h : PairFree t v) (hpart : s.part? t v = some part) : PairFree part.1 part.2 := by
  intro p k w vs hwalk
  exact h (p.within s) k w vs (walk_cons_eq_some_iff.2 ⟨part, hpart, hwalk⟩)

theorem PairFree.element {t : TypeTree} {vs : List Value} (h : PairFree (.array t) (.array vs)) :
    ∀ v ∈ vs, PairFree t v := by
  intro v hv
  rcases List.mem_iff_getElem?.1 hv with ⟨i, hi⟩
  have hpart : (Step.element i).part? (.array t) (.array vs) = some (t, v) := by
    rw [Step.part?, hi]
    rfl
  exact h.part hpart

theorem PairFree.field {ts : List TypeTree} {vs : List Value}
    (h : PairFree (.struct ts) (.struct vs)) : ∀ part ∈ ts.zip vs, PairFree part.1 part.2 := by
  intro part hmem
  rcases List.mem_iff_getElem?.1 hmem with ⟨i, hi⟩
  have hpart : (Step.field i).part? (.struct ts) (.struct vs) = some part := hi
  exact h.part hpart

theorem PairFree.entryOrPair_eq {k w : TypeTree} {v : Value} (h : PairFree (.dictEntry k w) v) :
    entryOrPair (.dictEntry k w) v = entryHalves (.dictEntry k w) v := by
  cases v with
  | struct vs => exact absurd rfl (h .root k w vs)
  | _ => rfl

/-! ### Writing and checking -/

namespace Wire

variable {order : ByteOrder}

theorem agree_writeScalar {c : ScalarType} {v : Value} (hcounts : v.fitsCounts) :
    Agree (writeScalar order c v) (conformScalar .strict c v) := by
  rw [conformScalar_strict]
  cases c with
  | text =>
    cases v with
    | text s =>
      have hlength : (Text.Utf8.encode s.toList).length ≤ maxCount := of_decide_eq_true hcounts
      rw [writeScalar, if_pos hlength]
      -- the text is checked by the same function on both sides
      cases checkScalar .text (.text s) with
      | ok v => exact .ok _ _
      | error e => exact .error e
    | _ => exact .error _
  | int c =>
    cases v with
    | int n =>
      by_cases htype : n.type = c
      · simp only [writeScalar, checkScalar, Value.scalarType?, htype, if_true]
        exact .ok _ _
      · simp only [writeScalar, checkScalar, Value.scalarType?, Option.some.injEq,
          ScalarType.int.injEq, htype, if_false]
        exact .error _
    | _ => exact .error _
  | bool => cases v <;> first | exact .ok _ _ | exact .error _
  | double => cases v <;> first | exact .ok _ _ | exact .error _

mutual

/-- Writing stops where strict checking does, unless a pair stands for a dict entry. -/
theorem agree_write (t : TypeTree) {v : Value} (hcounts : v.fitsCounts) (hpairs : PairFree t v) :
    Agree (write order t v) (conform .strict t v) :=
  match t with
  | .scalar c => agree_writeScalar hcounts
  | .array t => by
    rw [write, conform]
    apply Agree.bind_same
    intro vs hvs
    rcases arrayElements_ok_iff.1 hvs with rfl
    rw [Value.fitsCounts, Bool.and_eq_true, decide_eq_true_eq, Value.allFitCounts_iff] at hcounts
    have helements := agree_eachElement 0 fun u hu =>
      agree_write t (hcounts.2 u hu) (hpairs.element u hu)
    rw [if_pos hcounts.1]
    exact Agree.bind helements fun parts ws => .ok _ _
  | .struct ts => by
    rw [write, conform]
    apply Agree.bind_same
    intro vs hvs
    rcases structFields_ok_iff.1 hvs with ⟨rfl, -⟩
    exact (agree_writeFields ts 0 hcounts hpairs.field).then_return Value.struct
  | .dictEntry k w => by
    rw [write, conform, hpairs.entryOrPair_eq]
    apply Agree.bind_same
    intro halves hhalves
    rcases entryHalves_ok_iff.1 hhalves with rfl
    rw [Value.fitsCounts, Bool.and_eq_true] at hcounts
    have hkey := agree_write k hcounts.1 (hpairs.part (s := .key) rfl)
    have hvalue := agree_write w hcounts.2 (hpairs.part (s := .value) rfl)
    apply Agree.bind hkey.inside
    intro front key
    apply Agree.bind hvalue.inside
    intro back value
    exact .ok _ _

theorem agree_writeFields (ts : List TypeTree) (index : Nat) {vs : List Value}
    (hcounts : Value.allFitCounts vs) (hpairs : ∀ part ∈ ts.zip vs, PairFree part.1 part.2) :
    Agree (writeFields order index ts vs) (conformFields .strict index ts vs) :=
  match ts, vs with
  | [], _ => by
    rw [writeFields, conformFields]
    exact .ok [] []
  | _ :: _, [] => .ok [] []
  | t :: ts, v :: vs => by
    rw [Value.allFitCounts, Bool.and_eq_true] at hcounts
    rcases List.forall_mem_cons.1 hpairs with ⟨hpair, hpairs'⟩
    have hfirst := agree_write t hcounts.1 hpair
    have hrest := agree_writeFields ts (index + 1) hcounts.2 hpairs'
    rw [writeFields, conformFields]
    apply Agree.bind hfirst.inside
    intro front w
    apply Agree.bind hrest
    intro back ws
    exact .ok _ _

end

/-- A value whose lengths fit their counts can be written exactly when strict checking leaves it
    as it is. Where no struct of it stands for a dict entry, an error of strict checking is the
    error of writing. -/
theorem write_agrees (order : ByteOrder) (t : TypeTree) (v : Value) (hcounts : v.fitsCounts) :
    ((∃ bytes, write order t v = .ok bytes) ↔ conform .strict t v = .ok v) ∧
    (PairFree t v → ∀ e, conform .strict t v = .error e → write order t v = .error e) := by
  constructor
  · rw [write_isOk_iff]
    constructor
    · intro h
      exact conform_of_canonical .strict t h.1
    · intro h
      exact ⟨canonical_of_conform t h, hcounts⟩
  · intro hpairs e h
    have hagree : Agree (write order t v) (conform .strict t v) := agree_write t hcounts hpairs
    rw [h] at hagree
    cases hw : write order t v with
    | ok bytes => rw [hw] at hagree; cases hagree
    | error e' => rw [hw] at hagree; cases hagree; rfl

/-- A number of the wrong type is refused at its place in the entry, on writing as well. -/
theorem write_agrees_entry :
    (Value.dictEntry (.text "k") (.ofWord .int16 5)).fitsCounts ∧
    conform .strict (.dictEntry (.scalar .text) (.scalar (.int .byte)))
      (.dictEntry (.text "k") (.ofWord .int16 5)) =
        .error (.typeMismatch ⟨[.value]⟩ (.scalar (.int .byte)) (.value (.ofWord .int16 5))) ∧
    write .big (.dictEntry (.scalar .text) (.scalar (.int .byte)))
      (.dictEntry (.text "k") (.ofWord .int16 5)) =
        .error (.typeMismatch ⟨[.value]⟩ (.scalar (.int .byte)) (.value (.ofWord .int16 5))) := by
  have hcounts : (Value.dictEntry (.text "k") (.ofWord .int16 5)).fitsCounts := by decide
  have hpairs : PairFree (.dictEntry (.scalar .text) (.scalar (.int .byte)))
      (.dictEntry (.text "k") (.ofWord .int16 5)) := by
    intro p k w vs hwalk
    rcases p with ⟨_ | ⟨s, steps⟩⟩
    · cases hwalk
    · rcases walk_cons_eq_some_iff.1 hwalk with ⟨part, hpart, hrest⟩
      rcases part_dictEntry hpart with ⟨x, y, -, ⟨-, rfl⟩ | ⟨-, rfl⟩⟩
      · exact pairFree_scalar .text x ⟨steps⟩ k w vs hrest
      · exact pairFree_scalar (.int .byte) y ⟨steps⟩ k w vs hrest
  have hconform : conform .strict (.dictEntry (.scalar .text) (.scalar (.int .byte)))
      (.dictEntry (.text "k") (.ofWord .int16 5)) =
        .error (.typeMismatch ⟨[.value]⟩ (.scalar (.int .byte)) (.value (.ofWord .int16 5))) := rfl
  exact ⟨hcounts, hconform, (write_agrees .big _ _ hcounts).2 hpairs _ hconform⟩

end Wire

end Marshal
