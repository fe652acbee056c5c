import Marshal.Error

/-!
  Runs of checks that succeed or fail.

  The readers, writers and checks of this library are chains of steps, each of which
  may refuse. The lemmas below take a chain that came to its end or was refused apart
  into its steps, so that no later proof has to look into a chain.
-/

namespace Marshal

variable {ε ε' α β : Type}

/-- A chain of two steps succeeds when both steps do. -/
theorem bind_ok_iff {x : Except ε α} {f : α → Except ε β} {b : β} :
    (x >>= f) = .ok b ↔ ∃ a, x = .ok a ∧ f a = .ok b := by
  cases x with
  | error e => exact ⟨nofun, nofun⟩
  | ok a => exact ⟨fun h => ⟨a, rfl, h⟩, fun ⟨_, h, hf⟩ => by cases h; exact hf⟩

/-- A chain of two steps fails with the error of the first one that does. -/
theorem bind_error_iff {x : Except ε α} {f : α → Except ε β} {e : ε} :
    (x >>= f) = .error e ↔ x = .error e ∨ ∃ a, x = .ok a ∧ f a = .error e := by
  cases x with
  | error e' => simp [bind, Except.bind]
  | ok a => simp [bind, Except.bind]

theorem ok_bind (a : α) (f : α → Except ε β) : (Except.ok a >>= f) = f a := rfl

theorem pure_ok_iff {a b : α} : (pure a : Except ε α) = .ok b ↔ b = a :=
  ⟨fun h => (Except.ok.inj h).symm, fun h => congrArg Except.ok h.symm⟩

/-- A guarded step succeeds when the guard holds and the step does. -/
theorem ite_error_ok_iff {p : Prop} [Decidable p] {x : Except ε α} {e : ε} {a : α} :
    (if p then x else .error e) = .ok a ↔ p ∧ x = .ok a := by
  by_cases hp : p
  · rw [if_pos hp]
    exact (and_iff_right hp).symm
  · rw [if_neg hp]
    exact ⟨nofun, fun h => absurd h.1 hp⟩

theorem mapError_ok_iff {f : ε → ε'} {x : Except ε α} {a : α} :
    x.mapError f = .ok a ↔ x = .ok a := by
  cases x with
  | error e => exact ⟨nofun, nofun⟩
  | ok b => exact ⟨fun h => by cases h; rfl, fun h => by cases h; rfl⟩

theorem mapError_error_iff {f : ε → ε'} {x : Except ε α} {e : ε'} :
    x.mapError f = .error e ↔ ∃ e', x = .error e' ∧ e = f e' := by
  constructor
  · intro h
    cases x with
    | error e' => exact ⟨e', rfl, (Except.error.inj h).symm⟩
    | ok a => cases h
  · rintro ⟨e', rfl, rfl⟩
    rfl

theorem map_ok_iff {f : α → β} {x : Except ε α} {b : β} :
    x.map f = .ok b ↔ ∃ a, x = .ok a ∧ f a = b := by
  cases x <;> simp [Except.map]

/-- Where a part stands does not decide whether it passes a check. -/
theorem inside_ok_iff {s : Step} {x : Except Error α} {a : α} :
    inside s x = .ok a ↔ x = .ok a :=
  mapError_ok_iff

/-- A refused part is reported with the step to it. -/
theorem inside_error_iff {s : Step} {x : Except Error α} {e : Error} :
    inside s x = .error e ↔ ∃ e', x = .error e' ∧ e = e'.within s :=
  mapError_error_iff

end Marshal
