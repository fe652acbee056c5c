import Marshal.Conformance.Basic
import Marshal.Proofs.Result
import Mathlib.Data.List.Forall2

/-!
  When the checks of containers succeed.

  Checking and writing share the checks that take a container apart. Each passes exactly
  the values of its own kind, and a check of all elements passes when the check of every
  single one does (`eachElement_ok_iff`).
-/

namespace Marshal

theorem arrayElements_ok_iff {type : TypeTree} {v : Value} {elements : List Value} :
    arrayElements type v = .ok elements ↔ v = .array elements := by
  cases v <;> simp [arrayElements, mismatch]

theorem structFields_ok_iff {types : List TypeTree} {v : Value} {fields : List Value} :
    structFields types v = .ok fields ↔ v = .struct fields ∧ fields.length = types.length := by
  cases v with
  | struct vs =>
    simp only [structFields]
    split
    · next h => exact ⟨fun e => by cases e; exact ⟨rfl, h⟩, fun ⟨e, _⟩ => by cases e; rfl⟩
    · next h => exact ⟨nofun, fun ⟨e, hlength⟩ => by cases e; exact absurd hlength h⟩
  | _ => simp [structFields, mismatch]

theorem entryHalves_ok_iff {type : TypeTree} {v : Value} {halves : Value × Value} :
    entryHalves type v = .ok halves ↔ v = .dictEntry halves.1 halves.2 := by
  obtain ⟨key, value⟩ := halves
  cases v <;> simp [entryHalves, mismatch]

theorem entryOrPair_ok_iff {type : TypeTree} {v : Value} {halves : Value × Value} :
    entryOrPair type v = .ok halves ↔
      v = .dictEntry halves.1 halves.2 ∨ v = .struct [halves.1, halves.2] := by
  obtain ⟨key, value⟩ := halves
  unfold entryOrPair
  split
  · simp
  · next hpair =>
    simp only [reduceCtorEq, false_iff, not_or, not_false_eq_true, true_and]
    exact fun h => hpair _ _ (Value.struct.inj h)
  · next hpair hstruct =>
    rw [entryHalves_ok_iff]
    exact ⟨.inl, fun h => h.resolve_right (hpair key value)⟩

section Elements

variable {α : Type} {check : Value → Except Error α}

/-- The numbers of the elements only matter where one is refused. -/
theorem eachElement_ok_iff {index : Nat} {vs : List Value} {as : List α} :
    eachElement check index vs = .ok as ↔ List.Forall₂ (fun v a => check v = .ok a) vs as := by
  induction vs generalizing index as with
  | nil =>
    rw [List.forall₂_nil_left_iff]
    exact ⟨fun h => by cases h; rfl, fun h => by rw [h]; rfl⟩
  | cons v vs ih =>
    simp only [eachElement, bind_ok_iff, inside_ok_iff, ih, pure_ok_iff,
      List.forall₂_cons_left_iff, exists_and_left]

end Elements

/-! ### Whole values -/

section Conform

variable {coercion : Coercion} {v w : Value}

theorem conform_array_ok_iff {type : TypeTree} :
    conform coercion (.array type) v = .ok w ↔
      ∃ vs ws, v = .array vs ∧
        List.Forall₂ (fun v w => conform coercion type v = .ok w) vs ws ∧ w = .array ws := by
  simp only [conform, bind_ok_iff, arrayElements_ok_iff, eachElement_ok_iff, pure_ok_iff,
    exists_and_left]

theorem conform_struct_ok_iff {types : List TypeTree} :
    conform coercion (.struct types) v = .ok w ↔
      ∃ vs ws, v = .struct vs ∧ vs.length = types.length ∧
        conformFields coercion 0 types vs = .ok ws ∧ w = .struct ws := by
  simp only [conform, bind_ok_iff, structFields_ok_iff, pure_ok_iff, exists_and_left, and_assoc]

theorem conform_dictEntry_ok_iff {keyType valueType : TypeTree} :
    conform coercion (.dictEntry keyType valueType) v = .ok w ↔
      ∃ key value key' value', (v = .dictEntry key value ∨ v = .struct [key, value]) ∧
        conform coercion keyType key = .ok key' ∧
        conform coercion valueType value = .ok value' ∧ w = .dictEntry key' value' := by
  simp only [conform, bind_ok_iff, entryOrPair_ok_iff, inside_ok_iff, pure_ok_iff, Prod.exists,
    exists_and_left]

theorem conformFields_cons_ok_iff {index : Nat} {type : TypeTree} {types : List TypeTree}
    {vs ws : List Value} :
    conformFields coercion index (type :: types) (v :: vs) = .ok ws ↔
      ∃ w ws', conform coercion type v = .ok w ∧
        conformFields coercion (index + 1) types vs = .ok ws' ∧ ws = w :: ws' := by
  simp only [conformFields, bind_ok_iff, inside_ok_iff, pure_ok_iff, exists_and_left]

end Conform

end Marshal
