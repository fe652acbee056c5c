import Marshal.Proofs.Conformance.Canonical
import Marshal.Proofs.Wire.Format

/-!
  Which values can be written.

  A value can be written as a type exactly when it is in the form that the type prescribes
  and no text or array in it is longer than its count can say (`write_isOk_iff`). The byte
  order plays no part.
-/

namespace Marshal

namespace Value

mutual

/-- Whether the length of every text and every array fits its count. -/
def fitsCounts : Value → Bool
  | .bool _ | .int _ | .double _ => true
  | .text s => decide ((Text.Utf8.encode s.toList).length ≤ Wire.maxCount)
  | .array vs => decide (vs.length ≤ Wire.maxCount) && allFitCounts vs
  | .struct vs => allFitCounts vs
  | .dictEntry k v => k.fitsCounts && v.fitsCounts

def allFitCounts : List Value → Bool
  | [] => true
  | v :: vs => v.fitsCounts && allFitCounts vs

end

theorem allFitCounts_iff {vs : List Value} : allFitCounts vs ↔ ∀ v ∈ vs, v.fitsCounts := by
  induction vs with
  | nil => simp [allFitCounts]
  | cons v vs ih =>
    rw [allFitCounts, Bool.and_eq_true, ih, List.forall_mem_cons]

end Value

namespace Wire

variable {order : ByteOrder}

/-- Beside its form, only the length of a text can stop a scalar. -/
theorem writeScalar_isOk_iff {c : ScalarType} {v : Value} :
    (∃ bytes, writeScalar order c v = .ok bytes) ↔ c.canonical v ∧ v.fitsCounts := by
  cases c with
  | text =>
    simp only [writeScalar_text_ok_iff, ScalarType.canonical_text_iff]
    constructor
    · intro h
      rcases h with ⟨_, s, rfl, hnul, hlength, rfl⟩
      exact ⟨⟨s, rfl, hnul⟩, decide_eq_true hlength⟩
    · intro h
      rcases h with ⟨⟨s, rfl, hnul⟩, hcounts⟩
      exact ⟨_, s, rfl, hnul, of_decide_eq_true hcounts, rfl⟩
  | int c =>
    cases v with
    | int n =>
      by_cases htype : n.type = c <;>
        simp [writeScalar, ScalarType.canonical, Value.scalarType?, Value.text?,
          Value.fitsCounts, mismatch, htype]
    | _ => simp [writeScalar, ScalarType.canonical, Value.scalarType?, mismatch]
  | bool => cases v <;> simp [writeScalar, ScalarType.canonical, Value.scalarType?, Value.text?,
      Value.fitsCounts, mismatch]
  | double => cases v <;> simp [writeScalar, ScalarType.canonical, Value.scalarType?, Value.text?,
      Value.fitsCounts, mismatch]

theorem exists_parts_iff {write : Value → Except Error (List UInt8)} {vs : List Value} :
    (∃ parts, List.Forall₂ (fun v part => write v = .ok part) vs parts) ↔
      ∀ v ∈ vs, ∃ part, write v = .ok part := by
  induction vs with
  | nil => simp
  | cons v vs ih =>
    rw [List.forall_mem_cons, ← ih]
    constructor
    · intro h
      obtain ⟨parts, hparts⟩ := h
      cases hparts with
      | cons hpart hparts => exact ⟨⟨_, hpart⟩, ⟨_, hparts⟩⟩
    · intro h
      obtain ⟨⟨part, hpart⟩, ⟨parts, hparts⟩⟩ := h
      exact ⟨part :: parts, .cons hpart hparts⟩

mutual

/-- Writing succeeds exactly for the values in the form that the type prescribes whose
    lengths fit their counts. -/
theorem write_isOk_iff (t : TypeTree) {v : Value} :
    (∃ bytes, write order t v = .ok bytes) ↔ t.canonical v ∧ v.fitsCounts :=
  match t with
  | .scalar _ => writeScalar_isOk_iff
  | .array t => by
    have hone := fun v => write_isOk_iff t (v := v)
    rw [TypeTree.canonical_array_iff]
    constructor
    · intro h
      obtain ⟨bytes, h⟩ := h
      obtain ⟨vs, parts, rfl, hcount, hparts, -⟩ := write_array_ok_iff.1 h
      have hvs := fun v hv => (hone v).1 (exists_parts_iff.1 ⟨parts, hparts⟩ v hv)
      refine ⟨⟨vs, rfl, fun v hv => (hvs v hv).1⟩, ?_⟩
      rw [Value.fitsCounts, Bool.and_eq_true, decide_eq_true_eq, Value.allFitCounts_iff]
      exact ⟨hcount, fun v hv => (hvs v hv).2⟩
    · intro h
      obtain ⟨⟨vs, rfl, hvs⟩, hcounts⟩ := h
      rw [Value.fitsCounts, Bool.and_eq_true, decide_eq_true_eq, Value.allFitCounts_iff] at hcounts
      obtain ⟨parts, hparts⟩ :=
        exists_parts_iff.2 fun v hv => (hone v).2 ⟨hvs v hv, hcounts.2 v hv⟩
      exact ⟨_, write_array_ok_iff.2 ⟨vs, parts, rfl, hcounts.1, hparts, rfl⟩⟩
  | .struct ts => by
    rw [TypeTree.canonical_struct_iff]
    constructor
    · intro h
      obtain ⟨bytes, h⟩ := h
      obtain ⟨vs, rfl, hlength, hfields⟩ := write_struct_ok_iff.1 h
      obtain ⟨hvs, hcounts⟩ := (writeFields_isOk_iff ts 0 hlength).1 ⟨bytes, hfields⟩
      exact ⟨⟨vs, rfl, hvs⟩, hcounts⟩
    · intro h
      obtain ⟨⟨vs, rfl, hvs⟩, hcounts⟩ := h
      have hlength := TypeTree.length_of_fieldsCanonical hvs
      obtain ⟨bytes, hfields⟩ := (writeFields_isOk_iff ts 0 hlength).2 ⟨hvs, hcounts⟩
      exact ⟨bytes, write_struct_ok_iff.2 ⟨vs, rfl, hlength, hfields⟩⟩
  | .dictEntry k w => by
    rw [TypeTree.canonical_dictEntry_iff]
    constructor
    · intro h
      obtain ⟨bytes, h⟩ := h
      obtain ⟨key, value, front, back, rfl, hfront, hback, -⟩ := write_dictEntry_ok_iff.1 h
      obtain ⟨hkey, hkeyCounts⟩ := (write_isOk_iff k).1 ⟨front, hfront⟩
      obtain ⟨hvalue, hvalueCounts⟩ := (write_isOk_iff w).1 ⟨back, hback⟩
      refine ⟨⟨key, value, rfl, hkey, hvalue⟩, ?_⟩
      rw [Value.fitsCounts, hkeyCounts, hvalueCounts]
      rfl
    · intro h
      obtain ⟨⟨key, value, rfl, hkey, hvalue⟩, hcounts⟩ := h
      rw [Value.fitsCounts, Bool.and_eq_true] at hcounts
      obtain ⟨front, hfront⟩ := (write_isOk_iff k).2 ⟨hkey, hcounts.1⟩
      obtain ⟨back, hback⟩ := (write_isOk_iff w).2 ⟨hvalue, hcounts.2⟩
      exact ⟨_, write_dictEntry_ok_iff.2 ⟨key, value, front, back, rfl, hfront, hback, rfl⟩⟩

theorem writeFields_isOk_iff (ts : List TypeTree) (index : Nat) {vs : List Value}
    (hlength : vs.length = ts.length) :
    (∃ bytes, writeFields order index ts vs = .ok bytes) ↔
      TypeTree.fieldsCanonical ts vs ∧ Value.allFitCounts vs :=
  match ts, vs with
  | [], [] => by simp [writeFields, TypeTree.fieldsCanonical, Value.allFitCounts]
  | t :: ts, v :: vs => by
    have hrest := writeFields_isOk_iff ts (index + 1) (Nat.succ.inj hlength)
    simp only [TypeTree.fieldsCanonical, Value.allFitCounts, Bool.and_eq_true]
    constructor
    · intro h
      obtain ⟨bytes, h⟩ := h
      obtain ⟨front, back, hfront, hback, -⟩ := writeFields_cons_ok_iff.1 h
      obtain ⟨hv, hvCounts⟩ := (write_isOk_iff t).1 ⟨front, hfront⟩
      obtain ⟨hvs, hvsCounts⟩ := hrest.1 ⟨back, hback⟩
      exact ⟨⟨hv, hvs⟩, ⟨hvCounts, hvsCounts⟩⟩
    · intro h
      obtain ⟨⟨hv, hvs⟩, ⟨hvCounts, hvsCounts⟩⟩ := h
      obtain ⟨front, hfront⟩ := (write_isOk_iff t).2 ⟨hv, hvCounts⟩
      obtain ⟨back, hback⟩ := hrest.2 ⟨hvs, hvsCounts⟩
      exact ⟨_, writeFields_cons_ok_iff.2 ⟨front, back, hfront, hback, rfl⟩⟩

end

end Wire

end Marshal
