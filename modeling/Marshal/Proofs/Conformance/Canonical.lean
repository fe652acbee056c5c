import Marshal.Proofs.Conformance.Container

/-!
  Values in the form that a type prescribes.

  `TypeTree.canonical` describes the values that need no change to fit a type. Checking
  ends in such a value in either mode (`canonical_of_conform`) and leaves it alone
  (`conform_of_canonical`), so these are the fixed points of every check.
-/

namespace Marshal

/-! ### The form of a value -/

/-- Whether a value is a scalar of a type, without the character that ends a text. -/
def ScalarType.canonical (c : ScalarType) (v : Value) : Bool :=
  decide (v.scalarType? = some c) && !v.text?.any hasNul

theorem ScalarType.scalarType_of_canonical {c : ScalarType} {v : Value} (h : c.canonical v) :
    v.scalarType? = some c := by
  simp only [canonical, Bool.and_eq_true, decide_eq_true_eq] at h
  exact h.1

namespace TypeTree

mutual

/-- Whether a value is in the form that a type prescribes. -/
def canonical : TypeTree → Value → Bool
  | .scalar c, v => c.canonical v
  | .array t, .array vs => vs.all t.canonical
  | .struct ts, .struct vs => fieldsCanonical ts vs
  | .dictEntry k w, .dictEntry key value => k.canonical key && w.canonical value
  | _, _ => false

def fieldsCanonical : List TypeTree → List Value → Bool
  | [], [] => true
  | t :: ts, v :: vs => t.canonical v && fieldsCanonical ts vs
  | _, _ => false

end

section Canonical

variable {v : Value}

theorem canonical_array_iff {t : TypeTree} :
    (TypeTree.array t).canonical v ↔ ∃ vs, v = .array vs ∧ ∀ w ∈ vs, t.canonical w := by
  cases v <;> simp [canonical]

theorem canonical_struct_iff {ts : List TypeTree} :
    (TypeTree.struct ts).canonical v ↔ ∃ vs, v = .struct vs ∧ fieldsCanonical ts vs := by
  cases v <;> simp [canonical]

theorem canonical_dictEntry_iff {k w : TypeTree} :
    (TypeTree.dictEntry k w).canonical v ↔
      ∃ key value, v = .dictEntry key value ∧ k.canonical key ∧ w.canonical value := by
  cases v <;> simp [canonical, and_assoc]

theorem length_of_fieldsCanonical {ts : List TypeTree} {vs : List Value}
    (h : fieldsCanonical ts vs) : vs.length = ts.length := by
  induction ts generalizing vs with
  | nil =>
    cases vs with
    | nil => rfl
    | cons v vs => cases h
  | cons t ts ih =>
    cases vs with
    | nil => cases h
    | cons v vs =>
      simp only [fieldsCanonical, Bool.and_eq_true] at h
      rw [List.length_cons, List.length_cons, ih h.2]

end Canonical

end TypeTree

/-! ### Checking ends in the prescribed form -/

theorem checkScalar_ok_iff {c : ScalarType} {v w : Value} :
    checkScalar c v = .ok w ↔ c.canonical v ∧ w = v := by
  unfold checkScalar ScalarType.canonical
  by_cases htype : v.scalarType? = some c
  · rw [if_pos htype]
    cases v with
    | text s => cases hnul : hasNul s <;> simp [htype, hnul, Value.text?, mismatch, eq_comm]
    | _ => simp [htype, Value.text?, eq_comm]
  · simp [htype, mismatch]

theorem conformScalar_strict (c : ScalarType) (v : Value) :
    conformScalar .strict c v = checkScalar c v :=
  if_pos (.inl rfl)

theorem ScalarType.canonical_text_iff {v : Value} :
    ScalarType.text.canonical v ↔ ∃ s, v = .text s ∧ hasNul s = false := by
  cases v <;> simp [canonical, Value.scalarType?, Value.text?]

theorem convertInteger_int_ok_iff {c : IntType} {n : Integer} {w : Value} :
    convertInteger (.int c) n = .ok w ↔ ∃ m, m.type = c ∧ m.val = n.val ∧ w = .int m := by
  simp only [convertInteger]
  cases hm : Integer.ofInt? c n.val with
  | none =>
    refine ⟨nofun, ?_⟩
    intro h
    obtain ⟨m, htype, hval, -⟩ := h
    rw [Integer.ofInt?_eq_some_iff.2 ⟨htype, hval⟩] at hm
    cases hm
  | some m =>
    obtain ⟨htype, hval⟩ := Integer.ofInt?_eq_some_iff.1 hm
    constructor
    · intro h
      cases h
      exact ⟨m, htype, hval, rfl⟩
    · intro h
      obtain ⟨k, hktype, hkval, rfl⟩ := h
      rw [Integer.ofInt?_eq_some_iff.2 ⟨hktype, hkval⟩] at hm
      cases hm
      rfl

theorem canonical_of_convertInteger {c : ScalarType} {n : Integer} {w : Value}
    (h : convertInteger c n = .ok w) : c.canonical w := by
  cases c with
  | int c =>
    obtain ⟨m, rfl, -, rfl⟩ := convertInteger_int_ok_iff.1 h
    simp [ScalarType.canonical, Value.scalarType?, Value.text?]
  | double => cases h; rfl
  | bool => cases h
  | text => cases h

theorem canonical_of_conformScalar {coercion : Coercion} {c : ScalarType} {v w : Value}
    (h : conformScalar coercion c v = .ok w) : c.canonical w := by
  unfold conformScalar at h
  split at h
  · obtain ⟨hv, rfl⟩ := checkScalar_ok_iff.1 h
    exact hv
  · cases v with
    | int n => exact canonical_of_convertInteger h
    | _ => cases h

/-- A scalar of the type passes under either coercion as it is. -/
theorem conformScalar_of_canonical (coercion : Coercion) {c : ScalarType} {v : Value}
    (h : c.canonical v) : conformScalar coercion c v = .ok v := by
  have htype := ScalarType.scalarType_of_canonical h
  unfold conformScalar
  rw [if_pos (.inr htype)]
  exact checkScalar_ok_iff.2 ⟨h, rfl⟩

theorem canonical_of_elements {coercion : Coercion} {t : TypeTree}
    (hone : ∀ {v w}, conform coercion t v = .ok w → t.canonical w) {vs ws : List Value}
    (h : List.Forall₂ (fun v w => conform coercion t v = .ok w) vs ws) :
    ∀ w ∈ ws, t.canonical w := by
  induction h with
  | nil => exact nofun
  | cons hw _ ih => exact List.forall_mem_cons.2 ⟨hone hw, ih⟩

mutual

/-- A value that passed a check is in the form that the type prescribes. -/
theorem canonical_of_conform {coercion : Coercion} (t : TypeTree) {v w : Value}
    (h : conform coercion t v = .ok w) : t.canonical w :=
  match t with
  | .scalar c => canonical_of_conformScalar h
  | .array t => by
    obtain ⟨vs, ws, -, hws, rfl⟩ := conform_array_ok_iff.1 h
    have helements := canonical_of_elements (fun hw => canonical_of_conform t hw) hws
    exact TypeTree.canonical_array_iff.2 ⟨ws, rfl, helements⟩
  | .struct ts => by
    obtain ⟨vs, ws, -, hlength, hws, rfl⟩ := conform_struct_ok_iff.1 h
    have hfields := fieldsCanonical_of_conformFields ts hlength hws
    exact TypeTree.canonical_struct_iff.2 ⟨ws, rfl, hfields⟩
  | .dictEntry k u => by
    -- a pair that stands for an entry is checked by halves as well
    obtain ⟨key, value, key', value', -, hkey, hvalue, rfl⟩ := conform_dictEntry_ok_iff.1 h
    have hkey' := canonical_of_conform k hkey
    have hvalue' := canonical_of_conform u hvalue
    exact TypeTree.canonical_dictEntry_iff.2 ⟨key', value', rfl, hkey', hvalue'⟩

theorem fieldsCanonical_of_conformFields {coercion : Coercion} (ts : List TypeTree)
    {index : Nat} {vs ws : List Value} (hlength : vs.length = ts.length)
    (h : conformFields coercion index ts vs = .ok ws) : TypeTree.fieldsCanonical ts ws :=
  match ts, vs with
  | [], [] => by cases h; rfl
  | t :: ts, v :: vs => by
    obtain ⟨w, ws, hw, hws, rfl⟩ := conformFields_cons_ok_iff.1 h
    have hfirst := canonical_of_conform t hw
    have hrest := fieldsCanonical_of_conformFields ts (Nat.succ.inj hlength) hws
    rw [TypeTree.fieldsCanonical, hfirst, hrest]
    rfl

end

/-! ### Checking keeps the prescribed form -/

mutual

/-- No check changes a value that is in the form that the type prescribes. -/
theorem conform_of_canonical (coercion : Coercion) (t : TypeTree) {v : Value}
    (h : t.canonical v) : conform coercion t v = .ok v :=
  match t with
  | .scalar _ => conformScalar_of_canonical coercion h
  | .array t => by
    obtain ⟨vs, rfl, hvs⟩ := TypeTree.canonical_array_iff.1 h
    have helements : List.Forall₂ (fun v w => conform coercion t v = .ok w) vs vs :=
      List.forall₂_same.2 fun v hv => conform_of_canonical coercion t (hvs v hv)
    exact conform_array_ok_iff.2 ⟨vs, vs, rfl, helements, rfl⟩
  | .struct ts => by
    obtain ⟨vs, rfl, hvs⟩ := TypeTree.canonical_struct_iff.1 h
    have hlength := TypeTree.length_of_fieldsCanonical hvs
    have hfields := conformFields_of_canonical coercion ts 0 hvs
    exact conform_struct_ok_iff.2 ⟨vs, vs, rfl, hlength, hfields, rfl⟩
  | .dictEntry k w => by
    obtain ⟨key, value, rfl, hkey, hvalue⟩ := TypeTree.canonical_dictEntry_iff.1 h
    have hkey' := conform_of_canonical coercion k hkey
    have hvalue' := conform_of_canonical coercion w hvalue
    exact conform_dictEntry_ok_iff.2
      ⟨key, value, key, value, .inl rfl, hkey', hvalue', rfl⟩

theorem conformFields_of_canonical (coercion : Coercion) (ts : List TypeTree) (index : Nat)
    {vs : List Value} (h : TypeTree.fieldsCanonical ts vs) :
    conformFields coercion index ts vs = .ok vs :=
  match ts, vs with
  | [], [] => rfl
  | t :: ts, v :: vs => by
    simp only [TypeTree.fieldsCanonical, Bool.and_eq_true] at h
    have hfirst := conform_of_canonical coercion t h.1
    have hrest := conformFields_of_canonical coercion ts (index + 1) h.2
    exact conformFields_cons_ok_iff.2 ⟨v, vs, hfirst, hrest, rfl⟩

end

end Marshal
