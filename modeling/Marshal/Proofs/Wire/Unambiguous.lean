import Marshal.Proofs.Wire.Pieces
import Marshal.Proofs.Wire.Writable

/-!
  The types that a value fits.

  A value fits one type only, up to what an empty array leaves open: where two types that it fits
  differ, they are element types of arrays that are empty in the value. `SameFor` is this relation
  of types, and a value that fits one type fits exactly those that are the same for it
  (`canonical_iff_sameFor`). Its bytes are the same for all of them, so no message of a value can
  be taken for a message of the same value by another type (`write_unique`).
-/

namespace Marshal

/-! ### Types that are the same for a value -/

mutual

/-- Whether two types are the same as far as a value goes: they differ at most in the element
    types of arrays that are empty in it. -/
inductive SameFor : Value → TypeTree → TypeTree → Prop where
  | scalar (v : Value) (c : ScalarType) : SameFor v (.scalar c) (.scalar c)
  | array {vs : List Value} {t u : TypeTree} (h : ∀ v ∈ vs, SameFor v t u) :
      SameFor (.array vs) (.array t) (.array u)
  | struct {vs : List Value} {ts us : List TypeTree} (h : FieldsSameFor vs ts us) :
      SameFor (.struct vs) (.struct ts) (.struct us)
  | dictEntry {key value : Value} {k w k' w' : TypeTree} (hkey : SameFor key k k')
      (hvalue : SameFor value w w') :
      SameFor (.dictEntry key value) (.dictEntry k w) (.dictEntry k' w')

inductive FieldsSameFor : List Value → List TypeTree → List TypeTree → Prop where
  | nil : FieldsSameFor [] [] []
  | cons {v : Value} {vs : List Value} {t u : TypeTree} {ts us : List TypeTree}
      (hfirst : SameFor v t u) (hrest : FieldsSameFor vs ts us) :
      FieldsSameFor (v :: vs) (t :: ts) (u :: us)

end

/-! ### The type of each kind of value -/

namespace TypeTree

variable {t : TypeTree}

theorem eq_scalar_of_canonical {v : Value} {c : ScalarType} (hv : v.scalarType? = some c)
    (h : t.canonical v) : t = .scalar c := by
  cases t with
  | scalar d =>
    simp only [canonical, ScalarType.canonical, Bool.and_eq_true, decide_eq_true_eq] at h
    rw [hv] at h
    rw [Option.some.inj h.1]
  | _ => cases v <;> cases hv <;> cases h

theorem exists_array_of_canonical {vs : List Value} (h : t.canonical (.array vs)) :
    ∃ element, t = .array element ∧ ∀ v ∈ vs, element.canonical v := by
  cases t with
  | array element => exact ⟨element, rfl, List.all_eq_true.1 h⟩
  | _ => cases h

theorem exists_struct_of_canonical {vs : List Value} (h : t.canonical (.struct vs)) :
    ∃ types, t = .struct types ∧ fieldsCanonical types vs := by
  cases t with
  | struct types => exact ⟨types, rfl, h⟩
  | _ => cases h

theorem exists_dictEntry_of_canonical {key value : Value} (h : t.canonical (.dictEntry key value)) :
    ∃ k w, t = .dictEntry k w ∧ k.canonical key ∧ w.canonical value := by
  cases t with
  | dictEntry k w => exact ⟨k, w, rfl, (Bool.and_eq_true _ _).mp h⟩
  | _ => cases h

end TypeTree

/-! ### The types that a value fits -/

theorem sameFor_of_scalar {v : Value} {c : ScalarType} (hv : v.scalarType? = some c)
    {t u : TypeTree} (ht : t.canonical v) (hu : u.canonical v) : SameFor v t u := by
  rw [TypeTree.eq_scalar_of_canonical hv ht, TypeTree.eq_scalar_of_canonical hv hu]
  exact .scalar v c

mutual

theorem sameFor_of_canonical (v : Value) {t u : TypeTree} (ht : t.canonical v)
    (hu : u.canonical v) : SameFor v t u :=
  match v with
  | .bool _ | .int _ | .double _ | .text _ => sameFor_of_scalar rfl ht hu
  | .array vs => by
    obtain ⟨t, rfl, hts⟩ := TypeTree.exists_array_of_canonical ht
    obtain ⟨u, rfl, hus⟩ := TypeTree.exists_array_of_canonical hu
    exact .array (allSameFor_of_canonical vs hts hus)
  | .struct vs => by
    obtain ⟨ts, rfl, hts⟩ := TypeTree.exists_struct_of_canonical ht
    obtain ⟨us, rfl, hus⟩ := TypeTree.exists_struct_of_canonical hu
    exact .struct (fieldsSameFor_of_canonical vs hts hus)
  | .dictEntry key value => by
    obtain ⟨k, w, rfl, hk, hw⟩ := TypeTree.exists_dictEntry_of_canonical ht
    obtain ⟨k', w', rfl, hk', hw'⟩ := TypeTree.exists_dictEntry_of_canonical hu
    exact .dictEntry (sameFor_of_canonical key hk hk') (sameFor_of_canonical value hw hw')

theorem allSameFor_of_canonical (vs : List Value) {t u : TypeTree} (ht : ∀ v ∈ vs, t.canonical v)
    (hu : ∀ v ∈ vs, u.canonical v) : ∀ v ∈ vs, SameFor v t u :=
  match vs with
  | [] => nofun
  | v :: vs => by
    rw [List.forall_mem_cons] at ht hu ⊢
    exact ⟨sameFor_of_canonical v ht.1 hu.1, allSameFor_of_canonical vs ht.2 hu.2⟩

theorem fieldsSameFor_of_canonical (vs : List Value) {ts us : List TypeTree}
    (hts : TypeTree.fieldsCanonical ts vs) (hus : TypeTree.fieldsCanonical us vs) :
    FieldsSameFor vs ts us :=
  match vs, ts, us with
  | [], [], [] => .nil
  | v :: vs, t :: ts, u :: us => by
    simp only [TypeTree.fieldsCanonical, Bool.and_eq_true] at hts hus
    have hfirst := sameFor_of_canonical v hts.1 hus.1
    exact .cons hfirst (fieldsSameFor_of_canonical vs hts.2 hus.2)

end

mutual

/-- A value does not tell such types apart. -/
theorem canonical_of_sameFor (v : Value) {t u : TypeTree} (h : SameFor v t u)
    (ht : t.canonical v) : u.canonical v :=
  match v with
  | .bool _ | .int _ | .double _ | .text _ => by
    cases h
    exact ht
  | .array vs => by
    cases h with
    | scalar => exact ht
    | array h =>
      have ht := List.all_eq_true.1 ht
      exact List.all_eq_true.2 (allCanonical_of_sameFor vs h ht)
  | .struct vs => by
    cases h with
    | scalar => exact ht
    | struct h => exact fieldsCanonical_of_sameFor vs h ht
  | .dictEntry key value => by
    cases h with
    | scalar => exact ht
    | dictEntry hkey hvalue =>
      simp only [TypeTree.canonical, Bool.and_eq_true] at ht ⊢
      exact ⟨canonical_of_sameFor key hkey ht.1, canonical_of_sameFor value hvalue ht.2⟩

theorem allCanonical_of_sameFor (vs : List Value) {t u : TypeTree} (h : ∀ v ∈ vs, SameFor v t u)
    (ht : ∀ v ∈ vs, t.canonical v) : ∀ v ∈ vs, u.canonical v :=
  match vs with
  | [] => nofun
  | v :: vs => by
    rw [List.forall_mem_cons] at h ht ⊢
    exact ⟨canonical_of_sameFor v h.1 ht.1, allCanonical_of_sameFor vs h.2 ht.2⟩

theorem fieldsCanonical_of_sameFor (vs : List Value) {ts us : List TypeTree}
    (h : FieldsSameFor vs ts us) (hts : TypeTree.fieldsCanonical ts vs) :
    TypeTree.fieldsCanonical us vs :=
  match vs with
  | [] => by
    cases h
    rfl
  | v :: vs => by
    cases h with
    | cons hfirst hrest =>
      simp only [TypeTree.fieldsCanonical, Bool.and_eq_true] at hts ⊢
      exact ⟨canonical_of_sameFor v hfirst hts.1, fieldsCanonical_of_sameFor vs hrest hts.2⟩

end

/-- A value that fits one type fits exactly those that are the same for it. -/
theorem canonical_iff_sameFor {v : Value} {t u : TypeTree} (ht : t.canonical v) :
    u.canonical v ↔ SameFor v t u :=
  ⟨sameFor_of_canonical v ht, fun h => canonical_of_sameFor v h ht⟩

/-! ### Values without empty arrays -/

namespace Value

mutual

def noEmptyArray : Value → Bool
  | .bool _ | .int _ | .double _ | .text _ => true
  | .array vs => !vs.isEmpty && allNoEmptyArray vs
  | .struct vs => allNoEmptyArray vs
  | .dictEntry k v => k.noEmptyArray && v.noEmptyArray

def allNoEmptyArray : List Value → Bool
  | [] => true
  | v :: vs => v.noEmptyArray && allNoEmptyArray vs

end

end Value

mutual

/-- The elements of an array show their type as soon as there is one. -/
theorem eq_of_sameFor (v : Value) (hv : v.noEmptyArray) {t u : TypeTree} (h : SameFor v t u) :
    t = u :=
  match v with
  | .bool _ | .int _ | .double _ | .text _ => by
    cases h
    rfl
  | .array [] => by cases hv
  | .array (v :: vs) => by
    simp only [Value.noEmptyArray, Value.allNoEmptyArray, Bool.and_eq_true] at hv
    cases h with
    | scalar => rfl
    | array h => rw [eq_of_sameFor v hv.2.1 (h v List.mem_cons_self)]
  | .struct vs => by
    cases h with
    | scalar => rfl
    | struct h => rw [fields_eq_of_sameFor vs hv h]
  | .dictEntry key value => by
    simp only [Value.noEmptyArray, Bool.and_eq_true] at hv
    cases h with
    | scalar => rfl
    | dictEntry hkey hvalue => rw [eq_of_sameFor key hv.1 hkey, eq_of_sameFor value hv.2 hvalue]

theorem fields_eq_of_sameFor (vs : List Value) (hvs : Value.allNoEmptyArray vs)
    {ts us : List TypeTree} (h : FieldsSameFor vs ts us) : ts = us :=
  match vs with
  | [] => by
    cases h
    rfl
  | v :: vs => by
    simp only [Value.allNoEmptyArray, Bool.and_eq_true] at hvs
    cases h with
    | cons hfirst hrest => rw [eq_of_sameFor v hvs.1 hfirst, fields_eq_of_sameFor vs hvs.2 hrest]

end

/-! ### Messages of a value -/

namespace Wire

variable {order : ByteOrder}

theorem write_isOk_iff_sameFor {v : Value} {t u : TypeTree} {bytes : List UInt8}
    (h : write order t v = .ok bytes) :
    (∃ other, write order u v = .ok other) ↔ SameFor v t u := by
  obtain ⟨hform, hcounts⟩ := (write_isOk_iff t).1 ⟨bytes, h⟩
  rw [write_isOk_iff, and_iff_left hcounts, canonical_iff_sameFor hform]

/-- The halves of an entry can be swapped where each fits the type of the other. -/
theorem write_swapped_isOk_iff {k w : TypeTree} {key value : Value} {bytes : List UInt8}
    (h : write order (.dictEntry k w) (.dictEntry key value) = .ok bytes) :
    (∃ other, write order (.dictEntry k w) (.dictEntry value key) = .ok other) ↔
      SameFor key k w ∧ SameFor value w k := by
  obtain ⟨hform, hcounts⟩ := (write_isOk_iff _).1 ⟨bytes, h⟩
  simp only [TypeTree.canonical, Value.fitsCounts, Bool.and_eq_true] at hform hcounts
  rw [write_isOk_iff, ← canonical_iff_sameFor hform.1, ← canonical_iff_sameFor hform.2]
  simp only [TypeTree.canonical, Value.fitsCounts, Bool.and_eq_true, hcounts, and_self, and_true]
  exact and_comm

/-- A value can be written by exactly those types that are the same for it, so by one type alone
    if no array in it is empty, and its message is the same for all of them. In particular a dict
    entry can be written with its halves swapped only if both types take both halves. -/
theorem write_unique (order : ByteOrder) (t : TypeTree) (v : Value) (bytes : List UInt8)
    (h : write order t v = .ok bytes) :
    (∀ u other, write order u v = .ok other → other = bytes ∧ (v.noEmptyArray → u = t)) ∧
    (∀ u, (∃ other, write order u v = .ok other) ↔ SameFor v t u) ∧
    ∀ k w key value, t = .dictEntry k w → v = .dictEntry key value →
      ((∃ other, write order t (.dictEntry value key) = .ok other) ↔
        SameFor key k w ∧ SameFor value w k) := by
  refine ⟨?_, fun u => write_isOk_iff_sameFor h, ?_⟩
  · intro u other hother
    have hsame := (write_isOk_iff_sameFor h).1 ⟨other, hother⟩
    refine ⟨?_, fun hv => (eq_of_sameFor v hv hsame).symm⟩
    rw [bytes_of_write u hother, bytes_of_write t h]
  · intro k w key value ht hv
    subst ht hv
    exact write_swapped_isOk_iff h

/-- A text with a list of one byte has one type, and its halves cannot change places. -/
theorem write_unique_entry :
    write .little (.dictEntry (.scalar .text) (.array (.scalar (.int .byte))))
      (.dictEntry (.text "a") (.array [.ofWord .byte 7])) =
        .ok [1, 0, 0, 0, 97, 0, 1, 0, 0, 0, 7] ∧
    (∀ u other,
      write .little u (.dictEntry (.text "a") (.array [.ofWord .byte 7])) = .ok other →
        other = [1, 0, 0, 0, 97, 0, 1, 0, 0, 0, 7] ∧
          u = .dictEntry (.scalar .text) (.array (.scalar (.int .byte)))) ∧
    ¬ ∃ other, write .little (.dictEntry (.scalar .text) (.array (.scalar (.int .byte))))
      (.dictEntry (.array [.ofWord .byte 7]) (.text "a")) = .ok other := by
  have hwrite : write .little (.dictEntry (.scalar .text) (.array (.scalar (.int .byte))))
      (.dictEntry (.text "a") (.array [.ofWord .byte 7])) =
        .ok [1, 0, 0, 0, 97, 0, 1, 0, 0, 0, 7] := rfl
  obtain ⟨hunique, -, hswapped⟩ := write_unique .little _ _ _ hwrite
  refine ⟨hwrite, ?_, ?_⟩
  · intro u other hother
    obtain ⟨hbytes, htype⟩ := hunique u other hother
    exact ⟨hbytes, htype (by decide)⟩
  · rw [hswapped _ _ _ _ rfl rfl]
    intro hsame
    cases hsame.1

/-- An empty array leaves its element type open. -/
example :
    write .big (.array (.scalar .bool)) (.array []) = .ok [0, 0, 0, 0] ∧
    write .big (.array (.dictEntry (.scalar .text) (.scalar .double))) (.array []) =
      .ok [0, 0, 0, 0] :=
  ⟨rfl, rfl⟩

end Wire

end Marshal
