import Marshal.Proofs.Conformance.Canonical
import Marshal.Proofs.Conformance.FirstOffence
import Marshal.Proofs.Number.Nearest

/-!
  What weak coercion changes.

  Under weak coercion an integer may become an integer of another type, which is the same
  number, or a double, which is the one nearest to it; nothing else is converted (`Coerced`).
  So a value keeps its shape and its numbers, and only a number that does not fit is refused
  (`conform_weak_coerced`). Strict coercion accepts the values in which no integer has to be
  converted, with the same result (`conform_strict_iff_weak`).
-/

namespace Marshal

/-! ### Scalars -/

/-- What weak coercion makes of a scalar: one of the type that is asked for stays as it is, an
    integer is moved to another integer type or rounded to a double. -/
inductive Coerced : ScalarRelation where
  | same {c : ScalarType} {v : Value} (h : c.canonical v) : Coerced c v v
  | integer {i : IntType} {m n : Integer} (hother : m.type ≠ i) (htype : n.type = i)
      (hval : n.val = m.val) : Coerced (.int i) (.int m) (.int n)
  | rounded {n : Integer} {x : Double} (h : x.IsNearest n.val) :
      Coerced .double (.int n) (.double x)

section Scalars

variable {c : ScalarType} {v w : Value}

/-- A conversion that succeeds keeps the integer, or rounds it to the nearest double. -/
theorem coerced_of_convertInteger {n : Integer} (hother : (Value.int n).scalarType? ≠ some c)
    (h : convertInteger c n = .ok w) : Coerced c (.int n) w := by
  cases c with
  | int i =>
    obtain ⟨m, htype, hval, rfl⟩ := convertInteger_int_ok_iff.1 h
    apply Coerced.integer _ htype hval
    rintro rfl
    exact hother rfl
  | double =>
    cases h
    exact .rounded (Double.isNearest_ofInt n.natAbs_val_lt)
  | bool => cases h
  | text => cases h

/-- Under weak coercion a scalar is accepted where it can be coerced, and as what it is then. -/
theorem conformScalar_weak_ok_iff : conformScalar .weak c v = .ok w ↔ Coerced c v w := by
  constructor
  · intro h
    unfold conformScalar at h
    split at h
    · obtain ⟨hv, rfl⟩ := checkScalar_ok_iff.1 h
      exact .same hv
    · next hother =>
      cases v with
      | int n => exact coerced_of_convertInteger (not_or.1 hother).2 h
      | _ => cases h
  · intro h
    cases h with
    | same hv => exact conformScalar_of_canonical .weak hv
    | @integer i m n hother htype hval =>
      have hconvert : ¬ (Coercion.weak = .strict ∨ (Value.int m).scalarType? = some (.int i)) := by
        rintro (hstrict | hsame)
        · cases hstrict
        · exact hother (ScalarType.int.inj (Option.some.inj hsame))
      rw [conformScalar.eq_def, if_neg hconvert]
      exact convertInteger_int_ok_iff.2 ⟨n, htype, hval, rfl⟩
    | rounded hnearest =>
      rw [eq_ofInt_of_isNearest hnearest]
      rfl

/-- Strict coercion lets through what is in form already, and changes nothing. -/
theorem conformScalar_strict_ok_iff :
    conformScalar .strict c v = .ok w ↔ c.canonical v ∧ w = v := by
  rw [conformScalar_strict, checkScalar_ok_iff]

/-- What fits a scalar type exactly needs no coercion. -/
theorem conformScalar_weak_of_strict (h : conformScalar .strict c v = .ok w) :
    conformScalar .weak c v = .ok w := by
  obtain ⟨hv, rfl⟩ := conformScalar_strict_ok_iff.1 h
  exact conformScalar_of_canonical .weak hv

/-- An integer is refused where an integer is expected exactly if it is out of range. -/
theorem conformScalar_int_error_iff {i : IntType} {n : Integer} :
    (∃ e, conformScalar .weak (.int i) (.int n) = .error e) ↔ ¬ i.Contains n.val := by
  constructor
  · intro h hcontains
    obtain ⟨e, he⟩ := h
    cases offence_of_conformScalar he with
    | wrongScalar _ hnot => exact hnot ⟨rfl, ⟨n, rfl⟩, .inr ⟨i, rfl⟩⟩
    | outOfRange _ hout => exact hout hcontains
  · intro hout
    exact ⟨_, conformScalar_of_offence (.outOfRange rfl hout)⟩

/-- Only integers are converted. -/
theorem conformScalar_error_of_ne_int (hint : ∀ n, v ≠ .int n) (hother : v.scalarType? ≠ some c) :
    ∃ e, conformScalar .weak c v = .error e := by
  refine ⟨_, conformScalar_of_offence (.wrongScalar hother ?_)⟩
  intro hconvertible
  obtain ⟨-, ⟨n, rfl⟩, -⟩ := hconvertible
  exact hint n rfl

end Scalars

/-! ### Whole values -/

theorem conform_weak_ok_iff {t : TypeTree} {v w : Value} :
    conform .weak t v = .ok w ↔ Reshaped Coerced t v w := by
  rw [conform_ok_iff]
  constructor
  · exact Reshaped.mono (fun _ _ _ => conformScalar_weak_ok_iff.1) t
  · exact Reshaped.mono (fun _ _ _ => conformScalar_weak_ok_iff.2) t

/-- Weak coercion keeps the shape of a value and every number in it, up to the rounding of an
    integer to a double, which changes none of at most fifty-three bits. Where an integer is
    expected it refuses exactly those out of range, where a double is expected none, and no
    other scalar is converted. What is refused somewhere is refused as a whole. -/
theorem conform_weak_coerced (t : TypeTree) (v : Value) :
    (∀ w, conform .weak t v = .ok w ↔ Reshaped Coerced t v w) ∧
    (∀ i n, (∃ e, conform .weak (.scalar (.int i)) (.int n) = .error e) ↔ ¬ i.Contains n.val) ∧
    (∀ n, ∃ x, conform .weak (.scalar .double) (.int n) = .ok (.double x) ∧
      x.IsNearest n.val ∧ (n.val.natAbs ≤ 2 ^ 53 → x.value = n.val)) ∧
    (∀ c x, (∀ n, x ≠ .int n) → x.scalarType? ≠ some c →
      ∃ e, conform .weak (.scalar c) x = .error e) ∧
    ∀ steps u x, walk steps t v = some (u, x) →
      (∃ e, conform .weak u x = .error e) → ∃ e, conform .weak t v = .error e := by
  simp only [conform]
  refine ⟨fun _ => conform_weak_ok_iff, fun _ _ => conformScalar_int_error_iff, ?_,
    fun _ _ => conformScalar_error_of_ne_int, ?_⟩
  · intro n
    have hnearest := Double.isNearest_ofInt n.natAbs_val_lt
    exact ⟨.ofInt n.val, rfl, hnearest, hnearest.value_eq⟩
  · intro steps u x hwalk hrefused
    obtain ⟨e, he⟩ := hrefused
    cases hresult : conform .weak t v with
    | error e' => exact ⟨e', rfl⟩
    | ok w =>
      obtain ⟨w', hw'⟩ := conform_walk_ok hresult hwalk
      rw [he] at hw'
      cases hw'

/-- A pair becomes a dict entry of a byte and a double. The first whole number that no double
    holds lies halfway between two of them, and the even one is the lower; a key that is no byte
    is refused with all that is around it. -/
theorem conform_weak_coerced_pair :
    Reshaped Coerced (.array (.dictEntry (.scalar (.int .byte)) (.scalar .double)))
      (.array [.struct [.ofWord .int32 0xff, .ofWord .int64 0x20000000000001]])
      (.array [.dictEntry (.ofWord .byte 0xff) (.double (.ofInt 0x20000000000000))]) ∧
    ∃ e, conform .weak (.array (.dictEntry (.scalar (.int .byte)) (.scalar .double)))
      (.array [.struct [.ofWord .int32 0x100, .ofWord .int64 0x20000000000001]]) = .error e := by
  constructor
  · obtain ⟨haccepted, -⟩ := conform_weak_coerced
      (.array (.dictEntry (.scalar (.int .byte)) (.scalar .double)))
      (.array [.struct [.ofWord .int32 0xff, .ofWord .int64 0x20000000000001]])
    exact (haccepted _).1 rfl
  · obtain ⟨-, hrange, -, -, hwhole⟩ := conform_weak_coerced
      (.array (.dictEntry (.scalar (.int .byte)) (.scalar .double)))
      (.array [.struct [.ofWord .int32 0x100, .ofWord .int64 0x20000000000001]])
    have hkey : ¬ IntType.byte.Contains (Integer.ofWord .int32 0x100).val := by decide
    exact hwhole [.element 0, .key] _ _ rfl ((hrange _ _).2 hkey)

/-! ### Strict and weak coercion -/

section Modes

variable {t : TypeTree} {v w : Value} {e : Error}

theorem conform_weak_of_strict (h : conform .strict t v = .ok w) : conform .weak t v = .ok w := by
  rw [conform_ok_iff] at h ⊢
  exact h.mono (fun _ _ _ => conformScalar_weak_of_strict) t

/-- What is wrong under strict coercion alone is an integer of another type. -/
theorem offence_weak_or_integer (h : Offence .strict t v e) :
    (∃ e', Offence .weak t v e') ∨
      ∃ c n, t = .scalar c ∧ v = .int n ∧ ScalarType.int n.type ≠ c := by
  cases h with
  | notArray h => exact .inl ⟨_, .notArray h⟩
  | notStruct h => exact .inl ⟨_, .notStruct h⟩
  | fieldCount h => exact .inl ⟨_, .fieldCount h⟩
  | notEntry hentry hfields => exact .inl ⟨_, .notEntry hentry hfields⟩
  | notPair h => exact .inl ⟨_, .notPair h⟩
  | interiorNul h => exact .inl ⟨_, .interiorNul h⟩
  | outOfRange hweak _ => cases hweak
  | @wrongScalar c _ htype h =>
    by_cases hconvertible : Convertible .weak c v
    · obtain ⟨-, ⟨n, rfl⟩, -⟩ := hconvertible
      exact .inr ⟨c, n, rfl, rfl, fun hsame => htype (congrArg some hsame)⟩
    · exact .inl ⟨_, .wrongScalar htype hconvertible⟩

/-- Where weak coercion accepts a value and strict coercion does not, an integer is converted. -/
theorem exists_converted (hweak : conform .weak t v = .ok w)
    (hstrict : conform .strict t v = .error e) :
    ∃ steps c n, walk steps t v = some (.scalar c, .int n) ∧ ScalarType.int n.type ≠ c := by
  obtain ⟨p, ⟨e', ⟨t', v', hwalk, hoffence⟩, -⟩, -⟩ := exists_firstOffence t hstrict
  rcases offence_weak_or_integer hoffence with ⟨e'', hboth⟩ | ⟨c, n, rfl, rfl, hother⟩
  · exact absurd ⟨t', v', hwalk, hboth⟩ (not_offence_of_ok hweak)
  · exact ⟨p.steps, c, n, hwalk, hother⟩

/-- An integer that is converted does not keep its type. -/
theorem Coerced.eq_or_converted {c : ScalarType} (h : Coerced c v w) :
    w = v ∨ ∃ n, v = .int n ∧ ScalarType.int n.type ≠ c := by
  cases h with
  | same _ => exact .inl rfl
  | @integer _ m _ hother _ _ => exact .inr ⟨m, rfl, fun hsame => hother (ScalarType.int.inj hsame)⟩
  | @rounded n _ _ => exact .inr ⟨n, rfl, nofun⟩

end Modes

/-- Strict coercion accepts what weak coercion accepts without a change of any scalar's type, and
    ends in the same value. Weak coercion changes nothing but integers of another type, and
    whatever it accepts beyond strict coercion has such an integer. -/
theorem conform_strict_iff_weak (t : TypeTree) (v w : Value) :
    (conform .strict t v = .ok w ↔
      conform .weak t v = .ok w ∧
        ∀ steps c y, walk steps t w = some (.scalar c, y) →
          ∃ x, walk steps t v = some (.scalar c, x) ∧ y.scalarType? = x.scalarType?) ∧
    (conform .weak t v = .ok w → ∀ steps c y, walk steps t w = some (.scalar c, y) →
      ∃ x, walk steps t v = some (.scalar c, x) ∧
        (y = x ∨ ∃ n, x = .int n ∧ ScalarType.int n.type ≠ c)) ∧
    (∀ e, conform .weak t v = .ok w → conform .strict t v = .error e →
      ∃ steps c n, walk steps t v = some (.scalar c, .int n) ∧ ScalarType.int n.type ≠ c) := by
  refine ⟨⟨?_, ?_⟩, ?_, fun _ => exists_converted⟩
  · intro hstrict
    refine ⟨conform_weak_of_strict hstrict, ?_⟩
    intro steps c y hy
    obtain ⟨x, hx, hscalar⟩ := ((conform_ok_iff t).1 hstrict).exists_before hy
    rw [Reshaped] at hscalar
    obtain ⟨-, rfl⟩ := conformScalar_strict_ok_iff.1 hscalar
    exact ⟨y, hx, rfl⟩
  · intro h
    obtain ⟨hweak, hsame⟩ := h
    cases hstrict : conform .strict t v with
    | ok u => rw [← hweak, conform_weak_of_strict hstrict]
    | error e =>
      exfalso
      obtain ⟨steps, c, n, hx, hother⟩ := exists_converted hweak hstrict
      obtain ⟨y, hy, hscalar⟩ := ((conform_ok_iff t).1 hweak).exists_after hx
      rw [Reshaped] at hscalar
      have hform := canonical_of_conformScalar hscalar
      obtain ⟨x, hx', htype⟩ := hsame steps c y hy
      rw [hx] at hx'
      cases hx'
      simp only [ScalarType.canonical, Bool.and_eq_true, decide_eq_true_eq] at hform
      rw [hform.1] at htype
      exact hother (Option.some.inj htype).symm
  · intro hweak steps c y hy
    obtain ⟨x, hx, hscalar⟩ := (conform_weak_ok_iff.1 hweak).exists_before hy
    rw [Reshaped] at hscalar
    exact ⟨x, hx, hscalar.eq_or_converted⟩

/-- A byte in a dict entry, where a double is expected. -/
theorem conform_strict_iff_weak_entry :
    conform .weak (.dictEntry (.scalar .text) (.scalar .double))
      (.struct [.text "a", .ofWord .byte 1]) = .ok (.dictEntry (.text "a") (.double (.ofInt 1))) ∧
    ¬ conform .strict (.dictEntry (.scalar .text) (.scalar .double))
      (.struct [.text "a", .ofWord .byte 1]) = .ok (.dictEntry (.text "a") (.double (.ofInt 1))) ∧
    ∃ steps c n, walk steps (.dictEntry (.scalar .text) (.scalar .double))
      (.struct [.text "a", .ofWord .byte 1]) = some (.scalar c, .int n) ∧
        ScalarType.int n.type ≠ c := by
  obtain ⟨hiff, -, hconverted⟩ := conform_strict_iff_weak
    (.dictEntry (.scalar .text) (.scalar .double)) (.struct [.text "a", .ofWord .byte 1])
    (.dictEntry (.text "a") (.double (.ofInt 1)))
  refine ⟨rfl, ?_, hconverted _ rfl rfl⟩
  intro hstrict
  obtain ⟨x, hx, htype⟩ := (hiff.1 hstrict).2 [.value] .double _ rfl
  cases hx
  cases htype

end Marshal
