import Marshal.Proofs.Conformance.Reshaped

/-!
  The first place where a value does not fit.

  `Offence` lists what can be wrong with a value at the very place where a type is expected.
  Checking fails exactly when some position of the value has an offence, and the error that it
  reports is the one of the first such position (`conform_error_first`): the path of the error
  leads to the type that was expected and to the value that was found.
-/

namespace Marshal

/-! ### Offences -/

/-- Whether a value is an integer that the coercion allows to turn into a scalar type. -/
def Convertible (coercion : Coercion) (c : ScalarType) (v : Value) : Prop :=
  coercion = .weak ∧ (∃ n, v = .int n) ∧ (c = .double ∨ ∃ i, c = .int i)

/-- What is wrong with a value where a type is expected, whatever its parts are, as the error
    that is raised on the spot. -/
inductive Offence (coercion : Coercion) : TypeTree → Value → Error → Prop where
  | notArray {t : TypeTree} {v : Value} (h : v.elements? = none) :
      Offence coercion (.array t) v (.typeMismatch .root (.array t) (.value v))
  | notStruct {ts : List TypeTree} {v : Value} (h : v.fields? = none) :
      Offence coercion (.struct ts) v (.typeMismatch .root (.struct ts) (.value v))
  | fieldCount {ts : List TypeTree} {vs : List Value} (h : vs.length ≠ ts.length) :
      Offence coercion (.struct ts) (.struct vs) (.arity .root ts.length vs.length)
  | notEntry {k w : TypeTree} {v : Value} (hentry : v.entry? = none) (hfields : v.fields? = none) :
      Offence coercion (.dictEntry k w) v (.typeMismatch .root (.dictEntry k w) (.value v))
  | notPair {k w : TypeTree} {vs : List Value} (h : vs.length ≠ 2) :
      Offence coercion (.dictEntry k w) (.struct vs) (.arity .root 2 vs.length)
  | wrongScalar {c : ScalarType} {v : Value} (htype : v.scalarType? ≠ some c)
      (h : ¬ Convertible coercion c v) :
      Offence coercion (.scalar c) v (.typeMismatch .root (.scalar c) (.value v))
  | interiorNul {s : String} (h : hasNul s) :
      Offence coercion (.scalar .text) (.text s)
        (.typeMismatch .root (.scalar .text) .interiorNul)
  | outOfRange {i : IntType} {n : Integer} (hweak : coercion = .weak) (h : ¬ i.Contains n.val) :
      Offence coercion (.scalar (.int i)) (.int n)
        (.typeMismatch .root (.scalar (.int i)) (.outOfRange (.int n) (.int i)))

def OffenceAt (coercion : Coercion) (t : TypeTree) (v : Value) (p : Path) (e : Error) : Prop :=
  ∃ t' v', walk p.steps t v = some (t', v') ∧ Offence coercion t' v' e

/-! ### What an error says -/

/-- The error seen from the start of a path, at whose end it was raised. -/
def Error.along (steps : List Step) (e : Error) : Error := steps.foldr Error.within e

def Finding.Describes : Finding → Value → Prop
  | .value w, v => w = v
  | .outOfRange w _, v => w = v
  | .interiorNul, v => ∃ s, v = .text s ∧ hasNul s
  | .oversizedText, _ | .oversizedArray, _ => False

def TypeTree.memberCount? : TypeTree → Option Nat
  | .struct ts => some ts.length
  | .dictEntry .. => some 2
  | .scalar _ | .array _ => none

/-- Whether an error names a path, the type that is expected at its end and the value that is
    found there. -/
def Error.Describes (p : Path) (t : TypeTree) (v : Value) (e : Error) : Prop :=
  (∃ found, e = .typeMismatch p t found ∧ found.Describes v) ∨
    ∃ expected vs, t.memberCount? = some expected ∧ v = .struct vs ∧
      e = .arity p expected vs.length

section Offence

variable {coercion : Coercion} {t : TypeTree} {v : Value} {e : Error}

theorem along_typeMismatch (steps : List Step) (expected : TypeTree) (found : Finding) :
    (Error.typeMismatch .root expected found).along steps = .typeMismatch ⟨steps⟩ expected found := by
  induction steps with
  | nil => rfl
  | cons s steps ih =>
    rw [Error.along] at ih ⊢
    rw [List.foldr_cons, ih]
    rfl

theorem along_arity (steps : List Step) (expected found : Nat) :
    (Error.arity .root expected found).along steps = .arity ⟨steps⟩ expected found := by
  induction steps with
  | nil => rfl
  | cons s steps ih =>
    rw [Error.along] at ih ⊢
    rw [List.foldr_cons, ih]
    rfl

/-- The error of an offence names the path that led to it, the type there and the value there. -/
theorem describes_of_offence (h : Offence coercion t v e) (steps : List Step) :
    (e.along steps).Describes ⟨steps⟩ t v := by
  cases h with
  | fieldCount _ => exact .inr ⟨_, _, rfl, rfl, along_arity ..⟩
  | notPair _ => exact .inr ⟨_, _, rfl, rfl, along_arity ..⟩
  | interiorNul h => exact .inl ⟨_, along_typeMismatch .., _, rfl, h⟩
  | _ => exact .inl ⟨_, along_typeMismatch .., rfl⟩

/-! ### Scalars -/

theorem offence_of_checkScalar {c : ScalarType}
    (hexact : coercion = .strict ∨ v.scalarType? = some c) (h : checkScalar c v = .error e) :
    Offence coercion (.scalar c) v e := by
  unfold checkScalar at h
  split at h
  · next htype =>
    split at h
    · next s =>
      split at h
      · next hnul =>
        cases h
        cases htype
        exact .interiorNul hnul
      · cases h
    · cases h
  · next htype =>
    cases h
    apply Offence.wrongScalar htype
    intro hconvertible
    rcases hexact with rfl | hsame
    · cases hconvertible.1
    · exact htype hsame

theorem offence_of_convertInteger {c : ScalarType} {n : Integer}
    (htype : (Value.int n).scalarType? ≠ some c) (h : convertInteger c n = .error e) :
    Offence .weak (.scalar c) (.int n) e := by
  unfold convertInteger at h
  split at h
  · split at h
    · cases h
    · next i hnone =>
      cases h
      apply Offence.outOfRange rfl
      intro hcontains
      simp [Integer.ofInt?, hcontains] at hnone
  · cases h
  · cases h
    exact .wrongScalar htype (by simp [Convertible])
  · cases h
    exact .wrongScalar htype (by simp [Convertible])

theorem offence_of_conformScalar {c : ScalarType} (h : conformScalar coercion c v = .error e) :
    Offence coercion (.scalar c) v e := by
  unfold conformScalar at h
  split at h
  · next hexact => exact offence_of_checkScalar hexact h
  · next hother =>
    rcases not_or.1 hother with ⟨hstrict, htype⟩
    cases coercion with
    | strict => exact absurd rfl hstrict
    | weak =>
      split at h
      · exact offence_of_convertInteger htype h
      · next hint =>
        cases h
        apply Offence.wrongScalar htype
        intro hconvertible
        rcases hconvertible.2.1 with ⟨n, rfl⟩
        exact hint n rfl

theorem conformScalar_of_offence {c : ScalarType} (h : Offence coercion (.scalar c) v e) :
    conformScalar coercion c v = .error e := by
  cases h with
  | wrongScalar htype h =>
    cases coercion with
    | strict => simp [conformScalar, checkScalar, htype, mismatch]
    | weak =>
      cases v with
      | int n => cases c <;> simp_all [conformScalar, Convertible, convertInteger, mismatch]
      | _ => simp [conformScalar, htype, mismatch]
  | interiorNul h => simp [conformScalar, checkScalar, Value.scalarType?, h, mismatch]
  | @outOfRange i n hweak h =>
    have htype : n.type ≠ i := by
      rintro rfl
      exact h n.contains_val
    simp [conformScalar, hweak, Value.scalarType?, htype, convertInteger, Integer.ofInt?, h,
      mismatch]

/-! ### Containers -/

theorem offence_array_iff :
    Offence coercion (.array t) v e ↔ arrayElements (.array t) v = .error e := by
  constructor
  · intro h
    cases h with
    | notArray h =>
      cases v with
      | array vs => cases h
      | _ => rfl
  · intro h
    cases v with
    | array vs => cases h
    | _ => cases h; exact .notArray rfl

theorem offence_struct_iff {ts : List TypeTree} :
    Offence coercion (.struct ts) v e ↔ structFields ts v = .error e := by
  constructor
  · intro h
    cases h with
    | notStruct h =>
      cases v with
      | struct vs => cases h
      | _ => rfl
    | fieldCount h => exact if_neg h
  · intro h
    cases v with
    | struct vs =>
      rw [structFields] at h
      split at h
      · cases h
      · next hcount => cases h; exact .fieldCount hcount
    | _ => cases h; exact .notStruct rfl

theorem offence_dictEntry_iff {k w : TypeTree} :
    Offence coercion (.dictEntry k w) v e ↔ entryOrPair (.dictEntry k w) v = .error e := by
  constructor
  · intro h
    cases h with
    | notEntry hentry hfields =>
      cases v with
      | dictEntry x y => cases hentry
      | struct vs => cases hfields
      | _ => rfl
    | @notPair _ _ vs h =>
      unfold entryOrPair
      split <;> simp_all
  · intro h
    unfold entryOrPair at h
    split at h
    · cases h
    · next vs hpair =>
      cases h
      apply Offence.notPair
      intro hlength
      rcases List.length_eq_two.1 hlength with ⟨x, y, rfl⟩
      exact hpair x y rfl
    · next hpair hstruct =>
      cases v with
      | dictEntry x y => cases h
      | struct vs => exact absurd rfl (hstruct vs)
      | _ => cases h; exact .notEntry rfl rfl

/-- A container that is wrong itself is refused before any of its parts is looked at. -/
theorem conform_of_offence (h : Offence coercion t v e) : conform coercion t v = .error e := by
  cases t with
  | scalar c => exact conformScalar_of_offence h
  | array t => rw [conform, offence_array_iff.1 h]; rfl
  | struct ts => rw [conform, offence_struct_iff.1 h]; rfl
  | dictEntry k w => rw [conform, offence_dictEntry_iff.1 h]; rfl

/-! ### The first part that fails -/

/-- Whether a check of the members of a row fails at one of them, after it has passed those
    before it. The members are numbered from `index` on. -/
def Breaks {α β : Type} (check : α → Except Error β) (step : Nat → Step) (index : Nat)
    (row : List α) (e : Error) : Prop :=
  ∃ i a e', row[i]? = some a ∧ check a = .error e' ∧ e = e'.within (step (index + i)) ∧
    ∀ j < i, ∀ b, row[j]? = some b → ∃ c, check b = .ok c

section Breaks

variable {α β : Type} {check : α → Except Error β} {step : Nat → Step} {index : Nat} {a : α}
  {row : List α}

theorem Breaks.head (h : check a = .error e) :
    Breaks check step index (a :: row) (e.within (step index)) :=
  ⟨0, a, e, rfl, h, rfl, nofun⟩

theorem Breaks.tail {b : β} (ha : check a = .ok b) (h : Breaks check step (index + 1) row e) :
    Breaks check step index (a :: row) e := by
  rcases h with ⟨i, c, e', hc, herror, rfl, hbefore⟩
  refine ⟨i + 1, c, e', hc, herror, by rw [Nat.add_right_comm, Nat.add_assoc], ?_⟩
  intro j hj d hd
  cases j with
  | zero => cases hd; exact ⟨b, ha⟩
  | succ j => exact hbefore j (Nat.lt_of_succ_lt_succ hj) d hd

end Breaks

/-- An error of a row of elements comes from the first element that fails. -/
theorem breaks_of_eachElement {α : Type} {check : Value → Except Error α} {index : Nat}
    {vs : List Value} (h : eachElement check index vs = .error e) :
    Breaks check .element index vs e := by
  induction vs generalizing index with
  | nil => cases h
  | cons v vs ih =>
    rw [eachElement, bind_error_iff] at h
    rcases h with h | ⟨a, ha, h⟩
    · rcases inside_error_iff.1 h with ⟨e', he, rfl⟩
      exact .head he
    · rcases bind_error_iff.1 h with h | ⟨_, _, h⟩
      · exact .tail (inside_ok_iff.1 ha) (ih h)
      · cases h

theorem breaks_of_conformFields {index : Nat} {ts : List TypeTree} {vs : List Value}
    (h : conformFields coercion index ts vs = .error e) :
    Breaks (fun part : TypeTree × Value => conform coercion part.1 part.2) .field index
      (ts.zip vs) e := by
  induction ts generalizing index vs with
  | nil => cases vs <;> cases h
  | cons t ts ih =>
    cases vs with
    | nil => cases h
    | cons v vs =>
      rw [conformFields, bind_error_iff] at h
      rw [List.zip_cons_cons]
      rcases h with h | ⟨w, hw, h⟩
      · rcases inside_error_iff.1 h with ⟨e', he, rfl⟩
        exact .head he
      · rcases bind_error_iff.1 h with h | ⟨_, _, h⟩
        · exact .tail (inside_ok_iff.1 hw) (ih h)
        · cases h

/-- Whether a container has no offence itself and all its parts before one of them pass. -/
def PassesBefore (coercion : Coercion) (t : TypeTree) (v : Value) (s : Step) : Prop :=
  (∀ e, ¬ Offence coercion t v e) ∧
    ∀ (s' : Step) (part : TypeTree × Value), s'.part? t v = some part → s'.rank < s.rank →
      ∃ u, conform coercion part.1 part.2 = .ok u

/-- Whether a check fails at a part of a container and passes all that comes before it. -/
def FailsInside (coercion : Coercion) (t : TypeTree) (v : Value) (e : Error) : Prop :=
  ∃ (s : Step) (part : TypeTree × Value) (e' : Error), s.part? t v = some part ∧
    conform coercion part.1 part.2 = .error e' ∧ e = e'.within s ∧ PassesBefore coercion t v s

theorem failsInside_array {vs : List Value}
    (h : eachElement (conform coercion t) 0 vs = .error e) :
    FailsInside coercion (.array t) (.array vs) e := by
  rcases breaks_of_eachElement h with ⟨i, u, e', hu, herror, rfl, hbefore⟩
  rw [Nat.zero_add]
  have hpart : (Step.element i).part? (.array t) (.array vs) = some (t, u) := by
    rw [Step.part?, hu]
    rfl
  refine ⟨.element i, (t, u), e', hpart, herror, rfl, ?_, ?_⟩
  · intro e'' h''
    cases offence_array_iff.1 h''
  · intro s' part' hpart hrank
    rcases part_array hpart with ⟨j, _, rfl, hvs, htype, hvalue⟩
    cases hvs
    rw [htype]
    exact hbefore j hrank _ hvalue

theorem failsInside_struct {ts : List TypeTree} {vs : List Value}
    (hlength : vs.length = ts.length) (h : conformFields coercion 0 ts vs = .error e) :
    FailsInside coercion (.struct ts) (.struct vs) e := by
  rcases breaks_of_conformFields h with ⟨i, part, e', hpart, herror, rfl, hbefore⟩
  rw [Nat.zero_add]
  refine ⟨.field i, part, e', hpart, herror, rfl, ?_, ?_⟩
  · intro e'' h''
    have hfields := offence_struct_iff.1 h''
    rw [structFields_ok_iff.2 ⟨rfl, hlength⟩] at hfields
    cases hfields
  · intro s' part' hpart' hrank
    rcases part_struct hpart' with ⟨j, _, rfl, hvs, hvalue⟩
    cases hvs
    exact hbefore j hrank _ hvalue

theorem failsInside_dictEntry {k w : TypeTree} {x y : Value}
    (hv : v = .dictEntry x y ∨ v = .struct [x, y])
    (h : (∃ e', conform coercion k x = .error e' ∧ e = e'.within .key) ∨
      (∃ x', conform coercion k x = .ok x') ∧
        ∃ e', conform coercion w y = .error e' ∧ e = e'.within .value) :
    FailsInside coercion (.dictEntry k w) v e := by
  have hhalves : entryOrPair (.dictEntry k w) v = .ok (x, y) := entryOrPair_ok_iff.2 hv
  have hnone : ∀ e'', ¬ Offence coercion (.dictEntry k w) v e'' := by
    intro e'' h''
    rw [offence_dictEntry_iff, hhalves] at h''
    cases h''
  rcases h with ⟨e', herror, rfl⟩ | ⟨⟨x', hkey⟩, e', herror, rfl⟩
  · have hpart : Step.key.part? (.dictEntry k w) v = some (k, x) := by
      rcases hv with rfl | rfl <;> rfl
    exact ⟨.key, (k, x), e', hpart, herror, rfl, hnone, fun _ _ _ => nofun⟩
  · have hpart : Step.value.part? (.dictEntry k w) v = some (w, y) := by
      rcases hv with rfl | rfl <;> rfl
    refine ⟨.value, (w, y), e', hpart, herror, rfl, hnone, ?_⟩
    intro s' part' hpart' hrank
    rcases part_dictEntry hpart' with ⟨a, b, hv', ⟨rfl, rfl⟩ | ⟨rfl, -⟩⟩
    · have hsame : a = x := by
        rcases hv with rfl | rfl <;> rcases hv' with hv' | hv' <;> simp_all
      rw [hsame]
      exact ⟨x', hkey⟩
    · exact absurd hrank (Nat.lt_irrefl 1)

/-- What fails is the container itself or the first part that does not pass. -/
theorem offence_or_failsInside (h : conform coercion t v = .error e) :
    Offence coercion t v e ∨ FailsInside coercion t v e := by
  cases t with
  | scalar c => exact .inl (offence_of_conformScalar h)
  | array t =>
    rw [conform, bind_error_iff] at h
    rcases h with h | ⟨vs, hvs, h⟩
    · exact .inl (offence_array_iff.2 h)
    · rcases arrayElements_ok_iff.1 hvs with rfl
      rcases bind_error_iff.1 h with h | ⟨_, _, h⟩
      · exact .inr (failsInside_array h)
      · cases h
  | struct ts =>
    rw [conform, bind_error_iff] at h
    rcases h with h | ⟨vs, hvs, h⟩
    · exact .inl (offence_struct_iff.2 h)
    · rcases structFields_ok_iff.1 hvs with ⟨rfl, hlength⟩
      rcases bind_error_iff.1 h with h | ⟨_, _, h⟩
      · exact .inr (failsInside_struct hlength h)
      · cases h
  | dictEntry k w =>
    rw [conform, bind_error_iff] at h
    rcases h with h | ⟨⟨x, y⟩, hhalves, h⟩
    · exact .inl (offence_dictEntry_iff.2 h)
    · have hv := entryOrPair_ok_iff.1 hhalves
      right
      apply failsInside_dictEntry hv
      rcases bind_error_iff.1 h with h | ⟨x', hx, h⟩
      · exact .inl (inside_error_iff.1 h)
      · rcases bind_error_iff.1 h with h | ⟨_, _, h⟩
        · exact .inr ⟨⟨x', inside_ok_iff.1 hx⟩, inside_error_iff.1 h⟩
        · cases h

/-! ### The first offence of a whole value -/

theorem not_offence_of_ok {w : Value} {p : Path} (h : conform coercion t v = .ok w) :
    ¬ OffenceAt coercion t v p e := by
  intro hoffence
  rcases hoffence with ⟨t', v', hwalk, hoffence⟩
  rcases conform_walk_ok h hwalk with ⟨u, hu⟩
  rw [conform_of_offence hoffence] at hu
  cases hu

/-- Whether an offence is the first one of a value, and how its error reads from the root. -/
def FirstOffence (coercion : Coercion) (t : TypeTree) (v : Value) (p : Path) (e : Error) : Prop :=
  (∃ e', OffenceAt coercion t v p e' ∧ e = e'.along p.steps) ∧
    ∀ q e', OffenceAt coercion t v q e' → q = p ∨ p.Before q

theorem firstOffence_root (h : Offence coercion t v e) : FirstOffence coercion t v .root e := by
  refine ⟨⟨e, ⟨t, v, rfl, h⟩, rfl⟩, ?_⟩
  intro q e' _
  rcases q with ⟨_ | ⟨s, steps⟩⟩
  · exact .inl rfl
  · exact .inr .nil

/-- The first offence of the first part that fails is the first one of the container. -/
theorem firstOffence_within {s : Step} {part : TypeTree × Value} {p : Path}
    (hpart : s.part? t v = some part) (hpasses : PassesBefore coercion t v s)
    (h : FirstOffence coercion part.1 part.2 p e) :
    FirstOffence coercion t v (p.within s) (e.within s) := by
  rcases h with ⟨⟨e', ⟨t', v', hwalk, hoffence⟩, rfl⟩, hfirst⟩
  refine ⟨⟨e', ⟨t', v', walk_cons_eq_some_iff.2 ⟨part, hpart, hwalk⟩, hoffence⟩, rfl⟩, ?_⟩
  intro q e'' hq
  rcases q with ⟨_ | ⟨s', steps⟩⟩
  · rcases hq with ⟨_, _, hroot, hoffence'⟩
    cases hroot
    exact absurd hoffence' (hpasses.1 e'')
  · rcases hq with ⟨t'', v'', hwalk', hoffence'⟩
    rcases walk_cons_eq_some_iff.1 hwalk' with ⟨part', hpart', hrest⟩
    have hat : OffenceAt coercion part'.1 part'.2 ⟨steps⟩ e'' := ⟨t'', v'', hrest, hoffence'⟩
    rcases Nat.lt_trichotomy s'.rank s.rank with hless | hsame | hmore
    · rcases hpasses.2 s' part' hpart' hless with ⟨u, hu⟩
      exact absurd hat (not_offence_of_ok hu)
    · cases eq_of_rank_eq hpart' hpart hsame
      rw [hpart] at hpart'
      cases hpart'
      rcases hfirst ⟨steps⟩ e'' hat with heq | hlater
      · cases heq
        exact .inl rfl
      · exact .inr (.cons hlater)
    · exact .inr (.rel hmore)

/-- Every error is the error of a first offence. The induction is on the depth of the type, since a
step leads to a part that is less deep. -/
theorem exists_firstOffence (t : TypeTree) {v : Value} {e : Error}
    (h : conform coercion t v = .error e) : ∃ p, FirstOffence coercion t v p e := by
  rcases offence_or_failsInside h with h | ⟨s, part, e', hpart, herror, rfl, hpasses⟩
  · exact ⟨.root, firstOffence_root h⟩
  · have := depth_lt_of_part hpart
    rcases exists_firstOffence part.1 herror with ⟨p, hp⟩
    exact ⟨p.within s, firstOffence_within hpart hpasses hp⟩
termination_by t.depth

end Offence

/-- Checking fails exactly when the value has an offence at some position, and then the error is
    that of the first one: its path leads to the type it names and to the value it describes. -/
theorem conform_error_first (coercion : Coercion) (t : TypeTree) (v : Value) :
    ((∃ e, conform coercion t v = .error e) ↔ ∃ p e, OffenceAt coercion t v p e) ∧
    ∀ e, conform coercion t v = .error e →
      ∃ p t' v', walk p.steps t v = some (t', v') ∧ FirstOffence coercion t v p e ∧
        e.Describes p t' v' := by
  refine ⟨⟨?_, ?_⟩, ?_⟩
  · intro h
    rcases h with ⟨e, h⟩
    rcases exists_firstOffence t h with ⟨p, ⟨e', hoffence, -⟩, -⟩
    exact ⟨p, e', hoffence⟩
  · intro h
    rcases h with ⟨p, e, hoffence⟩
    cases hresult : conform coercion t v with
    | error e' => exact ⟨e', rfl⟩
    | ok w => exact absurd hoffence (not_offence_of_ok hresult)
  · intro e h
    rcases exists_firstOffence t h with ⟨p, hp⟩
    rcases hp.1 with ⟨e', ⟨t', v', hwalk, hoffence⟩, rfl⟩
    exact ⟨p, t', v', hwalk, hp, describes_of_offence hoffence p.steps⟩

end Marshal
