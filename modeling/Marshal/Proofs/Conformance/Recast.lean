import Marshal.Proofs.Conformance.Canonical

/-!
  What a check does to a value.

  A check may move an integer to another integer type, turn it into a double and make a dict
  entry of a pair. All else stays as it is. Where no integer turns into a double, the value
  that comes out is `Recast` from the one that went in (`recast_of_conform`): every number,
  text and truth value of it is still there, in its place.
-/

namespace Marshal

/-! ### Values that hold the same data -/

/-- The second value holds the data of the first, where the types of integers do not count
    and a pair may have become a dict entry. -/
inductive Recast : Value → Value → Prop where
  | bool (b : Bool) : Recast (.bool b) (.bool b)
  | int {m n : Integer} (h : m.val = n.val) : Recast (.int m) (.int n)
  | double (x : Double) : Recast (.double x) (.double x)
  | text (s : String) : Recast (.text s) (.text s)
  | array {vs ws : List Value} (h : List.Forall₂ Recast vs ws) : Recast (.array vs) (.array ws)
  | struct {vs ws : List Value} (h : List.Forall₂ Recast vs ws) : Recast (.struct vs) (.struct ws)
  | dictEntry {key value key' value' : Value} (hkey : Recast key key')
      (hvalue : Recast value value') : Recast (.dictEntry key value) (.dictEntry key' value')
  | pair {key value key' value' : Value} (hkey : Recast key key')
      (hvalue : Recast value value') : Recast (.struct [key, value]) (.dictEntry key' value')

namespace Recast

mutual

theorem refl : ∀ v : Value, Recast v v
  | .bool b => .bool b
  | .int _ => .int rfl
  | .double x => .double x
  | .text s => .text s
  | .array vs => .array (reflAll vs)
  | .struct vs => .struct (reflAll vs)
  | .dictEntry key value => .dictEntry (refl key) (refl value)

theorem reflAll : ∀ vs : List Value, List.Forall₂ Recast vs vs
  | [] => .nil
  | v :: vs => .cons (refl v) (reflAll vs)

end

end Recast

namespace TypeTree

mutual

/-- Whether an integer of a value stands where a type has a double. -/
def integerAtDouble : TypeTree → Value → Bool
  | .scalar c, v =>
      match v with
      | .int _ => decide (c = .double)
      | _ => false
  | .array t, v =>
      match v with
      | .array vs => vs.any t.integerAtDouble
      | _ => false
  | .struct ts, v =>
      match v with
      | .struct vs => fieldsIntegerAtDouble ts vs
      | _ => false
  | .dictEntry k w, v =>
      match v with
      | .dictEntry key value | .struct [key, value] =>
          k.integerAtDouble key || w.integerAtDouble value
      | _ => false

def fieldsIntegerAtDouble : List TypeTree → List Value → Bool
  | t :: ts, v :: vs => t.integerAtDouble v || fieldsIntegerAtDouble ts vs
  | [], _ => false
  | _ :: _, [] => false

end

end TypeTree

/-! ### Checked values -/

section Conform

variable {coercion : Coercion}

theorem recast_of_scalar {c : ScalarType} {v : Value} (h : c.canonical v) : Recast v v := by
  cases v with
  | bool b => exact .bool b
  | int n => exact .int rfl
  | double x => exact .double x
  | text s => exact .text s
  | _ => simp [ScalarType.canonical, Value.scalarType?] at h

theorem recast_of_convertInteger {c : ScalarType} {n : Integer} {w : Value}
    (h : convertInteger c n = .ok w) (hc : c ≠ .double) : Recast (.int n) w := by
  cases c with
  | int c =>
    obtain ⟨m, -, hval, rfl⟩ := convertInteger_int_ok_iff.1 h
    exact .int hval.symm
  | double => exact absurd rfl hc
  | bool => cases h
  | text => cases h

theorem recast_of_conformScalar {c : ScalarType} {v w : Value}
    (h : conformScalar coercion c v = .ok w)
    (hdouble : coercion = .weak → ¬ (TypeTree.scalar c).integerAtDouble v) : Recast v w := by
  unfold conformScalar at h
  split at h
  · obtain ⟨hv, rfl⟩ := checkScalar_ok_iff.1 h
    exact recast_of_scalar hv
  · next hcoercion =>
    have hweak : coercion = .weak := by
      cases coercion with
      | strict => exact absurd (.inl rfl) hcoercion
      | weak => rfl
    cases v with
    | int n =>
      apply recast_of_convertInteger h
      simpa [TypeTree.integerAtDouble] using hdouble hweak
    | _ => cases h

theorem recast_of_elements {t : TypeTree}
    (hone : ∀ {v w}, conform coercion t v = .ok w →
      (coercion = .weak → ¬ t.integerAtDouble v) → Recast v w)
    {vs ws : List Value} (h : List.Forall₂ (fun v w => conform coercion t v = .ok w) vs ws)
    (hdouble : coercion = .weak → ¬ vs.any t.integerAtDouble) : List.Forall₂ Recast vs ws := by
  induction h with
  | nil => exact .nil
  | cons hw _ ih =>
    simp only [List.any_cons, Bool.or_eq_true, not_or] at hdouble
    exact .cons (hone hw fun hweak => (hdouble hweak).1) (ih fun hweak => (hdouble hweak).2)

mutual

/-- A check changes no data as long as no integer turns into a double. -/
theorem recast_of_conform (t : TypeTree) {v w : Value} (h : conform coercion t v = .ok w)
    (hdouble : coercion = .weak → ¬ t.integerAtDouble v) : Recast v w :=
  match t with
  | .scalar c => recast_of_conformScalar h hdouble
  | .array t => by
    obtain ⟨vs, ws, rfl, hws, rfl⟩ := conform_array_ok_iff.1 h
    rw [TypeTree.integerAtDouble] at hdouble
    exact .array (recast_of_elements (fun hw hd => recast_of_conform t hw hd) hws hdouble)
  | .struct ts => by
    obtain ⟨vs, ws, rfl, hlength, hws, rfl⟩ := conform_struct_ok_iff.1 h
    rw [TypeTree.integerAtDouble] at hdouble
    exact .struct (recast_of_conformFields ts hlength hws hdouble)
  | .dictEntry k u => by
    obtain ⟨key, value, key', value', hv, hkey, hvalue, rfl⟩ := conform_dictEntry_ok_iff.1 h
    have hhalves : coercion = .weak → ¬ k.integerAtDouble key ∧ ¬ u.integerAtDouble value := by
      intro hweak
      have := hdouble hweak
      rcases hv with rfl | rfl <;> simpa [TypeTree.integerAtDouble] using this
    have hkey' := recast_of_conform k hkey fun hweak => (hhalves hweak).1
    have hvalue' := recast_of_conform u hvalue fun hweak => (hhalves hweak).2
    rcases hv with rfl | rfl
    · exact .dictEntry hkey' hvalue'
    · exact .pair hkey' hvalue'

theorem recast_of_conformFields (ts : List TypeTree) {index : Nat} {vs ws : List Value}
    (hlength : vs.length = ts.length) (h : conformFields coercion index ts vs = .ok ws)
    (hdouble : coercion = .weak → ¬ TypeTree.fieldsIntegerAtDouble ts vs) :
    List.Forall₂ Recast vs ws :=
  match ts, vs with
  | [], [] => by
    cases h
    exact .nil
  | t :: ts, v :: vs => by
    obtain ⟨w, ws, hw, hws, rfl⟩ := conformFields_cons_ok_iff.1 h
    simp only [TypeTree.fieldsIntegerAtDouble, Bool.or_eq_true, not_or] at hdouble
    have hfirst := recast_of_conform t hw fun hweak => (hdouble hweak).1
    have hrest := recast_of_conformFields ts (Nat.succ.inj hlength) hws fun hweak =>
      (hdouble hweak).2
    exact .cons hfirst hrest

end

end Conform

end Marshal
