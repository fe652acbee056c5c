import Marshal.Proofs.Conformance.Reshaped
import Marshal.Proofs.Datum.Reading

/-!
  Dict entries that were handed over as pairs.

  Program data has no dict entries, so a value that becomes program data and a value again comes
  back with a pair in place of each of its entries (`Datum.toValue_toDatum`). Nothing in it tells
  these pairs from other structs of two fields. A check finds them by the type: it makes an entry
  of every pair that stands for one, also inside the keys and values of other entries, and ends
  in the value in which it would have ended before (`conform_withPairs`).
-/

namespace Marshal

namespace Value

mutual

/-- A value with a pair in place of every dict entry. -/
def withPairs : Value → Value
  | .bool b => .bool b
  | .int n => .int n
  | .double x => .double x
  | .text s => .text s
  | .array vs => .array (allWithPairs vs)
  | .struct vs => .struct (allWithPairs vs)
  | .dictEntry key value => .struct [key.withPairs, value.withPairs]

def allWithPairs : List Value → List Value
  | [] => []
  | v :: vs => v.withPairs :: allWithPairs vs

end

theorem allWithPairs_eq_map (vs : List Value) : allWithPairs vs = vs.map withPairs := by
  induction vs with
  | nil => rfl
  | cons v vs ih => rw [allWithPairs, List.map_cons, ih]

end Value

namespace Datum

mutual

/-- Every value can be handed over as data, and of its form only the dict entries are lost. -/
theorem toValue_toDatum : ∀ v : Value, v.toDatum.toValue = .ok v.withPairs
  | .bool _ | .int _ | .double _ | .text _ => rfl
  | .array vs => toValue_sequence_ok_iff.2 ⟨_, toValues_toData vs, rfl⟩
  | .struct vs => toValue_tuple_ok_iff.2 ⟨_, toValues_toData vs, rfl⟩
  | .dictEntry key value => by
    have hvalue : toValues [value.toDatum] = .ok [value.withPairs] :=
      toValues_cons_ok_iff.2 ⟨_, [], toValue_toDatum value, rfl, rfl⟩
    have hhalves : toValues [key.toDatum, value.toDatum] = .ok [key.withPairs, value.withPairs] :=
      toValues_cons_ok_iff.2 ⟨_, _, toValue_toDatum key, hvalue, rfl⟩
    exact toValue_tuple_ok_iff.2 ⟨_, hhalves, rfl⟩

theorem toValues_toData : ∀ vs : List Value,
    toValues (Value.toData vs) = .ok (Value.allWithPairs vs)
  | [] => rfl
  | v :: vs => toValues_cons_ok_iff.2 ⟨_, _, toValue_toDatum v, toValues_toData vs, rfl⟩

end

end Datum

/-! ### Checks of pairs -/

section Pairs

variable {scalar : ScalarRelation} {coercion : Coercion}

mutual

/-- A pair takes the form of a dict entry where the entry itself would have kept it. -/
theorem Reshaped.withPairs (hscalar : ∀ c v w, scalar c v w → scalar c v.withPairs w)
    (t : TypeTree) {v w : Value} (h : Reshaped scalar t v w) : Reshaped scalar t v.withPairs w :=
  match t with
  | .scalar c => by
    rw [Reshaped] at h ⊢
    exact hscalar c v w h
  | .array t => by
    obtain ⟨vs, ws, rfl, rfl, hparts⟩ := reshaped_array_iff.1 h
    refine reshaped_array_iff.2 ⟨_, ws, rfl, rfl, ?_⟩
    rw [Value.allWithPairs_eq_map, List.forall₂_map_left_iff]
    exact hparts.imp fun _ _ => Reshaped.withPairs hscalar t
  | .struct ts => by
    obtain ⟨vs, ws, rfl, rfl, hfields⟩ := reshaped_struct_iff.1 h
    exact reshaped_struct_iff.2 ⟨_, ws, rfl, rfl, FieldsReshaped.withPairs hscalar ts hfields⟩
  | .dictEntry k u => by
    obtain ⟨x, y, x', y', hv, rfl, hx, hy⟩ := reshaped_dictEntry_iff.1 h
    -- an entry and a pair in its place turn into the same pair
    have hpair : v.withPairs = .struct [x.withPairs, y.withPairs] := by
      rcases hv with rfl | rfl <;> rfl
    have hx' := Reshaped.withPairs hscalar k hx
    have hy' := Reshaped.withPairs hscalar u hy
    exact reshaped_dictEntry_iff.2 ⟨_, _, x', y', .inr hpair, rfl, hx', hy'⟩

theorem FieldsReshaped.withPairs (hscalar : ∀ c v w, scalar c v w → scalar c v.withPairs w)
    (ts : List TypeTree) {vs ws : List Value} (h : FieldsReshaped scalar ts vs ws) :
    FieldsReshaped scalar ts (Value.allWithPairs vs) ws :=
  match ts, vs, ws with
  | [], [], [] => trivial
  | t :: ts, _ :: _, _ :: _ =>
    ⟨Reshaped.withPairs hscalar t h.1, FieldsReshaped.withPairs hscalar ts h.2⟩

end

/-- What passes for a scalar has no dict entries. -/
theorem withPairs_of_conformScalar {c : ScalarType} {v w : Value}
    (h : conformScalar coercion c v = .ok w) : v.withPairs = v := by
  cases v with
  | array | struct | dictEntry =>
    simp [conformScalar, checkScalar, Value.scalarType?, mismatch] at h
  | _ => rfl

/-- A check ends in the same value when the dict entries come as pairs. -/
theorem conform_withPairs (t : TypeTree) {v w : Value} (h : conform coercion t v = .ok w) :
    conform coercion t v.withPairs = .ok w := by
  rw [conform_ok_iff] at h ⊢
  refine h.withPairs ?_ t
  intro c v w hv
  rw [withPairs_of_conformScalar hv]
  exact hv

/-- The converse fails: a dict entry is no struct, but once handed over as data it is one. -/
example :
    (∃ e, conform .strict (.struct [.scalar .text, .scalar .bool])
      (.dictEntry (.text "a") (.bool true)) = .error e) ∧
    conform .strict (.struct [.scalar .text, .scalar .bool])
      (Value.dictEntry (.text "a") (.bool true)).withPairs =
        .ok (.struct [.text "a", .bool true]) :=
  ⟨⟨_, rfl⟩, rfl⟩

end Pairs

end Marshal
