import Marshal.Proofs.Conformance.Positions

/-!
  Values brought into the form of a type.

  A check walks through type and value, keeps every container with its parts and makes a dict
  entry of a pair where one is expected. All that depends on the coercion happens at the
  scalars. `Reshaped` is this relation between the value that goes in and the one that comes
  out, with the treatment of scalars left open, and `conform_ok_iff` says that a check does
  nothing else. What holds of two checks, or of a check and another view of its values, is then
  proved for scalars and carried through all containers by one lemma on `Reshaped`.
-/

namespace Marshal

/-- How a scalar type relates what goes into a check to what comes out of it. -/
abbrev ScalarRelation := ScalarType → Value → Value → Prop

mutual

/-- Whether the second value is the first one in the form that a type prescribes: its containers
    have the same parts in the same order, a pair may have become a dict entry, and scalars are
    related by `scalar`. -/
def Reshaped (scalar : ScalarRelation) : TypeTree → Value → Value → Prop
  | .scalar c, v, w => scalar c v w
  | .array t, .array vs, .array ws => List.Forall₂ (Reshaped scalar t) vs ws
  | .struct ts, .struct vs, .struct ws => FieldsReshaped scalar ts vs ws
  | .dictEntry k u, .dictEntry x y, .dictEntry x' y' =>
      Reshaped scalar k x x' ∧ Reshaped scalar u y y'
  | .dictEntry k u, .struct [x, y], .dictEntry x' y' =>
      Reshaped scalar k x x' ∧ Reshaped scalar u y y'
  | _, _, _ => False

def FieldsReshaped (scalar : ScalarRelation) :
    List TypeTree → List Value → List Value → Prop
  | [], [], [] => True
  | t :: ts, v :: vs, w :: ws => Reshaped scalar t v w ∧ FieldsReshaped scalar ts vs ws
  | _, _, _ => False

end

section Reshaped

variable {scalar scalar' : ScalarRelation} {v w : Value}

theorem reshaped_array_iff {t : TypeTree} :
    Reshaped scalar (.array t) v w ↔
      ∃ vs ws, v = .array vs ∧ w = .array ws ∧ List.Forall₂ (Reshaped scalar t) vs ws := by
  cases v <;> cases w <;> simp [Reshaped]

theorem reshaped_struct_iff {ts : List TypeTree} :
    Reshaped scalar (.struct ts) v w ↔
      ∃ vs ws, v = .struct vs ∧ w = .struct ws ∧ FieldsReshaped scalar ts vs ws := by
  cases v <;> cases w <;> simp [Reshaped]

theorem reshaped_dictEntry_iff {k u : TypeTree} :
    Reshaped scalar (.dictEntry k u) v w ↔
      ∃ x y x' y', (v = .dictEntry x y ∨ v = .struct [x, y]) ∧ w = .dictEntry x' y' ∧
        Reshaped scalar k x x' ∧ Reshaped scalar u y y' := by
  constructor
  · intro h
    unfold Reshaped at h
    split at h <;> simp_all
  · intro h
    obtain ⟨x, y, x', y', rfl | rfl, rfl, hx, hy⟩ := h <;> exact ⟨hx, hy⟩

theorem fieldsReshaped_cons_iff {t : TypeTree} {ts : List TypeTree} {vs ws : List Value} :
    FieldsReshaped scalar (t :: ts) vs ws ↔
      ∃ v vs' w ws', vs = v :: vs' ∧ ws = w :: ws' ∧ Reshaped scalar t v w ∧
        FieldsReshaped scalar ts vs' ws' := by
  cases vs <;> cases ws <;> simp [FieldsReshaped]

/-! ### Checks -/

def ScalarConforms (coercion : Coercion) : ScalarRelation :=
  fun c v w => conformScalar coercion c v = .ok w

mutual

/-- A check succeeds where the value can be brought into the form of the type, and ends in that
    form. -/
theorem conform_ok_iff {coercion : Coercion} (t : TypeTree) {v w : Value} :
    conform coercion t v = .ok w ↔ Reshaped (ScalarConforms coercion) t v w :=
  match t with
  | .scalar c => by rw [conform, Reshaped, ScalarConforms]
  | .array t => by
    have hone : ∀ v w, conform coercion t v = .ok w ↔ Reshaped (ScalarConforms coercion) t v w :=
      fun _ _ => conform_ok_iff t
    simp only [conform_array_ok_iff, reshaped_array_iff, hone, and_comm, and_left_comm]
  | .struct ts => by
    rw [conform_struct_ok_iff, reshaped_struct_iff]
    constructor
    · intro h
      obtain ⟨vs, ws, hv, hlength, hws, hw⟩ := h
      exact ⟨vs, ws, hv, hw, (conformFields_ok_iff ts).1 ⟨hlength, hws⟩⟩
    · intro h
      obtain ⟨vs, ws, hv, hw, hfields⟩ := h
      obtain ⟨hlength, hws⟩ := (conformFields_ok_iff ts).2 hfields
      exact ⟨vs, ws, hv, hlength, hws, hw⟩
  | .dictEntry k u => by
    have hkey : ∀ v w, conform coercion k v = .ok w ↔ Reshaped (ScalarConforms coercion) k v w :=
      fun _ _ => conform_ok_iff k
    have hvalue : ∀ v w, conform coercion u v = .ok w ↔
        Reshaped (ScalarConforms coercion) u v w := fun _ _ => conform_ok_iff u
    rw [conform_dictEntry_ok_iff, reshaped_dictEntry_iff]
    simp only [hkey, hvalue]
    constructor
    · intro h
      obtain ⟨x, y, x', y', hv, hx, hy, hw⟩ := h
      exact ⟨x, y, x', y', hv, hw, hx, hy⟩
    · intro h
      obtain ⟨x, y, x', y', hv, hw, hx, hy⟩ := h
      exact ⟨x, y, x', y', hv, hx, hy, hw⟩

theorem conformFields_ok_iff {coercion : Coercion} (ts : List TypeTree) {index : Nat}
    {vs ws : List Value} :
    vs.length = ts.length ∧ conformFields coercion index ts vs = .ok ws ↔
      FieldsReshaped (ScalarConforms coercion) ts vs ws :=
  match ts, vs with
  | [], [] => by cases ws <;> simp [conformFields, FieldsReshaped]
  | [], _ :: _ => by simp [FieldsReshaped]
  | _ :: _, [] => by simp [FieldsReshaped]
  | t :: ts, v :: vs => by
    have hfirst : ∀ w, conform coercion t v = .ok w ↔ Reshaped (ScalarConforms coercion) t v w :=
      fun _ => conform_ok_iff t
    have hrest : ∀ ws, vs.length = ts.length ∧ conformFields coercion (index + 1) ts vs = .ok ws ↔
        FieldsReshaped (ScalarConforms coercion) ts vs ws := fun _ => conformFields_ok_iff ts
    rw [conformFields_cons_ok_iff, fieldsReshaped_cons_iff, List.length_cons, List.length_cons,
      Nat.add_right_cancel_iff]
    constructor
    · intro h
      obtain ⟨hlength, w, ws', hw, hws, rfl⟩ := h
      exact ⟨v, vs, w, ws', rfl, rfl, (hfirst w).1 hw, (hrest ws').1 ⟨hlength, hws⟩⟩
    · intro h
      obtain ⟨_, _, w, ws', hvs, rfl, hw, hws⟩ := h
      cases hvs
      obtain ⟨hlength, hfields⟩ := (hrest ws').2 hws
      exact ⟨hlength, w, ws', (hfirst w).2 hw, hfields, rfl⟩

end

/-! ### Other relations of scalars -/

mutual

/-- What holds of the scalars is carried through all containers. -/
theorem Reshaped.mono (hscalar : ∀ c v w, scalar c v w → scalar' c v w) (t : TypeTree)
    {v w : Value} (h : Reshaped scalar t v w) : Reshaped scalar' t v w :=
  match t with
  | .scalar c => by
    rw [Reshaped] at h ⊢
    exact hscalar c v w h
  | .array t => by
    obtain ⟨vs, ws, rfl, rfl, hparts⟩ := reshaped_array_iff.1 h
    exact reshaped_array_iff.2 ⟨vs, ws, rfl, rfl, hparts.imp fun _ _ => Reshaped.mono hscalar t⟩
  | .struct ts => by
    obtain ⟨vs, ws, rfl, rfl, hfields⟩ := reshaped_struct_iff.1 h
    exact reshaped_struct_iff.2 ⟨vs, ws, rfl, rfl, FieldsReshaped.mono hscalar ts hfields⟩
  | .dictEntry k u => by
    obtain ⟨x, y, x', y', hv, rfl, hx, hy⟩ := reshaped_dictEntry_iff.1 h
    have hx' := Reshaped.mono hscalar k hx
    have hy' := Reshaped.mono hscalar u hy
    exact reshaped_dictEntry_iff.2 ⟨x, y, x', y', hv, rfl, hx', hy'⟩

theorem FieldsReshaped.mono (hscalar : ∀ c v w, scalar c v w → scalar' c v w)
    (ts : List TypeTree) {vs ws : List Value} (h : FieldsReshaped scalar ts vs ws) :
    FieldsReshaped scalar' ts vs ws :=
  match ts, vs, ws with
  | [], [], [] => trivial
  | t :: ts, _ :: _, _ :: _ => ⟨Reshaped.mono hscalar t h.1, FieldsReshaped.mono hscalar ts h.2⟩

end

/-! ### Positions -/

/-- Whether the same type stands at two positions and the second value is the first one in the
    form of that type. -/
def Corresponds (scalar : ScalarRelation) (before after : TypeTree × Value) : Prop :=
  after.1 = before.1 ∧ Reshaped scalar before.1 before.2 after.2

theorem rel_getElem? {α β : Type} {r : α → β → Prop} {as : List α} {bs : List β}
    (h : List.Forall₂ r as bs) (i : Nat) : Option.Rel r as[i]? bs[i]? := by
  induction h generalizing i with
  | nil => exact .none
  | cons hfirst _ ih =>
    cases i with
    | zero => exact .some hfirst
    | succ i => exact ih i

theorem FieldsReshaped.zip {ts : List TypeTree} {vs ws : List Value}
    (h : FieldsReshaped scalar ts vs ws) :
    List.Forall₂ (Corresponds scalar) (ts.zip vs) (ts.zip ws) := by
  induction ts generalizing vs ws with
  | nil => exact .nil
  | cons t ts ih =>
    obtain ⟨v, vs, w, ws, rfl, rfl, hfirst, hrest⟩ := fieldsReshaped_cons_iff.1 h
    exact .cons ⟨rfl, hfirst⟩ (ih hrest)

theorem Reshaped.part {t : TypeTree} (h : Reshaped scalar t v w) (s : Step) :
    Option.Rel (Corresponds scalar) (s.part? t v) (s.part? t w) := by
  cases t with
  | scalar c =>
    rw [part_scalar, part_scalar]
    exact .none
  | array t =>
    obtain ⟨vs, ws, rfl, rfl, hparts⟩ := reshaped_array_iff.1 h
    cases s with
    | element i =>
      have hvalues : List.Forall₂ (Corresponds scalar) (vs.map (t, ·)) (ws.map (t, ·)) := by
        rw [List.forall₂_map_left_iff, List.forall₂_map_right_iff]
        exact hparts.imp fun _ _ hpart => ⟨rfl, hpart⟩
      have hpart := rel_getElem? hvalues i
      rwa [List.getElem?_map, List.getElem?_map] at hpart
    | _ => exact .none
  | struct ts =>
    obtain ⟨vs, ws, rfl, rfl, hfields⟩ := reshaped_struct_iff.1 h
    cases s with
    | field i => exact rel_getElem? hfields.zip i
    | _ => exact .none
  | dictEntry k u =>
    obtain ⟨x, y, x', y', hv, rfl, hx, hy⟩ := reshaped_dictEntry_iff.1 h
    rcases hv with rfl | rfl <;> cases s <;>
      first | exact .some ⟨rfl, hx⟩ | exact .some ⟨rfl, hy⟩ | exact .none

/-- Both values have the same positions. -/
theorem Reshaped.walk {t : TypeTree} (h : Reshaped scalar t v w) (steps : List Step) :
    Option.Rel (Corresponds scalar) (Marshal.walk steps t v) (Marshal.walk steps t w) := by
  induction steps generalizing t v w with
  | nil => exact .some ⟨rfl, h⟩
  | cons s steps ih =>
    rw [Marshal.walk, Marshal.walk]
    have hpart := h.part s
    generalize s.part? t v = before, s.part? t w = after at hpart
    cases hpart with
    | none => exact .none
    | @some before after hpart =>
      obtain ⟨t', v'⟩ := before
      obtain ⟨u', w'⟩ := after
      obtain ⟨rfl, hreshaped⟩ := hpart
      exact ih hreshaped

/-- What stands somewhere in the first value has its form at the same place in the second. -/
theorem Reshaped.exists_after {t t' : TypeTree} {v' : Value} {steps : List Step}
    (h : Reshaped scalar t v w) (hwalk : Marshal.walk steps t v = some (t', v')) :
    ∃ w', Marshal.walk steps t w = some (t', w') ∧ Reshaped scalar t' v' w' := by
  have hpart := h.walk steps
  rw [hwalk] at hpart
  generalize Marshal.walk steps t w = after at hpart
  cases hpart with
  | @some _ after hpart =>
    obtain ⟨u', w'⟩ := after
    obtain ⟨rfl, hreshaped⟩ := hpart
    exact ⟨w', rfl, hreshaped⟩

/-- What stands somewhere in the second value is the form of what is there in the first. -/
theorem Reshaped.exists_before {t t' : TypeTree} {w' : Value} {steps : List Step}
    (h : Reshaped scalar t v w) (hwalk : Marshal.walk steps t w = some (t', w')) :
    ∃ v', Marshal.walk steps t v = some (t', v') ∧ Reshaped scalar t' v' w' := by
  have hpart := h.walk steps
  rw [hwalk] at hpart
  generalize Marshal.walk steps t v = before at hpart
  cases hpart with
  | @some before _ hpart =>
    obtain ⟨t'', v'⟩ := before
    obtain ⟨rfl, hreshaped⟩ := hpart
    exact ⟨v', rfl, hreshaped⟩

/-- A check that succeeds has reached every position and succeeds there too. -/
theorem conform_walk_ok {coercion : Coercion} {steps : List Step} {t : TypeTree}
    {target : TypeTree × Value} (h : conform coercion t v = .ok w)
    (hwalk : walk steps t v = some target) :
    ∃ u, conform coercion target.1 target.2 = .ok u := by
  obtain ⟨u, -, hu⟩ := ((conform_ok_iff t).1 h).exists_after hwalk
  exact ⟨u, (conform_ok_iff target.1).2 hu⟩

end Reshaped

end Marshal
