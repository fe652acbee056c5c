import Marshal.Proofs.Conformance.Container

/-!
  Positions inside a type and a value.

  A path is walked through a type and a value together (`walk`), as far as the value has the
  parts that the type asks for. Positions have an order in which a container comes before its
  parts and each part with all that is inside it before the next one (`Path.Before`).
-/

namespace Marshal

/-! ### Steps and paths -/

/-- The part of a type and the part of a value that one step leads to. A struct of two fields
    has the halves of a dict entry where one is expected. -/
def Step.part? : Step → TypeTree → Value → Option (TypeTree × Value)
  | .element i, .array t, .array vs => vs[i]?.map (t, ·)
  | .field i, .struct ts, .struct vs => (ts.zip vs)[i]?
  | .key, .dictEntry k _, .dictEntry x _ => some (k, x)
  | .key, .dictEntry k _, .struct [x, _] => some (k, x)
  | .value, .dictEntry _ w, .dictEntry _ y => some (w, y)
  | .value, .dictEntry _ w, .struct [_, y] => some (w, y)
  | _, _, _ => none

/-- The place of a part among the parts of its container. -/
def Step.rank : Step → Nat
  | .element i | .field i => i
  | .key => 0
  | .value => 1

/-- The type and the value at the end of a path, if the path can be walked. -/
def walk : List Step → TypeTree → Value → Option (TypeTree × Value)
  | [], t, v => some (t, v)
  | s :: steps, t, v => (s.part? t v).bind fun part => walk steps part.1 part.2

/-- Whether one position comes before another: the container above it does, or the earlier one
    of two parts of a container. -/
def Path.Before (p q : Path) : Prop :=
  List.Lex (fun s s' => s.rank < s'.rank) p.steps q.steps

section Parts

variable {s s' : Step} {t : TypeTree} {v : Value} {part part' : TypeTree × Value}

theorem walk_cons_eq_some_iff {steps : List Step} {target : TypeTree × Value} :
    walk (s :: steps) t v = some target ↔
      ∃ part, s.part? t v = some part ∧ walk steps part.1 part.2 = some target :=
  Option.bind_eq_some_iff

theorem part_scalar {c : ScalarType} : s.part? (.scalar c) v = none := by
  cases s <;> rfl

theorem part_array (h : s.part? (.array t) v = some part) :
    ∃ i vs, s = .element i ∧ v = .array vs ∧ part.1 = t ∧ vs[i]? = some part.2 := by
  unfold Step.part? at h
  split at h <;> simp_all
  rcases h with ⟨w, hw, rfl⟩
  exact ⟨rfl, hw⟩

theorem part_struct {ts : List TypeTree} (h : s.part? (.struct ts) v = some part) :
    ∃ i vs, s = .field i ∧ v = .struct vs ∧ (ts.zip vs)[i]? = some part := by
  unfold Step.part? at h
  split at h <;> simp_all

theorem part_dictEntry {k w : TypeTree} (h : s.part? (.dictEntry k w) v = some part) :
    ∃ x y, (v = .dictEntry x y ∨ v = .struct [x, y]) ∧
      (s = .key ∧ part = (k, x) ∨ s = .value ∧ part = (w, y)) := by
  unfold Step.part? at h
  split at h <;> simp_all

/-- The parts of one container have ranks of their own. -/
theorem eq_of_rank_eq (h : s.part? t v = some part) (h' : s'.part? t v = some part')
    (hrank : s.rank = s'.rank) : s = s' := by
  cases t with
  | scalar c => simp [part_scalar] at h
  | array t =>
    rcases part_array h with ⟨i, _, rfl, -⟩
    rcases part_array h' with ⟨j, _, rfl, -⟩
    exact congrArg Step.element hrank
  | struct ts =>
    rcases part_struct h with ⟨i, _, rfl, -⟩
    rcases part_struct h' with ⟨j, _, rfl, -⟩
    exact congrArg Step.field hrank
  | dictEntry k w =>
    rcases part_dictEntry h with ⟨_, _, -, ⟨rfl, -⟩ | ⟨rfl, -⟩⟩ <;>
      rcases part_dictEntry h' with ⟨_, _, -, ⟨rfl, -⟩ | ⟨rfl, -⟩⟩ <;> simp_all [Step.rank]

/-- A path through a type ends. -/
theorem depth_lt_of_part (h : s.part? t v = some part) : part.1.depth < t.depth := by
  cases t with
  | scalar c => simp [part_scalar] at h
  | array t =>
    rcases part_array h with ⟨_, _, -, -, htype, -⟩
    rw [htype, TypeTree.depth]
    exact Nat.lt_succ_self _
  | struct ts =>
    rcases part_struct h with ⟨_, vs, -, -, hpart⟩
    have hmem : part.1 ∈ ts := (List.of_mem_zip (List.mem_of_getElem? hpart)).1
    have hdepth := (TypeTree.fieldsDepth_le_iff ts _).1 (Nat.le_refl _) part.1 hmem
    rw [TypeTree.depth]
    exact Nat.lt_succ_of_le hdepth
  | dictEntry k w =>
    rcases part_dictEntry h with ⟨_, _, -, ⟨-, rfl⟩ | ⟨-, rfl⟩⟩ <;> rw [TypeTree.depth] <;>
      dsimp only <;> omega

end Parts

end Marshal
