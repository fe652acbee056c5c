import Marshal.Proofs.Conformance.Canonical
import Marshal.Proofs.Text.Quoted
import Marshal.Value.Display

/-!
  The text of a value cannot be forged.

  Of two values in the form of one type, the texts begin one text only if the values are the same
  (`ToldApart`). Numbers are told apart by the character behind them, texts by their quotes, and
  the values of a list by the commas between them and the bracket behind the last one. The type
  is needed for integers, because a byte and a longer integer may have the same text. Doubles are
  left out, because all bits that stand for no number have the same text. So a text shows at most
  one value of a type without doubles (`display_eq_iff`).
-/

namespace Marshal

namespace Value

open Text (StopsDigits stopsDigits_cons)

/-! ### Scalars -/

/-- Whether two values are the same as soon as their texts begin one text. What stands behind a
    text must not go on with a digit, since a number may be at its end. -/
def ToldApart (v w : Value) : Prop :=
  ∀ rest rest', StopsDigits rest → StopsDigits rest' → v.shown ++ rest = w.shown ++ rest' →
    v = w ∧ rest = rest'

theorem toldApart_bool (a b : Bool) : ToldApart (.bool a) (.bool b) := by
  intro rest rest' _ _ h
  cases a <;> cases b <;> simp_all [shown]

theorem toldApart_int {m n : Integer} (htype : m.type = n.type) :
    ToldApart (.int m) (.int n) := by
  intro rest rest' hrest hrest' h
  obtain ⟨hval, hsame⟩ := Text.integer_append_inj hrest hrest' h
  have heq : m = n := by
    cases m
    cases n
    cases htype
    cases hval
    rfl
  exact ⟨congrArg Value.int heq, hsame⟩

theorem toldApart_text (s u : String) : ToldApart (.text s) (.text u) := by
  intro rest rest' _ _ h
  obtain ⟨hchars, hsame⟩ := Text.quote_append_inj h
  exact ⟨congrArg Value.text (String.toList_injective hchars), hsame⟩

theorem toldApart_of_scalarType {v w : Value} (hscalar : v.isScalar)
    (htype : v.scalarType? = w.scalarType?) (hdouble : v.scalarType? ≠ some .double) :
    ToldApart v w := by
  cases v with
  | bool a =>
    cases w with
    | bool b => exact toldApart_bool a b
    | _ => simp [scalarType?] at htype
  | int m =>
    cases w with
    | int n => exact toldApart_int (by simpa [scalarType?] using htype)
    | _ => simp [scalarType?] at htype
  | double x => exact absurd rfl hdouble
  | text s =>
    cases w with
    | text u => exact toldApart_text s u
    | _ => simp [scalarType?] at htype
  | array | struct | dictEntry => cases hscalar

/-! ### Lists of values -/

/-- The brackets behind the values of an array and the fields of a struct. -/
def EndsList (c : Char) : Prop := c = ']' ∨ c = ')'

section Lists

variable {close : Char} {vs ws : List Value} {rest rest' : List Char}

theorem EndsList.stopsDigits (h : EndsList close) (rest : List Char) :
    StopsDigits (close :: rest) := by
  rcases h with rfl | rfl
  · exact stopsDigits_cons (fun _ => Nat.digitChar_ne ']' rfl) rest
  · exact stopsDigits_cons (fun _ => Nat.digitChar_ne ')' rfl) rest

theorem EndsList.ne_comma (h : EndsList close) : close ≠ ',' := by
  rcases h with rfl | rfl <;> decide

theorem stopsDigits_shownRest (hclose : EndsList close) (vs : List Value) (rest : List Char) :
    StopsDigits (shownRest vs ++ close :: rest) := by
  cases vs with
  | nil => exact hclose.stopsDigits rest
  | cons v vs => exact stopsDigits_cons (fun _ => Nat.digitChar_ne ',' rfl) _

/-- A comma says that there is one more value, a bracket that there is none. -/
theorem shownRest_append_inj (hclose : EndsList close)
    (hpairs : ∀ p ∈ vs.zip ws, ToldApart p.1 p.2)
    (h : shownRest vs ++ close :: rest = shownRest ws ++ close :: rest') :
    vs = ws ∧ rest = rest' := by
  induction vs generalizing ws with
  | nil =>
    cases ws with
    | nil => exact ⟨rfl, (List.cons.inj h).2⟩
    | cons w ws => exact absurd (List.cons.inj h).1 hclose.ne_comma
  | cons v vs ih =>
    cases ws with
    | nil => exact absurd (List.cons.inj h).1.symm hclose.ne_comma
    | cons w ws =>
      rw [List.zip_cons_cons, List.forall_mem_cons] at hpairs
      obtain ⟨hfirst : ToldApart v w, hothers⟩ := hpairs
      simp only [shownRest, List.cons_append, List.append_assoc, List.cons.injEq, true_and] at h
      obtain ⟨rfl, htail⟩ := hfirst _ _ (stopsDigits_shownRest hclose vs rest)
        (stopsDigits_shownRest hclose ws rest') h
      obtain ⟨rfl, hsame⟩ := ih hothers htail
      exact ⟨rfl, hsame⟩

theorem shownList_append_inj (hclose : EndsList close) (hempty : vs = [] ↔ ws = [])
    (hpairs : ∀ p ∈ vs.zip ws, ToldApart p.1 p.2)
    (h : shownList vs ++ close :: rest = shownList ws ++ close :: rest') :
    vs = ws ∧ rest = rest' := by
  cases vs with
  | nil =>
    rw [hempty.1 rfl] at h ⊢
    exact ⟨rfl, (List.cons.inj h).2⟩
  | cons v vs =>
    cases ws with
    | nil => exact absurd (hempty.2 rfl) (List.cons_ne_nil v vs)
    | cons w ws =>
      rw [List.zip_cons_cons, List.forall_mem_cons] at hpairs
      obtain ⟨hfirst : ToldApart v w, hothers⟩ := hpairs
      rw [shownList, shownList, List.append_assoc, List.append_assoc] at h
      obtain ⟨rfl, htail⟩ := hfirst _ _ (stopsDigits_shownRest hclose vs rest)
        (stopsDigits_shownRest hclose ws rest') h
      obtain ⟨rfl, hsame⟩ := shownRest_append_inj hclose hothers htail
      exact ⟨rfl, hsame⟩

/-- The text of a value does not begin with the bracket that ends an array. -/
theorem shown_append_ne_close {v : Value} (hv : v.scalarType? ≠ some .double)
    (rest rest' : List Char) : v.shown ++ rest ≠ ']' :: rest' := by
  intro h
  cases v with
  | bool b => cases b <;> simp [shown] at h
  | int n =>
    rw [shown, Text.toList_toString_int] at h
    split at h
    · exact Text.toDigits_append_ne (by decide) (fun _ => Nat.digitChar_ne ']' rfl) _ _ h
    · cases (List.cons.inj h).1
  | double x => exact hv rfl
  | text s => simp [shown, Text.quote] at h
  | array vs => simp [shown] at h
  | struct vs => simp [shown] at h
  | dictEntry k w => simp [shown] at h

theorem eq_nil_of_shownList (hws : ∀ w ∈ ws, w.scalarType? ≠ some .double)
    (h : shownList [] ++ ']' :: rest = shownList ws ++ ']' :: rest') : ws = [] := by
  cases ws with
  | nil => rfl
  | cons w ws =>
    rw [shownList, shownList, List.append_assoc] at h
    exact absurd h.symm (shown_append_ne_close (hws w (List.mem_cons_self ..)) _ _)

end Lists

/-! ### Values of one type -/

theorem scalarType_ne_double {t : TypeTree} (ht : 'd' ∉ t.letters) {v : Value}
    (hv : t.canonical v) : v.scalarType? ≠ some .double := by
  cases t with
  | scalar c =>
    intro hdouble
    rw [ScalarType.scalarType_of_canonical hv] at hdouble
    cases hdouble
    exact ht (List.mem_cons_self ..)
  | array t =>
    obtain ⟨vs, rfl, -⟩ := TypeTree.canonical_array_iff.1 hv
    exact (Option.some_ne_none _).symm
  | struct ts =>
    obtain ⟨vs, rfl, -⟩ := TypeTree.canonical_struct_iff.1 hv
    exact (Option.some_ne_none _).symm
  | dictEntry k w =>
    obtain ⟨key, value, rfl, -, -⟩ := TypeTree.canonical_dictEntry_iff.1 hv
    exact (Option.some_ne_none _).symm

mutual

/-- Values in the form of one type are told apart by their texts. -/
theorem toldApart_of_canonical (t : TypeTree) (ht : 'd' ∉ t.letters) {v w : Value}
    (hv : t.canonical v) (hw : t.canonical w) : ToldApart v w :=
  match t with
  | .scalar c => by
    have htype := ScalarType.scalarType_of_canonical hv
    have htype' := ScalarType.scalarType_of_canonical hw
    have hscalar : v.isScalar := by
      rw [isScalar, htype]
      rfl
    exact toldApart_of_scalarType hscalar (htype.trans htype'.symm) (scalarType_ne_double ht hv)
  | .array t => by
    have hmember : 'd' ∉ t.letters := fun h => ht (List.mem_cons_of_mem _ h)
    obtain ⟨vs, rfl, hvs⟩ := TypeTree.canonical_array_iff.1 hv
    obtain ⟨ws, rfl, hws⟩ := TypeTree.canonical_array_iff.1 hw
    intro rest rest' _ _ h
    simp only [shown, List.cons_append, List.append_assoc, List.nil_append, List.cons.injEq,
      true_and] at h
    have hempty : vs = [] ↔ ws = [] := by
      constructor
      · rintro rfl
        exact eq_nil_of_shownList (fun w hw => scalarType_ne_double hmember (hws w hw)) h
      · rintro rfl
        exact eq_nil_of_shownList (fun v hv => scalarType_ne_double hmember (hvs v hv)) h.symm
    have hpairs : ∀ p ∈ vs.zip ws, ToldApart p.1 p.2 := by
      intro p hp
      obtain ⟨hleft, hright⟩ := List.of_mem_zip hp
      exact toldApart_of_canonical t hmember (hvs _ hleft) (hws _ hright)
    obtain ⟨rfl, hsame⟩ := shownList_append_inj (.inl rfl) hempty hpairs h
    exact ⟨rfl, hsame⟩
  | .struct ts => by
    simp only [TypeTree.letters, List.mem_cons, List.mem_append, not_or] at ht
    obtain ⟨vs, rfl, hvs⟩ := TypeTree.canonical_struct_iff.1 hv
    obtain ⟨ws, rfl, hws⟩ := TypeTree.canonical_struct_iff.1 hw
    intro rest rest' _ _ h
    simp only [shown, List.cons_append, List.append_assoc, List.nil_append, List.cons.injEq,
      true_and] at h
    have hlength : vs.length = ws.length := by
      rw [TypeTree.length_of_fieldsCanonical hvs, TypeTree.length_of_fieldsCanonical hws]
    have hempty : vs = [] ↔ ws = [] := by
      rw [← List.length_eq_zero_iff, hlength, List.length_eq_zero_iff]
    have hpairs := toldApart_of_fieldsCanonical ts ht.2.1 hvs hws
    obtain ⟨rfl, hsame⟩ := shownList_append_inj (.inr rfl) hempty hpairs h
    exact ⟨rfl, hsame⟩
  | .dictEntry k u => by
    simp only [TypeTree.letters, List.mem_cons, List.mem_append, not_or] at ht
    obtain ⟨key, value, rfl, hkey, hvalue⟩ := TypeTree.canonical_dictEntry_iff.1 hv
    obtain ⟨key', value', rfl, hkey', hvalue'⟩ := TypeTree.canonical_dictEntry_iff.1 hw
    intro rest rest' _ _ h
    simp only [shown, List.cons_append, List.append_assoc, List.nil_append, List.cons.injEq,
      true_and] at h
    have hcolon := stopsDigits_cons fun _ => Nat.digitChar_ne ':' rfl
    have hbrace := stopsDigits_cons fun _ => Nat.digitChar_ne '}' rfl
    obtain ⟨rfl, hback⟩ :=
      toldApart_of_canonical k ht.2.1 hkey hkey' _ _ (hcolon _) (hcolon _) h
    obtain ⟨rfl, hsame⟩ := toldApart_of_canonical u ht.2.2.1 hvalue hvalue' _ _ (hbrace _)
      (hbrace _) (List.cons.inj (List.cons.inj hback).2).2
    exact ⟨rfl, (List.cons.inj hsame).2⟩

theorem toldApart_of_fieldsCanonical (ts : List TypeTree) (hts : 'd' ∉ TypeTree.fieldsLetters ts)
    {vs ws : List Value} (hvs : TypeTree.fieldsCanonical ts vs)
    (hws : TypeTree.fieldsCanonical ts ws) : ∀ p ∈ vs.zip ws, ToldApart p.1 p.2 :=
  match ts, vs, ws with
  | [], [], _ => nofun
  | t :: ts, v :: vs, w :: ws => by
    simp only [TypeTree.fieldsLetters, List.mem_append, not_or] at hts
    simp only [TypeTree.fieldsCanonical, Bool.and_eq_true] at hvs hws
    rw [List.zip_cons_cons, List.forall_mem_cons]
    exact ⟨toldApart_of_canonical t hts.1 hvs.1 hws.1,
      toldApart_of_fieldsCanonical ts hts.2 hvs.2 hws.2⟩

end

/-! ### The text of a value -/

/-- In a type without doubles, two values that strict checking leaves as they are have the same
    text only if they are the same. -/
theorem display_eq_iff (t : TypeTree) (ht : 'd' ∉ t.letters) {v w : Value}
    (hv : conform .strict t v = .ok v) (hw : conform .strict t w = .ok w) :
    v.display = w.display ↔ v = w := by
  constructor
  · intro h
    have hshown : v.shown = w.shown := String.ofList_injective h
    have htold :=
      toldApart_of_canonical t ht (canonical_of_conform t hv) (canonical_of_conform t hw)
    have hnil : v.shown ++ [] = w.shown ++ [] := by rw [hshown]
    exact (htold [] [] Text.stopsDigits_nil Text.stopsDigits_nil hnil).1
  · intro h
    rw [h]

/-- One text that holds the quotes and the comma between two texts is not taken for them. -/
theorem display_eq_iff_quotes :
    conform .strict (.array (.scalar .text)) (.array [.text "a\", \"b"]) =
      .ok (.array [.text "a\", \"b"]) ∧
    conform .strict (.array (.scalar .text)) (.array [.text "a", .text "b"]) =
      .ok (.array [.text "a", .text "b"]) ∧
    (Value.array [.text "a\", \"b"]).display = "[\"a\\\", \\\"b\"]" ∧
    (Value.array [.text "a", .text "b"]).display = "[\"a\", \"b\"]" ∧
    (Value.array [.text "a\", \"b"]).display ≠ (Value.array [.text "a", .text "b"]).display := by
  have hone : conform .strict (.array (.scalar .text)) (.array [.text "a\", \"b"]) =
      .ok (.array [.text "a\", \"b"]) := rfl
  have htwo : conform .strict (.array (.scalar .text)) (.array [.text "a", .text "b"]) =
      .ok (.array [.text "a", .text "b"]) := rfl
  refine ⟨hone, htwo, by decide, by decide, ?_⟩
  intro h
  have hsame := (display_eq_iff (.array (.scalar .text)) (by decide) hone htwo).1 h
  exact absurd hsame (by decide)

end Value

end Marshal
