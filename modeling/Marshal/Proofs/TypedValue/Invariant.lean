import Marshal.Proofs.Wire.Canonical
import Marshal.Proofs.Wire.Writable
import Marshal.TypedValue

/-!
  The invariant of typed values.

  A typed value is made by checking a value or by reading bytes, and reading never calls
  the check. Both end in a value that is in the form its type prescribes
  (`Built.canonical`). The parts of a typed value are taken from the value; by the
  invariant its type decides which of them it has (`conform_of_built`).
-/

namespace Marshal

/-! ### Values of one kind of type -/

section Kinds

variable {t : TypeTree} {v : Value}

theorem isDictEntry_iff_of_canonical (h : t.canonical v) :
    t.isDictEntry ↔ ∃ key value, v = .dictEntry key value := by
  cases t with
  | dictEntry k w =>
    obtain ⟨key, value, rfl, -, -⟩ := TypeTree.canonical_dictEntry_iff.1 h
    exact ⟨fun _ => ⟨key, value, rfl⟩, fun _ => rfl⟩
  | _ =>
    refine ⟨nofun, ?_⟩
    intro hv
    obtain ⟨key, value, rfl⟩ := hv
    cases h

theorem isArray_or_isStruct_iff_of_canonical (h : t.canonical v) :
    t.isArray ∨ t.isStruct ↔ ∃ vs, v = .array vs ∨ v = .struct vs := by
  cases t with
  | array t =>
    obtain ⟨vs, rfl, -⟩ := TypeTree.canonical_array_iff.1 h
    exact ⟨fun _ => ⟨vs, .inl rfl⟩, fun _ => .inl rfl⟩
  | struct ts =>
    obtain ⟨vs, rfl, -⟩ := TypeTree.canonical_struct_iff.1 h
    exact ⟨fun _ => ⟨vs, .inr rfl⟩, fun _ => .inr rfl⟩
  | _ =>
    refine ⟨fun ht => ht.elim nofun nofun, ?_⟩
    intro hv
    obtain ⟨vs, rfl | rfl⟩ := hv <;> cases h

end Kinds

namespace TypedValue

/-! ### The parts of a value -/

section Parts

variable {a : TypedValue}

theorem key_ok_iff {key : Value} : a.key = .ok key ↔ ∃ value, a.value = .dictEntry key value := by
  unfold TypedValue.key
  cases a.value <;> simp [refusePart]

theorem entryValue_ok_iff {value : Value} :
    a.entryValue = .ok value ↔ ∃ key, a.value = .dictEntry key value := by
  unfold entryValue
  cases a.value <;> simp [refusePart]

theorem children_ok_iff {vs : List Value} :
    a.children = .ok vs ↔ a.value = .array vs ∨ a.value = .struct vs := by
  unfold children
  cases a.value <;> simp [refusePart]

theorem key_error {e : Error} (h : a.key = .error e) : e = .noSuchPart a.signature.text .key := by
  unfold TypedValue.key at h
  cases hv : a.value <;> rw [hv] at h <;> cases h <;> rfl

theorem entryValue_error {e : Error} (h : a.entryValue = .error e) :
    e = .noSuchPart a.signature.text .entryValue := by
  unfold entryValue at h
  cases hv : a.value <;> rw [hv] at h <;> cases h <;> rfl

theorem children_error {e : Error} (h : a.children = .error e) :
    e = .noSuchPart a.signature.text .children := by
  unfold children at h
  cases hv : a.value <;> rw [hv] at h <;> cases h <;> rfl

end Parts

/-! ### All ways to make a typed value -/

/-- The typed values that can be made, with any settings and any signature. -/
inductive Built : TypedValue → Prop where
  | ofValue {settings : Settings} {signature : Signature} {value : Value} {a : TypedValue}
      (h : TypedValue.ofValue settings signature value = .ok a) : Built a
  | ofDatum {settings : Settings} {signature : Signature} {x : Datum} {a : TypedValue}
      (h : TypedValue.ofDatum settings signature x = .ok a) : Built a
  | ofBytes {settings : Settings} {signature : Signature} {bytes : List UInt8} {a : TypedValue}
      (h : TypedValue.ofBytes settings signature bytes = .ok a) : Built a
  | check {settings : Settings} {text : String} {value : Value} {a : TypedValue}
      (h : TypedValue.check settings text value = .ok a) : Built a
  | encode {settings : Settings} {text : String} {x : Datum} {a : TypedValue}
      (h : TypedValue.encode settings text x = .ok a) : Built a
  | decode {settings : Settings} {text : String} {bytes : List UInt8} {a : TypedValue}
      (h : TypedValue.decode settings text bytes = .ok a) : Built a

theorem canonical_of_ofValue {settings : Settings} {signature : Signature} {value : Value}
    {a : TypedValue} (h : ofValue settings signature value = .ok a) :
    a.type.canonical a.value := by
  obtain ⟨w, hw, rfl⟩ := map_ok_iff.1 h
  exact canonical_of_conform signature.root hw

theorem canonical_of_ofBytes {settings : Settings} {signature : Signature} {bytes : List UInt8}
    {a : TypedValue} (h : ofBytes settings signature bytes = .ok a) :
    a.type.canonical a.value := by
  obtain ⟨w, hw, rfl⟩ := map_ok_iff.1 h
  -- reading is followed back to the writing that it undoes
  have hwrite := Wire.write_of_decode hw
  exact ((Wire.write_isOk_iff signature.root).1 ⟨bytes, hwrite⟩).1

/-- The invariant of typed values: a value is kept in the form that its signature prescribes. -/
theorem Built.canonical {a : TypedValue} (h : Built a) : a.type.canonical a.value := by
  cases h with
  | ofValue h => exact canonical_of_ofValue h
  | ofDatum h =>
    obtain ⟨value, -, h⟩ := bind_ok_iff.1 h
    exact canonical_of_ofValue h
  | ofBytes h => exact canonical_of_ofBytes h
  | check h =>
    obtain ⟨signature, -, h⟩ := bind_ok_iff.1 h
    exact canonical_of_ofValue h
  | encode h =>
    obtain ⟨signature, -, h⟩ := bind_ok_iff.1 h
    obtain ⟨value, -, h⟩ := bind_ok_iff.1 h
    exact canonical_of_ofValue h
  | decode h =>
    obtain ⟨signature, -, h⟩ := bind_ok_iff.1 h
    exact canonical_of_ofBytes h

/-- However a typed value was made, its value fits its type as it stands, and can be written
    in either byte order as long as its lengths fit their counts. Its type decides which
    parts it has; the others are refused by their names. -/
theorem conform_of_built (a : TypedValue) (h : Built a) :
    conform .strict a.type a.value = .ok a.value ∧
    (∀ settings, (∃ bytes, a.toBytes settings = .ok bytes) ↔ a.value.fitsCounts) ∧
    ((∃ key, a.key = .ok key) ↔ a.type.isDictEntry) ∧
    ((∃ value, a.entryValue = .ok value) ↔ a.type.isDictEntry) ∧
    ((∃ vs, a.children = .ok vs) ↔ a.type.isArray ∨ a.type.isStruct) ∧
    (∀ ts vs, a.type = .struct ts → a.children = .ok vs → vs.length = ts.length) ∧
    (∀ e, a.key = .error e → e = .noSuchPart a.signature.text .key) ∧
    (∀ e, a.entryValue = .error e → e = .noSuchPart a.signature.text .entryValue) ∧
    (∀ e, a.children = .error e → e = .noSuchPart a.signature.text .children) := by
  have hform := h.canonical
  refine ⟨conform_of_canonical .strict a.type hform, ?_, ?_, ?_, ?_, ?_,
    fun _ => key_error, fun _ => entryValue_error, fun _ => children_error⟩
  · intro settings
    rw [toBytes, Wire.write_isOk_iff a.type]
    exact and_iff_right hform
  · rw [isDictEntry_iff_of_canonical hform]
    simp only [key_ok_iff]
  · rw [isDictEntry_iff_of_canonical hform]
    simp only [entryValue_ok_iff]
    exact exists_comm
  · rw [isArray_or_isStruct_iff_of_canonical hform]
    simp only [children_ok_iff]
  · intro ts vs htype hvs
    rw [htype] at hform
    obtain ⟨fields, hvalue, hfields⟩ := TypeTree.canonical_struct_iff.1 hform
    have hlength := TypeTree.length_of_fieldsCanonical hfields
    rcases children_ok_iff.1 hvs with harray | hstruct
    · rw [hvalue] at harray
      cases harray
    · rw [hvalue] at hstruct
      cases hstruct
      exact hlength

/-- A struct of two fields becomes a dict entry, with its number as a byte. -/
theorem conform_of_built_pair :
    ∃ a : TypedValue,
      check ⟨.big, .weak⟩ "{sy}" (.struct [.text "a", .ofWord .int32 7]) = .ok a ∧
      conform .strict a.type a.value = .ok a.value ∧ (∃ key, a.key = .ok key) ∧
      ¬ ∃ vs, a.children = .ok vs := by
  have hcheck : check ⟨.big, .weak⟩ "{sy}" (.struct [.text "a", .ofWord .int32 7]) =
      .ok ⟨⟨"{sy}", .dictEntry (.scalar .text) (.scalar (.int .byte))⟩,
        .dictEntry (.text "a") (.ofWord .byte 7)⟩ := by rfl
  obtain ⟨hconform, -, hkey, -, hchildren, -⟩ := conform_of_built _ (.check hcheck)
  exact ⟨_, hcheck, hconform, hkey.2 rfl, fun hvs => absurd (hchildren.1 hvs) (by decide)⟩

end TypedValue

end Marshal
