import Marshal.Proofs.Conformance.Recast
import Marshal.Proofs.Datum.ReadingLaws
import Marshal.Proofs.Datum.Typing

/-!
  Reading data back from its value.

  Handing data over and reading it use different conventions: structs lose their names, maps
  become arrays of entries, variants become texts and numbers of single precision become
  doubles. Reading by the type of the data undoes all of it (`read_toValue`), also where the
  value was recast on the way (`read_of_toValue`). Both proofs go along the type: the data of a
  sendable type has a value (`exists_toValue`), and what has a value is read back from it
  (`restores_of_holds`). For each kind of container there is one lemma that carries the statement
  from the parts to the whole.
-/

namespace Marshal

namespace Datum

/-! ### The values of many pieces -/

section Values

variable {x : Datum} {xs : List Datum} {vs : List Value}

theorem toValues_cons_ok_iff :
    toValues (x :: xs) = .ok vs ↔
      ∃ v vs', x.toValue = .ok v ∧ toValues xs = .ok vs' ∧ vs = v :: vs' := by
  simp only [toValues, bind_ok_iff, pure_ok_iff, exists_and_left]

theorem fieldValues_cons_ok_iff {name : String} {fields : List DatumField} :
    fieldValues (.field name x :: fields) = .ok vs ↔
      ∃ v vs', x.toValue = .ok v ∧ fieldValues fields = .ok vs' ∧ vs = v :: vs' := by
  simp only [fieldValues, bind_ok_iff, pure_ok_iff, exists_and_left]

theorem mapEntries_cons_ok_iff {y : Datum} {entries : List (Datum × Datum)} :
    mapEntries none (stepsOf ((x, y) :: entries)) = .ok vs ↔
      ∃ key value vs', x.toValue = .ok key ∧ y.toValue = .ok value ∧
        mapEntries none (stepsOf entries) = .ok vs' ∧ vs = .dictEntry key value :: vs' := by
  simp only [stepsOf, mapEntries, bind_ok_iff, pure_ok_iff, exists_and_left]

theorem toValue_sequence_ok_iff {v : Value} :
    (sequence xs).toValue = .ok v ↔ ∃ vs, toValues xs = .ok vs ∧ v = .array vs := by
  simp only [toValue, bind_ok_iff, pure_ok_iff]

theorem toValue_tuple_ok_iff {v : Value} :
    (tuple xs).toValue = .ok v ↔ ∃ vs, toValues xs = .ok vs ∧ v = .struct vs := by
  simp only [toValue, bind_ok_iff, pure_ok_iff]

theorem toValue_tupleStruct_ok_iff {name : String} {v : Value} :
    (tupleStruct name xs).toValue = .ok v ↔ ∃ vs, toValues xs = .ok vs ∧ v = .struct vs := by
  simp only [toValue, bind_ok_iff, pure_ok_iff]

theorem toValue_struct_ok_iff {name : String} {fields : List DatumField} {v : Value} :
    (struct name fields).toValue = .ok v ↔ ∃ vs, fieldValues fields = .ok vs ∧ v = .struct vs := by
  simp only [toValue, bind_ok_iff, pure_ok_iff]

theorem toValue_map_ok_iff {steps : List MapStep} {v : Value} :
    (map steps).toValue = .ok v ↔ ∃ vs, mapEntries none steps = .ok vs ∧ v = .array vs := by
  simp only [toValue, bind_ok_iff, pure_ok_iff]

end Values

end Datum

namespace Shape

open Datum

/-! ### Data that has a value -/

theorem exists_elementValues {xs : List Datum} (h : ∀ x ∈ xs, ∃ v, x.toValue = .ok v) :
    ∃ vs, toValues xs = .ok vs := by
  induction xs with
  | nil => exact ⟨[], rfl⟩
  | cons x xs ih =>
    obtain ⟨⟨v, hv⟩, hrest⟩ := List.forall_mem_cons.1 h
    obtain ⟨vs, hvs⟩ := ih hrest
    exact ⟨v :: vs, toValues_cons_ok_iff.2 ⟨v, vs, hv, hvs, rfl⟩⟩

theorem exists_entryValues {entries : List (Datum × Datum)}
    (h : ∀ entry ∈ entries, (∃ v, entry.1.toValue = .ok v) ∧ ∃ v, entry.2.toValue = .ok v) :
    ∃ vs, mapEntries none (stepsOf entries) = .ok vs := by
  induction entries with
  | nil => exact ⟨[], rfl⟩
  | cons entry entries ih =>
    obtain ⟨⟨⟨k, hk⟩, v, hv⟩, hrest⟩ := List.forall_mem_cons.1 h
    obtain ⟨vs, hvs⟩ := ih hrest
    exact ⟨_, mapEntries_cons_ok_iff.2 ⟨k, v, vs, hk, hv, hvs, rfl⟩⟩

mutual

/-- Nothing that a sendable type is made of is refused. -/
theorem exists_toValue (shape : Shape) (hshape : shape.sendable) {x : Datum}
    (hx : shape.Holds x) : ∃ v, x.toValue = .ok v :=
  match shape, hshape, hx with
  | .bool, _, .bool _ | .int _, _, .int _ | .single, _, .single _ | .double, _, .double _
  | .char, _, .char _ | .text, _, .text _ | .enumeration _ _, _, .unitVariant _ _ => ⟨_, rfl⟩
  | .newtypeStruct _ shape, hshape, .newtypeStruct hx => by
    obtain ⟨v, hv⟩ := exists_toValue shape hshape hx
    exact ⟨v, hv⟩
  | .sequence shape, hshape, .sequence hxs => by
    obtain ⟨vs, hvs⟩ :=
      exists_elementValues fun x hmem => exists_toValue shape hshape (hxs x hmem)
    exact ⟨_, toValue_sequence_ok_iff.2 ⟨vs, hvs, rfl⟩⟩
  | .array _ shape, hshape, .array hxs => by
    obtain ⟨vs, hvs⟩ :=
      exists_elementValues fun x hmem => exists_toValue shape hshape (hxs x hmem)
    exact ⟨_, toValue_tuple_ok_iff.2 ⟨vs, hvs, rfl⟩⟩
  | .tuple shapes, hshape, .tuple hxs => by
    obtain ⟨vs, hvs⟩ := exists_toValues shapes hshape hxs
    exact ⟨_, toValue_tuple_ok_iff.2 ⟨vs, hvs, rfl⟩⟩
  | .tupleStruct _ shapes, hshape, .tupleStruct hxs => by
    obtain ⟨vs, hvs⟩ := exists_toValues shapes hshape hxs
    exact ⟨_, toValue_tupleStruct_ok_iff.2 ⟨vs, hvs, rfl⟩⟩
  | .struct _ fields, hshape, .struct hxs => by
    obtain ⟨vs, hvs⟩ := exists_fieldValues fields hshape hxs
    exact ⟨_, toValue_struct_ok_iff.2 ⟨vs, hvs, rfl⟩⟩
  | .map key value _, hshape, .map _ hkeys hvalues => by
    simp only [sendable, Bool.and_eq_true] at hshape
    obtain ⟨vs, hvs⟩ := exists_entryValues fun entry hmem =>
      ⟨exists_toValue key hshape.1 (hkeys entry hmem),
        exists_toValue value hshape.2 (hvalues entry hmem)⟩
    exact ⟨_, toValue_map_ok_iff.2 ⟨vs, hvs, rfl⟩⟩

theorem exists_toValues (shapes : List Shape) (hshapes : allSendable shapes) {xs : List Datum}
    (hxs : List.Forall₂ Holds shapes xs) : ∃ vs, toValues xs = .ok vs :=
  match shapes, hshapes, hxs with
  | [], _, .nil => ⟨[], rfl⟩
  | shape :: shapes, hshapes, .cons hx hxs => by
    simp only [allSendable, Bool.and_eq_true] at hshapes
    obtain ⟨v, hv⟩ := exists_toValue shape hshapes.1 hx
    obtain ⟨vs, hvs⟩ := exists_toValues shapes hshapes.2 hxs
    exact ⟨v :: vs, toValues_cons_ok_iff.2 ⟨v, vs, hv, hvs, rfl⟩⟩

theorem exists_fieldValues (fields : List ShapeField) (hfields : fieldsSendable fields)
    {xs : List DatumField} (hxs : List.Forall₂ FieldHolds fields xs) :
    ∃ vs, fieldValues xs = .ok vs :=
  match fields, hfields, hxs with
  | [], _, .nil => ⟨[], rfl⟩
  | .field _ shape _ :: fields, hfields, .cons (.field hx) hxs => by
    simp only [fieldsSendable, Bool.and_eq_true] at hfields
    obtain ⟨v, hv⟩ := exists_toValue shape hfields.1 hx
    obtain ⟨vs, hvs⟩ := exists_fieldValues fields hfields.2 hxs
    exact ⟨v :: vs, fieldValues_cons_ok_iff.2 ⟨v, vs, hv, hvs, rfl⟩⟩

end

/-! ### Parts that are read back -/

/-- The fields of a struct are there to be drawn, also where the struct became a dict entry. -/
theorem hasParts_of_recast {vs : List Value} {w : Value} (h : Recast (.struct vs) w) :
    ∃ ws, List.Forall₂ Recast vs ws ∧ HasParts w ws := by
  cases h with
  | @struct _ ws hws => exact ⟨ws, hws, .struct ws⟩
  | pair hkey hvalue => exact ⟨_, .cons hkey (.cons hvalue .nil), .dictEntry _ _⟩

/-- Whether data is read back from its value where it has one, also where the value was recast. -/
def Restores (readings : Shape → Reading Datum) (shape : Shape) (x : Datum) : Prop :=
  ∀ v w, x.toValue = .ok v → Recast v w → (readings shape).read w = .ok x

inductive FieldRestores (readings : Shape → Reading Datum) : ShapeField → DatumField → Prop where
  | field {name : String} {shape : Shape} {fallback : Option Datum} {x : Datum}
      (h : shape.Restores readings x) :
      FieldRestores readings (.field name shape fallback) (.field name x)

section Restoring

variable {readings : Shape → Reading Datum} {shape : Shape} {shapes : List Shape}
  {xs : List Datum} {vs ws : List Value} {name : String}

/-- If elements are restored one by one, then so is the row of them. -/
theorem elements_restored (h : ∀ x ∈ xs, shape.Restores readings x) (hvs : toValues xs = .ok vs)
    (hws : List.Forall₂ Recast vs ws) :
    List.Forall₂ (fun w x => (readings shape).read w = .ok x) ws xs := by
  induction xs generalizing vs ws with
  | nil =>
    obtain rfl := Except.ok.inj hvs
    cases hws
    exact .nil
  | cons x xs ih =>
    obtain ⟨hfirst, hrest⟩ := List.forall_mem_cons.1 h
    obtain ⟨v, rest, hv, hvrest, rfl⟩ := toValues_cons_ok_iff.1 hvs
    cases hws with
    | cons hw hws => exact .cons (hfirst v _ hv hw) (ih hrest hvrest hws)

theorem parts_restored (h : List.Forall₂ (Restores readings) shapes xs)
    (hvs : toValues xs = .ok vs) (hws : List.Forall₂ Recast vs ws) :
    PartsRead (shapes.map fun shape => (readings shape).read) ws xs := by
  induction h generalizing vs ws with
  | nil =>
    obtain rfl := Except.ok.inj hvs
    cases hws
    exact .nil
  | cons hfirst _ ih =>
    obtain ⟨v, rest, hv, hvrest, rfl⟩ := toValues_cons_ok_iff.1 hvs
    cases hws with
    | cons hw hws => exact .cons (hfirst v _ hv hw) (ih hvrest hws)

/-- No field is missing, so none takes its fallback. -/
theorem fields_restored {fields : List ShapeField} {xs : List DatumField}
    (h : List.Forall₂ (FieldRestores readings) fields xs) (hvs : fieldValues xs = .ok vs)
    (hws : List.Forall₂ Recast vs ws) : FieldsRead readings fields ws xs := by
  induction h generalizing vs ws with
  | nil =>
    obtain rfl := Except.ok.inj hvs
    cases hws
    exact .nil
  | cons hfirst _ ih =>
    obtain ⟨hfirst⟩ := hfirst
    obtain ⟨v, rest, hv, hvrest, rfl⟩ := fieldValues_cons_ok_iff.1 hvs
    cases hws with
    | cons hw hws => exact .cons (hfirst v _ hv hw) (ih hvrest hws)

theorem entries_restored {key value : Shape} {entries : List (Datum × Datum)}
    (hkeys : ∀ entry ∈ entries, key.Restores readings entry.1)
    (hvalues : ∀ entry ∈ entries, value.Restores readings entry.2)
    (hvs : mapEntries none (stepsOf entries) = .ok vs) (hws : List.Forall₂ Recast vs ws) :
    ∃ pairs, ws = entryArray pairs ∧ List.Forall₂ (fun pair entry =>
      (readings key).read pair.1 = .ok entry.1 ∧
        (readings value).read pair.2 = .ok entry.2) pairs entries := by
  induction entries generalizing vs ws with
  | nil =>
    obtain rfl := Except.ok.inj hvs
    cases hws
    exact ⟨[], rfl, .nil⟩
  | cons entry entries ih =>
    obtain ⟨hkey, hkeys⟩ := List.forall_mem_cons.1 hkeys
    obtain ⟨hvalue, hvalues⟩ := List.forall_mem_cons.1 hvalues
    obtain ⟨k, v, rest, hk, hv, hvrest, rfl⟩ := mapEntries_cons_ok_iff.1 hvs
    cases hws with
    | cons hw hws =>
      obtain ⟨pairs, rfl, hpairs⟩ := ih hkeys hvalues hvrest hws
      -- an entry of a map is a dict entry already, so no pair turns into one here
      cases hw with
      | dictEntry hkw hvw =>
        exact ⟨(_, _) :: pairs, rfl, .cons ⟨hkey k _ hk hkw, hvalue v _ hv hvw⟩ hpairs⟩

/-! ### Containers that are read back -/

variable (laws : ReadingLaws readings)

include laws

theorem restores_sequence (h : ∀ x ∈ xs, shape.Restores readings x) :
    (Shape.sequence shape).Restores readings (.sequence xs) := by
  intro v w hv hw
  obtain ⟨vs, hvs, rfl⟩ := toValue_sequence_ok_iff.1 hv
  cases hw with
  | array hws => exact (laws.sequence shape _ xs (elements_restored h hvs hws)).read_eq (.array _)

theorem restores_array (h : ∀ x ∈ xs, shape.Restores readings x) :
    (Shape.array xs.length shape).Restores readings (.tuple xs) := by
  intro v w hv hw
  obtain ⟨vs, hvs, rfl⟩ := toValue_tuple_ok_iff.1 hv
  obtain ⟨ws, hws, hparts⟩ := hasParts_of_recast hw
  have hread := elements_restored h hvs hws
  rw [← hread.length_eq]
  exact (laws.array shape ws xs hread).read_eq hparts

theorem restores_tuple (h : List.Forall₂ (Restores readings) shapes xs) :
    (Shape.tuple shapes).Restores readings (.tuple xs) := by
  intro v w hv hw
  obtain ⟨vs, hvs, rfl⟩ := toValue_tuple_ok_iff.1 hv
  obtain ⟨ws, hws, hparts⟩ := hasParts_of_recast hw
  exact (laws.tuple shapes ws xs (parts_restored h hvs hws)).read_eq hparts

theorem restores_tupleStruct (h : List.Forall₂ (Restores readings) shapes xs) :
    (Shape.tupleStruct name shapes).Restores readings (.tupleStruct name xs) := by
  intro v w hv hw
  obtain ⟨vs, hvs, rfl⟩ := toValue_tupleStruct_ok_iff.1 hv
  obtain ⟨ws, hws, hparts⟩ := hasParts_of_recast hw
  exact (laws.tupleStruct name shapes ws xs (parts_restored h hvs hws)).read_eq hparts

theorem restores_struct {fields : List ShapeField} {xs : List DatumField}
    (h : List.Forall₂ (FieldRestores readings) fields xs) :
    (Shape.struct name fields).Restores readings (.struct name xs) := by
  intro v w hv hw
  obtain ⟨vs, hvs, rfl⟩ := toValue_struct_ok_iff.1 hv
  obtain ⟨ws, hws, hparts⟩ := hasParts_of_recast hw
  exact (laws.struct name fields ws xs (fields_restored h hvs hws)).read_eq hparts

theorem restores_map {key value : Shape} {order : Datum → Datum → Ordering}
    {entries : List (Datum × Datum)} (horder : Ascending order entries)
    (hkeys : ∀ entry ∈ entries, key.Restores readings entry.1)
    (hvalues : ∀ entry ∈ entries, value.Restores readings entry.2) :
    (Shape.map key value order).Restores readings (.map (stepsOf entries)) := by
  intro v w hv hw
  obtain ⟨vs, hvs, rfl⟩ := toValue_map_ok_iff.1 hv
  cases hw with
  | array hws =>
    obtain ⟨pairs, rfl, hpairs⟩ := entries_restored hkeys hvalues hvs hws
    rw [← ofEntries_of_ascending horder]
    exact (laws.map key value order pairs entries hpairs).read_eq

theorem restores_newtypeStruct {x : Datum} (h : shape.Restores readings x) :
    (Shape.newtypeStruct name shape).Restores readings (.newtypeStruct name x) := by
  intro v w hv hw
  exact (laws.newtypeStruct name shape w x (h v w hv hw)).read_eq rfl nofun nofun

end Restoring

/-! ### Whole values -/

section Whole

variable {readings : Shape → Reading Datum}

mutual

/-- Data is read back from its value, whatever containers it consists of. Where a part has no
    value, the whole has none either. -/
theorem restores_of_holds (laws : ReadingLaws readings) (shape : Shape) {x : Datum}
    (hx : shape.Holds x) (hnan : x.nanFree) : shape.Restores readings x :=
  match shape, hx, hnan with
  | .bool, .bool b, _ => by
    rintro _ _ ⟨⟩ ⟨⟩
    exact (laws.bool b).read_eq rfl nofun nofun
  | .int _, .int n, _ => by
    rintro _ _ ⟨⟩ (_ | hval)
    exact (laws.int _ n hval.symm).read_eq rfl nofun nofun
  | .single, .single x, hnan => by
    rintro _ _ ⟨⟩ ⟨⟩
    have hread : (readings .single).read (.double x.toDouble) = .ok (.single (.ofDouble _)) :=
      (laws.single _ (Single.isNumber_toDouble hnan)).read_eq rfl nofun nofun
    rwa [Single.ofDouble_toDouble hnan] at hread
  | .double, .double x, _ => by
    rintro _ _ ⟨⟩ ⟨⟩
    exact (laws.double x).read_eq rfl nofun nofun
  | .char, .char c, _ => by
    rintro _ _ ⟨⟩ ⟨⟩
    exact (laws.char c).read_eq rfl nofun nofun
  | .text, .text s, _ => by
    rintro _ _ ⟨⟩ ⟨⟩
    exact (laws.text s).read_eq rfl nofun nofun
  -- no data of these types has a value
  | .extraInt _, .extraInt _, _ | .unit, .unit, _ | .unitStruct _, .unitStruct _, _
  | .optional _, .absent _, _ | .optional _, .present _, _ => nofun
  | .newtypeStruct _ shape, .newtypeStruct hx, hnan => by
    rw [nanFree] at hnan
    exact restores_newtypeStruct laws (restores_of_holds laws shape hx hnan)
  | .sequence shape, .sequence hxs, hnan =>
    restores_sequence laws fun x hmem =>
      restores_of_holds laws shape (hxs x hmem) (allNanFree_iff.1 hnan x hmem)
  | .array _ shape, .array hxs, hnan =>
    restores_array laws fun x hmem =>
      restores_of_holds laws shape (hxs x hmem) (allNanFree_iff.1 hnan x hmem)
  | .tuple shapes, .tuple hxs, hnan =>
    restores_tuple laws (allRestores_of_holds laws shapes hxs hnan)
  | .tupleStruct _ shapes, .tupleStruct hxs, hnan =>
    restores_tupleStruct laws (allRestores_of_holds laws shapes hxs hnan)
  | .struct _ fields, .struct hxs, hnan =>
    restores_struct laws (fieldsRestore_of_holds laws fields hxs hnan)
  | .map key value _, .map horder hkeys hvalues, hnan => by
    have hfree := stepsNanFree_stepsOf_iff.1 hnan
    refine restores_map laws horder ?_ ?_
    · intro entry hmem
      exact restores_of_holds laws key (hkeys entry hmem) (hfree entry hmem).1
    · intro entry hmem
      exact restores_of_holds laws value (hvalues entry hmem) (hfree entry hmem).2
  | .enumeration name variants, @Holds.unitVariant _ variant _ index hnames hvariant, _ => by
    rintro _ _ ⟨⟩ ⟨⟩
    exact (laws.unitVariant name variants index variant hnames hvariant).read_eq rfl nofun nofun

theorem allRestores_of_holds (laws : ReadingLaws readings) (shapes : List Shape) {xs : List Datum}
    (hxs : List.Forall₂ Holds shapes xs) (hnan : allNanFree xs) :
    List.Forall₂ (Restores readings) shapes xs :=
  match shapes, hxs, hnan with
  | [], .nil, _ => .nil
  | shape :: shapes, .cons hx hxs, hnan => by
    simp only [allNanFree, Bool.and_eq_true] at hnan
    exact .cons (restores_of_holds laws shape hx hnan.1)
      (allRestores_of_holds laws shapes hxs hnan.2)

theorem fieldsRestore_of_holds (laws : ReadingLaws readings) (fields : List ShapeField)
    {xs : List DatumField} (hxs : List.Forall₂ FieldHolds fields xs) (hnan : fieldsNanFree xs) :
    List.Forall₂ (FieldRestores readings) fields xs :=
  match fields, hxs, hnan with
  | [], .nil, _ => .nil
  | .field _ shape _ :: fields, .cons (.field hx) hxs, hnan => by
    simp only [fieldsNanFree, Bool.and_eq_true] at hnan
    exact .cons (.field (restores_of_holds laws shape hx hnan.1))
      (fieldsRestore_of_holds laws fields hxs hnan.2)

end

/-- Data of a type without single precision is read back from its value, also from one that was
    recast. -/
theorem read_of_toValue (laws : ReadingLaws readings) (shape : Shape)
    (hshape : shape.withoutSingle) {x : Datum} {v w : Value} (hx : shape.Holds x)
    (hv : x.toValue = .ok v) (hw : Recast v w) : (readings shape).read w = .ok x :=
  restores_of_holds laws shape hx (nanFree_of_withoutSingle shape hshape hx) v w hv hw

end Whole

/-- Data of a type has a value, and reading that value by the type gives back the data, to the
    last bit of every number, however the types of the program read within the laws. -/
theorem read_toValue (readings : Shape → Reading Datum) (laws : ReadingLaws readings)
    (shape : Shape) (x : Datum) (hshape : shape.sendable) (hx : shape.Holds x)
    (hnan : x.nanFree) :
    ∃ v, x.toValue = .ok v ∧ (readings shape).read v = .ok x := by
  obtain ⟨v, hv⟩ := exists_toValue shape hshape hx
  exact ⟨v, hv, restores_of_holds laws shape hx hnan v v hv (Recast.refl v)⟩

/-- A map whose keys are variants, of which the later one comes first, with a tenth of single
    precision and a text with a NUL character. -/
theorem read_toValue_map :
    (Datum.map (stepsOf [
        (.unitVariant "Level" 1 "high", .tuple [.single ⟨0x3dcccccd⟩, .text "a\x00"]),
        (.unitVariant "Level" 0 "low", .tuple [.single ⟨0x80000000⟩, .text ""])])).toValue =
      .ok (.array [
        .dictEntry (.text "high") (.struct [.double ⟨0x3fb99999a0000000⟩, .text "a\x00"]),
        .dictEntry (.text "low") (.struct [.double ⟨0x8000000000000000⟩, .text ""])]) ∧
    ((Shape.map (.enumeration "Level" [("low", .unit), ("high", .unit)]) (.tuple [.single, .text])
        fun a b => b.order a).reading.read
      (.array [
        .dictEntry (.text "high") (.struct [.double ⟨0x3fb99999a0000000⟩, .text "a\x00"]),
        .dictEntry (.text "low") (.struct [.double ⟨0x8000000000000000⟩, .text ""])])) =
      .ok (.map (stepsOf [
        (.unitVariant "Level" 1 "high", .tuple [.single ⟨0x3dcccccd⟩, .text "a\x00"]),
        (.unitVariant "Level" 0 "low", .tuple [.single ⟨0x80000000⟩, .text ""])])) := by
  have hvalue : ∀ (y : Single) (s : String),
      (Shape.tuple [.single, .text]).Holds (.tuple [.single y, .text s]) := by
    intro y s
    exact .tuple (.cons (.single y) (.cons (.text s) .nil))
  have hholds : (Shape.map (.enumeration "Level" [("low", .unit), ("high", .unit)])
      (.tuple [.single, .text]) fun a b => b.order a).Holds (.map (stepsOf [
        (.unitVariant "Level" 1 "high", .tuple [.single ⟨0x3dcccccd⟩, .text "a\x00"]),
        (.unitVariant "Level" 0 "low", .tuple [.single ⟨0x80000000⟩, .text ""])])) := by
    refine .map (List.pairwise_pair.2 (by decide)) ?_ ?_
    · simpa using ⟨.unitVariant (by decide) rfl, .unitVariant (by decide) rfl⟩
    · simpa using ⟨hvalue _ _, hvalue _ _⟩
  obtain ⟨v, hv, hread⟩ := read_toValue reading readingLaws_reading _ _ rfl hholds rfl
  cases hv
  exact ⟨rfl, hread⟩

end Shape

end Marshal
