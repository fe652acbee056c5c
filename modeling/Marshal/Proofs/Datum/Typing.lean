import Marshal.Datum.Shape
import Marshal.Proofs.Number.Rounding
import Mathlib.Data.List.Forall2

/-!
  The data of a type.

  `Shape.Holds` relates a type of a program to the data that its values are handed over as.
  A map is handed over in the order of its keys, which is its own; since reading puts one entry
  after another into the map, it finds that order again (`Datum.ofEntries_of_ascending`).
  `Shape.sendable` picks out the types all of whose data has a value. A value does not keep which
  number of single precision was none, so data is told from its value where it has no such number
  (`Datum.nanFree`), which goes for every type without single precision (`Shape.withoutSingle`).
-/

namespace Marshal

/-! ### Maps in order -/

namespace Datum

section Maps

variable {order : Datum → Datum → Ordering} {entries : List (Datum × Datum)}

/-- The entries of a map, where every key is above the keys before it. -/
def Ascending (order : Datum → Datum → Ordering) (entries : List (Datum × Datum)) : Prop :=
  entries.Pairwise fun entry later => order later.1 entry.1 = .gt

/-- A key above all the others goes to the end of a map. -/
theorem insertEntry_of_above {key value : Datum} (h : ∀ entry ∈ entries, order key entry.1 = .gt) :
    insertEntry order key value entries = entries ++ [(key, value)] := by
  induction entries with
  | nil => rfl
  | cons entry entries ih =>
    obtain ⟨hfirst, hrest⟩ := List.forall_mem_cons.1 h
    simp only [insertEntry, hfirst, ih hrest, List.cons_append]

theorem foldl_insertEntry_of_ascending {front : List (Datum × Datum)}
    (h : Ascending order (front ++ entries)) :
    entries.foldl (fun map entry => insertEntry order entry.1 entry.2 map) front =
      front ++ entries := by
  induction entries generalizing front with
  | nil => exact (List.append_nil front).symm
  | cons entry entries ih =>
    have habove : ∀ earlier ∈ front, order entry.1 earlier.1 = .gt := by
      intro earlier hearlier
      exact (List.pairwise_append.1 h).2.2 earlier hearlier entry List.mem_cons_self
    have hsplit : front ++ entry :: entries = front ++ [entry] ++ entries := by
      rw [List.append_assoc, List.singleton_append]
    rw [List.foldl_cons, insertEntry_of_above habove, hsplit]
    apply ih
    rwa [← hsplit]

/-- The map of entries that ascend has them in the same order, whatever the order of keys is. -/
theorem ofEntries_of_ascending (h : Ascending order entries) :
    ofEntries order entries = .map (stepsOf entries) := by
  rw [ofEntries, foldl_insertEntry_of_ascending (show Ascending order ([] ++ entries) from h),
    List.nil_append]

end Maps

end Datum

namespace Shape

/-! ### The data of a type -/

mutual

/-- The data that the values of a type are handed over as. No type hands over what is read as
    `ignored`. Of the variants of an enumeration those without data are covered; each has a name of
    its own. -/
inductive Holds : Shape → Datum → Prop where
  | bool (b : Bool) : Holds .bool (.bool b)
  | int (n : Integer) : Holds (.int n.type) (.int n)
  | extraInt {type : Datum.ExtraInt} {n : Int} (h : type.Contains n) :
      Holds (.extraInt type) (.extraInt type n)
  | single (x : Single) : Holds .single (.single x)
  | double (x : Double) : Holds .double (.double x)
  | char (c : Char) : Holds .char (.char c)
  | text (s : String) : Holds .text (.text s)
  | unit : Holds .unit .unit
  | unitStruct (name : String) : Holds (.unitStruct name) (.unitStruct name)
  | absent (shape : Shape) : Holds (.optional shape) .absent
  | present {shape : Shape} {x : Datum} (h : Holds shape x) :
      Holds (.optional shape) (.present x)
  | newtypeStruct {name : String} {shape : Shape} {x : Datum} (h : Holds shape x) :
      Holds (.newtypeStruct name shape) (.newtypeStruct name x)
  | sequence {shape : Shape} {xs : List Datum} (h : ∀ x ∈ xs, Holds shape x) :
      Holds (.sequence shape) (.sequence xs)
  | array {shape : Shape} {xs : List Datum} (h : ∀ x ∈ xs, Holds shape x) :
      Holds (.array xs.length shape) (.tuple xs)
  | tuple {shapes : List Shape} {xs : List Datum} (h : List.Forall₂ Holds shapes xs) :
      Holds (.tuple shapes) (.tuple xs)
  | tupleStruct {name : String} {shapes : List Shape} {xs : List Datum}
      (h : List.Forall₂ Holds shapes xs) :
      Holds (.tupleStruct name shapes) (.tupleStruct name xs)
  | struct {name : String} {fields : List ShapeField} {xs : List DatumField}
      (h : List.Forall₂ FieldHolds fields xs) :
      Holds (.struct name fields) (.struct name xs)
  | map {key value : Shape} {order : Datum → Datum → Ordering} {entries : List (Datum × Datum)}
      (horder : Datum.Ascending order entries) (hkeys : ∀ entry ∈ entries, Holds key entry.1)
      (hvalues : ∀ entry ∈ entries, Holds value entry.2) :
      Holds (.map key value order) (.map (Datum.stepsOf entries))
  | unitVariant {name variant : String} {variants : List (String × Datum.VariantKind)}
      {index : Nat} (hnames : (variants.map (·.1)).Nodup)
      (h : variants[index]? = some (variant, .unit)) :
      Holds (.enumeration name variants) (.unitVariant name index variant)

inductive FieldHolds : ShapeField → DatumField → Prop where
  | field {name : String} {shape : Shape} {fallback : Option Datum} {x : Datum}
      (h : Holds shape x) : FieldHolds (.field name shape fallback) (.field name x)

end

mutual

/-- The types all of whose data has a value: there is no optional data, no unit and no number of a
    type that messages lack. -/
def sendable : Shape → Bool
  | .bool | .int _ | .single | .double | .char | .text | .enumeration .. => true
  | .extraInt _ | .unit | .unitStruct _ | .ignored _ | .optional _ => false
  | .newtypeStruct _ shape | .sequence shape | .array _ shape => shape.sendable
  | .tuple shapes | .tupleStruct _ shapes => allSendable shapes
  | .struct _ fields => fieldsSendable fields
  | .map key value _ => key.sendable && value.sendable

def allSendable : List Shape → Bool
  | [] => true
  | shape :: shapes => shape.sendable && allSendable shapes

def fieldsSendable : List ShapeField → Bool
  | [] => true
  | .field _ shape _ :: fields => shape.sendable && fieldsSendable fields

end

mutual

def withoutSingle : Shape → Bool
  | .single => false
  | .bool | .int _ | .extraInt _ | .double | .char | .text | .unit | .unitStruct _ | .ignored _
  | .enumeration .. => true
  | .optional shape | .newtypeStruct _ shape | .sequence shape | .array _ shape =>
      shape.withoutSingle
  | .tuple shapes | .tupleStruct _ shapes => allWithoutSingle shapes
  | .struct _ fields => fieldsWithoutSingle fields
  | .map key value _ => key.withoutSingle && value.withoutSingle

def allWithoutSingle : List Shape → Bool
  | [] => true
  | shape :: shapes => shape.withoutSingle && allWithoutSingle shapes

def fieldsWithoutSingle : List ShapeField → Bool
  | [] => true
  | .field _ shape _ :: fields => shape.withoutSingle && fieldsWithoutSingle fields

end

end Shape

/-! ### Data without what is no number -/

namespace Datum

mutual

/-- Whether every number of single precision in a piece of data is a number. -/
def nanFree : Datum → Bool
  | .single x => x.isNumber
  | .present x | .newtypeStruct _ x | .newtypeVariant _ _ _ x => x.nanFree
  | .sequence xs | .tuple xs | .tupleStruct _ xs | .tupleVariant _ _ _ xs => allNanFree xs
  | .struct _ fields | .structVariant _ _ _ fields => fieldsNanFree fields
  | .map steps => stepsNanFree steps
  | .bool _ | .int _ | .extraInt .. | .double _ | .char _ | .text _ | .bytes _ | .absent
  | .unit | .unitStruct _ | .unitVariant .. | .refusing _ => true

def allNanFree : List Datum → Bool
  | [] => true
  | x :: xs => x.nanFree && allNanFree xs

def fieldsNanFree : List DatumField → Bool
  | [] => true
  | .field _ x :: fields => x.nanFree && fieldsNanFree fields

def stepsNanFree : List MapStep → Bool
  | [] => true
  | .key x :: steps | .value x :: steps => x.nanFree && stepsNanFree steps

end

theorem allNanFree_iff {xs : List Datum} : allNanFree xs ↔ ∀ x ∈ xs, x.nanFree := by
  induction xs with
  | nil => simp [allNanFree]
  | cons x xs ih => simp [allNanFree, ih]

theorem stepsNanFree_stepsOf_iff {entries : List (Datum × Datum)} :
    stepsNanFree (stepsOf entries) ↔ ∀ entry ∈ entries, entry.1.nanFree ∧ entry.2.nanFree := by
  induction entries with
  | nil => simp [stepsOf, stepsNanFree]
  | cons entry entries ih =>
    rcases entry with ⟨key, value⟩
    simp [stepsOf, stepsNanFree, ih, and_assoc]

end Datum

namespace Shape

mutual

/-- Data of a type without single precision has no such numbers. -/
theorem nanFree_of_withoutSingle (shape : Shape) (hshape : shape.withoutSingle) {x : Datum}
    (hx : shape.Holds x) : x.nanFree :=
  match shape, hshape, hx with
  | .bool, _, .bool _ | .int _, _, .int _ | .extraInt _, _, .extraInt _ | .double, _, .double _
  | .char, _, .char _ | .text, _, .text _ | .unit, _, .unit | .unitStruct _, _, .unitStruct _
  | .optional _, _, .absent _ | .enumeration _ _, _, .unitVariant _ _ => rfl
  | .optional shape, hshape, .present hx | .newtypeStruct _ shape, hshape, .newtypeStruct hx => by
    rw [Datum.nanFree]
    exact nanFree_of_withoutSingle shape hshape hx
  | .sequence shape, hshape, .sequence hxs | .array _ shape, hshape, .array hxs =>
    Datum.allNanFree_iff.2 fun x hmem => nanFree_of_withoutSingle shape hshape (hxs x hmem)
  | .tuple shapes, hshapes, .tuple hxs | .tupleStruct _ shapes, hshapes, .tupleStruct hxs =>
    allNanFree_of_withoutSingle shapes hshapes hxs
  | .struct _ fields, hfields, .struct hxs => fieldsNanFree_of_withoutSingle fields hfields hxs
  | .map key value _, hshape, .map _ hkeys hvalues => by
    simp only [withoutSingle, Bool.and_eq_true] at hshape
    apply Datum.stepsNanFree_stepsOf_iff.2
    intro entry hmem
    exact ⟨nanFree_of_withoutSingle key hshape.1 (hkeys entry hmem),
      nanFree_of_withoutSingle value hshape.2 (hvalues entry hmem)⟩

theorem allNanFree_of_withoutSingle (shapes : List Shape) (hshapes : allWithoutSingle shapes)
    {xs : List Datum} (hxs : List.Forall₂ Holds shapes xs) : Datum.allNanFree xs :=
  match shapes, hshapes, hxs with
  | [], _, .nil => rfl
  | shape :: shapes, hshapes, .cons hx hxs => by
    simp only [allWithoutSingle, Bool.and_eq_true] at hshapes
    simp only [Datum.allNanFree, Bool.and_eq_true]
    exact ⟨nanFree_of_withoutSingle shape hshapes.1 hx,
      allNanFree_of_withoutSingle shapes hshapes.2 hxs⟩

theorem fieldsNanFree_of_withoutSingle (fields : List ShapeField)
    (hfields : fieldsWithoutSingle fields) {xs : List DatumField}
    (hxs : List.Forall₂ FieldHolds fields xs) : Datum.fieldsNanFree xs :=
  match fields, hfields, hxs with
  | [], _, .nil => rfl
  | .field _ shape _ :: fields, hfields, .cons (.field hx) hxs => by
    simp only [fieldsWithoutSingle, Bool.and_eq_true] at hfields
    simp only [Datum.fieldsNanFree, Bool.and_eq_true]
    exact ⟨nanFree_of_withoutSingle shape hfields.1 hx,
      fieldsNanFree_of_withoutSingle fields hfields.2 hxs⟩

end

end Shape

end Marshal
