import Marshal.Datum.Shape
import Marshal.Proofs.Datum.Visits
import Marshal.Proofs.Number.Nearest
import Mathlib.Data.List.Forall2

/-!
  What is known of the readings of a program.

  How a type asks for a value and what its visitor makes of the offer is up to the program.
  `ReadingLaws` says what the types of a program do on the way to success: which offers they take
  (`Reading.Takes`), and which elements or entries they draw (`Reading.Draws`,
  `Reading.DrawsEntries`). None of the laws is about a value: what a value offers and which pieces
  it hands out is shown here (`Reading.Takes.read_eq`, `Reading.Draws.read_eq`,
  `Reading.DrawsEntries.read_eq`). The readings that programs commonly have follow the laws
  (`readingLaws_reading`).
-/

namespace Marshal

namespace Datum

/-! ### What a value hands out -/

def elementExchanges (vs : List Value) : List (Unit × Option Value) := vs.map fun v => ((), some v)

/-- The requests for all keys and values of some entries, each with its answer. -/
def entryExchanges : List (Value × Value) → List (Draw × Except Error (Option Value))
  | [] => [(.key, .ok none)]
  | (key, value) :: entries =>
      (.key, .ok (some key)) :: (.value, .ok (some value)) :: entryExchanges entries

def entryArray (entries : List (Value × Value)) : List Value :=
  entries.map fun entry => .dictEntry entry.1 entry.2

theorem served_elementExchanges (vs : List Value) :
    Served serveElement vs (elementExchanges vs) [] := by
  induction vs with
  | nil => exact .nil []
  | cons v vs ih => exact .cons rfl ih

theorem served_none : Served serveElement [] [((), none)] [] := .cons rfl (.nil [])

theorem served_entryExchanges (entries : List (Value × Value)) :
    Served EntryCursor.serve (.start (entryArray entries)) (entryExchanges entries)
      (.start []) := by
  induction entries with
  | nil => exact .cons rfl (.nil _)
  | cons entry entries ih => exact .cons rfl (.cons rfl ih)

/-! ### Readings on the way to success -/

namespace Reading

variable {reading : Reading Datum} {x : Datum}

/-- Whether a reading asks in some way and takes an offer as a whole for a piece of data. -/
structure Takes (reading : Reading Datum) (hint : Hint) (o : Offer) (x : Datum) : Prop where
  hint_eq : reading.hint = hint
  whole_eq : reading.visitor.whole o = .ok x

/-- Whether a reading ends with a piece of data after it has drawn these elements, one after
    another, from a sequence of that many, and maybe has been told that there are no more. -/
structure Draws (reading : Reading Datum) (vs : List Value) (x : Datum) : Prop where
  hint_eq : reading.hint = .plain
  ends : ∃ last, (last = [] ∨ last = [((), none)]) ∧
    (reading.visitor.elements vs.length).Ends (elementExchanges vs ++ last) (.ok x)

/-- Whether a reading asks for a map and ends with a piece of data after it has drawn these entries,
    the key of each before its value, and has been told that there are no more. -/
structure DrawsEntries (reading : Reading Datum) (entries : List (Value × Value)) (x : Datum) :
    Prop where
  hint_eq : reading.hint = .map
  ends : (reading.visitor.entries entries.length).Ends (entryExchanges entries) (.ok x)

/-- A visitor of sequences draws all parts if it ends after it has been given each of them. -/
theorem draws_of_ends {vs : List Value} (hhint : reading.hint = .plain)
    (h : (reading.visitor.elements vs.length).Ends (elementExchanges vs) (.ok x)) :
    reading.Draws vs x :=
  ⟨hhint, [], .inl rfl, by rwa [List.append_nil]⟩

theorem Takes.read_eq {hint : Hint} {o : Offer} {v : Value} (h : reading.Takes hint o x)
    (hoffer : offer hint v = .ok o) (hsequence : ∀ vs, o ≠ .sequence vs)
    (hmap : ∀ vs, o ≠ .map vs) : reading.read v = .ok x := by
  rw [read, visit, h.hint_eq, hoffer, ok_bind]
  split
  · next vs => exact absurd rfl (hsequence vs)
  · next vs => exact absurd rfl (hmap vs)
  · exact h.whole_eq

theorem Draws.read_eq {v : Value} {vs : List Value} (h : reading.Draws vs x)
    (hparts : HasParts v vs) : reading.read v = .ok x := by
  obtain ⟨last, hlast, hends⟩ := h.ends
  have hserved : Served serveElement vs (elementExchanges vs ++ last) [] := by
    apply (served_elementExchanges vs).append
    rcases hlast with rfl | rfl
    · exact .nil []
    · exact served_none
  rw [read, visit, h.hint_eq, offer_plain_of_hasParts hparts, ok_bind]
  exact read_of_ends hends hserved (endSequence_ok_iff.2 rfl)

theorem DrawsEntries.read_eq {entries : List (Value × Value)} (h : reading.DrawsEntries entries x) :
    reading.read (.array (entryArray entries)) = .ok x := by
  have hlength : (entryArray entries).length = entries.length := List.length_map _
  have hends := h.ends
  rw [← hlength] at hends
  rw [read, visit, h.hint_eq]
  exact read_of_ends hends (served_entryExchanges entries) (EntryCursor.finish_ok_iff.2 rfl)

end Reading

/-- Whether readings, one for each part, make these data of these values. -/
inductive PartsRead : List (Value → Except Error Datum) → List Value → List Datum → Prop where
  | nil : PartsRead [] [] []
  | cons {read : Value → Except Error Datum} {v : Value} {x : Datum}
      {reads : List (Value → Except Error Datum)} {vs : List Value} {xs : List Datum}
      (h : read v = .ok x) (hrest : PartsRead reads vs xs) :
      PartsRead (read :: reads) (v :: vs) (x :: xs)

theorem partsRead_replicate {read : Value → Except Error Datum} {vs : List Value} {xs : List Datum}
    (h : List.Forall₂ (fun v x => read v = .ok x) vs xs) :
    PartsRead (List.replicate vs.length read) vs xs := by
  induction h with
  | nil => exact .nil
  | cons h _ ih => exact .cons h ih

inductive FieldsRead (readings : Shape → Reading Datum) :
    List ShapeField → List Value → List DatumField → Prop where
  | nil : FieldsRead readings [] [] []
  | cons {name : String} {shape : Shape} {fallback : Option Datum} {v : Value} {x : Datum}
      {fields : List ShapeField} {vs : List Value} {xs : List DatumField}
      (h : (readings shape).read v = .ok x) (hrest : FieldsRead readings fields vs xs) :
      FieldsRead readings (.field name shape fallback :: fields) (v :: vs) (.field name x :: xs)

/-! ### The laws -/

/-- What the types of a program do with what they are offered. A number is accepted where it fits
    and rounded once where it becomes a floating point number. What a container is made of is read
    by the types of its parts. -/
structure ReadingLaws (readings : Shape → Reading Datum) : Prop where
  bool (b : Bool) : (readings .bool).Takes .plain (.bool b) (.bool b)
  int (m n : Integer) (h : m.val = n.val) :
    (readings (.int n.type)).Takes .plain (.int m) (.int n)
  double (x : Double) : (readings .double).Takes .plain (.double x) (.double x)
  rounded (n : Integer) (x : Double) (h : x.IsNearest n.val) :
    (readings .double).Takes .plain (.int n) (.double x)
  single (x : Double) (h : x.isNumber) :
    (readings .single).Takes .plain (.double x) (.single (.ofDouble x))
  char (c : Char) : (readings .char).Takes .plain (.text c.toString) (.char c)
  text (s : String) : (readings .text).Takes .plain (.text s) (.text s)
  newtypeStruct (name : String) (shape : Shape) (v : Value) (x : Datum)
    (h : (readings shape).read v = .ok x) :
    (readings (.newtypeStruct name shape)).Takes .newtype (.newtype v) (.newtypeStruct name x)
  unitVariant (name : String) (variants : List (String × VariantKind)) (index : Nat)
    (variant : String) (hnames : (variants.map (·.1)).Nodup)
    (h : variants[index]? = some (variant, .unit)) :
    (readings (.enumeration name variants)).Takes .enumeration (.variant variant)
      (.unitVariant name index variant)
  sequence (shape : Shape) (vs : List Value) (xs : List Datum)
    (h : List.Forall₂ (fun v x => (readings shape).read v = .ok x) vs xs) :
    (readings (.sequence shape)).Draws vs (.sequence xs)
  array (shape : Shape) (vs : List Value) (xs : List Datum)
    (h : List.Forall₂ (fun v x => (readings shape).read v = .ok x) vs xs) :
    (readings (.array vs.length shape)).Draws vs (.tuple xs)
  tuple (shapes : List Shape) (vs : List Value) (xs : List Datum)
    (h : PartsRead (shapes.map fun shape => (readings shape).read) vs xs) :
    (readings (.tuple shapes)).Draws vs (.tuple xs)
  tupleStruct (name : String) (shapes : List Shape) (vs : List Value) (xs : List Datum)
    (h : PartsRead (shapes.map fun shape => (readings shape).read) vs xs) :
    (readings (.tupleStruct name shapes)).Draws vs (.tupleStruct name xs)
  struct (name : String) (fields : List ShapeField) (vs : List Value) (xs : List DatumField)
    (h : FieldsRead readings fields vs xs) :
    (readings (.struct name fields)).Draws vs (.struct name xs)
  map (key value : Shape) (order : Datum → Datum → Ordering) (entries : List (Value × Value))
    (xs : List (Datum × Datum))
    (h : List.Forall₂ (fun entry x =>
      (readings key).read entry.1 = .ok x.1 ∧ (readings value).read entry.2 = .ok x.2) entries xs) :
    (readings (.map key value order)).DrawsEntries entries (.ofEntries order xs)

end Datum

/-! ### Readings that follow the laws -/

namespace Shape

open Datum

section Drawing

variable {read readKey readValue : Value → Except Error Datum} {v : Value} {x : Datum}
  {vs : List Value} {xs : List Datum}

theorem ends_done {Question Answer : Type} (h : read v = .ok x) :
    (Reader.done (read v) : Reader Question Answer Datum).Ends [] (.ok x) := by
  rw [← h]
  exact .done (read v)

/-- The reader asks once more than there are elements, and stops at the answer that there are none
left. -/
theorem ends_drawAll (h : List.Forall₂ (fun v x => read v = .ok x) vs xs) :
    (drawAll read (vs.length + 1)).Ends (elementExchanges vs ++ [((), none)]) (.ok xs) := by
  induction h with
  | nil => exact .ask (.done _)
  | cons hfirst _ ih => exact .ask ((ends_done hfirst).bind ih.map)

theorem ends_drawOr {missing : Except Error Datum} (h : read v = .ok x) :
    (drawOr missing read).Ends [((), some v)] (.ok x) :=
  .ask (ends_done h)

theorem ends_drawParts {reads : List (Value → Except Error Datum)} (h : PartsRead reads vs xs)
    (expected : Expectation) (index : Nat) :
    (drawParts expected index reads).Ends (elementExchanges vs) (.ok xs) := by
  induction h generalizing index with
  | nil => exact .done _
  | cons hfirst _ ih => exact (ends_drawOr hfirst).bind (ih (index + 1)).map

theorem ends_drawFields {fields : List ShapeField} {xs : List DatumField}
    (h : FieldsRead reading fields vs xs) (expected : Expectation) (index : Nat) :
    (drawFields expected index (fieldReadings fields)).Ends (elementExchanges vs) (.ok xs) := by
  induction h generalizing index with
  | nil => exact .done _
  | cons hfirst _ ih => exact (ends_drawOr hfirst).bind (ih (index + 1)).map

theorem ends_drawEntries {entries : List (Value × Value)} {xs : List (Datum × Datum)}
    (h : List.Forall₂ (fun entry x =>
      readKey entry.1 = .ok x.1 ∧ readValue entry.2 = .ok x.2) entries xs) :
    (drawEntries readKey readValue (entries.length + 1)).Ends (entryExchanges entries)
      (.ok xs) := by
  induction h with
  | nil => exact .ask (.done _)
  | cons hfirst _ ih =>
    exact .ask ((ends_done hfirst.1).bind (.ask ((ends_done hfirst.2).bind ih.map)))

end Drawing

theorem partReadings_eq (shapes : List Shape) :
    partReadings shapes = shapes.map fun shape => shape.reading.read := by
  induction shapes with
  | nil => rfl
  | cons shape shapes ih => rw [partReadings, ih, List.map_cons]

/-- A variant is found under its name where no other one has that name. -/
theorem variant_of_getElem? {variants : List (String × VariantKind)} {index : Nat} {name : String}
    {kind : VariantKind} (hnames : (variants.map (·.1)).Nodup)
    (h : variants[index]? = some (name, kind)) :
    variants.findIdx? (·.1 == name) = some index ∧ variants.lookup name = some kind := by
  induction variants generalizing index with
  | nil => cases h
  | cons first variants ih =>
    obtain ⟨key, firstKind⟩ := first
    obtain ⟨hfirst, hrest⟩ := List.nodup_cons.1 hnames
    cases index with
    | zero =>
      cases h
      simp [List.findIdx?_cons]
    | succ index =>
      have hmem : (name, kind) ∈ variants := List.mem_of_getElem? h
      have hne : key ≠ name := by
        intro hsame
        rw [hsame] at hfirst
        exact hfirst (List.mem_map.2 ⟨(name, kind), hmem, rfl⟩)
      have hbeq : (name == key) = false := beq_eq_false_iff_ne.2 hne.symm
      obtain ⟨hindex, hkind⟩ := ih hrest h
      constructor
      · simp [List.findIdx?_cons, hne, hindex]
      · simp only [List.lookup_cons, hbeq, hkind]

/-- The readings that programs commonly have follow the laws. -/
theorem readingLaws_reading : ReadingLaws reading where
  bool _ := ⟨rfl, rfl⟩
  int m n h := by
    have hfits := Integer.ofInt?_eq_some_iff.2 ⟨rfl, h.symm⟩
    refine ⟨rfl, ?_⟩
    simp only [reading, plainly, takeInt, hfits]
  double _ := ⟨rfl, rfl⟩
  rounded n x h := by
    rw [eq_ofInt_of_isNearest h]
    exact ⟨rfl, rfl⟩
  single _ _ := ⟨rfl, rfl⟩
  char c := by
    refine ⟨rfl, ?_⟩
    simp [reading, plainly, takeChar]
  text _ := ⟨rfl, rfl⟩
  newtypeStruct name shape v x h := by
    refine ⟨rfl, ?_⟩
    simp only [reading, takeNewtype, h]
    rfl
  unitVariant name variants index variant hnames h := by
    obtain ⟨hindex, hkind⟩ := variant_of_getElem? hnames h
    refine ⟨rfl, ?_⟩
    simp only [reading, takeVariant, hindex, hkind]
  sequence shape vs xs h := ⟨rfl, _, .inr rfl, (ends_drawAll h).map⟩
  array shape vs xs h :=
    Reading.draws_of_ends rfl (ends_drawParts (partsRead_replicate h) _ _).map
  tuple shapes vs xs h := by
    rw [← partReadings_eq] at h
    exact Reading.draws_of_ends rfl (ends_drawParts h _ _).map
  tupleStruct name shapes vs xs h := by
    rw [← partReadings_eq] at h
    exact Reading.draws_of_ends rfl (ends_drawParts h _ _).map
  struct name fields vs xs h := Reading.draws_of_ends rfl (ends_drawFields h _ _).map
  map key value order entries xs h := ⟨rfl, (ends_drawEntries h).map⟩

end Shape

end Marshal
