import Marshal.Datum.Visit

/-!
  The types of a program, as far as reading goes.

  A `Shape` is a type of a program. Its reading is not part of this library but comes with the
  program; `Shape.reading` are the readings that programs commonly have. Structs and tuples are read
  from any container by position, maps from arrays of dict entries, and variants without data from
  their names. Integers are read into any integer type that holds them and into both precisions.
  Elements are read in order, so the first one that does not fit is the error; only then is the
  number of elements checked.

  The operations of the library end where a `Reading` begins; the readings here are those of
  the `Deserialize` implementations that come with numbers, texts, options, lists, tuples,
  maps and derived structs and enumerations.
-/

namespace Marshal

namespace IntType

def typeName : IntType → String
  | .byte => "u8"
  | .int16 => "i16"
  | .uint16 => "u16"
  | .int32 => "i32"
  | .uint32 => "u32"
  | .int64 => "i64"
  | .uint64 => "u64"

end IntType

/-! ### The order of keys -/

namespace Datum

mutual

/-- The order of data whose type has none of its own making: numbers by size, text by its
    characters, lists from their first difference on, variants by their place in the enumeration. -/
def order : Datum → Datum → Ordering
  | .bool a => fun | .bool b => compare a b | _ => .eq
  | .int a => fun | .int b => compare a.val b.val | _ => .eq
  | .extraInt _ a => fun | .extraInt _ b => compare a b | _ => .eq
  | .char a => fun | .char b => compare a b | _ => .eq
  | .text a => fun | .text b => compare a b | _ => .eq
  | .absent => fun | .present _ => .lt | _ => .eq
  | .present a => fun | .present b => a.order b | .absent => .gt | _ => .eq
  | .newtypeStruct _ a => fun | .newtypeStruct _ b => a.order b | _ => .eq
  | .sequence as => fun | .sequence bs => orderList as bs | _ => .eq
  | .tuple as => fun | .tuple bs => orderList as bs | _ => .eq
  | .tupleStruct _ as => fun | .tupleStruct _ bs => orderList as bs | _ => .eq
  | .struct _ as => fun | .struct _ bs => orderFields as bs | _ => .eq
  | .map as => fun | .map bs => orderSteps as bs | _ => .eq
  | .unitVariant _ i _ => fun | .unitVariant _ j _ => compare i j | _ => .eq
  | _ => fun _ => .eq

def orderList : List Datum → List Datum → Ordering
  | [] => fun | [] => .eq | _ :: _ => .lt
  | a :: as => fun | [] => .gt | b :: bs => (a.order b).then (orderList as bs)

def orderFields : List DatumField → List DatumField → Ordering
  | [] => fun _ => .eq
  | .field _ a :: as => fun
      | [] => .eq
      | .field _ b :: bs => (a.order b).then (orderFields as bs)

def orderSteps : List MapStep → List MapStep → Ordering
  | [] => fun | [] => .eq | _ :: _ => .lt
  | .key a :: as => fun
      | [] => .gt
      | .key b :: bs => (a.order b).then (orderSteps as bs)
      | _ => .eq
  | .value a :: as => fun
      | [] => .gt
      | .value b :: bs => (a.order b).then (orderSteps as bs)
      | _ => .eq

end

end Datum

/-! ### Types of a program -/

mutual

inductive Shape where
  | bool
  | int (type : IntType)
  | extraInt (type : Datum.ExtraInt)
  | single
  | double
  | char
  | text
  | unit
  | unitStruct (name : String)
  /-- Accepts anything. A unit struct with this name stands for it. -/
  | ignored (name : String)
  | optional (shape : Shape)
  | newtypeStruct (name : String) (shape : Shape)
  | sequence (shape : Shape)
  | array (size : Nat) (shape : Shape)
  | tuple (shapes : List Shape)
  | tupleStruct (name : String) (shapes : List Shape)
  | struct (name : String) (fields : List ShapeField)
  /-- A map has its keys in an order of their own, which not every type of key shares. -/
  | map (key value : Shape) (order : Datum → Datum → Ordering := Datum.order)
  | enumeration (name : String) (variants : List (String × Datum.VariantKind))

/-- A field of a struct, with the data that stands for it when it is missing. -/
inductive ShapeField where
  | field (name : String) (shape : Shape) (fallback : Option Datum)

end

namespace Datum

/-- Adds an entry to a map whose keys ascend. A key that is there already keeps its
    place and gets the new value. -/
def insertEntry (order : Datum → Datum → Ordering) (key value : Datum) :
    List (Datum × Datum) → List (Datum × Datum)
  | [] => [(key, value)]
  | (k, v) :: entries =>
      match order key k with
      | .lt => (key, value) :: (k, v) :: entries
      | .eq => (k, value) :: entries
      | .gt => (k, v) :: insertEntry order key value entries

def ofEntries (order : Datum → Datum → Ordering) (entries : List (Datum × Datum)) : Datum :=
  .map (stepsOf (entries.foldl (fun map entry => insertEntry order entry.1 entry.2 map) []))

end Datum

namespace Shape

open Datum

/-! ### Offers that are taken as a whole -/

def refusing (expected : Expectation) : Visitor Datum where
  whole o := o.unexpected expected
  elements _ := .done (refuse (.invalidType .sequence expected))
  entries _ := .done (refuse (.invalidType .map expected))

def plainly (expected : Expectation) (take : Offer → Except Error Datum) : Reading Datum :=
  ⟨.plain, { refusing expected with whole := take }⟩

def takeBool : Offer → Except Error Datum
  | .bool b => .ok (.bool b)
  | o => o.unexpected .boolean

def takeInt (type : IntType) : Offer → Except Error Datum
  | .int n =>
      match Integer.ofInt? type n.val with
      | some m => .ok (.int m)
      | none => refuse (.invalidValue (.int n.val) (.number type.typeName))
  | o => o.unexpected (.number type.typeName)

def takeExtraInt (type : ExtraInt) : Offer → Except Error Datum
  | .int n =>
      if type.Contains n.val then .ok (.extraInt type n.val)
      else refuse (.invalidValue (.int n.val) (.number type.name))
  | o => o.unexpected (.number type.name)

def takeSingle : Offer → Except Error Datum
  | .int n => .ok (.single (.ofInt n.val))
  | .double x => .ok (.single (.ofDouble x))
  | o => o.unexpected (.number "f32")

def takeDouble : Offer → Except Error Datum
  | .int n => .ok (.double (.ofInt n.val))
  | .double x => .ok (.double x)
  | o => o.unexpected (.number "f64")

def takeChar : Offer → Except Error Datum
  | .text s =>
      match s.toList with
      | [c] => .ok (.char c)
      | _ => refuse (.invalidValue (.text s) .character)
  | o => o.unexpected .character

def takeText : Offer → Except Error Datum
  | .text s => .ok (.text s)
  | o => o.unexpected .text

def takePresent (read : Value → Except Error Datum) : Offer → Except Error Datum
  | .present v => .present <$> read v
  | o => o.unexpected .optional

def takeNewtype (name : String) (read : Value → Except Error Datum) : Offer → Except Error Datum
  | .newtype v => .newtypeStruct name <$> read v
  | o => o.unexpected (.tupleStruct name)

/-- The variant that a text names. Variants with data have no text. -/
def takeVariant (type : String) (variants : List (String × VariantKind)) :
    Offer → Except Error Datum
  | .variant s =>
      match variants.findIdx? (·.1 == s), variants.lookup s with
      | some index, some .unit => .ok (.unitVariant type index s)
      | _, some kind => refuse (.invalidType (.variant .unit) (.variant kind))
      | _, none => refuse (.unknownVariant s (variants.map (·.1)))
  | o => o.unexpected (.enumeration type)

/-! ### Offers that are drawn piece by piece -/

def element : Reader Unit (Option Value) (Option Value) := .ask () fun answer => .done (.ok answer)

/-- Draws elements until there are no more. No more than the limit are drawn. -/
def drawAll (read : Value → Except Error Datum) :
    (limit : Nat) → Reader Unit (Option Value) (List Datum)
  | 0 => return []
  | limit + 1 => do
      match ← element with
      | none => return []
      | some v => do
          let x ← read v
          let xs ← drawAll read limit
          return x :: xs

def drawOr (missing : Except Error Datum) (read : Value → Except Error Datum) :
    Reader Unit (Option Value) Datum := do
  match ← element with
  | none => missing
  | some v => read v

/-- Draws one element for each part. Parts are numbered from `index` on. -/
def drawParts (expected : Expectation) (index : Nat) :
    List (Value → Except Error Datum) → Reader Unit (Option Value) (List Datum)
  | [] => return []
  | read :: reads => do
      let x ← drawOr (refuse (.invalidLength index expected)) read
      let xs ← drawParts expected (index + 1) reads
      return x :: xs

structure FieldReading where
  name : String
  read : Value → Except Error Datum
  fallback : Option Datum

def FieldReading.missing (field : FieldReading) (index : Nat) (expected : Expectation) :
    Except Error Datum :=
  match field.fallback with
  | some x => .ok x
  | none => refuse (.invalidLength index expected)

/-- Draws one element for each field. A field without an element takes its fallback. -/
def drawFields (expected : Expectation) (index : Nat) :
    List FieldReading → Reader Unit (Option Value) (List DatumField)
  | [] => return []
  | field :: fields => do
      let x ← drawOr (field.missing index expected) field.read
      let xs ← drawFields expected (index + 1) fields
      return .field field.name x :: xs

def ask (draw : Draw) : Reader Draw (Except Error (Option Value)) (Option Value) := .ask draw .done

/-- Draws entries until there are no more, the key of each before its value. No more than the limit
    are drawn. -/
def drawEntries (readKey readValue : Value → Except Error Datum) :
    (limit : Nat) → Reader Draw (Except Error (Option Value)) (List (Datum × Datum))
  | 0 => return []
  | limit + 1 => do
      let some k ← ask .key | return []
      let key ← readKey k
      let some v ← ask .value | return []
      let value ← readValue v
      let entries ← drawEntries readKey readValue limit
      return (key, value) :: entries

def drawing (expected : Expectation)
    (elements : (announced : Nat) → Reader Unit (Option Value) Datum) : Reading Datum :=
  ⟨.plain, { refusing expected with elements := elements }⟩

/-- A reading that accepts anything. It draws all there is and looks into none of it, since nothing
    in it would be refused. -/
def ignoring (x : Datum) : Reading Datum where
  hint := .plain
  visitor := {
    whole := fun _ => .ok x
    elements := fun announced => do
      let _ ← drawAll (fun _ => .ok x) (announced + 1)
      return x
    entries := fun announced => do
      let _ ← drawEntries (fun _ => .ok x) (fun _ => .ok x) (announced + 1)
      return x }

/-! ### Readings -/

mutual

/-- How the types of a program commonly are read. -/
def reading : Shape → Reading Datum
  | .bool => plainly .boolean takeBool
  | .int type => plainly (.number type.typeName) (takeInt type)
  | .extraInt type => plainly (.number type.name) (takeExtraInt type)
  | .single => plainly (.number "f32") takeSingle
  | .double => plainly (.number "f64") takeDouble
  | .char => plainly .character takeChar
  | .text => plainly .text takeText
  | .unit => ⟨.plain, refusing .unit⟩
  | .unitStruct name => ⟨.plain, refusing (.unitStruct name)⟩
  | .ignored name => ignoring (.unitStruct name)
  | .optional shape =>
      ⟨.optional, { refusing .optional with whole := takePresent shape.reading.read }⟩
  | .newtypeStruct name shape =>
      ⟨.newtype, { refusing (.tupleStruct name) with whole := takeNewtype name shape.reading.read }⟩
  | .sequence shape =>
      drawing .sequence fun announced => .sequence <$> drawAll shape.reading.read (announced + 1)
  | .array size shape =>
      drawing (.array size) fun _ =>
        .tuple <$> drawParts (.array size) 0 (List.replicate size shape.reading.read)
  | .tuple shapes =>
      drawing (.tuple shapes.length) fun _ =>
        .tuple <$> drawParts (.tuple shapes.length) 0 (partReadings shapes)
  | .tupleStruct name shapes =>
      drawing (.tupleStruct name) fun _ => .tupleStruct name <$>
        drawParts (.tupleStructOfSize name shapes.length) 0 (partReadings shapes)
  | .struct name fields =>
      drawing (.struct name) fun _ => .struct name <$>
        drawFields (.structOfSize name fields.length) 0 (fieldReadings fields)
  | .map key value order =>
      ⟨.map, { refusing .map with
        entries := fun announced =>
          .ofEntries order <$> drawEntries key.reading.read value.reading.read (announced + 1) }⟩
  | .enumeration name variants =>
      ⟨.enumeration, { refusing (.enumeration name) with whole := takeVariant name variants }⟩

def partReadings : List Shape → List (Value → Except Error Datum)
  | [] => []
  | shape :: shapes => shape.reading.read :: partReadings shapes

def fieldReadings : List ShapeField → List FieldReading
  | [] => []
  | .field name shape fallback :: fields =>
      ⟨name, shape.reading.read, fallback⟩ :: fieldReadings fields

end

def decode (shape : Shape) (v : Value) : Except Error Datum := shape.reading.read v

end Shape

end Marshal
