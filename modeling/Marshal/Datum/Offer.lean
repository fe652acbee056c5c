import Marshal.Datum.Basic

/-!
  How a value presents itself to a reader.

  A reader asks for a value in one of the ways of `Hint` and is made an `Offer`.
  What is offered as a sequence or a map is drawn piece by piece: from a list of
  elements, or from an `EntryCursor`, which hands out keys and values in turn.
  What the reader leaves behind is an error (`endSequence`, `EntryCursor.finish`), so
  nothing of a value is lost silently.

  The operations are `deserialize_any` (`plainOffer`) and, in `offer`, the requests that are
  answered otherwise: `deserialize_option`, `deserialize_newtype_struct`, `deserialize_bytes`,
  `deserialize_map` and `deserialize_enum`. `nextElement` is `next_element_seed`, and the
  cursor has `next_key_seed`, `next_value_seed` and `end`.
-/

namespace Marshal.Datum

/-! ### Asking and offering -/

/-- The ways of asking for a value that make a difference. -/
inductive Hint where
  | plain
  | optional
  | newtype
  | bytes
  | map
  | enumeration
deriving DecidableEq, Repr

inductive Offer where
  | bool (b : Bool)
  | int (n : Integer)
  | double (x : Double)
  | text (s : String)
  | bytes (bs : List UInt8)
  | present (v : Value)
  | newtype (v : Value)
  | sequence (elements : List Value)
  | map (elements : List Value)
  | variant (name : String)
deriving DecidableEq

def byte? : Value → Option UInt8
  | .int n => if n.type = .byte then some n.toWord.toUInt8 else none
  | _ => none

/-- What a value offers by itself. Every container is a sequence. -/
def plainOffer : Value → Offer
  | .bool b => .bool b
  | .int n => .int n
  | .double x => .double x
  | .text s => .text s
  | .array vs | .struct vs => .sequence vs
  | .dictEntry key value => .sequence [key, value]

def Offer.found : Offer → Found
  | .bool b => .bool b
  | .int n => .int n.val
  | .double x => .double x
  | .text s => .text s
  | .bytes _ => .bytes
  | .present _ => .optional
  | .newtype _ => .newtypeStruct
  | .sequence _ => .sequence
  | .map _ => .map
  | .variant _ => .enumeration

def Offer.unexpected {α : Type} (o : Offer) (expected : Expectation) : Except Error α :=
  refuse (.invalidType o.found expected)

/-- What a value offers when it is asked for in some way. Only an array is a map,
    only an array of bytes is bytes, and only a text is a variant. -/
def offer (hint : Hint) (v : Value) : Except Error Offer :=
  match hint with
  | .plain => .ok (plainOffer v)
  | .optional => .ok (.present v)
  | .newtype => .ok (.newtype v)
  | .bytes =>
      match v with
      | .array vs =>
          match vs.mapM byte? with
          | some bs => .ok (.bytes bs)
          | none => .ok (plainOffer v)
      | _ => .ok (plainOffer v)
  | .map =>
      match v with
      | .array vs => .ok (.map vs)
      | _ => .ok (plainOffer v)
  | .enumeration =>
      match v with
      | .text s => .ok (.variant s)
      | _ => refuse (.invalidType (.value v) .variantName)

/-! ### Drawing from a sequence -/

def nextElement : List Value → Option Value × List Value
  | [] => (none, [])
  | v :: vs => (some v, vs)

def endSequence (length : Nat) (left : List Value) : Except Error Unit :=
  if left.isEmpty then .ok () else refuse (.invalidLength length .fewerElements)

/-! ### Drawing from a map -/

/-- A map under way: the elements that have not been drawn, and the value of the
    last entry while nobody has asked for it. -/
structure EntryCursor where
  left : List Value
  pending : Option Value
deriving DecidableEq

namespace EntryCursor

def start (elements : List Value) : EntryCursor := ⟨elements, none⟩

/-- Draws the next key. An element that is no dict entry is used up all the same. -/
def nextKey (c : EntryCursor) : Except Error (Option Value) × EntryCursor :=
  match c.left with
  | [] => (.ok none, c)
  | .dictEntry key value :: left => (.ok (some key), ⟨left, some value⟩)
  | v :: left => (refuse (.invalidType (.value v) .dictEntry), ⟨left, c.pending⟩)

def nextValue (c : EntryCursor) : Except Error Value × EntryCursor :=
  match c.pending with
  | some value => (.ok value, ⟨c.left, none⟩)
  | none => (refuse .valueBeforeKey, c)

def finish (c : EntryCursor) : Except Error Unit :=
  if c.left.isEmpty then .ok () else refuse (.entriesLeft c.left.length)

end EntryCursor

end Marshal.Datum
