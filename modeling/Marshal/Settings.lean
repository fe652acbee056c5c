/-!
  How values are checked and written.

  `Settings` name the order in which the bytes of a number are written and how
  strictly a scalar must match the type it is checked against.

  The operations are those of a context: `new`, `native`, `with_endian` and `with_coercion`.
-/

namespace Marshal

inductive ByteOrder where
  /-- The lowest byte comes first. -/
  | little
  /-- The highest byte comes first. -/
  | big
deriving DecidableEq, Repr

/-- The byte order of the host, taken to be a little-endian one. -/
def ByteOrder.native : ByteOrder := .little

inductive Coercion where
  /-- A scalar has exactly the type that is asked for. -/
  | strict
  /-- An integer is converted to another integer type that holds it, or to a
      double. -/
  | weak
deriving DecidableEq, Repr

structure Settings where
  order : ByteOrder
  coercion : Coercion
deriving DecidableEq, Repr

namespace Settings

/-- The settings with a byte order, where scalars must match exactly. -/
def ofOrder (order : ByteOrder) : Settings := ⟨order, .strict⟩

def native : Settings := ofOrder .native

/-- Without a choice the lowest byte comes first and scalars must match exactly. -/
instance : Inhabited Settings := ⟨ofOrder .little⟩

def withOrder (s : Settings) (order : ByteOrder) : Settings := ⟨order, s.coercion⟩

def withCoercion (s : Settings) (coercion : Coercion) : Settings := ⟨s.order, coercion⟩

end Settings

end Marshal
