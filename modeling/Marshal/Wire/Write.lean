import Marshal.Conformance.Basic
import Marshal.Text.Utf8
import Marshal.Wire.Word

/-!
  Writing a value as bytes.

  Numbers are words of a fixed width and booleans words of four bytes. Text has its
  length in bytes before it and a zero byte behind it, an array has its count before
  it, and structs and dict entries are their parts in order. The type only decides
  whether a value may be written.

  The operations are `write` on scalar codes and type nodes, and `to_bytes`.
-/

namespace Marshal.Wire

def maxCount : Nat := 0xFFFFFFFF

def textBytes (order : ByteOrder) (bytes : List UInt8) : List UInt8 :=
  order.toBytes 4 bytes.length ++ (bytes ++ [0])

def writeScalar (order : ByteOrder) : ScalarType → Value → Except Error (List UInt8)
  | .bool, .bool b => .ok (order.toBytes 4 b.toNat)
  | .int type, .int n =>
      if n.type = type then .ok (order.toBytes type.width n.toWord)
      else mismatch (.scalar (.int type)) (.value (.int n))
  | .double, .double x => .ok (order.toBytes 8 x.bits.toNat)
  | .text, .text s => do
      let _ ← checkScalar .text (.text s)
      let bytes := Text.Utf8.encode s.toList
      if bytes.length ≤ maxCount then return textBytes order bytes
      else mismatch (.scalar .text) .oversizedText
  | type, v => mismatch (.scalar type) (.value v)

mutual

def write (order : ByteOrder) : TypeTree → Value → Except Error (List UInt8)
  | .scalar type, v => writeScalar order type v
  | .array type, v => do
      let elements ← arrayElements (.array type) v
      if elements.length ≤ maxCount then
        let parts ← eachElement (write order type) 0 elements
        return order.toBytes 4 elements.length ++ parts.flatten
      else mismatch (.array type) .oversizedArray
  | .struct types, v => do
      let fields ← structFields types v
      writeFields order 0 types fields
  | .dictEntry keyType valueType, v => do
      let (key, value) ← entryHalves (.dictEntry keyType valueType) v
      let front ← inside .key (write order keyType key)
      let back ← inside .value (write order valueType value)
      return front ++ back

/-- The bytes of fields, numbered from `index` on. -/
def writeFields (order : ByteOrder) (index : Nat) :
    List TypeTree → List Value → Except Error (List UInt8)
  | type :: types, v :: vs => do
      let front ← inside (.field index) (write order type v)
      let back ← writeFields order (index + 1) types vs
      return front ++ back
  | [], _ => .ok []
  | _ :: _, [] => .ok []

end

end Marshal.Wire
