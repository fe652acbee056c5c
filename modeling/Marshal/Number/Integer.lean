import Marshal.Signature.ScalarType

/-!
  Integers of a fixed type.

  An `Integer` is a number together with the integer type that holds it, and a
  proof that it does. On the wire it is a word: `toWord` is two's complement and
  `ofWord` reads it back (`ofWord_toWord`, `toWord_ofWord`).

  `ofInt?` is what `try_from` does between integer types.
-/

namespace Marshal

namespace IntType

theorem modulus_pos (c : IntType) : 0 < c.modulus := Nat.pow_pos (n := c.width) (by decide)

/-- The number that a word stands for. In a signed type the upper half of the
    words stands for the negative numbers. -/
def interpret (c : IntType) (word : Nat) : Int :=
  let rest := word % c.modulus
  if c.signed ∧ c.modulus / 2 ≤ rest then (rest : Int) - c.modulus else rest

theorem contains_interpret (c : IntType) (word : Nat) : c.Contains (c.interpret word) := by
  have h := Nat.mod_lt word c.modulus_pos
  cases c <;> simp [Contains, interpret, lo, hi, signed, modulus, width] at h ⊢ <;> omega

end IntType

structure Integer where
  type : IntType
  val : Int
  contains_val : type.Contains val
deriving DecidableEq, Repr

namespace Integer

def ofInt? (type : IntType) (n : Int) : Option Integer :=
  if h : type.Contains n then some ⟨type, n, h⟩ else none

theorem ofInt?_eq_some_iff {type : IntType} {n : Int} {m : Integer} :
    ofInt? type n = some m ↔ m.type = type ∧ m.val = n := by
  obtain ⟨c, k, hk⟩ := m
  unfold ofInt?
  constructor
  · intro h
    split at h
    · cases h
      exact ⟨rfl, rfl⟩
    · cases h
  · intro h
    obtain ⟨rfl, rfl⟩ := h
    exact dif_pos hk

def ofWord (type : IntType) (word : Nat) : Integer :=
  ⟨type, type.interpret word, type.contains_interpret word⟩

/-- The word of a number: the number itself, or its two's complement. -/
def toWord (n : Integer) : Nat := (n.val % n.type.modulus).toNat

theorem toWord_lt (n : Integer) : n.toWord < n.type.modulus := by
  have h := n.type.modulus_pos
  have := Int.emod_lt_of_pos n.val (Int.natCast_pos.2 h)
  have := Int.emod_nonneg n.val (b := n.type.modulus) (by omega)
  unfold toWord
  omega

/-- A number comes back from its two's complement. -/
@[simp]
theorem ofWord_toWord (n : Integer) : ofWord n.type n.toWord = n := by
  obtain ⟨c, v, h⟩ := n
  simp only [ofWord, mk.injEq, true_and]
  cases c <;>
    simp [IntType.Contains, IntType.interpret, toWord, IntType.lo, IntType.hi, IntType.signed,
      IntType.modulus, IntType.width] at h ⊢ <;> omega

theorem toWord_ofWord {c : IntType} {word : Nat} (h : word < c.modulus) :
    (ofWord c word).toWord = word := by
  cases c <;>
    simp [ofWord, toWord, IntType.interpret, IntType.signed, IntType.modulus, IntType.width]
      at h ⊢ <;> omega

end Integer

end Marshal
