/-!
  Paths into a message.

  A `Path` leads from the root of a message to one of its parts. Its text starts
  with `$` and has one piece for each step: `[3]` for an element, `.2` for a field,
  `.key` and `.value` for the halves of a dict entry.

  The operations are `root`, `is_root`, `push` and the display of a path. A path is built
  from its far end here, so there is no `pop`.
-/

namespace Marshal

inductive Step where
  | element (index : Nat)
  | field (index : Nat)
  | key
  | value
deriving DecidableEq, Repr

def Step.shown : Step → List Char
  | .element index => '[' :: (Nat.toDigits 10 index ++ [']'])
  | .field index => '.' :: Nat.toDigits 10 index
  | .key => ['.', 'k', 'e', 'y']
  | .value => ['.', 'v', 'a', 'l', 'u', 'e']

structure Path where
  steps : List Step
deriving DecidableEq, Repr

namespace Path

def root : Path := ⟨[]⟩

def isRoot (p : Path) : Bool := p.steps.isEmpty

def within (s : Step) (p : Path) : Path := ⟨s :: p.steps⟩

def shown (p : Path) : List Char := '$' :: p.steps.flatMap Step.shown

def text (p : Path) : String := String.ofList p.shown

end Path

end Marshal
