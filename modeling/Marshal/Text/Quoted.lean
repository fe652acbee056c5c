import Marshal.Text.Visible

/-!
  Quoted text.

  `quote` writes a text between double quotes. A quote or backslash inside has a
  backslash before it, four controls have a letter of their own, and every other
  character that would not show is written by its number.
-/

namespace Marshal.Text

/-- A character by its number, in the fewest hexadecimal digits. -/
def numbered (c : Char) : List Char :=
  '\\' :: 'u' :: '{' :: (Nat.toDigits 16 c.toNat ++ ['}'])

def escape (c : Char) : List Char :=
  match c with
  | '\x00' => ['\\', '0']
  | '\t' => ['\\', 't']
  | '\r' => ['\\', 'r']
  | '\n' => ['\\', 'n']
  | '"' => ['\\', '"']
  | '\\' => ['\\', '\\']
  | c => if isVisible c then [c] else numbered c

def quote (text : List Char) : List Char := '"' :: (text.flatMap escape ++ ['"'])

def quoted (s : String) : String := String.ofList (quote s.toList)

end Marshal.Text
