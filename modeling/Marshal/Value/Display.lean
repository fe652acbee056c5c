import Marshal.Number.Layout
import Marshal.Text.Quoted
import Marshal.Value.Basic

/-!
  The text of a value.

  Arrays stand in square brackets, structs in round ones and dict entries in
  braces with a colon between key and value. Text is quoted, so brackets and
  commas inside it cannot be taken for those of a container.

  The operations are the display of a value, with `write_list`, and `describe`.
-/

namespace Marshal.Value

mutual

def shown : Value → List Char
  | .bool b => if b then ['t', 'r', 'u', 'e'] else ['f', 'a', 'l', 's', 'e']
  | .int n => (toString n.val).toList
  | .double x => x.text.toList
  | .text s => Text.quote s.toList
  | .array vs => '[' :: (shownList vs ++ [']'])
  | .struct vs => '(' :: (shownList vs ++ [')'])
  | .dictEntry k v => '{' :: (k.shown ++ (':' :: ' ' :: (v.shown ++ ['}'])))

def shownList : List Value → List Char
  | [] => []
  | v :: vs => v.shown ++ shownRest vs

/-- The texts of values with a comma and a space before each. -/
def shownRest : List Value → List Char
  | [] => []
  | v :: vs => ',' :: ' ' :: (v.shown ++ shownRest vs)

end

def display (v : Value) : String := String.ofList v.shown

/-- What a value is, in a few words. Containers are counted and not shown. -/
def describe : Value → String
  | .bool b => s!"bool {b}"
  | .int n => s!"{(ScalarType.int n.type).name} {n.val}"
  | .double x => s!"double {x.text}"
  | .text s => "string " ++ Text.quoted s
  | .array vs => s!"array of {vs.length} elements"
  | .struct vs => s!"struct of {vs.length} fields"
  | .dictEntry _ _ => "dict entry"

end Marshal.Value
