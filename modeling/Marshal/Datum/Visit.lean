import Marshal.Datum.Offer

/-!
  Visiting a value.

  What is offered as a sequence or a map is drawn piece by piece, and how often and in which order
  is up to the reader: a `Reader` asks, is answered, may go on from any answer, also from a refusal,
  and ends with a verdict of its own. A `Visitor` takes an offer as a whole or reads its pieces, and
  `visit` is what comes of it: the verdict, unless something of the value is left. A type of a
  program brings its way of asking and its visitor along (`Reading`), and reading a value by the
  type (`from_value`) is such a visit.

  The operations are `from_value` (`Reading.read`) and `visit_seq` and its counterpart for
  maps (the two drawing cases of `visit`).
-/

namespace Marshal.Datum

/-! ### Readers -/

/-- A reader that asks and is answered until it ends with a verdict. What it asks may depend on the
    answers so far. -/
inductive Reader (Question Answer α : Type) where
  | done (verdict : Except Error α)
  | ask (question : Question) (next : Answer → Reader Question Answer α)

/-- What comes of a reader: its questions with their answers, its verdict and what it leaves. -/
structure Session (Question Answer Source α : Type) where
  exchanges : List (Question × Answer)
  verdict : Except Error α
  left : Source

section Readers

variable {Question Answer Source α β : Type}

def Session.questions (session : Session Question Answer Source α) : List Question :=
  session.exchanges.map Prod.fst

def Reader.run (serve : Question → Source → Answer × Source) :
    Reader Question Answer α → Source → Session Question Answer Source α
  | .done verdict, source => ⟨[], verdict, source⟩
  | .ask question next, source =>
      let (answer, source) := serve question source
      let rest := (next answer).run serve source
      ⟨(question, answer) :: rest.exchanges, rest.verdict, rest.left⟩

/-- The verdict of a reader, unless what it leaves is refused. -/
def Reader.read (serve : Question → Source → Answer × Source) (close : Source → Except Error Unit)
    (reader : Reader Question Answer α) (source : Source) : Except Error α := do
  let session := reader.run serve source
  let a ← session.verdict
  close session.left
  return a

/-- Goes on from a verdict. A reader that has failed asks nothing more. -/
def Reader.bind (reader : Reader Question Answer α) (next : α → Reader Question Answer β) :
    Reader Question Answer β :=
  match reader with
  | .done (.ok a) => next a
  | .done (.error e) => .done (.error e)
  | .ask question rest => .ask question fun answer => (rest answer).bind next

instance : Monad (Reader Question Answer) where
  pure a := .done (.ok a)
  bind := Reader.bind

instance : MonadLift (Except Error) (Reader Question Answer) := ⟨.done⟩

end Readers

/-! ### Visits -/

def serveElement (_ : Unit) (left : List Value) : Option Value × List Value := nextElement left

inductive Draw where
  | key
  | value
deriving DecidableEq, Repr

def EntryCursor.serve : Draw → EntryCursor → Except Error (Option Value) × EntryCursor
  | .key, c => c.nextKey
  | .value, c => (c.nextValue.1.map some, c.nextValue.2)

/-- How data is read from a value: from offers that are taken as a whole, and by readers from a
    sequence or a map whose number of elements is announced. -/
structure Visitor (α : Type) where
  whole : Offer → Except Error α
  elements : (announced : Nat) → Reader Unit (Option Value) α
  entries : (announced : Nat) → Reader Draw (Except Error (Option Value)) α

/-- What a visitor makes of a value that is asked for in some way. -/
def visit {α : Type} (hint : Hint) (visitor : Visitor α) (v : Value) : Except Error α := do
  match ← offer hint v with
  | .sequence vs => (visitor.elements vs.length).read serveElement (endSequence vs.length) vs
  | .map vs => (visitor.entries vs.length).read EntryCursor.serve EntryCursor.finish (.start vs)
  | whole => visitor.whole whole

/-! ### Reading by a type -/

/-- How a type of a program is read: how it asks for a value, and its visitor. -/
structure Reading (α : Type) where
  hint : Hint
  visitor : Visitor α

def Reading.read {α : Type} (reading : Reading α) (v : Value) : Except Error α :=
  visit reading.hint reading.visitor v

end Marshal.Datum
