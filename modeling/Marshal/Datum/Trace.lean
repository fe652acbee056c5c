import Marshal.Datum.Visit

/-!
  The record of what a value offers.

  A `Trace` is what a reader sees that accepts everything it is offered and asks for
  all parts in the same way. `trace` records a value of which everything is drawn.
  `Survey.run` records what a reader sees that may stop early, draw keys and values
  in an order of its own, or fail at the end.

  No operation of the library itself: such records are how two readers are compared.
-/

namespace Marshal.Datum

/-! ### Records -/

mutual

/-- What a reader was offered. A sequence or map has, beside its parts, the numbers
    of elements that were announced as left before the first part and after each. -/
inductive Trace where
  | bool (b : Bool)
  | int (n : Integer)
  | double (x : Double)
  | text (s : String)
  | bytes (bs : List UInt8)
  | present (t : Trace)
  | newtype (t : Trace)
  | sequence (items : List Trace) (left : List Nat)
  | map (events : List TraceEvent) (left : List Nat)
  | variant (name : String)

inductive TraceEvent where
  | key (t : Trace)
  | value (t : Trace)
  | stop

end

structure Survey where
  /-- The way of asking for parts. -/
  inner : Hint
  /-- The kind of variant that is asked for. -/
  kind : VariantKind
  /-- The greatest number of elements to draw from the outermost sequence, if not all. -/
  limit : Option Nat
  /-- What to draw from the outermost map, if not all of it. -/
  draws : Option (List Draw)
  /-- The reason for failing at the end, if the reader does. -/
  failure : Option String

/-- The numbers of elements left over while a given number of them is drawn. -/
def countdown (length : Nat) : Nat → List Nat
  | 0 => [length]
  | drawn + 1 => length :: countdown (length - 1) drawn

/-- The numbers of elements left over while all entries of a map are drawn, each key
    and each value on its own. -/
def entryCountdown : Nat → List Nat
  | 0 => [0]
  | count + 1 => (count + 1) :: count :: entryCountdown count

def variantTrace (kind : VariantKind) (name : String) : Except Error Trace :=
  match kind with
  | .unit => .ok (.variant name)
  | kind => refuse (.invalidType (.variant .unit) (.variant kind))

/-- The record of an offer, given the records of the same value as a plain value and
    as a map. -/
def offerTrace (kind : VariantKind) (hint : Hint) (v : Value)
    (plain entries : Unit → Except Error Trace) : Except Error Trace := do
  match ← offer hint v with
  | .bytes bs => return .bytes bs
  | .present _ => .present <$> plain ()
  | .newtype _ => .newtype <$> plain ()
  | .map _ => entries ()
  | .variant name => variantTrace kind name
  | _ => plain ()

mutual

def trace (inner : Hint) (kind : VariantKind) (hint : Hint) : Value → Except Error Trace
  | .bool b => offerTrace kind hint (.bool b) (fun _ => .ok (.bool b)) fun _ => .ok (.bool b)
  | .int n => offerTrace kind hint (.int n) (fun _ => .ok (.int n)) fun _ => .ok (.int n)
  | .double x =>
      offerTrace kind hint (.double x) (fun _ => .ok (.double x)) fun _ => .ok (.double x)
  | .text s => offerTrace kind hint (.text s) (fun _ => .ok (.text s)) fun _ => .ok (.text s)
  | .array vs =>
      offerTrace kind hint (.array vs)
        (fun _ => (.sequence · (countdown vs.length vs.length)) <$> traceAll inner kind vs)
        fun _ => (.map · (entryCountdown vs.length)) <$> traceEntries inner kind vs
  | .struct vs =>
      let plain := fun _ =>
        (.sequence · (countdown vs.length vs.length)) <$> traceAll inner kind vs
      offerTrace kind hint (.struct vs) plain plain
  | .dictEntry key value =>
      let plain := fun _ => do
        let k ← trace inner kind inner key
        let v ← trace inner kind inner value
        return .sequence [k, v] (countdown 2 2)
      offerTrace kind hint (.dictEntry key value) plain plain

def traceAll (inner : Hint) (kind : VariantKind) : List Value → Except Error (List Trace)
  | [] => .ok []
  | v :: vs => do
      let t ← trace inner kind inner v
      let ts ← traceAll inner kind vs
      return t :: ts

def traceEntries (inner : Hint) (kind : VariantKind) :
    List Value → Except Error (List TraceEvent)
  | [] => .ok [.stop]
  | .dictEntry key value :: vs => do
      let k ← trace inner kind inner key
      let v ← trace inner kind inner value
      let events ← traceEntries inner kind vs
      return .key k :: .value v :: events
  | v :: _ => refuse (.invalidType (.value v) .dictEntry)

end

/-! ### Readers with a will of their own -/

/-- Draws up to `limit` elements from a sequence. Every element that was there adds the
    number of elements left. -/
def drawElements (read : Value → Except Error Trace) (left : List Value) :
    (limit : Nat) → Except Error (List Trace × List Nat × List Value)
  | 0 => .ok ([], [], left)
  | limit + 1 =>
      match nextElement left with
      | (none, left) => .ok ([], [], left)
      | (some v, left) => do
          let t ← read v
          let (items, counts, last) ← drawElements read left limit
          return (t :: items, left.length :: counts, last)

/-- Draws keys and values from a map until the draws or the keys end. Every draw that
    gave something adds the number of elements left. -/
def drawAll (read : Value → Except Error Trace) (cursor : EntryCursor) :
    List Draw → Except Error (List TraceEvent × List Nat × EntryCursor)
  | [] => .ok ([], [], cursor)
  | .key :: draws => do
      let (answer, cursor) := cursor.nextKey
      match ← answer with
      | none => return ([.stop], [], cursor)
      | some key => do
          let t ← read key
          let (events, counts, last) ← drawAll read cursor draws
          return (.key t :: events, cursor.left.length :: counts, last)
  | .value :: draws => do
      let (answer, cursor) := cursor.nextValue
      let value ← answer
      let t ← read value
      let (events, counts, last) ← drawAll read cursor draws
      return (.value t :: events, cursor.left.length :: counts, last)

def Survey.conclude (s : Survey) : Except Error Unit :=
  match s.failure with
  | none => .ok ()
  | some reason => refuse (.refused reason)

/-- The record that a reader makes of a value. It fails with the first part that
    cannot be had, then with its own failure, then because of what it left behind. -/
def Survey.run (s : Survey) (hint : Hint) (v : Value) : Except Error Trace := do
  let read := trace s.inner s.kind s.inner
  match ← offer hint v with
  | .sequence vs =>
      let (items, counts, left) ← drawElements read vs (s.limit.getD (vs.length + 1))
      s.conclude
      endSequence vs.length left
      return .sequence items (vs.length :: counts)
  | .map vs =>
      match s.draws with
      | none =>
          let t ← trace s.inner s.kind hint v
          s.conclude
          return t
      | some draws =>
          let (events, counts, cursor) ← drawAll read (.start vs) draws
          s.conclude
          cursor.finish
          return .map events (vs.length :: counts)
  | _ =>
      let t ← trace s.inner s.kind hint v
      s.conclude
      return t

end Marshal.Datum
