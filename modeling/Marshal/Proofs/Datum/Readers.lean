import Marshal.Datum.Trace
import Marshal.Proofs.Result

/-!
  What becomes of readers.

  The answers to a reader are determined by its questions (`answer_run`), and so is what it leaves
  (`left_run`). `Reader.Ends` follows a reader along given answers, apart from any source, and
  `Served` says that a source gives these answers: a reader that is served what it ends with ends
  so (`run_of_ends`). A survey is a visitor that is made of such readers (`Survey.run_eq_visit`).
-/

namespace Marshal.Datum

/-! ### Readers -/

section Readers

variable {Question Answer Source α : Type}

def sourceAfter (serve : Question → Source → Answer × Source) (source : Source)
    (questions : List Question) : Source :=
  questions.foldl (fun source question => (serve question source).2) source

variable {serve : Question → Source → Answer × Source} {close : Source → Except Error Unit}
  {reader : Reader Question Answer α} {source : Source}

theorem sourceAfter_append (questions : List Question) (question : Question) :
    sourceAfter serve source (questions ++ [question]) =
      (serve question (sourceAfter serve source questions)).2 := by
  rw [sourceAfter, List.foldl_append]
  rfl

theorem left_run : (reader.run serve source).left =
    sourceAfter serve source (reader.run serve source).questions := by
  induction reader generalizing source with
  | done verdict => rfl
  | ask question next ih => exact ih (serve question source).1

/-- An answer is determined by the questions before it. -/
theorem answer_run {before after : List (Question × Answer)} {question : Question} {answer : Answer}
    (h : (reader.run serve source).exchanges = before ++ (question, answer) :: after) :
    answer = (serve question (sourceAfter serve source (before.map Prod.fst))).1 := by
  induction reader generalizing source before with
  | done verdict => exact absurd h.symm (by simp [Reader.run])
  | ask first next ih =>
    cases before with
    | nil =>
      cases h
      rfl
    | cons exchange before =>
      obtain ⟨rfl, hrest⟩ := List.cons.inj h
      exact (ih _ hrest).trans rfl

theorem read_ok_iff {a : α} : reader.read serve close source = .ok a ↔
    (reader.run serve source).verdict = .ok a ∧
      close (reader.run serve source).left = .ok () := by
  simp only [Reader.read, bind_ok_iff, pure_ok_iff]
  constructor
  · rintro ⟨_, hverdict, _, hclose, rfl⟩
    exact ⟨hverdict, hclose⟩
  · rintro ⟨hverdict, hclose⟩
    exact ⟨a, hverdict, (), hclose, rfl⟩

theorem read_error_iff {e : Error} : reader.read serve close source = .error e ↔
    (reader.run serve source).verdict = .error e ∨
      (∃ a, (reader.run serve source).verdict = .ok a) ∧
        close (reader.run serve source).left = .error e := by
  simp only [Reader.read, bind_error_iff]
  constructor
  · rintro (hverdict | ⟨a, hverdict, hclose | ⟨_, _, ⟨⟩⟩⟩)
    · exact .inl hverdict
    · exact .inr ⟨⟨a, hverdict⟩, hclose⟩
  · rintro (hverdict | ⟨⟨a, hverdict⟩, hclose⟩)
    · exact .inl hverdict
    · exact .inr ⟨a, hverdict, .inl hclose⟩

/-! ### Readers along given answers -/

/-- Whether a reader ends with a verdict after some questions, if it is given these answers. -/
inductive Reader.Ends :
    Reader Question Answer α → List (Question × Answer) → Except Error α → Prop where
  | done (verdict : Except Error α) : Ends (.done verdict) [] verdict
  | ask {question : Question} {answer : Answer} {next : Answer → Reader Question Answer α}
      {exchanges : List (Question × Answer)} {verdict : Except Error α}
      (h : (next answer).Ends exchanges verdict) :
      Ends (.ask question next) ((question, answer) :: exchanges) verdict

/-- Whether a source gives these answers to some questions, and what it has left then. -/
inductive Served (serve : Question → Source → Answer × Source) :
    Source → List (Question × Answer) → Source → Prop where
  | nil (source : Source) : Served serve source [] source
  | cons {source next left : Source} {question : Question} {answer : Answer}
      {exchanges : List (Question × Answer)} (h : serve question source = (answer, next))
      (hrest : Served serve next exchanges left) :
      Served serve source ((question, answer) :: exchanges) left

variable {β : Type} {next : α → Reader Question Answer β} {left : Source} {a : α}
  {exchanges rest : List (Question × Answer)}

theorem Served.append {middle : Source} (h : Served serve source exchanges middle)
    (hrest : Served serve middle rest left) : Served serve source (exchanges ++ rest) left := by
  induction h with
  | nil source => exact hrest
  | cons h _ ih => exact .cons h (ih hrest)

/-- A reader that is served what it ends with ends so. -/
theorem run_of_ends {verdict : Except Error α} (h : reader.Ends exchanges verdict)
    (hserved : Served serve source exchanges left) :
    reader.run serve source = ⟨exchanges, verdict, left⟩ := by
  induction h generalizing source with
  | done verdict =>
    cases hserved
    rfl
  | ask _ ih =>
    cases hserved with
    | cons hserve hrest => simp only [Reader.run, hserve, ih hrest]

theorem read_of_ends (h : reader.Ends exchanges (.ok a))
    (hserved : Served serve source exchanges left) (hclose : close left = .ok ()) :
    reader.read serve close source = .ok a := by
  simp only [read_ok_iff, run_of_ends h hserved, hclose, and_self]

/-- A reader in two halves ends after the exchanges of both. -/
theorem Reader.Ends.bind {verdict : Except Error β} (h : reader.Ends exchanges (.ok a))
    (hnext : (next a).Ends rest verdict) : (reader >>= next).Ends (exchanges ++ rest) verdict := by
  generalize hfirst : Except.ok a = first at h
  induction h with
  | done _ =>
    cases hfirst
    exact hnext
  | ask _ ih => exact .ask (ih hfirst)

/-- What is done with the verdict asks nothing more. -/
theorem Reader.Ends.map {f : α → β} (h : reader.Ends exchanges (.ok a)) :
    (f <$> reader).Ends exchanges (.ok (f a)) := by
  have hmap : (reader >>= fun a => pure (f a)).Ends (exchanges ++ []) (.ok (f a)) :=
    h.bind (.done (.ok (f a)))
  rwa [List.append_nil] at hmap

end Readers

/-! ### Surveys -/

def Reader.after {Question Answer α β : Type} (x : Except Error β)
    (next : β → Reader Question Answer α) : Reader Question Answer α :=
  match x with
  | .ok b => next b
  | .error e => .done (.error e)

theorem Reader.read_after {Question Answer Source α β : Type}
    {serve : Question → Source → Answer × Source} {close : Source → Except Error Unit}
    {source : Source} (x : Except Error β) (next : β → Reader Question Answer α) :
    (Reader.after x next).read serve close source =
      x >>= fun b => (next b).read serve close source := by
  cases x <;> rfl

section Surveys

variable (read : Value → Except Error Trace)

/-- Draws up to `limit` elements and finishes with their records and the numbers of elements left
    after each. -/
def drawingElements (finish : List Trace → List Nat → Except Error Trace) :
    (limit left : Nat) → Reader Unit (Option Value) Trace
  | 0, _ => .done (finish [] [])
  | limit + 1, left => .ask () fun
      | none => .done (finish [] [])
      | some v => .after (read v) fun t =>
          drawingElements (fun items counts => finish (t :: items) ((left - 1) :: counts)) limit
            (left - 1)

def Draw.event : Draw → Trace → TraceEvent
  | .key, t => .key t
  | .value, t => .value t

def Draw.leaves : Draw → Nat → Nat
  | .key, left => left - 1
  | .value, left => left

/-- Draws keys and values until the draws or the keys end, and finishes with their records and the
    numbers of elements left after each. -/
def drawingEntries (finish : List TraceEvent → List Nat → Except Error Trace) :
    List Draw → (left : Nat) → Reader Draw (Except Error (Option Value)) Trace
  | [], _ => .done (finish [] [])
  | draw :: draws, left => .ask draw fun answer => .after answer fun
      | none => .done (finish [.stop] [])
      | some v => .after (read v) fun t =>
          drawingEntries (fun events counts =>
            finish (draw.event t :: events) (draw.leaves left :: counts)) draws (draw.leaves left)

theorem read_drawingElements (length limit : Nat) (vs : List Value)
    (finish : List Trace → List Nat → Except Error Trace) :
    (drawingElements read finish limit vs.length).read serveElement (endSequence length) vs = do
      let (items, counts, left) ← drawElements read vs limit
      let t ← finish items counts
      endSequence length left
      return t := by
  induction limit generalizing vs finish with
  | zero => rfl
  | succ limit ih =>
    cases vs with
    | nil => rfl
    | cons v vs =>
      refine (Reader.read_after (read v) _).trans ?_
      simp only [drawElements, nextElement, bind_assoc, pure_bind]
      congr 1
      funext t
      exact ih vs _

theorem read_drawingEntries (draws : List Draw) (c : EntryCursor)
    (finish : List TraceEvent → List Nat → Except Error Trace) :
    (drawingEntries read finish draws c.left.length).read EntryCursor.serve EntryCursor.finish c =
      do
      let (events, counts, last) ← drawAll read c draws
      let t ← finish events counts
      last.finish
      return t := by
  induction draws generalizing c finish with
  | nil => rfl
  | cons draw draws ih =>
    refine (Reader.read_after _ _).trans ?_
    cases draw with
    | key =>
      obtain ⟨left, pending⟩ := c
      rcases left with _ | ⟨v, left⟩
      · rfl
      · cases v with
        | dictEntry key value =>
          refine (Reader.read_after (read key) _).trans ?_
          simp only [drawAll, EntryCursor.nextKey, ok_bind, bind_assoc, pure_bind]
          congr 1
          funext t
          exact ih ⟨left, some value⟩ _
        | _ => rfl
    | value =>
      obtain ⟨left, pending⟩ := c
      cases pending with
      | none => rfl
      | some value =>
        refine (Reader.read_after (read value) _).trans ?_
        simp only [drawAll, EntryCursor.nextValue, ok_bind, bind_assoc, pure_bind]
        congr 1
        funext t
        exact ih ⟨left, none⟩ _

end Surveys

/-- The draws that take all entries of a map, up to its end. -/
def allDraws : Nat → List Draw
  | 0 => [.key]
  | count + 1 => .key :: .value :: allDraws count

theorem entryCountdown_eq (count : Nat) :
    entryCountdown count = count :: (entryCountdown count).tail := by
  cases count <;> rfl

/-- A survey that takes everything from a map sees its entries in their order. -/
theorem drawAll_allDraws (inner : Hint) (kind : VariantKind) (vs : List Value) :
    drawAll (trace inner kind inner) (.start vs) (allDraws vs.length) =
      traceEntries inner kind vs >>= fun events =>
        pure (events, (entryCountdown vs.length).tail, .start []) := by
  induction vs with
  | nil => rfl
  | cons v vs ih =>
    cases v with
    | dictEntry key value =>
      rw [EntryCursor.start] at ih
      simp only [List.length_cons, allDraws, drawAll, EntryCursor.start, EntryCursor.nextKey,
        EntryCursor.nextValue, ok_bind, ih, traceEntries, bind_assoc, pure_bind, entryCountdown,
        List.tail_cons]
      rw [← entryCountdown_eq]
    | _ => rfl

def offerRecord (inner : Hint) (kind : VariantKind) : Offer → Except Error Trace
  | .bool b => .ok (.bool b)
  | .int n => .ok (.int n)
  | .double x => .ok (.double x)
  | .text s => .ok (.text s)
  | .bytes bs => .ok (.bytes bs)
  | .present v => .present <$> trace inner kind .plain v
  | .newtype v => .newtype <$> trace inner kind .plain v
  | .sequence vs => (.sequence · (countdown vs.length vs.length)) <$> traceAll inner kind vs
  | .map vs => (.map · (entryCountdown vs.length)) <$> traceEntries inner kind vs
  | .variant name => variantTrace kind name

theorem trace_plain (inner : Hint) (kind : VariantKind) (v : Value) :
    trace inner kind .plain v = offerRecord inner kind (plainOffer v) := by
  cases v with
  | dictEntry key value =>
    simp only [plainOffer, offerRecord, traceAll, map_eq_pure_bind, bind_assoc, pure_bind, ok_bind]
    rfl
  | _ => rfl

/-- What is recorded of a value is what is recorded of its offer. -/
theorem trace_eq (inner : Hint) (kind : VariantKind) (hint : Hint) (v : Value) :
    trace inner kind hint v = offer hint v >>= offerRecord inner kind := by
  cases hint with
  | plain => exact trace_plain inner kind v
  | optional => cases v <;> rfl
  | newtype => cases v <;> rfl
  | bytes =>
    cases v with
    | array vs =>
      rw [trace, offerTrace, offer]
      cases vs.mapM byte? <;> rfl
    | dictEntry key value => exact trace_plain inner kind (.dictEntry key value)
    | _ => rfl
  | map =>
    cases v with
    | dictEntry key value => exact trace_plain inner kind (.dictEntry key value)
    | _ => rfl
  | enumeration => cases v <;> rfl

def Survey.visitor (s : Survey) : Visitor Trace where
  whole o := do
    let t ← offerRecord s.inner s.kind o
    s.conclude
    return t
  elements announced :=
    drawingElements (trace s.inner s.kind s.inner)
      (fun items counts => do
        s.conclude
        return .sequence items (announced :: counts))
      (s.limit.getD (announced + 1)) announced
  entries announced :=
    drawingEntries (trace s.inner s.kind s.inner)
      (fun events counts => do
        s.conclude
        return .map events (announced :: counts))
      (s.draws.getD (allDraws announced)) announced

section Survey

variable (s : Survey) (vs : List Value)

theorem Survey.read_elements :
    (s.visitor.elements vs.length).read serveElement (endSequence vs.length) vs = do
      let (items, counts, left) ←
        drawElements (trace s.inner s.kind s.inner) vs (s.limit.getD (vs.length + 1))
      s.conclude
      endSequence vs.length left
      return .sequence items (vs.length :: counts) := by
  refine (read_drawingElements _ vs.length _ vs _).trans ?_
  simp only [bind_assoc, pure_bind]

theorem Survey.read_entries :
    (s.visitor.entries vs.length).read EntryCursor.serve EntryCursor.finish (.start vs) = do
      let (events, counts, cursor) ← drawAll (trace s.inner s.kind s.inner) (.start vs)
        (s.draws.getD (allDraws vs.length))
      s.conclude
      cursor.finish
      return .map events (vs.length :: counts) := by
  refine (read_drawingEntries _ _ (.start vs) _).trans ?_
  simp only [bind_assoc, pure_bind]

end Survey

/-- A survey is what its visitor makes of the value. -/
theorem Survey.run_eq_visit (s : Survey) (hint : Hint) (v : Value) :
    s.run hint v = visit hint s.visitor v := by
  rw [Survey.run, visit]
  cases hoffer : offer hint v with
  | error e => rfl
  | ok o =>
    rw [ok_bind, ok_bind]
    cases o with
    | sequence vs => exact (s.read_elements vs).symm
    | map vs =>
      refine Eq.trans ?_ (s.read_entries vs).symm
      cases hdraws : s.draws with
      | some draws => rfl
      | none =>
        simp only [trace_eq, hoffer, ok_bind, offerRecord, Option.getD_none, drawAll_allDraws,
          map_eq_pure_bind, bind_assoc, pure_bind]
        rw [← entryCountdown_eq]
        rfl
    | _ =>
      simp only [trace_eq, hoffer]
      rfl

end Marshal.Datum
