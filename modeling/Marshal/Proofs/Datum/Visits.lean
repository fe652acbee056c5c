import Marshal.Proofs.Datum.Readers
import Mathlib.Data.List.Induction

/-!
  Visiting a value.

  Whatever a reader does, each answer is determined by the requests before it, and a visit succeeds
  only if everything has been drawn (`visit_loses_nothing`). The proofs follow the source of the
  answers from request to request (`sourceAfter`): from a sequence one element is gone for each
  request, and from a map one element for each key, while the value of the last entry stays until
  it is asked for (`Awaits`).
-/

namespace Marshal.Datum

/-! ### Drawing elements -/

theorem nextElement_eq (vs : List Value) : nextElement vs = (vs.head?, vs.tail) := by
  cases vs <;> rfl

theorem sourceAfter_serveElement (vs : List Value) (questions : List Unit) :
    sourceAfter serveElement vs questions = vs.drop questions.length := by
  induction questions using List.reverseRecOn with
  | nil => rfl
  | append_singleton questions question ih =>
    rw [sourceAfter_append, ih, serveElement, nextElement_eq, List.length_append, List.tail_drop]
    rfl

theorem endSequence_ok_iff {length : Nat} {left : List Value} :
    endSequence length left = .ok () ↔ left = [] := by
  unfold endSequence refuse
  cases left <;> simp

theorem endSequence_error_iff {length : Nat} {left : List Value} {e : Error} :
    endSequence length left = .error e ↔
      left ≠ [] ∧ e = .conversion (.invalidLength length .fewerElements) := by
  unfold endSequence refuse
  cases left <;> simp [eq_comm]

/-! ### Drawing keys and values -/

def keyOf : Option Value → Except Error (Option Value)
  | none => .ok none
  | some (.dictEntry key _) => .ok (some key)
  | some v => refuse (.invalidType (.value v) .dictEntry)

def valueOf? : Option Value → Option Value
  | some (.dictEntry _ value) => some value
  | _ => none

theorem valueOf?_eq_some_iff {element : Option Value} {value : Value} :
    valueOf? element = some value ↔ ∃ key, element = some (.dictEntry key value) := by
  rcases element with _ | v
  · simp [valueOf?]
  · cases v <;> simp [valueOf?]

theorem valueOf?_eq_none_iff {element : Option Value} :
    valueOf? element = none ↔ ∀ key value, element ≠ some (.dictEntry key value) := by
  rcases element with _ | v
  · simp [valueOf?]
  · cases v <;> simp [valueOf?]

/-- Whether a value waits to be asked for after some requests to a map with the elements `vs`: it is
    the value of a dict entry that was drawn, no value has been asked for since, and no element
    drawn since is a dict entry. -/
def Awaits (vs : List Value) (requests : List Draw) (value : Value) : Prop :=
  ∃ front back key, requests = front ++ .key :: back ∧
    vs[front.count .key]? = some (.dictEntry key value) ∧ .value ∉ back ∧
    ∀ v ∈ (vs.drop (front.count .key + 1)).take (back.count .key), ∀ k w, v ≠ .dictEntry k w

theorem not_awaits_nil {vs : List Value} {value : Value} : ¬ Awaits vs [] value := by
  rintro ⟨front, back, key, h, -⟩
  exact absurd h (by simp)

/-- Asking for a value leaves none that waits. -/
theorem not_awaits_value {vs : List Value} {requests : List Draw} {value : Value} :
    ¬ Awaits vs (requests ++ [.value]) value := by
  rintro ⟨front, back, key, h, -, hvalue, -⟩
  have hlast : (Draw.key :: back).getLast? = some .value := by
    simpa using (congrArg List.getLast? h).symm
  rcases List.mem_cons.1 (List.mem_of_getLast? hlast) with hkey | hback
  · cases hkey
  · exact hvalue hback

theorem count_key_append (front back : List Draw) :
    (front ++ .key :: back).count .key = front.count .key + 1 + back.count .key := by
  rw [List.count_append, List.count_cons_self]
  omega

/-- Asking for a key makes the value of the element that is drawn wait, if that is a dict entry. Any
    other element is drawn as well but leaves the value that waits. -/
theorem awaits_key_iff {vs : List Value} {requests : List Draw} {value : Value} :
    Awaits vs (requests ++ [.key]) value ↔
      valueOf? vs[requests.count .key]? = some value ∨
        valueOf? vs[requests.count .key]? = none ∧ Awaits vs requests value := by
  rw [valueOf?_eq_some_iff, valueOf?_eq_none_iff]
  constructor
  · rintro ⟨front, back, key, h, hentry, hvalue, hlater⟩
    rcases List.eq_nil_or_concat back with rfl | ⟨back, last, rfl⟩
    · obtain ⟨rfl, -⟩ := List.append_inj' h rfl
      exact .inl ⟨key, hentry⟩
    · rw [List.concat_eq_append] at h hvalue hlater
      rw [← List.cons_append, ← List.append_assoc] at h
      obtain ⟨rfl, hlast⟩ := List.append_inj' h rfl
      cases hlast
      rw [List.count_append, List.count_singleton_self, List.take_add_one] at hlater
      refine .inr ⟨?_, front, back, key, rfl, hentry, ?_, ?_⟩
      · intro k w hnext
        rw [count_key_append, ← List.getElem?_drop] at hnext
        exact hlater _ (List.mem_append_right _ (by simp [hnext])) k w rfl
      · exact fun hmem => hvalue (List.mem_append_left _ hmem)
      · exact fun v hv => hlater v (List.mem_append_left _ hv)
  · rintro (⟨key, hentry⟩ | ⟨hnext, front, back, key, rfl, hentry, hvalue, hlater⟩)
    · exact ⟨requests, [], key, rfl, hentry, by simp, by simp⟩
    · refine ⟨front, back ++ [.key], key, by simp, hentry, by simpa using hvalue, ?_⟩
      rw [List.count_append, List.count_singleton_self, List.take_add_one]
      intro v hv k w hvw
      rcases List.mem_append.1 hv with hv | hv
      · exact hlater v hv k w hvw
      · rw [List.getElem?_drop, ← count_key_append, Option.mem_toList] at hv
        exact hnext k w (hv.trans (congrArg some hvw))

namespace EntryCursor

theorem nextKey_eq (c : EntryCursor) :
    c.nextKey = (keyOf c.left.head?, ⟨c.left.tail, (valueOf? c.left.head?).or c.pending⟩) := by
  obtain ⟨left, pending⟩ := c
  cases left with
  | nil => rfl
  | cons v left => cases v <;> rfl

theorem finish_ok_iff {c : EntryCursor} : c.finish = .ok () ↔ c.left = [] := by
  unfold finish refuse
  cases c.left <;> simp

theorem finish_error_iff {c : EntryCursor} {e : Error} :
    c.finish = .error e ↔ c.left ≠ [] ∧ e = .conversion (.entriesLeft c.left.length) := by
  unfold finish refuse
  cases c.left <;> simp [eq_comm]

/-- Each key that was asked for has used up one element, and the value that is kept is the one that
    waits. -/
theorem sourceAfter_serve (vs : List Value) (requests : List Draw) :
    ∃ pending, sourceAfter serve (start vs) requests =
        ⟨vs.drop (requests.count .key), pending⟩ ∧
      ∀ value, pending = some value ↔ Awaits vs requests value := by
  induction requests using List.reverseRecOn with
  | nil => exact ⟨none, rfl, fun value => ⟨nofun, fun h => absurd h not_awaits_nil⟩⟩
  | append_singleton requests request ih =>
    obtain ⟨pending, hsource, hpending⟩ := ih
    rw [sourceAfter_append, hsource]
    cases request with
    | key =>
      refine ⟨(valueOf? vs[requests.count .key]?).or pending, ?_, ?_⟩
      · rw [serve, nextKey_eq, List.head?_drop, List.tail_drop, List.count_append,
          List.count_singleton_self]
      · intro value
        rw [awaits_key_iff, Option.or_eq_some_iff, hpending]
    | value =>
      refine ⟨none, ?_, fun value => ⟨nofun, fun h => absurd h not_awaits_value⟩⟩
      rw [serve, List.count_append, List.count_singleton]
      cases pending <;> rfl

theorem left_sourceAfter (vs : List Value) (requests : List Draw) :
    (sourceAfter serve (start vs) requests).left = vs.drop (requests.count .key) := by
  obtain ⟨pending, hsource, -⟩ := sourceAfter_serve vs requests
  rw [hsource]

end EntryCursor

/-! ### What visits leave -/

/-- The parts of a container: the elements of an array, the fields of a struct and the halves of a
    dict entry. -/
inductive HasParts : Value → List Value → Prop where
  | array (vs : List Value) : HasParts (.array vs) vs
  | struct (vs : List Value) : HasParts (.struct vs) vs
  | dictEntry (key value : Value) : HasParts (.dictEntry key value) [key, value]

theorem offer_plain_of_hasParts {v : Value} {vs : List Value} (h : HasParts v vs) :
    offer .plain v = .ok (.sequence vs) := by
  cases h <;> rfl

theorem hasParts_of_plainOffer {v : Value} {vs : List Value} (h : plainOffer v = .sequence vs) :
    HasParts v vs := by
  cases v with
  | array vs => cases h; exact .array vs
  | struct vs => cases h; exact .struct vs
  | dictEntry key value => cases h; exact .dictEntry key value
  | _ => cases h

/-- Whatever is offered as a sequence are the parts of a container. -/
theorem hasParts_of_offer {hint : Hint} {v : Value} {vs : List Value}
    (h : offer hint v = .ok (.sequence vs)) : HasParts v vs := by
  cases hint with
  | plain => exact hasParts_of_plainOffer (Except.ok.inj h)
  | optional | newtype => cases h
  | bytes =>
    cases v with
    | array ws =>
      rw [offer] at h
      split at h
      · cases h
      · exact hasParts_of_plainOffer (Except.ok.inj h)
    | _ => exact hasParts_of_plainOffer (Except.ok.inj h)
  | map =>
    cases v with
    | array ws => cases h
    | _ => exact hasParts_of_plainOffer (Except.ok.inj h)
  | enumeration => cases v <;> cases h

section Visits

variable {α : Type}

/-- How a visit to a sequence with the elements `vs` goes. -/
structure ElementsDrawn (vs : List Value)
    (session : Session Unit (Option Value) (List Value) α) (result : Except Error α) : Prop where
  /-- Each request is answered by the element whose turn it is. -/
  answers : ∀ before answer after, session.exchanges = before ++ ((), answer) :: after →
    answer = vs[before.length]?
  ok_iff : ∀ a, result = .ok a ↔ session.verdict = .ok a ∧ vs.length ≤ session.questions.length
  error_iff : ∀ e, result = .error e ↔ session.verdict = .error e ∨
    (∃ a, session.verdict = .ok a) ∧ session.questions.length < vs.length ∧
      e = .conversion (.invalidLength vs.length .fewerElements)

/-- How a visit to a map with the elements `vs` goes. -/
structure EntriesDrawn (vs : List Value)
    (session : Session Draw (Except Error (Option Value)) EntryCursor α)
    (result : Except Error α) : Prop where
  /-- Each request for a key is answered by the key of the element whose turn it is. -/
  keys : ∀ before answer after, session.exchanges = before ++ (.key, answer) :: after →
    answer = keyOf vs[(before.map Prod.fst).count .key]?
  /-- A request for a value is answered by the value that waits, or refused if there is none. -/
  values : ∀ before answer after, session.exchanges = before ++ (.value, answer) :: after →
    (∃ value, Awaits vs (before.map Prod.fst) value ∧ answer = .ok (some value)) ∨
      (∀ value, ¬ Awaits vs (before.map Prod.fst) value) ∧ answer = refuse .valueBeforeKey
  ok_iff : ∀ a, result = .ok a ↔
    session.verdict = .ok a ∧ vs.length ≤ session.questions.count .key
  error_iff : ∀ e, result = .error e ↔ session.verdict = .error e ∨
    (∃ a, session.verdict = .ok a) ∧ session.questions.count .key < vs.length ∧
      e = .conversion (.entriesLeft (vs.length - session.questions.count .key))

/-- Whatever a reader of a sequence asks, the elements are handed out in order, and those left over
are an error. -/
theorem elementsDrawn_read (reader : Reader Unit (Option Value) α) (vs : List Value) :
    ElementsDrawn vs (reader.run serveElement vs)
      (reader.read serveElement (endSequence vs.length) vs) where
  answers before answer after h := by
    rw [answer_run h, sourceAfter_serveElement, serveElement, nextElement_eq, List.head?_drop,
      List.length_map]
  ok_iff a := by
    rw [read_ok_iff, left_run, sourceAfter_serveElement, endSequence_ok_iff, List.drop_eq_nil_iff]
  error_iff e := by
    rw [read_error_iff, left_run, sourceAfter_serveElement, endSequence_error_iff, ne_eq,
      List.drop_eq_nil_iff, Nat.not_le]

/-- Whatever a reader of a map asks, in whatever order, keys and values come from the entries in
turn. -/
theorem entriesDrawn_read (reader : Reader Draw (Except Error (Option Value)) α)
    (vs : List Value) :
    EntriesDrawn vs (reader.run EntryCursor.serve (.start vs))
      (reader.read EntryCursor.serve EntryCursor.finish (.start vs)) where
  keys before answer after h := by
    rw [answer_run h, EntryCursor.serve, EntryCursor.nextKey_eq, EntryCursor.left_sourceAfter,
      List.head?_drop]
  values before answer after h := by
    obtain ⟨pending, hsource, hpending⟩ := EntryCursor.sourceAfter_serve vs (before.map Prod.fst)
    rw [answer_run h, hsource]
    cases pending with
    | none =>
      refine .inr ⟨?_, rfl⟩
      intro value hvalue
      cases (hpending value).2 hvalue
    | some value => exact .inl ⟨value, (hpending value).1 rfl, rfl⟩
  ok_iff a := by
    rw [read_ok_iff, left_run, EntryCursor.finish_ok_iff, EntryCursor.left_sourceAfter,
      List.drop_eq_nil_iff]
  error_iff e := by
    rw [read_error_iff, left_run, EntryCursor.finish_error_iff, EntryCursor.left_sourceAfter,
      ne_eq, List.drop_eq_nil_iff, Nat.not_le, List.length_drop]

/-- Whatever a visitor does, a visit to a container gives it the parts in their order, and a visit
    to an array as a map gives it the keys in their order and each value at most once, after its
    key and before that of the next entry. The visit succeeds only with a visitor that succeeds
    after it has drawn all there is, and fails with the failure of the visitor or because of what
    is left. -/
theorem visit_loses_nothing (visitor : Visitor α) :
    (∀ v vs, HasParts v vs → offer .plain v = .ok (.sequence vs)) ∧
    (∀ hint v vs, offer hint v = .ok (.sequence vs) →
      HasParts v vs ∧ ElementsDrawn vs ((visitor.elements vs.length).run serveElement vs)
        (visit hint visitor v)) ∧
    ∀ vs, EntriesDrawn vs ((visitor.entries vs.length).run EntryCursor.serve (.start vs))
      (visit .map visitor (.array vs)) := by
  refine ⟨fun v vs => offer_plain_of_hasParts, ?_, ?_⟩
  · intro hint v vs hoffer
    refine ⟨hasParts_of_offer hoffer, ?_⟩
    rw [visit, hoffer]
    exact elementsDrawn_read (visitor.elements vs.length) vs
  · intro vs
    exact entriesDrawn_read (visitor.entries vs.length) vs

/-- A visitor that draws no more than one element of a sequence does not get through with a dict
    entry, and one that asks for one key only not with a map of two entries. -/
theorem visit_loses_nothing_half :
    visit .plain (Survey.visitor ⟨.plain, .unit, some 1, none, none⟩)
        (.dictEntry (.text "a") (.bool true)) =
      .error (.conversion (.invalidLength 2 .fewerElements)) ∧
    visit .map (Survey.visitor ⟨.plain, .unit, none, some [.key, .value, .key], none⟩)
        (.array [.dictEntry (.text "a") (.bool true), .dictEntry (.text "b") (.bool false),
          .dictEntry (.text "c") (.bool true)]) =
      .error (.conversion (.entriesLeft 1)) := by
  constructor
  · have hparts : HasParts (.dictEntry (.text "a") (.bool true)) [.text "a", .bool true] :=
      .dictEntry _ _
    obtain ⟨hplain, hsequence, -⟩ :=
      visit_loses_nothing (Survey.visitor ⟨.plain, .unit, some 1, none, none⟩)
    obtain ⟨-, hdrawn⟩ := hsequence .plain _ _ (hplain _ _ hparts)
    exact (hdrawn.error_iff _).2 (.inr ⟨⟨_, rfl⟩, by decide, rfl⟩)
  · obtain ⟨-, -, hmap⟩ := visit_loses_nothing
      (Survey.visitor ⟨.plain, .unit, none, some [.key, .value, .key], none⟩)
    exact ((hmap _).error_iff _).2 (.inr ⟨⟨_, rfl⟩, by decide, rfl⟩)

end Visits

end Marshal.Datum
