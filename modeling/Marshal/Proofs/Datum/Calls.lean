import Marshal.Datum.Basic
import Marshal.Proofs.Result
import Mathlib.Data.List.Induction

/-!
  Handing data over call by call.

  Data is handed over by calls, one for each piece, in the order in which the pieces come
  (`Datum.calls`). Some calls cannot be answered: the call of a kind of data that has no value, the
  failure of the data itself, and a value of a map to which no key belongs. What the value of data
  is when all calls are answered is said by `Datum.Becomes`, without the state that handing over
  goes through; for a map it says which key belongs to each value (`pendingKey`, `valueTurns`).
  Handing over fails with the fault of the first call that has one and otherwise gives this value
  (`toValue_follows_calls`). The proof goes along the data, and what is carried through a map is
  that the key held back is the value of the pending one.
-/

namespace Marshal

/-! ### The steps of a map -/

namespace MapStep

def isKey : MapStep → Bool
  | .key _ => true
  | .value _ => false

def isValue : MapStep → Bool
  | .key _ => false
  | .value _ => true

def datum : MapStep → Datum
  | .key x => x
  | .value x => x

end MapStep

def DatumField.datum : DatumField → Datum
  | .field _ x => x

namespace Datum

/-- The key that belongs to the next value after some steps of a map: the last one of the keys that
    have come since the last value. -/
def pendingKey (steps : List MapStep) : Option Datum :=
  (steps.reverse.takeWhile MapStep.isKey).head?.map MapStep.datum

/-- The values among the steps of a map, each with all steps before it. The steps follow those in
    `before`. -/
def valueTurns (before : List MapStep) : List MapStep → List (List MapStep × Datum)
  | [] => []
  | .key x :: steps => valueTurns (before ++ [.key x]) steps
  | .value x :: steps => (before, x) :: valueTurns (before ++ [.value x]) steps

@[simp]
theorem pendingKey_nil : pendingKey [] = none := rfl

@[simp]
theorem pendingKey_append_key (before : List MapStep) (x : Datum) :
    pendingKey (before ++ [.key x]) = some x := by
  rw [pendingKey, List.reverse_append]
  rfl

@[simp]
theorem pendingKey_append_value (before : List MapStep) (x : Datum) :
    pendingKey (before ++ [.value x]) = none := by
  rw [pendingKey, List.reverse_append]
  rfl

/-- Every step is a key or a value, so a pending key is the last step. -/
theorem pendingKey_eq_some_iff {steps : List MapStep} {x : Datum} :
    pendingKey steps = some x ↔ steps.getLast? = some (.key x) := by
  induction steps using List.reverseRecOn with
  | nil => simp
  | append_singleton before s _ =>
    cases s with
    | key y => simp
    | value y => simp

/-! ### Calls -/

/-- A call by which data is handed over. -/
inductive Call where
  /-- A call that is always answered. -/
  | supported
  /-- A call of a kind of data that has no value. What the data holds is not handed over. -/
  | unsupported (what : String)
  /-- The failure of the data itself. -/
  | refusing (reason : String)
  /-- The call of a value of a map, with the key that belongs to it, if there is one. -/
  | value (key : Option Datum)

def Call.fault? : Call → Option Fault
  | .supported | .value (some _) => none
  | .unsupported what => some (.unsupported what)
  | .refusing reason => some (.refused reason)
  | .value none => some .valueWithoutKey

mutual

def calls : Datum → List Call
  | .bool _ | .int _ | .single _ | .double _ | .char _ | .text _ | .bytes _ => [.supported]
  | .extraInt type _ => [.unsupported type.name]
  | .absent | .present _ => [.unsupported "Option"]
  | .unit => [.unsupported "()"]
  | .unitStruct name => [.unsupported name]
  | .newtypeStruct _ x => .supported :: x.calls
  | .sequence xs | .tuple xs | .tupleStruct _ xs => .supported :: allCalls xs
  | .struct _ fields => .supported :: fieldCalls fields
  | .map steps => .supported :: stepCalls [] steps
  | .unitVariant _ _ _ => [.supported]
  | .newtypeVariant type _ _ _ => [.unsupported type]
  | .tupleVariant type _ _ _ => [.unsupported type]
  | .structVariant type _ _ _ => [.unsupported type]
  | .refusing reason => [.refusing reason]

def allCalls : List Datum → List Call
  | [] => []
  | x :: xs => x.calls ++ allCalls xs

def fieldCalls : List DatumField → List Call
  | [] => []
  | .field _ x :: fields => x.calls ++ fieldCalls fields

/-- The calls of the steps of a map that follow those in `before`. The call of a key or a value
    comes before the calls of its data. -/
def stepCalls (before : List MapStep) : List MapStep → List Call
  | [] => []
  | .key x :: steps => .supported :: (x.calls ++ stepCalls (before ++ [.key x]) steps)
  | .value x :: steps =>
      .value (pendingKey before) :: (x.calls ++ stepCalls (before ++ [.value x]) steps)

end

/-! ### Values -/

mutual

/-- The value that data becomes when all its calls are answered. -/
inductive Becomes : Datum → Value → Prop where
  | bool (b : Bool) : Becomes (.bool b) (.bool b)
  | int (n : Integer) : Becomes (.int n) (.int n)
  | single (x : Single) : Becomes (.single x) (.double x.toDouble)
  | double (x : Double) : Becomes (.double x) (.double x)
  | char (c : Char) : Becomes (.char c) (.text c.toString)
  | text (s : String) : Becomes (.text s) (.text s)
  | bytes (bs : List UInt8) :
      Becomes (.bytes bs) (.array (bs.map fun b => .ofWord .byte b.toNat))
  | newtypeStruct {name : String} {x : Datum} {v : Value} (h : Becomes x v) :
      Becomes (.newtypeStruct name x) v
  | sequence {xs : List Datum} {vs : List Value} (h : AllBecome xs vs) :
      Becomes (.sequence xs) (.array vs)
  | tuple {xs : List Datum} {vs : List Value} (h : AllBecome xs vs) :
      Becomes (.tuple xs) (.struct vs)
  | tupleStruct {name : String} {xs : List Datum} {vs : List Value} (h : AllBecome xs vs) :
      Becomes (.tupleStruct name xs) (.struct vs)
  | struct {name : String} {fields : List DatumField} {vs : List Value}
      (h : AllBecome (fields.map DatumField.datum) vs) : Becomes (.struct name fields) (.struct vs)
  | map {steps : List MapStep} {entries : List Value}
      (h : EntriesBecome (valueTurns [] steps) entries) : Becomes (.map steps) (.array entries)
  | unitVariant {type : String} {index : Nat} (variant : String) :
      Becomes (.unitVariant type index variant) (.text variant)

inductive AllBecome : List Datum → List Value → Prop where
  | nil : AllBecome [] []
  | cons {x : Datum} {xs : List Datum} {v : Value} {vs : List Value} (hfirst : Becomes x v)
      (hrest : AllBecome xs vs) : AllBecome (x :: xs) (v :: vs)

/-- The entries that the values of a map become, one for each, with the key that belongs to it. -/
inductive EntriesBecome : List (List MapStep × Datum) → List Value → Prop where
  | nil : EntriesBecome [] []
  | cons {before : List MapStep} {x y : Datum} {turns : List (List MapStep × Datum)}
      {key value : Value} {entries : List Value} (hpending : pendingKey before = some x)
      (hkey : Becomes x key) (hvalue : Becomes y value) (hrest : EntriesBecome turns entries) :
      EntriesBecome ((before, y) :: turns) (.dictEntry key value :: entries)

end

/-! ### Runs that abide by their calls -/

section Abides

variable {α β : Type} {front back calls : List Call} {P : α → Prop} {Q : β → Prop}

/-- Whether a run goes as its calls say: it fails with the fault of the first call that has one,
    and otherwise it gives the only result of a kind. -/
def Abides (calls : List Call) (P : α → Prop) (run : Except Error α) : Prop :=
  match calls.findSome? Call.fault? with
  | some fault => run = refuse fault
  | none => ∃ a, run = .ok a ∧ ∀ b, P b ↔ b = a

theorem Abides.done {a : α} (ha : P a) (hall : ∀ b, P b → b = a) : Abides [] P (.ok a) :=
  ⟨a, rfl, fun b => ⟨hall b, fun h => h ▸ ha⟩⟩

theorem Abides.refuse {call : Call} {fault : Fault} (h : call.fault? = some fault) :
    Abides (call :: calls) P (refuse fault) := by
  rw [Abides, List.findSome?_cons, h]

theorem Abides.answered {call : Call} {run : Except Error α} (h : call.fault? = none)
    (hrun : Abides calls P run) : Abides (call :: calls) P run := by
  rw [Abides, List.findSome?_cons, h]
  exact hrun

/-- A run of two steps abides by the calls of both when the second step does, once the result of
    the first is there. -/
theorem Abides.bind {x : Except Error α} {f : α → Except Error β} (hx : Abides front P x)
    (hf : ∀ a, (∀ b, P b ↔ b = a) → Abides back Q (f a)) :
    Abides (front ++ back) Q (x >>= f) := by
  rw [Abides, List.findSome?_append]
  rw [Abides] at hx
  cases hfront : front.findSome? Call.fault? with
  | some fault =>
    rw [hfront] at hx
    rw [hx]
    rfl
  | none =>
    rw [hfront] at hx
    obtain ⟨a, rfl, ha⟩ := hx
    exact hf a ha

/-- A run whose result is put into a container. -/
theorem Abides.wrap {x : Except Error α} {f : α → β} (hx : Abides calls P x)
    (hmake : ∀ a, P a → Q (f a)) (honly : ∀ b, Q b → ∃ a, P a ∧ b = f a) :
    Abides calls Q (x >>= fun a => pure (f a)) := by
  have h : Abides (calls ++ []) Q (x >>= fun a => pure (f a)) := by
    apply hx.bind
    intro a ha
    apply Abides.done (hmake a ((ha a).2 rfl))
    intro b hb
    obtain ⟨a', ha', rfl⟩ := honly b hb
    rw [(ha a').1 ha']
  rwa [List.append_nil] at h

theorem Abides.error_iff {run : Except Error α} {e : Error} (h : Abides calls P run) :
    run = .error e ↔ ∃ fault, calls.findSome? Call.fault? = some fault ∧ e = .conversion fault := by
  rw [Abides] at h
  cases hfault : calls.findSome? Call.fault? with
  | some fault =>
    rw [hfault] at h
    rw [h]
    constructor
    · intro he
      cases he
      exact ⟨fault, rfl, rfl⟩
    · rintro ⟨_, ⟨⟩, rfl⟩
      rfl
  | none =>
    rw [hfault] at h
    obtain ⟨a, rfl, -⟩ := h
    constructor
    · intro he
      cases he
    · rintro ⟨_, hnone, -⟩
      cases hnone

theorem Abides.ok_iff {run : Except Error α} {a : α} (h : Abides calls P run) :
    run = .ok a ↔ calls.findSome? Call.fault? = none ∧ P a := by
  rw [Abides] at h
  cases hfault : calls.findSome? Call.fault? with
  | some fault =>
    rw [hfault] at h
    rw [h]
    exact ⟨nofun, nofun⟩
  | none =>
    rw [hfault] at h
    obtain ⟨b, rfl, hb⟩ := h
    rw [and_iff_right rfl, hb]
    exact ⟨fun hab => (Except.ok.inj hab).symm, fun hab => congrArg Except.ok hab.symm⟩

end Abides

/-! ### Handing data over -/

theorem abides_plain {x : Datum} {v : Value} (hv : x.Becomes v)
    (honly : ∀ w, x.Becomes w → w = v) : Abides [.supported] x.Becomes (.ok v) :=
  .answered rfl (.done hv honly)

/-- Whether the key that is held back is the value of the pending one. -/
def HoldsBack (before : List MapStep) (pending : Option Value) : Prop :=
  Option.Rel (fun x key => ∀ v, Becomes x v ↔ v = key) (pendingKey before) pending

theorem holdsBack_nil : HoldsBack [] none := .none

theorem holdsBack_key (before : List MapStep) {x : Datum} {key : Value}
    (h : ∀ v, x.Becomes v ↔ v = key) : HoldsBack (before ++ [.key x]) (some key) := by
  rw [HoldsBack, pendingKey_append_key]
  exact .some h

theorem holdsBack_value (before : List MapStep) (x : Datum) :
    HoldsBack (before ++ [.value x]) none := by
  rw [HoldsBack, pendingKey_append_value]
  exact .none

mutual

/-- Handing over a piece of data goes as its calls say. -/
theorem abides_toValue (x : Datum) : Abides x.calls x.Becomes x.toValue :=
  match x with
  | .bool b => abides_plain (.bool b) (by rintro _ ⟨⟩; rfl)
  | .int n => abides_plain (.int n) (by rintro _ ⟨⟩; rfl)
  | .single x => abides_plain (.single x) (by rintro _ ⟨⟩; rfl)
  | .double x => abides_plain (.double x) (by rintro _ ⟨⟩; rfl)
  | .char c => abides_plain (.char c) (by rintro _ ⟨⟩; rfl)
  | .text s => abides_plain (.text s) (by rintro _ ⟨⟩; rfl)
  | .bytes bs => abides_plain (.bytes bs) (by rintro _ ⟨⟩; rfl)
  | .unitVariant _ _ variant => abides_plain (.unitVariant variant) (by rintro _ ⟨⟩; rfl)
  | .extraInt _ _ | .absent | .present _ | .unit | .unitStruct _ => .refuse rfl
  | .newtypeVariant _ _ _ _ | .tupleVariant _ _ _ _ | .structVariant _ _ _ _ => .refuse rfl
  | .refusing _ => .refuse rfl
  | .newtypeStruct name x => by
    have hsame : (newtypeStruct name x).Becomes = x.Becomes := by
      funext v
      apply propext
      constructor
      · intro h
        cases h with
        | newtypeStruct h => exact h
      · exact .newtypeStruct
    rw [calls, toValue, hsame]
    exact .answered rfl (abides_toValue x)
  | .sequence xs => by
    apply Abides.answered rfl
    apply (abides_toValues xs).wrap fun _ => .sequence
    intro v h
    cases h with
    | sequence h => exact ⟨_, h, rfl⟩
  | .tuple xs => by
    apply Abides.answered rfl
    apply (abides_toValues xs).wrap fun _ => .tuple
    intro v h
    cases h with
    | tuple h => exact ⟨_, h, rfl⟩
  | .tupleStruct _ xs => by
    apply Abides.answered rfl
    apply (abides_toValues xs).wrap fun _ => .tupleStruct
    intro v h
    cases h with
    | tupleStruct h => exact ⟨_, h, rfl⟩
  | .struct _ fields => by
    apply Abides.answered rfl
    apply (abides_fieldValues fields).wrap fun _ => .struct
    intro v h
    cases h with
    | struct h => exact ⟨_, h, rfl⟩
  | .map steps => by
    apply Abides.answered rfl
    apply (abides_mapEntries steps holdsBack_nil).wrap fun _ => .map
    intro v h
    cases h with
    | map h => exact ⟨_, h, rfl⟩

theorem abides_toValues (xs : List Datum) :
    Abides (allCalls xs) (AllBecome xs) (toValues xs) :=
  match xs with
  | [] => .done .nil (by rintro _ ⟨⟩; rfl)
  | x :: xs => by
    apply (abides_toValue x).bind
    intro v hv
    apply (abides_toValues xs).wrap
    · intro vs hvs
      exact .cons ((hv v).2 rfl) hvs
    · intro vs h
      cases h with
      | cons hfirst hrest => exact ⟨_, hrest, by rw [(hv _).1 hfirst]⟩

theorem abides_fieldValues (fields : List DatumField) :
    Abides (fieldCalls fields) (AllBecome (fields.map DatumField.datum)) (fieldValues fields) :=
  match fields with
  | [] => .done .nil (by rintro _ ⟨⟩; rfl)
  | .field _ x :: fields => by
    apply (abides_toValue x).bind
    intro v hv
    apply (abides_fieldValues fields).wrap
    · intro vs hvs
      exact .cons ((hv v).2 rfl) hvs
    · intro vs h
      cases h with
      | cons hfirst hrest => exact ⟨_, hrest, by rw [(hv _).1 hfirst]⟩

/-- The steps of a map that are left go as their calls say, whatever has gone before. -/
theorem abides_mapEntries (steps : List MapStep) {before : List MapStep} {pending : Option Value}
    (hpending : HoldsBack before pending) :
    Abides (stepCalls before steps) (EntriesBecome (valueTurns before steps))
      (mapEntries pending steps) :=
  match steps with
  | [] => .done .nil (by rintro _ ⟨⟩; rfl)
  | .key x :: steps => by
    apply Abides.answered rfl
    apply (abides_toValue x).bind
    intro key hkey
    exact abides_mapEntries steps (holdsBack_key before hkey)
  | .value y :: steps => by
    rw [stepCalls, valueTurns]
    rw [HoldsBack] at hpending
    cases hbefore : pendingKey before with
    | none =>
      rw [hbefore] at hpending
      cases hpending
      exact .refuse rfl
    | some x =>
      rw [hbefore] at hpending
      cases hpending with
      | @some _ key hkey =>
        apply Abides.answered rfl
        apply (abides_toValue y).bind
        intro value hvalue
        apply (abides_mapEntries steps (holdsBack_value before y)).wrap
        · intro entries hentries
          exact .cons hbefore ((hkey key).2 rfl) ((hvalue value).2 rfl) hentries
        · intro entries h
          cases h with
          | cons hpending hk hv hrest =>
            cases hbefore.symm.trans hpending
            exact ⟨_, hrest, by rw [(hkey _).1 hk, (hvalue _).1 hv]⟩

end

/-! ### The entries of a map -/

theorem length_of_entriesBecome {before steps : List MapStep} {entries : List Value}
    (h : EntriesBecome (valueTurns before steps) entries) :
    entries.length = steps.countP MapStep.isValue := by
  induction steps generalizing before entries with
  | nil =>
    cases h
    rfl
  | cons s steps ih =>
    cases s with
    | key x =>
      rw [List.countP_cons_of_neg (by simp [MapStep.isValue])]
      exact ih h
    | value y =>
      rw [List.countP_cons_of_pos rfl]
      cases h with
      | cons _ _ _ hrest => rw [List.length_cons, ih hrest]

/-- The entry of a value stands behind those of the values before it, and its key is the step right
    before the value. -/
theorem entry_of_entriesBecome {before front back : List MapStep} {y : Datum} {entries : List Value}
    (h : EntriesBecome (valueTurns before (front ++ .value y :: back)) entries) :
    ∃ x key value, (before ++ front).getLast? = some (.key x) ∧ x.Becomes key ∧ y.Becomes value ∧
      entries[front.countP MapStep.isValue]? = some (.dictEntry key value) := by
  induction front generalizing before entries with
  | nil =>
    cases h with
    | cons hpending hkey hvalue _ =>
      rw [List.append_nil]
      exact ⟨_, _, _, pendingKey_eq_some_iff.1 hpending, hkey, hvalue, rfl⟩
  | cons s front ih =>
    rw [List.append_cons]
    cases s with
    | key x =>
      rw [List.countP_cons_of_neg (by simp [MapStep.isValue])]
      exact ih h
    | value z =>
      rw [List.countP_cons_of_pos rfl]
      cases h with
      | cons _ _ _ hrest => exact ih hrest

/-- Handing data over fails exactly when one of its calls has a fault, with the fault of the first
    such call. When none has, it gives the value that the data becomes. For a map this is an array
    with one entry for each value, in their order, and the key of an entry is the step right before
    its value: a key before another key or at the end is in no entry, and none is in two. -/
theorem toValue_follows_calls (x : Datum) :
    (∀ e, x.toValue = .error e ↔
      ∃ fault, (∃ before call after, x.calls = before ++ call :: after ∧
        call.fault? = some fault ∧ ∀ c ∈ before, c.fault? = none) ∧ e = .conversion fault) ∧
    (∀ v, x.toValue = .ok v ↔ (∀ call ∈ x.calls, call.fault? = none) ∧ x.Becomes v) ∧
    ∀ steps v, x = .map steps → x.toValue = .ok v →
      ∃ entries, v = .array entries ∧ entries.length = steps.countP MapStep.isValue ∧
        ∀ before y after, steps = before ++ .value y :: after →
          ∃ x key value, before.getLast? = some (.key x) ∧ x.Becomes key ∧ y.Becomes value ∧
            entries[before.countP MapStep.isValue]? = some (.dictEntry key value) := by
  have habides := abides_toValue x
  refine ⟨?_, ?_, ?_⟩
  · intro e
    rw [habides.error_iff]
    simp only [List.findSome?_eq_some_iff]
  · intro v
    rw [habides.ok_iff, List.findSome?_eq_none_iff]
  · intro steps v hx hv
    subst hx
    cases (habides.ok_iff.1 hv).2 with
    | @map _ entries h =>
      refine ⟨entries, rfl, length_of_entriesBecome h, ?_⟩
      intro before y after hsteps
      subst hsteps
      exact entry_of_entriesBecome h

/-- The key a is replaced and the key c has no value, so there is one entry, with the key b. A value
    without a key is refused before its own data is looked at. -/
theorem toValue_follows_calls_map :
    (map [.key (.text "a"), .key (.text "b"), .value (.bool true), .key (.text "c")]).toValue =
      .ok (.array [.dictEntry (.text "b") (.bool true)]) ∧
    (∃ x key value,
      [MapStep.key (.text "a"), .key (.text "b")].getLast? = some (.key x) ∧ x.Becomes key ∧
        (bool true).Becomes value ∧
        [Value.dictEntry (.text "b") (.bool true)][0]? = some (.dictEntry key value)) ∧
    (map [.key (.text "a"), .value (.text "b"), .value .unit]).toValue =
      .error (.conversion .valueWithoutKey) := by
  have hvalue : (map [.key (.text "a"), .key (.text "b"), .value (.bool true),
      .key (.text "c")]).toValue = .ok (.array [.dictEntry (.text "b") (.bool true)]) := rfl
  refine ⟨hvalue, ?_, ?_⟩
  · obtain ⟨entries, hentries, -, hturns⟩ := (toValue_follows_calls _).2.2 _ _ rfl hvalue
    cases hentries
    exact hturns [.key (.text "a"), .key (.text "b")] (.bool true) [.key (.text "c")] rfl
  · apply ((toValue_follows_calls _).1 _).2
    refine ⟨.valueWithoutKey, ⟨[.supported, .supported, .supported, .value (some (.text "a")),
      .supported], .value none, [.unsupported "()"], rfl, rfl, ?_⟩, rfl⟩
    decide

end Datum

end Marshal
