import Marshal.Proofs.Conformance.Pairs
import Marshal.Proofs.TypedValue.Invariant
import Marshal.Proofs.TypedValue.Transfer

/-!
  Checking what was checked before.

  A check ends in a value in the form that the type prescribes, and no check changes such a
  value. So a value can be checked any number of times, strictly and weakly in turn, and stays
  what the first check made of it (`conform_result`); the value of a typed value goes with its
  signature whatever the settings are, as it stands or handed over as program data.
-/

namespace Marshal

/-- The result of a check passes every other check for the same type, and none changes it. -/
theorem conform_result {coercion : Coercion} (coercion' : Coercion) (t : TypeTree) {v w : Value}
    (h : conform coercion t v = .ok w) : conform coercion' t w = .ok w :=
  conform_of_canonical coercion' t (canonical_of_conform t h)

namespace TypedValue

section Recheck

variable {a : TypedValue}

theorem Built.conform_value (h : Built a) (coercion : Coercion) :
    conform coercion a.type a.value = .ok a.value :=
  conform_of_canonical coercion a.type h.canonical

theorem Built.ofValue_value (h : Built a) (settings : Settings) :
    TypedValue.ofValue settings a.signature a.value = .ok a :=
  map_ok_iff.2 ⟨a.value, h.conform_value settings.coercion, rfl⟩

theorem Built.ofDatum_toDatum (h : Built a) (settings : Settings) :
    TypedValue.ofDatum settings a.signature a.value.toDatum = .ok a := by
  have hconform := conform_withPairs a.type (h.conform_value settings.coercion)
  rw [TypedValue.ofDatum, Datum.toValue_toDatum, ok_bind]
  exact map_ok_iff.2 ⟨a.value, hconform, rfl⟩

end Recheck

/-- Whatever a check ends in, every check for that type accepts as it is, strict or weak. So the
    value of a typed value, however it was made, makes that typed value again with its
    signature and with any text of it, under any settings. -/
theorem conform_fixed :
    (∀ coercion coercion' t v w, conform coercion t v = .ok w → conform coercion' t w = .ok w) ∧
    (∀ settings a, Built a → ofValue settings a.signature a.value = .ok a) ∧
    ∀ settings text a, Built a → Signature.parse text = .ok a.signature →
      check settings text a.value = .ok a := by
  refine ⟨fun _ coercion' t _ _ => conform_result coercion' t, fun settings _ h =>
    h.ofValue_value settings, ?_⟩
  intro settings text a hbuilt hparse
  rw [check, hparse, ok_bind]
  exact hbuilt.ofValue_value settings

/-- A pair that weak coercion made a dict entry of a byte passes again under strict coercion. -/
theorem conform_fixed_entry :
    ∃ a : TypedValue,
      check ⟨.big, .weak⟩ "{sy}" (.struct [.text "a", .ofWord .int32 7]) = .ok a ∧
      conform .strict a.type a.value = .ok a.value ∧
      ofValue default a.signature a.value = .ok a ∧ check default "{sy}" a.value = .ok a := by
  have hcheck : check ⟨.big, .weak⟩ "{sy}" (.struct [.text "a", .ofWord .int32 7]) =
      .ok ⟨⟨"{sy}", .dictEntry (.scalar .text) (.scalar (.int .byte))⟩,
        .dictEntry (.text "a") (.ofWord .byte 7)⟩ := by rfl
  obtain ⟨hconform, hvalue, htext⟩ := conform_fixed
  refine ⟨_, hcheck, ?_, hvalue default _ (.check hcheck), ?_⟩
  · exact hconform .weak .strict _ (.struct [.text "a", .ofWord .int32 7]) _ rfl
  · exact htext default "{sy}" _ (.check hcheck) rfl

/-- Every value can be handed over as program data and comes back as it was, but for a pair in
    place of each dict entry. A check of this value ends where a check of the first one does, so
    the value of a typed value, handed over as data, makes the typed value again. -/
theorem conform_toDatum :
    (∀ v : Value, v.toDatum.toValue = .ok v.withPairs) ∧
    (∀ coercion t v w, conform coercion t v = .ok w →
      conform coercion t v.withPairs = .ok w) ∧
    (∀ settings a, Built a → ofDatum settings a.signature a.value.toDatum = .ok a) ∧
    ∀ settings text a, Built a → Signature.parse text = .ok a.signature →
      encode settings text a.value.toDatum = .ok a := by
  refine ⟨Datum.toValue_toDatum, fun _ t _ _ => conform_withPairs t, fun settings _ h =>
    h.ofDatum_toDatum settings, ?_⟩
  intro settings text a hbuilt hparse
  rw [encode, hparse, ok_bind]
  exact hbuilt.ofDatum_toDatum settings

/-- Both dict entries, one as the value of the other, are pairs in between. -/
theorem conform_toDatum_nested :
    ∃ a : TypedValue,
      check default "{s{yb}}" (.dictEntry (.text "a")
        (.dictEntry (.ofWord .byte 7) (.bool true))) = .ok a ∧
      a.value.toDatum.toValue =
        .ok (.struct [.text "a", .struct [.ofWord .byte 7, .bool true]]) ∧
      conform .strict a.type (.struct [.text "a", .struct [.ofWord .byte 7, .bool true]]) =
        .ok a.value ∧
      ofDatum default a.signature a.value.toDatum = .ok a ∧
      encode default "{s{yb}}" a.value.toDatum = .ok a := by
  have hcheck : check default "{s{yb}}" (.dictEntry (.text "a")
      (.dictEntry (.ofWord .byte 7) (.bool true))) =
        .ok ⟨⟨"{s{yb}}", .dictEntry (.scalar .text)
          (.dictEntry (.scalar (.int .byte)) (.scalar .bool))⟩,
          .dictEntry (.text "a") (.dictEntry (.ofWord .byte 7) (.bool true))⟩ := rfl
  obtain ⟨hpairs, hconform, hvalue, htext⟩ := conform_toDatum
  refine ⟨_, hcheck, hpairs _, ?_, hvalue default _ (.check hcheck),
    htext default _ _ (.check hcheck) rfl⟩
  exact hconform .strict _ (.dictEntry (.text "a") (.dictEntry (.ofWord .byte 7) (.bool true))) _ rfl

end TypedValue

end Marshal
