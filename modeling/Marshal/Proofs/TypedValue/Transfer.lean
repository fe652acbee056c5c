import Marshal.Proofs.Datum.Reading
import Marshal.Proofs.TypedValue.SelfDescribing

/-!
  Handing program data from one program to another.

  One program hands over data, checks it against a signature and writes it; the other reads
  the bytes under the same text and takes the data out by its type. The bytes give back the
  value as it was checked (`ofBytes_of_toBytes`), the check only recast it
  (`recast_of_conform`), and reading by type does not mind (`Shape.read_of_toValue`), so
  the data arrives as it was (`decode_of_encode`).
-/

namespace Marshal.TypedValue

theorem encode_ok_iff {settings : Settings} {text : String} {x : Datum} {a : TypedValue} :
    encode settings text x = .ok a ↔
      Signature.parse text = .ok a.signature ∧
        ∃ v, x.toValue = .ok v ∧ conform settings.coercion a.type v = .ok a.value := by
  simp only [encode, ofDatum, ofValue, bind_ok_iff, map_ok_iff]
  constructor
  · intro h
    obtain ⟨s, hs, v, hv, w, hw, rfl⟩ := h
    exact ⟨hs, v, hv, hw⟩
  · intro h
    obtain ⟨hs, v, hv, hw⟩ := h
    exact ⟨a.signature, hs, v, hv, a.value, hw, rfl⟩

/-- Data that was checked against a signature and written is read back under the text of the
    signature, and taken out by its type it is the same data, to the last bit of every
    double. Only an integer that was written as a double need not come back. -/
theorem decode_of_encode (settings : Settings) (text : String)
    (readings : Shape → Datum.Reading Datum) (laws : Datum.ReadingLaws readings) (shape : Shape)
    (x : Datum) (a : TypedValue) (bytes : List UInt8) (hshape : shape.withoutSingle)
    (hx : shape.Holds x) (hencode : encode settings text x = .ok a)
    (hbytes : a.toBytes settings = .ok bytes)
    (hdouble : settings.coercion = .weak →
      ∀ v, x.toValue = .ok v → ¬ a.type.integerAtDouble v) :
    decode settings text bytes = .ok a ∧ a.readAs (readings shape) = .ok x := by
  obtain ⟨hparse, v, hv, hconform⟩ := encode_ok_iff.1 hencode
  constructor
  · have hroot : TypeTree.parse text = .ok a.type := (Signature.parse_ok_iff.1 hparse).2
    have hsized := TypeTree.elementsSized_of_parse hroot
    rw [decode, hparse, ok_bind]
    exact ofBytes_of_toBytes hsized hbytes
  · have hrecast : Recast v a.value := by
      apply recast_of_conform a.type hconform
      intro hweak
      exact hdouble hweak v hv
    exact Shape.read_of_toValue laws shape hshape hx hv hrecast

/-- A pair of a text and a map is sent as a dict entry, the numbers of the map as bytes. The later
    one of the two variants that are keys of the map comes first. -/
theorem decode_of_encode_pair :
    ∃ a : TypedValue,
      encode ⟨.big, .weak⟩ "{sa{sy}}"
        (.tuple [.text "n", .map (Datum.stepsOf [
          (.unitVariant "Level" 1 "b", .int (.ofWord .uint32 7)),
          (.unitVariant "Level" 0 "a", .int (.ofWord .uint32 9))])]) = .ok a ∧
      a.value = .dictEntry (.text "n") (.array [
        .dictEntry (.text "b") (.ofWord .byte 7), .dictEntry (.text "a") (.ofWord .byte 9)]) ∧
      decode ⟨.big, .weak⟩ "{sa{sy}}"
        [0, 0, 0, 1, 110, 0, 0, 0, 0, 2, 0, 0, 0, 1, 98, 0, 7, 0, 0, 0, 1, 97, 0, 9] = .ok a ∧
      a.readAs (Shape.tuple [.text, .map
          (.enumeration "Level" [("a", .unit), ("b", .unit)]) (.int .uint32)
          fun a b => b.order a]).reading =
        .ok (.tuple [.text "n", .map (Datum.stepsOf [
          (.unitVariant "Level" 1 "b", .int (.ofWord .uint32 7)),
          (.unitVariant "Level" 0 "a", .int (.ofWord .uint32 9))])]) := by
  have hmap : (Shape.map (.enumeration "Level" [("a", .unit), ("b", .unit)]) (.int .uint32)
      fun a b => b.order a).Holds (.map (Datum.stepsOf [
        (.unitVariant "Level" 1 "b", .int (.ofWord .uint32 7)),
        (.unitVariant "Level" 0 "a", .int (.ofWord .uint32 9))])) := by
    refine .map (List.pairwise_pair.2 (by decide)) ?_ ?_
    · simpa using ⟨.unitVariant (by decide) rfl, .unitVariant (by decide) rfl⟩
    · simpa using ⟨.int (.ofWord .uint32 7), .int (.ofWord .uint32 9)⟩
  have hencode : encode ⟨.big, .weak⟩ "{sa{sy}}"
      (.tuple [.text "n", .map (Datum.stepsOf [
        (.unitVariant "Level" 1 "b", .int (.ofWord .uint32 7)),
        (.unitVariant "Level" 0 "a", .int (.ofWord .uint32 9))])]) =
      .ok ⟨⟨"{sa{sy}}", .dictEntry (.scalar .text)
          (.array (.dictEntry (.scalar .text) (.scalar (.int .byte))))⟩,
        .dictEntry (.text "n") (.array [
          .dictEntry (.text "b") (.ofWord .byte 7), .dictEntry (.text "a") (.ofWord .byte 9)])⟩ :=
    rfl
  have hinteger : ∀ v, (Datum.tuple [.text "n", .map (Datum.stepsOf [
        (.unitVariant "Level" 1 "b", .int (.ofWord .uint32 7)),
        (.unitVariant "Level" 0 "a", .int (.ofWord .uint32 9))])]).toValue = .ok v →
      ¬ (TypeTree.dictEntry (.scalar .text)
        (.array (.dictEntry (.scalar .text) (.scalar (.int .byte))))).integerAtDouble v := by
    intro v hv
    cases hv
    decide
  obtain ⟨hread, hdatum⟩ := decode_of_encode _ _ Shape.reading Shape.readingLaws_reading _ _ _ _
    rfl (.tuple (.cons (.text "n") (.cons hmap .nil))) hencode rfl fun _ => hinteger
  exact ⟨_, hencode, rfl, hread, hdatum⟩

end Marshal.TypedValue
