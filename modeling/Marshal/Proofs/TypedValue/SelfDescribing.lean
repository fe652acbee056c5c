import Marshal.Proofs.Signature.Identity
import Marshal.Proofs.Signature.Limits
import Marshal.Proofs.Wire.RoundTrip
import Marshal.TypedValue
import Mathlib.Logic.Function.Iterate

/-!
  Getting a typed value back from its text and its bytes.

  The text of a signature is read back as the signature where its type nests at most 128
  containers and has no empty struct (`parse_text_ok_iff`). A signature that was read from a
  text is always of that kind; one that was made from a type need not be, since any type can
  be made by hand. Within these limits the text and the bytes of a typed value give the
  value back, and outside of them the text is refused for the limit that is exceeded
  (`decode_text_of_toBytes`).
-/

namespace Marshal

namespace TypeTree

theorem depth_iterate_array (n : Nat) (t : TypeTree) : (array^[n] t).depth = t.depth + n := by
  induction n with
  | zero => rfl
  | succ n ih => rw [Function.iterate_succ_apply', depth, ih, Nat.add_assoc]

end TypeTree

namespace TypedValue

/-! ### Reading a typed value -/

section Reading

variable {settings : Settings} {a : TypedValue} {bytes : List UInt8}

/-- The bytes of a value are read back under its own signature where every array has elements
    that take room. -/
theorem ofBytes_of_toBytes (hsized : a.type.elementsSized)
    (hbytes : a.toBytes settings = .ok bytes) :
    ofBytes settings a.signature bytes = .ok a := by
  refine map_ok_iff.2 ⟨a.value, ?_, rfl⟩
  have hverdict := Wire.decode_eq_verdict hbytes
  rw [type] at hverdict hsized
  rw [hverdict, Wire.verdict_ok_iff]
  exact ⟨fun s hs => Wire.not_starved_of_sized hsized hs, rfl⟩

/-- The text of a signature that exceeds the limits of the reader is refused for a limit that its
    type breaks. -/
theorem decode_error_of_limits (hmade : a.signature.Made)
    (hlimits : ¬ (a.type.depth ≤ 128 ∧ a.type.noEmptyStruct)) :
    ∃ fault, decode settings a.signature.text bytes =
        .error (.malformedSignature a.signature.text fault) ∧
      (fault.reason = .tooDeep ∧ 128 < a.type.depth ∨
        fault.reason = .emptyStruct ∧ ¬ a.type.noEmptyStruct) := by
  obtain ⟨fault, hparse, hreason⟩ := Signature.Parser.parse_signature_error hlimits
  refine ⟨fault, ?_, hreason⟩
  rw [type] at hparse
  rw [hmade.text_eq, decode, Signature.parse, hparse]
  rfl

/-- The text of the signature and the bytes give a typed value back if its type nests at most
    128 containers and has no empty struct, which is so for all types that were read from a
    text. The text of any other type is refused, as nested too deep only where it is and for an
    empty struct only where there is one. -/
theorem decode_text_of_toBytes (settings : Settings) (a : TypedValue) (bytes : List UInt8)
    (hmade : a.signature.Made) (hbytes : a.toBytes settings = .ok bytes) :
    (a.type.depth ≤ 128 ∧ a.type.noEmptyStruct →
      decode settings a.signature.text bytes = .ok a) ∧
    (¬ (a.type.depth ≤ 128 ∧ a.type.noEmptyStruct) →
      ∃ fault, decode settings a.signature.text bytes =
          .error (.malformedSignature a.signature.text fault) ∧
        (fault.reason = .tooDeep ∧ 128 < a.type.depth ∨
          fault.reason = .emptyStruct ∧ ¬ a.type.noEmptyStruct)) ∧
    ((∃ text, Signature.parse text = .ok a.signature) →
      a.type.depth ≤ 128 ∧ a.type.noEmptyStruct) := by
  have hparse : ∀ s, Signature.parse a.signature.text = .ok s ↔
      s = a.signature ∧ a.type.depth ≤ 128 ∧ a.type.noEmptyStruct := by
    intro s
    exact Signature.parse_text_ok_iff hmade
  refine ⟨?_, decode_error_of_limits hmade, ?_⟩
  · intro hlimits
    have hsized := TypeTree.elementsSized_of_noEmptyStruct a.type hlimits.2
    rw [decode, (hparse a.signature).2 ⟨rfl, hlimits⟩]
    exact ofBytes_of_toBytes hsized hbytes
  · intro htext
    obtain ⟨text, h⟩ := htext
    obtain ⟨rfl, -⟩ := Signature.parse_ok_iff.1 h
    exact ((hparse a.signature).1 h).2

/-- A dict entry whose type was put together by hand. -/
theorem decode_text_of_toBytes_entry :
    decode default "{sy}" [1, 0, 0, 0, 97, 0, 7] =
      .ok ⟨.ofTree (.dictEntry (.scalar .text) (.scalar (.int .byte))),
        .dictEntry (.text "a") (.ofWord .byte 7)⟩ := by
  have hbytes : toBytes default ⟨.ofTree (.dictEntry (.scalar .text) (.scalar (.int .byte))),
      .dictEntry (.text "a") (.ofWord .byte 7)⟩ = .ok [1, 0, 0, 0, 97, 0, 7] := rfl
  obtain ⟨hread, -, -⟩ := decode_text_of_toBytes default _ _ (.ofTree _) hbytes
  exact hread (by decide)

/-- An empty struct and an array that nests 129 deep have bytes, but the texts of their
    signatures are refused. -/
theorem decode_text_refused :
    ∃ empty deep : TypedValue,
      ofValue default (.ofTree (.struct [])) (.struct []) = .ok empty ∧
      empty.toBytes default = .ok [] ∧
      decode default empty.signature.text [] ≠ .ok empty ∧
      ofValue default (.ofTree (TypeTree.array^[129] (.scalar .bool))) (.array []) = .ok deep ∧
      deep.toBytes default = .ok [0, 0, 0, 0] ∧
      decode default deep.signature.text [0, 0, 0, 0] ≠ .ok deep := by
  have hrefused : ∀ (t : TypeTree) (v : Value) (bytes : List UInt8),
      ¬ (t.depth ≤ 128 ∧ t.noEmptyStruct) →
        decode default (Signature.ofTree t).text bytes ≠ .ok ⟨.ofTree t, v⟩ := by
    intro t v bytes hlimits hread
    obtain ⟨s, hparse, -⟩ := bind_ok_iff.1 hread
    exact hlimits ((Signature.parse_text_ok_iff (.ofTree t)).1 hparse).2
  have hdepth := TypeTree.depth_iterate_array 129 (.scalar .bool)
  have hdeep : ¬ (TypeTree.array^[129] (.scalar .bool)).depth ≤ 128 := by
    rw [hdepth]
    decide
  exact ⟨_, _, rfl, rfl, hrefused _ _ _ (by decide), rfl, rfl,
    hrefused _ _ _ fun hlimits => hdeep hlimits.1⟩

end Reading

end TypedValue

end Marshal
