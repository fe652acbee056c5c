import Marshal.Proofs.Signature.Grammar
import Marshal.Proofs.Signature.Letters
import Marshal.Signature.Basic

/-!
  Signatures and their types.

  A signature is read from a text or made from a type, and its text is the signature of its type
  in both cases (`Made.text_eq`). The letters of a type say where they end, so a text begins with
  the signature of one type at most, and two signatures, which are compared by their texts, are the
  same exactly when their types are (`signature_identifies`). This holds of all types, also of
  those whose signatures are refused by the reader: reading a signature back needs the limits of
  the reader (`parse_text_ok_iff`), telling signatures apart does not.
-/

namespace Marshal

/-! ### Reading the signature of a type -/

namespace TypeTree

theorem signature_of_parse {text : String} {t : TypeTree} (h : parse text = .ok t) :
    t.signature = text := by
  have hletters : t.letters = text.toList := (Signature.Parser.parse_ok_iff_moves.1 h).letters_eq
  rw [signature, hletters, String.ofList_toList]

/-- The signature of a type spells no other type, and the type itself only within the limits
    of the reader. -/
theorem parse_signature_ok_iff {t u : TypeTree} :
    parse t.signature = .ok u ↔ u = t ∧ t.depth ≤ 128 ∧ t.noEmptyStruct := by
  constructor
  · intro h
    have hsame : u = t := signature_inj (signature_of_parse h)
    obtain ⟨hstructs, hdepth⟩ := Signature.Parser.fits_of_parse h
    rw [← hsame]
    exact ⟨rfl, by simpa [Signature.Parser.maxDepth] using hdepth, hstructs⟩
  · intro h
    obtain ⟨rfl, hdepth, hstructs⟩ := h
    rw [Signature.Parser.parse_ok_iff_moves, signature, String.toList_ofList]
    apply Signature.Parser.moves_letters u []
    exact ⟨hstructs, by simpa [Signature.Parser.maxDepth] using hdepth⟩

end TypeTree

namespace Signature

/-- The ways to come by a signature. -/
inductive Made : Signature → Prop where
  | parse {text : String} {s : Signature} (h : Signature.parse text = .ok s) : Made s
  | ofTree (root : TypeTree) : Made (.ofTree root)

theorem parse_ok_iff {text : String} {s : Signature} :
    Signature.parse text = .ok s ↔ s.text = text ∧ TypeTree.parse text = .ok s.root := by
  obtain ⟨text', root⟩ := s
  simp only [Signature.parse, map_ok_iff, Signature.mk.injEq]
  constructor
  · intro h
    obtain ⟨t, ht, rfl, rfl⟩ := h
    exact ⟨rfl, ht⟩
  · intro h
    obtain ⟨rfl, ht⟩ := h
    exact ⟨root, ht, rfl, rfl⟩

/-- The text of a signature is the signature of its type. -/
theorem Made.text_eq {s : Signature} (h : s.Made) : s.text = s.root.signature := by
  cases h with
  | ofTree root => rfl
  | parse h =>
    obtain ⟨rfl, hroot⟩ := parse_ok_iff.1 h
    exact (TypeTree.signature_of_parse hroot).symm

/-- The text of a signature is read back as that signature or not at all. -/
theorem parse_text_ok_iff {s u : Signature} (hs : s.Made) :
    Signature.parse s.text = .ok u ↔ u = s ∧ s.root.depth ≤ 128 ∧ s.root.noEmptyStruct := by
  rw [parse_ok_iff, hs.text_eq, TypeTree.parse_signature_ok_iff]
  constructor
  · intro h
    obtain ⟨htext, hroot, hlimits⟩ := h
    rw [← hs.text_eq] at htext
    obtain ⟨text, root⟩ := u
    cases htext
    cases hroot
    exact ⟨rfl, hlimits⟩
  · intro h
    obtain ⟨rfl, hlimits⟩ := h
    exact ⟨hs.text_eq, rfl, hlimits⟩

/-! ### Telling signatures apart -/

theorem beq_iff_root_eq {s u : Signature} (hs : s.Made) (hu : u.Made) :
    (s == u) = true ↔ s.root = u.root := by
  have htext : (s == u) = true ↔ s.text = u.text := by
    change (s.text == u.text) = true ↔ s.text = u.text
    exact beq_iff_eq
  rw [htext, hs.text_eq, hu.text_eq]
  exact ⟨TypeTree.signature_inj, congrArg TypeTree.signature⟩

/-- A text begins with the signature of one type at most, so two signatures are the same exactly
    when their types are, whether they were read or made by hand. -/
theorem signature_identifies :
    (∀ (t u : TypeTree) (rest rest' : String),
      t.signature ++ rest = u.signature ++ rest' ↔ t = u ∧ rest = rest') ∧
    ∀ s u : Signature, s.Made → u.Made → ((s == u) = true ↔ s.root = u.root) := by
  constructor
  · intro t u rest rest'
    constructor
    · intro h
      have hletters := congrArg String.toList h
      simp only [TypeTree.signature, String.toList_append, String.toList_ofList] at hletters
      obtain ⟨htype, hrest⟩ := TypeTree.letters_append_inj t u hletters
      exact ⟨htype, String.toList_inj.1 hrest⟩
    · intro h
      rw [h.1, h.2]
  · intro s u hs hu
    exact beq_iff_root_eq hs hu

/-- A signature that was read is the same as the one made from its type by hand. Empty structs are
    told apart from what is around them and behind them. -/
theorem signature_identifies_struct :
    Signature.parse "(ai)" = .ok ⟨"(ai)", .struct [.array (.scalar (.int .int32))]⟩ ∧
    ((⟨"(ai)", .struct [.array (.scalar (.int .int32))]⟩ : Signature) ==
      .ofTree (.struct [.array (.scalar (.int .int32))])) = true ∧
    ¬ (Signature.ofTree (.struct []) == .ofTree (.struct [.struct []])) = true ∧
    (TypeTree.struct []).signature ++ "()" ≠ (TypeTree.struct [.struct []]).signature ++ "" := by
  have hparse : Signature.parse "(ai)" =
      .ok ⟨"(ai)", .struct [.array (.scalar (.int .int32))]⟩ := rfl
  obtain ⟨hreadable, hsame⟩ := signature_identifies
  refine ⟨hparse, ?_, ?_, ?_⟩
  · exact (hsame _ _ (.parse hparse) (.ofTree _)).2 rfl
  · intro h
    exact absurd ((hsame _ _ (.ofTree _) (.ofTree _)).1 h) (by decide)
  · intro h
    exact absurd ((hreadable _ _ _ _).1 h).1 (by decide)

end Signature

end Marshal
