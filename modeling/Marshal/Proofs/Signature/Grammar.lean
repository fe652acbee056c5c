import Marshal.Proofs.Signature.Reader

/-!
  The language of signatures.

  The letters of a type lead the reader from a place where a type is awaited to the
  state after that type (`moves_letters`), as long as the type may stand there. With
  the letters behind each state this gives the language of signatures: a text spells a
  type exactly when it is the signature of the type, the type nests at most 128
  containers and none of its structs is empty (`parse_eq_ok_iff`).
-/

namespace Marshal.Signature.Parser

theorem Moves.single {state next : State} {letter : Char} (h : Move state letter next) :
    Moves state [letter] next :=
  .more h .done

mutual

/-- The letters of a type lead to the state after the type. -/
theorem moves_letters (t : TypeTree) (stack : List Frame) (ht : Fits stack.length t) :
    Moves (.expecting stack) t.letters (deliver t stack) :=
  match t with
  | .scalar c => .single (.scalar (ScalarType.ofLetter?_letter c))
  | .array t => by
    have helement := fits_array.1 ht
    have hrest := moves_letters t (.array :: stack) helement
    exact .more (.opening rfl helement.level_le) hrest
  | .struct ts => by
    obtain ⟨hlt, hne, hts⟩ := fits_struct.1 ht
    have hfields := moves_fieldsLetters ts [] stack hts
    rw [List.append_nil] at hfields
    have hclose : Move (.expecting (.struct ts.reverse :: stack)) ')'
        (deliver (.struct ts) stack) := by
      have := @Move.closeStruct ts.reverse stack (by simpa using hne)
      rwa [List.reverse_reverse] at this
    exact .more (.opening rfl hlt) (hfields.append (.single hclose))
  | .dictEntry k v => by
    obtain ⟨hk, hv⟩ := fits_dictEntry.1 ht
    have hkey := moves_letters k (.entry none :: stack) hk
    have hvalue := moves_letters v (.entry (some k) :: stack) hv
    exact .more (.opening rfl hk.level_le) (hkey.append (hvalue.append (.single .closeEntry)))

/-- The letters of fields put the fields on top of those that were read before. -/
theorem moves_fieldsLetters (ts fields : List TypeTree) (stack : List Frame)
    (hts : ∀ t ∈ ts, Fits (stack.length + 1) t) :
    Moves (.expecting (.struct fields :: stack)) (TypeTree.fieldsLetters ts)
      (.expecting (.struct (ts.reverse ++ fields) :: stack)) :=
  match ts with
  | [] => .done
  | t :: ts => by
    have hfirst := moves_letters t (.struct fields :: stack) (hts t (List.mem_cons_self ..))
    have hrest := moves_fieldsLetters ts (t :: fields) stack fun u hu =>
      hts u (List.mem_cons_of_mem t hu)
    simpa [TypeTree.fieldsLetters] using hfirst.append hrest

end

/-- A text spells a type exactly when it is the signature of the type, no more than
    128 containers are open at once and every struct has a field. -/
theorem parse_eq_ok_iff (text : String) (t : TypeTree) :
    TypeTree.parse text = .ok t ↔
      text = t.signature ∧ t.depth ≤ 128 ∧ t.noEmptyStruct := by
  constructor
  · intro h
    have hletters : t.letters = text.toList := (parse_ok_iff_moves.1 h).letters_eq
    obtain ⟨hstructs, hdepth⟩ := fits_of_parse h
    refine ⟨?_, by simpa [maxDepth] using hdepth, hstructs⟩
    rw [TypeTree.signature, hletters, String.ofList_toList]
  · intro h
    rcases h with ⟨rfl, hdepth, hstructs⟩
    rw [parse_ok_iff_moves, TypeTree.signature, String.toList_ofList]
    exact moves_letters t [] ⟨hstructs, by simpa [maxDepth] using hdepth⟩

end Marshal.Signature.Parser
