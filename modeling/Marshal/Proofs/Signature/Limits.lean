import Marshal.Proofs.Signature.DepthLimit
import Marshal.Proofs.Signature.Grammar

/-!
  What a type is refused for.

  A type may nest too many containers or have a struct without fields. The reader refuses its
  signature then, and the limit that it blames is one that the type breaks
  (`parse_signature_error`). The proof goes along the type: up to the first part that does not fit
  the letters are read as those of any type (`moves_letters`), and inside of that part the reader
  comes to a container too many or to the bracket after no fields.
-/

namespace Marshal.Signature.Parser

/-! ### Limits that are broken -/

/-- Whether a type inside a number of containers breaks the limit that a reason blames. -/
def Breaks (level : Nat) (t : TypeTree) : Reason → Prop
  | .tooDeep => maxDepth < level + t.depth
  | .emptyStruct => ¬ t.noEmptyStruct
  | _ => False

section Breaks

variable {level : Nat} {reason : Reason}

/-- A container breaks the limits that a part of it breaks. -/
theorem Breaks.of_part {t u : TypeTree} (hdepth : u.depth + 1 ≤ t.depth)
    (hstructs : t.noEmptyStruct → u.noEmptyStruct) (h : Breaks (level + 1) u reason) :
    Breaks level t reason := by
  cases reason with
  | tooDeep =>
    simp only [Breaks] at h ⊢
    omega
  | emptyStruct => exact fun ht => h (hstructs ht)
  | _ => exact h

theorem Breaks.array {t : TypeTree} (h : Breaks (level + 1) t reason) :
    Breaks level (.array t) reason :=
  h.of_part (Nat.le_refl _) id

theorem Breaks.struct {ts : List TypeTree} {t : TypeTree} (ht : t ∈ ts)
    (h : Breaks (level + 1) t reason) : Breaks level (.struct ts) reason := by
  apply h.of_part
  · exact Nat.succ_le_succ ((TypeTree.fieldsDepth_le_iff ts _).1 (Nat.le_refl _) t ht)
  · intro hts
    simp only [TypeTree.noEmptyStruct, Bool.and_eq_true] at hts
    exact TypeTree.fieldsNoEmptyStruct_iff.1 hts.2 t ht

theorem Breaks.key {k v : TypeTree} (h : Breaks (level + 1) k reason) :
    Breaks level (.dictEntry k v) reason := by
  apply h.of_part
  · exact Nat.succ_le_succ (Nat.le_max_left ..)
  · intro hkv
    simp only [TypeTree.noEmptyStruct, Bool.and_eq_true] at hkv
    exact hkv.1

theorem Breaks.value {k v : TypeTree} (h : Breaks (level + 1) v reason) :
    Breaks level (.dictEntry k v) reason := by
  apply h.of_part
  · exact Nat.succ_le_succ (Nat.le_max_right ..)
  · intro hkv
    simp only [TypeTree.noEmptyStruct, Bool.and_eq_true] at hkv
    exact hkv.2

/-- From the root on, the two limits are those of the whole type. -/
theorem breaks_iff {t : TypeTree} :
    Breaks 0 t reason ↔ reason = .tooDeep ∧ 128 < t.depth ∨
      reason = .emptyStruct ∧ ¬ t.noEmptyStruct := by
  cases reason <;> simp [Breaks, maxDepth]

end Breaks

/-! ### Letters that are refused -/

/-- Whether the reader, where a type is awaited inside of some containers, refuses the letters of a
    type for a limit that the type breaks, whatever comes after. -/
def Refuses (stack : List Frame) (t : TypeTree) : Prop :=
  ∀ offset rest, ∃ fault, run offset (.expecting stack) (t.letters ++ rest) = .error fault ∧
    Breaks stack.length t fault.reason

section Refused

variable {letter : Char} {frame : Frame} {stack : List Frame} {offset : Nat} {rest : List Char}

theorem run_opened (hopen : opened? letter = some frame) (hroom : stack.length < maxDepth) :
    run offset (.expecting stack) (letter :: rest) =
      run (offset + 1) (.expecting (frame :: stack)) rest := by
  rw [run, step_ok_iff.2 (.opening hopen hroom)]

theorem run_not_opened (hopen : opened? letter = some frame) (hfull : maxDepth ≤ stack.length) :
    run offset (.expecting stack) (letter :: rest) = .error ⟨offset, .tooDeep⟩ := by
  have hstep : step (.expecting stack) letter = .error .tooDeep := by
    apply step_tooDeep_iff.2
    refine ⟨stack, rfl, ?_, ?_, hfull⟩
    · unfold opened? at hopen
      split at hopen
      · next ha => rw [ha]; rfl
      · grind [ScalarType.ofLetter?]
    · unfold ClosesInnermost
      grind [opened?]
  rw [run, hstep]

/-- The letter that opens a container is refused itself, or the letters of its parts are. -/
theorem refuses_of_opened {t : TypeTree} {letters : List Char}
    (hletters : t.letters = letter :: letters) (hopen : opened? letter = some frame)
    (ht : 0 < t.depth) (hparts : stack.length < maxDepth → ∀ offset rest, ∃ fault,
      run offset (.expecting (frame :: stack)) (letters ++ rest) = .error fault ∧
        Breaks stack.length t fault.reason) : Refuses stack t := by
  intro offset rest
  rw [hletters, List.cons_append]
  rcases Nat.lt_or_ge stack.length maxDepth with hroom | hfull
  · rw [run_opened hopen hroom]
    exact hparts hroom (offset + 1) rest
  · refine ⟨⟨offset, .tooDeep⟩, run_not_opened hopen hfull, ?_⟩
    simp only [Breaks]
    omega

end Refused

mutual

/-- The letters of a type that does not fit are refused for a limit that the type breaks. -/
theorem refuses_of_not_fits (t : TypeTree) (stack : List Frame) (hstack : stack.length ≤ maxDepth)
    (ht : ¬ Fits stack.length t) : Refuses stack t :=
  match t with
  | .scalar c => absurd (fits_scalar hstack) ht
  | .array t => by
    refine refuses_of_opened rfl rfl (Nat.succ_pos _) fun hroom offset rest => ?_
    obtain ⟨fault, hrun, hbreaks⟩ :=
      refuses_of_not_fits t (.array :: stack) hroom (mt fits_array.2 ht) offset rest
    exact ⟨fault, hrun, hbreaks.array⟩
  | .struct ts => by
    refine refuses_of_opened rfl rfl (Nat.succ_pos _) fun hroom offset rest => ?_
    by_cases hempty : ts = []
    · rw [hempty]
      exact ⟨⟨offset, .emptyStruct⟩, rfl, nofun⟩
    · have hts : ¬ ∀ t ∈ ts, Fits (stack.length + 1) t :=
        fun hts => ht (fits_struct.2 ⟨hroom, hempty, hts⟩)
      obtain ⟨fault, hrun, u, hu, hbreaks⟩ :=
        fields_refused ts [] stack hroom hts offset (')' :: rest)
      refine ⟨fault, ?_, hbreaks.struct hu⟩
      rw [List.append_assoc]
      exact hrun
  | .dictEntry k v => by
    refine refuses_of_opened rfl rfl (Nat.succ_pos _) fun hroom offset rest => ?_
    rw [List.append_assoc]
    by_cases hk : Fits (stack.length + 1) k
    · have hv : ¬ Fits (stack.length + 1) v := fun hv => ht (fits_dictEntry.2 ⟨hk, hv⟩)
      obtain ⟨fault, hrun, hbreaks⟩ := refuses_of_not_fits v (.entry (some k) :: stack) hroom hv
        (offset + k.letters.length) ('}' :: rest)
      refine ⟨fault, ?_, hbreaks.value⟩
      rw [run_of_moves (moves_letters k (.entry none :: stack) hk), List.append_assoc]
      exact hrun
    · obtain ⟨fault, hrun, hbreaks⟩ :=
        refuses_of_not_fits k (.entry none :: stack) hroom hk offset (v.letters ++ ['}'] ++ rest)
      exact ⟨fault, hrun, hbreaks.key⟩

/-- The letters of fields are read up to the first field that does not fit. -/
theorem fields_refused (ts fields : List TypeTree) (stack : List Frame)
    (hroom : stack.length < maxDepth) (hts : ¬ ∀ t ∈ ts, Fits (stack.length + 1) t)
    (offset : Nat) (rest : List Char) :
    ∃ fault, run offset (.expecting (.struct fields :: stack))
        (TypeTree.fieldsLetters ts ++ rest) = .error fault ∧
      ∃ t ∈ ts, Breaks (stack.length + 1) t fault.reason :=
  match ts with
  | [] => absurd nofun hts
  | t :: ts => by
    rw [TypeTree.fieldsLetters, List.append_assoc]
    by_cases ht : Fits (stack.length + 1) t
    · have hrest : ¬ ∀ u ∈ ts, Fits (stack.length + 1) u :=
        fun hrest => hts (List.forall_mem_cons.2 ⟨ht, hrest⟩)
      obtain ⟨fault, hrun, u, hu, hbreaks⟩ :=
        fields_refused ts (t :: fields) stack hroom hrest (offset + t.letters.length) rest
      refine ⟨fault, ?_, u, List.mem_cons_of_mem t hu, hbreaks⟩
      rw [run_of_moves (moves_letters t (.struct fields :: stack) ht)]
      exact hrun
    · obtain ⟨fault, hrun, hbreaks⟩ := refuses_of_not_fits t (.struct fields :: stack) hroom ht
        offset (TypeTree.fieldsLetters ts ++ rest)
      exact ⟨fault, hrun, t, List.mem_cons_self, hbreaks⟩

end

/-- The signature of a type that exceeds the limits of the reader is refused as nested too deep
    only where it is, and for a struct without fields only where it has one. -/
theorem parse_signature_error {t : TypeTree} (h : ¬ (t.depth ≤ 128 ∧ t.noEmptyStruct)) :
    ∃ fault, TypeTree.parse t.signature = .error (.malformedSignature t.signature fault) ∧
      (fault.reason = .tooDeep ∧ 128 < t.depth ∨
        fault.reason = .emptyStruct ∧ ¬ t.noEmptyStruct) := by
  have hfits : ¬ Fits 0 t := by
    rintro ⟨hstructs, hdepth⟩
    exact h ⟨by simpa [maxDepth] using hdepth, hstructs⟩
  obtain ⟨fault, hrun, hbreaks⟩ := refuses_of_not_fits t [] (Nat.zero_le _) hfits 0 []
  have hsome : t.letters.isEmpty = false := by cases t <;> rfl
  rw [List.append_nil] at hrun
  have hread : read t.signature.toList = .error fault := by
    simp [read, TypeTree.signature, hsome, hrun]
  exact ⟨fault, mapError_error_iff.2 ⟨fault, hread, rfl⟩, breaks_iff.1 hbreaks⟩

end Marshal.Signature.Parser
