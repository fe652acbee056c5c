import Marshal.Proofs.Wire.Format

/-!
  What is read is what would have been written.

  Wherever a reader returns a value, the bytes it has passed are the bytes that writing
  gives for the value (`write_of_read`). The induction is on the type; the input around
  the value is arbitrary, so it applies to every part of a message. For whole messages
  this makes the format canonical: no two messages of a type hold the same value
  (`decode_canonical`).
-/

namespace Marshal.Wire

/-! ### When reading succeeds -/

section Read

variable {order : ByteOrder} {input rest : Input} {v : Value}

/-- A reader whose result is put into a container. -/
theorem wrap_ok_iff {α β : Type} {x : Except Error (α × Input)} {f : α → β} {b : β} :
    (do let (a, rest) ← x; return (f a, rest)) = .ok (b, rest) ↔
      ∃ a, x = .ok (a, rest) ∧ b = f a := by
  rw [bind_ok_iff]
  constructor
  · intro h
    rcases h with ⟨⟨a, rest'⟩, hread, h⟩
    cases h
    exact ⟨a, hread, rfl⟩
  · intro h
    rcases h with ⟨a, hread, rfl⟩
    exact ⟨(a, rest), hread, rfl⟩

theorem read_array_ok_iff {type : TypeTree} :
    read order (.array type) input = .ok (v, rest) ↔
      ∃ count start elements, input.word order 4 = .ok (count, start) ∧
        count ≤ start.remaining / elementRoom type ∧
        readMany (read order type) count start = .ok (elements, rest) ∧ v = .array elements := by
  simp only [read, bind_ok_iff (x := input.word order 4), Prod.exists, ite_error_ok_iff,
    wrap_ok_iff, exists_and_left]

theorem read_struct_ok_iff {types : List TypeTree} :
    read order (.struct types) input = .ok (v, rest) ↔
      ∃ fields, readFields order types input = .ok (fields, rest) ∧ v = .struct fields :=
  wrap_ok_iff

theorem read_dictEntry_ok_iff {keyType valueType : TypeTree} :
    read order (.dictEntry keyType valueType) input = .ok (v, rest) ↔
      ∃ key middle value, read order keyType input = .ok (key, middle) ∧
        read order valueType middle = .ok (value, rest) ∧ v = .dictEntry key value := by
  simp only [read, bind_ok_iff (x := read order keyType input), Prod.exists, wrap_ok_iff,
    exists_and_left]

theorem readFields_cons_ok_iff {type : TypeTree} {types : List TypeTree} {vs : List Value} :
    readFields order (type :: types) input = .ok (vs, rest) ↔
      ∃ w middle ws, read order type input = .ok (w, middle) ∧
        readFields order types middle = .ok (ws, rest) ∧ vs = w :: ws := by
  simp only [readFields, bind_ok_iff (x := read order type input), Prod.exists, wrap_ok_iff,
    exists_and_left]

theorem readMany_succ_ok_iff {α : Type} {readOne : Input → Except Error (α × Input)}
    {count : Nat} {as : List α} :
    readMany readOne (count + 1) input = .ok (as, rest) ↔
      ∃ b middle bs, readOne input = .ok (b, middle) ∧
        readMany readOne count middle = .ok (bs, rest) ∧ as = b :: bs := by
  simp only [readMany, bind_ok_iff (x := readOne input), Prod.exists, wrap_ok_iff,
    exists_and_left]

theorem finish_ok_iff {u : Unit} : input.finish = .ok u ↔ input.rest = [] := by
  unfold Input.finish Input.remaining
  split <;> simp_all

theorem whole_ok_iff {readOne : Input → Except Error (Value × Input)} {bytes : List UInt8} :
    whole readOne bytes = .ok v ↔
      ∃ rest, readOne ⟨0, bytes⟩ = .ok (v, rest) ∧ rest.rest = [] := by
  simp only [whole, bind_ok_iff, finish_ok_iff]
  constructor
  · intro h
    rcases h with ⟨⟨w, rest⟩, hread, _, hfinish, h⟩
    cases h
    exact ⟨rest, hread, hfinish⟩
  · intro h
    rcases h with ⟨rest, hread, hfinish⟩
    exact ⟨(v, rest), hread, (), hfinish, rfl⟩

end Read

/-! ### The bytes that were passed -/

theorem elements_of_readMany {readOne : Input → Except Error (Value × Input)}
    {writeOne : Value → Except Error (List UInt8)}
    (hone : ∀ input v rest, readOne input = .ok (v, rest) →
      ∃ bytes, writeOne v = .ok bytes ∧ input.Spans bytes rest)
    {count : Nat} {input rest : Input} {vs : List Value}
    (h : readMany readOne count input = .ok (vs, rest)) :
    vs.length = count ∧ ∃ parts, List.Forall₂ (fun v part => writeOne v = .ok part) vs parts ∧
      input.Spans parts.flatten rest := by
  induction count generalizing input vs with
  | zero =>
    cases h
    exact ⟨rfl, [], .nil, Input.Spans.refl _⟩
  | succ count ih =>
    obtain ⟨v, middle, vs, hfirst, hrest, rfl⟩ := readMany_succ_ok_iff.1 h
    obtain ⟨part, hpart, hfront⟩ := hone input v middle hfirst
    obtain ⟨hlength, parts, hparts, hback⟩ := ih hrest
    refine ⟨by rw [List.length_cons, hlength], part :: parts, .cons hpart hparts, ?_⟩
    exact hfront.trans hback

mutual

/-- The bytes that a reader passes are those that writing gives for the value. -/
theorem write_of_read {order : ByteOrder} (t : TypeTree) {input rest : Input} {v : Value}
    (h : read order t input = .ok (v, rest)) :
    ∃ bytes, write order t v = .ok bytes ∧ input.Spans bytes rest :=
  match t with
  | .scalar c => readScalar_ok_iff.1 h
  | .array t => by
    obtain ⟨count, start, elements, hword, -, helements, rfl⟩ := read_array_ok_iff.1 h
    obtain ⟨hlt, hcount⟩ := word_ok_iff.1 hword
    obtain ⟨rfl, parts, hparts, hspans⟩ :=
      elements_of_readMany (fun _ _ _ hread => write_of_read t hread) helements
    refine ⟨_, write_array_ok_iff.2 ⟨elements, parts, rfl, ?_, hparts, rfl⟩, ?_⟩
    · exact Nat.le_of_lt_succ hlt
    · exact hcount.trans hspans
  | .struct ts => by
    obtain ⟨fields, hfields, rfl⟩ := read_struct_ok_iff.1 h
    obtain ⟨hlength, bytes, hbytes, hspans⟩ := writeFields_of_readFields ts 0 hfields
    exact ⟨bytes, write_struct_ok_iff.2 ⟨fields, rfl, hlength, hbytes⟩, hspans⟩
  | .dictEntry k w => by
    obtain ⟨key, middle, value, hkey, hvalue, rfl⟩ := read_dictEntry_ok_iff.1 h
    obtain ⟨front, hfront, hfrontSpans⟩ := write_of_read k hkey
    obtain ⟨back, hback, hbackSpans⟩ := write_of_read w hvalue
    refine ⟨_, write_dictEntry_ok_iff.2 ⟨key, value, front, back, rfl, hfront, hback, rfl⟩, ?_⟩
    exact hfrontSpans.trans hbackSpans

theorem writeFields_of_readFields {order : ByteOrder} (ts : List TypeTree) (index : Nat)
    {input rest : Input} {vs : List Value} (h : readFields order ts input = .ok (vs, rest)) :
    vs.length = ts.length ∧
      ∃ bytes, writeFields order index ts vs = .ok bytes ∧ input.Spans bytes rest :=
  match ts with
  | [] => by
    cases h
    exact ⟨rfl, [], rfl, Input.Spans.refl input⟩
  | t :: ts => by
    obtain ⟨v, middle, vs, hfirst, hrest, rfl⟩ := readFields_cons_ok_iff.1 h
    obtain ⟨front, hfront, hfrontSpans⟩ := write_of_read t hfirst
    obtain ⟨hlength, back, hback, hbackSpans⟩ := writeFields_of_readFields ts (index + 1) hrest
    refine ⟨by rw [List.length_cons, List.length_cons, hlength], front ++ back, ?_, ?_⟩
    · exact writeFields_cons_ok_iff.2 ⟨front, back, hfront, hback, rfl⟩
    · exact hfrontSpans.trans hbackSpans

end

/-! ### Whole messages -/

theorem write_of_decode {order : ByteOrder} {t : TypeTree} {bytes : List UInt8} {v : Value}
    (h : decode order t bytes = .ok v) : write order t v = .ok bytes := by
  obtain ⟨rest, hread, hrest⟩ := whole_ok_iff.1 h
  obtain ⟨written, hwrite, hbytes, -⟩ := write_of_read t hread
  rw [hrest, List.append_nil] at hbytes
  rw [hwrite]
  exact congrArg Except.ok hbytes.symm

/-- A message that is accepted is the one that writing its value gives, so no other
    message holds the value. -/
theorem decode_canonical (order : ByteOrder) (t : TypeTree) (bytes : List UInt8) (v : Value)
    (h : decode order t bytes = .ok v) :
    write order t v = .ok bytes ∧ ∀ other, decode order t other = .ok v → other = bytes := by
  refine ⟨write_of_decode h, ?_⟩
  intro other hother
  have hsame := (write_of_decode hother).symm.trans (write_of_decode h)
  exact Except.ok.inj hsame

/-- The key is the text a and the array holds one true value. -/
theorem decode_canonical_entry :
    decode .big (.dictEntry (.scalar .text) (.array (.scalar .bool)))
        [0, 0, 0, 1, 97, 0, 0, 0, 0, 1, 0, 0, 0, 1] =
      .ok (.dictEntry (.text "a") (.array [.bool true])) ∧
    write .big (.dictEntry (.scalar .text) (.array (.scalar .bool)))
        (.dictEntry (.text "a") (.array [.bool true])) =
      .ok [0, 0, 0, 1, 97, 0, 0, 0, 0, 1, 0, 0, 0, 1] := by
  have hdecode : decode .big (.dictEntry (.scalar .text) (.array (.scalar .bool)))
      [0, 0, 0, 1, 97, 0, 0, 0, 0, 1, 0, 0, 0, 1] =
        .ok (.dictEntry (.text "a") (.array [.bool true])) := rfl
  exact ⟨hdecode, (decode_canonical _ _ _ _ hdecode).1⟩

end Marshal.Wire
