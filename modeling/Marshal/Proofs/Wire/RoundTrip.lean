import Marshal.Proofs.Wire.Canonical
import Marshal.Proofs.Wire.Sites

/-!
  Reading back what was written.

  Reading returns the value that was written unless the guard refuses one of its arrays,
  and then the refusal is that of the first one (`read_of_write`). The guard looks at all
  bytes behind the count, so it never refuses an array whose elements take room; where an
  element takes none, it refuses a count that exceeds those bytes.
-/

namespace Marshal.Wire

/-! ### What reading returns -/

/-- What reading returns where a value with these arrays was written. -/
def verdict {α : Type} (total : Nat) (sites : List ArraySite) (a : α) : Except Error α :=
  match sites.find? (·.Starved total) with
  | none => .ok a
  | some s => .error (s.refusal total)

section Verdict

variable {α β : Type} {total : Nat}

theorem verdict_nil (a : α) : verdict total [] a = .ok a := rfl

/-- Reading goes on where the arrays in front are not refused. -/
theorem verdict_bind {front back : List ArraySite} {a : α} {b : β} {f : α → Except Error β}
    (h : f a = verdict total back b) :
    (verdict total front a >>= f) = verdict total (front ++ back) b := by
  unfold verdict at h ⊢
  rw [List.find?_append]
  cases front.find? (·.Starved total) with
  | none => exact h
  | some s => rfl

theorem verdict_map {sites : List ArraySite} {a : α} {b : β} {f : α → Except Error β}
    (h : f a = .ok b) : (verdict total sites a >>= f) = verdict total sites b := by
  rw [verdict_bind (h.trans (verdict_nil b).symm), List.append_nil]

theorem verdict_of_starved {s : ArraySite} (hs : s.Starved total) (sites : List ArraySite) (a : α) :
    verdict total (s :: sites) a = .error (s.refusal total) := by
  unfold verdict
  rw [List.find?_cons_of_pos (by simpa using hs)]

theorem verdict_of_fed {s : ArraySite} (hs : ¬ s.Starved total) (sites : List ArraySite) (a : α) :
    verdict total (s :: sites) a = verdict total sites a := by
  unfold verdict
  rw [List.find?_cons_of_neg (by simpa using hs)]

theorem verdict_ok_iff {sites : List ArraySite} {a b : α} :
    verdict total sites a = .ok b ↔ (∀ s ∈ sites, ¬ s.Starved total) ∧ a = b := by
  induction sites with
  | nil => simp [verdict_nil]
  | cons s sites ih =>
    by_cases hs : s.Starved total
    · rw [verdict_of_starved hs]
      exact ⟨nofun, fun h => absurd hs (h.1 s List.mem_cons_self)⟩
    · rw [verdict_of_fed hs, ih, List.forall_mem_cons]
      exact ⟨fun h => ⟨⟨hs, h.1⟩, h.2⟩, fun h => ⟨h.1.2, h.2⟩⟩

/-- The array that is refused is the first starved one of the message. -/
theorem verdict_error_iff {sites : List ArraySite} (hsites : sites.Pairwise (·.offset < ·.offset))
    {a : α} {e : Error} :
    verdict total sites a = .error e ↔
      ∃ s ∈ sites, s.Starved total ∧
        (∀ earlier ∈ sites, earlier.offset < s.offset → ¬ earlier.Starved total) ∧
        e = s.refusal total := by
  induction sites with
  | nil => simp [verdict_nil]
  | cons first sites ih =>
    obtain ⟨hfirst, hsites⟩ := List.pairwise_cons.1 hsites
    by_cases hstarved : first.Starved total
    · rw [verdict_of_starved hstarved]
      constructor
      · intro h
        refine ⟨first, List.mem_cons_self, hstarved, ?_, (Except.error.inj h).symm⟩
        intro earlier hearlier hlt
        rcases List.mem_cons.1 hearlier with rfl | hearlier
        · exact absurd hlt (Nat.lt_irrefl _)
        · exact absurd hlt (Nat.lt_asymm (hfirst earlier hearlier))
      · intro h
        obtain ⟨s, hs, -, hnone, rfl⟩ := h
        rcases List.mem_cons.1 hs with rfl | hs
        · rfl
        · exact absurd hstarved (hnone first List.mem_cons_self (hfirst s hs))
    · rw [verdict_of_fed hstarved, ih hsites]
      constructor
      · intro h
        obtain ⟨s, hs, hsStarved, hnone, he⟩ := h
        refine ⟨s, List.mem_cons_of_mem first hs, hsStarved, ?_, he⟩
        intro earlier hearlier hlt
        rcases List.mem_cons.1 hearlier with rfl | hearlier
        · exact hstarved
        · exact hnone earlier hearlier hlt
      · intro h
        obtain ⟨s, hs, hsStarved, hnone, he⟩ := h
        rcases List.mem_cons.1 hs with rfl | hs
        · exact absurd hsStarved hstarved
        · exact ⟨s, hs, hsStarved,
            fun earlier hearlier => hnone earlier (List.mem_cons_of_mem first hearlier), he⟩

end Verdict

/-! ### Reading from the middle of a message -/

/-- The guard passes an array that was written unless the array is starved. -/
theorem guard_iff {order : ByteOrder} {t : TypeTree} {elements : List Value}
    {parts : List (List UInt8)} {start rest : Input} {offset : Nat}
    (hparts : List.Forall₂ (fun e part => write order t e = .ok part) elements parts)
    (hspans : start.Spans parts.flatten rest) (hoffset : start.offset = offset + 4) :
    elements.length ≤ start.remaining / elementRoom t ↔
      ¬ (⟨offset, elements.length, t⟩ : ArraySite).Starved start.extent := by
  have hremaining : start.extent - (offset + 4) = start.remaining := by
    rw [Input.extent, hoffset, Nat.add_sub_cancel_left]
  simp only [ArraySite.Starved, hremaining, elementRoom]
  by_cases hzero : t.minSize = 0
  · simp [hzero]
  · have hroom := minSize_mul_le_of_elements (fun _ _ hw => minSize_le_of_write t hw) hparts
    have hone : max t.minSize 1 = t.minSize := Nat.max_eq_left (Nat.one_le_iff_ne_zero.2 hzero)
    have hle : elements.length * t.minSize ≤ start.remaining := by
      rw [hspans.remaining]
      exact Nat.le_add_right_of_le hroom
    rw [hone, Nat.le_div_iff_mul_le (Nat.pos_of_ne_zero hzero)]
    exact ⟨fun _ h => hzero h.1, fun _ => hle⟩

theorem readMany_of_elements {order : ByteOrder} {t : TypeTree}
    (hone : ∀ {v bytes input rest}, write order t v = .ok bytes → Input.Spans input bytes rest →
      read order t input = verdict input.extent (arraySites input.offset t v) (v, rest))
    {elements : List Value} {parts : List (List UInt8)}
    (hparts : List.Forall₂ (fun e part => write order t e = .ok part) elements parts)
    {input rest : Input} (hspans : input.Spans parts.flatten rest) :
    readMany (read order t) elements.length input =
      verdict input.extent (elementSites input.offset t elements) (elements, rest) := by
  induction hparts generalizing input with
  | nil =>
    rw [hspans.eq_of_nil]
    rfl
  | @cons v part vs parts hpart _ ih =>
    obtain ⟨middle, hfront, hback⟩ := spans_append_iff.1 hspans
    have hoffset : middle.offset = input.offset + v.wireSize := by
      rw [hfront.2, length_of_write t hpart]
    rw [List.length_cons, readMany, hone hpart hfront, elementSites]
    refine verdict_bind ?_
    dsimp only
    rw [ih hback, hfront.extent, hoffset]
    exact verdict_map rfl

mutual

/-- Where a value was written, reading returns it unless an array of it is refused. -/
theorem read_of_write {order : ByteOrder} (t : TypeTree) {v : Value} {bytes : List UInt8}
    (h : write order t v = .ok bytes) {input rest : Input} (hspans : input.Spans bytes rest) :
    read order t input = verdict input.extent (arraySites input.offset t v) (v, rest) :=
  match t with
  | .scalar c => by
    rw [arraySites_scalar, verdict_nil]
    exact readScalar_ok_iff.2 ⟨bytes, h, hspans⟩
  | .array t => by
    obtain ⟨elements, parts, rfl, hcount, hparts, rfl⟩ := write_array_ok_iff.1 h
    obtain ⟨start, hfront, hback⟩ := spans_append_iff.1 hspans
    have hword := word_ok_iff.2 ⟨Nat.lt_succ_of_le hcount, hfront⟩
    have hoffset : start.offset = input.offset + 4 := by
      rw [hfront.2, ByteOrder.length_toBytes]
    have hbehind : input.extent - (input.offset + 4) = start.remaining := by
      rw [← hfront.extent, Input.extent, hoffset, Nat.add_sub_cancel_left]
    -- the guard compares the count with all bytes behind it, so what stands after the
    -- array can save it
    have hguard := guard_iff hparts hback hoffset
    rw [hfront.extent] at hguard
    have helements := readMany_of_elements (fun hw hs => read_of_write t hw hs) hparts hback
    rw [hfront.extent, hoffset] at helements
    rw [read, hword, ok_bind, arraySites]
    dsimp only
    by_cases hstarved : (⟨input.offset, elements.length, t⟩ : ArraySite).Starved input.extent
    · rw [if_neg fun hpass => hguard.1 hpass hstarved, verdict_of_starved hstarved,
        ArraySite.refusal, hbehind]
    · rw [if_pos (hguard.2 hstarved), verdict_of_fed hstarved, helements]
      exact verdict_map rfl
  | .struct ts => by
    obtain ⟨fields, rfl, hlength, hfields⟩ := write_struct_ok_iff.1 h
    rw [read, readFields_of_writeFields ts hlength hfields hspans]
    exact verdict_map rfl
  | .dictEntry k w => by
    obtain ⟨key, value, front, back, rfl, hfront, hback, rfl⟩ := write_dictEntry_ok_iff.1 h
    obtain ⟨middle, hfrontSpans, hbackSpans⟩ := spans_append_iff.1 hspans
    have hoffset : middle.offset = input.offset + key.wireSize := by
      rw [hfrontSpans.2, length_of_write k hfront]
    rw [read, read_of_write k hfront hfrontSpans, arraySites]
    refine verdict_bind ?_
    dsimp only
    rw [read_of_write w hback hbackSpans, hfrontSpans.extent, hoffset]
    exact verdict_map rfl

theorem readFields_of_writeFields {order : ByteOrder} (ts : List TypeTree) {index : Nat}
    {vs : List Value} {bytes : List UInt8} (hlength : vs.length = ts.length)
    (h : writeFields order index ts vs = .ok bytes) {input rest : Input}
    (hspans : input.Spans bytes rest) :
    readFields order ts input =
      verdict input.extent (fieldSites input.offset ts vs) (vs, rest) :=
  match ts, vs with
  | [], [] => by
    cases h
    rw [hspans.eq_of_nil]
    rfl
  | t :: ts, v :: vs => by
    obtain ⟨front, back, hfront, hback, rfl⟩ := writeFields_cons_ok_iff.1 h
    obtain ⟨middle, hfrontSpans, hbackSpans⟩ := spans_append_iff.1 hspans
    have hoffset : middle.offset = input.offset + v.wireSize := by
      rw [hfrontSpans.2, length_of_write t hfront]
    rw [readFields, read_of_write t hfront hfrontSpans, fieldSites]
    refine verdict_bind ?_
    dsimp only
    rw [readFields_of_writeFields ts (Nat.succ.inj hlength) hback hbackSpans,
      hfrontSpans.extent, hoffset]
    exact verdict_map rfl

end

/-! ### Whole messages -/

/-- What was written is read back, unless the guard refuses one of its arrays. -/
theorem decode_eq_verdict {order : ByteOrder} {t : TypeTree} {v : Value} {bytes : List UInt8}
    (h : write order t v = .ok bytes) :
    decode order t bytes = verdict bytes.length (arraySites 0 t v) v := by
  have hspans : Input.Spans ⟨0, bytes⟩ bytes ⟨bytes.length, []⟩ :=
    ⟨(List.append_nil bytes).symm, (Nat.zero_add _).symm⟩
  have hextent : Input.extent ⟨0, bytes⟩ = bytes.length := Nat.zero_add _
  rw [decode, whole, read_of_write t h hspans, hextent]
  exact verdict_map rfl

/-- An array whose elements take room always passes the guard. -/
theorem not_starved_of_sized {t : TypeTree} (ht : t.elementsSized) {offset total : Nat} {v : Value}
    {s : ArraySite} (hs : s ∈ arraySites offset t v) : ¬ s.Starved total := by
  intro hstarved
  have hroom := one_le_minSize_of_mem_arraySites v ht hs
  rw [hstarved.1] at hroom
  exact absurd hroom (by decide)

/-- Decoding gives back what was encoded unless an array of elements without bytes has more
    elements than bytes behind its count, and then it is refused at the count of the first
    such array. Types that were read from a text have no such array. -/
theorem decode_of_write (order : ByteOrder) (t : TypeTree) (v : Value) (bytes : List UInt8)
    (h : write order t v = .ok bytes) :
    (∀ s ∈ arraySites 0 t v, (bytes.drop s.offset).take 4 = order.toBytes 4 s.count) ∧
    (decode order t bytes = .ok v ↔ ∀ s ∈ arraySites 0 t v, ¬ s.Starved bytes.length) ∧
    (∀ e, decode order t bytes = .error e ↔
      ∃ s ∈ arraySites 0 t v, s.Starved bytes.length ∧
        (∀ earlier ∈ arraySites 0 t v,
          earlier.offset < s.offset → ¬ earlier.Starved bytes.length) ∧
        e = .corrupt s.offset
          (.oversizedArray s.count s.element (bytes.length - (s.offset + 4)))) ∧
    (∀ text, TypeTree.parse text = .ok t → decode order t bytes = .ok v) := by
  have hlaid : Laid order bytes 0 (arraySites 0 t v) (0 + v.wireSize) :=
    laid_of_write t h (List.append_nil bytes).symm
  have hverdict := decode_eq_verdict h
  -- the offsets increase, so the first array of the list is the first of the message
  refine ⟨fun s hs => (hlaid.mem hs).2, ?_, ?_, ?_⟩
  · rw [hverdict, verdict_ok_iff]
    exact and_iff_left rfl
  · intro e
    rw [hverdict]
    exact verdict_error_iff hlaid.increasing
  · intro text hparse
    have hsized := TypeTree.elementsSized_of_parse hparse
    rw [hverdict, verdict_ok_iff]
    exact ⟨fun s hs => not_starved_of_sized hsized hs, rfl⟩

/-- The second of the inner arrays has one element and no byte behind its count. -/
theorem decode_of_write_nested :
    write .little (.array (.array (.struct [])))
        (.array [.array [.struct [], .struct []], .array [.struct []]]) =
      .ok [2, 0, 0, 0, 2, 0, 0, 0, 1, 0, 0, 0] ∧
    decode .little (.array (.array (.struct []))) [2, 0, 0, 0, 2, 0, 0, 0, 1, 0, 0, 0] =
      .error (.corrupt 8 (.oversizedArray 1 (.struct []) 0)) := by
  have hwrite : write .little (.array (.array (.struct [])))
      (.array [.array [.struct [], .struct []], .array [.struct []]]) =
        .ok [2, 0, 0, 0, 2, 0, 0, 0, 1, 0, 0, 0] := rfl
  obtain ⟨-, -, hrefused, -⟩ := decode_of_write .little _ _ _ hwrite
  exact ⟨hwrite, (hrefused _).2 ⟨⟨8, 1, .struct []⟩, by decide, by decide, by decide, rfl⟩⟩

end Marshal.Wire
