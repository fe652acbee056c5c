import Marshal.Proofs.Conformance.Canonical
import Marshal.Proofs.Text.Utf8
import Marshal.Wire.Read
import Marshal.Wire.Write

/-!
  Scalars on the wire.

  `Input.Spans` says which bytes a reader has passed. A number of bytes, a word and a
  scalar are read exactly where the bytes that stand for them are passed, so reading and
  writing a scalar are two directions of one relation (`readScalar_ok_iff`).
-/

namespace Marshal

namespace Wire

/-! ### Passing bytes -/

/-- Whether bytes lie between a place of an input and a later one. -/
def Input.Spans (input : Input) (bytes : List UInt8) (rest : Input) : Prop :=
  input.rest = bytes ++ rest.rest ∧ rest.offset = input.offset + bytes.length

theorem Input.Spans.refl (input : Input) : input.Spans [] input := ⟨rfl, rfl⟩

theorem Input.Spans.eq_of_nil {input rest : Input} (h : input.Spans [] rest) : input = rest := by
  obtain ⟨offset, bytes⟩ := input
  obtain ⟨hbytes, hoffset⟩ := h
  cases rest
  cases hbytes
  cases hoffset
  rfl

theorem Input.Spans.trans {input middle rest : Input} {front back : List UInt8}
    (hfront : input.Spans front middle) (hback : middle.Spans back rest) :
    input.Spans (front ++ back) rest := by
  obtain ⟨hbytes, hoffset⟩ := hfront
  obtain ⟨hbytes', hoffset'⟩ := hback
  refine ⟨?_, ?_⟩
  · rw [hbytes, hbytes', List.append_assoc]
  · rw [hoffset', hoffset, List.length_append, Nat.add_assoc]

theorem spans_append_iff {input rest : Input} {front back : List UInt8} :
    input.Spans (front ++ back) rest ↔
      ∃ middle, input.Spans front middle ∧ middle.Spans back rest := by
  constructor
  · intro h
    rcases h with ⟨hbytes, hoffset⟩
    refine ⟨⟨input.offset + front.length, back ++ rest.rest⟩, ⟨?_, rfl⟩, rfl, ?_⟩
    · rw [hbytes, List.append_assoc]
    · rw [hoffset, List.length_append, Nat.add_assoc]
  · intro h
    rcases h with ⟨middle, hfront, hback⟩
    exact hfront.trans hback

theorem Input.Spans.remaining {input rest : Input} {bytes : List UInt8}
    (h : input.Spans bytes rest) : input.remaining = bytes.length + rest.remaining := by
  rw [Input.remaining, h.1, List.length_append, Input.remaining]

/-- The offset at the end of the bytes that are left. -/
def Input.extent (input : Input) : Nat := input.offset + input.remaining

theorem Input.Spans.extent {input rest : Input} {bytes : List UInt8}
    (h : input.Spans bytes rest) : rest.extent = input.extent := by
  rw [Input.extent, Input.extent, h.remaining, h.2, Nat.add_assoc]

theorem take_ok_iff {count : Nat} {input rest : Input} {bytes : List UInt8} :
    input.take count = .ok (bytes, rest) ↔ bytes.length = count ∧ input.Spans bytes rest := by
  unfold Input.take Input.remaining
  constructor
  · intro h
    split at h
    · next hcount =>
      cases h
      have hlength : (input.rest.take count).length = count := by simp [hcount]
      refine ⟨hlength, (List.take_append_drop ..).symm, ?_⟩
      rw [hlength]
    · cases h
  · intro h
    rcases h with ⟨rfl, hbytes, hoffset⟩
    rw [if_pos (by simp [hbytes]), hbytes, List.take_left, List.drop_left, ← hoffset]

theorem ofLittleEndian_lt (bytes : List UInt8) :
    ofLittleEndian bytes < Nat.pow 256 bytes.length := by
  induction bytes with
  | nil => decide
  | cons b bytes ih =>
    have step : Nat.pow 256 (bytes.length + 1) = Nat.pow 256 bytes.length * 256 := rfl
    have hb := b.toNat_lt
    simp only [ofLittleEndian, List.length_cons, step]
    omega

theorem word_ok_iff {order : ByteOrder} {width n : Nat} {input rest : Input} :
    input.word order width = .ok (n, rest) ↔
      n < Nat.pow 256 width ∧ input.Spans (order.toBytes width n) rest := by
  unfold Input.word
  rw [bind_ok_iff]
  constructor
  · intro h
    rcases h with ⟨⟨bytes, mid⟩, htake, hn⟩
    cases hn
    obtain ⟨rfl, hspans⟩ := take_ok_iff.1 htake
    have hlt := ofLittleEndian_lt (order.arrange bytes)
    rw [ByteOrder.length_arrange] at hlt
    refine ⟨hlt, ?_⟩
    rwa [ByteOrder.toBytes_ofBytes]
  · intro h
    rcases h with ⟨hn, hspans⟩
    refine ⟨(order.toBytes width n, rest), take_ok_iff.2 ⟨by simp, hspans⟩, ?_⟩
    simp only [ByteOrder.ofBytes_toBytes order hn]
    rfl

end Wire

/-! ### Text -/

theorem hasNul_iff {s : String} : hasNul s = true ↔ '\x00' ∈ s.toList := by
  simp only [hasNul, List.any_eq_true, beq_iff_eq, exists_eq_right]

namespace Wire

/-- What is read as a text is what its bytes are written from. -/
theorem readText_ok_iff {offset : Nat} {bytes : List UInt8} {v : Value} :
    readText offset bytes = .ok v ↔
      ∃ s, v = .text s ∧ hasNul s = false ∧ bytes = Text.Utf8.encode s.toList := by
  have hzero : ∀ s : String,
      hasNul s = false ↔ (Text.Utf8.encode s.toList).findIdx? (· == 0) = none := by
    intro s
    rw [← Bool.not_eq_true, hasNul_iff, ← Text.Utf8.zero_mem_encode, List.findIdx?_eq_none_iff]
    constructor
    · intro h b hb
      have : b ≠ 0 := fun hz => h (hz ▸ hb)
      simpa using this
    · intro h hz
      simpa using h 0 hz
  unfold readText
  constructor
  · intro h
    split at h
    · cases h
    · next hfind =>
      split at h
      · next cs hdecode =>
        cases h
        have hbytes := Text.Utf8.decode_ok_iff.1 hdecode
        refine ⟨String.ofList cs, rfl, ?_, by rw [String.toList_ofList, hbytes]⟩
        rw [hzero, String.toList_ofList, ← hbytes, hfind]
      · cases h
  · intro h
    rcases h with ⟨s, rfl, hnul, rfl⟩
    rw [(hzero s).1 hnul]
    simp only [Text.Utf8.decode_ok_iff.2 rfl, String.ofList_toList]

/-! ### Scalars -/

theorem writeScalar_text_ok_iff {order : ByteOrder} {v : Value} {bytes : List UInt8} :
    writeScalar order .text v = .ok bytes ↔
      ∃ s, v = .text s ∧ hasNul s = false ∧ (Text.Utf8.encode s.toList).length ≤ maxCount ∧
        bytes = textBytes order (Text.Utf8.encode s.toList) := by
  constructor
  · intro h
    cases v with
    | text s =>
      simp only [writeScalar, bind_ok_iff, checkScalar_ok_iff] at h
      obtain ⟨_, ⟨hform, -⟩, h⟩ := h
      obtain ⟨_, hs, hnul⟩ := ScalarType.canonical_text_iff.1 hform
      cases hs
      split at h
      · next hlength => cases h; exact ⟨s, rfl, hnul, hlength, rfl⟩
      · cases h
    | _ => cases h
  · intro h
    rcases h with ⟨s, rfl, hnul, hlength, rfl⟩
    have hform := ScalarType.canonical_text_iff.2 ⟨s, rfl, hnul⟩
    simp only [writeScalar, checkScalar_ok_iff.2 ⟨hform, rfl⟩, ok_bind, if_pos hlength]
    rfl

theorem readScalar_bool_ok_iff {order : ByteOrder} {input rest : Input} {v : Value} :
    readScalar order .bool input = .ok (v, rest) ↔
      ∃ b : Bool, v = .bool b ∧ input.Spans (order.toBytes 4 b.toNat) rest := by
  simp only [readScalar, bind_ok_iff]
  constructor
  · intro h
    rcases h with ⟨⟨n, mid⟩, hword, h⟩
    obtain ⟨-, hspans⟩ := word_ok_iff.1 hword
    dsimp only at h
    split at h <;> cases h
    · exact ⟨false, rfl, hspans⟩
    · exact ⟨true, rfl, hspans⟩
  · intro h
    rcases h with ⟨b, rfl, hspans⟩
    refine ⟨(b.toNat, rest), word_ok_iff.2 ⟨?_, hspans⟩, ?_⟩
    · cases b <;> decide
    · cases b <;> rfl

theorem readScalar_int_ok_iff {order : ByteOrder} {c : IntType} {input rest : Input} {v : Value} :
    readScalar order (.int c) input = .ok (v, rest) ↔
      ∃ n : Integer, v = .int n ∧ n.type = c ∧
        input.Spans (order.toBytes c.width n.toWord) rest := by
  simp only [readScalar, bind_ok_iff]
  constructor
  · intro h
    rcases h with ⟨⟨word, mid⟩, hword, h⟩
    cases h
    obtain ⟨hlt, hspans⟩ := word_ok_iff.1 hword
    refine ⟨.ofWord c word, rfl, rfl, ?_⟩
    rwa [Integer.toWord_ofWord hlt]
  · intro h
    rcases h with ⟨n, rfl, rfl, hspans⟩
    refine ⟨(n.toWord, rest), word_ok_iff.2 ⟨n.toWord_lt, hspans⟩, ?_⟩
    simp only [Value.ofWord, Integer.ofWord_toWord]
    rfl

theorem readScalar_double_ok_iff {order : ByteOrder} {input rest : Input} {v : Value} :
    readScalar order .double input = .ok (v, rest) ↔
      ∃ x : Double, v = .double x ∧ input.Spans (order.toBytes 8 x.bits.toNat) rest := by
  simp only [readScalar, bind_ok_iff]
  constructor
  · intro h
    rcases h with ⟨⟨word, mid⟩, hword, h⟩
    cases h
    obtain ⟨hlt, hspans⟩ := word_ok_iff.1 hword
    refine ⟨⟨word.toUInt64⟩, rfl, ?_⟩
    rwa [Nat.toUInt64_eq, UInt64.toNat_ofNat_of_lt' hlt]
  · intro h
    rcases h with ⟨⟨bits⟩, rfl, hspans⟩
    refine ⟨(bits.toNat, rest), word_ok_iff.2 ⟨bits.toNat_lt, hspans⟩, ?_⟩
    simp only [Nat.toUInt64_eq, UInt64.ofNat_toNat]
    rfl

theorem readScalar_text_ok_iff {order : ByteOrder} {input rest : Input} {v : Value} :
    readScalar order .text input = .ok (v, rest) ↔
      ∃ s, v = .text s ∧ hasNul s = false ∧ (Text.Utf8.encode s.toList).length ≤ maxCount ∧
        input.Spans (textBytes order (Text.Utf8.encode s.toList)) rest := by
  simp only [readScalar, bind_ok_iff]
  constructor
  · intro h
    rcases h with ⟨⟨length, start⟩, hlength, ⟨bytes, stop⟩, hbytes, ⟨terminator, after⟩, hend, h⟩
    obtain ⟨hlt, hfront⟩ := word_ok_iff.1 hlength
    obtain ⟨rfl, hmiddle⟩ := take_ok_iff.1 hbytes
    obtain ⟨-, hback⟩ := take_ok_iff.1 hend
    dsimp only at h
    split at h
    · next hzero =>
      rw [hzero] at hback
      obtain ⟨w, htext, hw⟩ := bind_ok_iff.1 h
      cases hw
      obtain ⟨s, rfl, hnul, rfl⟩ := readText_ok_iff.1 htext
      exact ⟨s, rfl, hnul, Nat.le_of_lt_succ hlt, hfront.trans (hmiddle.trans hback)⟩
    · cases h
  · intro h
    rcases h with ⟨s, rfl, hnul, hlength, hspans⟩
    obtain ⟨start, hfront, hspans⟩ := spans_append_iff.1 hspans
    obtain ⟨stop, hmiddle, hback⟩ := spans_append_iff.1 hspans
    refine ⟨(_, start), word_ok_iff.2 ⟨Nat.lt_succ_of_le hlength, hfront⟩, (_, stop),
      take_ok_iff.2 ⟨rfl, hmiddle⟩, ([0], rest), take_ok_iff.2 ⟨rfl, hback⟩, ?_⟩
    simp only [readText_ok_iff.2 ⟨s, rfl, hnul, rfl⟩]
    rfl

theorem readScalar_ok_iff {order : ByteOrder} {type : ScalarType} {input rest : Input}
    {v : Value} :
    readScalar order type input = .ok (v, rest) ↔
      ∃ bytes, writeScalar order type v = .ok bytes ∧ input.Spans bytes rest := by
  cases type with
  | bool =>
    rw [readScalar_bool_ok_iff]
    constructor
    · intro h
      rcases h with ⟨b, rfl, hspans⟩
      exact ⟨_, rfl, hspans⟩
    · intro h
      rcases h with ⟨bytes, hwrite, hspans⟩
      cases v <;> cases hwrite
      exact ⟨_, rfl, hspans⟩
  | int c =>
    rw [readScalar_int_ok_iff]
    constructor
    · intro h
      rcases h with ⟨n, rfl, rfl, hspans⟩
      exact ⟨_, if_pos rfl, hspans⟩
    · intro h
      rcases h with ⟨bytes, hwrite, hspans⟩
      cases v with
      | int n =>
        rw [writeScalar] at hwrite
        split at hwrite
        · next htype => cases hwrite; exact ⟨n, rfl, htype, hspans⟩
        · cases hwrite
      | _ => cases hwrite
  | double =>
    rw [readScalar_double_ok_iff]
    constructor
    · intro h
      rcases h with ⟨x, rfl, hspans⟩
      exact ⟨_, rfl, hspans⟩
    · intro h
      rcases h with ⟨bytes, hwrite, hspans⟩
      cases v <;> cases hwrite
      exact ⟨_, rfl, hspans⟩
  | text =>
    simp only [readScalar_text_ok_iff, writeScalar_text_ok_iff]
    constructor
    · intro h
      rcases h with ⟨s, rfl, hnul, hlength, hspans⟩
      exact ⟨_, ⟨s, rfl, hnul, hlength, rfl⟩, hspans⟩
    · intro h
      rcases h with ⟨_, ⟨s, rfl, hnul, hlength, rfl⟩, hspans⟩
      exact ⟨s, rfl, hnul, hlength, hspans⟩

end Wire

end Marshal
