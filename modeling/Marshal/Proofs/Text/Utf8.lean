import Marshal.Proofs.Result
import Marshal.Text.Utf8

/-!
  UTF-8 has one spelling for each text.

  The bytes that complete a character under way are described by
  `Sequence.Completes`. A first byte together with the bytes that complete it is what
  writing gives for the character, and nothing else is (`start_completes_iff`), which is
  the one place where the ranges of the format matter. Reading a whole text then
  accepts exactly what writing gives (`decode_ok_iff`).
-/

namespace Marshal.Text.Utf8

/-! ### Bytes of one character -/

theorem toNat_cases (c : Char) :
    c.toNat < 0xD800 ∨ 0xDFFF < c.toNat ∧ c.toNat < 0x110000 :=
  c.valid

theorem toNat_ofNat {n : Nat} (h : n < 0xD800 ∨ 0xDFFF < n ∧ n < 0x110000) :
    (Char.ofNat n).toNat = n := by
  have hvalid : n.isValidChar := h
  rw [Char.ofNat, dif_pos hvalid]
  rfl

theorem eq_ofNat_iff {c : Char} {n : Nat} (h : n < 0xD800 ∨ 0xDFFF < n ∧ n < 0x110000) :
    c = Char.ofNat n ↔ c.toNat = n := by
  constructor
  · rintro rfl
    exact toNat_ofNat h
  · intro hc
    rw [← hc, Char.ofNat_toNat]

theorem toUInt8_eq_iff {n : Nat} {b : UInt8} (h : n < 256) : n.toUInt8 = b ↔ n = b.toNat := by
  rw [← UInt8.toNat_inj, Nat.toUInt8_eq, UInt8.toNat_ofNat_of_lt' h]

theorem encodeChar_two {c : Char} (hlo : 0x80 ≤ c.toNat) (hhi : c.toNat < 0x800) :
    encodeChar c = [(0xC0 + c.toNat / 64).toUInt8, (0x80 + c.toNat % 64).toUInt8] := by
  simp only [encodeChar]
  rw [if_neg (by omega), if_pos hhi]

theorem encodeChar_three {c : Char} (hlo : 0x800 ≤ c.toNat) (hhi : c.toNat < 0x10000) :
    encodeChar c = [(0xE0 + c.toNat / 4096).toUInt8, (0x80 + c.toNat / 64 % 64).toUInt8,
      (0x80 + c.toNat % 64).toUInt8] := by
  simp only [encodeChar]
  rw [if_neg (by omega), if_neg (by omega), if_pos hhi]

theorem encodeChar_four {c : Char} (hlo : 0x10000 ≤ c.toNat) :
    encodeChar c = [(0xF0 + c.toNat / 262144).toUInt8, (0x80 + c.toNat / 4096 % 64).toUInt8,
      (0x80 + c.toNat / 64 % 64).toUInt8, (0x80 + c.toNat % 64).toUInt8] := by
  simp only [encodeChar]
  rw [if_neg (by omega), if_neg (by omega), if_neg (by omega)]

/-- The first byte of a character tells how many bytes follow. -/
theorem encodeChar_eq_cons {c : Char} {b : UInt8} {bs : List UInt8}
    (h : encodeChar c = b :: bs) :
    (c.toNat < 0x80 ∧ b.toNat = c.toNat ∧ bs = []) ∨
    (0x80 ≤ c.toNat ∧ c.toNat < 0x800 ∧ b.toNat = 0xC0 + c.toNat / 64) ∨
    (0x800 ≤ c.toNat ∧ c.toNat < 0x10000 ∧ b.toNat = 0xE0 + c.toNat / 4096) ∨
    (0x10000 ≤ c.toNat ∧ b.toNat = 0xF0 + c.toNat / 262144) := by
  have hc := toNat_cases c
  by_cases h1 : c.toNat < 0x80
  · simp only [encodeChar, if_pos h1, List.cons.injEq, toUInt8_eq_iff (Nat.lt_trans h1 (by decide))]
      at h
    exact .inl ⟨h1, h.1.symm, h.2.symm⟩
  · by_cases h2 : c.toNat < 0x800
    · rw [encodeChar_two (by omega) h2, List.cons.injEq, toUInt8_eq_iff (by omega)] at h
      exact .inr (.inl ⟨by omega, h2, h.1.symm⟩)
    · by_cases h3 : c.toNat < 0x10000
      · rw [encodeChar_three (by omega) h3, List.cons.injEq, toUInt8_eq_iff (by omega)] at h
        exact .inr (.inr (.inl ⟨by omega, h3, h.1.symm⟩))
      · rw [encodeChar_four (by omega), List.cons.injEq, toUInt8_eq_iff (by omega)] at h
        exact .inr (.inr (.inr ⟨by omega, h.1.symm⟩))

/-! ### A character under way -/

/-- Whether bytes complete a character under way, and which one. -/
def Sequence.Completes (q : Sequence) : List UInt8 → Char → Prop
  | [], _ => False
  | b :: bs, c =>
      ∃ r, q.next? b = some r ∧
        if r.owed = 0 then bs = [] ∧ c = Char.ofNat r.code else r.Completes bs c

theorem next?_eq_some_iff {q r : Sequence} {b : UInt8} :
    q.next? b = some r ↔ (q.low ≤ b.toNat ∧ b.toNat ≤ q.high) ∧
      r = ⟨q.read + 1, q.owed - 1, 0x80, 0xBF, q.code * 64 + (b.toNat - 0x80)⟩ := by
  unfold Sequence.next?
  split
  · next h => simp [h, eq_comm]
  · next h => simp [h]

theorem completes_one_iff {read low high code : Nat} {bs : List UInt8} {c : Char} :
    (⟨read, 1, low, high, code⟩ : Sequence).Completes bs c ↔
      ∃ b, bs = [b] ∧ (low ≤ b.toNat ∧ b.toNat ≤ high) ∧
        c = Char.ofNat (code * 64 + (b.toNat - 0x80)) := by
  constructor
  · intro h
    cases bs with
    | nil => exact h.elim
    | cons b bs =>
      obtain ⟨r, hnext, hr⟩ := h
      obtain ⟨hb, rfl⟩ := next?_eq_some_iff.1 hnext
      rw [if_pos (Nat.sub_self 1)] at hr
      obtain ⟨rfl, hc⟩ := hr
      exact ⟨b, rfl, hb, hc⟩
  · intro h
    rcases h with ⟨b, rfl, hb, hc⟩
    refine ⟨_, next?_eq_some_iff.2 ⟨hb, rfl⟩, ?_⟩
    rw [if_pos (Nat.sub_self 1)]
    exact ⟨rfl, hc⟩

theorem completes_succ_iff {read owed low high code : Nat} {bs : List UInt8} {c : Char} :
    (⟨read, owed + 2, low, high, code⟩ : Sequence).Completes bs c ↔
      ∃ b rest, bs = b :: rest ∧ (low ≤ b.toNat ∧ b.toNat ≤ high) ∧
        (⟨read + 1, owed + 1, 0x80, 0xBF, code * 64 + (b.toNat - 0x80)⟩ : Sequence).Completes
          rest c := by
  constructor
  · intro h
    cases bs with
    | nil => exact h.elim
    | cons b bs =>
      obtain ⟨r, hnext, hr⟩ := h
      obtain ⟨hb, rfl⟩ := next?_eq_some_iff.1 hnext
      exact ⟨b, bs, rfl, hb, hr⟩
  · intro h
    rcases h with ⟨b, rest, rfl, hb, hrest⟩
    exact ⟨_, next?_eq_some_iff.2 ⟨hb, rfl⟩, hrest⟩

section Start

variable {b : UInt8} {bs : List UInt8} {c : Char}

theorem two_completes_iff (hlo : 0xC2 ≤ b.toNat) (hhi : b.toNat < 0xE0) :
    (⟨1, 1, 0x80, 0xBF, b.toNat - 0xC0⟩ : Sequence).Completes bs c ↔
      encodeChar c = b :: bs := by
  rw [completes_one_iff]
  constructor
  · intro h
    rcases h with ⟨b₁, rfl, hb₁, hc⟩
    rw [eq_ofNat_iff (by omega)] at hc
    rw [encodeChar_two (by omega) (by omega)]
    simp only [List.cons.injEq, and_true]
    refine ⟨?_, ?_⟩ <;> rw [toUInt8_eq_iff (by omega)] <;> omega
  · intro h
    have hcases := encodeChar_eq_cons h
    rw [encodeChar_two (by omega) (by omega), List.cons.injEq] at h
    refine ⟨_, h.2.symm, ?_⟩
    simp only [Nat.toUInt8_eq, UInt8.toNat_ofNat']
    refine ⟨by omega, ?_⟩
    rw [eq_ofNat_iff] <;> omega

/-- The ranges of the second byte leave out the numbers below 0x800 and the
    surrogates. -/
theorem three_completes_iff {low high code : Nat} (hb : b.toNat = 0xE0 + code) (hcode : code < 16)
    (hrange : ∀ n, low ≤ n ∧ n ≤ high ↔ (0x80 ≤ n ∧ n ≤ 0xBF) ∧
      0x800 ≤ code * 4096 + (n - 0x80) * 64 ∧
      (code * 4096 + (n - 0x80) * 64 < 0xD800 ∨ 0xE000 ≤ code * 4096 + (n - 0x80) * 64)) :
    (⟨1, 2, low, high, code⟩ : Sequence).Completes bs c ↔ encodeChar c = b :: bs := by
  simp only [completes_succ_iff, completes_one_iff, hrange, Nat.reduceAdd]
  constructor
  · intro h
    rcases h with ⟨b₁, _, rfl, hb₁, b₂, rfl, hb₂, hc⟩
    rw [eq_ofNat_iff (by omega)] at hc
    rw [encodeChar_three (by omega) (by omega)]
    simp only [List.cons.injEq, and_true]
    refine ⟨?_, ?_, ?_⟩ <;> rw [toUInt8_eq_iff (by omega)] <;> omega
  · intro h
    have hc := toNat_cases c
    have hcases := encodeChar_eq_cons h
    rw [encodeChar_three (by omega) (by omega), List.cons.injEq] at h
    refine ⟨_, _, h.2.symm, ?_, _, rfl, ?_⟩
    all_goals simp only [Nat.toUInt8_eq, UInt8.toNat_ofNat']
    · omega
    · refine ⟨by omega, ?_⟩
      rw [eq_ofNat_iff] <;> omega

/-- The ranges of the second byte leave out the numbers below 0x10000 and those
    beyond the last character. -/
theorem four_completes_iff {low high code : Nat} (hb : b.toNat = 0xF0 + code) (hcode : code < 5)
    (hrange : ∀ n, low ≤ n ∧ n ≤ high ↔ (0x80 ≤ n ∧ n ≤ 0xBF) ∧
      0x10000 ≤ code * 262144 + (n - 0x80) * 4096 ∧
      code * 262144 + (n - 0x80) * 4096 < 0x110000) :
    (⟨1, 3, low, high, code⟩ : Sequence).Completes bs c ↔ encodeChar c = b :: bs := by
  simp only [completes_succ_iff, completes_one_iff, hrange, Nat.reduceAdd]
  constructor
  · intro h
    rcases h with ⟨b₁, _, rfl, hb₁, b₂, _, rfl, hb₂, b₃, rfl, hb₃, hc⟩
    rw [eq_ofNat_iff (by omega)] at hc
    rw [encodeChar_four (by omega)]
    simp only [List.cons.injEq, and_true]
    refine ⟨?_, ?_, ?_, ?_⟩ <;> rw [toUInt8_eq_iff (by omega)] <;> omega
  · intro h
    have hc := toNat_cases c
    have hcases := encodeChar_eq_cons h
    rw [encodeChar_four (by omega), List.cons.injEq] at h
    refine ⟨_, _, h.2.symm, ?_, _, _, rfl, ?_, _, rfl, ?_⟩
    all_goals simp only [Nat.toUInt8_eq, UInt8.toNat_ofNat']
    · omega
    · omega
    · refine ⟨by omega, ?_⟩
      rw [eq_ofNat_iff] <;> omega

/-- A byte of several and the bytes that complete it are what writing gives for the
    character, and only they are. -/
theorem start_completes_iff (hb : 0x80 ≤ b.toNat) :
    (∃ q, Sequence.start? b = some q ∧ q.Completes bs c) ↔ encodeChar c = b :: bs := by
  have hlast := b.toNat_lt
  have only : ∀ q : Sequence, (∃ r, some q = some r ∧ r.Completes bs c) ↔ q.Completes bs c :=
    fun q => ⟨fun ⟨_, hr, h⟩ => by cases hr; exact h, fun h => ⟨q, rfl, h⟩⟩
  have refused : b.toNat < 0xC2 ∨ 0xF4 < b.toNat →
      ((∃ r : Sequence, none = some r ∧ r.Completes bs c) ↔ encodeChar c = b :: bs) := by
    intro hout
    refine ⟨nofun, fun h => ?_⟩
    have hc := toNat_cases c
    have hcases := encodeChar_eq_cons h
    omega
  -- one case for each range of first bytes that the reader tells apart
  simp only [Sequence.start?]
  by_cases h1 : b.toNat < 0xC2
  · rw [if_pos h1]; exact refused (by omega)
  rw [if_neg h1]
  by_cases h2 : b.toNat < 0xE0
  · rw [if_pos h2, only]; exact two_completes_iff (by omega) h2
  rw [if_neg h2]
  by_cases h3 : b.toNat = 0xE0
  · rw [if_pos h3, only]; exact three_completes_iff (by omega) (by omega) (by omega)
  rw [if_neg h3]
  by_cases h4 : b.toNat = 0xED
  · rw [if_pos h4, only]; exact three_completes_iff (by omega) (by omega) (by omega)
  rw [if_neg h4]
  by_cases h5 : b.toNat < 0xF0
  · rw [if_pos h5, only]; exact three_completes_iff (by omega) (by omega) (by omega)
  rw [if_neg h5]
  by_cases h6 : b.toNat = 0xF0
  · rw [if_pos h6, only]; exact four_completes_iff (by omega) (by omega) (by omega)
  rw [if_neg h6]
  by_cases h7 : b.toNat < 0xF4
  · rw [if_pos h7, only]; exact four_completes_iff (by omega) (by omega) (by omega)
  rw [if_neg h7]
  by_cases h8 : b.toNat = 0xF4
  · rw [if_pos h8, only]; exact four_completes_iff (by omega) (by omega) (by omega)
  · rw [if_neg h8]; exact refused (by omega)

end Start

/-! ### Whole texts -/

theorem encodeChar_ascii {c : Char} (h : c.toNat < 0x80) : encodeChar c = [c.toNat.toUInt8] := by
  simp only [encodeChar, if_pos h]

theorem encodeChar_ne_nil (c : Char) : encodeChar c ≠ [] := by
  simp only [encodeChar]
  split
  · exact List.cons_ne_nil _ _
  split
  · exact List.cons_ne_nil _ _
  split <;> exact List.cons_ne_nil _ _

theorem encode_cons (c : Char) (cs : List Char) : encode (c :: cs) = encodeChar c ++ encode cs :=
  List.flatMap_cons

theorem decodeFrom_of_completes {q : Sequence} {bs : List UInt8} {c : Char}
    (h : q.Completes bs c) (index : Nat) (rest : List UInt8) :
    ∃ after, decodeFrom index (some q) (bs ++ rest) =
      (c :: ·) <$> decodeFrom after none rest := by
  induction bs generalizing q with
  | nil => exact h.elim
  | cons b bs ih =>
    obtain ⟨r, hnext, hr⟩ := h
    simp only [List.cons_append, decodeFrom, hnext]
    split at hr
    · next howed =>
      obtain ⟨rfl, rfl⟩ := hr
      rw [if_pos howed]
      exact ⟨_, rfl⟩
    · next howed =>
      rw [if_neg howed]
      exact ih hr

/-- A character under way is completed by the next bytes, or the text is refused. -/
theorem completes_of_decodeFrom {index : Nat} {q : Sequence} {bytes : List UInt8}
    {cs : List Char} (h : decodeFrom index (some q) bytes = .ok cs) :
    ∃ after bs rest c tail, bytes = bs ++ rest ∧ q.Completes bs c ∧
      decodeFrom after none rest = .ok tail ∧ cs = c :: tail := by
  induction bytes generalizing q with
  | nil => cases h
  | cons b bytes ih =>
    simp only [decodeFrom] at h
    split at h
    · cases h
    · next r hnext =>
      split at h
      · next howed =>
        obtain ⟨tail, htail, rfl⟩ := map_ok_iff.1 h
        refine ⟨_, [b], bytes, _, tail, rfl, ⟨r, hnext, ?_⟩, htail, rfl⟩
        rw [if_pos howed]
        exact ⟨rfl, rfl⟩
      · next howed =>
        obtain ⟨after, bs, rest, c, tail, rfl, hcompletes, htail, rfl⟩ := ih h
        refine ⟨after, b :: bs, rest, c, tail, rfl, ⟨r, hnext, ?_⟩, htail, rfl⟩
        rw [if_neg howed]
        exact hcompletes

/-- Every text comes back from its bytes. -/
theorem decodeFrom_encode (cs : List Char) (index : Nat) :
    decodeFrom index none (encode cs) = .ok cs := by
  induction cs generalizing index with
  | nil => rfl
  | cons c cs ih =>
    rw [encode_cons]
    by_cases hascii : c.toNat < 0x80
    · have hbyte : c.toNat.toUInt8.toNat = c.toNat := by
        rw [Nat.toUInt8_eq, UInt8.toNat_ofNat_of_lt' (Nat.lt_trans hascii (by decide))]
      rw [encodeChar_ascii hascii]
      simp only [List.cons_append, List.nil_append, decodeFrom, hbyte, if_pos hascii, ih,
        Char.ofNat_toNat]
      rfl
    · obtain ⟨b, bs, hbytes⟩ := List.exists_cons_of_ne_nil (encodeChar_ne_nil c)
      have hb : 0x80 ≤ b.toNat := by have := encodeChar_eq_cons hbytes; omega
      obtain ⟨q, hstart, hcompletes⟩ := (start_completes_iff hb).2 hbytes
      obtain ⟨after, hrun⟩ := decodeFrom_of_completes hcompletes index (encode cs)
      rw [hbytes, List.cons_append, decodeFrom]
      simp only [if_neg (Nat.not_lt.2 hb), hstart, hrun, ih]
      rfl

/-- There is one way only to spell a text: overlong forms and surrogates are refused. -/
theorem encode_of_decodeFrom {index : Nat} {bytes : List UInt8} {cs : List Char}
    (h : decodeFrom index none bytes = .ok cs) : encode cs = bytes := by
  induction hlength : bytes.length using Nat.strongRecOn generalizing index bytes cs with
  | ind length ih =>
    cases bytes with
    | nil => cases h; rfl
    | cons b bytes =>
      simp only [decodeFrom] at h
      split at h
      · next hb =>
        obtain ⟨tail, htail, rfl⟩ := map_ok_iff.1 h
        have hchar : (Char.ofNat b.toNat).toNat = b.toNat := toNat_ofNat (by omega)
        rw [encode_cons, encodeChar_ascii (by omega), hchar,
          ih bytes.length (by simp [← hlength]) htail rfl]
        simp
      · next hb =>
        split at h
        · cases h
        · next q hstart =>
          obtain ⟨after, bs, rest, c, tail, rfl, hcompletes, htail, rfl⟩ :=
            completes_of_decodeFrom h
          have hbytes := (start_completes_iff (Nat.not_lt.1 hb)).1 ⟨q, hstart, hcompletes⟩
          -- the induction is on the number of bytes: a character takes at least one
          have hshorter : rest.length < length := by
            rw [← hlength, List.length_cons, List.length_append]
            omega
          rw [encode_cons, hbytes, ih rest.length hshorter htail rfl]
          rfl

/-- Reading accepts exactly the bytes that writing gives. -/
theorem decode_ok_iff {bytes : List UInt8} {cs : List Char} :
    decode bytes = .ok cs ↔ bytes = encode cs := by
  constructor
  · intro h
    exact (encode_of_decodeFrom h).symm
  · rintro rfl
    exact decodeFrom_encode cs 0

/-! ### The character with number zero -/

theorem zero_mem_encodeChar {c : Char} : 0 ∈ encodeChar c ↔ c = '\x00' := by
  have hzero : c = '\x00' ↔ c.toNat = 0 := Char.toNat_inj.symm
  have hlt := toNat_cases c
  have hbyte : ∀ n, n < 256 → (0 = n.toUInt8 ↔ n = 0) := fun n hn => by
    rw [eq_comm, toUInt8_eq_iff hn]
    rfl
  rw [hzero]
  by_cases h1 : c.toNat < 0x80
  · rw [encodeChar_ascii h1, List.mem_singleton, hbyte _ (by omega)]
  have hne : c.toNat ≠ 0 := by omega
  by_cases h2 : c.toNat < 0x800
  · rw [encodeChar_two (by omega) h2]
    simp only [List.mem_cons, List.not_mem_nil, or_false]
    rw [hbyte _ (by omega), hbyte _ (by omega)]
    omega
  by_cases h3 : c.toNat < 0x10000
  · rw [encodeChar_three (by omega) h3]
    simp only [List.mem_cons, List.not_mem_nil, or_false]
    rw [hbyte _ (by omega), hbyte _ (by omega), hbyte _ (by omega)]
    omega
  · rw [encodeChar_four (by omega)]
    simp only [List.mem_cons, List.not_mem_nil, or_false]
    rw [hbyte _ (by omega), hbyte _ (by omega), hbyte _ (by omega), hbyte _ (by omega)]
    omega

/-- Only the character with number zero has a zero byte. -/
theorem zero_mem_encode {cs : List Char} : 0 ∈ encode cs ↔ '\x00' ∈ cs := by
  simp only [encode, List.mem_flatMap, zero_mem_encodeChar, exists_eq_right]

/-! ### Characters of one byte -/

def Ascii (cs : List Char) : Prop := ∀ c ∈ cs, c.toNat < 0x80

theorem leadByte_ascii {c : Char} (h : c.toNat < 0x80) : leadByte c = c.toNat.toUInt8 := by
  rw [leadByte, encodeChar_ascii h]
  rfl

theorem encodeChar_eq_leadByte_cons (c : Char) : ∃ bs, encodeChar c = leadByte c :: bs := by
  rcases List.exists_cons_of_ne_nil (encodeChar_ne_nil c) with ⟨b, bs, h⟩
  refine ⟨bs, ?_⟩
  rw [leadByte, h]
  rfl

/-- A character that begins like one of a single byte is that one. -/
theorem eq_of_leadByte_eq {c d : Char} (hd : d.toNat < 0x80) (h : leadByte c = leadByte d) :
    c = d := by
  rcases encodeChar_eq_leadByte_cons c with ⟨bs, hbytes⟩
  have hbyte : (leadByte c).toNat = d.toNat := by
    rw [h, leadByte_ascii hd, Nat.toUInt8_eq, UInt8.toNat_ofNat_of_lt' (Nat.lt_trans hd (by decide))]
  have hcases := encodeChar_eq_cons hbytes
  apply Char.toNat_inj.1
  omega

theorem length_encode_of_ascii {cs : List Char} (h : Ascii cs) :
    (encode cs).length = cs.length := by
  induction cs with
  | nil => rfl
  | cons c cs ih =>
    rcases List.forall_mem_cons.1 h with ⟨hc, hcs⟩
    rw [encode_cons, encodeChar_ascii hc, List.singleton_append, List.length_cons, ih hcs,
      List.length_cons]

theorem encode_append (cs ds : List Char) : encode (cs ++ ds) = encode cs ++ encode ds :=
  List.flatMap_append

/-- Bytes that begin a text of such characters are those of the first characters. -/
theorem prefix_of_encode_prefix {front ds : List Char} {c : Char} (hds : Ascii ds)
    (h : encode front ++ [leadByte c] <+: encode ds) : front ++ [c] <+: ds := by
  induction front generalizing ds with
  | nil =>
    cases ds with
    | nil => simp [encode] at h
    | cons d ds =>
      have hd := (List.forall_mem_cons.1 hds).1
      rw [encode_cons, encodeChar_ascii hd, ← leadByte_ascii hd] at h
      have hlead : leadByte c = leadByte d := (List.cons_prefix_cons.1 h).1
      rw [eq_of_leadByte_eq hd hlead]
      exact ⟨ds, rfl⟩
  | cons a front ih =>
    cases ds with
    | nil =>
      rcases encodeChar_eq_leadByte_cons a with ⟨bs, hbytes⟩
      simp [encode, hbytes] at h
    | cons d ds =>
      rcases List.forall_mem_cons.1 hds with ⟨hd, hds'⟩
      rcases encodeChar_eq_leadByte_cons a with ⟨bs, hbytes⟩
      have hlead : leadByte a = leadByte d := by
        rw [encode_cons, encode_cons, hbytes, encodeChar_ascii hd, ← leadByte_ascii hd] at h
        exact (List.cons_prefix_cons.1 h).1
      cases eq_of_leadByte_eq hd hlead
      rw [encode_cons, encode_cons, encodeChar_ascii hd] at h
      have hrest : encode front ++ [leadByte c] <+: encode ds := (List.cons_prefix_cons.1 h).2
      exact List.cons_prefix_cons.2 ⟨rfl, ih hds' hrest⟩

end Marshal.Text.Utf8
