import Marshal.Proofs.Result

/-!
  Numbers inside a text.

  What stands behind a number in a text does not go on with a digit, so the text says where the
  number ends and which number it is. This holds of the digits of a natural number in every base
  up to sixteen (`toDigits_append_inj`) and of an integer with its sign
  (`integer_append_inj`).
-/

namespace Marshal.Text

/-! ### The digits of a number -/

theorem digitChar_inj :
    ∀ m < 16, ∀ n < 16, Nat.digitChar m = Nat.digitChar n → m = n := by
  decide

theorem mem_toDigits {base n : Nat} (hbase : 1 < base) {c : Char}
    (h : c ∈ Nat.toDigits base n) : ∃ d, Nat.digitChar d = c := by
  induction n using Nat.strongRecOn with
  | ind n ih =>
    rw [Nat.toDigits_eq_if hbase] at h
    split at h
    · exact ⟨n, (List.mem_singleton.1 h).symm⟩
    · next hle =>
      rcases List.mem_append.1 h with hfront | hlast
      · exact ih (n / base) (Nat.div_lt_self (by omega) hbase) hfront
      · exact ⟨n % base, (List.mem_singleton.1 hlast).symm⟩

/-- A number has one digit exactly when it is less than the base. -/
theorem length_toDigits_le_one_iff {base n : Nat} (hbase : 1 < base) :
    (Nat.toDigits base n).length ≤ 1 ↔ n < base := by
  rw [Nat.length_toDigits_le_iff hbase Nat.zero_lt_one, Nat.pow_one]

theorem toDigits_inj {base : Nat} (hbase : 1 < base) (hlimit : base ≤ 16) {m n : Nat}
    (h : Nat.toDigits base m = Nat.toDigits base n) : m = n := by
  induction m using Nat.strongRecOn generalizing n with
  | ind m ih =>
    have hsame : m < base ↔ n < base := by
      rw [← length_toDigits_le_one_iff hbase, ← length_toDigits_le_one_iff hbase, h]
    by_cases hm : m < base
    · have hn : n < base := hsame.1 hm
      rw [Nat.toDigits_of_lt_base hm, Nat.toDigits_of_lt_base hn] at h
      exact digitChar_inj m (by omega) n (by omega) (List.cons.inj h).1
    · have hn : ¬ n < base := fun hn => hm (hsame.2 hn)
      rw [Nat.toDigits_of_base_le hbase (Nat.le_of_not_lt hm),
        Nat.toDigits_of_base_le (n := n) hbase (Nat.le_of_not_lt hn)] at h
      obtain ⟨hfront, hlast⟩ := List.append_inj' h rfl
      have hquotient : m / base = n / base :=
        ih (m / base) (Nat.div_lt_self (by omega) hbase) hfront
      have hmod : ∀ k, k % base < 16 := fun k =>
        Nat.lt_of_lt_of_le (Nat.mod_lt k (Nat.zero_lt_of_lt hbase)) hlimit
      have hrest : m % base = n % base :=
        digitChar_inj _ (hmod m) _ (hmod n) (List.cons.inj hlast).1
      rw [← Nat.div_add_mod m base, ← Nat.div_add_mod n base, hquotient, hrest]

/-! ### Numbers with a text behind them -/

/-- Whether a text does not go on with a digit, of whatever base. -/
def StopsDigits (rest : List Char) : Prop :=
  ∀ d, rest.head? ≠ some (Nat.digitChar d)

theorem stopsDigits_nil : StopsDigits [] := nofun

theorem stopsDigits_cons {c : Char} (hc : ∀ d, Nat.digitChar d ≠ c) (rest : List Char) :
    StopsDigits (c :: rest) :=
  fun d h => hc d (Option.some.inj h).symm

/-- Digits end where the text goes on with something else. -/
theorem digits_append_inj {ds es rest rest' : List Char}
    (hds : ∀ c ∈ ds, ∃ d, Nat.digitChar d = c) (hes : ∀ c ∈ es, ∃ d, Nat.digitChar d = c)
    (hrest : StopsDigits rest) (hrest' : StopsDigits rest') (h : ds ++ rest = es ++ rest') :
    ds = es ∧ rest = rest' := by
  induction ds generalizing es with
  | nil =>
    cases es with
    | nil => exact ⟨rfl, h⟩
    | cons e es =>
      obtain ⟨d, hd⟩ := hes e (List.mem_cons_self ..)
      rw [List.nil_append] at h
      rw [h, ← hd] at hrest
      exact absurd rfl (hrest d)
  | cons c ds ih =>
    cases es with
    | nil =>
      obtain ⟨d, hd⟩ := hds c (List.mem_cons_self ..)
      rw [List.nil_append] at h
      rw [← h, ← hd] at hrest'
      exact absurd rfl (hrest' d)
    | cons e es =>
      obtain ⟨rfl, htail⟩ := List.cons.inj h
      obtain ⟨rfl, hsame⟩ := ih (fun x hx => hds x (List.mem_cons_of_mem _ hx))
        (fun x hx => hes x (List.mem_cons_of_mem _ hx)) htail
      exact ⟨rfl, hsame⟩

theorem toDigits_append_inj {base : Nat} (hbase : 1 < base) (hlimit : base ≤ 16) {m n : Nat}
    {rest rest' : List Char} (hrest : StopsDigits rest) (hrest' : StopsDigits rest')
    (h : Nat.toDigits base m ++ rest = Nat.toDigits base n ++ rest') : m = n ∧ rest = rest' := by
  obtain ⟨hdigits, hsame⟩ := digits_append_inj (fun _ => mem_toDigits hbase)
    (fun _ => mem_toDigits hbase) hrest hrest' h
  exact ⟨toDigits_inj hbase hlimit hdigits, hsame⟩

theorem toDigits_append_ne {base n : Nat} (hbase : 1 < base) {c : Char}
    (hc : ∀ d, Nat.digitChar d ≠ c) (rest rest' : List Char) :
    Nat.toDigits base n ++ rest ≠ c :: rest' := by
  intro h
  cases hdigits : Nat.toDigits base n with
  | nil => exact Nat.toDigits_ne_nil hdigits
  | cons e es =>
    obtain ⟨d, hd⟩ := mem_toDigits (n := n) hbase (hdigits ▸ List.mem_cons_self ..)
    rw [hdigits] at h
    exact hc d (hd.trans (List.cons.inj h).1)

/-! ### Integers with a text behind them -/

theorem digitChar_ne_minus (d : Nat) : Nat.digitChar d ≠ '-' := Nat.digitChar_ne '-' rfl

/-- An integer is the digits of its magnitude, behind a minus sign if it is negative. -/
theorem toList_toString_int (n : Int) :
    (toString n).toList =
      if 0 ≤ n then Nat.toDigits 10 n.toNat else '-' :: Nat.toDigits 10 (-n).toNat := by
  rw [Int.toString_eq_repr, Int.repr_eq_if]
  split
  · rw [Nat.repr_eq_ofList_toDigits, String.toList_ofList]
  · rw [Nat.repr_eq_ofList_toDigits, String.toList_append, String.toList_ofList,
      String.toList_ofList, List.singleton_append]

theorem integer_append_inj {m n : Int} {rest rest' : List Char} (hrest : StopsDigits rest)
    (hrest' : StopsDigits rest') (h : (toString m).toList ++ rest = (toString n).toList ++ rest') :
    m = n ∧ rest = rest' := by
  rw [toList_toString_int, toList_toString_int] at h
  split at h <;> split at h
  · obtain ⟨hmagnitude, hsame⟩ :=
      toDigits_append_inj (by decide) (by decide) hrest hrest' h
    exact ⟨by omega, hsame⟩
  · exact absurd h (toDigits_append_ne (by decide) digitChar_ne_minus _ _)
  · exact absurd h.symm (toDigits_append_ne (by decide) digitChar_ne_minus _ _)
  · obtain ⟨hmagnitude, hsame⟩ :=
      toDigits_append_inj (by decide) (by decide) hrest hrest' (List.cons.inj h).2
    exact ⟨by omega, hsame⟩

end Marshal.Text
