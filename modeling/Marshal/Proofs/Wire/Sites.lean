import Marshal.Proofs.Signature.Sizes
import Marshal.Proofs.Wire.Format

/-!
  Where the arrays of a message stand.

  `arraySites` lists the arrays of a written value with the offsets of their counts. The
  list follows the message: every array in it has its count at its offset, and the offsets
  increase (`laid_of_write`). The reader meets the arrays in this order.
-/

namespace Marshal.Wire

/-! ### The arrays of a message -/

/-- An array of a message: where its count stands, how many elements it has and what
    their type is. -/
structure ArraySite where
  offset : Nat
  count : Nat
  element : TypeTree
deriving DecidableEq, Repr

/-- Whether the elements take no room and are more than the bytes behind the count, in a
    message of a given length. -/
def ArraySite.Starved (total : Nat) (s : ArraySite) : Prop :=
  s.element.minSize = 0 ∧ total - (s.offset + 4) < s.count

instance (total : Nat) (s : ArraySite) : Decidable (s.Starved total) :=
  inferInstanceAs (Decidable (_ ∧ _))

def ArraySite.refusal (total : Nat) (s : ArraySite) : Error :=
  .corrupt s.offset (.oversizedArray s.count s.element (total - (s.offset + 4)))

mutual

/-- The arrays of a value that is written at an offset, in the order of the message. -/
def arraySites (offset : Nat) : TypeTree → Value → List ArraySite
  | .array t, .array vs => ⟨offset, vs.length, t⟩ :: elementSites (offset + 4) t vs
  | .struct ts, .struct vs => fieldSites offset ts vs
  | .dictEntry k w, .dictEntry key value =>
      arraySites offset k key ++ arraySites (offset + key.wireSize) w value
  | _, _ => []

def elementSites (offset : Nat) (t : TypeTree) : List Value → List ArraySite
  | [] => []
  | v :: vs => arraySites offset t v ++ elementSites (offset + v.wireSize) t vs

def fieldSites (offset : Nat) : List TypeTree → List Value → List ArraySite
  | t :: ts, v :: vs => arraySites offset t v ++ fieldSites (offset + v.wireSize) ts vs
  | _, _ => []

end

theorem arraySites_scalar (offset : Nat) (c : ScalarType) (v : Value) :
    arraySites offset (.scalar c) v = [] := by
  cases v <;> rfl

/-! ### The order of the arrays -/

/-- Whether arrays stand behind one another between two offsets of a message, each with its
    count in front. -/
def Laid (order : ByteOrder) (message : List UInt8) (start : Nat) : List ArraySite → Nat → Prop
  | [], stop => start ≤ stop
  | s :: sites, stop =>
      start ≤ s.offset ∧ (message.drop s.offset).take 4 = order.toBytes 4 s.count ∧
        Laid order message (s.offset + 4) sites stop

namespace Laid

variable {order : ByteOrder} {message : List UInt8} {start middle stop : Nat}
  {sites front back : List ArraySite}

theorem weaken (h : Laid order message middle sites stop) (hle : start ≤ middle) :
    Laid order message start sites stop := by
  cases sites with
  | nil => exact Nat.le_trans hle h
  | cons s sites => exact ⟨Nat.le_trans hle h.1, h.2⟩

theorem append (hfront : Laid order message start front middle)
    (hback : Laid order message middle back stop) :
    Laid order message start (front ++ back) stop := by
  induction front generalizing start with
  | nil => exact hback.weaken hfront
  | cons s front ih =>
    obtain ⟨hle, hcount, hrest⟩ := hfront
    exact ⟨hle, hcount, ih hrest⟩

theorem mem (h : Laid order message start sites stop) {s : ArraySite} (hs : s ∈ sites) :
    start ≤ s.offset ∧ (message.drop s.offset).take 4 = order.toBytes 4 s.count := by
  induction sites generalizing start with
  | nil => cases hs
  | cons first sites ih =>
    obtain ⟨hle, hcount, hrest⟩ := h
    rcases List.mem_cons.1 hs with rfl | hs
    · exact ⟨hle, hcount⟩
    · obtain ⟨hlater, hcount⟩ := ih hrest hs
      exact ⟨by omega, hcount⟩

/-- The counts of a message stand one behind another. -/
theorem increasing (h : Laid order message start sites stop) :
    sites.Pairwise (·.offset < ·.offset) := by
  induction sites generalizing start with
  | nil => exact .nil
  | cons s sites ih =>
    obtain ⟨-, -, hrest⟩ := h
    refine List.pairwise_cons.2 ⟨?_, ih hrest⟩
    intro later hlater
    exact Nat.lt_of_lt_of_le (by omega) (hrest.mem hlater).1

end Laid

/-- The bytes behind a part of a message. -/
theorem drop_of_drop_eq_append {message front back : List UInt8} {offset : Nat}
    (h : message.drop offset = front ++ back) :
    message.drop (offset + front.length) = back := by
  rw [← List.drop_drop, h, List.drop_left]

theorem laid_of_elements {order : ByteOrder} {message : List UInt8} {t : TypeTree}
    (hone : ∀ {v bytes offset after}, write order t v = .ok bytes →
      message.drop offset = bytes ++ after →
        Laid order message offset (arraySites offset t v) (offset + v.wireSize))
    {elements : List Value} {parts : List (List UInt8)}
    (hparts : List.Forall₂ (fun e part => write order t e = .ok part) elements parts)
    {offset : Nat} {after : List UInt8} (hat : message.drop offset = parts.flatten ++ after) :
    Laid order message offset (elementSites offset t elements)
      (offset + Value.wireSizeList elements) := by
  induction hparts generalizing offset with
  | nil => exact Nat.le_refl _
  | @cons v part vs parts hpart _ ih =>
    rw [List.flatten_cons, List.append_assoc] at hat
    have hrest := drop_of_drop_eq_append hat
    rw [length_of_write t hpart] at hrest
    have hvs := ih hrest
    rw [Nat.add_assoc] at hvs
    exact (hone hpart hat).append hvs

mutual

/-- In a message that was written, the arrays stand where `arraySites` says. -/
theorem laid_of_write {order : ByteOrder} {message : List UInt8} (t : TypeTree) {v : Value}
    {bytes after : List UInt8} {offset : Nat} (h : write order t v = .ok bytes)
    (hat : message.drop offset = bytes ++ after) :
    Laid order message offset (arraySites offset t v) (offset + v.wireSize) :=
  match t with
  | .scalar c => by
    rw [arraySites_scalar]
    exact Nat.le_add_right ..
  | .array t => by
    obtain ⟨elements, parts, rfl, -, hparts, rfl⟩ := write_array_ok_iff.1 h
    rw [List.append_assoc] at hat
    have hbehind := drop_of_drop_eq_append hat
    rw [ByteOrder.length_toBytes] at hbehind
    have helements := laid_of_elements (fun hw ha => laid_of_write t hw ha) hparts hbehind
    rw [Nat.add_assoc] at helements
    refine ⟨Nat.le_refl _, ?_, helements⟩
    dsimp only
    rw [hat, List.take_left' (ByteOrder.length_toBytes ..)]
  | .struct ts => by
    obtain ⟨fields, rfl, hlength, hfields⟩ := write_struct_ok_iff.1 h
    exact laid_of_writeFields ts hlength hfields hat
  | .dictEntry k w => by
    obtain ⟨key, value, front, back, rfl, hfront, hback, rfl⟩ := write_dictEntry_ok_iff.1 h
    rw [List.append_assoc] at hat
    have hbehind := drop_of_drop_eq_append hat
    rw [length_of_write k hfront] at hbehind
    have hvalue := laid_of_write w hback hbehind
    rw [Nat.add_assoc] at hvalue
    exact (laid_of_write k hfront hat).append hvalue

theorem laid_of_writeFields {order : ByteOrder} {message : List UInt8} (ts : List TypeTree)
    {vs : List Value} {bytes after : List UInt8} {index offset : Nat}
    (hlength : vs.length = ts.length) (h : writeFields order index ts vs = .ok bytes)
    (hat : message.drop offset = bytes ++ after) :
    Laid order message offset (fieldSites offset ts vs) (offset + Value.wireSizeList vs) :=
  match ts, vs with
  | [], [] => Nat.le_refl _
  | t :: ts, v :: vs => by
    obtain ⟨front, back, hfront, hback, rfl⟩ := writeFields_cons_ok_iff.1 h
    rw [List.append_assoc] at hat
    have hbehind := drop_of_drop_eq_append hat
    rw [length_of_write t hfront] at hbehind
    have hvs := laid_of_writeFields ts (Nat.succ.inj hlength) hback hbehind
    rw [Nat.add_assoc] at hvs
    exact (laid_of_write t hfront hat).append hvs

end

/-! ### Arrays whose elements take room -/

mutual

theorem one_le_minSize_of_mem_arraySites (v : Value) {t : TypeTree} (ht : t.elementsSized)
    {offset : Nat} {s : ArraySite} (hs : s ∈ arraySites offset t v) : 1 ≤ s.element.minSize := by
  cases v with
  | array vs =>
    cases t with
    | array t =>
      simp only [TypeTree.elementsSized, Bool.and_eq_true, decide_eq_true_eq] at ht
      rcases List.mem_cons.1 hs with rfl | hs
      · exact ht.1
      · exact one_le_minSize_of_mem_elementSites vs ht.2 hs
    | _ => cases hs
  | struct vs =>
    cases t with
    | struct ts => exact one_le_minSize_of_mem_fieldSites vs ht hs
    | _ => cases hs
  | dictEntry key value =>
    cases t with
    | dictEntry k w =>
      simp only [TypeTree.elementsSized, Bool.and_eq_true] at ht
      rcases List.mem_append.1 hs with hs | hs
      · exact one_le_minSize_of_mem_arraySites key ht.1 hs
      · exact one_le_minSize_of_mem_arraySites value ht.2 hs
    | _ => cases hs
  | _ => cases t <;> cases hs

theorem one_le_minSize_of_mem_elementSites (vs : List Value) {t : TypeTree}
    (ht : t.elementsSized) {offset : Nat} {s : ArraySite} (hs : s ∈ elementSites offset t vs) :
    1 ≤ s.element.minSize :=
  match vs with
  | [] => by cases hs
  | v :: vs => by
    rcases List.mem_append.1 hs with hs | hs
    · exact one_le_minSize_of_mem_arraySites v ht hs
    · exact one_le_minSize_of_mem_elementSites vs ht hs

theorem one_le_minSize_of_mem_fieldSites (vs : List Value) {ts : List TypeTree}
    (hts : TypeTree.fieldsElementsSized ts) {offset : Nat} {s : ArraySite}
    (hs : s ∈ fieldSites offset ts vs) : 1 ≤ s.element.minSize :=
  match ts, vs with
  | [], vs => by cases vs <;> cases hs
  | _ :: _, [] => by cases hs
  | t :: ts, v :: vs => by
    simp only [TypeTree.fieldsElementsSized, Bool.and_eq_true] at hts
    rcases List.mem_append.1 hs with hs | hs
    · exact one_le_minSize_of_mem_arraySites v hts.1 hs
    · exact one_le_minSize_of_mem_fieldSites vs hts.2 hs

end

end Marshal.Wire
