import Mathlib.Data.List.Induction
import PathFold.Decimal.Text
import PathFold.Proofs.Grammar.Numeral

/-! Integers written in base ten. Which number some digits write is said as a relation, and the two
integer readers decide it within their ranges. -/

namespace PathFold.Decimal

open PathFold.Json (IsDigit IsDigits all_isDigit_iff)

/-- Digits of base ten, the most significant first, and the number they write. -/
inductive WritesNatural : Bytes → Nat → Prop
  | single {b value} : value < 10 → b.toNat = 0x30 + value → WritesNatural [b] value
  | more {digits n b value} : WritesNatural digits n → value < 10 → b.toNat = 0x30 + value →
      WritesNatural (digits ++ [b]) (n * 10 + value)

/-- Digits that may follow a minus, and the integer they write. -/
inductive WritesInteger : Bytes → Int → Prop
  | plain {digits n} : WritesNatural digits n → WritesInteger digits n
  | minus {digits} {n : Nat} : WritesNatural digits n → WritesInteger (0x2D :: digits) (-n)

theorem isDigit_iff_exists_value {b : UInt8} :
    IsDigit b ↔ ∃ value, value < 10 ∧ b.toNat = 0x30 + value := by
  simp only [IsDigit, UInt8.le_iff_toNat_le]
  constructor
  · rintro ⟨low, high⟩
    exact ⟨b.toNat - 0x30, by simp at high; omega, by simp at low; omega⟩
  · rintro ⟨value, small, same⟩
    simp only [same]
    exact ⟨Nat.le_add_right _ _, by simp; omega⟩

theorem valueOf_concat (digits : Bytes) (b : UInt8) :
    valueOf (digits ++ [b]) = valueOf digits * 10 + (b.toNat - 0x30) := by
  rw [valueOf, List.foldl_append]
  rfl

theorem WritesNatural.isDigits {digits : Bytes} {n : Nat} (h : WritesNatural digits n) :
    IsDigits digits := by
  induction h with
  | single small same => exact ⟨by simp, by simpa using isDigit_iff_exists_value.2 ⟨_, small, same⟩⟩
  | more _ small same ih =>
    refine ⟨by simp, List.forall_mem_append.2 ⟨ih.2, ?_⟩⟩
    simpa using isDigit_iff_exists_value.2 ⟨_, small, same⟩

theorem WritesNatural.valueOf_eq {digits : Bytes} {n : Nat} (h : WritesNatural digits n) :
    valueOf digits = n := by
  induction h with
  | single _ same => simp [valueOf, same]
  | more _ _ same ih => rw [valueOf_concat, ih, same, Nat.add_sub_cancel_left]

theorem writesNatural_valueOf {digits : Bytes} (h : IsDigits digits) :
    WritesNatural digits (valueOf digits) := by
  -- The last digit counts one, and the number before it ten.
  induction digits using List.reverseRecOn with
  | nil => exact absurd rfl h.1
  | append_singleton front b ih =>
    obtain ⟨before, last⟩ := List.forall_mem_append.1 h.2
    obtain ⟨value, small, same⟩ := isDigit_iff_exists_value.1 (last b List.mem_cons_self)
    rw [valueOf_concat, same, Nat.add_sub_cancel_left]
    by_cases alone : front = []
    · subst alone
      rw [show valueOf [] = 0 from rfl, Nat.zero_mul, Nat.zero_add]
      exact .single small same
    · exact .more (ih ⟨alone, before⟩) small same

/-- Digits are read as the number they write, and nothing else is read. -/
theorem natural?_eq_some_iff {text : Bytes} {n : Nat} :
    natural? text = some n ↔ WritesNatural text n := by
  unfold natural?
  constructor
  · intro read
    split at read
    · rename_i digits
      cases read
      exact writesNatural_valueOf ⟨digits.1, all_isDigit_iff.1 digits.2⟩
    · cases read
  · intro writes
    obtain ⟨some, all⟩ := writes.isDigits
    rw [if_pos ⟨some, all_isDigit_iff.2 all⟩, writes.valueOf_eq]

theorem natural?_eq_none_iff {text : Bytes} : natural? text = none ↔ ¬ IsDigits text := by
  refine ⟨fun none digits => ?_, fun noDigits => ?_⟩
  · have read := natural?_eq_some_iff.2 (writesNatural_valueOf digits)
    rw [none] at read
    cases read
  · refine Option.eq_none_iff_forall_ne_some.2 fun n read => noDigits ?_
    exact (natural?_eq_some_iff.1 read).isDigits

/-- A text that begins with no sign is left whole. -/
theorem splitSign_unsigned {text : Bytes} (noMinus : text.head? ≠ some 0x2D)
    (noPlus : text.head? ≠ some 0x2B) : splitSign text = (false, text) := by
  cases text with
  | nil => rfl
  | cons b rest =>
    have minus : b ≠ 0x2D := fun same => noMinus (congrArg some same)
    have plus : b ≠ 0x2B := fun same => noPlus (congrArg some same)
    rw [splitSign, if_neg minus, if_neg plus]

/-- Digits begin with no sign. -/
theorem splitSign_of_isDigits {digits : Bytes} (h : IsDigits digits) (rest : Bytes) :
    splitSign (digits ++ rest) = (false, digits ++ rest) := by
  obtain ⟨some, all⟩ := h
  obtain ⟨b, tail, rfl⟩ := List.exists_cons_of_ne_nil some
  obtain ⟨noPlus, noMinus⟩ := Json.Numeral.ne_signs_of_isDigit (all b List.mem_cons_self)
  exact splitSign_unsigned (fun head => noMinus (Option.some.inj head))
    fun head => noPlus (Option.some.inj head)

theorem head?_ne_minus_of_isDigits {digits : Bytes} (h : IsDigits digits) :
    digits.head? ≠ some 0x2D := by
  intro head
  exact absurd (h.2 _ (List.mem_of_head? head)) (by decide)

theorem writesInteger_minus_iff {digits : Bytes} {z : Int} :
    WritesInteger (0x2D :: digits) z ↔ ∃ n : Nat, WritesNatural digits n ∧ z = -n := by
  constructor
  · intro writes
    cases writes with
    | plain writes => exact absurd rfl (head?_ne_minus_of_isDigits writes.isDigits)
    | minus writes => exact ⟨_, writes, rfl⟩
  · rintro ⟨n, writes, rfl⟩
    exact .minus writes

theorem writesInteger_unsigned_iff {text : Bytes} (noMinus : text.head? ≠ some 0x2D) {z : Int} :
    WritesInteger text z ↔ ∃ n : Nat, WritesNatural text n ∧ z = n := by
  constructor
  · intro writes
    cases writes with
    | plain writes => exact ⟨_, writes, rfl⟩
    | minus => exact absurd rfl noMinus
  · rintro ⟨n, writes, rfl⟩
    exact .plain writes

/-- Digits write one number only. -/
theorem exists_writesNatural_iff {digits : Bytes} {n : Nat} (read : natural? digits = some n)
    {P : Nat → Prop} : (∃ m, WritesNatural digits m ∧ P m) ↔ P n := by
  constructor
  · rintro ⟨m, writes, holds⟩
    cases read.symm.trans (natural?_eq_some_iff.2 writes)
    exact holds
  · exact fun holds => ⟨n, natural?_eq_some_iff.1 read, holds⟩

theorem not_exists_writesNatural {digits : Bytes} (read : natural? digits = none)
    {P : Nat → Prop} : ¬ ∃ m, WritesNatural digits m ∧ P m := by
  rintro ⟨m, writes, -⟩
  exact natural?_eq_none_iff.1 read writes.isDigits

theorem WritesInteger.unique {text : Bytes} {z other : Int} (h : WritesInteger text z)
    (h' : WritesInteger text other) : z = other := by
  cases h with
  | plain writes =>
    have unsigned := head?_ne_minus_of_isDigits writes.isDigits
    obtain ⟨n, writes', rfl⟩ := (writesInteger_unsigned_iff unsigned).1 h'
    rw [← writes.valueOf_eq, ← writes'.valueOf_eq]
  | minus writes =>
    obtain ⟨n, writes', rfl⟩ := writesInteger_minus_iff.1 h'
    rw [← writes.valueOf_eq, ← writes'.valueOf_eq]

/-- An integer that is given only if it is in range is given as what it is. -/
theorem ofInt_eq_some_iff {fits : Prop} [Decidable fits] {z : Int}
    (range : fits ↔ -0x8000000000000000 ≤ z ∧ z < 0x8000000000000000) {v : Int64} :
    (if fits then some (Int64.ofInt z) else none) = some v ↔ v.toInt = z := by
  by_cases inside : fits
  · obtain ⟨low, high⟩ := range.1 inside
    rw [if_pos inside, Option.some.injEq, ← Int64.toInt_inj, Int64.toInt_ofInt_of_le low high,
      eq_comm]
  · have other : v.toInt ≠ z := by
      rintro rfl
      exact inside (range.2 ⟨v.le_toInt, v.toInt_lt⟩)
    simp [inside, other]

/-- A text without a plus in front is read as the integer that it writes, if this is in range. -/
theorem int64?_eq_some_iff {text : Bytes} (noPlus : text.head? ≠ some 0x2B) {v : Int64} :
    int64? text = some v ↔ WritesInteger text v.toInt := by
  by_cases minus : text.head? = some 0x2D
  · obtain ⟨digits, rfl⟩ := List.head?_eq_some_iff.1 minus
    have split : splitSign (0x2D :: digits) = (true, digits) := rfl
    rw [writesInteger_minus_iff, int64?, split]
    cases read : natural? digits with
    | none => simp [read, not_exists_writesNatural read]
    | some n =>
      rw [exists_writesNatural_iff read]
      simp only [read, if_true]
      exact ofInt_eq_some_iff (by omega)
  · rw [writesInteger_unsigned_iff minus, int64?, splitSign_unsigned minus noPlus]
    cases read : natural? text with
    | none => simp [read, not_exists_writesNatural read]
    | some n =>
      rw [exists_writesNatural_iff read]
      simp only [read, Bool.false_eq_true, if_false]
      exact ofInt_eq_some_iff (by omega)

/-- Without a minus either, the same holds of the unsigned reader. -/
theorem uint64?_eq_some_iff {text : Bytes} (noPlus : text.head? ≠ some 0x2B) {v : UInt64} :
    uint64? text = some v ↔ text.head? ≠ some 0x2D ∧ WritesInteger text v.toNat := by
  have high : v.toNat < 0x10000000000000000 := v.toNat_lt
  by_cases minus : text.head? = some 0x2D
  · obtain ⟨digits, rfl⟩ := List.head?_eq_some_iff.1 minus
    simp [uint64?, splitSign]
  · rw [writesInteger_unsigned_iff minus, uint64?, splitSign_unsigned minus noPlus]
    simp only [Bool.false_eq_true, if_false, ne_eq, minus, not_false_eq_true, true_and]
    cases read : natural? text with
    | none => simp [not_exists_writesNatural read]
    | some n =>
      rw [exists_writesNatural_iff read]
      dsimp only
      split
      · rename_i small
        have value : (UInt64.ofNat n).toNat = n := UInt64.toNat_ofNat_of_lt' small
        rw [Option.some.injEq, ← UInt64.toNat_inj, value, eq_comm, Int.natCast_inj]
      · rename_i large
        simp only [reduceCtorEq, false_iff]
        omega

end PathFold.Decimal
