import PathFold.Json.Scalar
import PathFold.Json.Tokenizer.Run
import PathFold.Proofs.Decimal.Integers
import PathFold.Proofs.Grammar.Stop
import PathFold.Proofs.Layout.Call

/-! Numbers of the tokenizer. Their bytes are numbers of the grammar, and what such a number comes to
when it is read as an integer or as a float is said by how it is written. -/

namespace PathFold.Json

open PathFold.Decimal

theorem IsWhole.isDigits {bytes : Bytes} (h : IsWhole bytes) : IsDigits bytes := by
  rcases h with rfl | ⟨digits, -⟩
  · exact Numeral.isDigits_zero
  · exact digits

theorem takeWhile_isDigit_append {front rest : Bytes} (h : IsDigits front)
    (stop : ∀ b ∈ rest.head?, isDigit b = false) : (front ++ rest).takeWhile isDigit = front := by
  rw [← Extent.take_digits, Extent.digits_append h.2 stop, List.take_left]

/-- An integer numeral: neither a point nor the mark of an exponent is in it. -/
def IsInteger (bytes : Bytes) : Prop := 0x2E ∉ bytes ∧ 0x65 ∉ bytes ∧ 0x45 ∉ bytes

/-- A number without a point and without an exponent is an integer part that may follow a minus. -/
theorem IsNumeral.split_of_isInteger {bytes : Bytes} (h : IsNumeral bytes)
    (plain : IsInteger bytes) :
    ∃ sign whole, (sign = [] ∨ sign = [0x2D]) ∧ IsWhole whole ∧ bytes = sign ++ whole := by
  obtain ⟨sign, whole, fraction, exponent, signed, hwhole, hfraction, hexponent, rfl⟩ := h
  obtain ⟨noPoint, noMark, noMark'⟩ := plain
  have none : fraction = [] ∧ exponent = [] := by
    constructor
    · rcases hfraction with rfl | ⟨digits, -, rfl⟩
      · rfl
      · simp at noPoint
    · rcases hexponent with rfl | ⟨mark, _, _, rfl | rfl, -, -, rfl⟩
      · rfl
      · simp at noMark
      · simp at noMark'
  obtain ⟨rfl, rfl⟩ := none
  exact ⟨sign, whole, signed, hwhole, by simp⟩

theorem IsNumeral.exists_writesInteger {bytes : Bytes} (h : IsNumeral bytes)
    (plain : IsInteger bytes) : ∃ z, WritesInteger bytes z := by
  obtain ⟨sign, whole, signed, hwhole, rfl⟩ := h.split_of_isInteger plain
  have writes := writesNatural_valueOf hwhole.isDigits
  rcases signed with rfl | rfl
  · exact ⟨_, .plain writes⟩
  · exact ⟨_, .minus writes⟩

theorem isInteger_of_isDigits {digits : Bytes} (h : IsDigits digits) : IsInteger digits := by
  have other {b : UInt8} (noDigit : ¬ IsDigit b) : b ∉ digits := fun mem => noDigit (h.2 b mem)
  exact ⟨other (by decide), other (by decide), other (by decide)⟩

theorem isInteger_of_writesInteger {bytes : Bytes} {z : Int} (h : WritesInteger bytes z) :
    IsInteger bytes := by
  cases h with
  | plain writes => exact isInteger_of_isDigits writes.isDigits
  | minus writes =>
    obtain ⟨noPoint, noMark, noMark'⟩ := isInteger_of_isDigits writes.isDigits
    exact ⟨by simpa using noPoint, by simpa using noMark, by simpa using noMark'⟩

theorem isSome_exponent? {bytes : Bytes} (h : IsExponent bytes) : (exponent? bytes).isSome := by
  rcases h with rfl | ⟨mark, sign, digits, marked, signed, isDigits, rfl⟩
  · rfl
  · have value := natural?_eq_some_iff.2 (writesNatural_valueOf isDigits)
    rw [exponent?, if_pos marked]
    rcases signed with rfl | rfl | rfl
    · have unsigned := splitSign_of_isDigits isDigits []
      rw [List.append_nil] at unsigned
      simp [unsigned, value]
    · simp [splitSign, value]
    · simp [splitSign, value]

theorem isSome_magnitude? {whole fraction exponent : Bytes} (hwhole : IsWhole whole)
    (hfraction : IsFraction fraction) (hexponent : IsExponent exponent) :
    (magnitude? (whole ++ (fraction ++ exponent))).isSome := by
  have noTail : ∀ b ∈ ([] : Bytes).head?, isDigit b = false ∧ b ≠ 0x2E := by simp
  have atExponent := Numeral.head_of_isExponent hexponent noTail
  rw [List.append_nil] at atExponent
  have atFraction := Numeral.head_of_isFraction hfraction fun b hb => (atExponent b hb).1
  have nonempty : whole ≠ [] := hwhole.isDigits.1
  unfold magnitude?
  rw [takeWhile_isDigit_append hwhole.isDigits atFraction]
  dsimp only
  rw [List.drop_left]
  rcases hfraction with rfl | ⟨digits, isDigits, rfl⟩
  · have noPoint : exponent.head? ≠ some 0x2E := fun head => (atExponent _ head).2 rfl
    simp [nonempty, noPoint, isSome_exponent? hexponent]
  · have stop := takeWhile_isDigit_append isDigits fun b hb => (atExponent b hb).1
    have after : (0x2E :: (digits ++ exponent)).drop (1 + digits.length) = exponent := by
      rw [Nat.add_comm, List.drop_succ_cons, List.drop_left]
    simp [nonempty, stop, after, isSome_exponent? hexponent]

theorem IsNumeral.isSome_float? {bytes : Bytes} (h : IsNumeral bytes) : (float? bytes).isSome := by
  obtain ⟨sign, whole, fraction, exponent, signed, hwhole, hfraction, hexponent, rfl⟩ := h
  have body : ∃ negative, splitSign (sign ++ (whole ++ (fraction ++ exponent))) =
      (negative, whole ++ (fraction ++ exponent)) := by
    rcases signed with rfl | rfl
    · exact ⟨false, splitSign_of_isDigits hwhole.isDigits _⟩
    · exact ⟨true, rfl⟩
  obtain ⟨negative, split⟩ := body
  have magnitude := isSome_magnitude? hwhole hfraction hexponent
  rw [float?, split]
  dsimp only
  rw [Option.isSome_map]
  cases named? (whole ++ (fraction ++ exponent)) with
  | none => exact magnitude
  | some => rfl

/-- What a number gives as a value, by the bytes that write it: an integer only without a point and
without an exponent and within the range asked for, and a float always. -/
structure Scalar.GivesNumber (scalar : Scalar) : Prop where
  integer : IsInteger scalar.raw →
    ∃ z, WritesInteger scalar.raw z ∧ ∀ other, WritesInteger scalar.raw other → other = z
  int64 : ∀ v, scalar.int64? = some v ↔ IsInteger scalar.raw ∧
    ∃ z, WritesInteger scalar.raw z ∧ -0x8000000000000000 ≤ z ∧ z < 0x8000000000000000 ∧ v.toInt = z
  uint64 : ∀ v, scalar.uint64? = some v ↔ IsInteger scalar.raw ∧ 0x2D ∉ scalar.raw ∧
    ∃ z, WritesInteger scalar.raw z ∧ z < 0x10000000000000000 ∧ v.toNat = z
  agree : ∀ v w, scalar.int64? = some v → scalar.uint64? = some w → v.toInt = w.toNat
  float : scalar.float?.isSome

theorem IsNumeral.head?_ne_plus {bytes : Bytes} (h : IsNumeral bytes) :
    bytes.head? ≠ some 0x2B := by
  obtain ⟨b, tail, rfl, head⟩ := Numeral.head_of_isNumeral h
  intro same
  cases same
  exact absurd head (by decide)

theorem IsNumeral.givesNumber {scalar : Scalar} (h : IsNumeral scalar.raw)
    (number : scalar.kind = .number) : scalar.GivesNumber := by
  have numeral : scalar.numeral? = some scalar.raw := if_pos number
  have int64 : scalar.int64? = Decimal.int64? scalar.raw := by
    rw [Scalar.int64?, numeral, Option.bind_some]
  have uint64 : scalar.uint64? = Decimal.uint64? scalar.raw := by
    rw [Scalar.uint64?, numeral, Option.bind_some]
  have signed {v : Int64} : scalar.int64? = some v ↔ WritesInteger scalar.raw v.toInt := by
    rw [int64, int64?_eq_some_iff h.head?_ne_plus]
  have unsigned {v : UInt64} : scalar.uint64? = some v ↔
      scalar.raw.head? ≠ some 0x2D ∧ WritesInteger scalar.raw v.toNat := by
    rw [uint64, uint64?_eq_some_iff h.head?_ne_plus]
  refine ⟨fun plain => ?_, fun v => ?_, fun v => ?_, fun v w hv hw => ?_, ?_⟩
  · obtain ⟨z, writes⟩ := h.exists_writesInteger plain
    exact ⟨z, writes, fun other writes' => writes'.unique writes⟩
  · rw [signed]
    constructor
    · intro writes
      exact ⟨isInteger_of_writesInteger writes, _, writes, v.le_toInt, v.toInt_lt, rfl⟩
    · rintro ⟨-, z, writes, -, -, same⟩
      rwa [same]
  · rw [unsigned]
    constructor
    · rintro ⟨noMinus, writes⟩
      obtain ⟨n, natural, -⟩ := (writesInteger_unsigned_iff noMinus).1 writes
      have bound : (v.toNat : Int) < 0x10000000000000000 := Int.ofNat_lt.2 v.toNat_lt
      refine ⟨isInteger_of_writesInteger writes, fun minus => ?_, _, writes, bound, rfl⟩
      exact absurd (natural.isDigits.2 _ minus) (by decide)
    · rintro ⟨-, noMinus, z, writes, -, same⟩
      exact ⟨fun head => noMinus (List.mem_of_head? head), same ▸ writes⟩
  · exact (signed.1 hv).unique (unsigned.1 hw).2
  · rw [Scalar.float?, numeral, Option.bind_some]
    exact h.isSome_float?

/-- A number is written as its raw bytes. -/
theorem Writes.isNumeral_raw {stage next : Stage} {written : Bytes} {lexeme : Lexeme}
    (h : Writes stage written lexeme next) (number : lexeme.kind = .number) :
    IsNumeral lexeme.raw := by
  cases h with
  | scalar _ scalar =>
    cases scalar with
    | number numeral => exact numeral
    | string | yes | no | null => cases number
  | opening | closing | name => cases number

namespace Tokenizer

theorem isNumeral_of_next {t : Tokenizer} {token : Token} (h : t.next.1 = .ok (some token))
    (number : token.kind = .number) : IsNumeral token.raw := by
  obtain ⟨_, _, _, -, -, took⟩ := took_of_next (Prod.ext h rfl : t.next = (_, t.next.2))
  exact took.writes.isNumeral_raw number

/-- The scalar of any number that a call gives, also after calls that gave errors, is the 64-bit
integer that its bytes write, signed or unsigned, where there is one, and always a float. A scalar
that is not a number gives neither, whatever its bytes. -/
theorem numbers_give_values (o : Options) (input : Bytes) :
    (∀ (n : Nat) token, ((start o input).after n).next.1 = .ok (some token) →
      token.kind = .number → ∃ scalar, Scalar.ofToken? token = some scalar ∧
        scalar.kind = .number ∧ scalar.raw = token.raw ∧ scalar.GivesNumber) ∧
    ∀ scalar : Scalar, scalar.kind ≠ .number →
      scalar.int64? = none ∧ scalar.uint64? = none ∧ scalar.float? = none := by
  refine ⟨fun n token given number => ?_, fun scalar other => ?_⟩
  · have made : Scalar.ofToken? token = some ⟨.number, token.raw, token.escaped⟩ := by
      rw [Scalar.ofToken?, number]
      rfl
    exact ⟨_, made, rfl, rfl, IsNumeral.givesNumber (isNumeral_of_next given number) rfl⟩
  · have noNumeral : scalar.numeral? = none := if_neg other
    simp [Scalar.int64?, Scalar.uint64?, Scalar.float?, noNumeral]

/-- In `[-0]`, the zero with a minus is an integer, but not an unsigned one. -/
theorem numbers_give_values_minus_zero :
    let token : Token := ⟨.number, [0x2D, 0x30], 1, 3, false⟩
    ((start .strict [0x5B, 0x2D, 0x30, 0x5D]).after 1).next.1 = .ok (some token) ∧
      ∃ scalar, Scalar.ofToken? token = some scalar ∧ scalar.int64? = some 0 ∧
        (∀ v, scalar.uint64? ≠ some v) ∧ scalar.float?.isSome := by
  intro token
  have tokens : (start .strict [0x5B, 0x2D, 0x30, 0x5D]).feed =
      ⟨[⟨⟨.opening .array, [0x5B], 0, 1, false⟩, 1⟩, ⟨token, 1⟩,
        ⟨⟨.closing .array, [0x5D], 3, 4, false⟩, 0⟩], none⟩ := by decide +kernel
  have given : ((start .strict [0x5B, 0x2D, 0x30, 0x5D]).after 1).next.1 = .ok (some token) :=
    next_of_pull (congrArg (·.pulls[1]?) tokens)
  obtain ⟨scalar, made, -, raw, number⟩ :=
    (numbers_give_values .strict [0x5B, 0x2D, 0x30, 0x5D]).1 1 token given rfl
  have zero : WritesInteger scalar.raw (-(0 : Nat)) := by
    rw [raw]
    exact .minus (.single (by decide) rfl)
  refine ⟨given, scalar, made, ?_, fun v unsigned => ?_, number.float⟩
  · exact (number.int64 0).2 ⟨isInteger_of_writesInteger zero, _, zero, by decide, by decide, rfl⟩
  · obtain ⟨-, noMinus, -⟩ := (number.uint64 v).1 unsigned
    rw [raw] at noMinus
    exact noMinus List.mem_cons_self

end Tokenizer

end PathFold.Json
