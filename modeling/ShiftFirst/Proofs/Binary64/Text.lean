import ShiftFirst.Proofs.Binary64.Numeral
import ShiftFirst.Proofs.Binary64.Shortest

namespace ShiftFirst

section Digits

variable {digits : List Char} {n : ℕ}

theorem digitsValue_eq (digits : List Char) :
    Binary64.digitsValue digits = Nat.ofDigitChars 10 digits 0 := by
  unfold Binary64.digitsValue Nat.ofDigitChars
  simp only [Nat.mul_comm]

theorem digitsValue_toDigits (n : ℕ) : Binary64.digitsValue (Nat.toDigits 10 n) = n := by
  rw [digitsValue_eq, Nat.ofDigitChars_toDigits (by decide) le_rfl]

theorem isDigit_toDigits (n : ℕ) : ∀ c ∈ Nat.toDigits 10 n, c.isDigit :=
  fun _ mem => Nat.isDigit_of_mem_toDigits (by decide) le_rfl mem

theorem isDigit_zeros (k : ℕ) : ∀ c ∈ List.replicate k '0', c.isDigit := by
  intro c mem
  rw [List.eq_of_mem_replicate mem]
  rfl

/-- Zeros before the digits count for nothing. -/
theorem digitsValue_zeros_append (k : ℕ) (digits : List Char) :
    Binary64.digitsValue (List.replicate k '0' ++ digits) = Binary64.digitsValue digits := by
  induction k with
  | zero => rfl
  | succ k ih => exact ih

theorem digitsValue_append_zeros (k : ℕ) (digits : List Char) :
    Binary64.digitsValue (digits ++ List.replicate k '0') =
      Binary64.digitsValue digits * 10 ^ k := by
  induction k with
  | zero => simp
  | succ k ih =>
    rw [List.replicate_succ', ← List.append_assoc, Binary64.digitsValue, List.foldl_append]
    change Binary64.digitsValue (digits ++ List.replicate k '0') * 10 + 0 = _
    rw [ih]
    ring

end Digits

namespace Decimal

/-- The text of a decimal is a numeral that is read as the same number. -/
theorem readDecimal?_text (d : Decimal) :
    Binary64.IsNumeral d.text ∧
      ∃ d', Binary64.readDecimal? d.text = some d' ∧ d'.value = d.value := by
  have digits := isDigit_toDigits d.digits
  unfold text
  dsimp only
  split
  next whole =>
    have filled : Nat.toDigits 10 d.digits ++ List.replicate d.exponent.toNat '0' ≠ [] :=
      List.append_ne_nil_of_left_ne_nil Nat.toDigits_ne_nil _
    have all := List.forall_mem_append.mpr ⟨digits, isDigit_zeros d.exponent.toNat⟩
    refine ⟨.digits filled all, _, Binary64.readDecimal?_digits filled all, ?_⟩
    obtain ⟨k, exponent⟩ := Int.eq_ofNat_of_zero_le whole
    rw [digitsValue_append_zeros, digitsValue_toDigits, value, value, exponent]
    simp
  next broken =>
    generalize hpadded : List.replicate ((-d.exponent).toNat + 1 - (Nat.toDigits 10 d.digits).length)
      '0' ++ Nat.toDigits 10 d.digits = padded
    have count : (-d.exponent).toNat < padded.length := by
      rw [← hpadded, List.length_append, List.length_replicate]
      omega
    have same := List.take_append_drop (padded.length - (-d.exponent).toNat) padded
    have filled := List.ne_nil_of_length_pos (Nat.zero_lt_of_lt count)
    have all : ∀ c ∈ padded, c.isDigit :=
      hpadded ▸ List.forall_mem_append.mpr ⟨isDigit_zeros _, digits⟩
    rw [← same] at filled all
    refine ⟨.point filled all, _, Binary64.readDecimal?_point filled all, ?_⟩
    have exponent : 0 - ((padded.drop (padded.length - (-d.exponent).toNat)).length : ℤ) =
        d.exponent := by
      rw [List.length_drop]
      omega
    rw [same, exponent, ← hpadded, digitsValue_zeros_append, digitsValue_toDigits]

end Decimal

namespace Binary64

theorem read_text {x : Binary64} (finite : x.magnitude < infiniteMagnitude) :
    read (String.ofList x.shortest.text) = .ok (ofMagnitude false x.magnitude) := by
  obtain ⟨numeral, d, spelled, value⟩ := x.shortest.readDecimal?_text
  have rounds := x.rounds_shortest
  rw [← value] at rounds
  rw [← String.toList_ofList (l := x.shortest.text)] at numeral spelled
  rw [read_of_decimal numeral spelled, ofDecimal_eq finite rounds]

end Binary64

end ShiftFirst
