import Mathlib.Data.List.Basic

/-! Decimal numerals padded with zeros to a width, as they stand in generated identifiers. -/
namespace CtvAttribution.Library

/-- `f"{n:0{width}d}"`. -/
def padded (width n : Nat) : List Char := (Nat.toDigits 10 n).leftpad width '0'

section padded
variable {width n m : Nat}

theorem ofDigitChars_padded (width n : Nat) : Nat.ofDigitChars 10 (padded width n) 0 = n := by
  rw [padded, List.leftpad, Nat.ofDigitChars_append, Nat.ofDigitChars_replicate_zero, Nat.mul_zero,
    Nat.ofDigitChars_ten_toDigits]

theorem padded_injective (h : padded width n = padded width m) : n = m := by
  rw [← ofDigitChars_padded width n, h, ofDigitChars_padded]

theorem isDigit_of_mem_padded {c : Char} (h : c ∈ padded width n) : c.isDigit = true := by
  rcases List.mem_append.mp h with h | h
  · rw [List.eq_of_mem_replicate h]
    rfl
  · exact Nat.isDigit_of_mem_toDigits (by decide) (by decide) h

/-- A separator that is no digit ends the numeral. -/
theorem takeWhile_padded {sep : Char} (l : List Char) (hsep : sep.isDigit = false) :
    (padded width n ++ sep :: l).takeWhile Char.isDigit = padded width n := by
  have hstop : ¬ sep.isDigit = true := by rw [hsep]; exact nofun
  rw [List.takeWhile_append_of_pos fun _ hc => isDigit_of_mem_padded hc, List.takeWhile_cons_of_neg hstop,
    List.append_nil]

theorem padded_append_cancel {sep : Char} {l l' : List Char} (hsep : sep.isDigit = false)
    (h : padded width n ++ sep :: l = padded width m ++ sep :: l') : n = m := by
  have hdigits : padded width n = padded width m := by
    rw [← takeWhile_padded l hsep, h, takeWhile_padded l' hsep]
  exact padded_injective hdigits

end padded
end CtvAttribution.Library
