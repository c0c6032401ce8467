import Mathlib.Data.List.TakeWhile
import ObjectGraph.Binary64

/-!
# The characters of written numbers

The text of a finite number is never empty and has digits, signs, the point and the letter of the
exponent only. That it is not empty rests on the search for the shortest decimal: a decimal that
rounds to a number other than zero has a coefficient other than zero, so digits remain after the
trailing zeros are dropped.
-/

namespace ObjectGraph

/-- The characters that numbers are written with. -/
def Binary64.isNumberChar (c : Char) : Bool :=
  c.isDigit || c == '-' || c == '+' || c == '.' || c == 'e'

theorem Binary64.isNumberChar_of_mem_toDigits {c : Char} {n : Nat} (h : c ∈ Nat.toDigits 10 n) :
    isNumberChar c = true := by
  have hdigit : c.isDigit = true := Nat.isDigit_of_mem_toDigits (by decide) (by decide) h
  simp [isNumberChar, hdigit]

namespace Decimal

variable {d : Decimal}

theorem isNumberChar_of_mem_digits : ∀ c ∈ d.digits, Binary64.isNumberChar c = true := by
  intro c h
  rw [digits, List.mem_reverse] at h
  exact Binary64.isNumberChar_of_mem_toDigits (List.mem_reverse.1 ((List.dropWhile_suffix _).mem h))

/-- Only zero has nothing but trailing zeros. -/
theorem digits_ne_nil (h : d.coefficient ≠ 0) : d.digits ≠ [] := by
  intro hnil
  rw [digits, List.reverse_eq_nil_iff, List.dropWhile_eq_nil_iff] at hnil
  have hzeros : Nat.toDigits 10 d.coefficient =
      List.replicate (Nat.toDigits 10 d.coefficient).length '0' := by
    apply List.eq_replicate_of_mem
    intro c hc
    exact beq_iff_eq.1 (hnil c (List.mem_reverse.2 hc))
  -- Reading the digits back gives the coefficient.
  have hvalue : Nat.ofDigitChars 10 (Nat.toDigits 10 d.coefficient) 0 = 0 := by
    rw [hzeros, Nat.ofDigitChars_replicate_zero, Nat.mul_zero]
  rw [Nat.ofDigitChars_ten_toDigits] at hvalue
  exact h hvalue

end Decimal

namespace Binary64

variable {x : Binary64}

/-- A number that is not zero has a positive significand. -/
theorem significand_pos (h : x.isZero = false) : 0 < x.significand := by
  have hmagnitude : x.magnitudeBits ≠ 0 := by simpa [isZero] using h
  rw [significand]
  split
  · rename_i hexponent
    have hsplit := Nat.div_add_mod x.magnitudeBits leadingWeight
    rw [exponentBits] at hexponent
    rw [hexponent] at hsplit
    rw [fractionBits]
    omega
  · exact Nat.add_pos_right _ (by decide)

theorem lowerQuarters_pos (h : x.isZero = false) : 0 < x.lowerQuarters := by
  have hpos := significand_pos h
  rw [lowerQuarters]
  split <;> omega

/-- The value zero does not round to another number. -/
theorem coefficient_ne_zero_of_isReadFrom {d : Decimal} (hx : x.isZero = false)
    (h : x.isReadFrom d = true) : d.coefficient ≠ 0 := by
  intro hzero
  have hvalue : d.numerator <<< 1076 = 0 := by
    rw [Decimal.numerator, hzero, Nat.zero_mul, Nat.zero_shiftLeft]
  have hlower : 0 < (x.lowerQuarters * d.denominator) <<< x.scale := by
    rw [Nat.shiftLeft_eq]
    exact Nat.mul_pos (Nat.mul_pos (lowerQuarters_pos hx) (Nat.pow_pos (by decide)))
      (Nat.pow_pos (by decide))
  rw [isReadFrom, hvalue] at h
  split at h
  · rw [Bool.and_eq_true, decide_eq_true_eq] at h
    omega
  · rw [Bool.and_eq_true, decide_eq_true_eq] at h
    omega

/-- The shortest decimal has digits, unless no grid had a point that rounds to the number; then its
exponent is zero. -/
theorem digits_shortest_ne_nil_or (hx : x.isZero = false) :
    x.shortest.digits ≠ [] ∨ x.shortest.exponent = 0 := by
  rw [shortest]
  split
  · rename_i d hfound
    obtain ⟨n, -, hgrid⟩ := List.exists_of_findSome?_eq_some hfound
    exact Or.inl
      (Decimal.digits_ne_nil (coefficient_ne_zero_of_isReadFrom hx (List.find?_some hgrid)))
  · exact Or.inr rfl

theorem isNumberChar_of_mem_exponentText {e : Int} :
    ∀ c ∈ exponentText e, isNumberChar c = true := by
  refine List.forall_mem_cons.2 ⟨by decide, List.forall_mem_cons.2 ⟨?_, ?_⟩⟩
  · split <;> decide
  · exact fun _ => isNumberChar_of_mem_toDigits

/-- The layout is empty only for no digits with the point at zero. -/
theorem layout_eq_nil_iff {digits : List Char} {point : Int} :
    layout digits point = [] ↔ digits = [] ∧ point = 0 := by
  constructor
  · intro h
    unfold layout at h
    dsimp only at h
    split at h
    · rename_i hinside
      rw [List.append_eq_nil_iff] at h
      obtain ⟨rfl, hzeros⟩ := h
      have hcount := congrArg List.length hzeros
      simp only [List.length_replicate, List.length_nil, Int.natCast_zero] at hcount hinside
      exact ⟨rfl, by omega⟩
    · split at h
      · simp at h
      · split at h
        · simp at h
        · split at h <;> simp at h
  · rintro ⟨rfl, rfl⟩
    rfl

/-- The place of the point adds characters of numbers only. -/
theorem isNumberChar_of_mem_layout {digits : List Char} {point : Int}
    (hdigits : ∀ c ∈ digits, isNumberChar c = true) :
    ∀ c ∈ layout digits point, isNumberChar c = true := by
  have hpoint : isNumberChar '.' = true := by decide
  have hzero : isNumberChar '0' = true := by decide
  have hzeros : ∀ n, ∀ c ∈ List.replicate n '0', isNumberChar c = true := by
    intro n c hc
    rw [List.eq_of_mem_replicate hc]
    exact hzero
  have hfirst : ∀ n, ∀ c ∈ digits.take n, isNumberChar c = true :=
    fun _ c hc => hdigits c (List.mem_of_mem_take hc)
  have hrest : ∀ n, ∀ c ∈ digits.drop n, isNumberChar c = true :=
    fun _ c hc => hdigits c (List.mem_of_mem_drop hc)
  unfold layout
  dsimp only
  split
  · exact List.forall_mem_append.2 ⟨hdigits, hzeros _⟩
  · split
    · exact List.forall_mem_append.2 ⟨hfirst _, List.forall_mem_cons.2 ⟨hpoint, hrest _⟩⟩
    · split
      · refine List.forall_mem_append.2 ⟨?_, hdigits⟩
        exact List.forall_mem_cons.2 ⟨hzero, List.forall_mem_cons.2 ⟨hpoint, hzeros _⟩⟩
      · split
        · exact List.forall_mem_cons.2
            ⟨hdigits _ List.mem_cons_self, isNumberChar_of_mem_exponentText⟩
        · refine List.forall_mem_append.2 ⟨?_, isNumberChar_of_mem_exponentText⟩
          exact List.forall_mem_append.2 ⟨hfirst _, List.forall_mem_cons.2 ⟨hpoint, hrest _⟩⟩

/-- A finite number is written in characters of numbers. -/
theorem isNumberChar_of_mem_finiteText {x : Binary64} :
    ∀ c ∈ x.finiteText, isNumberChar c = true := by
  rw [finiteText]
  split
  · exact List.forall_mem_singleton.2 (by decide)
  · refine List.forall_mem_append.2 ⟨?_, isNumberChar_of_mem_layout ?_⟩
    · split
      · exact List.forall_mem_singleton.2 (by decide)
      · exact List.forall_mem_nil _
    · exact Decimal.isNumberChar_of_mem_digits

/-- The text of a number is never empty. -/
theorem finiteText_ne_nil (x : Binary64) : x.finiteText ≠ [] := by
  intro hnil
  rw [finiteText] at hnil
  split at hnil
  · cases hnil
  · rename_i hx
    rw [Bool.not_eq_true] at hx
    obtain ⟨hdigits, hpoint⟩ := layout_eq_nil_iff.1 (List.append_eq_nil_iff.1 hnil).2
    rcases digits_shortest_ne_nil_or hx with hne | hexponent
    · exact hne hdigits
    · -- A whole number without digits is zero, written with one place before the point.
      have hlength : 0 < (Nat.toDigits 10 x.shortest.coefficient).length := Nat.length_toDigits_pos
      rw [Decimal.point, hexponent] at hpoint
      omega

end Binary64

end ObjectGraph
