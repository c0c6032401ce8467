import ObjectGraph.Document

/-!
# The double nearest to a large integer

An integer of a document that does not fit 64 bits with sign becomes a double. `isNearest_ofInt`
says which one: it is finite, no finite double is nearer to the integer, and where another one is as
near, its significand is even. The distance is counted in units of `2 ^ (-1074)`, of which every
finite double is a multiple.
-/

namespace ObjectGraph.Binary64

/-- The unit `2 ^ (-1074)` goes so often into one. -/
@[irreducible] def unitsPerOne : Nat :=
  1 <<< 1074

/-- The value of a finite number in units of `2 ^ (-1074)`. -/
def units (x : Binary64) : Int :=
  (if x.isNegative then -1 else 1) * ((x.significand <<< x.scale : Nat) : Int)

/-- How far a finite number is from an integer, in units of `2 ^ (-1074)`. -/
def distance (x : Binary64) (n : Int) : Nat :=
  (x.units - n * unitsPerOne).natAbs

/-- A finite number is nearest to an integer when no finite number is nearer; of two nearest ones it
is the one with the even significand. -/
structure IsNearest (x : Binary64) (n : Int) : Prop where
  finite : x.isFinite = true
  nearest : ∀ y : Binary64, y.isFinite = true → x.distance n ≤ y.distance n
  even : ∀ y : Binary64, y.isFinite = true → y.distance n = x.distance n →
    y.units = x.units ∨ x.significand % 2 = 0

/-! ## Rounded quotients -/

/-- A rounded quotient is the integer below or the one above; the remainder says which, and of a
half the even one. -/
theorem roundDiv_cases (num den : Nat) :
    (roundDiv num den = num / den ∧ 2 * (num % den) ≤ den ∧
      (2 * (num % den) = den → num / den % 2 = 0)) ∨
    (roundDiv num den = num / den + 1 ∧ den ≤ 2 * (num % den) ∧
      (2 * (num % den) = den → (num / den + 1) % 2 = 0)) := by
  rw [roundDiv]
  split
  · exact .inl ⟨rfl, by omega, by omega⟩
  · split
    · exact .inr ⟨rfl, by omega, by omega⟩
    · split
      · exact .inl ⟨rfl, by omega, by omega⟩
      · exact .inr ⟨rfl, by omega, by omega⟩

/-- No multiple of the denominator is nearer to the numerator than the rounded one, and where
another one is as near, the rounded quotient is even. -/
theorem roundDiv_nearest (num : Nat) {den : Nat} (hden : 0 < den) (k : Nat) :
    ((roundDiv num den * den : Nat) - num : Int).natAbs ≤ ((k * den : Nat) - num : Int).natAbs ∧
      (((k * den : Nat) - num : Int).natAbs = ((roundDiv num den * den : Nat) - num : Int).natAbs →
        k = roundDiv num den ∨ roundDiv num den % 2 = 0) := by
  have hnum : num / den * den + num % den = num := Nat.div_add_mod' num den
  have hrest : num % den < den := Nat.mod_lt num hden
  have hup : (num / den + 1) * den = num / den * den + den := Nat.succ_mul _ _
  -- A multiple lies below the quotient's one, at it, at the next one or above.
  have hk : (k < num / den ∧ k * den + den ≤ num / den * den) ∨ k = num / den ∨ k = num / den + 1 ∨
      (num / den + 1 < k ∧ num / den * den + 2 * den ≤ k * den) := by
    rcases Nat.lt_or_ge k (num / den) with hlow | hhigh
    · refine .inl ⟨hlow, ?_⟩
      rw [← Nat.succ_mul]
      exact Nat.mul_le_mul_right den hlow
    · rcases Nat.lt_or_ge (num / den + 1) k with habove | hnext
      · refine .inr (.inr (.inr ⟨habove, ?_⟩))
        rw [← Nat.add_mul]
        exact Nat.mul_le_mul_right den habove
      · omega
  rcases roundDiv_cases num den with ⟨heq, hhalf, htie⟩ | ⟨heq, hhalf, htie⟩ <;> rw [heq]
  · rcases hk with ⟨hlt, hmul⟩ | rfl | rfl | ⟨hlt, hmul⟩ <;> omega
  · rw [hup]
    rcases hk with ⟨hlt, hmul⟩ | rfl | rfl | ⟨hlt, hmul⟩ <;> omega

/-! ## Integers of 64 bits -/

theorem one_shiftLeft_pos (k : Nat) : 0 < 1 <<< k := by
  rw [Nat.one_shiftLeft]
  exact Nat.two_pow_pos k

theorem shiftLeft_eq_mul (n k : Nat) : n <<< k = n * (1 <<< k) := by
  rw [Nat.shiftLeft_eq, Nat.one_shiftLeft]

theorem double_shiftLeft_le {j k : Nat} (h : j < k) : 1 <<< j * 2 ≤ 1 <<< k := by
  rw [Nat.one_shiftLeft, Nat.one_shiftLeft, ← Nat.pow_succ]
  exact Nat.pow_le_pow_right (by decide) h

theorem unitsPerOne_pos : 0 < unitsPerOne := by
  rw [unitsPerOne]
  exact one_shiftLeft_pos 1074

theorem shiftLeft_units (n : Nat) : n <<< 1074 = n * unitsPerOne := by
  rw [unitsPerOne]
  exact shiftLeft_eq_mul n 1074

theorem one_shiftLeft_units (k : Nat) : 1 <<< (k + 1074) = 1 <<< k * unitsPerOne := by
  rw [Nat.shiftLeft_add, shiftLeft_units]

theorem significand_lt (x : Binary64) : x.significand < 2 * leadingWeight := by
  have hfraction : x.fractionBits < leadingWeight := Nat.mod_lt _ (by decide)
  rw [significand]
  split <;> omega

/-- From `2 ^ 63` on, every finite number is a multiple of `2 ^ 11`. -/
theorem units_cases (y : Binary64) :
    (∃ k : Nat, y.units = (k * (2048 * unitsPerOne) : Nat)) ∨
      y.units < (leadingWeight * (2048 * unitsPerOne) : Nat) := by
  have hstep : 1 <<< 1085 = 2048 * unitsPerOne := one_shiftLeft_units 11
  rw [units]
  cases y.isNegative with
  | true =>
      right
      have hpos : 0 < leadingWeight * (2048 * unitsPerOne) :=
        Nat.mul_pos (by decide) (Nat.mul_pos (by decide) unitsPerOne_pos)
      generalize leadingWeight * (2048 * unitsPerOne) = bound at hpos
      generalize y.significand <<< y.scale = magnitude
      rw [if_pos rfl]
      omega
  | false =>
      rw [if_neg Bool.false_ne_true, Int.one_mul]
      -- With 53 bits at most, a number of a lower scale does not come up to `2 ^ 63`.
      rcases Nat.lt_or_ge y.scale 1085 with hsmall | hlarge
      · right
        rw [Int.ofNat_lt, shiftLeft_eq_mul]
        have hle : 1 <<< y.scale * 2 ≤ 1 <<< 1085 := double_shiftLeft_le hsmall
        have hlt : y.significand * 1 <<< y.scale < 2 * leadingWeight * 1 <<< y.scale :=
          Nat.mul_lt_mul_of_pos_right y.significand_lt (one_shiftLeft_pos _)
        calc y.significand * 1 <<< y.scale
            < 2 * leadingWeight * 1 <<< y.scale := hlt
          _ = leadingWeight * (1 <<< y.scale * 2) := by
            rw [Nat.mul_comm 2, Nat.mul_assoc, Nat.mul_comm 2]
          _ ≤ leadingWeight * (2048 * unitsPerOne) := by
            rw [← hstep]
            exact Nat.mul_le_mul_left _ hle
      · left
        obtain ⟨j, hj⟩ := Nat.exists_eq_add_of_le hlarge
        refine ⟨y.significand <<< j, ?_⟩
        rw [hj, Nat.add_comm, Nat.shiftLeft_add, ← hstep]
        exact congrArg Nat.cast (shiftLeft_eq_mul _ 1085)

/-- The significand of an integer of 64 bits: the last eleven bits are rounded. -/
def largeSignificand (n : Nat) : Nat :=
  roundDiv (n * unitsPerOne) (2048 * unitsPerOne)

section Large

variable {n : Nat}

theorem largeSignificand_bounds (hlow : 2048 * leadingWeight ≤ n)
    (hhigh : n < 4096 * leadingWeight) :
    leadingWeight ≤ largeSignificand n ∧ largeSignificand n ≤ 2 * leadingWeight := by
  have hround := roundDiv_cases (n * unitsPerOne) (2048 * unitsPerOne)
  rw [Nat.mul_div_mul_right n 2048 unitsPerOne_pos, ← largeSignificand] at hround
  rw [leadingWeight] at *
  omega

/-- The scale of an integer with exactly 64 bits. -/
theorem ratioScale_large (hlow : 2048 * leadingWeight ≤ n) (hhigh : n < 4096 * leadingWeight) :
    ratioScale n 1 = 1085 := by
  have hlog : n.log2 = 63 := by
    rw [leadingWeight] at hlow hhigh
    exact (Nat.log2_eq_iff (by omega)).2 (by omega)
  have hone : Nat.log2 1 = 0 := by decide
  have hle : (2 * leadingWeight * 1) <<< (10 + 1074) ≤ n <<< 1074 := by
    rw [Nat.shiftLeft_add, shiftLeft_units, shiftLeft_units]
    exact Nat.mul_le_mul_right _ hlow
  rw [ratioScale, hlog, hone]
  exact if_pos hle

/-- The nearest double to an integer with exactly 64 bits, by its parts. -/
theorem ofInt_large (hlow : 2048 * leadingWeight ≤ n) (hhigh : n < 4096 * leadingWeight) :
    ofInt n = ofParts false (1085 * leadingWeight + largeSignificand n) := by
  have hne : n ≠ 0 := by
    rw [leadingWeight] at hlow
    omega
  have hle : 1085 * leadingWeight + largeSignificand n ≤ infiniteBits := by
    have hbounds := largeSignificand_bounds hlow hhigh
    rw [leadingWeight] at *
    rw [infiniteBits]
    omega
  have hpositive : decide ((n : Int) < 0) = false :=
    decide_eq_false (Int.not_lt.2 (Int.natCast_nonneg n))
  have hden : 1 <<< 1085 = 2048 * unitsPerOne := one_shiftLeft_units 11
  rw [ofInt, ofRatio, hpositive, Int.natAbs_natCast, ratioBits, if_neg hne]
  dsimp only
  rw [ratioScale_large hlow hhigh, shiftLeft_units, hden, ← largeSignificand, Nat.min_eq_left hle]

theorem magnitudeBits_ofParts {magnitude : Nat} (h : magnitude < signWeight) :
    (ofParts false magnitude).bits.toNat = magnitude ∧
      (ofParts false magnitude).magnitudeBits = magnitude := by
  have hsize : magnitude < UInt64.size := Nat.lt_trans h (by decide)
  have hbits : (ofParts false magnitude).bits.toNat = magnitude := UInt64.toNat_ofNat_of_lt' hsize
  rw [magnitudeBits, hbits]
  exact ⟨rfl, Nat.mod_eq_of_lt h⟩

/-- What an integer of 64 bits becomes is finite and has the rounded significand; where the rounding
carries into a 54th bit, the significand is half of it, and even. -/
theorem parts_ofInt (hlow : 2048 * leadingWeight ≤ n) (hhigh : n < 4096 * leadingWeight) :
    (ofInt n).isFinite = true ∧ (ofInt n).isNegative = false ∧
      (((ofInt n).significand = largeSignificand n ∧ (ofInt n).scale = 1085) ∨
        ((ofInt n).significand = leadingWeight ∧ largeSignificand n = 2 * leadingWeight ∧
          (ofInt n).scale = 1086)) := by
  obtain ⟨hleast, hmost⟩ := largeSignificand_bounds hlow hhigh
  have hlt : 1085 * leadingWeight + largeSignificand n < signWeight := by
    rw [signWeight]
    rw [leadingWeight] at *
    omega
  obtain ⟨hbits, hmagnitude⟩ := magnitudeBits_ofParts hlt
  rw [ofInt_large hlow hhigh]
  have hnegative : (ofParts false (1085 * leadingWeight + largeSignificand n)).isNegative =
      false := by
    rw [isNegative, hbits]
    exact decide_eq_false (Nat.not_le.2 hlt)
  -- The leading one of the significand adds itself to the exponent bits, and so does a carry.
  rcases Nat.lt_or_eq_of_le hmost with hless | hcarry
  · have hexponent : (ofParts false (1085 * leadingWeight + largeSignificand n)).exponentBits =
        1086 := by
      rw [exponentBits, hmagnitude]
      rw [leadingWeight] at *
      omega
    have hfraction : (ofParts false (1085 * leadingWeight + largeSignificand n)).fractionBits =
        largeSignificand n - leadingWeight := by
      rw [fractionBits, hmagnitude]
      rw [leadingWeight] at *
      omega
    refine ⟨?_, hnegative, .inl ⟨?_, ?_⟩⟩
    · rw [isFinite, hexponent]
      rfl
    · rw [significand, hexponent, hfraction, if_neg (by decide)]
      exact Nat.sub_add_cancel hleast
    · rw [scale, hexponent]
  · have hexponent : (ofParts false (1085 * leadingWeight + largeSignificand n)).exponentBits =
        1087 := by
      rw [exponentBits, hmagnitude, hcarry, leadingWeight]
    have hfraction : (ofParts false (1085 * leadingWeight + largeSignificand n)).fractionBits =
        0 := by
      rw [fractionBits, hmagnitude, hcarry, leadingWeight]
    refine ⟨?_, hnegative, .inr ⟨?_, hcarry, ?_⟩⟩
    · rw [isFinite, hexponent]
      rfl
    · rw [significand, hexponent, hfraction, if_neg (by decide), Nat.zero_add]
    · rw [scale, hexponent]

/-- The value of that double, counted in the least positive doubles. -/
theorem units_ofInt (hlow : 2048 * leadingWeight ≤ n) (hhigh : n < 4096 * leadingWeight) :
    (ofInt n).units = (largeSignificand n * (2048 * unitsPerOne) : Nat) := by
  have hstep : 1 <<< 1085 = 2048 * unitsPerOne := one_shiftLeft_units 11
  have hdouble : 1 <<< 1086 = 4096 * unitsPerOne := one_shiftLeft_units 12
  obtain ⟨-, hpositive, ⟨hsignificand, hscale⟩ | ⟨hsignificand, hcarry, hscale⟩⟩ :=
    parts_ofInt hlow hhigh
  · rw [units, hpositive, if_neg Bool.false_ne_true, Int.one_mul, hsignificand, hscale,
      shiftLeft_eq_mul, hstep]
  · rw [units, hpositive, if_neg Bool.false_ne_true, Int.one_mul, hsignificand, hscale,
      shiftLeft_eq_mul, hdouble, hcarry,
      show 4096 * unitsPerOne = 2 * (2048 * unitsPerOne) by omega, ← Nat.mul_assoc,
      Nat.mul_comm leadingWeight]

end Large

/-- An integer beyond 64 bits with sign becomes the nearest double. -/
theorem isNearest_ofInt {n : Int} (hlow : integerBound ≤ n) (hhigh : n < 2 * integerBound) :
    (ofInt n).IsNearest n := by
  obtain ⟨m, rfl⟩ := Int.eq_ofNat_of_zero_le (Int.le_trans (by decide) hlow)
  have hleast : 2048 * leadingWeight ≤ m := by
    rw [integerBound] at hlow
    rw [leadingWeight]
    omega
  have hmost : m < 4096 * leadingWeight := by
    rw [integerBound] at hhigh
    rw [leadingWeight]
    omega
  have hstep : 0 < 2048 * unitsPerOne := Nat.mul_pos (by decide) unitsPerOne_pos
  have hunits := units_ofInt hleast hmost
  have hnearest := roundDiv_nearest (m * unitsPerOne) hstep
  rw [← largeSignificand] at hnearest
  -- Below the grid every number is further away than the least number of the grid.
  have hgrid : leadingWeight * (2048 * unitsPerOne) ≤ m * unitsPerOne := by
    rw [← Nat.mul_assoc, Nat.mul_comm leadingWeight]
    exact Nat.mul_le_mul_right _ hleast
  have hbelow : ∀ y : Binary64, y.units < (leadingWeight * (2048 * unitsPerOne) : Nat) →
      (ofInt m).distance m < y.distance m := by
    intro y hy
    have hleading := (hnearest leadingWeight).1
    rw [distance, distance, hunits, ← Int.natCast_mul]
    generalize largeSignificand m * (2048 * unitsPerOne) = rounded at hleading
    generalize leadingWeight * (2048 * unitsPerOne) = least at hleading hgrid hy
    generalize m * unitsPerOne = value at hleading hgrid
    omega
  refine ⟨(parts_ofInt hleast hmost).1, ?_, ?_⟩
  · intro y _
    rcases units_cases y with ⟨k, hk⟩ | hy
    · rw [distance, distance, hunits, hk]
      exact (hnearest k).1
    · exact Nat.le_of_lt (hbelow y hy)
  · intro y _ htie
    rcases units_cases y with ⟨k, hk⟩ | hy
    · rw [distance, distance, hunits, hk] at htie
      rcases (hnearest k).2 htie with rfl | heven
      · exact .inl (hk.trans hunits.symm)
      · obtain ⟨-, -, ⟨hsignificand, -⟩ | ⟨hsignificand, -, -⟩⟩ := parts_ofInt hleast hmost
        · exact .inr (by rw [hsignificand]; exact heven)
        · exact .inr (by rw [hsignificand, leadingWeight])
    · exact absurd htie (Nat.ne_of_gt (hbelow y hy))

end ObjectGraph.Binary64
