import MiniPascal.Value.Arithmetic
import Mathlib.Algebra.Ring.Int.Defs

/-!
# Integer arithmetic

What the operations on two integers are worth in `ℤ`. Sums, differences, products and negations are
exact, or overflow. Of the two divisions, only the quotient can overflow, and only for the least
integer by `-1`; the remainder is moved by the divisor when their signs differ, which never leaves
the integers, as the two then lie on either side of zero.
-/

namespace MiniPascal

namespace Value

variable {a b : Int64}

/-- The numbers that are integers of the language. -/
def Fits (n : Int) : Prop := minInteger ≤ n ∧ n ≤ maxInteger

/-- An operation with the result `n`: it returns `n` if that is an integer of the language, and
overflows if it is not. -/
structure Exactly (n : Int) (x : Except ArithmeticFault Value) : Prop where
  of_fits : Fits n → ∃ m : Int64, x = .ok (.integer m) ∧ m.toInt = n
  of_not_fits : ¬ Fits n → x = .error .overflow

theorem fits_toInt (a : Int64) : Fits a.toInt :=
  ⟨Int64.le_toInt a, Int.lt_add_one_iff.mp (Int64.toInt_lt a)⟩

theorem exactly_ofInt (n : Int) : Exactly n (ofInt n) := by
  constructor
  · intro h
    refine ⟨Int64.ofInt n, if_pos h, ?_⟩
    exact Int64.toInt_ofInt_of_le h.1 (Int.lt_add_one_iff.mpr h.2)
  · intro h
    exact if_neg h

theorem ofInt_eq_error_iff {n : Int} {e : ArithmeticFault} :
    ofInt n = .error e ↔ e = .overflow ∧ ¬ Fits n := by
  by_cases h : Fits n
  · obtain ⟨m, hm, -⟩ := (exactly_ofInt n).of_fits h
    simp [hm, h]
  · simp [(exactly_ofInt n).of_not_fits h, h, eq_comm]

theorem toInt_ne_zero (h : b ≠ 0) : b.toInt ≠ 0 :=
  fun h' ↦ h (Int64.toInt_inj.mp h')

/-! ## Quotients -/

/-- The quotient `a / b` without its fraction: a multiple of `b` that does not go beyond `a`, and
falls short of it by less than `b`. -/
structure IsTruncatedQuotient (a b q : Int) : Prop where
  natAbs_mul_le : (q * b).natAbs ≤ a.natAbs
  natAbs_sub_lt : (a - q * b).natAbs < b.natAbs

theorem isTruncatedQuotient_tdiv {m n : Int} (h : n ≠ 0) :
    IsTruncatedQuotient m n (m.tdiv n) := by
  constructor
  · rw [Int.natAbs_mul, Int.natAbs_tdiv]
    exact Nat.div_mul_le_self _ _
  · have hrest : m - m.tdiv n * n = m.tmod n := by
      have := Int.mul_tdiv_add_tmod m n
      rw [mul_comm]
      omega
    rw [hrest, Int.natAbs_tmod]
    exact Nat.mod_lt _ (Int.natAbs_pos.mpr h)

/-- A quotient is no greater than what was divided, so it leaves the integers only where it is the
least of them with its sign changed. -/
theorem fits_tdiv_iff (h : b ≠ 0) :
    Fits (a.toInt.tdiv b.toInt) ↔ ¬ (a = Int64.minValue ∧ b = -1) := by
  have ha := fits_toInt a
  have hmin : a = Int64.minValue ↔ a.toInt = minInteger := Int64.toInt_inj.symm
  simp only [Fits, minInteger, maxInteger] at ha hmin ⊢
  by_cases hneg : b = -1
  · subst hneg
    have hquotient : a.toInt.tdiv (-1 : Int64).toInt = -a.toInt := by
      rw [show (-1 : Int64).toInt = -1 from rfl, Int.tdiv_neg, Int.tdiv_one]
    rw [hquotient, hmin, and_iff_left rfl]
    omega
  · by_cases hone : b.toInt = 1
    · rw [hone, Int.tdiv_one]
      simp [hneg, ha]
    · -- any other divisor at least halves the magnitude
      have hnegone : b.toInt ≠ -1 := fun h' ↦ hneg (Int64.toInt_inj.mp h')
      have hzero := toInt_ne_zero h
      have hhalf : (a.toInt.tdiv b.toInt).natAbs ≤ a.toInt.natAbs / 2 := by
        rw [Int.natAbs_tdiv]
        exact Nat.div_le_div_left (by omega) (by decide)
      simp only [hneg, and_false, not_false_eq_true, iff_true]
      omega

/-! ## Remainders -/

/-- The remainder of `a` by `b` that lies between zero and `b`. -/
structure IsModulus (a b r : Int) : Prop where
  dvd_sub : b ∣ a - r
  between : 0 ≤ r ∧ r < b ∨ b < r ∧ r ≤ 0

theorem IsModulus.unique {m n r r' : Int} (h : IsModulus m n r) (h' : IsModulus m n r') :
    r = r' := by
  have hdvd : n ∣ r - r' := by
    have := Int.dvd_sub h'.dvd_sub h.dvd_sub
    rwa [sub_sub_sub_cancel_left] at this
  have hlt : (r - r').natAbs < n.natAbs := by
    have := h.between
    have := h'.between
    omega
  have := Int.eq_zero_of_dvd_of_natAbs_lt_natAbs hdvd hlt
  omega

/-- The test on machine integers that moves a remainder, as one on numbers. -/
theorem remainder_eq_ite (a b : Int64) :
    remainder a b =
      if a.toInt.tmod b.toInt ≠ 0 ∧ ¬ (a.toInt.tmod b.toInt < 0 ↔ b.toInt < 0) then
        ofInt (a.toInt.tmod b.toInt + b.toInt)
      else .ok (.integer (a % b)) := by
  have hzero : a % b = 0 ↔ a.toInt.tmod b.toInt = 0 := by
    rw [← Int64.toInt_mod]
    exact Int64.toInt_inj.symm
  simp only [remainder, bne_iff_ne, ne_eq, Bool.and_eq_true, decide_eq_decide, hzero,
    Int64.lt_iff_toInt_lt, Int64.toInt_mod, Int64.toInt_zero]

/-- A remainder whose sign is not that of the divisor is moved over zero, and so it neither leaves
the integers nor reaches the divisor. -/
theorem exists_remainder (h : b ≠ 0) :
    ∃ r : Int64, remainder a b = .ok (.integer r) ∧ IsModulus a.toInt b.toInt r.toInt := by
  have hdvd : b.toInt ∣ a.toInt - a.toInt.tmod b.toInt :=
    ⟨a.toInt.tdiv b.toInt, by have := Int.mul_tdiv_add_tmod a.toInt b.toInt; omega⟩
  have hlt : (a.toInt.tmod b.toInt).natAbs < b.toInt.natAbs := by
    rw [Int.natAbs_tmod]
    exact Nat.mod_lt _ (Int.natAbs_pos.mpr (toInt_ne_zero h))
  have hb := fits_toInt b
  rw [remainder_eq_ite]
  by_cases hmove : a.toInt.tmod b.toInt ≠ 0 ∧ ¬ (a.toInt.tmod b.toInt < 0 ↔ b.toInt < 0)
  · rw [if_pos hmove]
    have hfits : Fits (a.toInt.tmod b.toInt + b.toInt) := by
      simp only [Fits, minInteger, maxInteger] at hb ⊢
      omega
    obtain ⟨r, hr, hvalue⟩ := (exactly_ofInt _).of_fits hfits
    refine ⟨r, hr, ?_, ?_⟩
    · rw [hvalue, ← sub_sub]
      exact Int.dvd_sub hdvd (Int.dvd_refl _)
    · omega
  · rw [if_neg hmove]
    refine ⟨a % b, rfl, ?_, ?_⟩
    · rwa [Int64.toInt_mod]
    · rw [Int64.toInt_mod]
      omega

/-! ## The operations -/

theorem divisor_integer (b : Int64) :
    divisor (.integer b) = if b = 0 then .error .divisionByZero else .ok () := by
  simp [divisor, isZero]

theorem integerQuotient_of_ne_zero (h : b ≠ 0) :
    integerQuotient (.integer a) (.integer b) = ofInt (a.toInt.tdiv b.toInt) := by
  rw [integerQuotient, divisor_integer, if_neg h]
  rfl

theorem modulo_of_ne_zero (h : b ≠ 0) :
    modulo (.integer a) (.integer b) = remainder a b := by
  rw [modulo, divisor_integer, if_neg h]
  rfl

/-- Only the test of the divisor reports a division by zero, if nothing behind it does. -/
theorem divisor_bind_eq_divisionByZero_iff {x : Except ArithmeticFault Value}
    (h : x ≠ .error .divisionByZero) :
    (do divisor (.integer b); x) = .error .divisionByZero ↔ b = 0 := by
  rw [divisor_integer]
  by_cases hb : b = 0
  · rw [if_pos hb]
    exact iff_of_true rfl hb
  · rw [if_neg hb]
    exact iff_of_false h hb

theorem integerQuotient_eq_divisionByZero_iff :
    integerQuotient (.integer a) (.integer b) = .error .divisionByZero ↔ b = 0 := by
  apply divisor_bind_eq_divisionByZero_iff
  rw [ne_eq, ofInt_eq_error_iff]
  simp

theorem modulo_eq_divisionByZero_iff :
    modulo (.integer a) (.integer b) = .error .divisionByZero ↔ b = 0 := by
  apply divisor_bind_eq_divisionByZero_iff
  change remainder a b ≠ _
  rw [remainder_eq_ite]
  split
  · rw [ne_eq, ofInt_eq_error_iff]
    simp
  · simp

theorem integerQuotient_eq_overflow_iff (h : b ≠ 0) :
    integerQuotient (.integer a) (.integer b) = .error .overflow ↔
      a = Int64.minValue ∧ b = -1 := by
  rw [integerQuotient_of_ne_zero h, ofInt_eq_error_iff, fits_tdiv_iff h, not_not,
    and_iff_right rfl]

theorem exists_integerQuotient (h : b ≠ 0) (hfits : ¬ (a = Int64.minValue ∧ b = -1)) :
    ∃ q : Int64, integerQuotient (.integer a) (.integer b) = .ok (.integer q) ∧
      IsTruncatedQuotient a.toInt b.toInt q.toInt := by
  rw [integerQuotient_of_ne_zero h]
  obtain ⟨q, hq, hvalue⟩ := (exactly_ofInt _).of_fits ((fits_tdiv_iff h).mpr hfits)
  refine ⟨q, hq, ?_⟩
  rw [hvalue]
  exact isTruncatedQuotient_tdiv (toInt_ne_zero h)

/-- The integer operations are those of `ℤ`, as far as the integers of the language go. -/
theorem integer_operations (a b : Int64) :
    Exactly (a.toInt + b.toInt) (add (.integer a) (.integer b)) ∧
    Exactly (a.toInt - b.toInt) (sub (.integer a) (.integer b)) ∧
    Exactly (a.toInt * b.toInt) (mul (.integer a) (.integer b)) ∧
    Exactly (-a.toInt) (neg (.integer a)) ∧
    (integerQuotient (.integer a) (.integer b) = .error .divisionByZero ↔ b = 0) ∧
    (modulo (.integer a) (.integer b) = .error .divisionByZero ↔ b = 0) ∧
    (b ≠ 0 →
      (integerQuotient (.integer a) (.integer b) = .error .overflow ↔
        a = Int64.minValue ∧ b = -1) ∧
      (¬ (a = Int64.minValue ∧ b = -1) → ∃ q : Int64,
        integerQuotient (.integer a) (.integer b) = .ok (.integer q) ∧
        IsTruncatedQuotient a.toInt b.toInt q.toInt) ∧
      ∃ r : Int64, modulo (.integer a) (.integer b) = .ok (.integer r) ∧
        IsModulus a.toInt b.toInt r.toInt ∧
        ∀ r' : Int, IsModulus a.toInt b.toInt r' → r' = r.toInt) := by
  refine ⟨exactly_ofInt _, exactly_ofInt _, exactly_ofInt _, exactly_ofInt _,
    integerQuotient_eq_divisionByZero_iff, modulo_eq_divisionByZero_iff, fun h ↦ ?_⟩
  refine ⟨integerQuotient_eq_overflow_iff h, exists_integerQuotient h, ?_⟩
  obtain ⟨r, hr, hmodulus⟩ := exists_remainder (a := a) h
  rw [modulo_of_ne_zero h]
  exact ⟨r, hr, hmodulus, fun r' h' ↦ h'.unique hmodulus⟩

/-- The least integer by `-1`: the quotient is one beyond the greatest integer, while the remainder
is zero, as everything is divisible by `-1`. -/
theorem integer_operations_minValue :
    integerQuotient (.integer Int64.minValue) (.integer (-1)) = .error .overflow ∧
    ∃ r : Int64, modulo (.integer Int64.minValue) (.integer (-1)) = .ok (.integer r) ∧
      IsModulus minInteger (-1) r.toInt := by
  obtain ⟨-, -, -, -, -, -, h⟩ := integer_operations Int64.minValue (-1)
  obtain ⟨hquotient, -, r, hr, hmodulus, -⟩ := h (by decide)
  exact ⟨hquotient.mpr ⟨rfl, rfl⟩, r, hr, hmodulus⟩

end Value

end MiniPascal
