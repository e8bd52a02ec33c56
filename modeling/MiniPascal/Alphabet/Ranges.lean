/-!
# Sets of characters as ranges of code points

The character classes of the language are sets fixed by the Unicode standard. Each is written as a
list of closed ranges in increasing order, and looked up from the low end: the first range that does
not lie wholly below a code point decides.
-/

namespace MiniPascal.Alphabet

/-- Closed ranges of code points, in increasing order and without overlap. -/
abbrev Ranges := List (Nat × Nat)

/-- Whether a code point lies in one of the ranges. -/
def Ranges.contains : Ranges → Nat → Bool
  | [], _ => false
  | (lo, hi) :: rest, n => if n ≤ hi then decide (lo ≤ n) else Ranges.contains rest n

/-- A code point that is found lies in a range of the list. -/
theorem Ranges.exists_of_contains {rs : Ranges} {n : Nat} (h : rs.contains n = true) :
    ∃ r ∈ rs, r.1 ≤ n ∧ n ≤ r.2 := by
  induction rs with
  | nil => simp [contains] at h
  | cons r rest ih =>
    obtain ⟨lo, hi⟩ := r
    unfold contains at h
    split at h
    · next hle => exact ⟨(lo, hi), by simp, by simpa using h, hle⟩
    · obtain ⟨r, hr, hb⟩ := ih h
      exact ⟨r, List.mem_cons_of_mem _ hr, hb⟩

end MiniPascal.Alphabet
