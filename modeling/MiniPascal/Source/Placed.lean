/-!
# Placed characters

The source is a list of characters, each with the byte offset it starts at. A text read from UTF-8
gives every character the offset after the bytes of the ones before it.

Offsets are numbers without a bound. Kept in 32 bits, they are the same for the sources that are
shorter than 4 GiB, and these are the sources that the theory speaks about (see
`Scanner.offsets_lt_of_size_lt`).
-/

namespace MiniPascal

/-- A character of the source and the byte offset it starts at. -/
structure Placed where
  offset : Nat
  char : Char
  deriving DecidableEq, Repr

namespace Placed

/-- The byte offset just after the character. -/
def stop (p : Placed) : Nat := p.offset + p.char.utf8Size

/-- Characters laid out one after the other from a given offset. -/
def layOut (offset : Nat) : List Char → List Placed
  | [] => []
  | c :: cs => ⟨offset, c⟩ :: layOut (offset + c.utf8Size) cs

/-- The characters of a text, from offset zero. -/
def ofString (s : String) : List Placed := layOut 0 s.toList

/-- The byte offset after the last character; zero for the empty source. -/
def endOffset (source : List Placed) : Nat :=
  match source.getLast? with
  | some p => p.stop
  | none => 0

@[simp] theorem map_char_layOut (offset : Nat) (cs : List Char) :
    (layOut offset cs).map Placed.char = cs := by
  induction cs generalizing offset with
  | nil => rfl
  | cons c cs ih => simp [layOut, ih]

@[simp] theorem length_layOut (offset : Nat) (cs : List Char) :
    (layOut offset cs).length = cs.length := by
  rw [← List.length_map Placed.char, map_char_layOut]

theorem le_offset_of_mem_layOut {offset : Nat} {cs : List Char} {p : Placed}
    (h : p ∈ layOut offset cs) : offset ≤ p.offset := by
  induction cs generalizing offset with
  | nil => simp [layOut] at h
  | cons c cs ih =>
    rcases List.mem_cons.1 h with rfl | h
    · exact Nat.le_refl _
    · exact Nat.le_trans (Nat.le_add_right ..) (ih h)

/-- Each character of a text starts before all those after it. -/
theorem pairwise_layOut (offset : Nat) (cs : List Char) :
    (layOut offset cs).Pairwise fun p q ↦ p.offset < q.offset := by
  induction cs generalizing offset with
  | nil => exact List.Pairwise.nil
  | cons c cs ih =>
    refine List.pairwise_cons.2 ⟨fun q hq ↦ ?_, ih _⟩
    have := le_offset_of_mem_layOut hq
    have := c.utf8Size_pos
    simp only
    omega

end Placed

end MiniPascal
