import MiniPascal.Proofs.Segmentation
import MiniPascal.Proofs.Tracking

/-!
# Progress of a scanner

One call of a scanner comes to the end of its source, to a character that starts no token, or past a
piece of text. In the first two cases it stays there: however often it is called again, it returns
the same. In the third it has moved on, and stands just behind the piece, also if this is a number
that is too large. So a loop that calls it up to the end or a fault is over after at most one call
more than there are characters left.

The characters of a source need not stand one behind the other for this. What is read depends on
them and not on their offsets (`readToken_map`), so what is known about texts carries over.
-/

namespace MiniPascal

open Alphabet Placed

/-! ## Characters at any offset -/

/-- The reading with its remaining characters elsewhere. -/
def Reading.relocate (f : Placed → Placed) : Reading → Reading
  | .token t rest => .token t (rest.map f)
  | .integerTooLarge rest => .integerTooLarge (rest.map f)
  | .unrecognized => .unrecognized

section
variable {f : Placed → Placed} (hf : ∀ p, (f p).char = p.char)
include hf

theorem map_char_map (ps : List Placed) : (ps.map f).map Placed.char = ps.map Placed.char := by
  simp [hf]

theorem readWord_map (ps : List Placed) : readWord (ps.map f) = (readWord ps).relocate f := by
  simp only [readWord, Reading.relocate, List.takeWhile_map, List.dropWhile_map, Function.comp_def,
    hf, map_char_map hf]

omit hf in
theorem relocate_integerReading (digits : List Char) (rest : List Placed) :
    (integerReading digits rest).relocate f = integerReading digits (rest.map f) := by
  rw [integerReading, integerReading]
  split <;> rfl

theorem readNumber_map (ps : List Placed) : readNumber (ps.map f) = (readNumber ps).relocate f := by
  simp only [readNumber, List.takeWhile_map, List.dropWhile_map, Function.comp_def, hf,
    map_char_map hf]
  generalize ps.dropWhile (fun p ↦ p.char.isDigit) = rest
  rcases rest with _ | ⟨point, _ | ⟨digit, more⟩⟩
  · exact (relocate_integerReading _ _).symm
  · exact (relocate_integerReading _ _).symm
  · simp only [List.map_cons, hf]
    by_cases hpoint : point.char = '.' ∧ digit.char.isDigit = true
    · simp only [if_pos hpoint, Reading.relocate, ← List.map_cons, List.takeWhile_map,
        List.dropWhile_map, Function.comp_def, hf, map_char_map hf]
    · simp only [if_neg hpoint, relocate_integerReading, List.map_cons]

theorem readSymbol_map (p : Placed) (ps : List Placed) :
    readSymbol (f p) (ps.map f) = (readSymbol p ps).relocate f := by
  have hhead : (ps.map f).head?.map Placed.char = ps.head?.map Placed.char := by
    cases ps with
    | nil => rfl
    | cons q ps => simp [hf]
  rw [readSymbol, readSymbol, hf, hhead]
  cases symbol? p.char (ps.head?.map Placed.char) with
  | none => rfl
  | some s => simp [Reading.relocate]

/-- **What is read depends on the characters.** -/
theorem readToken_map (p : Placed) (ps : List Placed) :
    readToken (f p) (ps.map f) = (readToken p ps).relocate f := by
  rw [readToken, readToken, hf, ← List.map_cons, readNumber_map hf, readWord_map hf,
    readSymbol_map hf]
  by_cases hdigit : p.char.isDigit = true
  · rw [if_pos hdigit, if_pos hdigit]
  · by_cases hletter : isLetter p.char = true
    · simp only [if_neg hdigit, if_pos hletter]
    · simp only [if_neg hdigit, if_neg hletter]

end

/-- The characters, all at the front. -/
def Placed.unplace (p : Placed) : Placed := ⟨0, p.char⟩

theorem Placed.char_unplace (p : Placed) : p.unplace.char = p.char := rfl

theorem Placed.map_unplace_eq_iff {ps qs : List Placed} :
    ps.map unplace = qs.map unplace ↔ ps.map Placed.char = qs.map Placed.char := by
  have hmap (ps : List Placed) : ps.map unplace = (ps.map Placed.char).map (Placed.mk 0) := by
    rw [List.map_map]
    rfl
  constructor
  · intro h
    rw [← map_char_map char_unplace ps, h, map_char_map char_unplace]
  · intro h
    rw [hmap, hmap, h]

/-- The reading is of the longest piece at the front of some characters, wherever they stand. -/
def ReadsPlaced (ps : List Placed) : Reading → Prop
  | .token t rest =>
    ∃ piece, ps = piece ++ rest ∧ Spells (piece.map Placed.char) t ∧
      Longest (piece.map Placed.char) (ps.map Placed.char)
  | .integerTooLarge rest =>
    ∃ digits, ps = digits ++ rest ∧ IsDigitRow (digits.map Placed.char) ∧
      Value.maxInteger < decimalValue (digits.map Placed.char) ∧
      Longest (digits.map Placed.char) (ps.map Placed.char)
  | .unrecognized => ∀ piece, piece <+: ps.map Placed.char → ¬IsPiece piece

/-- What remains of some characters is in front of the same characters as what remains of their
text. -/
theorem exists_front {ps rest : List Placed} (h : rest <:+ ps) {piece after : List Char}
    (hcut : ps.map Placed.char = piece ++ after) (hrest : rest.map Placed.char = after) :
    ∃ front, ps = front ++ rest ∧ front.map Placed.char = piece := by
  obtain ⟨front, rfl⟩ := h
  rw [List.map_append, hrest] at hcut
  exact ⟨front, rfl, List.append_cancel_right hcut⟩

/-- A reading of a text is one of its characters elsewhere. -/
theorem ReadsFrom.readsPlaced {ps : List Placed} {r r' : Reading}
    (h : ReadsFrom 0 (ps.map Placed.char) r') (hsame : r.relocate unplace = r'.relocate unplace)
    (hsuffix : r.rest ps <:+ ps) : ReadsPlaced ps r := by
  cases r with
  | token t rest =>
    cases r' with
    | token t' rest' =>
      obtain ⟨rfl, hrest⟩ := Reading.token.inj hsame
      obtain ⟨piece, after, hcut, hspells, hlongest, rfl⟩ := h
      rw [map_unplace_eq_iff, map_char_layOut] at hrest
      obtain ⟨front, hfront, rfl⟩ := exists_front hsuffix hcut hrest
      exact ⟨front, hfront, hspells, hlongest⟩
    | _ => cases hsame
  | integerTooLarge rest =>
    cases r' with
    | integerTooLarge rest' =>
      have hrest := Reading.integerTooLarge.inj hsame
      obtain ⟨digits, after, hcut, hdigits, hlt, hlongest, rfl⟩ := h
      rw [map_unplace_eq_iff, map_char_layOut] at hrest
      obtain ⟨front, hfront, rfl⟩ := exists_front hsuffix hcut hrest
      exact ⟨front, hfront, hdigits, hlt, hlongest⟩
    | _ => cases hsame
  | unrecognized =>
    cases r' with
    | unrecognized => exact h
    | _ => cases hsame

/-- **The longest piece is read**, wherever its characters stand. -/
theorem readsPlaced_readToken (p : Placed) (ps : List Placed) :
    ReadsPlaced (p :: ps) (readToken p ps) := by
  have hread := readsFrom_readToken 0 p.char (ps.map Placed.char)
  rw [← List.map_cons] at hread
  refine hread.readsPlaced ?_ (readToken_rest_suffix p ps)
  have hplace : (layOut (0 + p.char.utf8Size) (ps.map Placed.char)).map unplace =
      ps.map unplace := by
    rw [map_unplace_eq_iff, map_char_layOut]
  rw [← readToken_map char_unplace, ← readToken_map char_unplace, hplace]
  rfl

/-- Layout, with the rest of a comment in front of it if one is open. -/
def IsLayoutFrom : Option Nat → List Char → Prop
  | none, cs => IsLayout cs
  | some _, cs => ∃ body layout, cs = body ++ '}' :: layout ∧ '}' ∉ body ∧ IsLayout layout

/-- What is skipped in front of a character is layout. -/
theorem exists_gap_of_skipLayout {opened : Option Nat} {rest ps : List Placed} {p : Placed}
    (h : (skipLayout opened rest).2 = p :: ps) :
    ∃ gap, rest = gap ++ p :: ps ∧ IsLayoutFrom opened (gap.map Placed.char) := by
  induction rest generalizing opened with
  | nil => cases opened <;> cases h
  | cons q qs ih =>
    cases opened with
    | some start =>
      rw [skipLayout] at h
      by_cases hclose : q.char = '}'
      · rw [if_pos hclose] at h
        obtain ⟨gap, rfl, hgap⟩ := ih h
        exact ⟨q :: gap, rfl, [], gap.map Placed.char, by simp [hclose], List.not_mem_nil, hgap⟩
      · rw [if_neg hclose] at h
        obtain ⟨gap, rfl, body, layout, hcut, hbody, hlayout⟩ := ih h
        refine ⟨q :: gap, rfl, q.char :: body, layout, by simp [hcut], ?_, hlayout⟩
        simp [hbody, Ne.symm hclose]
    | none =>
      rw [skipLayout] at h
      by_cases hopen : q.char = '{'
      · rw [if_pos hopen] at h
        obtain ⟨gap, rfl, body, layout, hcut, hbody, hlayout⟩ := ih h
        refine ⟨q :: gap, rfl, ?_⟩
        rw [List.map_cons, hcut, hopen]
        exact .comment hbody hlayout
      · rw [if_neg hopen] at h
        by_cases hblank : isBlank q.char = true
        · rw [if_pos hblank] at h
          obtain ⟨gap, rfl, hgap⟩ := ih h
          exact ⟨q :: gap, rfl, .blank hblank hgap⟩
        · rw [if_neg hblank] at h
          exact ⟨[], h, .nil⟩

/-! ## One call -/

namespace Scanner

variable {s : Scanner}

/-- The scanner after some calls. -/
def after (s : Scanner) : Nat → Scanner
  | 0 => s
  | n + 1 => (s.after n).next.2

/-- All further calls return what this one does, and leave the scanner where this one does. -/
def Rests (s : Scanner) : Prop := ∀ n, (s.after (n + 1)).next = s.next

/-- The end of the source is returned, now and from now on. -/
def Ends (s : Scanner) : Prop :=
  s.next.1 = .ok ⟨.endOfInput, ⟨s.endOffset, s.endOffset⟩⟩ ∧
    s.next.2.cursor = s.source.length ∧ s.Rests

/-- A character behind the layout starts no token, and the scanner stays in front of it. -/
def Sticks (s : Scanner) : Prop :=
  ∃ gap p rest, s.rest = gap ++ p :: rest ∧ IsLayout (gap.map Placed.char) ∧
    (∀ piece, piece <+: (p :: rest).map Placed.char → ¬IsPiece piece) ∧
    s.next.1 = .error ⟨.unrecognized p.char, ⟨p.offset, p.stop⟩⟩ ∧ s.next.2.rest = p :: rest ∧
    s.Rests

/-- The longest piece behind the layout is read, and the scanner moves past it: a token, or a number
that is too large for one. -/
def Advances (s : Scanner) : Prop :=
  s.cursor < s.next.2.cursor ∧
    ∃ gap piece, s.rest = gap ++ (piece ++ s.next.2.rest) ∧ IsLayout (gap.map Placed.char) ∧
      Longest (piece.map Placed.char) ((piece ++ s.next.2.rest).map Placed.char) ∧
      ((∃ t, Spells (piece.map Placed.char) t ∧
          s.next.1 =
            .ok ⟨t, ⟨offsetAt s.source (piece ++ s.next.2.rest), s.next.2.offset⟩⟩) ∨
        (IsDigitRow (piece.map Placed.char) ∧
          Value.maxInteger < decimalValue (piece.map Placed.char) ∧
          s.next.1 = .error ⟨.integerTooLarge,
            ⟨offsetAt s.source (piece ++ s.next.2.rest), s.next.2.offset⟩⟩))

theorem next_of_rest_eq_nil (h : s.rest = []) :
    s.next = (.ok ⟨.endOfInput, ⟨s.endOffset, s.endOffset⟩⟩, s) := by
  obtain ⟨source, rest, openComment, suffix⟩ := s
  obtain rfl : rest = [] := h
  rfl

theorem next_of_unrecognized {p : Placed} {ps : List Placed} (h : s.rest = p :: ps)
    (hlayout : skipLayout none (p :: ps) = (none, p :: ps))
    (hread : readToken p ps = .unrecognized) :
    s.next = (.error ⟨.unrecognized p.char, ⟨p.offset, p.stop⟩⟩, s) := by
  obtain ⟨source, rest, openComment, suffix⟩ := s
  obtain rfl : rest = p :: ps := h
  simp only [next, scan, hlayout, hread]

/-- **A scanner rests** once a second call does what the first did. -/
theorem rests_of_next (h : s.next.2.next = s.next) : s.Rests := by
  intro n
  induction n with
  | zero => exact h
  | succ n ih =>
    have hafter : s.after (n + 2) = s.next.2 := congrArg Prod.snd ih
    rw [hafter, h]

theorem cursor_lt (h : s.next.2.rest.length < s.rest.length) : s.cursor < s.next.2.cursor := by
  have hle := s.suffix.length_le
  have hsource : s.next.2.source = s.source := rfl
  rw [cursor, cursor, hsource]
  omega

theorem ends_of_skipLayout (h : (skipLayout none s.rest).2 = []) : s.Ends := by
  have hscan : (scan s.source s.rest).result =
        .ok ⟨.endOfInput, ⟨s.endOffset, s.endOffset⟩⟩ ∧ (scan s.source s.rest).rest = [] := by
    simp [scan, h, endOffset]
  have hrest : s.next.2.rest = [] := hscan.2
  refine ⟨hscan.1, ?_, rests_of_next ?_⟩
  · rw [cursor, hrest]
    rfl
  · rw [next_of_rest_eq_nil hrest]
    exact Prod.ext hscan.1.symm rfl

section
variable {p : Placed} {ps : List Placed} (h : (skipLayout none s.rest).2 = p :: ps)
include h

theorem sticks_of_unrecognized (hread : readToken p ps = .unrecognized) : s.Sticks := by
  have hscan : (scan s.source s.rest).result =
      .error ⟨.unrecognized p.char, ⟨p.offset, p.stop⟩⟩ ∧
        (scan s.source s.rest).rest = p :: ps := by
    simp [scan, h, hread]
  have hrest : s.next.2.rest = p :: ps := hscan.2
  obtain ⟨gap, hcut, hgap⟩ := exists_gap_of_skipLayout h
  have hnone := readsPlaced_readToken p ps
  rw [hread] at hnone
  refine ⟨gap, p, ps, hcut, hgap, hnone, hscan.1, hrest, rests_of_next ?_⟩
  rw [next_of_unrecognized hrest (skipLayout_skipLayout h) hread]
  exact Prod.ext hscan.1.symm rfl

/-- A piece that is read is not empty, so the scanner has moved on. -/
theorem advances_of_piece {piece : List Placed} (hcut : p :: ps = piece ++ s.next.2.rest)
    (hpiece : IsPiece (piece.map Placed.char))
    (hlongest : Longest (piece.map Placed.char) ((p :: ps).map Placed.char))
    (hresult : (∃ t, Spells (piece.map Placed.char) t ∧
        s.next.1 = .ok ⟨t, ⟨p.offset, s.next.2.offset⟩⟩) ∨
      (IsDigitRow (piece.map Placed.char) ∧
        Value.maxInteger < decimalValue (piece.map Placed.char) ∧
        s.next.1 = .error ⟨.integerTooLarge, ⟨p.offset, s.next.2.offset⟩⟩)) : s.Advances := by
  obtain ⟨gap, hgap, hlayout⟩ := exists_gap_of_skipLayout h
  have hne : piece.length ≠ 0 := by simpa using hpiece.ne_nil
  have hstart : p.offset = offsetAt s.source (piece ++ s.next.2.rest) := by
    rw [← hcut]
    rfl
  rw [hstart] at hresult
  rw [hcut] at hgap hlongest
  refine ⟨cursor_lt ?_, gap, piece, hgap, hlayout, hlongest, hresult⟩
  rw [hgap, List.length_append, List.length_append]
  omega

theorem advances_of_token {t : Token} {rest : List Placed}
    (hread : readToken p ps = .token t rest) : s.Advances := by
  have hscan : (scan s.source s.rest).result = .ok ⟨t, ⟨p.offset, offsetAt s.source rest⟩⟩ ∧
      (scan s.source s.rest).rest = rest := by
    simp [scan, h, hread]
  obtain ⟨hresult, rfl⟩ := hscan
  have hpiece := readsPlaced_readToken p ps
  rw [hread] at hpiece
  obtain ⟨piece, hcut, hspells, hlongest⟩ := hpiece
  exact advances_of_piece h hcut (.inl ⟨t, hspells⟩) hlongest (.inl ⟨t, hspells, hresult⟩)

theorem advances_of_integerTooLarge {rest : List Placed}
    (hread : readToken p ps = .integerTooLarge rest) : s.Advances := by
  have hscan : (scan s.source s.rest).result =
      .error ⟨.integerTooLarge, ⟨p.offset, offsetAt s.source rest⟩⟩ ∧
        (scan s.source s.rest).rest = rest := by
    simp [scan, h, hread]
  obtain ⟨hresult, rfl⟩ := hscan
  have hpiece := readsPlaced_readToken p ps
  rw [hread] at hpiece
  obtain ⟨digits, hcut, hdigits, hlt, hlongest⟩ := hpiece
  exact advances_of_piece h hcut (.inr hdigits) hlongest (.inr ⟨hdigits, hlt, hresult⟩)

end

/-- **One call**, by what stands behind the layout. -/
theorem next_cases (s : Scanner) : s.Ends ∨ s.Sticks ∨ s.Advances := by
  cases h : (skipLayout none s.rest).2 with
  | nil => exact .inl (ends_of_skipLayout h)
  | cons p ps =>
    right
    cases hread : readToken p ps with
    | token t rest => exact .inr (advances_of_token h hread)
    | integerTooLarge rest => exact .inr (advances_of_integerTooLarge h hread)
    | unrecognized => exact .inl (sticks_of_unrecognized h hread)

theorem Ends.not_sticks (h : s.Ends) : ¬s.Sticks := by
  rintro ⟨gap, p, rest, -, -, -, hresult, -⟩
  cases h.1.symm.trans hresult

theorem Ends.not_advances (h : s.Ends) : ¬s.Advances := by
  rintro ⟨-, gap, piece, -, -, -, ⟨t, hspells, hresult⟩ | ⟨-, -, hresult⟩⟩
  · have hlexeme := Except.ok.inj (h.1.symm.trans hresult)
    exact hspells.ne_endOfInput (congrArg Lexeme.token hlexeme).symm
  · cases h.1.symm.trans hresult

theorem Sticks.not_advances (h : s.Sticks) : ¬s.Advances := by
  obtain ⟨_, p, _, -, -, -, hfault, -⟩ := h
  rintro ⟨-, gap, piece, -, -, -, ⟨t, -, hresult⟩ | ⟨-, -, hresult⟩⟩
  · cases hfault.symm.trans hresult
  · cases hfault.symm.trans hresult

/-! ## Calls in a loop -/

/-- A loop ends with the end of the source or a fault. -/
def IsLast : Except LexicalFault Lexeme → Prop
  | .ok l => l.token = .endOfInput
  | .error _ => True

/-- Calls up to the end of the source or a fault, with what they return and the scanner after
them. -/
inductive Loop : Scanner → List (Except LexicalFault Lexeme) → Scanner → Prop
  | last {s : Scanner} (h : IsLast s.next.1) : Loop s [s.next.1] s.next.2
  | more {s s' : Scanner} {results : List (Except LexicalFault Lexeme)} (h : ¬IsLast s.next.1)
    (hrest : Loop s.next.2 results s') : Loop s (s.next.1 :: results) s'

theorem length_rest_lt (h : ¬IsLast s.next.1) : s.next.2.rest.length < s.rest.length := by
  cases hnext : s.next.1 with
  | error f =>
    rw [hnext] at h
    exact absurd trivial h
  | ok l =>
    rw [hnext] at h
    exact scan_progress hnext h

theorem loop_take {n : Nat} (h : s.rest.length < n) : s.Loop (s.take n).1 (s.take n).2 := by
  induction n generalizing s with
  | zero => cases h
  | succ n ih =>
    cases hnext : s.next.1 with
    | error f =>
      rw [take_of_error hnext, take_snd_of_error hnext, ← hnext]
      exact .last (by rw [hnext]; trivial)
    | ok l =>
      by_cases hl : l.token = .endOfInput
      · rw [take_of_end hnext hl, take_snd_of_end hnext hl, ← hnext]
        exact .last (by rw [hnext]; exact hl)
      · have hmore : ¬IsLast s.next.1 := by
          rw [hnext]
          exact hl
        have hlt := length_rest_lt hmore
        rw [take_of_token hnext hl, take_snd_of_token hnext hl, ← hnext]
        exact .more hmore (ih (by omega))

theorem Loop.unique {results results' : List (Except LexicalFault Lexeme)} {t t' : Scanner}
    (h : s.Loop results t) (h' : s.Loop results' t') : results = results' ∧ t = t' := by
  induction h generalizing results' t' with
  | last hlast =>
    cases h' with
    | last => exact ⟨rfl, rfl⟩
    | more hmore => exact absurd hlast hmore
  | more hmore _ ih =>
    cases h' with
    | last hlast => exact absurd hlast hmore
    | more _ hrest =>
      obtain ⟨rfl, rfl⟩ := ih hrest
      exact ⟨rfl, rfl⟩

theorem loop_iff {results : List (Except LexicalFault Lexeme)} {t : Scanner} :
    s.Loop results t ↔ s.all = (results, t) := by
  have hall : s.Loop s.all.1 s.all.2 := loop_take (Nat.lt_succ_self _)
  constructor
  · intro h
    obtain ⟨hresults, ht⟩ := hall.unique h
    exact Prod.ext hresults ht
  · intro h
    rwa [h] at hall

/-- **A loop is short**, because every call but the last takes a character. -/
theorem Loop.length_le {results : List (Except LexicalFault Lexeme)} {t : Scanner}
    (h : s.Loop results t) : results.length ≤ s.rest.length + 1 := by
  induction h with
  | last => exact Nat.succ_le_succ (Nat.zero_le _)
  | more hmore _ ih =>
    have hlt := length_rest_lt hmore
    rw [List.length_cons]
    omega

theorem length_rest (s : Scanner) : s.rest.length = s.source.length - s.cursor := by
  have hle := s.suffix.length_le
  rw [cursor]
  omega

end Scanner

/-! ## Taking a token -/

namespace Execution

variable {α β : Type}

/-- Where the execution fails, it has left alone all but the scanner. Either the scanner has come to
a lexical fault, or the next token is not one that was expected, and then the scanner was left alone
as well. Warnings are made from the state of a program that has ended, so there are none to keep. -/
def FailsInPlace (x : Execution α) : Prop :=
  ∀ s halt s', x.run s = .error halt s' →
    s'.current = s.current ∧ s'.store = s.store ∧ s'.listing = s.listing ∧
      s'.previousStop = s.previousStop ∧
      ((∃ f, halt = .fault (.ofLexical f) ∧ s.scanner.next = (.error f, s'.scanner)) ∨
        ∃ expected, halt = .fault ⟨.unexpected s.current.token expected, s.current.span⟩ ∧ s' = s)

theorem failsInPlace_step : FailsInPlace step := by
  intro s halt s' h
  cases hnext : s.scanner.next.1 with
  | ok l => cases h.symm.trans (State.At.run_step_of_ok hnext)
  | error f =>
    cases h.symm.trans (State.At.run_step_of_error hnext)
    exact ⟨rfl, rfl, rfl, rfl, .inl ⟨f, rfl, Prod.ext hnext rfl⟩⟩

theorem failsInPlace_unexpected (expected : List String) :
    FailsInPlace (unexpected expected : Execution α) := by
  intro s halt s' h
  cases h
  exact ⟨rfl, rfl, rfl, rfl, .inr ⟨expected, rfl, rfl⟩⟩

namespace FailsInPlace

/-- What follows a step that cannot fail may be done with its result. -/
theorem bind_pure {x : Execution α} (h : x.FailsInPlace) (g : α → β) :
    (x >>= fun a ↦ Pure.pure (g a)).FailsInPlace := by
  intro s halt s' hrun
  rcases run_bind_eq_error_iff.1 hrun with herror | ⟨a, s₁, -, hpure⟩
  · exact h s halt s' herror
  · cases hpure

theorem current {f : Lexeme → Execution α} (h : ∀ l, (f l).FailsInPlace) :
    (Execution.current >>= f).FailsInPlace := by
  intro s halt s' hrun
  rw [run_current_bind] at hrun
  exact h _ s halt s' hrun

end FailsInPlace

theorem failsInPlace_expect (t : Token) : (expect t).FailsInPlace := by
  refine .current fun here ↦ ?_
  by_cases hsame : here.token.same t = true
  · rw [if_pos hsame]
    exact failsInPlace_step.bind_pure _
  · rw [if_neg hsame]
    exact failsInPlace_unexpected _

theorem failsInPlace_identifier : identifier.FailsInPlace := by
  refine .current fun here ↦ ?_
  cases here.token with
  | identifier name => exact failsInPlace_step.bind_pure _
  | _ => exact failsInPlace_unexpected _

end Execution

/-- **Reading makes progress or stays where it is.** One call of a scanner does one thing of three:
it comes to the end of the source and stays there, it comes to a character that starts no token and
stays there, or it moves past the piece that it reads. Calls in a loop up to the end of the source
or a fault are at most one more than there are characters left. Where an execution fails to take a
token, it has changed nothing, except that a scanner that came to a lexical fault is where that left
it. -/
theorem reading_progresses_or_stays :
    (∀ s : Scanner,
      (s.Ends ∨ s.Sticks ∨ s.Advances) ∧
      (¬(s.Ends ∧ s.Sticks) ∧ ¬(s.Ends ∧ s.Advances) ∧ ¬(s.Sticks ∧ s.Advances)) ∧
      (∀ results t, s.Loop results t ↔ s.all = (results, t)) ∧
      s.all.1.length ≤ s.source.length - s.cursor + 1) ∧
    Execution.step.FailsInPlace ∧ (∀ t, (Execution.expect t).FailsInPlace) ∧
      Execution.identifier.FailsInPlace := by
  refine ⟨fun s ↦ ⟨s.next_cases, ?_, fun _ _ ↦ Scanner.loop_iff, ?_⟩, Execution.failsInPlace_step,
    Execution.failsInPlace_expect, Execution.failsInPlace_identifier⟩
  · exact ⟨fun h ↦ h.1.not_sticks h.2, fun h ↦ h.1.not_advances h.2, fun h ↦ h.1.not_advances h.2⟩
  · rw [← s.length_rest]
    exact (Scanner.loop_iff.2 rfl : s.Loop s.all.1 s.all.2).length_le

/-- A number that is too large is left behind, and a character that starts no token is not. -/
theorem reading_progresses_or_stays_at_faults :
    (Scanner.ofString "9223372036854775808 ?").Advances ∧
    (Scanner.ofString "9223372036854775808 ?").next.2.Sticks ∧ (Scanner.ofString " \x7b x").Ends ∧
    ∃ s halt s', State.start (.ofString "x ?") = .ok s ∧
      Execution.step.run s = .error halt s' ∧ s'.current = s.current ∧ s'.scanner.cursor = 2 := by
  obtain ⟨hscanner, hstep, -⟩ := reading_progresses_or_stays
  have hlarge : (Scanner.ofString "9223372036854775808 ?").next.1 =
      .error ⟨.integerTooLarge, ⟨0, 19⟩⟩ := rfl
  have hstuck : (Scanner.ofString "9223372036854775808 ?").next.2.next.1 =
      .error ⟨.unrecognized '?', ⟨20, 21⟩⟩ := rfl
  have hend : (Scanner.ofString " \x7b x").next.1 = .ok ⟨.endOfInput, ⟨4, 4⟩⟩ := rfl
  refine ⟨?_, ?_, ?_, ?_⟩
  · rcases (hscanner (.ofString "9223372036854775808 ?")).1 with h | ⟨_, _, _, -, -, -, h, -⟩ | h
    · cases hlarge.symm.trans h.1
    · cases hlarge.symm.trans h
    · exact h
  · rcases (hscanner (Scanner.ofString "9223372036854775808 ?").next.2).1 with h | h |
      ⟨-, _, _, -, -, -, ⟨_, -, h⟩ | ⟨-, -, h⟩⟩
    · cases hstuck.symm.trans h.1
    · exact h
    · cases hstuck.symm.trans h
    · cases hstuck.symm.trans h
  · rcases (hscanner (.ofString " \x7b x")).1 with h | ⟨_, _, _, -, -, -, h, -⟩ |
      ⟨-, _, _, -, -, -, ⟨t, ht, h⟩ | ⟨-, -, h⟩⟩
    · exact h
    · cases hend.symm.trans h
    · exact absurd (congrArg Lexeme.token (Except.ok.inj (hend.symm.trans h))).symm ht.ne_endOfInput
    · cases hend.symm.trans h
  · exact ⟨_, _, _, rfl, rfl, (hstep _ _ _ rfl).1, by decide +kernel⟩

end MiniPascal
