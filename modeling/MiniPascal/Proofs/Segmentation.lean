import MiniPascal.Proofs.Spelling

/-!
# Texts cut into tokens

A text is cut into pieces with layout between them: blanks and comments. `Segmented` says so without
reading anything: in front of each piece is a gap of layout, each piece is the longest there is, and
the text ends with a gap, which may end in an open comment, or at a piece that is no token.

A text can be cut in one way only, and the scanner does it that way (`segmented_iff_all`). That
the places of the tokens are in order, on whole characters and without overlap is read off from the
cut (`Segmented.ordered`, `Segmented.exists_slice`).
-/

namespace MiniPascal

open Alphabet Placed

/-! ## Layout -/

/-- Blanks and comments. -/
inductive IsLayout : List Char → Prop
  | nil : IsLayout []
  | blank {c : Char} {cs : List Char} (hc : isBlank c) (h : IsLayout cs) : IsLayout (c :: cs)
  | comment {body cs : List Char} (hbody : '}' ∉ body) (h : IsLayout cs) :
    IsLayout ('{' :: (body ++ '}' :: cs))

/-- A character that layout starts with. -/
def startsLayout (c : Char) : Bool := c = '{' || isBlank c

theorem skipLayout_open (start offset : Nat) {body : List Char} (h : '}' ∉ body) :
    skipLayout (some start) (layOut offset body) = (some start, []) := by
  induction body generalizing offset with
  | nil => rfl
  | cons c body ih =>
    rw [List.mem_cons, not_or] at h
    rw [layOut, skipLayout, if_neg (Ne.symm h.1), ih _ h.2]

theorem skipLayout_comment (start offset : Nat) {body : List Char} (h : '}' ∉ body)
    (after : List Char) :
    skipLayout (some start) (layOut offset (body ++ '}' :: after)) =
      skipLayout none (layOut (offset + byteLength (body ++ ['}'])) after) := by
  induction body generalizing offset with
  | nil => rfl
  | cons c body ih =>
    rw [List.mem_cons, not_or] at h
    rw [List.cons_append, layOut, skipLayout, if_neg (Ne.symm h.1), ih _ h.2, List.cons_append,
      byteLength_cons, Nat.add_assoc]

/-- Layout is skipped. -/
theorem IsLayout.skipLayout_append {gap : List Char} (h : IsLayout gap) (offset : Nat)
    (rest : List Char) :
    skipLayout none (layOut offset (gap ++ rest)) =
      skipLayout none (layOut (offset + byteLength gap) rest) := by
  induction h generalizing offset with
  | nil => rfl
  | @blank c cs hc _ ih =>
    have hopen : c ≠ '{' := by
      rintro rfl
      exact absurd hc (by decide)
    rw [List.cons_append, layOut, skipLayout, if_neg hopen, if_pos hc, ih, byteLength_cons,
      Nat.add_assoc]
  | @comment body cs hbody _ ih =>
    rw [List.cons_append, List.append_assoc, List.cons_append, layOut, skipLayout, if_pos rfl,
      skipLayout_comment _ _ hbody, ih]
    simp only [byteLength_cons, byteLength_append, byteLength_nil]
    congr 2
    omega

/-- What does not start layout is not skipped. -/
theorem skipLayout_of_not_startsLayout (offset : Nat) {c : Char} (cs : List Char)
    (h : startsLayout c = false) :
    skipLayout none (layOut offset (c :: cs)) = (none, layOut offset (c :: cs)) := by
  simp only [startsLayout, Bool.or_eq_false_iff, decide_eq_false_iff_not] at h
  rw [layOut, skipLayout, if_neg h.1, if_neg (by simp [h.2])]

/-- What remains of a text after the layout at its front: nothing, an open comment, or a character
that starts no layout. -/
theorem exists_layout (text : List Char) :
    ∃ gap rest, text = gap ++ rest ∧ IsLayout gap ∧
      (rest = [] ∨ (∃ body, rest = '{' :: body ∧ '}' ∉ body) ∨
        ∃ c cs, rest = c :: cs ∧ startsLayout c = false) := by
  match text with
  | [] => exact ⟨[], [], rfl, .nil, .inl rfl⟩
  | c :: cs =>
    by_cases hopen : c = '{'
    · subst hopen
      by_cases hclose : '}' ∈ cs
      · obtain ⟨body, after, rfl, hbody⟩ := List.eq_append_cons_of_mem hclose
        obtain ⟨gap, rest, rfl, hgap, hrest⟩ := exists_layout after
        exact ⟨'{' :: (body ++ '}' :: gap), rest, by simp, .comment hbody hgap, hrest⟩
      · exact ⟨[], '{' :: cs, rfl, .nil, .inr (.inl ⟨cs, rfl, hclose⟩)⟩
    · by_cases hblank : isBlank c
      · obtain ⟨gap, rest, rfl, hgap, hrest⟩ := exists_layout cs
        exact ⟨c :: gap, rest, rfl, .blank hblank hgap, hrest⟩
      · have hnone : startsLayout c = false := by simp [startsLayout, hopen, hblank]
        exact ⟨[], c :: cs, rfl, .nil, .inr (.inr ⟨c, cs, rfl, hnone⟩)⟩
termination_by text.length

/-! ## Pieces and layout -/

theorem isLetter_eq_false_of_isBlank {c : Char} (h : isBlank c) : isLetter c = false := by
  have htable : ∀ r ∈ blankRanges, ∀ n ∈ List.range' r.1 (r.2 - r.1 + 1),
      letterRanges.contains n = false := by decide +kernel
  obtain ⟨r, hr, hlo, hhi⟩ := Ranges.exists_of_contains h
  exact htable r hr c.toNat (List.mem_range'_1.2 (by omega))

theorem startsLayout_eq_false_of_between {c : Char} (hlo : 0x21 ≤ c.toNat) (hhi : c.toNat < 0x7B) :
    startsLayout c = false := by
  have hopen : c ≠ '{' := by
    rintro rfl
    exact absurd hhi (by decide)
  have hblank : isBlank c = false := by
    rw [isBlank, blankRanges, Ranges.contains, if_neg (by omega), Ranges.contains,
      if_neg (by omega), Ranges.contains, if_pos (by omega), decide_eq_false (by omega)]
  simp [startsLayout, hopen, hblank]

/-- No piece starts with layout. -/
theorem IsPiece.startsLayout_eq_false {c : Char} {cs : List Char} (h : IsPiece (c :: cs)) :
    startsLayout c = false := by
  have hdigit {c : Char} (h : c.isDigit) : startsLayout c = false := by
    have := toNat_of_isDigit h
    exact startsLayout_eq_false_of_between (by omega) (by omega)
  rcases h.cases with ⟨d, rest, heq, hletter, -⟩ | h | ⟨whole, fraction, heq, hwhole, -⟩ | ⟨s, hs⟩
  · cases heq
    have hopen : c ≠ '{' := by
      rintro rfl
      exact absurd hletter (by decide)
    have hblank : isBlank c = false := by
      rw [Bool.eq_false_iff]
      intro hblank
      rw [isLetter_eq_false_of_isBlank hblank] at hletter
      cases hletter
    simp [startsLayout, hopen, hblank]
  · exact hdigit (h.2 c List.mem_cons_self)
  · obtain ⟨d, ds, rfl⟩ := List.exists_cons_of_ne_nil hwhole.1
    cases heq
    exact hdigit (hwhole.2 c List.mem_cons_self)
  · cases s <;> cases hs <;> exact startsLayout_eq_false_of_between (by decide) (by decide)

/-! ## The cut of a text -/

/-- The text, which starts at a byte offset, is cut into pieces with layout between them. The
results are the tokens of the pieces with their places, up to the end of the text or a fault; the
comment is the one that is open at the end of the text. -/
inductive Segmented :
    Nat → List Char → List (Except LexicalFault Lexeme) → Option Span → Prop
  | token {offset : Nat} {gap piece rest : List Char} {t : Token}
    {results : List (Except LexicalFault Lexeme)} {comment : Option Span} (hgap : IsLayout gap)
    (hpiece : Spells piece t) (hlongest : Longest piece (piece ++ rest))
    (h : Segmented (offset + byteLength (gap ++ piece)) rest results comment) :
    Segmented offset (gap ++ (piece ++ rest))
      (.ok ⟨t, ⟨offset + byteLength gap, offset + byteLength (gap ++ piece)⟩⟩ :: results) comment
  | ending {offset : Nat} {gap : List Char} (hgap : IsLayout gap) :
    Segmented offset gap
      [.ok ⟨.endOfInput, ⟨offset + byteLength gap, offset + byteLength gap⟩⟩] none
  | openComment {offset : Nat} {gap body : List Char} (hgap : IsLayout gap)
    (hbody : '}' ∉ body) :
    Segmented offset (gap ++ '{' :: body)
      [.ok ⟨.endOfInput, ⟨offset + byteLength (gap ++ '{' :: body),
        offset + byteLength (gap ++ '{' :: body)⟩⟩]
      (some ⟨offset + byteLength gap, offset + byteLength (gap ++ '{' :: body)⟩)
  | integerTooLarge {offset : Nat} {gap digits rest : List Char} (hgap : IsLayout gap)
    (hdigits : IsDigitRow digits) (hlt : Value.maxInteger < decimalValue digits)
    (hlongest : Longest digits (digits ++ rest)) :
    Segmented offset (gap ++ (digits ++ rest))
      [.error ⟨.integerTooLarge,
        ⟨offset + byteLength gap, offset + byteLength (gap ++ digits)⟩⟩] none
  | unrecognized {offset : Nat} {gap rest : List Char} {c : Char} (hgap : IsLayout gap)
    (hlayout : startsLayout c = false) (h : ∀ piece, piece <+: c :: rest → ¬IsPiece piece) :
    Segmented offset (gap ++ c :: rest)
      [.error ⟨.unrecognized c,
        ⟨offset + byteLength gap, offset + byteLength (gap ++ [c])⟩⟩] none

/-- Every text can be cut. -/
theorem exists_segmented (offset : Nat) (text : List Char) :
    ∃ results comment, Segmented offset text results comment := by
  obtain ⟨gap, rest, htext, hgap, hrest⟩ := exists_layout text
  rcases hrest with rfl | ⟨body, rfl, hbody⟩ | ⟨c, cs, rfl, hc⟩
  · rw [htext, List.append_nil]
    exact ⟨_, _, .ending hgap⟩
  · rw [htext]
    exact ⟨_, _, .openComment hgap hbody⟩
  · have hread := readsFrom_readToken 0 c cs
    generalize readToken ⟨0, c⟩ (layOut (0 + c.utf8Size) cs) = reading at hread
    cases reading with
    | token t after =>
      obtain ⟨piece, rest, hcut, hpiece, hlongest, -⟩ := hread
      rw [hcut] at htext hlongest
      have hne : piece ≠ [] := IsPiece.ne_nil (.inl ⟨t, hpiece⟩)
      have hshorter : rest.length < text.length := by
        have := List.length_pos_iff.2 hne
        rw [htext, List.length_append, List.length_append]
        omega
      obtain ⟨results, comment, h⟩ := exists_segmented (offset + byteLength (gap ++ piece)) rest
      rw [htext]
      exact ⟨_, comment, .token hgap hpiece hlongest h⟩
    | integerTooLarge after =>
      obtain ⟨digits, rest, hcut, hdigits, hlt, hlongest, -⟩ := hread
      rw [hcut] at htext hlongest
      rw [htext]
      exact ⟨_, _, .integerTooLarge hgap hdigits hlt hlongest⟩
    | unrecognized =>
      rw [htext]
      exact ⟨_, _, .unrecognized hgap hc hread⟩
termination_by text.length

/-! ## The scanner cuts -/

namespace Placed

theorem endOffset_layOut (cs : List Char) : endOffset (layOut 0 cs) = byteLength cs := by
  rcases List.eq_nil_or_concat cs with rfl | ⟨init, c, rfl⟩
  · rfl
  · rw [List.concat_eq_append, endOffset, layOut_append, layOut, layOut, List.getLast?_append]
    simp [stop]

theorem offsetAt_layOut (before after : List Char) :
    offsetAt (layOut 0 (before ++ after)) (layOut (byteLength before) after) =
      byteLength before := by
  cases after with
  | nil => rw [List.append_nil, layOut, offsetAt, endOffset_layOut]
  | cons c after => rfl

end Placed

/-! What one scan finds in a text, some of which has been read, by what follows the gap. -/

section
variable (before : List Char) {gap : List Char} (hgap : IsLayout gap)
include hgap

theorem skipLayout_of_reading (offset : Nat) {c : Char} {cs : List Char}
    (hc : startsLayout c = false) {r : Reading}
    (h : ReadsFrom (offset + byteLength gap) (c :: cs) r) :
    skipLayout none (layOut offset (gap ++ c :: cs)) =
        (none, layOut (offset + byteLength gap) (c :: cs)) ∧
      readToken ⟨offset + byteLength gap, c⟩ (layOut (offset + byteLength gap + c.utf8Size) cs) =
        r := by
  rw [hgap.skipLayout_append, skipLayout_of_not_startsLayout _ _ hc]
  exact ⟨rfl, (readsFrom_readToken _ c cs).unique h⟩

omit hgap in
theorem offsetAt_of_read (gap piece rest : List Char) :
    offsetAt (layOut 0 (before ++ (gap ++ (piece ++ rest))))
        (layOut (byteLength before + byteLength gap + byteLength piece) rest) =
      byteLength before + byteLength (gap ++ piece) := by
  have h := offsetAt_layOut (before ++ (gap ++ piece)) rest
  simp only [List.append_assoc, byteLength_append, Nat.add_assoc] at h ⊢
  exact h

theorem scan_token {piece : List Char} {t : Token} (hpiece : Spells piece t) {rest : List Char}
    (hlongest : Longest piece (piece ++ rest)) :
    scan (layOut 0 (before ++ (gap ++ (piece ++ rest))))
        (layOut (byteLength before) (gap ++ (piece ++ rest))) =
      ⟨.ok ⟨t, ⟨byteLength before + byteLength gap, byteLength before + byteLength (gap ++ piece)⟩⟩,
        none, layOut (byteLength before + byteLength (gap ++ piece)) rest⟩ := by
  have hstop := offsetAt_of_read before gap piece rest
  have hread : ReadsFrom (byteLength before + byteLength gap) (piece ++ rest) (.token t _) :=
    ⟨piece, rest, rfl, hpiece, hlongest, rfl⟩
  have hpiece : IsPiece piece := .inl ⟨t, hpiece⟩
  obtain ⟨c, cs, rfl⟩ := List.exists_cons_of_ne_nil hpiece.ne_nil
  rw [List.cons_append] at hread hstop ⊢
  obtain ⟨hskip, hread⟩ := skipLayout_of_reading hgap _ hpiece.startsLayout_eq_false hread
  rw [scan, hskip]
  simp only [layOut, hread, hstop]
  rw [byteLength_append, Nat.add_assoc]

theorem scan_integerTooLarge {digits : List Char} (hdigits : IsDigitRow digits)
    (hlt : Value.maxInteger < decimalValue digits) {rest : List Char}
    (hlongest : Longest digits (digits ++ rest)) :
    scan (layOut 0 (before ++ (gap ++ (digits ++ rest))))
        (layOut (byteLength before) (gap ++ (digits ++ rest))) =
      ⟨.error ⟨.integerTooLarge,
          ⟨byteLength before + byteLength gap, byteLength before + byteLength (gap ++ digits)⟩⟩,
        none, layOut (byteLength before + byteLength (gap ++ digits)) rest⟩ := by
  have hstop := offsetAt_of_read before gap digits rest
  have hread : ReadsFrom (byteLength before + byteLength gap) (digits ++ rest)
      (.integerTooLarge _) := ⟨digits, rest, rfl, hdigits, hlt, hlongest, rfl⟩
  have hpiece : IsPiece digits := .inr hdigits
  obtain ⟨c, cs, rfl⟩ := List.exists_cons_of_ne_nil hpiece.ne_nil
  rw [List.cons_append] at hread hstop ⊢
  obtain ⟨hskip, hread⟩ := skipLayout_of_reading hgap _ hpiece.startsLayout_eq_false hread
  rw [scan, hskip]
  simp only [layOut, hread, hstop]
  rw [byteLength_append, Nat.add_assoc]

theorem scan_unrecognized (source : List Placed) (offset : Nat) {c : Char} {rest : List Char}
    (hc : startsLayout c = false) (hnone : ∀ piece, piece <+: c :: rest → ¬IsPiece piece) :
    scan source (layOut offset (gap ++ c :: rest)) =
      ⟨.error ⟨.unrecognized c, ⟨offset + byteLength gap, offset + byteLength (gap ++ [c])⟩⟩,
        none, layOut (offset + byteLength gap) (c :: rest)⟩ := by
  have hread : ReadsFrom (offset + byteLength gap) (c :: rest) .unrecognized := hnone
  obtain ⟨hskip, hread⟩ := skipLayout_of_reading hgap offset hc hread
  rw [scan, hskip]
  simp only [layOut, hread, stop, byteLength_append, byteLength_cons, byteLength_nil]
  rw [Nat.add_zero, Nat.add_assoc]

theorem scan_ending (source : List Placed) (offset : Nat) :
    scan source (layOut offset gap) =
      ⟨.ok ⟨.endOfInput, ⟨Placed.endOffset source, Placed.endOffset source⟩⟩, none, []⟩ := by
  have hskip := hgap.skipLayout_append offset []
  rw [List.append_nil] at hskip
  rw [scan, hskip]
  rfl

theorem scan_openComment (source : List Placed) (offset : Nat) {body : List Char}
    (hbody : '}' ∉ body) :
    scan source (layOut offset (gap ++ '{' :: body)) =
      ⟨.ok ⟨.endOfInput, ⟨Placed.endOffset source, Placed.endOffset source⟩⟩,
        some (offset + byteLength gap), []⟩ := by
  have hskip := hgap.skipLayout_append offset ('{' :: body)
  rw [layOut, skipLayout, if_pos rfl, skipLayout_open _ _ hbody] at hskip
  rw [scan, hskip]

end

namespace Scanner

variable {s : Scanner} {r : Except LexicalFault Lexeme} {rest : List Placed}

/-! What a scanner does with what a scan finds. -/

theorem next_of_scan (h : scan s.source s.rest = ⟨r, none, rest⟩) :
    s.next.1 = r ∧ s.next.2.rest = rest ∧ s.next.2.openComment = s.openComment := by
  simp [next, h]

theorem next_of_scan_openComment {start : Nat} (h : scan s.source s.rest = ⟨r, some start, rest⟩) :
    s.next.1 = r ∧ s.next.2.openComment = some ⟨start, s.endOffset⟩ := by
  simp [next, h]

theorem take_snd_of_error {f : LexicalFault} (h : s.next.1 = .error f) (n : Nat) :
    (s.take (n + 1)).2 = s.next.2 := by
  rcases hnext : s.next with ⟨r, s'⟩
  rw [hnext] at h
  obtain rfl : r = .error f := h
  simp only [take, hnext]

theorem take_snd_of_end {l : Lexeme} (h : s.next.1 = .ok l) (hl : l.token = .endOfInput) (n : Nat) :
    (s.take (n + 1)).2 = s.next.2 := by
  rcases hnext : s.next with ⟨r, s'⟩
  rw [hnext] at h
  obtain rfl : r = .ok l := h
  obtain ⟨token, span⟩ := l
  obtain rfl : token = .endOfInput := hl
  simp only [take, hnext]

theorem take_snd_of_token {l : Lexeme} (h : s.next.1 = .ok l) (hl : l.token ≠ .endOfInput)
    (n : Nat) : (s.take (n + 1)).2 = (s.next.2.take n).2 := by
  rcases hnext : s.next with ⟨r, s'⟩
  rw [hnext] at h
  obtain rfl : r = .ok l := h
  simp only [take, hnext]
  split
  · next h =>
    cases h
    exact absurd rfl hl
  · rfl
  · next h => cases h

end Scanner

theorem Spells.ne_endOfInput {piece : List Char} {t : Token} (h : Spells piece t) :
    t ≠ .endOfInput := by
  cases h <;> exact nofun

/-- **The scanner cuts a text as it can be cut.** -/
theorem Segmented.take_eq {offset : Nat} (before : List Char) {text : List Char}
    {results : List (Except LexicalFault Lexeme)} {comment : Option Span}
    (h : Segmented offset text results comment) (hoffset : offset = byteLength before)
    {s : Scanner} (hsource : s.source = layOut 0 (before ++ text))
    (hrest : s.rest = layOut offset text) (hopen : s.openComment = none) {n : Nat}
    (hn : text.length ≤ n) :
    (s.take (n + 1)).1 = results ∧ (s.take (n + 1)).2.openComment = comment := by
  induction h generalizing before s n with
  | @token offset gap piece rest t results comment hgap hpiece hlongest _ ih =>
    subst hoffset
    have hscan := scan_token before hgap hpiece hlongest
    rw [← hsource, ← hrest] at hscan
    obtain ⟨hnext, hrest', hopen'⟩ := Scanner.next_of_scan hscan
    -- the piece is not empty, so the limit is large enough for what follows it
    obtain ⟨n, rfl⟩ : ∃ m, n = m + 1 := by
      have := List.length_pos_iff.2 (IsPiece.ne_nil (.inl ⟨t, hpiece⟩))
      simp only [List.length_append] at hn
      exact ⟨n - 1, by omega⟩
    have hshorter : rest.length ≤ n := by
      have := List.length_pos_iff.2 (IsPiece.ne_nil (.inl ⟨t, hpiece⟩))
      simp only [List.length_append] at hn
      omega
    have ih := ih (before ++ (gap ++ piece)) (s := s.next.2) (by simp)
      (hsource.trans (by simp)) hrest' (hopen'.trans hopen) hshorter
    rw [Scanner.take_of_token hnext hpiece.ne_endOfInput,
      Scanner.take_snd_of_token hnext hpiece.ne_endOfInput]
    exact ⟨congrArg _ ih.1, ih.2⟩
  | @ending offset gap hgap =>
    have hscan := scan_ending hgap s.source offset
    rw [← hrest, hsource, endOffset_layOut, byteLength_append, ← hoffset, ← hsource] at hscan
    obtain ⟨hnext, -, hopen'⟩ := Scanner.next_of_scan hscan
    rw [Scanner.take_of_end hnext rfl, Scanner.take_snd_of_end hnext rfl]
    exact ⟨rfl, hopen'.trans hopen⟩
  | @openComment offset gap body hgap hbody =>
    have hend : s.endOffset = offset + byteLength (gap ++ '{' :: body) := by
      rw [Scanner.endOffset, hsource, endOffset_layOut, byteLength_append, hoffset]
    have hscan := scan_openComment hgap s.source offset hbody
    rw [← hrest, ← Scanner.endOffset, hend] at hscan
    obtain ⟨hnext, hopen'⟩ := Scanner.next_of_scan_openComment hscan
    rw [Scanner.take_of_end hnext rfl, Scanner.take_snd_of_end hnext rfl, hopen', hend]
    exact ⟨rfl, rfl⟩
  | @integerTooLarge offset gap digits rest hgap hdigits hlt hlongest =>
    subst hoffset
    have hscan := scan_integerTooLarge before hgap hdigits hlt hlongest
    rw [← hsource, ← hrest] at hscan
    obtain ⟨hnext, -, hopen'⟩ := Scanner.next_of_scan hscan
    rw [Scanner.take_of_error hnext, Scanner.take_snd_of_error hnext]
    exact ⟨rfl, hopen'.trans hopen⟩
  | @unrecognized offset gap rest c hgap hlayout hnone =>
    have hscan := scan_unrecognized hgap s.source offset hlayout hnone
    rw [← hrest] at hscan
    obtain ⟨hnext, -, hopen'⟩ := Scanner.next_of_scan hscan
    rw [Scanner.take_of_error hnext, Scanner.take_snd_of_error hnext]
    exact ⟨rfl, hopen'.trans hopen⟩

/-- **A text is cut in one way, the way of the scanner.** -/
theorem segmented_iff_all (s : String) (results : List (Except LexicalFault Lexeme))
    (comment : Option Span) :
    Segmented 0 s.toList results comment ↔
      (Scanner.ofString s).all.1 = results ∧ (Scanner.ofString s).all.2.openComment = comment := by
  have hall {results : List (Except LexicalFault Lexeme)} {comment : Option Span}
      (h : Segmented 0 s.toList results comment) :
      (Scanner.ofString s).all.1 = results ∧
        (Scanner.ofString s).all.2.openComment = comment := by
    refine h.take_eq [] rfl rfl rfl rfl ?_
    exact Nat.le_of_eq (length_layOut 0 s.toList).symm
  constructor
  · exact hall
  · rintro ⟨rfl, rfl⟩
    obtain ⟨results, comment, h⟩ := exists_segmented 0 s.toList
    rw [(hall h).1, (hall h).2]
    exact h

/-! ## The places of the tokens -/

/-- The place of a token or of a fault. -/
def place : Except LexicalFault Lexeme → Span
  | .ok l => l.span
  | .error f => f.span

theorem utf8ByteSize_ofList (cs : List Char) : (String.ofList cs).utf8ByteSize = byteLength cs := by
  induction cs with
  | nil => rfl
  | cons c cs ih =>
    have hcons : String.ofList (c :: cs) = String.singleton c ++ String.ofList cs := by
      rw [String.singleton_eq_ofList, ← String.ofList_append, List.singleton_append]
    rw [hcons, String.utf8ByteSize_append, String.utf8ByteSize_singleton, ih, byteLength_cons]

namespace Segmented

variable {offset : Nat} {text : List Char} {results : List (Except LexicalFault Lexeme)}
  {comment : Option Span}

/-- Every result has a piece of the text as its place, and a token is what the piece spells. -/
theorem exists_slice (h : Segmented offset text results comment)
    {r : Except LexicalFault Lexeme} (hr : r ∈ results) :
    ∃ before piece after, text = before ++ (piece ++ after) ∧
      place r = ⟨offset + byteLength before, offset + byteLength (before ++ piece)⟩ ∧
      (piece = [] ↔ ∃ span, r = .ok ⟨.endOfInput, span⟩) ∧
      ∀ l, r = .ok l → piece ≠ [] → Spells piece l.token ∧ Longest piece (piece ++ after) := by
  induction h with
  | @token offset gap piece rest t results comment hgap hpiece hlongest _ ih =>
    rcases List.mem_cons.1 hr with rfl | hr
    · refine ⟨gap, piece, rest, rfl, rfl, ?_, ?_⟩
      · have hne : piece ≠ [] := IsPiece.ne_nil (.inl ⟨t, hpiece⟩)
        simp [hne, hpiece.ne_endOfInput]
      · rintro l ⟨⟩ -
        exact ⟨hpiece, hlongest⟩
    · obtain ⟨before, inner, after, hrest, hplace, hinner⟩ := ih hr
      refine ⟨gap ++ (piece ++ before), inner, after, by simp [hrest], ?_, hinner⟩
      rw [hplace]
      simp only [byteLength_append, Nat.add_assoc]
  | @ending offset gap hgap =>
    obtain rfl := List.mem_singleton.1 hr
    exact ⟨gap, [], [], by simp, by simp [place], by simp, by simp⟩
  | @openComment offset gap body hgap hbody =>
    obtain rfl := List.mem_singleton.1 hr
    exact ⟨gap ++ '{' :: body, [], [], by simp, by simp [place], by simp, by simp⟩
  | @integerTooLarge offset gap digits rest hgap hdigits hlt hlongest =>
    obtain rfl := List.mem_singleton.1 hr
    exact ⟨gap, digits, rest, rfl, rfl, by simp [hdigits.1], nofun⟩
  | @unrecognized offset gap rest c hgap hlayout hnone =>
    obtain rfl := List.mem_singleton.1 hr
    exact ⟨gap, [c], rest, rfl, rfl, by simp, nofun⟩

theorem le_place (h : Segmented offset text results comment) {r : Except LexicalFault Lexeme}
    (hr : r ∈ results) : offset ≤ (place r).start := by
  obtain ⟨before, piece, after, -, hplace, -⟩ := h.exists_slice hr
  rw [hplace]
  exact Nat.le_add_right ..

/-- The places are in order and do not overlap. -/
theorem ordered (h : Segmented offset text results comment) :
    results.Pairwise fun a b ↦ (place a).stop ≤ (place b).start := by
  induction h with
  | token hgap hpiece hlongest h ih => exact List.pairwise_cons.2 ⟨fun r hr ↦ h.le_place hr, ih⟩
  | ending hgap => exact List.pairwise_singleton ..
  | openComment hgap hbody => exact List.pairwise_singleton ..
  | integerTooLarge hgap hdigits hlt hlongest => exact List.pairwise_singleton ..
  | unrecognized hgap hlayout hnone => exact List.pairwise_singleton ..

end Segmented

/-- **The tokens of a source.** They are the cut of its text, and there is no other. Each lies on
whole characters of the source, is not empty unless it is the end of the input, and is spelled by
the text it lies on, while no longer text from there spells a token; and they follow each other
without overlap. -/
theorem tokens_segment_source (s : String) :
    (∀ results comment, Segmented 0 s.toList results comment ↔
      (Scanner.ofString s).all.1 = results ∧ (Scanner.ofString s).all.2.openComment = comment) ∧
    (∀ r ∈ (Scanner.ofString s).all.1, ∃ before piece after, s = before ++ piece ++ after ∧
      place r = ⟨before.utf8ByteSize, (before ++ piece).utf8ByteSize⟩ ∧
      (piece = "" ↔ ∃ span, r = .ok ⟨.endOfInput, span⟩) ∧
      ∀ l, r = .ok l → piece ≠ "" →
        Spells piece.toList l.token ∧ Longest piece.toList (piece ++ after).toList) ∧
    (Scanner.ofString s).all.1.Pairwise fun a b ↦ (place a).stop ≤ (place b).start := by
  have hcut : Segmented 0 s.toList (Scanner.ofString s).all.1
      (Scanner.ofString s).all.2.openComment := (segmented_iff_all s _ _).2 ⟨rfl, rfl⟩
  refine ⟨segmented_iff_all s, ?_, hcut.ordered⟩
  intro r hr
  obtain ⟨before, piece, after, htext, hplace, hempty, hspells⟩ := hcut.exists_slice hr
  refine ⟨.ofList before, .ofList piece, .ofList after, ?_, ?_, ?_, ?_⟩
  · rw [← String.ofList_append, ← String.ofList_append, List.append_assoc, ← htext,
      String.ofList_toList]
  · rw [hplace, ← String.ofList_append, utf8ByteSize_ofList, utf8ByteSize_ofList, Nat.zero_add,
      Nat.zero_add]
  · rw [← hempty, String.ofList_eq_empty_iff]
  · intro l hl hne
    rw [Ne, String.ofList_eq_empty_iff] at hne
    rw [← String.ofList_append, String.toList_ofList, String.toList_ofList]
    exact hspells l hl hne

end MiniPascal
