import MiniPascal.Scanner.Basic

/-!
# The tokens of a source

The stream of a scanner is all that it would read: the tokens up to the end of the source or up to
the first lexical fault, and that fault. Where the scanner stands determines it, so a scanner that
is moved back has the stream it had before.

Every token but the end of the input takes a character (`scan_progress`), which is why a stream
ends, and by which its equations are found: the stream is the next token followed by the stream
after it (`lexemes_of_token`).

A token is found again by its place (`scan_seek`): the characters that start before it are those in
front of it, and no layout stands between its first character and itself.
-/

namespace MiniPascal

open Alphabet

/-! ## One token takes a character -/

theorem length_dropWhile_lt {α : Type} {p : α → Bool} {a : α} (h : p a) (l : List α) :
    ((a :: l).dropWhile p).length < (a :: l).length := by
  rw [List.dropWhile_cons_of_pos h, List.length_cons]
  exact Nat.lt_succ_of_le (List.dropWhile_suffix p).length_le

/-- A number takes a character and is not the end of the input. -/
theorem readNumber_token {p : Placed} {ps : List Placed} (hp : p.char.isDigit) {t : Token}
    {rest : List Placed} (h : readNumber (p :: ps) = .token t rest) :
    t ≠ .endOfInput ∧ rest.length < (p :: ps).length := by
  have hinteger {digits : List Char} {qs : List Placed} (hqs : qs.length < (p :: ps).length)
      (h : integerReading digits qs = .token t rest) :
      t ≠ .endOfInput ∧ rest.length < (p :: ps).length := by
    rw [integerReading] at h
    split at h
    · cases h
      exact ⟨nofun, hqs⟩
    · cases h
  have hdrop := length_dropWhile_lt (p := fun p : Placed ↦ p.char.isDigit) hp ps
  rw [readNumber] at h
  split at h
  · next point digit more hrest =>
    rw [hrest] at hdrop h
    -- a point belongs to the number only if a digit follows it
    split at h
    · cases h
      refine ⟨nofun, ?_⟩
      have := (List.dropWhile_suffix (l := digit :: more) fun p : Placed ↦ p.char.isDigit).length_le
      rw [List.length_cons] at hdrop
      omega
    · exact hinteger hdrop h
  · exact hinteger hdrop h

theorem readWord_token {p : Placed} {ps : List Placed} (hp : isLetter p.char) {t : Token}
    {rest : List Placed} (h : readWord (p :: ps) = .token t rest) :
    t ≠ .endOfInput ∧ rest.length < (p :: ps).length := by
  cases h
  refine ⟨?_, length_dropWhile_lt (by rw [isWordPart, hp]; rfl) ps⟩
  rw [wordToken]
  split
  · exact nofun
  · exact nofun

theorem readSymbol_token {p : Placed} {ps : List Placed} {t : Token} {rest : List Placed}
    (h : readSymbol p ps = .token t rest) : t ≠ .endOfInput ∧ rest.length < (p :: ps).length := by
  rw [readSymbol] at h
  split at h
  · next s _ =>
    cases h
    refine ⟨nofun, ?_⟩
    have : 0 < s.text.length := by cases s <;> decide
    rw [List.length_drop, List.length_cons]
    omega
  · cases h

/-- A text that starts with a character has a token of at least that character. -/
theorem readToken_token {p : Placed} {ps : List Placed} {t : Token} {rest : List Placed}
    (h : readToken p ps = .token t rest) : t ≠ .endOfInput ∧ rest.length < (p :: ps).length := by
  rw [readToken] at h
  split at h
  · next hp => exact readNumber_token hp h
  · split at h
    · next hp => exact readWord_token hp h
    · exact readSymbol_token h

/-! ## What a scan finds -/

/-- Layout is skipped once: what remains starts with no layout. -/
theorem skipLayout_skipLayout {opened : Option Nat} {rest : List Placed} {p : Placed}
    {ps : List Placed} (h : (skipLayout opened rest).2 = p :: ps) :
    skipLayout none (p :: ps) = (none, p :: ps) := by
  induction rest generalizing opened with
  | nil => cases opened <;> cases h
  | cons q qs ih =>
    cases opened with
    | some start => exact ih h
    | none =>
      rw [skipLayout] at h
      split at h
      · exact ih h
      · next hopen =>
        split at h
        · exact ih h
        -- neither a comment nor a blank is next, and this is where layout ends
        · next hblank =>
          cases h
          rw [skipLayout, if_neg hopen, if_neg hblank]

/-- The ways in which a scan comes to a token: the source ends, or a token is read off the first
character after the layout. -/
theorem scan_of_ok {source rest : List Placed} {l : Lexeme}
    (h : (scan source rest).result = .ok l) :
    (l = ⟨.endOfInput, ⟨Placed.endOffset source, Placed.endOffset source⟩⟩ ∧
        (scan source rest).rest = []) ∨
      ∃ p ps t, (skipLayout none rest).2 = p :: ps ∧
        readToken p ps = .token t (scan source rest).rest ∧
        l = ⟨t, ⟨p.offset, offsetAt source (scan source rest).rest⟩⟩ := by
  revert h
  unfold scan
  rcases hlayout : skipLayout none rest with ⟨openComment, after⟩
  cases after with
  | nil =>
    rintro ⟨⟩
    exact .inl ⟨rfl, rfl⟩
  | cons p ps =>
    simp only
    cases hread : readToken p ps with
    | token t rest' =>
      rintro ⟨⟩
      exact .inr ⟨p, ps, t, rfl, hread, rfl⟩
    | integerTooLarge rest' => exact nofun
    | unrecognized => exact nofun

/-- A token other than the end of the input takes a character. -/
theorem scan_progress {source rest : List Placed} {l : Lexeme}
    (h : (scan source rest).result = .ok l) (hl : l.token ≠ .endOfInput) :
    (scan source rest).rest.length < rest.length := by
  rcases scan_of_ok h with ⟨rfl, -⟩ | ⟨p, ps, t, hlayout, hread, -⟩
  · exact absurd rfl hl
  · have hsuffix := (skipLayout_suffix none rest).length_le
    rw [hlayout] at hsuffix
    exact Nat.lt_of_lt_of_le (readToken_token hread).2 hsuffix

/-- After the end of the input there is nothing but the end of the input. -/
theorem scan_end {source rest : List Placed} {l : Lexeme}
    (h : (scan source rest).result = .ok l) (hl : l.token = .endOfInput) :
    (scan source rest).rest = [] ∧ (scan source []).result = .ok l := by
  rcases scan_of_ok h with ⟨rfl, hrest⟩ | ⟨p, ps, t, -, hread, rfl⟩
  · exact ⟨hrest, rfl⟩
  · exact absurd hl (readToken_token hread).1

/-- The number of characters in front of a byte offset. -/
def charsBefore (source : List Placed) (offset : Nat) : Nat :=
  (source.takeWhile fun p ↦ p.offset < offset).length

/-- In a source whose characters stand in order, those before a character are in front of it. -/
theorem drop_charsBefore {source : List Placed}
    (hsource : source.Pairwise fun p q ↦ p.offset < q.offset) {p : Placed} {ps : List Placed}
    (h : p :: ps <:+ source) : source.drop (charsBefore source p.offset) = p :: ps := by
  obtain ⟨front, rfl⟩ := h
  have hfront : ∀ q ∈ front, decide (q.offset < p.offset) = true := fun q hq ↦
    decide_eq_true ((List.pairwise_append.1 hsource).2.2 q hq p List.mem_cons_self)
  rw [charsBefore, List.takeWhile_append_of_pos hfront, List.takeWhile_cons_of_neg (by simp),
    List.append_nil, List.drop_left]

/-- **A token is found again.** A scan from the first character of a token comes to that token. -/
theorem scan_seek {source rest : List Placed}
    (hsource : source.Pairwise fun p q ↦ p.offset < q.offset) (hrest : rest <:+ source)
    {l : Lexeme} (h : (scan source rest).result = .ok l) (hl : l.token ≠ .endOfInput) :
    let again := source.drop (charsBefore source l.span.start)
    (scan source again).result = .ok l ∧ (scan source again).rest = (scan source rest).rest := by
  intro again
  rcases scan_of_ok h with ⟨rfl, -⟩ | ⟨p, ps, t, hlayout, hread, rfl⟩
  · exact absurd rfl hl
  · have hsuffix : p :: ps <:+ source := by
      rw [← hlayout]
      exact (skipLayout_suffix none rest).trans hrest
    have hagain : again = p :: ps := drop_charsBefore hsource hsuffix
    have hscan : scan source (p :: ps) = ⟨.ok ⟨t, ⟨p.offset,
        offsetAt source (scan source rest).rest⟩⟩, none, (scan source rest).rest⟩ := by
      rw [scan, skipLayout_skipLayout hlayout]
      simp only [hread]
    rw [hagain, hscan]
    exact ⟨rfl, rfl⟩

/-! ## Streams -/

namespace Scanner

/-- The tokens that a scanner would read, up to the first lexical fault. -/
def lexemes (s : Scanner) : List Lexeme := s.all.1.filterMap Except.toOption

/-- The lexical fault that ends the tokens of a scanner, if one does. -/
def fault? (s : Scanner) : Option LexicalFault :=
  s.all.1.findSome? fun
    | .error f => some f
    | .ok _ => none

variable {s t : Scanner}

theorem next_fst (s : Scanner) : s.next.1 = (scan s.source s.rest).result := rfl

theorem next_snd_rest (s : Scanner) : s.next.2.rest = (scan s.source s.rest).rest := rfl

theorem next_congr (hsource : s.source = t.source) (hrest : s.rest = t.rest) :
    s.next.1 = t.next.1 ∧ s.next.2.source = t.next.2.source ∧ s.next.2.rest = t.next.2.rest := by
  rw [next_fst, next_fst, next_snd_rest, next_snd_rest, hsource, hrest]
  exact ⟨rfl, hsource, rfl⟩

theorem take_of_error {f : LexicalFault} (h : s.next.1 = .error f) (n : Nat) :
    (s.take (n + 1)).1 = [.error f] := by
  rcases hnext : s.next with ⟨r, s'⟩
  rw [hnext] at h
  obtain rfl : r = .error f := h
  simp only [take, hnext]

theorem take_of_end {l : Lexeme} (h : s.next.1 = .ok l) (hl : l.token = .endOfInput) (n : Nat) :
    (s.take (n + 1)).1 = [.ok l] := by
  rcases hnext : s.next with ⟨r, s'⟩
  rw [hnext] at h
  obtain rfl : r = .ok l := h
  obtain ⟨token, span⟩ := l
  obtain rfl : token = .endOfInput := hl
  simp only [take, hnext]

theorem take_of_token {l : Lexeme} (h : s.next.1 = .ok l) (hl : l.token ≠ .endOfInput) (n : Nat) :
    (s.take (n + 1)).1 = .ok l :: (s.next.2.take n).1 := by
  rcases hnext : s.next with ⟨r, s'⟩
  rw [hnext] at h
  obtain rfl : r = .ok l := h
  simp only [take, hnext]
  split
  · next h =>
    cases h
    exact absurd rfl hl
  · rfl
  · next h => cases h

/-- What a scanner reads depends on where it stands, and not on a limit that is large enough. -/
theorem take_eq_take {n m : Nat} (hsource : s.source = t.source) (hrest : s.rest = t.rest)
    (hn : s.rest.length < n) (hm : s.rest.length < m) : (s.take n).1 = (t.take m).1 := by
  induction n generalizing m s t with
  | zero => cases hn
  | succ n ih =>
    cases m with
    | zero => cases hm
    | succ m =>
      obtain ⟨hresult, hsource', hrest'⟩ := next_congr hsource hrest
      cases h : s.next.1 with
      | error f => rw [take_of_error h, take_of_error (hresult ▸ h)]
      | ok l =>
        by_cases hl : l.token = .endOfInput
        · rw [take_of_end h hl, take_of_end (hresult ▸ h) hl]
        · have hprogress : s.next.2.rest.length < s.rest.length := scan_progress h hl
          rw [take_of_token h hl, take_of_token (hresult ▸ h) hl,
            ih (m := m) hsource' hrest' (by omega) (by omega)]

theorem all_congr (hsource : s.source = t.source) (hrest : s.rest = t.rest) :
    s.all.1 = t.all.1 :=
  take_eq_take hsource hrest (Nat.lt_succ_self _) (by rw [hrest]; exact Nat.lt_succ_self _)

theorem all_of_token {l : Lexeme} (h : s.next.1 = .ok l) (hl : l.token ≠ .endOfInput) :
    s.all.1 = .ok l :: s.next.2.all.1 := by
  have hprogress : s.next.2.rest.length < s.rest.length := scan_progress h hl
  rw [all, take_of_token h hl, all, take_eq_take rfl rfl hprogress (Nat.lt_succ_self _)]

/-! The stream of a scanner, by what is next. -/

theorem lexemes_of_error {f : LexicalFault} (h : s.next.1 = .error f) :
    s.lexemes = [] ∧ s.fault? = some f := by
  rw [lexemes, fault?, all, take_of_error h]
  exact ⟨rfl, rfl⟩

theorem lexemes_of_end {l : Lexeme} (h : s.next.1 = .ok l) (hl : l.token = .endOfInput) :
    s.lexemes = [l] ∧ s.fault? = none := by
  rw [lexemes, fault?, all, take_of_end h hl]
  exact ⟨rfl, rfl⟩

theorem lexemes_of_token {l : Lexeme} (h : s.next.1 = .ok l) (hl : l.token ≠ .endOfInput) :
    s.lexemes = l :: s.next.2.lexemes ∧ s.fault? = s.next.2.fault? := by
  rw [lexemes, fault?, all_of_token h hl]
  exact ⟨rfl, rfl⟩

theorem exists_lexemes_cons {l : Lexeme} (h : s.next.1 = .ok l) : ∃ ls, s.lexemes = l :: ls := by
  by_cases hl : l.token = .endOfInput
  · exact ⟨[], (lexemes_of_end h hl).1⟩
  · exact ⟨_, (lexemes_of_token h hl).1⟩

/-- The stream depends on where the scanner stands. -/
theorem lexemes_congr (hsource : s.source = t.source) (hrest : s.rest = t.rest) :
    s.lexemes = t.lexemes ∧ s.fault? = t.fault? := by
  rw [lexemes, fault?, all_congr hsource hrest]
  exact ⟨rfl, rfl⟩

/-- Scanners that read the same token and then stand at the same place have the same stream. -/
theorem lexemes_eq_of_next {l : Lexeme} (hs : s.next.1 = .ok l) (ht : t.next.1 = .ok l)
    (hsource : s.source = t.source) (hrest : s.next.2.rest = t.next.2.rest) :
    s.lexemes = t.lexemes ∧ s.fault? = t.fault? := by
  by_cases hl : l.token = .endOfInput
  · rw [(lexemes_of_end hs hl).1, (lexemes_of_end hs hl).2, (lexemes_of_end ht hl).1,
      (lexemes_of_end ht hl).2]
    exact ⟨rfl, rfl⟩
  · obtain ⟨hlexemes, hfault⟩ := lexemes_congr (s := s.next.2) (t := t.next.2) hsource hrest
    rw [(lexemes_of_token hs hl).1, (lexemes_of_token hs hl).2, (lexemes_of_token ht hl).1,
      (lexemes_of_token ht hl).2, hlexemes, hfault]
    exact ⟨rfl, rfl⟩

/-- A stream without fault ends with the end of the input. -/
theorem exists_last_lexemes (s : Scanner) (h : s.fault? = none) :
    ∃ init last, s.lexemes = init ++ [last] ∧ last.token = .endOfInput := by
  cases hnext : s.next.1 with
  | error f =>
    rw [(lexemes_of_error hnext).2] at h
    cases h
  | ok l =>
    by_cases hl : l.token = .endOfInput
    · exact ⟨[], l, (lexemes_of_end hnext hl).1, hl⟩
    · have hprogress : s.next.2.rest.length < s.rest.length := scan_progress hnext hl
      rw [(lexemes_of_token hnext hl).2] at h
      obtain ⟨init, last, hinit, hlast⟩ := s.next.2.exists_last_lexemes h
      exact ⟨l :: init, last, by rw [(lexemes_of_token hnext hl).1, hinit]; rfl, hlast⟩
termination_by s.rest.length

end Scanner

end MiniPascal
