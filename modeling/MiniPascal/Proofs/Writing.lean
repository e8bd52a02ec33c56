import MiniPascal.Proofs.Places

/-!
# Texts written from tokens

Tokens are written by their spellings, with a gap of blanks and closed comments between each two
(`Token.write`), and such a text is read back token by token from the places at which they were
written (`Token.written`).

Two things make that so. The spelling of a token is among the texts that spell it
(`Token.Writable.spells`), which for an integer says that its decimal digits are read as its value.
And no piece of text goes on into layout (`Spells.longest`): a blank or a brace continues neither
a word nor a number nor a symbol. A gap is therefore needed between two tokens, but any gap will do.
-/

namespace MiniPascal

open Alphabet

/-! ## Pieces in front of layout -/

theorem isNumeral_eq_false_of_isBlank {c : Char} (h : isBlank c) : isNumeral c = false := by
  have htable : ∀ r ∈ blankRanges, ∀ n ∈ List.range' r.1 (r.2 - r.1 + 1),
      numeralRanges.contains n = false := by decide +kernel
  obtain ⟨r, hr, hlo, hhi⟩ := Ranges.exists_of_contains h
  exact htable r hr c.toNat (List.mem_range'_1.2 (by omega))

theorem isWordPart_eq_false_of_startsLayout {c : Char} (h : startsLayout c) :
    isWordPart c = false := by
  by_cases hopen : c = '{'
  · subst hopen
    decide +kernel
  · have hblank : isBlank c = true := by simpa [startsLayout, hopen] using h
    rw [isWordPart, isLetter_eq_false_of_isBlank hblank, isNumeral_eq_false_of_isBlank hblank,
      Bool.or_false]

theorem IsLayout.startsLayout_head {gap : List Char} (h : IsLayout gap) :
    ∀ c ∈ gap.head?, startsLayout c := by
  cases h with
  | nil => simp
  | blank hc _ => simp [startsLayout, hc]
  | comment hbody _ => simp [startsLayout]

/-- A character of the printable ASCII characters in front of the brace does not start layout. -/
theorem ne_of_startsLayout {c d : Char} (h : startsLayout c) (hlo : 0x21 ≤ d.toNat)
    (hhi : d.toNat < 0x7B) : c ≠ d := by
  rintro rfl
  rw [startsLayout_eq_false_of_between hlo hhi] at h
  cases h

theorem isDigit_eq_false_of_startsLayout {c : Char} (h : startsLayout c) : c.isDigit = false := by
  rw [Bool.eq_false_iff]
  intro hdigit
  have hrange := toNat_of_isDigit hdigit
  exact ne_of_startsLayout h (by omega) (by omega) rfl

/-- The symbol is found in front of layout. -/
theorem Symbol.found_of_startsLayout (s : Symbol) {rest : List Char}
    (hrest : ∀ c ∈ rest.head?, startsLayout c) :
    ∃ c cs, s.text.toList = c :: cs ∧ symbol? c (cs ++ rest).head? = some s := by
  have hne {d : Char} (hlo : 0x21 ≤ d.toNat) (hhi : d.toNat < 0x7B) : rest.head? ≠ some d :=
    fun hd ↦ ne_of_startsLayout (hrest d hd) hlo hhi rfl
  have hequal : rest.head? ≠ some '=' := hne (by decide) (by decide)
  have hgreater : rest.head? ≠ some '>' := hne (by decide) (by decide)
  cases s with
  | colon => exact ⟨':', [], rfl, congrArg some (if_neg hequal)⟩
  | less => exact ⟨'<', [], rfl, congrArg some ((if_neg hgreater).trans (if_neg hequal))⟩
  | greater => exact ⟨'>', [], rfl, congrArg some (if_neg hequal)⟩
  | _ => exact ⟨_, _, rfl, rfl⟩

/-- **No piece goes on into layout.** -/
theorem Spells.longest {piece rest : List Char} {t : Token} (h : Spells piece t)
    (hrest : ∀ c ∈ rest.head?, startsLayout c) : Longest piece (piece ++ rest) := by
  have hword : ∀ c ∈ rest.head?, isWordPart c = false :=
    fun c hc ↦ isWordPart_eq_false_of_startsLayout (hrest c hc)
  have hdigit : ∀ c ∈ rest.head?, c.isDigit = false :=
    fun c hc ↦ isDigit_eq_false_of_startsLayout (hrest c hc)
  cases h with
  | keyword k => exact longest_word (isWord_text k) hword
  | identifier h _ => exact longest_word h hword
  | integer h _ =>
    refine longest_digitRow h hdigit ?_
    rintro d more rfl
    exact absurd rfl (ne_of_startsLayout (hrest '.' rfl) (by decide) (by decide))
  | real hwhole _ => exact longest_decimal hwhole _ hdigit
  | symbol s =>
    obtain ⟨c, cs, htext, hfound⟩ := s.found_of_startsLayout hrest
    obtain ⟨d, ds, htext', hlt, hdigit⟩ := s.exists_head
    obtain ⟨rfl, rfl⟩ : c = d ∧ cs = ds := List.cons.inj (htext.symm.trans htext')
    have hlongest := longest_symbol (not_isLetter_of_lt hlt) hdigit hfound
    rwa [← List.cons_append, ← htext] at hlongest

namespace Token

/-! ## Spellings that are read back -/

/-- A token that its spelling stands for. A name is a word but no keyword. A literal has no sign,
and the text of a real may be no literal at all; the end of the text is not written. -/
def Writable : Token → Prop
  | identifier name => IsWord name.toList ∧ ∀ k : Keyword, k.text ≠ name
  | integer n => 0 ≤ n.toInt
  | real _ => False
  | keyword _ => True
  | symbol _ => True
  | endOfInput => False

/-- The digits of a number are read as the number. -/
theorem spells_toDigits {n : Int64} {m : Nat} (h : n.toInt = m) :
    Spells (Nat.toDigits 10 m) (integer n) := by
  refine .integer ⟨Nat.toDigits_ne_nil, ?_⟩ ?_
  · exact fun c hc ↦ Nat.isDigit_of_mem_toDigits (by decide) (by decide) hc
  · have hvalue : decimalValue (Nat.toDigits 10 m) = m := Nat.ofDigitChars_ten_toDigits
    rw [h, hvalue]

/-- The spelling of a token spells it. -/
theorem Writable.spells {t : Token} (h : t.Writable) : Spells t.text.toList t := by
  cases t with
  | identifier name =>
    have hspells : Spells name.toList (identifier (String.ofList name.toList)) :=
      .identifier h.1 fun k hk ↦ h.2 k (String.toList_inj.1 hk)
    rwa [String.ofList_toList] at hspells
  | integer n =>
    obtain ⟨m, hm⟩ := Int.eq_ofNat_of_zero_le h
    have htext : (integer n).text.toList = Nat.toDigits 10 m := by
      have hrepr : (integer n).text = toString n.toInt := rfl
      rw [hrepr, hm]
      exact Nat.toList_repr
    rw [htext]
    exact spells_toDigits hm
  | real x => exact h.elim
  | keyword k => exact .keyword k
  | symbol s => exact .symbol s
  | endOfInput => exact h.elim

/-- What is read can be written, reals and the end of the text apart. -/
theorem Writable.of_spells {piece : List Char} {t : Token} (h : Spells piece t)
    (hreal : ∀ x, t ≠ real x) : t.Writable := by
  cases h with
  | keyword k => exact trivial
  | @identifier word h hk =>
    refine ⟨by rwa [String.toList_ofList], fun k hword ↦ hk k ?_⟩
    rw [hword, String.toList_ofList]
  | integer h hn =>
    rw [Writable, hn]
    exact Int.natCast_nonneg _
  | real hwhole hfraction => exact absurd rfl (hreal _)
  | symbol s => exact trivial

/-! ## Writing tokens -/

/-- Blanks and closed comments, at least one of them. -/
structure Gap where
  text : List Char
  isLayout : IsLayout text
  ne_nil : text ≠ []

/-- A gap that is one comment. -/
def Gap.comment (body : List Char) (h : '}' ∉ body) : Gap :=
  ⟨'{' :: (body ++ ['}']), .comment h .nil, List.cons_ne_nil _ _⟩

/-- The first gap, if a token is to follow. -/
def joint (gaps : Nat → Gap) : List Token → List Char
  | [] => []
  | _ :: _ => (gaps 0).text

/-- The tokens with a gap between each two, the first behind the first token. -/
def write (gaps : Nat → Gap) : List Token → List Char
  | [] => []
  | t :: ts => t.text.toList ++ (joint gaps ts ++ write (fun n ↦ gaps (n + 1)) ts)

/-- The tokens at the places where they are written, from a byte offset on, and the end of the text
behind them. -/
def written (gaps : Nat → Gap) (offset : Nat) : List Token → List Lexeme
  | [] => [⟨.endOfInput, ⟨offset, offset⟩⟩]
  | t :: ts => ⟨t, ⟨offset, offset + byteLength t.text.toList⟩⟩ ::
      written (fun n ↦ gaps (n + 1)) (offset + byteLength (t.text.toList ++ joint gaps ts)) ts

theorem isLayout_joint (gaps : Nat → Gap) (ts : List Token) : IsLayout (joint gaps ts) := by
  cases ts with
  | nil => exact .nil
  | cons t ts => exact (gaps 0).isLayout

/-- Behind a token is layout or nothing. -/
theorem startsLayout_of_joint (gaps : Nat → Gap) (ts : List Token) :
    ∀ c ∈ (joint gaps ts ++ write (fun n ↦ gaps (n + 1)) ts).head?, startsLayout c := by
  cases ts with
  | nil => simp [joint, write]
  | cons t ts =>
    intro c hc
    obtain ⟨d, ds, hgap⟩ := List.exists_cons_of_ne_nil (gaps 0).ne_nil
    refine (gaps 0).isLayout.startsLayout_head c ?_
    rw [joint, hgap] at hc
    rw [hgap]
    exact hc

/-- **What is written is cut at the places of writing.** -/
theorem segmented_write (gaps : Nat → Gap) {ts : List Token} (h : ∀ t ∈ ts, t.Writable)
    (offset : Nat) {gap : List Char} (hgap : IsLayout gap) :
    Segmented offset (gap ++ write gaps ts)
      ((written gaps (offset + byteLength gap) ts).map .ok) none := by
  induction ts generalizing gaps offset gap with
  | nil =>
    rw [write, List.append_nil]
    exact .ending hgap
  | cons t ts ih =>
    have ht : Spells t.text.toList t := (h t List.mem_cons_self).spells
    have hlongest := ht.longest (startsLayout_of_joint gaps ts)
    have hts : ∀ u ∈ ts, u.Writable := fun u hu ↦ h u (List.mem_cons_of_mem t hu)
    have hrest := ih (fun n ↦ gaps (n + 1)) hts (offset + byteLength (gap ++ t.text.toList))
      (isLayout_joint gaps ts)
    have hcut := Segmented.token hgap ht hlongest hrest
    simp only [byteLength_append, ← Nat.add_assoc] at hcut
    simp only [write, written, List.map_cons, byteLength_append, ← Nat.add_assoc]
    exact hcut

/-- The place of a token cuts out its spelling. -/
theorem exists_cut_of_mem_written {gaps : Nat → Gap} {offset : Nat} {ts : List Token} {l : Lexeme}
    (hl : l ∈ written gaps offset ts) (hend : l.token ≠ .endOfInput) :
    ∃ before after, write gaps ts = before ++ (l.token.text.toList ++ after) ∧
      l.span =
        ⟨offset + byteLength before, offset + byteLength (before ++ l.token.text.toList)⟩ := by
  induction ts generalizing gaps offset with
  | nil =>
    rw [List.mem_singleton.1 hl] at hend
    exact absurd rfl hend
  | cons t ts ih =>
    rcases List.mem_cons.1 hl with rfl | hl
    · exact ⟨[], _, rfl, rfl⟩
    · obtain ⟨before, after, hwrite, hspan⟩ := ih hl
      refine ⟨t.text.toList ++ (joint gaps ts ++ before), after, ?_, ?_⟩
      · rw [write, hwrite, List.append_assoc, List.append_assoc]
      · rw [hspan]
        simp only [byteLength_append, Nat.add_assoc]

theorem map_token_written (gaps : Nat → Gap) (offset : Nat) (ts : List Token) :
    (written gaps offset ts).map Lexeme.token = ts ++ [.endOfInput] := by
  induction ts generalizing gaps offset with
  | nil => rfl
  | cons t ts ih => rw [written, List.map_cons, ih, List.cons_append]

end Token

/-! ## Reading tokens -/

theorem Scanner.lexemes_of_all {s : Scanner} {ls : List Lexeme} (h : s.all.1 = ls.map .ok) :
    s.lexemes = ls ∧ s.fault? = none := by
  rw [lexemes, fault?, h]
  constructor
  · rw [List.filterMap_map]
    exact List.filterMap_some
  · simp

/-- The tokens of a text without faults and reals can be written. -/
theorem Segmented.exists_writable {offset : Nat} {text : List Char}
    {results : List (Except LexicalFault Lexeme)} {comment : Option Span}
    (h : Segmented offset text results comment) (hfault : ∀ f, .error f ∉ results)
    (hreal : ∀ l, .ok l ∈ results → ∀ x, l.token ≠ .real x) :
    ∃ ts, (∀ t ∈ ts, t.Writable) ∧
      (results.filterMap Except.toOption).map Lexeme.token = ts ++ [.endOfInput] := by
  induction h with
  | @token offset gap piece rest t results comment hgap hpiece hlongest _ ih =>
    obtain ⟨ts, hts, htokens⟩ := ih (fun f hf ↦ hfault f (List.mem_cons_of_mem _ hf))
      (fun l hl ↦ hreal l (List.mem_cons_of_mem _ hl))
    refine ⟨t :: ts, ?_, congrArg (t :: ·) htokens⟩
    have ht : t.Writable := .of_spells hpiece (hreal _ List.mem_cons_self)
    simpa [ht] using hts
  | ending hgap => exact ⟨[], by simp, rfl⟩
  | openComment hgap hbody => exact ⟨[], by simp, rfl⟩
  | integerTooLarge hgap hdigits hlt hlongest => exact absurd List.mem_cons_self (hfault _)
  | unrecognized hgap hlayout hnone => exact absurd List.mem_cons_self (hfault _)

theorem Scanner.exists_writable {source : String} (hfault : (ofString source).fault? = none)
    (hreal : ∀ l ∈ (ofString source).lexemes, ∀ x, l.token ≠ .real x) :
    ∃ ts, (∀ t ∈ ts, t.Writable) ∧
      (ofString source).lexemes.map Lexeme.token = ts ++ [.endOfInput] := by
  refine (segmented_all source).exists_writable ?_ fun l hl ↦ hreal l (mem_lexemes_iff.2 hl)
  intro f hf
  have hnone := List.findSome?_eq_none_iff.1 hfault _ hf
  cases hnone

namespace Token

/-- The scanner reads what was written, at the places of writing. -/
theorem all_write (gaps : Nat → Gap) {ts : List Token} (h : ∀ t ∈ ts, t.Writable) :
    (Scanner.ofString (String.ofList (write gaps ts))).all.1 = (written gaps 0 ts).map .ok ∧
      (Scanner.ofString (String.ofList (write gaps ts))).all.2.openComment = none := by
  refine (segmented_iff_all _ _ _).1 ?_
  rw [String.toList_ofList]
  exact segmented_write gaps h 0 .nil

/-- **Reading undoes writing.** Tokens that are written with any gaps between them are read from
exactly the places where they were written, the end of the text follows them, and no comment is
open. Conversely the tokens of every text without faults and real literals are read again,
whatever the gaps with which they are written. -/
theorem read_write (gaps : Nat → Gap) :
    (∀ ts, (∀ t ∈ ts, t.Writable) →
      (Scanner.ofString (String.ofList (write gaps ts))).all.1 = (written gaps 0 ts).map .ok ∧
      (Scanner.ofString (String.ofList (write gaps ts))).all.2.openComment = none ∧
      (written gaps 0 ts).map Lexeme.token = ts ++ [.endOfInput] ∧
      ∀ l ∈ written gaps 0 ts, l.token ≠ .endOfInput →
        l.span.Cuts (String.ofList (write gaps ts)) l.token.text) ∧
    ∀ source, (Scanner.ofString source).fault? = none →
      (∀ l ∈ (Scanner.ofString source).lexemes, ∀ x, l.token ≠ .real x) →
      ∃ ts, (Scanner.ofString source).lexemes.map Lexeme.token = ts ++ [.endOfInput] ∧
        (Scanner.ofString (String.ofList (write gaps ts))).fault? = none ∧
        (Scanner.ofString (String.ofList (write gaps ts))).lexemes.map Lexeme.token =
          (Scanner.ofString source).lexemes.map Lexeme.token := by
  constructor
  · intro ts hts
    obtain ⟨hall, hopen⟩ := all_write gaps hts
    refine ⟨hall, hopen, map_token_written gaps 0 ts, ?_⟩
    intro l hl hend
    obtain ⟨before, after, htext, hspan⟩ := exists_cut_of_mem_written hl hend
    rw [Nat.zero_add, Nat.zero_add] at hspan
    have hcut := Span.Cuts.of_toList before l.token.text.toList after
      (String.toList_ofList.trans htext) hspan
    rwa [String.ofList_toList] at hcut
  · intro source hfault hreal
    obtain ⟨ts, hts, htokens⟩ := Scanner.exists_writable hfault hreal
    obtain ⟨hlexemes, hnone⟩ := Scanner.lexemes_of_all (all_write gaps hts).1
    refine ⟨ts, htokens, hnone, ?_⟩
    rw [hlexemes, map_token_written, htokens]

/-- A keyword in a comment is no token, and the digits of a number are counted, not its zeros. -/
theorem read_write_sample : ∃ gaps : Nat → Gap,
    String.ofList (write gaps [.identifier "é", .symbol .assign, .integer 10, .keyword .div]) =
        "é{VAR}:={VAR}10{VAR}DIV" ∧
      (Scanner.ofString "é{VAR}:={VAR}10{VAR}DIV").all.1 =
        [.ok ⟨.identifier "é", ⟨0, 2⟩⟩, .ok ⟨.symbol .assign, ⟨7, 9⟩⟩, .ok ⟨.integer 10, ⟨14, 16⟩⟩,
          .ok ⟨.keyword .div, ⟨21, 24⟩⟩, .ok ⟨.endOfInput, ⟨24, 24⟩⟩] ∧
      ∃ ts, (Scanner.ofString "A:=007\x7b").lexemes.map Lexeme.token = ts ++ [.endOfInput] ∧
        (Scanner.ofString (String.ofList (write gaps ts))).lexemes.map Lexeme.token =
          [.identifier "A", .symbol .assign, .integer 7, .endOfInput] := by
  have htokens : (Scanner.ofString "A:=007\x7b").lexemes.map Lexeme.token =
      [.identifier "A", .symbol .assign, .integer 7, .endOfInput] := rfl
  have hreal : ∀ l ∈ (Scanner.ofString "A:=007\x7b").lexemes, ∀ x, l.token ≠ .real x := by
    intro l hl x hx
    have hmem := List.mem_map_of_mem (f := Lexeme.token) hl
    rw [htokens, hx] at hmem
    simp at hmem
  have hsample := read_write fun _ ↦ .comment "VAR".toList (by decide)
  refine ⟨fun _ ↦ .comment "VAR".toList (by decide), by decide +kernel, ?_, ?_⟩
  · refine (hsample.1 [.identifier "é", .symbol .assign, .integer 10, .keyword .div] ?_).1
    intro t ht
    simp only [List.mem_cons, List.not_mem_nil, or_false] at ht
    rcases ht with rfl | rfl | rfl | rfl
    · exact ⟨⟨'é', [], rfl, by decide +kernel, by simp⟩, fun k ↦ by cases k <;> decide⟩
    · exact trivial
    · exact (by decide : (0 : Int) ≤ (10 : Int64).toInt)
    · exact trivial
  · obtain ⟨ts, hts, -, hagain⟩ := hsample.2 "A:=007\x7b" rfl hreal
    exact ⟨ts, hts, hagain.trans htokens⟩

end Token

end MiniPascal
