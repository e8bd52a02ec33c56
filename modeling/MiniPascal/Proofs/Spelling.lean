import MiniPascal.Proofs.Stream

/-!
# How tokens are spelled

Which pieces of text spell which tokens, apart from any way of reading them (`Spells`), and that the
scanner takes the longest piece there is (`readsFrom_readToken`).

A row of digits belongs together whatever its value, so it is a piece of text also where it spells
no token for being too large. That is why "longest" is about pieces: otherwise a row of twenty nines
could be cut into integers that fit.

Three kinds of pieces are told apart by their first character, which is a letter, a digit or a
symbol. A piece can be extended only within its kind, so each kind has its own lemma on what ends a
longest piece.
-/

namespace MiniPascal

open Alphabet

/-! ## Pieces of text -/

/-- A letter with letters and numerals behind it. -/
def IsWord (cs : List Char) : Prop :=
  ∃ c rest, cs = c :: rest ∧ isLetter c ∧ ∀ d ∈ rest, isWordPart d

/-- A row of decimal digits. -/
def IsDigitRow (cs : List Char) : Prop := cs ≠ [] ∧ ∀ c ∈ cs, c.isDigit

/-- Two rows of digits with a point between them. -/
def IsDecimal (cs : List Char) : Prop :=
  ∃ whole fraction, cs = whole ++ '.' :: fraction ∧ IsDigitRow whole ∧ IsDigitRow fraction

/-- The piece of text spells the token. -/
inductive Spells : List Char → Token → Prop
  | keyword (k : Keyword) : Spells k.text.toList (.keyword k)
  | identifier {word : List Char} (h : IsWord word) (hk : ∀ k : Keyword, k.text.toList ≠ word) :
    Spells word (.identifier (String.ofList word))
  | integer {digits : List Char} {n : Int64} (h : IsDigitRow digits)
    (hn : n.toInt = decimalValue digits) : Spells digits (.integer n)
  | real {whole fraction : List Char} (hwhole : IsDigitRow whole)
    (hfraction : IsDigitRow fraction) :
    Spells (whole ++ '.' :: fraction) (realToken whole fraction)
  | symbol (s : Symbol) : Spells s.text.toList (.symbol s)

/-- The text belongs together: it spells a token or is a row of digits. -/
def IsPiece (cs : List Char) : Prop := (∃ t, Spells cs t) ∨ IsDigitRow cs

/-- No piece at the front of the text is longer. -/
def Longest (piece text : List Char) : Prop :=
  ∀ longer, longer <+: text → piece.length < longer.length → ¬IsPiece longer

/-! ## The kinds of pieces -/

theorem isWord_text (k : Keyword) : IsWord k.text.toList := by
  have hall : k.text.toList.all isLetter = true := by cases k <;> decide
  have hletters : ∀ c ∈ k.text.toList, isLetter c := List.all_eq_true.1 hall
  cases htext : k.text.toList with
  | nil => exact absurd htext (by cases k <;> decide)
  | cons c rest =>
    rw [htext] at hletters
    refine ⟨c, rest, rfl, hletters c List.mem_cons_self, fun d hd ↦ ?_⟩
    rw [isWordPart, hletters d (List.mem_cons_of_mem c hd), Bool.true_or]

/-- A piece is a word, a number or a symbol. -/
theorem IsPiece.cases {cs : List Char} (h : IsPiece cs) :
    IsWord cs ∨ IsDigitRow cs ∨ IsDecimal cs ∨ ∃ s : Symbol, cs = s.text.toList := by
  rcases h with ⟨t, h⟩ | h
  · cases h with
    | keyword k => exact .inl (isWord_text k)
    | identifier h _ => exact .inl h
    | integer h _ => exact .inr (.inl h)
    | real hwhole hfraction => exact .inr (.inr (.inl ⟨_, _, rfl, hwhole, hfraction⟩))
    | symbol s => exact .inr (.inr (.inr ⟨s, rfl⟩))
  · exact .inr (.inl h)

theorem IsPiece.ne_nil {cs : List Char} (h : IsPiece cs) : cs ≠ [] := by
  rcases h.cases with ⟨c, rest, rfl, -⟩ | h | ⟨whole, fraction, rfl, -⟩ | ⟨s, rfl⟩
  · exact List.cons_ne_nil _ _
  · exact h.1
  · simp
  · cases s <;> decide

theorem IsWord.isWordPart {cs : List Char} (h : IsWord cs) : ∀ c ∈ cs, isWordPart c := by
  obtain ⟨c, rest, rfl, hc, hrest⟩ := h
  intro d hd
  rcases List.mem_cons.1 hd with rfl | hd
  · rw [MiniPascal.isWordPart, hc, Bool.true_or]
  · exact hrest d hd

/-! ## First characters -/

theorem not_isLetter_of_lt {c : Char} (h : c.toNat < 0x41) : isLetter c = false := by
  have hfirst : c.toNat ≤ 0x5A := by omega
  have hlow : ¬0x41 ≤ c.toNat := by omega
  rw [isLetter, letterRanges, Ranges.contains, if_pos hfirst, decide_eq_false hlow]

theorem toNat_of_isDigit {c : Char} (h : c.isDigit) : 48 ≤ c.toNat ∧ c.toNat ≤ 57 := by
  simpa [Char.isDigit, UInt32.le_iff_toNat_le] using h

theorem not_isLetter_of_isDigit {c : Char} (h : c.isDigit) : isLetter c = false :=
  not_isLetter_of_lt (by have := toNat_of_isDigit h; omega)

/-- A symbol starts with a character that is neither a letter nor a digit. -/
theorem Symbol.exists_head (s : Symbol) :
    ∃ c rest, s.text.toList = c :: rest ∧ c.toNat < 0x41 ∧ c.isDigit = false := by
  cases s <;> exact ⟨_, _, rfl, by decide, by decide⟩

theorem not_isWord_of_lt {c : Char} {cs : List Char} (h : c.toNat < 0x41) : ¬IsWord (c :: cs) := by
  rintro ⟨d, rest, heq, hd, -⟩
  cases heq
  rw [not_isLetter_of_lt h] at hd
  cases hd

/-- A piece that starts with a letter is a word. -/
theorem IsPiece.isWord {c : Char} {cs : List Char} (h : IsPiece (c :: cs)) (hc : isLetter c) :
    IsWord (c :: cs) := by
  have hdigit : ¬c.isDigit := fun h ↦ by simp [not_isLetter_of_isDigit h] at hc
  rcases h.cases with h | ⟨-, h⟩ | ⟨whole, fraction, heq, ⟨hne, hwhole⟩, -⟩ | ⟨s, hs⟩
  · exact h
  · exact absurd (h c List.mem_cons_self) hdigit
  · obtain ⟨d, ds, rfl⟩ := List.exists_cons_of_ne_nil hne
    cases heq
    exact absurd (hwhole c List.mem_cons_self) hdigit
  · obtain ⟨d, ds, htext, hd, -⟩ := s.exists_head
    rw [htext] at hs
    cases hs
    rw [not_isLetter_of_lt hd] at hc
    cases hc

/-- A piece that starts with a digit is a number. -/
theorem IsPiece.isNumber {c : Char} {cs : List Char} (h : IsPiece (c :: cs)) (hc : c.isDigit) :
    IsDigitRow (c :: cs) ∨ IsDecimal (c :: cs) := by
  have hlow : c.toNat < 0x41 := by have := toNat_of_isDigit hc; omega
  rcases h.cases with h | h | h | ⟨s, hs⟩
  · exact absurd h (not_isWord_of_lt hlow)
  · exact .inl h
  · exact .inr h
  · obtain ⟨d, ds, htext, -, hd⟩ := s.exists_head
    rw [htext] at hs
    cases hs
    rw [hd] at hc
    cases hc

/-- A piece that starts with neither is a symbol. -/
theorem IsPiece.isSymbol {c : Char} {cs : List Char} (h : IsPiece (c :: cs))
    (hletter : isLetter c = false) (hdigit : c.isDigit = false) :
    ∃ s : Symbol, c :: cs = s.text.toList := by
  rcases h.cases with ⟨d, rest, heq, hd, -⟩ | ⟨-, h⟩ | ⟨whole, fraction, heq, ⟨hne, hwhole⟩, -⟩ | h
  · cases heq
    rw [hletter] at hd
    cases hd
  · have hc := h c List.mem_cons_self
    rw [hdigit] at hc
    cases hc
  · obtain ⟨d, ds, rfl⟩ := List.exists_cons_of_ne_nil hne
    cases heq
    have hc := hwhole c List.mem_cons_self
    rw [hdigit] at hc
    cases hc
  · exact h

/-! ## What ends a longest piece -/

/-- A longer piece goes on with a character of what follows. -/
theorem exists_of_longer {piece rest longer : List Char} (h : longer <+: piece ++ rest)
    (hlength : piece.length < longer.length) :
    ∃ d more, longer = piece ++ d :: more ∧ d :: more <+: rest := by
  obtain ⟨tail, rfl⟩ : piece <+: longer :=
    List.prefix_of_prefix_length_le (List.prefix_append _ _) h (Nat.le_of_lt hlength)
  cases tail with
  | nil => simp at hlength
  | cons d more => exact ⟨d, more, rfl, (List.prefix_append_right_inj piece).1 h⟩

theorem longest_word {word rest : List Char} (h : IsWord word)
    (hrest : ∀ c ∈ rest.head?, isWordPart c = false) : Longest word (word ++ rest) := by
  intro longer hpre hlength hpiece
  obtain ⟨d, more, rfl, hmore⟩ := exists_of_longer hpre hlength
  obtain ⟨c, cs, rfl, hc, -⟩ := h
  have hd : isWordPart d = true := (hpiece.isWord hc).isWordPart d (by simp)
  obtain ⟨tail, rfl⟩ := hmore
  rw [hrest d rfl] at hd
  cases hd

/-- The first row of digits of a number is the same however the number is cut. -/
theorem eq_of_digits_append {ds es us vs : List Char} {c d : Char} (hds : ∀ x ∈ ds, x.isDigit)
    (hes : ∀ x ∈ es, x.isDigit) (hc : c.isDigit = false) (hd : d.isDigit = false)
    (h : ds ++ c :: us = es ++ d :: vs) : ds = es ∧ c = d ∧ us = vs := by
  have htake (l : List Char) (x : Char) (xs : List Char) (hl : ∀ x ∈ l, x.isDigit)
      (hx : x.isDigit = false) : (l ++ x :: xs).takeWhile Char.isDigit = l := by
    rw [List.takeWhile_append_of_pos hl, List.takeWhile_cons_of_neg (by simp [hx]),
      List.append_nil]
  have hfront : ds = es := by
    rw [← htake ds c us hds hc, h, htake es d vs hes hd]
  subst hfront
  exact ⟨rfl, List.cons.inj (List.append_cancel_left h)⟩

theorem isDigit_point : ('.').isDigit = false := rfl

/-- A row of digits ends in front of what is neither a digit nor a point with a digit behind it. -/
theorem longest_digitRow {digits rest : List Char} (h : IsDigitRow digits)
    (hrest : ∀ c ∈ rest.head?, c.isDigit = false)
    (hpoint : ∀ d more, rest = '.' :: d :: more → d.isDigit = false) :
    Longest digits (digits ++ rest) := by
  intro longer hpre hlength hpiece
  obtain ⟨d, more, rfl, tail, rfl⟩ := exists_of_longer hpre hlength
  obtain ⟨hne, hdigits⟩ := h
  obtain ⟨c, cs, rfl⟩ := List.exists_cons_of_ne_nil hne
  have hd : d.isDigit = false := hrest d rfl
  rcases hpiece.isNumber (hdigits c List.mem_cons_self) with ⟨-, hall⟩ |
    ⟨whole, fraction, heq, ⟨-, hwhole⟩, ⟨hfraction, hall⟩⟩
  · rw [hall d (by simp)] at hd
    cases hd
  · obtain ⟨-, rfl, rfl⟩ := eq_of_digits_append hdigits hwhole hd isDigit_point heq
    obtain ⟨e, es, rfl⟩ := List.exists_cons_of_ne_nil hfraction
    have he := hall e List.mem_cons_self
    rw [hpoint e (es ++ tail) rfl] at he
    cases he

theorem longest_decimal {whole rest : List Char} (hwhole : IsDigitRow whole)
    (fraction : List Char) (hrest : ∀ c ∈ rest.head?, c.isDigit = false) :
    Longest (whole ++ '.' :: fraction) (whole ++ '.' :: fraction ++ rest) := by
  intro longer hpre hlength hpiece
  obtain ⟨d, more, rfl, tail, rfl⟩ := exists_of_longer hpre hlength
  obtain ⟨hne, hdigits⟩ := hwhole
  obtain ⟨c, cs, rfl⟩ := List.exists_cons_of_ne_nil hne
  have hd : d.isDigit = false := hrest d rfl
  rcases hpiece.isNumber (hdigits c List.mem_cons_self) with ⟨-, hall⟩ |
    ⟨whole', fraction', heq, ⟨-, hwhole'⟩, ⟨-, hall⟩⟩
  · have := hall '.' (by simp)
    rw [isDigit_point] at this
    cases this
  · have hcut : c :: cs ++ '.' :: (fraction ++ d :: more) = whole' ++ '.' :: fraction' := by
      simpa using heq
    obtain ⟨-, -, rfl⟩ := eq_of_digits_append hdigits hwhole' isDigit_point isDigit_point hcut
    rw [hall d (by simp)] at hd
    cases hd

/-- A symbol of one character is found, or a longer one that starts with it; a symbol of two is
found. -/
theorem Symbol.found (s : Symbol) :
    (∃ c, s.text.toList = [c] ∧ ∀ next, ∃ found, symbol? c next = some found ∧
        s.text.length ≤ found.text.length) ∨
      ∃ c d, s.text.toList = [c, d] ∧ symbol? c (some d) = some s := by
  have hone (c : Char) (hc : s.text.toList = [c]) (found : Option Char → Symbol)
      (hfound : ∀ next, symbol? c next = some (found next)) : ∃ c, s.text.toList = [c] ∧
      ∀ next, ∃ found, symbol? c next = some found ∧ s.text.length ≤ found.text.length := by
    refine ⟨c, hc, fun next ↦ ⟨found next, hfound next, ?_⟩⟩
    have hlength : s.text.length = 1 := by rw [← String.length_toList, hc]; rfl
    have hpositive : 0 < (found next).text.length := by cases found next <;> decide
    omega
  cases s with
  | notEqual => exact .inr ⟨_, _, rfl, rfl⟩
  | lessEqual => exact .inr ⟨_, _, rfl, rfl⟩
  | greaterEqual => exact .inr ⟨_, _, rfl, rfl⟩
  | assign => exact .inr ⟨_, _, rfl, rfl⟩
  | _ => exact .inl (hone _ rfl _ fun _ ↦ rfl)

/-- A symbol at the front of a text is no longer than the one that is found there. -/
theorem length_le_of_symbol? {c : Char} {cs : List Char} {s : Symbol}
    (h : s.text.toList <+: c :: cs) :
    ∃ found, symbol? c cs.head? = some found ∧ s.text.length ≤ found.text.length := by
  obtain ⟨tail, htail⟩ := h
  rcases s.found with ⟨a, ha, hfound⟩ | ⟨a, b, hab, hfound⟩
  · rw [ha] at htail
    cases htail
    exact hfound _
  · rw [hab] at htail
    cases htail
    exact ⟨s, hfound, Nat.le_refl _⟩

theorem longest_symbol {c : Char} {cs : List Char} {s : Symbol} (hletter : isLetter c = false)
    (hdigit : c.isDigit = false) (h : symbol? c cs.head? = some s) :
    Longest s.text.toList (c :: cs) := by
  intro longer hpre hlength hpiece
  cases longer with
  | nil => cases hlength
  | cons d more =>
    obtain ⟨rfl, -⟩ := List.cons_prefix_cons.1 hpre
    obtain ⟨s', hs'⟩ := hpiece.isSymbol hletter hdigit
    rw [hs'] at hpre
    obtain ⟨found, hfound, hle⟩ := length_le_of_symbol? hpre
    cases hfound.symm.trans h
    rw [hs', String.length_toList, String.length_toList] at hlength
    omega

/-- Where no symbol is found, there is none. -/
theorem not_isPiece_of_symbol? {c : Char} {cs piece : List Char} (hletter : isLetter c = false)
    (hdigit : c.isDigit = false) (h : symbol? c cs.head? = none) (hpre : piece <+: c :: cs)
    (hne : piece ≠ []) : ¬IsPiece piece := by
  intro hpiece
  obtain ⟨d, more, rfl⟩ := List.exists_cons_of_ne_nil hne
  obtain ⟨rfl, -⟩ := List.cons_prefix_cons.1 hpre
  obtain ⟨s, hs⟩ := hpiece.isSymbol hletter hdigit
  rw [hs] at hpre
  obtain ⟨found, hfound, -⟩ := length_le_of_symbol? hpre
  cases hfound.symm.trans h

/-! ## Placed characters -/

/-- The number of bytes of a text. -/
def byteLength : List Char → Nat
  | [] => 0
  | c :: cs => c.utf8Size + byteLength cs

@[simp] theorem byteLength_nil : byteLength [] = 0 := rfl

@[simp] theorem byteLength_cons (c : Char) (cs : List Char) :
    byteLength (c :: cs) = c.utf8Size + byteLength cs := rfl

@[simp] theorem byteLength_append (cs ds : List Char) :
    byteLength (cs ++ ds) = byteLength cs + byteLength ds := by
  induction cs with
  | nil => simp
  | cons c cs ih => simp [ih, Nat.add_assoc]

namespace Placed

theorem layOut_append (offset : Nat) (cs ds : List Char) :
    layOut offset (cs ++ ds) = layOut offset cs ++ layOut (offset + byteLength cs) ds := by
  induction cs generalizing offset with
  | nil => rfl
  | cons c cs ih =>
    rw [List.cons_append, layOut, layOut, ih, byteLength_cons, List.cons_append, Nat.add_assoc]

/-- What is left of characters that are laid out is some of them. -/
theorem exists_of_suffix_layOut {text : List Char} {rest : List Placed}
    (h : rest <:+ layOut 0 text) :
    ∃ before after, text = before ++ after ∧ rest = layOut (byteLength before) after := by
  obtain ⟨front, hfront⟩ := h
  have htext : text = text.take front.length ++ text.drop front.length :=
    (List.take_append_drop ..).symm
  refine ⟨_, _, htext, ?_⟩
  rw [htext, layOut_append, Nat.zero_add] at hfront
  refine (List.append_inj hfront ?_).2
  have hlength := congrArg List.length hfront
  simp only [List.length_append, length_layOut, List.length_take, List.length_drop] at hlength ⊢
  omega

theorem takeWhile_layOut (p : Char → Bool) (offset : Nat) (cs : List Char) :
    (layOut offset cs).takeWhile (fun x ↦ p x.char) = layOut offset (cs.takeWhile p) := by
  induction cs generalizing offset with
  | nil => rfl
  | cons c cs ih => by_cases hc : p c <;> simp [layOut, hc, ih]

theorem dropWhile_layOut (p : Char → Bool) (offset : Nat) (cs : List Char) :
    (layOut offset cs).dropWhile (fun x ↦ p x.char) =
      layOut (offset + byteLength (cs.takeWhile p)) (cs.dropWhile p) := by
  induction cs generalizing offset with
  | nil => rfl
  | cons c cs ih => by_cases hc : p c <;> simp [layOut, hc, ih, Nat.add_assoc]

theorem head?_layOut (offset : Nat) (cs : List Char) :
    (layOut offset cs).head?.map Placed.char = cs.head? := by
  cases cs <;> rfl

end Placed

/-! ## What is read -/

open Placed

/-- The reading is of the longest piece at the front of a text; there is none where a character is
not recognized. -/
def ReadsFrom (offset : Nat) (text : List Char) : Reading → Prop
  | .token t rest =>
    ∃ piece after, text = piece ++ after ∧ Spells piece t ∧ Longest piece text ∧
      rest = layOut (offset + byteLength piece) after
  | .integerTooLarge rest =>
    ∃ digits after, text = digits ++ after ∧ IsDigitRow digits ∧
      Value.maxInteger < decimalValue digits ∧ Longest digits text ∧
      rest = layOut (offset + byteLength digits) after
  | .unrecognized => ∀ piece, piece <+: text → ¬IsPiece piece

theorem spells_wordToken {word : List Char} (h : IsWord word) :
    Spells word (wordToken (String.ofList word)) := by
  rw [wordToken]
  cases hk : Keyword.ofText? (String.ofList word) with
  | some k =>
    have hword : word = k.text.toList := by
      rw [Keyword.text_of_ofText? hk, String.toList_ofList]
    rw [hword]
    exact .keyword k
  | none =>
    refine .identifier h fun k hword ↦ ?_
    rw [← hword, String.ofList_toList, Keyword.ofText?_text] at hk
    cases hk

theorem not_of_mem_head?_dropWhile {p : Char → Bool} (cs : List Char) :
    ∀ c ∈ (cs.dropWhile p).head?, p c = false := by
  intro c hc
  have := List.head?_dropWhile_not p cs
  rw [Option.mem_def.1 hc] at this
  simpa using this

theorem readsFrom_readWord (offset : Nat) {c : Char} {cs : List Char} (hc : isLetter c) :
    ReadsFrom offset (c :: cs) (readWord (layOut offset (c :: cs))) := by
  have hword : IsWord ((c :: cs).takeWhile isWordPart) := by
    rw [List.takeWhile_cons_of_pos (by rw [isWordPart, hc, Bool.true_or])]
    exact ⟨c, _, rfl, hc, fun d hd ↦ List.all_eq_true.1 List.all_takeWhile d hd⟩
  have hlongest := longest_word hword (not_of_mem_head?_dropWhile (c :: cs))
  rw [List.takeWhile_append_dropWhile] at hlongest
  rw [readWord, takeWhile_layOut, map_char_layOut, dropWhile_layOut]
  exact ⟨_, _, List.takeWhile_append_dropWhile.symm, spells_wordToken hword, hlongest, rfl⟩

theorem readsFrom_integerReading (offset : Nat) {digits after : List Char}
    (h : IsDigitRow digits) (hlongest : Longest digits (digits ++ after)) :
    ReadsFrom offset (digits ++ after)
      (integerReading digits (layOut (offset + byteLength digits) after)) := by
  rw [integerReading]
  split
  · next hle =>
    refine ⟨digits, after, rfl, .integer h ?_, hlongest, rfl⟩
    rw [Value.maxInteger] at hle
    exact Int64.toInt_ofNat_of_lt (by omega)
  · next hlt => exact ⟨digits, after, rfl, h, by omega, hlongest, rfl⟩

/-- A text that starts with a digit starts with a whole row of them. -/
theorem exists_digitRow {c : Char} (cs : List Char) (hc : c.isDigit) :
    ∃ digits rest, c :: cs = digits ++ rest ∧ IsDigitRow digits ∧
      ∀ d ∈ rest.head?, d.isDigit = false := by
  refine ⟨(c :: cs).takeWhile Char.isDigit, (c :: cs).dropWhile Char.isDigit,
    List.takeWhile_append_dropWhile.symm, ⟨?_, ?_⟩, not_of_mem_head?_dropWhile _⟩
  · rw [List.takeWhile_cons_of_pos hc]
    exact List.cons_ne_nil _ _
  · exact fun d hd ↦ List.all_eq_true.1 List.all_takeWhile d hd

theorem takeWhile_digitRow {digits rest : List Char} (h : IsDigitRow digits)
    (hrest : ∀ c ∈ rest.head?, c.isDigit = false) :
    (digits ++ rest).takeWhile Char.isDigit = digits ∧
      (digits ++ rest).dropWhile Char.isDigit = rest := by
  rw [List.takeWhile_append_of_pos h.2, List.dropWhile_append_of_pos h.2]
  cases rest with
  | nil => exact ⟨List.append_nil _, rfl⟩
  | cons c rest => simp [hrest c rfl]

theorem readNumber_of_decimal (offset : Nat) {whole fraction : List Char}
    (hwhole : IsDigitRow whole) (hfraction : IsDigitRow fraction) (rest : List Char)
    (hrest : ∀ c ∈ rest.head?, c.isDigit = false) :
    readNumber (layOut offset (whole ++ '.' :: (fraction ++ rest))) =
      .token (realToken whole fraction)
        (layOut (offset + byteLength (whole ++ '.' :: fraction)) rest) := by
  have hpoint : ∀ c ∈ ('.' :: (fraction ++ rest)).head?, c.isDigit = false := by
    rintro _ ⟨⟩
    rfl
  obtain ⟨htake, hdrop⟩ := takeWhile_digitRow hwhole hpoint
  obtain ⟨htake', hdrop'⟩ := takeWhile_digitRow hfraction hrest
  obtain ⟨hne, hdigits⟩ := hfraction
  obtain ⟨d, ds, rfl⟩ := List.exists_cons_of_ne_nil hne
  have hd : d.isDigit := hdigits d List.mem_cons_self
  rw [readNumber, takeWhile_layOut, map_char_layOut, dropWhile_layOut, htake, hdrop]
  have hplaced (offset : Nat) :
      (⟨offset, d⟩ : Placed) :: layOut (offset + d.utf8Size) (ds ++ rest) =
        layOut offset (d :: ds ++ rest) := rfl
  simp only [List.cons_append, layOut, hd, and_self, if_true]
  rw [hplaced, takeWhile_layOut, map_char_layOut, dropWhile_layOut, htake', hdrop']
  simp [Nat.add_assoc]

theorem readNumber_of_digitRow (offset : Nat) {digits : List Char} (h : IsDigitRow digits)
    (rest : List Char) (hrest : ∀ c ∈ rest.head?, c.isDigit = false)
    (hpoint : ∀ d more, rest = '.' :: d :: more → d.isDigit = false) :
    readNumber (layOut offset (digits ++ rest)) =
      integerReading digits (layOut (offset + byteLength digits) rest) := by
  obtain ⟨htake, hdrop⟩ := takeWhile_digitRow h hrest
  rw [readNumber, takeWhile_layOut, map_char_layOut, dropWhile_layOut, htake, hdrop]
  rcases rest with _ | ⟨c, _ | ⟨d, more⟩⟩
  · rfl
  · rfl
  · simp only [layOut]
    refine if_neg ?_
    rintro ⟨rfl, hd⟩
    rw [hpoint d more rfl] at hd
    cases hd

theorem readsFrom_readNumber (offset : Nat) {c : Char} {cs : List Char} (hc : c.isDigit) :
    ReadsFrom offset (c :: cs) (readNumber (layOut offset (c :: cs))) := by
  obtain ⟨whole, rest, hcut, hwhole, hrest⟩ := exists_digitRow cs hc
  rw [hcut]
  by_cases hpoint : ∃ d more, rest = '.' :: d :: more ∧ d.isDigit
  · obtain ⟨d, more, rfl, hd⟩ := hpoint
    obtain ⟨fraction, rest, hcut', hfraction, hrest'⟩ := exists_digitRow more hd
    rw [hcut', readNumber_of_decimal offset hwhole hfraction rest hrest']
    have hlongest := longest_decimal hwhole fraction hrest'
    rw [List.append_assoc, List.cons_append] at hlongest
    exact ⟨_, rest, by simp, .real hwhole hfraction, hlongest, rfl⟩
  · have hpoint' : ∀ d more, rest = '.' :: d :: more → d.isDigit = false := by
      intro d more heq
      simpa using fun hd ↦ hpoint ⟨d, more, heq, hd⟩
    rw [readNumber_of_digitRow offset hwhole rest hrest hpoint']
    exact readsFrom_integerReading offset hwhole (longest_digitRow hwhole hrest hpoint')

/-- A symbol that is found is the character, or the character with the one after it. -/
theorem text_of_symbol? {c : Char} {next : Option Char} {s : Symbol}
    (h : symbol? c next = some s) :
    s.text.toList = [c] ∨ ∃ d, next = some d ∧ s.text.toList = [c, d] := by
  have htwo {two one : Symbol} {c d : Char} (htwo : two.text.toList = [c, d])
      (hone : one.text.toList = [c]) (h : (if next = some d then two else one) = s) :
      s.text.toList = [c] ∨ ∃ d, next = some d ∧ s.text.toList = [c, d] := by
    split at h
    · next hd =>
      subst h
      exact .inr ⟨d, hd, htwo⟩
    · subst h
      exact .inl hone
  unfold symbol? at h
  split at h
  case h_12 => exact htwo rfl rfl (Option.some.inj h)
  case h_13 =>
    -- a second symbol of two characters starts with this one
    by_cases hd : next = some '>'
    · rw [if_pos hd] at h
      cases h
      exact .inr ⟨_, hd, rfl⟩
    · rw [if_neg hd] at h
      exact htwo rfl rfl (Option.some.inj h)
  case h_14 => exact htwo rfl rfl (Option.some.inj h)
  case h_15 => cases h
  all_goals
    cases h
    exact .inl rfl

/-- The text of a symbol that is found is at the front. -/
theorem prefix_of_symbol? {c : Char} {cs : List Char} {s : Symbol}
    (h : symbol? c cs.head? = some s) : s.text.toList <+: c :: cs := by
  rcases text_of_symbol? h with htext | ⟨d, hd, htext⟩
  · rw [htext]
    exact ⟨cs, rfl⟩
  · obtain ⟨more, rfl⟩ := List.head?_eq_some_iff.1 hd
    rw [htext]
    exact ⟨more, rfl⟩

theorem readsFrom_readSymbol (offset : Nat) {c : Char} {cs : List Char}
    (hletter : isLetter c = false) (hdigit : c.isDigit = false) :
    ReadsFrom offset (c :: cs) (readSymbol ⟨offset, c⟩ (layOut (offset + c.utf8Size) cs)) := by
  rw [readSymbol, head?_layOut]
  cases hs : symbol? c cs.head? with
  | none => exact fun piece hpre hpiece ↦
      not_isPiece_of_symbol? hletter hdigit hs hpre hpiece.ne_nil hpiece
  | some s =>
    obtain ⟨after, hafter⟩ := prefix_of_symbol? hs
    have hplaced : (⟨offset, c⟩ : Placed) :: layOut (offset + c.utf8Size) cs =
        layOut offset s.text.toList ++ layOut (offset + byteLength s.text.toList) after := by
      rw [← layOut_append, hafter, layOut]
    refine ⟨s.text.toList, after, hafter.symm, .symbol s, longest_symbol hletter hdigit hs, ?_⟩
    rw [hplaced]
    exact List.drop_left' (by rw [length_layOut, String.length_toList])

/-- **The scanner reads the longest piece.** -/
theorem readsFrom_readToken (offset : Nat) (c : Char) (cs : List Char) :
    ReadsFrom offset (c :: cs) (readToken ⟨offset, c⟩ (layOut (offset + c.utf8Size) cs)) := by
  rw [readToken]
  split
  · next hdigit => exact readsFrom_readNumber offset hdigit
  · next hdigit =>
    split
    · next hletter => exact readsFrom_readWord offset hletter
    · next hletter =>
      exact readsFrom_readSymbol offset (by simpa using hletter) (by simpa using hdigit)

/-! ## One token for a piece -/

theorem wordToken_of_keyword (k : Keyword) :
    wordToken (String.ofList k.text.toList) = .keyword k := by
  rw [wordToken, String.ofList_toList, Keyword.ofText?_text]

theorem wordToken_of_identifier {word : List Char} (h : ∀ k : Keyword, k.text.toList ≠ word) :
    wordToken (String.ofList word) = .identifier (String.ofList word) := by
  rw [wordToken]
  cases hk : Keyword.ofText? (String.ofList word) with
  | none => rfl
  | some k => exact absurd (by rw [Keyword.text_of_ofText? hk, String.toList_ofList]) (h k)

theorem readToken_of_isWord {c : Char} {cs : List Char} (h : IsWord (c :: cs)) :
    readToken ⟨0, c⟩ (layOut (0 + c.utf8Size) cs) =
      .token (wordToken (String.ofList (c :: cs))) [] := by
  have hall := h.isWordPart
  obtain ⟨d, rest, heq, hletter, -⟩ := h
  cases heq
  have hdigit : ¬c.isDigit := fun h ↦ by simp [not_isLetter_of_isDigit h] at hletter
  have hplaced : (⟨0, c⟩ : Placed) :: layOut (0 + c.utf8Size) cs = layOut 0 (c :: cs) := rfl
  have htake : ((c :: cs) ++ []).takeWhile isWordPart = c :: cs ++ [].takeWhile isWordPart :=
    List.takeWhile_append_of_pos hall
  have hdrop : ((c :: cs) ++ []).dropWhile isWordPart = [].dropWhile isWordPart :=
    List.dropWhile_append_of_pos hall
  rw [List.append_nil, List.takeWhile_nil, List.append_nil] at htake
  rw [List.append_nil, List.dropWhile_nil] at hdrop
  rw [readToken, if_neg hdigit, if_pos hletter, hplaced, readWord, takeWhile_layOut,
    map_char_layOut, dropWhile_layOut, htake, hdrop, layOut]

theorem readToken_of_isDigit (c : Char) (cs : List Char) (h : c.isDigit) :
    readToken ⟨0, c⟩ (layOut (0 + c.utf8Size) cs) = readNumber (layOut 0 (c :: cs)) := by
  rw [readToken, if_pos h, layOut]

/-- A piece on its own is read as the token that it spells. -/
theorem Spells.readToken_eq {c : Char} {cs : List Char} {t : Token} (h : Spells (c :: cs) t) :
    readToken ⟨0, c⟩ (layOut (0 + c.utf8Size) cs) = .token t [] := by
  generalize hpiece : c :: cs = piece at h
  cases h with
  | keyword k =>
    have hword := isWord_text k
    rw [← hpiece] at hword
    rw [readToken_of_isWord hword, hpiece, wordToken_of_keyword]
  | identifier hword hk =>
    rw [← hpiece] at hword
    rw [readToken_of_isWord hword, hpiece, wordToken_of_identifier hk]
  | @integer _ n hrow hn =>
    have hc : c.isDigit := hrow.2 c (by rw [← hpiece]; exact List.mem_cons_self)
    have hread := readNumber_of_digitRow 0 hrow [] nofun nofun
    rw [List.append_nil, ← hpiece] at hread
    have hfits : (decimalValue (c :: cs) : Int) ≤ Value.maxInteger := by
      rw [hpiece, ← hn]
      exact n.toInt_le
    rw [readToken_of_isDigit c cs hc, hread, integerReading, if_pos hfits, hpiece]
    congr 2
    rw [← Int64.toInt_inj, hn]
    rw [hpiece] at hfits
    exact Int64.toInt_ofNat_of_lt (by rw [Value.maxInteger] at hfits; omega)
  | @real whole fraction hwhole hfraction =>
    obtain ⟨d, ds, rfl⟩ := List.exists_cons_of_ne_nil hwhole.1
    cases hpiece
    have hread := readNumber_of_decimal 0 hwhole hfraction [] nofun
    rw [List.append_nil] at hread
    rw [readToken_of_isDigit _ _ (hwhole.2 c List.mem_cons_self)]
    exact hread
  | symbol s => cases s <;> cases hpiece <;> rfl

theorem Spells.unique {piece : List Char} {t t' : Token} (h : Spells piece t)
    (h' : Spells piece t') : t = t' := by
  obtain ⟨c, cs, rfl⟩ := List.exists_cons_of_ne_nil (IsPiece.ne_nil (.inl ⟨t, h⟩))
  have heq := h.readToken_eq.symm.trans h'.readToken_eq
  cases heq
  rfl

/-- A row of digits spells an integer if it spells anything. -/
theorem Spells.value_le {digits : List Char} {t : Token} (h : Spells digits t)
    (hdigits : IsDigitRow digits) : (decimalValue digits : Int) ≤ Value.maxInteger := by
  have hread := readNumber_of_digitRow 0 hdigits [] nofun nofun
  obtain ⟨c, cs, rfl⟩ := List.exists_cons_of_ne_nil hdigits.1
  rw [List.append_nil, ← readToken_of_isDigit c cs (hdigits.2 c List.mem_cons_self),
    h.readToken_eq, integerReading] at hread
  split at hread
  · next hle => exact hle
  · cases hread

/-- There is one longest piece at the front of a text. -/
theorem Longest.eq {piece piece' text : List Char} (h : Longest piece text)
    (h' : Longest piece' text) (hpre : piece <+: text) (hpre' : piece' <+: text)
    (hpiece : IsPiece piece) (hpiece' : IsPiece piece') : piece = piece' := by
  have hle : ¬piece.length < piece'.length := fun hlt ↦ h piece' hpre' hlt hpiece'
  have hle' : ¬piece'.length < piece.length := fun hlt ↦ h' piece hpre hlt hpiece
  have hlength : piece.length = piece'.length := by omega
  exact (List.prefix_of_prefix_length_le hpre hpre' (by omega)).eq_of_length hlength

/-- **One reading.** What the longest piece is read as does not depend on how it was found. -/
theorem ReadsFrom.unique {offset : Nat} {text : List Char} {r r' : Reading}
    (h : ReadsFrom offset text r) (h' : ReadsFrom offset text r') : r = r' := by
  have hfits {digits after : List Char} {t : Token} {piece after' : List Char}
      (hdigits : text = digits ++ after ∧ IsDigitRow digits ∧
        Value.maxInteger < decimalValue digits ∧ Longest digits text)
      (hpiece : text = piece ++ after' ∧ Spells piece t ∧ Longest piece text) : False := by
    obtain ⟨hcut, hrow, hlt, hlongest⟩ := hdigits
    obtain ⟨hcut', hspells, hlongest'⟩ := hpiece
    obtain rfl := hlongest.eq hlongest' (hcut ▸ List.prefix_append _ _)
      (hcut' ▸ List.prefix_append _ _) (.inr hrow) (.inl ⟨t, hspells⟩)
    have := hspells.value_le hrow
    omega
  cases r with
  | token t rest =>
    obtain ⟨piece, after, hcut, hspells, hlongest, rfl⟩ := h
    have hpre : piece <+: text := hcut ▸ List.prefix_append _ _
    cases r' with
    | token t' rest' =>
      obtain ⟨piece', after', hcut', hspells', hlongest', rfl⟩ := h'
      obtain rfl := hlongest.eq hlongest' hpre (hcut' ▸ List.prefix_append _ _)
        (.inl ⟨t, hspells⟩) (.inl ⟨t', hspells'⟩)
      obtain rfl := List.append_cancel_left (hcut.symm.trans hcut')
      rw [hspells.unique hspells']
    | integerTooLarge rest' =>
      obtain ⟨digits, after', hcut', hrow, hlt, hlongest', -⟩ := h'
      exact (hfits ⟨hcut', hrow, hlt, hlongest'⟩ ⟨hcut, hspells, hlongest⟩).elim
    | unrecognized => exact absurd (.inl ⟨t, hspells⟩) (h' piece hpre)
  | integerTooLarge rest =>
    obtain ⟨digits, after, hcut, hrow, hlt, hlongest, rfl⟩ := h
    have hpre : digits <+: text := hcut ▸ List.prefix_append _ _
    cases r' with
    | token t' rest' =>
      obtain ⟨piece, after', hcut', hspells, hlongest', -⟩ := h'
      exact (hfits ⟨hcut, hrow, hlt, hlongest⟩ ⟨hcut', hspells, hlongest'⟩).elim
    | integerTooLarge rest' =>
      obtain ⟨digits', after', hcut', hrow', -, hlongest', rfl⟩ := h'
      obtain rfl := hlongest.eq hlongest' hpre (hcut' ▸ List.prefix_append _ _)
        (.inr hrow) (.inr hrow')
      obtain rfl := List.append_cancel_left (hcut.symm.trans hcut')
      rfl
    | unrecognized => exact absurd (.inr hrow) (h' digits hpre)
  | unrecognized =>
    cases r' with
    | token t' rest' =>
      obtain ⟨piece, after, hcut, hspells, -⟩ := h'
      exact absurd (.inl ⟨t', hspells⟩) (h piece (hcut ▸ List.prefix_append _ _))
    | integerTooLarge rest' =>
      obtain ⟨digits, after, hcut, hrow, -⟩ := h'
      exact absurd (.inr hrow) (h digits (hcut ▸ List.prefix_append _ _))
    | unrecognized => rfl

end MiniPascal
