import MiniPascal.Proofs.Correspondence
import MiniPascal.Proofs.Segmentation

/-!
# Places in a text

A place is a span of a text: it lies on whole characters, and what it cuts out is a piece of the
text (`Span.Cuts`). The place of a token cuts out what spells the token, the places of two tokens
span a piece from the first to the last, and the place of a lexical fault cuts out the character
that starts no token or the whole row of digits that is too large.

A row of digits is whole on its left as well: a token or a gap in front of it that ends in a digit
would have taken its first digit too.
-/

namespace MiniPascal

open Placed

/-! ## Pieces of a text -/

theorem byteLength_toList (s : String) : byteLength s.toList = s.utf8ByteSize := by
  rw [← utf8ByteSize_ofList, String.ofList_toList]

/-- The span is that of a piece of the text. -/
def Span.Cuts (span : Span) (source piece : String) : Prop :=
  ∃ before after, source = before ++ piece ++ after ∧
    span = ⟨before.utf8ByteSize, (before ++ piece).utf8ByteSize⟩

namespace Span.Cuts

variable {span : Span} {source piece : String}

theorem of_toList (before inner after : List Char)
    (htext : source.toList = before ++ (inner ++ after))
    (hspan : span = ⟨byteLength before, byteLength (before ++ inner)⟩) :
    span.Cuts source (String.ofList inner) := by
  refine ⟨.ofList before, .ofList after, ?_, ?_⟩
  · rw [← String.ofList_append, ← String.ofList_append, List.append_assoc, ← htext,
      String.ofList_toList]
  · rw [hspan, ← String.ofList_append, utf8ByteSize_ofList, utf8ByteSize_ofList]

theorem start_le_stop (h : span.Cuts source piece) : span.start ≤ span.stop := by
  obtain ⟨before, after, -, rfl⟩ := h
  simp

theorem stop_le (h : span.Cuts source piece) : span.stop ≤ source.utf8ByteSize := by
  obtain ⟨before, after, rfl, rfl⟩ := h
  simp

/-- A piece starts at a character. -/
theorem isValid_start (h : span.Cuts source piece) :
    (⟨span.start⟩ : String.Pos.Raw).IsValid source := by
  obtain ⟨before, after, rfl, rfl⟩ := h
  exact String.Pos.Raw.isValid_iff_exists_append.2
    ⟨before, piece ++ after, String.append_assoc .., rfl⟩

/-- A piece stops before a character or at the end. -/
theorem isValid_stop (h : span.Cuts source piece) :
    (⟨span.stop⟩ : String.Pos.Raw).IsValid source := by
  obtain ⟨before, after, rfl, rfl⟩ := h
  exact String.Pos.Raw.isValid_iff_exists_append.2 ⟨before ++ piece, after, rfl, rfl⟩

/-- What stands between the start of one piece and the end of a later one is a piece. -/
theorem range {span' : Span} {piece' : String} (h : span.Cuts source piece)
    (h' : span'.Cuts source piece') (hle : span.start ≤ span'.stop) :
    ∃ inner, Span.Cuts ⟨span.start, span'.stop⟩ source inner := by
  obtain ⟨before, after, hsource, rfl⟩ := h
  obtain ⟨before', after', hsource', rfl⟩ := h'
  change before.utf8ByteSize ≤ (before' ++ piece').utf8ByteSize at hle
  change ∃ inner, Cuts ⟨before.utf8ByteSize, (before' ++ piece').utf8ByteSize⟩ source inner
  have htext : before.toList ++ (piece ++ after).toList =
      (before' ++ piece').toList ++ after'.toList := by
    rw [← String.toList_append, ← String.toList_append, ← hsource', hsource, String.append_assoc]
  have htoList : source.toList = (before' ++ piece').toList ++ after'.toList := by
    rw [← String.toList_append, ← hsource']
  rcases List.append_eq_append_iff.1 htext with ⟨inner, hstop, -⟩ | ⟨inner, hstart, -⟩
  · refine ⟨.ofList inner, of_toList before.toList inner after'.toList ?_ ?_⟩
    · rw [htoList, hstop, List.append_assoc]
    · rw [← hstop, byteLength_toList, byteLength_toList]
  -- the pieces do not overlap the other way, so nothing stands between the two places
  · have hlength : byteLength before.toList =
        byteLength (before' ++ piece').toList + byteLength inner := by
      rw [hstart, byteLength_append]
    rw [byteLength_toList, byteLength_toList] at hlength
    refine ⟨.ofList [], of_toList (before' ++ piece').toList [] after'.toList htoList ?_⟩
    rw [List.append_nil, byteLength_toList]
    congr 1
    omega

end Span.Cuts

/-! ## Tokens -/

namespace Scanner

variable {source : String} {l m : Lexeme}

theorem segmented_all (source : String) : Segmented 0 source.toList (ofString source).all.1
    (ofString source).all.2.openComment := (segmented_iff_all source _ _).2 ⟨rfl, rfl⟩

theorem mem_lexemes_iff : l ∈ (ofString source).lexemes ↔ .ok l ∈ (ofString source).all.1 := by
  rw [lexemes, List.mem_filterMap]
  constructor
  · rintro ⟨r, hr, hl⟩
    cases r with
    | ok l' =>
      cases hl
      exact hr
    | error f => cases hl
  · intro h
    exact ⟨.ok l, h, rfl⟩

/-- A token is spelled by the text at its place. -/
theorem exists_spelling_of_mem (hl : l ∈ (ofString source).lexemes)
    (hend : l.token ≠ .endOfInput) :
    ∃ piece, l.span.Cuts source piece ∧ Spells piece.toList l.token := by
  obtain ⟨before, piece, after, htext, hplace, hempty, hspells⟩ :=
    (segmented_all source).exists_slice (mem_lexemes_iff.1 hl)
  have hne : piece ≠ [] := by
    intro hnil
    obtain ⟨span, hspan⟩ := hempty.1 hnil
    cases hspan
    exact hend rfl
  rw [Nat.zero_add, Nat.zero_add] at hplace
  refine ⟨.ofList piece, .of_toList before piece after htext hplace, ?_⟩
  rw [String.toList_ofList]
  exact (hspells l rfl hne).1

/-- A token takes some of the text. -/
theorem start_lt_stop (hl : l ∈ (ofString source).lexemes) (hend : l.token ≠ .endOfInput) :
    l.span.start < l.span.stop := by
  obtain ⟨piece, ⟨before, after, -, hspan⟩, hspells⟩ := exists_spelling_of_mem hl hend
  have hne : piece.toList ≠ [] := IsPiece.ne_nil (.inl ⟨_, hspells⟩)
  obtain ⟨c, cs, hpiece⟩ := List.exists_cons_of_ne_nil hne
  have hsize : 0 < piece.utf8ByteSize := by
    rw [← byteLength_toList, hpiece, byteLength_cons]
    have := c.utf8Size_pos
    omega
  rw [hspan, String.utf8ByteSize_append]
  exact Nat.lt_add_of_pos_right hsize

/-- The end of the input is at the end of the text. -/
theorem span_of_endOfInput (hl : l ∈ (ofString source).lexemes)
    (hend : l.token = .endOfInput) :
    l.span = ⟨source.utf8ByteSize, source.utf8ByteSize⟩ := by
  obtain ⟨i, hi⟩ := List.mem_iff_getElem?.1 hl
  obtain ⟨before, hsource, hnext, -⟩ := exists_before hi
  have hsize : Placed.endOffset before.source = source.utf8ByteSize := by
    rw [hsource]
    exact (endOffset_layOut source.toList).trans (byteLength_toList source)
  rcases scan_of_ok hnext with ⟨rfl, -⟩ | ⟨p, ps, t, -, hread, rfl⟩
  · rw [hsize]
  · exact absurd hend (readToken_token hread).1

/-- Tokens do not overlap. -/
theorem pairwise_lexemes (source : String) :
    (ofString source).lexemes.Pairwise fun l m ↦ l.span.stop ≤ m.span.start := by
  refine List.pairwise_filterMap.2 ((segmented_all source).ordered.imp ?_)
  intro r r' h l hl m hm
  cases r with
  | error f => cases hl
  | ok l' =>
    cases r' with
    | error f => cases hm
    | ok m' =>
      cases hl
      cases hm
      exact h

theorem exists_cut_of_mem (hl : l ∈ (ofString source).lexemes) :
    ∃ piece, l.span.Cuts source piece := by
  by_cases hend : l.token = .endOfInput
  · refine ⟨"", source, "", by simp, ?_⟩
    simp [span_of_endOfInput hl hend]
  · obtain ⟨piece, hcut, -⟩ := exists_spelling_of_mem hl hend
    exact ⟨piece, hcut⟩

end Scanner

/-! ## The size of offsets -/

theorem Placed.stop_le_of_mem_layOut {offset : Nat} {cs : List Char} {p : Placed}
    (h : p ∈ layOut offset cs) : p.stop ≤ offset + byteLength cs := by
  induction cs generalizing offset with
  | nil => cases h
  | cons c cs ih =>
    rw [byteLength_cons]
    rcases List.mem_cons.1 h with rfl | h
    · simp only [Placed.stop]
      omega
    · have := ih h
      omega

theorem length_le_byteLength (cs : List Char) : cs.length ≤ byteLength cs := by
  induction cs with
  | nil => exact Nat.le_refl 0
  | cons c cs ih =>
    have := c.utf8Size_pos
    rw [List.length_cons, byteLength_cons]
    omega

/-- **Offsets of 32 bits are enough for a source of less than 4 GiB.** The characters, the tokens
and the addresses of loops all have numbers below 2^32. -/
theorem Scanner.offsets_lt_of_size_lt {source : String}
    (hsize : source.utf8ByteSize < UInt32.size) :
    (∀ p ∈ Placed.ofString source, p.offset < UInt32.size ∧ p.stop < UInt32.size) ∧
      (∀ l ∈ (ofString source).lexemes, l.span.start < UInt32.size ∧ l.span.stop < UInt32.size) ∧
      ∀ offset, (ofString source).charIndex offset < UInt32.size := by
  rw [← byteLength_toList] at hsize
  refine ⟨fun p hp ↦ ?_, fun l hl ↦ ?_, fun offset ↦ ?_⟩
  · have hstop := Placed.stop_le_of_mem_layOut hp
    simp only [Placed.stop] at hstop ⊢
    omega
  · obtain ⟨piece, hcut⟩ := exists_cut_of_mem hl
    have := hcut.start_le_stop
    have hstop := hcut.stop_le
    rw [← byteLength_toList] at hstop
    omega
  · have hcount : (ofString source).charIndex offset ≤ source.toList.length := by
      rw [charIndex_eq_length_takeWhile (pairwise_layOut 0 _), ← length_layOut 0 source.toList]
      exact (List.takeWhile_sublist _).length_le
    have := length_le_byteLength source.toList
    omega

/-! ## Names -/

/-- The name of a token that is one, with its place. -/
def Lexeme.named? (l : Lexeme) : Option (String × Span) :=
  match l.token with
  | .identifier name => some (name, l.span)
  | _ => none

theorem Lexeme.named?_eq_some_iff {l : Lexeme} {name : String} {place : Span} :
    l.named? = some (name, place) ↔ l = ⟨.identifier name, place⟩ := by
  obtain ⟨token, span⟩ := l
  cases token with
  | identifier name' => simp [named?]
  | _ => simp [named?]

theorem Grammar.DerivesNames.filterMap_named? {ts : List Lexeme} {names : List (String × Span)}
    (h : DerivesNames ts names) : ts.filterMap Lexeme.named? = names := by
  induction h with
  | @one l name h => simp [Lexeme.named?, h]
  | @more l c name ts names h hc rest ih => simp [Lexeme.named?, h, hc, ih]

/-- The names in a group are those of its variables. -/
theorem Grammar.Group.Derives.filterMap_named? {ts : List Lexeme} {g : Group} (h : g.Derives ts) :
    ts.filterMap Lexeme.named? = g.names := by
  cases h with
  | @mk c t type ts names hnames hc ht =>
    obtain ⟨token, span⟩ := t
    have htype : Lexeme.named? ⟨token, span⟩ = none := by
      cases token with
      | identifier name => cases ht
      | _ => rfl
    have hcolon : c.named? = none := by simp [Lexeme.named?, hc]
    simp [hnames.filterMap_named?, hcolon, htype]

theorem Grammar.DerivesGroups.filterMap_named? {ts : List Lexeme} {gs : List Group}
    (h : DerivesGroups ts gs) : ts.filterMap Lexeme.named? = gs.flatMap Group.names := by
  have hsemicolon {l : Lexeme} (hl : l.token = .symbol .semicolon) : l.named? = none := by
    simp [Lexeme.named?, hl]
  induction h with
  | one group hl => simp [group.filterMap_named?, hsemicolon hl]
  | more group hl rest ih => simp [group.filterMap_named?, hsemicolon hl, ih]

/-- The variables of a program are names of its text, in the order of the text. -/
theorem Grammar.Program.Derives.variables_sublist {ts : List Lexeme} {t : Program}
    (h : t.Derives ts) :
    (t.variables.map fun x ↦ (x.1, x.2.2)).Sublist (ts.filterMap Lexeme.named?) := by
  have hnames (gs : List Group) :
      (gs.flatMap Group.variables).map (fun x ↦ (x.1, x.2.2)) = gs.flatMap Group.names := by
    rw [List.map_flatMap]
    congr 1
    funext g
    simp [Group.variables, Function.comp_def]
  cases h with
  | @mk k l c d name ts us gs s hk hl hc declarations body hd =>
    have hdeclared : gs.flatMap Group.names = ts.filterMap Lexeme.named? := by
      cases declarations with
      | none => rfl
      | @some v ts gs hv groups =>
        have hvar : v.named? = none := by simp [Lexeme.named?, hv]
        simp [groups.filterMap_named?, hvar]
    rw [Program.variables, hnames, hdeclared]
    refine List.Sublist.filterMap _ ?_
    exact (((List.sublist_append_left ts _).cons c).cons l).cons k

/-- The names of a text start one after the other. -/
theorem Scanner.pairwise_named (source : String) :
    ((ofString source).lexemes.filterMap Lexeme.named?).Pairwise
      fun x y ↦ x.2.start < y.2.start := by
  refine List.pairwise_filterMap.2 ((pairwise_lexemes source).imp_of_mem ?_)
  intro l m hl hm hlm x hx y hy
  obtain rfl := Lexeme.named?_eq_some_iff.1 hx
  obtain rfl := Lexeme.named?_eq_some_iff.1 hy
  exact Nat.lt_of_lt_of_le (start_lt_stop hl (by simp)) hlm

/-! ## Tokens with one spelling -/

theorem Spells.eq_of_identifier {piece : List Char} {name : String}
    (h : Spells piece (.identifier name)) : String.ofList piece = name := by
  cases h with
  | identifier h hk => rfl

/-- An operator is spelled as the table of symbols or keywords says. -/
theorem Spells.eq_text_of_operator {piece : List Char} {t : Token} {op : Operator}
    (h : Spells piece t) (hop : Operator.ofToken? t = some op) :
    String.ofList piece = t.text := by
  cases h with
  | keyword k => exact String.ofList_toList
  | symbol y => exact String.ofList_toList
  | identifier h hk => cases hop
  | integer h hn => cases hop
  | real hwhole hfraction => cases hop

/-! ## Lexical faults -/

theorem isWordPart_of_isDigit {c : Char} (h : c.isDigit) : isWordPart c := by
  have htable : ∀ n ∈ List.range' 48 10, Alphabet.numeralRanges.contains n = true := by
    decide +kernel
  have hrange := toNat_of_isDigit h
  have hnumeral : Alphabet.isNumeral c = true :=
    htable c.toNat (List.mem_range'_1.2 (by omega))
  rw [isWordPart, hnumeral, Bool.or_true]

/-- A piece that ends in a digit goes on with a digit. -/
theorem IsPiece.append_digit {piece : List Char} (h : IsPiece piece) {c d : Char}
    (hc : piece.getLast? = some c) (hcdigit : c.isDigit) (hd : d.isDigit) :
    IsPiece (piece ++ [d]) := by
  have hrow {row : List Char} (h : IsDigitRow row) : IsDigitRow (row ++ [d]) := by
    refine ⟨by simp, fun e he ↦ ?_⟩
    rcases List.mem_append.1 he with he | he
    · exact h.2 e he
    · rw [List.mem_singleton.1 he]
      exact hd
  rcases h.cases with ⟨a, rest, rfl, ha, hrest⟩ | h | ⟨whole, fraction, rfl, hwhole, hfraction⟩ |
    ⟨y, rfl⟩
  · have hword : IsWord (a :: rest ++ [d]) := by
      refine ⟨a, rest ++ [d], rfl, ha, fun e he ↦ ?_⟩
      rcases List.mem_append.1 he with he | he
      · exact hrest e he
      · rw [List.mem_singleton.1 he]
        exact isWordPart_of_isDigit hd
    exact .inl ⟨_, spells_wordToken hword⟩
  · exact .inr (hrow h)
  · rw [List.append_assoc, List.cons_append]
    exact .inl ⟨_, .real hwhole (hrow hfraction)⟩
  · have hsymbol : y.text.toList.all fun e ↦ !e.isDigit := by cases y <;> decide
    have := List.all_eq_true.1 hsymbol c (List.mem_of_getLast? hc)
    simp [hcdigit] at this

/-- Layout does not end in a digit. -/
theorem IsLayout.not_isDigit_getLast {gap : List Char} (h : IsLayout gap) :
    ∀ c ∈ gap.getLast?, c.isDigit = false := by
  induction h with
  | nil => simp
  | @blank b cs hb h ih =>
    intro c hc
    cases cs with
    | nil =>
      obtain rfl : b = c := by simpa using hc
      rw [Bool.eq_false_iff]
      intro hdigit
      have hrange := toNat_of_isDigit hdigit
      have hnone := startsLayout_eq_false_of_between (c := b) (by omega) (by omega)
      simp [startsLayout, hb] at hnone
    | cons e cs => exact ih c (by simpa using hc)
  | @comment body cs hbody h ih =>
    intro c hc
    rw [← List.cons_append, List.getLast?_append] at hc
    cases cs with
    | nil =>
      obtain rfl : '}' = c := by simpa using hc
      rfl
    | cons e cs => exact ih c (by simpa using hc)

/-- No digit follows a longest piece that ends in a digit. -/
theorem Longest.not_isDigit_head {piece rest : List Char} (h : Longest piece (piece ++ rest))
    (hpiece : IsPiece piece) {c : Char} (hc : piece.getLast? = some c) (hdigit : c.isDigit) :
    ∀ d ∈ rest.head?, d.isDigit = false := by
  intro d hd
  rw [Bool.eq_false_iff]
  intro hd'
  obtain ⟨more, rfl⟩ : ∃ more, rest = d :: more := List.head?_eq_some_iff.1 hd
  have hlonger := hpiece.append_digit hc hdigit hd'
  exact h (piece ++ [d]) ⟨more, by simp⟩ (by simp) hlonger

/-- A longest piece right in front of a row of digits does not end with one. -/
theorem Longest.not_isDigit_getLast {piece digits rest : List Char}
    (h : Longest piece (piece ++ (digits ++ rest))) (hpiece : IsPiece piece)
    (hdigits : IsDigitRow digits) : ∀ c ∈ piece.getLast?, c.isDigit = false := by
  intro c hc
  obtain ⟨d, ds, rfl⟩ := List.exists_cons_of_ne_nil hdigits.1
  rw [Bool.eq_false_iff]
  intro hdigit
  have hhead := h.not_isDigit_head hpiece hc hdigit d rfl
  rw [hdigits.2 d List.mem_cons_self] at hhead
  cases hhead

/-- The text at the place of a lexical fault: the character that starts no token, or the digits that
are too large, which no other digit stands beside. -/
theorem Segmented.exists_slice_of_fault {offset : Nat} {text : List Char}
    {results : List (Except LexicalFault Lexeme)} {comment : Option Span}
    (h : Segmented offset text results comment) {g : LexicalFault} (hg : .error g ∈ results) :
    ∃ before piece after, text = before ++ (piece ++ after) ∧
      g.span = ⟨offset + byteLength before, offset + byteLength (before ++ piece)⟩ ∧
      ((∃ c, g.cause = .unrecognized c ∧ piece = [c]) ∨
        (g.cause = .integerTooLarge ∧ IsDigitRow piece ∧
          (∀ c ∈ before.getLast?, c.isDigit = false) ∧ ∀ c ∈ after.head?, c.isDigit = false)) := by
  induction h with
  | @token offset gap piece rest t results comment hgap hpiece hlongest h ih =>
    rcases List.mem_cons.1 hg with hg | hg
    · cases hg
    obtain ⟨before, inner, after, rfl, hplace, hcause⟩ := ih hg
    refine ⟨gap ++ (piece ++ before), inner, after, by simp, ?_, ?_⟩
    · rw [hplace]
      simp only [byteLength_append, Nat.add_assoc]
    · rcases hcause with hc | ⟨hcause, hrow, hbefore, hafter⟩
      · exact .inl hc
      refine .inr ⟨hcause, hrow, fun c hc ↦ ?_, hafter⟩
      rcases List.eq_nil_or_concat before with rfl | ⟨init, last, rfl⟩
      -- the row follows the token at once, which cannot end in a digit then
      · have hpiece' : IsPiece piece := .inl ⟨t, hpiece⟩
        rw [List.nil_append] at hlongest
        rw [List.append_nil, List.getLast?_append_of_ne_nil _ hpiece'.ne_nil] at hc
        exact hlongest.not_isDigit_getLast hpiece' hrow c hc
      · exact hbefore c (by simpa using hc)
  | ending hgap => simp at hg
  | openComment hgap hbody => simp at hg
  | @integerTooLarge offset gap digits rest hgap hdigits hlt hlongest =>
    cases List.mem_singleton.1 hg
    obtain ⟨init, last, hinit⟩ := (List.eq_nil_or_concat digits).resolve_left hdigits.1
    have hlast : digits.getLast? = some last := by simp [hinit]
    refine ⟨gap, digits, rest, rfl, rfl, .inr ⟨rfl, hdigits, hgap.not_isDigit_getLast, ?_⟩⟩
    exact hlongest.not_isDigit_head (.inr hdigits) hlast
      (hdigits.2 last (List.mem_of_getLast? hlast))
  | @unrecognized offset gap rest c hgap hlayout hnone =>
    cases List.mem_singleton.1 hg
    exact ⟨gap, [c], rest, rfl, rfl, .inl ⟨c, rfl, rfl⟩⟩

end MiniPascal
