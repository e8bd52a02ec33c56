import MiniPascal.Proofs.Warnings

/-!
# Text behind the final point

Whatever text is put behind the final point of a program, the program stays what it is. No token in
front of the point can see it: the longest piece at a place is found by the character that follows
it. Only behind a row of digits and a point it takes one more, and in front of the final point
stands `END`.

So the execution of a program and that of the same program with more text behind it run in lockstep
up to the point (`lockstep_inFront`). The step from the point reads the first token of the text that
was put there. If it can be read, both executions end with the same; otherwise the lexical fault is
that of the text on its own, moved by the length of the program.
-/

namespace MiniPascal

open Grammar Placed

/-! ## Pieces with more text behind them -/

theorem isPiece_of_prefix_symbol {y : Symbol} {front : List Char}
    (hfront : front <+: y.text.toList) (hne : front ≠ []) : IsPiece front := by
  have hsymbol (y : Symbol) : IsPiece y.text.toList := .inl ⟨_, .symbol y⟩
  by_cases hfull : front.length = y.text.toList.length
  · rw [hfront.eq_of_length hfull]
    exact hsymbol y
  -- only symbols of two characters have a shorter front, which is their first character
  · have hlt : front.length < y.text.toList.length := Nat.lt_of_le_of_ne hfront.length_le hfull
    obtain ⟨c, more, rfl⟩ := List.exists_cons_of_ne_nil hne
    rcases y.found with ⟨a, ha, -⟩ | ⟨a, b, hab, -⟩
    · simp [ha] at hlt
    · rw [hab] at hlt hfront
      obtain ⟨rfl, -⟩ := List.cons_prefix_cons.1 hfront
      have hlength : more.length = 0 := by
        simp only [List.length_cons, List.length_nil] at hlt
        omega
      obtain rfl := List.length_eq_zero_iff.1 hlength
      cases y with
      | notEqual =>
        cases hab
        exact hsymbol .less
      | lessEqual =>
        cases hab
        exact hsymbol .less
      | greaterEqual =>
        cases hab
        exact hsymbol .greater
      | assign =>
        cases hab
        exact hsymbol .colon
      | _ => cases hab

/-- The front of a piece is a piece, unless it is a row of digits with the point of a decimal. -/
theorem IsPiece.of_prefix {piece front : List Char} (h : IsPiece piece) (hfront : front <+: piece)
    (hne : front ≠ []) : IsPiece front ∨ ∃ digits, IsDigitRow digits ∧ front = digits ++ ['.'] := by
  have hrow {digits : List Char} (hdigits : IsDigitRow digits) (hpre : front <+: digits) :
      IsPiece front := .inr ⟨hne, fun c hc ↦ hdigits.2 c (hpre.subset hc)⟩
  rcases h.cases with ⟨c, rest, rfl, hc, hrest⟩ | h | ⟨whole, fraction, rfl, hwhole, hfraction⟩ |
    ⟨y, rfl⟩
  · obtain ⟨d, more, rfl⟩ := List.exists_cons_of_ne_nil hne
    obtain ⟨rfl, hmore⟩ := List.cons_prefix_cons.1 hfront
    have hword : IsWord (d :: more) := ⟨d, more, rfl, hc, fun e he ↦ hrest e (hmore.subset he)⟩
    exact .inl (.inl ⟨_, spells_wordToken hword⟩)
  · exact .inl (hrow h hfront)
  · obtain ⟨tail, htail⟩ := hfront
    rcases List.append_eq_append_iff.1 htail with ⟨more, hmore, -⟩ | ⟨more, rfl, hmore⟩
    · exact .inl (hrow hwhole ⟨more, hmore.symm⟩)
    · rcases more with _ | ⟨c, more⟩
      · exact .inl (hrow hwhole (by simp))
      obtain ⟨rfl, rfl⟩ := List.cons.inj hmore
      by_cases hnil : more = []
      · exact .inr ⟨whole, hwhole, by rw [hnil]⟩
      · have hmore : IsDigitRow more :=
          ⟨hnil, fun c hc ↦ hfraction.2 c (List.mem_append_left _ hc)⟩
        exact .inl (.inl ⟨_, .real hwhole hmore⟩)
  · exact .inl (isPiece_of_prefix_symbol hfront hne)

/-- **A longest piece stays the longest** when text is put behind what follows it. -/
theorem Longest.append {piece rest : List Char} (h : Longest piece (piece ++ rest))
    (hrest : rest ≠ []) (hdigits : IsDigitRow piece → 1 < rest.length) (tail : List Char) :
    Longest piece (piece ++ (rest ++ tail)) := by
  intro longer hpre hlength hpiece
  obtain ⟨d, more, rfl, hmore⟩ := exists_of_longer hpre hlength
  obtain ⟨d', rest, rfl⟩ := List.exists_cons_of_ne_nil hrest
  obtain ⟨rfl, htail⟩ := List.cons_prefix_cons.1 hmore
  have hshort : ¬IsPiece (piece ++ [d]) := h _ ⟨rest, by simp⟩ (by simp)
  have hfront : piece ++ [d] <+: piece ++ d :: more := ⟨more, by simp⟩
  rcases hpiece.of_prefix hfront (by simp) with hpiece' | ⟨digits, hrow, heq⟩
  · exact hshort hpiece'
  -- the piece is a row of digits, and a point and another character follow it
  · obtain ⟨rfl, hd⟩ := List.append_inj' heq rfl
    obtain rfl := List.singleton_inj.1 hd
    have hlong := hdigits hrow
    rcases rest with _ | ⟨e, rest⟩
    · simp at hlong
    rcases more with _ | ⟨e', more⟩
    · exact hshort hpiece
    obtain ⟨rfl, -⟩ := List.cons_prefix_cons.1 htail
    have hfront' : piece ++ ['.', e'] <+: piece ++ '.' :: e' :: more := ⟨more, by simp⟩
    rcases hpiece.of_prefix hfront' (by simp) with hpiece' | ⟨digits, hrow', heq'⟩
    · exact h _ ⟨rest, by simp⟩ (by simp) hpiece'
    · have hsplit : piece ++ ['.'] ++ [e'] = digits ++ ['.'] := by simpa using heq'
      have hpoint : '.' ∈ digits := by
        rw [← (List.append_inj' hsplit rfl).1]
        simp
      exact absurd (hrow'.2 '.' hpoint) (by decide)

theorem longest_point (tail : List Char) : Longest ['.'] ('.' :: tail) :=
  longest_symbol (s := .dot) (by decide) rfl rfl

theorem Spells.eq_point {piece : List Char} (h : Spells piece (.symbol .dot)) : piece = ['.'] := by
  cases h with
  | symbol y => rfl

theorem Spells.not_isDigitRow {piece : List Char} {k : Keyword} (h : Spells piece (.keyword k)) :
    ¬IsDigitRow piece := by
  intro hrow
  cases h with
  | keyword k =>
    obtain ⟨c, rest, htext, hletter, -⟩ := isWord_text k
    rw [not_isLetter_of_isDigit (hrow.2 c (by rw [htext]; exact List.mem_cons_self))] at hletter
    cases hletter

/-- Where there is room behind it, the piece of a token stays the longest. -/
theorem Longest.append_of_room {piece rest : List Char} {u : Token}
    (h : Longest piece (piece ++ rest)) (hspells : Spells piece u)
    (hroom : u = .symbol .dot ∨ rest ≠ [] ∧ (rest.length = 1 → u = .keyword .blockEnd))
    (tail : List Char) : Longest piece (piece ++ (rest ++ tail)) := by
  rcases hroom with rfl | ⟨hne, hone⟩
  · rw [hspells.eq_point]
    exact longest_point _
  · refine h.append hne ?_ tail
    intro hrow
    by_contra hlt
    have hpos := List.length_pos_iff.2 hne
    rw [hone (by omega)] at hspells
    exact hspells.not_isDigitRow hrow

/-! ## Tokens with more text behind them -/

/-- A token that is scanned is a piece of the text. -/
theorem exists_piece_of_scan {source : List Placed} {before after : List Char} {l : Lexeme}
    (h : (scan source (layOut (byteLength before) after)).result = .ok l)
    (hl : l.token ≠ .endOfInput) :
    ∃ gap piece rest, after = gap ++ (piece ++ rest) ∧ IsLayout gap ∧ Spells piece l.token ∧
      Longest piece (piece ++ rest) := by
  obtain ⟨gap, more, rfl, hgap, hmore⟩ := exists_layout after
  rcases hmore with rfl | ⟨body, rfl, hbody⟩ | ⟨c, cs, rfl, hc⟩
  · rw [List.append_nil, scan_ending hgap] at h
    cases h
    exact absurd rfl hl
  · rw [scan_openComment hgap source _ hbody] at h
    cases h
    exact absurd rfl hl
  · have hreads := readsFrom_readToken (byteLength before + byteLength gap) c cs
    obtain ⟨hskip, -⟩ := skipLayout_of_reading hgap (byteLength before) hc hreads
    rw [scan, hskip] at h
    simp only [layOut] at h
    generalize readToken _ _ = reading at h hreads
    cases reading with
    | token t rest =>
      cases h
      obtain ⟨piece, rest, hcut, hspells, hlongest, -⟩ := hreads
      rw [hcut] at hlongest
      exact ⟨gap, piece, rest, by rw [hcut], hgap, hspells, hlongest⟩
    | integerTooLarge rest => cases h
    | unrecognized => cases h

namespace Scanner

theorem length_take_le (n : Nat) (s : Scanner) : (s.take n).1.length ≤ n := by
  induction n generalizing s with
  | zero => exact Nat.le_refl 0
  | succ n ih =>
    cases hnext : s.next.1 with
    | error f =>
      rw [take_of_error hnext]
      exact Nat.succ_le_succ (Nat.zero_le n)
    | ok l =>
      by_cases hl : l.token = .endOfInput
      · rw [take_of_end hnext hl]
        exact Nat.succ_le_succ (Nat.zero_le n)
      · rw [take_of_token hnext hl]
        exact Nat.succ_le_succ (ih s.next.2)

theorem exists_next_of_lexemes {s : Scanner} (h : s.lexemes ≠ []) : ∃ l, s.next.1 = .ok l := by
  cases hnext : s.next.1 with
  | ok l => exact ⟨l, rfl⟩
  | error f => exact absurd (lexemes_of_error hnext).1 h

/-- There are no more tokens than characters, but for the end. -/
theorem length_lexemes_le (s : Scanner) : s.lexemes.length ≤ s.rest.length + 1 :=
  Nat.le_trans (List.length_filterMap_le ..) (length_take_le _ s)

end Scanner

section
variable {source : String} {t : Program} {point next : Lexeme}

/-- **Room behind a token.** A token in front of the point has another one behind it, and two
characters unless it is the `END` with only the point behind it. -/
theorem Grammar.Program.EndsAt.room (ht : t.EndsAt source point next) {s : State}
    (hs : s.BeforePoint (.ofString source)) :
    s.current.token ≠ .endOfInput ∧ (s.current.token = .symbol .dot ∨
      s.scanner.lexemes ≠ [] ∧ s.scanner.rest ≠ [] ∧
        (s.scanner.rest.length = 1 → s.current.token = .keyword .blockEnd)) := by
  obtain ⟨us, e, rest, hlexemes, he, hdot, -⟩ := ht.exists_lexemes
  obtain ⟨i, hi, hbefore, -⟩ := hs
  have hend : (Scanner.ofString source).lexemes[us.length]? = some e := by simp [hlexemes]
  have hpoint : (Scanner.ofString source).lexemes[us.length + 1]? = some point := by
    simp [hlexemes]
  have hlength : us.length + 2 < (Scanner.ofString source).lexemes.length := by simp [hlexemes]
  have hle : i ≤ us.length + 1 := by
    by_contra hlt
    have htaken : ((Scanner.ofString source).lexemes.take i)[us.length + 1]? = some point := by
      rw [List.getElem?_take_of_lt (by omega), hpoint]
    exact hbefore point (List.mem_of_getElem? htaken) hdot
  have hnotEnd : s.current.token ≠ .endOfInput := by
    intro hlast
    have := List.drop_eq_nil_iff.1 (hi.drop_of_end hlast)
    omega
  refine ⟨hnotEnd, ?_⟩
  have hcurrent := hi.getElem?
  by_cases hi' : i = us.length + 1
  · left
    rw [hi', hpoint] at hcurrent
    rw [← Option.some.inj hcurrent]
    exact hdot
  -- two tokens follow, and what follows has no more tokens than characters, but for the end
  · right
    have hleft : s.scanner.lexemes.length = (Scanner.ofString source).lexemes.length - (i + 1) := by
      rw [hi.lexemes_eq hnotEnd, List.length_drop]
    have hroom := s.scanner.length_lexemes_le
    refine ⟨List.ne_nil_of_length_pos (by omega), List.ne_nil_of_length_pos (by omega), ?_⟩
    intro hone
    obtain rfl : i = us.length := by omega
    rw [hend] at hcurrent
    rw [← Option.some.inj hcurrent]
    exact he

/-- **A token in front of the point is read the same** with more text behind the program. -/
theorem Grammar.Program.EndsAt.next_eq (ht : t.EndsAt source point next) {s : State}
    (hs : s.BeforePoint (.ofString source)) {b b' : Scanner} (hnext : b.next.1 = .ok s.current)
    (hscanner : s.scanner = b.next.2) {text : List Char}
    (hsource : b'.source = b.source ++ layOut source.utf8ByteSize text)
    (hrest : b'.rest = b.rest ++ layOut source.utf8ByteSize text) :
    b'.next.1 = .ok s.current ∧
      b'.next.2.rest = s.scanner.rest ++ layOut source.utf8ByteSize text := by
  rw [← byteLength_toList] at hsource hrest ⊢
  obtain ⟨hend, hroom⟩ := ht.room hs
  have hb : b.source = layOut 0 source.toList := by
    obtain ⟨i, ⟨p, ⟨hsource, -⟩, -⟩, -⟩ := hs
    rw [hscanner] at hsource
    exact hsource
  have hsuffix := b.suffix
  rw [hb] at hsuffix
  obtain ⟨before, after, htext, hlaid⟩ := exists_of_suffix_layOut hsuffix
  have hfound := hnext
  rw [Scanner.next_fst, hlaid] at hfound
  obtain ⟨gap, piece, rest, rfl, hgap, hspells, hlongest⟩ := exists_piece_of_scan hfound hend
  have hscan := scan_token before hgap hspells hlongest
  rw [← htext, ← hb, ← hlaid] at hscan
  obtain ⟨hresult, hrest', -⟩ := Scanner.next_of_scan hscan
  rw [hscanner, hrest']
  rw [hscanner, hrest'] at hroom
  have hroom' : s.current.token = .symbol .dot ∨
      rest ≠ [] ∧ (rest.length = 1 → s.current.token = .keyword .blockEnd) := by
    rcases hroom with hdot | ⟨-, hne, hone⟩
    · exact .inl hdot
    · rw [length_layOut] at hone
      exact .inr ⟨fun hnil ↦ hne (by rw [hnil]; rfl), hone⟩
  have hlongest' := hlongest.append_of_room hspells hroom' text
  have hsource' : b'.source = layOut 0 (before ++ (gap ++ (piece ++ (rest ++ text)))) := by
    rw [hsource, hb, ← Nat.zero_add (byteLength source.toList), ← layOut_append, htext]
    simp
  have hlaid' : b'.rest = layOut (byteLength before) (gap ++ (piece ++ (rest ++ text))) := by
    rw [hrest, hlaid, htext, byteLength_append, ← layOut_append]
    simp
  have hscan' := scan_token before hgap hspells hlongest'
  rw [← hsource', ← hlaid'] at hscan'
  obtain ⟨hresult', hbehind, -⟩ := Scanner.next_of_scan hscan'
  refine ⟨hresult'.trans (hresult.symm.trans hnext), hbehind.trans ?_⟩
  rw [htext, layOut_append]
  simp [Nat.add_assoc]

end

/-! ## Executions with more text behind the program -/

/-- The second state is the first with more text behind the program. -/
structure State.Continued (tail : List Placed) (s t : State) : Prop where
  current : t.current = s.current
  progress : t.progress = s.progress
  previousStop : t.previousStop = s.previousStop
  source : t.scanner.source = s.scanner.source ++ tail
  rest : t.scanner.rest = s.scanner.rest ++ tail

/-- The states are in front of the point, and the second has more text behind it. -/
def InFront (source text : String) (s t : State) : Prop :=
  s.BeforePoint (.ofString source) ∧ s.Continued (layOut source.utf8ByteSize text.toList) t

theorem ofString_append (source text : String) :
    Placed.ofString (source ++ text) =
      Placed.ofString source ++ layOut source.utf8ByteSize text.toList := by
  rw [Placed.ofString, String.toList_append, layOut_append, Nat.zero_add, byteLength_toList]
  rfl

/-- The characters in front of one do not depend on what is behind it. -/
theorem charsBefore_append {source tail : List Placed}
    (h : (source ++ tail).Pairwise fun p q ↦ p.offset < q.offset) {p : Placed} {ps : List Placed}
    (hp : p :: ps <:+ source) :
    charsBefore (source ++ tail) p.offset = charsBefore source p.offset := by
  have hsource : source.drop (charsBefore source p.offset) = p :: ps :=
    drop_charsBefore (List.pairwise_append.1 h).1 hp
  have hboth : (source ++ tail).drop (charsBefore (source ++ tail) p.offset) = p :: ps ++ tail := by
    refine drop_charsBefore h ?_
    obtain ⟨front, rfl⟩ := hp
    exact ⟨front, by simp⟩
  have hlength := congrArg List.length hsource
  have hlength' := congrArg List.length hboth
  simp only [List.length_drop, List.length_append, List.length_cons] at hlength hlength'
  omega

section
variable {source text : String} {t : Program} {point next : Lexeme} {s u : State}

/-- A token has the same address with more text behind the program. -/
theorem charIndex_of_inFront (h : InFront source text s u) (hend : s.current.token ≠ .endOfInput) :
    u.scanner.charIndex s.current.span.start = s.scanner.charIndex s.current.span.start := by
  obtain ⟨⟨i, ⟨p, ⟨hscanner, b, hb, hnext, -⟩, -⟩, -⟩, hcontinued⟩ := h
  have hsource := hcontinued.source
  rw [hscanner] at hsource
  have hordered := Placed.pairwise_ofString (source ++ text)
  rw [ofString_append] at hordered
  have hfirst := (List.pairwise_append.1 hordered).1
  rw [Scanner.charIndex_eq_length_takeWhile (by rw [hsource]; exact hordered),
    Scanner.charIndex_eq_length_takeWhile (by rw [hscanner]; exact hfirst), hsource, hscanner]
  rcases scan_of_ok hnext with ⟨hl, -⟩ | ⟨q, qs, token, hlayout, -, hl⟩
  · rw [hl] at hend
    exact absurd rfl hend
  · rw [hl]
    have hsuffix := (skipLayout_suffix none b.rest).trans b.suffix
    rw [hlayout, hb] at hsuffix
    exact charsBefore_append hordered hsuffix

/-- Moving the scanners back within the program. -/
theorem State.Continued.seek {tail : List Placed} (h : s.Continued tail u) {n : Nat}
    (hn : n ≤ s.scanner.source.length) :
    { s with scanner := s.scanner.seek n }.Continued tail
      { u with scanner := u.scanner.seek n } where
  current := h.current
  progress := h.progress
  previousStop := h.previousStop
  source := h.source
  rest := by
    change u.scanner.source.drop n = s.scanner.source.drop n ++ tail
    rw [h.source, List.drop_append_of_le_length hn]

/-- A step to a token in front of the point, or to the point itself. -/
theorem together_step_inFront (ht : t.EndsAt source point next)
    (h : s.Continued (layOut source.utf8ByteSize text.toList) u) {s' : State}
    (hs : Execution.step.run s = .ok () s') (hs' : s'.BeforePoint (.ofString source)) :
    Together (InFront source text) Execution.step s u := by
  obtain ⟨l, hnext, rfl⟩ := Execution.run_step_eq_ok_iff.1 hs
  obtain ⟨hnext', hrest⟩ := ht.next_eq hs' hnext rfl h.source h.rest
  rw [Together, State.At.run_step_of_ok hnext, State.At.run_step_of_ok hnext']
  exact .ok ⟨hs', rfl, h.progress, congrArg (·.span.stop) h.current, h.source, hrest⟩

theorem lockstep_inFront (ht : t.EndsAt source point next) (text : String) :
    Lockstep (InFront source text) where
  current h := h.2.current
  progress h := h.2.progress
  previousStop h := h.2.previousStop
  withProgress h r := ⟨h.1.withProgress r, h.2.current, rfl, h.2.previousStop, h.2.source, h.2.rest⟩
  step := by
    intro s u h hpoint
    obtain ⟨l, hl⟩ : ∃ l, s.scanner.next.1 = .ok l := by
      rcases (ht.room h.1).2 with hdot | ⟨hmore, -⟩
      · exact absurd hdot hpoint
      · exact Scanner.exists_next_of_lexemes hmore
    have hs := State.At.run_step_of_ok hl
    exact together_step_inFront ht h.2 hs (h.1.step hpoint hs)
  address h hloop := charIndex_of_inFront h (by simp [hloop])
  rewind := by
    intro s u s' u' h hloop h'
    obtain ⟨s'', hs'', hback⟩ :=
      h.1.rewind (Placed.pairwise_ofString source) (by simp [hloop]) h'.1
    obtain ⟨_, _, hseek, hstep⟩ := run_bind_eq_ok_iff.1 hs''
    cases hseek
    -- the address is in the program, so what is behind it is not passed over
    have hle : s.scanner.charIndex s.current.span.start ≤ s'.scanner.source.length := by
      obtain ⟨i, hi, -⟩ := h.1
      obtain ⟨j, ⟨p, ⟨hsource, -⟩, -⟩, -⟩ := h'.1
      rw [hi.charIndex_eq (Placed.pairwise_ofString source), hsource]
      exact (List.takeWhile_sublist _).length_le
    exact together_step_inFront ht (h'.2.seek hle) hstep hback

/-- **An execution comes to the point as before** with more text behind the program. -/
theorem exists_untilPoint_append {fuel : Nat} {name : String} {s₀ s₁ : State}
    (ht : t.EndsAt source point next) (hstart : State.start (.ofString source) = .ok s₀)
    (huntil : (Execution.untilPoint fuel).run s₀ = .ok name s₁) (text : String) :
    ∃ u₀ u₁, State.start (.ofString (source ++ text)) = .ok u₀ ∧
      (Execution.untilPoint fuel).run u₀ = .ok name u₁ ∧ InFront source text s₁ u₁ := by
  have hbefore : s₀.BeforePoint (.ofString source) := .start hstart rfl
  obtain ⟨l, hnext, rfl⟩ := State.start_eq_ok_iff.1 hstart
  have hsource : (Scanner.ofString (source ++ text)).source = _ := ofString_append source text
  obtain ⟨hnext', hrest⟩ := ht.next_eq hbefore hnext rfl hsource hsource
  have hstart' := State.start_eq_ok_iff.2 ⟨l, hnext', rfl⟩
  have hinFront : InFront source text _
      ⟨l, .empty, .empty, 0, (Scanner.ofString (source ++ text)).next.2⟩ :=
    ⟨hbefore, rfl, rfl, rfl, hsource, hrest⟩
  have htogether := Execution.together_untilPoint (lockstep_inFront ht text) fuel hinFront
  obtain ⟨u₁, hu₁, hpoint⟩ := htogether.of_ok huntil
  exact ⟨_, u₁, hstart', hu₁, hpoint⟩

end

/-! ## The token behind the point -/

/-- The place as many bytes further on. -/
def Span.shift (n : Nat) (span : Span) : Span := ⟨n + span.start, n + span.stop⟩

/-- The fault in a text that stands behind as many bytes. -/
def LexicalFault.shift (n : Nat) (f : LexicalFault) : LexicalFault := ⟨f.cause, f.span.shift n⟩

/-- What is read of a text that stands behind as many bytes. -/
def shifted (n : Nat) : Except LexicalFault Lexeme → Except LexicalFault Lexeme
  | .ok l => .ok ⟨l.token, l.span.shift n⟩
  | .error f => .error (f.shift n)

/-- **The first token of a text** is the same one behind other text, further on. -/
theorem scan_result_append (before text : List Char) :
    (scan (layOut 0 (before ++ text)) (layOut (byteLength before) text)).result =
      shifted (byteLength before) (scan (layOut 0 text) (layOut 0 text)).result := by
  obtain ⟨results, comment, h⟩ := exists_segmented 0 text
  cases h with
  | token hgap hpiece hlongest =>
    have halone := scan_token [] hgap hpiece hlongest
    rw [byteLength_nil, List.nil_append] at halone
    rw [scan_token before hgap hpiece hlongest, halone]
    simp [shifted, Span.shift]
  | ending hgap =>
    rw [scan_ending hgap, scan_ending hgap, endOffset_layOut, endOffset_layOut, byteLength_append]
    rfl
  | openComment hgap hbody =>
    rw [scan_openComment hgap _ _ hbody, scan_openComment hgap _ _ hbody, endOffset_layOut,
      endOffset_layOut, byteLength_append]
    rfl
  | integerTooLarge hgap hdigits hlt hlongest =>
    have halone := scan_integerTooLarge [] hgap hdigits hlt hlongest
    rw [byteLength_nil, List.nil_append] at halone
    rw [scan_integerTooLarge before hgap hdigits hlt hlongest, halone]
    simp [shifted, LexicalFault.shift, Span.shift]
  | unrecognized hgap hlayout hnone =>
    rw [scan_unrecognized hgap _ _ hlayout hnone, scan_unrecognized hgap _ _ hlayout hnone]
    simp [shifted, LexicalFault.shift, Span.shift]

theorem eq_nil_of_byteLength_eq_zero {cs : List Char} (h : byteLength cs = 0) : cs = [] := by
  cases cs with
  | nil => rfl
  | cons c cs =>
    rw [byteLength_cons] at h
    exact absurd h (by have := c.utf8Size_pos; omega)

/-- At a point that ends the text, the next token is the first of the text behind it. -/
theorem next_of_inFront {source text : String} {s u : State} (h : InFront source text s u)
    (hpoint : s.current.token = .symbol .dot)
    (hlast : s.current.span.stop = source.utf8ByteSize) :
    u.scanner.next.1 = shifted source.utf8ByteSize (Scanner.ofString text).next.1 := by
  obtain ⟨⟨i, hi, -⟩, hcontinued⟩ := h
  obtain ⟨before, after, hsource, hlaid, hstop⟩ := exists_text_behind hi (by simp [hpoint])
  obtain rfl : after = [] := by
    have hsize := congrArg byteLength hsource
    rw [byteLength_toList, byteLength_append, ← hlast, hstop] at hsize
    exact eq_nil_of_byteLength_eq_zero (by omega)
  have hscanner : s.scanner.source = layOut 0 source.toList := by
    obtain ⟨p, ⟨hscanner, -⟩, -⟩ := hi
    exact hscanner
  have hrest := hcontinued.rest
  have hwhole := hcontinued.source
  rw [hlaid, layOut, List.nil_append, ← byteLength_toList] at hrest
  rw [hscanner, ← byteLength_toList, ← Nat.zero_add (byteLength _), ← layOut_append] at hwhole
  rw [Scanner.next_fst, hrest, hwhole, scan_result_append, byteLength_toList]
  rfl

/-! ## Text behind the program -/

section
variable {source : String} {t : Program} {point next : Lexeme}

/-- There is nothing to warn about behind a point that ends the text. -/
theorem Trailing.eq_nil {ws : List Warning} (h : Trailing source point next ws)
    (ht : t.EndsAt source point next) (hlast : point.span.stop = source.utf8ByteSize) :
    ws = [] := by
  cases h with
  | code hnext =>
    obtain ⟨-, -, hle⟩ := ht.pairwise_variables
    obtain ⟨ts, rest, hlexemes, -⟩ := ht
    have hmem : next ∈ (Scanner.ofString source).lexemes := by simp [hlexemes]
    have hlt := Scanner.start_lt_stop hmem hnext
    obtain ⟨piece, hcut⟩ := Scanner.exists_cut_of_mem hmem
    have hstop := hcut.stop_le
    omega
  | openComment hnext hsource hpoint =>
    have hsize := congrArg byteLength hsource
    rw [byteLength_toList, ← hlast, hpoint, byteLength_append, byteLength_append,
      byteLength_cons] at hsize
    have := '{'.utf8Size_pos
    omega
  | nothing => rfl

/-- A text that leads to the same store as one that ends with its point has the same warnings, and
at most one more. -/
theorem exists_warnings_append {fuel : Nat} {source' : String} {c c' : Compiled}
    (h : compileText fuel source = .ok c) (ht : t.EndsAt source point next)
    (hlast : point.span.stop = source.utf8ByteSize) (h' : compileText fuel source' = .ok c')
    (hstore : c'.store = c.store) :
    ∃ more : List Warning, more.length ≤ 1 ∧ c'.warnings = c.warnings ++ more := by
  obtain ⟨t₁, point₁, next₁, trailing, hends, -, hwarnings, htrailing⟩ :=
    exists_trailing_of_compileText h
  obtain ⟨t₂, point₂, next₂, more, -, -, hwarnings', hmore⟩ := exists_trailing_of_compileText h'
  have hsame : point₁ = point := Option.some.inj (hends.find?_eq.symm.trans ht.find?_eq)
  refine ⟨more, hmore.length_le, ?_⟩
  rw [hwarnings, htrailing.eq_nil hends (hsame ▸ hlast), List.append_nil, hwarnings', hstore]

/-- A lexical fault behind the point is the fault of the program. -/
theorem compileText_of_fault_behind {fuel : Nat} {name : String} {s₀ s₁ : State}
    (hstart : State.start (.ofString source) = .ok s₀)
    (huntil : (Execution.untilPoint fuel).run s₀ = .ok name s₁)
    (hpoint : s₁.current.token = .symbol .dot) {f : LexicalFault}
    (hnext : s₁.scanner.next.1 = .error f) :
    compileText fuel source = .error (.fault (.ofLexical f)) := by
  have hstep := State.At.run_step_of_error hnext
  have houtline := Execution.run_outline_of_point huntil hpoint
  rw [run_bind_of_error hstep] at houtline
  rw [compileText_of_start fuel hstart, Execution.result_eq_error_iff,
    Execution.program_eq_outline]
  exact ⟨_, run_bind_of_error houtline⟩

end

/-- **Text behind the point.** It cannot change the program, whatever it is: if its first token can
be read, it adds a warning at most, and otherwise the fault is the one that it starts with. -/
theorem compileText_append {fuel : Nat} {source : String} {c : Compiled}
    (h : compileText fuel source = .ok c) {t : Program} {point next : Lexeme}
    (ht : t.EndsAt source point next) (hlast : point.span.stop = source.utf8ByteSize)
    (text : String) :
    (∀ l, (Scanner.ofString text).next.1 = .ok l → ∃ more : List Warning, more.length ≤ 1 ∧
      compileText fuel (source ++ text) =
        .ok ⟨c.name, c.store, c.listing, c.warnings ++ more⟩) ∧
    ∀ f, (Scanner.ofString text).next.1 = .error f →
      compileText fuel (source ++ text) =
        .error (.fault (.ofLexical (f.shift source.utf8ByteSize))) := by
  obtain ⟨t', ht', -⟩ := exists_tree_of_compileText h
  obtain ⟨name, s₀, s₁, s₂, hstart, huntil, hpoint, hstep, hc⟩ := compileText_eq_ok_iff.1 h
  have hends := endsAt_of_isReadFrom ht' (beforePoint_of_untilPoint hstart huntil) hpoint hstep
  have hsame : s₁.current = point := Option.some.inj (hends.find?_eq.symm.trans ht.find?_eq)
  obtain ⟨u₀, u₁, hstart', huntil', hinFront⟩ := exists_untilPoint_append ht hstart huntil text
  have hpoint' : u₁.current.token = .symbol .dot := by rw [hinFront.2.current, hpoint]
  have hnext := next_of_inFront hinFront hpoint (by rw [hsame, hlast])
  constructor
  · intro l hl
    rw [hl] at hnext
    have hstep' := State.At.run_step_of_ok hnext
    have h' := compileText_eq_ok_iff.2 ⟨name, u₀, u₁, _, hstart', huntil', hpoint', hstep', rfl⟩
    obtain ⟨l', -, rfl⟩ := Execution.run_step_eq_ok_iff.1 hstep
    obtain ⟨c', h', hname, hstore, hlisting⟩ : ∃ c', compileText fuel (source ++ text) = .ok c' ∧
        c'.name = c.name ∧ c'.store = c.store ∧ c'.listing = c.listing := by
      rw [hc]
      have hprogress := hinFront.2.progress
      exact ⟨_, h', rfl, congrArg Progress.store hprogress, congrArg Progress.listing hprogress⟩
    obtain ⟨more, hmore, hwarnings⟩ := exists_warnings_append h ht hlast h' hstore
    refine ⟨more, hmore, ?_⟩
    rw [h', ← hname, ← hstore, ← hlisting, ← hwarnings]
  · intro f hf
    rw [hf] at hnext
    exact compileText_of_fault_behind hstart' huntil' hpoint' hnext

/-- A program with a loop, whose point is its last character. -/
def countdown : String :=
  "PROGRAM p; VAR n : INTEGER; BEGIN n := -3; REPEAT n := n + 1 UNTIL n >= 0 END."

/-- A character that cannot be read is a fault behind the point, and none behind another token. -/
theorem compileText_countdown_append : ∃ (c : Compiled) (more : List Warning),
    compileText 30 countdown = .ok c ∧ more.length ≤ 1 ∧
    compileText 30 (countdown ++ " more $") =
      .ok ⟨c.name, c.store, c.listing, c.warnings ++ more⟩ ∧
    compileText 30 (countdown ++ " $ more") =
      .error (.fault (.ofLexical ⟨.unrecognized '$', ⟨79, 80⟩⟩)) := by
  have hok : (compileText 30 countdown).isOk := by decide +kernel
  obtain ⟨c, hc⟩ := exists_compiled_of_isOk hok
  obtain ⟨t, point, next, -, ht, -⟩ := exists_trailing_of_compileText hc
  have hpoint : ((Scanner.ofString countdown).lexemes.find? (·.token.same (.symbol .dot))).map
      (·.span.stop) = some countdown.utf8ByteSize := by decide +kernel
  rw [ht.find?_eq] at hpoint
  have hlast : point.span.stop = countdown.utf8ByteSize := Option.some.inj hpoint
  obtain ⟨more, hmore, hadded⟩ := (compileText_append hc ht hlast " more $").1 _ rfl
  exact ⟨c, more, hc, hmore, hadded, (compileText_append hc ht hlast " $ more").2 _ rfl⟩

end MiniPascal
