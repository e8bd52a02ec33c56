import MiniPascal.Proofs.Lockstep
import MiniPascal.Proofs.Places

/-!
# The final point of a program

A program has one point, its last token. An execution comes to it from the front and looks at no
token behind it before (`State.BeforePoint`), so a comment that is open at the end of the text has
been found at the point only if there is no point to come to. The step from the point is then the
one step that sees any of the text behind it.
-/

namespace MiniPascal

open Grammar Placed

/-! ## Points in a program -/

/-- None of the tokens is a point. -/
def NoPoint (ts : List Lexeme) : Prop := ∀ l ∈ ts, l.token ≠ .symbol .dot

@[simp] theorem noPoint_nil : NoPoint [] := nofun

@[simp] theorem noPoint_cons {l : Lexeme} {ts : List Lexeme} :
    NoPoint (l :: ts) ↔ l.token ≠ .symbol .dot ∧ NoPoint ts := List.forall_mem_cons

@[simp] theorem noPoint_append {ts us : List Lexeme} :
    NoPoint (ts ++ us) ↔ NoPoint ts ∧ NoPoint us := List.forall_mem_append

/-- The first point of a row of tokens is where it is. -/
theorem NoPoint.unique {ts ts' us us' : List Lexeme} {d e : Lexeme}
    (h : ts ++ d :: us = ts' ++ e :: us') (hts : NoPoint ts) (hts' : NoPoint ts')
    (hd : d.token = .symbol .dot) (he : e.token = .symbol .dot) : ts = ts' ∧ d = e ∧ us = us' := by
  induction ts generalizing ts' with
  | nil =>
    cases ts' with
    | nil => exact ⟨rfl, List.cons.inj h⟩
    | cons l ts' =>
      obtain ⟨rfl, -⟩ := List.cons.inj h
      exact absurd hd (noPoint_cons.1 hts').1
  | cons l ts ih =>
    cases ts' with
    | nil =>
      obtain ⟨rfl, -⟩ := List.cons.inj h
      exact absurd he (noPoint_cons.1 hts).1
    | cons l' ts' =>
      obtain ⟨rfl, htail⟩ := List.cons.inj h
      obtain ⟨rfl, hrest⟩ := ih htail (noPoint_cons.1 hts).2 (noPoint_cons.1 hts').2
      exact ⟨rfl, hrest⟩

namespace Grammar

theorem Expression.Derives.noPoint {r : Rank} {ts : List Lexeme} {e : Expression}
    (h : e.Derives r ts) : NoPoint ts := by
  induction h with
  | integer h => simp [h]
  | real h => simp [h]
  | named h => simp [h]
  | plus h _ ih => simp [h, ih]
  | minus h _ ih => simp [h, ih]
  | parens hl _ hr ih => simp [hl, hr, ih]
  | factor _ ih => exact ih
  | product _ h _ ihl ihr =>
    refine noPoint_append.2 ⟨ihl, noPoint_cons.2 ⟨fun hl ↦ ?_, ihr⟩⟩
    rw [hl] at h
    cases h
  | term _ ih => exact ih
  | sum _ h _ ihl ihr =>
    refine noPoint_append.2 ⟨ihl, noPoint_cons.2 ⟨fun hl ↦ ?_, ihr⟩⟩
    rw [hl] at h
    cases h

theorem Condition.Derives.noPoint {ts : List Lexeme} {c : Condition} (h : c.Derives ts) :
    NoPoint ts := by
  obtain ⟨hleft, hl, hright⟩ := h
  refine noPoint_append.2 ⟨hleft.noPoint, noPoint_cons.2 ⟨fun hdot ↦ ?_, hright.noPoint⟩⟩
  rw [hdot] at hl
  cases hl

theorem Statement.Derives.noPoint {k : Phrase} {ts : List Lexeme} {s : Statement}
    (h : s.Derives k ts) : NoPoint ts := by
  induction h with
  | nothing => simp
  | assign hl ha value => simp [hl, ha, value.noPoint]
  | compound _ ih => exact ih
  | loop hl _ hu condition ih => simp [hl, hu, condition.noPoint, ih]
  | single _ ih => exact ih
  | sequence _ h _ ihf ihr => simp [h, ihf, ihr]
  | block hl _ hr ih => simp [hl, hr, ih]

theorem DerivesNames.noPoint {ts : List Lexeme} {names : List (String × Span)}
    (h : DerivesNames ts names) : NoPoint ts := by
  induction h with
  | one h => simp [h]
  | more h hc _ ih => simp [h, hc, ih]

theorem Group.Derives.noPoint {ts : List Lexeme} {g : Group} (h : g.Derives ts) : NoPoint ts := by
  obtain ⟨hnames, hc, ht⟩ := h
  refine noPoint_append.2 ⟨hnames.noPoint, noPoint_cons.2 ⟨by simp [hc], noPoint_cons.2 ⟨?_, ?_⟩⟩⟩
  · intro hdot
    rw [hdot] at ht
    cases ht
  · exact noPoint_nil

theorem DerivesGroups.noPoint {ts : List Lexeme} {gs : List Group} (h : DerivesGroups ts gs) :
    NoPoint ts := by
  induction h with
  | one group h => simp [h, group.noPoint]
  | more group h _ ih => simp [h, group.noPoint, ih]

/-- **The point of a program is its last token**, behind the `END` of its body. -/
theorem Program.Derives.exists_point {ts : List Lexeme} {t : Program} (h : t.Derives ts) :
    ∃ us e d, ts = us ++ [e, d] ∧ e.token = .keyword .blockEnd ∧ d.token = .symbol .dot ∧
      NoPoint (us ++ [e]) := by
  cases h with
  | @mk k l c d name ts us gs s hk hl hc declarations body hd =>
    have hts : NoPoint ts := by
      cases declarations with
      | none => exact noPoint_nil
      | some h groups => simp [h, groups.noPoint]
    have hus := body.noPoint
    cases body with
    | @block b e us _ _ _ he =>
      refine ⟨k :: l :: c :: (ts ++ b :: us), e, d, by simp, he, hd, ?_⟩
      have hfront : k :: l :: c :: (ts ++ b :: us) ++ [e] =
          k :: l :: c :: (ts ++ b :: (us ++ [e])) := by simp
      rw [hfront]
      simp only [noPoint_cons, noPoint_append] at hus ⊢
      exact ⟨by simp [hk], by simp [hl], by simp [hc], hts, hus⟩

/-- Tokens of the text, from its start, make the program; the last of them is the point, and another
token follows it. -/
def Program.EndsAt (t : Program) (source : String) (point next : Lexeme) : Prop :=
  ∃ ts rest, (Scanner.ofString source).lexemes = ts ++ point :: next :: rest ∧
    t.Derives (ts ++ [point]) ∧ t.body.SignsTakeAll

/-- The tokens of a text with a program: up to `END` there is no point. -/
theorem Program.EndsAt.exists_lexemes {t : Program} {source : String} {point next : Lexeme}
    (h : t.EndsAt source point next) :
    ∃ us e rest, (Scanner.ofString source).lexemes = us ++ e :: point :: next :: rest ∧
      e.token = .keyword .blockEnd ∧ point.token = .symbol .dot ∧ NoPoint (us ++ [e]) := by
  obtain ⟨ts, rest, hlexemes, hderives, -⟩ := h
  obtain ⟨us, e, d, htokens, he, hd, hnone⟩ := hderives.exists_point
  rw [List.append_cons us e [d]] at htokens
  obtain ⟨rfl, rfl⟩ := List.append_singleton_inj.1 htokens
  exact ⟨us, e, rest, by simp [hlexemes], he, hd, hnone⟩

/-- The point that ends a program is the first among the tokens. -/
theorem Program.EndsAt.find?_eq {t : Program} {source : String} {point next : Lexeme}
    (h : t.EndsAt source point next) :
    (Scanner.ofString source).lexemes.find? (·.token.same (.symbol .dot)) = some point := by
  obtain ⟨us, e, rest, hlexemes, -, hpoint, hnone⟩ := h.exists_lexemes
  have hbefore : (us ++ [e]).find? (·.token.same (.symbol .dot)) = none :=
    List.find?_eq_none.2 fun l hl hsame ↦ hnone l hl (Token.same_symbol_iff.1 hsame)
  rw [hlexemes, List.append_cons, List.find?_append, hbefore, Option.none_or, List.find?_cons,
    Token.same_symbol_iff.2 hpoint]

end Grammar

/-! ## Open comments -/

/-- Layout that leaves anything has no open comment. -/
theorem skipLayout_fst {opened : Option Nat} {rest : List Placed} {p : Placed} {ps : List Placed}
    (h : (skipLayout opened rest).2 = p :: ps) : (skipLayout opened rest).1 = none := by
  induction rest generalizing opened with
  | nil => cases opened <;> cases h
  | cons q qs ih =>
    cases opened with
    | some start => exact ih h
    | none =>
      rw [skipLayout] at h ⊢
      split at h
      · next hopen =>
        rw [if_pos hopen]
        exact ih h
      · next hopen =>
        rw [if_neg hopen]
        split at h
        · next hblank =>
          rw [if_pos hblank]
          exact ih h
        · next hblank => rw [if_neg hblank]

/-- The end of the input is found behind layout only. -/
theorem skipLayout_of_end {source rest : List Placed} {l : Lexeme}
    (h : (scan source rest).result = .ok l) (hl : l.token = .endOfInput) :
    (skipLayout none rest).2 = [] := by
  rw [scan] at h
  rcases hlayout : skipLayout none rest with ⟨openComment, after⟩
  rw [hlayout] at h
  cases after with
  | nil => rfl
  | cons p ps =>
    simp only at h
    cases hread : readToken p ps with
    | token t more =>
      rw [hread] at h
      cases h
      exact absurd hl (readToken_token hread).1
    | integerTooLarge more =>
      rw [hread] at h
      cases h
    | unrecognized =>
      rw [hread] at h
      cases h

theorem scan_openComment_of_token {source rest : List Placed} {l : Lexeme}
    (h : (scan source rest).result = .ok l) (hl : l.token ≠ .endOfInput) :
    (scan source rest).openComment = none := by
  rcases scan_of_ok h with ⟨rfl, -⟩ | ⟨p, ps, t, hlayout, hread, -⟩
  · exact absurd rfl hl
  · have hnone := skipLayout_fst hlayout
    rw [scan]
    generalize skipLayout none rest = found at hlayout hnone
    obtain ⟨openComment, after⟩ := found
    obtain rfl : after = p :: ps := hlayout
    obtain rfl : openComment = none := hnone
    simp only [hread]

/-- A scanner that reads a token finds no comment open. -/
theorem Scanner.openComment_next {s : Scanner} {l : Lexeme} (h : s.next.1 = .ok l)
    (hl : l.token ≠ .endOfInput) : s.next.2.openComment = s.openComment := by
  simp only [next, scan_openComment_of_token h hl]

/-! ## In front of the point -/

/-- No token up to the next one is a point, and a comment was found open only if there is no point
in the text at all. -/
def State.BeforePoint (a : Scanner) (s : State) : Prop :=
  ∃ i, s.AtToken a i ∧ NoPoint (a.lexemes.take i) ∧
    (s.scanner.openComment = none ∨ NoPoint a.lexemes)

namespace State.BeforePoint

variable {a b : Scanner} {s s' t : State} {i : Nat}

theorem withProgress (h : s.BeforePoint a) (r : Progress) : (s.withProgress r).BeforePoint a := by
  obtain ⟨i, hi, h⟩ := h
  exact ⟨i, hi.congr rfl rfl, h⟩

/-- Whatever token is read next, the comment that is found open with it is behind all tokens. -/
theorem of_next (hnext : b.next.1 = .ok s.current) (hscanner : s.scanner = b.next.2)
    (hat : s.AtToken a i) (hbefore : NoPoint (a.lexemes.take i))
    (hopen : b.openComment = none ∨ NoPoint a.lexemes) : s.BeforePoint a := by
  refine ⟨i, hat, hbefore, ?_⟩
  by_cases hend : s.current.token = .endOfInput
  · have hlast : NoPoint [s.current] := by simp [hend]
    right
    rw [← List.take_append_drop i a.lexemes, hat.drop_eq, hat.drop_of_end hend]
    exact noPoint_append.2 ⟨hbefore, hlast⟩
  · rw [hscanner, Scanner.openComment_next hnext hend]
    exact hopen

theorem start (h : State.start a = .ok s) (ha : a.openComment = none) : s.BeforePoint a := by
  rcases State.start_cases a with ⟨f, hf, -⟩ | ⟨s', p, hs', hat, -, hlexemes, hending⟩
  · cases h.symm.trans hf
  · cases h.symm.trans hs'
    have hfirst : State.AtToken a s 0 := ⟨p, hat, hlexemes, hending⟩
    obtain ⟨l, hnext, rfl⟩ := State.start_eq_ok_iff.1 h
    exact of_next hnext rfl hfirst (by simp) (.inl ha)

theorem step (h : s.BeforePoint a) (hpoint : s.current.token ≠ .symbol .dot)
    (hs : Execution.step.run s = .ok () s') : s'.BeforePoint a := by
  obtain ⟨i, hi, hbefore, hopen⟩ := h
  have hat := (hi.of_step hs).1
  have htake : NoPoint (a.lexemes.take (a.following i)) := by
    have hnext : NoPoint (a.lexemes.take (i + 1)) := by
      rw [List.take_add_one, hi.getElem?]
      exact noPoint_append.2 ⟨hbefore, by simpa using hpoint⟩
    rw [Scanner.following]
    split
    · exact hnext
    · exact hbefore
  obtain ⟨l, hnext, rfl⟩ := Execution.run_step_eq_ok_iff.1 hs
  exact of_next hnext rfl hat htake hopen

theorem rewind (ha : a.source.Pairwise fun p q ↦ p.offset < q.offset) (h : s.BeforePoint a)
    (hend : s.current.token ≠ .endOfInput) (ht : t.BeforePoint a) :
    ∃ t', (Execution.rewind (s.scanner.charIndex s.current.span.start)).run t = .ok () t' ∧
      t'.BeforePoint a := by
  obtain ⟨i, hi, hbefore, -⟩ := h
  obtain ⟨j, hj, -, hopen⟩ := ht
  obtain ⟨t', ht', hat, -⟩ := hj.rewind ha hi.getElem? hend
  rw [hi.charIndex_eq ha]
  refine ⟨t', ht', ?_⟩
  obtain ⟨_, t₁, hseek, hstep⟩ := run_bind_eq_ok_iff.1 ht'
  cases hseek
  obtain ⟨l, hnext, rfl⟩ := Execution.run_step_eq_ok_iff.1 hstep
  exact of_next hnext rfl hat hbefore hopen

end State.BeforePoint

/-- **The body of a program keeps in front of the point.** -/
theorem keeps_beforePoint (source : String) :
    Keeps (State.BeforePoint (.ofString source)) where
  withProgress h := h.withProgress
  step h := h.step
  rewind h hloop h' := h.rewind (Placed.pairwise_ofString source) (by simp [hloop]) h'

/-! ## At the point -/

namespace Execution

variable {fuel : Nat} {s : State}

theorem run_outline_of_point {name : String} {s₁ : State}
    (h : (untilPoint fuel).run s = .ok name s₁) (hpoint : s₁.current.token = .symbol .dot) :
    (outline fuel).run s = (do step; return name : Execution String).run s₁ := by
  have hsame : s₁.current.token.same (.symbol .dot) = true := Token.same_symbol_iff.2 hpoint
  rw [outline_eq_untilPoint, run_bind_of_ok h, expect, bind_assoc, run_current_bind, if_pos hsame,
    bind_assoc]
  rfl

/-- What a program consists of that runs to its end. -/
theorem run_outline_eq_ok_iff {name : String} {s' : State} :
    (outline fuel).run s = .ok name s' ↔ ∃ s₁, (untilPoint fuel).run s = .ok name s₁ ∧
      s₁.current.token = .symbol .dot ∧ step.run s₁ = .ok () s' := by
  constructor
  · intro h
    rw [outline_eq_untilPoint] at h
    obtain ⟨name', s₁, hs₁, h⟩ := run_bind_eq_ok_iff.1 h
    obtain ⟨place, s₂, hs₂, h⟩ := run_bind_eq_ok_iff.1 h
    cases h
    obtain ⟨hsame, -, hstep⟩ := run_expect_eq_ok hs₂
    exact ⟨s₁, hs₁, Token.same_symbol_iff.1 hsame, hstep⟩
  · rintro ⟨s₁, hs₁, hpoint, hstep⟩
    rw [run_outline_of_point hs₁ hpoint, run_bind_of_ok hstep]
    rfl

end Execution

/-- The states of a compilation that succeeds: at the first token, at the point and behind it. -/
theorem compileText_eq_ok_iff {fuel : Nat} {source : String} {c : Compiled} :
    compileText fuel source = .ok c ↔ ∃ name s₀ s₁ s₂, State.start (.ofString source) = .ok s₀ ∧
      (Execution.untilPoint fuel).run s₀ = .ok name s₁ ∧ s₁.current.token = .symbol .dot ∧
      Execution.step.run s₁ = .ok () s₂ ∧
      c = ⟨name, s₂.store, s₂.listing, Execution.warnings s₂⟩ := by
  constructor
  · intro h
    cases hstart : State.start (.ofString source) with
    | error f =>
      rw [compileText_of_error fuel hstart] at h
      cases h
    | ok s₀ =>
      rw [compileText_of_start fuel hstart, Execution.result_eq_ok_iff] at h
      obtain ⟨s₂, hprogram⟩ := h
      obtain ⟨name, houtline, hc⟩ := Execution.run_program_eq_ok_iff.1 hprogram
      obtain ⟨s₁, huntil, hpoint, hstep⟩ := Execution.run_outline_eq_ok_iff.1 houtline
      exact ⟨name, s₀, s₁, s₂, rfl, huntil, hpoint, hstep, hc⟩
  · rintro ⟨name, s₀, s₁, s₂, hstart, huntil, hpoint, hstep, hc⟩
    rw [compileText_of_start fuel hstart, Execution.result_eq_ok_iff]
    have houtline := Execution.run_outline_eq_ok_iff.2 ⟨s₁, huntil, hpoint, hstep⟩
    exact ⟨s₂, Execution.run_program_eq_ok_iff.2 ⟨name, houtline, hc⟩⟩

/-- An execution that comes to the point has not looked behind it. -/
theorem beforePoint_of_untilPoint {fuel : Nat} {source name : String} {s₀ s₁ : State}
    (hstart : State.start (.ofString source) = .ok s₀)
    (h : (Execution.untilPoint fuel).run s₀ = .ok name s₁) :
    s₁.BeforePoint (.ofString source) := by
  have htogether := Execution.together_untilPoint (keeps_beforePoint source).lockstep fuel
    ⟨rfl, .start hstart rfl⟩
  obtain ⟨_, -, -, hbefore⟩ := htogether.of_ok h
  exact hbefore

/-- At the point, no comment was found open. -/
theorem State.BeforePoint.openComment_eq {a : Scanner} {s : State} (h : s.BeforePoint a)
    (hpoint : s.current.token = .symbol .dot) : s.scanner.openComment = none := by
  obtain ⟨i, hi, -, hopen⟩ := h
  rcases hopen with hopen | hnone
  · exact hopen
  · exact absurd hpoint (hnone _ (List.mem_of_getElem? hi.getElem?))

/-- **The program of a text ends at the first point**, where the execution came to it. -/
theorem endsAt_of_isReadFrom {source : String} {t : Program} (ht : t.IsReadFrom source)
    {s s' : State} (h : s.BeforePoint (.ofString source))
    (hpoint : s.current.token = .symbol .dot) (hs : Execution.step.run s = .ok () s') :
    t.EndsAt source s.current s'.current := by
  obtain ⟨ts, next, rest, hlexemes, hderives, hsigns⟩ := ht
  obtain ⟨us, e, d, rfl, -, hd, hnone⟩ := hderives.exists_point
  obtain ⟨i, hi, hbefore, -⟩ := h
  have hend : s.current.token ≠ .endOfInput := by simp [hpoint]
  obtain ⟨hat, -⟩ := hi.of_step hs
  rw [hi.following_eq hend hs] at hat
  have hsplit : us ++ [e] ++ d :: next :: rest =
      (Scanner.ofString source).lexemes.take i ++ s.current :: s'.current ::
        (Scanner.ofString source).lexemes.drop (i + 1 + 1) := by
    rw [← hat.drop_eq, ← hi.drop_eq, List.take_append_drop, hlexemes]
    simp
  obtain ⟨-, rfl, hrest⟩ := NoPoint.unique hsplit hnone hbefore hd hpoint
  obtain ⟨rfl, -⟩ := List.cons.inj hrest
  exact ⟨us ++ [e], rest, by simpa using hlexemes, by simpa using hderives, hsigns⟩

/-! ## The text behind the point -/

/-- The text behind a token is what the scanner still has to read. -/
theorem exists_text_behind {source : String} {s : State} {i : Nat}
    (h : s.AtToken (.ofString source) i) (hend : s.current.token ≠ .endOfInput) :
    ∃ before after, source.toList = before ++ after ∧
      s.scanner.rest = layOut (byteLength before) after ∧
      s.current.span.stop = byteLength before := by
  obtain ⟨p, ⟨hscanner, b, hb, hnext, hrest, -⟩, -⟩ := h
  have hsuffix : s.scanner.rest <:+ layOut 0 source.toList := by
    have := s.scanner.suffix
    rw [hscanner] at this
    exact this
  obtain ⟨before, after, htext, hlaid⟩ := exists_of_suffix_layOut hsuffix
  refine ⟨before, after, htext, hlaid, ?_⟩
  rcases scan_of_ok hnext with ⟨hl, -⟩ | ⟨q, qs, token, -, -, hl⟩
  · rw [hl] at hend
    exact absurd rfl hend
  · have hsource : b.source = layOut 0 (before ++ after) := by
      rw [hb, ← htext]
      rfl
    rw [hl, ← Scanner.next_snd_rest, hrest, hlaid, hsource]
    exact offsetAt_layOut before after

end MiniPascal
