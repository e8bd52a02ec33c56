import MiniPascal.Proofs.Meaning

/-!
# Faults of the text

A fault of the text is reported exactly where it is. A token is refused at the first place where the
text cannot be continued to a program: the tokens before it can, and with it they cannot, whatever
follows. A lexical fault is reported if the tokens before it can still be continued. A text that
starts with a program is never refused for a token.

The fault may be found in a later pass of a loop, or behind a loop that runs many times; it is still
the one that reading the text once would find.
-/

namespace MiniPascal

open Grammar

/-- Tokens that a program starts with. -/
def Grammar.Viable (ts : List Token) : Prop := ∃ more, Sentence (ts ++ more)

theorem Grammar.viable_of_derives {ts us : List Lexeme} {t : Program} (h : t.Derives (ts ++ us)) :
    Viable (ts.map Lexeme.token) := by
  refine ⟨us.map Lexeme.token, ?_⟩
  rw [← List.map_append]
  exact sentence_map_iff.2 ⟨t, h⟩

theorem Position.exists_leads (ts : List Lexeme) (q : Position) : ∃ p : Position, p.Leads ts q := by
  cases ts with
  | nil => exact ⟨q, .refl q⟩
  | cons t ts => exact ⟨⟨t, ts ++ q.lexemes, q.ending⟩, rfl, rfl⟩

/-! ## The parser -/

namespace Parser

variable {n : Nat} {p q : Position} {f : Fault}

/-- Tokens that are refused whatever follows are not those that a program starts with. -/
theorem not_viable_of_refused {ts : List Lexeme} (h : ∀ p' q', p'.Leads ts q' →
      q'.current = q.current → (program n).run p' = .error (.fault f) q') :
    ¬Viable (ts.map Lexeme.token ++ [q.current.token]) := by
  rintro ⟨more, hsentence⟩
  let rest : List Lexeme := q.current :: more.map fun t ↦ ⟨t, ⟨0, 0⟩⟩
  have hmap : (ts ++ rest).map Lexeme.token =
      ts.map Lexeme.token ++ [q.current.token] ++ more := by
    simp [rest, Function.comp_def]
  rw [← hmap, sentence_map_iff] at hsentence
  obtain ⟨t, ht⟩ := hsentence
  obtain ⟨t', ht', hsigns⟩ := ht.exists_signsTakeAll
  obtain ⟨p', hp'⟩ := Position.exists_leads (ts ++ rest) q
  obtain ⟨q', hq', hrest⟩ := hp'.split
  have hok := yields_program ht' hsigns hp'
  have hfault : Yields program p' (.error (.fault f) q') := ⟨trivial, n, h p' q' hq' hrest.head⟩
  cases hok.unique fueled_program hfault

/-- **Tokens.** A token is refused after tokens that a program starts with, and no program starts
with it behind them. -/
theorem viable_of_unexpected {token : Token} {expected : List String} {place : Span}
    (hp : p.Closed)
    (h : (program n).run p = .error (.fault ⟨.unexpected token expected, place⟩) q) :
    ∃ before after, p.lexemes = before ++ ⟨token, place⟩ :: after ∧
      Viable (before.map Lexeme.token) ∧ ¬Viable (before.map Lexeme.token ++ [token]) := by
  rcases (recognizesAt_program n p hp).refuses h with
    ⟨ts, expected', hf, hleads, ⟨us, t, ht⟩, hrefused⟩ | ⟨g, hg, -⟩
  · cases hf
    exact ⟨ts, q.upcoming, hleads.1, viable_of_derives ht, not_viable_of_refused hrefused⟩
  · cases hg

/-- **Lexical faults.** The tokens before a lexical fault that is reported are those that a program
starts with. -/
theorem viable_of_lexical {g : LexicalFault} {place : Span} (hp : p.Closed)
    (h : (program n).run p = .error (.fault ⟨.lexical g, place⟩) q) :
    p.ending = some g ∧ place = g.span ∧ Viable (p.lexemes.map Lexeme.token) := by
  rcases (recognizesAt_program n p hp).refuses h with
    ⟨ts, expected, hf, -⟩ | ⟨g', hg, hend, us, t, ht⟩
  · cases hf
  · cases hg
    exact ⟨hend, rfl, viable_of_derives ht⟩

/-- **No program is refused for a token**, whatever stands behind it. -/
theorem not_sentence_of_unexpected {token : Token} {expected : List String} {place : Span}
    (hp : p.Closed)
    (h : (program n).run p = .error (.fault ⟨.unexpected token expected, place⟩) q)
    {ts : List Token} (hts : ts <+: p.lexemes.map Lexeme.token) : ¬Sentence ts := by
  intro hsentence
  obtain ⟨us, hus⟩ := hts
  obtain ⟨ls, rest, hlexemes, rfl, -⟩ := List.map_eq_append_iff.1 hus.symm
  cases rest with
  -- the sentence is the whole text and starts with the token that was refused
  | nil =>
    obtain ⟨before, after, hbefore, -, hnot⟩ := viable_of_unexpected hp h
    refine hnot ⟨after.map Lexeme.token, ?_⟩
    rw [List.append_nil] at hlexemes
    rw [← hlexemes, hbefore] at hsentence
    simpa using hsentence
  -- a token follows the sentence, so the parser succeeds and cannot refuse one as well
  | cons next rest =>
    obtain ⟨t, ht⟩ := sentence_map_iff.1 hsentence
    obtain ⟨t', ht', hsigns⟩ := ht.exists_signsTakeAll
    have hok := yields_program (q := ⟨next, rest, p.ending⟩) ht' hsigns ⟨hlexemes, rfl⟩
    have hfault : Yields program p (.error (.fault ⟨.unexpected token expected, place⟩) q) :=
      ⟨trivial, n, h⟩
    cases hok.unique fueled_program hfault

end Parser

/-! ## Texts -/

/-- A fault of the text is found by the parser, unless the text starts with a lexical fault. -/
theorem parser_fault_of_compileText {fuel : Nat} {source : String} {f : Fault}
    (h : compileText fuel source = .error (.fault f)) (hf : f.cause.Syntactic) :
    (∃ g, f = .ofLexical g ∧ (Scanner.ofString source).lexemes = [] ∧
        (Scanner.ofString source).fault? = some g) ∨
      ∃ p q, p.Closed ∧ p.lexemes = (Scanner.ofString source).lexemes ∧
        p.ending = (Scanner.ofString source).fault? ∧
        (Parser.program fuel).run p = .error (.fault f) q := by
  rcases State.start_cases (.ofString source) with
    ⟨g, hg, hnil, hfault⟩ | ⟨s, p, hs, hat, -, hlexemes, hending⟩
  · rw [compileText_of_error fuel hg] at h
    cases h
    exact .inl ⟨g, rfl, hnil, hfault⟩
  · rw [compileText_of_start fuel hs, Execution.result_eq_error_iff] at h
    obtain ⟨s', hprogram⟩ := h
    have hfollows := Execution.follows_program (Placed.pairwise_ofString source) fuel hat
    obtain ⟨q, hq⟩ := hfollows.of_fault hprogram hf
    exact .inr ⟨p, q, hat.closed, hlexemes, hending, hq⟩

/-- **Syntax faults are exact.** Let a text have some tokens, up to its end or its first lexical
fault.

* If it compiles, it starts with a program.
* If it starts with a program, it is not refused for a token.
* If it is refused for a token, this is one of its tokens, a program can start with the tokens
  before it, and none starts with them and this one.
* If a lexical fault is reported, it is the first, and a program can start with the tokens
  before. -/
theorem syntax_faults_exact (fuel : Nat) (source : String) :
    (∀ c, compileText fuel source = .ok c →
      ∃ ts, ts <+: (Scanner.ofString source).lexemes.map Lexeme.token ∧ Sentence ts) ∧
    ((∃ ts, ts <+: (Scanner.ofString source).lexemes.map Lexeme.token ∧ Sentence ts) →
      ∀ token expected place,
        compileText fuel source ≠ .error (.fault ⟨.unexpected token expected, place⟩)) ∧
    (∀ token expected place,
      compileText fuel source = .error (.fault ⟨.unexpected token expected, place⟩) →
      ∃ before after, (Scanner.ofString source).lexemes = before ++ ⟨token, place⟩ :: after ∧
        Viable (before.map Lexeme.token) ∧ ¬Viable (before.map Lexeme.token ++ [token])) ∧
    ∀ f place, compileText fuel source = .error (.fault ⟨.lexical f, place⟩) →
      (Scanner.ofString source).fault? = some f ∧ place = f.span ∧
        Viable ((Scanner.ofString source).lexemes.map Lexeme.token) := by
  refine ⟨fun c h ↦ ?_, ?_, fun token expected place h ↦ ?_, fun f place h ↦ ?_⟩
  · obtain ⟨t, ⟨ts, next, rest, hts, ht, -⟩, -⟩ := exists_tree_of_compileText h
    refine ⟨ts.map Lexeme.token, ?_, sentence_map_iff.2 ⟨t, ht⟩⟩
    rw [hts, List.map_append]
    exact List.prefix_append _ _
  · rintro ⟨ts, hts, hsentence⟩ token expected place h
    rcases parser_fault_of_compileText h trivial with ⟨g, hg, -⟩ | ⟨p, q, hp, hlexemes, -, hq⟩
    · cases hg
    · rw [← hlexemes] at hts
      exact Parser.not_sentence_of_unexpected hp hq hts hsentence
  · rcases parser_fault_of_compileText h trivial with ⟨g, hg, -⟩ | ⟨p, q, hp, hlexemes, -, hq⟩
    · cases hg
    · rw [← hlexemes]
      exact Parser.viable_of_unexpected hp hq
  · rcases parser_fault_of_compileText h trivial with
      ⟨g, hg, hnil, hfault⟩ | ⟨p, q, hp, hlexemes, hending, hq⟩
    · cases hg
      obtain ⟨ts, t, ht⟩ := Parser.exists_derives_program
      have hviable : Viable (([] : List Lexeme).map Lexeme.token) := viable_of_derives ht
      rw [hnil]
      exact ⟨hfault, rfl, hviable⟩
    · rw [← hlexemes, ← hending]
      exact Parser.viable_of_lexical hp hq

/-- Whether a token is out of place. -/
def Fault.isUnexpected : Fault → Bool
  | ⟨.unexpected _ _, _⟩ => true
  | _ => false

/-- Whether there is no token. -/
def Fault.isLexical : Fault → Bool
  | ⟨.lexical _, _⟩ => true
  | _ => false

theorem syntax_faults_exact_samples :
    (∃ c, compileText 20 "PROGRAM p; BEGIN END." = .ok c ∧
      ∃ ts, ts <+: (Scanner.ofString "PROGRAM p; BEGIN END.").lexemes.map Lexeme.token ∧
        Sentence ts) ∧
    (∃ token expected place, compileText 20 "PROGRAM p; BEGIN REPEAT UNTIL 1 = 1 BEGIN END." =
        .error (.fault ⟨.unexpected token expected, place⟩) ∧
      ∃ before after,
        (Scanner.ofString "PROGRAM p; BEGIN REPEAT UNTIL 1 = 1 BEGIN END.").lexemes =
          before ++ ⟨token, place⟩ :: after ∧
        Viable (before.map Lexeme.token) ∧ ¬Viable (before.map Lexeme.token ++ [token])) ∧
    ∃ f place, compileText 20 "PROGRAM p; BEGIN ? END." = .error (.fault ⟨.lexical f, place⟩) ∧
      (Scanner.ofString "PROGRAM p; BEGIN ? END.").fault? = some f ∧ place = f.span ∧
      Viable ((Scanner.ofString "PROGRAM p; BEGIN ? END.").lexemes.map Lexeme.token) := by
  refine ⟨?_, ?_, ?_⟩
  · have hok : (compileText 20 "PROGRAM p; BEGIN END.").isOk := by decide +kernel
    obtain ⟨c, hc⟩ := exists_compiled_of_isOk hok
    exact ⟨c, hc, (syntax_faults_exact 20 _).1 c hc⟩
  · have hfault : haltsWith Fault.isUnexpected 20
        "PROGRAM p; BEGIN REPEAT UNTIL 1 = 1 BEGIN END." := by decide +kernel
    obtain ⟨⟨cause, place⟩, h, hcause⟩ := exists_fault_of_haltsWith hfault
    cases cause with
    | unexpected token expected =>
      exact ⟨token, expected, place, h, (syntax_faults_exact 20 _).2.2.1 token expected place h⟩
    | _ => cases hcause
  · have hfault : haltsWith Fault.isLexical 20 "PROGRAM p; BEGIN ? END." := by
      decide +kernel
    obtain ⟨⟨cause, place⟩, h, hcause⟩ := exists_fault_of_haltsWith hfault
    cases cause with
    | lexical f => exact ⟨f, place, h, (syntax_faults_exact 20 _).2.2.2 f place h⟩
    | _ => cases hcause

end MiniPascal
