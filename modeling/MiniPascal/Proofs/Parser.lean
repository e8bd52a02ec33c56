import MiniPascal.Proofs.Fuel
import MiniPascal.Proofs.Grammar

/-!
# Reading trees

A parser that builds the tree of a program and does nothing else: it neither evaluates nor emits,
and it reads every token once. It decides by the next token alone and expects what an execution
expects, so its faults are the faults of an execution that are about the text.

It reads a finished list of tokens. A `Position` is the next token with those that follow it, and
the lexical fault that comes after them, if the text has one. At the end of the text the last token
is read again and again.
-/

namespace MiniPascal

open Grammar

/-- A position in the tokens of a text. -/
structure Position where
  /-- The next token. -/
  current : Lexeme
  /-- The tokens after the next one. -/
  upcoming : List Lexeme
  /-- The lexical fault after the last token. -/
  ending : Option LexicalFault

/-- All tokens from a position on. -/
def Position.lexemes (p : Position) : List Lexeme := p.current :: p.upcoming

/-- A step of reading. -/
abbrev Parser := EStateM Halt Position

namespace Parser

variable {α : Type}

/-- Halts for lack of fuel. -/
def outOfFuel : Parser α := throw .outOfFuel

/-- The next token. -/
def current : Parser Lexeme := fun p ↦ .ok p.current p

theorem run_current_bind (f : Lexeme → Parser α) (p : Position) :
    (current >>= f).run p = (f p.current).run p := rfl

/-- Halts because of the next token. -/
def unexpected (expected : List String) : Parser α := fun p ↦
  .error (.fault ⟨.unexpected p.current.token expected, p.current.span⟩) p

/-- Moves on to the token after the next one. -/
def step : Parser Unit := fun p ↦
  match p.upcoming, p.ending with
  | next :: upcoming, _ => .ok () { p with current := next, upcoming }
  | [], some f => .error (.fault (.ofLexical f)) p
  | [], none => .ok () p

/-- Takes a given token and tells its place. -/
def expect (t : Token) : Parser Span := do
  let here ← current
  if here.token.same t then
    step
    return here.span
  else unexpected [t.text]

/-- Takes an identifier and tells its name and place. -/
def identifier : Parser (String × Span) := do
  let here ← current
  match here.token with
  | .identifier name =>
    step
    return (name, here.span)
  | _ => unexpected ["identifier"]

/-! ## Expressions -/

/-- A literal. -/
def literal (v : Value) (place : Span) : Parser Expression := do
  step
  return .literal v place

/-- An operator between an expression and an operand that is still to be read. -/
def binary (op : Operator) (left : Expression) (operand : Parser Expression) :
    Parser Expression := do
  let here ← current
  step
  let right ← operand
  return .binary op here.span left right

mutual

/-- An expression: terms joined by additive operators. -/
def expression : Nat → Parser Expression
  | 0 => outOfFuel
  | n + 1 => do
    let first ← term n
    sums n first

/-- The additive operators that follow an expression, from the left. -/
def sums : Nat → Expression → Parser Expression
  | 0, _ => outOfFuel
  | n + 1, left => do
    let here ← current
    match Operator.additive? here.token with
    | some op =>
      let result ← binary op left (term n)
      sums n result
    | none => return left

/-- A term: factors joined by multiplicative operators. -/
def term : Nat → Parser Expression
  | 0 => outOfFuel
  | n + 1 => do
    let first ← factor n
    products n first

/-- The multiplicative operators that follow a term, from the left. -/
def products : Nat → Expression → Parser Expression
  | 0, _ => outOfFuel
  | n + 1, left => do
    let here ← current
    match Operator.multiplicative? here.token with
    | some op =>
      let result ← binary op left (factor n)
      products n result
    | none => return left

/-- A factor: a sign with an expression, a literal, an expression in parentheses or a variable. -/
def factor : Nat → Parser Expression
  | 0 => outOfFuel
  | n + 1 => do
    let here ← current
    match here.token with
    | .symbol .plus =>
      step
      let e ← expression n
      return .plus here.span e
    | .symbol .minus =>
      step
      let e ← expression n
      return .minus here.span e
    | .integer k => literal (.integer k) here.span
    | .real x => literal (.real x) here.span
    | .symbol .openParen =>
      step
      let e ← expression n
      let close ← expect (.symbol .closeParen)
      return .parens ⟨here.span.start, close.stop⟩ e
    | .identifier name =>
      step
      return .named name here.span
    | _ => unexpected Execution.factorStart

end

/-! ## Statements -/

/-- An assignment. -/
def assignment (n : Nat) : Parser Statement := do
  let (name, place) ← identifier
  let _ ← expect (.symbol .assign)
  let value ← expression n
  return .assign name place value

/-- What an expression is compared with. -/
def compared (n : Nat) (left : Expression) : Parser Condition := do
  let here ← current
  match Comparison.ofToken? here.token with
  | some c =>
    step
    let right ← expression n
    return ⟨c, left, right⟩
  | none => unexpected Execution.comparisonStart

/-- The condition of a loop. -/
def comparison (n : Nat) : Parser Condition := do
  let left ← expression n
  compared n left

mutual

/-- A statement; nothing at all is one too. -/
def statement : Nat → Parser Statement
  | 0 => outOfFuel
  | n + 1 => do
    let here ← current
    match here.token with
    | .keyword .blockBegin =>
      let body ← compound n
      return .compound body
    | .identifier _ => assignment n
    | .keyword .loopRepeat => loop n
    | _ => return .nothing

/-- Statements between `BEGIN` and `END`. -/
def compound : Nat → Parser Statement
  | 0 => outOfFuel
  | n + 1 => do
    let _ ← expect (.keyword .blockBegin)
    let body ← statements n
    let _ ← expect (.keyword .blockEnd)
    return body

/-- Statements with semicolons between them. -/
def statements : Nat → Parser Statement
  | 0 => outOfFuel
  | n + 1 => do
    let first ← statement n
    moreStatements n first

/-- A statement with those that follow a semicolon, if one is next. -/
def moreStatements : Nat → Statement → Parser Statement
  | 0, _ => outOfFuel
  | n + 1, first => do
    let here ← current
    match here.token with
    | .symbol .semicolon =>
      step
      let second ← statement n
      let rest ← moreStatements n second
      return .sequence first rest
    | _ => return first

/-- A loop. -/
def loop : Nat → Parser Statement
  | 0 => outOfFuel
  | n + 1 => do
    let place ← expect (.keyword .loopRepeat)
    let body ← statements n
    let _ ← expect (.keyword .loopUntil)
    let condition ← comparison n
    return .loop place.start body condition

end

/-! ## Programs -/

/-- The name of a type. -/
def dataType : Parser DataType := do
  let here ← current
  match here.token.dataType? with
  | some type =>
    step
    return type
  | none => unexpected [Keyword.typeInteger.text, Keyword.typeReal.text]

/-- The names that follow a comma, if one is next. -/
def moreNames : Nat → Parser (List (String × Span))
  | 0 => outOfFuel
  | n + 1 => do
    let here ← current
    match here.token with
    | .symbol .comma =>
      step
      let name ← identifier
      let names ← moreNames n
      return name :: names
    | _ => return []

/-- Names of one type. -/
def group (n : Nat) : Parser Grammar.Group := do
  let name ← identifier
  let names ← moreNames n
  let _ ← expect (.symbol .colon)
  let type ← dataType
  return ⟨name :: names, type⟩

/-- The end of a group, and further groups if a name comes next. -/
def moreGroups (first : Grammar.Group) (further : Parser (List Grammar.Group)) :
    Parser (List Grammar.Group) := do
  let _ ← expect (.symbol .semicolon)
  let here ← current
  match here.token with
  | .identifier _ =>
    let rest ← further
    return first :: rest
  | _ => return [first]

/-- Groups, as long as a name comes next. -/
def groups : Nat → Parser (List Grammar.Group)
  | 0 => outOfFuel
  | n + 1 => do
    let first ← group n
    moreGroups first (groups n)

/-- The declarations of a program, which may be left out. -/
def declarations (n : Nat) : Parser (List Grammar.Group) := do
  let here ← current
  match here.token with
  | .keyword .var =>
    let _ ← expect (.keyword .var)
    groups n
  | _ => return []

/-- A whole program. -/
def program (n : Nat) : Parser Program := do
  let _ ← expect (.keyword .program)
  let (name, _) ← identifier
  let _ ← expect (.symbol .semicolon)
  let groups ← declarations n
  let body ← compound n
  let _ ← expect (.symbol .dot)
  return ⟨name, groups, body⟩

/-! ## What was taken -/

theorem run_expect_eq_ok {t : Token} {p p' : Position} {place : Span}
    (h : (expect t).run p = .ok place p') :
    p.current.token.same t ∧ place = p.current.span ∧ step.run p = .ok () p' := by
  rw [expect, run_current_bind] at h
  split at h
  · next ht =>
    obtain ⟨_, p₁, hstep, hpure⟩ := run_bind_eq_ok_iff.1 h
    cases hpure
    exact ⟨ht, rfl, hstep⟩
  · cases h

theorem run_loop_eq_ok {n : Nat} {p q : Position} {t : Statement}
    (h : (loop (n + 1)).run p = .ok t q) :
    ∃ body condition p₁ p₂ p₃ place, t = .loop p.current.span.start body condition ∧
      (expect (.keyword .loopRepeat)).run p = .ok p.current.span p₁ ∧
      (statements n).run p₁ = .ok body p₂ ∧
      (expect (.keyword .loopUntil)).run p₂ = .ok place p₃ ∧
      (comparison n).run p₃ = .ok condition q := by
  rw [loop] at h
  obtain ⟨start, p₁, hrepeat, h⟩ := run_bind_eq_ok_iff.1 h
  obtain ⟨body, p₂, hbody, h⟩ := run_bind_eq_ok_iff.1 h
  obtain ⟨place, p₃, huntil, h⟩ := run_bind_eq_ok_iff.1 h
  obtain ⟨condition, p₄, hcondition, hpure⟩ := run_bind_eq_ok_iff.1 h
  cases hpure
  obtain ⟨-, rfl, -⟩ := run_expect_eq_ok hrepeat
  exact ⟨body, condition, p₁, p₂, p₃, place, rfl, hrepeat, hbody, huntil, hcondition⟩

theorem loop_token {n : Nat} {p q : Position} {t : Statement}
    (h : (loop (n + 1)).run p = .ok t q) : p.current.token = .keyword .loopRepeat := by
  obtain ⟨_, _, _, _, _, _, -, hrepeat, -⟩ := run_loop_eq_ok h
  exact Token.same_keyword_iff.1 (run_expect_eq_ok hrepeat).1

/-! ## More fuel -/

theorem noFuel_outOfFuel : NoFuel (outOfFuel : Parser α) := noFuel_throw

theorem approximates_binary (op : Operator) (left : Expression) {x y : Parser Expression}
    (h : Approximates x y) : Approximates (binary op left x) (binary op left y) :=
  .bind_right _ fun _ ↦ .bind_right _ fun _ ↦ h.bind_left _

/-- One unit of fuel more, for all productions of expressions at once. -/
theorem approximates_expression (n : Nat) :
    Approximates (expression n) (expression (n + 1)) ∧
      (∀ left, Approximates (sums n left) (sums (n + 1) left)) ∧
      Approximates (term n) (term (n + 1)) ∧
      (∀ left, Approximates (products n left) (products (n + 1) left)) ∧
      Approximates (factor n) (factor (n + 1)) := by
  induction n with
  | zero =>
    refine ⟨?_, fun left ↦ ?_, ?_, fun left ↦ ?_, ?_⟩
    all_goals exact noFuel_outOfFuel.approximates _
  | succ n ih =>
    obtain ⟨he, hs, ht, hp, hf⟩ := ih
    refine ⟨ht.bind hs, fun left ↦ ?_, hf.bind hp, fun left ↦ ?_, ?_⟩
    · rw [sums, sums]
      refine .bind_right _ fun here ↦ ?_
      split
      · exact (approximates_binary _ left ht).bind hs
      · exact .refl _
    · rw [products, products]
      refine .bind_right _ fun here ↦ ?_
      split
      · exact (approximates_binary _ left hf).bind hp
      · exact .refl _
    · rw [factor, factor]
      refine .bind_right _ fun here ↦ ?_
      -- only a sign and an opening parenthesis spend fuel
      split
      · exact .bind_right _ fun _ ↦ he.bind_left _
      · exact .bind_right _ fun _ ↦ he.bind_left _
      · exact .refl _
      · exact .refl _
      · exact .bind_right _ fun _ ↦ he.bind_left _
      · exact .refl _
      · exact .refl _

theorem fueled_expression : Fueled expression := fun n ↦ (approximates_expression n).1

theorem fueled_sums (left : Expression) : Fueled fun n ↦ sums n left :=
  fun n ↦ (approximates_expression n).2.1 left

theorem fueled_term : Fueled term := fun n ↦ (approximates_expression n).2.2.1

theorem fueled_products (left : Expression) : Fueled fun n ↦ products n left :=
  fun n ↦ (approximates_expression n).2.2.2.1 left

theorem fueled_factor : Fueled factor := fun n ↦ (approximates_expression n).2.2.2.2

theorem fueled_assignment : Fueled assignment := fun n ↦
  .bind_right _ fun _ ↦ .bind_right _ fun _ ↦ (fueled_expression n).bind_left _

theorem fueled_compared (left : Expression) : Fueled fun n ↦ compared n left := by
  intro n
  refine .bind_right _ fun here ↦ ?_
  split
  · exact .bind_right _ fun _ ↦ (fueled_expression n).bind_left _
  · exact .refl _

theorem fueled_comparison : Fueled comparison := fueled_expression.bind fueled_compared

/-- One unit of fuel more, for all productions of statements at once. -/
theorem approximates_statement (n : Nat) :
    Approximates (statement n) (statement (n + 1)) ∧
      Approximates (compound n) (compound (n + 1)) ∧
      Approximates (statements n) (statements (n + 1)) ∧
      (∀ first, Approximates (moreStatements n first) (moreStatements (n + 1) first)) ∧
      Approximates (loop n) (loop (n + 1)) := by
  induction n with
  | zero =>
    refine ⟨?_, ?_, ?_, fun first ↦ ?_, ?_⟩
    all_goals exact noFuel_outOfFuel.approximates _
  | succ n ih =>
    obtain ⟨hs, hc, hss, hm, hl⟩ := ih
    refine ⟨?_, ?_, ?_, fun first ↦ ?_, ?_⟩
    · rw [statement, statement]
      refine .bind_right _ fun here ↦ ?_
      split
      · exact hc.bind_left _
      · exact fueled_assignment n
      · exact hl
      · exact .refl _
    · exact .bind_right _ fun _ ↦ hss.bind_left _
    · exact hs.bind hm
    · rw [moreStatements, moreStatements]
      refine .bind_right _ fun here ↦ ?_
      split
      · exact .bind_right _ fun _ ↦ hs.bind fun second ↦ (hm second).bind_left _
      · exact .refl _
    · exact .bind_right _ fun _ ↦ hss.bind fun _ ↦ .bind_right _ fun _ ↦
        (fueled_comparison n).bind_left _

theorem fueled_statement : Fueled statement := fun n ↦ (approximates_statement n).1

theorem fueled_compound : Fueled compound := fun n ↦ (approximates_statement n).2.1

theorem fueled_statements : Fueled statements := fun n ↦ (approximates_statement n).2.2.1

theorem fueled_moreStatements (first : Statement) : Fueled fun n ↦ moreStatements n first :=
  fun n ↦ (approximates_statement n).2.2.2.1 first

theorem fueled_loop : Fueled loop := fun n ↦ (approximates_statement n).2.2.2.2

theorem fueled_moreNames : Fueled moreNames := by
  intro n
  induction n with
  | zero => exact noFuel_outOfFuel.approximates _
  | succ n ih =>
    rw [moreNames, moreNames]
    refine .bind_right _ fun here ↦ ?_
    split
    · exact .bind_right _ fun _ ↦ .bind_right _ fun _ ↦ ih.bind_left _
    · exact .refl _

theorem fueled_group : Fueled group := fun n ↦
  .bind_right _ fun _ ↦ (fueled_moreNames n).bind_left _

theorem approximates_moreGroups (first : Grammar.Group) {x y : Parser (List Grammar.Group)}
    (h : Approximates x y) : Approximates (moreGroups first x) (moreGroups first y) := by
  refine .bind_right _ fun _ ↦ .bind_right _ fun here ↦ ?_
  split
  · exact h.bind_left _
  · exact .refl _

theorem fueled_groups : Fueled groups := by
  intro n
  induction n with
  | zero => exact noFuel_outOfFuel.approximates _
  | succ n ih => exact (fueled_group n).bind fun first ↦ approximates_moreGroups first ih

theorem fueled_declarations : Fueled declarations := by
  intro n
  refine .bind_right _ fun here ↦ ?_
  split
  · exact .bind_right _ fun _ ↦ fueled_groups n
  · exact .refl _

/-- More fuel changes no outcome of a program but the lack of fuel. -/
theorem fueled_program : Fueled program := fun n ↦
  .bind_right _ fun _ ↦ .bind_right _ fun _ ↦ .bind_right _ fun _ ↦
    (fueled_declarations n).bind fun _ ↦ (fueled_compound n).bind_left _

end Parser

end MiniPascal
