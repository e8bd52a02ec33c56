import MiniPascal.Proofs.Refinement

/-!
# Productions cut at their calls

The productions of a program call each other, and what a production does between two calls is done
in a moment: it looks at the next token, takes it, or changes the variables and the listing. A
`Plan` is a production cut at its calls. Its parts come with what is to be known of them: none of
them runs out of fuel, and each either reads nothing or takes exactly one token.

Running a plan is running the production (`Routine.run_succ`, `Plan.pass_eq`, `Plan.program_eq`), so
what holds of every plan holds of every production.
-/

namespace MiniPascal

open Execution

variable {α β : Type}

/-! ## What makes no calls -/

/-- The execution never runs out of fuel. -/
def Settles (x : Execution α) : Prop := ∀ s, Settled (x.run s)

namespace Settles

theorem pure (a : α) : Settles (Pure.pure a) := fun _ ↦ trivial

theorem unexpected (expected : List String) :
    Settles (Execution.unexpected expected : Execution α) := fun _ ↦ trivial

theorem fail (cause : FaultCause) (span : Span) :
    Settles (Execution.fail cause span : Execution α) := fun _ ↦ trivial

theorem current : Settles Execution.current := fun _ ↦ trivial

theorem emit (f : Listing → Listing) : Settles (Execution.emit f) := fun _ ↦ trivial

theorem markLoop : Settles Execution.markLoop := fun _ ↦ trivial

theorem bind {x : Execution α} {f : α → Execution β} (hx : Settles x) (hf : ∀ a, Settles (f a)) :
    Settles (x >>= f) := by
  intro s
  have hs := hx s
  rw [EStateM.run_bind]
  cases hxs : x.run s with
  | ok a s' => exact hf a s'
  | error e s' =>
    rw [hxs] at hs
    cases e with
    | fault f => trivial
    | outOfFuel => exact hs

theorem step : Settles Execution.step := by
  intro s
  cases hnext : s.scanner.next.1 with
  | ok l =>
    rw [State.At.run_step_of_ok hnext]
    trivial
  | error f =>
    rw [State.At.run_step_of_error hnext]
    trivial

theorem expect (t : Token) : Settles (Execution.expect t) := by
  refine current.bind fun here ↦ ?_
  by_cases hsame : here.token.same t
  · rw [if_pos hsame]
    exact step.bind fun _ ↦ pure _
  · rw [if_neg hsame]
    exact unexpected _

theorem identifier : Settles Execution.identifier := by
  refine current.bind fun here ↦ ?_
  cases here.token with
  | identifier name => exact step.bind fun _ ↦ pure _
  | _ => exact unexpected _

theorem dataType : Settles Execution.dataType := by
  refine current.bind fun here ↦ ?_
  cases here.token.dataType? with
  | some type => exact step.bind fun _ ↦ pure _
  | none => exact unexpected _

theorem arithmetic (span : Span) (r : Except ArithmeticFault Value) :
    Settles (Execution.arithmetic span r) := by
  cases r with
  | ok v => exact pure v
  | error f => exact fail _ _

theorem declareAll (type : DataType) (names : List (String × Span)) :
    Settles (Execution.declareAll type names) := by
  induction names with
  | nil => exact pure ()
  | cons name names ih =>
    refine bind (fun s ↦ ?_) fun _ ↦ ih
    rw [declare, run_get_bind]
    cases s.store.declare name.1 type name.2 with
    | ok store => trivial
    | error first => trivial

theorem store (name : String) (span : Span) (start : Nat) (v : Value) :
    Settles (Execution.store name span start v) := by
  intro s
  rw [Execution.store, run_get_bind]
  cases s.store.assign name v with
  | ok store => trivial
  | error f =>
    cases f with
    | undeclared => trivial
    | typeMismatch expected got => trivial

theorem lookUp (name : String) (span : Span) :
    Settles (perform (Interpreter.lookUp name span)) := by
  intro s
  rw [run_perform, Interpreter.run_lookUp]
  cases s.progress.store.value? name with
  | some v => trivial
  | none => trivial

end Settles

/-- The execution reads nothing, in whatever state. -/
def Still (x : Execution α) : Prop :=
  ∀ s a s', x.run s = .ok a s' → s'.current = s.current ∧ s'.scanner = s.scanner

namespace Still

theorem current : Still Execution.current := by
  rintro s a s' ⟨⟩
  exact ⟨rfl, rfl⟩

theorem perform (x : Interpreter α) : Still (Execution.perform x) := by
  intro s a s' h
  rw [run_perform] at h
  cases hx : x.run s.progress with
  | ok b r =>
    rw [hx] at h
    cases h
    exact ⟨rfl, rfl⟩
  | error e r =>
    rw [hx] at h
    cases h

theorem pure (a : α) : Still (Pure.pure a) := perform (Pure.pure a)

theorem store (name : String) (span : Span) (start : Nat) (v : Value) :
    Still (Execution.store name span start v) := by
  intro s a s' h
  rw [run_store] at h
  exact perform _ s a s' h

theorem emit (f : Listing → Listing) : Still (Execution.emit f) := by
  rw [emit_eq_perform]
  exact perform _

theorem arithmetic (span : Span) (r : Except ArithmeticFault Value) :
    Still (Execution.arithmetic span r) := by
  rw [arithmetic_eq_perform]
  exact perform _

theorem unexpected (expected : List String) :
    Still (Execution.unexpected expected : Execution α) := by
  intro s a s' h
  cases h

theorem declareAll (type : DataType) (names : List (String × Span)) :
    Still (Execution.declareAll type names) := by
  rw [declareAll_eq_perform]
  exact perform _

end Still

/-- Where the execution succeeds, it has taken the next token. -/
def TakesToken (x : Execution α) : Prop :=
  ∀ s a s', x.run s = .ok a s' → s.current.token ≠ .endOfInput ∧ step.run s = .ok () s'

/-- What stands for something is not the end of the text. -/
theorem Token.ne_endOfInput_of_some {f : Token → Option α} (hf : f .endOfInput = none) {t : Token}
    {a : α} (h : f t = some a) : t ≠ .endOfInput := by
  rintro rfl
  rw [hf] at h
  cases h

namespace TakesToken

theorem expect {t : Token} (ht : Token.endOfInput.same t = false) :
    TakesToken (Execution.expect t) := by
  intro s a s' h
  obtain ⟨hsame, -, hstep⟩ := run_expect_eq_ok h
  refine ⟨fun hend ↦ ?_, hstep⟩
  rw [hend, ht] at hsame
  cases hsame

theorem identifier : TakesToken Execution.identifier := by
  rintro s ⟨name, span⟩ s' h
  obtain ⟨hcurrent, hstep⟩ := run_identifier_eq_ok h
  exact ⟨by simp [hcurrent], hstep⟩

theorem dataType : TakesToken Execution.dataType := by
  intro s a s' h
  rw [Execution.dataType, run_current_bind] at h
  cases htype : s.current.token.dataType? with
  | some type =>
    rw [htype] at h
    obtain ⟨_, s₁, hstep, hpure⟩ := run_bind_eq_ok_iff.1 h
    cases hpure
    exact ⟨Token.ne_endOfInput_of_some rfl htype, hstep⟩
  | none =>
    rw [htype] at h
    cases h

end TakesToken

/-- Takes the next token, whichever it is. -/
def Execution.takeAny : Execution Unit := do
  let here ← current
  match here.token with
  | .endOfInput => unexpected []
  | _ => step

/-- Before the end of the text that is a step. -/
theorem Execution.run_takeAny_of_ne {s : State} (h : s.current.token ≠ .endOfInput) :
    takeAny.run s = step.run s := by
  rw [takeAny, run_current_bind]
  cases htoken : s.current.token with
  | endOfInput => exact absurd htoken h
  | _ => rfl

theorem Execution.run_takeAny {s : State} (h : s.current.token ≠ .endOfInput)
    (f : Unit → Execution α) : (takeAny >>= f).run s = (step >>= f).run s := by
  rw [EStateM.run_bind, EStateM.run_bind, run_takeAny_of_ne h]

theorem Settles.takeAny : Settles Execution.takeAny := by
  refine current.bind fun here ↦ ?_
  cases here.token with
  | endOfInput => exact unexpected _
  | _ => exact step

theorem TakesToken.takeAny : TakesToken Execution.takeAny := by
  intro s a s' h
  rw [Execution.takeAny, run_current_bind] at h
  cases htoken : s.current.token with
  | endOfInput =>
    rw [htoken] at h
    cases h
  | _ =>
    rw [htoken] at h
    exact ⟨by simp, h⟩

/-- A loop: its address is noted, and its passes are executed. -/
def Execution.loop (n : Nat) : Execution Unit := do
  let address ← markLoop
  passes n address

/-! ## Plans -/

/-- The productions that call themselves, or others that call them. -/
inductive Routine where
  | moreNames
  | groups
  | statement
  | compound
  | statements
  | moreStatements
  | expression
  | sums (left : Value)
  | term
  | products (left : Value)
  | factor

namespace Routine

/-- What a production gives. -/
def Result : Routine → Type
  | moreNames => List (String × Span)
  | groups | statement | compound | statements | moreStatements => Unit
  | expression | sums _ | term | products _ | factor => Value

/-- The execution of a production. -/
def run (n : Nat) : (r : Routine) → Execution r.Result
  | moreNames => Execution.moreNames n
  | groups => Execution.groups n
  | statement => Execution.statement n
  | compound => Execution.compound n
  | statements => Execution.statements n
  | moreStatements => Execution.moreStatements n
  | expression => Execution.expression n
  | sums left => Execution.sums n left
  | term => Execution.term n
  | products left => Execution.products n left
  | factor => Execution.factor n

theorem fueled_run (r : Routine) : Fueled fun n ↦ r.run n := by
  cases r with
  | moreNames => exact fueled_moreNames
  | groups => exact fueled_groups
  | statement => exact fueled_statement
  | compound => exact fueled_compound
  | statements => exact fueled_statements
  | moreStatements => exact fueled_moreStatements
  | expression => exact fueled_expression
  | sums left => exact fun n ↦ (approximates_expression n).2.1 left
  | term => exact fun n ↦ (approximates_expression n).2.2.1
  | products left => exact fun n ↦ (approximates_expression n).2.2.2.1 left
  | factor => exact fun n ↦ (approximates_expression n).2.2.2.2

end Routine

/-- What a production does, cut at its calls. A loop ends its plan. -/
inductive Plan (α : Type) : Type 1
  | finish (x : Execution α) (hx : Settles x) (hstill : Still x)
  | look {β : Type} (x : Execution β) (hx : Settles x) (hstill : Still x) (k : β → Plan α)
  | take {β : Type} (x : Execution β) (hx : Settles x) (htakes : TakesToken x) (k : β → Plan α)
  | call (r : Routine) (k : r.Result → Plan α)
  | loop (a : α)

namespace Plan

/-- The execution of a plan; the calls are made with the given fuel. -/
def run (n : Nat) : Plan α → Execution α
  | finish x _ _ => x
  | look x _ _ k => x >>= fun b ↦ (k b).run n
  | take x _ _ k => x >>= fun b ↦ (k b).run n
  | call r k => r.run n >>= fun v ↦ (k v).run n
  | loop a => do
    Execution.loop n
    return a

/-! Parts of plans. -/

def done (a : α) : Plan α := finish (pure a) (.pure a) (.pure a)

def current (k : Lexeme → Plan α) : Plan α := look Execution.current .current .current k

def expect (t : Token) (ht : Token.endOfInput.same t = false) (k : Span → Plan α) : Plan α :=
  take (Execution.expect t) (.expect t) (.expect ht) k

def identifier (k : String × Span → Plan α) : Plan α :=
  take Execution.identifier .identifier .identifier k

def takeAny (k : Unit → Plan α) : Plan α := take Execution.takeAny .takeAny .takeAny k

def emit (f : Listing → Listing) (k : Unit → Plan α) : Plan α :=
  look (Execution.emit f) (.emit f) (.emit f) k

/-- An operator with the operand behind it, and what follows their result. -/
def binary (op : Operator) (left : Value) (here : Lexeme) (operand : (Value → Plan α) → Plan α)
    (k : Value → Plan α) : Plan α :=
  takeAny fun _ ↦ operand fun right ↦
    emit (fun l ↦ l.arithmetic (.arithmetic op) left right) fun _ ↦
      look (arithmetic here.span (op.apply left right)) (.arithmetic _ _) (.arithmetic _ _) k

/-- A constant. -/
def literal (v : Value) : Plan Value :=
  emit (fun l ↦ l.pushImmediate v) fun _ ↦ takeAny fun _ ↦ done v

/-- The value of a variable. -/
def variableValue (name : String) (span : Span) : Plan Value :=
  emit (fun l ↦ l.pushVariable name) fun _ ↦ takeAny fun _ ↦
    finish (perform (Interpreter.lookUp name span)) (.lookUp name span) (.perform _)

theorem run_binary {op : Operator} {left : Value} {s : State}
    (h : s.current.token ≠ .endOfInput) {operand : Execution Value}
    {call : (Value → Plan α) → Plan α} {n : Nat}
    (hcall : ∀ k, (call k).run n = operand >>= fun v ↦ (k v).run n) (k : Value → Plan α) :
    ((binary op left s.current call k).run n).run s =
      (Execution.binary op left operand >>= fun v ↦ (k v).run n).run s := by
  rw [binary, takeAny, run, run_takeAny h]
  simp only [hcall, emit, run, Execution.binary, bind_assoc]
  rfl

/-! The plans of the productions. -/

def moreNames : Plan (List (String × Span)) :=
  current fun here ↦
    match here.token with
    | .symbol .comma =>
      takeAny fun _ ↦ identifier fun name ↦ call .moreNames fun names ↦ done (List.cons name names)
    | _ => done []

def groups : Plan Unit :=
  identifier fun name ↦ call .moreNames fun names ↦ expect (.symbol .colon) rfl fun _ ↦
    take dataType .dataType .dataType fun type ↦
      look (declareAll type (List.cons name names)) (.declareAll _ _) (.declareAll _ _) fun _ ↦
        expect (.symbol .semicolon) rfl fun _ ↦ current fun here ↦
          match here.token with
          | .identifier _ => call .groups done
          | _ => done ()

def statement : Plan Unit :=
  current fun here ↦
    match here.token with
    | .keyword .blockBegin => call .compound done
    | .identifier _ =>
      identifier fun (name, span) ↦ expect (.symbol .assign) rfl fun _ ↦ current fun first ↦
        call .expression fun v ↦ finish (store name span first.span.start v) (.store _ _ _ _)
          (.store _ _ _ _)
    | .keyword .loopRepeat => loop ()
    | _ => done ()

def compound : Plan Unit :=
  expect (.keyword .blockBegin) rfl fun _ ↦ call .statements fun _ ↦
    expect (.keyword .blockEnd) rfl fun _ ↦ done ()

def statements : Plan Unit := call .statement fun _ ↦ call .moreStatements done

def moreStatements : Plan Unit :=
  current fun here ↦
    match here.token with
    | .symbol .semicolon => takeAny fun _ ↦ call .statement fun _ ↦ call .moreStatements done
    | _ => done ()

def expression : Plan Value := call .term fun first ↦ call (.sums first) done

def sums (left : Value) : Plan Value :=
  current fun here ↦
    match Operator.additive? here.token with
    | some op => binary op left here (call .term) fun result ↦ call (.sums result) done
    | none => done left

def term : Plan Value := call .factor fun first ↦ call (.products first) done

def products (left : Value) : Plan Value :=
  current fun here ↦
    match Operator.multiplicative? here.token with
    | some op => binary op left here (call .factor) fun result ↦ call (.products result) done
    | none => done left

def factor : Plan Value :=
  current fun here ↦
    match here.token with
    | .symbol .plus => takeAny fun _ ↦ call .expression done
    | .symbol .minus =>
      takeAny fun _ ↦ call .expression fun v ↦ emit (fun l ↦ l.negate v) fun _ ↦
        finish (arithmetic here.span (Value.neg v)) (.arithmetic _ _) (.arithmetic _ _)
    | .integer k => literal (.integer k)
    | .real x => literal (.real x)
    | .symbol .openParen =>
      takeAny fun _ ↦ call .expression fun v ↦ expect (.symbol .closeParen) rfl fun _ ↦ done v
    | .identifier name => variableValue name here.span
    | _ => finish (unexpected factorStart) (.unexpected _) (.unexpected _)

/-- One pass of the loop at an address. -/
def pass (address : Nat) : Plan Bool :=
  expect (.keyword .loopRepeat) rfl fun _ ↦ call .statements fun _ ↦
    expect (.keyword .loopUntil) rfl fun _ ↦ call .expression fun left ↦ current fun here ↦
      match Comparison.ofToken? here.token with
      | some c =>
        emit (fun l ↦ l.jump (.jump c) address) fun _ ↦ takeAny fun _ ↦
          call .expression fun right ↦ done (c.holds (Value.compare left right))
      | none => finish (unexpected comparisonStart) (.unexpected _) (.unexpected _)

/-- What a program has come to. -/
def compiled (name : String) : Execution Compiled := do
  let s ← get
  return { name, store := s.store, listing := s.listing, warnings := warnings s }

/-- A whole program. -/
def program : Plan Compiled :=
  expect (.keyword .program) rfl fun _ ↦ identifier fun (name, _) ↦
    expect (.symbol .semicolon) rfl fun _ ↦ current fun here ↦
      match here.token with
      | .keyword .var => expect (.keyword .var) rfl fun _ ↦ call .groups fun _ ↦ body name
      | _ => body name
where
  body (name : String) : Plan Compiled :=
    call .compound fun _ ↦ expect (.symbol .dot) rfl fun _ ↦
      finish (compiled name) (fun _ ↦ trivial) (by rintro s a s' ⟨⟩; exact ⟨rfl, rfl⟩)

/-! ## A plan is what its production does -/

theorem run_current (n : Nat) (k : Lexeme → Plan α) (s : State) :
    ((current k).run n).run s = ((k s.current).run n).run s := rfl

/-- A call at the end of a plan. -/
theorem run_call_done (r : Routine) (n : Nat) : (call r done).run n = r.run n :=
  bind_pure (r.run n)

theorem moreNames_succ (n : Nat) : Execution.moreNames (n + 1) = moreNames.run n := by
  refine eq_of_run_eq fun s ↦ ?_
  rw [Execution.moreNames, run_current_bind, moreNames, run_current]
  cases htoken : s.current.token with
  | symbol y =>
    cases y with
    | comma => exact (run_takeAny (by simp [htoken]) _).symm
    | _ => rfl
  | _ => rfl

theorem groups_succ (n : Nat) : Execution.groups (n + 1) = groups.run n := by
  rw [Execution.groups, group]
  simp only [bind_assoc]
  refine bind_congr fun name ↦ bind_congr fun names ↦ bind_congr fun _ ↦ bind_congr fun type ↦
    bind_congr fun _ ↦ bind_congr fun _ ↦ eq_of_run_eq fun s ↦ ?_
  rw [run_current_bind, run_current]
  cases s.current.token with
  | identifier name => exact congrArg (EStateM.run · s) (run_call_done .groups n).symm
  | _ => rfl

theorem statement_succ (n : Nat) : Execution.statement (n + 1) = statement.run n := by
  refine eq_of_run_eq fun s ↦ ?_
  rw [Execution.statement, run_current_bind, statement, run_current]
  cases s.current.token with
  | keyword k =>
    cases k with
    | blockBegin => exact congrArg (EStateM.run · s) (run_call_done .compound n).symm
    | loopRepeat => exact congrArg (EStateM.run · s) (bind_pure (Execution.loop n)).symm
    | _ => rfl
  | _ => rfl

theorem compound_succ (n : Nat) : Execution.compound (n + 1) = compound.run n := rfl

theorem statements_succ (n : Nat) : Execution.statements (n + 1) = statements.run n :=
  bind_congr fun _ ↦ (run_call_done .moreStatements n).symm

theorem moreStatements_succ (n : Nat) :
    Execution.moreStatements (n + 1) = moreStatements.run n := by
  refine eq_of_run_eq fun s ↦ ?_
  rw [Execution.moreStatements, run_current_bind, moreStatements, run_current]
  cases htoken : s.current.token with
  | symbol y =>
    cases y with
    | semicolon =>
      refine Eq.trans ?_ (run_takeAny (by simp [htoken]) _).symm
      refine congrArg (EStateM.run · s) (bind_congr fun _ ↦ bind_congr fun _ ↦ ?_)
      exact (run_call_done .moreStatements n).symm
    | _ => rfl
  | _ => rfl

theorem expression_succ (n : Nat) : Execution.expression (n + 1) = expression.run n :=
  bind_congr fun first ↦ (run_call_done (.sums first) n).symm

theorem term_succ (n : Nat) : Execution.term (n + 1) = term.run n :=
  bind_congr fun first ↦ (run_call_done (.products first) n).symm

theorem sums_succ (n : Nat) (left : Value) : Execution.sums (n + 1) left = (sums left).run n := by
  refine eq_of_run_eq fun s ↦ ?_
  rw [Execution.sums, run_current_bind, sums, run_current]
  cases hop : Operator.additive? s.current.token with
  | some op =>
    have hend := Token.ne_endOfInput_of_some rfl hop
    refine Eq.trans ?_ (run_binary hend (fun _ ↦ rfl) _).symm
    refine congrArg (EStateM.run · s) (bind_congr fun result ↦ ?_)
    exact (run_call_done (.sums result) n).symm
  | none => rfl

theorem products_succ (n : Nat) (left : Value) :
    Execution.products (n + 1) left = (products left).run n := by
  refine eq_of_run_eq fun s ↦ ?_
  rw [Execution.products, run_current_bind, products, run_current]
  cases hop : Operator.multiplicative? s.current.token with
  | some op =>
    have hend := Token.ne_endOfInput_of_some rfl hop
    refine Eq.trans ?_ (run_binary hend (fun _ ↦ rfl) _).symm
    refine congrArg (EStateM.run · s) (bind_congr fun result ↦ ?_)
    exact (run_call_done (.products result) n).symm
  | none => rfl

theorem run_literal {s : State} (h : s.current.token ≠ .endOfInput) (v : Value) (n : Nat) :
    ((literal v).run n).run s = (Execution.literal v).run s :=
  run_takeAny (s := { s with listing := s.listing.pushImmediate v }) h _

theorem run_variableValue {s : State} (h : s.current.token ≠ .endOfInput) (name : String)
    (span : Span) (n : Nat) :
    ((variableValue name span).run n).run s = (Execution.variableValue name span).run s := by
  rw [variableValue_eq_perform, ← emit_eq_perform]
  exact run_takeAny (s := { s with listing := s.listing.pushVariable name }) h _

theorem factor_succ (n : Nat) : Execution.factor (n + 1) = factor.run n := by
  refine eq_of_run_eq fun s ↦ ?_
  rw [Execution.factor, run_current_bind, factor, run_current]
  cases htoken : s.current.token with
  | symbol y =>
    have hend : s.current.token ≠ .endOfInput := by simp [htoken]
    cases y with
    | plus =>
      refine Eq.trans ?_ (run_takeAny hend _).symm
      refine congrArg (EStateM.run · s) (bind_congr fun _ ↦ ?_)
      exact (run_call_done .expression n).symm
    | minus => exact (run_takeAny hend _).symm
    | openParen => exact (run_takeAny hend _).symm
    | _ => rfl
  | integer k => exact (run_literal (by simp [htoken]) _ n).symm
  | real x => exact (run_literal (by simp [htoken]) _ n).symm
  | identifier name => exact (run_variableValue (by simp [htoken]) _ _ n).symm
  | _ => rfl

theorem pass_eq (n address : Nat) : Execution.pass n address = (pass address).run n := by
  rw [Execution.pass, comparison]
  refine bind_congr fun _ ↦ bind_congr fun _ ↦ bind_congr fun _ ↦ bind_congr fun left ↦
    eq_of_run_eq fun s ↦ ?_
  rw [run_current_bind, run_current]
  cases hc : Comparison.ofToken? s.current.token with
  | some c =>
    have hend := Token.ne_endOfInput_of_some rfl hc
    exact (run_takeAny (s := { s with listing := s.listing.jump (.jump c) address }) hend _).symm
  | none => rfl

theorem program_eq (n : Nat) : Execution.program n = program.run n := by
  rw [Execution.program]
  refine bind_congr fun _ ↦ bind_congr fun name ↦ bind_congr fun _ ↦ eq_of_run_eq fun s ↦ ?_
  rw [declarations, bind_assoc, run_current_bind, run_current]
  cases s.current.token with
  | keyword k =>
    cases k with
    | var =>
      rw [bind_assoc]
      rfl
    | _ => rfl
  | _ => rfl

end Plan

namespace Routine

/-- The plan of a production. -/
def plan : (r : Routine) → Plan r.Result
  | moreNames => Plan.moreNames
  | groups => Plan.groups
  | statement => Plan.statement
  | compound => Plan.compound
  | statements => Plan.statements
  | moreStatements => Plan.moreStatements
  | expression => Plan.expression
  | sums left => Plan.sums left
  | term => Plan.term
  | products left => Plan.products left
  | factor => Plan.factor

/-- **A plan is what its production does.** -/
theorem run_succ (r : Routine) (n : Nat) : r.run (n + 1) = r.plan.run n := by
  cases r with
  | moreNames => exact Plan.moreNames_succ n
  | groups => exact Plan.groups_succ n
  | statement => exact Plan.statement_succ n
  | compound => exact Plan.compound_succ n
  | statements => exact Plan.statements_succ n
  | moreStatements => exact Plan.moreStatements_succ n
  | expression => exact Plan.expression_succ n
  | sums left => exact Plan.sums_succ n left
  | term => exact Plan.term_succ n
  | products left => exact Plan.products_succ n left
  | factor => exact Plan.factor_succ n

theorem noFuel_run_zero (r : Routine) : NoFuel (r.run 0) := by
  cases r <;> exact noFuel_outOfFuel

end Routine

/-! ## What plans are made of -/

/-- What is added to the listing apart from declarations and assignments. -/
inductive Emission : (Listing → Listing) → Prop
  | markLoop (address : Nat) : Emission fun l ↦ l.markLoop address
  | pushImmediate (v : Value) : Emission fun l ↦ l.pushImmediate v
  | pushVariable (name : String) : Emission fun l ↦ l.pushVariable name
  | arithmetic (op : Opcode) (v w : Value) : Emission fun l ↦ l.arithmetic op v w
  | negate (v : Value) : Emission fun l ↦ l.negate v
  | jump (op : Opcode) (address : Nat) : Emission fun l ↦ l.jump op address

/-- The parts of plans. Some stand only in plans that compute with values or variables, and one only
where variables are declared. -/
inductive Primitive (computes declares : Prop) : (β : Type) → Execution β → Prop
  | pure {β : Type} (a : β) : Primitive computes declares β (Pure.pure a)
  | current : Primitive computes declares _ Execution.current
  | unexpected {β : Type} (expected : List String) :
    Primitive computes declares β (Execution.unexpected expected)
  | expect {t : Token} (ht : Token.endOfInput.same t = false) :
    Primitive computes declares _ (Execution.expect t)
  | identifier : Primitive computes declares _ Execution.identifier
  | dataType : Primitive computes declares _ Execution.dataType
  | takeAny : Primitive computes declares _ Execution.takeAny
  | emit {f : Listing → Listing} (hf : Emission f) : Primitive computes declares _ (emit f)
  | compiled (name : String) : Primitive computes declares _ (Plan.compiled name)
  | arithmetic (h : computes) (span : Span) (x : Except ArithmeticFault Value) :
    Primitive computes declares _ (arithmetic span x)
  | lookUp (h : computes) (name : String) (span : Span) :
    Primitive computes declares _ (perform (Interpreter.lookUp name span))
  | store (h : computes) (name : String) (span : Span) (start : Nat) (v : Value) :
    Primitive computes declares _ (store name span start v)
  | declareAll (h : declares) (type : DataType) (names : List (String × Span)) :
    Primitive computes declares _ (declareAll type names)

theorem Primitive.mono {computes computes' declares declares' : Prop} {β : Type} {x : Execution β}
    (h : Primitive computes declares β x) (hcomputes : computes → computes')
    (hdeclares : declares → declares') : Primitive computes' declares' β x := by
  cases h with
  | pure a => exact .pure a
  | current => exact .current
  | unexpected expected => exact .unexpected expected
  | expect ht => exact .expect ht
  | identifier => exact .identifier
  | dataType => exact .dataType
  | takeAny => exact .takeAny
  | emit hf => exact .emit hf
  | compiled name => exact .compiled name
  | arithmetic h => exact .arithmetic (hcomputes h) _ _
  | lookUp h => exact .lookUp (hcomputes h) _ _
  | store h => exact .store (hcomputes h) _ _ _ _
  | declareAll h => exact .declareAll (hdeclares h) _ _

namespace Plan

/-- All parts of the plan are of a kind, and so are the productions that it calls. -/
def All (P : (β : Type) → Execution β → Prop) (C : Routine → Prop) : Plan α → Prop
  | finish x _ _ => P _ x
  | look x _ _ k => P _ x ∧ ∀ b, (k b).All P C
  | take x _ _ k => P _ x ∧ ∀ b, (k b).All P C
  | call r k => C r ∧ ∀ v, (k v).All P C
  | loop _ => True

theorem All.mono {P Q : (β : Type) → Execution β → Prop} {C D : Routine → Prop} {plan : Plan α}
    (h : plan.All P C) (hP : ∀ β x, P β x → Q β x) (hC : ∀ r, C r → D r) : plan.All Q D := by
  induction plan with
  | finish x hx hstill => exact hP _ x h
  | look x hx hstill k ih => exact ⟨hP _ x h.1, fun b ↦ ih b (h.2 b)⟩
  | take x hx htakes k ih => exact ⟨hP _ x h.1, fun b ↦ ih b (h.2 b)⟩
  | call r k ih => exact ⟨hC r h.1, fun v ↦ ih v (h.2 v)⟩
  | loop a => trivial

section

variable {computes declares : Prop} {C : Routine → Prop}

theorem all_done (a : α) : (done a).All (Primitive computes declares) C := .pure a

theorem all_binary (hcomputes : computes) {op : Operator} {left : Value} {here : Lexeme}
    {operand : (Value → Plan α) → Plan α} {k : Value → Plan α}
    (hoperand : ∀ k, (∀ v, (k v).All (Primitive computes declares) C) →
      (operand k).All (Primitive computes declares) C)
    (hk : ∀ v, (k v).All (Primitive computes declares) C) :
    (binary op left here operand k).All (Primitive computes declares) C :=
  ⟨.takeAny, fun _ ↦ hoperand _ fun _ ↦
    ⟨.emit (.arithmetic _ _ _), fun _ ↦ ⟨.arithmetic hcomputes _ _, hk⟩⟩⟩

theorem all_literal (v : Value) : (literal v).All (Primitive computes declares) C :=
  ⟨.emit (.pushImmediate v), fun _ ↦ ⟨.takeAny, fun _ ↦ all_done v⟩⟩

/-- A pass computes nothing itself. -/
theorem all_pass (address : Nat) :
    (pass address).All (Primitive False False) (· ≠ .groups) := by
  refine ⟨.expect rfl, fun _ ↦ ⟨by simp, fun _ ↦ ⟨.expect rfl, fun _ ↦ ⟨by simp, fun left ↦ ?_⟩⟩⟩⟩
  refine ⟨.current, fun here ↦ ?_⟩
  dsimp only
  split
  · exact ⟨.emit (.jump _ _), fun _ ↦ ⟨.takeAny, fun _ ↦ ⟨by simp, fun _ ↦ all_done _⟩⟩⟩
  · exact .unexpected _

theorem all_program : program.All (Primitive False False) fun _ ↦ True := by
  have hbody (name : String) : (program.body name).All (Primitive False False) fun _ ↦ True :=
    ⟨trivial, fun _ ↦ ⟨.expect rfl, fun _ ↦ .compiled name⟩⟩
  refine ⟨.expect rfl, fun _ ↦ ⟨.identifier, fun _ ↦ ⟨.expect rfl, fun _ ↦ ⟨.current, ?_⟩⟩⟩⟩
  intro here
  dsimp only
  split
  · exact ⟨.expect rfl, fun _ ↦ ⟨trivial, fun _ ↦ hbody _⟩⟩
  · exact hbody _

end

end Plan

namespace Routine

/-- The production works on values or on variables. -/
def computes : Routine → Prop
  | statement | sums _ | products _ | factor => True
  | _ => False

/-- **The parts of the productions.** Only declarations declare anything, and they are called from
the heading and from one another. -/
theorem all_plan (r : Routine) :
    r.plan.All (Primitive r.computes (r = groups)) fun r' ↦ r' = groups → r = groups := by
  cases r with
  | moreNames =>
    refine ⟨.current, fun here ↦ ?_⟩
    dsimp only
    split
    · exact ⟨.takeAny, fun _ ↦ ⟨.identifier, fun _ ↦ ⟨by simp, fun _ ↦ .pure _⟩⟩⟩
    · exact .pure _
  | groups =>
    refine ⟨.identifier, fun _ ↦ ⟨by simp, fun _ ↦ ⟨.expect rfl, fun _ ↦ ⟨.dataType, ?_⟩⟩⟩⟩
    refine fun _ ↦ ⟨.declareAll rfl _ _, fun _ ↦ ⟨.expect rfl, fun _ ↦ ⟨.current, fun here ↦ ?_⟩⟩⟩
    dsimp only
    split
    · exact ⟨by simp, fun _ ↦ .pure _⟩
    · exact .pure _
  | statement =>
    refine ⟨.current, fun here ↦ ?_⟩
    dsimp only
    split
    · exact ⟨by simp, fun _ ↦ .pure _⟩
    · refine ⟨.identifier, fun _ ↦ ⟨.expect rfl, fun _ ↦ ⟨.current, fun _ ↦ ⟨by simp, ?_⟩⟩⟩⟩
      exact fun _ ↦ .store trivial _ _ _ _
    · trivial
    · exact .pure _
  | compound => exact ⟨.expect rfl, fun _ ↦ ⟨by simp, fun _ ↦ ⟨.expect rfl, fun _ ↦ .pure _⟩⟩⟩
  | statements => exact ⟨by simp, fun _ ↦ ⟨by simp, fun _ ↦ .pure _⟩⟩
  | moreStatements =>
    refine ⟨.current, fun here ↦ ?_⟩
    dsimp only
    split
    · exact ⟨.takeAny, fun _ ↦ ⟨by simp, fun _ ↦ ⟨by simp, fun _ ↦ .pure _⟩⟩⟩
    · exact .pure _
  | expression => exact ⟨by simp, fun _ ↦ ⟨by simp, fun _ ↦ .pure _⟩⟩
  | sums left =>
    refine ⟨.current, fun here ↦ ?_⟩
    dsimp only
    split
    · exact Plan.all_binary trivial (fun _ hk ↦ ⟨by simp, hk⟩) fun _ ↦ ⟨by simp, fun _ ↦ .pure _⟩
    · exact .pure _
  | term => exact ⟨by simp, fun _ ↦ ⟨by simp, fun _ ↦ .pure _⟩⟩
  | products left =>
    refine ⟨.current, fun here ↦ ?_⟩
    dsimp only
    split
    · exact Plan.all_binary trivial (fun _ hk ↦ ⟨by simp, hk⟩) fun _ ↦ ⟨by simp, fun _ ↦ .pure _⟩
    · exact .pure _
  | factor =>
    refine ⟨.current, fun here ↦ ?_⟩
    dsimp only
    split
    · exact ⟨.takeAny, fun _ ↦ ⟨by simp, fun _ ↦ .pure _⟩⟩
    · refine ⟨.takeAny, fun _ ↦ ⟨by simp, fun v ↦ ⟨.emit (.negate v), fun _ ↦ ?_⟩⟩⟩
      exact .arithmetic trivial _ _
    · exact Plan.all_literal _
    · exact Plan.all_literal _
    · exact ⟨.takeAny, fun _ ↦ ⟨by simp, fun _ ↦ ⟨.expect rfl, fun _ ↦ .pure _⟩⟩⟩
    · exact ⟨.emit (.pushVariable _), fun _ ↦ ⟨.takeAny, fun _ ↦ .lookUp trivial _ _⟩⟩
    · exact .unexpected _

end Routine

/-! ## What holds of all parts -/

/-- A kind of executions to which belongs whatever is put together from parts of the kind. `L` tells
the addresses of loops. -/
structure Compositional (P : (β : Type) → Execution β → Prop) (L : Nat → Prop) : Prop where
  outOfFuel {β : Type} : P β outOfFuel
  pure {β : Type} (a : β) : P β (pure a)
  bind {β γ : Type} {x : Execution β} {f : β → Execution γ} (hx : P β x) (hf : ∀ b, P γ (f b)) :
    P γ (x >>= f)
  rewind {address : Nat} (h : L address) : P Unit (rewind address)
  loop {n : Nat} (h : ∀ address, L address → P Unit (passes n address)) :
    P Unit (Execution.loop n)

namespace Compositional

variable {P : (β : Type) → Execution β → Prop} {L : Nat → Prop} {C : Routine → Prop}

theorem run_plan (h : Compositional P L) {n : Nat} (hroutine : ∀ r, C r → P _ (r.run n))
    (hpasses : ∀ address, L address → P Unit (passes n address)) {plan : Plan α}
    (hplan : plan.All P C) : P α (plan.run n) := by
  induction plan with
  | finish x hx hstill => exact hplan
  | look x hx hstill k ih => exact h.bind hplan.1 fun b ↦ ih b (hplan.2 b)
  | take x hx htakes k ih => exact h.bind hplan.1 fun b ↦ ih b (hplan.2 b)
  | call r k ih => exact h.bind (hroutine r hplan.1) fun v ↦ ih v (hplan.2 v)
  | loop a => exact h.bind (h.loop hpasses) fun _ ↦ h.pure a

/-- **The productions are of the kind of their parts.** -/
theorem run (h : Compositional P L) (hplans : ∀ r, C r → r.plan.All P C)
    (hpass : ∀ address, (Plan.pass address).All P C) (n : Nat) :
    (∀ r, C r → P _ (r.run n)) ∧ ∀ address, L address → P Unit (passes n address) := by
  induction n with
  | zero =>
    refine ⟨fun r _ ↦ ?_, fun _ _ ↦ h.outOfFuel⟩
    cases r <;> exact h.outOfFuel
  | succ n ih =>
    refine ⟨fun r hr ↦ ?_, fun address haddress ↦ ?_⟩
    · rw [r.run_succ]
      exact h.run_plan ih.1 ih.2 (hplans r hr)
    · rw [passes_succ, Plan.pass_eq]
      refine h.bind (h.run_plan ih.1 ih.2 (hpass address)) fun done ↦ ?_
      cases done with
      | true => exact h.pure ()
      | false => exact h.bind (h.rewind haddress) fun _ ↦ ih.2 address haddress

end Compositional

end MiniPascal
