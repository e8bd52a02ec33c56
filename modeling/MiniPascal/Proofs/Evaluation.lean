import MiniPascal.Proofs.Completeness
import MiniPascal.Proofs.Tracking

/-!
# Expressions and declarations mean what is executed

Where the parser reads a tree, an execution at the same position does what the interpreter does with
that tree: the two have the same outcome, the same variables and the same instructions, and after a
success the execution stands where the parser does.

This is so for whatever ends by itself, and there the outcomes are compared one by one (`Performs`).
With the same fuel as the parser an execution of an expression cannot run out of it.

The parser carries what it has read of an expression from operator to operator, and what follows is
a continuation of it (`Continues`). So the tree of `sums` means the expression before it, followed
by something that the execution of `sums` does.
-/

namespace MiniPascal

open Grammar

variable {α β : Type} {source : List Placed}

/-! ## Steps of both -/

namespace State.At

variable {s : State} {p p' : Position}

/-- A text without lexical fault is read to its end. -/
theorem closed (h : s.At source p) : p.Closed := by
  intro hending
  obtain ⟨-, before, -, -, -, hlexemes, hfault⟩ := h
  rw [← hlexemes]
  exact before.exists_last_lexemes (hfault.trans hending)

/-- Where the parser takes a token, the execution does. -/
theorem step_of_ok (h : s.At source p) (hp : Parser.step.run p = .ok () p') :
    ∃ s', Execution.step.run s = .ok () s' ∧ s'.At source p' ∧ s'.progress = s.progress ∧
      s'.previousStop = p.current.span.stop := by
  rcases h.step with ⟨s', p'', hs, hp', hat, hprogress, hstop⟩ | ⟨f, s', p'', hs, hp'⟩
  · cases hp.symm.trans hp'
    rw [h.current_eq] at hstop
    exact ⟨s', hs, hat, hprogress, hstop⟩
  · cases hp.symm.trans hp'

theorem expect_of_ok (h : s.At source p) {t : Token} {place : Span}
    (hp : (Parser.expect t).run p = .ok place p') :
    ∃ s', (Execution.expect t).run s = .ok place s' ∧ s'.At source p' ∧
      s'.progress = s.progress ∧ s'.previousStop = place.stop := by
  obtain ⟨ht, rfl, hstep⟩ := Parser.run_expect_eq_ok hp
  obtain ⟨s', hs, hat, hprogress, hstop⟩ := h.step_of_ok hstep
  refine ⟨s', ?_, hat, hprogress, hstop⟩
  rw [Execution.expect, Execution.run_current_bind, h.current_eq, if_pos ht]
  exact run_bind_of_ok hs

theorem identifier_of_ok (h : s.At source p) {a : String × Span}
    (hp : Parser.identifier.run p = .ok a p') :
    ∃ s', Execution.identifier.run s = .ok a s' ∧ s'.At source p' ∧
      s'.progress = s.progress := by
  rw [Parser.identifier, Parser.run_current_bind] at hp
  split at hp
  · next name ht =>
    obtain ⟨_, p₁, hstep, hpure⟩ := run_bind_eq_ok_iff.1 hp
    cases hpure
    obtain ⟨s', hs, hat, hprogress, -⟩ := h.step_of_ok hstep
    refine ⟨s', ?_, hat, hprogress⟩
    rw [Execution.identifier, Execution.run_current_bind, h.current_eq, ht]
    exact run_bind_of_ok hs
  · cases hp

end State.At

/-! ## Steps that succeed -/

namespace State.At

variable {s s' : State} {p : Position}

theorem of_step (h : s.At source p) (hs : Execution.step.run s = .ok () s') :
    ∃ p', s'.At source p' ∧ s'.progress = s.progress := by
  obtain ⟨_, p', hp, hat⟩ := (Follows.step h).of_ok hs
  obtain ⟨s'', hs'', -, hprogress, -⟩ := h.step_of_ok hp
  cases hs.symm.trans hs''
  exact ⟨p', hat, hprogress⟩

theorem of_expect (h : s.At source p) {t : Token} {place : Span}
    (hs : (Execution.expect t).run s = .ok place s') :
    ∃ p', s'.At source p' ∧ s'.progress = s.progress := by
  obtain ⟨_, p', hp, hat⟩ := (Follows.expect t h).of_ok hs
  obtain ⟨s'', hs'', -, hprogress, -⟩ := h.expect_of_ok hp
  cases hs.symm.trans hs''
  exact ⟨p', hat, hprogress⟩

theorem of_identifier (h : s.At source p) {a : String × Span}
    (hs : Execution.identifier.run s = .ok a s') :
    ∃ p', s'.At source p' ∧ s'.progress = s.progress := by
  obtain ⟨_, p', hp, hat⟩ := (Follows.identifier h).of_ok hs
  obtain ⟨s'', hs'', -, hprogress⟩ := h.identifier_of_ok hp
  cases hs.symm.trans hs''
  exact ⟨p', hat, hprogress⟩

end State.At

/-! ## What ends by itself -/

/-- The outcome of an execution is that of an interpretation, and after a success its state has a
property. -/
def Performs (y : Interpreter α) (r : Progress) (Q : State → Prop)
    (o : EStateM.Result Halt State α) : Prop :=
  match y.run r with
  | .ok a r' => ∃ s, o = .ok a s ∧ s.progress = r' ∧ Q s
  | .error (.fault f) r' => ∃ s, o = .error (.fault f) s ∧ s.progress = r'
  | .error .outOfFuel _ => False

namespace Performs

variable {s : State} {Q Q' : State → Prop}

theorem pure {a : α} (h : Q s) : Performs (Pure.pure a) s.progress Q (.ok a s) :=
  ⟨s, rfl, rfl, h⟩

theorem of_ok {y : Interpreter α} {r : Progress} {a : α} (h : Performs y r Q (.ok a s)) :
    y.run r = .ok a s.progress := by
  rw [Performs] at h
  split at h
  · next hy =>
    obtain ⟨s', hs', rfl, -⟩ := h
    cases hs'
    exact hy
  · obtain ⟨s', hs', -⟩ := h
    cases hs'
  · exact h.elim

/-- The property of the state after a success. -/
theorem post_of_ok {y : Interpreter α} {r : Progress} {a : α} (h : Performs y r Q (.ok a s)) :
    Q s := by
  have hy := h.of_ok
  rw [Performs, hy] at h
  obtain ⟨s', hs', -, hQ⟩ := h
  cases hs'
  exact hQ

theorem bind {x : Execution α} {f : α → Execution β} {y : Interpreter α}
    {g : α → Interpreter β} {r : Progress} (hx : Performs y r Q (x.run s))
    (hf : ∀ a s', x.run s = .ok a s' → Q s' → Performs (g a) s'.progress Q' ((f a).run s')) :
    Performs (y >>= g) r Q' ((x >>= f).run s) := by
  rw [Performs] at hx
  split at hx
  · next a r' hy =>
    obtain ⟨s', hxs, rfl, hQ⟩ := hx
    rw [Performs, run_bind_of_ok hy, run_bind_of_ok hxs]
    exact hf a s' hxs hQ
  · next f r' hy =>
    obtain ⟨s', hxs, rfl⟩ := hx
    rw [Performs, run_bind_of_error hy, run_bind_of_error hxs]
    exact ⟨s', rfl, rfl⟩
  · exact hx.elim

/-- A step of interpreting that is performed. -/
theorem perform {y : Interpreter α} (hy : Semantic y) (hQ : ∀ r, Q (s.withProgress r)) :
    Performs y s.progress Q ((Execution.perform y).run s) := by
  rw [Performs, Execution.run_perform]
  cases h : y.run s.progress with
  | ok a r => exact ⟨_, rfl, rfl, hQ r⟩
  | error e r =>
    obtain ⟨f, rfl, -⟩ := hy _ _ _ h
    exact ⟨_, rfl, rfl⟩

end Performs

/-! ## Expressions -/

/-- The execution stands at a position, just after an expression. -/
def State.After (source : List Placed) (q : Position) (e : Expression) (s : State) : Prop :=
  s.At source q ∧ s.previousStop = e.stop

namespace Execution

variable {s : State} {p q : Position}

theorem performs_literal {v : Value} {e : Expression} (h : s.At source p)
    (hp : (Parser.literal v p.current.span).run p = .ok e q) :
    Performs e.run s.progress (State.After source q e) ((literal v).run s) := by
  obtain ⟨_, p₁, hstep, hpure⟩ := run_bind_eq_ok_iff.1 hp
  cases hpure
  rw [literal, emit_eq_perform, Expression.run]
  refine (Performs.perform (Q := fun s ↦ s.At source p) (.emit _)
    fun _ ↦ h.congr rfl rfl).bind fun _ s₁ _ h₁ ↦ ?_
  obtain ⟨s₂, hs₂, h₂, hprogress, hstop⟩ := h₁.step_of_ok hstep
  rw [run_bind_of_ok hs₂, ← hprogress]
  exact .pure ⟨h₂, hstop⟩

theorem performs_variableValue {name : String} (h : s.At source p)
    (hp : Parser.step.run p = .ok () q) :
    Performs (Expression.named name p.current.span).run s.progress
      (State.After source q (.named name p.current.span))
      ((variableValue name p.current.span).run s) := by
  rw [variableValue_eq_perform, Expression.run]
  refine (Performs.perform (Q := fun s ↦ s.At source p) (.emit _)
    fun _ ↦ h.congr rfl rfl).bind fun _ s₁ _ h₁ ↦ ?_
  obtain ⟨s₂, hs₂, h₂, hprogress, hstop⟩ := h₁.step_of_ok hp
  rw [run_bind_of_ok hs₂, ← hprogress]
  exact .perform (.lookUp _ _) fun _ ↦ ⟨h₂.congr rfl rfl, hstop⟩

/-- A result with an instruction for it. -/
theorem performs_arithmetic (f : Listing → Listing) (place : Span)
    (x : Except ArithmeticFault Value) {e e' : Expression} (h : s.After source q e)
    (he : e'.stop = e.stop) :
    Performs (Interpreter.emit f >>= fun _ ↦ Interpreter.arithmetic place x) s.progress
      (State.After source q e') ((emit f >>= fun _ ↦ arithmetic place x).run s) := by
  rw [emit_eq_perform, arithmetic_eq_perform, ← perform_bind]
  exact .perform ((Semantic.emit f).bind fun _ ↦ .arithmetic place x)
    fun _ ↦ ⟨h.1.congr rfl rfl, h.2.trans he.symm⟩

/-- What is read between two positions after the expression `left` makes `e` of it, and goes on from
the value of `left` as `f` does. -/
def Continues (source : List Placed) (f : Value → Execution Value) (left e : Expression)
    (p q : Position) : Prop :=
  ∃ k : Value → Interpreter Value, e.run = left.run >>= k ∧
    ∀ s v, s.At source p → s.previousStop = left.stop →
      Performs (k v) s.progress (State.After source q e) ((f v).run s)

namespace Continues

variable {f g : Value → Execution Value} {left e e' : Expression} {p₁ : Position}

theorem refl (hf : ∀ s v, s.At source p → (f v).run s = .ok v s) :
    Continues source f left left p p := by
  refine ⟨pure, (bind_pure _).symm, fun s v h hstop ↦ ?_⟩
  rw [hf s v h]
  exact .pure ⟨h, hstop⟩

theorem trans (h : Continues source f left e' p p₁) (h' : Continues source g e' e p₁ q) :
    Continues source (fun v ↦ f v >>= g) left e p q := by
  obtain ⟨k, hk, hperforms⟩ := h
  obtain ⟨k', hk', hperforms'⟩ := h'
  refine ⟨fun v ↦ k v >>= k', by rw [hk', hk, bind_assoc], fun s v hs hstop ↦ ?_⟩
  exact (hperforms s v hs hstop).bind fun w s₁ _ h₁ ↦ hperforms' s₁ w h₁.1 h₁.2

theorem congr (h : Continues source g left e p q)
    (hfg : ∀ s v, s.At source p → (f v).run s = (g v).run s) : Continues source f left e p q := by
  obtain ⟨k, hk, hperforms⟩ := h
  refine ⟨k, hk, fun s v hs hstop ↦ ?_⟩
  rw [hfg s v hs]
  exact hperforms s v hs hstop

/-- The expression on the left, and then what continues it. -/
theorem performs {x : Execution Value} (h : Continues source f left e p₁ q)
    (hx : Performs left.run s.progress (State.After source p₁ left) (x.run s)) :
    Performs e.run s.progress (State.After source q e) ((x >>= f).run s) := by
  obtain ⟨k, hk, hperforms⟩ := h
  rw [hk]
  exact hx.bind fun v s₁ _ h₁ ↦ hperforms s₁ v h₁.1 h₁.2

end Continues

/-- What an operator and its operand do after the value on their left. -/
theorem continues_binary {op : Operator} {left e : Expression} {x : Execution Value}
    {y : Parser Expression} (hp : (Parser.binary op left y).run p = .ok e q)
    (hx : ∀ s p q right, s.At source p → y.run p = .ok right q →
      Performs right.run s.progress (State.After source q right) (x.run s)) :
    Continues source (fun v ↦ binary op v x) left e p q := by
  rw [Parser.binary, Parser.run_current_bind] at hp
  obtain ⟨_, p₁, hstep, hp⟩ := run_bind_eq_ok_iff.1 hp
  obtain ⟨right, p₂, hright, hpure⟩ := run_bind_eq_ok_iff.1 hp
  cases hpure
  refine ⟨_, rfl, fun s v h _ ↦ ?_⟩
  obtain ⟨s₁, hs₁, h₁, hprogress, -⟩ := h.step_of_ok hstep
  change Performs _ s.progress _ ((binary op v x).run s)
  rw [binary, run_current_bind, h.current_eq, run_bind_of_ok hs₁, ← hprogress]
  exact (hx s₁ p₁ q right h₁ hright).bind fun w s₂ _ h₂ ↦ performs_arithmetic _ _ _ h₂ rfl

theorem performs_factor {n : Nat} {e : Expression} (h : s.At source p)
    (hp : (Parser.factor (n + 1)).run p = .ok e q)
    (hexpression : ∀ s p q e, s.At source p → (Parser.expression n).run p = .ok e q →
      Performs e.run s.progress (State.After source q e) ((expression n).run s)) :
    Performs e.run s.progress (State.After source q e) ((factor (n + 1)).run s) := by
  rw [Parser.factor, Parser.run_current_bind] at hp
  -- the parser decides by the token that the execution decides by
  split at hp
  · next ht =>
    obtain ⟨_, p₁, hstep, hp⟩ := run_bind_eq_ok_iff.1 hp
    obtain ⟨operand, p₂, hoperand, hpure⟩ := run_bind_eq_ok_iff.1 hp
    cases hpure
    obtain ⟨s₁, hs₁, h₁, hprogress, -⟩ := h.step_of_ok hstep
    rw [factor, run_current_bind, h.current_eq, ht, run_bind_of_ok hs₁, ← hprogress]
    exact hexpression s₁ p₁ q operand h₁ hoperand
  · next ht =>
    obtain ⟨_, p₁, hstep, hp⟩ := run_bind_eq_ok_iff.1 hp
    obtain ⟨operand, p₂, hoperand, hpure⟩ := run_bind_eq_ok_iff.1 hp
    cases hpure
    obtain ⟨s₁, hs₁, h₁, hprogress, -⟩ := h.step_of_ok hstep
    rw [factor, run_current_bind, h.current_eq, ht, run_bind_of_ok hs₁, ← hprogress, Expression.run]
    exact (hexpression s₁ p₁ q operand h₁ hoperand).bind fun v s₂ _ h₂ ↦
      performs_arithmetic _ _ _ h₂ rfl
  · next ht =>
    rw [factor, run_current_bind, h.current_eq, ht]
    exact performs_literal h hp
  · next ht =>
    rw [factor, run_current_bind, h.current_eq, ht]
    exact performs_literal h hp
  · next ht =>
    obtain ⟨_, p₁, hstep, hp⟩ := run_bind_eq_ok_iff.1 hp
    obtain ⟨inner, p₂, hinner, hp⟩ := run_bind_eq_ok_iff.1 hp
    obtain ⟨close, p₃, hclose, hpure⟩ := run_bind_eq_ok_iff.1 hp
    cases hpure
    obtain ⟨s₁, hs₁, h₁, hprogress, -⟩ := h.step_of_ok hstep
    rw [factor, run_current_bind, h.current_eq, ht, run_bind_of_ok hs₁, ← hprogress,
      Expression.run, ← bind_pure inner.run]
    refine (hexpression s₁ p₁ p₂ inner h₁ hinner).bind fun v s₂ _ h₂ ↦ ?_
    obtain ⟨s₃, hs₃, h₃, hprogress', hstop⟩ := h₂.1.expect_of_ok hclose
    rw [run_bind_of_ok hs₃, ← hprogress']
    exact .pure ⟨h₃, hstop⟩
  · next ht =>
    obtain ⟨_, p₁, hstep, hpure⟩ := run_bind_eq_ok_iff.1 hp
    cases hpure
    rw [factor, run_current_bind, h.current_eq, ht]
    exact performs_variableValue h hstep
  · cases hp

/-- **Expressions mean what is executed.** What follows an expression is a continuation of it. -/
theorem performs_expression (n : Nat) :
    (∀ s p q e, s.At source p → (Parser.expression n).run p = .ok e q →
        Performs e.run s.progress (State.After source q e) ((expression n).run s)) ∧
      (∀ p q left e, (Parser.sums n left).run p = .ok e q →
        Continues source (sums n) left e p q) ∧
      (∀ s p q e, s.At source p → (Parser.term n).run p = .ok e q →
        Performs e.run s.progress (State.After source q e) ((term n).run s)) ∧
      (∀ p q left e, (Parser.products n left).run p = .ok e q →
        Continues source (products n) left e p q) ∧
      ∀ s p q e, s.At source p → (Parser.factor n).run p = .ok e q →
        Performs e.run s.progress (State.After source q e) ((factor n).run s) := by
  induction n with
  | zero =>
    refine ⟨fun _ p q e _ h ↦ ?_, fun p q _ e h ↦ ?_, fun _ p q e _ h ↦ ?_, fun p q _ e h ↦ ?_,
      fun _ p q e _ h ↦ ?_⟩
    all_goals exact absurd h (Parser.noFuel_outOfFuel.run_ne_ok p e q)
  | succ n ih =>
    obtain ⟨hexpression, hsums, hterm, hproducts, hfactor⟩ := ih
    refine ⟨fun s p q e h hp ↦ ?_, fun p q left e hp ↦ ?_, fun s p q e h hp ↦ ?_,
      fun p q left e hp ↦ ?_, fun s p q e h hp ↦ performs_factor h hp hexpression⟩
    · rw [Parser.expression] at hp
      obtain ⟨left, p₁, hleft, hp⟩ := run_bind_eq_ok_iff.1 hp
      rw [expression]
      exact (hsums p₁ q left e hp).performs (hterm s p p₁ left h hleft)
    · rw [Parser.sums, Parser.run_current_bind] at hp
      cases hop : Operator.additive? p.current.token with
      | some op =>
        rw [hop] at hp
        obtain ⟨e', p₁, hbinary, hp⟩ := run_bind_eq_ok_iff.1 hp
        refine ((continues_binary hbinary hterm).trans (hsums p₁ q e' e hp)).congr fun s v h ↦ ?_
        rw [sums, run_current_bind, h.current_eq, hop]
      | none =>
        rw [hop] at hp
        cases hp
        refine .refl fun s v h ↦ ?_
        rw [sums, run_current_bind, h.current_eq, hop]
        rfl
    · rw [Parser.term] at hp
      obtain ⟨left, p₁, hleft, hp⟩ := run_bind_eq_ok_iff.1 hp
      rw [term]
      exact (hproducts p₁ q left e hp).performs (hfactor s p p₁ left h hleft)
    · rw [Parser.products, Parser.run_current_bind] at hp
      cases hop : Operator.multiplicative? p.current.token with
      | some op =>
        rw [hop] at hp
        obtain ⟨e', p₁, hbinary, hp⟩ := run_bind_eq_ok_iff.1 hp
        refine ((continues_binary hbinary hfactor).trans
          (hproducts p₁ q e' e hp)).congr fun s v h ↦ ?_
        rw [products, run_current_bind, h.current_eq, hop]
      | none =>
        rw [hop] at hp
        cases hp
        refine .refl fun s v h ↦ ?_
        rw [products, run_current_bind, h.current_eq, hop]
        rfl

theorem start_of_expression {n : Nat} {e : Expression} (h : s.At source p)
    (hp : (Parser.expression n).run p = .ok e q) : e.start = p.current.span.start := by
  obtain ⟨ts, hts, he, -⟩ := ((Parser.recognizesAt_expression n).1 p h.closed).accepts hp
  obtain ⟨l, us, rfl, hl⟩ := he.head
  rw [hl, hts.head]

theorem performs_comparison {n : Nat} (address : Nat) {c : Condition} (h : s.At source p)
    (hp : (Parser.comparison n).run p = .ok c q) :
    Performs (c.run address) s.progress (State.At source · q) ((comparison n address).run s) := by
  obtain ⟨left, p₁, hleft, hp⟩ := run_bind_eq_ok_iff.1 hp
  rw [Parser.compared, Parser.run_current_bind] at hp
  cases hc : Comparison.ofToken? p₁.current.token with
  | some comparison =>
    rw [hc] at hp
    obtain ⟨_, p₂, hstep, hp⟩ := run_bind_eq_ok_iff.1 hp
    obtain ⟨right, p₃, hright, hpure⟩ := run_bind_eq_ok_iff.1 hp
    cases hpure
    refine ((performs_expression n).1 s p p₁ left h hleft).bind fun v s₁ _ h₁ ↦ ?_
    rw [run_current_bind, h₁.1.current_eq, hc]
    simp only [emit_eq_perform]
    refine (Performs.perform (Q := fun s ↦ s.At source p₁) (.emit _)
      fun _ ↦ h₁.1.congr rfl rfl).bind fun _ s₂ _ h₂ ↦ ?_
    obtain ⟨s₃, hs₃, h₃, hprogress, -⟩ := h₂.step_of_ok hstep
    rw [run_bind_of_ok hs₃, ← hprogress]
    exact ((performs_expression n).1 s₃ p₂ q right h₃ hright).bind fun w s₄ _ h₄ ↦ .pure h₄.1
  | none =>
    rw [hc] at hp
    cases hp

/-- An assignment takes no fuel when it is interpreted. -/
theorem performs_assignment {n : Nat} {t : Statement} (address : Nat → Nat) (h : s.At source p)
    (hp : (Parser.assignment n).run p = .ok t q) :
    ∃ y : Interpreter Unit, t.run address = (fun _ ↦ y) ∧
      Performs y s.progress (State.At source · q) ((assignment n).run s) := by
  obtain ⟨⟨name, place⟩, p₁, hname, hp⟩ := run_bind_eq_ok_iff.1 hp
  obtain ⟨_, p₂, hassign, hp⟩ := run_bind_eq_ok_iff.1 hp
  obtain ⟨value, p₃, hvalue, hpure⟩ := run_bind_eq_ok_iff.1 hp
  cases hpure
  obtain ⟨s₁, hs₁, h₁, hprogress₁⟩ := h.identifier_of_ok hname
  obtain ⟨s₂, hs₂, h₂, hprogress₂, -⟩ := h₁.expect_of_ok hassign
  refine ⟨_, rfl, ?_⟩
  rw [assignment, run_bind_of_ok hs₁, run_bind_of_ok hs₂, run_current_bind, h₂.current_eq,
    ← start_of_expression h₂ hvalue, ← hprogress₁, ← hprogress₂]
  refine ((performs_expression n).1 s₂ p₂ q value h₂ hvalue).bind fun v s₃ _ h₃ ↦ ?_
  rw [run_store, h₃.2]
  exact .perform (.assign _ _ _ _) fun _ ↦ h₃.1.congr rfl rfl

/-! ## Declarations -/

theorem dataType_of_ok {type : DataType} (h : s.At source p)
    (hp : Parser.dataType.run p = .ok type q) :
    ∃ s', dataType.run s = .ok type s' ∧ s'.At source q ∧ s'.progress = s.progress := by
  rw [Parser.dataType, Parser.run_current_bind] at hp
  cases ht : p.current.token.dataType? with
  | some type' =>
    rw [ht] at hp
    obtain ⟨_, p₁, hstep, hpure⟩ := run_bind_eq_ok_iff.1 hp
    cases hpure
    obtain ⟨s', hs, hat, hprogress, -⟩ := h.step_of_ok hstep
    refine ⟨s', ?_, hat, hprogress⟩
    rw [dataType, run_current_bind, h.current_eq, ht]
    exact run_bind_of_ok hs
  | none =>
    rw [ht] at hp
    cases hp

theorem moreNames_of_ok {n : Nat} {names : List (String × Span)} {s : State} {p q : Position}
    (h : s.At source p) (hp : (Parser.moreNames n).run p = .ok names q) :
    ∃ s', (moreNames n).run s = .ok names s' ∧ s'.At source q ∧ s'.progress = s.progress := by
  induction n generalizing s p q names with
  | zero => exact absurd hp (Parser.noFuel_outOfFuel.run_ne_ok p names q)
  | succ n ih =>
    rw [Parser.moreNames, Parser.run_current_bind] at hp
    split at hp
    · next ht =>
      obtain ⟨_, p₁, hstep, hp⟩ := run_bind_eq_ok_iff.1 hp
      obtain ⟨name, p₂, hname, hp⟩ := run_bind_eq_ok_iff.1 hp
      obtain ⟨names, p₃, hnames, hpure⟩ := run_bind_eq_ok_iff.1 hp
      cases hpure
      obtain ⟨s₁, hs₁, h₁, hprogress₁, -⟩ := h.step_of_ok hstep
      obtain ⟨s₂, hs₂, h₂, hprogress₂⟩ := h₁.identifier_of_ok hname
      obtain ⟨s₃, hs₃, h₃, hprogress₃⟩ := ih h₂ hnames
      refine ⟨s₃, ?_, h₃, hprogress₃.trans (hprogress₂.trans hprogress₁)⟩
      rw [moreNames, run_current_bind, h.current_eq, ht]
      exact (run_bind_of_ok hs₁).trans ((run_bind_of_ok hs₂).trans (run_bind_of_ok hs₃))
    · next hcomma =>
      cases hp
      refine ⟨s, ?_, h, rfl⟩
      rw [moreNames, run_current_bind, h.current_eq]
      split
      · next ht => exact absurd ht hcomma
      · rfl

theorem groupHead_of_ok {n : Nat} {g : Grammar.Group} (h : s.At source p)
    (hp : (Parser.group n).run p = .ok g q) :
    ∃ s', (groupHead n).run s = .ok g s' ∧ s'.At source q ∧ s'.progress = s.progress := by
  obtain ⟨name, p₁, hname, hp⟩ := run_bind_eq_ok_iff.1 hp
  obtain ⟨names, p₂, hnames, hp⟩ := run_bind_eq_ok_iff.1 hp
  obtain ⟨_, p₃, hcolon, hp⟩ := run_bind_eq_ok_iff.1 hp
  obtain ⟨type, p₄, htype, hpure⟩ := run_bind_eq_ok_iff.1 hp
  cases hpure
  obtain ⟨s₁, hs₁, h₁, hprogress₁⟩ := h.identifier_of_ok hname
  obtain ⟨s₂, hs₂, h₂, hprogress₂⟩ := moreNames_of_ok h₁ hnames
  obtain ⟨s₃, hs₃, h₃, hprogress₃, -⟩ := h₂.expect_of_ok hcolon
  obtain ⟨s₄, hs₄, h₄, hprogress₄⟩ := dataType_of_ok h₃ htype
  refine ⟨s₄, ?_, h₄, by rw [hprogress₄, hprogress₃, hprogress₂, hprogress₁]⟩
  rw [groupHead, run_bind_of_ok hs₁, run_bind_of_ok hs₂, run_bind_of_ok hs₃, run_bind_of_ok hs₄]
  rfl

theorem performs_group {n : Nat} {g : Grammar.Group} (h : s.At source p)
    (hp : (Parser.group n).run p = .ok g q) :
    Performs (Interpreter.declareAll g.variables) s.progress (State.At source · q)
      ((group n).run s) := by
  obtain ⟨s₁, hs₁, h₁, hprogress⟩ := groupHead_of_ok h hp
  rw [group_eq_groupHead, run_bind_of_ok hs₁, declareAll_eq_perform, ← hprogress]
  exact .perform (.declareAll _) fun _ ↦ h₁.congr rfl rfl

theorem performs_groups {n : Nat} {gs : List Grammar.Group} {s : State} {p q : Position}
    (h : s.At source p) (hp : (Parser.groups n).run p = .ok gs q) :
    Performs (Interpreter.declareAll (gs.flatMap Grammar.Group.variables)) s.progress
      (State.At source · q) ((groups n).run s) := by
  induction n generalizing s p q gs with
  | zero => exact absurd hp (Parser.noFuel_outOfFuel.run_ne_ok p gs q)
  | succ n ih =>
    rw [Parser.groups] at hp
    obtain ⟨g, p₁, hgroup, hp⟩ := run_bind_eq_ok_iff.1 hp
    obtain ⟨_, p₂, hsemicolon, hp⟩ := run_bind_eq_ok_iff.1 hp
    rw [Parser.run_current_bind] at hp
    split at hp
    · next ht =>
      obtain ⟨rest, p₃, hrest, hpure⟩ := run_bind_eq_ok_iff.1 hp
      cases hpure
      rw [List.flatMap_cons, Interpreter.declareAll_append, groups]
      refine (performs_group h hgroup).bind fun _ s₁ _ h₁ ↦ ?_
      obtain ⟨s₂, hs₂, h₂, hprogress, -⟩ := h₁.expect_of_ok hsemicolon
      rw [run_bind_of_ok hs₂, run_current_bind, h₂.current_eq, ht, ← hprogress]
      exact ih h₂ hrest
    · next hname =>
      cases hp
      rw [List.flatMap_singleton, groups, ← bind_pure_unit (x := Interpreter.declareAll _)]
      refine (performs_group h hgroup).bind fun _ s₁ _ h₁ ↦ ?_
      obtain ⟨s₂, hs₂, h₂, hprogress, -⟩ := h₁.expect_of_ok hsemicolon
      rw [run_bind_of_ok hs₂, run_current_bind, h₂.current_eq, ← hprogress]
      split
      · next ht => exact absurd ht (hname _)
      · exact .pure h₂

theorem performs_declarations {n : Nat} {gs : List Grammar.Group} (h : s.At source p)
    (hp : (Parser.declarations n).run p = .ok gs q) :
    Performs (Interpreter.declareAll (gs.flatMap Grammar.Group.variables)) s.progress
      (State.At source · q) ((declarations n).run s) := by
  rw [Parser.declarations, Parser.run_current_bind] at hp
  split at hp
  · next ht =>
    obtain ⟨_, p₁, hvar, hp⟩ := run_bind_eq_ok_iff.1 hp
    obtain ⟨s₁, hs₁, h₁, hprogress, -⟩ := h.expect_of_ok hvar
    rw [declarations, run_current_bind, h.current_eq, ht, run_bind_of_ok hs₁, ← hprogress]
    exact performs_groups h₁ hp
  · next hvar =>
    cases hp
    rw [declarations, run_current_bind, h.current_eq]
    split
    · next ht => exact absurd ht hvar
    · exact .pure h

end Execution

end MiniPascal
