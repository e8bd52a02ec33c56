import MiniPascal.Proofs.Meaning

/-!
# Executions in lockstep

The body of a program touches its text in few ways: it looks at the next token, takes it, and goes
back to the start of a loop. So what holds of the states of an execution, or between the states of
two that run side by side, holds throughout the body if these few steps keep it. `Lockstep` lists
them, and `Together` says what follows for every production: two executions in related states both
succeed with the same value in related states, or halt with the same fault.

No step of a body takes a point. That is why the steps that `Lockstep` asks for are those at other
tokens, and why what is related needs to be so only up to the point that ends a program.

A property of the states of one execution is a relation that holds of equal states only.
-/

namespace MiniPascal

variable {α β : Type}

/-- Both outcomes are successes with the same value in related states, or the same fault, or a lack
of fuel. -/
inductive Agrees (R : State → State → Prop) :
    EStateM.Result Halt State α → EStateM.Result Halt State α → Prop
  | ok {a : α} {s t : State} (h : R s t) : Agrees R (.ok a s) (.ok a t)
  | error {e : Halt} {s t : State} : Agrees R (.error e s) (.error e t)

/-- The execution agrees with itself in two states. -/
def Together (R : State → State → Prop) (x : Execution α) (s t : State) : Prop :=
  Agrees R (x.run s) (x.run t)

namespace Together

variable {R : State → State → Prop} {s t s' : State}

theorem outOfFuel : Together R (Execution.outOfFuel : Execution α) s t := Agrees.error

theorem pure (a : α) (h : R s t) : Together R (Pure.pure a) s t := .ok h

theorem of_ok {x : Execution α} (h : Together R x s t) {a : α} (hx : x.run s = .ok a s') :
    ∃ t', x.run t = .ok a t' ∧ R s' t' := by
  rw [Together, hx] at h
  generalize hy : x.run t = y at h
  cases h with
  | ok h => exact ⟨_, rfl, h⟩

theorem bind {x : Execution α} {f : α → Execution β} (hx : Together R x s t)
    (hf : ∀ a s' t', x.run s = .ok a s' → R s' t' → Together R (f a) s' t') :
    Together R (x >>= f) s t := by
  rw [Together] at hx ⊢
  generalize hs : x.run s = y at hx
  generalize ht : x.run t = z at hx
  cases hx with
  | ok h =>
    rw [run_bind_of_ok hs, run_bind_of_ok ht]
    exact hf _ _ _ hs h
  | error =>
    rw [run_bind_of_error hs, run_bind_of_error ht]
    exact .error

end Together

/-- What relates two states is kept by whatever the body of a program does. -/
structure Lockstep (R : State → State → Prop) : Prop where
  current {s t : State} (h : R s t) : t.current = s.current
  progress {s t : State} (h : R s t) : t.progress = s.progress
  previousStop {s t : State} (h : R s t) : t.previousStop = s.previousStop
  withProgress {s t : State} (h : R s t) (r : Progress) : R (s.withProgress r) (t.withProgress r)
  step {s t : State} (h : R s t) (hpoint : s.current.token ≠ .symbol .dot) :
    Together R Execution.step s t
  /-- A loop has the same address in both states. -/
  address {s t : State} (h : R s t) (hloop : s.current.token = .keyword .loopRepeat) :
    t.scanner.charIndex s.current.span.start = s.scanner.charIndex s.current.span.start
  /-- From anywhere, the way back to a loop leads to related states. -/
  rewind {s t s' t' : State} (h : R s t) (hloop : s.current.token = .keyword .loopRepeat)
    (h' : R s' t') :
    Together R (Execution.rewind (s.scanner.charIndex s.current.span.start)) s' t'

/-- The states are one, which has a property. -/
def Alone (I : State → Prop) (s t : State) : Prop := t = s ∧ I s

/-- An execution on its own keeps a property. -/
theorem together_alone_iff {I : State → Prop} {x : Execution α} {s : State} :
    Together (Alone I) x s s ↔ ∀ a s', x.run s = .ok a s' → I s' := by
  constructor
  · intro h a s' hs
    obtain ⟨t', -, -, hI⟩ := h.of_ok hs
    exact hI
  · intro h
    rw [Together]
    cases hs : x.run s with
    | ok a s' => exact .ok ⟨rfl, h a s' hs⟩
    | error e s' => exact .error

/-- What a property of states needs for an execution to keep it. -/
structure Keeps (I : State → Prop) : Prop where
  withProgress {s : State} (h : I s) (r : Progress) : I (s.withProgress r)
  step {s s' : State} (h : I s) (hpoint : s.current.token ≠ .symbol .dot)
    (hs : Execution.step.run s = .ok () s') : I s'
  /-- From anywhere, there is a way back to a loop. -/
  rewind {s s' : State} (h : I s) (hloop : s.current.token = .keyword .loopRepeat) (h' : I s') :
    ∃ s'', (Execution.rewind (s.scanner.charIndex s.current.span.start)).run s' = .ok () s'' ∧ I s''

/-- One execution is two in the same state. -/
theorem Keeps.lockstep {I : State → Prop} (h : Keeps I) : Lockstep (Alone I) where
  current hs := congrArg State.current hs.1
  progress hs := congrArg State.progress hs.1
  previousStop hs := congrArg State.previousStop hs.1
  withProgress := by
    rintro _ s ⟨rfl, hs⟩ r
    exact ⟨rfl, h.withProgress hs r⟩
  step := by
    rintro _ s ⟨rfl, hs⟩ hpoint
    exact together_alone_iff.2 fun _ _ hs' ↦ h.step hs hpoint hs'
  address := by
    rintro _ s ⟨rfl, -⟩ -
    rfl
  rewind := by
    rintro _ s _ s' ⟨rfl, hs⟩ hloop ⟨rfl, hs'⟩
    obtain ⟨s'', hrewind, hs''⟩ := h.rewind hs hloop hs'
    rw [Together, hrewind]
    exact .ok ⟨rfl, hs''⟩

namespace Execution

variable {R : State → State → Prop} {s t : State}

/-! ## Parts of a program -/

/-- A program without its final point. -/
def untilPoint (n : Nat) : Execution String := do
  let name ← heading n
  compound n
  return name

theorem outline_eq_untilPoint (n : Nat) : outline n = (do
    let name ← untilPoint n
    let _ ← expect (.symbol .dot)
    return name) := by
  simp only [outline, untilPoint, bind_assoc, pure_bind]

section
variable (hR : Lockstep R)
include hR

/-! ## Single steps -/

/-- A choice by the next token is the same choice. -/
theorem together_current {f : Lexeme → Execution α} (h : R s t)
    (hf : Together R (f s.current) s t) : Together R (current >>= f) s t := by
  rw [Together, run_current_bind, run_current_bind, hR.current h]
  exact hf

theorem together_unexpected (expected : List String) (h : R s t) :
    Together R (unexpected expected : Execution α) s t := by
  rw [Together]
  change Agrees R (.error (.fault _) s) (.error (.fault _) t)
  rw [hR.current h]
  exact .error

/-- What reads nothing does the same in both. -/
theorem together_perform (x : Interpreter α) (h : R s t) : Together R (perform x) s t := by
  rw [Together, run_perform, run_perform, hR.progress h]
  cases hs : x.run s.progress with
  | ok a r => exact .ok (hR.withProgress h r)
  | error e r => exact .error

theorem together_emit (f : Listing → Listing) (h : R s t) : Together R (emit f) s t := by
  rw [emit_eq_perform]
  exact together_perform hR _ h

omit hR in
theorem together_arithmetic (place : Span) (x : Except ArithmeticFault Value) (h : R s t) :
    Together R (arithmetic place x) s t := by
  cases x with
  | ok v => exact .pure v h
  | error f => exact Agrees.error

theorem together_expect {u : Token} (hu : (Token.symbol .dot).same u = false) (h : R s t) :
    Together R (expect u) s t := by
  refine together_current hR h ?_
  split
  · next hsame =>
    have hpoint : s.current.token ≠ .symbol .dot := by
      intro hdot
      rw [hdot, hu] at hsame
      cases hsame
    exact (hR.step h hpoint).bind fun _ s' t' _ h' ↦ .pure _ h'
  · exact together_unexpected hR _ h

theorem together_identifier (h : R s t) : Together R identifier s t := by
  refine together_current hR h ?_
  cases hs : s.current.token with
  | identifier name =>
    have hpoint : s.current.token ≠ .symbol .dot := by simp [hs]
    exact (hR.step h hpoint).bind fun _ s' t' _ h' ↦ .pure _ h'
  | _ => exact together_unexpected hR _ h

/-! ## Expressions -/

theorem together_literal (v : Value) (h : R s t) (hpoint : s.current.token ≠ .symbol .dot) :
    Together R (literal v) s t := by
  refine (together_emit hR _ h).bind fun _ s₁ t₁ hs₁ h₁ ↦ ?_
  cases hs₁
  exact (hR.step h₁ hpoint).bind fun _ _ _ _ h₂ ↦ .pure _ h₂

theorem together_variableValue {name : String} (h : R s t)
    (hname : s.current.token = .identifier name) :
    Together R (variableValue name s.current.span) s t := by
  have hpoint : s.current.token ≠ .symbol .dot := by simp [hname]
  rw [variableValue_eq_perform, ← emit_eq_perform]
  refine (together_emit hR _ h).bind fun _ s₁ t₁ hs₁ h₁ ↦ ?_
  cases hs₁
  exact (hR.step h₁ hpoint).bind fun _ _ _ _ h₂ ↦ together_perform hR _ h₂

theorem together_binary {op : Operator} {v : Value} {x : Execution Value}
    (hx : ∀ s t, R s t → Together R x s t) (h : R s t)
    (hop : Operator.ofToken? s.current.token = some op) : Together R (binary op v x) s t := by
  have hpoint : s.current.token ≠ .symbol .dot := by
    intro hdot
    rw [hdot] at hop
    cases hop
  refine together_current hR h ((hR.step h hpoint).bind fun _ s₁ t₁ _ h₁ ↦ (hx s₁ t₁ h₁).bind ?_)
  intro w s₂ t₂ _ h₂
  exact (together_emit hR _ h₂).bind fun _ _ _ _ h₃ ↦ together_arithmetic _ _ h₃

theorem together_factor {n : Nat} (hexpression : ∀ s t, R s t → Together R (expression n) s t)
    (h : R s t) : Together R (factor (n + 1)) s t := by
  rw [factor]
  refine together_current hR h ?_
  cases hs : s.current.token with
  | symbol sign =>
    cases sign with
    | plus =>
      have hpoint : s.current.token ≠ .symbol .dot := by simp [hs]
      exact (hR.step h hpoint).bind fun _ s₁ t₁ _ h₁ ↦ hexpression s₁ t₁ h₁
    | minus =>
      have hpoint : s.current.token ≠ .symbol .dot := by simp [hs]
      refine (hR.step h hpoint).bind fun _ s₁ t₁ _ h₁ ↦ (hexpression s₁ t₁ h₁).bind ?_
      intro v s₂ t₂ _ h₂
      exact (together_emit hR _ h₂).bind fun _ _ _ _ h₃ ↦ together_arithmetic _ _ h₃
    | openParen =>
      have hpoint : s.current.token ≠ .symbol .dot := by simp [hs]
      refine (hR.step h hpoint).bind fun _ s₁ t₁ _ h₁ ↦ (hexpression s₁ t₁ h₁).bind ?_
      intro v s₂ t₂ _ h₂
      exact (together_expect hR rfl h₂).bind fun _ _ _ _ h₃ ↦ .pure _ h₃
    | _ => exact together_unexpected hR _ h
  | integer k => exact together_literal hR _ h (by simp [hs])
  | real x => exact together_literal hR _ h (by simp [hs])
  | identifier name => exact together_variableValue hR h hs
  | _ => exact together_unexpected hR _ h

theorem together_expression (n : Nat) :
    (∀ s t, R s t → Together R (expression n) s t) ∧
      (∀ v s t, R s t → Together R (sums n v) s t) ∧
      (∀ s t, R s t → Together R (term n) s t) ∧
      (∀ v s t, R s t → Together R (products n v) s t) ∧
      ∀ s t, R s t → Together R (factor n) s t := by
  induction n with
  | zero =>
    exact ⟨fun _ _ _ ↦ .outOfFuel, fun _ _ _ _ ↦ .outOfFuel, fun _ _ _ ↦ .outOfFuel,
      fun _ _ _ _ ↦ .outOfFuel, fun _ _ _ ↦ .outOfFuel⟩
  | succ n ih =>
    obtain ⟨hexpression, hsums, hterm, hproducts, hfactor⟩ := ih
    refine ⟨fun s t h ↦ ?_, fun v s t h ↦ ?_, fun s t h ↦ ?_, fun v s t h ↦ ?_,
      fun s t h ↦ together_factor hR hexpression h⟩
    · exact (hterm s t h).bind fun v s₁ t₁ _ h₁ ↦ hsums v s₁ t₁ h₁
    · rw [sums]
      refine together_current hR h ?_
      cases hop : Operator.additive? s.current.token with
      | some op =>
        have hop' := Operator.ofToken?_eq_some_iff.2 (.inl hop)
        exact (together_binary hR hterm h hop').bind fun v s₁ t₁ _ h₁ ↦ hsums v s₁ t₁ h₁
      | none => exact .pure _ h
    · exact (hfactor s t h).bind fun v s₁ t₁ _ h₁ ↦ hproducts v s₁ t₁ h₁
    · rw [products]
      refine together_current hR h ?_
      cases hop : Operator.multiplicative? s.current.token with
      | some op =>
        have hop' := Operator.ofToken?_eq_some_iff.2 (.inr hop)
        exact (together_binary hR hfactor h hop').bind fun v s₁ t₁ _ h₁ ↦ hproducts v s₁ t₁ h₁
      | none => exact .pure _ h

/-! ## Statements -/

theorem together_assignment (n : Nat) (h : R s t) : Together R (assignment n) s t := by
  refine (together_identifier hR h).bind fun a s₁ t₁ _ h₁ ↦ ?_
  obtain ⟨name, place⟩ := a
  refine (together_expect hR rfl h₁).bind fun _ s₂ t₂ _ h₂ ↦ ?_
  refine together_current hR h₂ (((together_expression hR n).1 s₂ t₂ h₂).bind ?_)
  intro v s₃ t₃ _ h₃
  have hstore := run_store name place s₂.current.span.start v
  rw [Together, hstore, hstore, hR.previousStop h₃]
  exact together_perform hR _ h₃

theorem together_comparison (n address : Nat) (h : R s t) :
    Together R (comparison n address) s t := by
  refine ((together_expression hR n).1 s t h).bind fun v s₁ t₁ _ h₁ ↦ together_current hR h₁ ?_
  cases hc : Comparison.ofToken? s₁.current.token with
  | some c =>
    have hpoint : s₁.current.token ≠ .symbol .dot := by
      intro hdot
      rw [hdot] at hc
      cases hc
    refine (together_emit hR _ h₁).bind fun _ s₂ t₂ hs₂ h₂ ↦ ?_
    cases hs₂
    refine (hR.step h₂ hpoint).bind fun _ s₃ t₃ _ h₃ ↦ ?_
    exact ((together_expression hR n).1 s₃ t₃ h₃).bind fun _ _ _ _ h₄ ↦ .pure _ h₄
  | none => exact together_unexpected hR _ h₁

/-- Every pass of a loop starts in related states, by the way back from the pass before. -/
theorem together_passes {n : Nat} {address : Nat} {s₀ t₀ : State}
    (hstatements : ∀ s t, R s t → Together R (statements n) s t)
    (hpasses : ∀ s t, R s t → Together R (passes n address) s t) (h₀ : R s₀ t₀)
    (hloop : s₀.current.token = .keyword .loopRepeat)
    (haddress : s₀.scanner.charIndex s₀.current.span.start = address) (h : R s t) :
    Together R (passes (n + 1) address) s t := by
  rw [passes]
  refine (together_expect hR rfl h).bind fun _ s₁ t₁ _ h₁ ↦ (hstatements s₁ t₁ h₁).bind ?_
  intro _ s₂ t₂ _ h₂
  refine (together_expect hR rfl h₂).bind fun _ s₃ t₃ _ h₃ ↦ ?_
  refine (together_comparison hR n address h₃).bind fun done s₄ t₄ _ h₄ ↦ ?_
  cases done with
  | true => exact .pure _ h₄
  | false =>
    subst haddress
    exact (hR.rewind h₀ hloop h₄).bind fun _ s₅ t₅ _ h₅ ↦ hpasses s₅ t₅ h₅

theorem together_markLoop (h : R s t) (hloop : s.current.token = .keyword .loopRepeat) :
    Together R markLoop s t := by
  have hmark (u : State) (n : Nat) (hn : u.scanner.charIndex u.current.span.start = n) :
      markLoop.run u = .ok n (u.withProgress ⟨u.store, u.listing.markLoop n⟩) := by
    subst hn
    rfl
  have ht : t.scanner.charIndex t.current.span.start =
      s.scanner.charIndex s.current.span.start := by rw [hR.current h, hR.address h hloop]
  have hstore : t.store = s.store := congrArg Progress.store (hR.progress h)
  have hlisting : t.listing = s.listing := congrArg Progress.listing (hR.progress h)
  rw [Together, hmark s _ rfl, hmark t _ ht, hstore, hlisting]
  exact .ok (hR.withProgress h _)

theorem together_statement (n : Nat) :
    (∀ s t, R s t → Together R (statement n) s t) ∧
      (∀ s t, R s t → Together R (compound n) s t) ∧
      (∀ s t, R s t → Together R (statements n) s t) ∧
      (∀ s t, R s t → Together R (moreStatements n) s t) ∧
      ∀ s₀ t₀ address s t, R s₀ t₀ → s₀.current.token = .keyword .loopRepeat →
        s₀.scanner.charIndex s₀.current.span.start = address → R s t →
        Together R (passes n address) s t := by
  induction n with
  | zero =>
    exact ⟨fun _ _ _ ↦ .outOfFuel, fun _ _ _ ↦ .outOfFuel, fun _ _ _ ↦ .outOfFuel,
      fun _ _ _ ↦ .outOfFuel, fun _ _ _ _ _ _ _ _ _ ↦ .outOfFuel⟩
  | succ n ih =>
    obtain ⟨hstatement, hcompound, hstatements, hmore, hpasses⟩ := ih
    refine ⟨fun s t h ↦ ?_, fun s t h ↦ ?_, fun s t h ↦ ?_, fun s t h ↦ ?_,
      fun s₀ t₀ address s t h₀ hloop haddress h ↦ together_passes hR hstatements
        (fun s t h ↦ hpasses s₀ t₀ address s t h₀ hloop haddress h) h₀ hloop haddress h⟩
    · rw [statement]
      refine together_current hR h ?_
      cases hs : s.current.token with
      | keyword k =>
        cases k with
        | blockBegin => exact hcompound s t h
        | loopRepeat =>
          refine (together_markLoop hR h hs).bind fun address s₁ t₁ hs₁ h₁ ↦ ?_
          cases hs₁
          exact hpasses s t _ _ t₁ h hs rfl h₁
        | _ => exact .pure _ h
      | identifier name => exact together_assignment hR n h
      | _ => exact .pure _ h
    · rw [compound]
      refine (together_expect hR rfl h).bind fun _ s₁ t₁ _ h₁ ↦ (hstatements s₁ t₁ h₁).bind ?_
      exact fun _ s₂ t₂ _ h₂ ↦ (together_expect hR rfl h₂).bind fun _ _ _ _ h₃ ↦ .pure _ h₃
    · exact (hstatement s t h).bind fun _ s₁ t₁ _ h₁ ↦ hmore s₁ t₁ h₁
    · rw [moreStatements]
      refine together_current hR h ?_
      cases hs : s.current.token with
      | symbol y =>
        cases y with
        | semicolon =>
          have hpoint : s.current.token ≠ .symbol .dot := by simp [hs]
          refine (hR.step h hpoint).bind fun _ s₁ t₁ _ h₁ ↦ (hstatement s₁ t₁ h₁).bind ?_
          exact fun _ s₂ t₂ _ h₂ ↦ hmore s₂ t₂ h₂
        | _ => exact .pure _ h
      | _ => exact .pure _ h

/-! ## Declarations -/

theorem together_dataType (h : R s t) : Together R dataType s t := by
  refine together_current hR h ?_
  cases htype : s.current.token.dataType? with
  | some type =>
    have hpoint : s.current.token ≠ .symbol .dot := by
      intro hdot
      rw [hdot] at htype
      cases htype
    exact (hR.step h hpoint).bind fun _ _ _ _ h₁ ↦ .pure _ h₁
  | none => exact together_unexpected hR _ h

theorem together_moreNames (n : Nat) (s t : State) (h : R s t) :
    Together R (moreNames n) s t := by
  induction n generalizing s t with
  | zero => exact .outOfFuel
  | succ n ih =>
    rw [moreNames]
    refine together_current hR h ?_
    cases hs : s.current.token with
    | symbol y =>
      cases y with
      | comma =>
        have hpoint : s.current.token ≠ .symbol .dot := by simp [hs]
        refine (hR.step h hpoint).bind fun _ s₁ t₁ _ h₁ ↦ (together_identifier hR h₁).bind ?_
        exact fun _ s₂ t₂ _ h₂ ↦ (ih s₂ t₂ h₂).bind fun _ _ _ _ h₃ ↦ .pure _ h₃
      | _ => exact .pure _ h
    | _ => exact .pure _ h

theorem together_groupHead (n : Nat) (h : R s t) : Together R (groupHead n) s t := by
  refine (together_identifier hR h).bind fun _ s₁ t₁ _ h₁ ↦ ?_
  refine (together_moreNames hR n s₁ t₁ h₁).bind fun _ s₂ t₂ _ h₂ ↦ ?_
  refine (together_expect hR rfl h₂).bind fun _ s₃ t₃ _ h₃ ↦ ?_
  exact (together_dataType hR h₃).bind fun _ _ _ _ h₄ ↦ .pure _ h₄

theorem together_declareAll (type : DataType) (names : List (String × Span)) (h : R s t) :
    Together R (declareAll type names) s t := by
  induction names generalizing s t with
  | nil => exact .pure _ h
  | cons name names ih =>
    have hdeclare : Together R (declare name.1 name.2 type) s t := by
      rw [declare_eq_perform]
      exact together_perform hR _ h
    exact hdeclare.bind fun _ _ _ _ h' ↦ ih h'

theorem together_groups (n : Nat) (s t : State) (h : R s t) : Together R (groups n) s t := by
  induction n generalizing s t with
  | zero => exact .outOfFuel
  | succ n ih =>
    have hgroup : Together R (group n) s t := by
      rw [group_eq_groupHead]
      exact (together_groupHead hR n h).bind fun g _ _ _ h' ↦
        together_declareAll hR g.type g.names h'
    rw [groups]
    refine hgroup.bind fun _ s₁ t₁ _ h₁ ↦ (together_expect hR rfl h₁).bind ?_
    intro _ s₂ t₂ _ h₂
    refine together_current hR h₂ ?_
    cases s₂.current.token with
    | identifier name => exact ih s₂ t₂ h₂
    | _ => exact .pure _ h₂

theorem together_declarations (n : Nat) (h : R s t) : Together R (declarations n) s t := by
  refine together_current hR h ?_
  cases s.current.token with
  | keyword k =>
    cases k with
    | var =>
      exact (together_expect hR rfl h).bind fun _ s₁ t₁ _ h₁ ↦ together_groups hR n s₁ t₁ h₁
    | _ => exact .pure _ h
  | _ => exact .pure _ h

/-! ## Programs -/

/-- **Programs in lockstep**, up to their final point. -/
theorem together_untilPoint (n : Nat) (h : R s t) : Together R (untilPoint n) s t := by
  refine Together.bind ?_ fun name s₁ t₁ _ h₁ ↦
    ((together_statement hR n).2.1 s₁ t₁ h₁).bind fun _ _ _ _ h₂ ↦ .pure _ h₂
  refine (together_expect hR rfl h).bind fun _ s₁ t₁ _ h₁ ↦ (together_identifier hR h₁).bind ?_
  intro _ s₂ t₂ _ h₂
  refine (together_expect hR rfl h₂).bind fun _ s₃ t₃ _ h₃ ↦ ?_
  exact (together_declarations hR n h₃).bind fun _ _ _ _ h₄ ↦ .pure _ h₄

end

end Execution

end MiniPascal
