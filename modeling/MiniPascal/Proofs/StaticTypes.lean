import MiniPascal.Proofs.Correspondence
import MiniPascal.Proofs.Rereading
import MiniPascal.Proofs.Typing

/-!
# Static types

No type is checked before a program is executed: an assignment looks at the type of the value that
it has computed. Still that type can be told from the text. `Expression.staticType` computes it from
the declared types alone, and whatever values the variables hold, an expression that is evaluated
has a value of this type.

This needs that the values of the variables are of their declared types whenever an expression is
evaluated. `State.Reached` collects the states that an execution comes to, by the few steps that
change a state; no part of a program leaves them (`State.invariant_reached`).
-/

namespace MiniPascal

open Grammar

/-! ## The type of an expression -/

namespace Grammar.Expression

/-- The type of an expression, by the types of its variables. There is none if a variable has
none. -/
def staticType (types : String → Option DataType) : Expression → Option DataType
  | .literal v _ => some v.type
  | .named name _ => types name
  | .plus _ operand => operand.staticType types
  | .minus _ operand => operand.staticType types
  | .binary op _ left right => do
    let a ← left.staticType types
    let b ← right.staticType types
    return op.resultType a b
  | .parens _ inner => inner.staticType types

/-- The types that the values of the variables give are those declared. -/
theorem HasType.staticType {s : Store} {x : Expression} {type : DataType} (h : x.HasType s type)
    (hwf : s.WellFormed) : x.staticType s.type? = some type := by
  induction h with
  | literal => rfl
  | named hv => exact Store.type?_of_value? hwf hv
  | plus _ ih => exact ih
  | minus _ ih => exact ih
  | binary _ _ ihl ihr =>
    rw [Expression.staticType, ihl, ihr]
    rfl
  | parens _ ih => exact ih

/-- Tokens make at most one expression in which the signs take all. -/
theorem Derives.unique {ts : List Lexeme} {e f : Expression} (he : e.Derives .expression ts)
    (hes : e.SignsTakeAll) (hf : f.Derives .expression ts) (hfs : f.SignsTakeAll) : e = f := by
  obtain ⟨first, us, rfl, -⟩ := he.head
  -- the parser reads both, if nothing follows
  let last : Lexeme := ⟨.endOfInput, ⟨0, 0⟩⟩
  let p : Position := ⟨first, us ++ [last], none⟩
  let q : Position := ⟨last, [], none⟩
  have hp : p.Leads (first :: us) q := ⟨rfl, rfl⟩
  have hq : Operator.ofToken? q.current.token = none := rfl
  have : (.ok e q : EStateM.Result Halt Position Expression) = .ok f q :=
    (Parser.yields_expression he hes hp hq).unique Parser.fueled_expression
      (Parser.yields_expression hf hfs hp hq)
  cases this
  rfl

end Grammar.Expression

/-- Tokens make an expression of a type, by the types of the variables. -/
def HasStaticType (types : String → Option DataType) (ts : List Lexeme) (type : DataType) : Prop :=
  ∃ e : Expression, e.Derives .expression ts ∧ e.SignsTakeAll ∧ e.staticType types = some type

theorem HasStaticType.unique {types : String → Option DataType} {ts : List Lexeme}
    {type type' : DataType} (h : HasStaticType types ts type) (h' : HasStaticType types ts type') :
    type' = type := by
  obtain ⟨e, he, hes, htype⟩ := h
  obtain ⟨f, hf, hfs, htype'⟩ := h'
  cases he.unique hes hf hfs
  exact Option.some.inj (htype'.symm.trans htype)

/-! ## States of an execution -/

/-- The states that an execution of a text may come to. The way back to a loop starts anywhere. -/
inductive State.Reached (source : String) : State → Prop
  | start {s : State} (h : State.start (.ofString source) = .ok s) : Reached source s
  | step {s s' : State} (h : Reached source s) (hs : Execution.step.run s = .ok () s') :
    Reached source s'
  | emit {s s' : State} {f : Listing → Listing} (h : Reached source s)
    (hs : (Execution.emit f).run s = .ok () s') : Reached source s'
  | declare {s s' : State} {name : String} {place : Span} {type : DataType} (h : Reached source s)
    (hs : (Execution.declare name place type).run s = .ok () s') : Reached source s'
  | store {s s' : State} {name : String} {place : Span} {start : Nat} {v : Value}
    (h : Reached source s) (hs : (Execution.store name place start v).run s = .ok () s') :
    Reached source s'
  | rewind {s t t' : State} (h : Reached source s) (hloop : s.current.token = .keyword .loopRepeat)
    (ht : Reached source t)
    (hs : (Execution.rewind (s.scanner.charIndex s.current.span.start)).run t = .ok () t') :
    Reached source t'

namespace State

variable {source : String} {s s' : State}

/-- What only performs something keeps the place in the text. -/
theorem atToken_of_perform {a : Scanner} {i : Nat} {α : Type} {x : Interpreter α} {b : α}
    (h : s.AtToken a i) (hs : (Execution.perform x).run s = .ok b s') :
    s'.AtToken a i ∧ x.run s.progress = .ok b s'.progress := by
  rw [Execution.run_perform] at hs
  split at hs
  · next hx =>
    cases hs
    exact ⟨h.congr rfl rfl, hx⟩
  · cases hs

theorem wellFormed_of_progress {r : Progress} (hs : s.progress = r) (h : r.store.WellFormed) :
    s.store.WellFormed := by
  subst hs
  exact h

/-- **Variables are in order** in all states, each of which is at a token of the text: their values,
if any, are of their types. -/
theorem Reached.wellFormed (h : s.Reached source) :
    (∃ i, s.AtToken (.ofString source) i) ∧ s.store.WellFormed := by
  induction h with
  | start h =>
    rcases State.start_cases (.ofString source) with
      ⟨f, hf, -⟩ | ⟨s, p, hs, hat, hempty, hlexemes, hending⟩
    · cases h.symm.trans hf
    · cases h.symm.trans hs
      exact ⟨⟨0, p, hat, hlexemes, hending⟩, wellFormed_of_progress hempty Store.wellFormed_empty⟩
  | step _ hs ih =>
    obtain ⟨⟨i, hat⟩, hwf⟩ := ih
    obtain ⟨hat', hprogress, -⟩ := hat.of_step hs
    exact ⟨⟨_, hat'⟩, wellFormed_of_progress hprogress hwf⟩
  | emit _ hs ih =>
    cases hs
    exact ih
  | declare _ hs ih =>
    obtain ⟨⟨i, hat⟩, hwf⟩ := ih
    rw [Execution.declare_eq_perform] at hs
    obtain ⟨hat', hrun⟩ := atToken_of_perform hat hs
    obtain ⟨store, hdeclare, hprogress⟩ := Interpreter.run_declare_eq_ok hrun
    exact ⟨⟨i, hat'⟩, wellFormed_of_progress hprogress (hwf.declare hdeclare)⟩
  | store _ hs ih =>
    obtain ⟨⟨i, hat⟩, hwf⟩ := ih
    rw [Execution.run_store] at hs
    obtain ⟨hat', hrun⟩ := atToken_of_perform hat hs
    obtain ⟨store, hassign, hprogress⟩ := Interpreter.run_assign_eq_ok hrun
    obtain ⟨htype, rfl⟩ := Store.assign_eq_ok_iff.1 hassign
    exact ⟨⟨i, hat'⟩, wellFormed_of_progress hprogress (hwf.set htype)⟩
  | rewind _ hloop _ hs ih iht =>
    obtain ⟨⟨i, hat⟩, -⟩ := ih
    obtain ⟨⟨j, hat'⟩, hwf⟩ := iht
    have hsource := Placed.pairwise_ofString source
    obtain ⟨t'', ht'', hat'', hprogress, -⟩ := hat'.rewind hsource hat.getElem? (by simp [hloop])
    rw [hat.charIndex_eq hsource, ht''] at hs
    cases hs
    exact ⟨⟨i, hat''⟩, wellFormed_of_progress hprogress hwf⟩

/-- No part of an execution leaves the states. -/
theorem invariant_reached (source : String) : Invariant (Reached source) where
  part := by
    intro β x hx
    cases hx with
    | pure a => exact .pure a
    | current =>
      rintro s _ s' hs ⟨⟩
      exact hs
    | unexpected expected => exact .of_fails fun s ↦ ⟨_, s, rfl⟩
    | expect ht => exact fun s a s' hs h ↦ hs.step (TakesToken.expect ht s a s' h).2
    | identifier => exact fun s a s' hs h ↦ hs.step (TakesToken.identifier s a s' h).2
    | dataType => exact fun s a s' hs h ↦ hs.step (TakesToken.dataType s a s' h).2
    | takeAny => exact fun s a s' hs h ↦ hs.step (TakesToken.takeAny s a s' h).2
    | emit hf => exact fun s _ s' hs h ↦ hs.emit h
    | compiled name =>
      rintro s _ s' hs ⟨⟩
      exact hs
    | arithmetic _ span x =>
      cases x with
      | ok v => exact .pure v
      | error f => exact .of_fails fun s ↦ ⟨_, s, rfl⟩
    | lookUp _ name span =>
      intro s v s' hs h
      rw [Execution.run_perform, Interpreter.run_lookUp] at h
      cases hv : s.progress.store.value? name with
      | some w =>
        rw [hv] at h
        cases h
        exact hs
      | none =>
        rw [hv] at h
        cases h
    | store _ name span start v => exact fun s _ s' hs h ↦ hs.store h
    | declareAll _ type names =>
      induction names with
      | nil => exact .pure ()
      | cons a names ih => exact Preserves.bind (fun s _ s' hs h ↦ hs.declare h) fun _ ↦ ih
  rewind := by
    rintro address ⟨t, ht, hloop, rfl⟩ s _ s' hs h
    exact .rewind ht hloop hs h

end State

/-- Compiling a text comes to its tasks in these states. -/
theorem Reached.state {source : String} {x : Invocation} (h : Reached source x) :
    x.state.Reached source :=
  (State.invariant_reached source).reached (fun _ ↦ .start) h

namespace Execution

variable {source : String} {s : State}

/-! ## Assignments -/

/-- What is evaluated is the expression that the parser reads there, and its tokens have the type of
the value. -/
theorem exists_staticType_of_expression {n : Nat} {v : Value} {s' : State} {text : List Placed}
    {p : Position} (h : s.At text p) (hwf : s.store.WellFormed)
    (hv : (expression n).run s = .ok v s') :
    ∃ (e : Expression) (q : Position) (ts : List Lexeme), (Parser.expression n).run p = .ok e q ∧
      s'.At text q ∧ p.Leads ts q ∧ e.Derives .expression ts ∧
      HasStaticType s.store.type? ts v.type ∧ s'.store = s.store ∧ s'.previousStop = e.stop := by
  obtain ⟨e, q, hq, hat⟩ := ((follows_expression n).1 s p h).of_ok hv
  obtain ⟨ts, hts, he, hs⟩ := Parser.derives_of_expression h.closed hq
  have hperforms := (performs_expression n).1 s p q e h hq
  rw [hv] at hperforms
  have hrun := hperforms.of_ok
  exact ⟨e, q, ts, hq, hat, hts, he, ⟨e, he, hs, (Expression.hasType_of_run hrun).staticType hwf⟩,
    Expression.store_run hrun, hperforms.post_of_ok.2⟩

/-- A variable takes values of its type, and refuses others with both types. -/
theorem run_store_of_type? {name : String} {declared : DataType}
    (h : s.store.type? name = some declared) (place : Span) (start : Nat) (v : Value) :
    (store name place start v).run s =
      if declared = v.type then
        .ok () (s.withProgress ⟨s.store.set name v, s.listing.move name v⟩)
      else .error (.fault ⟨.typeMismatch name declared v.type, ⟨start, s.previousStop⟩⟩) s := by
  have hassign : s.progress.store.assign name v =
      if declared = v.type then .ok (s.store.set name v)
      else .error (.typeMismatch declared v.type) := by
    rw [State.progress, Store.assign_eq, h]
  rw [run_store, run_perform, Interpreter.run_assign, hassign]
  by_cases htype : declared = v.type
  · simp only [if_pos htype]
    rfl
  · simp only [if_neg htype]
    rfl

/-- An assignment whose value has been computed. -/
theorem run_assignment_of_type? {n : Nat} {name : String} {place place' : Span}
    {s₁ s₂ s₃ : State} {v : Value} {declared : DataType}
    (hname : identifier.run s = .ok (name, place) s₁)
    (hassign : (expect (.symbol .assign)).run s₁ = .ok place' s₂)
    (hvalue : (expression n).run s₂ = .ok v s₃) (h : s₃.store.type? name = some declared) :
    (assignment n).run s =
      if declared = v.type then
        .ok () (s₃.withProgress ⟨s₃.store.set name v, s₃.listing.move name v⟩)
      else .error (.fault ⟨.typeMismatch name declared v.type,
        ⟨s₂.current.span.start, s₃.previousStop⟩⟩) s₃ := by
  rw [assignment, run_bind_of_ok hname, run_bind_of_ok hassign, run_current_bind,
    run_bind_of_ok hvalue]
  exact run_store_of_type? h place _ v

end Execution

open Execution in
/-- **Types are static.** The value of an expression is of the type that its tokens have by the
declared types, whatever the values of the variables are. So an assignment to a declared variable
is refused for its type just if the two types differ, and the message has both. -/
theorem types_are_static {source : String} {s : State} (hs : s.Reached source) (n : Nat) :
    (∀ v s', (expression n).run s = .ok v s' → ∃ ts, s.Between source ts s' ∧
      ∀ type, HasStaticType s.store.type? ts type ↔ type = v.type) ∧
    ∀ name place s₁ place' s₂ v s₃ declared, identifier.run s = .ok (name, place) s₁ →
      (expect (.symbol .assign)).run s₁ = .ok place' s₂ → (expression n).run s₂ = .ok v s₃ →
      s.store.type? name = some declared →
      ∃ ts static, s₂.Between source ts s₃ ∧ HasStaticType s.store.type? ts static ∧
        (declared = static → ∃ s', (assignment n).run s = .ok () s') ∧
        ∀ name' expected got, (∃ here s', (assignment n).run s =
            .error (.fault ⟨.typeMismatch name' expected got, here⟩) s') ↔
          declared ≠ static ∧ name' = name ∧ expected = declared ∧ got = static := by
  obtain ⟨⟨i, p, hat, -⟩, hwf⟩ := hs.wellFormed
  constructor
  · intro v s' hv
    obtain ⟨e, q, ts, -, hat', hts, -, htype, -⟩ := exists_staticType_of_expression hat hwf hv
    refine ⟨ts, ⟨p, q, hat, hat', hts⟩, fun type ↦ ⟨htype.unique, ?_⟩⟩
    rintro rfl
    exact htype
  · intro name place s₁ place' s₂ v s₃ declared hname hassign hvalue hdeclared
    obtain ⟨p₁, hat₁, hprogress₁⟩ := hat.of_identifier hname
    obtain ⟨p₂, hat₂, hprogress₂⟩ := hat₁.of_expect hassign
    have hstore₂ : s₂.store = s.store := congrArg Progress.store (hprogress₂.trans hprogress₁)
    obtain ⟨e, q, ts, -, hat₃, hts, -, htype, hstore₃, -⟩ :=
      exists_staticType_of_expression hat₂ (hstore₂ ▸ hwf) hvalue
    have hdeclared₃ : s₃.store.type? name = some declared := by
      rw [hstore₃, hstore₂, hdeclared]
    have hrun := run_assignment_of_type? hname hassign hvalue hdeclared₃
    rw [hstore₂] at htype
    refine ⟨ts, v.type, ⟨p₂, q, hat₂, hat₃, hts⟩, htype, ?_, ?_⟩
    · intro hsame
      rw [if_pos hsame] at hrun
      exact ⟨_, hrun⟩
    · intro name' expected got
      by_cases hsame : declared = v.type
      · rw [hrun, if_pos hsame]
        constructor
        · rintro ⟨here, s', h⟩
          cases h
        · intro h
          exact absurd hsame h.1
      · rw [hrun, if_neg hsame]
        constructor
        · rintro ⟨here, s', h⟩
          cases h
          exact ⟨hsame, rfl, rfl, rfl⟩
        · rintro ⟨-, rfl, rfl, rfl⟩
          exact ⟨_, _, rfl⟩

namespace Execution

/-- An assignment up to its value. -/
def assignedValue (n : Nat) : Execution (String × Value) := do
  let (name, _) ← identifier
  let _ ← expect (.symbol .assign)
  let v ← expression n
  return (name, v)

/-- Whether a statement computes a value for a variable that is declared with another type. -/
def mistypes (n : Nat) (name : String) (declared got : DataType) (s : State) : Bool :=
  match (assignedValue n).run s, (assignment n).run s with
  | .ok (name', _) _, .error (.fault ⟨.typeMismatch _ expected got', _⟩) _ =>
    name' == name && s.store.type? name == some declared && expected == declared && got' == got
  | _, _ => false

theorem exists_of_mistypes {n : Nat} {name : String} {declared got : DataType} {s : State}
    (h : mistypes n name declared got s = true) : s.store.type? name = some declared ∧
      (∃ v s', (assignedValue n).run s = .ok (name, v) s') ∧
      ∃ name' here s', (assignment n).run s =
        .error (.fault ⟨.typeMismatch name' declared got, here⟩) s' := by
  rw [mistypes] at h
  split at h
  · next name' v s₁ name'' expected got' here s₂ hvalue hassignment =>
    simp only [Bool.and_eq_true, beq_iff_eq] at h
    obtain ⟨⟨⟨rfl, hdeclared⟩, rfl⟩, rfl⟩ := h
    exact ⟨hdeclared, ⟨v, s₁, hvalue⟩, name'', here, s₂, hassignment⟩
  · cases h

end Execution

open Execution in
theorem types_are_static_after_loop :
    let source := "PROGRAM p; VAR n : INTEGER; x : REAL; " ++
      "BEGIN BEGIN n := 1; REPEAT n := n*2 UNTIL n>4 END; x := n END."
    ∃ s ts here s', s.Reached source ∧ s.store.type? "x" = some .real ∧
      HasStaticType s.store.type? ts .integer ∧
      (assignment 20).run s = .error (.fault ⟨.typeMismatch "x" .real .integer, here⟩) s' := by
  intro source
  have hmistypes : (untilSecondStatement 20).succeeds source
      (fun _ s ↦ mistypes 20 "x" .real .integer s) := by
    decide +kernel
  obtain ⟨s₀, _, s, hstart, hrun, hmistypes⟩ := exists_of_succeeds hmistypes
  obtain ⟨hdeclared, ⟨v, s', hvalue⟩, name, here, t, hfault⟩ := exists_of_mistypes hmistypes
  have hs : s.Reached source := (Reached.of_untilSecondStatement hstart hrun).state
  obtain ⟨⟨_, place⟩, s₁, hname, hvalue⟩ := run_bind_eq_ok_iff.1 hvalue
  obtain ⟨place', s₂, hassign, hvalue⟩ := run_bind_eq_ok_iff.1 hvalue
  obtain ⟨_, s₃, hvalue, hpure⟩ := run_bind_eq_ok_iff.1 hvalue
  cases hpure
  obtain ⟨ts, static, -, htype, -, hiff⟩ :=
    (types_are_static hs 20).2 _ _ _ _ _ _ _ _ hname hassign hvalue hdeclared
  obtain ⟨-, rfl, -, rfl⟩ := (hiff _ _ _).1 ⟨here, t, hfault⟩
  exact ⟨s, ts, here, t, hs, hdeclared, htype, hfault⟩

end MiniPascal
