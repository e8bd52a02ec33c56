import MiniPascal.Proofs.Variables

/-!
# Types

The type of an expression is known before it is evaluated, from the types of its variables, if those
have values. As a variable keeps its type and never loses its value, an expression that was
evaluated once has the same type ever after, and nothing can go wrong in it but the arithmetic.

So it is with statements (`Statement.Checked`): every part of a statement is executed whenever the
statement is, at least once, and whatever has been executed is checked.
-/

namespace MiniPascal

/-- Arithmetic is the worst that stopped the program. -/
def Halt.AtMostArithmetic : Halt → Prop
  | .fault f => ∃ g, f.cause = .arithmetic g
  | .outOfFuel => True

theorem Interpreter.atMostArithmetic_of_arithmetic {place : Span} {x : Except ArithmeticFault Value}
    {e : Halt} {r r' : Progress} (h : (arithmetic place x).run r = .error e r') :
    e.AtMostArithmetic := by
  rw [run_arithmetic] at h
  split at h
  · cases h
  · next g =>
    cases h
    exact ⟨g, rfl⟩

/-! ## Values -/

/-- The type of the result of an operator on operands of given types. -/
def Operator.resultType : Operator → DataType → DataType → DataType
  | .integerDiv, _, _ => .integer
  | .realDiv, _, _ => .real
  | _, .integer, .integer => .integer
  | _, _, _ => .real

namespace Value

variable {a b v : Value}

theorem type_of_ofInt {n : Int} (h : ofInt n = .ok v) : v.type = .integer := by
  rw [ofInt] at h
  split at h
  · cases h
    rfl
  · cases h

theorem type_of_remainder {m n : Int64} (h : remainder m n = .ok v) : v.type = .integer := by
  rw [remainder] at h
  split at h
  · exact type_of_ofInt h
  · cases h
    rfl

theorem type_of_ofQuotient {x : Float} (h : ofQuotient x = .ok v) : v.type = .integer := by
  rw [ofQuotient] at h
  split at h
  · exact type_of_ofInt h
  · cases h

theorem type_of_neg (h : a.neg = .ok v) : v.type = a.type := by
  cases a with
  | integer n => exact type_of_ofInt h
  | real x =>
    cases h
    rfl

/-- A division that succeeds has gone on after its divisor. -/
theorem eq_of_divisor_bind {x : Except ArithmeticFault Value}
    (h : (do b.divisor; x) = .ok v) : x = .ok v := by
  rw [divisor] at h
  split at h
  · cases h
  · exact h

theorem type_of_apply {op : Operator} (h : op.apply a b = .ok v) :
    v.type = op.resultType a.type b.type := by
  cases op with
  | integerDiv =>
    have h := eq_of_divisor_bind h
    cases a <;> cases b
    · exact type_of_ofInt h
    all_goals exact type_of_ofQuotient h
  | realDiv =>
    cases eq_of_divisor_bind h
    rfl
  | modulo =>
    have h := eq_of_divisor_bind h
    cases a <;> cases b
    · exact type_of_remainder h
    all_goals
      cases h
      rfl
  -- the others divide nothing, and differ in no more than what they compute
  | _ =>
    cases a <;> cases b
    · exact type_of_ofInt h
    all_goals
      cases h
      rfl

end Value

namespace Grammar

open Interpreter

variable {r r' : Progress} {s s' : Store} {e : Halt}

/-! ## Expressions -/

namespace Expression

/-- All variables of an expression have values, and those make the expression one of a type. -/
inductive HasType (s : Store) : Expression → DataType → Prop
  | literal {v : Value} {place : Span} : HasType s (.literal v place) v.type
  | named {name : String} {place : Span} {v : Value} (h : s.value? name = some v) :
    HasType s (.named name place) v.type
  | plus {place : Span} {operand : Expression} {type : DataType} (h : HasType s operand type) :
    HasType s (.plus place operand) type
  | minus {place : Span} {operand : Expression} {type : DataType} (h : HasType s operand type) :
    HasType s (.minus place operand) type
  | binary {op : Operator} {place : Span} {left right : Expression} {a b : DataType}
    (hleft : HasType s left a) (hright : HasType s right b) :
    HasType s (.binary op place left right) (op.resultType a b)
  | parens {place : Span} {inner : Expression} {type : DataType} (h : HasType s inner type) :
    HasType s (.parens place inner) type

/-- An expression that was evaluated has the type of its value. -/
theorem hasType_of_run {x : Expression} {v : Value} (h : x.run.run r = .ok v r') :
    x.HasType r.store v.type := by
  induction x generalizing r r' v with
  | literal w place =>
    obtain ⟨rfl, -⟩ := run_literal_eq_ok h
    exact .literal
  | named name place => exact .named (run_named_eq_ok h).1
  | plus place operand ih => exact .plus (ih h)
  | minus place operand ih =>
    obtain ⟨w, r₁, hoperand, hneg, -⟩ := run_minus_eq_ok h
    rw [Value.type_of_neg hneg]
    exact .minus (ih hoperand)
  | binary op place left right ihl ihr =>
    obtain ⟨a, b, r₁, r₂, hleft, hright, happly, -⟩ := run_binary_eq_ok h
    have htype := ihr hright
    rw [store_run hleft] at htype
    rw [Value.type_of_apply happly]
    exact .binary (ihl hleft) htype
  | parens place inner ih => exact .parens (ih h)

namespace HasType

variable {x : Expression} {type : DataType}

/-- The type stays the same as long as the variables only evolve. -/
theorem evolves (h : x.HasType s type) (hwf : s.WellFormed) (hs : s.Evolves s') :
    x.HasType s' type := by
  induction h with
  | literal => exact .literal
  | @named name place v hv =>
    obtain ⟨w, hw⟩ := hs.assigned name v hv
    -- both values are of the type that the variable was declared with
    have htype : some w.type = some v.type := by
      rw [← Store.type?_of_value? hwf hv, ← Store.type?_of_value? (hs.wellFormed hwf) hw,
        Store.type?_eq_of_signature hs.signature]
    rw [← Option.some.inj htype]
    exact .named hw
  | plus _ ih => exact .plus ih
  | minus _ ih => exact .minus ih
  | binary _ _ ihl ihr => exact .binary ihl ihr
  | parens _ ih => exact .parens ih

theorem unique {type' : DataType} (h : x.HasType s type) (h' : x.HasType s type') :
    type' = type := by
  induction h generalizing type' with
  | literal =>
    cases h'
    rfl
  | named hv =>
    cases h' with
    | named hw => rw [Option.some.inj (hv.symm.trans hw)]
  | plus _ ih =>
    cases h' with
    | plus h' => exact ih h'
  | minus _ ih =>
    cases h' with
    | minus h' => exact ih h'
  | binary _ _ ihl ihr =>
    cases h' with
    | binary hl hr => rw [ihl hl, ihr hr]
  | parens _ ih =>
    cases h' with
    | parens h' => exact ih h'

/-- Only the arithmetic of an expression with a type can go wrong. -/
theorem atMostArithmetic_of_run (h : x.HasType s type) (hx : x.run.run r = .error e r')
    (hs : r.store = s) : e.AtMostArithmetic := by
  induction h generalizing r r' with
  | literal => cases hx
  | named hv =>
    subst hs
    rw [run, run_emit_bind, run_lookUp, hv] at hx
    cases hx
  | plus _ ih => exact ih hx hs
  | @minus place operand type _ ih =>
    rcases run_bind_eq_error_iff.1 hx with hoperand | ⟨v, r₁, -, hneg⟩
    · exact ih hoperand hs
    · exact atMostArithmetic_of_arithmetic hneg
  | @binary op place left right a b _ _ ihl ihr =>
    rcases run_bind_eq_error_iff.1 hx with hleft | ⟨v, r₁, hleft, hx⟩
    · exact ihl hleft hs
    rcases run_bind_eq_error_iff.1 hx with hright | ⟨w, r₂, -, happly⟩
    · exact ihr hright ((store_run hleft).trans hs)
    · exact atMostArithmetic_of_arithmetic happly
  | parens _ ih => exact ih hx hs

end HasType

end Expression

/-! ## Statements -/

/-- Both sides of a condition have a type. -/
def Condition.Checked (s : Store) (c : Condition) : Prop :=
  ∃ a b, c.left.HasType s a ∧ c.right.HasType s b

/-- All expressions of a statement have a type, and what is assigned to a variable is of the type of
the variable. -/
def Statement.Checked (s : Store) : Statement → Prop
  | .nothing => True
  | .assign name _ value => ∃ type, value.HasType s type ∧ s.type? name = some type
  | .compound body => body.Checked s
  | .loop _ body condition => body.Checked s ∧ condition.Checked s
  | .sequence first rest => first.Checked s ∧ rest.Checked s

namespace Condition

variable {c : Condition} {address : Nat}

theorem checked_of_run {done : Bool} (h : (c.run address).run r = .ok done r') :
    c.Checked r.store := by
  obtain ⟨a, b, r₁, hleft, hright, -⟩ := run_eq_ok h
  have htype : c.right.HasType r₁.store b.type := (Expression.hasType_of_run hright :)
  rw [Expression.store_run hleft] at htype
  exact ⟨a.type, b.type, Expression.hasType_of_run hleft, htype⟩

theorem Checked.evolves (h : c.Checked s) (hwf : s.WellFormed) (hs : s.Evolves s') :
    c.Checked s' := by
  obtain ⟨a, b, hleft, hright⟩ := h
  exact ⟨a, b, hleft.evolves hwf hs, hright.evolves hwf hs⟩

theorem Checked.atMostArithmetic_of_run (h : c.Checked r.store)
    (hc : (c.run address).run r = .error e r') : e.AtMostArithmetic := by
  obtain ⟨a, b, htypeLeft, htypeRight⟩ := h
  rcases run_bind_eq_error_iff.1 hc with hleft | ⟨v, r₁, hleft, hc⟩
  · exact htypeLeft.atMostArithmetic_of_run hleft rfl
  rw [run_emit_bind] at hc
  rcases run_bind_eq_error_iff.1 hc with hright | ⟨w, r₂, -, hpure⟩
  · exact htypeRight.atMostArithmetic_of_run hright (Expression.store_run hleft :)
  · cases hpure

end Condition

namespace Statement

variable {address : Nat → Nat} {x : Statement} {n : Nat}

theorem Checked.evolves (h : x.Checked s) (hwf : s.WellFormed) (hs : s.Evolves s') :
    x.Checked s' := by
  induction x with
  | nothing => trivial
  | assign name place value =>
    obtain ⟨type, hvalue, hname⟩ := h
    exact ⟨type, hvalue.evolves hwf hs, (Store.type?_eq_of_signature hs.signature name).trans hname⟩
  | compound body ih => exact ih h
  | loop start body c ih => exact ⟨ih h.1, h.2.evolves hwf hs⟩
  | sequence first rest ihf ihr => exact ⟨ihf h.1, ihr h.2⟩

/-- **What has run is checked.** No statement is skipped, and of a loop there is a last pass. -/
theorem checked_of_run (h : (x.run address n).run r = .ok () r') (hwf : r.store.WellFormed) :
    x.Checked r'.store := by
  induction x generalizing r r' n with
  | nothing => trivial
  | assign name place value =>
    obtain ⟨v, r₁, store, hvalue, hstore, rfl⟩ := run_assign_eq_ok h
    rw [← Expression.store_run hvalue] at hwf
    have htype : value.HasType r₁.store v.type := by
      rw [Expression.store_run hvalue]
      exact Expression.hasType_of_run hvalue
    have hchecked : (assign name place value).Checked r₁.store :=
      ⟨v.type, htype, (Store.assign_eq_ok_iff.1 hstore).1⟩
    exact hchecked.evolves hwf (.assign hstore)
  | compound body ih => exact ih h hwf
  | loop start body c ih =>
    -- only the last pass is looked at; those before it need to leave the variables in order
    refine run_loop_induction (P := fun r r' ↦ r.store.WellFormed →
      (loop start body c).Checked r'.store) ?_ ?_ h hwf
    · intro n r r₁ r' hbody hc hwf
      rw [Condition.store_run hc]
      exact ⟨ih hbody hwf, Condition.checked_of_run hc⟩
    · intro n r r₁ r₂ r' hbody hc hrest hwf
      refine hrest ?_
      rw [Condition.store_run hc]
      exact (evolves_run hbody).wellFormed hwf
  | sequence first rest ihf ihr =>
    obtain ⟨r₁, hfirst, hrest⟩ := run_sequence_eq_ok h
    have hwf₁ := (evolves_run hfirst).wellFormed hwf
    exact ⟨(ihf hfirst hwf).evolves hwf₁ (evolves_run hrest), ihr hrest hwf₁⟩

/-- A checked statement assigns what fits. -/
theorem atMostArithmetic_of_assign {name : String} {place : Span} {value : Expression}
    (h : (assign name place value).Checked r.store)
    (hx : (run address (assign name place value) n).run r = .error e r') :
    e.AtMostArithmetic := by
  obtain ⟨type, hvalue, hname⟩ := h
  rcases run_bind_eq_error_iff.1 hx with hx | ⟨v, r₁, hv, hassign⟩
  · exact hvalue.atMostArithmetic_of_run hx rfl
  · have htype : v.type = type := hvalue.unique (Expression.hasType_of_run hv)
    have hstore : r₁.store.assign name v = .ok (r₁.store.set name v) := by
      refine Store.assign_eq_ok_iff.2 ⟨?_, rfl⟩
      rw [Expression.store_run hv, hname, htype]
    rw [Interpreter.run_assign, hstore] at hassign
    cases hassign

/-- Passes of a loop that is checked, if in its body only the arithmetic can go wrong. -/
theorem atMostArithmetic_of_repeatUntil {body : Statement} {c : Condition} {start : Nat}
    (hbody : ∀ n r e r', body.Checked r.store → r.store.WellFormed →
      (body.run address n).run r = .error e r' → e.AtMostArithmetic)
    (hx : (repeatUntil (fun n ↦ do
      body.run address n
      c.run (address start)) n).run r = .error e r')
    (h : body.Checked r.store ∧ c.Checked r.store) (hwf : r.store.WellFormed) :
    e.AtMostArithmetic := by
  induction n generalizing r with
  | zero =>
    cases hx
    trivial
  | succ n ih =>
    rcases (repeats_repeatUntil _).run_succ_eq hx with
      ⟨r₁, -, hr₁⟩ | ⟨r₂, hpass, hrest⟩ | ⟨e', r₁, hpass, he⟩
    · cases hr₁
    · obtain ⟨_, r₁, hbody', hc⟩ := run_bind_eq_ok_iff.1 hpass
      -- what a pass does to the variables leaves the loop checked
      have hevolves : r.store.Evolves r₂.store := by
        rw [Condition.store_run hc]
        exact evolves_run hbody'
      exact ih hrest ⟨h.1.evolves hwf hevolves, h.2.evolves hwf hevolves⟩ (hevolves.wellFormed hwf)
    · cases he
      rcases run_bind_eq_error_iff.1 hpass with hpass | ⟨_, r₂, hbody', hc⟩
      · exact hbody n r _ _ h.1 hwf hpass
      · exact (h.2.evolves hwf (evolves_run hbody')).atMostArithmetic_of_run hc

/-- **Only arithmetic goes wrong in what is checked.** -/
theorem Checked.atMostArithmetic_of_run (h : x.Checked r.store) (hwf : r.store.WellFormed)
    (hx : (x.run address n).run r = .error e r') : e.AtMostArithmetic := by
  induction x generalizing r r' e n with
  | nothing => cases hx
  | assign name place value => exact atMostArithmetic_of_assign h hx
  | compound body ih => exact ih h hwf hx
  | loop start body c ih =>
    rw [run, run_emit_bind] at hx
    exact atMostArithmetic_of_repeatUntil (fun _ _ _ _ h hwf hx ↦ ih h hwf hx) hx h hwf
  | sequence first rest ihf ihr =>
    rcases run_bind_eq_error_iff.1 hx with hfirst | ⟨_, r₁, hfirst, hrest⟩
    · exact ihf h.1 hwf hfirst
    · have hevolves := evolves_run hfirst
      exact ihr (h.2.evolves hwf hevolves) (hevolves.wellFormed hwf) hrest

/-- **Loops.** Once a pass of a loop has been completed, only the arithmetic of those that follow
can go wrong. -/
theorem atMostArithmetic_after_pass {body : Statement} {c : Condition} {start m : Nat}
    {r₁ r₂ : Progress} (hbody : (body.run address n).run r = .ok () r₁)
    (hc : (c.run (address start)).run r₁ = .ok false r₂) (hwf : r.store.WellFormed)
    (hx : (repeatUntil (fun n ↦ do
      body.run address n
      c.run (address start)) m).run r₂ = .error e r') : e.AtMostArithmetic := by
  have hstore := Condition.store_run hc
  refine atMostArithmetic_of_repeatUntil (fun _ _ _ _ h hwf hx ↦ h.atMostArithmetic_of_run hwf hx)
    hx ?_ ?_
  · rw [hstore]
    exact ⟨checked_of_run hbody hwf, Condition.checked_of_run hc⟩
  · rw [hstore]
    exact (evolves_run hbody).wellFormed hwf

end Statement

end Grammar

end MiniPascal
