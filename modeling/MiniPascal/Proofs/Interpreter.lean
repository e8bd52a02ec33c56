import MiniPascal.Proofs.Fuel
import MiniPascal.Proofs.Grammar

/-!
# The meaning of a program

An interpreter of trees. It knows nothing of a text that is read: it has the variables and the
instructions emitted so far, and a tree to run on them.

A loop runs its body and evaluates its condition until the condition holds. Its address is noted
once, in front of the first pass. As the tree tells only the byte offset of a `REPEAT`, the
interpreter is given the numbers of the characters at the offsets.
-/

namespace MiniPascal

open Grammar

/-- What a program has done so far. -/
structure Progress where
  store : Store
  listing : Listing

/-- Nothing is done yet. -/
def Progress.empty : Progress := ⟨.empty, .empty⟩

/-- A step of interpreting. -/
abbrev Interpreter := EStateM Halt Progress

namespace Interpreter

variable {α : Type}

/-- Halts with a fault at a place. -/
def fail (cause : FaultCause) (place : Span) : Interpreter α := throw (.fault ⟨cause, place⟩)

/-- Adds to the listing. -/
def emit (f : Listing → Listing) : Interpreter Unit := fun r ↦
  .ok () { r with listing := f r.listing }

/-- The result of an operation, whose fault is reported at a place. -/
def arithmetic (place : Span) : Except ArithmeticFault Value → Interpreter Value
  | .ok v => return v
  | .error f => fail (.arithmetic f) place

/-- The value of a variable, which must have one. -/
def lookUp (name : String) (place : Span) : Interpreter Value := do
  match (← get).store.value? name with
  | some v => return v
  | none => fail (.unassigned name) place

/-- Stores a value in the variable at a place; the value is that of an expression at another. -/
def assign (name : String) (place value : Span) (v : Value) : Interpreter Unit := do
  let r ← get
  match r.store.assign name v with
  | .ok store =>
    set { r with store }
    emit fun l ↦ l.move name v
  | .error .undeclared => fail (.undeclared name) place
  | .error (.typeMismatch expected got) => fail (.typeMismatch name expected got) value

/-- Declares one variable. -/
def declare (name : String) (type : DataType) (place : Span) : Interpreter Unit := do
  let r ← get
  match r.store.declare name type place with
  | .ok store =>
    set { r with store }
    emit fun l ↦ l.declare name type
  | .error first => fail (.duplicateDeclaration name first.span) place

/-- Declares variables from the first to the last. -/
def declareAll : List (String × DataType × Span) → Interpreter Unit
  | [] => return ()
  | (name, type, place) :: rest => do
    declare name type place
    declareAll rest

/-- Repeats a pass until it says that it was the last. -/
def repeatUntil (pass : Nat → Interpreter Bool) : Nat → Interpreter Unit
  | 0 => throw .outOfFuel
  | n + 1 => do
    let done ← pass n
    if done then return () else repeatUntil pass n

end Interpreter

namespace Grammar

open Interpreter

/-- The value of an expression, from the left to the right. -/
def Expression.run : Expression → Interpreter Value
  | .literal v _ => do
    emit fun l ↦ l.pushImmediate v
    return v
  | .named name place => do
    emit fun l ↦ l.pushVariable name
    lookUp name place
  | .plus _ operand => operand.run
  | .minus place operand => do
    let v ← operand.run
    emit fun l ↦ l.negate v
    arithmetic place v.neg
  | .binary op place left right => do
    let v ← left.run
    let w ← right.run
    emit fun l ↦ l.arithmetic (.arithmetic op) v w
    arithmetic place (op.apply v w)
  | .parens _ inner => inner.run

/-- Whether the condition of the loop at an address holds. -/
def Condition.run (c : Condition) (address : Nat) : Interpreter Bool := do
  let v ← c.left.run
  emit fun l ↦ l.jump (.jump c.comparison) address
  let w ← c.right.run
  return c.comparison.holds (v.compare w)

/-- The effect of a statement. -/
def Statement.run (address : Nat → Nat) : Statement → Nat → Interpreter Unit
  | .nothing, _ => return ()
  | .assign name place value, _ => do
    let v ← value.run
    Interpreter.assign name place ⟨value.start, value.stop⟩ v
  | .compound body, n => body.run address n
  | .loop start body condition, n => do
    emit fun l ↦ l.markLoop (address start)
    repeatUntil (fun n ↦ do
      body.run address n
      condition.run (address start)) n
  | .sequence first rest, n => do
    first.run address n
    rest.run address n

/-- The effect of a program. -/
def Program.run (address : Nat → Nat) (p : Program) (n : Nat) : Interpreter Unit := do
  declareAll p.variables
  p.body.run address n

end Grammar

/-! ## Single steps -/

namespace Interpreter

theorem repeats_repeatUntil (pass : Nat → Interpreter Bool) :
    Repeats (repeatUntil pass) pass (pure ()) :=
  ⟨noFuel_throw, fun _ ↦ rfl⟩

theorem run_arithmetic (place : Span) (x : Except ArithmeticFault Value) (r : Progress) :
    (arithmetic place x).run r = match x with
      | .ok v => .ok v r
      | .error f => .error (.fault ⟨.arithmetic f, place⟩) r := by
  cases x with
  | ok v => rfl
  | error f => rfl

theorem run_lookUp (name : String) (place : Span) (r : Progress) :
    (lookUp name place).run r = match r.store.value? name with
      | some v => .ok v r
      | none => .error (.fault ⟨.unassigned name, place⟩) r := by
  rw [lookUp, run_get_bind]
  cases r.store.value? name with
  | some v => rfl
  | none => rfl

theorem run_assign (name : String) (place value : Span) (v : Value) (r : Progress) :
    (assign name place value v).run r = match r.store.assign name v with
      | .ok store => .ok () ⟨store, r.listing.move name v⟩
      | .error .undeclared => .error (.fault ⟨.undeclared name, place⟩) r
      | .error (.typeMismatch expected got) =>
        .error (.fault ⟨.typeMismatch name expected got, value⟩) r := by
  rw [assign, run_get_bind]
  cases r.store.assign name v with
  | ok store => rfl
  | error f =>
    cases f with
    | undeclared => rfl
    | typeMismatch expected got => rfl

theorem run_declare (name : String) (type : DataType) (place : Span) (r : Progress) :
    (declare name type place).run r = match r.store.declare name type place with
      | .ok store => .ok () ⟨store, r.listing.declare name type⟩
      | .error first => .error (.fault ⟨.duplicateDeclaration name first.span, place⟩) r := by
  rw [declare, run_get_bind]
  cases r.store.declare name type place with
  | ok store => rfl
  | error first => rfl

theorem declareAll_append (vs ws : List (String × DataType × Span)) :
    declareAll (vs ++ ws) = (do
      declareAll vs
      declareAll ws) := by
  induction vs with
  | nil => exact (pure_bind _ _).symm
  | cons v vs ih => rw [List.cons_append, declareAll, declareAll, ih, bind_assoc]

variable {r r' : Progress}

theorem run_emit_bind (f : Listing → Listing) (k : Unit → Interpreter α) (r : Progress) :
    (emit f >>= k).run r = (k ()).run ⟨r.store, f r.listing⟩ := rfl

theorem run_arithmetic_eq_ok {place : Span} {x : Except ArithmeticFault Value} {v : Value}
    (h : (arithmetic place x).run r = .ok v r') : x = .ok v ∧ r' = r := by
  rw [run_arithmetic] at h
  split at h
  · cases h
    exact ⟨rfl, rfl⟩
  · cases h

theorem run_lookUp_eq_ok {name : String} {place : Span} {v : Value}
    (h : (lookUp name place).run r = .ok v r') : r.store.value? name = some v ∧ r' = r := by
  rw [run_lookUp] at h
  split at h
  · next hv =>
    cases h
    exact ⟨hv, rfl⟩
  · cases h

theorem run_assign_eq_ok {name : String} {place value : Span} {v : Value}
    (h : (assign name place value v).run r = .ok () r') :
    ∃ store, r.store.assign name v = .ok store ∧ r' = ⟨store, r.listing.move name v⟩ := by
  rw [run_assign] at h
  split at h
  · next store hstore =>
    cases h
    exact ⟨store, hstore, rfl⟩
  · cases h
  · cases h

theorem run_declare_eq_ok {name : String} {type : DataType} {place : Span}
    (h : (declare name type place).run r = .ok () r') :
    ∃ store, r.store.declare name type place = .ok store ∧
      r' = ⟨store, r.listing.declare name type⟩ := by
  rw [run_declare] at h
  split at h
  · next store hstore =>
    cases h
    exact ⟨store, hstore, rfl⟩
  · cases h

end Interpreter

/-! ## What a success consists of -/

namespace Grammar

open Interpreter

variable {r r' : Progress} {v : Value}

namespace Expression

theorem run_literal_eq_ok {w : Value} {place : Span} (h : (literal w place).run.run r = .ok v r') :
    v = w ∧ r' = ⟨r.store, r.listing.pushImmediate w⟩ := by
  cases h
  exact ⟨rfl, rfl⟩

theorem run_named_eq_ok {name : String} {place : Span}
    (h : (named name place).run.run r = .ok v r') :
    r.store.value? name = some v ∧ r' = ⟨r.store, r.listing.pushVariable name⟩ := by
  rw [run, run_emit_bind] at h
  exact run_lookUp_eq_ok h

theorem run_minus_eq_ok {place : Span} {e : Expression} (h : (minus place e).run.run r = .ok v r') :
    ∃ w r₁, e.run.run r = .ok w r₁ ∧ w.neg = .ok v ∧ r' = ⟨r₁.store, r₁.listing.negate w⟩ := by
  obtain ⟨w, r₁, hw, h⟩ := run_bind_eq_ok_iff.1 h
  exact ⟨w, r₁, hw, run_arithmetic_eq_ok h⟩

theorem run_binary_eq_ok {op : Operator} {place : Span} {left right : Expression}
    (h : (binary op place left right).run.run r = .ok v r') :
    ∃ a b r₁ r₂, left.run.run r = .ok a r₁ ∧ right.run.run r₁ = .ok b r₂ ∧ op.apply a b = .ok v ∧
      r' = ⟨r₂.store, r₂.listing.arithmetic (.arithmetic op) a b⟩ := by
  obtain ⟨a, r₁, ha, h⟩ := run_bind_eq_ok_iff.1 h
  obtain ⟨b, r₂, hb, h⟩ := run_bind_eq_ok_iff.1 h
  exact ⟨a, b, r₁, r₂, ha, hb, run_arithmetic_eq_ok h⟩

end Expression

theorem Condition.run_eq_ok {c : Condition} {address : Nat} {done : Bool}
    (h : (c.run address).run r = .ok done r') :
    ∃ a b r₁, c.left.run.run r = .ok a r₁ ∧
      c.right.run.run ⟨r₁.store, r₁.listing.jump (.jump c.comparison) address⟩ = .ok b r' ∧
      done = c.comparison.holds (a.compare b) := by
  obtain ⟨a, r₁, ha, h⟩ := run_bind_eq_ok_iff.1 h
  rw [run_emit_bind] at h
  obtain ⟨b, r₂, hb, h⟩ := run_bind_eq_ok_iff.1 h
  cases h
  exact ⟨a, b, r₁, ha, hb, rfl⟩

namespace Statement

variable {address : Nat → Nat} {n : Nat}

theorem run_assign_eq_ok {name : String} {place : Span} {e : Expression}
    (h : (run address (.assign name place e) n).run r = .ok () r') :
    ∃ v r₁ store, e.run.run r = .ok v r₁ ∧ r₁.store.assign name v = .ok store ∧
      r' = ⟨store, r₁.listing.move name v⟩ := by
  obtain ⟨v, r₁, hv, h⟩ := run_bind_eq_ok_iff.1 h
  obtain ⟨store, hstore, hr'⟩ := Interpreter.run_assign_eq_ok h
  exact ⟨v, r₁, store, hv, hstore, hr'⟩

theorem run_sequence_eq_ok {first rest : Statement}
    (h : (run address (.sequence first rest) n).run r = .ok () r') :
    ∃ r₁, (first.run address n).run r = .ok () r₁ ∧ (rest.run address n).run r₁ = .ok () r' := by
  obtain ⟨_, r₁, hfirst, hrest⟩ := run_bind_eq_ok_iff.1 h
  exact ⟨r₁, hfirst, hrest⟩

/-- A loop that ends: what holds of the last pass, and of any other pass in front of what it holds
of, holds of all passes together. -/
theorem run_loop_induction {start : Nat} {body : Statement} {c : Condition}
    {P : Progress → Progress → Prop}
    (hdone : ∀ n r r₁ r', (body.run address n).run r = .ok () r₁ →
      (c.run (address start)).run r₁ = .ok true r' → P r r')
    (hagain : ∀ n r r₁ r₂ r', (body.run address n).run r = .ok () r₁ →
      (c.run (address start)).run r₁ = .ok false r₂ → P r₂ r' → P r r')
    (h : (run address (.loop start body c) n).run r = .ok () r') :
    P ⟨r.store, r.listing.markLoop (address start)⟩ r' := by
  rw [run, run_emit_bind] at h
  refine (repeats_repeatUntil _).induction (fun n r r' hpass ↦ ?_)
    (fun n r r₂ r₃ r' hpass hback ↦ ?_) h
  · obtain ⟨_, r₁, hbody, hc⟩ := run_bind_eq_ok_iff.1 hpass
    exact hdone n r r₁ r' hbody hc
  · obtain ⟨_, r₁, hbody, hc⟩ := run_bind_eq_ok_iff.1 hpass
    cases hback
    exact hagain n r r₁ r₂ r' hbody hc

end Statement

end Grammar

/-! ## More fuel -/

/-- More fuel changes no outcome of a statement but the lack of fuel. -/
theorem Grammar.Statement.fueled_run (address : Nat → Nat) (s : Statement) :
    Fueled (s.run address) := by
  induction s with
  | nothing => exact fueled_const _
  | assign name place value => exact fueled_const _
  | compound body ih => exact ih
  | loop start body condition ih =>
    exact fun n ↦ .bind_right _ fun _ ↦
      (Interpreter.repeats_repeatUntil _).fueled (fun n ↦ (ih n).bind_left _) n
  | sequence first rest ihf ihr => exact ihf.bind fun _ ↦ ihr

theorem Grammar.Program.fueled_run (address : Nat → Nat) (p : Program) :
    Fueled (p.run address) := fun n ↦ .bind_right _ fun _ ↦ p.body.fueled_run address n

end MiniPascal
