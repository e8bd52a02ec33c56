import MiniPascal.Proofs.Evaluation

/-!
# Formulas and their print

A formula is an expression apart from its text: constants, variables, signs and operators, and
nothing about where they stand. It is printed with parentheses around every operand of an operator
that is not a constant or a variable, and with none after a sign, which takes all that follows.

The value of a formula is computed from the bottom up. Where it has none, some node is the first to
fail, in the order in which a node comes after its operands and the left operand before the right
one. The instructions of a formula stand in the same order.

Reading the print of a formula gives back all this (`expression_reads_print`): the tokens make one
tree, in which the parentheses are where they were printed, and the tree runs as the formula says.
-/

namespace MiniPascal

/-! ## Formulas -/

/-- An expression apart from its text. -/
inductive Formula where
  | constant (v : Value)
  | named (name : String)
  | plus (operand : Formula)
  | minus (operand : Formula)
  | binary (op : Operator) (left right : Formula)

/-- The token of a constant. -/
def Value.token : Value → Token
  | .integer n => .integer n
  | .real x => .real x

/-- The token of an operator. -/
def Operator.token : Operator → Token
  | .add => .symbol .plus
  | .sub => .symbol .minus
  | .mul => .symbol .star
  | .integerDiv => .keyword .div
  | .realDiv => .symbol .slash
  | .modulo => .symbol .percent

namespace Formula

/-- A constant or a variable. -/
def isAtom : Formula → Bool
  | .constant _ => true
  | .named _ => true
  | _ => false

/-- Tokens in parentheses, unless they are those of an atom. -/
def enclose (atom : Bool) (ts : List Token) : List Token :=
  if atom then ts else .symbol .openParen :: (ts ++ [.symbol .closeParen])

/-- The tokens of a formula. -/
def print : Formula → List Token
  | .constant v => [v.token]
  | .named name => [.identifier name]
  | .plus operand => .symbol .plus :: operand.print
  | .minus operand => .symbol .minus :: operand.print
  | .binary op left right =>
    enclose left.isAtom left.print ++ op.token :: enclose right.isAtom right.print

/-- The tokens of an operand. -/
def printOperand (e : Formula) : List Token := enclose e.isAtom e.print

/-- The number of tokens of an operand in front of its formula. -/
def indent (e : Formula) : Nat := if e.isAtom then 0 else 1

/-- The nodes of a formula, those of the operands first, with the numbers of their own tokens in a
print that starts with the token number `i`. -/
def nodes : Formula → Nat → List (Nat × Formula)
  | .constant v, i => [(i, .constant v)]
  | .named name, i => [(i, .named name)]
  | .plus operand, i => operand.nodes (i + 1) ++ [(i, .plus operand)]
  | .minus operand, i => operand.nodes (i + 1) ++ [(i, .minus operand)]
  | .binary op left right, i =>
    left.nodes (i + left.indent) ++ right.nodes (i + left.printOperand.length + 1 + right.indent) ++
      [(i + left.printOperand.length, .binary op left right)]

/-! ## Values, faults and instructions -/

/-- The value of a formula, from the bottom up. -/
def value (s : Store) : Formula → Option Value
  | .constant v => some v
  | .named name => s.value? name
  | .plus operand => operand.value s
  | .minus operand => do
    let v ← operand.value s
    v.neg.toOption
  | .binary op left right => do
    let v ← left.value s
    let w ← right.value s
    (op.apply v w).toOption

/-- The fault of an operation. -/
def arithmeticFault? : Except ArithmeticFault Value → Option FaultCause
  | .ok _ => none
  | .error f => some (.arithmetic f)

/-- What is wrong with a node whose operands have values. -/
def failure? (s : Store) : Formula → Option FaultCause
  | .constant _ => none
  | .named name => if (s.value? name).isSome then none else some (.unassigned name)
  | .plus _ => none
  | .minus operand => do
    let v ← operand.value s
    arithmeticFault? v.neg
  | .binary op left right => do
    let v ← left.value s
    let w ← right.value s
    arithmeticFault? (op.apply v w)

/-- The instructions of a node itself. -/
def instructions (s : Store) : Formula → List Instruction
  | .constant v => [.unary .pushImmediate (.value v)]
  | .named name => [.unary .push (.variable name)]
  | .plus _ => []
  | .minus operand => (operand.value s).toList.map fun v ↦ .unary .negate (.value v)
  | .binary op left right => (left.value s).toList.flatMap fun v ↦
    (right.value s).toList.flatMap fun w ↦
      [.binary (.arithmetic op) (.value v) (.value w), .pop]

/-- The first node that fails, by its number. -/
def firstFailure (s : Store) (ns : List (Nat × Formula)) : Option (Nat × FaultCause) :=
  ns.findSome? fun n ↦ (n.2.failure? s).map fun cause ↦ (n.1, cause)

/-- The instructions of nodes in a row. -/
def code (s : Store) (ns : List (Nat × Formula)) : List Instruction :=
  ns.flatMap fun n ↦ n.2.instructions s

section

variable {s : Store} {ms ns : List (Nat × Formula)}

@[simp] theorem code_append : code s (ms ++ ns) = code s ms ++ code s ns := List.flatMap_append

theorem firstFailure_append_of_none (h : firstFailure s ms = none) :
    firstFailure s (ms ++ ns) = firstFailure s ns := by
  rw [firstFailure, firstFailure] at *
  rw [List.findSome?_append, h, Option.none_or]

theorem firstFailure_append_of_some {a : Nat × FaultCause} (h : firstFailure s ms = some a) :
    firstFailure s (ms ++ ns) = some a := by
  rw [firstFailure] at *
  rw [List.findSome?_append, h, Option.some_or]

end

theorem length_printOperand (e : Formula) :
    e.printOperand.length = e.indent + e.print.length + e.indent := by
  rw [printOperand, enclose, indent]
  split
  · simp
  · simp
    omega

/-- The tokens of the nodes are among those of the formula. -/
theorem lt_of_mem_nodes {e : Formula} {i : Nat} {n : Nat × Formula} (h : n ∈ e.nodes i) :
    i ≤ n.1 ∧ n.1 < i + e.print.length := by
  induction e generalizing i with
  | constant v =>
    rw [nodes, List.mem_singleton] at h
    simp [h, print]
  | named name =>
    rw [nodes, List.mem_singleton] at h
    simp [h, print]
  | plus operand ih | minus operand ih =>
    rw [nodes, List.mem_append, List.mem_singleton] at h
    rw [print, List.length_cons]
    rcases h with h | rfl
    · have := ih h
      omega
    · simp
  | binary op left right ihl ihr =>
    have hleft := left.length_printOperand
    have hright := right.length_printOperand
    have hlength : (binary op left right).print.length =
        left.printOperand.length + (1 + right.printOperand.length) := by
      rw [print, ← printOperand, ← printOperand, List.length_append, List.length_cons,
        Nat.add_comm 1]
    rw [nodes, List.mem_append, List.mem_append, List.mem_singleton] at h
    rw [hlength]
    rcases h with (h | h) | rfl
    · have := ihl h
      omega
    · have := ihr h
      omega
    · simp only
      omega

/-! ## The tree of a print -/

open Grammar

/-- A tree in parentheses, unless it is that of an atom. -/
def encloseTree (place : Nat → Span) (e : Formula) (i : Nat) (t : Expression) : Expression :=
  if e.isAtom then t else .parens ⟨(place i).start, (place (i + 1 + e.print.length)).stop⟩ t

/-- The tree of the print of a formula, by the places of its tokens. -/
def tree (place : Nat → Span) : Formula → Nat → Expression
  | .constant v, i => .literal v (place i)
  | .named name, i => .named name (place i)
  | .plus operand, i => .plus (place i) (operand.tree place (i + 1))
  | .minus operand, i => .minus (place i) (operand.tree place (i + 1))
  | .binary op left right, i => .binary op (place (i + left.printOperand.length))
    (encloseTree place left i (left.tree place (i + left.indent)))
    (encloseTree place right (i + left.printOperand.length + 1)
      (right.tree place (i + left.printOperand.length + 1 + right.indent)))

/-- Tokens have their places from a number on. -/
def Covers (place : Nat → Span) : Nat → List Lexeme → Prop
  | _, [] => True
  | i, l :: ts => place i = l.span ∧ Covers place (i + 1) ts

section

variable {place : Nat → Span} {i : Nat} {e : Formula} {ts us : List Lexeme}

theorem covers_append : Covers place i (ts ++ us) ↔
    Covers place i ts ∧ Covers place (i + ts.length) us := by
  induction ts generalizing i with
  | nil => simp [Covers]
  | cons l ts ih =>
    rw [List.cons_append, Covers, Covers, ih, List.length_cons, and_assoc, Nat.add_right_comm,
      Nat.add_assoc]

theorem covers_of_getElem? (h : ∀ k l, ts[k]? = some l → place (i + k) = l.span) :
    Covers place i ts := by
  induction ts generalizing i with
  | nil => trivial
  | cons l ts ih =>
    refine ⟨h 0 l rfl, ih fun k l' hk ↦ ?_⟩
    rw [Nat.add_assoc, Nat.add_comm 1]
    exact h (k + 1) l' hk

/-- No parenthesis is left out where it is needed: an operand is a factor. -/
theorem derives_operand (hts : ts.map Lexeme.token = e.printOperand) (hplace : Covers place i ts)
    (he : ∀ i ts, ts.map Lexeme.token = e.print → Covers place i ts →
      (e.tree place i).Derives .expression ts ∧
        (e.isAtom = true → (e.tree place i).Derives .factor ts)) :
    (encloseTree place e i (e.tree place (i + e.indent))).Derives .factor ts := by
  rw [printOperand, enclose] at hts
  rw [encloseTree, indent]
  by_cases hatom : e.isAtom = true
  · rw [if_pos hatom] at hts ⊢
    rw [if_pos hatom]
    exact (he i ts hts hplace).2 hatom
  · rw [if_neg hatom] at hts ⊢
    rw [if_neg hatom]
    obtain ⟨l, ts, rfl, hl, hts⟩ := List.map_eq_cons_iff.1 hts
    obtain ⟨us, rs, rfl, hus, hrs⟩ := List.map_eq_append_iff.1 hts
    obtain ⟨r, rs, rfl, hr, hnil⟩ := List.map_eq_cons_iff.1 hrs
    obtain rfl := List.map_eq_nil_iff.1 hnil
    obtain ⟨hopen, hrest⟩ := hplace
    obtain ⟨hinner, hclose, -⟩ := covers_append.1 hrest
    have hlength : us.length = e.print.length := by rw [← hus, List.length_map]
    rw [hopen, ← hlength, hclose]
    exact .parens hl (he (i + 1) us hus hinner).1 hr

theorem derives_tree (hts : ts.map Lexeme.token = e.print) (hplace : Covers place i ts) :
    (e.tree place i).Derives .expression ts ∧
      (e.isAtom = true → (e.tree place i).Derives .factor ts) := by
  induction e generalizing i ts with
  | constant v =>
    obtain ⟨l, rs, rfl, hl, hnil⟩ := List.map_eq_cons_iff.1 hts
    obtain rfl := List.map_eq_nil_iff.1 hnil
    have hfactor : (tree place (.constant v) i).Derives .factor [l] := by
      rw [tree, hplace.1]
      cases v with
      | integer n => exact .integer hl
      | real x => exact .real hl
    exact ⟨hfactor.factor.term, fun _ ↦ hfactor⟩
  | named name =>
    obtain ⟨l, rs, rfl, hl, hnil⟩ := List.map_eq_cons_iff.1 hts
    obtain rfl := List.map_eq_nil_iff.1 hnil
    have hfactor : (tree place (.named name) i).Derives .factor [l] := by
      rw [tree, hplace.1]
      exact .named hl
    exact ⟨hfactor.factor.term, fun _ ↦ hfactor⟩
  | plus operand ih =>
    obtain ⟨l, rs, rfl, hl, hrs⟩ := List.map_eq_cons_iff.1 hts
    rw [tree, hplace.1]
    exact ⟨(Expression.Derives.plus hl (ih hrs hplace.2).1).factor.term, nofun⟩
  | minus operand ih =>
    obtain ⟨l, rs, rfl, hl, hrs⟩ := List.map_eq_cons_iff.1 hts
    rw [tree, hplace.1]
    exact ⟨(Expression.Derives.minus hl (ih hrs hplace.2).1).factor.term, nofun⟩
  | binary op left right ihl ihr =>
    obtain ⟨us, rs, rfl, hus, hrs⟩ := List.map_eq_append_iff.1 hts
    obtain ⟨l, vs, rfl, hl, hvs⟩ := List.map_eq_cons_iff.1 hrs
    obtain ⟨hplaceLeft, hop, hplaceRight⟩ := covers_append.1 hplace
    have hlength : us.length = left.printOperand.length := by
      rw [printOperand, ← hus, List.length_map]
    rw [hlength] at hop hplaceRight
    have hleft := derives_operand hus hplaceLeft fun _ _ ↦ ihl
    have hright := derives_operand hvs hplaceRight fun _ _ ↦ ihr
    rw [tree, hop]
    refine ⟨?_, nofun⟩
    have htoken : Operator.additive? l.token = some op ∨
        Operator.multiplicative? l.token = some op := by
      rw [hl]
      cases op <;> simp [Operator.token, Operator.additive?, Operator.multiplicative?]
    rcases htoken with h | h
    · exact .sum hleft.factor.term h hright.factor
    · exact .term (.product hleft.factor h hright)

theorem not_endsInSign_operand :
    ¬(encloseTree place e i (e.tree place (i + e.indent))).EndsInSign := by
  cases e <;> exact id

/-- No operator is to the right of a sign, unless it is printed in parentheses. -/
theorem signsTakeAll_tree : (e.tree place i).SignsTakeAll := by
  induction e generalizing i with
  | constant v => trivial
  | named name => trivial
  | plus operand ih => exact ih
  | minus operand ih => exact ih
  | binary op left right ihl ihr =>
    have hoperand {e : Formula} {j : Nat} (h : ∀ {i}, (e.tree place i).SignsTakeAll) :
        (encloseTree place e j (e.tree place (j + e.indent))).SignsTakeAll := by
      rw [encloseTree]
      split
      · exact h
      · exact h
    exact ⟨not_endsInSign_operand, hoperand ihl, hoperand ihr⟩

end

/-! ## Running the tree -/

/-- An outcome is the value of a formula, with its instructions emitted, or else the fault of the
first node that fails. -/
def Gives (place : Nat → Span) (e : Formula) (i : Nat) (r : Progress)
    (o : EStateM.Result Halt Progress Value) : Prop :=
  (∀ v, e.value r.store = some v → firstFailure r.store (e.nodes i) = none ∧
    ∃ l : Listing, o = .ok v ⟨r.store, l⟩ ∧
      l.toList = r.listing.toList ++ code r.store (e.nodes i)) ∧
  (e.value r.store = none → ∃ k cause r', firstFailure r.store (e.nodes i) = some (k, cause) ∧
    o = .error (.fault ⟨cause, place k⟩) r')

section

variable {place : Nat → Span} {e : Formula} {i k : Nat} {r : Progress}
  {o : EStateM.Result Halt Progress Value} {ms ns : List (Nat × Formula)}

/-- An operand without a value decides the outcome. -/
theorem Gives.of_operand {cause : FaultCause} {r' : Progress} (hnodes : e.nodes i = ms ++ ns)
    (hvalue : e.value r.store = none) (hfirst : firstFailure r.store ms = some (k, cause))
    (ho : o = .error (.fault ⟨cause, place k⟩) r') : Gives place e i r o := by
  refine ⟨fun v hv ↦ ?_, fun _ ↦ ⟨k, cause, r', ?_, ho⟩⟩
  · cases hvalue.symm.trans hv
  · rw [hnodes]
    exact firstFailure_append_of_some hfirst

/-- An operation on operands that have values. -/
theorem Gives.of_operation {x : Except ArithmeticFault Value} {f : Listing → Listing} {l : Listing}
    (hnodes : e.nodes i = ns ++ [(k, e)]) (hfirst : firstFailure r.store ns = none)
    (hl : l.toList = r.listing.toList ++ code r.store ns)
    (hvalue : e.value r.store = x.toOption) (hfailure : e.failure? r.store = arithmeticFault? x)
    (hf : (f l).toList = l.toList ++ e.instructions r.store)
    (ho : o = (do Interpreter.emit f; Interpreter.arithmetic (place k) x).run ⟨r.store, l⟩) :
    Gives place e i r o := by
  have hown : firstFailure r.store (e.nodes i) =
      (arithmeticFault? x).map fun cause ↦ (k, cause) := by
    rw [hnodes, firstFailure_append_of_none hfirst, firstFailure, List.findSome?_singleton,
      hfailure]
  cases x with
  | ok w =>
    refine ⟨fun v hv ↦ ⟨hown, f l, ?_, ?_⟩, fun hnone ↦ ?_⟩
    · cases hvalue.symm.trans hv
      exact ho
    · rw [hf, hl, hnodes, code_append, List.append_assoc]
      simp [code]
    · cases hvalue.symm.trans hnone
  | error g =>
    refine ⟨fun v hv ↦ ?_, fun _ ↦ ⟨k, .arithmetic g, _, hown, ho⟩⟩
    cases hvalue.symm.trans hv

theorem run_encloseTree (e : Formula) (i : Nat) (t : Expression) :
    (encloseTree place e i t).run = t.run := by
  rw [encloseTree]
  split
  · rfl
  · rfl

/-- **Formulas run from the left to the right.** -/
theorem gives_run_tree : Gives place e i r ((e.tree place i).run.run r) := by
  induction e generalizing i r with
  | constant v =>
    refine ⟨fun w hw ↦ ?_, nofun⟩
    cases hw
    exact ⟨rfl, r.listing.pushImmediate v, rfl, Listing.toList_emit _ _⟩
  | named name =>
    rw [tree, Expression.run, Interpreter.run_emit_bind, Interpreter.run_lookUp]
    cases hv : r.store.value? name with
    | some v =>
      refine ⟨fun w hw ↦ ?_, fun hnone ↦ ?_⟩
      · cases hv.symm.trans hw
        refine ⟨?_, r.listing.pushVariable name, rfl, Listing.toList_emit _ _⟩
        simp [nodes, firstFailure, failure?, hv]
      · cases hv.symm.trans hnone
    | none =>
      refine ⟨fun w hw ↦ ?_, fun _ ↦ ⟨i, .unassigned name,
        ⟨r.store, r.listing.pushVariable name⟩, ?_, rfl⟩⟩
      · cases hv.symm.trans hw
      · simp [nodes, firstFailure, failure?, hv]
  | plus operand ih =>
    obtain ⟨hok, hnone⟩ := ih (i := i + 1) (r := r)
    refine ⟨fun v hv ↦ ?_, fun hv ↦ ?_⟩
    · obtain ⟨hfirst, l, hrun, hl⟩ := hok v hv
      refine ⟨?_, l, hrun, ?_⟩
      · rw [nodes, firstFailure_append_of_none hfirst]
        rfl
      · rw [hl, nodes, code_append]
        simp [code, instructions]
    · obtain ⟨k, cause, r', hfirst, hrun⟩ := hnone hv
      exact ⟨k, cause, r', firstFailure_append_of_some hfirst, hrun⟩
  | minus operand ih =>
    obtain ⟨hok, hnone⟩ := ih (i := i + 1) (r := r)
    cases hv : operand.value r.store with
    | none =>
      obtain ⟨k, cause, r', hfirst, hrun⟩ := hnone hv
      refine .of_operand rfl ?_ hfirst (run_bind_of_error hrun)
      rw [value, hv]
      rfl
    | some v =>
      obtain ⟨hfirst, l, hrun, hl⟩ := hok v hv
      refine .of_operation (x := v.neg) (f := fun l ↦ l.negate v) rfl hfirst hl ?_ ?_ ?_
        (run_bind_of_ok hrun)
      · rw [value, hv]
        rfl
      · rw [failure?, hv]
        rfl
      · rw [instructions, hv]
        exact Listing.toList_emit _ _
  | binary op left right ihl ihr =>
    obtain ⟨hokLeft, hnoneLeft⟩ := ihl (i := i + left.indent) (r := r)
    rw [tree, Expression.run, run_encloseTree, run_encloseTree]
    cases hv : left.value r.store with
    | none =>
      obtain ⟨k, cause, r', hfirst, hrun⟩ := hnoneLeft hv
      refine .of_operand (List.append_assoc _ _ _) ?_ hfirst (run_bind_of_error hrun)
      rw [value, hv]
      rfl
    | some v =>
      obtain ⟨hfirst, l, hrun, hl⟩ := hokLeft v hv
      rw [run_bind_of_ok hrun]
      obtain ⟨hokRight, hnoneRight⟩ := ihr
        (i := i + left.printOperand.length + 1 + right.indent) (r := ⟨r.store, l⟩)
      cases hw : right.value r.store with
      | none =>
        obtain ⟨k, cause, r', hfirst', hrun'⟩ := hnoneRight hw
        refine .of_operand rfl ?_ ?_ (run_bind_of_error hrun')
        · rw [value, hv, hw]
          rfl
        · rw [firstFailure_append_of_none hfirst]
          exact hfirst'
      | some w =>
        obtain ⟨hfirst', l', hrun', hl'⟩ := hokRight w hw
        refine .of_operation (x := op.apply v w) (l := l')
          (f := fun l ↦ l.arithmetic (.arithmetic op) v w) rfl ?_ ?_ ?_ ?_ ?_
          (run_bind_of_ok hrun')
        · rw [firstFailure_append_of_none hfirst]
          exact hfirst'
        · rw [hl', hl, code_append, List.append_assoc]
        · rw [value, hv, hw]
          rfl
        · rw [failure?, hv, hw]
          rfl
        · rw [instructions, hv, hw]
          simp [Listing.arithmetic]

end

end Formula

/-- **Reading back a print.** Where the print of a formula stands in a text and no operator follows
it, an expression is read that has the value of the formula: it emits the instructions of the
formula, changes no variable and ends in front of the token that follows. If the formula has no
value, the fault is that of the first node to fail, at the token of this node. -/
theorem expression_reads_print {source : String} {s : State} {p : Position} {e : Formula}
    {ts rest : List Lexeme} {next : Lexeme} (hs : s.At (Placed.ofString source) p)
    (hp : p.lexemes = ts ++ next :: rest) (hts : ts.map Lexeme.token = e.print)
    (hnext : Operator.ofToken? next.token = none) :
    (∀ v, e.value s.store = some v → ∃ s', Yields Execution.expression s (.ok v s') ∧
      s'.store = s.store ∧
      s'.listing.toList = s.listing.toList ++ Formula.code s.store (e.nodes 0) ∧
      s'.current = next) ∧
    (e.value s.store = none → ∃ k cause l s',
      Formula.firstFailure s.store (e.nodes 0) = some (k, cause) ∧ ts[k]? = some l ∧
      Yields Execution.expression s (.error (.fault ⟨cause, l.span⟩) s')) := by
  let place : Nat → Span := fun k ↦ ((ts[k]?).map Lexeme.span).getD ⟨0, 0⟩
  have hplace {k : Nat} {l : Lexeme} (hl : ts[k]? = some l) : place k = l.span := by
    simp [place, hl]
  have hcovers : Formula.Covers place 0 ts := by
    refine Formula.covers_of_getElem? fun k l hl ↦ ?_
    rw [Nat.zero_add]
    exact hplace hl
  -- the tokens make the tree of the formula, and the execution does what the tree does
  have hleads : p.Leads ts ⟨next, rest, p.ending⟩ := ⟨hp, rfl⟩
  obtain ⟨-, n, hn⟩ := Parser.yields_expression (Formula.derives_tree hts hcovers).1
    Formula.signsTakeAll_tree hleads hnext
  have hperforms := (Execution.performs_expression n).1 s p _ _ hs hn
  obtain ⟨hok, hnone⟩ : Formula.Gives place e 0 s.progress _ := Formula.gives_run_tree
  constructor
  · intro v hv
    obtain ⟨-, l, hrun, hl⟩ := hok v hv
    rw [Performs, hrun] at hperforms
    obtain ⟨s', hs', hprogress, hafter⟩ := hperforms
    refine ⟨s', ⟨trivial, n, hs'⟩, congrArg Progress.store hprogress, ?_, hafter.1.current_eq⟩
    have hlisting : s'.listing = l := congrArg Progress.listing hprogress
    rw [hlisting]
    exact hl
  · intro hv
    obtain ⟨k, cause, r, hfirst, hrun⟩ := hnone hv
    rw [Performs, hrun] at hperforms
    obtain ⟨s', hs', -⟩ := hperforms
    have hk : k < ts.length := by
      obtain ⟨n, hn, hcause⟩ := List.exists_of_findSome?_eq_some hfirst
      obtain ⟨_, -, hpair⟩ := Option.map_eq_some_iff.1 hcause
      have hlt := (Formula.lt_of_mem_nodes hn).2
      cases hpair
      rwa [Nat.zero_add, ← hts, List.length_map] at hlt
    have hl : ts[k]? = some ts[k] := List.getElem?_eq_getElem hk
    rw [hplace hl] at hs'
    exact ⟨k, cause, ts[k], s', hfirst, hl, trivial, n, hs'⟩

/-- An execution starts at a print that its text starts with. -/
theorem exists_start_of_print {source : String} {e : Formula} {next : Token} {us : List Token}
    (h : (Scanner.ofString source).lexemes.map Lexeme.token = e.print ++ next :: us) :
    ∃ s p ts l rest, State.start (.ofString source) = .ok s ∧ s.At (Placed.ofString source) p ∧
      s.progress = .empty ∧ p.lexemes = ts ++ l :: rest ∧ ts.map Lexeme.token = e.print ∧
      l.token = next := by
  obtain ⟨ts, ls, hlexemes, hts, hls⟩ := List.map_eq_append_iff.1 h
  obtain ⟨l, rest, rfl, hl, -⟩ := List.map_eq_cons_iff.1 hls
  rcases State.start_cases (.ofString source) with ⟨f, -, hnil, -⟩ | ⟨s, p, hs, hat, hempty, hp, -⟩
  · rw [hnil] at hlexemes
    simp at hlexemes
  · exact ⟨s, p, ts, l, rest, hs, hat, hempty, hp.trans hlexemes, hts, hl⟩

open Formula in
theorem expression_reads_print_of_products :
    (∃ s s', State.start (.ofString "(-7 - 2) * (+4);") = .ok s ∧
      Yields Execution.expression s (.ok (.integer (-20)) s') ∧
      s'.listing.toList = [.unary .pushImmediate (.value (.integer 7)),
        .unary .pushImmediate (.value (.integer 2)),
        .binary (.arithmetic .sub) (.value (.integer 7)) (.value (.integer 2)), .pop,
        .unary .negate (.value (.integer 5)), .unary .pushImmediate (.value (.integer 4)),
        .binary (.arithmetic .mul) (.value (.integer (-5))) (.value (.integer 4)), .pop] ∧
      s'.current.token = .symbol .semicolon) ∧
    ∃ s place s', State.start (.ofString "x * (1 DIV 0)") = .ok s ∧
      Yields Execution.expression s (.error (.fault ⟨.unassigned "x", place⟩) s') := by
  constructor
  · let e : Formula := .binary .mul
      (.minus (.binary .sub (.constant (.integer 7)) (.constant (.integer 2))))
      (.plus (.constant (.integer 4)))
    have htokens : (Scanner.ofString "(-7 - 2) * (+4);").lexemes.map Lexeme.token =
        e.print ++ [.symbol .semicolon, .endOfInput] := rfl
    obtain ⟨s, p, ts, l, rest, hs, hat, hempty, hp, hts, hl⟩ := exists_start_of_print htokens
    have hstore : s.store = .empty := congrArg Progress.store hempty
    have hlisting : s.listing = .empty := congrArg Progress.listing hempty
    obtain ⟨s', hs', -, hcode, hnext⟩ :=
      (expression_reads_print hat hp hts (by rw [hl]; rfl)).1 (.integer (-20)) (by rw [hstore]; rfl)
    rw [hstore, hlisting] at hcode
    exact ⟨s, s', hs, hs', hcode, by rw [hnext, hl]⟩
  · let e : Formula := .binary .mul (.named "x")
      (.binary .integerDiv (.constant (.integer 1)) (.constant (.integer 0)))
    have htokens : (Scanner.ofString "x * (1 DIV 0)").lexemes.map Lexeme.token =
        e.print ++ [.endOfInput] := rfl
    obtain ⟨s, p, ts, l, rest, hs, hat, hempty, hp, hts, hl⟩ := exists_start_of_print htokens
    have hstore : s.store = .empty := congrArg Progress.store hempty
    obtain ⟨k, cause, l', s', hfirst, -, hs'⟩ :=
      (expression_reads_print hat hp hts (by rw [hl]; rfl)).2 (by rw [hstore]; rfl)
    rw [hstore] at hfirst
    cases hfirst
    exact ⟨s, l'.span, s', hs, hs'⟩

end MiniPascal
