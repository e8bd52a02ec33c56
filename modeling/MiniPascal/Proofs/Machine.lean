import MiniPascal.Proofs.Meaning

/-!
# The listing as the run of a machine

The instructions of a listing are those of a machine with a stack of values and a memory. They carry
the values they were emitted with, and the machine goes on only if it has the same values, bit for
bit. So a listing that the machine runs to its end tells truly what was computed.

An expression leaves its value on the stack and a condition leaves two, one on either side of its
jump; nothing takes those two away. All other code leaves the stack as high as it was
(`Machine.Balanced`), and between any two statements the memory of the machine is that of the
program.
-/

namespace MiniPascal

/-- Whether two values are the same, bit for bit. -/
def Value.same : Value → Value → Bool
  | .integer a, .integer b => a == b
  | .real x, .real y => x.toBits == y.toBits
  | _, _ => false

theorem Value.same_self (v : Value) : v.same v = true := by
  cases v with
  | integer n => exact beq_self_eq_true n
  | real x => exact beq_self_eq_true x.toBits

/-- Whether an instruction is a jump. -/
def Instruction.isJump : Instruction → Bool
  | .unary (.jump _) _ => true
  | _ => false

/-! ## The machine -/

/-- A stack of values, the top first, and the values of the variables. -/
structure Machine where
  stack : List Value
  memory : String → Option Value

namespace Machine

/-- The machine before its first instruction. -/
def empty : Machine := ⟨[], fun _ ↦ none⟩

/-- The machine with a value given to a variable. -/
def assign (m : Machine) (name : String) (v : Value) : Machine :=
  { m with memory := fun name' ↦ if name' = name then some v else m.memory name' }

/-- Executes one instruction, unless the machine is stuck at it. -/
def exec (m : Machine) : Instruction → Option Machine
  | .unary .pushImmediate (.value v) => some { m with stack := v :: m.stack }
  | .unary .push (.variable name) => (m.memory name).map fun v ↦ { m with stack := v :: m.stack }
  | .unary .negate (.value v) =>
    match m.stack, v.neg with
    | top :: rest, .ok w => if top.same v then some { m with stack := w :: rest } else none
    | _, _ => none
  | .unary (.jump _) (.address _) => some m
  | .binary (.arithmetic op) (.value l) (.value r) =>
    match m.stack, op.apply l r with
    -- the right operand stays on top until it is dropped
    | top :: second :: rest, .ok v =>
      if second.same l && top.same r then some { m with stack := top :: v :: rest } else none
    | _, _ => none
  | .binary .move (.variable name) (.value v) =>
    match m.stack with
    | top :: rest => if top.same v then some ({ m with stack := rest }.assign name v) else none
    | [] => none
  | .binary .move .returnAddress (.address _) => some m
  | .declare _ _ => some m
  | .pop =>
    match m.stack with
    | _ :: rest => some { m with stack := rest }
    | [] => none
  | _ => none

/-- Executes instructions from the first to the last. -/
def run (m : Machine) (code : List Instruction) : Option Machine := code.foldlM exec m

/-- What was emitted between two moments takes the machine from one stack to another and holds a
number of jumps. The memory is at both moments that of the program. -/
def Traces (r r' : Progress) (stack stack' : List Value) (jumps : Nat) : Prop :=
  ∃ code, r'.listing.toList = r.listing.toList ++ code ∧ code.countP Instruction.isJump = jumps ∧
    run ⟨stack, r.store.value?⟩ code = some ⟨stack', r'.store.value?⟩

namespace Traces

variable {r r₁ r₂ : Progress} {stack stack₁ stack₂ : List Value}

theorem refl (r : Progress) (stack : List Value) : Traces r r stack stack 0 :=
  ⟨[], (List.append_nil _).symm, rfl, rfl⟩

theorem trans {n m : Nat} (h : Traces r r₁ stack stack₁ n) (h' : Traces r₁ r₂ stack₁ stack₂ m) :
    Traces r r₂ stack stack₂ (n + m) := by
  obtain ⟨code, hcode, hjumps, hrun⟩ := h
  obtain ⟨code', hcode', hjumps', hrun'⟩ := h'
  refine ⟨code ++ code', ?_, ?_, ?_⟩
  · rw [hcode', hcode, List.append_assoc]
  · rw [List.countP_append, hjumps, hjumps']
  · rw [run, List.foldlM_append]
    rw [run] at hrun
    rw [hrun]
    exact hrun'

/-- One instruction is emitted, and what it does to the memory is done to the variables. -/
theorem emit {store : Store} {i : Instruction}
    (h : exec ⟨stack, r.store.value?⟩ i = some ⟨stack₁, store.value?⟩) :
    Traces r ⟨store, r.listing.emit i⟩ stack stack₁ (if i.isJump then 1 else 0) := by
  refine ⟨[i], Listing.toList_emit _ _, List.countP_singleton, ?_⟩
  rw [run, List.foldlM_cons, h]
  rfl

end Traces

/-- What was emitted between two moments leaves two values on the stack for every jump, whatever is
there before. -/
def Balanced (r r' : Progress) : Prop :=
  ∀ stack, ∃ stack' jumps, Traces r r' stack stack' jumps ∧
    stack'.length = stack.length + 2 * jumps

namespace Balanced

variable {r r₁ r₂ : Progress}

theorem of_traces (h : ∀ stack, Traces r r₁ stack stack 0) : Balanced r r₁ :=
  fun stack ↦ ⟨stack, 0, h stack, rfl⟩

theorem trans (h : Balanced r r₁) (h' : Balanced r₁ r₂) : Balanced r r₂ := by
  intro stack
  obtain ⟨stack₁, jumps, htraces, hlength⟩ := h stack
  obtain ⟨stack₂, jumps', htraces', hlength'⟩ := h' stack₁
  refine ⟨stack₂, _, htraces.trans htraces', ?_⟩
  omega

end Balanced

theorem exec_push {stack : List Value} {memory : String → Option Value} {name : String} {v : Value}
    (h : memory name = some v) :
    exec ⟨stack, memory⟩ (.unary .push (.variable name)) = some ⟨v :: stack, memory⟩ := by
  simp only [exec, h, Option.map_some]

theorem exec_negate {stack : List Value} {memory : String → Option Value} {v w : Value}
    (h : v.neg = .ok w) :
    exec ⟨v :: stack, memory⟩ (.unary .negate (.value v)) = some ⟨w :: stack, memory⟩ := by
  simp only [exec, h, v.same_self, if_true]

theorem exec_arithmetic {stack : List Value} {memory : String → Option Value} {op : Operator}
    {a b v : Value} (h : op.apply a b = .ok v) :
    exec ⟨b :: a :: stack, memory⟩ (.binary (.arithmetic op) (.value a) (.value b)) =
      some ⟨b :: v :: stack, memory⟩ := by
  simp only [exec, h, a.same_self, b.same_self, Bool.and_self, if_true]

theorem exec_move {stack : List Value} {s store : Store} {name : String} {v : Value}
    (h : s.assign name v = .ok store) :
    exec ⟨v :: stack, s.value?⟩ (.binary .move (.variable name) (.value v)) =
      some ⟨stack, store.value?⟩ := by
  have hmemory : store.value? = fun name' ↦ if name' = name then some v else s.value? name' :=
    funext (Store.value?_assign h)
  rw [hmemory]
  simp only [exec, v.same_self, if_true]
  rfl

end Machine

/-! ## What is emitted -/

namespace Grammar

open Machine

variable {r r' : Progress}

/-- An expression leaves its value on the stack. -/
theorem Expression.traces_run {e : Expression} {v : Value} (h : e.run.run r = .ok v r')
    (stack : List Value) : Traces r r' stack (v :: stack) 0 := by
  induction e generalizing r r' v stack with
  | literal w place =>
    obtain ⟨rfl, rfl⟩ := run_literal_eq_ok h
    exact .emit rfl
  | named name place =>
    obtain ⟨hv, rfl⟩ := run_named_eq_ok h
    exact .emit (exec_push hv)
  | plus place operand ih => exact ih h stack
  | minus place operand ih =>
    obtain ⟨w, r₁, hoperand, hneg, rfl⟩ := run_minus_eq_ok h
    exact (ih hoperand stack).trans (.emit (exec_negate hneg))
  | binary op place left right ihl ihr =>
    obtain ⟨a, b, r₁, r₂, hleft, hright, happly, rfl⟩ := run_binary_eq_ok h
    -- the value on the left waits on the stack while the right operand is evaluated
    have hoperands := (ihl hleft stack).trans (ihr hright (a :: stack))
    exact (hoperands.trans (.emit (exec_arithmetic happly))).trans (.emit rfl)
  | parens place inner ih => exact ih h stack

/-- A condition leaves both its values on the stack. -/
theorem Condition.balanced_run {c : Condition} {address : Nat} {done : Bool}
    (h : (c.run address).run r = .ok done r') : Balanced r r' := by
  intro stack
  obtain ⟨a, b, r₁, hleft, hright, -⟩ := run_eq_ok h
  have hjump : Traces r₁ ⟨r₁.store, r₁.listing.jump (.jump c.comparison) address⟩ (a :: stack)
      (a :: stack) 1 := .emit rfl
  exact ⟨_, _, ((Expression.traces_run hleft stack).trans hjump).trans
    (Expression.traces_run hright (a :: stack)), rfl⟩

/-- **Statements.** A statement leaves nothing on the stack but the two values of every condition in
it, each time the condition is evaluated. -/
theorem Statement.balanced_run {address : Nat → Nat} {s : Statement} {n : Nat}
    (h : (s.run address n).run r = .ok () r') : Balanced r r' := by
  induction s generalizing r r' n with
  | nothing =>
    cases h
    exact .of_traces (.refl _)
  | assign name place value =>
    obtain ⟨v, r₁, store, hvalue, hstore, rfl⟩ := run_assign_eq_ok h
    exact .of_traces fun stack ↦
      (Expression.traces_run hvalue stack).trans (.emit (exec_move hstore))
  | compound body ih => exact ih h
  | loop start body c ih =>
    have hmark : Balanced r ⟨r.store, r.listing.markLoop (address start)⟩ :=
      .of_traces fun stack ↦ .emit rfl
    refine hmark.trans (run_loop_induction ?_ ?_ h)
    · intro n r r₁ r' hbody hc
      exact (ih hbody).trans (Condition.balanced_run hc)
    · intro n r r₁ r₂ r' hbody hc hrest
      exact ((ih hbody).trans (Condition.balanced_run hc)).trans hrest
  | sequence first rest ihf ihr =>
    obtain ⟨r₁, hfirst, hrest⟩ := run_sequence_eq_ok h
    exact (ihf hfirst).trans (ihr hrest)

theorem balanced_declareAll {vs : List (String × DataType × Span)}
    (h : (Interpreter.declareAll vs).run r = .ok () r') : Balanced r r' := by
  induction vs generalizing r with
  | nil =>
    cases h
    exact .of_traces (.refl _)
  | cons v vs ih =>
    obtain ⟨_, r₁, hdeclare, hrest⟩ := run_bind_eq_ok_iff.1 h
    obtain ⟨store, hstore, rfl⟩ := Interpreter.run_declare_eq_ok hdeclare
    have hdeclared : Balanced r ⟨store, r.listing.declare v.1 v.2.1⟩ := by
      refine .of_traces fun stack ↦ .emit ?_
      rw [exec, funext (Store.value?_declare hstore)]
    exact hdeclared.trans (ih hrest)

end Grammar

/-! ## Whole listings -/

/-- **A listing is a run of the machine.** The machine runs the listing of a program from the empty
stack and memory to its end without being stuck. It ends with the values of the variables in its
memory and with two values on its stack for every jump. -/
theorem run_listing_of_compileText {fuel : Nat} {source : String} {c : Compiled}
    (h : compileText fuel source = .ok c) :
    ∃ m, Machine.empty.run c.listing.toList = some m ∧
      (∀ name v, m.memory name = some v ↔ (name, v) ∈ c.store.memory) ∧
      m.stack.length = 2 * c.listing.toList.countP Instruction.isJump := by
  obtain ⟨t, -, ⟨n, hn⟩, -⟩ := exists_tree_of_compileText h
  have hwf := (Grammar.Program.run_store hn).2
  obtain ⟨_, r, hdeclare, hbody⟩ := run_bind_eq_ok_iff.1 hn
  obtain ⟨stack, jumps, ⟨code, hcode, hjumps, hrun⟩, hlength⟩ :=
    (Grammar.balanced_declareAll hdeclare).trans (Grammar.Statement.balanced_run hbody) []
  have hlisting : c.listing.toList = code := hcode
  rw [hlisting, hjumps]
  refine ⟨_, hrun, fun name v ↦ (Store.mem_memory_iff hwf).symm, ?_⟩
  rw [hlength, List.length_nil, Nat.zero_add]

/-- Whether one integer is all that the variables hold. -/
def Store.holdsOnly (s : Store) (name : String) (n : Int64) : Bool :=
  match s.memory with
  | [(name', .integer n')] => name' == name && n' == n
  | _ => false

theorem Store.memory_of_holdsOnly {s : Store} {name : String} {n : Int64}
    (h : s.holdsOnly name n = true) : s.memory = [(name, .integer n)] := by
  rw [holdsOnly] at h
  split at h
  · next name' n' hmemory =>
    rw [Bool.and_eq_true, beq_iff_eq, beq_iff_eq] at h
    rw [hmemory, h.1, h.2]
  · cases h

theorem run_listing_of_countdown : ∃ c m,
    compileText 30
      "PROGRAM p; VAR n : INTEGER; BEGIN n := -2; REPEAT n := n + 1 UNTIL n >= 0 END." = .ok c ∧
    c.listing.lines = ["n: .word INTEGER", "< PUSHI 2 >", "< NEG 2 >", "< MOV n -2 >",
      "< MOV $ra 43 >", "< PUSH n >", "< PUSHI 1 >", "< ADD -2 1 >", "<POP>", "< MOV n -1 >",
      "< PUSH n >", "< JGE 43 >", "< PUSHI 0 >", "< PUSH n >", "< PUSHI 1 >", "< ADD -1 1 >",
      "<POP>", "< MOV n 0 >", "< PUSH n >", "< JGE 43 >", "< PUSHI 0 >"] ∧
    Machine.empty.run c.listing.toList = some m ∧
    (∀ name v, m.memory name = some v ↔ name = "n" ∧ v = .integer 0) ∧ m.stack.length = 4 := by
  have hruns : (compileText 30
      "PROGRAM p; VAR n : INTEGER; BEGIN n := -2; REPEAT n := n + 1 UNTIL n >= 0 END.").toOption.map
        (fun c ↦ (c.listing.lines, c.store.holdsOnly "n" 0,
          c.listing.toList.countP Instruction.isJump)) =
      some (["n: .word INTEGER", "< PUSHI 2 >", "< NEG 2 >", "< MOV n -2 >", "< MOV $ra 43 >",
        "< PUSH n >", "< PUSHI 1 >", "< ADD -2 1 >", "<POP>", "< MOV n -1 >", "< PUSH n >",
        "< JGE 43 >", "< PUSHI 0 >", "< PUSH n >", "< PUSHI 1 >", "< ADD -1 1 >", "<POP>",
        "< MOV n 0 >", "< PUSH n >", "< JGE 43 >", "< PUSHI 0 >"], true, 2) := by
    decide +kernel
  obtain ⟨c, hc, heq⟩ := exists_compiled_of_map hruns
  simp only [Prod.mk.injEq] at heq
  obtain ⟨hlines, hmemory, hjumps⟩ := heq
  obtain ⟨m, hrun, hvalues, hlength⟩ := run_listing_of_compileText hc
  refine ⟨c, m, hc, hlines, hrun, fun name v ↦ ?_, ?_⟩
  · rw [hvalues, Store.memory_of_holdsOnly hmemory, List.mem_singleton, Prod.mk.injEq]
  · rw [hlength, hjumps]

end MiniPascal
