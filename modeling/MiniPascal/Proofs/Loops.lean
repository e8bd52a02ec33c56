import MiniPascal.Proofs.Meaning
import MiniPascal.Proofs.Typing

/-!
# Loops after their first pass

Statements are executed by productions that call each other, and a fault in one of them is the fault
of all that are under way. `Activation.Calls` says which calls an activation of a production makes,
and `Activation.Runs` which activations a text leads to.

If a pass of a loop has been completed, then whatever follows in the same activation of the loop can
fail by its arithmetic only. Its text was read to the end, and it is read from the same place again;
its tree was run to the end, so it is checked. Inner loops may take another number of passes each
time.
-/

namespace MiniPascal

open Grammar

/-! ## Activations -/

/-- The productions of statements. -/
inductive Production where
  | statement
  | compound
  | statements
  | moreStatements
  | passes (address : Nat)

/-- The execution of a production. -/
def Production.run : Production → Nat → Execution Unit
  | .statement, n => Execution.statement n
  | .compound, n => Execution.compound n
  | .statements, n => Execution.statements n
  | .moreStatements, n => Execution.moreStatements n
  | .passes address, n => Execution.passes n address

/-- A production with the fuel that it is given and the state in which it begins. -/
structure Activation where
  production : Production
  fuel : Nat
  state : State

namespace Activation

open Execution

/-- An activation comes to the start of another. -/
inductive Calls : Activation → Activation → Prop
  | ofCompound {n : Nat} {s s' : State} {place : Span}
    (h : (expect (.keyword .blockBegin)).run s = .ok place s') :
    Calls ⟨.compound, n + 1, s⟩ ⟨.statements, n, s'⟩
  | first {n : Nat} {s : State} : Calls ⟨.statements, n + 1, s⟩ ⟨.statement, n, s⟩
  | more {n : Nat} {s s' : State} (h : (statement n).run s = .ok () s') :
    Calls ⟨.statements, n + 1, s⟩ ⟨.moreStatements, n, s'⟩
  | second {n : Nat} {s s' : State} (ht : s.current.token = .symbol .semicolon)
    (h : step.run s = .ok () s') : Calls ⟨.moreStatements, n + 1, s⟩ ⟨.statement, n, s'⟩
  | others {n : Nat} {s s₁ s' : State} (ht : s.current.token = .symbol .semicolon)
    (h : step.run s = .ok () s₁) (h' : (statement n).run s₁ = .ok () s') :
    Calls ⟨.moreStatements, n + 1, s⟩ ⟨.moreStatements, n, s'⟩
  | compound {n : Nat} {s : State} (ht : s.current.token = .keyword .blockBegin) :
    Calls ⟨.statement, n + 1, s⟩ ⟨.compound, n, s⟩
  | loop {n address : Nat} {s s' : State} (ht : s.current.token = .keyword .loopRepeat)
    (h : markLoop.run s = .ok address s') : Calls ⟨.statement, n + 1, s⟩ ⟨.passes address, n, s'⟩
  | ofPass {n address : Nat} {s s' : State} {place : Span}
    (h : (expect (.keyword .loopRepeat)).run s = .ok place s') :
    Calls ⟨.passes address, n + 1, s⟩ ⟨.statements, n, s'⟩
  | again {n address : Nat} {s s₁ s' : State} (h : (pass n address).run s = .ok false s₁)
    (h' : (rewind address).run s₁ = .ok () s') :
    Calls ⟨.passes address, n + 1, s⟩ ⟨.passes address, n, s'⟩

/-- Compiling a text leads to an activation. -/
inductive Runs (fuel : Nat) (source : String) : Activation → Prop
  | body {s₀ s : State} {name : String} (hstart : State.start (.ofString source) = .ok s₀)
    (h : (heading fuel).run s₀ = .ok name s) : Runs fuel source ⟨.compound, fuel, s⟩
  | call {x y : Activation} (h : Runs fuel source x) (h' : Calls x y) : Runs fuel source y

/-- The execution that an activation stands for. -/
def run (x : Activation) : EStateM.Result Halt State Unit :=
  (x.production.run x.fuel).run x.state

variable {x y : Activation} {fuel : Nat} {source : String}

/-! ## Halting -/

/-- What halts an activation halts its caller. -/
theorem Calls.halt (h : Calls x y) {e : Halt} {s : State} (hy : y.run = .error e s) :
    x.run = .error e s := by
  cases h with
  | ofCompound h =>
    rw [run, Production.run, Execution.compound]
    exact (run_bind_of_ok h).trans (run_bind_of_error hy)
  | first =>
    rw [run, Production.run, Execution.statements]
    exact run_bind_of_error hy
  | more h =>
    rw [run, Production.run, Execution.statements]
    exact (run_bind_of_ok h).trans hy
  | second ht h =>
    rw [run, Production.run, Execution.moreStatements, run_current_bind, ht]
    exact (run_bind_of_ok h).trans (run_bind_of_error hy)
  | others ht h h' =>
    rw [run, Production.run, Execution.moreStatements, run_current_bind, ht]
    exact (run_bind_of_ok h).trans ((run_bind_of_ok h').trans hy)
  | compound ht =>
    rw [run, Production.run, Execution.statement, run_current_bind, ht]
    exact hy
  | loop ht h =>
    rw [run, Production.run, Execution.statement, run_current_bind, ht]
    exact (run_bind_of_ok h).trans hy
  | ofPass h =>
    rw [run, Production.run, Execution.passes]
    exact (run_bind_of_ok h).trans (run_bind_of_error hy)
  | again h h' =>
    rw [run, Production.run, passes_succ]
    exact (run_bind_of_ok h).trans ((run_bind_of_ok h').trans hy)

/-- What halts an activation halts the whole run. -/
theorem Runs.halt (h : Runs fuel source x) {e : Halt} {s : State} (hx : x.run = .error e s) :
    compileText fuel source = .error e := by
  induction h with
  | body hstart h =>
    rw [compileText_of_start fuel hstart, result_eq_error_iff, program_eq_outline, outline]
    simp only [bind_assoc]
    exact ⟨s, (run_bind_of_ok h).trans (run_bind_of_error hx)⟩
  | call _ h' ih => exact ih (h'.halt hx)

/-! ## Where activations begin -/

/-- An activation begins at a position of the text, with variables that are in order, and the
address of a loop is that of the position. -/
def Begins (source : List Placed) (x : Activation) : Prop :=
  x.state.store.WellFormed ∧ ∃ p, x.state.At source p ∧
    ∀ address, x.production = .passes address → address = charsBefore source p.current.span.start

end Activation

namespace Execution

variable {source : List Placed} {s s₁ s' : State} {p : Position} {n : Nat}

theorem evolves_of_progress (h : s'.progress = s.progress) : s.store.Evolves s'.store := by
  have hstore : s'.store = s.store := congrArg Progress.store h
  rw [hstore]
  exact .refl _

/-- A statement that is executed leads on in the text and lets the variables evolve. -/
theorem evolves_of_statement (hsource : source.Pairwise fun p q ↦ p.offset < q.offset)
    (h : s.At source p) (hs : (statement n).run s = .ok () s') :
    (∃ q, s'.At source q) ∧ s.store.Evolves s'.store := by
  obtain ⟨t, q, ht, hat⟩ := ((follows_statement hsource n).1 s p h).of_ok hs
  obtain ⟨-, -, m, hm⟩ := ((refines_statement hsource n).1 s p q t h ht).ok ⟨trivial, n, hs⟩
  exact ⟨⟨q, hat⟩, Statement.evolves_run hm⟩

/-- A pass that is completed is that of a tree, and so are the passes that follow. -/
theorem exists_loop_of_pass (hsource : source.Pairwise fun p q ↦ p.offset < q.offset)
    (h : s.At source p) {done : Bool}
    (hs : (pass n (charsBefore source p.current.span.start)).run s = .ok done s₁) :
    let address := charsBefore source p.current.span.start
    ∃ (body : Statement) (condition : Condition) (q : Position) (m : Nat) (r : Progress),
      (body.run (charsBefore source) m).run s.progress = .ok () r ∧
      (condition.run address).run r = .ok done s₁.progress ∧
      (∃ s', (rewind address).run s₁ = .ok () s' ∧ s'.At source p ∧ s'.progress = s₁.progress) ∧
      ∀ s', s'.At source p → Refines source (fun n ↦ passes n address)
        (Interpreter.repeatUntil fun n ↦ do
          body.run (charsBefore source) n
          condition.run address) s' q := by
  intro address
  obtain ⟨t, q, ht, hat⟩ := (follows_pass address (follows_statement hsource n).2.2.1 h).of_ok hs
  obtain ⟨body, condition, -, hrefines⟩ :=
    refines_loop hsource ht (refines_statement hsource n).2.2.1
  obtain ⟨-, -, m, hm⟩ := (hrefines s h).1.ok ⟨trivial, n, hs⟩
  obtain ⟨_, r, hbody, hcondition⟩ := run_bind_eq_ok_iff.1 hm
  have hend : p.current.token ≠ .endOfInput := by
    rw [Parser.loop_token ht]
    exact nofun
  exact ⟨body, condition, q, m, r, hbody, hcondition, h.rewind hsource hend hat.1,
    fun s' hs' ↦ (hrefines s' hs').2⟩

end Execution

namespace Activation

open Execution

variable {x y : Activation} {fuel : Nat}

/-- **One call.** Activations that begin in order make calls that do. -/
theorem Calls.begins {source : List Placed}
    (hsource : source.Pairwise fun p q ↦ p.offset < q.offset) (h : Calls x y)
    (hx : x.Begins source) : y.Begins source := by
  obtain ⟨hwf, p, hat, haddress⟩ := hx
  cases h with
  | ofCompound h =>
    obtain ⟨q, hq, hprogress⟩ := hat.of_expect h
    exact ⟨(evolves_of_progress hprogress).wellFormed hwf, q, hq, nofun⟩
  | first => exact ⟨hwf, p, hat, nofun⟩
  | more h =>
    obtain ⟨⟨q, hq⟩, hevolves⟩ := evolves_of_statement hsource hat h
    exact ⟨hevolves.wellFormed hwf, q, hq, nofun⟩
  | second ht h =>
    obtain ⟨q, hq, hprogress⟩ := hat.of_step h
    exact ⟨(evolves_of_progress hprogress).wellFormed hwf, q, hq, nofun⟩
  | others ht h h' =>
    obtain ⟨q, hq, hprogress⟩ := hat.of_step h
    obtain ⟨⟨q', hq'⟩, hevolves⟩ := evolves_of_statement hsource hq h'
    exact ⟨((evolves_of_progress hprogress).trans hevolves).wellFormed hwf, q', hq', nofun⟩
  | compound ht => exact ⟨hwf, p, hat, nofun⟩
  | loop ht h =>
    have hmark := run_markLoop hsource hat.1
    rw [hat.current_eq] at hmark
    cases h.symm.trans hmark
    refine ⟨hwf, p, hat.congr rfl rfl, fun _ h ↦ ?_⟩
    cases h
    rfl
  | ofPass h =>
    obtain ⟨q, hq, hprogress⟩ := hat.of_expect h
    exact ⟨(evolves_of_progress hprogress).wellFormed hwf, q, hq, nofun⟩
  | again h h' =>
    -- by its address the loop comes back to the position from which this pass was read
    obtain rfl := haddress _ rfl
    obtain ⟨body, c, q, m, r, hbody, hc, ⟨s', hs', hat', hprogress⟩, -⟩ :=
      exists_loop_of_pass hsource hat h
    cases h'.symm.trans hs'
    have hevolves := Statement.evolves_run hbody
    rw [← Condition.store_run hc] at hevolves
    refine ⟨(hevolves.trans (evolves_of_progress hprogress)).wellFormed hwf, p, hat', fun _ h ↦ ?_⟩
    cases h
    rfl

/-- The first statement begins in order. -/
theorem begins_body {source : String} {s₀ s : State} {name : String}
    (hstart : State.start (.ofString source) = .ok s₀) (h : (heading fuel).run s₀ = .ok name s) :
    Begins (Placed.ofString source) ⟨.compound, fuel, s⟩ := by
  rcases State.start_cases (.ofString source) with ⟨f, hf, -⟩ | ⟨s', p, hs', hat, hempty, -⟩
  · cases hstart.symm.trans hf
  · cases hstart.symm.trans hs'
    obtain ⟨_, s₁, hkeyword, h⟩ := run_bind_eq_ok_iff.1 h
    obtain ⟨_, s₂, hname, h⟩ := run_bind_eq_ok_iff.1 h
    obtain ⟨_, s₃, hsemicolon, h⟩ := run_bind_eq_ok_iff.1 h
    obtain ⟨_, s₄, hdeclarations, hpure⟩ := run_bind_eq_ok_iff.1 h
    cases hpure
    obtain ⟨p₁, h₁, hprogress₁⟩ := hat.of_expect hkeyword
    obtain ⟨p₂, h₂, hprogress₂⟩ := h₁.of_identifier hname
    obtain ⟨p₃, h₃, hprogress₃⟩ := h₂.of_expect hsemicolon
    obtain ⟨gs, p₄, hp₄, h₄⟩ := (follows_declarations fuel h₃).of_ok hdeclarations
    have hperforms := performs_declarations h₃ hp₄
    rw [hdeclarations, hprogress₃, hprogress₂, hprogress₁, hempty] at hperforms
    exact ⟨(declareAll_run hperforms.of_ok).2 Store.wellFormed_empty, p₄, h₄, nofun⟩

/-- **All calls.** -/
theorem Runs.begins {source : String} (h : Runs fuel source x) :
    x.Begins (Placed.ofString source) := by
  induction h with
  | body hstart h => exact begins_body hstart h
  | call _ h' ih => exact h'.begins (Placed.pairwise_ofString source) ih

end Activation

/-! ## After a pass -/

open Execution in
/-- **After its first pass a loop can fail only by its arithmetic.** Whenever compiling a text comes
to a loop, one of its passes is completed without the loop being done, and what follows in the loop
halts with a fault, then that is the fault of the text, and it is one of the arithmetic. -/
theorem arithmetic_of_fault_after_pass {fuel n address : Nat} {source : String} {s s₁ s' : State}
    {f : Fault} (h : Activation.Runs fuel source ⟨.passes address, n + 1, s⟩)
    (hpass : (pass n address).run s = .ok false s₁)
    (hfault : (rewind address >>= fun _ ↦ passes n address).run s₁ = .error (.fault f) s') :
    compileText fuel source = .error (.fault f) ∧ ∃ g, f.cause = .arithmetic g := by
  constructor
  · refine h.halt (s := s') ?_
    rw [Activation.run, Production.run, passes_succ]
    exact (run_bind_of_ok hpass).trans hfault
  · have hsource := Placed.pairwise_ofString source
    obtain ⟨hwf, p, hat, haddress⟩ := h.begins
    obtain rfl := haddress _ rfl
    obtain ⟨body, c, q, m, r, hbody, hc, ⟨s₂, hs₂, hat₂, hprogress⟩, hrefines⟩ :=
      exists_loop_of_pass hsource hat hpass
    -- from here on the fault is one of the interpreter, on a loop that has completed a pass
    rw [run_bind_of_ok hs₂] at hfault
    obtain ⟨-, k, hk⟩ := (hrefines s₂ hat₂).fault ⟨trivial, n, hfault⟩
    rw [hprogress] at hk
    exact Statement.atMostArithmetic_after_pass hbody hc hwf hk

namespace Execution

theorem runs_of_untilSecondStatement {n : Nat} {source : String} {s₀ s : State}
    (hstart : State.start (.ofString source) = .ok s₀)
    (h : (untilSecondStatement n).run s₀ = .ok () s) :
    Activation.Runs (n + 3) source ⟨.statement, n, s⟩ := by
  obtain ⟨_, s₁, hfirst, h⟩ := run_bind_eq_ok_iff.1 h
  obtain ⟨_, s₂, hsemicolon, hpure⟩ := run_bind_eq_ok_iff.1 h
  cases hpure
  obtain ⟨name, s₃, hheading, hfirst⟩ := run_bind_eq_ok_iff.1 hfirst
  obtain ⟨_, s₄, hbegin, hfirst⟩ := run_bind_eq_ok_iff.1 hfirst
  obtain ⟨hseparator, -, hstep⟩ := run_expect_eq_ok hsemicolon
  exact (((Activation.Runs.body hstart hheading).call (.ofCompound hbegin)).call
    (.more hfirst)).call (.second (Token.same_symbol_iff.1 hseparator) hstep)

/-- The first pass of a loop: its opening token, its address, and whether it is done. -/
def firstPass (n : Nat) : Execution (Token × Nat × Bool) := do
  let opening ← current
  let address ← markLoop
  let done ← pass n address
  return (opening.token, address, done)

/-- Whether a loop halts with a fault after a first pass that was not the last. -/
def failsAfter (n : Nat) : Token × Nat × Bool → State → Bool
  | (.keyword .loopRepeat, address, false), s =>
    match (rewind address >>= fun _ ↦ passes n address).run s with
    | .error (.fault _) _ => true
    | _ => false
  | _, _ => false

theorem exists_of_failsAfter {n : Nat} {first : Token × Nat × Bool} {s : State}
    (h : failsAfter n first s = true) :
    ∃ address f s', first = (.keyword .loopRepeat, address, false) ∧
      (rewind address >>= fun _ ↦ passes n address).run s = .error (.fault f) s' := by
  unfold failsAfter at h
  split at h
  · next address =>
    split at h
    · next f s' hfault => exact ⟨address, f, s', rfl, hfault⟩
    · cases h
  · cases h

end Execution

open Execution in
theorem arithmetic_of_fault_in_second_pass : ∃ n address s s₁ s' f,
    Activation.Runs (n + 5)
      "PROGRAM p; VAR n : INTEGER; BEGIN n := 1; REPEAT n := 2 DIV n - 2 UNTIL n = 1 END."
      ⟨.passes address, n + 1, s⟩ ∧
    (pass n address).run s = .ok false s₁ ∧
    (rewind address >>= fun _ ↦ passes n address).run s₁ = .error (.fault f) s' ∧
    compileText (n + 5)
      "PROGRAM p; VAR n : INTEGER; BEGIN n := 1; REPEAT n := 2 DIV n - 2 UNTIL n = 1 END." =
      .error (.fault f) ∧
    ∃ g, f.cause = .arithmetic g := by
  have hfails : (untilSecondStatement 17 >>= fun _ ↦ firstPass 15).succeeds
      "PROGRAM p; VAR n : INTEGER; BEGIN n := 1; REPEAT n := 2 DIV n - 2 UNTIL n = 1 END."
      (failsAfter 15) := by
    decide +kernel
  obtain ⟨s₀, first, s₁, hstart, hfirst, hfails⟩ := exists_of_succeeds hfails
  obtain ⟨address, f, s', rfl, hfault⟩ := exists_of_failsAfter hfails
  obtain ⟨_, s₂, hs₂, hfirst⟩ := run_bind_eq_ok_iff.1 hfirst
  rw [firstPass, run_current_bind] at hfirst
  obtain ⟨address', s, hmark, hfirst⟩ := run_bind_eq_ok_iff.1 hfirst
  obtain ⟨done, s₃, hpass, hfirst⟩ := run_bind_eq_ok_iff.1 hfirst
  obtain ⟨htokens, rfl⟩ := EStateM.Result.ok.inj hfirst
  simp only [Prod.mk.injEq] at htokens
  obtain ⟨hrepeat, rfl, rfl⟩ := htokens
  have hruns := (runs_of_untilSecondStatement hstart hs₂).call (.loop hrepeat hmark)
  exact ⟨15, address', s, s₃, s', f, hruns, hpass, hfault,
    arithmetic_of_fault_after_pass hruns hpass hfault⟩

end MiniPascal
