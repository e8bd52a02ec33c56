import MiniPascal.Proofs.Meaning
import MiniPascal.Proofs.Plans

/-!
# Calls

A task is a production, or the passes of a loop. Running the plan of a task comes to the start of
other tasks, one after the other (`Plan.Comes`), and the tasks that compiling a text comes to are
those that are reached by such calls and by the way back to the start of a loop (`Reached`). All
that stands in front of a task that is reached has been completed, so a text reaches its tasks in
one way only.

A fault is reported by one of the tasks that are reached, in a part of its own plan
(`Reached.exists_fails`).
-/

namespace MiniPascal

open Execution

variable {α β : Type}

/-! ## Loops -/

namespace Execution

variable {s s' : State} {n address : Nat}

/-- A pass that is completed starts with `REPEAT`. -/
theorem token_of_pass {done : Bool} (h : (pass n address).run s = .ok done s') :
    s.current.token = .keyword .loopRepeat := by
  obtain ⟨_, s₁, hexpect, -⟩ := run_bind_eq_ok_iff.1 h
  exact Token.same_keyword_iff.1 (run_expect_eq_ok hexpect).1

theorem token_of_passes (h : (passes n address).run s = .ok () s') :
    s.current.token = .keyword .loopRepeat := by
  cases n with
  | zero => cases h
  | succ n =>
    rw [passes_succ] at h
    obtain ⟨done, s₁, hpass, -⟩ := run_bind_eq_ok_iff.1 h
    exact token_of_pass hpass

end Execution

/-! ## Tasks -/

/-- What is called: a production, or the passes of the loop at an address. -/
inductive Task where
  | routine (r : Routine)
  | passes (address : Nat)

namespace Task

/-- What a task gives. -/
def Result : Task → Type
  | routine r => r.Result
  | passes _ => Unit

/-- The execution of a task. -/
def run (n : Nat) : (t : Task) → Execution t.Result
  | routine r => r.run n
  | passes address => Execution.passes n address

end Task

/-- A task and the state in which it begins. -/
structure Invocation where
  task : Task
  state : State

/-- What comes of a task. -/
def Invocation.run (n : Nat) (x : Invocation) : EStateM.Result Halt State x.task.Result :=
  (x.task.run n).run x.state

/-- Running the plan comes to the start of a task; all that stands in front of it has been
completed. -/
inductive Plan.Comes : Plan α → State → Invocation → Prop
  | call {r : Routine} {k : r.Result → Plan α} {s : State} :
    Comes (.call r k) s ⟨.routine r, s⟩
  | loop {a : α} {s s' : State} {address : Nat} (h : markLoop.run s = .ok address s') :
    Comes (.loop a) s ⟨.passes address, s'⟩
  | afterLook {β : Type} {x : Execution β} {hx : Settles x} {hstill : Still x} {k : β → Plan α}
    {s s' : State} {b : β} {y : Invocation} (h : x.run s = .ok b s') (hk : Comes (k b) s' y) :
    Comes (.look x hx hstill k) s y
  | afterTake {β : Type} {x : Execution β} {hx : Settles x} {htakes : TakesToken x}
    {k : β → Plan α} {s s' : State} {b : β} {y : Invocation} (h : x.run s = .ok b s')
    (hk : Comes (k b) s' y) : Comes (.take x hx htakes k) s y
  | afterCall {r : Routine} {k : r.Result → Plan α} {s s' : State} {v : r.Result} {y : Invocation}
    (h : Yields (fun n ↦ r.run n) s (.ok v s')) (hk : Comes (k v) s' y) : Comes (.call r k) s y

namespace Plan.Comes

variable {s : State} {y : Invocation}

/-! What stands in front of a task, part by part. -/

theorem of_look {x : Execution β} {hx : Settles x} {hstill : Still x} {k : β → Plan α}
    (h : (Plan.look x hx hstill k).Comes s y) :
    ∃ b s', x.run s = .ok b s' ∧ (k b).Comes s' y := by
  cases h with
  | afterLook h hk => exact ⟨_, _, h, hk⟩

theorem of_take {x : Execution β} {hx : Settles x} {htakes : TakesToken x} {k : β → Plan α}
    (h : (Plan.take x hx htakes k).Comes s y) :
    ∃ b s', x.run s = .ok b s' ∧ (k b).Comes s' y := by
  cases h with
  | afterTake h hk => exact ⟨_, _, h, hk⟩

theorem of_call {r : Routine} {k : r.Result → Plan α} (h : (Plan.call r k).Comes s y) :
    y = ⟨.routine r, s⟩ ∨
      ∃ v s', Yields (fun n ↦ r.run n) s (.ok v s') ∧ (k v).Comes s' y := by
  cases h with
  | call => exact .inl rfl
  | afterCall h hk => exact .inr ⟨_, _, h, hk⟩

/-- The productions that a plan comes to are those that it calls. -/
theorem routine {P : (β : Type) → Execution β → Prop} {C : Routine → Prop} {plan : Plan α}
    (h : plan.Comes s y) (hplan : plan.All P C) {r : Routine} (hr : y.task = .routine r) : C r := by
  induction h with
  | call =>
    cases hr
    exact hplan.1
  | loop _ => cases hr
  | afterLook _ _ ih => exact ih (hplan.2 _) hr
  | afterTake _ _ ih => exact ih (hplan.2 _) hr
  | afterCall _ _ ih => exact ih (hplan.2 _) hr

end Plan.Comes

namespace Invocation

/-- One task calls another, before the scanner goes back. A loop calls what its next pass calls. -/
inductive Calls : Invocation → Invocation → Prop
  | routine {r : Routine} {s : State} {y : Invocation} (h : r.plan.Comes s y) :
    Calls ⟨.routine r, s⟩ y
  | passes {address : Nat} {s : State} {y : Invocation} (h : (Plan.pass address).Comes s y) :
    Calls ⟨.passes address, s⟩ y

/-- A pass of a loop has been completed, the condition does not hold, and the scanner has gone back
for the next pass. -/
inductive Again : Invocation → Invocation → Prop
  | intro {address : Nat} {s s₁ s' : State}
    (hpass : Yields (fun n ↦ Execution.pass n address) s (.ok false s₁))
    (hback : (rewind address).run s₁ = .ok () s') :
    Again ⟨.passes address, s⟩ ⟨.passes address, s'⟩

variable {x y : Invocation}

theorem Again.task_eq (h : x.Again y) : y.task = x.task := by
  cases h with
  | intro hpass hback => rfl

theorem Again.token_eq (h : x.Again y) : x.state.current.token = .keyword .loopRepeat := by
  cases h with
  | intro hpass hback =>
    obtain ⟨-, n, hn⟩ := hpass
    exact token_of_pass hn

end Invocation

/-- Compiling a text comes to the start of a task. -/
inductive Reached (source : String) : Invocation → Prop
  | start {s : State} {y : Invocation} (hstart : State.start (.ofString source) = .ok s)
    (h : Plan.program.Comes s y) : Reached source y
  | call {x y : Invocation} (hx : Reached source x) (h : x.Calls y) : Reached source y
  | again {x y : Invocation} (hx : Reached source x) (h : x.Again y) : Reached source y

theorem Reached.of_chain {source : String} {x y : Invocation} (hx : Reached source x)
    (h : Relation.TransGen Invocation.Calls x y) : Reached source y := by
  induction h with
  | single h => exact hx.call h
  | tail _ h ih => exact ih.call h

/-! ## The first statements of a program -/

section

variable {source : String} {s₀ s s' : State} {n : Nat}

theorem Plan.comes_of_heading {name : String} (h : (heading n).run s₀ = .ok name s) :
    Plan.program.Comes s₀ ⟨.routine .compound, s⟩ := by
  obtain ⟨_, s₁, hprogram, h⟩ := run_bind_eq_ok_iff.1 h
  obtain ⟨⟨name, place⟩, s₂, hname, h⟩ := run_bind_eq_ok_iff.1 h
  obtain ⟨_, s₃, hsemicolon, h⟩ := run_bind_eq_ok_iff.1 h
  obtain ⟨_, s₄, hdeclarations, hpure⟩ := run_bind_eq_ok_iff.1 h
  cases hpure
  refine .afterTake hprogram (.afterTake hname (.afterTake hsemicolon (.afterLook rfl ?_)))
  rw [declarations, run_current_bind] at hdeclarations
  split
  · next hvar =>
    rw [hvar] at hdeclarations
    obtain ⟨_, s₅, hvar, hgroups⟩ := run_bind_eq_ok_iff.1 hdeclarations
    exact .afterTake hvar (.afterCall ⟨trivial, n, hgroups⟩ .call)
  · next hvar =>
    have hnone : s₃ = s := by
      split at hdeclarations
      · next htoken => exact absurd htoken hvar
      · cases hdeclarations
        rfl
    rw [hnone]
    exact .call

/-- Behind its first statement, a program comes to the others. -/
theorem Reached.of_firstStatement (hstart : State.start (.ofString source) = .ok s₀)
    (h : (firstStatement n).run s₀ = .ok () s) :
    ∃ t, Reached source ⟨.routine .compound, t⟩ ∧
      Relation.TransGen Invocation.Calls ⟨.routine .compound, t⟩ ⟨.routine .moreStatements, s⟩ := by
  obtain ⟨name, t, hheading, h⟩ := run_bind_eq_ok_iff.1 h
  obtain ⟨_, s₁, hbegin, hstatement⟩ := run_bind_eq_ok_iff.1 h
  have hmore : Plan.statements.Comes s₁ ⟨.routine .moreStatements, s⟩ :=
    .afterCall (r := .statement) ⟨trivial, n, hstatement⟩ .call
  refine ⟨t, .start hstart (Plan.comes_of_heading hheading), ?_⟩
  exact (Relation.TransGen.single (.routine (.afterTake hbegin .call))).tail
    (.routine (r := .statements) hmore)

/-- Behind a semicolon stand other statements. -/
theorem Plan.comes_of_semicolon {place : Span} {y : Invocation}
    (h : (Execution.expect (.symbol .semicolon)).run s = .ok place s')
    (hy : Plan.statements.Comes s' y) : Plan.moreStatements.Comes s y := by
  obtain ⟨hsame, -, hstep⟩ := run_expect_eq_ok h
  have htoken := Token.same_symbol_iff.1 hsame
  have htake : Execution.takeAny.run s = .ok () s' := by
    rw [run_takeAny_of_ne (by simp [htoken]), hstep]
  refine .afterLook rfl ?_
  rw [htoken]
  exact .afterTake htake hy

theorem Reached.of_untilSecondStatement (hstart : State.start (.ofString source) = .ok s₀)
    (h : (untilSecondStatement n).run s₀ = .ok () s) :
    Reached source ⟨.routine .statement, s⟩ := by
  obtain ⟨_, s₁, hfirst, h⟩ := run_bind_eq_ok_iff.1 h
  obtain ⟨_, s₂, hsemicolon, hpure⟩ := run_bind_eq_ok_iff.1 h
  cases hpure
  obtain ⟨t, hreached, hchain⟩ := Reached.of_firstStatement hstart hfirst
  exact (hreached.of_chain hchain).call
    (.routine (r := .moreStatements) (Plan.comes_of_semicolon hsemicolon .call))

end

/-! ## Rank -/

/-- The order of the tasks: before it has taken a token, a task calls only those below it. -/
def Task.rank : Task → Nat
  | .routine .groups => 11
  | .routine .moreNames => 10
  | .routine .statements => 9
  | .routine .moreStatements => 8
  | .routine .statement => 7
  | .routine .compound => 6
  | .passes _ => 5
  | .routine .expression => 4
  | .routine (.sums _) => 3
  | .routine .term => 2
  | .routine (.products _) => 1
  | .routine .factor => 0

theorem Task.rank_lt_twelve (t : Task) : t.rank < 12 := by
  rcases t with r | address
  · cases r <;> simp [rank]
  · simp [rank]

/-- Before it has taken a token, the plan calls only tasks below a rank. -/
def Plan.Below (k : Nat) : Plan α → Prop
  | .finish _ _ _ => True
  | .look _ _ _ rest => ∀ b, (rest b).Below k
  | .take _ _ _ _ => True
  | .call r rest => (Task.routine r).rank < k ∧ ∀ v, (rest v).Below k
  | .loop _ => ∀ address, (Task.passes address).rank < k

theorem Routine.below_plan (r : Routine) : r.plan.Below (Task.routine r).rank := by
  cases r with
  | moreNames =>
    intro here
    dsimp only
    split <;> trivial
  | groups => trivial
  | statement =>
    intro here
    dsimp only
    split
    · exact ⟨by decide, fun _ ↦ trivial⟩
    · trivial
    · exact fun address ↦ Nat.lt_of_sub_eq_succ rfl
    · trivial
  | compound => trivial
  | statements => exact ⟨by decide, fun _ ↦ ⟨by decide, fun _ ↦ trivial⟩⟩
  | moreStatements =>
    intro here
    dsimp only
    split <;> trivial
  | expression => exact ⟨by decide, fun v ↦ ⟨Nat.lt_of_sub_eq_succ rfl, fun _ ↦ trivial⟩⟩
  | sums left =>
    intro here
    dsimp only
    split <;> trivial
  | term => exact ⟨by decide, fun v ↦ ⟨Nat.lt_of_sub_eq_succ rfl, fun _ ↦ trivial⟩⟩
  | products left =>
    intro here
    dsimp only
    split <;> trivial
  | factor =>
    intro here
    dsimp only
    split
    · trivial
    · trivial
    · exact fun _ ↦ trivial
    · exact fun _ ↦ trivial
    · trivial
    · exact fun _ ↦ trivial
    · trivial

/-! ## What is preserved -/

/-- Where the execution succeeds, it has preserved the property of the state. -/
def Preserves (I : State → Prop) (x : Execution α) : Prop :=
  ∀ s a s', I s → x.run s = .ok a s' → I s'

/-- The address of a loop that begins in a state with the property. -/
def LoopAddress (I : State → Prop) (address : Nat) : Prop :=
  ∃ s, I s ∧ s.current.token = .keyword .loopRepeat ∧
    address = s.scanner.charIndex s.current.span.start

namespace Preserves

variable {I : State → Prop}

theorem bind {x : Execution α} {f : α → Execution β} (hx : Preserves I x)
    (hf : ∀ a, Preserves I (f a)) : Preserves I (x >>= f) := by
  intro s b s' hs h
  obtain ⟨a, s₁, ha, hb⟩ := run_bind_eq_ok_iff.1 h
  exact hf a s₁ b s' (hx s a s₁ hs ha) hb

theorem pure (a : α) : Preserves I (Pure.pure a) := by
  rintro s _ s' hs ⟨⟩
  exact hs

theorem of_fails {x : Execution α} (h : ∀ s, ∃ e s', x.run s = .error e s') :
    Preserves I x := by
  intro s a s' _ hs
  obtain ⟨e, s₁, he⟩ := h s
  cases he.symm.trans hs

end Preserves

/-- A property of states that all parts of plans preserve, and the way back to a loop too. -/
structure Invariant (I : State → Prop) : Prop where
  part {β : Type} {x : Execution β} (h : Primitive True True β x) : Preserves I x
  rewind {address : Nat} (h : LoopAddress I address) : Preserves I (rewind address)

namespace Invariant

variable {I : State → Prop} {computes declares : Prop} {C : Routine → Prop}

theorem markLoop (h : Invariant I) : Preserves I Execution.markLoop := by
  rintro s _ s' hs ⟨⟩
  exact h.part (.emit (.markLoop (s.scanner.charIndex s.current.span.start))) s () _ hs rfl

/-- A loop that succeeds begins with `REPEAT`, so its address is that of a loop. -/
theorem compositional (h : Invariant I) :
    Compositional (fun _ ↦ Preserves I) (LoopAddress I) where
  outOfFuel := .of_fails fun s ↦ ⟨_, s, rfl⟩
  pure := .pure
  bind := .bind
  rewind := h.rewind
  loop := by
    intro n hpasses s a s' hs hloop
    obtain ⟨address, s₁, hmark, hloop⟩ := run_bind_eq_ok_iff.1 hloop
    have hs₁ := h.markLoop s address s₁ hs hmark
    have htoken := token_of_passes hloop
    cases hmark
    exact hpasses _ ⟨s, hs, htoken, rfl⟩ _ a s' hs₁ hloop

theorem all (h : Invariant I) {plan : Plan α} (hplan : plan.All (Primitive computes declares) C) :
    plan.All (fun _ ↦ Preserves I) fun _ ↦ True :=
  hplan.mono (fun _ _ hx ↦ h.part (hx.mono (fun _ ↦ trivial) fun _ ↦ trivial)) fun _ _ ↦ trivial

/-- **The productions preserve what their parts do.** -/
theorem run (h : Invariant I) (n : Nat) : (∀ r : Routine, Preserves I (r.run n)) ∧
    ∀ address, LoopAddress I address → Preserves I (passes n address) := by
  obtain ⟨hroutines, hpasses⟩ := h.compositional.run (fun r (_ : True) ↦ h.all r.all_plan)
    (fun address ↦ h.all (Plan.all_pass address)) n
  exact ⟨fun r ↦ hroutines r trivial, hpasses⟩

theorem pass (h : Invariant I) (n address : Nat) : Preserves I (Execution.pass n address) := by
  rw [Plan.pass_eq]
  exact h.compositional.run_plan (fun r _ ↦ (h.run n).1 r) (h.run n).2
    (h.all (Plan.all_pass address))

/-- What a plan comes to has the property. The passes of a loop begin at its address. -/
theorem comes (h : Invariant I) {plan : Plan α} {s : State} {y : Invocation}
    (hplan : plan.All (Primitive computes declares) C) (hy : plan.Comes s y) (hs : I s) :
    I y.state ∧ ∀ address, y.task = .passes address →
      address = y.state.scanner.charIndex y.state.current.span.start := by
  replace hplan := h.all hplan
  induction hy with
  | call => exact ⟨hs, fun address heq ↦ by cases heq⟩
  | loop hmark =>
    refine ⟨h.markLoop _ _ _ hs hmark, fun address heq ↦ ?_⟩
    cases heq
    cases hmark
    rfl
  | afterLook hx _ ih => exact ih (hplan.1 _ _ _ hs hx) (hplan.2 _)
  | afterTake hx _ ih => exact ih (hplan.1 _ _ _ hs hx) (hplan.2 _)
  | afterCall hr _ ih =>
    obtain ⟨-, n, hn⟩ := hr
    exact ih ((h.run n).1 _ _ _ _ hs hn) (hplan.2 _)

/-- **All that is reached has the property,** if the start has it. -/
theorem reached (h : Invariant I) {source : String}
    (hstart : ∀ s, State.start (.ofString source) = .ok s → I s) {x : Invocation}
    (hx : Reached source x) : I x.state := by
  -- a loop that is at its start need not be one, but when it goes back it has been
  suffices I x.state ∧ ∀ address, x.task = .passes address → LoopAddress I address ∨
      address = x.state.scanner.charIndex x.state.current.span.start from this.1
  induction hx with
  | start hs hcomes =>
    obtain ⟨hy, haddress⟩ := h.comes Plan.all_program hcomes (hstart _ hs)
    exact ⟨hy, fun address heq ↦ .inr (haddress address heq)⟩
  | call _ hcalls ih =>
    cases hcalls with
    | routine hcomes =>
      obtain ⟨hy, haddress⟩ := h.comes (Routine.all_plan _) hcomes ih.1
      exact ⟨hy, fun address heq ↦ .inr (haddress address heq)⟩
    | passes hcomes =>
      obtain ⟨hy, haddress⟩ := h.comes (Plan.all_pass _) hcomes ih.1
      exact ⟨hy, fun address heq ↦ .inr (haddress address heq)⟩
  | again _ hagain ih =>
    have htoken := hagain.token_eq
    cases hagain with
    | @intro address s s₁ s' hpass hback =>
      have haddress : LoopAddress I address := by
        rcases ih.2 address rfl with hloop | heq
        · exact hloop
        · exact ⟨s, ih.1, htoken, heq⟩
      obtain ⟨-, n, hn⟩ := hpass
      have hs₁ : I s₁ := h.pass n address s false s₁ ih.1 hn
      refine ⟨h.rewind haddress s₁ () s' hs₁ hback, fun address' heq ↦ ?_⟩
      cases heq
      exact .inl haddress

end Invariant

/-! ## Faults -/

/-- Running the plan comes to a part of its own that reports a fault. -/
def Plan.Fails : Plan α → State → Fault → Prop
  | .finish x _ _, s, f => ∃ s', x.run s = .error (.fault f) s'
  | .look x _ _ k, s, f =>
    (∃ s', x.run s = .error (.fault f) s') ∨ ∃ b s', x.run s = .ok b s' ∧ (k b).Fails s' f
  | .take x _ _ k, s, f =>
    (∃ s', x.run s = .error (.fault f) s') ∨ ∃ b s', x.run s = .ok b s' ∧ (k b).Fails s' f
  | .call r k, s, f => ∃ v s', Yields (fun n ↦ r.run n) s (.ok v s') ∧ (k v).Fails s' f
  | .loop _, _, _ => False

namespace Plan

variable {s : State} {f : Fault}

theorem not_fails_done (a : α) : ¬(done a).Fails s f := by
  rintro ⟨s', h⟩
  cases h

theorem fails_current_iff {k : Lexeme → Plan α} :
    (current k).Fails s f ↔ (k s.current).Fails s f := by
  constructor
  · rintro (⟨s', h⟩ | ⟨here, s', h, hk⟩)
    · cases h
    · cases h
      exact hk
  · exact fun h ↦ .inr ⟨_, s, rfl, h⟩

theorem fails_emit_iff {g : Listing → Listing} {k : Unit → Plan α} :
    (emit g k).Fails s f ↔ (k ()).Fails { s with listing := g s.listing } f := by
  constructor
  · rintro (⟨s', h⟩ | ⟨_, s', h, hk⟩)
    · cases h
    · cases h
      exact hk
  · exact fun h ↦ .inr ⟨(), _, rfl, h⟩

theorem not_fails_call_done (r : Routine) : ¬(call r done).Fails s f := by
  rintro ⟨v, s', -, h⟩
  exact not_fails_done v h

end Plan

/-- A part of the task itself reports a fault. A loop has the way back to its start besides its
passes. -/
def Invocation.Fails : Invocation → Fault → Prop
  | ⟨.routine r, s⟩, f => r.plan.Fails s f
  | ⟨.passes address, s⟩, f => (Plan.pass address).Fails s f ∨
    ∃ s₁ s', Yields (fun n ↦ Execution.pass n address) s (.ok false s₁) ∧
      (rewind address).run s₁ = .error (.fault f) s'

section

variable {s s' : State} {f : Fault} {n : Nat}

/-- A fault is reported by the plan itself or by one of its calls. -/
theorem Plan.fails_or_comes {plan : Plan α} (h : (plan.run n).run s = .error (.fault f) s') :
    plan.Fails s f ∨ ∃ y t, plan.Comes s y ∧ y.run n = .error (.fault f) t := by
  induction plan generalizing s with
  | finish x hx hstill => exact .inl ⟨s', h⟩
  | look x hx hstill k ih =>
    rcases run_bind_eq_error_iff.1 h with hx | ⟨b, s₁, hb, h⟩
    · exact .inl (.inl ⟨s', hx⟩)
    · rcases ih b h with hk | ⟨y, t, hy, ht⟩
      · exact .inl (.inr ⟨b, s₁, hb, hk⟩)
      · exact .inr ⟨y, t, .afterLook hb hy, ht⟩
  | take x hx htakes k ih =>
    rcases run_bind_eq_error_iff.1 h with hx | ⟨b, s₁, hb, h⟩
    · exact .inl (.inl ⟨s', hx⟩)
    · rcases ih b h with hk | ⟨y, t, hy, ht⟩
      · exact .inl (.inr ⟨b, s₁, hb, hk⟩)
      · exact .inr ⟨y, t, .afterTake hb hy, ht⟩
  | call r k ih =>
    rcases run_bind_eq_error_iff.1 h with hr | ⟨v, s₁, hv, h⟩
    · exact .inr ⟨_, s', .call, hr⟩
    · have hyields : Yields (fun n ↦ r.run n) s (.ok v s₁) := ⟨trivial, n, hv⟩
      rcases ih v h with hk | ⟨y, t, hy, ht⟩
      · exact .inl ⟨v, s₁, hyields, hk⟩
      · exact .inr ⟨y, t, .afterCall hyields hy, ht⟩
  | loop a =>
    rcases run_bind_eq_error_iff.1 h with hloop | ⟨_, s₁, -, h⟩
    · rcases run_bind_eq_error_iff.1 hloop with hmark | ⟨address, s₁, hmark, h⟩
      · cases hmark
      · exact .inr ⟨_, s', .loop hmark, h⟩
    · cases h

/-- **A fault is reported by a task that is reached,** in a part of its own. -/
theorem Reached.exists_fails {source : String} {x : Invocation} (hx : Reached source x)
    (h : x.run n = .error (.fault f) s') : ∃ y, Reached source y ∧ y.Fails f := by
  induction n generalizing x s' with
  | zero =>
    obtain ⟨task, s⟩ := x
    cases task with
    | routine r => cases r <;> cases h
    | passes address => cases h
  | succ n ih =>
    obtain ⟨task, s⟩ := x
    cases task with
    | routine r =>
      change (r.run (n + 1)).run s = _ at h
      rw [r.run_succ] at h
      rcases Plan.fails_or_comes h with hfails | ⟨y, t, hy, ht⟩
      · exact ⟨_, hx, hfails⟩
      · exact ih (hx.call (.routine hy)) ht
    | passes address =>
      change (Execution.passes (n + 1) address).run s = _ at h
      rw [passes_succ] at h
      rcases run_bind_eq_error_iff.1 h with hpass | ⟨done, s₁, hdone, h⟩
      · rw [Plan.pass_eq] at hpass
        rcases Plan.fails_or_comes hpass with hfails | ⟨y, t, hy, ht⟩
        · exact ⟨_, hx, .inl hfails⟩
        · exact ih (hx.call (.passes hy)) ht
      · cases done with
        | true => cases h
        | false =>
          have hyields : Yields (fun n ↦ Execution.pass n address) s (.ok false s₁) :=
            ⟨trivial, n, hdone⟩
          rcases run_bind_eq_error_iff.1 h with hback | ⟨_, s₂, hback, h⟩
          · exact ⟨_, hx, .inr ⟨s₁, s', hyields, hback⟩⟩
          · exact ih (hx.again (.intro hyields hback)) h

end

end MiniPascal
