import MiniPascal.Proofs.Calls

/-!
# Divergence

A production diverges if no amount of fuel is enough. Its plan tells the calls it can come to, and
it diverges just if one of these does (`Invocation.diverges_iff`). A loop calls what its next pass
calls, and it diverges as well if it goes back to its start and diverges there.
-/

namespace MiniPascal

open Execution

variable {α β : Type}

/-! ## Divergence -/

section Divergence

variable {σ : Type} {x : Nat → EStateM Halt σ α} {f : Nat → α → EStateM Halt σ β} {s : σ}

/-- No amount of fuel is enough. -/
def Diverges (x : Nat → EStateM Halt σ α) (s : σ) : Prop := ∀ n, ¬Settled ((x n).run s)

theorem exists_yields_of_not_diverges (h : ¬Diverges x s) : ∃ r, Yields x s r := by
  obtain ⟨n, hn⟩ := Classical.not_forall.1 h
  exact ⟨_, Classical.not_not.1 hn, n, rfl⟩

theorem Yields.not_diverges {r : EStateM.Result Halt σ α} (h : Yields x s r) : ¬Diverges x s := by
  obtain ⟨hr, n, rfl⟩ := h
  exact fun hdiverges ↦ hdiverges n hr

/-- The first unit of fuel is of no use. -/
theorem diverges_succ_iff (hzero : NoFuel (x 0)) :
    Diverges x s ↔ Diverges (fun n ↦ x (n + 1)) s := by
  constructor
  · exact fun h n ↦ h (n + 1)
  · intro h n
    cases n with
    | zero =>
      obtain ⟨s', hs'⟩ := hzero s
      rw [hs']
      exact not_settled_outOfFuel s'
    | succ n => exact h n

/-- A sequence diverges if its first part does, or its second after the first. -/
theorem diverges_bind_iff (hx : Fueled x) (hf : ∀ a, Fueled fun n ↦ f n a) :
    Diverges (fun n ↦ x n >>= f n) s ↔
      Diverges x s ∨ ∃ a s', Yields x s (.ok a s') ∧ Diverges (fun n ↦ f n a) s' := by
  constructor
  · intro h
    by_cases hdiverges : Diverges x s
    · exact .inl hdiverges
    obtain ⟨r, hr⟩ := exists_yields_of_not_diverges hdiverges
    rcases r with ⟨a, s'⟩ | ⟨e | _, s'⟩
    · refine .inr ⟨a, s', hr, Classical.not_not.1 fun hhalts ↦ ?_⟩
      obtain ⟨r, hr'⟩ := exists_yields_of_not_diverges hhalts
      exact ((yields_bind_iff hx hf).2 (.inl ⟨a, s', hr, hr'⟩)).not_diverges h
    · exact absurd h ((yields_bind_iff hx hf).2 (.inr ⟨e, s', hr, rfl⟩)).not_diverges
    · exact absurd hr.1 (not_settled_outOfFuel s')
  · intro h
    refine Classical.not_not.1 fun hhalts ↦ ?_
    obtain ⟨r, hr⟩ := exists_yields_of_not_diverges hhalts
    rcases (yields_bind_iff hx hf).1 hr with ⟨a, s', ha, hr⟩ | ⟨e, s', he, -⟩
    · rcases h with h | ⟨b, s'', hb, h⟩
      · exact ha.not_diverges h
      · cases ha.unique hx hb
        exact hr.not_diverges h
    · rcases h with h | ⟨b, s'', hb, h⟩
      · exact he.not_diverges h
      · cases he.unique hx hb

end Divergence

/-- A first part that makes no calls is done or halts. -/
theorem diverges_bind_of_settles {x : Execution α} {f : Nat → α → Execution β} {s : State}
    (hx : Settles x) (hf : ∀ a, Fueled fun n ↦ f n a) :
    Diverges (fun n ↦ x >>= f n) s ↔
      ∃ a s', x.run s = .ok a s' ∧ Diverges (fun n ↦ f n a) s' := by
  rw [diverges_bind_iff (fueled_const x) hf]
  constructor
  · rintro (h | ⟨a, s', ⟨-, n, hn⟩, h⟩)
    · exact absurd (hx s) (h 0)
    · exact ⟨a, s', hn, h⟩
  · rintro ⟨a, s', ha, h⟩
    exact .inr ⟨a, s', ⟨trivial, 0, ha⟩, h⟩

theorem fueled_passes (address : Nat) : Fueled fun n ↦ passes n address :=
  fun n ↦ (approximates_statement n).2.2.2.2 address

theorem fueled_loop : Fueled Execution.loop := (fueled_const markLoop).bind fueled_passes

theorem Plan.fueled_run (plan : Plan α) : Fueled fun n ↦ plan.run n := by
  induction plan with
  | finish x hx hstill => exact fueled_const x
  | look x hx hstill k ih => exact (fueled_const x).bind ih
  | take x hx htakes k ih => exact (fueled_const x).bind ih
  | call r k ih => exact r.fueled_run.bind ih
  | loop a => exact fueled_loop.bind fun _ ↦ fueled_const (pure a)

theorem Settles.rewind (address : Nat) : Settles (Execution.rewind address) :=
  bind (fun _ ↦ trivial) fun _ ↦ step

/-- The passes of a loop diverge by the next one or by those after it. -/
theorem diverges_passes_iff {address : Nat} {s : State} :
    Diverges (fun n ↦ passes n address) s ↔ Diverges (fun n ↦ Execution.pass n address) s ∨
      ∃ s₁ s', Yields (fun n ↦ Execution.pass n address) s (.ok false s₁) ∧
        (rewind address).run s₁ = .ok () s' ∧ Diverges (fun n ↦ passes n address) s' := by
  have hpass := fueled_pass address
  have hback (done : Bool) : Fueled fun n ↦
      (if done then pure () else rewind address >>= fun _ ↦ passes n address : Execution Unit) := by
    cases done with
    | true => exact fueled_const _
    | false => exact (fueled_const _).bind fun _ ↦ fueled_passes address
  rw [diverges_succ_iff noFuel_outOfFuel, funext (passes_succ · address),
    diverges_bind_iff hpass hback]
  refine or_congr_right ⟨?_, ?_⟩
  · rintro ⟨done, s₁, hdone, h⟩
    cases done with
    | true => exact absurd trivial (h 0)
    | false =>
      obtain ⟨_, s', hs', h⟩ := (diverges_bind_of_settles (.rewind address)
        fun _ ↦ fueled_passes address).1 h
      exact ⟨s₁, s', hdone, hs', h⟩
  · rintro ⟨s₁, s', hdone, hs', h⟩
    refine ⟨false, s₁, hdone, ?_⟩
    exact (diverges_bind_of_settles (.rewind address) fun _ ↦ fueled_passes address).2
      ⟨(), s', hs', h⟩

/-! ## Calls -/

/-- The task goes on for ever. -/
def Invocation.Diverges (x : Invocation) : Prop :=
  MiniPascal.Diverges (fun n ↦ x.task.run n) x.state

/-- **A plan diverges by its calls.** -/
theorem Plan.diverges_iff (plan : Plan α) (s : State) :
    Diverges (fun n ↦ plan.run n) s ↔ ∃ y, plan.Comes s y ∧ y.Diverges := by
  induction plan generalizing s with
  | finish x hx hstill =>
    constructor
    · exact fun h ↦ absurd (hx s) (h 0)
    · rintro ⟨y, hy, -⟩
      cases hy
  | look x hx hstill k ih =>
    refine (diverges_bind_of_settles hx fun b ↦ (k b).fueled_run).trans ?_
    constructor
    · rintro ⟨b, s', hb, h⟩
      obtain ⟨y, hy, hdiverges⟩ := (ih b s').1 h
      exact ⟨y, .afterLook hb hy, hdiverges⟩
    · rintro ⟨y, hy, hdiverges⟩
      cases hy with
      | afterLook hb hy => exact ⟨_, _, hb, (ih _ _).2 ⟨y, hy, hdiverges⟩⟩
  | take x hx htakes k ih =>
    refine (diverges_bind_of_settles hx fun b ↦ (k b).fueled_run).trans ?_
    constructor
    · rintro ⟨b, s', hb, h⟩
      obtain ⟨y, hy, hdiverges⟩ := (ih b s').1 h
      exact ⟨y, .afterTake hb hy, hdiverges⟩
    · rintro ⟨y, hy, hdiverges⟩
      cases hy with
      | afterTake hb hy => exact ⟨_, _, hb, (ih _ _).2 ⟨y, hy, hdiverges⟩⟩
  | call r k ih =>
    refine (diverges_bind_iff r.fueled_run fun v ↦ (k v).fueled_run).trans ?_
    constructor
    · rintro (h | ⟨v, s', hv, h⟩)
      · exact ⟨_, .call, h⟩
      · obtain ⟨y, hy, hdiverges⟩ := (ih v s').1 h
        exact ⟨y, .afterCall hv hy, hdiverges⟩
    · rintro ⟨y, hy, hdiverges⟩
      cases hy with
      | call => exact .inl hdiverges
      | afterCall hv hy => exact .inr ⟨_, _, hv, (ih _ _).2 ⟨y, hy, hdiverges⟩⟩
  | loop a =>
    refine (diverges_bind_iff fueled_loop fun _ ↦ fueled_const (pure a)).trans ?_
    constructor
    · rintro (h | ⟨_, s', -, h⟩)
      · obtain ⟨address, s', hmark, h⟩ :=
          (diverges_bind_of_settles .markLoop fueled_passes).1 h
        exact ⟨_, .loop hmark, h⟩
      · exact absurd trivial (h 0)
    · rintro ⟨y, hy, hdiverges⟩
      cases hy with
      | loop hmark =>
        exact .inl ((diverges_bind_of_settles .markLoop fueled_passes).2 ⟨_, _, hmark, hdiverges⟩)

/-- **A task diverges by its calls,** and a loop by its next pass as well. -/
theorem Invocation.diverges_iff (x : Invocation) :
    x.Diverges ↔ (∃ y, x.Calls y ∧ y.Diverges) ∨ ∃ y, x.Again y ∧ y.Diverges := by
  obtain ⟨task, s⟩ := x
  cases task with
  | routine r =>
    have hplan : (fun n ↦ r.run (n + 1)) = fun n ↦ r.plan.run n := funext r.run_succ
    have hrun : Diverges ⟨.routine r, s⟩ ↔ MiniPascal.Diverges (fun n ↦ r.run n) s := Iff.rfl
    rw [hrun, diverges_succ_iff r.noFuel_run_zero, hplan, r.plan.diverges_iff]
    constructor
    · rintro ⟨y, hy, h⟩
      exact .inl ⟨y, .routine hy, h⟩
    · rintro (⟨y, hcalls, h⟩ | ⟨y, hagain, -⟩)
      · cases hcalls with
        | routine hy => exact ⟨y, hy, h⟩
      · cases hagain
  | passes address =>
    have hplan : (fun n ↦ Execution.pass n address) = fun n ↦ (Plan.pass address).run n :=
      funext fun n ↦ Plan.pass_eq n address
    have hrun : Diverges ⟨.passes address, s⟩ ↔
        MiniPascal.Diverges (fun n ↦ Execution.passes n address) s := Iff.rfl
    rw [hrun, diverges_passes_iff, hplan, (Plan.pass address).diverges_iff]
    constructor
    · rintro (⟨y, hy, h⟩ | ⟨s₁, s', hpass, hback, h⟩)
      · exact .inl ⟨y, .passes hy, h⟩
      · exact .inr ⟨_, .intro (hplan ▸ hpass) hback, h⟩
    · rintro (⟨y, hcalls, h⟩ | ⟨y, hagain, h⟩)
      · cases hcalls with
        | passes hy => exact .inl ⟨y, hy, h⟩
      · cases hagain with
        | intro hpass hback => exact .inr ⟨_, _, hplan ▸ hpass, hback, h⟩

end MiniPascal
