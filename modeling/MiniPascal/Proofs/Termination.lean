import MiniPascal.Proofs.Divergence
import MiniPascal.Proofs.Rereading

/-!
# Only endless loops diverge

Calls cannot go on for ever. Each of them leads on in the text, by some tokens or to a task of lower
rank at the same token (`Invocation.Calls.begins`), so a chain of calls that comes back to a
production has taken tokens on the way. Only the way back to the `REPEAT` of a loop leaves the
measure as it is, so what diverges comes to a loop of which pass follows pass.

A token that is taken moves the scanner on, unless the end of the text is the next one: the scanner
has read that far already when the last token is next. A program that has come so far has failed,
because the final point and the `END` before it are still to come (`Reached.completes`).
-/

namespace MiniPascal

open Execution

variable {α β : Type}

/-! ## What an execution comes to -/

/-- One execution of a loop makes pass after pass, without end. -/
def EndlessLoop (source : String) : Prop :=
  ∃ f : Nat → Invocation, Reached source (f 0) ∧ ∀ i, (f i).Again (f (i + 1))

/-- With enough fuel there is an outcome, and more does not change it. -/
def Terminates (source : String) : Prop :=
  ∃ outcome, outcome ≠ .error .outOfFuel ∧ ∃ n, ∀ m ≥ n, compileText m source = outcome

/-- Where a task that is reached diverges, the program does. -/
theorem Reached.diverges {source : String} {x : Invocation} (hx : Reached source x)
    (h : x.Diverges) : ∃ s, State.start (.ofString source) = .ok s ∧ Diverges program s := by
  induction hx with
  | start hstart hcomes =>
    refine ⟨_, hstart, ?_⟩
    rw [funext Plan.program_eq]
    exact (Plan.program.diverges_iff _).2 ⟨_, hcomes, h⟩
  | call _ hcalls ih => exact ih ((Invocation.diverges_iff _).2 (.inl ⟨_, hcalls, h⟩))
  | again _ hagain ih => exact ih ((Invocation.diverges_iff _).2 (.inr ⟨_, hagain, h⟩))

/-- What can always go on goes on for ever. -/
theorem exists_sequence {γ : Type} {P : γ → Prop} {R : γ → γ → Prop}
    (hstep : ∀ a, P a → ∃ b, R a b ∧ P b) {a : γ} (ha : P a) :
    ∃ f : Nat → γ, f 0 = a ∧ ∀ i, R (f i) (f (i + 1)) := by
  let next (u : { u // P u }) : { u // P u } :=
    ⟨Classical.choose (hstep u.1 u.2), (Classical.choose_spec (hstep u.1 u.2)).2⟩
  let f (i : Nat) : { u // P u } := Nat.rec ⟨a, ha⟩ (fun _ u ↦ next u) i
  exact ⟨fun i ↦ (f i).1, rfl, fun i ↦ (Classical.choose_spec (hstep (f i).1 (f i).2)).1⟩

/-- **What diverges comes to an endless loop.** -/
theorem Reached.exists_endless {source : String} {x : Invocation} {p : Position}
    (hx : Reached source x) (hbegins : x.Begins (Placed.ofString source) p) (h : x.Diverges) :
    EndlessLoop source := by
  have hsource := Placed.pairwise_ofString source
  generalize hk : 12 * p.lexemes.length + x.task.rank = k
  induction k using Nat.strongRecOn generalizing x p with
  | ind k ih =>
    by_cases hcall : ∃ u y, Reached source u ∧ u.Begins (Placed.ofString source) p ∧
      u.task = x.task ∧ u.Calls y ∧ y.Diverges
    · -- the call is made after some tokens, or it is below in rank
      obtain ⟨u, y, hu, hbegins, htask, hcalls, hy⟩ := hcall
      obtain ⟨q, ts, hyq, hts, hrank⟩ := hcalls.begins hsource hbegins
      refine ih _ ?_ (hu.call hcalls) hyq hy rfl
      have hlength : p.lexemes.length = ts.length + q.lexemes.length := by
        rw [hts.1, List.length_append]
      have hbound := y.task.rank_lt_twelve
      rw [htask] at hrank
      cases ts with
      | nil =>
        have hlt := hrank rfl
        rw [List.length_nil] at hlength
        omega
      | cons l ts =>
        rw [List.length_cons] at hlength
        omega
    · -- no pass makes a call that diverges, so every one is followed by another
      have hstep (u : Invocation) (hu : Reached source u ∧ u.Begins (Placed.ofString source) p ∧
          u.task = x.task ∧ u.Diverges) : ∃ v, u.Again v ∧ Reached source v ∧
          v.Begins (Placed.ofString source) p ∧ v.task = x.task ∧ v.Diverges := by
        obtain ⟨hu, hbegins, htask, hdiverges⟩ := hu
        rcases u.diverges_iff.1 hdiverges with ⟨y, hcalls, hy⟩ | ⟨v, hagain, hv⟩
        · exact absurd ⟨u, y, hu, hbegins, htask, hcalls, hy⟩ hcall
        · exact ⟨v, hagain, hu.again hagain, hagain.begins hsource hbegins,
            hagain.task_eq.trans htask, hv⟩
      obtain ⟨f, hf, hagain⟩ := exists_sequence hstep ⟨hx, hbegins, rfl, h⟩
      exact ⟨f, hf ▸ hx, hagain⟩

/-- A loop takes more fuel than what is left of it after a pass. -/
theorem Invocation.Again.not_settled_succ {x y : Invocation} (h : x.Again y) {n : Nat}
    (hy : ¬Settled (y.run n)) : ¬Settled (x.run (n + 1)) := by
  cases h with
  | @intro address s s₁ s' hpass hback =>
    intro hsettled
    have hrun : Settled ((passes (n + 1) address).run s) := hsettled
    rw [passes_succ] at hrun
    rcases hs : (pass n address).run s with ⟨done, s₂⟩ | ⟨e | _, s₂⟩
    · have hyields : Yields (fun n ↦ pass n address) s (.ok done s₂) := ⟨trivial, n, hs⟩
      cases hyields.unique (fueled_pass address) hpass
      rw [run_bind_of_ok hs, if_neg Bool.false_ne_true, run_bind_of_ok hback] at hrun
      exact hy hrun
    · have hyields : Yields (fun n ↦ pass n address) s (.error (.fault e) s₂) := ⟨trivial, n, hs⟩
      cases hyields.unique (fueled_pass address) hpass
    · rw [run_bind_of_error hs] at hrun
      exact not_settled_outOfFuel s₂ hrun

/-- Passes that follow each other without end diverge. -/
theorem Invocation.diverges_of_again {f : Nat → Invocation} (h : ∀ i, (f i).Again (f (i + 1)))
    (i : Nat) : (f i).Diverges := by
  intro n
  induction n generalizing i with
  | zero =>
    have hzero {x y : Invocation} (hxy : x.Again y) : ¬Settled (x.run 0) := by
      cases hxy with
      | intro hpass hback => exact id
    exact hzero (h i)
  | succ n ih => exact (h i).not_settled_succ (ih (i + 1))

/-- A text terminates unless its program diverges. -/
theorem terminates_iff {source : String} : Terminates source ↔
    ∀ s, State.start (.ofString source) = .ok s → ¬Diverges program s := by
  constructor
  · rintro ⟨outcome, houtcome, n, hn⟩ s hstart hdiverges
    have hrun := hn n (Nat.le_refl n)
    rw [compileText_of_start n hstart] at hrun
    rcases hs : (program n).run s with ⟨a, s'⟩ | ⟨e | _, s'⟩
    · exact hdiverges n (by rw [hs]; trivial)
    · exact hdiverges n (by rw [hs]; trivial)
    · exact houtcome (hrun.symm.trans (result_eq_error_iff.2 ⟨s', hs⟩))
  · intro h
    rcases State.start_cases (.ofString source) with ⟨f, hf, -⟩ | ⟨s, p, hs, -⟩
    · exact ⟨_, by simp, 0, fun m _ ↦ compileText_of_error m hf⟩
    · obtain ⟨r, hr, n, hn⟩ := exists_yields_of_not_diverges (h s hs)
      rcases r with ⟨a, s'⟩ | ⟨e | _, s'⟩
      · refine ⟨.ok a, by simp, n, fun m hm ↦ ?_⟩
        rw [compileText_of_start m hs]
        exact result_eq_ok_iff.2 ⟨s', fueled_program.run_of_le hm hr hn⟩
      · refine ⟨.error (.fault e), by simp, n, fun m hm ↦ ?_⟩
        rw [compileText_of_start m hs]
        exact result_eq_error_iff.2 ⟨s', fueled_program.run_of_le hm hr hn⟩
      · exact absurd hr (not_settled_outOfFuel s')

/-! ## Where the scanner is -/

/-- A step to a token other than the end of the text moves the scanner on. -/
theorem Execution.cursor_lt_of_step {s t : State} (h : step.run s = .ok () t)
    (hend : t.current.token ≠ .endOfInput) : s.scanner.cursor < t.scanner.cursor := by
  obtain ⟨l, hnext, rfl⟩ := run_step_eq_ok_iff.1 h
  have hprogress : s.scanner.next.2.rest.length < s.scanner.rest.length :=
    scan_progress hnext hend
  have hle := s.scanner.suffix.length_le
  change s.scanner.source.length - s.scanner.rest.length <
    s.scanner.source.length - s.scanner.next.2.rest.length
  omega

namespace State.At

variable {source : List Placed} {s t : State} {p q : Position} {l : Lexeme} {ts : List Lexeme}

/-- Before a later position there is a token to take. -/
theorem exists_step (hs : s.At source p) (h : p.Leads (l :: ts) q) :
    s.current.token ≠ .endOfInput ∧
      ∃ t p', Execution.step.run s = .ok () t ∧ t.At source p' ∧ p'.Leads ts q := by
  have hupcoming : p.upcoming ≠ [] := by
    intro hnil
    have hlexemes := h.1
    rw [Position.lexemes, Position.lexemes, hnil] at hlexemes
    simp at hlexemes
  refine ⟨fun hend ↦ hupcoming (hs.of_end hend).1, ?_⟩
  obtain ⟨p', hp', hleads⟩ := h.step
  rcases hs.step with ⟨t, p'', ht, hp'', hat, -⟩ | ⟨f, t, p'', -, hp''⟩
  · cases hp'.symm.trans hp''
    exact ⟨t, p', ht, hat, hleads⟩
  · cases hp'.symm.trans hp''

/-- On the way to a later position the scanner moves on, or the end of the text comes next. -/
theorem advances (hsource : source.Pairwise fun p q ↦ p.offset < q.offset) (hs : s.At source p)
    (ht : t.At source q) (h : p.Leads (l :: ts) q) :
    s.scanner.cursor < t.scanner.cursor ∨
      s.current.token ≠ .endOfInput ∧ t.current.token = .endOfInput := by
  induction ts generalizing s p l with
  | nil =>
    obtain ⟨hend, s₁, p₁, hstep, hat, hleads⟩ := hs.exists_step h
    obtain rfl := Position.leads_nil_iff.1 hleads
    obtain ⟨hcurrent, hcursor⟩ := hat.samePosition hsource ht
    by_cases hlast : t.current.token = .endOfInput
    · exact .inr ⟨hend, hlast⟩
    · rw [← hcurrent] at hlast
      rw [← hcursor]
      exact .inl (cursor_lt_of_step hstep hlast)
  | cons u us ih =>
    obtain ⟨hend, s₁, p₁, hstep, hat, hleads⟩ := hs.exists_step h
    have hlt := cursor_lt_of_step hstep (hat.exists_step hleads).1
    rcases ih hat hleads with hmore | ⟨-, hlast⟩
    · exact .inl (Nat.lt_trans hlt hmore)
    · exact .inr ⟨hend, hlast⟩

end State.At

/-! ## Programs that succeed -/

/-- Where it succeeds, the plan has taken a token. -/
def Plan.TakesSome : Plan α → Prop
  | .finish _ _ _ => False
  | .look _ _ _ rest => ∀ b, (rest b).TakesSome
  | .take _ _ _ _ => True
  | .call _ rest => ∀ v, (rest v).TakesSome
  | .loop _ => False

/-- Behind each of its calls, the plan takes a token. -/
def Plan.TakesAfterCalls : Plan α → Prop
  | .finish _ _ _ => True
  | .look _ _ _ rest => ∀ b, (rest b).TakesAfterCalls
  | .take _ _ _ rest => ∀ b, (rest b).TakesAfterCalls
  | .call _ rest => ∀ v, (rest v).TakesSome ∧ (rest v).TakesAfterCalls
  | .loop _ => False

section

variable {source : List Placed} {s t : State} {p : Position}

/-- A plan that succeeds leads on in the text. -/
theorem Plan.exists_leads (hsource : source.Pairwise fun p q ↦ p.offset < q.offset)
    (plan : Plan α) {n : Nat} (hs : s.At source p) {a : α} (h : (plan.run n).run s = .ok a t) :
    ∃ q ts, t.At source q ∧ p.Leads ts q ∧ (plan.TakesSome → ts ≠ []) := by
  induction plan generalizing s p with
  | finish x hx hstill =>
    obtain ⟨hcurrent, hscanner⟩ := hstill s a t h
    exact ⟨p, [], hs.congr hcurrent hscanner, .refl p, False.elim⟩
  | look x hx hstill rest ih =>
    obtain ⟨b, s₁, hb, h⟩ := run_bind_eq_ok_iff.1 h
    obtain ⟨hcurrent, hscanner⟩ := hstill s b s₁ hb
    obtain ⟨q, ts, hat, hts, htakes⟩ := ih b (hs.congr hcurrent hscanner) h
    exact ⟨q, ts, hat, hts, fun hplan ↦ htakes (hplan b)⟩
  | take x hx htakes rest ih =>
    obtain ⟨b, s₁, hb, h⟩ := run_bind_eq_ok_iff.1 h
    obtain ⟨p₁, hs₁, hleads⟩ := htakes.exists_leads hs hb
    obtain ⟨q, ts, hat, hts, -⟩ := ih b hs₁ h
    exact ⟨q, p.current :: ts, hat, hleads.trans hts, fun _ ↦ List.cons_ne_nil _ _⟩
  | call r rest ih =>
    obtain ⟨v, s₁, hv, h⟩ := run_bind_eq_ok_iff.1 h
    obtain ⟨p₁, ts, hs₁, hleads⟩ := r.exists_leads hsource hs hv
    obtain ⟨q, ts', hat, hts', htakes⟩ := ih v hs₁ h
    refine ⟨q, ts ++ ts', hat, hleads.trans hts', fun hplan hnil ↦ ?_⟩
    exact htakes (hplan v) (List.append_eq_nil_iff.1 hnil).2
  | loop b =>
    obtain ⟨_, s₁, hloop, h⟩ := run_bind_eq_ok_iff.1 h
    cases h
    obtain ⟨q, ts, hat, hts⟩ := exists_at_of_loop hsource hs hloop
    exact ⟨q, ts, hat, hts.1, False.elim⟩

/-- On the way to a token that is not the end of the text, no position is at the end. -/
theorem State.At.ne_endOfInput {q : Position} {ts : List Lexeme} (hs : s.At source p)
    (ht : t.At source q) (h : p.Leads ts q) (hend : ts ≠ [] ∨ t.current.token ≠ .endOfInput) :
    s.current.token ≠ .endOfInput := by
  rcases ts with _ | ⟨l, ts⟩
  · obtain rfl := Position.leads_nil_iff.1 h
    rw [hs.current_eq, ← ht.current_eq]
    exact hend.resolve_left fun hne ↦ hne rfl
  · exact (hs.exists_step h).1

namespace Invocation

/-- The task succeeds in a state. -/
def Ends (x : Invocation) (t : State) : Prop :=
  ∃ v, Yields (fun n ↦ x.task.run n) x.state (.ok v t)

/-- The task succeeds in front of another token. -/
def Completes (x : Invocation) : Prop := ∃ t, x.Ends t ∧ t.current.token ≠ .endOfInput

end Invocation

/-- Where a sequence succeeds, both its parts do. -/
theorem Yields.of_bind {σ : Type} {x : Nat → EStateM Halt σ α} {f : Nat → α → EStateM Halt σ β}
    {s t : σ} {b : β} (h : Yields (fun n ↦ x n >>= f n) s (.ok b t)) :
    ∃ a s', Yields x s (.ok a s') ∧ Yields (fun n ↦ f n a) s' (.ok b t) := by
  obtain ⟨-, n, hn⟩ := h
  obtain ⟨a, s', ha, hb⟩ := run_bind_eq_ok_iff.1 hn
  exact ⟨a, s', ⟨trivial, n, ha⟩, ⟨trivial, n, hb⟩⟩

/-- An outcome takes some fuel. -/
theorem Yields.of_noFuel {σ : Type} {x : Nat → EStateM Halt σ α} {s : σ}
    {r : EStateM.Result Halt σ α} (h : Yields x s r) (hzero : NoFuel (x 0)) :
    Yields (fun n ↦ x (n + 1)) s r := by
  obtain ⟨hr, n, hn⟩ := h
  cases n with
  | zero =>
    obtain ⟨s', hs'⟩ := hzero s
    rw [← hn, hs'] at hr
    exact absurd hr (not_settled_outOfFuel s')
  | succ n => exact ⟨hr, n, hn⟩

/-- The calls of a plan that succeeds succeed, and the plan leads on from there. -/
theorem Plan.Comes.exists_ends (hsource : source.Pairwise fun p q ↦ p.offset < q.offset)
    {plan : Plan α} {y : Invocation} (h : plan.Comes s y) (hs : s.At source p) {a : α}
    (hplan : Yields (fun n ↦ plan.run n) s (.ok a t)) :
    ∃ s' q' q ts, y.Ends s' ∧ s'.At source q' ∧ t.At source q ∧ q'.Leads ts q ∧
      (plan.TakesAfterCalls → ts ≠ []) := by
  induction h generalizing p with
  | @call r rest s =>
    obtain ⟨v, s', hv, hrest⟩ := hplan.of_bind
    obtain ⟨-, n, hn⟩ := id hv
    obtain ⟨-, m, hm⟩ := hrest
    obtain ⟨q', -, hs', -⟩ := r.exists_leads hsource hs hn
    obtain ⟨q, ts, ht, hts, htakes⟩ := (rest v).exists_leads hsource hs' hm
    exact ⟨s', q', q, ts, ⟨v, hv⟩, hs', ht, hts, fun h ↦ htakes (h v).1⟩
  | @loop b s s₁ address hmark =>
    obtain ⟨q, -, ht, -⟩ : ∃ q ts, t.At source q ∧ p.Leads ts q ∧ _ :=
      (Plan.loop b).exists_leads hsource hs hplan.2.choose_spec
    obtain ⟨_, t', hloop, -, m, hm⟩ := hplan.of_bind
    cases hm
    obtain ⟨address', s₁', ⟨-, n, hn⟩, hpasses⟩ := hloop.of_bind
    cases hmark.symm.trans hn
    exact ⟨t, q, q, [], ⟨(), hpasses⟩, ht, ht, .refl q, False.elim⟩
  | @afterLook β x hx hstill rest s s₁ b y hb _ ih =>
    obtain ⟨b', s₁', ⟨-, n, hn⟩, hrest⟩ := hplan.of_bind
    cases hb.symm.trans hn
    obtain ⟨hcurrent, hscanner⟩ := hstill s b s₁ hb
    obtain ⟨s', q', q, ts, hends, hs', ht, hts, htakes⟩ := ih (hs.congr hcurrent hscanner) hrest
    exact ⟨s', q', q, ts, hends, hs', ht, hts, fun h ↦ htakes (h b)⟩
  | @afterTake β x hx htakes rest s s₁ b y hb _ ih =>
    obtain ⟨b', s₁', ⟨-, n, hn⟩, hrest⟩ := hplan.of_bind
    cases hb.symm.trans hn
    obtain ⟨p₁, hs₁, -⟩ := htakes.exists_leads hs hb
    obtain ⟨s', q', q, ts, hends, hs', ht, hts, htakes⟩ := ih hs₁ hrest
    exact ⟨s', q', q, ts, hends, hs', ht, hts, fun h ↦ htakes (h b)⟩
  | @afterCall r rest s s₁ v y hv _ ih =>
    obtain ⟨v', s₁', hv', hrest⟩ := hplan.of_bind
    cases hv.unique r.fueled_run hv'
    obtain ⟨-, n, hn⟩ := hv
    obtain ⟨p₁, -, hs₁, -⟩ := r.exists_leads hsource hs hn
    obtain ⟨s', q', q, ts, hends, hs', ht, hts, htakes⟩ := ih hs₁ hrest
    exact ⟨s', q', q, ts, hends, hs', ht, hts, fun h ↦ htakes (h v).2⟩

namespace Invocation

variable {x y : Invocation}

/-- All passes of a loop lead to one position. -/
theorem exists_pass_of_ends (hsource : source.Pairwise fun p q ↦ p.offset < q.offset)
    {address : Nat} (hx : Begins source ⟨.passes address, s⟩ p) (h : Ends ⟨.passes address, s⟩ t) :
    ∃ done s₁ q ts, Yields (fun n ↦ Execution.pass n address) s (.ok done s₁) ∧
      s₁.At source q ∧ t.At source q ∧ p.Loop ts q := by
  obtain ⟨_, h⟩ := h
  obtain ⟨-, n, hn⟩ := h.of_noFuel noFuel_outOfFuel
  obtain ⟨hat, haddress⟩ := hx
  obtain rfl := haddress _ rfl
  obtain ⟨q, ts, ht, hloop⟩ := exists_at_of_passes hsource hat hn
  change (Execution.passes (n + 1) _).run s = _ at hn
  rw [passes_succ] at hn
  obtain ⟨done, s₁, hpass, -⟩ := run_bind_eq_ok_iff.1 hn
  obtain ⟨q₁, ts₁, hs₁, hloop₁⟩ := exists_at_of_pass hsource hat hpass
  obtain ⟨-, rfl⟩ := hloop.unique hloop₁
  exact ⟨done, s₁, q, ts, ⟨trivial, n, hpass⟩, hs₁, ht, hloop⟩

/-- A task that completes completes its calls. -/
theorem Calls.completes (hsource : source.Pairwise fun p q ↦ p.offset < q.offset) (h : x.Calls y)
    (hx : x.Begins source p) (hcompletes : x.Completes) : y.Completes := by
  obtain ⟨t, hends, hend⟩ := hcompletes
  cases h with
  | @routine r s _ h =>
    obtain ⟨v, hv⟩ := hends
    have hplan : Yields (fun n ↦ r.run (n + 1)) s (.ok v t) := hv.of_noFuel r.noFuel_run_zero
    rw [funext r.run_succ] at hplan
    obtain ⟨s', q', q, ts, hends, hs', ht, hts, -⟩ := h.exists_ends hsource hx.1 hplan
    exact ⟨s', hends, hs'.ne_endOfInput ht hts (.inr hend)⟩
  | @passes address s _ h =>
    obtain ⟨done, s₁, q, ts, hpass, hs₁, ht, -⟩ := exists_pass_of_ends hsource hx hends
    rw [funext (Plan.pass_eq · address)] at hpass
    obtain ⟨s', q', q₁, ts', hends, hs', hs₁', hts', -⟩ := h.exists_ends hsource hx.1 hpass
    have hend₁ : s₁.current.token ≠ .endOfInput := by
      rw [hs₁.current_eq, ← ht.current_eq]
      exact hend
    exact ⟨s', hends, hs'.ne_endOfInput hs₁' hts' (.inr hend₁)⟩

/-- A loop that completes completes its next pass. -/
theorem Again.completes (h : x.Again y) (hcompletes : x.Completes) : y.Completes := by
  obtain ⟨t, hends, hend⟩ := hcompletes
  cases h with
  | @intro address s s₁ s' hpass hback =>
    refine ⟨t, ?_, hend⟩
    obtain ⟨_, hends⟩ := hends
    have hpasses := hends.of_noFuel noFuel_outOfFuel
    change Yields (fun n ↦ Execution.passes (n + 1) address) _ _ at hpasses
    rw [funext (passes_succ · address)] at hpasses
    obtain ⟨done, s₂, hdone, hrest⟩ := hpasses.of_bind
    cases hdone.unique (fueled_pass address) hpass
    obtain ⟨_, s₃, ⟨-, n, hn⟩, hmore⟩ := Yields.of_bind (x := fun _ ↦ rewind address) hrest
    cases hback.symm.trans hn
    exact ⟨(), hmore⟩

theorem Completes.ne_endOfInput (hsource : source.Pairwise fun p q ↦ p.offset < q.offset)
    (hx : x.Begins source p) (h : x.Completes) : x.state.current.token ≠ .endOfInput := by
  obtain ⟨t, hends, hend⟩ := h
  obtain ⟨task, s⟩ := x
  rcases task with r | address
  · obtain ⟨v, -, n, hn⟩ := hends
    obtain ⟨q, ts, ht, hts⟩ := r.exists_leads hsource hx.1 hn
    exact hx.1.ne_endOfInput ht hts (.inr hend)
  · obtain ⟨done, s₁, q, ts, -, -, ht, hloop⟩ := exists_pass_of_ends hsource hx hends
    exact hx.1.ne_endOfInput ht hloop.1 (.inr hend)

end Invocation

end

theorem Plan.takesAfterCalls_program : Plan.program.TakesAfterCalls := by
  intro _ _ _ here
  dsimp only
  split
  · exact fun _ _ ↦ ⟨fun _ ↦ trivial, fun _ ↦ ⟨trivial, fun _ ↦ trivial⟩⟩
  · exact fun _ ↦ ⟨trivial, fun _ ↦ trivial⟩

/-- **A program that succeeds completes every task it comes to.** -/
theorem Reached.completes {source : String} {x : Invocation} (hx : Reached source x) {fuel : Nat}
    {c : Compiled} (h : compileText fuel source = .ok c) : x.Completes := by
  have hsource := Placed.pairwise_ofString source
  induction hx with
  | @start s y hstart hcomes =>
    rw [compileText_of_start fuel hstart, result_eq_ok_iff] at h
    obtain ⟨t, ht⟩ := h
    rw [Plan.program_eq] at ht
    have hprogram : Yields (fun n ↦ Plan.program.run n) s (.ok c t) := ⟨trivial, fuel, ht⟩
    obtain ⟨p, hat⟩ : ∃ p, s.At (Placed.ofString source) p := by
      rcases State.start_cases (.ofString source) with ⟨f, hf, -⟩ | ⟨s, p, hs, hat, -⟩
      · cases hstart.symm.trans hf
      · cases hstart.symm.trans hs
        exact ⟨p, hat⟩
    obtain ⟨s', q', q, ts, hends, hs', ht, hts, htakes⟩ := hcomes.exists_ends hsource hat hprogram
    exact ⟨s', hends, hs'.ne_endOfInput ht hts (.inl (htakes Plan.takesAfterCalls_program))⟩
  | call hx hcalls ih =>
    obtain ⟨p, -, hbegins, -⟩ := hx.begins
    exact hcalls.completes hsource hbegins ih
  | again hx hagain ih => exact hagain.completes ih

/-! ## Termination -/

/-- **Only endless loops diverge.** Compiling a text comes to an end, with success or with a fault,
unless one execution of a loop makes pass after pass without end. So it comes to an end if no
`REPEAT` is in the text, whatever else is. For a chain of calls between two ways back that does not
descend in rank, as one that comes back to a production, the scanner moves on, or the program has
come to the end of the text, where it had not been, and does not compile. -/
theorem terminates_unless_endless (source : String) :
    (Terminates source ↔ ¬EndlessLoop source) ∧
    ((∀ l ∈ (Scanner.ofString source).lexemes, l.token ≠ .keyword .loopRepeat) →
      Terminates source) ∧
    ∀ x y, Reached source x → Relation.TransGen Invocation.Calls x y →
      x.task.rank ≤ y.task.rank →
      x.state.scanner.cursor < y.state.scanner.cursor ∨
        (x.state.current.token ≠ .endOfInput ∧ y.state.current.token = .endOfInput ∧
          ∀ fuel c, compileText fuel source ≠ .ok c) := by
  have hiff : Terminates source ↔ ¬EndlessLoop source := by
    constructor
    · rintro hterminates ⟨f, hreached, hagain⟩
      obtain ⟨s, hstart, hdiverges⟩ := hreached.diverges (Invocation.diverges_of_again hagain 0)
      exact terminates_iff.1 hterminates s hstart hdiverges
    · intro hendless
      refine terminates_iff.2 fun s hstart hdiverges ↦ hendless ?_
      rw [funext Plan.program_eq] at hdiverges
      obtain ⟨y, hcomes, hy⟩ := (Plan.program.diverges_iff s).1 hdiverges
      have hreached : Reached source y := .start hstart hcomes
      obtain ⟨p, -, hbegins, -⟩ := hreached.begins
      exact hreached.exists_endless hbegins hy
  refine ⟨hiff, fun hrepeat ↦ hiff.2 ?_, ?_⟩
  · rintro ⟨f, hreached, hagain⟩
    obtain ⟨p, ts, hbegins, hlexemes, -⟩ := hreached.begins
    refine hrepeat p.current ?_ ?_
    · rw [hlexemes, Position.lexemes]
      simp
    · rw [← hbegins.1.current_eq]
      exact (hagain 0).token_eq
  · intro x y hx hchain hrank
    have hsource := Placed.pairwise_ofString source
    obtain ⟨p, -, hbegins, -⟩ := hx.begins
    obtain ⟨q, ts, hy, hts, hlower⟩ := Invocation.begins_of_chain hsource hchain hbegins
    rcases ts with _ | ⟨l, ts⟩
    · exact absurd (hlower rfl) (Nat.not_lt.2 hrank)
    · refine (hbegins.1.advances hsource hy.1 hts).imp id ?_
      rintro ⟨hx', hend⟩
      refine ⟨hx', hend, fun fuel c h ↦ ?_⟩
      exact ((hx.of_chain hchain).completes h).ne_endOfInput hsource hy hend

/-- A program that breaks off in the middle of nested parentheses has an outcome, and between its
two `BEGIN` the scanner has moved on. -/
theorem terminates_unless_endless_unclosed :
    (∀ l ∈ (Scanner.ofString "PROGRAM p; BEGIN ; BEGIN x := ((").lexemes,
      l.token ≠ .keyword .loopRepeat) ∧
    Terminates "PROGRAM p; BEGIN ; BEGIN x := ((" ∧
    ∃ x y, Reached "PROGRAM p; BEGIN ; BEGIN x := ((" x ∧ Relation.TransGen Invocation.Calls x y ∧
      x.task.rank ≤ y.task.rank ∧
      (x.state.scanner.cursor < y.state.scanner.cursor ∨
        (x.state.current.token ≠ .endOfInput ∧ y.state.current.token = .endOfInput ∧
          ∀ fuel c, compileText fuel "PROGRAM p; BEGIN ; BEGIN x := ((" ≠ .ok c)) := by
  have htokens : (Scanner.ofString "PROGRAM p; BEGIN ; BEGIN x := ((").lexemes.map Lexeme.token =
      [.keyword .program, .identifier "p", .symbol .semicolon, .keyword .blockBegin,
        .symbol .semicolon, .keyword .blockBegin, .identifier "x", .symbol .assign,
        .symbol .openParen, .symbol .openParen, .endOfInput] := rfl
  have hrepeat : ∀ l ∈ (Scanner.ofString "PROGRAM p; BEGIN ; BEGIN x := ((").lexemes,
      l.token ≠ .keyword .loopRepeat := by
    intro l hl htoken
    have hmem := List.mem_map_of_mem (f := Lexeme.token) hl
    rw [htokens, htoken] at hmem
    simp at hmem
  have hsecond : (untilSecondStatement 9).succeeds "PROGRAM p; BEGIN ; BEGIN x := (("
      (fun _ s ↦ s.current.token.same (.keyword .blockBegin)) := by
    decide +kernel
  obtain ⟨s₀, _, s, hstart, hrun, hbegin⟩ := exists_of_succeeds hsecond
  obtain ⟨_, s₁, hfirst, hrun⟩ := run_bind_eq_ok_iff.1 hrun
  obtain ⟨_, s₂, hsemicolon, hpure⟩ := run_bind_eq_ok_iff.1 hrun
  cases hpure
  obtain ⟨t, hreached, hchain⟩ := Reached.of_firstStatement hstart hfirst
  have hnested : Plan.statement.Comes s ⟨.routine .compound, s⟩ := by
    refine .afterLook rfl ?_
    rw [Token.same_keyword_iff.1 hbegin]
    exact .call
  have hcycle := (hchain.tail (.routine (r := .moreStatements)
    (Plan.comes_of_semicolon hsemicolon .call))).tail (.routine (r := .statement) hnested)
  obtain ⟨-, hterminates, hadvance⟩ := terminates_unless_endless "PROGRAM p; BEGIN ; BEGIN x := (("
  exact ⟨hrepeat, hterminates hrepeat, _, _, hreached, hcycle, Nat.le_refl _,
    hadvance _ _ hreached hcycle (Nat.le_refl _)⟩

/-- The other statements of a block up to the second, with the states in front of and behind it. -/
def Execution.secondStatement (n : Nat) : Execution (State × State) := do
  firstStatement (n + 1)
  let s ← get
  let _ ← expect (.symbol .semicolon)
  statement n
  let s' ← get
  moreStatements n
  return (s, s')

/-- **The scanner need not move on.** Behind its last semicolon this program comes to the end of the
text, and the statement there is empty: the call that reads it begins and ends in the same place,
and succeeds. -/
theorem cursor_stays_at_last_semicolon :
    ∃ x y, Reached "PROGRAM p; BEGIN ;" x ∧ x.Calls y ∧ x.task = .routine .moreStatements ∧
      y.task = x.task ∧ x.state.scanner.cursor = 18 ∧ y.state.scanner.cursor = 18 ∧
      ∃ t, x.Ends t ∧ t.scanner.cursor = 18 := by
  have hruns : (secondStatement 9).succeeds "PROGRAM p; BEGIN ;" (fun around t ↦
      around.1.scanner.cursor == 18 && around.2.scanner.cursor == 18 &&
        t.scanner.cursor == 18) := by
    decide +kernel
  obtain ⟨s₀, ⟨s, s'⟩, t, hstart, hrun, hcursors⟩ := exists_of_succeeds hruns
  simp only [Bool.and_eq_true, beq_iff_eq] at hcursors
  obtain ⟨_, s₁, hfirst, hrun⟩ := run_bind_eq_ok_iff.1 hrun
  rw [run_get_bind] at hrun
  obtain ⟨_, s₂, hsemicolon, hrun⟩ := run_bind_eq_ok_iff.1 hrun
  obtain ⟨_, s₃, hempty, hrun⟩ := run_bind_eq_ok_iff.1 hrun
  rw [run_get_bind] at hrun
  obtain ⟨_, s₄, hmore, hpure⟩ := run_bind_eq_ok_iff.1 hrun
  cases hpure
  obtain ⟨t₀, hcompound, hchain⟩ := Reached.of_firstStatement hstart hfirst
  have hcalls : Invocation.Calls ⟨.routine .moreStatements, s⟩ ⟨.routine .moreStatements, s'⟩ :=
    .routine (r := .moreStatements) (Plan.comes_of_semicolon hsemicolon
      (.afterCall (r := .statement) ⟨trivial, 9, hempty⟩ .call))
  obtain ⟨hsame, -, hstep⟩ := run_expect_eq_ok hsemicolon
  have hends : (moreStatements 10).run s = .ok () t := by
    rw [moreStatements, run_current_bind, Token.same_symbol_iff.1 hsame]
    exact (run_bind_of_ok hstep).trans ((run_bind_of_ok hempty).trans hmore)
  exact ⟨_, _, hcompound.of_chain hchain, hcalls, rfl, rfl, hcursors.1.1, hcursors.1.2, t,
    ⟨(), trivial, 10, hends⟩, hcursors.2⟩

end MiniPascal
