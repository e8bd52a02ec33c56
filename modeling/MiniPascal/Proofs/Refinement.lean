import MiniPascal.Proofs.Evaluation

/-!
# Statements mean what is executed

A statement may run for ever, and its passes take more fuel than reading it does. So an execution
and an interpretation of it are compared by what they come to with enough fuel (`Refines`): the
execution ends just when the interpretation does, with the same outcome, the same variables and the
same instructions.

For a loop this is shown pass by pass. A pass of the interpreter stays in the tree, a pass of an
execution goes back in the text, and `Refines.repeats` asks no more of the way back than that it
leads to where the passes start.
-/

namespace MiniPascal

open Grammar

variable {α β : Type} {source : List Placed}

/-! ## What may run for ever -/

/-- With enough fuel, an execution comes to what an interpretation comes to; it stands at a position
where it succeeds, and it ends where the interpretation does. -/
structure Refines (source : List Placed) (x : Nat → Execution α) (y : Nat → Interpreter α)
    (s : State) (q : Position) : Prop where
  ok : ∀ {a s'}, Yields x s (.ok a s') → s'.At source q ∧ Yields y s.progress (.ok a s'.progress)
  fault : ∀ {f s'}, Yields x s (.error (.fault f) s') →
    Yields y s.progress (.error (.fault f) s'.progress)
  ends : ∀ {r}, Yields y s.progress r → ∃ r', Yields x s r'

namespace Refines

variable {s : State} {q q' : Position}

/-- What ends by itself ends with some fuel. -/
theorem of_performs {x : Nat → Execution α} {y : Interpreter α} (hx : Fueled x) {n : Nat}
    (h : Performs y s.progress (State.At source · q) ((x n).run s)) :
    Refines source x (fun _ ↦ y) s q := by
  rw [Performs] at h
  split at h
  · next a r hy =>
    obtain ⟨s', hxs, rfl, hat⟩ := h
    have hyields : Yields x s (.ok a s') := ⟨trivial, n, hxs⟩
    refine ⟨fun h ↦ ?_, fun h ↦ ?_, fun _ ↦ ⟨_, hyields⟩⟩
    · cases h.unique hx hyields
      exact ⟨hat, trivial, 0, hy⟩
    · cases h.unique hx hyields
  · next f r hy =>
    obtain ⟨s', hxs, rfl⟩ := h
    have hyields : Yields x s (.error (.fault f) s') := ⟨trivial, n, hxs⟩
    refine ⟨fun h ↦ ?_, fun h ↦ ?_, fun _ ↦ ⟨_, hyields⟩⟩
    · cases h.unique hx hyields
    · cases h.unique hx hyields
      exact ⟨trivial, 0, hy⟩
  · exact h.elim

theorem pure {a : α} (h : s.At source q) :
    Refines source (fun _ ↦ Pure.pure a) (fun _ ↦ Pure.pure a) s q :=
  of_performs (n := 0) (fueled_const _) (.pure h)

/-- What goes on like something else does what the other does. -/
theorem congr {x x' : Nat → Execution α} {y y' : Nat → Interpreter α} {s' : State}
    (h : Refines source x' y' s' q) (hx : ∀ n, (x n).run s = (x' n).run s')
    (hy : ∀ n, (y n).run s.progress = (y' n).run s'.progress) : Refines source x y s q := by
  refine ⟨fun h' ↦ ?_, fun h' ↦ ?_, fun h' ↦ ?_⟩
  · obtain ⟨hat, hyields⟩ := h.ok (h'.congr fun n ↦ (hx n).symm)
    exact ⟨hat, hyields.congr hy⟩
  · exact (h.fault (h'.congr fun n ↦ (hx n).symm)).congr hy
  · obtain ⟨r', hr'⟩ := h.ends (h'.congr fun n ↦ (hy n).symm)
    exact ⟨r', hr'.congr hx⟩

/-- An execution may read on first. -/
theorem after {x x' : Nat → Execution α} {y : Nat → Interpreter α} {s' : State}
    (h : Refines source x' y s' q) (hx : ∀ n, (x n).run s = (x' n).run s')
    (hprogress : s'.progress = s.progress) : Refines source x y s q :=
  h.congr hx fun n ↦ by rw [hprogress]

/-- A production may pass its fuel, less one, on to another. -/
theorem succ {x x' : Nat → Execution α} {y : Nat → Interpreter α} {s' : State}
    (h : Refines source x' y s' q) (hzero : NoFuel (x 0))
    (hx : ∀ n, (x (n + 1)).run s = (x' n).run s') (hprogress : s'.progress = s.progress) :
    Refines source x y s q := by
  have hless {r} (hr : Yields x s r) : Yields x' s' r := by
    obtain ⟨hr, n, hn⟩ := hr
    cases n with
    | zero =>
      obtain ⟨s', hs'⟩ := hzero s
      rw [← hn, hs'] at hr
      exact absurd hr (not_settled_outOfFuel s')
    | succ n => exact ⟨hr, n, (hx n).symm.trans hn⟩
  refine ⟨fun h' ↦ ?_, fun h' ↦ ?_, fun h' ↦ ?_⟩
  · rw [← hprogress]
    exact h.ok (hless h')
  · rw [← hprogress]
    exact h.fault (hless h')
  · rw [← hprogress] at h'
    obtain ⟨r', hr'⟩ := h.ends h'
    exact ⟨r', hr'.succ hx⟩

/-- Where the interpretation succeeds, the execution does. -/
theorem ok_of_yields {x : Nat → Execution α} {y : Nat → Interpreter α} (hy : Fueled y)
    (h : Refines source x y s q) {a : α} {r : Progress} (hr : Yields y s.progress (.ok a r)) :
    ∃ s', Yields x s (.ok a s') ∧ s'.progress = r := by
  obtain ⟨r', hr'⟩ := h.ends hr
  cases r' with
  | ok b s' =>
    cases (h.ok hr').2.unique hy hr
    exact ⟨s', hr', rfl⟩
  | error e s' =>
    cases e with
    | outOfFuel => exact absurd hr'.1 (not_settled_outOfFuel s')
    | fault f => cases (h.fault hr').unique hy hr

theorem bind {x : Nat → Execution α} {y : Nat → Interpreter α} {f : Nat → α → Execution β}
    {g : Nat → α → Interpreter β} (hx : Fueled x) (hf : ∀ a, Fueled fun n ↦ f n a)
    (hy : Fueled y) (hg : ∀ a, Fueled fun n ↦ g n a) (h : Refines source x y s q)
    (h' : ∀ a s', s'.At source q → Refines source (fun n ↦ f n a) (fun n ↦ g n a) s' q') :
    Refines source (fun n ↦ x n >>= f n) (fun n ↦ y n >>= g n) s q' := by
  refine ⟨fun {b s₂} hb ↦ ?_, fun {e s₂} he ↦ ?_, fun {r} hr ↦ ?_⟩
  · rcases (yields_bind_iff hx hf).1 hb with ⟨a, s₁, ha, hb⟩ | ⟨e, s₁, -, hb⟩
    · obtain ⟨hat, hya⟩ := h.ok ha
      obtain ⟨hat', hgb⟩ := (h' a s₁ hat).ok hb
      exact ⟨hat', hya.bind hy hg hgb⟩
    · cases hb
  · rcases (yields_bind_iff hx hf).1 he with ⟨a, s₁, ha, he⟩ | ⟨e', s₁, he', he⟩
    · obtain ⟨hat, hya⟩ := h.ok ha
      exact hya.bind hy hg ((h' a s₁ hat).fault he)
    · cases he
      exact (yields_bind_iff hy hg).2 (.inr ⟨_, _, h.fault he', rfl⟩)
  -- the interpretation of the first part ends, so its execution does, with the same outcome
  · have hfirst : ∃ r', Yields x s r' := by
      rcases (yields_bind_iff hy hg).1 hr with ⟨a, r₁, ha, -⟩ | ⟨e, r₁, he, -⟩
      · exact h.ends ha
      · exact h.ends he
    obtain ⟨r', hr'⟩ := hfirst
    cases r' with
    | ok a s₁ =>
      obtain ⟨hat, hya⟩ := h.ok hr'
      rcases (yields_bind_iff hy hg).1 hr with ⟨a', r₁, ha', hg'⟩ | ⟨e, r₁, he, -⟩
      · cases hya.unique hy ha'
        obtain ⟨r₂, hr₂⟩ := (h' a s₁ hat).ends hg'
        exact ⟨r₂, hr'.bind hx hf hr₂⟩
      · cases hya.unique hy he
    | error e s₁ =>
      cases e with
      | outOfFuel => exact absurd hr'.1 (not_settled_outOfFuel s₁)
      | fault e => exact ⟨_, (yields_bind_iff hx hf).2 (.inr ⟨e, s₁, hr', rfl⟩)⟩

section Loop

variable {x : Nat → Execution Unit} {pass : Nat → Execution Bool} {back : Execution Unit}
  {y : Nat → Interpreter Unit} {pass' : Nat → Interpreter Bool} {p : Position}

/-- Executed passes that end do what interpreted passes do. -/
theorem repeats_outcome (hx : Repeats x pass back) (hy : Repeats y pass' (Pure.pure ()))
    (hpass' : Fueled pass') (h : ∀ s, s.At source p → Refines source pass pass' s q)
    (hback : ∀ s, s.At source q →
      ∃ s', back.run s = .ok () s' ∧ s'.At source p ∧ s'.progress = s.progress)
    (n : Nat) (s : State) (hs : s.At source p) {r : EStateM.Result Halt State Unit}
    (hr : (x n).run s = r) :
    (∀ {s'}, r = .ok () s' → s'.At source q ∧ Yields y s.progress (.ok () s'.progress)) ∧
      ∀ {f s'}, r = .error (.fault f) s' →
        Yields y s.progress (.error (.fault f) s'.progress) := by
  induction n generalizing s with
  | zero =>
    obtain ⟨s', hs'⟩ := hx.zero s
    obtain rfl := hs'.symm.trans hr
    exact ⟨nofun, nofun⟩
  | succ n ih =>
    rcases hx.run_succ_eq hr with ⟨s₁, hs₁, rfl⟩ | ⟨s₁, hs₁, hr⟩ | ⟨e, s₁, hs₁, rfl⟩
    · obtain ⟨hat, hdone⟩ := (h s hs).ok ⟨trivial, n, hs₁⟩
      refine ⟨fun h ↦ ?_, nofun⟩
      cases h
      exact ⟨hat, hy.yields_done hdone⟩
    · obtain ⟨hat, hagain⟩ := (h s hs).ok ⟨trivial, n, hs₁⟩
      obtain ⟨s₂, hs₂, hat₂, hprogress⟩ := hback s₁ hat
      rw [run_bind_of_ok hs₂] at hr
      obtain ⟨hok, hfault⟩ := ih s₂ hat₂ hr
      rw [hprogress] at hok hfault
      refine ⟨fun h ↦ ?_, fun h ↦ ?_⟩
      · obtain ⟨hat', hyields⟩ := hok h
        exact ⟨hat', hy.yields_again hpass' hagain rfl hyields⟩
      · exact hy.yields_again hpass' hagain rfl (hfault h)
    · refine ⟨nofun, fun h' ↦ ?_⟩
      cases h'
      exact hy.yields_fault ((h s hs).fault ⟨trivial, n, hs₁⟩)

/-- Passes end when they are executed if they end when they are interpreted. -/
theorem repeats_ends (hx : Repeats x pass back) (hpass : Fueled pass)
    (hy : Repeats y pass' (Pure.pure ())) (hpass' : Fueled pass')
    (h : ∀ s, s.At source p → Refines source pass pass' s q)
    (hback : ∀ s, s.At source q →
      ∃ s', back.run s = .ok () s' ∧ s'.At source p ∧ s'.progress = s.progress)
    (n : Nat) (s : State) (hs : s.At source p) {r : EStateM.Result Halt Progress Unit}
    (hsettled : Settled r) (hr : (y n).run s.progress = r) : ∃ r', Yields x s r' := by
  induction n generalizing s with
  | zero =>
    obtain ⟨r', hr'⟩ := hy.zero s.progress
    rw [← hr, hr'] at hsettled
    exact absurd hsettled (not_settled_outOfFuel r')
  | succ n ih =>
    -- the first pass ends, as all of them together do
    have hsettledPass : Settled ((pass' n).run s.progress) := by
      rcases hy.run_succ_eq hr with ⟨r₁, hr₁, -⟩ | ⟨r₁, hr₁, -⟩ | ⟨e, r₁, hr₁, rfl⟩
      · rw [hr₁]
        trivial
      · rw [hr₁]
        trivial
      · rw [hr₁]
        cases e <;> exact hsettled
    have hyields : Yields pass' s.progress ((pass' n).run s.progress) := ⟨hsettledPass, n, rfl⟩
    obtain ⟨r', hr'⟩ := (h s hs).ends hyields
    cases r' with
    | error e s₁ =>
      cases e with
      | outOfFuel => exact absurd hr'.1 (not_settled_outOfFuel s₁)
      | fault e => exact ⟨_, hx.yields_fault hr'⟩
    | ok done s₁ =>
      cases done with
      | true => exact ⟨_, hx.yields_done hr'⟩
      | false =>
        obtain ⟨hat, hagain⟩ := (h s hs).ok hr'
        have hrun : (pass' n).run s.progress = .ok false s₁.progress :=
          hyields.unique hpass' hagain
        obtain ⟨s₂, hs₂, hat₂, hprogress⟩ := hback s₁ hat
        have hrest : (y n).run s₂.progress = r := by
          rw [hy.succ, run_bind_of_ok hrun] at hr
          rw [hprogress]
          exact hr
        obtain ⟨r'', hr''⟩ := ih s₂ hat₂ hrest
        exact ⟨r'', hx.yields_again hpass hr' hs₂ hr''⟩

/-- **Loops.** If a pass that is executed does what a pass that is interpreted does, and the way
back leads to where the passes start, then all passes together do the same. -/
theorem repeats (hx : Repeats x pass back) (hpass : Fueled pass)
    (hy : Repeats y pass' (Pure.pure ())) (hpass' : Fueled pass')
    (h : ∀ s, s.At source p → Refines source pass pass' s q)
    (hback : ∀ s, s.At source q →
      ∃ s', back.run s = .ok () s' ∧ s'.At source p ∧ s'.progress = s.progress)
    (hs : s.At source p) : Refines source x y s q where
  ok := fun ⟨_, n, hn⟩ ↦ (repeats_outcome hx hy hpass' h hback n s hs hn).1 rfl
  fault := fun ⟨_, n, hn⟩ ↦ (repeats_outcome hx hy hpass' h hback n s hs hn).2 rfl
  ends := fun ⟨hr, n, hn⟩ ↦ repeats_ends hx hpass hy hpass' h hback n s hs hr hn

end Loop

end Refines

/-! ## Statements -/

namespace Execution

variable {s : State} {p q : Position}

theorem fueled_pass (address : Nat) : Fueled fun n ↦ pass n address := fun n ↦
  .bind_right _ fun _ ↦ (fueled_statements n).bind fun _ ↦ .bind_right _ fun _ ↦
    fueled_comparison address n

theorem repeats_passes (address : Nat) :
    Repeats (fun n ↦ passes n address) (fun n ↦ pass n address) (rewind address) :=
  ⟨noFuel_outOfFuel, fun n ↦ passes_succ n address⟩

/-- A loop, from its `REPEAT` on. -/
theorem refines_loop (hsource : source.Pairwise fun p q ↦ p.offset < q.offset) {n : Nat}
    {t : Statement} (hp : (Parser.loop (n + 1)).run p = .ok t q)
    (hstatements : ∀ s p q t, s.At source p → (Parser.statements n).run p = .ok t q →
      Refines source statements (t.run (charsBefore source)) s q) :
    let address := charsBefore source p.current.span.start
    ∃ body condition, t = .loop p.current.span.start body condition ∧
      ∀ s, s.At source p →
        Refines source (fun n ↦ pass n address) (fun n ↦ do
          body.run (charsBefore source) n
          condition.run address) s q ∧
        Refines source (fun n ↦ passes n address) (Interpreter.repeatUntil fun n ↦ do
          body.run (charsBefore source) n
          condition.run address) s q := by
  intro address
  obtain ⟨body, condition, p₁, p₂, p₃, place, rfl, hrepeat, hbody, huntil, hcondition⟩ :=
    Parser.run_loop_eq_ok hp
  refine ⟨body, condition, rfl, fun s hs ↦ ?_⟩
  have hpass (s : State) (hs : s.At source p) : Refines source (fun n ↦ pass n address) (fun n ↦ do
      body.run (charsBefore source) n
      condition.run address) s q := by
    obtain ⟨s₁, hs₁, h₁, hprogress, -⟩ := hs.expect_of_ok hrepeat
    refine (Refines.bind fueled_statements
      (fun _ n ↦ .bind_right _ fun _ ↦ fueled_comparison address n)
      (body.fueled_run _) (fun _ ↦ fueled_const _) (hstatements s₁ p₁ p₂ body h₁ hbody)
      fun _ s₂ h₂ ↦ ?_).after (fun n ↦ run_bind_of_ok hs₁) hprogress
    obtain ⟨s₃, hs₃, h₃, hprogress', -⟩ := h₂.expect_of_ok huntil
    exact (Refines.of_performs (fueled_comparison address)
      (performs_comparison address h₃ hcondition)).after (fun n ↦ run_bind_of_ok hs₃) hprogress'
  refine ⟨hpass s hs, .repeats (repeats_passes address) (fueled_pass address)
    (Interpreter.repeats_repeatUntil _) (fun n ↦ (body.fueled_run _ n).bind_left _) hpass
    (fun s' hs' ↦ ?_) hs⟩
  exact hs.rewind hsource (by rw [Parser.loop_token hp]; exact nofun) hs'.1

/-- Statements between `BEGIN` and `END`. -/
theorem refines_compound {n : Nat} {t : Statement} (h : s.At source p)
    (hp : (Parser.compound (n + 1)).run p = .ok t q)
    (hstatements : ∀ s p q t, s.At source p → (Parser.statements n).run p = .ok t q →
      Refines source statements (t.run (charsBefore source)) s q) :
    Refines source compound (t.run (charsBefore source)) s q := by
  rw [Parser.compound] at hp
  obtain ⟨_, p₁, hbegin, hp⟩ := run_bind_eq_ok_iff.1 hp
  obtain ⟨body, p₂, hbody, hp⟩ := run_bind_eq_ok_iff.1 hp
  obtain ⟨_, p₃, hend, hpure⟩ := run_bind_eq_ok_iff.1 hp
  cases hpure
  obtain ⟨s₁, hs₁, h₁, hprogress, -⟩ := h.expect_of_ok hbegin
  have hrefines := (hstatements s₁ p₁ p₂ t h₁ hbody).bind (g := fun _ _ ↦ pure ())
    (f := fun _ _ ↦ expect (.keyword .blockEnd) >>= fun _ ↦ pure ()) fueled_statements
    (fun _ ↦ fueled_const _) (t.fueled_run _) (fun _ ↦ fueled_const _) fun _ s₂ h₂ ↦ by
      obtain ⟨s₃, hs₃, h₃, hprogress', -⟩ := h₂.expect_of_ok hend
      exact (Refines.pure h₃).after (fun _ ↦ run_bind_of_ok hs₃) hprogress'
  simp only [bind_pure_unit] at hrefines
  refine hrefines.succ noFuel_outOfFuel (fun m ↦ ?_) hprogress
  rw [compound]
  exact run_bind_of_ok hs₁

/-- What is read between two positions after the statement `first` makes `t` of it, and goes on as
`t` does after `first`. -/
def GoesOn (source : List Placed) (first t : Statement) (p q : Position) : Prop :=
  ∃ k : Nat → Interpreter Unit, Fueled k ∧
    (∀ m, t.run (charsBefore source) m = (do
      first.run (charsBefore source) m
      k m)) ∧
    ∀ s, s.At source p → Refines source moreStatements k s q

theorem GoesOn.refines {first t : Statement} {x : Nat → Execution Unit} {p₁ : Position}
    (h : GoesOn source first t p₁ q) (hx : Fueled x)
    (hfirst : Refines source x (first.run (charsBefore source)) s p₁) :
    Refines source (fun n ↦ x n >>= fun _ ↦ moreStatements n) (t.run (charsBefore source)) s q := by
  obtain ⟨k, hk, hrun, hrest⟩ := h
  rw [funext hrun]
  exact hfirst.bind hx (fun _ ↦ fueled_moreStatements) (first.fueled_run _) (fun _ ↦ hk)
    fun _ s₁ h₁ ↦ hrest s₁ h₁

theorem goesOn_moreStatements {n : Nat} {first t : Statement}
    (hp : (Parser.moreStatements (n + 1) first).run p = .ok t q)
    (hstatement : ∀ s p q t, s.At source p → (Parser.statement n).run p = .ok t q →
      Refines source statement (t.run (charsBefore source)) s q)
    (hmore : ∀ p q first t, (Parser.moreStatements n first).run p = .ok t q →
      GoesOn source first t p q) :
    GoesOn source first t p q := by
  rw [Parser.moreStatements, Parser.run_current_bind] at hp
  split at hp
  · next ht =>
    obtain ⟨_, p₁, hstep, hp⟩ := run_bind_eq_ok_iff.1 hp
    obtain ⟨second, p₂, hsecond, hp⟩ := run_bind_eq_ok_iff.1 hp
    obtain ⟨rest, p₃, hp, hpure⟩ := run_bind_eq_ok_iff.1 hp
    cases hpure
    refine ⟨rest.run _, rest.fueled_run _, fun _ ↦ rfl, fun s h ↦ ?_⟩
    obtain ⟨s₁, hs₁, h₁, hprogress, -⟩ := h.step_of_ok hstep
    refine ((hmore p₂ q second rest hp).refines fueled_statement
      (hstatement s₁ p₁ p₂ second h₁ hsecond)).succ noFuel_outOfFuel (fun m ↦ ?_) hprogress
    rw [moreStatements, run_current_bind, h.current_eq, ht]
    exact run_bind_of_ok hs₁
  · next hsemicolon =>
    cases hp
    refine ⟨fun _ ↦ pure (), fueled_const _, fun _ ↦ (bind_pure_unit).symm, fun s h ↦ ?_⟩
    refine (Refines.pure h).succ noFuel_outOfFuel (fun m ↦ ?_) rfl
    rw [moreStatements, run_current_bind, h.current_eq]
    split
    · next ht => exact absurd ht hsemicolon
    · rfl

/-- **Statements mean what is executed.** -/
theorem refines_statement (hsource : source.Pairwise fun p q ↦ p.offset < q.offset) (n : Nat) :
    (∀ s p q t, s.At source p → (Parser.statement n).run p = .ok t q →
        Refines source statement (t.run (charsBefore source)) s q) ∧
      (∀ s p q t, s.At source p → (Parser.compound n).run p = .ok t q →
        Refines source compound (t.run (charsBefore source)) s q) ∧
      (∀ s p q t, s.At source p → (Parser.statements n).run p = .ok t q →
        Refines source statements (t.run (charsBefore source)) s q) ∧
      (∀ p q first t, (Parser.moreStatements n first).run p = .ok t q →
        GoesOn source first t p q) ∧
      ∀ s p q t, s.At source p → (Parser.loop n).run p = .ok t q →
        ∃ body condition, t = .loop p.current.span.start body condition ∧
          Refines source (fun n ↦ passes n (charsBefore source p.current.span.start))
            (Interpreter.repeatUntil fun n ↦ do
              body.run (charsBefore source) n
              condition.run (charsBefore source p.current.span.start)) s q := by
  induction n with
  | zero =>
    refine ⟨fun _ p q e _ h ↦ ?_, fun _ p q e _ h ↦ ?_, fun _ p q e _ h ↦ ?_, fun p q _ e h ↦ ?_,
      fun _ p q e _ h ↦ ?_⟩
    all_goals exact absurd h (Parser.noFuel_outOfFuel.run_ne_ok p e q)
  | succ n ih =>
    obtain ⟨hstatement, hcompound, hstatements, hmore, hloop⟩ := ih
    refine ⟨fun s p q t h hp ↦ ?_, fun s p q t h hp ↦ refines_compound h hp hstatements,
      fun s p q t h hp ↦ ?_, fun p q first t hp ↦ goesOn_moreStatements hp hstatement hmore,
      fun s p q t h hp ↦ ?_⟩
    · rw [Parser.statement, Parser.run_current_bind] at hp
      split at hp
      · next ht =>
        obtain ⟨body, p₁, hbody, hpure⟩ := run_bind_eq_ok_iff.1 hp
        cases hpure
        refine (hcompound s p q body h hbody).succ noFuel_outOfFuel (fun m ↦ ?_) rfl
        rw [statement, run_current_bind, h.current_eq, ht]
      · next ht =>
        obtain ⟨y, hy, hperforms⟩ := performs_assignment (charsBefore source) h hp
        rw [hy]
        refine (Refines.of_performs fueled_assignment hperforms).succ noFuel_outOfFuel
          (fun m ↦ ?_) rfl
        rw [statement, run_current_bind, h.current_eq, ht]
      · next ht =>
        -- both note the address of the loop and then start its passes
        have hmark := run_markLoop hsource h.1
        rw [h.current_eq] at hmark
        obtain ⟨body, condition, rfl, hrefines⟩ := hloop
          (s.withProgress ⟨s.store, s.listing.markLoop (charsBefore source p.current.span.start)⟩)
          p q t (h.congr rfl rfl) hp
        refine (hrefines.congr (x := fun n ↦ markLoop >>= passes n) (s := s)
          (fun m ↦ run_bind_of_ok hmark) fun m ↦ rfl).succ noFuel_outOfFuel (fun m ↦ ?_) rfl
        rw [statement, run_current_bind, h.current_eq, ht]
      · next hbegin hname hrepeat =>
        cases hp
        refine (Refines.pure h).succ noFuel_outOfFuel (fun m ↦ ?_) rfl
        rw [statement, run_current_bind, h.current_eq]
        split
        · next ht => exact absurd ht hbegin
        · next ht => exact absurd ht (hname _)
        · next ht => exact absurd ht hrepeat
        · rfl
    · rw [Parser.statements] at hp
      obtain ⟨first, p₁, hfirst, hp⟩ := run_bind_eq_ok_iff.1 hp
      exact ((hmore p₁ q first t hp).refines fueled_statement
        (hstatement s p p₁ first h hfirst)).succ noFuel_outOfFuel (fun m ↦ by rw [statements]) rfl
    · obtain ⟨body, condition, rfl, hrefines⟩ := refines_loop hsource hp hstatements
      exact ⟨body, condition, rfl, (hrefines s h).2⟩

end Execution

end MiniPascal
