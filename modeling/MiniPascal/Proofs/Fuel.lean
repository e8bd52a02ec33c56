import MiniPascal.Execution.Program

/-!
# Fuel

A production takes an amount of fuel, and an outcome for lack of fuel says nothing. Every other
outcome is *settled*: with more fuel it is the same. So a production without its fuel has at most
one outcome in each state, which `Yields` speaks of, and every statement about what a program does
is a statement about `Yields`.

## Approximation

One computation approximates another if the second does the same wherever the first one does not
run out of fuel. Sequencing keeps this, so a whole family of productions grows with its fuel as soon
as each of its members is put together from smaller ones (`Fueled`). All of it is stated for any
state, since trees are read and interpreted with fuel too.
-/

namespace MiniPascal

variable {σ α β : Type}

/-! ## Settled outcomes -/

/-- The outcome is not for lack of fuel. -/
def Settled : EStateM.Result Halt σ α → Prop
  | .error .outOfFuel _ => False
  | _ => True

theorem not_settled_outOfFuel (s : σ) :
    ¬Settled (.error .outOfFuel s : EStateM.Result Halt σ α) := id

theorem eq_of_run_eq {x y : EStateM Halt σ α} (h : ∀ s, x.run s = y.run s) : x = y := funext h

theorem run_get_bind (f : σ → EStateM Halt σ α) (s : σ) :
    (get >>= f : EStateM Halt σ α).run s = (f s).run s := rfl

section Sequence

variable {x : EStateM Halt σ α} {f : α → EStateM Halt σ β} {s : σ}

theorem run_bind_of_ok {s' : σ} {a : α} (h : x.run s = .ok a s') :
    (x >>= f).run s = (f a).run s' := by
  rw [EStateM.run_bind, h]

theorem run_bind_of_error {s' : σ} {e : Halt} (h : x.run s = .error e s') :
    (x >>= f).run s = .error e s' := by
  rw [EStateM.run_bind, h]

/-- What a sequence comes to: the outcome of its second part, or the halt of its first. -/
theorem run_bind_eq_iff {r : EStateM.Result Halt σ β} :
    (x >>= f).run s = r ↔
      (∃ a s', x.run s = .ok a s' ∧ (f a).run s' = r) ∨
        ∃ e s', x.run s = .error e s' ∧ r = .error e s' := by
  rw [EStateM.run_bind]
  constructor
  · intro h
    cases hx : x.run s with
    | ok a s' => exact .inl ⟨a, s', rfl, by rw [hx] at h; exact h⟩
    | error e s' => exact .inr ⟨e, s', rfl, by rw [hx] at h; exact h.symm⟩
  · rintro (⟨a, s', hx, hr⟩ | ⟨e, s', hx, rfl⟩)
    · rw [hx]
      exact hr
    · rw [hx]

/-- A sequence succeeds just if both of its parts do. -/
theorem run_bind_eq_ok_iff {s₂ : σ} {b : β} :
    (x >>= f).run s = .ok b s₂ ↔ ∃ a s₁, x.run s = .ok a s₁ ∧ (f a).run s₁ = .ok b s₂ := by
  rw [run_bind_eq_iff]
  constructor
  · rintro (h | ⟨e, s', -, h⟩)
    · exact h
    · cases h
  · exact .inl

theorem run_bind_eq_error_iff {s₂ : σ} {e : Halt} :
    (x >>= f).run s = .error e s₂ ↔
      x.run s = .error e s₂ ∨ ∃ a s₁, x.run s = .ok a s₁ ∧ (f a).run s₁ = .error e s₂ := by
  rw [run_bind_eq_iff]
  constructor
  · rintro (h | ⟨e', s', hx, h⟩)
    · exact .inr h
    · cases h
      exact .inl hx
  · rintro (h | h)
    · exact .inr ⟨e, s₂, h, rfl⟩
    · exact .inl h

end Sequence

/-! ## Approximation -/

/-- Wherever the first computation does not run out of fuel, the second does the same. -/
def Approximates (x y : EStateM Halt σ α) : Prop := ∀ s, Settled (x.run s) → y.run s = x.run s

namespace Approximates

theorem refl (x : EStateM Halt σ α) : Approximates x x := fun _ _ ↦ rfl

theorem trans {x y z : EStateM Halt σ α} (hxy : Approximates x y) (hyz : Approximates y z) :
    Approximates x z := by
  intro s hs
  have hy : y.run s = x.run s := hxy s hs
  rw [hyz s (by rw [hy]; exact hs), hy]

theorem bind {x y : EStateM Halt σ α} {f g : α → EStateM Halt σ β} (hxy : Approximates x y)
    (hfg : ∀ a, Approximates (f a) (g a)) : Approximates (x >>= f) (y >>= g) := by
  intro s hs
  rw [EStateM.run_bind] at hs
  rw [EStateM.run_bind, EStateM.run_bind]
  cases hx : x.run s with
  | ok a s' =>
    rw [hx] at hs
    rw [hxy s (by rw [hx]; trivial), hx]
    exact hfg a s' hs
  | error e s' =>
    rw [hx] at hs
    rw [hxy s (by rw [hx]; cases e <;> exact hs), hx]

/-- The first part of a sequence may take no fuel. -/
theorem bind_right (x : EStateM Halt σ α) {f g : α → EStateM Halt σ β}
    (hfg : ∀ a, Approximates (f a) (g a)) : Approximates (x >>= f) (x >>= g) :=
  (refl x).bind hfg

/-- The second part of a sequence may take no fuel. -/
theorem bind_left {x y : EStateM Halt σ α} (hxy : Approximates x y) (f : α → EStateM Halt σ β) :
    Approximates (x >>= f) (y >>= f) :=
  hxy.bind fun _ ↦ .refl _

end Approximates

/-- What halts for lack of fuel in every state. -/
def NoFuel (x : EStateM Halt σ α) : Prop := ∀ s, ∃ s', x.run s = .error .outOfFuel s'

theorem NoFuel.approximates {x : EStateM Halt σ α} (h : NoFuel x) (y : EStateM Halt σ α) :
    Approximates x y := by
  intro s hs
  obtain ⟨s', hx⟩ := h s
  rw [hx] at hs
  exact absurd hs (not_settled_outOfFuel s')

theorem NoFuel.run_ne_ok {x : EStateM Halt σ α} (h : NoFuel x) (s : σ) (a : α) (s' : σ) :
    x.run s ≠ .ok a s' := by
  obtain ⟨s'', hx⟩ := h s
  rw [hx]
  exact nofun

theorem noFuel_throw : NoFuel (throw .outOfFuel : EStateM Halt σ α) := fun s ↦ ⟨s, rfl⟩

/-! ## Families that grow with their fuel -/

/-- More fuel does the same or goes further. -/
def Fueled (x : Nat → EStateM Halt σ α) : Prop := ∀ n, Approximates (x n) (x (n + 1))

theorem fueled_const (x : EStateM Halt σ α) : Fueled fun _ ↦ x := fun _ ↦ .refl x

theorem Fueled.bind {x : Nat → EStateM Halt σ α} {f : Nat → α → EStateM Halt σ β}
    (hx : Fueled x) (hf : ∀ a, Fueled fun n ↦ f n a) : Fueled fun n ↦ x n >>= f n :=
  fun n ↦ (hx n).bind fun a ↦ hf a n

theorem Fueled.le {x : Nat → EStateM Halt σ α} (hx : Fueled x) {m n : Nat} (h : m ≤ n) :
    Approximates (x m) (x n) := by
  induction n with
  | zero =>
    rw [Nat.le_zero.1 h]
    exact .refl _
  | succ n ih =>
    rcases Nat.le_succ_iff.1 h with h | rfl
    · exact (ih h).trans (hx n)
    · exact .refl _

/-- An outcome stays with more fuel. -/
theorem Fueled.run_of_le {x : Nat → EStateM Halt σ α} (hx : Fueled x) {m n : Nat} (hmn : m ≤ n)
    {s : σ} {r : EStateM.Result Halt σ α} (hr : Settled r) (h : (x m).run s = r) :
    (x n).run s = r := by
  rw [← h] at hr
  rw [hx.le hmn s hr, h]

/-- With enough fuel, the outcome in a given state is `r`. -/
def Yields (x : Nat → EStateM Halt σ α) (s : σ) (r : EStateM.Result Halt σ α) : Prop :=
  Settled r ∧ ∃ n, (x n).run s = r

/-- There is at most one outcome. -/
theorem Yields.unique {x : Nat → EStateM Halt σ α} (hx : Fueled x) {s : σ}
    {r r' : EStateM.Result Halt σ α} (h : Yields x s r) (h' : Yields x s r') : r = r' := by
  obtain ⟨hr, n, hn⟩ := h
  obtain ⟨hr', m, hm⟩ := h'
  rw [← hx.run_of_le (Nat.le_max_left n m) hr hn, hx.run_of_le (Nat.le_max_right n m) hr' hm]

theorem Yields.congr {x y : Nat → EStateM Halt σ α} {s s' : σ} {r : EStateM.Result Halt σ α}
    (h : Yields x s' r) (hrun : ∀ n, (y n).run s = (x n).run s') : Yields y s r := by
  obtain ⟨hr, n, hn⟩ := h
  exact ⟨hr, n, (hrun n).trans hn⟩

/-- A production that passes its fuel, less one, on to another has the outcomes of the other. -/
theorem Yields.succ {x y : Nat → EStateM Halt σ α} {s s' : σ} {r : EStateM.Result Halt σ α}
    (h : Yields x s' r) (hrun : ∀ n, (y (n + 1)).run s = (x n).run s') : Yields y s r := by
  obtain ⟨hr, n, hn⟩ := h
  exact ⟨hr, n + 1, (hrun n).trans hn⟩

/-- A sequence has the outcomes of its second part after its first, and the faults of its first. -/
theorem yields_bind_iff {x : Nat → EStateM Halt σ α} {f : Nat → α → EStateM Halt σ β}
    (hx : Fueled x) (hf : ∀ a, Fueled fun n ↦ f n a) {s : σ} {r : EStateM.Result Halt σ β} :
    Yields (fun n ↦ x n >>= f n) s r ↔
      (∃ a s', Yields x s (.ok a s') ∧ Yields (fun n ↦ f n a) s' r) ∨
        ∃ e s', Yields x s (.error (.fault e) s') ∧ r = .error (.fault e) s' := by
  constructor
  · rintro ⟨hr, n, hn⟩
    rcases run_bind_eq_iff.1 hn with ⟨a, s', hxs, hfs⟩ | ⟨e, s', hxs, rfl⟩
    · exact .inl ⟨a, s', ⟨trivial, n, hxs⟩, ⟨hr, n, hfs⟩⟩
    · cases e with
      | fault e => exact .inr ⟨e, s', ⟨trivial, n, hxs⟩, rfl⟩
      | outOfFuel => exact absurd hr (not_settled_outOfFuel s')
  · rintro (⟨a, s', ⟨-, n, hn⟩, ⟨hr, m, hm⟩⟩ | ⟨e, s', ⟨-, n, hn⟩, rfl⟩)
    · -- the larger of the two amounts is enough for both parts
      have hxs : (x (max n m)).run s = .ok a s' :=
        hx.run_of_le (Nat.le_max_left n m) trivial hn
      have hfs : (f (max n m) a).run s' = r := (hf a).run_of_le (Nat.le_max_right n m) hr hm
      exact ⟨hr, max n m, (run_bind_of_ok hxs).trans hfs⟩
    · exact ⟨trivial, n, run_bind_of_error hn⟩

/-! ## Repetitions -/

/-- A pass is repeated until it says that it was the last, with something else in between. -/
structure Repeats (x : Nat → EStateM Halt σ Unit) (pass : Nat → EStateM Halt σ Bool)
    (back : EStateM Halt σ Unit) : Prop where
  zero : NoFuel (x 0)
  succ : ∀ n, x (n + 1) = (do
    let done ← pass n
    if done then return ()
    else
      back
      x n)

namespace Repeats

variable {x : Nat → EStateM Halt σ Unit} {pass : Nat → EStateM Halt σ Bool}
  {back : EStateM Halt σ Unit} {s s' s'' : σ}

theorem fueled (h : Repeats x pass back) (hpass : Fueled pass) : Fueled x := by
  intro n
  induction n with
  | zero => exact h.zero.approximates _
  | succ n ih =>
    rw [h.succ, h.succ]
    refine (hpass n).bind fun done ↦ ?_
    split
    · exact .refl _
    · exact .bind_right _ fun _ ↦ ih

/-- What a repetition comes to, by its first pass. -/
theorem run_succ_eq (h : Repeats x pass back) {n : Nat} {r : EStateM.Result Halt σ Unit}
    (hr : (x (n + 1)).run s = r) :
    (∃ s', (pass n).run s = .ok true s' ∧ r = .ok () s') ∨
      (∃ s', (pass n).run s = .ok false s' ∧ (back >>= fun _ ↦ x n).run s' = r) ∨
      ∃ e s', (pass n).run s = .error e s' ∧ r = .error e s' := by
  rw [h.succ] at hr
  rcases run_bind_eq_iff.1 hr with ⟨done, s', hs', hr⟩ | he
  · cases done with
    | true => exact .inl ⟨s', hs', hr.symm⟩
    | false => exact .inr (.inl ⟨s', hs', hr⟩)
  · exact .inr (.inr he)

/-- A repetition that succeeds does so after a last pass and any number of others. -/
theorem induction (h : Repeats x pass back) {P : σ → σ → Prop}
    (hdone : ∀ n s s', (pass n).run s = .ok true s' → P s s')
    (hagain : ∀ n s s₁ s₂ s', (pass n).run s = .ok false s₁ → back.run s₁ = .ok () s₂ →
      P s₂ s' → P s s')
    {n : Nat} (hx : (x n).run s = .ok () s') : P s s' := by
  induction n generalizing s with
  | zero => exact absurd hx (h.zero.run_ne_ok s () s')
  | succ n ih =>
    rcases h.run_succ_eq hx with ⟨s₁, hs₁, heq⟩ | ⟨s₁, hs₁, hrest⟩ | ⟨e, s₁, -, heq⟩
    · cases heq
      exact hdone n s s' hs₁
    · obtain ⟨_, s₂, hs₂, hrest⟩ := run_bind_eq_ok_iff.1 hrest
      exact hagain n s s₁ s₂ s' hs₁ hs₂ (ih hrest)
    · cases heq

theorem yields_done (h : Repeats x pass back) (hpass : Yields pass s (.ok true s')) :
    Yields x s (.ok () s') := by
  obtain ⟨-, n, hn⟩ := hpass
  refine ⟨trivial, n + 1, ?_⟩
  rw [h.succ, run_bind_of_ok hn]
  rfl

theorem yields_fault (h : Repeats x pass back) {f : Fault}
    (hpass : Yields pass s (.error (.fault f) s')) : Yields x s (.error (.fault f) s') := by
  obtain ⟨-, n, hn⟩ := hpass
  exact ⟨trivial, n + 1, by rw [h.succ, run_bind_of_error hn]⟩

theorem yields_again (h : Repeats x pass back) (hfueled : Fueled pass)
    (hpass : Yields pass s (.ok false s')) (hback : back.run s' = .ok () s'')
    {r : EStateM.Result Halt σ Unit} (hr : Yields x s'' r) : Yields x s r := by
  obtain ⟨-, n, hn⟩ := hpass
  obtain ⟨hr, m, hm⟩ := hr
  refine ⟨hr, max n m + 1, ?_⟩
  have hn' : (pass (max n m)).run s = .ok false s' :=
    hfueled.run_of_le (Nat.le_max_left n m) trivial hn
  have hm' : (x (max n m)).run s'' = r :=
    (h.fueled hfueled).run_of_le (Nat.le_max_right n m) hr hm
  rw [h.succ, run_bind_of_ok hn', if_neg Bool.false_ne_true, run_bind_of_ok hback, hm']

end Repeats

/-! ## The productions of an execution -/

namespace Execution

theorem noFuel_outOfFuel : NoFuel (outOfFuel : Execution α) := noFuel_throw

theorem approximates_binary (op : Operator) (left : Value) {x y : Execution Value}
    (h : Approximates x y) : Approximates (binary op left x) (binary op left y) :=
  .bind_right _ fun _ ↦ .bind_right _ fun _ ↦ h.bind_left _

/-- One unit of fuel more, for all productions of expressions at once. -/
theorem approximates_expression (n : Nat) :
    Approximates (expression n) (expression (n + 1)) ∧
      (∀ left, Approximates (sums n left) (sums (n + 1) left)) ∧
      Approximates (term n) (term (n + 1)) ∧
      (∀ left, Approximates (products n left) (products (n + 1) left)) ∧
      Approximates (factor n) (factor (n + 1)) := by
  induction n with
  | zero =>
    refine ⟨?_, fun left ↦ ?_, ?_, fun left ↦ ?_, ?_⟩
    all_goals exact noFuel_outOfFuel.approximates _
  | succ n ih =>
    obtain ⟨he, hs, ht, hp, hf⟩ := ih
    refine ⟨ht.bind hs, fun left ↦ ?_, hf.bind hp, fun left ↦ ?_, ?_⟩
    · rw [sums, sums]
      refine .bind_right _ fun here ↦ ?_
      split
      · exact (approximates_binary _ left ht).bind hs
      · exact .refl _
    · rw [products, products]
      refine .bind_right _ fun here ↦ ?_
      split
      · exact (approximates_binary _ left hf).bind hp
      · exact .refl _
    · rw [factor, factor]
      refine .bind_right _ fun here ↦ ?_
      split
      · exact .bind_right _ fun _ ↦ he
      · exact .bind_right _ fun _ ↦ he.bind_left _
      · exact .refl _
      · exact .refl _
      · exact .bind_right _ fun _ ↦ he.bind_left _
      · exact .refl _
      · exact .refl _

theorem fueled_expression : Fueled expression := fun n ↦ (approximates_expression n).1

theorem fueled_assignment : Fueled assignment := fun n ↦
  .bind_right _ fun _ ↦ .bind_right _ fun _ ↦ .bind_right _ fun _ ↦
    (fueled_expression n).bind_left _

theorem fueled_comparison (address : Nat) : Fueled fun n ↦ comparison n address := by
  intro n
  refine (fueled_expression n).bind fun left ↦ .bind_right _ fun here ↦ ?_
  split
  · exact .bind_right _ fun _ ↦ .bind_right _ fun _ ↦ (fueled_expression n).bind_left _
  · exact .refl _

/-- One unit of fuel more, for all productions of statements at once. A loop hands its fuel on to
its next pass, so its passes are part of the induction. -/
theorem approximates_statement (n : Nat) :
    Approximates (statement n) (statement (n + 1)) ∧
      Approximates (compound n) (compound (n + 1)) ∧
      Approximates (statements n) (statements (n + 1)) ∧
      Approximates (moreStatements n) (moreStatements (n + 1)) ∧
      ∀ address, Approximates (passes n address) (passes (n + 1) address) := by
  induction n with
  | zero =>
    refine ⟨?_, ?_, ?_, ?_, fun address ↦ ?_⟩
    all_goals exact noFuel_outOfFuel.approximates _
  | succ n ih =>
    obtain ⟨hs, hc, hss, hm, hp⟩ := ih
    refine ⟨?_, ?_, ?_, ?_, fun address ↦ ?_⟩
    · rw [statement, statement]
      refine .bind_right _ fun here ↦ ?_
      split
      · exact hc
      · exact fueled_assignment n
      · exact .bind_right _ fun address ↦ hp address
      · exact .refl _
    · exact .bind_right _ fun _ ↦ hss.bind_left _
    · exact hs.bind fun _ ↦ hm
    · rw [moreStatements, moreStatements]
      refine .bind_right _ fun here ↦ ?_
      split
      · exact .bind_right _ fun _ ↦ hs.bind fun _ ↦ hm
      · exact .refl _
    · rw [passes, passes]
      refine .bind_right _ fun _ ↦ hss.bind fun _ ↦ .bind_right _ fun _ ↦
        (fueled_comparison address n).bind fun done ↦ ?_
      split
      · exact .refl _
      · exact .bind_right _ fun _ ↦ hp address

theorem fueled_statement : Fueled statement := fun n ↦ (approximates_statement n).1

theorem fueled_compound : Fueled compound := fun n ↦ (approximates_statement n).2.1

theorem fueled_statements : Fueled statements := fun n ↦ (approximates_statement n).2.2.1

theorem fueled_moreStatements : Fueled moreStatements :=
  fun n ↦ (approximates_statement n).2.2.2.1

theorem fueled_moreNames : Fueled moreNames := by
  intro n
  induction n with
  | zero => exact noFuel_outOfFuel.approximates _
  | succ n ih =>
    rw [moreNames, moreNames]
    refine .bind_right _ fun here ↦ ?_
    split
    · exact .bind_right _ fun _ ↦ .bind_right _ fun _ ↦ ih.bind_left _
    · exact .refl _

theorem fueled_group : Fueled group := fun n ↦
  .bind_right _ fun _ ↦ (fueled_moreNames n).bind_left _

theorem fueled_groups : Fueled groups := by
  intro n
  induction n with
  | zero => exact noFuel_outOfFuel.approximates _
  | succ n ih =>
    rw [groups, groups]
    refine (fueled_group n).bind fun _ ↦ .bind_right _ fun _ ↦ .bind_right _ fun here ↦ ?_
    split
    · exact ih
    · exact .refl _

theorem fueled_declarations : Fueled declarations := by
  intro n
  refine .bind_right _ fun here ↦ ?_
  split
  · exact .bind_right _ fun _ ↦ fueled_groups n
  · exact .refl _

/-- More fuel changes no outcome of a program but the lack of fuel. -/
theorem fueled_program : Fueled program := fun n ↦
  .bind_right _ fun _ ↦ .bind_right _ fun _ ↦ .bind_right _ fun _ ↦
    (fueled_declarations n).bind fun _ ↦ (fueled_compound n).bind_left _

end Execution

end MiniPascal
