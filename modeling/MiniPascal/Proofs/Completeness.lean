import MiniPascal.Proofs.Derivation
import MiniPascal.Proofs.Recognition

/-!
# What the parser reads

The parser returns every tree in which the signs take all: where tokens make such a phrase and what
comes after them cannot prolong it, the parser takes just these tokens and returns that tree.

A derivation grows an expression at its right end, while the parser carries what it has read so far
from operator to operator. The two meet in a statement about what comes next (`Reads`): if reading
on from a phrase comes to some outcome, then so does reading from its start.

Since the parser has one outcome only, tokens make at most one program in which the signs take all,
and this program is what the parser returns.
-/

namespace MiniPascal

open Grammar

namespace Yields

variable {σ α β : Type} {x : Nat → EStateM Halt σ α} {f : Nat → α → EStateM Halt σ β} {s s' : σ}
  {a : α}

/-- A sequence goes on where its first part succeeds. -/
theorem bind (hx : Fueled x) (hf : ∀ a, Fueled fun n ↦ f n a) {r : EStateM.Result Halt σ β}
    (h : Yields x s (.ok a s')) (h' : Yields (fun n ↦ f n a) s' r) :
    Yields (fun n ↦ x n >>= f n) s r :=
  (yields_bind_iff hx hf).2 (.inl ⟨a, s', h, h'⟩)

theorem pure (a : α) (s : σ) : Yields (fun _ ↦ Pure.pure a) s (.ok a s : EStateM.Result Halt σ α) :=
  ⟨trivial, 0, rfl⟩

theorem map (hx : Fueled x) (g : α → β) (h : Yields x s (.ok a s')) :
    Yields (fun n ↦ x n >>= fun a ↦ Pure.pure (g a)) s (.ok (g a) s') :=
  h.bind (f := fun _ a ↦ Pure.pure (g a)) hx (fun _ ↦ fueled_const _) (.pure (g a) s')

/-- The second part of a sequence may take no fuel, and what it makes goes into the result. -/
theorem closing {γ : Type} (hx : Fueled x) {y : EStateM Halt σ β} {b : β} {s'' : σ} (g : α → β → γ)
    (h : Yields x s (.ok a s')) (hy : y.run s' = .ok b s'') :
    Yields (fun n ↦ x n >>= fun a ↦ y >>= fun b ↦ Pure.pure (g a b)) s (.ok (g a b) s'') :=
  h.bind (f := fun _ a ↦ y >>= fun b ↦ Pure.pure (g a b)) hx (fun _ ↦ fueled_const _)
    ((Yields.pure (g a b) s'').congr fun _ ↦ run_bind_of_ok hy)

end Yields

/-! ## Single tokens -/

namespace Position

/-- A token that is there can be taken. -/
theorem Leads.step {p q : Position} {l : Lexeme} {ts : List Lexeme} (h : p.Leads (l :: ts) q) :
    ∃ p', Parser.step.run p = .ok () p' ∧ p'.Leads ts q := by
  obtain ⟨c, u, e⟩ := p
  obtain ⟨h, he⟩ := h
  simp only [lexemes, List.cons_append, List.cons.injEq] at h
  obtain ⟨-, rfl⟩ := h
  cases ts with
  | nil => exact ⟨_, rfl, rfl, he⟩
  | cons t ts => exact ⟨_, rfl, rfl, he⟩

theorem Leads.expect {p q : Position} {l : Lexeme} {ts : List Lexeme} {t : Token}
    (h : p.Leads (l :: ts) q) (hl : l.token.same t) :
    ∃ p', (Parser.expect t).run p = .ok l.span p' ∧ p'.Leads ts q := by
  obtain ⟨p', hp', hq⟩ := h.step
  refine ⟨p', ?_, hq⟩
  rw [Parser.expect, Parser.run_current_bind, h.head, if_pos hl]
  exact run_bind_of_ok hp'

theorem Leads.keyword {p q : Position} {l : Lexeme} {ts : List Lexeme} {k : Keyword}
    (h : p.Leads (l :: ts) q) (hl : l.token = .keyword k) :
    ∃ p', (Parser.expect (.keyword k)).run p = .ok l.span p' ∧ p'.Leads ts q :=
  h.expect (Token.same_keyword_iff.2 hl)

theorem Leads.symbol {p q : Position} {l : Lexeme} {ts : List Lexeme} {s : Symbol}
    (h : p.Leads (l :: ts) q) (hl : l.token = .symbol s) :
    ∃ p', (Parser.expect (.symbol s)).run p = .ok l.span p' ∧ p'.Leads ts q :=
  h.expect (Token.same_symbol_iff.2 hl)

theorem Leads.identifier {p q : Position} {l : Lexeme} {ts : List Lexeme} {name : String}
    (h : p.Leads (l :: ts) q) (hl : l.token = .identifier name) :
    ∃ p', Parser.identifier.run p = .ok (name, l.span) p' ∧ p'.Leads ts q := by
  obtain ⟨p', hp', hq⟩ := h.step
  refine ⟨p', ?_, hq⟩
  rw [Parser.identifier, Parser.run_current_bind, h.head, hl]
  exact run_bind_of_ok hp'

end Position

/-! ## Expressions -/

namespace Parser

/-- Reading an expression of a given rank from one position to another. Where the rank lets
operators follow, whatever they come to is what all of it comes to. -/
def Reads (e : Expression) (p q : Position) : Rank → Prop
  | .factor => Yields factor p (.ok e q)
  | .term => ∀ r, Yields (fun n ↦ products n e) q r → Yields term p r
  | .expression => Operator.multiplicative? q.current.token = none →
    ∀ r, Yields (fun n ↦ sums n e) q r → Yields expression p r

variable {p q : Position} {e : Expression}

theorem yields_products_self (h : Operator.multiplicative? p.current.token = none) :
    Yields (fun n ↦ products n e) p (.ok e p) := by
  refine (Yields.pure e p).succ fun n ↦ ?_
  rw [products, run_current_bind, h]

theorem yields_sums_self (h : Operator.additive? p.current.token = none) :
    Yields (fun n ↦ sums n e) p (.ok e p) := by
  refine (Yields.pure e p).succ fun n ↦ ?_
  rw [sums, run_current_bind, h]

theorem yields_binary {x : Nat → Parser Expression} (hx : Fueled x) {l : Lexeme} {op : Operator}
    {f : Expression} {us : List Lexeme} (hp : p.Leads (l :: us) q)
    (hf : ∀ p', p'.Leads us q → Yields x p' (.ok f q)) :
    Yields (fun n ↦ binary op e (x n)) p (.ok (.binary op l.span e f) q) := by
  obtain ⟨p', hp', hus⟩ := hp.step
  rw [← hp.head]
  exact ((hf p' hus).map hx _).congr fun n ↦ run_bind_of_ok hp'

/-- A multiplicative operator with its operand. -/
theorem yields_products_operator {l : Lexeme} {op : Operator} {f : Expression}
    {us : List Lexeme} {r : EStateM.Result Halt Position Expression} (hp : p.Leads (l :: us) q)
    (hl : Operator.multiplicative? l.token = some op)
    (hf : ∀ p', p'.Leads us q → Yields factor p' (.ok f q))
    (h : Yields (fun n ↦ products n (.binary op l.span e f)) q r) :
    Yields (fun n ↦ products n e) p r := by
  refine (Yields.bind (fun n ↦ approximates_binary op e (fueled_factor n)) fueled_products
    (yields_binary fueled_factor hp hf) h).succ fun n ↦ ?_
  rw [products, run_current_bind, hp.head, hl]

/-- An additive operator with its operand. -/
theorem yields_sums_operator {l : Lexeme} {op : Operator} {f : Expression}
    {us : List Lexeme} {r : EStateM.Result Halt Position Expression} (hp : p.Leads (l :: us) q)
    (hl : Operator.additive? l.token = some op)
    (hf : ∀ p', p'.Leads us q → Yields term p' (.ok f q))
    (h : Yields (fun n ↦ sums n (.binary op l.span e f)) q r) :
    Yields (fun n ↦ sums n e) p r := by
  refine (Yields.bind (fun n ↦ approximates_binary op e (fueled_term n)) fueled_sums
    (yields_binary fueled_term hp hf) h).succ fun n ↦ ?_
  rw [sums, run_current_bind, hp.head, hl]

/-- An expression before anything but an operator is read in full. -/
theorem Reads.yields_expression (h : Reads e p q .expression)
    (hq : Operator.ofToken? q.current.token = none) : Yields expression p (.ok e q) := by
  obtain ⟨ha, hm⟩ := Operator.ofToken?_eq_none_iff.1 hq
  exact h hm _ (yields_sums_self ha)

/-- A sign with an expression. -/
theorem yields_signed {l : Lexeme} {us : List Lexeme} {sign : Span → Expression → Expression}
    (hp : p.Leads (l :: us) q) (he : ∀ p', p'.Leads us q → Yields expression p' (.ok e q))
    (hfactor : ∀ n, (factor (n + 1)).run p =
      (step >>= fun _ ↦ expression n >>= fun e ↦ pure (sign l.span e)).run p) :
    Yields factor p (.ok (sign l.span e) q) := by
  obtain ⟨p', hp', hus⟩ := hp.step
  refine ((he p' hus).map fueled_expression (sign l.span)).succ fun n ↦ ?_
  rw [hfactor]
  exact run_bind_of_ok hp'

/-- A single token. -/
theorem yields_operand {l : Lexeme} (hp : p.Leads [l] q)
    (hfactor : ∀ n, (factor (n + 1)).run p = (step >>= fun _ ↦ pure e).run p) :
    Yields factor p (.ok e q) := by
  obtain ⟨p', hp', hnil⟩ := hp.step
  obtain rfl := Position.leads_nil_iff.1 hnil
  refine (Yields.pure e p').succ fun n ↦ ?_
  rw [hfactor]
  exact run_bind_of_ok hp'

/-- An expression in parentheses. -/
theorem yields_parens {l r : Lexeme} {us : List Lexeme} (hp : p.Leads (l :: (us ++ [r])) q)
    (hl : l.token = .symbol .openParen) (hr : r.token = .symbol .closeParen)
    (he : ∀ p' q' : Position, p'.Leads us q' → Operator.ofToken? q'.current.token = none →
      Yields expression p' (.ok e q')) :
    Yields factor p (.ok (.parens ⟨l.span.start, r.span.stop⟩ e) q) := by
  obtain ⟨p', hp', hus⟩ := hp.step
  obtain ⟨q', hq', hclose⟩ := hus.split
  obtain ⟨q'', hq'', hnil⟩ := hclose.symbol hr
  obtain rfl := Position.leads_nil_iff.1 hnil
  have hinner := he p' q' hq' (by rw [hclose.head, hr]; rfl)
  refine (hinner.closing fueled_expression
    (fun e close ↦ Expression.parens ⟨l.span.start, close.stop⟩ e) hq'').succ fun n ↦ ?_
  rw [factor, run_current_bind, hp.head, hl]
  exact run_bind_of_ok hp'

/-- **Expressions are read.** What the signs would take must not come next. -/
theorem reads_of_derives {r : Rank} {ts : List Lexeme} (h : e.Derives r ts) (hs : e.SignsTakeAll)
    {p q : Position} (hp : p.Leads ts q)
    (hq : e.EndsInSign → Operator.ofToken? q.current.token = none) : Reads e p q r := by
  induction h generalizing p q with
  | integer h => exact yields_operand hp fun n ↦ by rw [factor, run_current_bind, hp.head, h]; rfl
  | real h => exact yields_operand hp fun n ↦ by rw [factor, run_current_bind, hp.head, h]; rfl
  | named h => exact yields_operand hp fun n ↦ by rw [factor, run_current_bind, hp.head, h]
  | plus h _ ih =>
    refine yields_signed hp (fun p' hp' ↦ ?_) fun n ↦ by rw [factor, run_current_bind, hp.head, h]
    exact (ih hs hp' fun _ ↦ hq trivial).yields_expression (hq trivial)
  | minus h _ ih =>
    refine yields_signed hp (fun p' hp' ↦ ?_) fun n ↦ by rw [factor, run_current_bind, hp.head, h]
    exact (ih hs hp' fun _ ↦ hq trivial).yields_expression (hq trivial)
  | parens hl _ hr ih =>
    exact yields_parens hp hl hr fun p' q' hp' hq' ↦
      (ih hs hp' fun _ ↦ hq').yields_expression hq'
  | factor _ ih =>
    intro r hr
    exact (Yields.bind fueled_factor fueled_products (ih hs hp hq) hr).succ fun n ↦ by rw [term]
  | product _ h _ ihl ihr =>
    intro r hr
    obtain ⟨q', hq', hop⟩ := hp.split
    -- an operator comes after the left operand, which therefore must not end in a sign
    refine ihl hs.2.1 hq' (fun hend ↦ absurd hend hs.1) r (yields_products_operator hop h ?_ hr)
    exact fun p' hp' ↦ ihr hs.2.2 hp' hq
  | term _ ih =>
    intro hm r hr
    have hterm := ih hs hp hq _ (yields_products_self hm)
    exact (Yields.bind fueled_term fueled_sums hterm hr).succ fun n ↦ by rw [expression]
  | sum _ h _ ihl ihr =>
    intro hm r hr
    obtain ⟨q', hq', hop⟩ := hp.split
    -- the term on the left is complete, as the operator after it is no multiplicative one
    refine ihl hs.2.1 hq' (fun hend ↦ absurd hend hs.1)
      (by rw [hop.head]; exact Operator.multiplicative?_eq_none h) r
      (yields_sums_operator hop h ?_ hr)
    exact fun p' hp' ↦ ihr hs.2.2 hp' hq _ (yields_products_self hm)

theorem yields_expression {ts : List Lexeme} (h : e.Derives .expression ts) (hs : e.SignsTakeAll)
    (hp : p.Leads ts q) (hq : Operator.ofToken? q.current.token = none) :
    Yields expression p (.ok e q) :=
  (reads_of_derives h hs hp fun _ ↦ hq).yields_expression hq

theorem yields_comparison {ts : List Lexeme} {c : Condition} (h : c.Derives ts)
    (hleft : c.left.SignsTakeAll) (hright : c.right.SignsTakeAll) (hp : p.Leads ts q)
    (hq : Operator.ofToken? q.current.token = none) : Yields comparison p (.ok c q) := by
  obtain @⟨_, c, _, _, e, f, left, hc, right⟩ := h
  obtain ⟨p', hp', hop⟩ := hp.split
  obtain ⟨q', hq', hus⟩ := hop.step
  have hnone : Operator.ofToken? p'.current.token = none := by
    rw [hop.head]
    exact Operator.ofToken?_eq_none_of_comparison hc
  refine .bind fueled_expression fueled_compared (yields_expression left hleft hp' hnone) ?_
  refine ((yields_expression right hright hus hq).map fueled_expression
    (Condition.mk c e)).congr fun n ↦ ?_
  rw [compared, run_current_bind, hop.head, hc]
  exact run_bind_of_ok hq'

/-- **An expression is read to its end**: no operator follows it, and none that joins factors
follows a term. -/
theorem ofToken?_of_expression (n : Nat) :
    (∀ p e q, (expression n).run p = .ok e q → Operator.ofToken? q.current.token = none) ∧
      (∀ left p e q, (sums n left).run p = .ok e q →
        Operator.multiplicative? p.current.token = none →
        Operator.ofToken? q.current.token = none) ∧
      (∀ p e q, (term n).run p = .ok e q → Operator.multiplicative? q.current.token = none) ∧
      ∀ left p e q, (products n left).run p = .ok e q →
        Operator.multiplicative? q.current.token = none := by
  induction n with
  | zero =>
    refine ⟨fun p e q h ↦ ?_, fun left p e q h ↦ ?_, fun p e q h ↦ ?_, fun left p e q h ↦ ?_⟩
    all_goals exact absurd h (noFuel_outOfFuel.run_ne_ok p e q)
  | succ n ih =>
    obtain ⟨-, hsums, hterm, hproducts⟩ := ih
    refine ⟨fun p e q h ↦ ?_, fun left p e q h hp ↦ ?_, fun p e q h ↦ ?_, fun left p e q h ↦ ?_⟩
    · rw [expression] at h
      obtain ⟨first, p₁, hfirst, hrest⟩ := run_bind_eq_ok_iff.1 h
      exact hsums first p₁ e q hrest (hterm p first p₁ hfirst)
    · rw [sums, run_current_bind] at h
      cases hop : Operator.additive? p.current.token with
      | none =>
        rw [hop] at h
        cases h
        exact Operator.ofToken?_eq_none_iff.2 ⟨hop, hp⟩
      | some op =>
        rw [hop] at h
        obtain ⟨e', p₁, hbinary, hrest⟩ := run_bind_eq_ok_iff.1 h
        rw [binary, run_current_bind] at hbinary
        obtain ⟨_, p₂, -, hbinary⟩ := run_bind_eq_ok_iff.1 hbinary
        obtain ⟨right, p₃, hright, hpure⟩ := run_bind_eq_ok_iff.1 hbinary
        cases hpure
        exact hsums _ p₁ e q hrest (hterm p₂ right p₁ hright)
    · rw [term] at h
      obtain ⟨first, p₁, -, hrest⟩ := run_bind_eq_ok_iff.1 h
      exact hproducts first p₁ e q hrest
    · rw [products, run_current_bind] at h
      cases hop : Operator.multiplicative? p.current.token with
      | none =>
        rw [hop] at h
        cases h
        exact hop
      | some op =>
        rw [hop] at h
        obtain ⟨e', p₁, -, hrest⟩ := run_bind_eq_ok_iff.1 h
        exact hproducts e' p₁ e q hrest

/-- The parser makes the expression in which the signs take all. -/
theorem derives_of_expression {n : Nat} {p q : Position} (hp : p.Closed) {e : Expression}
    (h : (expression n).run p = .ok e q) :
    ∃ ts, p.Leads ts q ∧ e.Derives .expression ts ∧ e.SignsTakeAll := by
  obtain ⟨ts, hts, he, -⟩ := ((recognizesAt_expression n).1 p hp).accepts h
  obtain ⟨f, hf, hs⟩ := he.exists_signsTakeAll
  have hnext := (ofToken?_of_expression n).1 p e q h
  have : (.ok f q : EStateM.Result Halt Position Expression) = .ok e q :=
    (yields_expression hf hs hts hnext).unique fueled_expression ⟨trivial, n, h⟩
  cases this
  exact ⟨ts, hts, he, hs⟩

/-! ## Statements -/

/-- A token after statements. -/
def EndsStatements (t : Token) : Prop := t = .keyword .blockEnd ∨ t = .keyword .loopUntil

/-- A token after a statement. -/
def EndsStatement (t : Token) : Prop := t = .symbol .semicolon ∨ EndsStatements t

theorem EndsStatement.ofToken? {t : Token} (h : EndsStatement t) : Operator.ofToken? t = none := by
  rcases h with rfl | rfl | rfl
  · rfl
  · rfl
  · rfl

/-- Reading a phrase from one position to another. What is read of a single statement goes on to the
statements after it. -/
def ReadsStatement (s : Statement) (p q : Position) : Phrase → Prop
  | .statement => EndsStatement q.current.token → Yields statement p (.ok s q)
  | .statements => EndsStatements q.current.token → ∃ first q', Yields statement p (.ok first q') ∧
    Yields (fun n ↦ moreStatements n first) q' (.ok s q)
  | .compound => Yields compound p (.ok s q)

variable {s : Statement}

theorem ReadsStatement.yields_statements (h : ReadsStatement s p q .statements)
    (hq : EndsStatements q.current.token) : Yields statements p (.ok s q) := by
  obtain ⟨first, q', hfirst, hmore⟩ := h hq
  exact (Yields.bind fueled_statement fueled_moreStatements hfirst hmore).succ fun n ↦ by
    rw [statements]

theorem yields_statement_nothing (hp : EndsStatement p.current.token) :
    Yields statement p (.ok .nothing p) := by
  refine (Yields.pure _ p).succ fun n ↦ ?_
  rw [statement, run_current_bind]
  rcases hp with h | h | h
  · rw [h]
  · rw [h]
  · rw [h]

theorem yields_assignment {l a : Lexeme} {name : String} {ts : List Lexeme}
    (hp : p.Leads (l :: a :: ts) q) (hl : l.token = .identifier name)
    (ha : a.token = .symbol .assign) (he : e.Derives .expression ts) (hs : e.SignsTakeAll)
    (hq : Operator.ofToken? q.current.token = none) :
    Yields assignment p (.ok (.assign name l.span e) q) := by
  obtain ⟨p₁, h₁, hp₁⟩ := hp.identifier hl
  obtain ⟨p₂, h₂, hp₂⟩ := hp₁.symbol ha
  refine ((yields_expression he hs hp₂ hq).map fueled_expression
    (Statement.assign name l.span)).congr fun n ↦ ?_
  rw [assignment, run_bind_of_ok h₁]
  exact run_bind_of_ok h₂

theorem yields_loop {l u : Lexeme} {ts us : List Lexeme} {c : Condition}
    (hp : p.Leads (l :: (ts ++ u :: us)) q) (hl : l.token = .keyword .loopRepeat)
    (hu : u.token = .keyword .loopUntil)
    (hbody : ∀ p' q' : Position, p'.Leads ts q' → EndsStatements q'.current.token →
      Yields statements p' (.ok s q'))
    (hc : ∀ p' : Position, p'.Leads us q → Yields comparison p' (.ok c q)) :
    Yields loop p (.ok (.loop l.span.start s c) q) := by
  obtain ⟨p₁, h₁, hp₁⟩ := hp.keyword hl
  obtain ⟨p₂, h₂, hp₂⟩ := hp₁.split
  obtain ⟨p₃, h₃, hp₃⟩ := hp₂.keyword hu
  have hcondition : Yields (fun n ↦ expect (.keyword .loopUntil) >>= fun _ ↦ comparison n >>=
      fun c ↦ pure (Statement.loop l.span.start s c)) p₂ (.ok (.loop l.span.start s c) q) :=
    ((hc p₃ hp₃).map fueled_comparison _).congr fun n ↦ run_bind_of_ok h₃
  refine (Yields.bind (f := fun n s ↦ expect (.keyword .loopUntil) >>= fun _ ↦ comparison n >>=
    fun c ↦ pure (Statement.loop l.span.start s c)) fueled_statements
    (fun s n ↦ .bind_right _ fun _ ↦ (fueled_comparison n).bind_left _)
    (hbody p₁ p₂ h₂ (.inr (by rw [hp₂.head, hu]))) hcondition).succ fun n ↦ ?_
  rw [loop]
  exact run_bind_of_ok h₁

theorem yields_compound {l r : Lexeme} {ts : List Lexeme} (hp : p.Leads (l :: (ts ++ [r])) q)
    (hl : l.token = .keyword .blockBegin) (hr : r.token = .keyword .blockEnd)
    (hbody : ∀ p' q' : Position, p'.Leads ts q' → EndsStatements q'.current.token →
      Yields statements p' (.ok s q')) : Yields compound p (.ok s q) := by
  obtain ⟨p₁, h₁, hp₁⟩ := hp.keyword hl
  obtain ⟨p₂, h₂, hp₂⟩ := hp₁.split
  obtain ⟨p₃, h₃, hnil⟩ := hp₂.keyword hr
  obtain rfl := Position.leads_nil_iff.1 hnil
  have hstatements := hbody p₁ p₂ h₂ (.inl (by rw [hp₂.head, hr]))
  refine (hstatements.closing fueled_statements (fun s _ ↦ s) h₃).succ fun n ↦ ?_
  rw [compound]
  exact run_bind_of_ok h₁

/-- **Statements are read.** -/
theorem readsStatement_of_derives {k : Phrase} {ts : List Lexeme} (h : s.Derives k ts)
    (hs : s.SignsTakeAll) {p q : Position} (hp : p.Leads ts q) : ReadsStatement s p q k := by
  induction h generalizing p q with
  | nothing =>
    obtain rfl := Position.leads_nil_iff.1 hp
    exact yields_statement_nothing
  | assign hl ha value =>
    intro hq
    refine (yields_assignment hp hl ha value hs hq.ofToken?).succ fun n ↦ ?_
    rw [statement, run_current_bind, hp.head, hl]
  | compound body ih =>
    intro hq
    refine ((ih hs hp).map fueled_compound Statement.compound).succ fun n ↦ ?_
    obtain ⟨l, us, rfl, hl⟩ := body.head_compound
    rw [statement, run_current_bind, hp.head, hl]
  | loop hl _ hu condition ih =>
    intro hq
    refine (yields_loop hp hl hu (fun p' q' hp' hq' ↦ (ih hs.1 hp').yields_statements hq')
      fun p' hp' ↦ yields_comparison condition hs.2.1 hs.2.2 hp' hq.ofToken?).succ fun n ↦ ?_
    rw [statement, run_current_bind, hp.head, hl]
  | single _ ih =>
    intro hq
    refine ⟨_, q, ih hs hp (.inr hq), (Yields.pure _ q).succ fun n ↦ ?_⟩
    rw [moreStatements, run_current_bind]
    rcases hq with h | h
    · rw [h]
    · rw [h]
  | sequence _ h _ ihs iht =>
    intro hq
    obtain ⟨p₁, hp₁, hsemi⟩ := hp.split
    obtain ⟨p₂, h₂, hp₂⟩ := hsemi.step
    -- the rest starts with a statement of its own, after which the parser carries on
    obtain ⟨second, p₃, hsecond, hmore⟩ := iht hs.2 hp₂ hq
    refine ⟨_, p₁, ihs hs.1 hp₁ (.inl (by rw [hsemi.head, h])), ?_⟩
    refine (Yields.bind fueled_statement (fun t n ↦ (fueled_moreStatements t n).bind_left _)
      hsecond (hmore.map (fueled_moreStatements second) _)).succ fun n ↦ ?_
    rw [moreStatements, run_current_bind, hsemi.head, h]
    exact run_bind_of_ok h₂
  | block hl _ hr ih =>
    exact yields_compound hp hl hr fun p' q' hp' hq' ↦ (ih hs hp').yields_statements hq'

/-! ## Programs -/

theorem run_dataType {l : Lexeme} {type : DataType} {ts : List Lexeme} (hp : p.Leads (l :: ts) q)
    (hl : l.token.dataType? = some type) :
    ∃ p', dataType.run p = .ok type p' ∧ p'.Leads ts q := by
  obtain ⟨p', hp', hts⟩ := hp.step
  refine ⟨p', ?_, hts⟩
  rw [dataType, run_current_bind, hp.head, hl]
  exact run_bind_of_ok hp'

/-- Names are read up to a token that is no comma. -/
theorem yields_names {ts : List Lexeme} {names : List (String × Span)} (h : DerivesNames ts names)
    {p q : Position} (hp : p.Leads ts q) (hq : q.current.token = .symbol .colon) :
    ∃ name more p', names = name :: more ∧ identifier.run p = .ok name p' ∧
      Yields moreNames p' (.ok more q) := by
  induction h generalizing p q with
  | one h =>
    obtain ⟨p', hp', hnil⟩ := hp.identifier h
    obtain rfl := Position.leads_nil_iff.1 hnil
    refine ⟨_, _, p', rfl, hp', (Yields.pure _ p').succ fun n ↦ ?_⟩
    rw [moreNames, run_current_bind, hq]
  | more h hc _ ih =>
    obtain ⟨p₁, h₁, hp₁⟩ := hp.identifier h
    obtain ⟨p₂, h₂, hp₂⟩ := hp₁.step
    obtain ⟨name, names, p₃, rfl, h₃, hmore⟩ := ih hp₂ hq
    refine ⟨_, _, p₁, rfl, h₁, (hmore.map fueled_moreNames (List.cons name)).succ fun n ↦ ?_⟩
    rw [moreNames, run_current_bind, hp₁.head, hc]
    exact (run_bind_of_ok h₂).trans (run_bind_of_ok h₃)

theorem yields_group {ts : List Lexeme} {g : Grammar.Group} (h : g.Derives ts) (hp : p.Leads ts q) :
    Yields group p (.ok g q) := by
  obtain @⟨c, t, type, _, _, hnames, hc, ht⟩ := h
  obtain ⟨p₁, h₁, hp₁⟩ := hp.split
  obtain ⟨name, more, p', rfl, hname, hmore⟩ := yields_names hnames h₁ (by rw [hp₁.head, hc])
  obtain ⟨p₂, h₂, hp₂⟩ := hp₁.symbol hc
  obtain ⟨p₃, h₃, hnil⟩ := run_dataType hp₂ ht
  obtain rfl := Position.leads_nil_iff.1 hnil
  refine (hmore.closing (y := expect (.symbol .colon) >>= fun _ ↦ dataType) fueled_moreNames
    (fun names type ↦ Grammar.Group.mk (name :: names) type)
    ((run_bind_of_ok h₂).trans h₃)).congr fun n ↦ ?_
  rw [group, run_bind_of_ok hname]
  simp only [bind_assoc]

/-- Groups are read up to a token that is no name. -/
theorem yields_groups {ts : List Lexeme} {gs : List Grammar.Group} (h : DerivesGroups ts gs)
    {p q : Position} (hp : p.Leads ts q) (hq : ∀ name, q.current.token ≠ .identifier name) :
    Yields groups p (.ok gs q) := by
  induction h generalizing p q with
  | @one l _ g group h =>
    obtain ⟨p₁, h₁, hp₁⟩ := hp.split
    obtain ⟨p₂, h₂, hnil⟩ := hp₁.symbol h
    obtain rfl := Position.leads_nil_iff.1 hnil
    have hmore : Yields (fun n ↦ moreGroups g (groups n)) p₁ (.ok [g] p₂) := by
      refine (Yields.pure _ p₂).congr fun n ↦ ?_
      rw [moreGroups, run_bind_of_ok h₂, run_current_bind]
      split
      · next name hname => exact absurd hname (hq name)
      · rfl
    exact (Yields.bind fueled_group (fun g n ↦ approximates_moreGroups g (fueled_groups n))
      (yields_group group h₁) hmore).succ fun n ↦ by rw [groups]
  | @more l _ _ g gs group h rest ih =>
    obtain ⟨p₁, h₁, hp₁⟩ := hp.split
    obtain ⟨p₂, h₂, hp₂⟩ := hp₁.symbol h
    have hmore : Yields (fun n ↦ moreGroups g (groups n)) p₁ (.ok (g :: gs) q) := by
      refine ((ih hp₂ hq).map fueled_groups (List.cons g)).congr fun n ↦ ?_
      obtain ⟨l', us, name, rfl, hl'⟩ := rest.head
      rw [moreGroups, run_bind_of_ok h₂, run_current_bind, hp₂.head, hl']
    exact (Yields.bind fueled_group (fun g n ↦ approximates_moreGroups g (fueled_groups n))
      (yields_group group h₁) hmore).succ fun n ↦ by rw [groups]

/-- Declarations are read, if there are any. -/
theorem yields_declarations_of_var {l : Lexeme} {ts : List Lexeme} {gs : List Grammar.Group}
    (hl : l.token = .keyword .var) (h : DerivesGroups ts gs) (hp : p.Leads (l :: ts) q)
    (hq : ∀ name, q.current.token ≠ .identifier name) : Yields declarations p (.ok gs q) := by
  obtain ⟨p', hp', hts⟩ := hp.keyword hl
  refine (yields_groups h hts hq).congr fun n ↦ ?_
  rw [declarations, run_current_bind, hp.head, hl]
  exact run_bind_of_ok hp'

theorem yields_declarations {ts : List Lexeme} {gs : List Grammar.Group}
    (h : DerivesDeclarations ts gs) (hp : p.Leads ts q)
    (hq : q.current.token = .keyword .blockBegin) :
    Yields declarations p (.ok gs q) := by
  cases h with
  | none =>
    obtain rfl := Position.leads_nil_iff.1 hp
    refine (Yields.pure _ p).congr fun n ↦ ?_
    rw [declarations, run_current_bind, hq]
  | some h groups => exact yields_declarations_of_var h groups hp (by simp [hq])

/-- **Programs are read.** Of the trees that tokens make, the parser returns one in which the signs
take all. -/
theorem yields_program {ts : List Lexeme} {t : Program} (h : t.Derives ts)
    (hs : t.body.SignsTakeAll) (hp : p.Leads ts q) : Yields program p (.ok t q) := by
  obtain @⟨k, l, c, d, name, ds, bs, gs, s, hk, hl, hc, hds, hbody, hd⟩ := h
  obtain ⟨p₁, h₁, hp₁⟩ := hp.keyword hk
  obtain ⟨p₂, h₂, hp₂⟩ := hp₁.identifier hl
  obtain ⟨p₃, h₃, hp₃⟩ := hp₂.symbol hc
  obtain ⟨p₄, h₄, hp₄⟩ := hp₃.split
  obtain ⟨p₅, h₅, hp₅⟩ := hp₄.split
  obtain ⟨p₆, h₆, hnil⟩ := hp₅.symbol hd
  obtain rfl := Position.leads_nil_iff.1 hnil
  have hbegin : p₄.current.token = .keyword .blockBegin := by
    obtain ⟨b, us, rfl, hb⟩ := hbody.head_compound
    rw [h₅.head, hb]
  have hcompound : Yields compound p₄ (.ok s p₅) := readsStatement_of_derives hbody hs h₅
  refine (Yields.bind (f := fun n gs ↦ compound n >>= fun s ↦ expect (.symbol .dot) >>=
    fun _ ↦ pure (Program.mk name gs s)) fueled_declarations
    (fun gs n ↦ (fueled_compound n).bind_left _) (yields_declarations hds h₄ hbegin)
    (hcompound.closing fueled_compound (fun s _ ↦ Program.mk name gs s) h₆)).congr fun n ↦ ?_
  rw [program, run_bind_of_ok h₁, run_bind_of_ok h₂, run_bind_of_ok h₃]

/-- What the parser returns is a program in which the signs take all, of the tokens it took. -/
theorem derives_of_program {n : Nat} (hp : p.Closed) {t : Program}
    (h : (program n).run p = .ok t q) :
    ∃ ts, p.Leads ts q ∧ t.Derives ts ∧ t.body.SignsTakeAll := by
  obtain ⟨ts, hts, ht, -⟩ := (recognizesAt_program n p hp).accepts h
  -- the same tokens make a program in which the signs take all; the parser returns that one, too
  obtain ⟨u, hu, hs⟩ := ht.exists_signsTakeAll
  have : (.ok u q : EStateM.Result Halt Position Program) = .ok t q :=
    (yields_program hu hs hts).unique fueled_program ⟨trivial, n, h⟩
  cases this
  exact ⟨ts, hts, ht, hs⟩

end Parser

end MiniPascal
