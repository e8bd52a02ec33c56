import MiniPascal.Proofs.Correspondence

/-!
# Layout does not matter

Two texts with the same tokens are compiled alike. Each production makes the same choices in both,
since it decides by tokens and values; places and addresses are only handed on. So with the same
fuel both come to outcomes that correspond.
-/

namespace MiniPascal

/-- The same name, the same variables with their types and values, and the same instructions with
the addresses of the same loops. -/
structure Compiled.Same (a b : Scanner) (c d : Compiled) : Prop where
  name : c.name = d.name
  symbols : c.store.symbols = d.store.symbols
  memory : c.store.memory = d.store.memory
  listing : c.listing.Same a b d.listing

namespace Execution

variable {a b : Scanner} (hab : a.SameTokens b) {s t : State}
include hab

/-! ## Single tokens -/

theorem alike_expect (u : Token) (h : s.SameToken a b t) :
    Alike a b (SamePlace a b) (expect u) (expect u) s t := by
  refine .current hab h fun token x y _ _ hxy ↦ ?_
  by_cases hu : token.same u = true
  · simp only [hu, if_true]
    exact (Alike.step hab h).bind fun _ _ _ _ _ h' ↦ .pure hxy h'
  · simp only [hu]
    exact .unexpected hab _ h

theorem alike_identifier (h : s.SameToken a b t) :
    Alike a b (fun x y ↦ x.1 = y.1 ∧ SamePlace a b x.2 y.2) identifier identifier s t := by
  refine .current hab h fun token x y _ _ hxy ↦ ?_
  cases token with
  | identifier name => exact (Alike.step hab h).bind fun _ _ _ _ _ h' ↦ .pure ⟨rfl, hxy⟩ h'
  | _ => exact .unexpected hab _ h

/-! ## Expressions -/

omit hab in
theorem alike_arithmetic {x y : Span} (hxy : SamePlace a b x y)
    (r : Except ArithmeticFault Value) (h : s.Same a b t) :
    Alike a b Eq (arithmetic x r) (arithmetic y r) s t := by
  cases r with
  | ok v => exact .pure rfl h
  | error f => exact .fail (.arithmetic f hxy)

theorem alike_literal (v : Value) (h : s.Same a b t) :
    Alike a b Eq (literal v) (literal v) s t := by
  refine (Alike.emit h (h.progress.listing.emit rfl rfl)).bind fun _ _ _ _ _ h₁ ↦ ?_
  exact (Alike.step hab h₁.toSameToken).bind fun _ _ _ _ _ h₂ ↦ .pure rfl h₂

theorem alike_variableValue (name : String) {x y : Span} (hxy : SamePlace a b x y)
    (h : s.Same a b t) :
    Alike a b Eq (variableValue name x) (variableValue name y) s t := by
  refine (Alike.emit h (h.progress.listing.emit rfl rfl)).bind fun _ _ _ _ _ h₁ ↦ ?_
  refine (Alike.step hab h₁.toSameToken).bind fun _ _ s₂ t₂ _ h₂ ↦ ?_
  refine Alike.get ?_
  have hvalue : s₂.store.value? name = t₂.store.value? name := h₂.progress.store.value?_eq name
  rw [hvalue]
  cases t₂.store.value? name with
  | some v => exact .pure rfl h₂
  | none => exact .fail (.unassigned name hxy)

theorem alike_binary (op : Operator) (v : Value) {x : Execution Value}
    (hx : ∀ s t, s.Same a b t → Alike a b Eq x x s t) (h : s.Same a b t) :
    Alike a b Eq (binary op v x) (binary op v x) s t := by
  refine .current hab h.toSameToken fun token x y _ _ hxy ↦ ?_
  refine (Alike.step hab h.toSameToken).bind fun _ _ s₁ t₁ _ h₁ ↦ (hx s₁ t₁ h₁).bind ?_
  rintro w _ s₂ t₂ rfl h₂
  refine (Alike.emit h₂ ((h₂.progress.listing.emit rfl rfl).emit rfl rfl)).bind ?_
  exact fun _ _ _ _ _ h₃ ↦ alike_arithmetic hxy _ h₃

theorem alike_factor {n : Nat}
    (hexpression : ∀ s t, s.Same a b t → Alike a b Eq (expression n) (expression n) s t)
    (h : s.Same a b t) : Alike a b Eq (factor (n + 1)) (factor (n + 1)) s t := by
  refine .current hab h.toSameToken fun token x y _ _ hxy ↦ ?_
  cases token with
  | symbol sign =>
    cases sign with
    | plus => exact (Alike.step hab h.toSameToken).bind fun _ _ s₁ t₁ _ h₁ ↦ hexpression s₁ t₁ h₁
    | minus =>
      refine (Alike.step hab h.toSameToken).bind fun _ _ s₁ t₁ _ h₁ ↦
        (hexpression s₁ t₁ h₁).bind ?_
      rintro v _ s₂ t₂ rfl h₂
      refine (Alike.emit h₂ (h₂.progress.listing.emit rfl rfl)).bind fun _ _ _ _ _ h₃ ↦ ?_
      exact alike_arithmetic hxy _ h₃
    | openParen =>
      refine (Alike.step hab h.toSameToken).bind fun _ _ s₁ t₁ _ h₁ ↦
        (hexpression s₁ t₁ h₁).bind ?_
      rintro v _ s₂ t₂ rfl h₂
      exact (alike_expect hab _ h₂.toSameToken).bind fun _ _ _ _ _ h₃ ↦ .pure rfl h₃
    | _ => exact .unexpected hab _ h.toSameToken
  | integer k => exact alike_literal hab _ h
  | real k => exact alike_literal hab _ h
  | identifier name => exact alike_variableValue hab name hxy h
  | _ => exact .unexpected hab _ h.toSameToken

theorem alike_expression (n : Nat) :
    (∀ s t, s.Same a b t → Alike a b Eq (expression n) (expression n) s t) ∧
      (∀ v s t, s.Same a b t → Alike a b Eq (sums n v) (sums n v) s t) ∧
      (∀ s t, s.Same a b t → Alike a b Eq (term n) (term n) s t) ∧
      (∀ v s t, s.Same a b t → Alike a b Eq (products n v) (products n v) s t) ∧
      ∀ s t, s.Same a b t → Alike a b Eq (factor n) (factor n) s t := by
  induction n with
  | zero =>
    exact ⟨fun _ _ _ ↦ .outOfFuel, fun _ _ _ _ ↦ .outOfFuel, fun _ _ _ ↦ .outOfFuel,
      fun _ _ _ _ ↦ .outOfFuel, fun _ _ _ ↦ .outOfFuel⟩
  | succ n ih =>
    obtain ⟨hexpression, hsums, hterm, hproducts, hfactor⟩ := ih
    refine ⟨fun s t h ↦ ?_, fun v s t h ↦ ?_, fun s t h ↦ ?_, fun v s t h ↦ ?_,
      fun s t h ↦ alike_factor hab hexpression h⟩
    · refine (hterm s t h).bind ?_
      rintro v _ s₁ t₁ rfl h₁
      exact hsums v s₁ t₁ h₁
    · refine .current hab h.toSameToken fun token x y _ _ _ ↦ ?_
      dsimp only
      cases Operator.additive? token with
      | some op =>
        refine (alike_binary hab op v hterm h).bind ?_
        rintro w _ s₁ t₁ rfl h₁
        exact hsums w s₁ t₁ h₁
      | none => exact .pure rfl h
    · refine (hfactor s t h).bind ?_
      rintro v _ s₁ t₁ rfl h₁
      exact hproducts v s₁ t₁ h₁
    · refine .current hab h.toSameToken fun token x y _ _ _ ↦ ?_
      dsimp only
      cases Operator.multiplicative? token with
      | some op =>
        refine (alike_binary hab op v hfactor h).bind ?_
        rintro w _ s₁ t₁ rfl h₁
        exact hproducts w s₁ t₁ h₁
      | none => exact .pure rfl h

/-! ## Statements -/

omit hab in
theorem alike_store (name : String) {x y first first' : Span} (hxy : SamePlace a b x y)
    (hfirst : SamePlace a b first first') (v : Value) (h : s.Same a b t) :
    Alike a b (fun _ _ ↦ True) (store name x first.start v) (store name y first'.start v) s t := by
  rw [Alike, run_store, run_store, run_perform, run_perform, Interpreter.run_assign,
    Interpreter.run_assign]
  rcases h.progress.store.assign name v with ⟨store, store', hs, ht, hstore⟩ | ⟨f, hs, ht⟩
  · rw [hs, ht]
    exact .ok trivial (h.withProgress ⟨hstore, h.progress.listing.emit rfl rfl⟩)
  · rw [hs, ht]
    cases f with
    | undeclared => exact .fault (.undeclared name hxy)
    | typeMismatch expected got =>
      obtain ⟨last, last', hlast, hprevious, hprevious'⟩ := h.previous
      refine .fault (.typeMismatch name expected got ?_)
      refine ⟨first, last, first', last', hfirst, hlast, ?_⟩
      rw [hprevious, hprevious']
      exact ⟨rfl, rfl⟩

theorem alike_assignment (n : Nat) (h : s.Same a b t) :
    Alike a b (fun _ _ ↦ True) (assignment n) (assignment n) s t := by
  refine (alike_identifier hab h.toSameToken).bind ?_
  rintro ⟨name, x⟩ ⟨_, y⟩ s₁ t₁ ⟨rfl, hxy⟩ h₁
  refine (alike_expect hab _ h₁.toSameToken).bind fun _ _ s₂ t₂ _ h₂ ↦ ?_
  refine .current hab h₂.toSameToken fun _ first first' _ _ hfirst ↦ ?_
  refine ((alike_expression hab n).1 s₂ t₂ h₂).bind ?_
  rintro v _ s₃ t₃ rfl h₃
  exact alike_store name hxy hfirst v h₃

theorem alike_comparison (n : Nat) {m m' : Nat} (hm : SameLoop a b m m') (h : s.Same a b t) :
    Alike a b Eq (comparison n m) (comparison n m') s t := by
  refine ((alike_expression hab n).1 s t h).bind ?_
  rintro left _ s₁ t₁ rfl h₁
  refine .current hab h₁.toSameToken fun token _ _ _ _ _ ↦ ?_
  dsimp only
  cases Comparison.ofToken? token with
  | some c =>
    refine (Alike.emit h₁ (h₁.progress.listing.jump c hm)).bind fun _ _ _ _ _ h₂ ↦ ?_
    refine (Alike.step hab h₂.toSameToken).bind fun _ _ s₃ t₃ _ h₃ ↦ ?_
    refine ((alike_expression hab n).1 s₃ t₃ h₃).bind ?_
    rintro right _ s₄ t₄ rfl h₄
    exact .pure rfl h₄
  | none => exact .unexpected hab _ h₁.toSameToken

/-- The address that is noted is that of the loop whose `REPEAT` comes next. -/
theorem alike_markLoop (h : s.Same a b t) (hs : s.current.token = .keyword .loopRepeat) :
    Alike a b (SameLoop a b) markLoop markLoop s t := by
  obtain ⟨i, hat, hat'⟩ := h.token
  have ht : t.current.token = .keyword .loopRepeat :=
    (hab.token_eq hat.getElem? hat'.getElem?).symm.trans hs
  have hm := Scanner.loopNumber?_of_getElem? hab.left hat.getElem? hs
  have hn := Scanner.loopNumber?_of_getElem? hab.right hat'.getElem? ht
  obtain ⟨p, hp, -⟩ := hat
  obtain ⟨q, hq, -⟩ := hat'
  rw [Alike, run_markLoop hab.left hp.1, run_markLoop hab.right hq.1]
  have hmn : SameLoop a b _ _ := ⟨i, hm, hn⟩
  exact .ok hmn (h.withProgress ⟨h.progress.store, h.progress.listing.markLoop hmn⟩)

theorem alike_statement (n : Nat) :
    (∀ s t, s.Same a b t → Alike a b (fun _ _ ↦ True) (statement n) (statement n) s t) ∧
      (∀ s t, s.Same a b t → Alike a b (fun _ _ ↦ True) (compound n) (compound n) s t) ∧
      (∀ s t, s.Same a b t → Alike a b (fun _ _ ↦ True) (statements n) (statements n) s t) ∧
      (∀ s t, s.Same a b t →
        Alike a b (fun _ _ ↦ True) (moreStatements n) (moreStatements n) s t) ∧
      ∀ m m' s t, SameLoop a b m m' → s.Same a b t →
        Alike a b (fun _ _ ↦ True) (passes n m) (passes n m') s t := by
  induction n with
  | zero =>
    exact ⟨fun _ _ _ ↦ .outOfFuel, fun _ _ _ ↦ .outOfFuel, fun _ _ _ ↦ .outOfFuel,
      fun _ _ _ ↦ .outOfFuel, fun _ _ _ _ _ _ ↦ .outOfFuel⟩
  | succ n ih =>
    obtain ⟨hstatement, hcompound, hstatements, hmore, hpasses⟩ := ih
    refine ⟨fun s t h ↦ ?_, fun s t h ↦ ?_, fun s t h ↦ ?_, fun s t h ↦ ?_,
      fun m m' s t hm h ↦ ?_⟩
    · refine .current hab h.toSameToken fun token _ _ hs _ _ ↦ ?_
      cases token with
      | keyword k =>
        cases k with
        | blockBegin => exact hcompound s t h
        | loopRepeat =>
          have hrepeat : s.current.token = .keyword .loopRepeat := by rw [hs]
          exact (alike_markLoop hab h hrepeat).bind fun m m' s₁ t₁ hm h₁ ↦
            hpasses m m' s₁ t₁ hm h₁
        | _ => exact .pure trivial h
      | identifier name => exact alike_assignment hab n h
      | _ => exact .pure trivial h
    · refine (alike_expect hab _ h.toSameToken).bind fun _ _ s₁ t₁ _ h₁ ↦
        (hstatements s₁ t₁ h₁).bind fun _ _ s₂ t₂ _ h₂ ↦ ?_
      exact (alike_expect hab _ h₂.toSameToken).bind fun _ _ _ _ _ h₃ ↦ .pure trivial h₃
    · exact (hstatement s t h).bind fun _ _ s₁ t₁ _ h₁ ↦ hmore s₁ t₁ h₁
    · refine .current hab h.toSameToken fun token _ _ _ _ _ ↦ ?_
      cases token with
      | symbol y =>
        cases y with
        | semicolon =>
          exact (Alike.step hab h.toSameToken).bind fun _ _ s₁ t₁ _ h₁ ↦
            (hstatement s₁ t₁ h₁).bind fun _ _ s₂ t₂ _ h₂ ↦ hmore s₂ t₂ h₂
        | _ => exact .pure trivial h
      | _ => exact .pure trivial h
    · refine (alike_expect hab _ h.toSameToken).bind fun _ _ s₁ t₁ _ h₁ ↦
        (hstatements s₁ t₁ h₁).bind fun _ _ s₂ t₂ _ h₂ ↦ ?_
      refine (alike_expect hab _ h₂.toSameToken).bind fun _ _ s₃ t₃ _ h₃ ↦
        (alike_comparison hab n hm h₃).bind ?_
      rintro done _ s₄ t₄ rfl h₄
      cases done with
      | true => exact .pure trivial h₄
      | false =>
        exact (Alike.rewind hab hm h₄.toSameToken).bind fun _ _ s₅ t₅ _ h₅ ↦
          hpasses m m' s₅ t₅ hm h₅

/-! ## Declarations -/

theorem alike_dataType (h : s.Same a b t) : Alike a b Eq dataType dataType s t := by
  refine .current hab h.toSameToken fun token _ _ _ _ _ ↦ ?_
  dsimp only
  cases token.dataType? with
  | some type => exact (Alike.step hab h.toSameToken).bind fun _ _ _ _ _ h₁ ↦ .pure rfl h₁
  | none => exact .unexpected hab _ h.toSameToken

omit hab in
theorem alike_declare (name : String) {x y : Span} (hxy : SamePlace a b x y) (type : DataType)
    (h : s.Same a b t) :
    Alike a b (fun _ _ ↦ True) (declare name x type) (declare name y type) s t := by
  rw [Alike, declare_eq_perform, declare_eq_perform, run_perform, run_perform,
    Interpreter.run_declare, Interpreter.run_declare]
  rcases h.progress.store.declare name type hxy with
    ⟨store, store', hs, ht, hstore⟩ | ⟨first, first', hs, ht, hfirst⟩
  · rw [hs, ht]
    exact .ok trivial (h.withProgress ⟨hstore, h.progress.listing.emit rfl rfl⟩)
  · rw [hs, ht]
    exact .fault (.duplicateDeclaration name hfirst hxy)

omit hab in
theorem alike_declareAll (type : DataType) {xs ys : List (String × Span)}
    (hxy : List.Forall₂ (fun x y ↦ x.1 = y.1 ∧ SamePlace a b x.2 y.2) xs ys) (h : s.Same a b t) :
    Alike a b (fun _ _ ↦ True) (declareAll type xs) (declareAll type ys) s t := by
  induction hxy generalizing s t with
  | nil => exact .pure trivial h
  | @cons x y xs ys hxy _ ih =>
    obtain ⟨name, x⟩ := x
    obtain ⟨_, y⟩ := y
    obtain ⟨rfl, hxy⟩ := hxy
    exact (alike_declare name hxy type h).bind fun _ _ _ _ _ h₁ ↦ ih h₁

theorem alike_moreNames (n : Nat) (h : s.Same a b t) :
    Alike a b (List.Forall₂ fun x y ↦ x.1 = y.1 ∧ SamePlace a b x.2 y.2) (moreNames n)
      (moreNames n) s t := by
  induction n generalizing s t with
  | zero => exact .outOfFuel
  | succ n ih =>
    refine .current hab h.toSameToken fun token _ _ _ _ _ ↦ ?_
    cases token with
    | symbol y =>
      cases y with
      | comma =>
        refine (Alike.step hab h.toSameToken).bind fun _ _ s₁ t₁ _ h₁ ↦ ?_
        refine (alike_identifier hab h₁.toSameToken).bind fun _ _ _ _ hxy h₂ ↦ ?_
        exact (ih h₂).bind fun _ _ _ _ hnames h₃ ↦ .pure (.cons hxy hnames) h₃
      | _ => exact .pure .nil h
    | _ => exact .pure .nil h

theorem alike_group (n : Nat) (h : s.Same a b t) :
    Alike a b (fun _ _ ↦ True) (group n) (group n) s t := by
  refine (alike_identifier hab h.toSameToken).bind fun _ _ _ _ hxy h₁ ↦
    (alike_moreNames hab n h₁).bind fun _ _ _ _ hnames h₂ ↦ ?_
  refine (alike_expect hab _ h₂.toSameToken).bind fun _ _ _ _ _ h₃ ↦
    (alike_dataType hab h₃).bind ?_
  rintro type _ s₄ t₄ rfl h₄
  exact alike_declareAll type (.cons hxy hnames) h₄

theorem alike_groups (n : Nat) (h : s.Same a b t) :
    Alike a b (fun _ _ ↦ True) (groups n) (groups n) s t := by
  induction n generalizing s t with
  | zero => exact .outOfFuel
  | succ n ih =>
    refine (alike_group hab n h).bind fun _ _ _ _ _ h₁ ↦
      (alike_expect hab _ h₁.toSameToken).bind fun _ _ _ _ _ h₂ ↦ ?_
    refine .current hab h₂.toSameToken fun token _ _ _ _ _ ↦ ?_
    cases token with
    | identifier name => exact ih h₂
    | _ => exact .pure trivial h₂

theorem alike_declarations (n : Nat) (h : s.Same a b t) :
    Alike a b (fun _ _ ↦ True) (declarations n) (declarations n) s t := by
  refine .current hab h.toSameToken fun token _ _ _ _ _ ↦ ?_
  cases token with
  | keyword k =>
    cases k with
    | var => exact (alike_expect hab _ h.toSameToken).bind fun _ _ _ _ _ h₁ ↦ alike_groups hab n h₁
    | _ => exact .pure trivial h
  | _ => exact .pure trivial h

/-- **Programs are executed alike.** -/
theorem alike_program (n : Nat) (h : s.SameToken a b t) :
    Alike a b (Compiled.Same a b) (program n) (program n) s t := by
  refine (alike_expect hab _ h).bind fun _ _ _ _ _ h₁ ↦
    (alike_identifier hab h₁.toSameToken).bind ?_
  rintro ⟨name, x⟩ ⟨_, y⟩ s₂ t₂ ⟨rfl, -⟩ h₂
  refine (alike_expect hab _ h₂.toSameToken).bind fun _ _ s₃ t₃ _ h₃ ↦
    (alike_declarations hab n h₃).bind fun _ _ s₄ t₄ _ h₄ ↦ ?_
  refine ((alike_statement hab n).2.1 s₄ t₄ h₄).bind fun _ _ s₅ t₅ _ h₅ ↦ ?_
  refine (alike_expect hab _ h₅.toSameToken).bind fun _ _ s₆ t₆ _ h₆ ↦ .get (.pure ?_ h₆)
  exact ⟨rfl, h₆.progress.store.symbols_eq, h₆.progress.store.memory_eq, h₆.progress.listing⟩

end Execution

/-! ## Texts -/

/-- Compiling two texts with the same tokens, with the same fuel: both succeed with the same, or
both have the same fault, or both lack fuel. -/
theorem compileText_alike {first second : String} (hfirst : (Scanner.ofString first).fault? = none)
    (hsecond : (Scanner.ofString second).fault? = none)
    (htokens : (Scanner.ofString first).lexemes.map Lexeme.token =
      (Scanner.ofString second).lexemes.map Lexeme.token) (fuel : Nat) :
    let a := Scanner.ofString first
    let b := Scanner.ofString second
    (∃ c d, compileText fuel first = .ok c ∧ compileText fuel second = .ok d ∧ c.Same a b d) ∨
      (∃ f g, compileText fuel first = .error (.fault f) ∧
        compileText fuel second = .error (.fault g) ∧ f.Same a b g) ∨
      compileText fuel first = .error .outOfFuel ∧
        compileText fuel second = .error .outOfFuel := by
  intro a b
  have hab : a.SameTokens b := ⟨Placed.pairwise_ofString first, Placed.pairwise_ofString second,
    hfirst, hsecond, htokens⟩
  rcases State.start_cases a with ⟨f, -, -, hf⟩ | ⟨s, p, hs, hat, hempty, hlexemes, hending⟩
  · cases hfirst.symm.trans hf
  rcases State.start_cases b with ⟨f, -, -, hf⟩ | ⟨t, q, ht, hat', hempty', hlexemes', hending'⟩
  · cases hsecond.symm.trans hf
  have hstart : s.SameToken a b t := by
    refine ⟨⟨0, ⟨p, hat, hlexemes, hending⟩, ⟨q, hat', hlexemes', hending'⟩⟩, ?_⟩
    rw [hempty, hempty']
    exact ⟨.nil, ⟨[], rfl, rfl⟩⟩
  rw [compileText_of_start fuel hs, compileText_of_start fuel ht]
  have halike := Execution.alike_program hab fuel hstart
  rw [Alike] at halike
  generalize hx : (Execution.program fuel).run s = r at halike
  generalize hy : (Execution.program fuel).run t = r' at halike
  cases halike with
  | ok hcd _ =>
    exact .inl ⟨_, _, Execution.result_of_ok hx, Execution.result_of_ok hy, hcd⟩
  | fault hfg =>
    exact .inr (.inl ⟨_, _, Execution.result_of_error hx, Execution.result_of_error hy, hfg⟩)
  | outOfFuel =>
    exact .inr (.inr ⟨Execution.result_of_error hx, Execution.result_of_error hy⟩)

/-- **Layout does not matter.** Texts that have the same tokens and no lexical fault both compile,
to the same name, variables, values and instructions, where addresses are compared by the loops they
are of; or both have a fault, which is the same and about the same tokens; or neither ends. -/
theorem layout_irrelevant {first second : String} (hfirst : (Scanner.ofString first).fault? = none)
    (hsecond : (Scanner.ofString second).fault? = none)
    (htokens : (Scanner.ofString first).lexemes.map Lexeme.token =
      (Scanner.ofString second).lexemes.map Lexeme.token) :
    (∃ fuel c d, compileText fuel first = .ok c ∧ compileText fuel second = .ok d ∧
        c.Same (.ofString first) (.ofString second) d) ∨
      (∃ fuel f g, compileText fuel first = .error (.fault f) ∧
        compileText fuel second = .error (.fault g) ∧
        f.Same (.ofString first) (.ofString second) g) ∨
      ∀ fuel, compileText fuel first = .error .outOfFuel ∧
        compileText fuel second = .error .outOfFuel := by
  by_cases hends : ∃ fuel, compileText fuel first ≠ .error .outOfFuel
  · obtain ⟨fuel, hfuel⟩ := hends
    rcases compileText_alike hfirst hsecond htokens fuel with hok | hfault | ⟨hlack, -⟩
    · exact .inl ⟨fuel, hok⟩
    · exact .inr (.inl ⟨fuel, hfault⟩)
    · exact absurd hlack hfuel
  · refine .inr (.inr fun fuel ↦ ?_)
    have hlack : compileText fuel first = .error .outOfFuel :=
      not_not.1 (not_exists.1 hends fuel)
    rcases compileText_alike hfirst hsecond htokens fuel with ⟨c, d, hok, -⟩ | ⟨f, g, hfault, -⟩ | h
    · cases hlack.symm.trans hok
    · cases hlack.symm.trans hfault
    · exact h

-- a real is the same token if it has the same bits
deriving instance DecidableEq for Token

theorem layout_irrelevant_of_countdown :
    let first := "PROGRAM p; VAR n : INTEGER; BEGIN n := 2; REPEAT n := n - 1 UNTIL n = 0 END."
    let second := "PROGRAM p;VAR n:INTEGER;BEGIN n:=2;\x7bdown\x7dREPEAT n:=n-1 UNTIL n=0 END."
    let a := Scanner.ofString first
    let b := Scanner.ofString second
    a.fault? = none ∧ b.fault? = none ∧
      a.lexemes.map Lexeme.token = b.lexemes.map Lexeme.token ∧
      ((∃ fuel c d, compileText fuel first = .ok c ∧ compileText fuel second = .ok d ∧
          c.Same a b d) ∨
        (∃ fuel f g, compileText fuel first = .error (.fault f) ∧
          compileText fuel second = .error (.fault g) ∧ f.Same a b g) ∨
        ∀ fuel, compileText fuel first = .error .outOfFuel ∧
          compileText fuel second = .error .outOfFuel) := by
  intro first second a b
  have hfirst : a.fault? = none := by decide +kernel
  have hsecond : b.fault? = none := by decide +kernel
  have htokens : a.lexemes.map Lexeme.token = b.lexemes.map Lexeme.token := by decide +kernel
  exact ⟨hfirst, hsecond, htokens, layout_irrelevant hfirst hsecond htokens⟩

end MiniPascal
