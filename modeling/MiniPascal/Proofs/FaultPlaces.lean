import MiniPascal.Proofs.Pointing

/-!
# Where faults point

Every fault of every program points at what it names. A fault is reported by a part of some
production that the execution has come to (`Reached.exists_fails`). The parts that can report more
than the next token are looked at one by one: operators and signs, variables, assignments and
declarations.

The place of an expression of the wrong type ends with the token before the next one, whatever was
read again in between. A second declaration is found against the names that the text has declared in
front of it, which are those that the store has at that moment (`Declaring`).
-/

namespace MiniPascal

open Grammar

/-! ## Operators and signs -/

namespace Plan

/-- Where an operator with the operand behind it reports a fault, and nothing that follows does. -/
theorem fails_binary_cases {α : Type} {op : Operator} {left : Value} {here : Lexeme}
    {operand : (Value → Plan α) → Plan α} {x : Nat → Execution Value} {k : Value → Plan α}
    {s : State} {f : Fault}
    (h : (binary op left here operand k).Fails s f)
    (hoperand : ∀ k s, (operand k).Fails s f → ∃ v s', Yields x s (.ok v s') ∧ (k v).Fails s' f)
    (hk : ∀ v s, ¬(k v).Fails s f) :
    (∃ s', Execution.takeAny.run s = .error (.fault f) s') ∨
      ∃ s₁ right s₂ g, Execution.takeAny.run s = .ok () s₁ ∧ Yields x s₁ (.ok right s₂) ∧
        op.apply left right = .error g ∧ f = ⟨.arithmetic g, here.span⟩ := by
  rcases h with htake | ⟨_, s₁, htake, h⟩
  · exact .inl htake
  · obtain ⟨right, s₂, hright, h⟩ := hoperand _ s₁ h
    rcases fails_emit_iff.1 h with ⟨s', hfault⟩ | ⟨v, s', -, h⟩
    · refine .inr ⟨s₁, right, s₂, ?_⟩
      cases happly : op.apply left right with
      | ok v =>
        rw [happly] at hfault
        cases hfault
      | error g =>
        rw [happly] at hfault
        cases hfault
        exact ⟨g, htake, hright, rfl, rfl⟩
    · exact absurd h (hk v s')

end Plan

namespace Reached

variable {source : String} {s : State} {v : Value} {f : Fault}

/-- An operator fails for the values that the execution has on both sides of it. -/
theorem pointsAt_of_binary {op : Operator} {operand : (Value → Plan Value) → Plan Value}
    {x : Nat → Execution Value} {k : Value → Plan Value} (hs : s.Reached source)
    (hop : Operator.ofToken? s.current.token = some op)
    (h : (Plan.binary op v s.current operand k).Fails s f)
    (hoperand : ∀ k s, (operand k).Fails s f → ∃ v s', Yields x s (.ok v s') ∧ (k v).Fails s' f)
    (hk : ∀ v s, ¬(k v).Fails s f)
    (hcomes : ∀ s₁ w s₂, Execution.step.run s = .ok () s₁ → Yields x s₁ (.ok w s₂) →
      ComesToOperator source s.current op v w) : f.PointsAt source := by
  rcases Plan.fails_binary_cases h hoperand hk with
    ⟨s', htake⟩ | ⟨s₁, w, s₂, g, htake, hw, hg, rfl⟩
  · exact Primitive.takeAny.pointsAt hs htake
  · have hmem := hs.mem_lexemes
    have hstep := (TakesToken.takeAny s () s₁ htake).2
    exact .operator hmem hop hg (Fault.PointsAt.cuts_operator hmem hop) (hcomes s₁ w s₂ hstep hw)

theorem pointsAt_of_sums (hx : Reached source ⟨.routine (.sums v), s⟩)
    (h : (Plan.sums v).Fails s f) : f.PointsAt source := by
  replace h := Plan.fails_current_iff.1 h
  cases hop : Operator.additive? s.current.token with
  | none =>
    rw [hop] at h
    exact absurd h (Plan.not_fails_done v)
  | some op =>
    rw [hop] at h
    exact pointsAt_of_binary hx.state (Operator.ofToken?_eq_some_iff.2 (.inl hop)) h
      (fun _ _ h ↦ h) (fun _ _ ↦ Plan.not_fails_call_done _)
      fun _ _ _ hstep hw ↦ .additive hx rfl hop hstep hw

theorem pointsAt_of_products (hx : Reached source ⟨.routine (.products v), s⟩)
    (h : (Plan.products v).Fails s f) : f.PointsAt source := by
  replace h := Plan.fails_current_iff.1 h
  cases hop : Operator.multiplicative? s.current.token with
  | none =>
    rw [hop] at h
    exact absurd h (Plan.not_fails_done v)
  | some op =>
    rw [hop] at h
    exact pointsAt_of_binary hx.state (Operator.ofToken?_eq_some_iff.2 (.inr hop)) h
      (fun _ _ h ↦ h) (fun _ _ ↦ Plan.not_fails_call_done _)
      fun _ _ _ hstep hw ↦ .multiplicative hx rfl hop hstep hw

/-- A sign that is taken and fails for the value behind it. -/
theorem pointsAt_of_minus (hx : Reached source ⟨.routine .factor, s⟩)
    (hminus : s.current.token = .symbol .minus) {s₁ s₂ : State} {g : ArithmeticFault}
    (htake : Execution.takeAny.run s = .ok () s₁)
    (hv : Yields Execution.expression s₁ (.ok v s₂)) (hg : v.neg = .error g) :
    Fault.PointsAt source ⟨.arithmetic g, s.current.span⟩ := by
  have hs : s.Reached source := hx.state
  have hcurrent : s.current = ⟨.symbol .minus, s.current.span⟩ := by rw [← hminus]
  have hmem := hs.mem_lexemes
  have hop : Operator.ofToken? s.current.token = some .sub := by rw [hminus]; rfl
  have hcut := Fault.PointsAt.cuts_operator hmem hop
  rw [hminus] at hcut
  rw [hcurrent] at hmem
  exact .sign hmem hg hcut (.intro hx hcurrent (TakesToken.takeAny s () s₁ htake).2 hv)

/-- A name that is read when the variable has no value. -/
theorem pointsAt_of_lookUp (hx : Reached source ⟨.routine .factor, s⟩) {name : String}
    (hname : s.current.token = .identifier name)
    (h : (Plan.variableValue name s.current.span).Fails s f) : f.PointsAt source := by
  have hs : s.Reached source := hx.state
  have hcurrent : s.current = ⟨.identifier name, s.current.span⟩ := by rw [← hname]
  have hpushed : ({ s with listing := s.listing.pushVariable name } : State).Reached source :=
    hs.emit (f := fun l ↦ l.pushVariable name) rfl
  rcases Plan.fails_emit_iff.1 h with ⟨s', htake⟩ | ⟨_, s₁, htake, s', h⟩
  · exact Primitive.takeAny.pointsAt hpushed htake
  · have hmem := hs.mem_lexemes
    have hcut := Fault.PointsAt.cuts_identifier hmem hname
    have hstore : s₁.progress.store = s.store := by
      obtain ⟨⟨i, hi⟩, -⟩ := hpushed.wellFormed
      exact congrArg Progress.store (hi.of_step (TakesToken.takeAny _ _ _ htake).2).2.1
    rw [Execution.run_perform, Interpreter.run_lookUp, hstore] at h
    cases hvalue : s.store.value? name with
    | some v =>
      rw [hvalue] at h
      cases h
    | none =>
      rw [hvalue] at h
      cases h
      rw [hcurrent] at hmem
      exact .unassigned hmem hcut ⟨s, hx, hcurrent, rfl⟩ hvalue

theorem pointsAt_of_factor (hx : Reached source ⟨.routine .factor, s⟩)
    (h : Plan.factor.Fails s f) : f.PointsAt source := by
  have hs : s.Reached source := hx.state
  replace h := Plan.fails_current_iff.1 h
  split at h
  · exact Plan.pointsAt_of_fails (C := fun _ ↦ True) h hs
      ⟨.takeAny, fun _ ↦ ⟨trivial, fun _ ↦ .pure _⟩⟩
  · next hminus =>
    rcases h with ⟨s', htake⟩ | ⟨_, s₁, htake, v, s₂, hv, h⟩
    · exact Primitive.takeAny.pointsAt hs htake
    · obtain ⟨s', h⟩ := Plan.fails_emit_iff.1 h
      cases hg : v.neg with
      | ok w =>
        rw [hg] at h
        cases h
      | error g =>
        rw [hg] at h
        cases h
        exact hx.pointsAt_of_minus hminus htake hv hg
  · exact Plan.pointsAt_of_fails (C := fun _ ↦ True) h hs (Plan.all_literal _)
  · exact Plan.pointsAt_of_fails (C := fun _ ↦ True) h hs (Plan.all_literal _)
  · exact Plan.pointsAt_of_fails (C := fun _ ↦ True) h hs
      ⟨.takeAny, fun _ ↦ ⟨trivial, fun _ ↦ ⟨.expect rfl, fun _ ↦ .pure _⟩⟩⟩
  · next name hname => exact hx.pointsAt_of_lookUp hname h
  · obtain ⟨s', h⟩ := h
    exact pointsAt_of_unexpected hs h

end Reached

/-! ## Assignments -/

/-- Tokens in a row span a piece of the text. -/
theorem exists_cut_of_tokens {source : String} {before ts rest us vs : List Lexeme}
    {l a first last : Lexeme}
    (h : (Scanner.ofString source).lexemes = before ++ l :: a :: (ts ++ rest))
    (hhead : ts = first :: us) (hlast : ts = vs ++ [last]) :
    ∃ piece, Span.Cuts ⟨first.span.start, last.span.stop⟩ source piece := by
  have hfirst : first ∈ (Scanner.ofString source).lexemes := by simp [h, hhead]
  have hlast' : last ∈ (Scanner.ofString source).lexemes := by simp [h, hlast]
  obtain ⟨piece, hcut⟩ := Scanner.exists_cut_of_mem hfirst
  obtain ⟨piece', hcut'⟩ := Scanner.exists_cut_of_mem hlast'
  refine hcut.range hcut' ?_
  have hpairwise : ts.Pairwise fun l m ↦ l.span.stop ≤ m.span.start := by
    refine (Scanner.pairwise_lexemes source).sublist ?_
    rw [h]
    refine List.Sublist.trans ?_ (List.sublist_append_right _ _)
    exact ((List.sublist_append_left ts rest).cons a).cons l
  have hle := hcut.start_le_stop
  have hle' := hcut'.start_le_stop
  cases vs with
  | nil =>
    obtain ⟨rfl, -⟩ := List.cons.inj (hhead.symm.trans hlast)
    exact hle
  | cons first' vs =>
    obtain ⟨rfl, -⟩ := List.cons.inj (hhead.symm.trans hlast)
    rw [hlast, List.cons_append, List.pairwise_cons] at hpairwise
    have horder := hpairwise.1 last (by simp)
    omega

/-- **An expression that was computed** is the one that the parser reads there. -/
theorem exists_expression_at {a : Scanner} {s s' : State} {i n : Nat} {v : Value}
    (h : s.AtToken a i) (hwf : s.store.WellFormed)
    (hvalue : (Execution.expression n).run s = .ok v s') :
    ∃ (e : Expression) (ts : List Lexeme) (next : Lexeme) (rest : List Lexeme) (first : Lexeme)
      (us vs : List Lexeme) (last : Lexeme), a.lexemes.drop i = ts ++ next :: rest ∧
      e.Derives .expression ts ∧ Operator.ofToken? next.token = none ∧
      ts = first :: us ∧ ts = vs ++ [last] ∧
      s.current.span.start = first.span.start ∧ s'.previousStop = last.span.stop ∧
      HasStaticType s.store.type? ts v.type ∧ s'.store = s.store := by
  obtain ⟨p, hp, hlexemes, hending⟩ := h
  obtain ⟨e, q, ts, hq, hat, hts, he, htype, hstore, hstop⟩ :=
    Execution.exists_staticType_of_expression hp hwf hvalue
  have hstart := Execution.start_of_expression hp hq
  have hdrop := (State.AtToken.of_leads hlexemes hending hts hat).1
  obtain ⟨first, us, hhead, hfirst⟩ := he.head
  obtain ⟨vs, last, hlast, hlast'⟩ := he.last
  refine ⟨e, ts, q.current, q.upcoming, first, us, vs, last, hdrop, he,
    (Parser.ofToken?_of_expression n).1 p e q hq, hhead, hlast, ?_, ?_, htype, hstore⟩
  · rw [hp.current_eq, ← hstart, hfirst]
  · rw [hstop, hlast']

namespace Reached

variable {source : String} {s : State} {f : Fault}

/-- The faults of an assignment: the name, or the expression from its first to its last token. -/
theorem pointsAt_of_store (hx : Reached source ⟨.routine .statement, s⟩) {s₁ s₂ s₃ s₄ : State}
    {name : String} {place place' : Span} {v : Value}
    (hname : Execution.identifier.run s = .ok (name, place) s₁)
    (hassign : (Execution.expect (.symbol .assign)).run s₁ = .ok place' s₂)
    (hvalue : Yields Execution.expression s₂ (.ok v s₃))
    (hf : (Execution.store name place s₂.current.span.start v).run s₃ = .error (.fault f) s₄) :
    f.PointsAt source := by
  have hs : s.Reached source := hx.state
  obtain ⟨⟨i, h⟩, hwf⟩ := hs.wellFormed
  obtain ⟨hcurrent, h₁, hprogress₁⟩ := h.of_identifier hname
  obtain ⟨hsame, h₂, hprogress₂⟩ := h₁.of_expect rfl hassign
  have hstore₂ : s₂.store = s.store := congrArg Progress.store (hprogress₂.trans hprogress₁)
  obtain ⟨-, n, hn⟩ := hvalue
  obtain ⟨e, ts, next, rest, first, us, vs, last, hts, he, hnext, hhead, hlast, hstart, hstop,
    htype, hstore₃⟩ := exists_expression_at h₂ (hstore₂ ▸ hwf) hn
  rw [hstore₂] at htype hstore₃
  cases hdeclared : s.store.type? name with
  | none =>
    have hmem := hs.mem_lexemes
    have hcut := Fault.PointsAt.cuts_identifier hmem (by rw [hcurrent])
    rw [hcurrent] at hmem hcut
    rw [Execution.run_store, Execution.run_perform, Interpreter.run_assign, State.progress,
      hstore₃, Store.assign_eq, hdeclared] at hf
    cases hf
    exact .undeclared hmem hcut ⟨s, hx, hcurrent, rfl⟩ hdeclared
  | some declared =>
    rw [← hstore₃] at hdeclared
    rw [Execution.run_store_of_type? hdeclared] at hf
    split at hf
    · cases hf
    · next hne =>
      cases hf
      have hdrop := h.drop_eq
      rw [h₁.drop_eq, hts] at hdrop
      have hsplit : (Scanner.ofString source).lexemes = (Scanner.ofString source).lexemes.take i ++
          s.current :: s₁.current :: (ts ++ next :: rest) := by
        rw [← hdrop, List.take_append_drop]
      obtain ⟨piece, hcut⟩ := exists_cut_of_tokens hsplit hhead hlast
      rw [hstart, hstop]
      exact .typeMismatch hsplit (by rw [hcurrent]) (Token.same_symbol_iff.1 hsame) he hnext
        (by rw [hhead]; rfl) (by simp [hlast]) hcut ⟨s, hx, rfl, rfl⟩ (hstore₃ ▸ hdeclared) htype
        hne

theorem pointsAt_of_statement (hx : Reached source ⟨.routine .statement, s⟩)
    (h : Plan.statement.Fails s f) : f.PointsAt source := by
  have hs : s.Reached source := hx.state
  have hinvariant := State.invariant_reached source
  replace h := Plan.fails_current_iff.1 h
  split at h
  · exact absurd h (Plan.not_fails_call_done _)
  · rcases h with ⟨s', h⟩ | ⟨⟨name, place⟩, s₁, hname, h⟩
    · exact Primitive.identifier.pointsAt hs h
    have hs₁ := hinvariant.part .identifier s _ s₁ hs hname
    rcases h with ⟨s', h⟩ | ⟨place', s₂, hassign, h⟩
    · exact (Primitive.expect rfl).pointsAt hs₁ h
    obtain ⟨v, s₃, hvalue, s₄, h⟩ := Plan.fails_current_iff.1 h
    exact hx.pointsAt_of_store hname hassign hvalue h
  · exact h.elim
  · exact absurd h (Plan.not_fails_done ())

end Reached

/-! ## Declarations -/

/-- Where a name is listed, the text has it. -/
theorem exists_token_of_filterMap_named? {ts : List Lexeme} {before after : List (String × Span)}
    {name : String} {place : Span}
    (h : ts.filterMap Lexeme.named? = before ++ (name, place) :: after) :
    ∃ us vs, ts = us ++ ⟨.identifier name, place⟩ :: vs ∧ us.filterMap Lexeme.named? = before ∧
      vs.filterMap Lexeme.named? = after := by
  obtain ⟨front, behind, rfl, hfront, hbehind⟩ := List.filterMap_eq_append_iff.1 h
  obtain ⟨gap, l, vs, rfl, hgap, hl, hvs⟩ := List.filterMap_eq_cons_iff.1 hbehind
  obtain rfl := Lexeme.named?_eq_some_iff.1 hl
  refine ⟨front ++ gap, vs, by simp, ?_, hvs⟩
  rw [List.filterMap_append, hfront, List.filterMap_eq_nil_iff.2 hgap, List.append_nil]

namespace Grammar

/-- Groups may be followed by another one. -/
theorem DerivesGroups.append {ts us : List Lexeme} {gs hs : List Group} (h : DerivesGroups ts gs)
    (h' : DerivesGroups us hs) : DerivesGroups (ts ++ us) (gs ++ hs) := by
  induction h with
  | @one l ts g group hl =>
    rw [List.append_assoc]
    exact .more group hl h'
  | @more l ts vs g gs group hl rest ih =>
    rw [List.append_assoc]
    exact .more group hl ih

end Grammar

/-- The names and places of the declared variables. -/
def Store.places (s : Store) : List (String × Span) := s.declared.map fun x ↦ (x.name, x.span)

namespace Execution

/-- What came of declaring variables: all of them are added, or the first one whose name was taken
is reported, with the place where the name was declared before. -/
theorem declareAll_cases (type : DataType) (names : List (String × Span)) (s : State) :
    (∃ r, (declareAll type names).run s = .ok () (s.withProgress r) ∧
        r.store.places = s.store.places ++ names) ∨
      ∃ s' pre name place post first, names = pre ++ (name, place) :: post ∧
        (s.store.places ++ pre).find? (fun x ↦ x.1 == name) = some (name, first) ∧
        (declareAll type names).run s =
          .error (.fault ⟨.duplicateDeclaration name first, place⟩) s' := by
  induction names generalizing s with
  | nil => exact .inl ⟨s.progress, rfl, by simp [State.progress]⟩
  | cons x names ih =>
    obtain ⟨name, place⟩ := x
    have hplaces : s.store.places.find? (fun x ↦ x.1 == name) =
        (s.store.find? name).map fun x ↦ (x.name, x.span) := by
      rw [Store.places, List.find?_map]
      rfl
    have hdeclare : (declare name place type).run s =
        (perform (Interpreter.declare name type place)).run s := by rw [declare_eq_perform]
    rw [run_perform, Interpreter.run_declare] at hdeclare
    cases hstore : s.store.declare name type place with
    | ok store =>
      rw [State.progress] at hdeclare
      simp only [hstore] at hdeclare
      have hadded : store.places = s.store.places ++ [(name, place)] := by
        rw [(Store.declare_eq_ok hstore).2]
        simp [Store.places]
      rw [declareAll]
      rcases ih (s.withProgress ⟨store, s.listing.declare name type⟩) with
        ⟨r, hr, hall⟩ | ⟨s', pre, name', place', post, first, rfl, hfind, hfault⟩
      · refine .inl ⟨r, (run_bind_of_ok hdeclare).trans hr, ?_⟩
        rw [hall]
        change store.places ++ names = _
        rw [hadded, List.append_assoc]
        rfl
      · refine .inr ⟨s', (name, place) :: pre, name', place', post, first, rfl, ?_,
          (run_bind_of_ok hdeclare).trans hfault⟩
        change (store.places ++ pre).find? _ = _ at hfind
        rw [hadded, List.append_assoc] at hfind
        exact hfind
    | error first =>
      rw [State.progress] at hdeclare
      simp only [hstore] at hdeclare
      have hfind := Store.declare_eq_error_iff.1 hstore
      refine .inr ⟨_, [], name, place, names, first.span, rfl, ?_, run_bind_of_error hdeclare⟩
      rw [List.append_nil, hplaces, hfind, Option.map_some, (Store.find?_eq_some hfind).2]

end Execution

/-- The state is behind some declarations of a text, whose variables are those of the store. -/
structure Declaring (source : String) (declarations : List Lexeme) (s : State) : Prop where
  token : s.AtToken (.ofString source) (4 + declarations.length)
  lexemes : ∃ (k l c v : Lexeme) (program : String) (rest : List Lexeme),
    (Scanner.ofString source).lexemes = k :: l :: c :: v :: (declarations ++ rest) ∧
      k.token = .keyword .program ∧ l.token = .identifier program ∧
      c.token = .symbol .semicolon ∧ v.token = .keyword .var
  groups : declarations = [] ∨ ∃ gs, DerivesGroups declarations gs
  places : s.store.places = declarations.filterMap Lexeme.named?

namespace Declaring

variable {source : String} {declarations ts rest : List Lexeme} {s : State} {g : Grammar.Group}

/-- What is left of the text stands behind the declarations. -/
theorem lexemes_of_drop (h : Declaring source declarations s)
    (hrest : (Scanner.ofString source).lexemes.drop (4 + declarations.length) = rest) :
    ∃ (k l c v : Lexeme) (program : String),
      (Scanner.ofString source).lexemes = k :: l :: c :: v :: (declarations ++ rest) ∧
        k.token = .keyword .program ∧ l.token = .identifier program ∧
        c.token = .symbol .semicolon ∧ v.token = .keyword .var := by
  obtain ⟨k, l, c, v, program, rest', hlexemes, htokens⟩ := h.lexemes
  obtain rfl : rest' = rest := by
    rw [← hrest, hlexemes, Nat.add_comm]
    simp
  exact ⟨k, l, c, v, program, hlexemes, htokens⟩

/-- Another group may follow. -/
theorem exists_groups (h : Declaring source declarations s) (hg : g.Derives ts) {l : Lexeme}
    (hl : l.token = .symbol .semicolon) :
    ∃ gs, DerivesGroups (declarations ++ (ts ++ [l])) gs := by
  have hone : DerivesGroups (ts ++ [l]) [g] := .one hg hl
  rcases h.groups with rfl | ⟨gs, hgs⟩
  · exact ⟨[g], hone⟩
  · exact ⟨gs ++ [g], hgs.append hone⟩

/-- A name that was taken when its group was declared is one that the text has declared before. -/
theorem pointsAt_of_taken (h : Declaring source declarations s) (hg : g.Derives ts)
    (hrest : (Scanner.ofString source).lexemes.drop (4 + declarations.length) = ts ++ rest)
    {pre post : List (String × Span)} {name : String} {place first : Span}
    (hnames : g.names = pre ++ (name, place) :: post)
    (hfind : (s.store.places ++ pre).find? (fun x ↦ x.1 == name) = some (name, first)) :
    Fault.PointsAt source ⟨.duplicateDeclaration name first, place⟩ := by
  obtain ⟨k, l, c, v, program, hlexemes, hk, hl, hc, hv⟩ := h.lexemes_of_drop hrest
  obtain ⟨gs, hgs⟩ := h.exists_groups hg (l := ⟨.symbol .semicolon, ⟨0, 0⟩⟩) rfl
  rw [← List.append_assoc] at hlexemes hgs
  -- the names of the text are those of the store and of the group
  obtain ⟨-, earlier, between, hsplit, hearlier⟩ := List.find?_eq_some_iff_append.1 hfind
  have hall : (declarations ++ ts).filterMap Lexeme.named? =
      earlier ++ (name, first) :: (between ++ (name, place) :: post) := by
    rw [List.filterMap_append, ← h.places, hg.filterMap_named?, hnames, ← List.append_assoc, hsplit]
    simp
  obtain ⟨front, behind, hdeclared, hfront, hbehind⟩ := exists_token_of_filterMap_named? hall
  obtain ⟨middle, after, rfl, -⟩ := exists_token_of_filterMap_named? hbehind
  have hcuts {place' : Span} (h : ⟨.identifier name, place'⟩ ∈ declarations ++ ts) :
      place'.Cuts source name := by
    refine Fault.PointsAt.cuts_identifier (l := ⟨.identifier name, place'⟩) ?_ rfl
    rw [hlexemes]
    simp only [List.mem_cons, List.mem_append] at h ⊢
    exact .inr (.inr (.inr (.inr (.inl h))))
  have horder : first.stop ≤ place.start := by
    have hpairwise := Scanner.pairwise_lexemes source
    rw [hlexemes] at hpairwise
    iterate 4 rw [List.pairwise_cons] at hpairwise
    have hdeclarations := (List.pairwise_append.1 hpairwise.2.2.2.2).1
    rw [hdeclared, List.pairwise_append, List.pairwise_cons] at hdeclarations
    exact hdeclarations.2.1.1 ⟨.identifier name, place⟩ (by simp)
  have hfirst : ∀ m ∈ front, m.token ≠ .identifier name := by
    intro m hm hname
    have hnamed : m.named? = some (name, m.span) :=
      Lexeme.named?_eq_some_iff.2 (by rw [← hname])
    have hmem : (name, m.span) ∈ earlier := by
      rw [← hfront]
      exact List.mem_filterMap.2 ⟨m, hm, hnamed⟩
    simpa using hearlier _ hmem
  exact .duplicateDeclaration hlexemes hk hl hc hv hgs hdeclared hfirst horder
    (hcuts (by simp [hdeclared])) (hcuts (by simp [hdeclared]))

/-- Behind the semicolon of another group, the variables of that group are declared too. -/
theorem next {s₁ s₂ : State} (h : Declaring source declarations s) (hg : g.Derives ts)
    (hrest : (Scanner.ofString source).lexemes.drop (4 + declarations.length) = ts ++ rest)
    (h₁ : s₁.AtToken (.ofString source) (4 + declarations.length + ts.length))
    (hplaces : s₁.store.places = s.store.places ++ g.names)
    (hsemicolon : s₁.current.token = .symbol .semicolon)
    (h₂ : s₂.AtToken (.ofString source) (4 + declarations.length + ts.length + 1))
    (hstore : s₂.store = s₁.store) :
    Declaring source (declarations ++ (ts ++ [s₁.current])) s₂ := by
  obtain ⟨k, l, c, v, program, hlexemes, htokens⟩ := h.lexemes_of_drop hrest
  have hdrop := h₁.drop_eq
  rw [← List.drop_drop, hrest, List.drop_left] at hdrop
  generalize (Scanner.ofString source).lexemes.drop _ = rest' at hdrop
  refine ⟨?_, ⟨k, l, c, v, program, rest', ?_, htokens⟩,
    .inr (h.exists_groups hg hsemicolon), ?_⟩
  · have hlength : 4 + (declarations ++ (ts ++ [s₁.current])).length =
        4 + declarations.length + ts.length + 1 := by
      simp only [List.length_append, List.length_singleton]
      omega
    rw [hlength]
    exact h₂
  · rw [hlexemes, hdrop]
    simp only [List.append_assoc, List.cons_append, List.nil_append]
  · have hnone : s₁.current.named? = none := by simp [Lexeme.named?, hsemicolon]
    rw [hstore, hplaces, h.places]
    simp [hg.filterMap_named?, hnone]

end Declaring

theorem Execution.exists_groupHead {s s₁ s₂ s₃ s₄ : State} {name : String × Span}
    {names : List (String × Span)} {place : Span} {type : DataType}
    (hname : identifier.run s = .ok name s₁) (hnames : Yields moreNames s₁ (.ok names s₂))
    (hcolon : (expect (.symbol .colon)).run s₂ = .ok place s₃)
    (htype : dataType.run s₃ = .ok type s₄) :
    ∃ n, (groupHead n).run s = .ok ⟨name :: names, type⟩ s₄ := by
  obtain ⟨-, n, hn⟩ := hnames
  refine ⟨n, ?_⟩
  rw [groupHead, run_bind_of_ok hname, run_bind_of_ok hn, run_bind_of_ok hcolon,
    run_bind_of_ok htype]
  rfl

/-- The names and the type of another group have been read. -/
theorem Declaring.groupHead {source : String} {declarations : List Lexeme} {s s₁ : State}
    (h : Declaring source declarations s) {n : Nat} {g : Grammar.Group}
    (hs₁ : (Execution.groupHead n).run s = .ok g s₁) :
    ∃ ts rest, g.Derives ts ∧
      (Scanner.ofString source).lexemes.drop (4 + declarations.length) = ts ++ rest ∧
      s₁.AtToken (.ofString source) (4 + declarations.length + ts.length) ∧
      s₁.store = s.store := by
  obtain ⟨p, hp, hlexemes, hending⟩ := h.token
  obtain ⟨g', q, hq, hat⟩ := (Execution.follows_groupHead n hp).of_ok hs₁
  obtain ⟨s₁', hs₁', -, hprogress⟩ := Execution.groupHead_of_ok hp hq
  cases hs₁.symm.trans hs₁'
  obtain ⟨ts, hts, hg, -⟩ := (Parser.recognizesAt_group n p hp.closed).accepts hq
  obtain ⟨hdrop, h₁⟩ := State.AtToken.of_leads hlexemes hending hts hat
  exact ⟨ts, _, hg, hdrop, h₁, congrArg Progress.store hprogress⟩

namespace Reached

variable {source : String} {s : State} {f : Fault}

/-- The heading of a program leads to its declarations. -/
theorem declaring_of_program {s₀ : State} (hstart : State.start (.ofString source) = .ok s₀)
    (h : Plan.program.Comes s₀ ⟨.routine .groups, s⟩) : Declaring source [] s := by
  rcases State.start_cases (.ofString source) with
    ⟨f, hf, -⟩ | ⟨s₀', p, hs₀, hat, hempty, hlexemes, hending⟩
  · cases hstart.symm.trans hf
  cases hstart.symm.trans hs₀
  have h₀ : s₀.AtToken (.ofString source) 0 := ⟨p, hat, hlexemes, hending⟩
  have hbody (name : String) : (Plan.program.body name).All (fun _ _ ↦ True) (· ≠ .groups) :=
    ⟨by simp, fun _ ↦ ⟨trivial, fun _ ↦ trivial⟩⟩
  obtain ⟨_, s₁, hprogram, h⟩ := h.of_take
  obtain ⟨⟨name, place⟩, s₂, hname, h⟩ := h.of_take
  obtain ⟨_, s₃, hsemicolon, h⟩ := h.of_take
  obtain ⟨here, _, hhere, h⟩ := h.of_look
  cases hhere
  split at h
  · obtain ⟨_, s₄, hvar, h⟩ := h.of_take
    rcases h.of_call with heq | ⟨_, s₅, -, h⟩
    · cases heq
      obtain ⟨hprogram, h₁, hprogress₁⟩ := h₀.of_expect rfl hprogram
      obtain ⟨hname, h₂, hprogress₂⟩ := h₁.of_identifier hname
      obtain ⟨hsemicolon, h₃, hprogress₃⟩ := h₂.of_expect rfl hsemicolon
      obtain ⟨hvar, h₄, hprogress₄⟩ := h₃.of_expect rfl hvar
      have hlexemes : (Scanner.ofString source).lexemes = s₀.current :: s₁.current ::
          s₂.current :: s₃.current :: ([] ++ (Scanner.ofString source).lexemes.drop 4) := by
        rw [List.nil_append, ← h₃.drop_eq, ← h₂.drop_eq, ← h₁.drop_eq, ← h₀.drop_eq,
          List.drop_zero]
      have hstore : s.store = .empty := by
        have := hprogress₄.trans (hprogress₃.trans (hprogress₂.trans (hprogress₁.trans hempty)))
        exact congrArg Progress.store this
      exact ⟨h₄, ⟨_, _, _, _, name, _, hlexemes, Token.same_keyword_iff.1 hprogram,
        by rw [hname], Token.same_symbol_iff.1 hsemicolon, Token.same_keyword_iff.1 hvar⟩,
        .inl rfl, by rw [hstore]; rfl⟩
    · exact absurd rfl (h.routine (hbody name) rfl)
  · exact absurd rfl (h.routine (hbody name) rfl)

/-- A group that another one follows leads to it. -/
theorem exists_declaring_of_groups {t : State} {declarations : List Lexeme}
    (ht : Declaring source declarations t) (h : Plan.groups.Comes t ⟨.routine .groups, s⟩) :
    ∃ declarations', Declaring source declarations' s := by
  obtain ⟨name, s₁, hname, h⟩ := h.of_take
  rcases h.of_call with heq | ⟨names, s₂, hnames, h⟩
  · cases heq
  obtain ⟨_, s₃, hcolon, h⟩ := h.of_take
  obtain ⟨type, s₄, htype, h⟩ := h.of_take
  obtain ⟨_, s₅, hdeclare, h⟩ := h.of_look
  obtain ⟨_, s₆, hsemicolon, h⟩ := h.of_take
  obtain ⟨here, _, hhere, h⟩ := h.of_look
  cases hhere
  split at h
  · rcases h.of_call with heq | ⟨_, _, -, h⟩
    · cases heq
      obtain ⟨n, hhead⟩ := Execution.exists_groupHead hname hnames hcolon htype
      obtain ⟨ts, rest, hg, hrest, h₄, hstore⟩ := ht.groupHead hhead
      rcases Execution.declareAll_cases type (name :: names) s₄ with
        ⟨r, hr, hplaces⟩ | ⟨s', _, _, _, _, _, -, -, hfault⟩
      · cases hdeclare.symm.trans hr
        have h₅ : (s₄.withProgress r).AtToken (.ofString source)
            (4 + declarations.length + ts.length) := h₄.congr rfl rfl
        obtain ⟨hsame, h₆, hprogress⟩ := h₅.of_expect rfl hsemicolon
        rw [hstore] at hplaces
        exact ⟨_, ht.next hg hrest h₅ hplaces (Token.same_symbol_iff.1 hsame) h₆
          (congrArg Progress.store hprogress)⟩
      · cases hdeclare.symm.trans hfault
    · cases h
  · cases h

/-- **Where declarations begin,** the variables of all groups in front of them are declared. -/
theorem exists_declaring {x : Invocation} (hx : Reached source x)
    (hgroups : x.task = .routine .groups) :
    ∃ declarations, Declaring source declarations x.state := by
  induction hx with
  | @start s y hstart h =>
    obtain ⟨task, s⟩ := y
    cases hgroups
    exact ⟨[], declaring_of_program hstart h⟩
  | @call x y hx hcalls ih =>
    obtain ⟨task, s⟩ := y
    cases hgroups
    cases hcalls with
    | @routine r t _ h =>
      obtain rfl := h.routine r.all_plan rfl rfl
      obtain ⟨declarations, ht⟩ := ih rfl
      exact exists_declaring_of_groups ht h
    | passes h => exact absurd rfl (h.routine (Plan.all_pass _) rfl)
  | again hx hagain ih =>
    cases hagain
    cases hgroups

theorem pointsAt_of_groups (hx : Reached source ⟨.routine .groups, s⟩)
    (h : Plan.groups.Fails s f) : f.PointsAt source := by
  have hs : s.Reached source := hx.state
  have hinvariant := State.invariant_reached source
  rcases h with ⟨s', h⟩ | ⟨name, s₁, hname, names, s₂, hnames, h⟩
  · exact Primitive.identifier.pointsAt hs h
  have hs₁ := hinvariant.part .identifier s name s₁ hs hname
  have hs₂ : s₂.Reached source := by
    obtain ⟨-, n, hn⟩ := hnames
    exact (hinvariant.run n).1 .moreNames s₁ names s₂ hs₁ hn
  rcases h with ⟨s', h⟩ | ⟨place, s₃, hcolon, h⟩
  · exact (Primitive.expect rfl).pointsAt hs₂ h
  have hs₃ := hinvariant.part (.expect rfl) s₂ place s₃ hs₂ hcolon
  rcases h with ⟨s', h⟩ | ⟨type, s₄, htype, h⟩
  · exact Primitive.dataType.pointsAt hs₃ h
  have hs₄ := hinvariant.part .dataType s₃ type s₄ hs₃ htype
  rcases h with ⟨s', h⟩ | ⟨_, s₅, hdeclare, h⟩
  · obtain ⟨declarations, hdeclaring⟩ := hx.exists_declaring rfl
    obtain ⟨n, hhead⟩ := Execution.exists_groupHead hname hnames hcolon htype
    obtain ⟨ts, rest, hg, hrest, -, hstore⟩ := hdeclaring.groupHead hhead
    rcases Execution.declareAll_cases type (name :: names) s₄ with
      ⟨r, hr, -⟩ | ⟨s', pre, name', place', post, first, hsplit, hfind, hfault⟩
    · cases hr.symm.trans h
    · cases hfault.symm.trans h
      rw [hstore] at hfind
      exact hdeclaring.pointsAt_of_taken hg hrest hsplit hfind
  have hs₅ := hinvariant.part (.declareAll trivial type (name :: names)) s₄ () s₅ hs₄ hdeclare
  rcases h with ⟨s', h⟩ | ⟨_, s₆, -, h⟩
  · exact (Primitive.expect rfl).pointsAt hs₅ h
  replace h := Plan.fails_current_iff.1 h
  split at h
  · exact absurd h (Plan.not_fails_call_done _)
  · exact absurd h (Plan.not_fails_done ())

/-- **A task that reports a fault** reports it where it should. -/
theorem pointsAt_of_fails {x : Invocation} (hx : Reached source x) (h : x.Fails f) :
    f.PointsAt source := by
  obtain ⟨task, s⟩ := x
  cases task with
  | routine r =>
    have hharmless (hcomputes : ¬r.computes) (hgroups : r ≠ .groups) : f.PointsAt source :=
      Plan.pointsAt_of_fails h hx.state
        (r.all_plan.mono (fun _ _ hx ↦ hx.mono hcomputes hgroups) fun _ h ↦ h)
    cases r with
    | groups => exact hx.pointsAt_of_groups h
    | statement => exact hx.pointsAt_of_statement h
    | sums v => exact hx.pointsAt_of_sums h
    | products v => exact hx.pointsAt_of_products h
    | factor => exact hx.pointsAt_of_factor h
    | _ => exact hharmless id (by simp)
  | passes address =>
    rcases h with h | ⟨s₁, s', hpass, hback⟩
    · exact Plan.pointsAt_of_fails h hx.state (Plan.all_pass address)
    · -- the way back leads to the start of the loop
      have hsource := Placed.pairwise_ofString source
      obtain ⟨p, -, ⟨hat, haddress⟩, -⟩ := hx.begins
      obtain rfl := haddress _ rfl
      obtain ⟨-, n, hn⟩ := hpass
      obtain ⟨q, ts, hat', hloop⟩ := Execution.exists_at_of_pass hsource hat hn
      obtain ⟨t, ht, -⟩ := hat.rewind hsource hloop.ne_endOfInput hat'.1
      cases hback.symm.trans ht

end Reached

theorem pointsAt_of_compileText {fuel : Nat} {source : String} {f : Fault}
    (h : compileText fuel source = .error (.fault f)) : f.PointsAt source := by
  rcases State.start_cases (.ofString source) with ⟨g, hg, -, hfault⟩ | ⟨s, p, hs, -⟩
  · rw [compileText_of_error fuel hg] at h
    cases h
    exact .of_lexical hfault
  · rw [compileText_of_start fuel hs, Execution.result_eq_error_iff] at h
    obtain ⟨s', hrun⟩ := h
    rw [Plan.program_eq] at hrun
    rcases Plan.fails_or_comes hrun with hfails | ⟨y, t, hy, ht⟩
    · exact Plan.pointsAt_of_fails hfails (.start hs) Plan.all_program
    · obtain ⟨x, hx, hfails⟩ := (Reached.start hs hy).exists_fails ht
      exact hx.pointsAt_of_fails hfails

/-- **Every fault points at what it names.** Its place lies in the text, from one character to
another, and the text there is what the fault is about: the token that is not expected, the name of
the variable, the operator or sign, the whole expression, or the piece that is no token. -/
theorem compileText_fault_pointsAt {fuel : Nat} {source : String} {f : Fault}
    (h : compileText fuel source = .error (.fault f)) :
    f.PointsAt source ∧ f.span.start ≤ f.span.stop ∧ f.span.stop ≤ source.utf8ByteSize ∧
      (⟨f.span.start⟩ : String.Pos.Raw).IsValid source ∧
      (⟨f.span.stop⟩ : String.Pos.Raw).IsValid source := by
  have hpoints := pointsAt_of_compileText h
  obtain ⟨piece, hcut⟩ := hpoints.exists_cut
  exact ⟨hpoints, hcut.start_le_stop, hcut.stop_le, hcut.isValid_start, hcut.isValid_stop⟩

/-- A sign has one byte, so an arithmetic fault at several is one of an operator. -/
theorem Fault.PointsAt.exists_operator {source : String} {g : ArithmeticFault} {span : Span}
    (h : PointsAt source ⟨.arithmetic g, span⟩) (hlong : span.stop ≠ span.start + 1) :
    ∃ l op v w, l.span = span ∧ ComesToOperator source l op v w ∧ op.apply v w = .error g := by
  cases h with
  | operator hmem hop hf hcut hcomes => exact ⟨_, _, _, _, rfl, hcomes, hf⟩
  | sign hmem hf hcut hcomes =>
    obtain ⟨before, after, -, rfl⟩ := hcut
    exact absurd String.utf8ByteSize_append hlong

/-- Whether something at a place is divided by zero. -/
def Fault.isDivisionAt (place : Span) : Fault → Bool
  | ⟨.arithmetic .divisionByZero, span⟩ => span == place
  | _ => false

theorem Fault.eq_of_isDivisionAt {place : Span} {f : Fault} (h : f.isDivisionAt place = true) :
    f = ⟨.arithmetic .divisionByZero, place⟩ := by
  rw [isDivisionAt.eq_def] at h
  split at h
  · rw [beq_iff_eq.1 h]
  · cases h

/-- The division fails in the second pass only, and one character in front of it has two bytes. -/
theorem pointsAt_of_fault_in_second_pass :
    let source :=
      "PROGRAM p; VAR n: INTEGER; BEGIN n:=1; \x7bé\x7d REPEAT n:=2 DIV n-2 UNTIL n=1 END."
    compileText 20 source = .error (.fault ⟨.arithmetic .divisionByZero, ⟨56, 59⟩⟩) ∧
      Fault.PointsAt source ⟨.arithmetic .divisionByZero, ⟨56, 59⟩⟩ ∧
      ∃ l op v w, l.span = ⟨56, 59⟩ ∧ ComesToOperator source l op v w ∧
        op.apply v w = .error .divisionByZero := by
  intro source
  have hplace : haltsWith (Fault.isDivisionAt ⟨56, 59⟩) 20 source := by decide +kernel
  obtain ⟨f, h, hkind⟩ := exists_fault_of_haltsWith hplace
  obtain rfl := Fault.eq_of_isDivisionAt hkind
  have hpoints := (compileText_fault_pointsAt h).1
  exact ⟨h, hpoints, hpoints.exists_operator (by decide)⟩

end MiniPascal
