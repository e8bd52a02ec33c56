import MiniPascal.Proofs.Plans
import MiniPascal.Proofs.Scoping

/-!
# Declarations

The variables of a program are those that its heading lists, in the order of the text, and the
listing of a program opens with their declarations.

If a name is listed twice, the program does not come past its heading, whatever follows. Otherwise
the heading has declared all variables when its last semicolon is taken. Nothing behind it declares
another one: this is so for every step of an execution, so it holds of what an execution leaves
behind however it ends (`Grows`).
-/

namespace MiniPascal

open Grammar

/-! ## Declaring -/

/-- The instruction that declares a variable. -/
def declaration (x : String × DataType × Span) : Instruction := .declare x.1 x.2.1

theorem Store.find?_eq_none_iff {s : Store} {name : String} :
    s.find? name = none ↔ name ∉ s.signature.map Prod.fst := by
  simp [find?, signature, List.find?_eq_none]

namespace Interpreter

variable {vs : List (String × DataType × Span)} {r : Progress}

/-- Variables of different names are declared one after the other. -/
theorem run_declareAll_of_nodup (h : ((r.store.signature ++ vs).map Prod.fst).Nodup) :
    ∃ r', (declareAll vs).run r = .ok () r' ∧ r'.store.signature = r.store.signature ++ vs ∧
      r'.listing.toList = r.listing.toList ++ vs.map declaration := by
  induction vs generalizing r with
  | nil => exact ⟨r, rfl, by simp, by simp⟩
  | cons x vs ih =>
    obtain ⟨name, type, place⟩ := x
    have hfind : r.store.find? name = none := by
      rw [List.map_append, List.nodup_append] at h
      rw [Store.find?_eq_none_iff]
      intro hname
      exact h.2.2 name hname name (by simp) rfl
    obtain ⟨store, hstore⟩ : ∃ store, r.store.declare name type place = .ok store := by
      rw [Store.declare, hfind]
      exact ⟨_, rfl⟩
    have hdeclare : (declare name type place).run r =
        .ok () ⟨store, r.listing.declare name type⟩ := by
      rw [run_declare, hstore]
    have hsignature := Store.signature_declare hstore
    obtain ⟨r', hr', hsignature', hlisting⟩ := ih (r := ⟨store, r.listing.declare name type⟩) (by
      rw [hsignature, List.append_assoc]
      exact h)
    refine ⟨r', (run_bind_of_ok hdeclare).trans hr', ?_, ?_⟩
    · rw [hsignature', hsignature, List.append_assoc]
      rfl
    · rw [hlisting, Listing.declare, Listing.toList_emit, List.append_assoc]
      rfl

/-- The second variable of a name is reported, with the place of the first. -/
theorem run_declareAll_of_find? {pre : List (String × DataType × Span)}
    (post : List (String × DataType × Span)) {x first : String × DataType × Span}
    (hpre : (pre.map Prod.fst).Nodup)
    (hfirst : pre.find? (fun y ↦ y.1 == x.1) = some first) :
    ∃ r, (declareAll (pre ++ x :: post)).run .empty =
      .error (.fault ⟨.duplicateDeclaration x.1 first.2.2, x.2.2⟩) r := by
  obtain ⟨r, hr, hsignature, -⟩ := run_declareAll_of_nodup (r := .empty) hpre
  obtain ⟨name, type, place⟩ := x
  have hfind := Store.find?_eq_signature r.store name
  rw [hsignature, show Progress.empty.store.signature ++ pre = pre from rfl, hfirst,
    Option.map_some, Option.map_eq_some_iff] at hfind
  obtain ⟨v, hv, hplace⟩ := hfind
  have hdeclare : (declare name type place).run r =
      .error (.fault ⟨.duplicateDeclaration name first.2.2, place⟩) r := by
    rw [run_declare, Store.declare_eq_error_iff.mpr hv, ← hplace]
  refine ⟨r, ?_⟩
  rw [declareAll_append, run_bind_of_ok hr, declareAll]
  exact run_bind_of_error hdeclare

end Interpreter

/-- Where names are not all different, there is a first one that comes again. -/
theorem exists_first_repeat {α : Type} (acc : List (String × α)) {vs : List (String × α)}
    (hacc : (acc.map Prod.fst).Nodup)
    (h : ¬ ((acc ++ vs).map Prod.fst).Nodup) :
    ∃ pre x post first, vs = pre ++ x :: post ∧ ((acc ++ pre).map Prod.fst).Nodup ∧
      (acc ++ pre).find? (fun y ↦ y.1 == x.1) = some first := by
  induction vs generalizing acc with
  | nil =>
    rw [List.append_nil] at h
    exact absurd hacc h
  | cons x vs ih =>
    by_cases hx : x.1 ∈ acc.map Prod.fst
    · obtain ⟨y, hy, hname⟩ := List.mem_map.mp hx
      have hsome : (acc.find? fun y ↦ y.1 == x.1).isSome :=
        List.find?_isSome.mpr ⟨y, hy, by simpa using hname⟩
      obtain ⟨first, hfirst⟩ := Option.isSome_iff_exists.mp hsome
      refine ⟨[], x, vs, first, rfl, ?_, ?_⟩
      · rwa [List.append_nil]
      · rwa [List.append_nil]
    · have hnext : ((acc ++ [x]).map Prod.fst).Nodup := by
        rw [List.map_append, List.nodup_append]
        refine ⟨hacc, by simp, fun a ha b hb hab ↦ hx ?_⟩
        rw [List.map_singleton, List.mem_singleton] at hb
        rwa [← hb, ← hab]
      have happend (ys : List (String × α)) : acc ++ [x] ++ ys = acc ++ x :: ys := by simp
      obtain ⟨pre, y, post, first, rfl, hpre, hfirst⟩ := ih _ hnext (by rwa [happend])
      rw [happend] at hpre hfirst
      exact ⟨x :: pre, y, post, first, rfl, hpre, hfirst⟩

/-! ## What declares nothing -/

/-- Declares a variable. -/
def Instruction.isDeclaration : Instruction → Bool
  | .declare _ _ => true
  | _ => false

/-- Code without declarations. -/
def DeclaresNothing (code : List Instruction) : Prop := ∀ i ∈ code, i.isDeclaration = false

/-- The variables are the same, and no declaration was emitted. -/
structure State.Grows (s t : State) : Prop where
  signature : t.store.signature = s.store.signature
  emits : Emits s.listing t.listing DeclaresNothing

namespace State.Grows

variable {s t u : State}

theorem of_progress (h : t.progress = s.progress) : s.Grows t := by
  have hstore : t.store = s.store := congrArg Progress.store h
  have hlisting : t.listing = s.listing := congrArg Progress.listing h
  refine ⟨by rw [hstore], ?_⟩
  rw [hlisting]
  exact .refl (List.forall_mem_nil _)

theorem refl (s : State) : s.Grows s := of_progress rfl

theorem trans (h : s.Grows t) (h' : t.Grows u) : s.Grows u := by
  refine ⟨h'.signature.trans h.signature, h.emits.trans h'.emits fun code code' hcode hcode' ↦ ?_⟩
  exact List.forall_mem_append.2 ⟨hcode, hcode'⟩

end State.Grows

namespace Execution

variable {α β : Type} {s : State}

/-- The state that an execution leaves behind, however it ends. -/
def final (x : Execution α) (s : State) : State :=
  match x.run s with
  | .ok _ s' => s'
  | .error _ s' => s'

theorem final_of_ok {x : Execution α} {a : α} {s' : State} (h : x.run s = .ok a s') :
    x.final s = s' := by
  rw [final, h]

theorem final_of_error {x : Execution α} {e : Halt} {s' : State} (h : x.run s = .error e s') :
    x.final s = s' := by
  rw [final, h]

theorem final_bind_of_ok {x : Execution α} {f : α → Execution β} {a : α} {s' : State}
    (h : x.run s = .ok a s') : (x >>= f).final s = (f a).final s' := by
  rw [final, run_bind_of_ok h, final]

/-- However the execution ends, it has declared nothing. -/
def Grows (x : Execution α) : Prop := ∀ s : State, s.Grows (x.final s)

namespace Grows

theorem pure (a : α) : Grows (Pure.pure a : Execution α) := fun s ↦ .refl s

theorem outOfFuel : Grows (Execution.outOfFuel : Execution α) := fun s ↦ .refl s

theorem fail (cause : FaultCause) (place : Span) :
    Grows (Execution.fail cause place : Execution α) := fun s ↦ .refl s

theorem unexpected (expected : List String) :
    Grows (Execution.unexpected expected : Execution α) := fun s ↦ .refl s

theorem bind {x : Execution α} {f : α → Execution β} (hx : Grows x) (hf : ∀ a, Grows (f a)) :
    Grows (x >>= f) := by
  intro s
  have hfirst := hx s
  cases hs : x.run s with
  | ok a s' =>
    rw [final_of_ok hs] at hfirst
    rw [final_bind_of_ok hs]
    exact hfirst.trans (hf a s')
  | error e s' =>
    rw [final_of_error hs] at hfirst
    rw [final_of_error (run_bind_of_error hs)]
    exact hfirst

theorem current : Grows Execution.current := fun s ↦ .refl s

theorem get : Grows (MonadState.get : Execution State) := fun s ↦ .refl s

theorem step : Grows Execution.step := by
  intro s
  cases hnext : s.scanner.next.1 with
  | ok l =>
    rw [final_of_ok (State.At.run_step_of_ok hnext)]
    exact .of_progress rfl
  | error f =>
    rw [final_of_error (State.At.run_step_of_error hnext)]
    exact .of_progress rfl

theorem emit {f : Listing → Listing} (hf : ∀ l, Emits l (f l) DeclaresNothing) :
    Grows (Execution.emit f) :=
  fun s ↦ ⟨rfl, hf s.listing⟩

/-- One instruction that is no declaration. -/
theorem emit_one {i : Instruction} (h : i.isDeclaration = false) :
    Grows (Execution.emit fun l ↦ l.emit i) :=
  emit fun _ ↦ .emit (List.forall_mem_singleton.2 h)

theorem expect (t : Token) : Grows (Execution.expect t) := by
  refine bind current fun here ↦ ?_
  split
  · exact step.bind fun _ ↦ pure _
  · exact unexpected _

theorem identifier : Grows Execution.identifier := by
  refine bind current fun here ↦ ?_
  split
  · exact step.bind fun _ ↦ pure _
  · exact unexpected _

theorem arithmetic (place : Span) (x : Except ArithmeticFault Value) :
    Grows (Execution.arithmetic place x) := by
  cases x with
  | ok v => exact pure v
  | error f => exact fail _ place

end Grows

/-! ### Productions -/

/-- An assignment changes a value, and no variable is added. -/
theorem grows_store (name : String) (place : Span) (start : Nat) (v : Value) :
    Grows (store name place start v) := by
  intro s
  rw [final, run_store, run_perform, Interpreter.run_assign, State.progress]
  cases hassign : s.store.assign name v with
  | ok store =>
    refine ⟨?_, .emit (List.forall_mem_singleton.2 rfl)⟩
    exact (Store.Evolves.assign hassign).signature
  | error f =>
    cases f with
    | undeclared => exact .of_progress rfl
    | typeMismatch expected got => exact .of_progress rfl

theorem grows_lookUp (name : String) (place : Span) :
    Grows (perform (Interpreter.lookUp name place)) := by
  intro s
  rw [final, run_perform, Interpreter.run_lookUp]
  cases s.progress.store.value? name with
  | some v => exact .of_progress rfl
  | none => exact .of_progress rfl

theorem grows_emission {f : Listing → Listing} (hf : Emission f) : Grows (emit f) := by
  cases hf with
  | arithmetic op v w =>
    -- an operation, and that its operand is used up
    exact (Grows.emit_one (i := .binary op (.value v) (.value w)) rfl).bind fun _ ↦
      .emit_one (i := .pop) rfl
  | _ => exact .emit_one rfl

/-- Parts that do not declare variables. -/
theorem grows_part {x : Execution α} (hx : Primitive True False α x) : Grows x := by
  cases hx with
  | pure a => exact .pure a
  | current => exact .current
  | unexpected expected => exact .unexpected expected
  | expect ht => exact .expect _
  | identifier => exact .identifier
  | dataType =>
    refine Grows.current.bind fun here ↦ ?_
    split
    · exact Grows.step.bind fun _ ↦ .pure _
    · exact .unexpected _
  | takeAny =>
    refine Grows.current.bind fun here ↦ ?_
    split
    · exact .unexpected _
    · exact .step
  | emit hf => exact grows_emission hf
  | compiled name => exact Grows.get.bind fun _ ↦ .pure _
  | arithmetic _ place x => exact .arithmetic place x
  | lookUp _ name place => exact grows_lookUp name place
  | store _ name place start v => exact grows_store name place start v
  | declareAll hfalse => exact hfalse.elim

theorem compositional_grows : Compositional (fun _ ↦ Grows) fun _ ↦ True where
  outOfFuel := .outOfFuel
  pure := .pure
  bind := .bind
  rewind _ := Grows.bind (fun s ↦ .of_progress rfl) fun _ ↦ .step
  loop h := by
    refine Grows.bind ?_ fun address ↦ h address trivial
    exact Grows.get.bind fun s ↦ (grows_emission (.markLoop _)).bind fun _ ↦ .pure _

/-- **Only declarations declare variables.** -/
theorem grows_routine {r : Routine} (hr : r ≠ .groups) (n : Nat) : Grows (r.run n) := by
  refine (compositional_grows.run (C := (· ≠ .groups)) (fun r hr ↦ ?_) (fun address ↦ ?_) n).1 r hr
  · exact r.all_plan.mono (fun _ _ hx ↦ grows_part (hx.mono (fun _ ↦ trivial) hr))
      fun _ hcall heq ↦ hr (hcall heq)
  · exact (Plan.all_pass address).mono (fun _ _ hx ↦ grows_part (hx.mono False.elim id))
      fun _ h ↦ h

/-! ### Programs -/

/-- A program from its first statement on. -/
def body (n : Nat) (name : String) : Execution Compiled := do
  compound n
  let _ ← expect (.symbol .dot)
  let s ← get
  return ⟨name, s.store, s.listing, warnings s⟩

theorem program_eq_heading (n : Nat) : program n = heading n >>= body n := by
  simp only [program_eq_outline, outline, bind_assoc, pure_bind]
  rfl

theorem grows_body (n : Nat) (name : String) : Grows (body n name) :=
  (grows_routine (r := .compound) (by simp) n).bind fun _ ↦ (Grows.expect _).bind fun _ ↦
    Grows.get.bind fun _ ↦ .pure _

theorem fueled_heading : Fueled heading := fun n ↦
  .bind_right _ fun _ ↦ .bind_right _ fun _ ↦ .bind_right _ fun _ ↦
    (fueled_declarations n).bind_left _

end Execution

/-! ## The heading of a text -/

/-- The text opens with `PROGRAM name ; VAR` and the groups of some variables. Behind them stands a
token that is not the name of another one. -/
structure OpensWith (source : String) (vs : List (String × DataType × Span)) (next : Lexeme) :
    Prop where
  exists_tokens : ∃ (k l c v : Lexeme) (name : String) (ts rest : List Lexeme)
    (gs : List Grammar.Group),
    (Scanner.ofString source).lexemes = k :: l :: c :: v :: (ts ++ next :: rest) ∧
      k.token = .keyword .program ∧ l.token = .identifier name ∧ c.token = .symbol .semicolon ∧
      v.token = .keyword .var ∧ DerivesGroups ts gs ∧ vs = gs.flatMap Group.variables
  not_identifier : ∀ name, next.token ≠ .identifier name

variable {source : String} {vs : List (String × DataType × Span)} {next : Lexeme}

/-- An execution of the heading declares the variables, and if it can it ends at the token behind
them. -/
theorem OpensWith.performs_heading (h : OpensWith source vs next) :
    ∃ s₀ q name n, State.start (.ofString source) = .ok s₀ ∧ q.current = next ∧
      Performs (do Interpreter.declareAll vs; return name) .empty
        (State.At (Placed.ofString source) · q) ((Execution.heading n).run s₀) := by
  obtain ⟨k, l, c, v, name, ts, rest, gs, htokens, hk, hl, hc, hv, hgroups, rfl⟩ := h.exists_tokens
  rcases State.start_cases (.ofString source) with
    ⟨f, -, hnil, -⟩ | ⟨s₀, p, hs₀, hat, hempty, hlexemes, -⟩
  · rw [htokens] at hnil
    cases hnil
  have hp : p.Leads (k :: l :: c :: v :: ts) ⟨next, rest, p.ending⟩ :=
    ⟨hlexemes.trans htokens, rfl⟩
  obtain ⟨p₁, hkeyword, hp₁⟩ := hp.keyword hk
  obtain ⟨p₂, hname, hp₂⟩ := hp₁.identifier hl
  obtain ⟨p₃, hsemicolon, hp₃⟩ := hp₂.symbol hc
  obtain ⟨-, n, hn⟩ := Parser.yields_declarations_of_var hv hgroups hp₃ h.not_identifier
  obtain ⟨s₁, hs₁, h₁, hprogress₁, -⟩ := hat.expect_of_ok hkeyword
  obtain ⟨s₂, hs₂, h₂, hprogress₂⟩ := h₁.identifier_of_ok hname
  obtain ⟨s₃, hs₃, h₃, hprogress₃, -⟩ := h₂.expect_of_ok hsemicolon
  refine ⟨s₀, ⟨next, rest, p.ending⟩, name, n, hs₀, rfl, ?_⟩
  rw [Execution.heading, run_bind_of_ok hs₁, run_bind_of_ok hs₂, run_bind_of_ok hs₃, ← hempty,
    ← hprogress₁, ← hprogress₂, ← hprogress₃]
  exact (Execution.performs_declarations h₃ hn).bind fun _ s₄ _ h₄ ↦ .pure h₄

/-- The variables are those given. Their declarations come first, and are the only ones. -/
structure Progress.Declares (r : Progress) (vs : List (String × DataType × Span)) : Prop where
  symbols : r.store.symbols = vs.map fun x ↦ (x.1, x.2.1)
  listing : ∃ code, r.listing.toList = vs.map declaration ++ code ∧ DeclaresNothing code

/-- What declares nothing leaves the declarations as they are. -/
theorem State.Grows.declares {s t : State} (h : s.Grows t) (hsignature : s.store.signature = vs)
    (hlisting : s.listing.toList = vs.map declaration) : t.progress.Declares vs := by
  obtain ⟨code, hcode, hnothing⟩ := h.emits
  refine ⟨?_, code, ?_, hnothing⟩
  · rw [Store.symbols_eq_signature, ← hsignature, ← h.signature]
    rfl
  · rw [← hlisting, ← hcode]
    rfl

/-- Variables with different names are declared, and the heading ends behind them. -/
theorem OpensWith.exists_heading (h : OpensWith source vs next)
    (hnodup : (vs.map Prod.fst).Nodup) :
    ∃ s₀ s name n, State.start (.ofString source) = .ok s₀ ∧
      (Execution.heading n).run s₀ = .ok name s ∧ s.current = next ∧
      s.store.signature = vs ∧ s.listing.toList = vs.map declaration := by
  obtain ⟨s₀, q, name, n, hs₀, hq, hperforms⟩ := h.performs_heading
  obtain ⟨r, hr, hsignature, hlisting⟩ := Interpreter.run_declareAll_of_nodup (r := .empty) hnodup
  rw [Performs, run_bind_of_ok hr] at hperforms
  obtain ⟨s, hs, rfl, hat⟩ := hperforms
  exact ⟨s₀, s, name, n, hs₀, hs, hat.current_eq.trans hq, hsignature, hlisting⟩

/-- A fault among the declarations is the fault of the text. -/
theorem OpensWith.compileText_of_fault (h : OpensWith source vs next) {f : Fault} {r : Progress}
    (hr : (Interpreter.declareAll vs).run .empty = .error (.fault f) r) :
    ∃ N, ∀ fuel, N ≤ fuel → compileText fuel source = .error (.fault f) := by
  obtain ⟨s₀, q, name, N, hs₀, hq, hperforms⟩ := h.performs_heading
  rw [Performs, run_bind_of_error hr] at hperforms
  obtain ⟨s, hs, -⟩ := hperforms
  refine ⟨N, fun fuel hfuel ↦ ?_⟩
  have hheading : (Execution.heading fuel).run s₀ = .error (.fault f) s :=
    Execution.fueled_heading.run_of_le hfuel trivial hs
  rw [compileText_of_start fuel hs₀, Execution.result_eq_error_iff, Execution.program_eq_heading]
  exact ⟨s, run_bind_of_error hheading⟩

/-- Behind a heading nothing more is declared, however the program ends. -/
theorem Execution.declares_of_heading {fuel : Nat} {s₀ s : State} {name : String}
    (h : (heading fuel).run s₀ = .ok name s) (hsignature : s.store.signature = vs)
    (hlisting : s.listing.toList = vs.map declaration) :
    ((program fuel).final s₀).progress.Declares vs := by
  rw [program_eq_heading, final_bind_of_ok h]
  exact (grows_body fuel name s).declares hsignature hlisting

/-- **Declarations.** Variables with different names are declared by the heading of a program and by
nothing else, in the order of the text. Otherwise the program fails at the first name that comes
again, with the place where it came first. -/
theorem declared_exactly (h : OpensWith source vs next) :
    ((vs.map Prod.fst).Nodup →
      (∃ s₀ s name N, State.start (.ofString source) = .ok s₀ ∧ s.current = next ∧
        s.store.symbols = vs.map (fun x ↦ (x.1, x.2.1)) ∧
        s.listing.toList = vs.map declaration ∧
        ∀ fuel, N ≤ fuel → (Execution.heading fuel).run s₀ = .ok name s ∧
          ((Execution.program fuel).final s₀).progress.Declares vs) ∧
      ∀ fuel c, compileText fuel source = .ok c → Progress.Declares ⟨c.store, c.listing⟩ vs) ∧
    (¬ (vs.map Prod.fst).Nodup →
      ∃ pre x post first N, vs = pre ++ x :: post ∧ (pre.map Prod.fst).Nodup ∧
        pre.find? (fun y ↦ y.1 == x.1) = some first ∧
        ∀ fuel, N ≤ fuel → compileText fuel source =
          .error (.fault ⟨.duplicateDeclaration x.1 first.2.2, x.2.2⟩)) := by
  constructor
  · intro hnodup
    obtain ⟨s₀, s, name, N, hs₀, hs, hnext, hsignature, hlisting⟩ := h.exists_heading hnodup
    refine ⟨⟨s₀, s, name, N, hs₀, hnext, ?_, hlisting, fun fuel hfuel ↦ ?_⟩, fun fuel c hc ↦ ?_⟩
    · exact (Store.symbols_eq_signature s.store).trans (congrArg _ hsignature)
    · have hheading : (Execution.heading fuel).run s₀ = .ok name s :=
        Execution.fueled_heading.run_of_le hfuel trivial hs
      exact ⟨hheading, Execution.declares_of_heading hheading hsignature hlisting⟩
    · rw [compileText_of_start fuel hs₀, Execution.result_eq_ok_iff] at hc
      obtain ⟨s', hs'⟩ := hc
      -- with whatever fuel the heading passes, it comes to the same
      have hheading : (Execution.heading fuel).run s₀ = .ok name s := by
        rw [Execution.program_eq_heading] at hs'
        obtain ⟨name', s₁, hs₁, -⟩ := run_bind_eq_ok_iff.mp hs'
        have hyields : Yields Execution.heading s₀ (.ok name s) := ⟨trivial, N, hs⟩
        have hyields₁ : Yields Execution.heading s₀ (.ok name' s₁) := ⟨trivial, fuel, hs₁⟩
        rw [hs₁, hyields₁.unique Execution.fueled_heading hyields]
      have hfinal := Execution.declares_of_heading hheading hsignature hlisting
      rw [Execution.final_of_ok hs'] at hfinal
      obtain ⟨name', -, rfl⟩ := Execution.run_program_eq_ok_iff.mp hs'
      exact hfinal
  · intro hrepeat
    obtain ⟨pre, x, post, first, rfl, hpre, hfirst⟩ := exists_first_repeat [] .nil hrepeat
    rw [List.nil_append] at hpre hfirst
    obtain ⟨r, hr⟩ := Interpreter.run_declareAll_of_find? post hpre hfirst
    obtain ⟨N, hN⟩ := h.compileText_of_fault hr
    exact ⟨pre, x, post, first, N, rfl, hpre, hfirst, hN⟩

/-- Two groups of variables, and a program behind them. -/
theorem opensWith_groups : OpensWith "PROGRAM p; VAR a, b: INTEGER; c: REAL; BEGIN a := 1 END."
    [("a", .integer, ⟨15, 16⟩), ("b", .integer, ⟨18, 19⟩), ("c", .real, ⟨30, 31⟩)]
    ⟨.keyword .blockBegin, ⟨39, 44⟩⟩ := by
  refine ⟨⟨⟨.keyword .program, ⟨0, 7⟩⟩, ⟨.identifier "p", ⟨8, 9⟩⟩, ⟨.symbol .semicolon, ⟨9, 10⟩⟩,
    ⟨.keyword .var, ⟨11, 14⟩⟩, "p", [⟨.identifier "a", ⟨15, 16⟩⟩, ⟨.symbol .comma, ⟨16, 17⟩⟩,
      ⟨.identifier "b", ⟨18, 19⟩⟩, ⟨.symbol .colon, ⟨19, 20⟩⟩, ⟨.keyword .typeInteger, ⟨21, 28⟩⟩,
      ⟨.symbol .semicolon, ⟨28, 29⟩⟩, ⟨.identifier "c", ⟨30, 31⟩⟩, ⟨.symbol .colon, ⟨31, 32⟩⟩,
      ⟨.keyword .typeReal, ⟨33, 37⟩⟩, ⟨.symbol .semicolon, ⟨37, 38⟩⟩],
    [⟨.identifier "a", ⟨45, 46⟩⟩, ⟨.symbol .assign, ⟨47, 49⟩⟩, ⟨.integer 1, ⟨50, 51⟩⟩,
      ⟨.keyword .blockEnd, ⟨52, 55⟩⟩, ⟨.symbol .dot, ⟨55, 56⟩⟩, ⟨.endOfInput, ⟨56, 56⟩⟩],
    [⟨[("a", ⟨15, 16⟩), ("b", ⟨18, 19⟩)], .integer⟩, ⟨[("c", ⟨30, 31⟩)], .real⟩],
    rfl, rfl, rfl, rfl, rfl, ?_, rfl⟩, ?_⟩
  · exact .more (.mk (.more rfl rfl (.one rfl)) rfl rfl) rfl (.one (.mk (.one rfl) rfl rfl) rfl)
  · intro name h
    cases h

/-- A name comes again in a second group, in front of what is not even a program. -/
theorem opensWith_repeat : OpensWith "PROGRAM p; VAR a: INTEGER; b, a: REAL; 7"
    [("a", .integer, ⟨15, 16⟩), ("b", .real, ⟨27, 28⟩), ("a", .real, ⟨30, 31⟩)]
    ⟨.integer 7, ⟨39, 40⟩⟩ := by
  refine ⟨⟨⟨.keyword .program, ⟨0, 7⟩⟩, ⟨.identifier "p", ⟨8, 9⟩⟩, ⟨.symbol .semicolon, ⟨9, 10⟩⟩,
    ⟨.keyword .var, ⟨11, 14⟩⟩, "p", [⟨.identifier "a", ⟨15, 16⟩⟩, ⟨.symbol .colon, ⟨16, 17⟩⟩,
      ⟨.keyword .typeInteger, ⟨18, 25⟩⟩, ⟨.symbol .semicolon, ⟨25, 26⟩⟩,
      ⟨.identifier "b", ⟨27, 28⟩⟩, ⟨.symbol .comma, ⟨28, 29⟩⟩, ⟨.identifier "a", ⟨30, 31⟩⟩,
      ⟨.symbol .colon, ⟨31, 32⟩⟩, ⟨.keyword .typeReal, ⟨33, 37⟩⟩, ⟨.symbol .semicolon, ⟨37, 38⟩⟩],
    [⟨.endOfInput, ⟨40, 40⟩⟩],
    [⟨[("a", ⟨15, 16⟩)], .integer⟩, ⟨[("b", ⟨27, 28⟩), ("a", ⟨30, 31⟩)], .real⟩],
    rfl, rfl, rfl, rfl, rfl, ?_, rfl⟩, ?_⟩
  · exact .more (.mk (.one rfl) rfl rfl) rfl (.one (.mk (.more rfl rfl (.one rfl)) rfl rfl) rfl)
  · intro name h
    cases h

theorem declared_exactly_samples :
    (∃ c, compileText 20 "PROGRAM p; VAR a, b: INTEGER; c: REAL; BEGIN a := 1 END." = .ok c ∧
      c.store.symbols = [("a", .integer), ("b", .integer), ("c", .real)] ∧
      ∃ code, c.listing.toList =
        [.declare "a" .integer, .declare "b" .integer, .declare "c" .real] ++ code ∧
        DeclaresNothing code) ∧
    ∃ N, ∀ fuel, N ≤ fuel → compileText fuel "PROGRAM p; VAR a: INTEGER; b, a: REAL; 7" =
      .error (.fault ⟨.duplicateDeclaration "a" ⟨15, 16⟩, ⟨30, 31⟩⟩) := by
  constructor
  · have hok :
        (compileText 20 "PROGRAM p; VAR a, b: INTEGER; c: REAL; BEGIN a := 1 END.").isOk := by
      decide +kernel
    obtain ⟨c, hc⟩ := exists_compiled_of_isOk hok
    obtain ⟨hsymbols, hlisting⟩ := ((declared_exactly opensWith_groups).1 (by decide)).2 20 c hc
    exact ⟨c, hc, hsymbols, hlisting⟩
  · obtain ⟨pre, x, post, first, N, hvs, hpre, hfirst, hfault⟩ :=
      (declared_exactly opensWith_repeat).2 (by decide)
    -- neither the first nor the second name has come before
    rcases pre with _ | ⟨y, _ | ⟨z, _ | ⟨w, pre⟩⟩⟩
    · cases hfirst
    · cases hvs
      cases hfirst
    · cases hvs
      cases hfirst
      exact ⟨N, hfault⟩
    · simp at hvs

end MiniPascal
