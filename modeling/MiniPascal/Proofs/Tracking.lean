import MiniPascal.Proofs.Interpreter
import MiniPascal.Proofs.Parser
import MiniPascal.Proofs.Stream

/-!
# An execution reads as the parser does

An execution reads its tokens from a scanner and comes back to some of them, the parser takes them
from a finished list. `State.At` relates the state of the one to a position of the other, and a step
of either is a step of both.

So far as the text is concerned an execution does what the parser does (`Follows`): where it
succeeds the parser succeeds and comes to the same position, and where the text is at fault the
parser halts with the same fault. Another fault of an execution says nothing of the text.

A loop is read again on every pass. Its first pass is what the parser reads; all others start from
the same position, since the scanner finds the token at the address of the loop again, and so read
the same.
-/

namespace MiniPascal

variable {α β γ : Type}

/-! ## What reads nothing -/

/-- The variables and the instructions of a state. -/
def State.progress (s : State) : Progress := ⟨s.store, s.listing⟩

/-- The state with other variables and instructions. -/
def State.withProgress (s : State) (r : Progress) : State :=
  { s with store := r.store, listing := r.listing }

/-- A step of interpreting as a step of an execution that reads nothing. -/
def Execution.perform (x : Interpreter α) : Execution α := fun s ↦
  match x.run s.progress with
  | .ok a r => .ok a (s.withProgress r)
  | .error e r => .error e (s.withProgress r)

namespace Execution

theorem run_current_bind (f : Lexeme → Execution α) (s : State) :
    (current >>= f).run s = (f s.current).run s := rfl

theorem run_expect_eq_ok {s s' : State} {u : Token} {place : Span}
    (h : (expect u).run s = .ok place s') :
    s.current.token.same u = true ∧ place = s.current.span ∧ step.run s = .ok () s' := by
  rw [expect, run_current_bind] at h
  by_cases hu : s.current.token.same u = true
  · rw [if_pos hu] at h
    obtain ⟨_, s₁, hstep, hpure⟩ := run_bind_eq_ok_iff.1 h
    cases hpure
    exact ⟨hu, rfl, hstep⟩
  · rw [if_neg hu] at h
    cases h

theorem run_identifier_eq_ok {s s' : State} {name : String} {place : Span}
    (h : identifier.run s = .ok (name, place) s') :
    s.current = ⟨.identifier name, place⟩ ∧ step.run s = .ok () s' := by
  obtain ⟨⟨token, span⟩, store, listing, previousStop, scanner⟩ := s
  rw [identifier, run_current_bind] at h
  cases token with
  | identifier name' =>
    obtain ⟨_, s₁, hstep, hpure⟩ := run_bind_eq_ok_iff.1 h
    cases hpure
    exact ⟨rfl, hstep⟩
  | _ => cases h

theorem run_perform (x : Interpreter α) (s : State) :
    (perform x).run s = match x.run s.progress with
      | .ok a r => .ok a (s.withProgress r)
      | .error e r => .error e (s.withProgress r) := rfl

theorem perform_bind (x : Interpreter α) (f : α → Interpreter β) :
    perform (x >>= f) = perform x >>= fun a ↦ perform (f a) := by
  refine eq_of_run_eq fun s ↦ ?_
  rw [EStateM.run_bind, run_perform, run_perform, EStateM.run_bind]
  cases x.run s.progress with
  | ok a r => rfl
  | error e r => rfl

theorem emit_eq_perform (f : Listing → Listing) : emit f = perform (Interpreter.emit f) := rfl

theorem arithmetic_eq_perform (place : Span) (r : Except ArithmeticFault Value) :
    arithmetic place r = perform (Interpreter.arithmetic place r) := by
  cases r with
  | ok v => rfl
  | error f => rfl

theorem variableValue_eq_perform (name : String) (place : Span) :
    variableValue name place = (do
      perform (Interpreter.emit fun l ↦ l.pushVariable name)
      step
      perform (Interpreter.lookUp name place)) := by
  rw [variableValue, emit_eq_perform]
  refine bind_congr fun _ ↦ bind_congr fun _ ↦ eq_of_run_eq fun s ↦ ?_
  rw [run_get_bind, run_perform, Interpreter.run_lookUp, State.progress]
  cases s.store.value? name with
  | some v => rfl
  | none => rfl

theorem declare_eq_perform (name : String) (place : Span) (type : DataType) :
    declare name place type = perform (Interpreter.declare name type place) := by
  refine eq_of_run_eq fun s ↦ ?_
  rw [declare, run_get_bind, run_perform, Interpreter.run_declare, State.progress]
  cases s.store.declare name type place with
  | ok store => rfl
  | error first => rfl

theorem declareAll_eq_perform (type : DataType) (names : List (String × Span)) :
    declareAll type names =
      perform (Interpreter.declareAll (names.map fun (name, place) ↦ (name, type, place))) := by
  induction names with
  | nil => rfl
  | cons name names ih =>
    rw [declareAll, ih, List.map_cons, Interpreter.declareAll, perform_bind, declare_eq_perform]

/-- A wrong type is reported at the expression that was just read. -/
theorem run_store (name : String) (place : Span) (start : Nat) (v : Value) (s : State) :
    (store name place start v).run s =
      (perform (Interpreter.assign name place ⟨start, s.previousStop⟩ v)).run s := by
  rw [store, run_get_bind, run_perform, Interpreter.run_assign, State.progress]
  cases s.store.assign name v with
  | ok store => rfl
  | error f =>
    cases f with
    | undeclared => rfl
    | typeMismatch expected got => rfl

end Execution

/-! ## States and positions -/

/-- The next token of a state is the one at a position, and the scanner behind it goes on from
there. -/
def State.At (source : List Placed) (s : State) (p : Position) : Prop :=
  s.scanner.source = source ∧ ∃ before : Scanner, before.source = source ∧
    before.next.1 = .ok s.current ∧ before.next.2.rest = s.scanner.rest ∧
    before.lexemes = p.lexemes ∧ before.fault? = p.ending

namespace State.At

variable {source : List Placed} {s : State} {p : Position}

theorem current_eq (h : s.At source p) : s.current = p.current := by
  obtain ⟨-, before, -, hnext, -, hlexemes, -⟩ := h
  obtain ⟨ls, hls⟩ := Scanner.exists_lexemes_cons hnext
  rw [hls, Position.lexemes, List.cons.injEq] at hlexemes
  exact hlexemes.1

/-- Only the next token and the scanner matter. -/
theorem congr (h : s.At source p) {t : State} (hcurrent : t.current = s.current)
    (hscanner : t.scanner = s.scanner) : t.At source p := by
  rw [At, hcurrent, hscanner]
  exact h

/-- At the end of the input a step stays there. -/
theorem of_end (h : s.At source p) (hend : s.current.token = .endOfInput) :
    p.upcoming = [] ∧ p.ending = none ∧ s.scanner.next.1 = .ok s.current ∧
      s.scanner.next.2.rest = s.scanner.rest := by
  obtain ⟨hsource, before, hbefore, hnext, hrest, hlexemes, hfault⟩ := h
  rw [(Scanner.lexemes_of_end hnext hend).1, Position.lexemes, List.cons.injEq] at hlexemes
  rw [(Scanner.lexemes_of_end hnext hend).2] at hfault
  obtain ⟨hnil, hagain⟩ := scan_end hnext hend
  have hs : s.scanner.rest = [] := hrest.symm.trans hnil
  refine ⟨hlexemes.2.symm, hfault.symm, ?_, ?_⟩
  · rw [Scanner.next_fst, hs, hsource, ← hbefore]
    exact hagain
  · rw [Scanner.next_snd_rest, hs]
    rfl

/-- Before the end of the input, the scanner has the tokens after the next one. -/
theorem of_token (h : s.At source p) (hend : s.current.token ≠ .endOfInput) :
    s.scanner.lexemes = p.upcoming ∧ s.scanner.fault? = p.ending := by
  obtain ⟨hsource, before, hbefore, hnext, hrest, hlexemes, hfault⟩ := h
  rw [(Scanner.lexemes_of_token hnext hend).1, Position.lexemes, List.cons.injEq] at hlexemes
  rw [(Scanner.lexemes_of_token hnext hend).2] at hfault
  obtain ⟨hlexemes', hfault'⟩ := Scanner.lexemes_congr (s := s.scanner) (t := before.next.2)
    (hsource.trans hbefore.symm) hrest.symm
  rw [hlexemes', hfault', hlexemes.2, hfault]
  exact ⟨rfl, rfl⟩

/-- Where the scanner reads a token, an execution moves on to it. -/
theorem run_step_of_ok {l : Lexeme} (h : s.scanner.next.1 = .ok l) :
    Execution.step.run s = .ok () { s with
      current := l
      previousStop := s.current.span.stop
      scanner := s.scanner.next.2 } := by
  rcases hnext : s.scanner.next with ⟨r, scanner⟩
  rw [hnext] at h
  obtain rfl : r = .ok l := h
  simp only [Execution.step, EStateM.run, hnext]

theorem run_step_of_error {f : LexicalFault} (h : s.scanner.next.1 = .error f) :
    Execution.step.run s =
      .error (.fault (.ofLexical f)) { s with scanner := s.scanner.next.2 } := by
  rcases hnext : s.scanner.next with ⟨r, scanner⟩
  rw [hnext] at h
  obtain rfl : r = .error f := h
  simp only [Execution.step, EStateM.run, hnext]

/-- **One step.** The execution and the parser move on together, or halt with the same lexical
fault. -/
theorem step (h : s.At source p) :
    (∃ s' p', Execution.step.run s = .ok () s' ∧ Parser.step.run p = .ok () p' ∧
        s'.At source p' ∧ s'.progress = s.progress ∧ s'.previousStop = s.current.span.stop) ∨
      ∃ f s' p', Execution.step.run s = .error (.fault f) s' ∧
        Parser.step.run p = .error (.fault f) p' := by
  obtain ⟨current, upcoming, ending⟩ := p
  by_cases hend : s.current.token = .endOfInput
  · obtain ⟨hupcoming, hending, hnext, hrest⟩ := h.of_end hend
    simp only at hupcoming hending
    subst hupcoming hending
    refine .inl ⟨_, _, run_step_of_ok hnext, rfl, ?_, rfl, rfl⟩
    obtain ⟨hsource, before, hbefore, hnext', hrest', hlexemes⟩ := h
    exact ⟨hsource, before, hbefore, hnext', hrest'.trans hrest.symm, hlexemes⟩
  -- the scanner has what the parser has left, so both find the same next
  · obtain ⟨hlexemes, hfault⟩ := h.of_token hend
    simp only at hlexemes hfault
    subst hlexemes hfault
    cases hnext : s.scanner.next.1 with
    | error f =>
      refine .inr ⟨.ofLexical f, _, ⟨current, s.scanner.lexemes, s.scanner.fault?⟩,
        run_step_of_error hnext, ?_⟩
      obtain ⟨hnil, hsome⟩ := Scanner.lexemes_of_error hnext
      simp only [Parser.step, EStateM.run, hnil, hsome]
    | ok l =>
      obtain ⟨ls, hls⟩ := Scanner.exists_lexemes_cons hnext
      refine .inl ⟨_, ⟨l, ls, s.scanner.fault?⟩, run_step_of_ok hnext, ?_, ?_, rfl, rfl⟩
      · simp only [Parser.step, EStateM.run, hls]
      · exact ⟨h.1, s.scanner, h.1, hnext, rfl, hls, rfl⟩

/-- **Reading again.** From the address of a token the scanner comes back to its position. -/
theorem rewind (hsource : source.Pairwise fun p q ↦ p.offset < q.offset) (h : s.At source p)
    (hend : p.current.token ≠ .endOfInput) {t : State} (ht : t.scanner.source = source) :
    ∃ t', (Execution.rewind (charsBefore source p.current.span.start)).run t = .ok () t' ∧
      t'.At source p ∧ t'.progress = t.progress := by
  have hcurrent := h.current_eq
  obtain ⟨-, before, hbefore, hnext, hrest, hlexemes, hfault⟩ := h
  subst hbefore
  rw [← hcurrent] at hend ⊢
  obtain ⟨hagain, hagain'⟩ := scan_seek hsource before.suffix hnext hend
  let back := t.scanner.seek (charsBefore before.source s.current.span.start)
  have hback : back.next.1 = .ok s.current := by
    rw [Scanner.next_fst]
    simp only [back, Scanner.seek, ht]
    exact hagain
  have hbackRest : back.next.2.rest = before.next.2.rest := by
    rw [Scanner.next_snd_rest]
    simp only [back, Scanner.seek, ht]
    exact hagain'
  refine ⟨_, run_step_of_ok (s := { t with scanner := back }) hback, ?_, rfl⟩
  obtain ⟨hlexemes', hfault'⟩ := Scanner.lexemes_eq_of_next hback hnext ht hbackRest
  exact ⟨ht, back, ht, hback, rfl, hlexemes'.trans hlexemes, hfault'.trans hfault⟩

end State.At

/-- A step succeeds if there is a token to move on to. -/
theorem Execution.run_step_eq_ok_iff {s s' : State} : step.run s = .ok () s' ↔
    ∃ l, s.scanner.next.1 = .ok l ∧ s' = { s with
      current := l
      previousStop := s.current.span.stop
      scanner := s.scanner.next.2 } := by
  constructor
  · intro h
    cases hnext : s.scanner.next.1 with
    | error f => cases h.symm.trans (State.At.run_step_of_error hnext)
    | ok l =>
      cases h.symm.trans (State.At.run_step_of_ok hnext)
      exact ⟨l, rfl, rfl⟩
  · rintro ⟨l, hnext, rfl⟩
    exact State.At.run_step_of_ok hnext

/-! ## Following the parser -/

/-- The fault is one of the text, not of what the text does. -/
def FaultCause.Syntactic : FaultCause → Prop
  | .unexpected _ _ => True
  | .lexical _ => True
  | _ => False

/-- What halts it is a fault, and not one of the text. -/
def Semantic (x : Interpreter α) : Prop :=
  ∀ r e r', x.run r = .error e r' → ∃ f, e = .fault f ∧ ¬f.cause.Syntactic

/-- Where the execution succeeds, the parser does and comes to the same position; where it halts
because of the text, the parser halts with the same fault. -/
def Follows (source : List Placed) (x : Execution α) (y : Parser β) (s : State) (p : Position) :
    Prop :=
  match x.run s with
  | .ok _ s' => ∃ b p', y.run p = .ok b p' ∧ s'.At source p'
  | .error (.fault f) _ => f.cause.Syntactic → ∃ p', y.run p = .error (.fault f) p'
  | .error .outOfFuel _ => True

namespace Follows

variable {source : List Placed} {s : State} {p : Position}

theorem of_ok {x : Execution α} {y : Parser β} (h : Follows source x y s p) {a : α} {s' : State}
    (hx : x.run s = .ok a s') : ∃ b p', y.run p = .ok b p' ∧ s'.At source p' := by
  rw [Follows, hx] at h
  exact h

theorem of_fault {x : Execution α} {y : Parser β} (h : Follows source x y s p) {f : Fault}
    {s' : State} (hx : x.run s = .error (.fault f) s') (hf : f.cause.Syntactic) :
    ∃ p', y.run p = .error (.fault f) p' := by
  rw [Follows, hx] at h
  exact h hf

theorem outOfFuel {y : Parser β} : Follows source (Execution.outOfFuel : Execution α) y s p :=
  trivial

theorem pure {a : α} {b : β} (h : s.At source p) :
    Follows source (Pure.pure a) (Pure.pure b : Parser β) s p :=
  ⟨b, p, rfl, h⟩

theorem unexpected (expected : List String) (h : s.At source p) :
    Follows source (Execution.unexpected expected : Execution α)
      (Parser.unexpected expected : Parser β) s p := by
  intro _
  rw [h.current_eq]
  exact ⟨p, rfl⟩

theorem bind {x : Execution α} {y : Parser β} {δ : Type} {f : α → Execution γ} {g : β → Parser δ}
    (hx : Follows source x y s p)
    (hf : ∀ a b s' p', x.run s = .ok a s' → y.run p = .ok b p' → s'.At source p' →
      Follows source (f a) (g b) s' p') :
    Follows source (x >>= f) (y >>= g) s p := by
  cases hxs : x.run s with
  | ok a s' =>
    obtain ⟨b, p', hyp, hat⟩ := hx.of_ok hxs
    have := hf a b s' p' hxs hyp hat
    rw [Follows, run_bind_of_ok hxs, run_bind_of_ok hyp]
    exact this
  | error e s' =>
    rw [Follows, run_bind_of_error hxs]
    cases e with
    | outOfFuel => trivial
    | fault e =>
      intro he
      obtain ⟨p', hyp⟩ := hx.of_fault hxs he
      exact ⟨p', run_bind_of_error hyp⟩

/-- The parser may put what it has read into a tree. -/
theorem map {x : Execution α} {y : Parser β} (g : β → γ) (h : Follows source x y s p) :
    Follows source x (y >>= fun b ↦ Pure.pure (g b)) s p := by
  have := h.bind (f := Pure.pure) (g := fun b ↦ Pure.pure (g b)) fun _ _ _ _ _ _ h' ↦ .pure h'
  rwa [bind_pure] at this

/-- A choice by the next token is the same choice. -/
theorem current {f : Lexeme → Execution α} {g : Lexeme → Parser β} (h : s.At source p)
    (hf : Follows source (f p.current) (g p.current) s p) :
    Follows source (Execution.current >>= f) (Parser.current >>= g) s p := by
  rw [← h.current_eq] at hf
  have hg : (Parser.current >>= g).run p = (g s.current).run p := by
    rw [Parser.run_current_bind, h.current_eq]
  rw [Follows, hg]
  exact hf

/-- An execution may look at the next token on its own. -/
theorem peek {f : Lexeme → Execution α} {y : Parser β} (h : Follows source (f s.current) y s p) :
    Follows source (Execution.current >>= f) y s p := h

/-- What reads nothing has no counterpart in the parser. -/
theorem perform_bind {x : Interpreter α} {f : α → Execution β} {y : Parser γ} (hx : Semantic x)
    (h : s.At source p) (hf : ∀ a s', s'.At source p → Follows source (f a) y s' p) :
    Follows source (Execution.perform x >>= f) y s p := by
  cases hxs : x.run s.progress with
  | ok a r =>
    have hperform : (Execution.perform x).run s = .ok a (s.withProgress r) := by
      rw [Execution.run_perform, hxs]
    have := hf a (s.withProgress r) (h.congr rfl rfl)
    rw [Follows, run_bind_of_ok hperform]
    exact this
  | error e r =>
    have hperform : (Execution.perform x).run s = .error e (s.withProgress r) := by
      rw [Execution.run_perform, hxs]
    obtain ⟨g, rfl, hg⟩ := hx _ _ _ hxs
    rw [Follows, run_bind_of_error hperform]
    exact fun h ↦ absurd h hg

theorem perform {x : Interpreter α} {b : β} (hx : Semantic x) (h : s.At source p) :
    Follows source (Execution.perform x) (Pure.pure b : Parser β) s p := by
  have := perform_bind (f := Pure.pure) hx h fun a s' hs' ↦ .pure (b := b) hs'
  rwa [bind_pure] at this

/-- The parser may have more fuel. -/
theorem mono {x : Execution α} {y z : Parser β} (h : Follows source x y s p)
    (hyz : Approximates y z) : Follows source x z s p := by
  cases hx : x.run s with
  | ok a s' =>
    obtain ⟨b, p', hy, hat⟩ := h.of_ok hx
    rw [Follows, hx, hyz p (by rw [hy]; trivial)]
    exact ⟨b, p', hy, hat⟩
  | error e s' =>
    rw [Follows, hx]
    cases e with
    | outOfFuel => trivial
    | fault e =>
      intro he
      obtain ⟨p', hy⟩ := h.of_fault hx he
      exact ⟨p', by rw [hyz p (by rw [hy]; trivial), hy]⟩

theorem step (h : s.At source p) : Follows source Execution.step Parser.step s p := by
  rcases h.step with ⟨s', p', hs, hp, hat, -⟩ | ⟨f, s', p', hs, hp⟩
  · rw [Follows, hs]
    exact ⟨(), p', hp, hat⟩
  · rw [Follows, hs]
    exact fun _ ↦ ⟨p', hp⟩

theorem expect (t : Token) (h : s.At source p) :
    Follows source (Execution.expect t) (Parser.expect t) s p := by
  refine .current h ?_
  split
  · exact (step h).bind fun _ _ s' p' _ _ h' ↦ .pure h'
  · exact .unexpected _ h

theorem identifier (h : s.At source p) :
    Follows source Execution.identifier Parser.identifier s p := by
  refine .current h ?_
  cases p.current.token with
  | identifier name => exact (step h).bind fun _ _ s' p' _ _ h' ↦ .pure h'
  | _ => exact .unexpected _ h

end Follows

namespace Semantic

theorem emit (f : Listing → Listing) : Semantic (Interpreter.emit f) := nofun

theorem bind {x : Interpreter α} {f : α → Interpreter β} (hx : Semantic x)
    (hf : ∀ a, Semantic (f a)) : Semantic (x >>= f) := by
  intro r e r' h
  rcases run_bind_eq_iff.1 h with ⟨a, s, -, hfs⟩ | ⟨e', s, hxs, he⟩
  · exact hf a _ _ _ hfs
  · cases he
    exact hx _ _ _ hxs

theorem arithmetic (place : Span) (x : Except ArithmeticFault Value) :
    Semantic (Interpreter.arithmetic place x) := by
  intro r e r' h
  rw [Interpreter.run_arithmetic] at h
  split at h
  · cases h
  · cases h
    exact ⟨_, rfl, id⟩

theorem lookUp (name : String) (place : Span) : Semantic (Interpreter.lookUp name place) := by
  intro r e r' h
  rw [Interpreter.run_lookUp] at h
  split at h
  · cases h
  · cases h
    exact ⟨_, rfl, id⟩

theorem assign (name : String) (place value : Span) (v : Value) :
    Semantic (Interpreter.assign name place value v) := by
  intro r e r' h
  rw [Interpreter.run_assign] at h
  split at h
  · cases h
  · cases h
    exact ⟨_, rfl, id⟩
  · cases h
    exact ⟨_, rfl, id⟩

theorem declare (name : String) (type : DataType) (place : Span) :
    Semantic (Interpreter.declare name type place) := by
  intro r e r' h
  rw [Interpreter.run_declare] at h
  split at h
  · cases h
  · cases h
    exact ⟨_, rfl, id⟩

theorem declareAll (vs : List (String × DataType × Span)) :
    Semantic (Interpreter.declareAll vs) := by
  induction vs with
  | nil => exact nofun
  | cons v vs ih => exact bind (declare _ _ _) fun _ ↦ ih

end Semantic

/-! ## The productions -/

namespace Execution

variable {source : List Placed} {s : State} {p : Position}

theorem follows_binary {op : Operator} {v : Value} {left : Grammar.Expression} {x : Execution Value}
    {y : Parser Grammar.Expression} (h : s.At source p)
    (hx : ∀ s p, s.At source p → Follows source x y s p) :
    Follows source (binary op v x) (Parser.binary op left y) s p := by
  refine .current h ((Follows.step h).bind fun _ _ s₁ p₁ _ _ h₁ ↦ (hx s₁ p₁ h₁).bind ?_)
  intro w right s₂ p₂ _ _ h₂
  rw [arithmetic_eq_perform, emit_eq_perform, ← perform_bind]
  exact .perform ((Semantic.emit _).bind fun _ ↦ .arithmetic _ _) h₂

theorem follows_literal (v : Value) (place : Span) (h : s.At source p) :
    Follows source (literal v) (Parser.literal v place) s p := by
  rw [literal, emit_eq_perform]
  exact .perform_bind (.emit _) h fun _ s₁ h₁ ↦
    (Follows.step h₁).bind fun _ _ _ _ _ _ h₂ ↦ .pure h₂

theorem follows_variableValue (name : String) (place : Span) (e : Grammar.Expression)
    (h : s.At source p) :
    Follows source (variableValue name place) (Parser.step >>= fun _ ↦ pure e) s p := by
  rw [variableValue_eq_perform]
  exact .perform_bind (.emit _) h fun _ s₁ h₁ ↦ (Follows.step h₁).bind fun _ _ s₂ p₂ _ _ h₂ ↦
    .perform (.lookUp name place) h₂

theorem follows_factor (n : Nat) (h : s.At source p)
    (hexpression : ∀ s p, s.At source p →
      Follows source (expression n) (Parser.expression n) s p) :
    Follows source (factor (n + 1)) (Parser.factor (n + 1)) s p := by
  rw [factor, Parser.factor]
  refine .current h ?_
  cases p.current.token with
  | symbol sign =>
    cases sign with
    | plus =>
      exact (Follows.step h).bind fun _ _ s₁ p₁ _ _ h₁ ↦ (hexpression s₁ p₁ h₁).map _
    | minus =>
      refine (Follows.step h).bind fun _ _ s₁ p₁ _ _ h₁ ↦ (hexpression s₁ p₁ h₁).bind ?_
      intro v e s₂ p₂ _ _ h₂
      rw [arithmetic_eq_perform, emit_eq_perform, ← perform_bind]
      exact .perform ((Semantic.emit _).bind fun _ ↦ .arithmetic _ _) h₂
    | openParen =>
      refine (Follows.step h).bind fun _ _ s₁ p₁ _ _ h₁ ↦ (hexpression s₁ p₁ h₁).bind ?_
      intro v e s₂ p₂ _ _ h₂
      exact (Follows.expect _ h₂).bind fun _ _ _ _ _ _ h₃ ↦ .pure h₃
    | _ => exact .unexpected _ h
  | integer k => exact follows_literal _ _ h
  | real x => exact follows_literal _ _ h
  | identifier name => exact follows_variableValue _ _ _ h
  | _ => exact .unexpected _ h

/-- Expressions are read as the parser reads them. -/
theorem follows_expression (n : Nat) :
    (∀ s p, s.At source p → Follows source (expression n) (Parser.expression n) s p) ∧
      (∀ v left s p, s.At source p → Follows source (sums n v) (Parser.sums n left) s p) ∧
      (∀ s p, s.At source p → Follows source (term n) (Parser.term n) s p) ∧
      (∀ v left s p, s.At source p → Follows source (products n v) (Parser.products n left) s p) ∧
      ∀ s p, s.At source p → Follows source (factor n) (Parser.factor n) s p := by
  induction n with
  | zero =>
    exact ⟨fun _ _ _ ↦ .outOfFuel, fun _ _ _ _ _ ↦ .outOfFuel, fun _ _ _ ↦ .outOfFuel,
      fun _ _ _ _ _ ↦ .outOfFuel, fun _ _ _ ↦ .outOfFuel⟩
  | succ n ih =>
    obtain ⟨hexpression, hsums, hterm, hproducts, hfactor⟩ := ih
    refine ⟨fun s p h ↦ ?_, fun v left s p h ↦ ?_, fun s p h ↦ ?_, fun v left s p h ↦ ?_,
      fun s p h ↦ ?_⟩
    · exact (hterm s p h).bind fun v left s₁ p₁ _ _ h₁ ↦ hsums v left s₁ p₁ h₁
    · rw [sums, Parser.sums]
      refine .current h ?_
      cases Operator.additive? p.current.token with
      | some op =>
        exact (follows_binary h hterm).bind fun v left s₁ p₁ _ _ h₁ ↦ hsums v left s₁ p₁ h₁
      | none => exact .pure h
    · exact (hfactor s p h).bind fun v left s₁ p₁ _ _ h₁ ↦ hproducts v left s₁ p₁ h₁
    · rw [products, Parser.products]
      refine .current h ?_
      cases Operator.multiplicative? p.current.token with
      | some op =>
        exact (follows_binary h hfactor).bind fun v left s₁ p₁ _ _ h₁ ↦ hproducts v left s₁ p₁ h₁
      | none => exact .pure h
    · exact follows_factor n h hexpression

theorem follows_assignment (n : Nat) (h : s.At source p) :
    Follows source (assignment n) (Parser.assignment n) s p := by
  refine (Follows.identifier h).bind fun a b s₁ p₁ _ _ h₁ ↦ (Follows.expect _ h₁).bind ?_
  intro _ _ s₂ p₂ _ _ h₂
  refine .peek (((follows_expression n).1 s₂ p₂ h₂).bind fun v e s₃ p₃ _ _ h₃ ↦ ?_)
  rw [Follows, run_store]
  exact Follows.perform (.assign _ _ _ v) h₃

theorem follows_comparison (n address : Nat) (h : s.At source p) :
    Follows source (comparison n address) (Parser.comparison n) s p := by
  refine ((follows_expression n).1 s p h).bind fun v e s₁ p₁ _ _ h₁ ↦ .current h₁ ?_
  cases Comparison.ofToken? p₁.current.token with
  | some c =>
    simp only [emit_eq_perform]
    refine .perform_bind (.emit _) h₁ fun _ s₂ h₂ ↦ (Follows.step h₂).bind ?_
    exact fun _ _ s₃ p₃ _ _ h₃ ↦ ((follows_expression n).1 s₃ p₃ h₃).bind
      fun _ _ _ _ _ _ h₄ ↦ .pure h₄
  | none => exact .unexpected _ h₁

/-- One pass of the loop at an address, which tells whether it was the last. -/
def pass (n address : Nat) : Execution Bool := do
  let _ ← expect (.keyword .loopRepeat)
  statements n
  let _ ← expect (.keyword .loopUntil)
  comparison n address

theorem passes_succ (n address : Nat) :
    passes (n + 1) address = (do
      let done ← pass n address
      if done then return ()
      else
        rewind address
        passes n address) := by
  rw [passes, pass]
  simp only [bind_assoc]

theorem follows_pass {n : Nat} (address : Nat)
    (hstatements : ∀ s p, s.At source p →
      Follows source (statements n) (Parser.statements n) s p) (h : s.At source p) :
    Follows source (pass n address) (Parser.loop (n + 1)) s p := by
  rw [Parser.loop]
  refine (Follows.expect _ h).bind fun _ place s₁ p₁ _ _ h₁ ↦ (hstatements s₁ p₁ h₁).bind ?_
  intro _ body s₂ p₂ _ _ h₂
  exact (Follows.expect _ h₂).bind fun _ _ s₃ p₃ _ _ h₃ ↦ (follows_comparison n address h₃).map _

/-- Every pass of a loop is read from the position of its `REPEAT`. So where a later pass halts
because of the text, the parser halts there with the fuel that is left, and with more as well. -/
theorem follows_passes (hsource : source.Pairwise fun p q ↦ p.offset < q.offset) {n : Nat}
    (hstatements : ∀ s p, s.At source p →
      Follows source (statements n) (Parser.statements n) s p)
    (hpasses : ∀ s p, s.At source p → Follows source
      (passes n (charsBefore source p.current.span.start)) (Parser.loop n) s p)
    (h : s.At source p) :
    Follows source (passes (n + 1) (charsBefore source p.current.span.start))
      (Parser.loop (n + 1)) s p := by
  rw [passes_succ]
  generalize haddress : charsBefore source p.current.span.start = address
  have hpass := follows_pass address hstatements h
  cases hs : (pass n address).run s with
  | error e s' =>
    rw [Follows, run_bind_of_error hs]
    rw [Follows, hs] at hpass
    cases e with
    | outOfFuel => trivial
    | fault f => exact hpass
  | ok done s' =>
    obtain ⟨t, p', hp, h'⟩ := hpass.of_ok hs
    rw [Follows, run_bind_of_ok hs]
    cases done with
    | true => exact ⟨t, p', hp, h'⟩
    | false =>
      -- the way back leads to the position of this pass, where the passes that are left start
      have hend : p.current.token ≠ .endOfInput := by
        rw [Parser.loop_token hp]
        exact nofun
      obtain ⟨s'', hrewind, h'', -⟩ := h.rewind hsource hend h'.1
      have hagain := (hpasses s'' p h'').mono (Parser.fueled_loop n)
      rw [haddress] at hrewind hagain
      rw [if_neg Bool.false_ne_true, run_bind_of_ok hrewind]
      exact hagain

theorem run_markLoop (hsource : source.Pairwise fun p q ↦ p.offset < q.offset)
    (h : s.scanner.source = source) :
    markLoop.run s = .ok (charsBefore source s.current.span.start) (s.withProgress
      ⟨s.store, s.listing.markLoop (charsBefore source s.current.span.start)⟩) := by
  subst h
  rw [charsBefore, ← Scanner.charIndex_eq_length_takeWhile hsource]
  rfl

/-- Statements are read as the parser reads them. -/
theorem follows_statement (hsource : source.Pairwise fun p q ↦ p.offset < q.offset) (n : Nat) :
    (∀ s p, s.At source p → Follows source (statement n) (Parser.statement n) s p) ∧
      (∀ s p, s.At source p → Follows source (compound n) (Parser.compound n) s p) ∧
      (∀ s p, s.At source p → Follows source (statements n) (Parser.statements n) s p) ∧
      (∀ first s p, s.At source p →
        Follows source (moreStatements n) (Parser.moreStatements n first) s p) ∧
      ∀ s p, s.At source p → Follows source (passes n (charsBefore source p.current.span.start))
        (Parser.loop n) s p := by
  induction n with
  | zero =>
    exact ⟨fun _ _ _ ↦ .outOfFuel, fun _ _ _ ↦ .outOfFuel, fun _ _ _ ↦ .outOfFuel,
      fun _ _ _ _ ↦ .outOfFuel, fun _ _ _ ↦ .outOfFuel⟩
  | succ n ih =>
    obtain ⟨hstatement, hcompound, hstatements, hmore, hpasses⟩ := ih
    refine ⟨fun s p h ↦ ?_, fun s p h ↦ ?_, fun s p h ↦ ?_, fun first s p h ↦ ?_,
      fun s p h ↦ follows_passes hsource hstatements hpasses h⟩
    · rw [statement, Parser.statement]
      refine .current h ?_
      cases p.current.token with
      | keyword k =>
        cases k with
        | blockBegin => exact (hcompound s p h).map _
        | loopRepeat =>
          -- the address that is noted is the one from which `hpasses` reads the loop
          have hmark := run_markLoop hsource h.1
          rw [h.current_eq] at hmark
          rw [Follows]
          simp only [run_bind_of_ok hmark]
          exact hpasses _ p (h.congr rfl rfl)
        | _ => exact .pure h
      | identifier name => exact follows_assignment n h
      | _ => exact .pure h
    · rw [compound, Parser.compound]
      refine (Follows.expect _ h).bind fun _ _ s₁ p₁ _ _ h₁ ↦ (hstatements s₁ p₁ h₁).bind ?_
      exact fun _ _ s₂ p₂ _ _ h₂ ↦ (Follows.expect _ h₂).bind fun _ _ _ _ _ _ h₃ ↦ .pure h₃
    · exact (hstatement s p h).bind fun _ first s₁ p₁ _ _ h₁ ↦ hmore first s₁ p₁ h₁
    · rw [moreStatements, Parser.moreStatements]
      refine .current h ?_
      cases p.current.token with
      | symbol y =>
        cases y with
        | semicolon =>
          refine (Follows.step h).bind fun _ _ s₁ p₁ _ _ h₁ ↦ (hstatement s₁ p₁ h₁).bind ?_
          exact fun _ second s₂ p₂ _ _ h₂ ↦ (hmore second s₂ p₂ h₂).map _
        | _ => exact .pure h
      | _ => exact .pure h

theorem follows_dataType (h : s.At source p) :
    Follows source dataType Parser.dataType s p := by
  refine .current h ?_
  cases p.current.token.dataType? with
  | some type => exact (Follows.step h).bind fun _ _ _ _ _ _ h₁ ↦ .pure h₁
  | none => exact .unexpected _ h

theorem follows_moreNames (n : Nat) (s : State) (p : Position) (h : s.At source p) :
    Follows source (moreNames n) (Parser.moreNames n) s p := by
  induction n generalizing s p with
  | zero => exact .outOfFuel
  | succ n ih =>
    rw [moreNames, Parser.moreNames]
    refine .current h ?_
    cases p.current.token with
    | symbol y =>
      cases y with
      | comma =>
        refine (Follows.step h).bind fun _ _ s₁ p₁ _ _ h₁ ↦ (Follows.identifier h₁).bind ?_
        exact fun _ _ s₂ p₂ _ _ h₂ ↦ (ih s₂ p₂ h₂).bind fun _ _ _ _ _ _ h₃ ↦ .pure h₃
      | _ => exact .pure h
    | _ => exact .pure h

/-- The names and the type of a group, before the variables are declared. -/
def groupHead (n : Nat) : Execution Grammar.Group := do
  let name ← identifier
  let names ← moreNames n
  let _ ← expect (.symbol .colon)
  let type ← dataType
  return ⟨name :: names, type⟩

theorem group_eq_groupHead (n : Nat) :
    group n = groupHead n >>= fun g ↦ declareAll g.type g.names := by
  simp only [group, groupHead, bind_assoc, pure_bind]

theorem follows_groupHead (n : Nat) (h : s.At source p) :
    Follows source (groupHead n) (Parser.group n) s p := by
  refine (Follows.identifier h).bind fun _ _ s₁ p₁ _ _ h₁ ↦ (follows_moreNames n s₁ p₁ h₁).bind ?_
  intro _ _ s₂ p₂ _ _ h₂
  refine (Follows.expect _ h₂).bind fun _ _ s₃ p₃ _ _ h₃ ↦ (follows_dataType h₃).bind ?_
  exact fun _ _ _ _ _ _ h₄ ↦ .pure h₄

theorem follows_group (n : Nat) (h : s.At source p) :
    Follows source (group n) (Parser.group n) s p := by
  rw [group_eq_groupHead, ← bind_pure (Parser.group n)]
  refine (follows_groupHead n h).bind fun g _ s₁ p₁ _ _ h₁ ↦ ?_
  rw [declareAll_eq_perform]
  exact .perform (.declareAll _) h₁

theorem follows_groups (n : Nat) (s : State) (p : Position) (h : s.At source p) :
    Follows source (groups n) (Parser.groups n) s p := by
  induction n generalizing s p with
  | zero => exact .outOfFuel
  | succ n ih =>
    rw [groups, Parser.groups]
    refine (follows_group n h).bind fun _ first s₁ p₁ _ _ h₁ ↦ (Follows.expect _ h₁).bind ?_
    intro _ _ s₂ p₂ _ _ h₂
    refine .current h₂ ?_
    cases p₂.current.token with
    | identifier name => exact (ih s₂ p₂ h₂).map _
    | _ => exact .pure h₂

theorem follows_declarations (n : Nat) (h : s.At source p) :
    Follows source (declarations n) (Parser.declarations n) s p := by
  refine .current h ?_
  cases p.current.token with
  | keyword k =>
    cases k with
    | var => exact (Follows.expect _ h).bind fun _ _ s₁ p₁ _ _ h₁ ↦ follows_groups n s₁ p₁ h₁
    | _ => exact .pure h
  | _ => exact .pure h

/-- **An execution follows the parser.** A program that succeeds has a tree, and a fault of the text
is the fault of the parser. -/
theorem follows_program (hsource : source.Pairwise fun p q ↦ p.offset < q.offset) (n : Nat)
    (h : s.At source p) : Follows source (program n) (Parser.program n) s p := by
  refine (Follows.expect _ h).bind fun _ _ s₁ p₁ _ _ h₁ ↦ (Follows.identifier h₁).bind ?_
  intro _ _ s₂ p₂ _ _ h₂
  refine (Follows.expect _ h₂).bind fun _ _ s₃ p₃ _ _ h₃ ↦ (follows_declarations n h₃).bind ?_
  intro _ _ s₄ p₄ _ _ h₄
  refine ((follows_statement hsource n).2.1 s₄ p₄ h₄).bind fun _ _ s₅ p₅ _ _ h₅ ↦ ?_
  refine (Follows.expect _ h₅).bind fun _ _ s₆ p₆ _ _ h₆ ↦ ?_
  exact ⟨_, p₆, rfl, h₆⟩

theorem result_of_ok {x : Execution α} {a : α} {s' : State} (h : x.run s = .ok a s') :
    x.result s = .ok a := by
  have hs : x s = .ok a s' := h
  rw [result, hs]

theorem result_of_error {x : Execution α} {e : Halt} {s' : State} (h : x.run s = .error e s') :
    x.result s = .error e := by
  have hs : x s = .error e s' := h
  rw [result, hs]

theorem result_eq_ok_iff {x : Execution α} {a : α} :
    x.result s = .ok a ↔ ∃ s', x.run s = .ok a s' := by
  constructor
  · intro h
    cases hs : x.run s with
    | ok b s' =>
      rw [result_of_ok hs] at h
      cases h
      exact ⟨s', rfl⟩
    | error e s' =>
      rw [result_of_error hs] at h
      cases h
  · rintro ⟨s', hs⟩
    exact result_of_ok hs

theorem result_eq_error_iff {x : Execution α} {e : Halt} :
    x.result s = .error e ↔ ∃ s', x.run s = .error e s' := by
  constructor
  · intro h
    cases hs : x.run s with
    | ok b s' =>
      rw [result_of_ok hs] at h
      cases h
    | error e' s' =>
      rw [result_of_error hs] at h
      cases h
      exact ⟨s', rfl⟩
  · rintro ⟨s', hs⟩
    exact result_of_error hs

end Execution

/-! ## From the start -/

theorem Placed.pairwise_ofString (source : String) :
    (Placed.ofString source).Pairwise fun p q ↦ p.offset < q.offset :=
  pairwise_layOut 0 source.toList

/-- A text starts with a lexical fault, or an execution starts at its first token. -/
theorem State.start_cases (scanner : Scanner) :
    (∃ f, State.start scanner = .error (.ofLexical f) ∧ scanner.lexemes = [] ∧
        scanner.fault? = some f) ∨
      ∃ s p, State.start scanner = .ok s ∧ s.At scanner.source p ∧ s.progress = .empty ∧
        p.lexemes = scanner.lexemes ∧ p.ending = scanner.fault? := by
  rcases hnext : scanner.next with ⟨r, after⟩
  cases r with
  | error f =>
    refine .inl ⟨f, ?_, Scanner.lexemes_of_error (by rw [hnext])⟩
    rw [State.start, hnext]
  | ok l =>
    obtain ⟨us, hus⟩ := Scanner.exists_lexemes_cons (s := scanner) (l := l) (by rw [hnext])
    have hsource : after.source = scanner.source := congrArg (fun r ↦ r.2.source) hnext.symm
    refine .inr ⟨⟨l, .empty, .empty, 0, after⟩, ⟨l, us, scanner.fault?⟩, ?_, ?_, rfl, hus.symm, rfl⟩
    · rw [State.start, hnext]
    · exact ⟨hsource, scanner, rfl, by rw [hnext], by rw [hnext], hus, rfl⟩

/-- An execution starts with the first token. -/
theorem State.start_eq_ok_iff {a : Scanner} {s : State} : State.start a = .ok s ↔
    ∃ l, a.next.1 = .ok l ∧ s = ⟨l, .empty, .empty, 0, a.next.2⟩ := by
  rw [State.start]
  rcases a.next with ⟨r, after⟩
  cases r with
  | error f => simp
  | ok l => simp [eq_comm]

theorem compileText_of_start {source : String} {s : State} (fuel : Nat)
    (h : State.start (.ofString source) = .ok s) :
    compileText fuel source = (Execution.program fuel).result s := by
  rw [compileText, compileScanned, h]

theorem compileText_of_error {source : String} {f : Fault} (fuel : Nat)
    (h : State.start (.ofString source) = .error f) :
    compileText fuel source = .error (.fault f) := by
  rw [compileText, compileScanned, h]

namespace Execution

variable {α : Type}

/-- Whether something succeeds from the start of a text, with a result that passes a test. -/
def succeeds (x : Execution α) (source : String) (test : α → State → Bool) : Bool :=
  match State.start (.ofString source) with
  | .ok s =>
    match x.run s with
    | .ok a s' => test a s'
    | .error _ _ => false
  | .error _ => false

theorem exists_of_succeeds {x : Execution α} {source : String} {test : α → State → Bool}
    (h : x.succeeds source test = true) : ∃ s a s',
      State.start (.ofString source) = .ok s ∧ x.run s = .ok a s' ∧ test a s' = true := by
  rw [succeeds] at h
  split at h
  · next s hs =>
    split at h
    · next a s' ha => exact ⟨s, a, s', hs, ha, h⟩
    · cases h
  · cases h

end Execution

/-- Whether compiling a text halts with a fault of some kind. -/
def haltsWith (kind : Fault → Bool) (fuel : Nat) (source : String) : Bool :=
  match compileText fuel source with
  | .error (.fault f) => kind f
  | _ => false

theorem exists_fault_of_haltsWith {kind : Fault → Bool} {fuel : Nat} {source : String}
    (h : haltsWith kind fuel source = true) :
    ∃ f, compileText fuel source = .error (.fault f) ∧ kind f = true := by
  rw [haltsWith] at h
  split at h
  · next f hf => exact ⟨f, hf, h⟩
  · cases h

theorem exists_compiled_of_map {α : Type} {f : Compiled → α} {source : String} {fuel : Nat} {a : α}
    (h : (compileText fuel source).toOption.map f = some a) :
    ∃ c, compileText fuel source = .ok c ∧ f c = a := by
  cases hc : compileText fuel source with
  | ok c =>
    rw [hc] at h
    exact ⟨c, rfl, Option.some.inj h⟩
  | error e =>
    rw [hc] at h
    cases h

theorem exists_compiled_of_isOk {source : String} {fuel : Nat}
    (h : (compileText fuel source).isOk = true) : ∃ c, compileText fuel source = .ok c := by
  cases hc : compileText fuel source with
  | ok c => exact ⟨c, rfl⟩
  | error e =>
    rw [hc] at h
    cases h

end MiniPascal
