import MiniPascal.Proofs.Places
import MiniPascal.Proofs.StaticTypes

/-!
# What a fault points at

A fault names what is wrong and where: a token that is not expected, a variable, an operator, an
expression or a piece of text that is no token. `Fault.PointsAt` says for each kind of fault what
the text at its place is. What a program does with the values of its variables it does at one place
in one pass; a fault of that kind points at the very place that the execution has come to, with the
values that it has there.

Most parts of an execution report only the next token, which is a token of the text, or a piece that
is none (`Primitive.pointsAt`), and so do the plans that are made of such parts
(`Plan.pointsAt_of_fails`).
-/

namespace MiniPascal

open Grammar

/-! ## Pointing -/

/-- Compiling the text comes to a production in front of a token, with certain variables. -/
def ComesTo (source : String) (r : Routine) (l : Lexeme) (store : Store) : Prop :=
  ∃ s, Reached source ⟨.routine r, s⟩ ∧ s.current = l ∧ s.store = store

/-- Compiling the text comes to an operator: the value in front of it has been computed, and so is
the one behind it. -/
inductive ComesToOperator (source : String) (l : Lexeme) (op : Operator) (v w : Value) : Prop
  | additive {s s₁ s₂ : State} (h : Reached source ⟨.routine (.sums v), s⟩) (hl : s.current = l)
    (hop : Operator.additive? l.token = some op) (hstep : Execution.step.run s = .ok () s₁)
    (hw : Yields Execution.term s₁ (.ok w s₂))
  | multiplicative {s s₁ s₂ : State} (h : Reached source ⟨.routine (.products v), s⟩)
    (hl : s.current = l) (hop : Operator.multiplicative? l.token = some op)
    (hstep : Execution.step.run s = .ok () s₁) (hw : Yields Execution.factor s₁ (.ok w s₂))

/-- Compiling the text comes to a sign, and the value behind it is computed. -/
inductive ComesToSign (source : String) (l : Lexeme) (v : Value) : Prop
  | intro {s s₁ s₂ : State} (h : Reached source ⟨.routine .factor, s⟩) (hl : s.current = l)
    (hstep : Execution.step.run s = .ok () s₁) (hv : Yields Execution.expression s₁ (.ok v s₂))

/-- The fault points at what it names. -/
inductive Fault.PointsAt (source : String) : Fault → Prop
  /-- At a token, as the text spells it. -/
  | unexpected {l : Lexeme} {piece : String} (expected : List String)
    (hmem : l ∈ (Scanner.ofString source).lexemes) (hcut : l.span.Cuts source piece)
    (hspells : Spells piece.toList l.token) : PointsAt source ⟨.unexpected l.token expected, l.span⟩
  /-- At the end of the text, where there is no other token. -/
  | ended (expected : List String) : PointsAt source
    ⟨.unexpected .endOfInput expected, ⟨source.utf8ByteSize, source.utf8ByteSize⟩⟩
  /-- At the name of the variable that is assigned when it is not declared. -/
  | undeclared {name : String} {span : Span} {store : Store}
    (hmem : ⟨.identifier name, span⟩ ∈ (Scanner.ofString source).lexemes)
    (hcut : span.Cuts source name)
    (hcomes : ComesTo source .statement ⟨.identifier name, span⟩ store)
    (hnone : store.type? name = none) : PointsAt source ⟨.undeclared name, span⟩
  /-- At the name of the variable that is read when it has no value. -/
  | unassigned {name : String} {span : Span} {store : Store}
    (hmem : ⟨.identifier name, span⟩ ∈ (Scanner.ofString source).lexemes)
    (hcut : span.Cuts source name)
    (hcomes : ComesTo source .factor ⟨.identifier name, span⟩ store)
    (hnone : store.value? name = none) : PointsAt source ⟨.unassigned name, span⟩
  /-- At the second of two declarations of a name. The first is the first time that the name is
  found in the declarations. -/
  | duplicateDeclaration {k l c v semicolon : Lexeme} {program name : String}
    {declarations front middle after rest : List Lexeme} {gs : List Grammar.Group}
    {first span : Span}
    (hlexemes : (Scanner.ofString source).lexemes = k :: l :: c :: v :: (declarations ++ rest))
    (hk : k.token = .keyword .program) (hl : l.token = .identifier program)
    (hc : c.token = .symbol .semicolon) (hv : v.token = .keyword .var)
    (hgroups : DerivesGroups (declarations ++ [semicolon]) gs)
    (hdeclarations : declarations = front ++ ⟨.identifier name, first⟩ ::
      (middle ++ ⟨.identifier name, span⟩ :: after))
    (hfront : ∀ m ∈ front, m.token ≠ .identifier name) (hbefore : first.stop ≤ span.start)
    (hfirst : first.Cuts source name) (hcut : span.Cuts source name) :
    PointsAt source ⟨.duplicateDeclaration name first, span⟩
  /-- At the expression that is assigned, from its first to its last token. No operator follows it,
  so it is the whole expression. Its type is not the one with which the variable is declared. -/
  | typeMismatch {l a next first last : Lexeme} {name : String} {e : Grammar.Expression}
    {before ts rest : List Lexeme} {expected got : DataType} {piece : String} {store : Store}
    (hlexemes : (Scanner.ofString source).lexemes = before ++ l :: a :: (ts ++ next :: rest))
    (hl : l.token = .identifier name) (ha : a.token = .symbol .assign)
    (he : e.Derives .expression ts) (hnext : Operator.ofToken? next.token = none)
    (hfirst : ts.head? = some first) (hlast : ts.getLast? = some last)
    (hcut : Span.Cuts ⟨first.span.start, last.span.stop⟩ source piece)
    (hcomes : ComesTo source .statement l store) (hexpected : store.type? name = some expected)
    (hgot : HasStaticType store.type? ts got) (hne : expected ≠ got) :
    PointsAt source ⟨.typeMismatch name expected got, ⟨first.span.start, last.span.stop⟩⟩
  /-- At the operator that fails for its operands. -/
  | operator {l : Lexeme} {op : Operator} {v w : Value} {f : ArithmeticFault}
    (hmem : l ∈ (Scanner.ofString source).lexemes) (hop : Operator.ofToken? l.token = some op)
    (hf : op.apply v w = .error f) (hcut : l.span.Cuts source l.token.text)
    (hcomes : ComesToOperator source l op v w) : PointsAt source ⟨.arithmetic f, l.span⟩
  /-- At the minus sign that fails for its operand. -/
  | sign {span : Span} {v : Value} {f : ArithmeticFault}
    (hmem : ⟨.symbol .minus, span⟩ ∈ (Scanner.ofString source).lexemes) (hf : v.neg = .error f)
    (hcut : span.Cuts source "-") (hcomes : ComesToSign source ⟨.symbol .minus, span⟩ v) :
    PointsAt source ⟨.arithmetic f, span⟩
  /-- At a character that starts no token. -/
  | unrecognized {c : Char} {span : Span}
    (hfault : (Scanner.ofString source).fault? = some ⟨.unrecognized c, span⟩)
    (hcut : span.Cuts source (String.singleton c)) :
    PointsAt source ⟨.lexical ⟨.unrecognized c, span⟩, span⟩
  /-- At all the digits of a number that is too large. -/
  | integerTooLarge {before digits after : String} {span : Span}
    (hfault : (Scanner.ofString source).fault? = some ⟨.integerTooLarge, span⟩)
    (hsource : source = before ++ digits ++ after)
    (hspan : span = ⟨before.utf8ByteSize, (before ++ digits).utf8ByteSize⟩)
    (hdigits : IsDigitRow digits.toList)
    (hbefore : ∀ c ∈ before.toList.getLast?, c.isDigit = false)
    (hafter : ∀ c ∈ after.toList.head?, c.isDigit = false) :
    PointsAt source ⟨.lexical ⟨.integerTooLarge, span⟩, span⟩

namespace Fault.PointsAt

variable {source : String} {f : Fault}

/-- Whatever it points at, a fault has a piece of the text as its place. -/
theorem exists_cut (h : f.PointsAt source) : ∃ piece, f.span.Cuts source piece := by
  cases h with
  | unexpected expected hmem hcut hspells => exact ⟨_, hcut⟩
  | ended expected => exact ⟨"", source, "", by simp, by simp⟩
  | undeclared hmem hcut hcomes hnone => exact ⟨_, hcut⟩
  | unassigned hmem hcut hcomes hnone => exact ⟨_, hcut⟩
  | duplicateDeclaration _ _ _ _ _ _ _ _ _ _ hcut => exact ⟨_, hcut⟩
  | typeMismatch _ _ _ _ _ _ _ hcut _ _ _ _ => exact ⟨_, hcut⟩
  | operator hmem hop hf hcut hcomes => exact ⟨_, hcut⟩
  | sign hmem hf hcut hcomes => exact ⟨_, hcut⟩
  | unrecognized hfault hcut => exact ⟨_, hcut⟩
  | @integerTooLarge before digits after span hfault hsource hspan hdigits hbefore hafter =>
    exact ⟨digits, before, after, hsource, hspan⟩

/-! Faults at a token of the text. -/

variable {l : Lexeme}

theorem of_unexpected (hl : l ∈ (Scanner.ofString source).lexemes) (expected : List String) :
    PointsAt source ⟨.unexpected l.token expected, l.span⟩ := by
  by_cases hend : l.token = .endOfInput
  · rw [hend, Scanner.span_of_endOfInput hl hend]
    exact .ended expected
  · obtain ⟨piece, hcut, hspells⟩ := Scanner.exists_spelling_of_mem hl hend
    exact .unexpected expected hl hcut hspells

/-- A name stands in the text as it is. -/
theorem cuts_identifier {name : String} (hl : l ∈ (Scanner.ofString source).lexemes)
    (hname : l.token = .identifier name) : l.span.Cuts source name := by
  obtain ⟨piece, hcut, hspells⟩ := Scanner.exists_spelling_of_mem hl (by simp [hname])
  rw [hname] at hspells
  rw [← hspells.eq_of_identifier, String.ofList_toList]
  exact hcut

theorem cuts_operator {op : Operator} (hl : l ∈ (Scanner.ofString source).lexemes)
    (hop : Operator.ofToken? l.token = some op) : l.span.Cuts source l.token.text := by
  have hend : l.token ≠ .endOfInput := by
    intro hend
    rw [hend] at hop
    cases hop
  obtain ⟨piece, hcut, hspells⟩ := Scanner.exists_spelling_of_mem hl hend
  rw [← hspells.eq_text_of_operator hop, String.ofList_toList]
  exact hcut

theorem of_lexical {g : LexicalFault} (hg : (Scanner.ofString source).fault? = some g) :
    PointsAt source (.ofLexical g) := by
  have hmem : .error g ∈ (Scanner.ofString source).all.1 := by
    obtain ⟨r, hr, hsome⟩ := List.exists_of_findSome?_eq_some hg
    cases r with
    | ok l => cases hsome
    | error g' =>
      cases hsome
      exact hr
  obtain ⟨before, piece, after, htext, hspan, hcause⟩ :=
    (Scanner.segmented_all source).exists_slice_of_fault hmem
  rw [Nat.zero_add, Nat.zero_add] at hspan
  have hcut := Span.Cuts.of_toList before piece after htext hspan
  obtain ⟨cause, span⟩ := g
  rcases hcause with ⟨c, rfl, rfl⟩ | ⟨rfl, hdigits, hbefore, hafter⟩
  · rw [← String.singleton_eq_ofList] at hcut
    exact .unrecognized hg hcut
  · refine @integerTooLarge source (.ofList before) (.ofList piece) (.ofList after) span hg
      ?_ ?_ ?_ ?_ ?_
    · rw [← String.ofList_append, ← String.ofList_append, List.append_assoc, ← htext,
        String.ofList_toList]
    · rw [← String.ofList_append, utf8ByteSize_ofList, utf8ByteSize_ofList]
      exact hspan
    · rwa [String.toList_ofList]
    · rwa [String.toList_ofList]
    · rwa [String.toList_ofList]

end Fault.PointsAt

/-! ## The tokens that an execution takes -/

namespace State.AtToken

variable {a : Scanner} {s s' : State} {i : Nat}

theorem of_expect (h : s.AtToken a i) {u : Token} (hu : Token.endOfInput.same u = false)
    {place : Span} (hs : (Execution.expect u).run s = .ok place s') :
    s.current.token.same u = true ∧ s'.AtToken a (i + 1) ∧ s'.progress = s.progress := by
  obtain ⟨hsame, -, hstep⟩ := Execution.run_expect_eq_ok hs
  have hend : s.current.token ≠ .endOfInput := by
    intro hend
    rw [hend, hu] at hsame
    cases hsame
  obtain ⟨hat, hprogress, -⟩ := h.of_step hstep
  rw [h.following_eq hend hstep] at hat
  exact ⟨hsame, hat, hprogress⟩

theorem of_identifier (h : s.AtToken a i) {name : String} {place : Span}
    (hs : Execution.identifier.run s = .ok (name, place) s') :
    s.current = ⟨.identifier name, place⟩ ∧ s'.AtToken a (i + 1) ∧
      s'.progress = s.progress := by
  obtain ⟨hcurrent, hstep⟩ := Execution.run_identifier_eq_ok hs
  have hend : s.current.token ≠ .endOfInput := by simp [hcurrent]
  obtain ⟨hat, hprogress, -⟩ := h.of_step hstep
  rw [h.following_eq hend hstep] at hat
  exact ⟨hcurrent, hat, hprogress⟩

/-- Where the parser comes to from a token, the execution is at the token behind what it read. -/
theorem of_leads {p q : Position} (hlexemes : p.lexemes = a.lexemes.drop i)
    (hending : p.ending = a.fault?) {ts : List Lexeme} (hts : p.Leads ts q)
    (hq : s'.At a.source q) :
    a.lexemes.drop i = ts ++ q.lexemes ∧ s'.AtToken a (i + ts.length) := by
  have hdrop : a.lexemes.drop (i + ts.length) = q.lexemes := by
    rw [← List.drop_drop, ← hlexemes, hts.1, List.drop_left]
  exact ⟨hlexemes.symm.trans hts.1, q, hq, hdrop.symm, hts.2.symm.trans hending⟩

end State.AtToken

/-! ## The next token -/

section

variable {source : String} {α : Type} {s s' : State} {f : Fault}

theorem State.Reached.mem_lexemes (hs : s.Reached source) :
    s.current ∈ (Scanner.ofString source).lexemes := by
  obtain ⟨⟨i, hi⟩, -⟩ := hs.wellFormed
  exact List.mem_of_getElem? hi.getElem?

/-- A token that is taken may only be a piece that is no token. -/
theorem pointsAt_of_step {a : α} (hs : s.Reached source)
    (h : (Execution.step >>= fun _ ↦ pure a).run s = .error (.fault f) s') :
    f.PointsAt source := by
  rcases run_bind_eq_error_iff.1 h with hstep | ⟨_, s₁, -, hpure⟩
  · obtain ⟨⟨i, hi⟩, -⟩ := hs.wellFormed
    obtain ⟨g, hg, hfault⟩ := hi.of_step_error hstep
    cases hg
    exact .of_lexical hfault
  · cases hpure

theorem pointsAt_of_unexpected {expected : List String} (hs : s.Reached source)
    (h : (Execution.unexpected expected : Execution α).run s = .error (.fault f) s') :
    f.PointsAt source := by
  cases h
  exact .of_unexpected hs.mem_lexemes expected

open Execution in
/-- **Parts without values** report the next token, or a piece of the text that is none. -/
theorem Primitive.pointsAt {x : Execution α} (hx : Primitive False False α x)
    (hs : s.Reached source) (h : x.run s = .error (.fault f) s') : f.PointsAt source := by
  cases hx with
  | pure a => cases h
  | current => cases h
  | unexpected expected => exact pointsAt_of_unexpected hs h
  | expect ht =>
    rw [Execution.expect, run_current_bind] at h
    split at h
    · exact pointsAt_of_step hs h
    · exact pointsAt_of_unexpected hs h
  | identifier =>
    rw [Execution.identifier, run_current_bind] at h
    split at h
    · exact pointsAt_of_step hs h
    · exact pointsAt_of_unexpected hs h
  | dataType =>
    rw [Execution.dataType, run_current_bind] at h
    split at h
    · exact pointsAt_of_step hs h
    · exact pointsAt_of_unexpected hs h
  | takeAny =>
    rw [Execution.takeAny, run_current_bind] at h
    split at h
    · exact pointsAt_of_unexpected hs h
    · rw [← bind_pure_unit (x := step)] at h
      exact pointsAt_of_step hs h
  | emit hf => cases h
  | compiled name => cases h
  | arithmetic hfalse => exact hfalse.elim
  | lookUp hfalse => exact hfalse.elim
  | store hfalse => exact hfalse.elim
  | declareAll hfalse => exact hfalse.elim

/-- So do plans that are made of such parts. -/
theorem Plan.pointsAt_of_fails {plan : Plan α} {C : Routine → Prop} (h : plan.Fails s f)
    (hs : s.Reached source) (hplan : plan.All (Primitive False False) C) :
    f.PointsAt source := by
  have hinvariant := State.invariant_reached source
  have hpart {β : Type} {x : Execution β} (hx : Primitive False False β x) :
      Preserves (State.Reached source) x := hinvariant.part (hx.mono False.elim False.elim)
  induction plan generalizing s with
  | finish x hx hstill =>
    obtain ⟨s', h⟩ := h
    exact Primitive.pointsAt hplan hs h
  | look x hx hstill k ih =>
    rcases h with ⟨s', h⟩ | ⟨b, s', hb, h⟩
    · exact hplan.1.pointsAt hs h
    · exact ih b h (hpart hplan.1 s b s' hs hb) (hplan.2 b)
  | take x hx htakes k ih =>
    rcases h with ⟨s', h⟩ | ⟨b, s', hb, h⟩
    · exact hplan.1.pointsAt hs h
    · exact ih b h (hpart hplan.1 s b s' hs hb) (hplan.2 b)
  | call r k ih =>
    obtain ⟨v, s', ⟨-, n, hn⟩, h⟩ := h
    exact ih v h ((hinvariant.run n).1 r s v s' hs hn) (hplan.2 v)
  | loop a => exact h.elim

end

end MiniPascal
