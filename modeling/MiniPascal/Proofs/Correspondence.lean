import Mathlib.Data.List.Forall2
import MiniPascal.Proofs.Tracking

/-!
# Two texts with the same tokens

Texts with the same tokens may differ in their layout, and so in the places of all that is in them.
What is read at the same token of two such texts corresponds: places are those of the same tokens
(`SamePlace`), and addresses those of the same loops (`Scanner.loopNumber?`). Variables,
instructions and faults correspond if they are the same up to these.

Two executions that run side by side are compared by `Alike`: both succeed in states that
correspond, or both have faults that correspond, or both lack fuel. Sequencing keeps this.
-/

namespace MiniPascal

variable {α β γ δ : Type}

/-! ## Numbered tokens -/

namespace Scanner

variable {a : Scanner}

/-- The number of the `REPEAT` that stands at an address. -/
def loopNumber? (a : Scanner) (address : Nat) : Option Nat :=
  a.lexemes.findIdx? fun l ↦
    l.token.same (.keyword .loopRepeat) && charsBefore a.source l.span.start == address

/-- Every token of a stream is read somewhere in the source, and the stream goes on from there. -/
theorem exists_before {i : Nat} {l : Lexeme} (h : a.lexemes[i]? = some l) :
    ∃ before : Scanner, before.source = a.source ∧ before.next.1 = .ok l ∧
      before.lexemes = a.lexemes.drop i ∧ before.fault? = a.fault? := by
  induction i generalizing a with
  | zero =>
    refine ⟨a, rfl, ?_, rfl, rfl⟩
    cases hnext : a.next.1 with
    | error f =>
      rw [(lexemes_of_error hnext).1] at h
      cases h
    | ok l' =>
      obtain ⟨ls, hls⟩ := exists_lexemes_cons hnext
      rw [hls] at h
      cases h
      rfl
  | succ i ih =>
    cases hnext : a.next.1 with
    | error f =>
      rw [(lexemes_of_error hnext).1] at h
      cases h
    | ok l' =>
      by_cases hl : l'.token = .endOfInput
      · rw [(lexemes_of_end hnext hl).1] at h
        cases h
      · obtain ⟨hlexemes, hfault⟩ := lexemes_of_token hnext hl
        rw [hlexemes, List.getElem?_cons_succ] at h
        obtain ⟨before, hsource, hbefore, hdrop, hending⟩ := ih h
        exact ⟨before, hsource, hbefore, by rw [hdrop, hlexemes]; rfl, hending.trans hfault.symm⟩

/-- Different tokens have different addresses. -/
theorem eq_of_charsBefore_eq (ha : a.source.Pairwise fun p q ↦ p.offset < q.offset) {i j : Nat}
    {l m : Lexeme} (hl : a.lexemes[i]? = some l) (hm : a.lexemes[j]? = some m)
    (hl' : l.token ≠ .endOfInput) (hm' : m.token ≠ .endOfInput)
    (h : charsBefore a.source l.span.start = charsBefore a.source m.span.start) : i = j := by
  obtain ⟨before, hsource, hnext, hdrop, -⟩ := exists_before hl
  obtain ⟨before', hsource', hnext', hdrop', -⟩ := exists_before hm
  -- both tokens are found again at the same place, and there is only one to be found
  have hseek := scan_seek (by rw [hsource]; exact ha) before.suffix hnext hl'
  have hseek' := scan_seek (by rw [hsource']; exact ha) before'.suffix hnext' hm'
  rw [hsource] at hseek
  rw [hsource'] at hseek'
  simp only [h] at hseek
  obtain rfl : l = m := Except.ok.inj (hseek.1.symm.trans hseek'.1)
  have hrest : before.next.2.rest = before'.next.2.rest := by
    rw [next_snd_rest, next_snd_rest, hsource, hsource', ← hseek.2, ← hseek'.2]
  have hlexemes := (lexemes_eq_of_next hnext hnext' (hsource.trans hsource'.symm) hrest).1
  rw [hdrop, hdrop'] at hlexemes
  have hlength := congrArg List.length hlexemes
  have hi : i < a.lexemes.length := (List.getElem?_eq_some_iff.1 hl).1
  have hj : j < a.lexemes.length := (List.getElem?_eq_some_iff.1 hm).1
  simp only [List.length_drop] at hlength
  omega

/-- The number of a loop is found by its address. -/
theorem loopNumber?_of_getElem? (ha : a.source.Pairwise fun p q ↦ p.offset < q.offset) {i : Nat}
    {l : Lexeme} (hl : a.lexemes[i]? = some l) (ht : l.token = .keyword .loopRepeat) :
    a.loopNumber? (charsBefore a.source l.span.start) = some i := by
  obtain ⟨hi, rfl⟩ := List.getElem?_eq_some_iff.1 hl
  refine List.findIdx?_eq_some_iff_getElem.2 ⟨hi, by simp [ht], ?_⟩
  intro j hj h
  simp only [Bool.and_eq_true, Token.same_keyword_iff, beq_iff_eq] at h
  have hm : a.lexemes[j]? = some a.lexemes[j] := List.getElem?_eq_getElem _
  have := eq_of_charsBefore_eq ha hm hl (by simp [h.1]) (by simp [ht]) h.2
  omega

/-- The number of the token after the one with a given number; nothing follows the last one. -/
def following (a : Scanner) (i : Nat) : Nat := if i + 1 < a.lexemes.length then i + 1 else i

theorem exists_of_loopNumber? {address i : Nat} (h : a.loopNumber? address = some i) :
    ∃ l, a.lexemes[i]? = some l ∧ l.token = .keyword .loopRepeat ∧
      charsBefore a.source l.span.start = address := by
  obtain ⟨hi, hp, -⟩ := List.findIdx?_eq_some_iff_getElem.1 h
  simp only [Bool.and_eq_true, Token.same_keyword_iff, beq_iff_eq] at hp
  exact ⟨a.lexemes[i], List.getElem?_eq_getElem hi, hp⟩

end Scanner

/-- The next token of a state is the one with a given number. -/
def State.AtToken (a : Scanner) (s : State) (i : Nat) : Prop :=
  ∃ p, s.At a.source p ∧ p.lexemes = a.lexemes.drop i ∧ p.ending = a.fault?

namespace State.AtToken

variable {a : Scanner} {s : State} {i : Nat}

theorem getElem? (h : s.AtToken a i) : a.lexemes[i]? = some s.current := by
  obtain ⟨p, hat, hlexemes, -⟩ := h
  rw [← Nat.add_zero i, ← List.getElem?_drop, ← hlexemes, hat.current_eq]
  rfl

/-- What is still to be read starts with the next token. -/
theorem drop_eq (h : s.AtToken a i) : a.lexemes.drop i = s.current :: a.lexemes.drop (i + 1) := by
  obtain ⟨hi, hcurrent⟩ := List.getElem?_eq_some_iff.1 h.getElem?
  rw [← hcurrent]
  exact List.drop_eq_getElem_cons hi

/-- Nothing follows the end of the input. -/
theorem drop_of_end (h : s.AtToken a i) (hend : s.current.token = .endOfInput) :
    a.lexemes.drop (i + 1) = [] := by
  have hdrop := h.drop_eq
  obtain ⟨p, hat, hlexemes, -⟩ := h
  rw [← hlexemes, Position.lexemes, (hat.of_end hend).1] at hdrop
  exact (List.cons.inj hdrop).2.symm

/-- The scanner is behind the next token. -/
theorem lexemes_eq (h : s.AtToken a i) (hend : s.current.token ≠ .endOfInput) :
    s.scanner.lexemes = a.lexemes.drop (i + 1) := by
  have hdrop := h.drop_eq
  obtain ⟨p, hat, hlexemes, -⟩ := h
  rw [← hlexemes, Position.lexemes] at hdrop
  rw [(hat.of_token hend).1]
  exact (List.cons.inj hdrop).2

theorem congr (h : s.AtToken a i) {t : State} (hcurrent : t.current = s.current)
    (hscanner : t.scanner = s.scanner) : t.AtToken a i := by
  obtain ⟨p, hat, hp⟩ := h
  exact ⟨p, hat.congr hcurrent hscanner, hp⟩

theorem previousStop_of_step {s' : State} (h : Execution.step.run s = .ok () s') :
    s'.previousStop = s.current.span.stop := by
  obtain ⟨l, -, rfl⟩ := Execution.run_step_eq_ok_iff.1 h
  rfl

/-- A step that succeeds leads to the token after the next one. -/
theorem of_step (h : s.AtToken a i) {s' : State} (hs : Execution.step.run s = .ok () s') :
    s'.AtToken a (a.following i) ∧ s'.progress = s.progress ∧
      s'.previousStop = s.current.span.stop := by
  obtain ⟨⟨current, upcoming, ending⟩, hat, hlexemes, hending⟩ := h
  have hdrop : a.lexemes.drop (i + 1) = upcoming := by
    rw [← List.drop_drop, ← hlexemes]
    rfl
  rcases hat.step with ⟨s'', p', hs'', hp, hat', hprogress, hprevious⟩ | ⟨f, s'', p', hs'', -⟩
  · cases hs.symm.trans hs''
    refine ⟨?_, hprogress, hprevious⟩
    cases upcoming with
    | nil =>
      have hlast : ¬i + 1 < a.lexemes.length := Nat.not_lt.2 (List.drop_eq_nil_iff.1 hdrop)
      rw [Scanner.following, if_neg hlast]
      cases ending with
      | none =>
        cases hp
        exact ⟨_, hat', hlexemes, hending⟩
      | some g => cases hp
    | cons l upcoming =>
      cases hp
      have hmore : i + 1 < a.lexemes.length := by
        rw [← Nat.not_le, ← List.drop_eq_nil_iff, hdrop]
        exact nofun
      rw [Scanner.following, if_pos hmore]
      exact ⟨_, hat', hdrop.symm, hending⟩
  · cases hs.symm.trans hs''

/-- A step that fails comes to the lexical fault that ends the tokens. -/
theorem of_step_error (h : s.AtToken a i) {e : Halt} {s' : State}
    (hs : Execution.step.run s = .error e s') :
    ∃ f, e = .fault (.ofLexical f) ∧ a.fault? = some f := by
  obtain ⟨p, hat, -, hending⟩ := h
  cases hnext : s.scanner.next.1 with
  | ok l => cases hs.symm.trans (At.run_step_of_ok hnext)
  | error f =>
    cases hs.symm.trans (At.run_step_of_error hnext)
    refine ⟨f, rfl, ?_⟩
    by_cases hend : s.current.token = .endOfInput
    · rw [(hat.of_end hend).2.2.1] at hnext
      cases hnext
    · rw [← hending, ← (hat.of_token hend).2]
      exact (Scanner.lexemes_of_error hnext).2

/-- **One step** leads to the token after the next one. -/
theorem step (hfault : a.fault? = none) (h : s.AtToken a i) :
    ∃ s', Execution.step.run s = .ok () s' ∧ s'.AtToken a (a.following i) ∧
      s'.progress = s.progress ∧ s'.previousStop = s.current.span.stop := by
  cases hs : Execution.step.run s with
  | ok u s' => exact ⟨s', rfl, h.of_step hs⟩
  | error e s' =>
    obtain ⟨f, -, hf⟩ := h.of_step_error hs
    rw [hfault] at hf
    cases hf

/-- Behind a token that is not the end of the input, a step counts one more. -/
theorem following_eq (h : s.AtToken a i) (hend : s.current.token ≠ .endOfInput) {s' : State}
    (hs : Execution.step.run s = .ok () s') : a.following i = i + 1 := by
  obtain ⟨l, hnext, -⟩ := Execution.run_step_eq_ok_iff.1 hs
  obtain ⟨ls, hls⟩ := Scanner.exists_lexemes_cons hnext
  have hlength := congrArg List.length ((h.lexemes_eq hend).symm.trans hls)
  rw [List.length_drop, List.length_cons] at hlength
  rw [Scanner.following, if_pos (by omega)]

/-- **Reading again** leads from the address of a token to that token. -/
theorem rewind (ha : a.source.Pairwise fun p q ↦ p.offset < q.offset) {l : Lexeme}
    (hl : a.lexemes[i]? = some l) (ht : l.token ≠ .endOfInput) {j : Nat} (h : s.AtToken a j) :
    ∃ s', (Execution.rewind (charsBefore a.source l.span.start)).run s = .ok () s' ∧
      s'.AtToken a i ∧ s'.progress = s.progress ∧ s'.previousStop = s.current.span.stop := by
  obtain ⟨-, ⟨hsource, -⟩, -⟩ := h
  obtain ⟨before, hbefore, hnext, hdrop, hfault⟩ := Scanner.exists_before hl
  obtain ⟨ls, hls⟩ := Scanner.exists_lexemes_cons hnext
  -- a state at the token is enough, whichever it is
  have hat : State.At a.source { s with current := l, scanner := before.next.2 }
      ⟨l, ls, a.fault?⟩ := ⟨hbefore, before, hbefore, hnext, rfl, hls, hfault⟩
  obtain ⟨s', hs', hat', hprogress⟩ := hat.rewind ha ht hsource
  refine ⟨s', hs', ⟨_, hat', hls.symm.trans hdrop, rfl⟩, hprogress, ?_⟩
  obtain ⟨_, s₁, hmodify, hstep⟩ := run_bind_eq_ok_iff.1 hs'
  cases hmodify
  exact previousStop_of_step (s := { s with scanner := s.scanner.seek _ }) hstep

/-- The address of the next token. -/
theorem charIndex_eq (ha : a.source.Pairwise fun p q ↦ p.offset < q.offset) (h : s.AtToken a i) :
    s.scanner.charIndex s.current.span.start = charsBefore a.source s.current.span.start := by
  obtain ⟨p, ⟨hsource, -⟩, -⟩ := h
  rw [Scanner.charIndex_eq_length_takeWhile (by rw [hsource]; exact ha), hsource, charsBefore]

end State.AtToken

/-! ## What corresponds -/

section
variable (a b : Scanner)

/-- The places of the same token. -/
def SamePlace (x y : Span) : Prop :=
  ∃ (i : Nat) (l m : Lexeme), a.lexemes[i]? = some l ∧ b.lexemes[i]? = some m ∧
    x = l.span ∧ y = m.span

/-- Places from the same first token to the same last token. -/
def SameRange (x y : Span) : Prop :=
  ∃ first last first' last', SamePlace a b first first' ∧ SamePlace a b last last' ∧
    x = ⟨first.start, last.stop⟩ ∧ y = ⟨first'.start, last'.stop⟩

/-- The addresses of the same loop. -/
def SameLoop (m n : Nat) : Prop := ∃ i, a.loopNumber? m = some i ∧ b.loopNumber? n = some i

/-- The same fault at the same tokens. -/
inductive Fault.Same : Fault → Fault → Prop
  | unexpected {x y : Span} (token : Token) (expected : List String) (h : SamePlace a b x y) :
    Same ⟨.unexpected token expected, x⟩ ⟨.unexpected token expected, y⟩
  | duplicateDeclaration {first first' x y : Span} (name : String)
    (hfirst : SamePlace a b first first') (h : SamePlace a b x y) :
    Same ⟨.duplicateDeclaration name first, x⟩ ⟨.duplicateDeclaration name first', y⟩
  | undeclared {x y : Span} (name : String) (h : SamePlace a b x y) :
    Same ⟨.undeclared name, x⟩ ⟨.undeclared name, y⟩
  | unassigned {x y : Span} (name : String) (h : SamePlace a b x y) :
    Same ⟨.unassigned name, x⟩ ⟨.unassigned name, y⟩
  | typeMismatch {x y : Span} (name : String) (expected got : DataType) (h : SameRange a b x y) :
    Same ⟨.typeMismatch name expected got, x⟩ ⟨.typeMismatch name expected got, y⟩
  | arithmetic {x y : Span} (fault : ArithmeticFault) (h : SamePlace a b x y) :
    Same ⟨.arithmetic fault, x⟩ ⟨.arithmetic fault, y⟩

/-- The same variable, declared at the same token. -/
structure Variable.Same (x y : Variable) : Prop where
  name : x.name = y.name
  type : x.type = y.type
  value : x.value = y.value
  place : SamePlace a b x.span y.span

/-- The same variables, declared at the same tokens. -/
def Store.Same (s t : Store) : Prop := List.Forall₂ (Variable.Same a b) s.declared t.declared

end

/-- The operand with its address, if it is one, replaced by the number of its loop. -/
def Operand.number? (a : Scanner) : Operand → Option Operand
  | .address n => (a.loopNumber? n).map .address
  | o => some o

/-- The instruction with addresses replaced by the numbers of their loops. -/
def Instruction.number? (a : Scanner) : Instruction → Option Instruction
  | .unary op operand => (operand.number? a).map (.unary op)
  | .binary op left right => do
    let left ← left.number? a
    let right ← right.number? a
    return .binary op left right
  | .declare name type => some (.declare name type)
  | .pop => some .pop

/-- The instructions with addresses replaced by the numbers of their loops, if all are addresses of
loops. -/
def Listing.number? (a : Scanner) (l : Listing) : Option (List Instruction) :=
  l.toList.mapM (Instruction.number? a)

/-- The same instructions, with the addresses of the same loops. -/
def Listing.Same (a b : Scanner) (l m : Listing) : Prop :=
  ∃ is, l.number? a = some is ∧ m.number? b = some is

/-! Operations on what corresponds. -/

section
variable {a b : Scanner}

theorem Listing.number?_emit {l : Listing} {i k : Instruction} {is : List Instruction}
    (hl : l.number? a = some is) (hi : i.number? a = some k) :
    (l.emit i).number? a = some (is ++ [k]) := by
  rw [number?] at hl
  rw [number?, toList_emit, List.mapM_append, hl]
  simp [hi]

theorem Listing.Same.emit {l m : Listing} (h : l.Same a b m) {i j k : Instruction}
    (hi : i.number? a = some k) (hj : j.number? b = some k) : (l.emit i).Same a b (m.emit j) := by
  obtain ⟨is, hl, hm⟩ := h
  exact ⟨is ++ [k], number?_emit hl hi, number?_emit hm hj⟩

theorem Listing.Same.jump {l l' : Listing} (h : l.Same a b l') (c : Comparison) {m n : Nat}
    (hmn : SameLoop a b m n) : (l.jump (.jump c) m).Same a b (l'.jump (.jump c) n) := by
  obtain ⟨i, hm, hn⟩ := hmn
  refine h.emit (k := .unary (.jump c) (.address i)) ?_ ?_
  · simp [Instruction.number?, Operand.number?, hm]
  · simp [Instruction.number?, Operand.number?, hn]

theorem Listing.Same.markLoop {l l' : Listing} (h : l.Same a b l') {m n : Nat}
    (hmn : SameLoop a b m n) : (l.markLoop m).Same a b (l'.markLoop n) := by
  obtain ⟨i, hm, hn⟩ := hmn
  refine h.emit (k := .binary .move .returnAddress (.address i)) ?_ ?_
  · simp [Instruction.number?, Operand.number?, hm]
  · simp [Instruction.number?, Operand.number?, hn]

namespace Store.Same

variable {s t : Store}

theorem symbols_eq (h : s.Same a b t) : s.symbols = t.symbols := by
  have hmap : List.Forall₂ Eq s.symbols t.symbols :=
    List.rel_map (fun _ _ hxy ↦ Prod.ext hxy.name hxy.type) h
  rwa [List.forall₂_eq_eq_eq] at hmap

theorem memory_eq (h : s.Same a b t) : s.memory = t.memory := by
  rw [memory, memory]
  unfold Same at h
  generalize s.declared = xs at h ⊢
  generalize t.declared = ys at h ⊢
  induction h with
  | nil => rfl
  | cons hxy _ ih => rw [List.filterMap_cons, List.filterMap_cons, hxy.name, hxy.value, ih]

/-- A name stands for the same variable in both, or for none. -/
theorem find? (h : s.Same a b t) (name : String) :
    (s.find? name = none ∧ t.find? name = none) ∨
      ∃ x y, s.find? name = some x ∧ t.find? name = some y ∧ x.Same a b y := by
  rw [Store.find?, Store.find?]
  unfold Same at h
  generalize s.declared = xs at h ⊢
  generalize t.declared = ys at h ⊢
  induction h with
  | nil => exact .inl ⟨rfl, rfl⟩
  | @cons x y xs ys hxy _ ih =>
    by_cases hx : x.name = name
    · have hy : y.name = name := hxy.name ▸ hx
      refine .inr ⟨x, y, ?_, ?_, hxy⟩
      · exact List.find?_cons_of_pos (by simpa using hx)
      · exact List.find?_cons_of_pos (by simpa using hy)
    · have hy : y.name ≠ name := hxy.name ▸ hx
      rw [List.find?_cons_of_neg (by simpa using hx), List.find?_cons_of_neg (by simpa using hy)]
      exact ih

theorem value?_eq (h : s.Same a b t) (name : String) : s.value? name = t.value? name := by
  rw [value?, value?]
  rcases h.find? name with ⟨hs, ht⟩ | ⟨x, y, hs, ht, hxy⟩
  · rw [hs, ht]
  · rw [hs, ht]
    exact hxy.value

theorem set (h : s.Same a b t) (name : String) (v : Value) :
    (s.set name v).Same a b (t.set name v) := by
  refine List.rel_map (fun x y hxy ↦ ?_) h
  rw [hxy.name]
  split
  · exact ⟨rfl, hxy.type, rfl, hxy.place⟩
  · exact hxy

/-- The same assignment succeeds or fails in both. -/
theorem assign (h : s.Same a b t) (name : String) (v : Value) :
    (∃ s' t', s.assign name v = .ok s' ∧ t.assign name v = .ok t' ∧ s'.Same a b t') ∨
      ∃ f, s.assign name v = .error f ∧ t.assign name v = .error f := by
  rw [Store.assign, Store.assign]
  rcases h.find? name with ⟨hs, ht⟩ | ⟨x, y, hs, ht, hxy⟩
  · rw [hs, ht]
    exact .inr ⟨_, rfl, rfl⟩
  · rw [hs, ht]
    simp only
    rw [hxy.type]
    split
    · exact .inl ⟨_, _, rfl, rfl, h.set name v⟩
    · exact .inr ⟨_, rfl, rfl⟩

/-- The same declaration succeeds in both, or finds the same variable that has the name. -/
theorem declare (h : s.Same a b t) (name : String) (type : DataType) {x y : Span}
    (hxy : SamePlace a b x y) :
    (∃ s' t', s.declare name type x = .ok s' ∧ t.declare name type y = .ok t' ∧ s'.Same a b t') ∨
      ∃ first first', s.declare name type x = .error first ∧
        t.declare name type y = .error first' ∧ SamePlace a b first.span first'.span := by
  rw [Store.declare, Store.declare]
  rcases h.find? name with ⟨hs, ht⟩ | ⟨first, first', hs, ht, hfirst⟩
  · rw [hs, ht]
    refine .inl ⟨_, _, rfl, rfl, List.rel_append h (.cons ⟨rfl, rfl, rfl, hxy⟩ .nil)⟩
  · rw [hs, ht]
    exact .inr ⟨first, first', rfl, rfl, hfirst.place⟩

end Store.Same

end

/-! ## Executions side by side -/

section
variable (a b : Scanner)

/-- The same variables and instructions. -/
structure Progress.Same (r r' : Progress) : Prop where
  store : r.store.Same a b r'.store
  listing : r.listing.Same a b r'.listing

/-- The states are at the same token, and the same was done before. -/
structure State.SameToken (s t : State) : Prop where
  token : ∃ i, s.AtToken a i ∧ t.AtToken b i
  progress : s.progress.Same a b t.progress

/-- The same token was taken last. -/
structure State.Same (s t : State) : Prop extends State.SameToken a b s t where
  previous : ∃ x y, SamePlace a b x y ∧ s.previousStop = x.stop ∧ t.previousStop = y.stop

/-- The outcomes correspond. -/
inductive SameOutcome (R : α → β → Prop) :
    EStateM.Result Halt State α → EStateM.Result Halt State β → Prop
  | ok {x : α} {y : β} {s t : State} (hxy : R x y) (h : s.Same a b t) :
    SameOutcome R (.ok x s) (.ok y t)
  | fault {f g : Fault} {s t : State} (h : f.Same a b g) :
    SameOutcome R (.error (.fault f) s) (.error (.fault g) t)
  | outOfFuel {s t : State} : SameOutcome R (.error .outOfFuel s) (.error .outOfFuel t)

/-- Side by side, the executions come to outcomes that correspond. -/
def Alike (R : α → β → Prop) (x : Execution α) (y : Execution β) (s t : State) : Prop :=
  SameOutcome a b R (x.run s) (y.run t)

/-- Texts with the same tokens and no lexical fault. -/
structure Scanner.SameTokens : Prop where
  left : a.source.Pairwise fun p q ↦ p.offset < q.offset
  right : b.source.Pairwise fun p q ↦ p.offset < q.offset
  left_fault : a.fault? = none
  right_fault : b.fault? = none
  tokens : a.lexemes.map Lexeme.token = b.lexemes.map Lexeme.token

end

namespace Scanner.SameTokens

variable {a b : Scanner} (hab : a.SameTokens b)
include hab

theorem following_eq (i : Nat) : a.following i = b.following i := by
  have hlength : a.lexemes.length = b.lexemes.length := by
    simpa using congrArg List.length hab.tokens
  rw [following, following, hlength]

theorem token_eq {i : Nat} {l m : Lexeme} (hl : a.lexemes[i]? = some l)
    (hm : b.lexemes[i]? = some m) : l.token = m.token := by
  have h := congrArg (·[i]?) hab.tokens
  simpa [hl, hm] using h

end Scanner.SameTokens

namespace State.SameToken

variable {a b : Scanner} {s t : State}

/-- The next token is the same token. -/
theorem current (hab : a.SameTokens b) (h : s.SameToken a b t) :
    ∃ token x y, s.current = ⟨token, x⟩ ∧ t.current = ⟨token, y⟩ ∧ SamePlace a b x y := by
  obtain ⟨i, hs, ht⟩ := h.token
  refine ⟨s.current.token, s.current.span, t.current.span, rfl, ?_,
    i, s.current, t.current, hs.getElem?, ht.getElem?, rfl, rfl⟩
  rw [hab.token_eq hs.getElem? ht.getElem?]

theorem samePlace (h : s.SameToken a b t) : SamePlace a b s.current.span t.current.span := by
  obtain ⟨i, hs, ht⟩ := h.token
  exact ⟨i, s.current, t.current, hs.getElem?, ht.getElem?, rfl, rfl⟩

end State.SameToken

/-- What is done without reading changes what was done and nothing else. -/
theorem State.Same.withProgress {a b : Scanner} {s t : State} (h : s.Same a b t) {r r' : Progress}
    (hr : r.Same a b r') : (s.withProgress r).Same a b (t.withProgress r') := by
  obtain ⟨i, hs, ht⟩ := h.token
  exact ⟨⟨⟨i, hs.congr rfl rfl, ht.congr rfl rfl⟩, hr⟩, h.previous⟩

namespace Alike

variable {a b : Scanner} {s t : State} {R : α → β → Prop} {Q : γ → δ → Prop}

theorem outOfFuel :
    Alike a b R (Execution.outOfFuel : Execution α) (Execution.outOfFuel : Execution β) s t :=
  SameOutcome.outOfFuel

theorem pure {x : α} {y : β} (hxy : R x y) (h : s.Same a b t) :
    Alike a b R (Pure.pure x) (Pure.pure y) s t := .ok hxy h

theorem fail {c d : FaultCause} {x y : Span} (h : Fault.Same a b ⟨c, x⟩ ⟨d, y⟩) :
    Alike a b R (Execution.fail c x) (Execution.fail d y) s t := .fault h

theorem bind {x : Execution α} {y : Execution β} {f : α → Execution γ} {g : β → Execution δ}
    (hxy : Alike a b R x y s t)
    (hfg : ∀ u v s' t', R u v → s'.Same a b t' → Alike a b Q (f u) (g v) s' t') :
    Alike a b Q (x >>= f) (y >>= g) s t := by
  rw [Alike] at hxy ⊢
  generalize hx : x.run s = r at hxy
  generalize hy : y.run t = r' at hxy
  cases hxy with
  | ok huv h =>
    rw [run_bind_of_ok hx, run_bind_of_ok hy]
    exact hfg _ _ _ _ huv h
  | fault h =>
    rw [run_bind_of_error hx, run_bind_of_error hy]
    exact .fault h
  | outOfFuel =>
    rw [run_bind_of_error hx, run_bind_of_error hy]
    exact .outOfFuel

theorem get {f : State → Execution α} {g : State → Execution β} (h : Alike a b R (f s) (g t) s t) :
    Alike a b R (MonadState.get >>= f) (MonadState.get >>= g) s t := h

/-- A choice by the next token is the same choice. -/
theorem current (hab : a.SameTokens b) {f : Lexeme → Execution α} {g : Lexeme → Execution β}
    (h : s.SameToken a b t)
    (hfg : ∀ token x y, s.current = ⟨token, x⟩ → t.current = ⟨token, y⟩ → SamePlace a b x y →
      Alike a b R (f ⟨token, x⟩) (g ⟨token, y⟩) s t) :
    Alike a b R (Execution.current >>= f) (Execution.current >>= g) s t := by
  obtain ⟨token, x, y, hs, ht, hxy⟩ := h.current hab
  have := hfg token x y hs ht hxy
  rw [← hs, ← ht] at this
  exact this

theorem unexpected (hab : a.SameTokens b) (expected : List String) (h : s.SameToken a b t) :
    Alike a b R (Execution.unexpected expected) (Execution.unexpected expected) s t := by
  obtain ⟨token, x, y, hs, ht, hxy⟩ := h.current hab
  have hfault : Fault.Same a b ⟨.unexpected token expected, x⟩ ⟨.unexpected token expected, y⟩ :=
    .unexpected token expected hxy
  refine SameOutcome.fault ?_
  rw [hs, ht]
  exact hfault

theorem emit {f g : Listing → Listing} (h : s.Same a b t)
    (hfg : (f s.listing).Same a b (g t.listing)) :
    Alike a b (fun _ _ ↦ True) (Execution.emit f) (Execution.emit g) s t := by
  have hprogress : Progress.Same a b ⟨s.store, f s.listing⟩ ⟨t.store, g t.listing⟩ :=
    ⟨h.progress.store, hfg⟩
  exact .ok trivial (h.withProgress hprogress)

/-- After one step the states correspond, whatever was taken before. -/
theorem step (hab : a.SameTokens b) (h : s.SameToken a b t) :
    Alike a b (fun _ _ ↦ True) Execution.step Execution.step s t := by
  obtain ⟨i, hs, ht⟩ := h.token
  obtain ⟨s', hs', hat, hprogress, hprevious⟩ := hs.step hab.left_fault
  obtain ⟨t', ht', hat', hprogress', hprevious'⟩ := ht.step hab.right_fault
  rw [Alike, hs', ht']
  rw [← hab.following_eq] at hat'
  refine .ok trivial ⟨⟨⟨a.following i, hat, hat'⟩, ?_⟩, ⟨_, _, h.samePlace, hprevious, hprevious'⟩⟩
  rw [hprogress, hprogress']
  exact h.progress

/-- The way back to the same loop leads to the same token. -/
theorem rewind (hab : a.SameTokens b) {m n : Nat} (hmn : SameLoop a b m n)
    (h : s.SameToken a b t) :
    Alike a b (fun _ _ ↦ True) (Execution.rewind m) (Execution.rewind n) s t := by
  obtain ⟨j, hs, ht⟩ := h.token
  obtain ⟨i, hm, hn⟩ := hmn
  obtain ⟨l, hl, hrepeat, rfl⟩ := Scanner.exists_of_loopNumber? hm
  obtain ⟨l', hl', hrepeat', rfl⟩ := Scanner.exists_of_loopNumber? hn
  obtain ⟨s', hs', hat, hprogress, hprevious⟩ :=
    hs.rewind hab.left hl (by rw [hrepeat]; exact nofun)
  obtain ⟨t', ht', hat', hprogress', hprevious'⟩ :=
    ht.rewind hab.right hl' (by rw [hrepeat']; exact nofun)
  rw [Alike, hs', ht']
  refine .ok trivial ⟨⟨⟨i, hat, hat'⟩, ?_⟩, ⟨_, _, h.samePlace, hprevious, hprevious'⟩⟩
  rw [hprogress, hprogress']
  exact h.progress

end Alike

end MiniPascal
