import MiniPascal.Proofs.Meaning
import MiniPascal.Proofs.Places

/-!
# The addresses of loops

A loop appears in the listing by its address, which is noted once in front of its passes and comes
back in the jump of every pass. An inner loop notes its address anew on every pass around it, the
outer one does not. The addresses are nevertheless well scoped: whoever reads the listing backwards
from a jump comes to the place where its address was noted, and meets nothing on the way but the
loop itself and those inside it.

To see it for all the code of a statement, the code of a loop without its first instruction is
looked at too. There the jumps of the loop lead out of the code, so `Scoped` is given the jumps that
may do so. For a whole program there are none.

That an inner loop cannot be taken for the one around it is a fact about the text: two `REPEAT`s
never have the same number of characters before them.
-/

namespace MiniPascal

open Grammar

/-! ## Loops in a text and in a listing -/

/-- Among the tokens is a loop: it starts with `l`, its body is `body`, and `c` compares what stands
behind the `UNTIL` that closes it. -/
structure Grammar.HasLoop (ts : List Lexeme) (l : Lexeme) (body : List Lexeme) (c : Comparison) :
    Prop where
  isRepeat : l.token = .keyword .loopRepeat
  exists_tokens : ∃ before u condition after,
    ts = before ++ l :: (body ++ u :: condition) ++ after ∧
    (∃ s : Statement, s.Derives .statements body) ∧ u.token = .keyword .loopUntil ∧
    ∃ d : Condition, d.Derives condition ∧ d.comparison = c

namespace Instruction

/-- Notes the address of a loop. -/
def mark (n : Nat) : Instruction := .binary .move .returnAddress (.address n)

/-- Jumps to a loop. -/
def jumpTo (c : Comparison) (n : Nat) : Instruction := .unary (.jump c) (.address n)

/-- The address of a loop in an instruction that has one. -/
def loopAddress? : Instruction → Option Nat
  | .binary .move .returnAddress (.address n) => some n
  | .unary (.jump _) (.address n) => some n
  | _ => none

end Instruction

open Instruction

variable {address : Nat → Nat} {ts us : List Lexeme} {code code' : List Instruction}

/-- A `REPEAT` among the tokens has the address. -/
def Repeated (address : Nat → Nat) (ts : List Lexeme) (n : Nat) : Prop :=
  ∃ l ∈ ts, l.token = .keyword .loopRepeat ∧ address l.span.start = n

/-- The code before a jump of a loop notes the address of the loop. From there on only the loop and
those inside it are addressed. -/
def RefersBack (address : Nat → Nat) (ts : List Lexeme) (before : List Instruction)
    (c : Comparison) (n : Nat) : Prop :=
  ∃ l body, HasLoop ts l body c ∧ address l.span.start = n ∧
    ∃ front between, before = front ++ mark n :: between ∧ mark n ∉ between ∧
      ∀ i ∈ between, ∀ m, i.loopAddress? = some m → m = n ∨ Repeated address body m

/-- The code of a statement with the given tokens, in which some jumps may lead out of the code. -/
structure Scoped (address : Nat → Nat) (leaving : Comparison → Nat → Prop) (ts : List Lexeme)
    (code : List Instruction) : Prop where
  addressed : ∀ i ∈ code, ∀ n, i.loopAddress? = some n →
    (∃ c, leaving c n) ∨ Repeated address ts n
  jump : ∀ before c n after, code = before ++ jumpTo c n :: after →
    leaving c n ∨ RefersBack address ts before c n
  mark : ∀ before n after, code = before ++ mark n :: after →
    Repeated address ts n ∧ ∃ between c rest, after = between ++ jumpTo c n :: rest ∧
      Instruction.mark n ∉ between

/-- Code without loops. -/
def Plain (code : List Instruction) : Prop := ∀ i ∈ code, i.loopAddress? = none

theorem plain_nil : Plain [] := by
  intro i hi
  cases hi

theorem plain_append (h : Plain code) (h' : Plain code') :
    Plain (code ++ code') :=
  fun i hi ↦ (List.mem_append.1 hi).elim (h i) (h' i)

theorem plain_singleton {i : Instruction} (h : i.loopAddress? = none) : Plain [i] := by
  intro j hj
  rwa [List.mem_singleton.1 hj]

theorem Grammar.HasLoop.mono {l : Lexeme} {body : List Lexeme} {c : Comparison}
    (h : HasLoop ts l body c) (hts : ts <:+: us) : HasLoop us l body c := by
  obtain ⟨hl, before, u, condition, after, rfl, hrest⟩ := h
  obtain ⟨front, back, rfl⟩ := hts
  refine ⟨hl, front ++ before, u, condition, after ++ back, ?_, hrest⟩
  simp only [List.append_assoc]

theorem Repeated.mono {n : Nat} (h : Repeated address ts n) (hts : ts <:+: us) :
    Repeated address us n := by
  obtain ⟨l, hl, hrest⟩ := h
  exact ⟨l, hts.subset hl, hrest⟩

theorem RefersBack.mono {before : List Instruction} {c : Comparison} {n : Nat}
    (h : RefersBack address ts before c n) (hts : ts <:+: us) (front : List Instruction) :
    RefersBack address us (front ++ before) c n := by
  obtain ⟨l, body, hloop, hn, front', between, rfl, hrest⟩ := h
  exact ⟨l, body, hloop.mono hts, hn, front ++ front', between, (List.append_assoc ..).symm, hrest⟩

/-- An element of two lists in a row is one of the first or one of the second. -/
theorem append_eq_append_cons {α : Type} {xs ys before after : List α} {a : α}
    (h : xs ++ ys = before ++ a :: after) :
    (∃ middle, xs = before ++ a :: middle ∧ after = middle ++ ys) ∨
      ∃ middle, before = xs ++ middle ∧ ys = middle ++ a :: after := by
  rcases List.append_eq_append_iff.1 h with ⟨middle, hbefore, hys⟩ | ⟨middle, hxs, hafter⟩
  · exact .inr ⟨middle, hbefore, hys⟩
  · cases middle with
    | nil =>
      refine .inr ⟨[], ?_, hafter.symm⟩
      rw [hxs, List.append_nil, List.append_nil]
    | cons b middle =>
      rw [List.cons_append, List.cons.injEq] at hafter
      obtain ⟨rfl, rfl⟩ := hafter
      exact .inl ⟨middle, hxs, rfl⟩

namespace Scoped

variable {leaving leaving' : Comparison → Nat → Prop}

theorem of_plain (h : Plain code) : Scoped address leaving ts code := by
  refine ⟨fun i hi n hn ↦ ?_, fun before c n after hcode ↦ ?_, fun before n after hcode ↦ ?_⟩
  · rw [h i hi] at hn
    cases hn
  · have := h (jumpTo c n) (by simp [hcode])
    cases this
  · have := h (Instruction.mark n) (by simp [hcode])
    cases this

theorem mono (h : Scoped address leaving ts code) (hts : ts <:+: us)
    (hleaving : ∀ c n, leaving c n → leaving' c n) : Scoped address leaving' us code := by
  refine ⟨fun i hi n hn ↦ ?_, fun before c n after hcode ↦ ?_, fun before n after hcode ↦ ?_⟩
  · rcases h.addressed i hi n hn with ⟨c, hc⟩ | hrepeated
    · exact .inl ⟨c, hleaving c n hc⟩
    · exact .inr (hrepeated.mono hts)
  · exact (h.jump before c n after hcode).imp (hleaving c n) fun h ↦ h.mono hts []
  · obtain ⟨hrepeated, hrest⟩ := h.mark before n after hcode
    exact ⟨hrepeated.mono hts, hrest⟩

theorem append (h : Scoped address leaving ts code) (h' : Scoped address leaving ts code') :
    Scoped address leaving ts (code ++ code') := by
  refine ⟨fun i hi ↦ ?_, fun before c n after hcode ↦ ?_, fun before n after hcode ↦ ?_⟩
  · exact (List.mem_append.1 hi).elim (h.addressed i) (h'.addressed i)
  · rcases append_eq_append_cons hcode with ⟨middle, hcode, -⟩ | ⟨middle, rfl, hcode'⟩
    · exact h.jump before c n middle hcode
    · exact (h'.jump middle c n after hcode').imp id fun hback ↦
        hback.mono (List.infix_refl ts) code
  · rcases append_eq_append_cons hcode with ⟨middle, hfirst, rfl⟩ | ⟨middle, rfl, hcode'⟩
    · obtain ⟨hrepeated, between, c, rest, rfl, hbetween⟩ := h.mark before n middle hfirst
      refine ⟨hrepeated, between, c, rest ++ code', ?_, hbetween⟩
      simp only [List.append_assoc, List.cons_append]
    · exact h'.mark middle n after hcode'

/-- A jump that may lead out of the code. -/
theorem leave {c : Comparison} {n : Nat} (h : leaving c n) :
    Scoped address leaving ts [jumpTo c n] := by
  refine ⟨fun i hi m hm ↦ ?_, fun before d m after hcode ↦ ?_, fun before m after hcode ↦ ?_⟩
  · obtain rfl := List.mem_singleton.1 hi
    cases hm
    exact .inl ⟨c, h⟩
  · have hmem : jumpTo d m ∈ [jumpTo c n] := by simp [hcode]
    cases List.mem_singleton.1 hmem
    exact .inl h
  · have hmem : Instruction.mark m ∈ [jumpTo c n] := by simp [hcode]
    cases List.mem_singleton.1 hmem

/-- A loop: its address is noted, and its passes follow. Within them no address is noted that could
be taken for its own. -/
theorem loop {l : Lexeme} {body : List Lexeme} {c : Comparison} (hloop : HasLoop ts l body c)
    (hbody : ¬Repeated address body (address l.span.start))
    (h : Scoped address (fun d n ↦ d = c ∧ n = address l.span.start) body code)
    (hjump : jumpTo c (address l.span.start) ∈ code) :
    Scoped address (fun _ _ ↦ False) ts (Instruction.mark (address l.span.start) :: code) := by
  obtain ⟨hrepeat, before, u, condition, after, hts, -⟩ := id hloop
  have hinfix : body <:+: ts :=
    ⟨before ++ [l], u :: condition ++ after, by rw [hts]; simp⟩
  have hself : Repeated address ts (address l.span.start) :=
    ⟨l, by rw [hts]; simp, hrepeat, rfl⟩
  have hmark : Instruction.mark (address l.span.start) ∉ code := by
    intro hmem
    obtain ⟨front, back, hcode⟩ := List.append_of_mem hmem
    exact hbody (h.mark _ _ _ hcode).1
  refine ⟨fun i hi n hn ↦ .inr ?_, fun front d n back hcode ↦ .inr ?_, fun front n back hcode ↦ ?_⟩
  · rcases List.mem_cons.1 hi with rfl | hi
    · cases hn
      exact hself
    · rcases h.addressed i hi n hn with ⟨d, -, rfl⟩ | hrepeated
      · exact hself
      · exact hrepeated.mono hinfix
  · cases front with
    | nil => cases hcode
    | cons i front =>
      rw [List.cons_append, List.cons.injEq] at hcode
      obtain ⟨rfl, rfl⟩ := hcode
      rcases h.jump front d n back rfl with ⟨rfl, rfl⟩ | hback
      -- a jump of the loop itself: all its passes so far lie in between
      · refine ⟨l, body, hloop, rfl, [], front, rfl, fun hmem ↦ hmark (by simp [hmem]), ?_⟩
        intro i hi m hm
        refine (h.addressed i (by simp [hi]) m hm).imp ?_ id
        rintro ⟨d', -, rfl⟩
        rfl
      · exact hback.mono hinfix [Instruction.mark (address l.span.start)]
  · cases front with
    | nil =>
      rw [List.nil_append, List.cons.injEq] at hcode
      obtain ⟨hn, rfl⟩ := hcode
      cases hn
      obtain ⟨between, rest, rfl⟩ := List.append_of_mem hjump
      exact ⟨hself, between, c, rest, rfl, fun hmem ↦ hmark (by simp [hmem])⟩
    | cons i front =>
      rw [List.cons_append, List.cons.injEq] at hcode
      obtain ⟨hrepeated, hrest⟩ := h.mark front n back hcode.2
      exact ⟨hrepeated.mono hinfix, hrest⟩

end Scoped

/-! ## What is emitted -/

/-- What was added to a listing is code with a property. -/
def Emits (l l' : Listing) (P : List Instruction → Prop) : Prop :=
  ∃ code, l'.toList = l.toList ++ code ∧ P code

namespace Emits

variable {l l₁ l₂ : Listing} {P Q R : List Instruction → Prop}

theorem refl (h : P []) : Emits l l P := ⟨[], (List.append_nil _).symm, h⟩

theorem emit {i : Instruction} (h : P [i]) : Emits l (l.emit i) P :=
  ⟨[i], Listing.toList_emit _ _, h⟩

theorem trans (h : Emits l l₁ P) (h' : Emits l₁ l₂ Q)
    (hR : ∀ code code', P code → Q code' → R (code ++ code')) : Emits l l₂ R := by
  obtain ⟨code, hcode, hP⟩ := h
  obtain ⟨code', hcode', hQ⟩ := h'
  exact ⟨code ++ code', by rw [hcode', hcode, List.append_assoc], hR code code' hP hQ⟩

theorem imp (h : Emits l l₁ P) (hPQ : ∀ code, P code → Q code) : Emits l l₁ Q := by
  obtain ⟨code, hcode, hP⟩ := h
  exact ⟨code, hcode, hPQ code hP⟩

theorem plain_trans (h : Emits l l₁ Plain) (h' : Emits l₁ l₂ Plain) : Emits l l₂ Plain :=
  h.trans h' fun _ _ ↦ plain_append

end Emits

namespace Grammar

variable {r r' : Progress}

/-- Expressions have no loops. -/
theorem Expression.plain_run {e : Expression} {v : Value} (h : e.run.run r = .ok v r') :
    Emits r.listing r'.listing Plain := by
  induction e generalizing r r' v with
  | literal w place =>
    obtain ⟨-, rfl⟩ := run_literal_eq_ok h
    exact .emit (plain_singleton rfl)
  | named name place =>
    obtain ⟨-, rfl⟩ := run_named_eq_ok h
    exact .emit (plain_singleton rfl)
  | plus place operand ih => exact ih h
  | minus place operand ih =>
    obtain ⟨w, r₁, hoperand, -, rfl⟩ := run_minus_eq_ok h
    exact (ih hoperand).plain_trans (.emit (plain_singleton rfl))
  | binary op place left right ihl ihr =>
    obtain ⟨a, b, r₁, r₂, hleft, hright, -, rfl⟩ := run_binary_eq_ok h
    exact (((ihl hleft).plain_trans (ihr hright)).plain_trans
      (.emit (plain_singleton rfl))).plain_trans (.emit (plain_singleton rfl))
  | parens place inner ih => exact ih h

theorem plain_declareAll {vs : List (String × DataType × Span)}
    (h : (Interpreter.declareAll vs).run r = .ok () r') : Emits r.listing r'.listing Plain := by
  induction vs generalizing r with
  | nil =>
    cases h
    exact .refl plain_nil
  | cons v vs ih =>
    obtain ⟨_, r₁, hdeclare, hrest⟩ := run_bind_eq_ok_iff.1 h
    obtain ⟨store, -, rfl⟩ := Interpreter.run_declare_eq_ok hdeclare
    exact (Emits.emit (plain_singleton rfl)).plain_trans (ih hrest)

/-- Code that ends a pass: the jump of the loop leads out of it. -/
def EndsPass (address : Nat → Nat) (c : Comparison) (n : Nat) (ts : List Lexeme)
    (code : List Instruction) : Prop :=
  Scoped address (fun d m ↦ d = c ∧ m = n) ts code ∧ jumpTo c n ∈ code

/-- A condition emits its jump, and around it what is no loop. -/
theorem Condition.endsPass_run {c : Condition} {n : Nat} {done : Bool}
    (h : (c.run n).run r = .ok done r') :
    Emits r.listing r'.listing (EndsPass address c.comparison n ts) := by
  obtain ⟨a, b, r₁, hleft, hright, -⟩ := run_eq_ok h
  obtain ⟨left, hleft, hplain⟩ := Expression.plain_run hleft
  obtain ⟨right, hright, hplain'⟩ := Expression.plain_run hright
  refine ⟨left ++ [jumpTo c.comparison n] ++ right, ?_, ?_, by simp⟩
  · have hjump : (r₁.listing.jump (.jump c.comparison) n).toList =
        r₁.listing.toList ++ [jumpTo c.comparison n] := Listing.toList_emit _ _
    rw [hright, hjump, hleft]
    simp only [List.append_assoc]
  · exact ((Scoped.of_plain hplain).append (.leave ⟨rfl, rfl⟩)).append (.of_plain hplain')

theorem EndsPass.append {c : Comparison} {n : Nat} (h : EndsPass address c n ts code)
    (h' : EndsPass address c n ts code') : EndsPass address c n ts (code ++ code') :=
  ⟨h.1.append h'.1, List.mem_append_left _ h.2⟩

/-- The passes of a loop emit their bodies, each with a jump behind it. -/
theorem Statement.endsPass_run {start n : Nat} {body : Statement} {c : Condition}
    (hbody : ∀ n r r', (body.run address n).run r = .ok () r' →
      Emits r.listing r'.listing (Scoped address (fun _ _ ↦ False) ts))
    (h : (Statement.run address (.loop start body c) n).run r = .ok () r') :
    Emits (r.listing.markLoop (address start)) r'.listing
      (EndsPass address c.comparison (address start) ts) := by
  have hpass {r r₁ r' : Progress} {n : Nat} {done : Bool}
      (hr : (body.run address n).run r = .ok () r₁)
      (hc : (c.run (address start)).run r₁ = .ok done r') :
      Emits r.listing r'.listing (EndsPass address c.comparison (address start) ts) := by
    have hcondition : Emits r₁.listing r'.listing
        (EndsPass address c.comparison (address start) ts) := Condition.endsPass_run hc
    refine (hbody n r r₁ hr).trans hcondition fun code code' h h' ↦ ?_
    exact ⟨(h.mono (List.infix_refl ts) fun _ _ ↦ False.elim).append h'.1,
      List.mem_append_right _ h'.2⟩
  refine run_loop_induction (P := fun r r' ↦ Emits r.listing r'.listing
    (EndsPass address c.comparison (address start) ts)) ?_ ?_ h
  · intro n r r₁ r' hr hc
    exact hpass hr hc
  · intro n r r₁ r₂ r' hr hc hrest
    exact (hpass hr hc).trans hrest fun _ _ ↦ .append

/-- The `REPEAT`s of a text have different addresses. -/
def Distinct (address : Nat → Nat) (ts : List Lexeme) : Prop :=
  ts.Pairwise fun l m ↦ l.token = .keyword .loopRepeat → m.token = .keyword .loopRepeat →
    address l.span.start ≠ address m.span.start

/-- **What a statement emits is in scope.** -/
theorem Statement.Derives.scoped_run {s : Statement} {k : Phrase} {ts : List Lexeme}
    (h : s.Derives k ts) (hdistinct : Distinct address ts) {r r' : Progress} {n : Nat}
    (hrun : (s.run address n).run r = .ok () r') :
    Emits r.listing r'.listing (Scoped address (fun _ _ ↦ False) ts) := by
  induction h generalizing r r' n with
  | nothing =>
    cases hrun
    exact .refl (.of_plain plain_nil)
  | assign hl ha value =>
    obtain ⟨v, r₁, store, hvalue, -, rfl⟩ := run_assign_eq_ok hrun
    exact ((Expression.plain_run hvalue).plain_trans (.emit (plain_singleton rfl))).imp
      fun _ ↦ .of_plain
  | compound body ih => exact ih hdistinct hrun
  | @loop l u ts us s c hl body hu condition ih =>
    rw [Distinct, List.pairwise_cons, List.pairwise_append] at hdistinct
    have hpasses := Statement.endsPass_run (fun _ _ _ ↦ ih hdistinct.2.1) hrun
    have hmark : Emits r.listing (r.listing.markLoop (address l.span.start))
        (· = [mark (address l.span.start)]) := .emit rfl
    refine hmark.trans hpasses fun code code' hcode h ↦ ?_
    subst hcode
    refine Scoped.loop ?_ ?_ h.1 h.2
    · exact ⟨hl, [], u, us, [], by simp, ⟨s, body⟩, hu, c, condition, rfl⟩
    · rintro ⟨m, hm, hrepeat, haddress⟩
      exact hdistinct.1 m (List.mem_append_left _ hm) hl hrepeat haddress.symm
  | single _ ih => exact ih hdistinct hrun
  | @sequence l ts us s t first h rest ihf ihr =>
    rw [Distinct, List.pairwise_append, List.pairwise_cons] at hdistinct
    obtain ⟨r₁, hfirst, hrest⟩ := run_sequence_eq_ok hrun
    refine (ihf hdistinct.1 hfirst).trans (ihr hdistinct.2.1.2 hrest) fun code code' h h' ↦ ?_
    exact (h.mono ⟨[], l :: us, rfl⟩ fun _ _ ↦ id).append
      (h'.mono ⟨ts ++ [l], [], by simp⟩ fun _ _ ↦ id)
  | @block l e ts s hl body he ih =>
    rw [Distinct, List.pairwise_cons, List.pairwise_append] at hdistinct
    exact (ih hdistinct.2.1 hrun).imp fun code h ↦ h.mono ⟨[l], [e], rfl⟩ fun _ _ ↦ id

end Grammar

/-! ## Listings -/

theorem Scanner.distinct_lexemes (source : String) :
    Distinct (charsBefore (Placed.ofString source)) (ofString source).lexemes := by
  refine List.pairwise_iff_getElem.2 fun i j hi hj hij hl hm h ↦ ?_
  have := eq_of_charsBefore_eq (a := ofString source) (Placed.pairwise_ofString source)
    (List.getElem?_eq_getElem hi) (List.getElem?_eq_getElem hj) (by simp [hl]) (by simp [hm]) h
  omega

/-- The characters before an offset are those that fill the bytes up to it. -/
theorem charsBefore_layOut (offset : Nat) (cs ds : List Char) :
    charsBefore (Placed.layOut offset (cs ++ ds)) (offset + byteLength cs) = cs.length := by
  induction cs generalizing offset with
  | nil =>
    cases ds with
    | nil => rfl
    | cons d ds =>
      rw [byteLength_nil, Nat.add_zero, List.nil_append, Placed.layOut, charsBefore,
        List.takeWhile_cons_of_neg (by simp)]
      rfl
  | cons c cs ih =>
    have hpos := c.utf8Size_pos
    have hih := ih (offset + c.utf8Size)
    rw [charsBefore, Nat.add_assoc] at hih
    rw [byteLength_cons, List.cons_append, Placed.layOut, charsBefore,
      List.takeWhile_cons_of_pos (by simpa using by omega), List.length_cons, hih, List.length_cons]

/-- The address of a `REPEAT` is the number of characters before it. -/
theorem Scanner.exists_text_before {source : String} {l : Lexeme}
    (hl : l ∈ (ofString source).lexemes) (hrepeat : l.token = .keyword .loopRepeat) :
    ∃ before after, source = before ++ "REPEAT" ++ after ∧ l.span.start = before.utf8ByteSize ∧
      charsBefore (Placed.ofString source) l.span.start = before.length := by
  obtain ⟨piece, ⟨before, after, hsource, hspan⟩, hspells⟩ :=
    exists_spelling_of_mem hl (by simp [hrepeat])
  have hpiece : piece = "REPEAT" := by
    rw [hrepeat] at hspells
    generalize hcs : piece.toList = cs at hspells
    cases hspells
    exact String.toList_inj.1 hcs
  subst hpiece
  refine ⟨before, after, hsource, by rw [hspan], ?_⟩
  have htext : source.toList = before.toList ++ ("REPEAT" ++ after).toList := by
    rw [hsource, String.append_assoc, String.toList_append]
  have h := charsBefore_layOut 0 before.toList ("REPEAT" ++ after).toList
  rw [← htext, Nat.zero_add, byteLength_toList, String.length_toList] at h
  rw [hspan]
  exact h

/-- What the addresses in a listing have to do with the text of the program. -/
structure WellScoped (source : String) (ts : List Lexeme) (address : Nat → Nat)
    (code : List Instruction) : Prop where
  /-- The address of a `REPEAT` is the number of characters before it. -/
  counted : ∀ l ∈ ts, l.token = .keyword .loopRepeat → ∃ before after,
    source = before ++ "REPEAT" ++ after ∧ l.span.start = before.utf8ByteSize ∧
      address l.span.start = before.length
  distinct : Distinct address ts
  /-- Every address is that of a `REPEAT` of the program. -/
  addressed : ∀ i ∈ code, ∀ n, i.loopAddress? = some n → Repeated address ts n
  /-- Every jump is that of a loop of the program, by the comparison of the loop. The address of the
  loop was noted before it, and since then only that loop and those inside it were addressed. -/
  jump : ∀ before c n after, code = before ++ jumpTo c n :: after → RefersBack address ts before c n
  /-- Where an address is noted, a jump to it follows before it is noted again. -/
  mark : ∀ before n after, code = before ++ mark n :: after →
    ∃ between c rest, after = between ++ jumpTo c n :: rest ∧ Instruction.mark n ∉ between

/-- **Loop addresses are well scoped.** The tokens of a program that compiles stand at the start of
its text, and the addresses in its listing are well scoped with respect to the loops among them. -/
theorem wellScoped_of_compileText {fuel : Nat} {source : String} {c : Compiled}
    (h : compileText fuel source = .ok c) :
    ∃ (t : Program) (ts : List Lexeme) (next : Lexeme) (rest : List Lexeme) (address : Nat → Nat),
      (Scanner.ofString source).lexemes = ts ++ next :: rest ∧ t.Derives ts ∧
      WellScoped source ts address c.listing.toList := by
  obtain ⟨t, ⟨ts, next, rest, hts, hderives, -⟩, ⟨n, hn⟩, -⟩ := exists_tree_of_compileText h
  have hdistinct := Scanner.distinct_lexemes source
  rw [hts, Distinct, List.pairwise_append] at hdistinct
  obtain @⟨k, l, s, d, name, ds, bs, gs, body, -, -, -, -, hbody, -⟩ := id hderives
  have hinfix : bs <:+: k :: l :: s :: (ds ++ (bs ++ [d])) := ⟨k :: l :: s :: ds, [d], by simp⟩
  obtain ⟨_, r, hdeclare, hrun⟩ := run_bind_eq_ok_iff.1 hn
  obtain ⟨code, hcode, hscoped⟩ := (plain_declareAll hdeclare).trans
    (hbody.scoped_run (hdistinct.1.sublist hinfix.sublist) hrun) fun code code' h h' ↦
      (Scoped.of_plain h).append (h'.mono hinfix fun _ _ ↦ id)
  have hlisting : c.listing.toList = code := hcode
  rw [hlisting]
  refine ⟨_, _, next, rest, _, hts, hderives, fun l hl hrepeat ↦ ?_, hdistinct.1, ?_, ?_, ?_⟩
  · exact Scanner.exists_text_before (by rw [hts]; exact List.mem_append_left _ hl) hrepeat
  · intro i hi n hn
    exact (hscoped.addressed i hi n hn).resolve_left fun ⟨_, hfalse⟩ ↦ hfalse
  · intro before c n after hcode
    exact (hscoped.jump before c n after hcode).resolve_left id
  · intro before n after hcode
    exact (hscoped.mark before n after hcode).2

theorem wellScoped_of_nested_loops :
    let source :=
      "PROGRAM p; VAR i : INTEGER; BEGIN i := 1; REPEAT REPEAT i := i*2 UNTIL i>2 UNTIL i>4 END."
    ∃ c t ts next rest address, compileText 30 source = .ok c ∧
      c.listing.toList.filterMap loopAddress? = [42, 49, 49, 49, 42, 49, 49, 42] ∧
      (Scanner.ofString source).lexemes = ts ++ next :: rest ∧ Program.Derives ts t ∧
      WellScoped source ts address c.listing.toList := by
  intro source
  have hcheck : ((compileText 30 source).toOption.map fun c ↦
      c.listing.toList.filterMap loopAddress?) = some [42, 49, 49, 49, 42, 49, 49, 42] := by
    decide +kernel
  obtain ⟨c, hc, haddresses⟩ := Option.map_eq_some_iff.1 hcheck
  have hok : compileText 30 source = .ok c := by
    cases h : compileText 30 source with
    | ok c' =>
      rw [h] at hc
      cases hc
      rfl
    | error e =>
      rw [h] at hc
      cases hc
  obtain ⟨t, ts, next, rest, address, h⟩ := wellScoped_of_compileText hok
  exact ⟨c, t, ts, next, rest, address, hok, haddresses, h⟩

end MiniPascal
