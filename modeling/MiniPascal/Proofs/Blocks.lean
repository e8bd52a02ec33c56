import MiniPascal.Proofs.Loops
import MiniPascal.Proofs.Machine
import MiniPascal.Proofs.Scoping

/-!
# The code of a loop, pass by pass

Every pass of a loop emits its instructions anew, with the values of that pass in them. All else in
them follows the text, and the text is read again from where it began. So a loop without inner loops
emits one block of instructions for each pass, and the blocks differ in values only.

The shape of a tree is its code with the values left out. An expression always has one, and so has a
statement without loops (`Statement.Shape`). A loop has none, as its length is that of as many
passes as it takes.
-/

namespace MiniPascal

open Grammar

/-! ## Code without its values -/

/-- What stands in the place of a value. -/
def Operand.blank : Operand := .value (.integer 0)

namespace Instruction

/-- The instruction without the values that it was executed with. A constant that is put on the
stack stays, as it is a part of the text. -/
def erase : Instruction → Instruction
  | .unary .negate (.value _) => .unary .negate .blank
  | .binary (.arithmetic op) (.value _) (.value _) => .binary (.arithmetic op) .blank .blank
  | .binary .move (.variable name) (.value _) => .binary .move (.variable name) .blank
  | i => i

theorem isJump_erase (i : Instruction) : i.erase.isJump = i.isJump := by
  unfold erase
  split
  · rfl
  · rfl
  · rfl
  · rfl

theorem erase_of_isJump {i : Instruction} (h : i.isJump = true) : i.erase = i := by
  unfold erase
  split
  · cases h
  · cases h
  · cases h
  · rfl

/-- Erasing leaves the jumps as they are. -/
theorem filter_isJump_erase (code : List Instruction) :
    (code.map erase).filter isJump = code.filter isJump := by
  induction code with
  | nil => rfl
  | cons i code ih =>
    rw [List.map_cons, List.filter_cons, List.filter_cons, ih, isJump_erase]
    split
    · next h => rw [erase_of_isJump h]
    · rfl

end Instruction

open Instruction

/-- Code that is a block but for its values. -/
def Shaped (block code : List Instruction) : Prop := code.map erase = block

/-- Code in which no loop is noted and nothing jumps. -/
def Straight (code : List Instruction) : Prop :=
  ∀ i ∈ code, i.isJump = false ∧ i.loopAddress? = none

theorem Straight.filter_isJump {code : List Instruction} (h : Straight code) :
    code.filter isJump = [] := by
  rw [List.filter_eq_nil_iff]
  intro i hi
  rw [(h i hi).1]
  exact Bool.false_ne_true

theorem Straight.mark_notMem {code : List Instruction} (h : Straight code) (n : Nat) :
    mark n ∉ code := by
  intro hmem
  cases (h _ hmem).2

theorem Emits.shaped_trans {l l₁ l₂ : Listing} {block block' : List Instruction}
    (h : Emits l l₁ (Shaped block)) (h' : Emits l₁ l₂ (Shaped block')) :
    Emits l l₂ (Shaped (block ++ block')) := by
  refine h.trans h' fun code code' hcode hcode' ↦ ?_
  rw [Shaped, List.map_append, hcode, hcode']

/-! ## Shapes and values of trees -/

namespace Grammar

variable {r r' : Progress}

namespace Expression

/-- The code of an expression without values. -/
def shape : Expression → List Instruction
  | .literal v _ => [.unary .pushImmediate (.value v)]
  | .named name _ => [.unary .push (.variable name)]
  | .plus _ operand => operand.shape
  | .minus _ operand => operand.shape ++ [.unary .negate .blank]
  | .binary op _ left right =>
    left.shape ++ right.shape ++ [.binary (.arithmetic op) .blank .blank, .pop]
  | .parens _ inner => inner.shape

/-- The value of an expression, if it has one. -/
def value? (s : Store) : Expression → Option Value
  | .literal v _ => some v
  | .named name _ => s.value? name
  | .plus _ operand => operand.value? s
  | .minus _ operand => do
    let v ← operand.value? s
    v.neg.toOption
  | .binary op _ left right => do
    let v ← left.value? s
    let w ← right.value? s
    (op.apply v w).toOption
  | .parens _ inner => inner.value? s

theorem straight_shape (e : Expression) : Straight e.shape := by
  induction e with
  | literal v place => exact List.forall_mem_singleton.2 ⟨rfl, rfl⟩
  | named name place => exact List.forall_mem_singleton.2 ⟨rfl, rfl⟩
  | plus place operand ih => exact ih
  | minus place operand ih =>
    exact List.forall_mem_append.2 ⟨ih, List.forall_mem_singleton.2 ⟨rfl, rfl⟩⟩
  | binary op place left right ihl ihr =>
    refine List.forall_mem_append.2 ⟨List.forall_mem_append.2 ⟨ihl, ihr⟩, ?_⟩
    exact List.forall_mem_cons.2 ⟨⟨rfl, rfl⟩, List.forall_mem_singleton.2 ⟨rfl, rfl⟩⟩
  | parens place inner ih => exact ih

/-- What an expression emits has its shape, whatever the variables. -/
theorem shaped_run {e : Expression} {v : Value} (h : e.run.run r = .ok v r') :
    Emits r.listing r'.listing (Shaped e.shape) := by
  induction e generalizing r r' v with
  | literal w place =>
    obtain ⟨-, rfl⟩ := run_literal_eq_ok h
    exact .emit rfl
  | named name place =>
    obtain ⟨-, rfl⟩ := run_named_eq_ok h
    exact .emit rfl
  | plus place operand ih => exact ih h
  | minus place operand ih =>
    obtain ⟨w, r₁, hoperand, -, rfl⟩ := run_minus_eq_ok h
    exact (ih hoperand).shaped_trans (.emit rfl)
  | binary op place left right ihl ihr =>
    obtain ⟨a, b, r₁, r₂, hleft, hright, -, rfl⟩ := run_binary_eq_ok h
    have hoperation : Emits r₂.listing (r₂.listing.emit (.binary (.arithmetic op) (.value a)
        (.value b))) (Shaped [.binary (.arithmetic op) .blank .blank]) := .emit rfl
    exact ((ihl hleft).shaped_trans (ihr hright)).shaped_trans (hoperation.shaped_trans (.emit rfl))
  | parens place inner ih => exact ih h

/-- What an expression comes to is its value. -/
theorem value?_of_run {e : Expression} {v : Value} (h : e.run.run r = .ok v r') :
    e.value? r.store = some v := by
  induction e generalizing r r' v with
  | literal w place =>
    obtain ⟨rfl, -⟩ := run_literal_eq_ok h
    rfl
  | named name place => exact (run_named_eq_ok h).1
  | plus place operand ih => exact ih h
  | minus place operand ih =>
    obtain ⟨w, r₁, hoperand, hv, -⟩ := run_minus_eq_ok h
    rw [value?, ih hoperand, Option.bind_eq_bind, Option.bind_some, hv]
    rfl
  | binary op place left right ihl ihr =>
    obtain ⟨a, b, r₁, r₂, hleft, hright, hv, -⟩ := run_binary_eq_ok h
    have hright' := ihr hright
    rw [store_run hleft] at hright'
    rw [value?, ihl hleft, hright']
    simp only [Option.bind_eq_bind, Option.bind_some, hv]
    rfl
  | parens place inner ih => exact ih h

end Expression

namespace Condition

/-- The code of a condition without values: the jump stands between the two sides. -/
def shape (c : Condition) (address : Nat) : List Instruction :=
  c.left.shape ++ jumpTo c.comparison address :: c.right.shape

/-- Whether a condition holds, if its sides have values. -/
def holds? (c : Condition) (s : Store) : Option Bool := do
  let v ← c.left.value? s
  let w ← c.right.value? s
  return c.comparison.holds (v.compare w)

theorem shaped_run {c : Condition} {address : Nat} {done : Bool}
    (h : (c.run address).run r = .ok done r') :
    Emits r.listing r'.listing (Shaped (c.shape address)) := by
  obtain ⟨a, b, r₁, hleft, hright, -⟩ := run_eq_ok h
  have hjump : Emits r₁.listing (r₁.listing.jump (.jump c.comparison) address)
      (Shaped [jumpTo c.comparison address]) := .emit rfl
  exact (Expression.shaped_run hleft).shaped_trans
    (hjump.shaped_trans (Expression.shaped_run hright))

theorem holds?_of_run {c : Condition} {address : Nat} {done : Bool}
    (h : (c.run address).run r = .ok done r') : c.holds? r.store = some done := by
  obtain ⟨a, b, r₁, hleft, hright, rfl⟩ := run_eq_ok h
  have hright' := Expression.value?_of_run hright
  rw [Expression.store_run hleft] at hright'
  rw [holds?, Expression.value?_of_run hleft, hright']
  rfl

/-- Where a condition stands behind straight code, its jump is the only one. -/
theorem filter_isJump_of_shaped {c : Condition} {address : Nat} {block code : List Instruction}
    (h : Shaped (block ++ c.shape address) code) (hblock : Straight block) :
    code.filter isJump = [jumpTo c.comparison address] := by
  rw [← filter_isJump_erase, h, shape, List.filter_append, List.filter_append,
    List.filter_cons_of_pos rfl, hblock.filter_isJump, c.left.straight_shape.filter_isJump,
    c.right.straight_shape.filter_isJump]
  rfl

theorem mark_notMem_of_shaped {c : Condition} {address : Nat} {block code : List Instruction}
    (h : Shaped (block ++ c.shape address) code) (hblock : Straight block) (m : Nat) :
    mark m ∉ code := by
  intro hmem
  have hmark : mark m ∈ block ++
      (c.left.shape ++ jumpTo c.comparison address :: c.right.shape) := by
    rw [← shape, ← h]
    exact List.mem_map.2 ⟨mark m, hmem, rfl⟩
  rw [List.mem_append, List.mem_append, List.mem_cons] at hmark
  rcases hmark with hmem | hmem | hjump | hmem
  · exact hblock.mark_notMem m hmem
  · exact c.left.straight_shape.mark_notMem m hmem
  · cases hjump
  · exact c.right.straight_shape.mark_notMem m hmem

end Condition

namespace Statement

/-- The code of a statement without loops, without values. -/
inductive Shape : Statement → List Instruction → Prop
  | nothing : Shape .nothing []
  | assign (name : String) (place : Span) (value : Expression) :
    Shape (.assign name place value)
      (value.shape ++ [.binary .move (.variable name) .blank])
  | compound {body : Statement} {block : List Instruction} (h : Shape body block) :
    Shape (.compound body) block
  | sequence {first rest : Statement} {block block' : List Instruction} (h : Shape first block)
    (h' : Shape rest block') : Shape (.sequence first rest) (block ++ block')

/-- A text without `REPEAT` is that of a statement with a shape. -/
theorem Derives.exists_shape {s : Statement} {k : Phrase} {ts : List Lexeme} (h : s.Derives k ts)
    (hts : ∀ l ∈ ts, l.token ≠ .keyword .loopRepeat) : ∃ block, s.Shape block := by
  induction h with
  | nothing => exact ⟨_, .nothing⟩
  | assign hl ha value => exact ⟨_, .assign _ _ _⟩
  | compound body ih =>
    obtain ⟨block, hblock⟩ := ih hts
    exact ⟨block, .compound hblock⟩
  | loop hl body hu condition ih => exact absurd hl (hts _ List.mem_cons_self)
  | single h ih => exact ih hts
  | sequence first h rest ihf ihr =>
    obtain ⟨block, hblock⟩ := ihf fun l hl ↦ hts l (List.mem_append_left _ hl)
    obtain ⟨block', hblock'⟩ := ihr fun l hl ↦
      hts l (List.mem_append_right _ (List.mem_cons_of_mem _ hl))
    exact ⟨block ++ block', .sequence hblock hblock'⟩
  | block hl body hr ih =>
    exact ih fun l hl ↦ hts l (List.mem_cons_of_mem _ (List.mem_append_left _ hl))

theorem Shape.straight {s : Statement} {block : List Instruction} (h : s.Shape block) :
    Straight block := by
  induction h with
  | nothing => exact List.forall_mem_nil _
  | assign name place value =>
    exact List.forall_mem_append.2 ⟨value.straight_shape, List.forall_mem_singleton.2 ⟨rfl, rfl⟩⟩
  | compound _ ih => exact ih
  | sequence _ _ ih ih' => exact List.forall_mem_append.2 ⟨ih, ih'⟩

/-- What a statement with a shape emits has the shape, whatever the variables. -/
theorem Shape.shaped_run {s : Statement} {block : List Instruction} (h : s.Shape block)
    {address : Nat → Nat} {n : Nat} {r r' : Progress}
    (hrun : (s.run address n).run r = .ok () r') :
    Emits r.listing r'.listing (Shaped block) := by
  induction h generalizing r r' with
  | nothing =>
    cases hrun
    exact .refl rfl
  | assign name place value =>
    obtain ⟨v, r₁, store, hvalue, -, rfl⟩ := run_assign_eq_ok hrun
    exact (Expression.shaped_run hvalue).shaped_trans (.emit rfl)
  | compound _ ih => exact ih hrun
  | sequence _ _ ih ih' =>
    obtain ⟨r₁, hfirst, hrest⟩ := run_sequence_eq_ok hrun
    exact (ih hfirst).shaped_trans (ih' hrest)

end Statement

end Grammar

/-! ## Passes -/

/-- A pass of a loop: what it emits, the variables at its end, and whether the loop is done. -/
structure Pass where
  code : List Instruction
  store : Store
  done : Bool

namespace Execution

variable {source : List Placed} {s s' : State} {address : Nat} {passes : List Pass}

/-- The passes of the loop at an address, from one state to another. -/
inductive RunsPasses (address : Nat) : State → List Pass → State → Prop
  | last {n : Nat} {s s' : State} {code : List Instruction}
    (h : (pass n address).run s = .ok true s')
    (hcode : s'.listing.toList = s.listing.toList ++ code) :
    RunsPasses address s [⟨code, s'.store, true⟩] s'
  | again {n : Nat} {s s₁ s₂ s' : State} {code : List Instruction} {passes : List Pass}
    (h : (pass n address).run s = .ok false s₁)
    (hcode : s₁.listing.toList = s.listing.toList ++ code)
    (hback : (rewind address).run s₁ = .ok () s₂) (rest : RunsPasses address s₂ passes s') :
    RunsPasses address s (⟨code, s₁.store, false⟩ :: passes) s'

theorem listing_of_rewind (h : (rewind address).run s = .ok () s') : s'.listing = s.listing := by
  obtain ⟨_, s₁, hseek, hstep⟩ := run_bind_eq_ok_iff.1 h
  cases hseek
  obtain ⟨l, -, rfl⟩ := run_step_eq_ok_iff.1 hstep
  rfl

theorem RunsPasses.toList_listing (h : RunsPasses address s passes s') :
    s'.listing.toList = s.listing.toList ++ passes.flatMap Pass.code := by
  induction h with
  | last h hcode => rw [hcode, List.flatMap_singleton]
  | again h hcode hback rest ih =>
    rw [ih, listing_of_rewind hback, hcode, List.flatMap_cons, List.append_assoc]

/-- All passes but the last leave the loop undone. -/
theorem RunsPasses.map_done (h : RunsPasses address s passes s') :
    ∃ k, passes.length = k + 1 ∧ passes.map Pass.done = List.replicate k false ++ [true] := by
  induction h with
  | last h hcode => exact ⟨0, rfl, rfl⟩
  | again h hcode hback rest ih =>
    obtain ⟨k, hlength, hdone⟩ := ih
    refine ⟨k + 1, ?_, ?_⟩
    · rw [List.length_cons, hlength]
    · rw [List.map_cons, hdone, List.replicate_succ, List.cons_append]

end Execution

/-- The code of a pass is a block but for its values, and by the condition at its end the loop is
done or not. -/
def Pass.Fits (block : List Instruction) (c : Condition) (b : Pass) : Prop :=
  Shaped block b.code ∧ c.holds? b.store = some b.done

/-- Passes that fit a block all have its length. -/
theorem Pass.length_flatMap_code {block : List Instruction} {c : Condition} {passes : List Pass}
    (h : ∀ b ∈ passes, b.Fits block c) :
    (passes.flatMap Pass.code).length = passes.length * block.length := by
  have hlength : ∀ b ∈ passes, b.code.length = block.length := by
    intro b hb
    rw [← (h b hb).1, List.length_map]
  rw [List.length_flatMap, List.map_congr_left hlength, List.map_const', List.sum_replicate_nat]

namespace Execution

variable {source : List Placed} {s s' : State} {p q : Position} {address : Nat} {body : Statement}
  {c : Condition} {block : List Instruction}

/-- **One pass** of a loop whose body has a shape. -/
theorem fits_of_pass (hshape : body.Shape block)
    (hrefines : Refines source (fun n ↦ pass n address) (fun n ↦ do
      body.run (charsBefore source) n
      c.run address) s q) {n : Nat} {done : Bool} (h : (pass n address).run s = .ok done s') :
    s'.At source q ∧ ∃ code, s'.listing.toList = s.listing.toList ++ code ∧
      Pass.Fits (block ++ c.shape address) c ⟨code, s'.store, done⟩ := by
  obtain ⟨hat, -, m, hm⟩ := hrefines.ok ⟨trivial, n, h⟩
  obtain ⟨_, r, hbody, hc⟩ := run_bind_eq_ok_iff.1 hm
  obtain ⟨code, hcode, hshaped⟩ := (hshape.shaped_run hbody).shaped_trans (Condition.shaped_run hc)
  have hstore : s'.store = r.store := Condition.store_run hc
  refine ⟨hat, code, hcode, hshaped, ?_⟩
  rw [hstore]
  exact Condition.holds?_of_run hc

/-- **All passes.** Each of them begins at the position of the loop. -/
theorem exists_passes (hsource : source.Pairwise fun p q ↦ p.offset < q.offset)
    (hend : p.current.token ≠ .endOfInput)
    (haddress : charsBefore source p.current.span.start = address) (hshape : body.Shape block)
    (hrefines : ∀ s : State, s.At source p → Refines source (fun n ↦ pass n address) (fun n ↦ do
      body.run (charsBefore source) n
      c.run address) s q) {n : Nat} (hs : s.At source p)
    (h : (passes n address).run s = .ok () s') :
    ∃ ps, RunsPasses address s ps s' ∧ ∀ b ∈ ps, b.Fits (block ++ c.shape address) c := by
  refine (repeats_passes address).induction (P := fun s s' ↦ s.At source p → ∃ ps,
    RunsPasses address s ps s' ∧ ∀ b ∈ ps, b.Fits (block ++ c.shape address) c)
    (fun n s s' hpass hs ↦ ?_) (fun n s s₁ s₂ s' hpass hback ih hs ↦ ?_) h hs
  · obtain ⟨-, code, hcode, hfits⟩ := fits_of_pass hshape (hrefines s hs) hpass
    refine ⟨_, .last hpass hcode, fun b hb ↦ ?_⟩
    rw [List.mem_singleton.1 hb]
    exact hfits
  · obtain ⟨hat, code, hcode, hfits⟩ := fits_of_pass hshape (hrefines s hs) hpass
    obtain ⟨s₂', hs₂', hat₂, -⟩ := hs.rewind hsource hend hat.1
    rw [haddress] at hs₂'
    cases hback.symm.trans hs₂'
    obtain ⟨ps, hps, hall⟩ := ih hat₂
    refine ⟨_, .again hpass hcode hback hps, fun b hb ↦ ?_⟩
    rcases List.mem_cons.1 hb with rfl | hb
    · exact hfits
    · exact hall b hb

/-- A `REPEAT` that is executed to its end: its address is noted, and its passes follow. Each of
them is one of the loop that the parser reads there. -/
theorem exists_loop_of_statement (hsource : source.Pairwise fun p q ↦ p.offset < q.offset)
    (hat : s.At source p) (hrepeat : s.current.token = .keyword .loopRepeat) {n : Nat}
    (hrun : (statement n).run s = .ok () s') :
    ∃ address s₁ m q ts start body c, markLoop.run s = .ok address s₁ ∧
      (charsBefore source p.current.span.start = address ∧ s₁.At source p ∧
        s₁.listing = s.listing.markLoop address) ∧
      (passes m address).run s₁ = .ok () s' ∧ s'.At source q ∧ p.Leads ts q ∧
      (Statement.loop start body c).Derives .statement ts ∧
      ∀ s : State, s.At source p → Refines source (fun n ↦ pass n address) (fun n ↦ do
        body.run (charsBefore source) n
        c.run address) s q := by
  have hmark := run_markLoop hsource hat.1
  rw [hat.current_eq] at hmark
  cases n with
  | zero => cases hrun
  | succ n =>
    rw [statement, run_current_bind, hrepeat] at hrun
    obtain ⟨address, s₁, hmark', hpasses⟩ := run_bind_eq_ok_iff.1 hrun
    cases hmark'.symm.trans hmark
    have hat₁ : State.At source (s.withProgress ⟨s.store, s.listing.markLoop
        (charsBefore source p.current.span.start)⟩) p := hat.congr rfl rfl
    obtain ⟨t, q, ht, hat'⟩ := ((follows_statement hsource n).2.2.2.2 _ p hat₁).of_ok hpasses
    cases n with
    | zero => cases ht
    | succ n =>
      obtain ⟨body, c, rfl, hrefines⟩ :=
        refines_loop hsource ht (refines_statement hsource n).2.2.1
      obtain ⟨ts, hts, hderives, -⟩ :=
        ((Parser.recognizesAt_statement (n + 1)).2.2.2.2 p hat.closed).accepts ht
      exact ⟨_, _, n + 1, q, ts, _, body, c, hmark, ⟨rfl, hat₁, rfl⟩, hpasses, hat', hts, hderives,
        fun s hs ↦ (hrefines s hs).1⟩

end Execution

/-! ## Loops -/

open Execution in
/-- **Every pass of a loop emits the same code, up to its values.** Whenever compiling a text comes
to a `REPEAT` and the statement is executed to its end, the tokens that it is read from are those of
a loop. If there is no other `REPEAT` among them, then what it emits is the note of its address and
a block for each pass. All blocks are one but for the values, with one jump in them. The condition
fails at the end of each pass but the last, where it holds. -/
theorem blocks_of_loop {fuel n : Nat} {source : String} {s s' : State}
    (h : Activation.Runs fuel source ⟨.statement, n, s⟩)
    (hrepeat : s.current.token = .keyword .loopRepeat) (hrun : (statement n).run s = .ok () s') :
    ∃ ts rest start body c, s.current :: s.scanner.lexemes = ts ++ s'.current :: rest ∧
      (Statement.loop start body c).Derives .statement ts ∧
      ((∀ l ∈ ts.tail, l.token ≠ .keyword .loopRepeat) →
        ∃ address s₁ ps block k,
          markLoop.run s = .ok address s₁ ∧ RunsPasses address s₁ ps s' ∧
          s'.listing.toList =
            s.listing.toList ++ mark address :: ps.flatMap Pass.code ∧
          s'.listing.size = s.listing.size + (1 + ps.length * block.length) ∧
          (∀ b ∈ ps, b.code.map erase = block ∧
            b.code.filter isJump = [jumpTo c.comparison address] ∧
            (∀ m, mark m ∉ b.code) ∧ c.holds? b.store = some b.done) ∧
          ps.length = k + 1 ∧ ps.map Pass.done = List.replicate k false ++ [true]) := by
  have hsource := Placed.pairwise_ofString source
  obtain ⟨-, p, hat, -⟩ := h.begins
  obtain ⟨address, s₁, m, q, ts, start, body, c, hmark, ⟨haddress, hat₁, hlisting⟩, hpasses, hat',
    hts, hderives, hrefines⟩ := exists_loop_of_statement hsource hat hrepeat hrun
  have hcurrent : s.current = p.current := hat.current_eq
  have hend : s.current.token ≠ .endOfInput := by
    rw [hrepeat]
    exact nofun
  refine ⟨ts, q.upcoming, start, body, c, ?_, hderives, fun hflat ↦ ?_⟩
  · have hupcoming : s.scanner.lexemes = p.upcoming := (hat.of_token hend).1
    rw [hat'.current_eq, hcurrent, hupcoming]
    exact hts.1
  · cases hderives with
    | loop hl hbody hu hc =>
      obtain ⟨block, hblock⟩ := hbody.exists_shape fun l hl ↦ hflat l (List.mem_append_left _ hl)
      rw [hcurrent] at hend
      obtain ⟨ps, hps, hfits⟩ := exists_passes hsource hend haddress hblock hrefines hat₁ hpasses
      obtain ⟨k, hlength, hdone⟩ := hps.map_done
      have hcode : s'.listing.toList =
          s.listing.toList ++ mark address :: ps.flatMap Pass.code := by
        have hnoted : s₁.listing.toList = s.listing.toList ++ [mark address] := by
          rw [hlisting]
          exact Listing.toList_emit _ _
        rw [hps.toList_listing, hnoted, List.append_assoc, List.singleton_append]
      refine ⟨address, s₁, ps, block ++ c.shape address, k, hmark, hps, hcode, ?_, fun b hb ↦ ?_,
        hlength, hdone⟩
      · rw [← Listing.length_toList, hcode, List.length_append, List.length_cons,
          Pass.length_flatMap_code hfits, Listing.length_toList, Nat.add_comm 1]
      · obtain ⟨hshaped, hholds⟩ := hfits b hb
        refine ⟨hshaped, ?_, ?_, hholds⟩
        · exact Condition.filter_isJump_of_shaped hshaped hblock.straight
        · exact Condition.mark_notMem_of_shaped hshaped hblock.straight

namespace Execution

/-- A statement, with the state in which it begins. -/
def statementFrom (n : Nat) : Execution State := do
  let s ← get
  statement n
  return s

/-- Whether what was executed is a loop without a `REPEAT` behind its own, with a given number of
jumps. -/
def isFlatLoop (jumps : Nat) (s s' : State) : Bool :=
  s.current.token.same (.keyword .loopRepeat) &&
    s.scanner.lexemes.all (fun l ↦ !l.token.same (.keyword .loopRepeat)) &&
    s'.listing.toList.countP isJump == s.listing.toList.countP isJump + jumps

theorem of_isFlatLoop {jumps : Nat} {s s' : State} (h : isFlatLoop jumps s s' = true) :
    s.current.token = .keyword .loopRepeat ∧
      (∀ l ∈ s.scanner.lexemes, l.token ≠ .keyword .loopRepeat) ∧
      s'.listing.toList.countP isJump = s.listing.toList.countP isJump + jumps := by
  rw [isFlatLoop, Bool.and_eq_true, Bool.and_eq_true, List.all_eq_true, beq_iff_eq,
    Token.same_keyword_iff] at h
  obtain ⟨⟨hrepeat, hflat⟩, hjumps⟩ := h
  refine ⟨hrepeat, fun l hl heq ↦ ?_, hjumps⟩
  have hl' := hflat l hl
  rw [heq] at hl'
  cases hl'

end Execution

open Execution in
theorem blocks_of_countdown : ∃ n s s',
    Activation.Runs (n + 3)
      "PROGRAM p; VAR n : INTEGER; BEGIN n := 2; REPEAT n := n - 1 UNTIL n = 0 END."
      ⟨.statement, n, s⟩ ∧
    s.current.token = .keyword .loopRepeat ∧ (statement n).run s = .ok () s' ∧
    ∃ address block, ∃ ps : List Pass, ps.length = 2 ∧
      s'.listing.toList = s.listing.toList ++ mark address :: ps.flatMap Pass.code ∧
      (∀ b ∈ ps, b.code.map erase = block) ∧ ps.map Pass.done = [false, true] := by
  have hloops : (untilSecondStatement 15 >>= fun _ ↦ statementFrom 15).succeeds
      "PROGRAM p; VAR n : INTEGER; BEGIN n := 2; REPEAT n := n - 1 UNTIL n = 0 END."
      (isFlatLoop 2) := by
    decide +kernel
  obtain ⟨s₀, s, s', hstart, hrun, hflat⟩ := exists_of_succeeds hloops
  obtain ⟨_, s₁, hs₁, hrun⟩ := run_bind_eq_ok_iff.1 hrun
  rw [statementFrom, run_get_bind] at hrun
  obtain ⟨_, s₂, hs', hpure⟩ := run_bind_eq_ok_iff.1 hrun
  cases hpure
  have hruns := runs_of_untilSecondStatement hstart hs₁
  obtain ⟨hrepeat, hflat, hjumps⟩ := of_isFlatLoop hflat
  obtain ⟨ts, rest, start, body, c, hts, -, h⟩ := blocks_of_loop hruns hrepeat hs'
  have hinner : ∀ l ∈ ts.tail, l.token ≠ .keyword .loopRepeat := by
    intro l hl
    cases ts with
    | nil => cases hl
    | cons t ts =>
      rw [List.cons_append, List.cons.injEq] at hts
      refine hflat l ?_
      rw [hts.2]
      exact List.mem_append_left _ hl
  obtain ⟨address, s₁, ps, block, k, -, -, hcode, -, hblocks, hlength, hdone⟩ := h hinner
  have hcount : ps.length = 2 := by
    have hones : ∀ b ∈ ps, (List.countP isJump ∘ Pass.code) b = 1 := by
      intro b hb
      rw [Function.comp_apply, List.countP_eq_length_filter, (hblocks b hb).2.1]
      rfl
    rw [hcode, List.countP_append, List.countP_cons_of_neg Bool.false_ne_true,
      List.countP_flatMap, List.map_congr_left hones, List.map_const', List.sum_replicate_nat,
      Nat.mul_one] at hjumps
    exact Nat.add_left_cancel hjumps
  obtain rfl : k = 1 := by omega
  exact ⟨15, s, s', hruns, hrepeat, hs', address, block, ps, hcount, hcode,
    fun b hb ↦ (hblocks b hb).1, hdone⟩

end MiniPascal
