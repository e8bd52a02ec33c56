import Mathlib.Data.List.Pairwise
import MiniPascal.Proofs.FinalPoint
import MiniPascal.Proofs.Machine
import MiniPascal.Proofs.Typing

/-!
# Which warnings a program has

The warnings of a program are read off its text and its listing. A variable is unused if no
instruction of the listing stores a value in it; and behind the final point there is a token, an
open comment, or nothing to warn about (`Trailing`). The warnings come in the order of the text:
variables are declared one after the other, and all of them in front of the point.

That a variable has a value says that it was assigned, since the memory of the machine changes with
its `MOV` instructions only. A variable that is read has a value, since no statement is skipped and
no value is ever lost.
-/

namespace MiniPascal

open Grammar Placed

/-! ## Variables that are assigned -/

/-- The instruction stores a value in a variable. -/
def Instruction.assigns (name : String) : Instruction → Bool
  | .binary .move (.variable name') (.value _) => name' == name
  | _ => false

/-- Some instruction stores a value in the variable. -/
def Listing.assigns (l : Listing) (name : String) : Bool := l.toList.any (Instruction.assigns name)

namespace Machine

variable {m m' : Machine}

/-- One instruction gives a value to the variable it is about and to no other. -/
theorem isSome_memory_exec {i : Instruction} (h : m.exec i = some m') (name : String) :
    (m'.memory name).isSome = ((m.memory name).isSome || i.assigns name) := by
  revert h
  fun_cases exec m i with
  | case2 name' =>
    intro h
    obtain ⟨v, -, rfl⟩ := Option.map_eq_some_iff.1 h
    simp [Instruction.assigns]
  | case10 name' v top rest hstack hsame =>
    rintro ⟨⟩
    by_cases hname : name = name'
    · simp [assign, Instruction.assigns, hname]
    · simp [assign, Instruction.assigns, hname, Ne.symm hname]
  -- no other instruction touches the memory
  | _ => rintro ⟨⟩ <;> simp [Instruction.assigns]

theorem isSome_memory_run {code : List Instruction} (h : m.run code = some m') (name : String) :
    (m'.memory name).isSome = ((m.memory name).isSome || code.any (Instruction.assigns name)) := by
  induction code generalizing m with
  | nil =>
    cases h
    simp
  | cons i code ih =>
    rw [run, List.foldlM_cons] at h
    obtain ⟨m₁, hi, hcode⟩ := Option.bind_eq_some_iff.1 h
    rw [ih hcode, isSome_memory_exec hi, List.any_cons, Bool.or_assoc]

end Machine

/-- **A variable has a value if it is assigned in the listing.** -/
theorem Grammar.Program.isSome_value? {address : Nat → Nat} {t : Program} {n : Nat} {r : Progress}
    (h : (t.run address n).run .empty = .ok () r) (name : String) :
    (r.store.value? name).isSome = r.listing.assigns name := by
  obtain ⟨_, r₁, hdeclare, hbody⟩ := run_bind_eq_ok_iff.1 h
  obtain ⟨stack, jumps, ⟨code, hcode, -, hrun⟩, -⟩ :=
    (balanced_declareAll hdeclare).trans (Statement.balanced_run hbody) []
  have hlisting : r.listing.toList = code := hcode
  have hmemory := Machine.isSome_memory_run hrun name
  rw [Listing.assigns, hlisting]
  exact hmemory

/-! ## Variables that are read -/

namespace Grammar

/-- The names that an expression reads. -/
def Expression.reads : Expression → List String
  | .literal _ _ => []
  | .named name _ => [name]
  | .plus _ operand => operand.reads
  | .minus _ operand => operand.reads
  | .binary _ _ left right => left.reads ++ right.reads
  | .parens _ inner => inner.reads

/-- The names that a statement reads. -/
def Statement.reads : Statement → List String
  | .nothing => []
  | .assign _ _ value => value.reads
  | .compound body => body.reads
  | .loop _ body c => body.reads ++ (c.left.reads ++ c.right.reads)
  | .sequence first rest => first.reads ++ rest.reads

variable {s : Store} {name : String}

/-- The variables of an expression with a type have values. -/
theorem Expression.HasType.isSome_value? {x : Expression} {type : DataType}
    (h : x.HasType s type) (hname : name ∈ x.reads) : (s.value? name).isSome := by
  induction h with
  | literal => cases hname
  | named hv =>
    obtain rfl := List.mem_singleton.1 hname
    simp [hv]
  | plus _ ih => exact ih hname
  | minus _ ih => exact ih hname
  | binary _ _ ihl ihr => exact (List.mem_append.1 hname).elim ihl ihr
  | parens _ ih => exact ih hname

theorem Statement.Checked.isSome_value? {x : Statement} (h : x.Checked s)
    (hname : name ∈ x.reads) : (s.value? name).isSome := by
  induction x with
  | nothing => cases hname
  | assign target place value =>
    obtain ⟨type, hvalue, -⟩ := h
    exact hvalue.isSome_value? hname
  | compound body ih => exact ih h hname
  | loop start body c ih =>
    obtain ⟨hbody, a, b, hleft, hright⟩ := h
    rcases List.mem_append.1 hname with hname | hname
    · exact ih hbody hname
    rcases List.mem_append.1 hname with hname | hname
    · exact hleft.isSome_value? hname
    · exact hright.isSome_value? hname
  | sequence first rest ihf ihr =>
    rcases List.mem_append.1 hname with hname | hname
    · exact ihf h.1 hname
    · exact ihr h.2 hname

/-- **A variable that is read is assigned**, somewhere in the listing of the program. -/
theorem Program.assigns_of_reads {address : Nat → Nat} {t : Program} {n : Nat} {r : Progress}
    (h : (t.run address n).run .empty = .ok () r) (hname : name ∈ t.body.reads) :
    r.listing.assigns name = true := by
  obtain ⟨_, r₁, hdeclare, hbody⟩ := run_bind_eq_ok_iff.1 h
  have hwf := (declareAll_run hdeclare).2 Store.wellFormed_empty
  rw [← Program.isSome_value? h]
  exact (Statement.checked_of_run hbody hwf).isSome_value? hname

end Grammar

/-! ## Unused variables -/

/-- The warnings about the variables that no instruction assigns, in the order of declaration. -/
def Grammar.Program.unused (t : Program) (l : Listing) : List Warning :=
  (t.variables.filter fun x ↦ !l.assigns x.1).map fun x ↦ .unusedVariable x.2.2 x.1

theorem assigns_of_mem_unused {t : Program} {l : Listing} {place : Span} {name : String}
    (h : .unusedVariable place name ∈ t.unused l) : l.assigns name = false := by
  obtain ⟨x, hx, hname⟩ := List.mem_map.1 h
  cases hname
  simpa using (List.mem_filter.1 hx).2

theorem Store.value?_of_mem {s : Store} (h : s.WellFormed) {x : Variable} (hx : x ∈ s.declared) :
    s.value? x.name = x.value := by
  rw [value?, (find?_eq_some_iff h).2 ⟨hx, rfl⟩]
  rfl

/-- The variables without a value are those that no instruction assigns. -/
theorem unassigned_eq_unused {address : Nat → Nat} {t : Program} {n : Nat} {r : Progress}
    (h : (t.run address n).run .empty = .ok () r) :
    (r.store.unassigned.map fun x ↦ Warning.unusedVariable x.2 x.1) = t.unused r.listing := by
  obtain ⟨hsignature, hwf⟩ := Program.run_store h
  have hvalue (x : Variable) (hx : x ∈ r.store.declared) :
      (!r.listing.assigns x.name) = x.value.isNone := by
    rw [← Store.value?_of_mem hwf hx, ← Program.isSome_value? h, Option.not_isSome]
  rw [Store.unassigned, List.map_filterMap, Program.unused, ← hsignature, Store.signature,
    List.filter_map, List.map_map, ← List.filterMap_eq_map, List.filterMap_filter]
  refine List.filterMap_congr fun x hx ↦ ?_
  simp only [Function.comp_def, hvalue x hx]
  by_cases hnone : x.value.isNone
  · simp [hnone]
  · simp [hnone]

/-! ## Behind the point -/

/-- What there is to warn about behind the point, given the token that follows it: the text from
that token on; if there is none, a comment that is not closed; or nothing. -/
inductive Trailing (source : String) (point next : Lexeme) : List Warning → Prop
  | code (hnext : next.token ≠ .endOfInput) :
    Trailing source point next [.unreachableCode ⟨next.span.start, source.utf8ByteSize⟩]
  | openComment {before gap body : List Char} (hnext : next.token = .endOfInput)
    (hsource : source.toList = before ++ (gap ++ '{' :: body))
    (hpoint : point.span.stop = byteLength before) (hgap : IsLayout gap) (hbody : '}' ∉ body) :
    Trailing source point next
      [.unterminatedComment ⟨byteLength (before ++ gap), source.utf8ByteSize⟩]
  | nothing {before gap : List Char} (hnext : next.token = .endOfInput)
    (hsource : source.toList = before ++ gap) (hpoint : point.span.stop = byteLength before)
    (hgap : IsLayout gap) : Trailing source point next []

namespace Trailing

variable {source : String} {point next : Lexeme} {ws : List Warning}

/-- What the point is followed by starts behind it. -/
theorem le_start (h : Trailing source point next ws) (hnext : point.span.stop ≤ next.span.start) :
    ∀ w ∈ ws, point.span.stop ≤ w.span.start := by
  intro w hw
  cases h with
  | code => rwa [List.mem_singleton.1 hw]
  | openComment _ _ hpoint =>
    rw [List.mem_singleton.1 hw, hpoint, Warning.span, byteLength_append]
    exact Nat.le_add_right ..
  | nothing => cases hw

theorem length_le (h : Trailing source point next ws) : ws.length ≤ 1 := by
  cases h with
  | code => exact Nat.le_refl 1
  | openComment => exact Nat.le_refl 1
  | nothing => exact Nat.zero_le 1

theorem pairwise (h : Trailing source point next ws) (R : Warning → Warning → Prop) :
    ws.Pairwise R := by
  cases h with
  | code => exact List.pairwise_singleton ..
  | openComment => exact List.pairwise_singleton ..
  | nothing => exact .nil

theorem unusedVariable_notMem (h : Trailing source point next ws) {place : Span} {name : String} :
    .unusedVariable place name ∉ ws := by
  intro hname
  cases h with
  | code => cases List.mem_singleton.1 hname
  | openComment => cases List.mem_singleton.1 hname
  | nothing => cases hname

end Trailing

namespace Execution

variable {s s' : State}

theorem unreachableCode_of_end (h : s.current.token = .endOfInput) : unreachableCode s = [] := by
  rw [unreachableCode, h]

theorem unreachableCode_of_token (h : s.current.token ≠ .endOfInput) :
    unreachableCode s = [.unreachableCode ⟨s.current.span.start, s.scanner.endOffset⟩] := by
  rw [unreachableCode]
  split
  · next hend => exact absurd hend h
  · rfl

theorem unterminatedComment_of_none (h : s.scanner.openComment = none) :
    unterminatedComment s = [] := by
  rw [unterminatedComment, h]

theorem unterminatedComment_of_some {place : Span} (h : s.scanner.openComment = some place) :
    unterminatedComment s = [.unterminatedComment place] := by
  rw [unterminatedComment, h]

/-- **The step from the point** finds what is behind it. -/
theorem trailing_of_step {source : String} {i : Nat} (h : s.AtToken (.ofString source) i)
    (hend : s.current.token ≠ .endOfInput) (hopen : s.scanner.openComment = none)
    (hs : step.run s = .ok () s') :
    Trailing source s.current s'.current (unreachableCode s' ++ unterminatedComment s') := by
  obtain ⟨before, after, htext, hrest, hstop⟩ := exists_text_behind h hend
  obtain ⟨p, ⟨hscanner, -⟩, -⟩ := h
  have hsize : Placed.endOffset s.scanner.source = source.utf8ByteSize := by
    rw [hscanner, ← byteLength_toList]
    exact endOffset_layOut source.toList
  obtain ⟨l, hnext, rfl⟩ := run_step_eq_ok_iff.1 hs
  by_cases hl : l.token = .endOfInput
  · rw [unreachableCode_of_end hl, List.nil_append]
    obtain ⟨gap, more, rfl, hgap, hmore⟩ := exists_layout after
    rcases hmore with rfl | ⟨body, rfl, hbody⟩ | ⟨c, cs, rfl, hc⟩
    · rw [List.append_nil] at hrest htext
      have hscan := scan_ending hgap s.scanner.source (byteLength before)
      rw [← hrest] at hscan
      obtain ⟨-, -, hnone⟩ := Scanner.next_of_scan hscan
      rw [unterminatedComment_of_none (hnone.trans hopen)]
      exact .nothing hl htext hstop hgap
    · have hscan := scan_openComment hgap s.scanner.source (byteLength before) hbody
      rw [← hrest] at hscan
      obtain ⟨-, hsome⟩ := Scanner.next_of_scan_openComment hscan
      rw [unterminatedComment_of_some hsome, Scanner.endOffset, hsize, ← byteLength_append]
      exact .openComment hl htext hstop hgap hbody
    -- a character that starts no layout is not the end
    · have hskip := skipLayout_of_end hnext hl
      rw [hrest, hgap.skipLayout_append, skipLayout_of_not_startsLayout _ _ hc] at hskip
      cases hskip
  · rw [unreachableCode_of_token hl,
      unterminatedComment_of_none ((Scanner.openComment_next hnext hl).trans hopen)]
    change Trailing source s.current l
      [.unreachableCode ⟨l.span.start, Placed.endOffset s.scanner.source⟩]
    rw [hsize]
    exact .code hl

end Execution

/-! ## The order of the warnings -/

/-- Warnings that start one after the other are found in this order, wherever the last of them were
noted. -/
theorem mergeSort_append {vs ws : List Warning}
    (h : (vs ++ ws).Pairwise fun v w ↦ v.span.start < w.span.start) :
    (ws ++ vs).mergeSort (fun v w ↦ decide (v.span.start ≤ w.span.start)) = vs ++ ws := by
  have hsorted : ((ws ++ vs).mergeSort fun v w ↦ decide (v.span.start ≤ w.span.start)).Pairwise
      fun v w ↦ decide (v.span.start ≤ w.span.start) = true := by
    apply List.pairwise_mergeSort
    · intro u v w huv hvw
      simp only [decide_eq_true_eq] at huv hvw ⊢
      omega
    · intro v w
      simp only [Bool.or_eq_true, decide_eq_true_eq]
      omega
  refine List.Perm.eq_of_pairwise ?_ hsorted (h.imp ?_)
    ((List.mergeSort_perm ..).trans List.perm_append_comm)
  · intro v w hv hw hvw hwv
    -- no two of them start at the same place
    have hstart : v.span.start = w.span.start := by
      simp only [decide_eq_true_eq] at hvw hwv
      omega
    have hv' : v ∈ vs ++ ws := List.perm_append_comm.mem_iff.1 (List.mem_mergeSort.1 hv)
    have : Std.Symm fun v w : Warning ↦ v.span.start ≠ w.span.start := ⟨fun _ _ ↦ Ne.symm⟩
    by_contra hne
    exact (h.imp Nat.ne_of_lt).forall hv' hw hne hstart
  · intro v w hvw
    simp only [decide_eq_true_eq]
    omega

section
variable {source : String} {t : Program} {point next : Lexeme}

/-- The variables of a program are declared in front of its point, one after the other. -/
theorem Grammar.Program.EndsAt.pairwise_variables (h : t.EndsAt source point next) :
    t.variables.Pairwise (fun x y ↦ x.2.2.start < y.2.2.start) ∧
      (∀ x ∈ t.variables, x.2.2.start < point.span.stop) ∧
      point.span.stop ≤ next.span.start := by
  obtain ⟨ts, rest, hlexemes, hderives, -⟩ := h
  have hnames := hderives.variables_sublist
  have htokens : (ts ++ [point]).Sublist (Scanner.ofString source).lexemes := by
    rw [hlexemes]
    exact (List.Sublist.refl ts).append (List.cons_sublist_cons.2 (List.nil_sublist _))
  have horder := Scanner.pairwise_lexemes source
  rw [hlexemes, List.pairwise_append, List.pairwise_cons] at horder
  obtain ⟨-, ⟨hpoint, -⟩, hfront⟩ := horder
  refine ⟨?_, ?_, hpoint next List.mem_cons_self⟩
  · have hpairwise := (Scanner.pairwise_named source).sublist
      (hnames.trans (htokens.filterMap Lexeme.named?))
    rw [List.pairwise_map] at hpairwise
    exact hpairwise
  · intro x hx
    obtain ⟨m, hm, hnamed⟩ := List.mem_filterMap.1 (hnames.subset (List.mem_map_of_mem hx))
    obtain rfl := Lexeme.named?_eq_some_iff.1 hnamed
    have hstart := Scanner.start_lt_stop (htokens.subset hm) (by simp)
    rcases List.mem_append.1 hm with hm | hm
    · have hstop := hfront _ hm point List.mem_cons_self
      have hpoint' : point ∈ ts ++ [point] := by simp
      obtain ⟨piece, hcut⟩ := Scanner.exists_cut_of_mem (htokens.subset hpoint')
      have hle := hcut.start_le_stop
      simp only at hstart hstop ⊢
      omega
    · rw [← List.mem_singleton.1 hm]
      exact hstart

/-- **The warnings of a program start one after the other.** -/
theorem pairwise_unused_append {trailing : List Warning} (h : t.EndsAt source point next)
    (htrailing : Trailing source point next trailing) (l : Listing) :
    (t.unused l ++ trailing).Pairwise fun v w ↦ v.span.start < w.span.start := by
  obtain ⟨hvariables, hbefore, hnext⟩ := h.pairwise_variables
  refine List.pairwise_append.2 ⟨?_, htrailing.pairwise _, ?_⟩
  · exact List.pairwise_map.2 (hvariables.filter _)
  · intro v hv w hw
    obtain ⟨x, hx, rfl⟩ := List.mem_map.1 hv
    have hstart := hbefore x (List.mem_filter.1 hx).1
    exact Nat.lt_of_lt_of_le hstart (htrailing.le_start hnext w hw)

end

/-! ## Programs -/

/-- The warnings of a program are those about the variables without a value, followed by what there
is to warn about behind the point. -/
theorem exists_trailing_of_compileText {fuel : Nat} {source : String} {c : Compiled}
    (h : compileText fuel source = .ok c) :
    ∃ (t : Program) (point next : Lexeme) (trailing : List Warning),
      t.EndsAt source point next ∧ t.RunsTo source ⟨c.store, c.listing⟩ ∧
      c.warnings = (c.store.unassigned.map fun x ↦ .unusedVariable x.2 x.1) ++ trailing ∧
      Trailing source point next trailing := by
  obtain ⟨t, ht, ⟨n, hn⟩, -⟩ := exists_tree_of_compileText h
  obtain ⟨name, s₀, s₁, s₂, hstart, huntil, hpoint, hstep, rfl⟩ := compileText_eq_ok_iff.1 h
  have hbefore := beforePoint_of_untilPoint hstart huntil
  have hends := endsAt_of_isReadFrom ht hbefore hpoint hstep
  have hopen := hbefore.openComment_eq hpoint
  obtain ⟨i, hi, -⟩ := hbefore
  have htrailing := Execution.trailing_of_step hi (by simp [hpoint]) hopen hstep
  have hordered := pairwise_unused_append hends htrailing s₂.listing
  rw [← unassigned_eq_unused hn] at hordered
  exact ⟨t, s₁.current, s₂.current, _, hends, ⟨n, hn⟩, mergeSort_append hordered, htrailing⟩

/-- **The warnings of a program.** They are one for each variable that no instruction of the listing
assigns, in the order and with the places of the declarations, and at most one more about the text
behind the final point. An execution notes the last one first (`Execution.warnings`), and sorting
its notes by their starts moves that one to the end (`mergeSort_append`); the sorted list, which is
the one that is meant here, starts one after the other. No variable that the program reads is among
them. -/
theorem warnings_of_compileText {fuel : Nat} {source : String} {c : Compiled}
    (h : compileText fuel source = .ok c) :
    ∃ (t : Program) (point next : Lexeme) (trailing : List Warning),
      t.EndsAt source point next ∧ c.store.signature = t.variables ∧
      c.warnings = t.unused c.listing ++ trailing ∧ Trailing source point next trailing ∧
      c.warnings.Pairwise (fun v w ↦ v.span.start < w.span.start) ∧
      ∀ name place, .unusedVariable place name ∈ c.warnings → name ∉ t.body.reads := by
  obtain ⟨t, point, next, trailing, hends, ⟨n, hn⟩, hwarnings, htrailing⟩ :=
    exists_trailing_of_compileText h
  rw [unassigned_eq_unused hn] at hwarnings
  refine ⟨t, point, next, trailing, hends, (Program.run_store hn).1, hwarnings, htrailing, ?_, ?_⟩
  · rw [hwarnings]
    exact pairwise_unused_append hends htrailing c.listing
  · intro name place hname hreads
    rw [hwarnings] at hname
    rcases List.mem_append.1 hname with hname | hname
    · have hnone := assigns_of_mem_unused hname
      rw [Program.assigns_of_reads hn hreads] at hnone
      cases hnone
    · exact htrailing.unusedVariable_notMem hname

/-- A variable that is never assigned, and a comment behind the point that is never closed. -/
theorem warnings_of_unused_and_open : ∃ c,
    compileText 20
      "PROGRAM p; VAR a, b : INTEGER; BEGIN b := 1; b := b + b END. \x7b open" = .ok c ∧
    ∃ (t : Program) (point next : Lexeme) (trailing : List Warning),
      t.EndsAt "PROGRAM p; VAR a, b : INTEGER; BEGIN b := 1; b := b + b END. \x7b open" point next ∧
      c.warnings = t.unused c.listing ++ trailing ∧
      c.warnings.Pairwise (fun v w ↦ v.span.start < w.span.start) := by
  have hok : (compileText 20
      "PROGRAM p; VAR a, b : INTEGER; BEGIN b := 1; b := b + b END. \x7b open").isOk := by
    decide +kernel
  obtain ⟨c, hc⟩ := exists_compiled_of_isOk hok
  obtain ⟨t, point, next, trailing, hends, -, hwarnings, -, hordered, -⟩ :=
    warnings_of_compileText hc
  exact ⟨c, hc, t, point, next, trailing, hends, hwarnings, hordered⟩

end MiniPascal
