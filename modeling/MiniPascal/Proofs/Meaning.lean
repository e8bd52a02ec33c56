import MiniPascal.Proofs.Refinement
import MiniPascal.Proofs.Variables

/-!
# The meaning of a text

A text is executed while it is read, and the passes of its loops are read again. What comes out is
nevertheless what the tree of the text means: the text compiles just when some of its tokens, up to
a final point with another token behind it, make a program, and the interpreter ends on the tree of
that program without a fault. The name, the variables and the instructions are then those of the
tree.

The two sides share neither the order of their work nor their use of fuel. A tree is read once and
whole before it is interpreted, so a fault of the interpreter in front of a fault of the text has no
counterpart here; both are failures, and the theorem is about success.
-/

namespace MiniPascal

open Grammar

variable {source : List Placed} {s : State} {p q : Position}

/-! ## Programs up to their final point -/

namespace Execution

/-- A program up to its first statement. -/
def heading (n : Nat) : Execution String := do
  let _ ← expect (.keyword .program)
  let (name, _) ← identifier
  let _ ← expect (.symbol .semicolon)
  declarations n
  return name

/-- A program up to its final point. -/
def outline (n : Nat) : Execution String := do
  let name ← heading n
  compound n
  let _ ← expect (.symbol .dot)
  return name

theorem program_eq_outline (n : Nat) : program n = (do
    let name ← outline n
    let s ← get
    return ⟨name, s.store, s.listing, warnings s⟩) := by
  simp only [program, outline, heading, bind_assoc, pure_bind]

/-- A program up to the end of its first statement. -/
def firstStatement (n : Nat) : Execution Unit := do
  let _ ← heading (n + 2)
  let _ ← expect (.keyword .blockBegin)
  statement n

/-- A program up to its second statement. -/
def untilSecondStatement (n : Nat) : Execution Unit := do
  firstStatement (n + 1)
  let _ ← expect (.symbol .semicolon)

theorem run_program_eq_ok_iff {n : Nat} {c : Compiled} {s' : State} :
    (program n).run s = .ok c s' ↔
      ∃ name, (outline n).run s = .ok name s' ∧
        c = ⟨name, s'.store, s'.listing, warnings s'⟩ := by
  rw [program_eq_outline, run_bind_eq_ok_iff]
  constructor
  · rintro ⟨name, s₁, hname, hrest⟩
    cases hrest
    exact ⟨name, hname, rfl⟩
  · rintro ⟨name, hname, rfl⟩
    exact ⟨name, s', hname, rfl⟩

/-- **Programs mean what is executed.** -/
theorem refines_outline (hsource : source.Pairwise fun p q ↦ p.offset < q.offset) {n : Nat}
    {t : Program} (h : s.At source p) (hp : (Parser.program n).run p = .ok t q) :
    Refines source outline (fun n ↦ do
      t.run (charsBefore source) n
      return t.name) s q := by
  obtain ⟨_, p₁, hkeyword, hp⟩ := run_bind_eq_ok_iff.1 hp
  obtain ⟨⟨name, place⟩, p₂, hname, hp⟩ := run_bind_eq_ok_iff.1 hp
  obtain ⟨_, p₃, hsemicolon, hp⟩ := run_bind_eq_ok_iff.1 hp
  obtain ⟨gs, p₄, hgroups, hp⟩ := run_bind_eq_ok_iff.1 hp
  obtain ⟨body, p₅, hbody, hp⟩ := run_bind_eq_ok_iff.1 hp
  obtain ⟨_, p₆, hdot, hpure⟩ := run_bind_eq_ok_iff.1 hp
  cases hpure
  obtain ⟨s₁, hs₁, h₁, hprogress₁, -⟩ := h.expect_of_ok hkeyword
  obtain ⟨s₂, hs₂, h₂, hprogress₂⟩ := h₁.identifier_of_ok hname
  obtain ⟨s₃, hs₃, h₃, hprogress₃, -⟩ := h₂.expect_of_ok hsemicolon
  have hclosing (s : State) (hs : s.At source p₅) :
      Refines source (fun _ ↦ expect (.symbol .dot) >>= fun _ ↦ pure name)
        (fun _ ↦ pure name) s q := by
    obtain ⟨s', hs', h', hprogress, -⟩ := hs.expect_of_ok hdot
    exact (Refines.pure h').after (fun _ ↦ run_bind_of_ok hs') hprogress
  have hrest := Refines.bind fueled_declarations (fun _ n ↦ (fueled_compound n).bind_left _)
    (fueled_const _) (fun _ n ↦ (body.fueled_run _ n).bind_left _)
    (.of_performs fueled_declarations (performs_declarations h₃ hgroups)) fun _ s₄ h₄ ↦
      .bind fueled_compound (fun _ ↦ fueled_const _) (body.fueled_run _) (fun _ ↦ fueled_const _)
        ((refines_statement hsource n).2.1 s₄ p₄ p₅ body h₄ hbody) fun _ s₅ h₅ ↦ hclosing s₅ h₅
  refine hrest.congr (fun m ↦ ?_) (fun m ↦ ?_)
  · simp only [outline, heading, bind_assoc, pure_bind]
    rw [run_bind_of_ok hs₁, run_bind_of_ok hs₂, run_bind_of_ok hs₃]
  · rw [hprogress₃, hprogress₂, hprogress₁, Program.run, bind_assoc]
    rfl

end Execution

/-! ## Texts -/

namespace Grammar.Program

/-- Tokens of the text, from its start and with another token behind them, make the program. -/
def IsReadFrom (t : Program) (source : String) : Prop :=
  ∃ ts next rest, (Scanner.ofString source).lexemes = ts ++ next :: rest ∧ t.Derives ts ∧
    t.body.SignsTakeAll

/-- The interpreter ends on the program without a fault; the address of a loop is the number of
characters before it. -/
def RunsTo (t : Program) (source : String) (r : Progress) : Prop :=
  ∃ n, (t.run (charsBefore (Placed.ofString source)) n).run .empty = .ok () r

end Grammar.Program

/-- A program that compiles has a tree, and the interpreter comes to the same with it. -/
theorem exists_tree_of_compileText {source : String} {fuel : Nat} {c : Compiled}
    (h : compileText fuel source = .ok c) :
    ∃ t : Program, t.IsReadFrom source ∧ t.RunsTo source ⟨c.store, c.listing⟩ ∧
      c.name = t.name := by
  rcases State.start_cases (.ofString source) with ⟨f, hf, -⟩ | ⟨s, p, hs, hat, hempty, hlexemes, -⟩
  · rw [compileText_of_error fuel hf] at h
    cases h
  · rw [compileText_of_start fuel hs, Execution.result_eq_ok_iff] at h
    obtain ⟨s', hprogram⟩ := h
    have hsource := Placed.pairwise_ofString source
    obtain ⟨t, q, ht, -⟩ := (Execution.follows_program hsource fuel hat).of_ok hprogram
    obtain ⟨ts, hts, hderives, hsigns⟩ := Parser.derives_of_program hat.closed ht
    obtain ⟨name, houtline, rfl⟩ := Execution.run_program_eq_ok_iff.1 hprogram
    obtain ⟨-, -, n, hn⟩ := (Execution.refines_outline hsource hat ht).ok ⟨trivial, fuel, houtline⟩
    obtain ⟨_, r, hrun, hname⟩ := run_bind_eq_ok_iff.1 hn
    cases hname
    rw [hempty] at hrun
    exact ⟨t, ⟨ts, q.current, q.upcoming, hlexemes.symm.trans hts.1, hderives, hsigns⟩,
      ⟨n, hrun⟩, rfl⟩

/-- A text with a tree compiles if the interpreter ends on the tree without a fault. -/
theorem exists_compileText_of_tree {source : String} {t : Program} {r : Progress}
    (ht : t.IsReadFrom source) (hr : t.RunsTo source r) :
    ∃ fuel warnings, compileText fuel source = .ok ⟨t.name, r.store, r.listing, warnings⟩ := by
  obtain ⟨ts, next, rest, hts, hderives, hsigns⟩ := ht
  obtain ⟨n, hn⟩ := hr
  rcases State.start_cases (.ofString source) with
    ⟨f, -, hnil, -⟩ | ⟨s, p, hs, hat, hempty, hlexemes, -⟩
  · rw [hts] at hnil
    cases List.append_eq_nil_iff.1 hnil |>.2
  · have hleads : p.Leads ts ⟨next, rest, p.ending⟩ := ⟨hlexemes.trans hts, rfl⟩
    obtain ⟨-, m, hm⟩ := Parser.yields_program hderives hsigns hleads
    have hsource := Placed.pairwise_ofString source
    -- the interpreter ends, hence so does the execution, which needs fuel of its own
    have hyields : Yields (fun n ↦ do
        t.run (charsBefore (Placed.ofString source)) n
        return t.name) s.progress (.ok t.name r) := by
      rw [hempty]
      exact ⟨trivial, n, run_bind_of_ok hn⟩
    obtain ⟨s', ⟨-, fuel, houtline⟩, rfl⟩ := (Execution.refines_outline hsource hat hm).ok_of_yields
      (fun n ↦ (t.fueled_run _ n).bind_left _) hyields
    refine ⟨fuel, Execution.warnings s', ?_⟩
    rw [compileText_of_start fuel hs, Execution.result_eq_ok_iff]
    exact ⟨s', Execution.run_program_eq_ok_iff.2 ⟨_, houtline, rfl⟩⟩

/-- **A text compiles to what its tree means.** It compiles just when its first tokens, up to a
token that can be read, make a program and the interpreter ends on that program without a fault. The
name and the variables, with types, places and order, are then those of the program, and the values
and the instructions are those that the interpreter comes to. -/
theorem compileText_succeeds_iff (source name : String) (store : Store) (listing : Listing) :
    (∃ fuel warnings, compileText fuel source = .ok ⟨name, store, listing, warnings⟩) ↔
      ∃ t : Program, t.IsReadFrom source ∧ t.RunsTo source ⟨store, listing⟩ ∧ name = t.name ∧
        store.signature = t.variables := by
  constructor
  · rintro ⟨fuel, warnings, h⟩
    obtain ⟨t, ht, ⟨n, hn⟩, hname⟩ := exists_tree_of_compileText h
    exact ⟨t, ht, ⟨n, hn⟩, hname, (Program.run_store hn).1⟩
  · rintro ⟨t, ht, hr, rfl, -⟩
    exact exists_compileText_of_tree ht hr

end MiniPascal
