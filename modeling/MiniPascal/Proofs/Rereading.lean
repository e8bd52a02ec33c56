import MiniPascal.Proofs.Calls

/-!
# Where an execution reads on

What an execution computes has no part in where it reads. Two executions of a production that begin
at the same place of a text and both succeed end at the same place, whatever their variables and
their fuel (`SteeredByText`): each follows the parser, and the parser has only the text.

A loop is read again for every pass. To say what that reads, plans are run with a record of the
tokens that they take (`Plan.record`); without the record such a run is the run of the plan. The
tokens are those of the text from the first to the last place, where an inner loop may be taken
several times in a row (`Unrolls`).
-/

namespace MiniPascal

open Grammar Position

variable {α β : Type} {source : List Placed}

/-! ## Places in a text -/

/-- The next token of the state was read from the source, and the scanner is just behind it. -/
def State.Over (source : List Placed) (s : State) : Prop :=
  s.scanner.source = source ∧ ∃ before : Scanner, before.source = source ∧
    before.next.1 = .ok s.current ∧ before.next.2.rest = s.scanner.rest

/-- The states have the same next token and the scanner at the same character. -/
def State.SamePosition (s t : State) : Prop :=
  s.current = t.current ∧ s.scanner.cursor = t.scanner.cursor

namespace State

variable {s t : State} {p q : Position}

theorem Over.exists_at (h : s.Over source) : ∃ p, s.At source p := by
  obtain ⟨hsource, before, hbefore, hnext, hrest⟩ := h
  obtain ⟨ls, hls⟩ := Scanner.exists_lexemes_cons hnext
  exact ⟨⟨s.current, ls, before.fault?⟩, hsource, before, hbefore, hnext, hrest, hls, rfl⟩

theorem At.over (h : s.At source p) : s.Over source := by
  obtain ⟨hsource, before, hbefore, hnext, hrest, -⟩ := h
  exact ⟨hsource, before, hbefore, hnext, hrest⟩

/-- A state is at one position only. -/
theorem At.unique (h : s.At source p) (h' : s.At source q) : p = q := by
  obtain ⟨hsource, before, hbefore, hnext, hrest, hlexemes, hfault⟩ := h
  obtain ⟨-, before', hbefore', hnext', hrest', hlexemes', hfault'⟩ := h'
  obtain ⟨hsame, hsame'⟩ := Scanner.lexemes_eq_of_next hnext hnext'
    (hbefore.trans hbefore'.symm) (hrest.trans hrest'.symm)
  refine leads_nil_iff.1 ⟨?_, ?_⟩
  · rw [← hlexemes, ← hlexemes', hsame, List.nil_append]
  · rw [← hfault, ← hfault', hsame']

end State

theorem Scanner.rest_eq_of_cursor_eq {a b : Scanner} (hsource : a.source = b.source)
    (h : a.cursor = b.cursor) : a.rest = b.rest := by
  have ha := a.suffix
  have hb := b.suffix
  rw [← hsource] at hb
  have hlength : a.rest.length = b.rest.length := by
    have := ha.length_le
    have := hb.length_le
    rw [Scanner.cursor, Scanner.cursor, ← hsource] at h
    omega
  rw [List.suffix_iff_eq_drop.1 ha, List.suffix_iff_eq_drop.1 hb, hlength]

/-- Every character starts before the end of the source. -/
theorem Placed.offset_lt_endOffset (hsource : source.Pairwise fun p q ↦ p.offset < q.offset)
    {p : Placed} {ps : List Placed} (h : p :: ps <:+ source) : p.offset < endOffset source := by
  obtain ⟨front, rfl⟩ := h
  obtain ⟨last, hlast⟩ : ∃ last, (p :: ps).getLast? = some last :=
    ⟨_, List.getLast?_eq_some_getLast (List.cons_ne_nil p ps)⟩
  have hle : p.offset ≤ last.offset := by
    have hmem : last ∈ p :: ps := List.mem_of_getLast? hlast
    rcases List.mem_cons.1 hmem with rfl | hmem
    · exact Nat.le_refl _
    · have hpairwise := (List.pairwise_append.1 hsource).2.1
      exact Nat.le_of_lt ((List.pairwise_cons.1 hpairwise).1 last hmem)
  have hsize := last.char.utf8Size_pos
  rw [endOffset, List.getLast?_append, hlast, Option.some_or]
  simp only [Placed.stop]
  omega

/-- What remains of a source is determined by where it starts. -/
theorem eq_of_offsetAt_eq (hsource : source.Pairwise fun p q ↦ p.offset < q.offset)
    {xs ys : List Placed} (hxs : xs <:+ source) (hys : ys <:+ source)
    (h : offsetAt source xs = offsetAt source ys) : xs = ys := by
  cases xs with
  | nil =>
    cases ys with
    | nil => rfl
    | cons q qs => exact absurd h (Nat.ne_of_gt (Placed.offset_lt_endOffset hsource hys))
  | cons p ps =>
    cases ys with
    | nil => exact absurd h (Nat.ne_of_lt (Placed.offset_lt_endOffset hsource hxs))
    | cons q qs =>
      have hpq : p.offset = q.offset := h
      rw [← drop_charsBefore hsource hxs, ← drop_charsBefore hsource hys, hpq]

/-- Where the scanner is behind a token is determined by the token and its place. -/
theorem Scanner.rest_eq_of_next {a b : Scanner}
    (ha : a.source.Pairwise fun p q ↦ p.offset < q.offset) (hsource : a.source = b.source)
    {l : Lexeme} (hl : a.next.1 = .ok l) (hl' : b.next.1 = .ok l) :
    a.next.2.rest = b.next.2.rest := by
  have hsuffix : a.next.2.rest <:+ a.source := a.next.2.suffix
  have hsuffix' : b.next.2.rest <:+ a.source := hsource ▸ b.next.2.suffix
  rcases scan_of_ok hl with ⟨hend, hrest⟩ | ⟨p, ps, t, -, hread, rfl⟩
  · rcases scan_of_ok hl' with ⟨-, hrest'⟩ | ⟨p', ps', t', -, hread', rfl⟩
    · exact hrest.trans hrest'.symm
    · exact absurd (congrArg Lexeme.token hend) (readToken_token hread').1
  · rcases scan_of_ok hl' with ⟨hend, -⟩ | ⟨p', ps', t', -, -, heq⟩
    · exact absurd (congrArg Lexeme.token hend) (readToken_token hread).1
    · have hstop : offsetAt a.source a.next.2.rest = offsetAt b.source b.next.2.rest :=
        congrArg (fun l ↦ l.span.stop) heq
      rw [← hsource] at hstop
      exact eq_of_offsetAt_eq ha hsuffix hsuffix' hstop

namespace State

variable {s t : State} {p q : Position}

/-- States over a text at the same place are at the same position of it. -/
theorem SamePosition.at (hst : s.SamePosition t) (ht : t.Over source) (h : s.At source p) :
    t.At source p := by
  obtain ⟨hsource, before, hbefore, hnext, hrest, hp⟩ := h
  refine ⟨ht.1, before, hbefore, by rw [hnext, hst.1], ?_, hp⟩
  rw [hrest, Scanner.rest_eq_of_cursor_eq (hsource.trans ht.1.symm) hst.2]

/-- States at the same position of a text are at the same place. -/
theorem At.samePosition (hsource : source.Pairwise fun p q ↦ p.offset < q.offset)
    (h : s.At source p) (h' : t.At source p) : s.SamePosition t := by
  have hcurrent : s.current = t.current := h.current_eq.trans h'.current_eq.symm
  obtain ⟨hs, before, hbefore, hnext, hrest, -⟩ := h
  obtain ⟨ht, before', hbefore', hnext', hrest', -⟩ := h'
  rw [← hcurrent] at hnext'
  have hrests := Scanner.rest_eq_of_next (hbefore ▸ hsource) (hbefore.trans hbefore'.symm)
    hnext hnext'
  refine ⟨hcurrent, ?_⟩
  rw [Scanner.cursor, Scanner.cursor, hs, ht, ← hrest, ← hrest', hrests]

end State

/-! ## The text decides -/

/-- Where a production leads is decided by the place it begins at. -/
def SteeredByText (source : List Placed) (x : Nat → Execution α) : Prop :=
  ∀ s t : State, s.Over source → t.Over source → s.SamePosition t → ∀ n m a b s' t',
    (x n).run s = .ok a s' → (x m).run t = .ok b t' → s'.SamePosition t'

/-- A production that follows the parser, whatever its fuel, is steered by the text. -/
theorem steeredByText_of_follows (hsource : source.Pairwise fun p q ↦ p.offset < q.offset)
    {x : Nat → Execution α} {y : Nat → Parser β} (hy : Fueled y)
    (h : ∀ n s p, s.At source p → Follows source (x n) (y n) s p) : SteeredByText source x := by
  intro s t hs ht hst n m a b s' t' hs' ht'
  obtain ⟨p, hat⟩ := hs.exists_at
  obtain ⟨c, q, hq, hat'⟩ := (h n s p hat).of_ok hs'
  obtain ⟨d, q', hq', hat''⟩ := (h m t p (hst.at ht hat)).of_ok ht'
  have hyields : Yields y p (.ok c q) := ⟨trivial, n, hq⟩
  have hyields' : Yields y p (.ok d q') := ⟨trivial, m, hq'⟩
  cases hyields.unique hy hyields'
  exact hat'.samePosition hsource hat''

namespace Execution

variable {s : State} {p : Position}

theorem follows_loop (hsource : source.Pairwise fun p q ↦ p.offset < q.offset) (n : Nat)
    (h : s.At source p) : Follows source (loop n) (Parser.loop n) s p := by
  have hmark := run_markLoop hsource h.1
  rw [h.current_eq] at hmark
  rw [Follows, loop, run_bind_of_ok hmark]
  exact (follows_statement hsource n).2.2.2.2 _ p (h.congr rfl rfl)

end Execution

/-! ## The tokens of a run -/

theorem run_map_eq_ok_iff {σ : Type} {x : EStateM Halt σ α} {f : α → β} {s s' : σ} {b : β} :
    (f <$> x).run s = .ok b s' ↔ ∃ a, x.run s = .ok a s' ∧ f a = b := by
  rw [map_eq_pure_bind, run_bind_eq_ok_iff]
  constructor
  · rintro ⟨a, s₁, hx, hpure⟩
    cases hpure
    exact ⟨a, hx, rfl⟩
  · rintro ⟨a, hx, rfl⟩
    exact ⟨a, s', hx, rfl⟩

/-- Tasks that tell the tokens which they have taken, besides their results. -/
structure Recorder where
  routine : (r : Routine) → Execution (r.Result × List Lexeme)
  passes : Nat → Execution (List Lexeme)

/-- Runs a plan with a record of the tokens that it takes. -/
def Plan.record (c : Recorder) : Plan α → Execution (α × List Lexeme)
  | finish x _ _ => do
    let a ← x
    return (a, [])
  | look x _ _ k => do
    let b ← x
    (k b).record c
  | take x _ _ k => do
    let here ← Execution.current
    let b ← x
    let (a, us) ← (k b).record c
    return (a, here :: us)
  | call r k => do
    let (v, us) ← c.routine r
    let (a, vs) ← (k v).record c
    return (a, us ++ vs)
  | loop a => do
    let address ← Execution.markLoop
    let us ← c.passes address
    return (a, us)

/-- The tasks with a record of the tokens. The way back to the start of a loop takes none. -/
def recorder : Nat → Recorder
  | 0 =>
    { routine := fun _ ↦ Execution.outOfFuel
      passes := fun _ ↦ Execution.outOfFuel }
  | n + 1 =>
    { routine := fun r ↦ r.plan.record (recorder n)
      passes := fun address ↦ do
        let (done, us) ← (Plan.pass address).record (recorder n)
        if done then return us
        else
          Execution.rewind address
          let vs ← (recorder n).passes address
          return us ++ vs }

/-- A pass of the loop at an address, with a record of the tokens. -/
def Execution.recordPass (n address : Nat) : Execution (Bool × List Lexeme) :=
  (Plan.pass address).record (recorder n)

/-- Without the record, a recorded plan is the plan. -/
theorem Plan.fst_record {c : Recorder} {n : Nat}
    (hroutine : ∀ r, Prod.fst <$> c.routine r = r.run n)
    (hpasses : ∀ address, (fun _ ↦ ()) <$> c.passes address = Execution.passes n address)
    (plan : Plan α) : Prod.fst <$> plan.record c = plan.run n := by
  induction plan with
  | finish x hx hstill => simp [record, run]
  | look x hx hstill k ih => simp [record, run, ih]
  | take x hx htakes k ih =>
    simp only [record, run, map_bind, bind_pure_comp, Functor.map_map, ih]
    exact eq_of_run_eq fun s ↦ rfl
  | call r k ih => simp [record, run, ← hroutine, ← ih]
  | loop a => simp [record, run, ← hpasses, Execution.loop]

/-- **Without the record, a recorded run is the run.** -/
theorem fst_recorder (n : Nat) :
    (∀ r : Routine, Prod.fst <$> (recorder n).routine r = r.run n) ∧
      ∀ address, (fun _ ↦ ()) <$> (recorder n).passes address = Execution.passes n address := by
  induction n with
  | zero =>
    refine ⟨fun r ↦ ?_, fun _ ↦ rfl⟩
    cases r <;> rfl
  | succ n ih =>
    refine ⟨fun r ↦ ?_, fun address ↦ ?_⟩
    · rw [r.run_succ]
      exact Plan.fst_record ih.1 ih.2 r.plan
    · rw [Execution.passes_succ, Plan.pass_eq, ← Plan.fst_record ih.1 ih.2, recorder]
      simp only [map_bind, bind_map_left]
      refine bind_congr fun x ↦ ?_
      cases x.1 with
      | true => simp
      | false => simp [← ih.2]

theorem Execution.fst_recordPass (n address : Nat) :
    Prod.fst <$> recordPass n address = pass n address := by
  rw [Plan.pass_eq]
  exact Plan.fst_record (fst_recorder n).1 (fst_recorder n).2 _

/-- The tokens make a loop. -/
def IsLoop (ts : List Lexeme) : Prop :=
  ∃ start body condition, (Statement.loop start body condition).Derives .statement ts

/-- The tokens `us` are the tokens `ts` of a text, where a loop may be taken several times. -/
inductive Unrolls : List Lexeme → List Lexeme → Prop
  | nil : Unrolls [] []
  | token (l : Lexeme) : Unrolls [l] [l]
  | append {ts ts' us us' : List Lexeme} (h : Unrolls ts us) (h' : Unrolls ts' us') :
    Unrolls (ts ++ ts') (us ++ us')
  | again {ts us us' : List Lexeme} (hloop : IsLoop ts) (h : Unrolls ts us) (h' : Unrolls ts us') :
    Unrolls ts (us ++ us')

/-! Positions of the parser around a loop. -/

namespace Position

variable {p q q' : Position} {ts ts' : List Lexeme}

/-- Between the positions stand the tokens of a loop. -/
def Loop (p : Position) (ts : List Lexeme) (q : Position) : Prop :=
  p.Leads ts q ∧ ∃ n t, (Parser.loop n).run p = .ok t q

theorem Loop.unique (h : p.Loop ts q) (h' : p.Loop ts' q') : ts = ts' ∧ q = q' := by
  obtain ⟨hleads, n, t, hn⟩ := h
  obtain ⟨hleads', m, t', hm⟩ := h'
  have hyields : Yields Parser.loop p (.ok t q) := ⟨trivial, n, hn⟩
  have hyields' : Yields Parser.loop p (.ok t' q') := ⟨trivial, m, hm⟩
  cases hyields.unique Parser.fueled_loop hyields'
  exact ⟨List.append_cancel_right (hleads.1.symm.trans hleads'.1), rfl⟩

theorem Loop.ne_endOfInput (h : p.Loop ts q) : p.current.token ≠ .endOfInput := by
  obtain ⟨_, n, t, hn⟩ := h
  cases n with
  | zero => cases hn
  | succ n =>
    rw [Parser.loop_token hn]
    exact nofun

theorem Loop.isLoop (h : p.Loop ts q) (hp : p.Closed) : IsLoop ts := by
  obtain ⟨hleads, n, t, hn⟩ := h
  cases n with
  | zero => cases hn
  | succ n =>
    obtain ⟨us, hus, hderives, -⟩ :=
      ((Parser.recognizesAt_statement (n + 1)).2.2.2.2 p hp).accepts hn
    obtain ⟨body, condition, _, _, _, _, rfl, -⟩ := Parser.run_loop_eq_ok hn
    rw [List.append_cancel_right (hleads.1.symm.trans hus.1)]
    exact ⟨_, body, condition, hderives⟩

end Position

/-- Where the recorded run succeeds it comes to a later position, and what it takes on the way is
the text up to there, with loops taken as often as they are executed. -/
def Walks (source : List Placed) (x : Execution (α × List Lexeme)) (s : State) (p : Position) :
    Prop :=
  ∀ a us s', x.run s = .ok (a, us) s' → ∃ q ts, s'.At source q ∧ p.Leads ts q ∧ Unrolls ts us

/-- The same of the passes of a loop, whose text is that of the loop. -/
def WalksLoop (source : List Placed) (x : Execution (List Lexeme)) (s : State) (p : Position) :
    Prop :=
  ∀ us s', x.run s = .ok us s' → ∃ q ts, s'.At source q ∧ p.Loop ts q ∧ Unrolls ts us

/-- All tasks walk through their text. -/
structure Recorder.Walks (source : List Placed) (c : Recorder) : Prop where
  routine : ∀ r s p, s.At source p → MiniPascal.Walks source (c.routine r) s p
  passes : ∀ s p, s.At source p →
    WalksLoop source (c.passes (charsBefore source p.current.span.start)) s p

section

variable {s s' t : State} {p : Position}

/-- What takes the next token leads on by it. -/
theorem TakesToken.exists_leads {x : Execution α} (hx : TakesToken x) (hs : s.At source p) {a : α}
    (h : x.run s = .ok a t) : ∃ q, t.At source q ∧ p.Leads [p.current] q := by
  obtain ⟨hend, hstep⟩ := hx s a t h
  obtain ⟨_, q, hq, hat⟩ := (Follows.step hs).of_ok hstep
  rw [hs.current_eq] at hend
  obtain ⟨ts, hts, rfl, -⟩ := (RecognizesAt.step hs.closed hend).accepts hq
  exact ⟨q, hat, hts⟩

/-- The address of a loop is that of its first token. -/
theorem State.At.eq_of_markLoop (hsource : source.Pairwise fun p q ↦ p.offset < q.offset)
    (hs : s.At source p) {address : Nat} (h : Execution.markLoop.run s = .ok address s') :
    address = charsBefore source p.current.span.start ∧ s'.At source p := by
  have hmark := Execution.run_markLoop hsource hs.1
  rw [hs.current_eq] at hmark
  cases h.symm.trans hmark
  exact ⟨rfl, hs.congr rfl rfl⟩

/-- **Plans walk through their text** if their calls do. -/
theorem Plan.walks (hsource : source.Pairwise fun p q ↦ p.offset < q.offset) {c : Recorder}
    (hc : c.Walks source) (plan : Plan α) (hs : s.At source p) :
    Walks source (plan.record c) s p := by
  induction plan generalizing s p with
  | finish x hx hstill =>
    intro a us s' h
    obtain ⟨a, s₁, ha, hpure⟩ := run_bind_eq_ok_iff.1 h
    cases hpure
    obtain ⟨hcurrent, hscanner⟩ := hstill s a s' ha
    exact ⟨p, [], hs.congr hcurrent hscanner, .refl p, .nil⟩
  | look x hx hstill k ih =>
    intro a us s' h
    obtain ⟨b, s₁, hb, h⟩ := run_bind_eq_ok_iff.1 h
    obtain ⟨hcurrent, hscanner⟩ := hstill s b s₁ hb
    exact ih b (hs.congr hcurrent hscanner) a us s' h
  | take x hx htakes k ih =>
    intro a us s' h
    rw [record, Execution.run_current_bind] at h
    obtain ⟨b, s₁, hb, h⟩ := run_bind_eq_ok_iff.1 h
    obtain ⟨⟨a, vs⟩, s₂, ha, hpure⟩ := run_bind_eq_ok_iff.1 h
    cases hpure
    obtain ⟨p₁, hs₁, hleads⟩ := htakes.exists_leads hs hb
    obtain ⟨q, ts, hat, hts, hunrolls⟩ := ih b hs₁ a vs s' ha
    rw [hs.current_eq]
    exact ⟨q, p.current :: ts, hat, hleads.trans hts, (Unrolls.token _).append hunrolls⟩
  | call r k ih =>
    intro a us s' h
    obtain ⟨⟨v, us⟩, s₁, hv, h⟩ := run_bind_eq_ok_iff.1 h
    obtain ⟨⟨a, vs⟩, s₂, ha, hpure⟩ := run_bind_eq_ok_iff.1 h
    cases hpure
    obtain ⟨p₁, ts, hs₁, hleads, hunrolls⟩ := hc.routine r s p hs v us s₁ hv
    obtain ⟨q, ts', hat, hts', hunrolls'⟩ := ih v hs₁ a vs s' ha
    exact ⟨q, ts ++ ts', hat, hleads.trans hts', hunrolls.append hunrolls'⟩
  | loop a =>
    intro a us s' h
    obtain ⟨address, s₁, hmark, h⟩ := run_bind_eq_ok_iff.1 h
    obtain ⟨us, s₂, hpasses, hpure⟩ := run_bind_eq_ok_iff.1 h
    cases hpure
    obtain ⟨rfl, hs₁⟩ := hs.eq_of_markLoop hsource hmark
    obtain ⟨q, ts, hat, hloop, hunrolls⟩ := hc.passes s₁ p hs₁ us s' hpasses
    exact ⟨q, ts, hat, hloop.1, hunrolls⟩

namespace Execution

/-- A pass takes `REPEAT` and then the text up to the end of the loop. -/
theorem walks_recordPass (hsource : source.Pairwise fun p q ↦ p.offset < q.offset)
    {n address : Nat} (hc : (recorder n).Walks source) (hs : s.At source p) {done : Bool}
    {us : List Lexeme} (h : (recordPass n address).run s = .ok (done, us) s') :
    ∃ q ts us', us = p.current :: us' ∧ s'.At source q ∧ p.Loop (p.current :: ts) q ∧
      Unrolls ts us' := by
  have hpass : (pass n address).run s = .ok done s' := by
    rw [← fst_recordPass]
    exact run_map_eq_ok_iff.2 ⟨_, h, rfl⟩
  obtain ⟨t, q, hloop, hat⟩ :=
    (follows_pass address (follows_statement hsource n).2.2.1 hs).of_ok hpass
  obtain ⟨here, s₁, hhere, h⟩ := run_bind_eq_ok_iff.1 h
  cases hhere
  obtain ⟨_, s₁, hexpect, h⟩ := run_bind_eq_ok_iff.1 h
  obtain ⟨⟨_, us'⟩, s₂, hrest, hpure⟩ := run_bind_eq_ok_iff.1 h
  cases hpure
  obtain ⟨p₁, hs₁, hleads⟩ := (TakesToken.expect rfl).exists_leads hs hexpect
  obtain ⟨q', ts, hat', hts, hunrolls⟩ := Plan.walks hsource hc _ hs₁ _ us' s' hrest
  obtain rfl := hat.unique hat'
  exact ⟨q, ts, us', by rw [hs.current_eq], hat, ⟨hleads.trans hts, n + 1, t, hloop⟩, hunrolls⟩

/-- Every pass takes the text of the loop. -/
theorem walksLoop_succ (hsource : source.Pairwise fun p q ↦ p.offset < q.offset) {n : Nat}
    (hc : (recorder n).Walks source) (hs : s.At source p) :
    WalksLoop source ((recorder (n + 1)).passes (charsBefore source p.current.span.start)) s p := by
  generalize haddress : charsBefore source p.current.span.start = address
  intro us s' h
  obtain ⟨⟨done, us⟩, s₁, hpass, hrest⟩ := run_bind_eq_ok_iff.1 h
  obtain ⟨q, ts, us, rfl, hat, hloop, hunrolls⟩ := walks_recordPass hsource hc hs hpass
  have hunrolls' := (Unrolls.token p.current).append hunrolls
  cases done with
  | true =>
    cases hrest
    exact ⟨q, p.current :: ts, hat, hloop, hunrolls'⟩
  | false =>
    -- the passes that follow start at the same position, so they have the same text
    obtain ⟨_, s₂, hrewind, hrest⟩ := run_bind_eq_ok_iff.1 hrest
    obtain ⟨vs, s₃, hmore, hpure⟩ := run_bind_eq_ok_iff.1 hrest
    cases hpure
    obtain ⟨s₂', hrewind', hat₂, -⟩ := hs.rewind hsource hloop.ne_endOfInput hat.1
    rw [haddress] at hrewind'
    cases hrewind.symm.trans hrewind'
    have hagain := hc.passes s₂ p hat₂
    rw [haddress] at hagain
    obtain ⟨q', ts', hat', hloop', hunrolls''⟩ := hagain vs s' hmore
    obtain ⟨rfl, rfl⟩ := hloop'.unique hloop
    exact ⟨q', p.current :: ts, hat', hloop, .again (hloop.isLoop hs.closed) hunrolls' hunrolls''⟩

end Execution

/-- **Runs walk through their text.** -/
theorem walks_recorder (hsource : source.Pairwise fun p q ↦ p.offset < q.offset) (n : Nat) :
    (recorder n).Walks source := by
  induction n with
  | zero =>
    constructor
    · intro r s p hs a us s' h
      cases h
    · intro s p hs us s' h
      cases h
  | succ n ih =>
    exact ⟨fun r s p hs ↦ r.plan.walks hsource ih hs,
      fun s p hs ↦ Execution.walksLoop_succ hsource ih hs⟩

/-! Without the record. -/

/-- A production that succeeds leads on in the text. -/
theorem Routine.exists_leads (hsource : source.Pairwise fun p q ↦ p.offset < q.offset)
    (r : Routine) {n : Nat} (hs : s.At source p) {v : r.Result} (h : (r.run n).run s = .ok v t) :
    ∃ q ts, t.At source q ∧ p.Leads ts q := by
  rw [← (fst_recorder n).1] at h
  obtain ⟨⟨v, us⟩, h, -⟩ := run_map_eq_ok_iff.1 h
  obtain ⟨q, ts, hat, hts, -⟩ := (walks_recorder hsource n).routine r s p hs v us t h
  exact ⟨q, ts, hat, hts⟩

/-- A pass that is completed has read the text of the loop. -/
theorem Execution.exists_at_of_pass (hsource : source.Pairwise fun p q ↦ p.offset < q.offset)
    {n address : Nat} (hs : s.At source p) {done : Bool}
    (h : (pass n address).run s = .ok done t) : ∃ q ts, t.At source q ∧ p.Loop ts q := by
  rw [← fst_recordPass] at h
  obtain ⟨⟨done, us⟩, h, -⟩ := run_map_eq_ok_iff.1 h
  obtain ⟨q, ts, us, -, hat, hloop, -⟩ :=
    walks_recordPass hsource (walks_recorder hsource n) hs h
  exact ⟨q, _, hat, hloop⟩

/-- So have all passes. -/
theorem Execution.exists_at_of_passes (hsource : source.Pairwise fun p q ↦ p.offset < q.offset)
    {n : Nat} (hs : s.At source p)
    (h : (passes n (charsBefore source p.current.span.start)).run s = .ok () t) :
    ∃ q ts, t.At source q ∧ p.Loop ts q := by
  rw [← (fst_recorder n).2] at h
  obtain ⟨us, h, -⟩ := run_map_eq_ok_iff.1 h
  obtain ⟨q, ts, hat, hloop, -⟩ := (walks_recorder hsource n).passes s p hs us t h
  exact ⟨q, ts, hat, hloop⟩

theorem Execution.exists_at_of_loop (hsource : source.Pairwise fun p q ↦ p.offset < q.offset)
    {n : Nat} (hs : s.At source p) (h : (loop n).run s = .ok () t) :
    ∃ q ts, t.At source q ∧ p.Loop ts q := by
  obtain ⟨address, s₁, hmark, h⟩ := run_bind_eq_ok_iff.1 h
  obtain ⟨rfl, hs₁⟩ := hs.eq_of_markLoop hsource hmark
  exact exists_at_of_passes hsource hs₁ h

/-! ## Where calls begin -/

namespace Invocation

/-- The task begins at a position, and the address of a loop is that of the position. -/
def Begins (source : List Placed) (x : Invocation) (p : Position) : Prop :=
  x.state.At source p ∧
    ∀ address, x.task = .passes address → address = charsBefore source p.current.span.start

end Invocation

/-- A plan leads on in the text to its calls, by some tokens or to a task of lower rank. -/
theorem Plan.Comes.begins (hsource : source.Pairwise fun p q ↦ p.offset < q.offset)
    {plan : Plan α} {y : Invocation} (h : plan.Comes s y) (hs : s.At source p) :
    ∃ q ts, y.Begins source q ∧ p.Leads ts q ∧
      ∀ k, plan.Below k → ts = [] → y.task.rank < k := by
  induction h generalizing p with
  | call =>
    exact ⟨p, [], ⟨hs, fun _ h ↦ by cases h⟩, .refl p, fun _ hplan _ ↦ hplan.1⟩
  | loop hmark =>
    obtain ⟨haddress, hs'⟩ := hs.eq_of_markLoop hsource hmark
    refine ⟨p, [], ⟨hs', fun _ h ↦ ?_⟩, .refl p, fun _ hplan _ ↦ hplan _⟩
    cases h
    exact haddress
  | @afterLook β x hx hstill rest s s' b y h _ ih =>
    obtain ⟨hcurrent, hscanner⟩ := hstill s b s' h
    obtain ⟨q, ts, hy, hts, hrank⟩ := ih (hs.congr hcurrent hscanner)
    exact ⟨q, ts, hy, hts, fun k hplan ↦ hrank k (hplan b)⟩
  | @afterTake β x hx htakes rest s s' b y h _ ih =>
    obtain ⟨q, hq, hts⟩ := htakes.exists_leads hs h
    obtain ⟨q', ts', hy, hts', -⟩ := ih hq
    exact ⟨q', p.current :: ts', hy, hts.trans hts', fun _ _ hnil ↦ by cases hnil⟩
  | @afterCall r rest s s' v y h _ ih =>
    obtain ⟨-, n, hn⟩ := h
    obtain ⟨q, ts, hq, hts⟩ := r.exists_leads hsource hs hn
    obtain ⟨q', ts', hy, hts', hrank⟩ := ih hq
    refine ⟨q', ts ++ ts', hy, hts.trans hts', fun k hplan hnil ↦ ?_⟩
    exact hrank k (hplan.2 v) (List.append_eq_nil_iff.1 hnil).2

namespace Invocation

variable {x y : Invocation}

/-- **One call** leads on in the text, by some tokens or to a task of lower rank. -/
theorem Calls.begins (hsource : source.Pairwise fun p q ↦ p.offset < q.offset) (h : x.Calls y)
    (hx : x.Begins source p) :
    ∃ q ts, y.Begins source q ∧ p.Leads ts q ∧ (ts = [] → y.task.rank < x.task.rank) := by
  cases h with
  | @routine r _ _ h =>
    obtain ⟨q, ts, hy, hts, hrank⟩ := h.begins hsource hx.1
    exact ⟨q, ts, hy, hts, hrank _ r.below_plan⟩
  | passes h =>
    obtain ⟨q, ts, hy, hts, hrank⟩ := h.begins hsource hx.1
    exact ⟨q, ts, hy, hts, hrank _ trivial⟩

/-- **A chain of calls** does. -/
theorem begins_of_chain (hsource : source.Pairwise fun p q ↦ p.offset < q.offset)
    (h : Relation.TransGen Calls x y) (hx : x.Begins source p) :
    ∃ q ts, y.Begins source q ∧ p.Leads ts q ∧ (ts = [] → y.task.rank < x.task.rank) := by
  induction h with
  | single h => exact h.begins hsource hx
  | tail _ h ih =>
    obtain ⟨q, ts, hy, hts, hrank⟩ := ih
    obtain ⟨q', ts', hz, hts', hrank'⟩ := h.begins hsource hy
    refine ⟨q', ts ++ ts', hz, hts.trans hts', fun hnil ↦ ?_⟩
    obtain ⟨rfl, rfl⟩ := List.append_eq_nil_iff.1 hnil
    exact Nat.lt_trans (hrank' rfl) (hrank rfl)

/-- The next pass of a loop begins where this one did. -/
theorem Again.begins (hsource : source.Pairwise fun p q ↦ p.offset < q.offset) (h : x.Again y)
    (hx : x.Begins source p) : y.Begins source p := by
  cases h with
  | intro hpass hback =>
    obtain ⟨-, n, hn⟩ := hpass
    obtain ⟨hat, haddress⟩ := hx
    obtain rfl := haddress _ rfl
    obtain ⟨q, ts, hat', hloop⟩ := Execution.exists_at_of_pass hsource hat hn
    obtain ⟨s', hs', hagain, -⟩ := hat.rewind hsource hloop.ne_endOfInput hat'.1
    cases hback.symm.trans hs'
    exact ⟨hagain, haddress⟩

end Invocation

end

/-- A task that is reached begins at a token of the text. -/
theorem Reached.begins {source : String} {x : Invocation} (hx : Reached source x) :
    ∃ p ts, x.Begins (Placed.ofString source) p ∧
      (Scanner.ofString source).lexemes = ts ++ p.lexemes ∧
      p.ending = (Scanner.ofString source).fault? := by
  have hsource := Placed.pairwise_ofString source
  induction hx with
  | start hstart h =>
    rcases State.start_cases (.ofString source) with
      ⟨f, hf, -⟩ | ⟨s, p, hs, hat, -, hlexemes, hending⟩
    · cases hstart.symm.trans hf
    · cases hstart.symm.trans hs
      obtain ⟨q, ts, hy, hts, -⟩ := h.begins hsource hat
      exact ⟨q, ts, hy, hlexemes.symm.trans hts.1, hts.2.symm.trans hending⟩
  | call _ h ih =>
    obtain ⟨p, ts, hx, hlexemes, hending⟩ := ih
    obtain ⟨q, ts', hy, hts', -⟩ := h.begins hsource hx
    exact ⟨q, ts ++ ts', hy, by rw [hlexemes, hts'.1, List.append_assoc],
      hts'.2.symm.trans hending⟩
  | again _ h ih =>
    obtain ⟨p, ts, hx, htext⟩ := ih
    exact ⟨p, ts, h.begins hsource hx, htext⟩

/-! ## All passes of a loop -/

/-- The tokens that stand between two places of a text. -/
def State.Between (source : String) (s : State) (ts : List Lexeme) (s' : State) : Prop :=
  ∃ p q, s.At (Placed.ofString source) p ∧ s'.At (Placed.ofString source) q ∧ p.Leads ts q

/-- All passes that are completed from a position have the same text. -/
theorem Execution.exists_text_of_passes (hsource : source.Pairwise fun p q ↦ p.offset < q.offset)
    (p : Position) : ∃ ts, ∀ t : State, t.At source p → ∀ n address done t',
      (pass n address).run t = .ok done t' → ∃ q us, t'.At source q ∧
        p.Loop (p.current :: ts) q ∧ (recordPass n address).run t = .ok (done, p.current :: us) t' ∧
        Unrolls ts us := by
  have hrecord (t : State) (hat : t.At source p) (n address : Nat) (done : Bool) (t' : State)
      (h : (pass n address).run t = .ok done t') : ∃ ts q us, t'.At source q ∧
        p.Loop (p.current :: ts) q ∧ (recordPass n address).run t = .ok (done, p.current :: us) t' ∧
        Unrolls ts us := by
    rw [← fst_recordPass] at h
    obtain ⟨⟨done, us⟩, hrecorded, rfl⟩ := run_map_eq_ok_iff.1 h
    obtain ⟨q, ts, us, rfl, hat', hloop, hunrolls⟩ :=
      walks_recordPass hsource (walks_recorder hsource n) hat hrecorded
    exact ⟨ts, q, us, hat', hloop, hrecorded, hunrolls⟩
  by_cases hpass : ∃ t n address done t', t.At source p ∧ (pass n address).run t = .ok done t'
  · obtain ⟨t, n, address, done, t', hat, hrun⟩ := hpass
    obtain ⟨ts, q, -, -, hloop, -⟩ := hrecord t hat n address done t' hrun
    refine ⟨ts, fun t hat n address done t' hrun ↦ ?_⟩
    obtain ⟨ts', q', us, hat', hloop', hrecorded, hunrolls⟩ := hrecord t hat n address done t' hrun
    obtain ⟨hts, rfl⟩ := hloop'.unique hloop
    cases hts
    exact ⟨q', us, hat', hloop', hrecorded, hunrolls⟩
  · exact ⟨[], fun t hat n address done t' hrun ↦
      absurd ⟨t, n, address, done, t', hat, hrun⟩ hpass⟩

open Execution in
/-- **The text decides where an execution reads on.** Whatever the variables, the instructions and
the fuel, a production that succeeds from two states at the same place of a text comes to the same
place. So every pass of a loop that is completed takes the same tokens, but for the repetition of
inner loops: those that make the loop and stand in the text from where the pass began to where it
ends. From there the loop comes back to where it began, and the loop ends there too, after however
many passes. -/
theorem reading_steered_by_text {source : String} {text : List Placed}
    (htext : Placed.ofString source = text) :
    (SteeredByText text expression ∧
      (∀ address, SteeredByText text fun n ↦ comparison n address) ∧
      SteeredByText text statement ∧ SteeredByText text statements ∧
      SteeredByText text compound ∧ SteeredByText text loop) ∧
    ∀ s : State, s.Over text → ∀ address, charsBefore text s.current.span.start = address →
      ∃ ts, ∀ t : State, t.Over text → s.SamePosition t → ∀ n done t₁,
        (pass n address).run t = .ok done t₁ →
          (∃ us, (recordPass n address).run t = .ok (done, s.current :: us) t₁ ∧ Unrolls ts us) ∧
          IsLoop (s.current :: ts) ∧ s.Between source (s.current :: ts) t₁ ∧
          (∃ t₂, (rewind address).run t₁ = .ok () t₂ ∧ t₂.Over text ∧ s.SamePosition t₂) ∧
          ∀ m s', (loop m).run s = .ok () s' → s'.SamePosition t₁ := by
  have hsource := htext ▸ Placed.pairwise_ofString source
  refine ⟨⟨?_, fun address ↦ ?_, ?_, ?_, ?_, ?_⟩, ?_⟩
  · exact steeredByText_of_follows hsource Parser.fueled_expression
      fun n ↦ (follows_expression n).1
  · exact steeredByText_of_follows hsource Parser.fueled_comparison
      fun n _ _ ↦ follows_comparison n address
  · exact steeredByText_of_follows hsource Parser.fueled_statement
      fun n ↦ (follows_statement hsource n).1
  · exact steeredByText_of_follows hsource Parser.fueled_statements
      fun n ↦ (follows_statement hsource n).2.2.1
  · exact steeredByText_of_follows hsource Parser.fueled_compound
      fun n ↦ (follows_statement hsource n).2.1
  · exact steeredByText_of_follows hsource Parser.fueled_loop fun n _ _ ↦ follows_loop hsource n
  · intro s hs address haddress
    obtain ⟨p, hat⟩ := hs.exists_at
    obtain ⟨ts, hpasses⟩ := exists_text_of_passes hsource p
    refine ⟨ts, fun t ht hst n done t₁ hrun ↦ ?_⟩
    obtain ⟨q, us, hat₁, hloop, hrecorded, hunrolls⟩ :=
      hpasses t (hst.at ht hat) n address done t₁ hrun
    have hcurrent : s.current = p.current := hat.current_eq
    rw [hcurrent]
    refine ⟨⟨us, hrecorded, hunrolls⟩, hloop.isLoop hat.closed, ?_, ?_, fun m s' hs' ↦ ?_⟩
    · subst htext
      exact ⟨p, q, hat, hat₁, hloop.1⟩
    · obtain ⟨t₂, hrewind, hat₂, -⟩ := hat.rewind hsource hloop.ne_endOfInput hat₁.1
      rw [← hcurrent, haddress] at hrewind
      exact ⟨t₂, hrewind, hat₂.over, hat.samePosition hsource hat₂⟩
    · obtain ⟨q', ts', hat', hloop'⟩ := exists_at_of_loop hsource hat hs'
      obtain ⟨-, rfl⟩ := hloop'.unique hloop
      exact hat'.samePosition hsource hat₁

/-- The state with one variable, which has a value. -/
def State.holding (s : State) (name : String) (v : Value) : State :=
  { s with store := ⟨[⟨name, v.type, default, some v⟩]⟩ }

theorem State.value?_holding (s : State) (name : String) (v : Value) :
    (s.holding name v).store.value? name = some v := by
  simp [holding, Store.value?, Store.find?]

/-- The execution with one variable, which has a value at its start. -/
def Execution.holding (x : Execution α) (name : String) (v : Value) : Execution α := do
  modify fun s ↦ s.holding name v
  x

open Execution in
/-- The inner loop makes two passes in the first pass of one execution and one in that of another,
and so they take 25 and 15 tokens. They take them from the same text and end in the same place. -/
theorem reading_steered_by_text_of_nested_loop :
    let source := "REPEAT REPEAT n := n - 1 UNTIL n < 3 UNTIL n = 0;"
    ∃ (s t s₁ t₁ s' t' : State) (ts us vs : List Lexeme),
      s.Over (Placed.ofString source) ∧ t.Over (Placed.ofString source) ∧ s.SamePosition t ∧
      s.store.value? "n" = some (.integer 4) ∧ t.store.value? "n" = some (.integer 2) ∧
      (recordPass 20 0).run s = .ok (false, us) s₁ ∧ us.length = 25 ∧ Unrolls ts us ∧
      (recordPass 20 0).run t = .ok (false, vs) t₁ ∧ vs.length = 15 ∧ Unrolls ts vs ∧
      IsLoop ts ∧ s.Between source ts s₁ ∧ s.Between source ts t₁ ∧
      (loop 20).run s = .ok () s' ∧ (loop 20).run t = .ok () t' ∧ s'.SamePosition t' := by
  intro source
  have hfour : ((recordPass 20 0).holding "n" (.integer 4)).succeeds source
      (fun r s ↦ !r.1 && r.2.length == 25) := by decide +kernel
  have htwo : ((recordPass 20 0).holding "n" (.integer 2)).succeeds source
      (fun r s ↦ !r.1 && r.2.length == 15) := by decide +kernel
  have hfour' : ((loop 20).holding "n" (.integer 4)).succeeds source (fun _ _ ↦ true) := by
    decide +kernel
  have htwo' : ((loop 20).holding "n" (.integer 2)).succeeds source (fun _ _ ↦ true) := by
    decide +kernel
  have haddress : current.succeeds source
      (fun l _ ↦ charsBefore (Placed.ofString source) l.span.start == 0) := by decide +kernel
  obtain ⟨s₀, ⟨done, us⟩, s₁, hs₀, hs₁, hus⟩ := exists_of_succeeds hfour
  obtain ⟨_, ⟨done', vs⟩, t₁, ht₀, ht₁, hvs⟩ := exists_of_succeeds htwo
  cases hs₀.symm.trans ht₀
  obtain ⟨_, _, s', hs₀', hs', -⟩ := exists_of_succeeds hfour'
  cases hs₀.symm.trans hs₀'
  obtain ⟨_, _, t', ht₀', ht', -⟩ := exists_of_succeeds htwo'
  cases hs₀.symm.trans ht₀'
  obtain ⟨_, _, _, hl₀, hl, haddress⟩ := exists_of_succeeds haddress
  cases hs₀.symm.trans hl₀
  cases hl
  simp only [Bool.and_eq_true, Bool.not_eq_true', beq_iff_eq] at hus hvs
  obtain ⟨rfl, hus⟩ := hus
  obtain ⟨rfl, hvs⟩ := hvs
  change (recordPass 20 0).run (s₀.holding "n" (.integer 4)) = _ at hs₁
  change (recordPass 20 0).run (s₀.holding "n" (.integer 2)) = _ at ht₁
  change (loop 20).run (s₀.holding "n" (.integer 4)) = _ at hs'
  change (loop 20).run (s₀.holding "n" (.integer 2)) = _ at ht'
  have hover : s₀.Over (Placed.ofString source) := by
    rcases State.start_cases (.ofString source) with ⟨f, hf, -⟩ | ⟨s, p, hs, hat, -⟩
    · cases hs₀.symm.trans hf
    · cases hs₀.symm.trans hs
      exact hat.over
  obtain ⟨⟨-, -, -, -, -, hloop⟩, hpasses⟩ :=
    reading_steered_by_text (rfl : Placed.ofString source = _)
  obtain ⟨ts, hpasses⟩ :=
    hpasses (s₀.holding "n" (.integer 4)) hover 0 (beq_iff_eq.1 haddress)
  have hpass {t t' : State} {us : List Lexeme}
      (h : (recordPass 20 0).run t = .ok (false, us) t') : (pass 20 0).run t = .ok false t' := by
    rw [← fst_recordPass]
    exact run_map_eq_ok_iff.2 ⟨_, h, rfl⟩
  obtain ⟨⟨us', hus', hunrolls⟩, hts, hbetween, -⟩ :=
    hpasses (s₀.holding "n" (.integer 4)) hover ⟨rfl, rfl⟩ 20 false s₁ (hpass hs₁)
  obtain ⟨⟨vs', hvs', hunrolls'⟩, -, hbetween', -⟩ :=
    hpasses (s₀.holding "n" (.integer 2)) hover ⟨rfl, rfl⟩ 20 false t₁ (hpass ht₁)
  cases hs₁.symm.trans hus'
  cases ht₁.symm.trans hvs'
  exact ⟨s₀.holding "n" (.integer 4), s₀.holding "n" (.integer 2), s₁, t₁, s', t', _, _, _, hover,
    hover, ⟨rfl, rfl⟩, s₀.value?_holding .., s₀.value?_holding .., hs₁, hus,
    (Unrolls.token _).append hunrolls, ht₁, hvs, (Unrolls.token _).append hunrolls', hts, hbetween,
    hbetween', hs', ht', hloop (s₀.holding "n" (.integer 4)) (s₀.holding "n" (.integer 2)) hover
      hover ⟨rfl, rfl⟩ 20 20 () () s' t' hs' ht'⟩

end MiniPascal
