import MiniPascal.Proofs.InstructionText
import MiniPascal.Proofs.JsonReading
import MiniPascal.Proofs.Scoping
import MiniPascal.Proofs.Sessions

/-!
# Written listings

Nothing is lost when a listing is written. Its instructions are of the kind that is told by its
text, because an operation is emitted with its own operands only and every name in a listing is that
of a declared variable, hence a word of the source. So two programs with the same file have the same
instructions, if these have no reals.

As the lines have plain characters only, the file has them as they are, between quotes, and a
session prints one line for each instruction.
-/

namespace MiniPascal

open Text Grammar

/-! ## What is emitted -/

open Instruction

/-- Code of instructions that are emitted. -/
def AllEmitted (code : List Instruction) : Prop := ∀ i ∈ code, i.Emitted

theorem Emits.emit_emitted {l : Listing} {i : Instruction} (h : i.Emitted) :
    Emits l (l.emit i) AllEmitted := by
  refine .emit fun j hj ↦ ?_
  rwa [List.mem_singleton.1 hj]

theorem Emits.emitted_trans {l l₁ l₂ : Listing} (h : Emits l l₁ AllEmitted)
    (h' : Emits l₁ l₂ AllEmitted) : Emits l l₂ AllEmitted :=
  h.trans h' fun _ _ h h' i hi ↦ (List.mem_append.1 hi).elim (h i) (h' i)

/-- The names of the variables are words. -/
def Store.HasWords (s : Store) : Prop := ∀ x ∈ s.signature, IsWord x.1.toList

theorem Store.HasWords.evolves {s t : Store} (h : s.HasWords) (hst : s.Evolves t) :
    t.HasWords := by
  rw [HasWords, hst.signature]
  exact h

theorem Store.HasWords.of_find? {s : Store} {name : String} {x : Variable} (h : s.HasWords)
    (hx : s.find? name = some x) : IsWord name.toList := by
  obtain ⟨hmem, rfl⟩ := Store.find?_eq_some hx
  exact h _ (List.mem_map_of_mem hmem)

namespace Grammar

variable {r r' : Progress}

theorem Expression.emitted_run {e : Expression} {v : Value} (hwords : r.store.HasWords)
    (h : e.run.run r = .ok v r') : Emits r.listing r'.listing AllEmitted := by
  induction e generalizing r r' v with
  | literal w place =>
    obtain ⟨-, rfl⟩ := run_literal_eq_ok h
    exact .emit_emitted (.pushImmediate w)
  | named name place =>
    obtain ⟨hvalue, rfl⟩ := run_named_eq_ok h
    obtain ⟨x, hx, -⟩ := Option.bind_eq_some_iff.1 hvalue
    exact .emit_emitted (.push (hwords.of_find? hx))
  | plus place operand ih => exact ih hwords h
  | minus place operand ih =>
    obtain ⟨w, r₁, hoperand, -, rfl⟩ := run_minus_eq_ok h
    exact (ih hwords hoperand).emitted_trans (.emit_emitted (.negate w))
  | binary op place left right ihl ihr =>
    obtain ⟨a, b, r₁, r₂, hleft, hright, -, rfl⟩ := run_binary_eq_ok h
    have hwords₁ : r₁.store.HasWords := Expression.store_run hleft ▸ hwords
    exact (((ihl hwords hleft).emitted_trans (ihr hwords₁ hright)).emitted_trans
      (.emit_emitted (.arithmetic op a b))).emitted_trans (.emit_emitted .pop)
  | parens place inner ih => exact ih hwords h

theorem Condition.emitted_run {c : Condition} {address : Nat} {done : Bool}
    (hwords : r.store.HasWords) (h : (c.run address).run r = .ok done r') :
    Emits r.listing r'.listing AllEmitted := by
  obtain ⟨a, b, r₁, hleft, hright, -⟩ := run_eq_ok h
  have hwords₁ : r₁.store.HasWords := Expression.store_run hleft ▸ hwords
  have hjump : Emits r₁.listing (r₁.listing.jump (.jump c.comparison) address) AllEmitted :=
    .emit_emitted (.jump c.comparison address)
  have hright := Expression.emitted_run
    (r := ⟨r₁.store, r₁.listing.jump (.jump c.comparison) address⟩) hwords₁ hright
  exact ((Expression.emitted_run hwords hleft).emitted_trans hjump).emitted_trans hright

theorem Statement.emitted_run {address : Nat → Nat} {s : Statement} {n : Nat}
    (hwords : r.store.HasWords) (h : (s.run address n).run r = .ok () r') :
    Emits r.listing r'.listing AllEmitted := by
  induction s generalizing r r' n with
  | nothing =>
    cases h
    exact .refl fun i hi ↦ absurd hi List.not_mem_nil
  | assign name place value =>
    obtain ⟨v, r₁, store, hvalue, hstore, rfl⟩ := run_assign_eq_ok h
    have hwords₁ : r₁.store.HasWords := Expression.store_run hvalue ▸ hwords
    obtain ⟨x, hx, -⟩ := Option.map_eq_some_iff.1 (Store.assign_eq_ok_iff.1 hstore).1
    exact (Expression.emitted_run hwords hvalue).emitted_trans
      (.emit_emitted (.move (hwords₁.of_find? hx) v))
  | compound body ih => exact ih hwords h
  | loop start body c ih =>
    have hpass {n : Nat} {r r₁ r' : Progress} {done : Bool} (hwords : r.store.HasWords)
        (hbody : (body.run address n).run r = .ok () r₁)
        (hc : (c.run (address start)).run r₁ = .ok done r') :
        r'.store.HasWords ∧ Emits r.listing r'.listing AllEmitted := by
      have hwords₁ := hwords.evolves (Statement.evolves_run hbody)
      exact ⟨Condition.store_run hc ▸ hwords₁,
        (ih hwords hbody).emitted_trans (Condition.emitted_run hwords₁ hc)⟩
    have hmark : Emits r.listing (r.listing.markLoop (address start)) AllEmitted :=
      .emit_emitted (.mark (address start))
    refine hmark.emitted_trans (run_loop_induction (P := fun r r' ↦ r.store.HasWords →
      Emits r.listing r'.listing AllEmitted) ?_ ?_ h hwords)
    · intro n r r₁ r' hbody hc hwords
      exact (hpass hwords hbody hc).2
    · intro n r r₁ r₂ r' hbody hc hrest hwords
      obtain ⟨hwords₂, hemits⟩ := hpass hwords hbody hc
      exact hemits.emitted_trans (hrest hwords₂)
  | sequence first rest ihf ihr =>
    obtain ⟨r₁, hfirst, hrest⟩ := run_sequence_eq_ok h
    have hwords₁ := hwords.evolves (Statement.evolves_run hfirst)
    exact (ihf hwords hfirst).emitted_trans (ihr hwords₁ hrest)

theorem emitted_declareAll {vs : List (String × DataType × Span)}
    (hwords : ∀ x ∈ vs, IsWord x.1.toList)
    (h : (Interpreter.declareAll vs).run r = .ok () r') :
    Emits r.listing r'.listing AllEmitted := by
  induction vs generalizing r with
  | nil =>
    cases h
    exact .refl fun i hi ↦ absurd hi List.not_mem_nil
  | cons v vs ih =>
    obtain ⟨hword, hwords⟩ := List.forall_mem_cons.1 hwords
    obtain ⟨_, r₁, hdeclare, hrest⟩ := run_bind_eq_ok_iff.1 h
    obtain ⟨store, -, rfl⟩ := Interpreter.run_declare_eq_ok hdeclare
    exact (Emits.emit_emitted (.declare hword v.2.1)).emitted_trans (ih hwords hrest)

end Grammar

theorem Spells.isWord_of_identifier {piece : List Char} {name : String}
    (h : Spells piece (.identifier name)) : IsWord name.toList := by
  cases h with
  | identifier h hk => rwa [String.toList_ofList]

theorem Grammar.Program.IsReadFrom.isWord_of_mem {source : String} {t : Program}
    (h : t.IsReadFrom source) : ∀ x ∈ t.variables, IsWord x.1.toList := by
  intro x hx
  obtain ⟨ts, next, rest, hts, hderives, -⟩ := h
  have hmem : (x.1, x.2.2) ∈ ts.filterMap Lexeme.named? :=
    hderives.variables_sublist.subset (List.mem_map_of_mem hx)
  obtain ⟨l, hl, hnamed⟩ := List.mem_filterMap.1 hmem
  obtain rfl := Lexeme.named?_eq_some_iff.1 hnamed
  have hlexeme : ⟨.identifier x.1, x.2.2⟩ ∈ (Scanner.ofString source).lexemes := by
    rw [hts]
    exact List.mem_append_left _ hl
  obtain ⟨piece, -, hspells⟩ := Scanner.exists_spelling_of_mem hlexeme (by simp)
  exact hspells.isWord_of_identifier

/-- **Every listing is one of emitted instructions.** -/
theorem emitted_of_compileText {fuel : Nat} {source : String} {c : Compiled}
    (h : compileText fuel source = .ok c) : AllEmitted c.listing.toList := by
  obtain ⟨t, ht, ⟨n, hn⟩, -⟩ := exists_tree_of_compileText h
  have hwords := ht.isWord_of_mem
  obtain ⟨_, r, hdeclare, hbody⟩ := run_bind_eq_ok_iff.1 hn
  have hstore : r.store.HasWords := by
    rw [Store.HasWords, (Grammar.declareAll_run hdeclare).1]
    exact hwords
  obtain ⟨code, hcode, hemitted⟩ :=
    (emitted_declareAll hwords hdeclare).emitted_trans (Statement.emitted_run hstore hbody)
  have hlisting : c.listing.toList = code := hcode
  rw [hlisting]
  exact hemitted

/-! ## Files and sessions -/

/-- The listing has no real among its operands. -/
def Listing.RealFree (l : Listing) : Prop := ∀ i ∈ l.toList, i.RealFree

/-- The job compiles the source and writes the text to a file. -/
def Job.Writes (job : Job) (source : String) (c : Compiled) (text : String) : Prop :=
  ∃ (fuel : Nat) (coloured : Bool) (elapsed file : String) (k : Compilation),
    CompilesTo fuel job.path (.ok source.toUTF8) (.ok k) ∧ k.compiled = c ∧
      (job.report coloured elapsed (.ok k)).write = some (file, text)

theorem run_compileSource {fuel : Nat} {source : String} {c : Compiled}
    (h : compileText fuel source = .ok c) (path : String) {σ : Type}
    (emit : Notice → StateM σ Unit) (s : σ) :
    (compileSource emit fuel path source).run s =
      (some (.ok ⟨path, source, c⟩), emitted emit s (.ok ⟨path, source, c⟩)) := by
  rw [compileSource, h]
  rfl

theorem Job.Writes.eq_json {job : Job} {source text : String} {c : Compiled}
    (h : job.Writes source c text) :
    (∃ fuel, compileText fuel source = .ok c) ∧ text = c.listing.json := by
  obtain ⟨fuel, coloured, elapsed, file, k, hk, rfl, hwrite⟩ := h
  have hrun := hk.run NoticeBoard.emit { keeps := false }
  rw [compileStream_toUTF8] at hrun
  constructor
  · obtain ⟨c, hc, hok, -⟩ | ⟨f, -, herror, -⟩ := compileSource_eq_some hrun
    · cases hok
      exact ⟨fuel, hc⟩
    · cases herror
  · simp only [report] at hwrite
    split at hwrite
    · cases hwrite
    · cases hwrite
      rfl

theorem Job.exists_writes {fuel : Nat} {source : String} {c : Compiled}
    (h : compileText fuel source = .ok c) (job : Job) (hjob : job.noOutput = false) :
    ∃ text, job.Writes source c text := by
  refine ⟨c.listing.json, fuel, false, "", job.target c.name, ⟨job.path, source, c⟩, ?_, rfl, ?_⟩
  · intro board
    rw [compileStream_toUTF8, run_compileSource h]
  · simp only [report, hjob]
    rfl

theorem Json.escape_of_isPlain {c : Char} (h : isPlain c) : escape c = c.toString := by
  simp only [isPlain, isControl, Bool.and_eq_true, Bool.not_eq_true', bne_iff_ne, ne_eq,
    Bool.or_eq_false_iff, decide_eq_false_iff_not] at h
  obtain ⟨⟨⟨hquote, hbackslash⟩, hlow, -⟩, -⟩ := h
  have hne (d : Char) (hd : d.toNat < 0x20) : c ≠ d := by
    rintro rfl
    exact hlow hd
  rw [escape, if_neg hquote, if_neg hbackslash, if_neg (hne _ (by decide)),
    if_neg (hne _ (by decide)), if_neg (hne _ (by decide)), if_neg (by omega), if_neg (by omega),
    if_neg (by omega), if_neg hlow]

/-- A plain text stands in a file as it is, between quotes. -/
theorem Json.string_of_isPlain {s : String} (h : ∀ c ∈ s.toList, isPlain c) :
    string s = "\"" ++ s ++ "\"" := by
  have hinside : (s.toList.flatMap fun c ↦ (escape c).toList) = s.toList := by
    have hmap : (s.toList.map fun c ↦ (escape c).toList) = s.toList.map fun c ↦ [c] := by
      refine List.map_congr_left fun c hc ↦ ?_
      rw [escape_of_isPlain (h c hc), Char.toString_eq_singleton, String.toList_singleton]
    rw [List.flatMap_def, hmap, ← List.flatMap_def, List.flatMap_singleton']
  apply String.toList_inj.1
  rw [toList_string, hinside]
  simp

theorem Snippet.toList_concat (texts : List String) :
    (concat texts).toList = texts.flatMap String.toList := by
  have hfold (acc : String) :
      (texts.foldl (· ++ ·) acc).toList = acc.toList ++ texts.flatMap String.toList := by
    induction texts generalizing acc with
    | nil => simp
    | cons t texts ih => simp [ih]
  simpa [concat] using hfold ""

/-- Lines that are printed one after the other are cut where they end. -/
theorem splitOn_concat {lines : List String} (h : ∀ l ∈ lines, '\n' ∉ l.toList) (rest : String) :
    (Snippet.concat (lines.map (· ++ "\n")) ++ rest).toList.splitOn '\n' =
      lines.map String.toList ++ rest.toList.splitOn '\n' := by
  rw [String.toList_append, Snippet.toList_concat]
  induction lines with
  | nil => rfl
  | cons l lines ih =>
    obtain ⟨hl, hlines⟩ := List.forall_mem_cons.1 h
    rw [List.map_cons, List.flatMap_cons, String.toList_append, List.append_assoc,
      List.append_assoc, List.map_cons, List.cons_append, ← ih hlines,
      List.splitOn_eq_splitOnP, List.splitOn_eq_splitOnP]
    exact List.splitOnP_append_cons_of_forall_mem (Session.beq_newline_of_mem hl) _
      (beq_self_eq_true _) _

/-- Notices are no results. -/
theorem Output.results_emitted (coloured : Bool) (result : Except Failure Compilation) :
    (emitted (Output.emit coloured) {} result).results = "" := by
  have hnotices (notices : List Notice) : ∀ output : Output, output.results = "" →
      ((notices.forM (Output.emit coloured)).run output).2.results = "" := by
    induction notices with
    | nil => exact fun _ houtput ↦ houtput
    | cons n notices ih =>
      intro output houtput
      refine ih (output ++ .message (n.render coloured)) ?_
      exact (String.append_empty : output.results ++ "" = _).trans houtput
  cases result with
  | ok c => exact hnotices c.notices {} rfl
  | error f => rfl

/-- Code is told by its lines, if it has no reals. -/
theorem AllEmitted.eq_of_map_text_eq {code code' : List Instruction} (h : AllEmitted code)
    (h' : AllEmitted code') (hreal : ∀ i ∈ code, i.RealFree) (hreal' : ∀ i ∈ code', i.RealFree)
    (hlines : code.map text = code'.map text) : code = code' := by
  induction code generalizing code' with
  | nil => exact (List.map_eq_nil_iff.1 hlines.symm).symm
  | cons i code ih =>
    obtain ⟨j, rest, rfl, hj, hrest⟩ := List.map_eq_cons_iff.1 hlines.symm
    obtain ⟨hi, hcode⟩ := List.forall_mem_cons.1 h
    obtain ⟨hj', hrest'⟩ := List.forall_mem_cons.1 h'
    obtain ⟨hreali, hreal⟩ := List.forall_mem_cons.1 hreal
    obtain ⟨hrealj, hreal'⟩ := List.forall_mem_cons.1 hreal'
    rw [hi.eq_of_text_eq hj' hreali hrealj hj.symm, ih hcode hrest' hreal hreal' hrest.symm]

/-- **The file of a program determines its listing.** The lines of a listing have plain characters
only, so they need no escapes in a file and are printed one to a line. A file is read as the lines
it was written for, and programs with the same file have the same instructions, if these have no
reals. -/
theorem listing_determined_by_file {fuel : Nat} {source : String} {c : Compiled}
    (h : compileText fuel source = .ok c) :
    (∀ line ∈ c.listing.lines,
      (∀ d ∈ line.toList, isPlain d) ∧ Json.string line = "\"" ++ line ++ "\"") ∧
    (∀ job : Job, job.noOutput = false → ∃ text, job.Writes source c text) ∧
    (∀ (job : Job) (text : String), job.Writes source c text →
      Json.read? text = some c.listing.lines ∧
      ∀ (job' : Job) (source' : String) (c' : Compiled), job'.Writes source' c' text →
        c.listing.RealFree → c'.listing.RealFree → c.listing.toList = c'.listing.toList) ∧
    ∀ coloured, ∃ output, Session.programs.reply fuel coloured source = some output ∧
      output.results.toList.splitOn '\n' =
        c.listing.lines.map String.toList ++ c.store.tables.toList.splitOn '\n' := by
  have hemitted := emitted_of_compileText h
  have hplain : ∀ line ∈ c.listing.lines, ∀ d ∈ line.toList, isPlain d := by
    intro line hline
    obtain ⟨i, hi, rfl⟩ := List.mem_map.1 hline
    exact (hemitted i hi).isPlain_of_mem
  refine ⟨fun line hline ↦ ⟨hplain line hline, Json.string_of_isPlain (hplain line hline)⟩,
    Job.exists_writes h, ?_, ?_⟩
  · intro job text hwrites
    have hread : Json.read? text = some c.listing.lines := by
      rw [hwrites.eq_json.2]
      exact Json.read?_stringArray _
    refine ⟨hread, fun job' source' c' hwrites' hreal hreal' ↦ ?_⟩
    obtain ⟨⟨fuel', h'⟩, htext⟩ := hwrites'.eq_json
    rw [htext] at hread
    have hlines : c'.listing.lines = c.listing.lines :=
      Option.some.inj ((Json.read?_stringArray _).symm.trans hread)
    exact hemitted.eq_of_map_text_eq (emitted_of_compileText h') hreal hreal' hlines.symm
  · intro coloured
    have hreply := run_compileSource h Session.programPath (Output.emit coloured) {}
    generalize hk : (.ok ⟨Session.programPath, source, c⟩ : Except Failure Compilation) = k
      at hreply
    refine ⟨emitted (Output.emit coloured) {} k ++ Session.showProgram coloured k, ?_, ?_⟩
    · simp only [Session.reply, hreply, Option.map_some]
    have hresults :
        (emitted (Output.emit coloured) {} k ++ Session.showProgram coloured k).results =
          Snippet.concat (c.listing.lines.map (· ++ "\n")) ++ c.store.tables := by
      refine (congrArg (· ++ _) (Output.results_emitted coloured k)).trans ?_
      rw [String.empty_append, ← hk]
      rfl
    rw [hresults]
    refine splitOn_concat (fun line hline hnewline ↦ ?_) _
    cases hplain line hline _ hnewline

/-- A program that compiles to certain lines without reals, as far as that can be computed. -/
theorem exists_of_lines (source : String) (lines : List String)
    (h : ((compileText 30 source).toOption.map fun c ↦ (c.listing.lines,
      c.listing.toList.all fun i ↦ i.operands.all fun x ↦ !x.isReal)) = some (lines, true)) :
    ∃ c, compileText 30 source = .ok c ∧ c.listing.lines = lines ∧ c.listing.RealFree := by
  obtain ⟨c, hc, heq⟩ := exists_compiled_of_map h
  obtain ⟨hlines, hreal⟩ := Prod.mk.inj heq
  refine ⟨c, hc, hlines, fun i hi x hx ↦ ?_⟩
  have := List.all_eq_true.1 (List.all_eq_true.1 hreal i hi) x hx
  rwa [Bool.not_eq_true'] at this

theorem listing_determined_by_file_respelled :
    let source := "PROGRAM p; VAR ñ : INTEGER; BEGIN ñ := -2; REPEAT ñ := ñ+1 UNTIL ñ>=0 END."
    let source' := "PROGRAM q; VAR ñ : INTEGER; BEGIN ñ:=(-2); REPEAT ñ:=(ñ+01) UNTIL +ñ>=0 END."
    let lines := ["ñ: .word INTEGER", "< PUSHI 2 >", "< NEG 2 >", "< MOV ñ -2 >", "< MOV $ra 43 >",
      "< PUSH ñ >", "< PUSHI 1 >", "< ADD -2 1 >", "<POP>", "< MOV ñ -1 >", "< PUSH ñ >",
      "< JGE 43 >", "< PUSHI 0 >", "< PUSH ñ >", "< PUSHI 1 >", "< ADD -1 1 >", "<POP>",
      "< MOV ñ 0 >", "< PUSH ñ >", "< JGE 43 >", "< PUSHI 0 >"]
    let job : Job := ⟨"p.pas", none, false, false⟩
    ∃ c c' text, compileText 30 source = .ok c ∧ compileText 30 source' = .ok c' ∧
      c.listing.RealFree ∧ c'.listing.RealFree ∧ job.Writes source c text ∧
      job.Writes source' c' text ∧ Json.read? text = some lines ∧
      c.listing.toList = c'.listing.toList := by
  intro source source' lines job
  obtain ⟨c, hc, hlines, hreal⟩ := exists_of_lines source lines (by decide +kernel)
  obtain ⟨c', hc', hlines', hreal'⟩ := exists_of_lines source' lines (by decide +kernel)
  obtain ⟨-, -, hfile, -⟩ := listing_determined_by_file hc
  obtain ⟨text, hwrites⟩ := Job.exists_writes hc job rfl
  obtain ⟨text', hwrites'⟩ := Job.exists_writes hc' job rfl
  have htext : text' = text := by
    rw [hwrites.eq_json.2, hwrites'.eq_json.2, Listing.json, Listing.json, hlines, hlines']
  subst htext
  obtain ⟨hread, hsame⟩ := hfile _ _ hwrites
  rw [hlines] at hread
  exact ⟨c, c', _, hc, hc', hreal, hreal', hwrites, hwrites', hread,
    hsame _ _ _ hwrites' hreal hreal'⟩

end MiniPascal
