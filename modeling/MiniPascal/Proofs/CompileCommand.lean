import MiniPascal.Command.Run
import MiniPascal.Proofs.FileTrees
import MiniPascal.Proofs.Streaming
import MiniPascal.Proofs.Tracking

/-!
# What compiling does to the files

Compiling a file leaves all files as they are, except the one that the listing is written to. A job
that fails to compile its source, or is told to write no listing, writes nothing at all.

By default the listing goes to the working directory, under the name of the source with another
extension. Nothing keeps that file apart from the source. Where the default path leads to the source
itself, the source is lost: a listing is no program (`Listing.not_compiles`). Without links, that is
where the source stands in the working directory and has the extension of a listing.
-/

namespace MiniPascal

variable {fuel : Nat} {tree : FileTree} {job : Job} {path : String}
  {content : Except FileFault ByteArray} {result : Except Failure Compilation}

/-! ## A listing is no program -/

theorem Listing.exists_json_eq (l : Listing) : ∃ rest, l.json.toList = '[' :: rest := by
  rw [json, Json.stringArray]
  split
  · exact ⟨_, rfl⟩
  · exact ⟨_, by simp; rfl⟩

/-- No token starts with a bracket. -/
theorem Listing.not_compiles (l : Listing) (path : String) (c : Compilation) :
    ¬CompilesTo fuel path (.ok l.json.toUTF8) (.ok c) := by
  intro h
  obtain ⟨rest, hrest⟩ := l.exists_json_eq
  have hnext : (Scanner.ofString l.json).next.1 =
      .error ⟨.unrecognized '[', ⟨0, (⟨0, '['⟩ : Placed).stop⟩⟩ := by
    rw [Scanner.next_fst, Scanner.ofString, Placed.ofString, hrest]
    rfl
  cases hstart : State.start (.ofString l.json) with
  | ok s =>
    obtain ⟨_, hl, -⟩ := State.start_eq_ok_iff.1 hstart
    cases hnext.symm.trans hl
  | error f =>
    have hrun := h { keeps := false }
    rw [compileStream_toUTF8, compileSource, compileText_of_error fuel hstart] at hrun
    cases hrun

/-! ## Runs of a job -/

namespace Job

theorem emitted_print (coloured : Bool) (elapsed : String) (w : World)
    (result : Except Failure Compilation) :
    ∃ output, emitted (fun n ↦ (World.host elapsed).print (.message (n.render coloured))) w
      result = { w with output } := by
  have hposted (notices : List Notice) : ∀ w : World, ∃ output,
      ((notices.forM fun n ↦ (World.host elapsed).print (.message (n.render coloured))).run w).2 =
        { w with output } := by
    induction notices with
    | nil => exact fun w ↦ ⟨w.output, rfl⟩
    | cons n notices ih =>
      exact fun w ↦ ih { w with output := w.output ++ .message (n.render coloured) }
  cases result with
  | ok c => exact hposted c.notices w
  | error f => exact ⟨w.output, rfl⟩

section
variable (coloured : Bool) (elapsed : String) (lines : List ByteArray)

theorem outcome_of_error {f : Failure}
    (h : CompilesTo fuel job.path (tree.read job.path) (.error f)) :
    World.outcome { tree, lines } (job.runOn (World.host elapsed) fuel coloured) =
      some ⟨failureStatus, job.opening coloured ++ .message (f.render coloured), tree⟩ := by
  rw [runOn, World.outcome_bind, World.run_print, World.outcome_bind, World.run_readFile,
    World.outcome_bind, h.run, Output.empty_append]
  rfl

theorem write_report (c : Compilation) : (job.report coloured elapsed (.ok c)).write =
    if job.noOutput then none
    else some (job.target c.compiled.name, c.compiled.listing.json) := rfl

variable {c : Compilation} (h : CompilesTo fuel job.path (tree.read job.path) (.ok c))
include h

theorem outcome_of_noOutput (hno : job.noOutput = true) :
    ∃ output, World.outcome { tree, lines } (job.runOn (World.host elapsed) fuel coloured) =
      some ⟨0, output, tree⟩ := by
  rw [runOn, World.outcome_bind, World.run_print, World.outcome_bind, World.run_readFile,
    World.outcome_bind, h.run]
  obtain ⟨output, hemitted⟩ := emitted_print coloured elapsed
    ⟨tree, lines, {} ++ job.opening coloured⟩ (.ok c)
  rw [hemitted]
  dsimp only
  rw [World.outcome_bind, World.run_elapsed, World.outcome_bind, World.run_print, write_report,
    if_pos hno]
  exact ⟨_, rfl⟩

variable (hno : job.noOutput = false)
include hno

/-- A job that writes does so after all of its source was compiled. -/
theorem exists_world (file : String) (hfile : file = job.target c.compiled.name) :
    ∃ w : World, w.tree = tree ∧
      World.outcome { tree, lines } (job.runOn (World.host elapsed) fuel coloured) =
        w.outcome (do
          let written ← (World.host elapsed).writeFile file c.compiled.listing.json.toUTF8
          (World.host elapsed).print (closing coloured file written)
          return some (if written.isOk then 0 else failureStatus)) := by
  rw [runOn, World.outcome_bind, World.run_print, World.outcome_bind, World.run_readFile,
    World.outcome_bind, h.run]
  obtain ⟨output, hemitted⟩ := emitted_print coloured elapsed
    ⟨tree, lines, {} ++ job.opening coloured⟩ (.ok c)
  rw [hemitted]
  dsimp only
  rw [World.outcome_bind, World.run_elapsed, World.outcome_bind, World.run_print, write_report,
    if_neg (by simp [hno]), hfile]
  exact ⟨_, rfl, rfl⟩

theorem outcome_of_written {t : FileTree}
    (hwrite : tree.write (job.target c.compiled.name) c.compiled.listing.json.toUTF8 = .ok t) :
    ∃ output, World.outcome { tree, lines } (job.runOn (World.host elapsed) fuel coloured) =
      some ⟨0, output, t⟩ := by
  obtain ⟨w, rfl, hw⟩ := exists_world coloured elapsed lines h hno _ rfl
  rw [hw, World.outcome_bind, World.run_writeFile_ok w elapsed hwrite]
  exact ⟨_, rfl⟩

theorem outcome_of_not_written {f : FileFault}
    (hwrite : tree.write (job.target c.compiled.name) c.compiled.listing.json.toUTF8 = .error f) :
    ∃ output, World.outcome { tree, lines } (job.runOn (World.host elapsed) fuel coloured) =
      some ⟨failureStatus, output, tree⟩ := by
  obtain ⟨w, rfl, hw⟩ := exists_world coloured elapsed lines h hno _ rfl
  rw [hw, World.outcome_bind, World.run_writeFile_error w elapsed hwrite]
  exact ⟨_, rfl⟩

end

/-! ## Sources and listings -/

/-- A source that is compiled has been read. -/
theorem exists_read {c : Compilation} (h : CompilesTo fuel job.path (tree.read job.path) (.ok c)) :
    ∃ content, tree.read job.path = .ok content := by
  cases hread : tree.read job.path with
  | error f =>
    have hrun := h { keeps := false }
    rw [hread] at hrun
    cases hrun
  | ok content => exact ⟨content, rfl⟩

/-- The listing of a job goes to the file that was asked for, or to one with the name of the source
and the extension `json` in the working directory. If that file cannot be written, nothing is; if it
can, it is the only one that differs. Written to the default file, a listing leaves the source as it
was unless that file is the source. Without links, it is the source if and only if the source stands
in the working directory and has the extension `json`. -/
def Delivers (job : Job) (tree : FileTree) (listing : ByteArray) (outcome : Outcome) : Prop :=
  ∃ source name file, tree.resolve job.path = .ok source ∧ Path.fileName? job.path = some name ∧
    file = job.output.getD (Path.withExtension name "json") ∧
    (∀ f, tree.write file listing = .error f → outcome.tree = tree ∧ outcome.status = 1) ∧
    ∀ t, tree.write file listing = .ok t → outcome.tree = t ∧ outcome.status = 0 ∧
      ∃ place number, tree.resolve file = .ok place ∧ tree.WrittenAt place number listing t ∧
        (job.output = none → Path.Replaced "json" name file ∧
          (place = tree.workingDirectory ++ [file] ∨
            ∃ target, tree.get? (tree.workingDirectory ++ [file]) = some (.link target)) ∧
          (t.read job.path = tree.read job.path ↔ ¬tree.SameFile source place) ∧
          (tree.LinkFree → (tree.SameFile source place ↔
            source = tree.workingDirectory ++ [name] ∧ Path.HasExtension name "json")))

section
variable (htree : tree.WellFormed) {c : Compilation}
  (h : CompilesTo fuel job.path (tree.read job.path) (.ok c))
include htree h

/-- **The source has a name**, which its path ends in. -/
theorem exists_name : ∃ source number name, tree.resolve job.path = .ok source ∧
    tree.get? source = some (.file number) ∧ tree.read job.path = .ok (tree.content number) ∧
    Path.fileName? job.path = some name ∧
    job.target c.compiled.name = job.output.getD (Path.withExtension name "json") := by
  obtain ⟨content, hread⟩ := exists_read h
  obtain ⟨source, number, hresolve, hfile, rfl, hpath⟩ := FileTree.read_eq_ok_iff.1 hread
  obtain ⟨name, hname⟩ :=
    FileTree.exists_fileName_of_resolve htree hresolve hpath (by simp [hfile])
  refine ⟨source, number, name, hresolve, hfile, hread, hname, ?_⟩
  rw [target, hname, Option.getD_some]

omit htree in
/-- A source is lost if its listing is written over it, and only then. -/
theorem read_source_iff {source place : Place} {n number : Nat} {l : Listing} {t : FileTree}
    (hsource : tree.resolve job.path = .ok source) (hfile : tree.get? source = some (.file n))
    (hread : tree.read job.path = .ok (tree.content n))
    (hwritten : tree.WrittenAt place number l.json.toUTF8 t) :
    t.read job.path = tree.read job.path ↔ ¬tree.SameFile source place := by
  rw [hwritten.read_eq hread hsource hfile, hread, ← hwritten.eq_number_iff hfile]
  split
  · next hsame =>
    refine iff_of_false (fun hkept ↦ ?_) (not_not_intro hsame)
    rw [hread, ← Except.ok.inj hkept] at h
    exact l.not_compiles _ _ h
  · next hne => exact iff_of_true rfl hne

omit h in
/-- The default file of a listing is in the working directory. -/
theorem place_of_default {name : String} {source place : Place}
    (hsource : tree.resolve job.path = .ok source) (hname : Path.fileName? job.path = some name)
    (hresolve : tree.resolve (Path.withExtension name "json") = .ok place)
    (hplace : tree.get? place ≠ some .directory) {n : Nat}
    (hfile : tree.get? source = some (.file n)) :
    Path.Replaced "json" name (Path.withExtension name "json") ∧
      (place = tree.workingDirectory ++ [Path.withExtension name "json"] ∨
        ∃ target, tree.get? (tree.workingDirectory ++ [Path.withExtension name "json"]) =
          some (.link target)) ∧
      (tree.LinkFree → (tree.SameFile source place ↔
        source = tree.workingDirectory ++ [name] ∧ Path.HasExtension name "json")) := by
  obtain ⟨hlast, hdots⟩ := Path.fileName?_eq_some_iff.1 hname
  have hmem := List.mem_of_getLast? hlast
  obtain ⟨hslash, hdot⟩ := Path.withExtension_isName (Path.notMem_of_mem_pieces hmem)
    (by decide : "json" ≠ "") (by decide)
  obtain ⟨hnot, hin⟩ := FileTree.resolve_name htree hslash hdot hresolve hplace
  have hreplaced := Path.replaced_withExtension hnot
  refine ⟨hreplaced, hin, fun hfree ↦ ?_⟩
  have hin : place = tree.workingDirectory ++ [Path.withExtension name "json"] :=
    hin.resolve_right fun ⟨target, htarget⟩ ↦ hfree.ne_link _ _ htarget
  rw [← hreplaced.eq_self_iff (by decide), hin]
  constructor
  · intro hsame
    have heq := hfree.eq_of_sameFile _ _ hsame
    obtain ⟨d, hd⟩ := (FileTree.leads_of_resolve hsource).exists_concat hfree.ne_link hlast hdots
      (Path.ne_dot_of_mem_pieces hmem)
    rw [hd, List.append_singleton_inj] at heq
    rw [hd, heq.1]
    exact ⟨rfl, heq.2.symm⟩
  · rintro ⟨hsource, hsame⟩
    rw [hsame, ← hsource]
    exact ⟨n, hfile, hfile⟩

/-- **A source that is compiled** has its listing delivered. -/
theorem exists_delivered (hno : job.noOutput = false) (coloured : Bool) (elapsed : String)
    (lines : List ByteArray) :
    ∃ outcome, World.outcome { tree, lines } (job.runOn (World.host elapsed) fuel coloured) =
        some outcome ∧ outcome.tree.WellFormed ∧
      job.Delivers tree c.compiled.listing.json.toUTF8 outcome := by
  obtain ⟨source, n, name, hsource, hfile, hread, hname, htarget⟩ := exists_name htree h
  cases hwrite : tree.write (job.target c.compiled.name) c.compiled.listing.json.toUTF8 with
  | error f =>
    obtain ⟨output, hrun⟩ := outcome_of_not_written coloured elapsed lines h hno hwrite
    rw [htarget] at hwrite
    refine ⟨_, hrun, htree, source, name, _, hsource, hname, rfl, fun _ _ ↦ ⟨rfl, rfl⟩,
      fun t ht ↦ ?_⟩
    cases hwrite.symm.trans ht
  | ok t =>
    obtain ⟨output, hrun⟩ := outcome_of_written coloured elapsed lines h hno hwrite
    have ht := htree.write hwrite
    rw [htarget] at hwrite
    refine ⟨_, hrun, ht, source, name, _, hsource, hname, rfl, fun f hf ↦ ?_, fun t' ht' ↦ ?_⟩
    · cases hwrite.symm.trans hf
    · cases hwrite.symm.trans ht'
      obtain ⟨place, number, hresolve, -, hwritten⟩ := FileTree.exists_writtenAt hwrite
      refine ⟨rfl, rfl, place, number, hresolve, hwritten, fun hnone ↦ ?_⟩
      rw [hnone, Option.getD_none] at hresolve ⊢
      obtain ⟨hreplaced, hin, hfree⟩ :=
        place_of_default htree hsource hname hresolve hwritten.get?_ne_directory hfile
      exact ⟨hreplaced, hin, read_source_iff h hsource hfile hread hwritten, hfree⟩

end

end Job

/-- **Compiling touches only its output.** Suppose that compiling the source of a job ends. If it
fails, the command fails and prints no results. If it fails, or no listing is asked for, all files
are left as they are. Otherwise the listing is delivered, and no other file is touched. -/
theorem compile_touches_output_only (htree : tree.WellFormed)
    (h : CompilesTo fuel job.path (tree.read job.path) result) (coloured : Bool)
    (elapsed : String) (input : ByteArray) :
    ∃ outcome, (Command.compile job).run fuel coloured elapsed tree input = some outcome ∧
      outcome.tree.WellFormed ∧
      (∀ f, result = .error f →
        outcome.tree = tree ∧ outcome.status = 1 ∧ outcome.output.results = "") ∧
      (job.noOutput = true → outcome.tree = tree) ∧
      ∀ c, result = .ok c → job.noOutput = false →
        job.Delivers tree c.compiled.listing.json.toUTF8 outcome := by
  cases result with
  | error f =>
    refine ⟨_, Job.outcome_of_error coloured elapsed _ h, htree, fun _ _ ↦ ⟨rfl, rfl, rfl⟩,
      fun _ ↦ rfl, fun c hc ↦ ?_⟩
    cases hc
  | ok c =>
    by_cases hno : job.noOutput = true
    · obtain ⟨output, hrun⟩ := Job.outcome_of_noOutput coloured elapsed _ h hno
      refine ⟨_, hrun, htree, fun f hf ↦ ?_, fun _ ↦ rfl, fun _ _ hyes ↦ ?_⟩
      · cases hf
      · cases hno.symm.trans hyes
    · obtain ⟨outcome, hrun, ht, hdelivers⟩ :=
        Job.exists_delivered htree h (by simpa using hno) coloured elapsed _
      refine ⟨outcome, hrun, ht, fun f hf ↦ ?_, fun hyes ↦ absurd hyes hno, fun c' hc' _ ↦ ?_⟩
      · cases hf
      · cases hc'
        exact hdelivers

/-- A tree with a program under a name in a directory, and links beside the directory. -/
def sampleTree (workingDirectory : Place) (name : String) (links : List (Place × FileEntry)) :
    FileTree where
  entries := ⟨(["src", name], .file 0) :: (["src"], .directory) :: links⟩
  contents := ⟨[(0, "PROGRAM p; VAR x : REAL; BEGIN x := 1 / 2 END.".toUTF8)]⟩
  workingDirectory

theorem exists_compilesTo (h : ((compileStream NoticeBoard.emit fuel path content).run
    { keeps := false }).1.any Except.isOk = true) : ∃ c, CompilesTo fuel path content (.ok c) := by
  obtain ⟨result, hresult, hok⟩ := (Option.any_eq_true _ _).1 h
  cases result with
  | error f => cases hok
  | ok c =>
    have hrun := (emitted_of_compileStream (Prod.ext hresult rfl)).2 NoticeBoard.emit
    exact ⟨c, fun board ↦ by rw [hrun]⟩

/-- A source with the extension `json` is kept if it stands elsewhere. A source is lost if the name
of its listing is that of a link to it. -/
theorem compile_touches_output_only_elsewhere :
    let tree := sampleTree [] "a.b.json" []
    let linked := sampleTree [] "p.pas" [(["p.json"], .link "src/p.pas")]
    (tree.WellFormed ∧ ∃ c, CompilesTo 30 "./src/../src/a.b.json"
        (tree.read "./src/../src/a.b.json") (.ok c) ∧
      ∃ outcome, (Command.compile ⟨"./src/../src/a.b.json", none, false, false⟩).run 30 false ""
          tree .empty = some outcome ∧ outcome.status = 0 ∧
        tree.WrittenAt ["a.b.json"] 1 c.compiled.listing.json.toUTF8 outcome.tree ∧
        outcome.tree.read "./src/../src/a.b.json" = tree.read "./src/../src/a.b.json") ∧
    (linked.WellFormed ∧ ∃ c, CompilesTo 30 "src/p.pas" (linked.read "src/p.pas") (.ok c) ∧
      ∃ outcome, (Command.compile ⟨"src/p.pas", none, false, false⟩).run 30 false ""
          linked .empty = some outcome ∧ outcome.status = 0 ∧
        linked.WrittenAt ["src", "p.pas"] 0 c.compiled.listing.json.toUTF8 outcome.tree ∧
        outcome.tree.read "src/p.pas" ≠ linked.read "src/p.pas") := by
  intro tree linked
  have htree : tree.WellFormed := FileTree.wellFormed_of_entries (by decide)
  have hlinked : linked.WellFormed := FileTree.wellFormed_of_entries (by decide)
  obtain ⟨c, hc⟩ : ∃ c, CompilesTo 30 "./src/../src/a.b.json" (tree.read "./src/../src/a.b.json")
      (.ok c) := exists_compilesTo (by decide +kernel)
  obtain ⟨c', hc'⟩ : ∃ c, CompilesTo 30 "src/p.pas" (linked.read "src/p.pas") (.ok c) :=
    exists_compilesTo (by decide +kernel)
  constructor
  · obtain ⟨outcome, hrun, -, -, -, hdelivers⟩ :=
      @compile_touches_output_only 30 tree ⟨"./src/../src/a.b.json", none, false, false⟩ _ htree hc
        false "" .empty
    obtain ⟨source, name, file, hsource, hname, rfl, -, hwritten⟩ := hdelivers c rfl rfl
    obtain rfl : source = ["src", "a.b.json"] := Except.ok.inj (hsource.symm.trans rfl)
    obtain rfl : name = "a.b.json" := Option.some.inj (hname.symm.trans rfl)
    obtain ⟨htree', hstatus, place, number, hresolve, hwritten, hdefault⟩ := hwritten _ rfl
    obtain rfl : place = ["a.b.json"] := Except.ok.inj (hresolve.symm.trans rfl)
    obtain rfl : number = 1 :=
      FileEntry.file.inj (Option.some.inj (hwritten.written.symm.trans rfl))
    obtain ⟨-, -, hkept, -⟩ := hdefault rfl
    rw [← htree'] at hwritten hkept
    refine ⟨htree, c, hc, outcome, hrun, hstatus, hwritten, hkept.2 ?_⟩
    rintro ⟨n, -, hn⟩
    cases hn
  · obtain ⟨outcome, hrun, -, -, -, hdelivers⟩ :=
      @compile_touches_output_only 30 linked ⟨"src/p.pas", none, false, false⟩ _ hlinked hc'
        false "" .empty
    obtain ⟨source, name, file, hsource, hname, rfl, -, hwritten⟩ := hdelivers c' rfl rfl
    obtain rfl : source = ["src", "p.pas"] := Except.ok.inj (hsource.symm.trans rfl)
    obtain rfl : name = "p.pas" := Option.some.inj (hname.symm.trans rfl)
    obtain ⟨htree', hstatus, place, number, hresolve, hwritten, hdefault⟩ := hwritten _ rfl
    obtain rfl : place = ["src", "p.pas"] := Except.ok.inj (hresolve.symm.trans rfl)
    obtain rfl : number = 0 :=
      FileEntry.file.inj (Option.some.inj (hwritten.written.symm.trans rfl))
    obtain ⟨-, -, hkept, -⟩ := hdefault rfl
    rw [← htree'] at hwritten hkept
    exact ⟨hlinked, c', hc', outcome, hrun, hstatus, hwritten,
      fun heq ↦ hkept.1 heq ⟨0, rfl, rfl⟩⟩

/-- A source with the extension `json` in the working directory makes way for its listing. -/
theorem compile_overwrites_source :
    let tree := sampleTree ["src"] "p.json" []
    tree.WellFormed ∧
    ∃ outcome, (Command.compile ⟨"p.json", none, false, false⟩).run 30 false "" tree .empty =
        some outcome ∧ outcome.status = 0 ∧ outcome.tree.read "p.json" ≠ tree.read "p.json" := by
  intro tree
  have hrun : ((Command.compile ⟨"p.json", none, false, false⟩).run 30 false "" tree .empty).any
      (fun o ↦ o.status == 0 && (o.tree.read "p.json").toOption.map ByteArray.toList !=
        (tree.read "p.json").toOption.map ByteArray.toList) = true := by
    decide +kernel
  obtain ⟨outcome, hrun, hcheck⟩ := (Option.any_eq_true _ _).1 hrun
  rw [Bool.and_eq_true, beq_iff_eq, bne_iff_ne] at hcheck
  refine ⟨FileTree.wellFormed_of_entries (by decide), outcome, hrun, hcheck.1,
    fun heq ↦ hcheck.2 ?_⟩
  rw [heq]

end MiniPascal
