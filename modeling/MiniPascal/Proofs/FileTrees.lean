import MiniPascal.File.Tree

/-!
# Files and their names

Where a path leads in a file tree, and what is changed by writing there. The tree of a file system
is well-formed: whatever holds an entry is a directory. In such a tree only a path whose last piece
is a name leads to a file (`exists_fileName_of_resolve`). Where it leads through links is told apart
from how many of them are allowed (`Leads`).

A write changes one file (`WrittenAt`), which may have several names. What stood at a place before
is still there, so all paths lead to where they led (`WrittenAt.resolve_eq`), and a file is read as
before unless it is the one that was written.
-/

namespace MiniPascal

/-! ## Names -/

namespace Path

/-- The second name is the first with its extension replaced, which is what stands behind the last
dot. A dot in front of a name starts no extension; a name without one is given it. -/
inductive Replaced (extension : String) : String → String → Prop
  | replace {stem old : String} (hstem : stem ≠ "") (hold : '.' ∉ old.toList) :
    Replaced extension (stem ++ "." ++ old) (stem ++ "." ++ extension)
  | add {name : String} (h : '.' ∉ name.toList.tail) :
    Replaced extension name (name ++ "." ++ extension)

/-- The name has the extension. -/
def HasExtension (name extension : String) : Prop :=
  ∃ stem, stem ≠ "" ∧ name = stem ++ "." ++ extension

variable {name file extension : String}

theorem toList_dotted (stem extension : String) :
    (stem ++ "." ++ extension).toList = stem.toList ++ '.' :: extension.toList := by
  simp

theorem Replaced.ne_dot (h : Replaced extension name file) (hextension : extension ≠ "") :
    file ≠ "." := by
  have hdotted (stem : String) : stem ++ "." ++ extension ≠ "." := by
    intro heq
    have hlength := congrArg String.length heq
    have hpositive : extension.length ≠ 0 := by simpa using hextension
    simp only [String.length_append] at hlength
    omega
  cases h with
  | replace => exact hdotted _
  | add => exact hdotted _

/-- What stands behind the last dot of a name is dropped when the name is read backwards. -/
theorem dropWhile_undotted {cs : List Char} (h : '.' ∉ cs) (rest : List Char) :
    (cs.reverse ++ rest).dropWhile (fun c ↦ decide (c ≠ '.')) =
      rest.dropWhile fun c ↦ decide (c ≠ '.') := by
  refine List.dropWhile_append_of_pos fun c hc ↦ ?_
  rw [List.mem_reverse] at hc
  exact decide_eq_true (ne_of_mem_of_not_mem hc h)

theorem dropWhile_dotted (stem : String) {old : String} (h : '.' ∉ old.toList) :
    (stem ++ "." ++ old).toList.reverse.dropWhile (fun c ↦ decide (c ≠ '.')) =
      '.' :: stem.toList.reverse := by
  rw [toList_dotted, List.reverse_append, List.reverse_cons, List.append_assoc,
    dropWhile_undotted h]
  rfl

/-- A name is cut at its last dot in one way. -/
theorem eq_of_dotted_eq {stem stem' old old' : String} (hold : '.' ∉ old.toList)
    (hold' : '.' ∉ old'.toList) (h : stem ++ "." ++ old = stem' ++ "." ++ old') : old = old' := by
  have hstem := dropWhile_dotted stem hold
  rw [h, dropWhile_dotted stem' hold', List.cons.injEq, List.reverse_inj,
    String.toList_inj] at hstem
  rw [hstem.2] at h
  exact String.append_right_inj _ |>.1 h

theorem Replaced.eq_self_iff (h : Replaced extension name file)
    (hextension : '.' ∉ extension.toList) : file = name ↔ HasExtension name extension := by
  cases h with
  | @replace stem old hstem hold =>
    constructor
    · intro heq
      exact ⟨stem, hstem, heq.symm⟩
    · rintro ⟨stem', -, heq⟩
      rw [eq_of_dotted_eq hold hextension heq]
  | add hname =>
    constructor
    · intro heq
      have hlength := congrArg String.length heq
      simp only [String.length_append] at hlength
      have hdot : ".".length = 1 := rfl
      omega
    · rintro ⟨stem, hstem, rfl⟩
      obtain ⟨c, cs, hcs⟩ := List.exists_cons_of_ne_nil (by simpa using hstem : stem.toList ≠ [])
      rw [toList_dotted, hcs] at hname
      exact absurd (by simp) hname

theorem Replaced.mem_toList {c : Char} (h : Replaced extension name file) (hc : c ∈ file.toList) :
    c ∈ name.toList ∨ c = '.' ∨ c ∈ extension.toList := by
  cases h with
  | replace hstem hold =>
    simp only [toList_dotted, List.mem_append, List.mem_cons] at hc ⊢
    rcases hc with hc | hc
    · exact .inl (.inl hc)
    · exact .inr hc
  | add hname =>
    rwa [toList_dotted, List.mem_append, List.mem_cons] at hc

theorem stem?_of_notMem (h : '.' ∉ name.toList) : stem? name = none := by
  have hdrop := dropWhile_undotted h []
  rw [List.append_nil, List.dropWhile_nil] at hdrop
  simp only [stem?, hdrop]

theorem stem?_dotted (stem : String) {old : String} (h : '.' ∉ old.toList) :
    stem? (stem ++ "." ++ old) = if stem = "" then none else some stem := by
  simp only [stem?, dropWhile_dotted stem h, List.isEmpty_reverse, List.reverse_reverse,
    String.ofList_toList]
  by_cases hstem : stem = "" <;> simp [hstem]

/-- A name has a last dot, or none at all. -/
theorem exists_dotted (name : String) :
    '.' ∉ name.toList ∨ ∃ stem old, '.' ∉ old.toList ∧ name = stem ++ "." ++ old := by
  by_cases h : '.' ∈ name.toList
  · obtain ⟨after, before, hcut, hafter⟩ := List.eq_append_cons_of_mem (List.mem_reverse.2 h)
    refine .inr ⟨.ofList before.reverse, .ofList after.reverse, by simpa using hafter, ?_⟩
    apply String.toList_inj.1
    rw [toList_dotted, String.toList_ofList, String.toList_ofList,
      ← List.reverse_reverse name.toList, hcut]
    simp
  · exact .inl h

theorem withExtension_of_notMem (h : '.' ∉ name.toList) (extension : String) :
    withExtension name extension = name ++ "." ++ extension := by
  rw [withExtension, stem?_of_notMem h]

/-- What comes of a name with a dot. Cut back to a single dot, it leads to the directory above. -/
theorem withExtension_dotted (stem : String) {old : String} (h : '.' ∉ old.toList)
    (extension : String) : withExtension (stem ++ "." ++ old) extension =
      if stem = "" then stem ++ "." ++ old ++ "." ++ extension
      else if stem = "." then ".." else stem ++ "." ++ extension := by
  rw [withExtension, stem?_dotted stem h]
  by_cases hstem : stem = ""
  · rw [if_pos hstem, if_pos hstem]
  · rw [if_neg hstem, if_neg hstem]
    split
    · next heq => rw [Option.some.inj heq, if_pos rfl]
    · next hne heq =>
      cases heq
      rw [if_neg hne]
    · next heq => cases heq

theorem replaced_withExtension (h : withExtension name extension ≠ "..") :
    Replaced extension name (withExtension name extension) := by
  rcases exists_dotted name with hname | ⟨stem, old, hold, rfl⟩
  · rw [withExtension_of_notMem hname]
    exact .add fun htail ↦ hname (List.mem_of_mem_tail htail)
  · rw [withExtension_dotted stem hold] at h ⊢
    by_cases hstem : stem = ""
    · subst hstem
      exact .add (by simpa using hold)
    · rw [if_neg hstem] at h ⊢
      by_cases hdot : stem = "."
      · exact absurd (if_pos hdot) h
      · rw [if_neg hdot]
        exact .replace hstem hold

/-- A name with another extension is a name as well, or two dots. -/
theorem withExtension_isName (hname : '/' ∉ name.toList) (hne : extension ≠ "")
    (hextension : '/' ∉ extension.toList) :
    '/' ∉ (withExtension name extension).toList ∧ withExtension name extension ≠ "." := by
  by_cases h : withExtension name extension = ".."
  · rw [h]
    decide
  · have hreplaced := replaced_withExtension h
    refine ⟨fun hslash ↦ ?_, hreplaced.ne_dot hne⟩
    rcases hreplaced.mem_toList hslash with hslash | hslash | hslash
    · exact hname hslash
    · cases hslash
    · exact hextension hslash

/-! ## Pieces -/

theorem notMem_of_mem_splitOn {cs piece : List Char} (h : piece ∈ cs.splitOn '/') :
    '/' ∉ piece := by
  induction cs generalizing piece with
  | nil =>
    rw [List.splitOn_nil, List.mem_singleton] at h
    rw [h]
    exact List.not_mem_nil
  | cons c cs ih =>
    rw [List.splitOn_cons_eq_if_modifyHead] at h
    by_cases hc : (c == '/') = true
    · rw [if_pos hc] at h
      rcases List.mem_cons.1 h with rfl | h
      · exact List.not_mem_nil
      · exact ih h
    · obtain ⟨first, rest, hsplit⟩ := List.exists_cons_of_ne_nil (List.splitOn_ne_nil '/' cs)
      rw [if_neg hc, hsplit, List.modifyHead_cons] at h
      rw [hsplit] at ih
      rcases List.mem_cons.1 h with rfl | h
      · have hfirst : '/' ∉ first := ih List.mem_cons_self
        have hne : '/' ≠ c := fun heq ↦ hc (by simp [← heq])
        simp [hne, hfirst]
      · exact ih (List.mem_cons_of_mem _ h)

/-- A path that is cut into pieces of which the last is empty is empty or ends in a slash. -/
theorem getLast?_of_splitOn {cs : List Char} (h : (cs.splitOn '/').getLast? = some []) :
    cs = [] ∨ cs.getLast? = some '/' := by
  induction cs with
  | nil => exact .inl rfl
  | cons c cs ih =>
    right
    obtain ⟨first, rest, hsplit⟩ := List.exists_cons_of_ne_nil (List.splitOn_ne_nil '/' cs)
    rw [List.splitOn_cons_eq_if_modifyHead] at h
    by_cases hc : (c == '/') = true
    · rw [if_pos hc, hsplit, List.getLast?_cons_cons, ← hsplit] at h
      rcases ih h with rfl | hlast
      · simpa using hc
      · rw [List.getLast?_cons, hlast, Option.getD_some]
    · rw [if_neg hc, hsplit, List.modifyHead_cons] at h
      cases rest with
      | nil => simp at h
      | cons second rest =>
        rw [List.getLast?_cons_cons] at h
        rw [hsplit, List.getLast?_cons_cons] at ih
        rcases ih h with rfl | hlast
        · rw [List.splitOn_nil] at hsplit
          cases hsplit
        · rw [List.getLast?_cons, hlast, Option.getD_some]

theorem components_of_notMem {path : String} (h : '/' ∉ path.toList) :
    components path = [path] := by
  rw [components, List.splitOn_eq_singleton h, List.map_singleton, String.ofList_toList]

theorem notMem_of_mem_pieces {path piece : String} (h : piece ∈ pieces path) :
    '/' ∉ piece.toList := by
  obtain ⟨cs, hcs, rfl⟩ := List.mem_map.1 (List.mem_filter.1 h).1
  rw [String.toList_ofList]
  exact notMem_of_mem_splitOn hcs

theorem ne_dot_of_mem_pieces {path piece : String} (h : piece ∈ pieces path) : piece ≠ "." :=
  (of_decide_eq_true (List.mem_filter.1 h).2).2

theorem fileName?_eq_some_iff {path : String} :
    fileName? path = some name ↔ (pieces path).getLast? = some name ∧ name ≠ ".." := by
  rw [fileName?]
  split
  · next h => simp [h, eq_comm]
  · next h =>
    constructor
    · intro hname
      refine ⟨hname, fun hdots ↦ ?_⟩
      exact h (by rw [hname, hdots])
    · exact fun hname ↦ hname.1

/-- A path with nothing in it that leads somewhere asks for a directory. -/
theorem asksForDirectory_of_pieces_eq_nil {path : String} (hpath : path ≠ "")
    (h : pieces path = []) : asksForDirectory path = true := by
  have hne : path.toList.splitOn '/' ≠ [] := List.splitOn_ne_nil _ _
  obtain ⟨init, last, hcut⟩ := (List.eq_nil_or_concat _).resolve_left hne
  rw [List.concat_eq_append] at hcut
  have hcomponents : components path = init.map String.ofList ++ [String.ofList last] := by
    rw [components, hcut, List.map_append, List.map_singleton]
  have hlast : String.ofList last ≠ "" → String.ofList last = "." := by
    simpa using List.filter_eq_nil_iff.1 h (String.ofList last) (by simp [hcomponents])
  rw [asksForDirectory, hcomponents, List.getLast?_concat, Bool.or_eq_true]
  by_cases hempty : String.ofList last = ""
  · left
    have hnil : last = [] := by simpa using hempty
    rw [hnil] at hcut
    rcases getLast?_of_splitOn (by rw [hcut, List.getLast?_concat]) with hpath' | hslash
    · exact absurd (by simpa using hpath') hpath
    · simp [endsInSlash, hslash]
  · exact .inr (by simp [hlast hempty])

theorem pieces_of_name (hslash : '/' ∉ name.toList) (hne : name ≠ "") (hdot : name ≠ ".") :
    pieces name = [name] := by
  simp [pieces, components_of_notMem hslash, hne, hdot]

theorem isAbsolute_of_name (hslash : '/' ∉ name.toList) : isAbsolute name = false := by
  cases hcs : name.toList with
  | nil => simp [isAbsolute, hcs]
  | cons c cs =>
    rw [hcs, List.mem_cons, not_or] at hslash
    simpa [isAbsolute, hcs] using Ne.symm hslash.1

end Path

namespace FileTree

/-! ## Places -/

/-- Whatever holds an entry is a directory. -/
def WellFormed (t : FileTree) : Prop :=
  ∀ p e, t.get? p = some e → t.get? p.dropLast = some .directory

variable {t t' : FileTree} {path : String} {p q place : Place} {content : ByteArray}

theorem get?_nil (t : FileTree) : t.get? [] = some .directory := rfl

theorem get?_of_ne_nil (t : FileTree) (h : p ≠ []) : t.get? p = t.entries.get? p :=
  if_neg (by simpa using h)

theorem wellFormed_of_entries (h : ∀ x ∈ t.entries.pairs, t.get? x.1.dropLast = some .directory) :
    t.WellFormed := by
  intro p e hp
  by_cases hnil : p = []
  · rw [hnil]
    rfl
  · rw [get?_of_ne_nil t hnil] at hp
    exact h _ (t.entries.mem_pairs_of_get? hp)

theorem get?_put_self (t : FileTree) (h : p ≠ []) (e : FileEntry) :
    (t.put p e).get? p = some e := by
  rw [get?_of_ne_nil _ h]
  exact t.entries.get?_insert_self p e

theorem get?_put_of_ne (t : FileTree) (h : q ≠ p) (e : FileEntry) :
    (t.put p e).get? q = t.get? q := by
  rw [get?, get?, put, t.entries.get?_insert_of_ne h]

theorem content_fill (t : FileTree) (n m : Nat) (content : ByteArray) :
    (t.fill n content).content m = if m = n then content else t.content m := by
  rw [FileTree.content, fill, t.contents.get?_insert]
  split
  · rfl
  · rfl

theorem lt_foldr_of_mem {n : Nat} {ns : List Nat} (h : n ∈ ns) :
    n < ns.foldr (fun n m ↦ max (n + 1) m) 0 := by
  induction ns with
  | nil => cases h
  | cons k ns ih =>
    rw [List.foldr_cons]
    rcases List.mem_cons.1 h with rfl | h
    · omega
    · have := ih h
      omega

/-- The number of a new file is that of no other. -/
theorem number_ne_fresh {n : Nat} (h : t.get? p = some (.file n)) : n ≠ t.fresh := by
  have hne : p ≠ [] := by
    rintro rfl
    cases h
  rw [get?_of_ne_nil t hne] at h
  exact Nat.ne_of_lt (lt_foldr_of_mem
    (List.mem_filterMap.2 ⟨_, t.entries.mem_pairs_of_get? h, rfl⟩))

/-! ## Where paths lead -/

/-- Pieces of a path lead from a place to a place, through any number of links. -/
inductive Leads (t : FileTree) : Place → List String → Place → Prop
  | here (p : Place) : Leads t p [] p
  | enter {p q : Place} {piece : String} {rest : List String} (hp : t.get? p = some .directory)
    (hentry : ∀ target, t.get? (FileTree.enter p piece) ≠ some (.link target))
    (h : Leads t (FileTree.enter p piece) rest q) : Leads t p (piece :: rest) q
  | link {p q : Place} {piece target : String} {rest : List String}
    (hp : t.get? p = some .directory)
    (hentry : t.get? (FileTree.enter p piece) = some (.link target))
    (h : Leads t (if Path.isAbsolute target then [] else p) (Path.steps target ++ rest) q) :
    Leads t p (piece :: rest) q

theorem leads_of_followWith {atLink : Place → List String → Except FileFault Place}
    (hlink : ∀ p pieces q, atLink p pieces = .ok q → t.Leads p pieces q) {pieces : List String}
    (h : t.followWith atLink p pieces = .ok q) : t.Leads p pieces q := by
  induction pieces generalizing p with
  | nil =>
    cases h
    exact .here _
  | cons piece rest ih =>
    rw [followWith] at h
    split at h
    · cases h
    · next hp =>
      split at h
      · next hentry => exact .link hp hentry (hlink _ _ _ h)
      · next hentry => exact .enter hp hentry (ih h)
    · cases h

theorem leads_of_follow {links : Nat} {pieces : List String} (h : t.follow links p pieces = .ok q) :
    t.Leads p pieces q := by
  induction links generalizing p pieces q with
  | zero => exact leads_of_followWith (fun _ _ _ h ↦ by cases h) h
  | succ links ih => exact leads_of_followWith (fun _ _ _ h ↦ ih h) h

theorem resolve_eq_ok_iff : t.resolve path = .ok place ↔
    Char.ofNat 0 ∉ path.toList ∧ path ≠ "" ∧
      t.follow maxLinks (if Path.isAbsolute path then [] else t.workingDirectory)
        (Path.pieces path) = .ok place := by
  rw [resolve]
  by_cases hnul : Char.ofNat 0 ∈ path.toList
  · simp [hnul]
  · by_cases hpath : path = "" <;> simp [hnul, hpath]

theorem leads_of_resolve (h : t.resolve path = .ok place) :
    t.Leads (if Path.isAbsolute path then [] else t.workingDirectory) (Path.pieces path) place :=
  leads_of_follow (resolve_eq_ok_iff.1 h).2.2

/-- What is above a directory is one, and no link. -/
theorem Leads.directory_of_dots (ht : t.WellFormed) {pieces : List String}
    (h : t.Leads p pieces q) (hdots : pieces.getLast? = some "..") :
    t.get? q = some .directory := by
  induction h with
  | here => cases hdots
  | @enter p q piece rest hp hentry h ih =>
    cases rest with
    | nil =>
      cases hdots
      cases h
      exact ht p _ hp
    | cons => exact ih (List.getLast?_cons_cons ▸ hdots)
  | @link p q piece target rest hp hentry h ih =>
    cases rest with
    | nil =>
      cases hdots
      cases hentry.symm.trans (ht p _ hp)
    | cons =>
      refine ih ?_
      rw [List.getLast?_append, ← List.getLast?_cons_cons, hdots, Option.some_or]

/-- Where nothing stands, a name in a directory leads. -/
theorem Leads.directory_of_none (ht : t.WellFormed) {pieces : List String}
    (h : t.Leads p pieces q) (hstart : pieces ≠ [] ∨ t.get? p = some .directory)
    (hq : t.get? q = none) : q ≠ [] ∧ t.get? q.dropLast = some .directory := by
  induction h with
  | here p => simp [hq] at hstart
  | @enter p q piece rest hp hentry h ih =>
    cases rest with
    | cons => exact ih (.inl (by simp)) hq
    | nil =>
      cases h
      rw [FileTree.enter] at hq ⊢
      by_cases hdots : piece = ".."
      · simp [hdots, ht p _ hp] at hq
      · by_cases hdot : piece = "."
        · simp [hdot, hp] at hq
        · simp [hdots, hdot, hp]
  | @link p q piece target rest hp hentry h ih =>
    refine ih (.inr ?_) hq
    split
    · exact t.get?_nil
    · exact hp

/-- **A path to a file ends in a name**, if it does not ask for a directory. -/
theorem exists_fileName_of_resolve (ht : t.WellFormed) (h : t.resolve path = .ok place)
    (hpath : Path.asksForDirectory path = false) (hplace : t.get? place ≠ some .directory) :
    ∃ name, Path.fileName? path = some name := by
  obtain ⟨-, hne, -⟩ := resolve_eq_ok_iff.1 h
  have hleads := leads_of_resolve h
  rcases List.eq_nil_or_concat (Path.pieces path) with hnil | ⟨init, last, hpieces⟩
  · rw [Path.asksForDirectory_of_pieces_eq_nil hne hnil] at hpath
    cases hpath
  · rw [List.concat_eq_append] at hpieces
    have hlast : (Path.pieces path).getLast? = some last := by rw [hpieces, List.getLast?_concat]
    refine ⟨last, Path.fileName?_eq_some_iff.2 ⟨hlast, ?_⟩⟩
    rintro rfl
    exact hplace (hleads.directory_of_dots ht hlast)

/-- Where there are no links, a path leads to its name. -/
theorem Leads.exists_concat (hlink : ∀ p target, t.get? p ≠ some (.link target))
    {pieces : List String} (h : t.Leads p pieces q) {name : String}
    (hname : pieces.getLast? = some name) (hdots : name ≠ "..") (hdot : name ≠ ".") :
    ∃ d, q = d ++ [name] := by
  induction h with
  | here => cases hname
  | @enter p q piece rest hp hentry h ih =>
    cases rest with
    | nil =>
      obtain rfl : piece = name := Option.some.inj hname
      cases h
      exact ⟨p, by rw [FileTree.enter, if_neg hdots, if_neg hdot]⟩
    | cons => exact ih (List.getLast?_cons_cons ▸ hname)
  | link hp hentry => exact absurd hentry (hlink _ _)

/-- A name leads into the working directory, unless it is that of a link. -/
theorem resolve_name (ht : t.WellFormed) {file : String} (hslash : '/' ∉ file.toList)
    (hdot : file ≠ ".") (h : t.resolve file = .ok place)
    (hplace : t.get? place ≠ some .directory) :
    file ≠ ".." ∧ (place = t.workingDirectory ++ [file] ∨
      ∃ target, t.get? (t.workingDirectory ++ [file]) = some (.link target)) := by
  obtain ⟨-, hne, -⟩ := resolve_eq_ok_iff.1 h
  have hleads := leads_of_resolve h
  rw [Path.isAbsolute_of_name hslash, Path.pieces_of_name hslash hne hdot] at hleads
  have hdots : file ≠ ".." := by
    rintro rfl
    exact hplace (hleads.directory_of_dots ht rfl)
  have henter : enter t.workingDirectory file = t.workingDirectory ++ [file] := by
    rw [enter, if_neg hdots, if_neg hdot]
  refine ⟨hdots, ?_⟩
  cases hleads with
  | enter hp hentry h =>
    cases h
    exact .inl henter
  | link hp hentry h => exact .inr ⟨_, henter ▸ hentry⟩

/-! ## Reading and writing -/

theorem read_eq_ok_iff : t.read path = .ok content ↔
    ∃ place number, t.resolve path = .ok place ∧ t.get? place = some (.file number) ∧
      t.content number = content ∧ Path.asksForDirectory path = false := by
  cases hresolve : t.resolve path with
  | error f => simp [read, hresolve, bind, Except.bind]
  | ok place =>
    cases hplace : t.get? place with
    | none => simp [read, hresolve, bind, Except.bind, hplace]
    | some e =>
      cases e with
      | directory => simp [read, hresolve, bind, Except.bind, hplace]
      | link target => simp [read, hresolve, bind, Except.bind, hplace]
      | file number =>
        cases hpath : Path.asksForDirectory path <;>
          simp [read, hresolve, bind, Except.bind, hplace, hpath]

/-- The second tree has the content in the file at the place and all else as the first has it. The
file is the one that stood there before, or a new one with a number of its own. -/
structure WrittenAt (t : FileTree) (place : Place) (number : Nat) (content : ByteArray)
    (t' : FileTree) : Prop where
  written : t'.get? place = some (.file number)
  file : t.get? place = some (.file number) ∨
    t.get? place = none ∧ ∀ p, t.get? p ≠ some (.file number)
  kept : ∀ p, p ≠ place → t'.get? p = t.get? p
  contents : ∀ n, t'.content n = if n = number then content else t.content n
  workingDirectory : t'.workingDirectory = t.workingDirectory

theorem writtenAt_fill {number : Nat} (h : t.get? place = some (.file number))
    (content : ByteArray) : t.WrittenAt place number content (t.fill number content) :=
  ⟨h, .inl h, fun _ _ ↦ rfl, fun n ↦ t.content_fill number n content, rfl⟩

theorem writtenAt_put (h : t.get? place = none) (content : ByteArray) :
    t.WrittenAt place t.fresh content
      ((t.put place (.file t.fresh)).fill t.fresh content) := by
  have hne : place ≠ [] := by
    rintro rfl
    cases h
  exact ⟨t.get?_put_self hne _, .inr ⟨h, fun p hp ↦ number_ne_fresh hp rfl⟩,
    fun p hp ↦ t.get?_put_of_ne hp _, fun n ↦ content_fill _ t.fresh n content, rfl⟩

/-- **A write** is to the place that its path leads to. -/
theorem exists_writtenAt (h : t.write path content = .ok t') :
    ∃ place number, t.resolve path = .ok place ∧ Path.asksForDirectory path = false ∧
      t.WrittenAt place number content t' := by
  rw [write] at h
  cases hresolve : t.resolve path with
  | error f =>
    rw [hresolve] at h
    cases h
  | ok place =>
    simp only [hresolve, bind, Except.bind] at h
    split at h
    · cases h
    · split at h
      · cases h
      · cases h
      · next number hplace =>
        split at h
        · cases h
        · next hpath =>
          cases h
          exact ⟨place, number, rfl, by simpa using hpath, writtenAt_fill hplace content⟩
      · next hplace =>
        split at h
        · cases h
        · next hpath =>
          cases h
          exact ⟨place, t.fresh, rfl, by simpa using hpath, writtenAt_put hplace content⟩

namespace WrittenAt

variable {number : Nat} (h : t.WrittenAt place number content t')
include h

theorem get?_ne_directory : t.get? place ≠ some .directory := by
  rcases h.file with hfile | ⟨hnone, -⟩
  · simp [hfile]
  · simp [hnone]

/-- What stood at a place is still there. -/
theorem get?_of_get? {e : FileEntry} (hp : t.get? p = some e) : t'.get? p = some e := by
  by_cases hplace : p = place
  · subst hplace
    rcases h.file with hfile | ⟨hnone, -⟩
    · rw [h.written, ← hfile, hp]
    · cases hnone.symm.trans hp
  · rw [h.kept p hplace, hp]

/-- No link is new. -/
theorem ne_link (hp : ∀ target, t.get? p ≠ some (.link target)) (target : String) :
    t'.get? p ≠ some (.link target) := by
  by_cases hplace : p = place
  · rw [hplace, h.written]
    simp
  · rw [h.kept p hplace]
    exact hp target

theorem followWith_eq {atLink atLink' : Place → List String → Except FileFault Place}
    (hlink : ∀ p pieces q, atLink p pieces = .ok q → atLink' p pieces = .ok q)
    {pieces : List String} (hq : t.followWith atLink p pieces = .ok q) :
    t'.followWith atLink' p pieces = .ok q := by
  induction pieces generalizing p with
  | nil => exact hq
  | cons piece rest ih =>
    rw [followWith] at hq ⊢
    split at hq
    · cases hq
    · next hp =>
      rw [h.get?_of_get? hp]
      dsimp only
      split at hq
      · next hentry =>
        rw [h.get?_of_get? hentry]
        exact hlink _ _ _ hq
      · next hentry =>
        split
        · next hentry' => exact absurd hentry' (h.ne_link hentry _)
        · exact ih hq
    · cases hq

theorem follow_eq {links : Nat} {pieces : List String} (hq : t.follow links p pieces = .ok q) :
    t'.follow links p pieces = .ok q := by
  induction links generalizing p pieces q with
  | zero => exact h.followWith_eq (fun _ _ _ h ↦ by cases h) hq
  | succ links ih => exact h.followWith_eq (fun _ _ _ hq ↦ ih hq) hq

/-- All paths lead to where they led. -/
theorem resolve_eq (hq : t.resolve path = .ok q) : t'.resolve path = .ok q := by
  obtain ⟨hnul, hne, hfollow⟩ := resolve_eq_ok_iff.1 hq
  rw [← h.workingDirectory] at hfollow
  exact resolve_eq_ok_iff.2 ⟨hnul, hne, h.follow_eq hfollow⟩

/-- A file is read as before unless it is the one that was written. -/
theorem read_eq {n : Nat} (hread : t.read path = .ok (t.content n)) (hq : t.resolve path = .ok q)
    (hfile : t.get? q = some (.file n)) :
    t'.read path = .ok (if n = number then content else t.content n) := by
  obtain ⟨-, -, -, -, -, hpath⟩ := read_eq_ok_iff.1 hread
  exact read_eq_ok_iff.2
    ⟨q, n, h.resolve_eq hq, h.get?_of_get? hfile, h.contents n, hpath⟩

end WrittenAt

/-- **A write keeps the tree well-formed.** -/
theorem WellFormed.write (ht : t.WellFormed) (h : t.write path content = .ok t') :
    t'.WellFormed := by
  obtain ⟨place, number, hresolve, hpath, hwritten⟩ := exists_writtenAt h
  have hparent : t.get? place.dropLast = some .directory := by
    rcases hwritten.file with hfile | ⟨hnone, -⟩
    · exact ht _ _ hfile
    · obtain ⟨-, hne, -⟩ := resolve_eq_ok_iff.1 hresolve
      refine ((leads_of_resolve hresolve).directory_of_none ht (.inl fun hnil ↦ ?_) hnone).2
      rw [Path.asksForDirectory_of_pieces_eq_nil hne hnil] at hpath
      cases hpath
  intro p e hp
  refine hwritten.get?_of_get? ?_
  by_cases hplace : p = place
  · rw [hplace]
    exact hparent
  · rw [hwritten.kept p hplace] at hp
    exact ht p e hp

/-! ## Names of one file -/

/-- The same file stands at both places. -/
def SameFile (t : FileTree) (p q : Place) : Prop :=
  ∃ n, t.get? p = some (.file n) ∧ t.get? q = some (.file n)

/-- There are no links, and every file has one name. -/
structure LinkFree (t : FileTree) : Prop where
  ne_link : ∀ p target, t.get? p ≠ some (.link target)
  eq_of_sameFile : ∀ p q, t.SameFile p q → p = q

/-- The file that is written is another one, if it is not the same file before. -/
theorem WrittenAt.eq_number_iff {number n : Nat} (h : t.WrittenAt place number content t')
    (hfile : t.get? p = some (.file n)) : n = number ↔ t.SameFile p place := by
  constructor
  · rintro rfl
    rcases h.file with hplace | ⟨-, hnew⟩
    · exact ⟨n, hfile, hplace⟩
    · exact absurd hfile (hnew p)
  · rintro ⟨m, hp, hplace⟩
    cases hfile.symm.trans hp
    have hwritten := h.written
    rw [h.get?_of_get? hplace] at hwritten
    cases hwritten
    rfl

end FileTree

end MiniPascal
