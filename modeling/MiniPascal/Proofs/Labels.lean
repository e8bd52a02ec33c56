import MiniPascal.Diagnostic.Report
import MiniPascal.Proofs.FaultPlaces
import MiniPascal.Proofs.Streaming
import MiniPascal.Proofs.SyntaxFaults

/-!
# The labels of failures

A failure is shown by a label on the source. A fault in the middle of the source has a place with
something in it, which is its label. A fault at the end has none, and its label is the last byte.

That byte is the last character only if it is a character: a last character of several bytes is cut
by its label, which then starts between two characters.
-/

namespace MiniPascal

open Placed

variable {source : String} {f : Fault}

/-! ## The last character -/

/-- The span of the last character of a text. -/
def Span.IsLastCharacter (span : Span) (source : String) : Prop :=
  ∃ before c, source = before ++ String.singleton c ∧
    span = ⟨before.utf8ByteSize, source.utf8ByteSize⟩

theorem exists_last_character (h : source ≠ "") :
    ∃ before c, source = before ++ String.singleton c := by
  have hne : source.toList ≠ [] := fun hnil ↦ h (String.toList_eq_nil_iff.mp hnil)
  refine ⟨.ofList source.toList.dropLast, source.toList.getLast hne, ?_⟩
  rw [String.singleton_eq_ofList, ← String.ofList_append, List.dropLast_append_getLast hne,
    String.ofList_toList]

theorem last_character_unique {before before' : String} {c c' : Char}
    (h : before ++ String.singleton c = before' ++ String.singleton c') : c = c' := by
  have hlast := congrArg String.toList h
  rw [String.toList_append, String.toList_append, String.toList_singleton,
    String.toList_singleton] at hlast
  exact List.head_eq_of_cons_eq (List.append_inj_right' hlast rfl)

variable {before : String} {c : Char}

/-- The last byte of a text starts a character only if it is one. -/
theorem isValid_last_byte_iff (hsource : source = before ++ String.singleton c) :
    (⟨source.utf8ByteSize - 1⟩ : String.Pos.Raw).IsValid source ↔ c.utf8Size = 1 := by
  have hpos := c.utf8Size_pos
  have hsize : source.utf8ByteSize = before.utf8ByteSize + c.utf8Size := by simp [hsource]
  rw [String.Pos.Raw.isValid_iff_exists_append]
  constructor
  · rintro ⟨front, back, htext, hstart⟩
    have hfront : source.utf8ByteSize - 1 = front.utf8ByteSize :=
      congrArg String.Pos.Raw.byteIdx hstart
    have hback : source.utf8ByteSize = front.utf8ByteSize + back.utf8ByteSize := by simp [htext]
    have hne : back ≠ "" := by
      rintro rfl
      rw [String.utf8ByteSize_empty] at hback
      omega
    -- the text ends as the one byte at its end does
    obtain ⟨back', d, rfl⟩ := exists_last_character hne
    rw [← String.append_assoc] at htext
    obtain rfl := last_character_unique (hsource.symm.trans htext)
    rw [String.utf8ByteSize_append, String.utf8ByteSize_singleton] at hback
    omega
  · intro hone
    refine ⟨before, String.singleton c, hsource, ?_⟩
    rw [hsize, hone]
    rfl

theorem isLastCharacter_last_byte_iff (hsource : source = before ++ String.singleton c) :
    Span.IsLastCharacter ⟨source.utf8ByteSize - 1, source.utf8ByteSize⟩ source ↔
      c.utf8Size = 1 := by
  have hsize : source.utf8ByteSize = before.utf8ByteSize + c.utf8Size := by simp [hsource]
  constructor
  · rintro ⟨before', c', htext, hspan⟩
    obtain rfl := last_character_unique (hsource.symm.trans htext)
    have hpos := c.utf8Size_pos
    have hstart : source.utf8ByteSize - 1 = before'.utf8ByteSize := congrArg Span.start hspan
    have hsize' : source.utf8ByteSize = before'.utf8ByteSize + c.utf8Size := by simp [htext]
    omega
  · intro hone
    refine ⟨before, c, hsource, ?_⟩
    rw [hsize, hone]
    rfl

/-! ## Faults -/

/-- The head of an expression is not the end of the input. -/
theorem Grammar.Expression.Derives.head_ne_endOfInput {r : Rank} {ts : List Lexeme} {e : Expression}
    (h : e.Derives r ts) : ∃ l us, ts = l :: us ∧ l.token ≠ .endOfInput := by
  induction h with
  | integer h => exact ⟨_, _, rfl, by simp [h]⟩
  | real h => exact ⟨_, _, rfl, by simp [h]⟩
  | named h => exact ⟨_, _, rfl, by simp [h]⟩
  | plus h _ _ => exact ⟨_, _, rfl, by simp [h]⟩
  | minus h _ _ => exact ⟨_, _, rfl, by simp [h]⟩
  | parens h _ _ _ => exact ⟨_, _, rfl, by simp [h]⟩
  | factor _ ih => exact ih
  | product _ _ _ ih _ =>
    obtain ⟨l, us, rfl, hl⟩ := ih
    exact ⟨l, _, rfl, hl⟩
  | term _ ih => exact ih
  | sum _ _ _ ih _ =>
    obtain ⟨l, us, rfl, hl⟩ := ih
    exact ⟨l, _, rfl, hl⟩

/-- An expression takes some of the text, from its first to its last token. -/
theorem Scanner.start_lt_stop_of_expression {e : Grammar.Expression} {ts : List Lexeme}
    {first last : Lexeme} (hts : ts.Sublist (ofString source).lexemes)
    (he : e.Derives .expression ts) (hfirst : ts.head? = some first)
    (hlast : ts.getLast? = some last) : first.span.start < last.span.stop := by
  obtain ⟨l, us, rfl, hl⟩ := he.head_ne_endOfInput
  obtain rfl : l = first := Option.some.inj hfirst
  have hstart := start_lt_stop (hts.subset List.mem_cons_self) hl
  have hlast := List.mem_of_getLast? hlast
  obtain rfl | hlater := List.mem_cons.mp hlast
  · exact hstart
  · have hordered := (pairwise_lexemes source).sublist hts
    have hle : l.span.stop ≤ last.span.start := (List.pairwise_cons.mp hordered).1 last hlater
    obtain ⟨piece, hcut⟩ := exists_cut_of_mem (hts.subset hlast)
    have := hcut.start_le_stop
    omega

/-- The fault is that the text ends. -/
def Fault.AtEnd (f : Fault) : Prop := ∃ expected, f.cause = .unexpected .endOfInput expected

/-- Only where the text ends, a fault has an empty place. -/
theorem Fault.PointsAt.start_lt_stop (h : f.PointsAt source) (hend : ¬ f.AtEnd) :
    f.span.start < f.span.stop := by
  have hpiece {span : Span} {piece : String} (hcut : span.Cuts source piece) (hne : piece ≠ "") :
      span.start < span.stop := by
    obtain ⟨before, after, -, rfl⟩ := hcut
    have : piece.utf8ByteSize ≠ 0 := by simpa using hne
    simp
    omega
  cases h with
  | unexpected expected hmem hcut hspells =>
    exact Scanner.start_lt_stop hmem hspells.ne_endOfInput
  | ended expected => exact absurd ⟨expected, rfl⟩ hend
  | undeclared hmem _ _ _ => exact Scanner.start_lt_stop hmem (by simp)
  | unassigned hmem _ _ _ => exact Scanner.start_lt_stop hmem (by simp)
  | @duplicateDeclaration _ _ _ _ _ _ name _ _ _ _ _ _ _ span hlexemes _ _ _ _ _ hnames =>
    have hmem : ⟨.identifier name, span⟩ ∈ (Scanner.ofString source).lexemes := by
      simp [hlexemes, hnames]
    exact Scanner.start_lt_stop hmem (by simp)
  | @typeMismatch l a _ _ _ _ _ before ts _ _ _ _ _ hlexemes _ _ he _ hfirst hlast =>
    have hts : ts.Sublist (Scanner.ofString source).lexemes := by
      rw [hlexemes]
      exact (((List.sublist_append_left ts _).cons a).cons l).trans
        (List.sublist_append_right before _)
    exact Scanner.start_lt_stop_of_expression hts he hfirst hlast
  | operator hmem hop _ _ _ =>
    refine Scanner.start_lt_stop hmem ?_
    intro htoken
    rw [htoken] at hop
    cases hop
  | sign hmem _ _ _ => exact Scanner.start_lt_stop hmem (by simp)
  | unrecognized hfault hcut => exact hpiece hcut (by simp)
  | integerTooLarge hfault hsource hspan hdigits hbefore hafter =>
    exact hpiece ⟨_, _, hsource, hspan⟩ fun hnil ↦ hdigits.1 (String.toList_eq_nil_iff.mpr hnil)

theorem Fault.PointsAt.span_of_atEnd (h : f.PointsAt source) (hend : f.AtEnd) :
    f.span = ⟨source.utf8ByteSize, source.utf8ByteSize⟩ := by
  obtain ⟨expected, hcause⟩ := hend
  cases h with
  | unexpected expected hmem hcut hspells =>
    injection hcause with htoken
    exact absurd htoken hspells.ne_endOfInput
  | ended expected => rfl
  | _ => cases hcause

/-! ## Labels -/

theorem Fault.visibleSpan_of_atEnd (h : f.PointsAt source) (hend : f.AtEnd) :
    f.visibleSpan source = ⟨source.utf8ByteSize - 1, source.utf8ByteSize⟩ := by
  rw [visibleSpan, h.span_of_atEnd hend]
  simp [Span.isEmpty]

theorem Fault.visibleSpan_of_not_atEnd (h : f.PointsAt source) (hend : ¬ f.AtEnd) :
    f.visibleSpan source = f.span := by
  have hne : f.span.isEmpty = false := beq_false_of_ne (Nat.ne_of_lt (h.start_lt_stop hend))
  rw [visibleSpan, hne]
  rfl

/-- **The label of a failure** is a range of the source that is not empty and stops behind a
character. It starts at a character as well, and is the last character where the text ends, unless
that takes several bytes. -/
theorem label_of_compileSource {fuel : Nat} {path : String} {failure : Failure}
    {board board' : NoticeBoard} (hsource : source ≠ "")
    (h : (compileSource NoticeBoard.emit fuel path source).run board =
      (some (.error failure), board')) :
    ∃ f label before c, source = before ++ String.singleton c ∧
      failure = .program path source f ∧
      failure.diagnostics.map Diagnostic.location =
        [some ⟨source, path, label, f.cause.extraLabels⟩] ∧
      label.span.start < label.span.stop ∧ label.span.stop ≤ source.utf8ByteSize ∧
      (⟨label.span.stop⟩ : String.Pos.Raw).IsValid source ∧
      ((⟨label.span.start⟩ : String.Pos.Raw).IsValid source ↔ (f.AtEnd → c.utf8Size = 1)) ∧
      (f.AtEnd → label.span = ⟨source.utf8ByteSize - 1, source.utf8ByteSize⟩ ∧
        (label.span.IsLastCharacter source ↔ c.utf8Size = 1)) ∧
      (¬ f.AtEnd → label.span = f.span) := by
  obtain ⟨compiled, -, hresult, -⟩ | ⟨f, hfault, hresult, -⟩ := compileSource_eq_some h
  · cases hresult
  cases hresult
  have hpoints := pointsAt_of_compileText hfault
  obtain ⟨before, c, hlast⟩ := exists_last_character hsource
  refine ⟨f, ⟨some f.cause.message, f.visibleSpan source⟩, before, c, hlast, rfl, rfl, ?_⟩
  by_cases hend : f.AtEnd
  · rw [Fault.visibleSpan_of_atEnd hpoints hend]
    have hpos : 0 < source.utf8ByteSize := by
      have := c.utf8Size_pos
      simp only [hlast, String.utf8ByteSize_append, String.utf8ByteSize_singleton]
      omega
    refine ⟨Nat.sub_one_lt_of_lt hpos, Nat.le_refl _, ?_, ?_, ?_, fun h ↦ absurd hend h⟩
    · exact String.Pos.Raw.isValid_iff_exists_append.mpr ⟨source, "", by simp, rfl⟩
    · rw [isValid_last_byte_iff hlast]
      exact ⟨fun hone _ ↦ hone, fun hone ↦ hone hend⟩
    · intro _
      exact ⟨rfl, isLastCharacter_last_byte_iff hlast⟩
  · rw [Fault.visibleSpan_of_not_atEnd hpoints hend]
    obtain ⟨piece, hcut⟩ := hpoints.exists_cut
    refine ⟨hpoints.start_lt_stop hend, hcut.stop_le, hcut.isValid_stop, ?_, ?_, fun _ ↦ rfl⟩
    · exact iff_of_true hcut.isValid_start fun h ↦ absurd h hend
    · intro h
      exact absurd h hend

/-- Whether the text ends. -/
def Fault.isEndOfInput : Fault → Bool
  | ⟨.unexpected .endOfInput _, _⟩ => true
  | _ => false

theorem exists_atEnd_of_haltsWith {fuel : Nat} (path : String) (board : NoticeBoard)
    (h : haltsWith Fault.isEndOfInput fuel source = true) :
    ∃ f, (compileSource NoticeBoard.emit fuel path source).run board =
      (some (.error (.program path source f)), board) ∧ f.AtEnd := by
  obtain ⟨f, hfault, hcause⟩ := exists_fault_of_haltsWith h
  refine ⟨f, by rw [compileSource, hfault]; rfl, ?_⟩
  rw [Fault.isEndOfInput.eq_def] at hcause
  split at hcause
  · next expected place => exact ⟨expected, rfl⟩
  · cases hcause

/-- A program that ends too early, in a character of one byte. -/
theorem label_of_early_end : ∃ f label,
    (compileSource NoticeBoard.emit 20 "p.pas" "PROGRAM p").run { keeps := false } =
        (some (.error (.program "p.pas" "PROGRAM p" f)), { keeps := false }) ∧
      (Failure.program "p.pas" "PROGRAM p" f).diagnostics.map Diagnostic.location =
        [some ⟨"PROGRAM p", "p.pas", label, f.cause.extraLabels⟩] ∧
      label.span = ⟨8, 9⟩ ∧ label.span.IsLastCharacter "PROGRAM p" := by
  have hhalts : haltsWith Fault.isEndOfInput 20 "PROGRAM p" = true := by decide +kernel
  obtain ⟨f, h, hend⟩ := exists_atEnd_of_haltsWith "p.pas" { keeps := false } hhalts
  obtain ⟨g, label, before, c, hlast, hfailure, hlocation, -, -, -, -, hlabel, -⟩ :=
    label_of_compileSource (by decide) h
  cases hfailure
  have hp : "PROGRAM p" = "PROGRAM " ++ String.singleton 'p' := by decide
  obtain rfl := last_character_unique (hlast.symm.trans hp)
  exact ⟨f, label, h, hlocation, (hlabel hend).1, (hlabel hend).2.mpr rfl⟩

/-- A program that ends too early, in a character of two bytes: the label is the second of them, and
starts at no character. -/
theorem label_cuts_last_character : ∃ f label,
    (compileSource NoticeBoard.emit 20 "p.pas" "PROGRAM é").run { keeps := false } =
        (some (.error (.program "p.pas" "PROGRAM é" f)), { keeps := false }) ∧
      (Failure.program "p.pas" "PROGRAM é" f).diagnostics.map Diagnostic.location =
        [some ⟨"PROGRAM é", "p.pas", label, f.cause.extraLabels⟩] ∧
      f.AtEnd ∧ label.span = ⟨9, 10⟩ ∧
      ¬ (⟨label.span.start⟩ : String.Pos.Raw).IsValid "PROGRAM é" ∧
      ¬ label.span.IsLastCharacter "PROGRAM é" ∧ Span.IsLastCharacter ⟨8, 10⟩ "PROGRAM é" := by
  have hhalts : haltsWith Fault.isEndOfInput 20 "PROGRAM é" = true := by decide +kernel
  have hlast : "PROGRAM é" = "PROGRAM " ++ String.singleton 'é' := by decide
  obtain ⟨f, h, hend⟩ := exists_atEnd_of_haltsWith "p.pas" { keeps := false } hhalts
  obtain ⟨compiled, -, hresult, -⟩ | ⟨g, hfault, hresult, -⟩ := compileSource_eq_some h
  · cases hresult
  cases hresult
  have hspan : f.visibleSpan "PROGRAM é" = ⟨9, 10⟩ :=
    Fault.visibleSpan_of_atEnd (pointsAt_of_compileText hfault) hend
  have hsize : 'é'.utf8Size ≠ 1 := by decide
  refine ⟨f, ⟨some f.cause.message, f.visibleSpan "PROGRAM é"⟩, h, rfl, hend, hspan, ?_, ?_, ?_⟩
  · rw [hspan]
    exact mt (isValid_last_byte_iff hlast).mp hsize
  · rw [hspan]
    exact mt (isLastCharacter_last_byte_iff hlast).mp hsize
  · exact ⟨"PROGRAM ", 'é', hlast, rfl⟩

end MiniPascal
