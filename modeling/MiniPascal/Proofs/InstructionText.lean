import Mathlib
import MiniPascal.Listing.Instruction
import MiniPascal.Proofs.Spelling

/-!
# The text of an instruction

An instruction is told by its text, if it is one that a program emits and has no real among its
operands. (All NaNs have one text, so reals are left out.)

What there is to know of an instruction is that it was emitted: an operation stands with operands of
certain kinds only, and the names in it are words (`Instruction.Emitted`). Hence its text consists
of a few pieces without spaces, with one space between any two of them. Their number tells the form
of the instruction, the second one its operation, and the others its operands; a word is not taken
for the register of a loop, as it starts with a letter.

Whatever the operands are, all characters of the text are plain: none would need an escape inside of
quotes, and none would break a line.
-/

namespace MiniPascal

/-! ## Characters -/

namespace Text

/-- The control characters. -/
def isControl (c : Char) : Bool := c.toNat < 0x20 || (0x7F ≤ c.toNat && c.toNat ≤ 0x9F)

/-- The characters that end a line: line feed, vertical tab, form feed, carriage return, next line
and the separators of lines and of paragraphs. -/
def isLineBreak (c : Char) : Bool :=
  [0x0A, 0x0B, 0x0C, 0x0D, 0x85, 0x2028, 0x2029].contains c.toNat

/-- The characters that stand for themselves inside of quotes and do not break a line. -/
def isPlain (c : Char) : Bool :=
  c != '"' && c != '\\' && !isControl c && !isLineBreak c

/-- The plain characters but the space. -/
def isMark (c : Char) : Bool := isPlain c && c != ' '

theorem isMark_iff {c : Char} : isMark c ↔ 0x20 < c.toNat ∧ c.toNat ≠ 0x22 ∧ c.toNat ≠ 0x5C ∧
    ¬(0x7F ≤ c.toNat ∧ c.toNat ≤ 0x9F) ∧ c.toNat ≠ 0x2028 ∧ c.toNat ≠ 0x2029 := by
  have hspace : c = ' ' ↔ c.toNat = 0x20 := Char.toNat_inj.symm
  have hquote : c = '"' ↔ c.toNat = 0x22 := Char.toNat_inj.symm
  have hbackslash : c = '\\' ↔ c.toNat = 0x5C := Char.toNat_inj.symm
  simp only [isMark, isPlain, isControl, isLineBreak, Bool.and_eq_true, Bool.not_eq_true',
    bne_iff_ne, ne_eq, hspace, hquote, hbackslash, Bool.or_eq_false_iff, decide_eq_false_iff_not,
    Bool.and_eq_false_iff, List.contains_cons, List.contains_nil, beq_eq_false_iff_ne, and_true]
  omega

/-- The code points of the characters that are no marks. -/
def unmarked : List Nat :=
  List.range 0x21 ++ [0x22, 0x5C] ++ List.range' 0x7F 0x21 ++ [0x2028, 0x2029]

/-- Words consist of marks. -/
theorem isMark_of_isWordPart {c : Char} (h : isWordPart c) : isMark c := by
  have hletter : ∀ n ∈ unmarked, Alphabet.letterRanges.contains n = false := by decide +kernel
  have hnumeral : ∀ n ∈ unmarked, Alphabet.numeralRanges.contains n = false := by decide +kernel
  by_cases hmark : isMark c
  · exact hmark
  · have hmem : c.toNat ∈ unmarked := by
      rw [isMark_iff] at hmark
      simp only [unmarked, List.mem_append, List.mem_range, List.mem_range'_1, List.mem_cons,
        List.not_mem_nil, or_false]
      omega
    rw [isWordPart, Alphabet.isLetter, Alphabet.isNumeral, hletter _ hmem, hnumeral _ hmem] at h
    cases h

theorem isMark_of_isDigit {c : Char} (h : c.isDigit) : isMark c := by
  have := toNat_of_isDigit h
  rw [isMark_iff]
  omega

/-- A text of marks. -/
def Marks (s : String) : Prop := ∀ c ∈ s.toList, isMark c

theorem marks_of_all {s : String} (h : s.toList.all isMark = true) : Marks s :=
  List.all_eq_true.1 h

theorem Marks.append {s t : String} (h : Marks s) (h' : Marks t) : Marks (s ++ t) := by
  intro c hc
  rw [String.toList_append, List.mem_append] at hc
  exact hc.elim (h c) (h' c)

theorem marks_ofList_of_isDigit {cs : List Char} (h : ∀ c ∈ cs, c.isDigit) :
    Marks (String.ofList cs) := by
  intro c hc
  rw [String.toList_ofList] at hc
  exact isMark_of_isDigit (h c hc)

end Text

/-! ## Numbers -/

open Text

theorem isDigit_of_mem_repr {n : Nat} : ∀ c ∈ n.repr.toList, c.isDigit := by
  intro c hc
  rw [Nat.toList_repr] at hc
  exact Nat.isDigit_of_mem_toDigits (by omega) (by omega) hc

theorem marks_repr (n : Nat) : Marks n.repr :=
  fun c hc ↦ isMark_of_isDigit (isDigit_of_mem_repr c hc)

theorem marks_repr_int (n : Int) : Marks n.repr := by
  rw [Int.repr_eq_if]
  split
  · exact marks_repr _
  · exact (marks_of_all (by decide)).append (marks_repr _)

/-! ## Values -/

theorem Value.eq_of_text_eq {m n : Int64} (h : (Value.integer m).text = (Value.integer n).text) :
    m = n := Int64.toInt_inj.1 (Int.repr_injective h)

namespace Decimal

theorem marks_digitText (d : Decimal) : Marks d.digitText := marks_repr d.digits

theorem marks_zeros (n : Nat) : Marks (zeros n) := by
  refine marks_ofList_of_isDigit fun c hc ↦ ?_
  rw [List.eq_of_mem_replicate hc]
  rfl

theorem marks_positional (d : Decimal) : Marks d.positional := by
  have hdigits : ∀ c ∈ d.digitText.toList, c.isDigit := isDigit_of_mem_repr
  rw [positional]
  split
  · exact ((marks_of_all (by decide)).append (marks_zeros _)).append (marks_digitText d)
  · split
    · exact ((marks_digitText d).append (marks_zeros _)).append (marks_of_all (by decide))
    · refine Marks.append (Marks.append ?_ (marks_of_all (by decide))) ?_
      · exact marks_ofList_of_isDigit fun c hc ↦ hdigits c (List.mem_of_mem_take hc)
      · exact marks_ofList_of_isDigit fun c hc ↦ hdigits c (List.mem_of_mem_drop hc)

end Decimal

namespace Value

theorem marks_signed (negative : Bool) {text : String} (h : Marks text) :
    Marks (signed negative text) := by
  rw [signed]
  split
  · exact (marks_of_all (by decide)).append h
  · exact h

/-- The text of a value consists of marks, also if the value is infinite or no number. -/
theorem marks_text (v : Value) : Marks v.text := by
  cases v with
  | integer n => exact marks_repr_int n.toInt
  | real x =>
    rw [text, realText]
    split
    · exact marks_of_all (by decide)
    · exact marks_signed _ (marks_of_all (by decide))
    · refine marks_signed _ ?_
      split
      · exact (marks_repr _).append (marks_of_all (by decide))
      · exact Decimal.marks_positional _

end Value

/-! ## Operands -/

namespace Operand

/-- The kinds of operands. -/
inductive Kind where
  | value
  | variable
  | address
  | returnAddress

/-- The kind of an operand. -/
def kind : Operand → Kind
  | .value _ => .value
  | .variable _ => .variable
  | .address _ => .address
  | .returnAddress => .returnAddress

/-- Whether the operand is a real. -/
def isReal : Operand → Bool
  | .value (.real _) => true
  | _ => false

/-- Among the operands of a kind, one is told by its text. -/
theorem eq_of_text_eq {x y : Operand} (hx : x.isReal = false) (hy : y.isReal = false)
    (hkind : x.kind = y.kind) (h : x.text = y.text) : x = y := by
  rcases x with v | name | n | _ <;> rcases y with w | name' | n' | _ <;> cases hkind
  · rcases v with m | r
    · rcases w with n | r
      · rw [Value.eq_of_text_eq h]
      · cases hy
    · cases hx
  · exact congrArg Operand.variable h
  · exact congrArg address (Nat.repr_injective h)
  · rfl

end Operand

theorem DataType.text_inj {type type' : DataType} (h : type.text = type'.text) : type = type' := by
  revert h
  cases type <;> cases type' <;> decide

/-! ## Instructions -/

namespace Instruction

/-- The instructions of a listing. An operation stands with operands of certain kinds, and the names
are words. -/
inductive Emitted : Instruction → Prop
  | declare {name : String} (h : IsWord name.toList) (type : DataType) :
    Emitted (.declare name type)
  | pushImmediate (v : Value) : Emitted (.unary .pushImmediate (.value v))
  | push {name : String} (h : IsWord name.toList) : Emitted (.unary .push (.variable name))
  | negate (v : Value) : Emitted (.unary .negate (.value v))
  | jump (c : Comparison) (n : Nat) : Emitted (.unary (.jump c) (.address n))
  | arithmetic (op : Operator) (v w : Value) :
    Emitted (.binary (.arithmetic op) (.value v) (.value w))
  | pop : Emitted .pop
  | move {name : String} (h : IsWord name.toList) (v : Value) :
    Emitted (.binary .move (.variable name) (.value v))
  | mark (n : Nat) : Emitted (.binary .move .returnAddress (.address n))

/-- What an instruction works on. -/
def operands : Instruction → List Operand
  | .unary _ operand => [operand]
  | .binary _ left right => [left, right]
  | .declare _ _ => []
  | .pop => []

/-- The instruction has no real among its operands. -/
def RealFree (i : Instruction) : Prop := ∀ x ∈ i.operands, x.isReal = false

/-- The pieces of the text of an instruction, with a space between any two of them. -/
def pieces : Instruction → List String
  | .unary op operand => ["<", op.mnemonic, operand.text, ">"]
  | .binary op left right => ["<", op.mnemonic, left.text, right.text, ">"]
  | .declare name type => [name ++ ":", ".word", type.text]
  | .pop => ["<POP>"]

theorem text_eq_intercalate (i : Instruction) : i.text = " ".intercalate i.pieces := by
  apply String.toList_inj.1
  cases i with
  | unary op operand => simp [text, pieces]
  | binary op left right => simp [text, pieces]
  | declare name type => simp [text, pieces]
  | pop => simp [text, pieces]

theorem pieces_ne_nil (i : Instruction) : i.pieces ≠ [] := by
  cases i <;> simp [pieces]

end Instruction

theorem mem_of_mem_intercalate {α : Type} {sep : List α} {ls : List (List α)} {a : α}
    (h : a ∈ sep.intercalate ls) : a ∈ sep ∨ ∃ l ∈ ls, a ∈ l := by
  induction ls with
  | nil => cases h
  | cons l ls ih =>
    by_cases hls : ls = []
    · subst hls
      rw [List.intercalate_singleton] at h
      exact .inr ⟨l, List.mem_singleton_self l, h⟩
    · rw [List.intercalate_cons_of_ne_nil hls, List.mem_append, List.mem_append] at h
      rcases h with (h | h) | h
      · exact .inr ⟨l, List.mem_cons_self, h⟩
      · exact .inl h
      · refine (ih h).imp id ?_
        rintro ⟨l', hl', hmem⟩
        exact ⟨l', List.mem_cons_of_mem l hl', hmem⟩

theorem marks_of_isWord {name : String} (h : IsWord name.toList) : Marks name :=
  fun c hc ↦ isMark_of_isWordPart (h.isWordPart c hc)

theorem Opcode.marks_mnemonic (op : Opcode) : Marks op.mnemonic := by
  apply marks_of_all
  cases op with
  | jump c => cases c <;> decide
  | arithmetic o => cases o <;> decide
  | _ => decide

theorem Opcode.mnemonic_inj {op op' : Opcode} (h : op.mnemonic = op'.mnemonic) : op = op' := by
  have hread (op : Opcode) : Opcode.ofMnemonic? op.mnemonic = some op := by
    cases op with
    | jump c => cases c <;> decide
    | arithmetic o => cases o <;> decide
    | _ => decide
  exact Option.some.inj ((hread op).symm.trans ((congrArg _ h).trans (hread op')))

namespace Instruction

theorem Emitted.marks_of_mem {i : Instruction} (h : i.Emitted) : ∀ p ∈ i.pieces, Marks p := by
  have hopen : Marks "<" := marks_of_all (by decide)
  have hclose : Marks ">" := marks_of_all (by decide)
  have hunary (op : Opcode) {x : Operand} (hx : Marks x.text) :
      ∀ p ∈ (unary op x).pieces, Marks p := by
    simp only [pieces, List.forall_mem_cons]
    exact ⟨hopen, op.marks_mnemonic, hx, hclose, by simp⟩
  have hbinary (op : Opcode) {x y : Operand} (hx : Marks x.text) (hy : Marks y.text) :
      ∀ p ∈ (binary op x y).pieces, Marks p := by
    simp only [pieces, List.forall_mem_cons]
    exact ⟨hopen, op.marks_mnemonic, hx, hy, hclose, by simp⟩
  cases h with
  | declare hname type =>
    simp only [pieces, List.forall_mem_cons]
    have htype : Marks type.text := marks_of_all (by cases type <;> decide)
    exact ⟨(marks_of_isWord hname).append (marks_of_all (by decide)), marks_of_all (by decide),
      htype, by simp⟩
  | pushImmediate v => exact hunary _ v.marks_text
  | push hname => exact hunary _ (marks_of_isWord hname)
  | negate v => exact hunary _ v.marks_text
  | jump c n => exact hunary _ (marks_repr n)
  | arithmetic op v w => exact hbinary _ v.marks_text w.marks_text
  | pop =>
    simp only [pieces, List.forall_mem_cons]
    exact ⟨marks_of_all (by decide), by simp⟩
  | move hname v => exact hbinary _ (marks_of_isWord hname) v.marks_text
  | mark n => exact hbinary _ (marks_of_all (by decide)) (marks_repr n)

/-- The pieces of an instruction can be told from its text: they have no spaces in them. -/
theorem Emitted.splitOn_text {i : Instruction} (h : i.Emitted) :
    i.text.toList.splitOn ' ' = i.pieces.map String.toList := by
  rw [text_eq_intercalate, String.toList_intercalate]
  refine List.splitOn_intercalate ' ' ?_ (by simpa using i.pieces_ne_nil)
  intro l hl hspace
  obtain ⟨p, hp, rfl⟩ := List.mem_map.1 hl
  cases h.marks_of_mem p hp ' ' hspace

/-- The characters of the text of an instruction are plain. -/
theorem Emitted.isPlain_of_mem {i : Instruction} (h : i.Emitted) :
    ∀ c ∈ i.text.toList, isPlain c := by
  intro c hc
  rw [text_eq_intercalate, String.toList_intercalate] at hc
  rcases mem_of_mem_intercalate hc with hspace | ⟨l, hl, hc⟩
  · rw [List.mem_singleton.1 hspace]
    decide
  · obtain ⟨p, hp, rfl⟩ := List.mem_map.1 hl
    have hmark := h.marks_of_mem p hp c hc
    rw [isMark, Bool.and_eq_true] at hmark
    exact hmark.1

variable {op : Opcode} {x x' y y' : Operand}

/-- An operation with one operand determines its kind. -/
theorem Emitted.kind_eq (hi : (unary op x).Emitted) (hj : (unary op y).Emitted) :
    x.kind = y.kind := by
  cases hi <;> cases hj <;> rfl

/-- An operation with two operands and the text of the first one determine their kinds: a word is
not the name of the register. -/
theorem Emitted.kinds_eq (hi : (binary op x x').Emitted) (hj : (binary op y y').Emitted)
    (h : x.text = y.text) : x.kind = y.kind ∧ x'.kind = y'.kind := by
  have hregister {name : String} (hname : IsWord name.toList) : name ≠ "$ra" := by
    rintro rfl
    exact not_isWord_of_lt (by decide) hname
  cases hi with
  | arithmetic op v w =>
    cases hj
    exact ⟨rfl, rfl⟩
  | move hname v =>
    cases hj with
    | move hname' w => exact ⟨rfl, rfl⟩
    | mark n => exact absurd h (hregister hname)
  | mark n =>
    cases hj with
    | move hname v => exact absurd h.symm (hregister hname)
    | mark n' => exact ⟨rfl, rfl⟩

theorem Emitted.eq_of_pieces_eq {i j : Instruction} (hi : i.Emitted) (hj : j.Emitted)
    (hri : i.RealFree) (hrj : j.RealFree) (h : i.pieces = j.pieces) : i = j := by
  -- the number of pieces tells the form
  have hlength := congrArg List.length h
  cases i with
  | unary op x =>
    cases j with
    | unary op' y =>
      obtain ⟨hop, hxy⟩ : op.mnemonic = op'.mnemonic ∧ x.text = y.text := by
        simpa [pieces] using h
      obtain rfl := Opcode.mnemonic_inj hop
      have hx := hri x (by simp [operands])
      have hy := hrj y (by simp [operands])
      rw [Operand.eq_of_text_eq hx hy (hi.kind_eq hj) hxy]
    | _ => cases hlength
  | binary op x x' =>
    cases j with
    | binary op' y y' =>
      obtain ⟨hop, hxy, hxy'⟩ :
          op.mnemonic = op'.mnemonic ∧ x.text = y.text ∧ x'.text = y'.text := by
        simpa [pieces] using h
      obtain rfl := Opcode.mnemonic_inj hop
      obtain ⟨hkind, hkind'⟩ := hi.kinds_eq hj hxy
      have hx := hri x (by simp [operands])
      have hx' := hri x' (by simp [operands])
      have hy := hrj y (by simp [operands])
      have hy' := hrj y' (by simp [operands])
      rw [Operand.eq_of_text_eq hx hy hkind hxy, Operand.eq_of_text_eq hx' hy' hkind' hxy']
    | _ => cases hlength
  | declare name type =>
    cases j with
    | declare name' type' =>
      obtain ⟨hname, htype⟩ : name ++ ":" = name' ++ ":" ∧ type.text = type'.text := by
        simpa [pieces] using h
      rw [(String.append_left_inj _).1 hname, DataType.text_inj htype]
    | _ => cases hlength
  | pop =>
    cases j with
    | pop => rfl
    | _ => cases hlength

/-- **An instruction is told by its text.** -/
theorem Emitted.eq_of_text_eq {i j : Instruction} (hi : i.Emitted) (hj : j.Emitted)
    (hri : i.RealFree) (hrj : j.RealFree) (h : i.text = j.text) : i = j := by
  have hpieces : i.pieces.map String.toList = j.pieces.map String.toList := by
    rw [← hi.splitOn_text, ← hj.splitOn_text, h]
  exact hi.eq_of_pieces_eq hj hri hrj
    ((List.map_inj_right fun _ _ ↦ String.toList_inj.1).1 hpieces)

end Instruction

end MiniPascal
