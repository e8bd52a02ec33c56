import Mathlib
import MiniPascal.Command.Run
import MiniPascal.Proofs.Streaming

/-!
# Sessions on inputs in a row

A session on one input after another does what sessions on each of them do, one after the other: no
line has an effect on the next. What there is to see is that lines are cut where the characters of
the text say, though it is bytes that are read, and that each line is answered by itself.

Only three things end a session: the end of the input, a line that is not UTF-8 and `.exit`. After
the last two, the rest of the input is not looked at.
-/

namespace MiniPascal

/-! ## Bytes -/

namespace Utf8

/-- The bytes of characters. -/
def encode (chars : List Char) : List UInt8 := chars.flatMap String.utf8EncodeChar

theorem encode_append (cs ds : List Char) : encode (cs ++ ds) = encode cs ++ encode ds :=
  List.flatMap_append

theorem toList_loop (bytes : ByteArray) (i : Nat) (line : List UInt8) :
    ByteArray.toList.loop bytes i line = line.reverse ++ bytes.data.toList.drop i := by
  fun_induction ByteArray.toList.loop bytes i line with
  | case1 i line hi ih =>
    have hlength : i < bytes.data.toList.length := hi
    have hget : bytes.get! i = bytes.data.toList[i] := getElem!_pos bytes.data i hi
    rw [ih, List.reverse_cons, List.append_assoc, List.drop_eq_getElem_cons hlength, hget]
    rfl
  | case2 i line hi =>
    have hlength : bytes.data.toList.length ≤ i := Nat.le_of_not_lt hi
    rw [List.drop_eq_nil_of_le hlength, List.append_nil]

theorem toList_eq (bytes : ByteArray) : bytes.toList = bytes.data.toList := by
  rw [ByteArray.toList, toList_loop]
  rfl

theorem toList_append (a b : ByteArray) : (a ++ b).toList = a.toList ++ b.toList := by
  rw [toList_eq, toList_eq, toList_eq, ByteArray.data_append, Array.toList_append]

theorem toList_toUTF8 (text : String) : text.toUTF8.toList = encode text.toList := by
  rw [toList_eq, String.toUTF8, ← String.utf8Encode_toList, List.utf8Encode, List.data_toByteArray,
    encode]

/-- The bytes of characters are read as these. -/
theorem fromUTF8?_encode (chars : List Char) :
    String.fromUTF8? ⟨(encode chars).toArray⟩ = some (String.ofList chars) := by
  have hbytes : (⟨(encode chars).toArray⟩ : ByteArray) = (String.ofList chars).toUTF8 := by
    refine ByteArray.ext ?_
    rw [String.toUTF8, String.toByteArray_ofList, List.utf8Encode, List.data_toByteArray, encode]
  rw [hbytes]
  exact dif_pos (String.ofList chars).isValidUTF8

theorem le_of_mem_continuation {n number : Nat} {byte : UInt8} (h : byte ∈ continuation n number) :
    0x80 ≤ byte.toNat := by
  induction n with
  | zero => cases h
  | succ n ih =>
    rw [continuation, List.mem_cons] at h
    rcases h with h | h
    · have := (ofNat_eq_iff (by omega)).1 h.symm
      omega
    · exact ih h

/-- The byte of a line feed is part of no other character. -/
theorem newline_notMem_utf8EncodeChar {c : Char} (h : c ≠ '\n') :
    10 ∉ String.utf8EncodeChar c := by
  intro hmem
  by_cases hc : c.toNat < 0x80
  · rw [utf8EncodeChar_of_lt hc, List.mem_singleton] at hmem
    have hten : '\n'.toNat = c.toNat := (ofNat_eq_iff (by omega)).1 hmem.symm
    exact h (Char.toNat_inj.1 hten.symm)
  · obtain ⟨more, lead, size, least, hform, hleast, hsize⟩ := exists_form (Nat.le_of_not_lt hc)
    rw [hform.utf8EncodeChar hleast hsize, List.mem_cons] at hmem
    -- all bytes of a longer character are above those of the short ones
    rcases hmem with hfirst | hlater
    · have hlead : 10 = front (more + 1) c.toNat + lead :=
        (ofNat_eq_iff (hform.lead_add_lt hsize)).1 hfirst.symm
      cases hform <;> omega
    · have := le_of_mem_continuation hlater
      simp at this

theorem newline_notMem_encode {l : List Char} (h : '\n' ∉ l) : 10 ∉ encode l := by
  rw [encode, List.mem_flatMap]
  rintro ⟨c, hc, hbyte⟩
  exact newline_notMem_utf8EncodeChar (fun hnewline ↦ h (hnewline ▸ hc)) hbyte

end Utf8

namespace Session

open Utf8

/-! ## Lines -/

theorem splitLines_of_notMem {xs : List UInt8} (h : 10 ∉ xs) (line ys : List UInt8) :
    splitLines line (xs ++ ys) = splitLines (xs.reverse ++ line) ys := by
  induction xs generalizing line with
  | nil => rfl
  | cons x xs ih =>
    rw [List.mem_cons, not_or] at h
    rw [List.cons_append, splitLines, if_neg (Ne.symm h.1), ih h.2, List.reverse_cons,
      List.append_assoc]
    rfl

theorem splitLines_line {l : List Char} (h : '\n' ∉ l) (ys : List UInt8) :
    splitLines [] (encode (l ++ ['\n']) ++ ys) =
      ⟨(encode (l ++ ['\n'])).toArray⟩ :: splitLines [] ys := by
  have hbyte : encode ['\n'] = [10] := rfl
  rw [encode_append, hbyte, List.append_assoc, splitLines_of_notMem (newline_notMem_encode h),
    List.singleton_append, splitLines, if_pos rfl, List.append_nil, List.reverse_cons,
    List.reverse_reverse]

theorem isEmpty_mk (bytes : List UInt8) :
    (⟨bytes.toArray⟩ : ByteArray).isEmpty = bytes.isEmpty := by
  cases bytes <;> rfl

/-- No line is without bytes. -/
theorem isEmpty_of_mem_splitLines (line bytes : List UInt8) :
    ∀ l ∈ splitLines line bytes, l.isEmpty = false := by
  induction bytes generalizing line with
  | nil =>
    intro l hl
    rw [splitLines] at hl
    split at hl
    · cases hl
    · rw [List.mem_singleton.1 hl, isEmpty_mk]
      simp_all
  | cons b bytes ih =>
    intro l hl
    rw [splitLines] at hl
    split at hl
    · rcases List.mem_cons.1 hl with rfl | hl
      · simp [isEmpty_mk]
      · exact ih [] l hl
    · exact ih _ l hl

theorem splitLines_newline (line xs ys : List UInt8) :
    splitLines line (xs ++ 10 :: ys) = splitLines line (xs ++ [10]) ++ splitLines [] ys := by
  induction xs generalizing line with
  | nil => rfl
  | cons x xs ih =>
    rw [List.cons_append, List.cons_append, splitLines, splitLines]
    split
    · rw [ih]
      rfl
    · exact ih _

/-- Between inputs of whole lines, none is cut in another way. -/
theorem splitLines_append {xs : List UInt8} (h : xs = [] ∨ xs.getLast? = some 10)
    (ys : List UInt8) : splitLines [] (xs ++ ys) = splitLines [] xs ++ splitLines [] ys := by
  rcases h with rfl | h
  · rfl
  · obtain ⟨zs, rfl⟩ := List.getLast?_eq_some_iff.1 h
    rw [List.append_assoc]
    exact splitLines_newline [] zs ys

/-- A text of whole lines is one as bytes, too. -/
theorem getLast?_toUTF8 {text : String} (h : text = "" ∨ text.toList.getLast? = some '\n') :
    text.toUTF8.toList = [] ∨ text.toUTF8.toList.getLast? = some 10 := by
  rw [toList_toUTF8]
  rcases h with rfl | h
  · exact .inl rfl
  · obtain ⟨cs, hcs⟩ := List.getLast?_eq_some_iff.1 h
    have hbyte : encode ['\n'] = [10] := rfl
    rw [hcs, encode_append, hbyte, List.getLast?_concat]
    exact .inr rfl

/-- The bytes of a line, with or without the line feed at its end. -/
def IsLine (bytes : ByteArray) (l : List Char) : Prop :=
  '\n' ∉ l ∧ (bytes = ⟨(encode l).toArray⟩ ∨ bytes = ⟨(encode (l ++ ['\n'])).toArray⟩)

theorem beq_newline_of_mem {l : List Char} (h : '\n' ∉ l) : ∀ c ∈ l, (c == '\n') = false := by
  intro c hc
  exact beq_false_of_ne fun hnewline ↦ h (hnewline ▸ hc)

/-- **Lines of bytes are lines of characters.** -/
theorem exists_isLine_of_mem {bytes : ByteArray} (front chars : List Char) (hfront : '\n' ∉ front)
    (h : bytes ∈ splitLines (encode front).reverse (encode chars)) :
    ∃ l ∈ (front ++ chars).splitOn '\n', IsLine bytes l := by
  induction chars generalizing front with
  | nil =>
    refine ⟨front, ?_, hfront, .inl ?_⟩
    · rw [List.append_nil, List.splitOn_eq_splitOnP,
        List.splitOnP_eq_singleton (beq_newline_of_mem hfront)]
      exact List.mem_singleton_self front
    · have hnil : encode [] = [] := rfl
      rw [hnil, splitLines] at h
      split at h
      · cases h
      · rw [List.mem_singleton, List.reverse_reverse] at h
        exact h
  | cons c chars ih =>
    have hencode : encode (c :: chars) = String.utf8EncodeChar c ++ encode chars := rfl
    by_cases hc : c = '\n'
    · subst hc
      have hsplit : (front ++ '\n' :: chars).splitOn '\n' = front :: chars.splitOn '\n' := by
        rw [List.splitOn_eq_splitOnP, List.splitOn_eq_splitOnP]
        exact List.splitOnP_append_cons_of_forall_mem (beq_newline_of_mem hfront) _
          (beq_self_eq_true _) chars
      have hbyte : String.utf8EncodeChar '\n' = [10] := rfl
      rw [hencode, hbyte, List.singleton_append, splitLines, if_pos rfl, List.mem_cons] at h
      rw [hsplit]
      rcases h with h | h
      · refine ⟨front, List.mem_cons_self, hfront, .inr ?_⟩
        rw [h, List.reverse_cons, List.reverse_reverse, encode_append]
        rfl
      · obtain ⟨l, hl, hline⟩ := ih [] List.not_mem_nil h
        exact ⟨l, List.mem_cons_of_mem _ hl, hline⟩
    · rw [hencode, splitLines_of_notMem (newline_notMem_utf8EncodeChar hc),
        ← List.reverse_append] at h
      have hfront' : '\n' ∉ front ++ [c] := by
        simp [hfront, Ne.symm hc]
      have hbytes : encode front ++ String.utf8EncodeChar c = encode (front ++ [c]) := by
        simp [encode]
      rw [hbytes] at h
      obtain ⟨l, hl, hline⟩ := ih _ hfront' h
      rw [List.append_assoc] at hl
      exact ⟨l, hl, hline⟩

/-! ## Turns -/

variable {s : Session} {fuel : Nat} {coloured : Bool}

theorem dropWhile_of_notMem {l : List Char} (h : '\n' ∉ l) :
    l.dropWhile (fun c ↦ c = '\n' || c = '\r') = l.dropWhile fun c ↦ c = '\r' := by
  induction l with
  | nil => rfl
  | cons c l ih =>
    rw [List.mem_cons, not_or] at h
    simp [List.dropWhile_cons, Ne.symm h.1, ih h.2]

/-- At the end of a line, only carriage returns are left to remove. -/
theorem trimLine_ofList {l : List Char} (h : '\n' ∉ l) :
    trimLine (String.ofList l) = String.ofList (l.rdropWhile fun c ↦ c = '\r') := by
  rw [trimLine, String.toList_ofList, dropWhile_of_notMem (by rwa [List.mem_reverse]),
    List.rdropWhile]

theorem trimLine_newline (l : List Char) :
    trimLine (String.ofList (l ++ ['\n'])) = trimLine (String.ofList l) := by
  simp [trimLine]

/-- The text of a line is what the session looks at. -/
theorem turn_of_isLine {bytes : ByteArray} {l : List Char} (h : IsLine bytes l) :
    s.turn fuel coloured bytes =
      if l.rdropWhile (fun c ↦ c = '\r') = [] then some (.carryOn {})
      else if l.rdropWhile (fun c ↦ c = '\r') = ".exit".toList then some .leave
      else (s.reply fuel coloured (String.ofList (l.rdropWhile fun c ↦ c = '\r'))).map
        .carryOn := by
  obtain ⟨hl, hbytes⟩ := h
  have htext : ∃ text, String.fromUTF8? bytes = some text ∧
      trimLine text = String.ofList (l.rdropWhile fun c ↦ c = '\r') := by
    rcases hbytes with rfl | rfl
    · exact ⟨_, fromUTF8?_encode l, trimLine_ofList hl⟩
    · exact ⟨_, fromUTF8?_encode _, (trimLine_newline l).trans (trimLine_ofList hl)⟩
  obtain ⟨text, hread, htrim⟩ := htext
  simp only [turn, hread, htrim, String.ofList_eq, String.toList_empty]

/-- After a line other than `.exit` the session goes on. -/
theorem carryOn_of_isLine {bytes : ByteArray} {l : List Char} (h : IsLine bytes l)
    (hexit : l.rdropWhile (fun c ↦ c = '\r') ≠ ".exit".toList) {t : Turn}
    (ht : s.turn fuel coloured bytes = some t) : ∃ output, t = .carryOn output := by
  rw [turn_of_isLine h, if_neg hexit] at ht
  split at ht
  · cases ht
    exact ⟨_, rfl⟩
  · obtain ⟨output, -, rfl⟩ := Option.map_eq_some_iff.1 ht
    exact ⟨output, rfl⟩

/-- The line `.exit`, with carriage returns and a line feed at its end. -/
def exitLine (returns : Nat) : String :=
  ".exit" ++ String.ofList (List.replicate returns '\r') ++ "\n"

theorem newline_notMem_exit (n : Nat) : '\n' ∉ ".exit".toList ++ List.replicate n '\r' := by simp

theorem toList_exitLine (n : Nat) :
    (exitLine n).toList = ".exit".toList ++ List.replicate n '\r' ++ ['\n'] := by
  have hreturns : (String.ofList (List.replicate n '\r')).toList = List.replicate n '\r' :=
    String.toList_ofList
  have hnewline : "\n".toList = ['\n'] := rfl
  rw [exitLine, String.toList_append, String.toList_append, hreturns, hnewline]

theorem turn_exitLine (n : Nat) :
    s.turn fuel coloured ⟨(encode (exitLine n).toList).toArray⟩ = some .leave := by
  have htrim : (".exit".toList ++ List.replicate n '\r').rdropWhile (fun c ↦ c = '\r') =
      ".exit".toList := by
    induction n with
    | zero => rfl
    | succ n ih =>
      rw [List.replicate_succ', ← List.append_assoc, List.rdropWhile_concat_pos _ _ _ (by simp)]
      exact ih
  have hline : IsLine ⟨(encode (exitLine n).toList).toArray⟩
      (".exit".toList ++ List.replicate n '\r') :=
    ⟨newline_notMem_exit n, .inr (by rw [toList_exitLine])⟩
  rw [turn_of_isLine hline, htrim]
  rfl

/-! ## The lines of an input -/

/-- How a session ended and what it printed. -/
structure Ending where
  output : Output
  fault : Option FileFault
  deriving DecidableEq

/-- A session on lines, one after the other. -/
def run (fuel : Nat) (coloured : Bool) (s : Session) : List ByteArray → Option Ending
  | [] => some ⟨.result s.prompt, none⟩
  | bytes :: rest => do
    match ← s.turn fuel coloured bytes with
    | .leave => return ⟨.result s.prompt, none⟩
    | .invalid => return ⟨.result s.prompt, some .invalidData⟩
    | .carryOn output =>
      let ending ← s.run fuel coloured rest
      return { ending with output := .result s.prompt ++ output ++ ending.output }

/-- **Lines in a row.** After lines that do not end it, a session prints what it would have printed
without them, and has printed its last prompt already. -/
theorem run_append {ls : List ByteArray}
    (h : ∀ bytes ∈ ls, ∀ t, s.turn fuel coloured bytes = some t → ∃ output, t = .carryOn output)
    {x : Ending} (hx : s.run fuel coloured ls = some x) (ms : List ByteArray) :
    ∃ front : Output, x = ⟨front ++ .result s.prompt, none⟩ ∧
      s.run fuel coloured (ls ++ ms) =
        (s.run fuel coloured ms).map fun y ↦ ⟨front ++ y.output, y.fault⟩ := by
  induction ls generalizing x with
  | nil =>
    cases hx
    refine ⟨{}, by rw [Output.empty_append], ?_⟩
    simp [Output.empty_append]
  | cons bytes ls ih =>
    rw [run] at hx
    obtain ⟨t, ht, hx⟩ := Option.bind_eq_some_iff.1 hx
    obtain ⟨output, rfl⟩ := h bytes List.mem_cons_self t ht
    obtain ⟨y, hy, hx⟩ := Option.bind_eq_some_iff.1 hx
    obtain ⟨front, rfl, hrun⟩ := ih (fun b hb ↦ h b (List.mem_cons_of_mem _ hb)) hy
    cases hx
    refine ⟨.result s.prompt ++ output ++ front, by simp only [Output.append_assoc], ?_⟩
    rw [List.cons_append, run, ht, hrun]
    cases s.run fuel coloured ms with
    | none => rfl
    | some z => exact congrArg (fun o ↦ some (Ending.mk o z.fault)) (Output.append_assoc _ _ _).symm

/-- Nothing is read after a session was left. -/
theorem run_of_leave {bytes : ByteArray} (h : s.turn fuel coloured bytes = some .leave)
    (ls ms ms' : List ByteArray) :
    s.run fuel coloured (ls ++ bytes :: ms) = s.run fuel coloured (ls ++ bytes :: ms') := by
  induction ls with
  | nil => simp only [List.nil_append, run, h, Option.bind_eq_bind, Option.bind_some]
  | cons l ls ih => simp only [List.cons_append, run, ih]

/-! ## Sessions -/

/-- What comes of a session that ended. -/
def close (coloured : Bool) (tree : FileTree) (x : Ending) : Outcome :=
  match x.fault with
  | none => ⟨0, x.output, tree⟩
  | some f => ⟨failureStatus, x.output ++ .message ((Failure.file f).render coloured), tree⟩

/-- On a world with some lines left, a session does what it does on these lines. -/
theorem outcome_runOn {lines : List ByteArray} (h : ∀ l ∈ lines, l.isEmpty = false)
    (tree : FileTree) (before : Output) :
    World.outcome ⟨tree, lines, before⟩
        (s.runOn (World.host "") fuel coloured (lines.length + 1)) =
      (s.run fuel coloured lines).map fun x ↦
        close coloured tree ⟨before ++ x.output, x.fault⟩ := by
  induction lines generalizing before with
  | nil => rfl
  | cons bytes lines ih =>
    have hbytes := h bytes List.mem_cons_self
    have hrest := ih fun l hl ↦ h l (List.mem_cons_of_mem _ hl)
    rw [run, List.length_cons, runOn, World.outcome_bind, World.run_print, World.outcome_bind,
      World.run_readLine_cons _ _ rfl, if_neg (by simp [hbytes])]
    cases hturn : s.turn fuel coloured bytes with
    | none => rfl
    | some t =>
      cases t with
      | leave => rfl
      | invalid => rfl
      | carryOn output =>
        dsimp only
        rw [World.outcome_bind, World.run_print, hrest]
        cases s.run fuel coloured lines with
        | none => rfl
        | some x => simp [Output.append_assoc]

theorem outcome_eq (input : ByteArray) (tree : FileTree) :
    s.outcome fuel coloured input tree =
      (s.run fuel coloured (splitLines [] input.toList)).map (close coloured tree) := by
  refine (outcome_runOn (isEmpty_of_mem_splitLines _ _) tree {}).trans ?_
  simp only [Output.empty_append]

theorem close_append (tree : FileTree) (front : Output) (x : Ending) :
    close coloured tree ⟨front ++ x.output, x.fault⟩ = ⟨(close coloured tree x).status,
      front ++ (close coloured tree x).output, tree⟩ := by
  obtain ⟨output, fault⟩ := x
  cases fault with
  | none => rfl
  | some f => exact congrArg (Outcome.mk failureStatus · tree) (Output.append_assoc _ _ _)

end Session

open Utf8 Session in
/-- **Sessions are compositional.** After lines of text none of which is `.exit`, a session goes on
as if it had just started: its results are those of the lines, without the last prompt, and those of
the rest, its messages are the messages of both, and its status is that of the rest. And what comes
after a line `.exit` does not matter. -/
theorem session_compositional (s : Session) (fuel : Nat) (coloured : Bool) (tree : FileTree) :
    (∀ (text : String) (input : ByteArray) (x : Outcome),
      text = "" ∨ text.toList.getLast? = some '\n' →
      (∀ l ∈ text.toList.splitOn '\n', l.rdropWhile (fun c ↦ c = '\r') ≠ ".exit".toList) →
      s.outcome fuel coloured text.toUTF8 tree = some x →
      ∃ front, x.output.results = front ++ s.prompt ∧
        s.outcome fuel coloured (text.toUTF8 ++ input) tree =
          (s.outcome fuel coloured input tree).map fun y ↦ ⟨y.status,
            ⟨front ++ y.output.results, x.output.messages ++ y.output.messages⟩, tree⟩) ∧
    ∀ (before after after' : ByteArray) (n : Nat),
      before.toList = [] ∨ before.toList.getLast? = some 10 →
      s.outcome fuel coloured (before ++ (exitLine n).toUTF8 ++ after) tree =
        s.outcome fuel coloured (before ++ (exitLine n).toUTF8 ++ after') tree := by
  constructor
  · intro text input x hlast hexit hx
    have hlines : splitLines [] (text.toUTF8 ++ input).toList =
        splitLines [] text.toUTF8.toList ++ splitLines [] input.toList := by
      rw [toList_append]
      exact splitLines_append (getLast?_toUTF8 hlast) _
    have hturn : ∀ bytes ∈ splitLines [] text.toUTF8.toList, ∀ t,
        s.turn fuel coloured bytes = some t → ∃ output, t = .carryOn output := by
      intro bytes hbytes t ht
      rw [toList_toUTF8] at hbytes
      obtain ⟨l, hl, hline⟩ := exists_isLine_of_mem [] _ List.not_mem_nil hbytes
      exact carryOn_of_isLine hline (hexit l hl) ht
    rw [outcome_eq] at hx
    obtain ⟨x, hrun, rfl⟩ := Option.map_eq_some_iff.1 hx
    obtain ⟨front, rfl, hrun'⟩ := run_append hturn hrun (splitLines [] input.toList)
    refine ⟨front.results, rfl, ?_⟩
    rw [outcome_eq, outcome_eq, hlines, hrun', Option.map_map, Option.map_map]
    refine congrArg (Option.map · _) (funext fun y ↦ (close_append tree front y).trans ?_)
    -- the prompts are no messages
    have hmessages : (front ++ .result s.prompt).messages = front.messages := String.append_empty
    exact congrArg (fun m ↦ Outcome.mk _ ⟨_, m ++ _⟩ tree) hmessages.symm
  · intro before after after' n hlast
    have hlines (input : ByteArray) :
        splitLines [] (before ++ (exitLine n).toUTF8 ++ input).toList =
          splitLines [] before.toList ++
            ⟨(encode (exitLine n).toList).toArray⟩ :: splitLines [] input.toList := by
      rw [toList_append, toList_append, List.append_assoc, splitLines_append hlast, toList_toUTF8,
        toList_exitLine, splitLines_line (newline_notMem_exit n)]
    rw [outcome_eq, outcome_eq, hlines, hlines, run_of_leave (turn_exitLine n)]

theorem session_compositional_of_programs :
    let text := "PROGRAM p; VAR a : INTEGER; BEGIN a := 2 END.\n\r\n1 +\n"
    let input : ByteArray := ⟨#[0xFF]⟩
    let front := "pas> a: .word INTEGER\n< PUSHI 2 >\n< MOV a 2 >\n" ++
      "Symbols:\n  a: INTEGER\nMemory:\n  a = 2\npas> pas> "
    let messages :=
      "error: Syntax error\n  ┌─ <rcpl>:1:1\n  │\n1 │ 1 +\n  │ ^ Not expected this\n\n" ++
      "Found an integer, expected one of: \n- PROGRAM\n\n"
    let fault := "error: Standard IO error\n\ninvalid data\n\n"
    Session.programs.outcome 30 false text.toUTF8 {} =
      some ⟨0, ⟨front ++ "pas> ", messages⟩, {}⟩ ∧
    Session.programs.outcome 30 false input {} = some ⟨1, ⟨"pas> ", fault⟩, {}⟩ ∧
    Session.programs.outcome 30 false (text.toUTF8 ++ input) {} =
      some ⟨1, ⟨front ++ "pas> ", messages ++ fault⟩, {}⟩ ∧
    Session.programs.outcome 30 false (text.toUTF8 ++ ".exit\r\n".toUTF8 ++ input) {} =
      Session.programs.outcome 30 false (text.toUTF8 ++ ".exit\r\n".toUTF8 ++ .empty) {} := by
  intro text input front messages fault
  obtain ⟨hrest, hexit⟩ := session_compositional .programs 30 false {}
  have hrun : Session.programs.run 30 false (Session.splitLines [] text.toUTF8.toList) =
      some ⟨⟨front ++ "pas> ", messages⟩, none⟩ := by decide +kernel
  have hrun' : Session.programs.run 30 false (Session.splitLines [] input.toList) =
      some ⟨⟨"pas> ", ""⟩, some .invalidData⟩ := by decide +kernel
  have hx : Session.programs.outcome 30 false text.toUTF8 {} =
      some ⟨0, ⟨front ++ "pas> ", messages⟩, {}⟩ := by
    rw [Session.outcome_eq, hrun]
    rfl
  have hy : Session.programs.outcome 30 false input {} = some ⟨1, ⟨"pas> ", fault⟩, {}⟩ := by
    have houtput : (⟨"pas> ", ""⟩ : Output) ++ .message ((Failure.file .invalidData).render false) =
        ⟨"pas> ", fault⟩ := by decide +kernel
    rw [Session.outcome_eq, hrun', ← houtput]
    rfl
  refine ⟨hx, hy, ?_, ?_⟩
  · obtain ⟨front', hfront, hboth⟩ := hrest text input _ (.inr (by decide)) (by decide +kernel) hx
    rw [hboth, hy, ← String.append_left_inj _ |>.1 hfront]
    rfl
  · have hline : Session.exitLine 1 = ".exit\r\n" := by decide
    rw [← hline]
    exact hexit _ _ _ 1 (.inr (by decide +kernel))

end MiniPascal
