import MiniPascal.Proofs.Rereading
import MiniPascal.Proofs.Scoping

/-!
# Scanners that are moved and copied

A scanner may be moved to any character, into the middle of a token or a comment as well, and it may
be copied, after which the copies are moved independently. None of this leaves a trace in what is
read: where a scanner stands in its text decides the next token.

A place in a text is told in three ways: by what remains of the text (`Scanner.rest`), by the
characters in front of it (`cursor`) and by the bytes in front of it (`offset`). A cut of the text
in two gives all three (`Scanner.exists_cut`), and counting the characters in front of a byte offset
leads back from the third to the second (`Scanner.Cut.charIndex_eq`).
-/

namespace MiniPascal

open Placed

/-! ## Cuts -/

namespace Scanner

variable {s : Scanner} {before after : List Char}

/-- The text of the scanner is made of two parts. -/
def Cut (s : Scanner) (before after : List Char) : Prop := s.source = layOut 0 (before ++ after)

theorem Cut.charIndex_eq (h : s.Cut before after) :
    s.charIndex (byteLength before) = before.length := by
  have hsource : s.source.Pairwise fun p q ↦ p.offset < q.offset := by
    rw [h]
    exact pairwise_layOut 0 _
  have hcount := charsBefore_layOut 0 before after
  rw [Nat.zero_add, ← h] at hcount
  rw [charIndex_eq_length_takeWhile hsource]
  exact hcount

/-- A scanner that is moved behind the first part has the second one left. -/
theorem Cut.seek_rest (h : s.Cut before after) :
    (s.seek before.length).rest = layOut (byteLength before) after := by
  have hdrop : (s.seek before.length).rest = s.source.drop before.length := rfl
  rw [hdrop, h, layOut_append, Nat.zero_add]
  exact List.drop_left' (length_layOut 0 before)

/-- Where a scanner with the second part left is. -/
theorem Cut.position_eq (h : s.Cut before after)
    (hrest : s.rest = layOut (byteLength before) after) :
    s.cursor = before.length ∧ s.offset = byteLength before := by
  constructor
  · rw [cursor, h, hrest, length_layOut, length_layOut, List.length_append]
    omega
  · rw [offset, h, hrest, offsetAt_layOut]

/-- **A token is read again.** It starts with what remained of the text when the layout in front of
it had been skipped, and from there the same is read. -/
theorem exists_rest_of_next {l : Lexeme} (h : s.next.1 = .ok l) :
    ∃ rest, rest <:+ s.source ∧ l.span.start = offsetAt s.source rest ∧
      scan s.source rest = ⟨.ok l, none, s.next.2.rest⟩ := by
  rcases scan_of_ok h with ⟨rfl, hrest⟩ | ⟨p, ps, t, hlayout, hread, rfl⟩
  · refine ⟨[], List.nil_suffix, rfl, ?_⟩
    rw [next_snd_rest, hrest]
    rfl
  · refine ⟨p :: ps, ?_, rfl, ?_⟩
    · rw [← hlayout]
      exact (skipLayout_suffix none s.rest).trans s.suffix
    · rw [scan, skipLayout_skipLayout hlayout]
      simp only [hread, next_snd_rest]

/-! ## Several scanners -/

/-- An action on one of several scanners, which is given by its number. -/
inductive Action where
  | next (i : Nat)
  | seek (i n : Nat)
  | copy (i : Nat)

/-- The scanners after an action. A copy is added behind them. -/
def Action.perform (scanners : List Scanner) : Action → List Scanner
  | .next i => scanners.modify i fun s ↦ s.next.2
  | .seek i n => scanners.modify i fun s ↦ s.seek n
  | .copy i => scanners ++ scanners[i]?.toList

/-- The scanners that have come about by some actions, from one at the front of a text. -/
def ofHistory (source : String) (history : List Action) : List Scanner :=
  history.foldl Action.perform [ofString source]

theorem mem_of_mem_modify {α : Type} {f : α → α} {l : List α} {i : Nat} {a : α}
    (h : a ∈ l.modify i f) : a ∈ l ∨ ∃ b ∈ l, a = f b := by
  obtain ⟨j, hj⟩ := List.mem_iff_getElem?.1 h
  rw [List.getElem?_modify] at hj
  obtain ⟨b, hb, rfl⟩ := Option.map_eq_some_iff.1 hj
  have hmem : b ∈ l := List.mem_of_getElem? hb
  by_cases hij : i = j
  · exact .inr ⟨b, hmem, by simp [hij]⟩
  · exact .inl (by simpa [hij] using hmem)

/-- **One action** leaves every scanner over its text. -/
theorem Action.source_eq {text : List Placed} {scanners : List Scanner} (a : Action)
    (h : ∀ s ∈ scanners, s.source = text) : ∀ s ∈ a.perform scanners, s.source = text := by
  intro s hs
  cases a with
  | next i =>
    rcases mem_of_mem_modify hs with hs | ⟨t, ht, rfl⟩
    · exact h s hs
    · exact h t ht
  | seek i n =>
    rcases mem_of_mem_modify hs with hs | ⟨t, ht, rfl⟩
    · exact h s hs
    · exact h t ht
  | copy i =>
    rcases List.mem_append.1 hs with hs | hs
    · exact h s hs
    · exact h s (List.mem_of_getElem? (by simpa using hs))

/-- **All actions** do. -/
theorem source_of_mem_ofHistory {source : String} {history : List Action}
    (hs : s ∈ ofHistory source history) : s.source = layOut 0 source.toList := by
  have hrun (actions : List Action) (scanners : List Scanner)
      (h : ∀ s ∈ scanners, s.source = layOut 0 source.toList) :
      ∀ s ∈ actions.foldl Action.perform scanners, s.source = layOut 0 source.toList := by
    induction actions generalizing scanners with
    | nil => exact h
    | cons a actions ih => exact ih _ (a.source_eq h)
  refine hrun history _ (fun t ht ↦ ?_) s hs
  rw [List.mem_singleton.1 ht]
  rfl

/-- What remains of the text of a scanner was cut off from it. -/
theorem exists_cut {source : String} (hsource : s.source = layOut 0 source.toList)
    {rest : List Placed} (hrest : rest <:+ s.source) :
    ∃ before after, source.toList = before ++ after ∧ s.Cut before after ∧
      rest = layOut (byteLength before) after := by
  rw [hsource] at hrest
  obtain ⟨before, after, htext, hrest⟩ := exists_of_suffix_layOut hrest
  exact ⟨before, after, htext, hsource.trans (by rw [htext]), hrest⟩

/-- **Moving back is exact, and reading has no memory.** Whatever was done to a scanner and to the
copies of it, it stands in its text, and its cursor is told by its byte offset. Every scanner of
that text with the same cursor, whatever its history, reads the same from there and is left at the
same cursor. The byte offset at which a token or the end of the text is read tells the characters
in front of it, and a scanner that is moved back there reads the same again. -/
theorem next_of_mem_ofHistory (source : String) (history : List Action) :
    ∀ s ∈ ofHistory source history,
      s.cursor ≤ source.length ∧ s.charIndex s.offset = s.cursor ∧
      (∀ other, ∀ t ∈ ofHistory source other, t.cursor = s.cursor →
        t.next.1 = s.next.1 ∧ t.next.2.cursor = s.next.2.cursor) ∧
      ∀ l, s.next.1 = .ok l →
        (∃ before after : String, source = before ++ after ∧ before.utf8ByteSize = l.span.start ∧
          s.next.2.charIndex l.span.start = before.length) ∧
        (s.next.2.seek (s.next.2.charIndex l.span.start)).next.1 = .ok l ∧
        (s.next.2.seek (s.next.2.charIndex l.span.start)).next.2.cursor = s.next.2.cursor := by
  intro s hs
  have hsource := source_of_mem_ofHistory hs
  obtain ⟨before, after, htext, hcut, hrest⟩ := exists_cut hsource s.suffix
  have hplace := hcut.position_eq hrest
  refine ⟨?_, ?_, ?_, ?_⟩
  · rw [hplace.1, ← String.length_toList, htext, List.length_append]
    exact Nat.le_add_right ..
  · rw [hplace.1, hplace.2, hcut.charIndex_eq]
  · intro other t ht hcursor
    have hsame : t.source = s.source := (source_of_mem_ofHistory ht).trans hsource.symm
    obtain ⟨hnext, htext, hleft⟩ := next_congr hsame (rest_eq_of_cursor_eq hsame hcursor)
    exact ⟨hnext, by rw [cursor, cursor, htext, hleft]⟩
  · intro l hl
    obtain ⟨rest, hrest, hstart, hagain⟩ := exists_rest_of_next hl
    obtain ⟨before, after, htext, hcut, rfl⟩ := exists_cut hsource hrest
    rw [hcut, offsetAt_layOut] at hstart
    have hindex : s.next.2.charIndex l.span.start = before.length := by
      rw [hstart]
      exact hcut.charIndex_eq
    have hback : (s.next.2.seek before.length).rest = layOut (byteLength before) after :=
      hcut.seek_rest
    have hread : scan s.source (s.next.2.seek before.length).rest = ⟨.ok l, none, s.next.2.rest⟩ :=
      hback ▸ hagain
    have htake : (s.next.2.seek before.length).next.2.cursor =
        s.source.length - (scan s.source (s.next.2.seek before.length).rest).rest.length := rfl
    rw [hindex]
    refine ⟨⟨.ofList before, .ofList after, ?_, ?_, ?_⟩, congrArg Scan.result hread, ?_⟩
    · rw [← String.ofList_append, ← htext, String.ofList_toList]
    · rw [utf8ByteSize_ofList, hstart]
    · rw [String.length_ofList]
    · rw [htake, hread]
      rfl

/-- A copy that was moved into a comment reads a name there, and reads it again. -/
theorem next_of_mem_ofHistory_moved :
    ∃ s ∈ ofHistory "é := { é } ü" [.next 0, .copy 0, .seek 1 7],
      s.next.1 = .ok ⟨.identifier "é", ⟨8, 10⟩⟩ ∧ s.next.2.charIndex 8 = 7 ∧
      (s.next.2.seek (s.next.2.charIndex 8)).next.1 = .ok ⟨.identifier "é", ⟨8, 10⟩⟩ := by
  have hmem : (ofString "é := { é } ü").next.2.seek 7 ∈
      ofHistory "é := { é } ü" [.next 0, .copy 0, .seek 1 7] := .tail _ (.head _)
  have hread : ((ofString "é := { é } ü").next.2.seek 7).next.1 =
      .ok ⟨.identifier "é", ⟨8, 10⟩⟩ := rfl
  refine ⟨_, hmem, hread, by decide +kernel, ?_⟩
  exact ((next_of_mem_ofHistory _ _ _ hmem).2.2.2 _ hread).2.1

end Scanner

end MiniPascal
