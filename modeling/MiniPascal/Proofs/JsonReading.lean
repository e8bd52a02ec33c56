import MiniPascal.Listing.Json

/-!
# Reading arrays of strings

A reader of JSON texts that are arrays of strings. It takes them in every form the notation has:
blanks between the parts, each of the escapes, and characters outside the first plane as two escapes
in a row. It refuses control characters inside of strings, escapes that stand for no character, and
whatever is left behind the array.

An array is read as it was written, whatever characters the strings have (`read?_stringArray`). The
reader is not made after the writer, so this says that the texts written are JSON.
-/

namespace MiniPascal.Json

/-! ## The reader -/

/-- The blanks of the notation. -/
def isBlank (c : Char) : Bool := c = ' ' || c = '\t' || c = '\n' || c = '\r'

/-- The text behind the blanks at its front. -/
def skip (cs : List Char) : List Char := cs.dropWhile isBlank

/-- The value of a hexadecimal digit. -/
def hexDigit? (c : Char) : Option Nat :=
  if '0' ≤ c ∧ c ≤ '9' then some (c.toNat - 48)
  else if 'a' ≤ c ∧ c ≤ 'f' then some (c.toNat - 87)
  else if 'A' ≤ c ∧ c ≤ 'F' then some (c.toNat - 55)
  else none

/-- The number that four hexadecimal digits write. -/
def unit? : List Char → Option (Nat × List Char)
  | a :: b :: c :: d :: rest => do
    let a ← hexDigit? a
    let b ← hexDigit? b
    let c ← hexDigit? c
    let d ← hexDigit? d
    return (0x1000 * a + 0x100 * b + 0x10 * c + d, rest)
  | _ => none

/-- The character of an escape by number, behind its `u`. A number from `D800` to `DFFF` stands for
no character, but one of the lower half with one of the upper half after it does. -/
def numbered? (cs : List Char) : Option (Char × List Char) := do
  let (high, rest) ← unit? cs
  if high < 0xD800 ∨ 0xE000 ≤ high then return (Char.ofNat high, rest)
  else if high < 0xDC00 then
    match rest with
    | '\\' :: 'u' :: rest =>
      let (low, rest) ← unit? rest
      if 0xDC00 ≤ low ∧ low < 0xE000 then
        return (Char.ofNat (0x10000 + 0x400 * (high - 0xD800) + (low - 0xDC00)), rest)
      else none
    | _ => none
  else none

/-- The character of an escape, behind its backslash. -/
def escaped? : List Char → Option (Char × List Char)
  | [] => none
  | c :: rest =>
    if c = '"' ∨ c = '\\' ∨ c = '/' then some (c, rest)
    else if c = 'b' then some (Char.ofNat 8, rest)
    else if c = 'f' then some (Char.ofNat 12, rest)
    else if c = 'n' then some ('\n', rest)
    else if c = 'r' then some ('\r', rest)
    else if c = 't' then some ('\t', rest)
    else if c = 'u' then numbered? rest
    else none

/-- The first character of the inside of a string. -/
def character? : List Char → Option (Char × List Char)
  | [] => none
  | c :: rest =>
    if c = '\\' then escaped? rest
    else if c = '"' ∨ c.toNat < 0x20 then none
    else some (c, rest)

theorem length_unit? {cs rest : List Char} {n : Nat} (h : unit? cs = some (n, rest)) :
    rest.length < cs.length := by
  match cs with
  | a :: b :: c :: d :: rest' =>
    simp only [unit?, Option.bind_eq_bind, Option.bind_eq_some_iff] at h
    obtain ⟨_, _, _, _, _, _, _, _, h⟩ := h
    cases h
    simp only [List.length_cons]
    omega

theorem length_numbered? {cs rest : List Char} {c : Char} (h : numbered? cs = some (c, rest)) :
    rest.length < cs.length := by
  rw [numbered?, Option.bind_eq_bind, Option.bind_eq_some_iff] at h
  obtain ⟨⟨high, after⟩, hhigh, h⟩ := h
  have hafter := length_unit? hhigh
  dsimp only at h
  split at h
  · cases h
    exact hafter
  · split at h
    · split at h
      · obtain ⟨⟨low, after'⟩, hlow, h⟩ := Option.bind_eq_some_iff.1 h
        have hafter' := length_unit? hlow
        dsimp only at h
        split at h
        · obtain ⟨-, rfl⟩ := Prod.mk.inj (Option.some.inj h)
          simp only [List.length_cons] at hafter
          omega
        · cases h
      · cases h
    · cases h

theorem length_character? {cs rest : List Char} {c : Char} (h : character? cs = some (c, rest)) :
    rest.length < cs.length := by
  cases cs with
  | nil => cases h
  | cons d cs =>
    rw [character?] at h
    split at h
    · cases cs with
      | nil => cases h
      | cons e cs =>
        have hnumbered (h : numbered? cs = some (c, rest)) : rest.length < cs.length + 1 + 1 := by
          have := length_numbered? h
          omega
        grind [escaped?]
    · grind

/-- The inside of a string up to its closing quote, and what follows the quote. -/
def inside? (cs : List Char) : Option (List Char × List Char) :=
  if cs.head? = some '"' then some ([], cs.tail)
  else
    match _h : character? cs with
    | none => none
    | some (c, rest) => (inside? rest).map fun p ↦ (c :: p.1, p.2)
termination_by cs.length
decreasing_by exact length_character? _h

/-- A string with its quotes. -/
def string? (cs : List Char) : Option (String × List Char) :=
  if cs.head? = some '"' then (inside? cs.tail).map fun p ↦ (String.ofList p.1, p.2) else none

theorem length_inside? {cs inside rest : List Char} (h : inside? cs = some (inside, rest)) :
    rest.length ≤ cs.length := by
  fun_induction inside? cs generalizing inside with
  | case1 cs hquote =>
    cases h
    exact (List.tail_suffix cs).length_le
  | case2 cs hquote hnone => cases h
  | case3 cs hquote c rest' hc ih =>
    obtain ⟨⟨inside', rest''⟩, hinside, heq⟩ := Option.map_eq_some_iff.1 h
    cases heq
    have := length_character? hc
    have := ih hinside
    omega

theorem length_string? {cs rest : List Char} {s : String} (h : string? cs = some (s, rest)) :
    rest.length < cs.length := by
  rw [string?] at h
  split at h
  · next hquote =>
    obtain ⟨⟨inside, rest'⟩, hinside, heq⟩ := Option.map_eq_some_iff.1 h
    cases heq
    have := length_inside? hinside
    cases cs with
    | nil => cases hquote
    | cons c cs => exact Nat.lt_succ_of_le this
  · cases h

theorem length_skip (cs : List Char) : (skip cs).length ≤ cs.length :=
  (List.dropWhile_suffix _).length_le

/-- The strings of an array from one of them on, up to the closing bracket, and what follows the
bracket. -/
def items? (cs : List Char) : Option (List String × List Char) :=
  match _h : string? (skip cs) with
  | none => none
  | some (s, rest) =>
    if (skip rest).head? = some ',' then
      (items? (skip rest).tail).map fun p ↦ (s :: p.1, p.2)
    else if (skip rest).head? = some ']' then some ([s], (skip rest).tail)
    else none
termination_by cs.length
decreasing_by
  have := length_string? _h
  have := length_skip cs
  have := length_skip rest
  rw [List.length_tail]
  omega

/-- An array behind its opening bracket, and what follows its closing one. -/
def array? (cs : List Char) : Option (List String × List Char) :=
  if (skip cs).head? = some ']' then some ([], (skip cs).tail) else items? cs

/-- The strings of a text that is an array of them. -/
def read? (text : String) : Option (List String) :=
  let cs := skip text.toList
  if cs.head? = some '[' then
    (array? cs.tail).bind fun p ↦ if skip p.2 = [] then some p.1 else none
  else none

/-! ## Reading what was written -/

theorem toList_string (s : String) :
    (string s).toList = '"' :: (s.toList.flatMap fun c ↦ (escape c).toList) ++ ['"'] := by
  have hfold (cs : List Char) (acc : String) :
      (cs.foldl (fun acc c ↦ acc ++ escape c) acc).toList =
        acc.toList ++ cs.flatMap fun c ↦ (escape c).toList := by
    induction cs generalizing acc with
    | nil => simp
    | cons c cs ih => simp [ih]
  simp [string, hfold]

/-- Below sixteen, the digit of a number is read as that number. -/
theorem hexDigit?_digitChar {n : Nat} (h : n < 16) : hexDigit? n.digitChar = some n := by
  have hall : ∀ n < 16, hexDigit? n.digitChar = some n := by decide
  exact hall n h

/-- A control character by its number. -/
theorem numbered?_control {n : Nat} (h : n < 32) (rest : List Char) :
    numbered? ('0' :: '0' :: (n / 16).digitChar :: (n % 16).digitChar :: rest) =
      some (Char.ofNat n, rest) := by
  have hzero : hexDigit? '0' = some 0 := by decide
  have hunit : unit? ('0' :: '0' :: (n / 16).digitChar :: (n % 16).digitChar :: rest) =
      some (n, rest) := by
    have hvalue : 0x1000 * 0 + 0x100 * 0 + 0x10 * (n / 16) + n % 16 = n := by omega
    simp only [unit?, hzero, hexDigit?_digitChar (show n / 16 < 16 by omega),
      hexDigit?_digitChar (Nat.mod_lt n (by omega : 16 > 0)), Option.bind_eq_bind, Option.bind_some,
      hvalue]
    rfl
  rw [numbered?, hunit]
  exact if_pos (Or.inl (by omega))

/-- A character is read as it was written. -/
theorem character?_escape (c : Char) (rest : List Char) :
    character? ((escape c).toList ++ rest) = some (c, rest) := by
  have hletter {n : Nat} {e : Char} (hn : c.toNat = n)
      (hread : escaped? (e :: rest) = some (Char.ofNat n, rest)) :
      character? ('\\' :: e :: rest) = some (c, rest) := by
    rw [character?, if_pos rfl, hread, ← hn, Char.ofNat_toNat]
  have hnumber (hlow : c.toNat < 32) :
      character? ('\\' :: 'u' :: '0' :: '0' :: (c.toNat / 16).digitChar ::
        (c.toNat % 16).digitChar :: rest) = some (c, rest) := by
    have := numbered?_control hlow rest
    rw [Char.ofNat_toNat] at this
    exact this
  unfold escape
  split
  · next hc => subst hc; rfl
  split
  · next hc => subst hc; rfl
  split
  · next hc => subst hc; rfl
  split
  · next hc => subst hc; rfl
  split
  · next hc => subst hc; rfl
  split
  · next hc => exact hletter hc rfl
  split
  · next hc => exact hletter hc rfl
  split
  · next hlow =>
    have hdigits : Nat.toDigits 16 c.toNat = [(c.toNat % 16).digitChar] := by
      rw [Nat.toDigits_of_lt_base hlow, Nat.mod_eq_of_lt hlow]
    have hquotient : (c.toNat / 16).digitChar = '0' := by
      rw [Nat.div_eq_of_lt hlow]
      rfl
    simpa [hdigits, hquotient] using hnumber (by omega)
  split
  · next hhigh hlow =>
    have hquotient : c.toNat / 16 = 1 := by omega
    have hdigits : Nat.toDigits 16 c.toNat = [Nat.digitChar 1, (c.toNat % 16).digitChar] := by
      rw [Nat.toDigits_of_base_le (by omega) (by omega), hquotient,
        Nat.toDigits_of_lt_base (by omega)]
      rfl
    simpa [hdigits, hquotient] using hnumber hlow
  · next hquote hback _ _ _ _ _ _ hhigh =>
    simp [character?, hquote, hback]
    omega

theorem inside?_of_character? {cs rest : List Char} {c : Char}
    (h : character? cs = some (c, rest)) :
    inside? cs = (inside? rest).map fun p ↦ (c :: p.1, p.2) := by
  have hquote : cs.head? ≠ some '"' := by
    intro hquote
    obtain ⟨cs, rfl⟩ := List.head?_eq_some_iff.1 hquote
    cases h
  rw [inside?, if_neg hquote]
  split
  · next hnone =>
    rw [hnone] at h
    cases h
  · next hsome =>
    rw [hsome] at h
    cases h
    rfl

theorem inside?_flatMap_escape (cs rest : List Char) :
    inside? ((cs.flatMap fun c ↦ (escape c).toList) ++ '"' :: rest) = some (cs, rest) := by
  induction cs with
  | nil =>
    rw [inside?]
    rfl
  | cons c cs ih =>
    rw [List.flatMap_cons, List.append_assoc, inside?_of_character? (character?_escape c _), ih]
    rfl

/-- A string is read as it was written. -/
theorem string?_string (s : String) (rest : List Char) :
    string? ((string s).toList ++ rest) = some (s, rest) := by
  have htext : (string s).toList ++ rest =
      '"' :: ((s.toList.flatMap fun c ↦ (escape c).toList) ++ '"' :: rest) := by
    rw [toList_string, List.cons_append, List.cons_append, List.append_assoc]
    rfl
  rw [htext, string?, List.head?_cons, if_pos rfl, List.tail_cons, inside?_flatMap_escape,
    Option.map_some, String.ofList_toList]

theorem skip_string (s : String) (rest : List Char) :
    skip ('\n' :: ' ' :: ' ' :: ((string s).toList ++ rest)) = (string s).toList ++ rest := by
  rw [toList_string]
  rfl

theorem items?_of_string? {cs rest : List Char} {s : String}
    (h : string? (skip cs) = some (s, rest)) :
    items? cs =
      if (skip rest).head? = some ',' then
        (items? (skip rest).tail).map fun p ↦ (s :: p.1, p.2)
      else if (skip rest).head? = some ']' then some ([s], (skip rest).tail)
      else none := by
  rw [items?]
  split
  · next hnone =>
    rw [hnone] at h
    cases h
  · next hsome =>
    rw [hsome] at h
    cases h
    rfl

/-- What stands in an array behind one of its strings: the others, each on a line of its own, and
the closing bracket. -/
def behindItem : List String → List Char
  | [] => ['\n', ']']
  | s :: ss => ',' :: '\n' :: ' ' :: ' ' :: ((string s).toList ++ behindItem ss)

theorem toList_stringArray_cons (s : String) (ss : List String) :
    (stringArray (s :: ss)).toList =
      '[' :: '\n' :: ' ' :: ' ' :: ((string s).toList ++ behindItem ss) := by
  have hitems (s : String) (ss : List String) :
      [',', '\n'].intercalate ((s :: ss).map fun s ↦ ' ' :: ' ' :: (string s).toList) ++
        ['\n', ']'] = ' ' :: ' ' :: ((string s).toList ++ behindItem ss) := by
    induction ss generalizing s with
    | nil =>
      rw [List.map_singleton, List.intercalate_singleton]
      rfl
    | cons t ss ih =>
      rw [List.map_cons, List.intercalate_cons_of_ne_nil (by simp), List.append_assoc, ih t]
      simp [behindItem]
  have htext : (stringArray (s :: ss)).toList = '[' :: '\n' :: ([',', '\n'].intercalate
      ((s :: ss).map fun s ↦ ' ' :: ' ' :: (string s).toList) ++ ['\n', ']']) := by
    simp [stringArray, Function.comp_def]
  rw [htext, hitems]

/-- Strings are read as they stand in an array. -/
theorem items?_behindItem (s : String) (ss : List String) :
    items? ('\n' :: ' ' :: ' ' :: ((string s).toList ++ behindItem ss)) = some (s :: ss, []) := by
  induction ss generalizing s with
  | nil =>
    rw [items?_of_string? (by rw [skip_string, string?_string])]
    rfl
  | cons t ss ih =>
    have hskip : skip (behindItem (t :: ss)) = behindItem (t :: ss) := rfl
    rw [items?_of_string? (by rw [skip_string, string?_string]), hskip, behindItem, List.head?_cons,
      if_pos rfl, List.tail_cons, ih]
    rfl

/-- **Arrays of strings are read as they were written.** -/
theorem read?_stringArray (items : List String) : read? (stringArray items) = some items := by
  cases items with
  | nil => rfl
  | cons s ss =>
    have hopen (cs : List Char) : skip ('[' :: cs) = '[' :: cs := rfl
    have hclose (cs : List Char) :
        (skip ('\n' :: ' ' :: ' ' :: ((string s).toList ++ cs))).head? ≠ some ']' := by
      rw [skip_string, toList_string]
      simp
    rw [read?, toList_stringArray_cons, hopen, List.head?_cons, if_pos rfl, List.tail_cons, array?,
      if_neg (hclose _), items?_behindItem]
    rfl

end MiniPascal.Json
