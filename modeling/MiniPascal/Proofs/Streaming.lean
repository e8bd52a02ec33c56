import MiniPascal.Compilation

/-!
# Reading a file as a whole and as a stream

A stream is decoded byte by byte, and what was decoded before a fault is compiled all the same. The
decoder is held to the encoding of characters as bytes: `Completes` says what may follow the bytes
read so far, a byte is taken exactly if it may follow, and so a fault is found exactly in bytes that
do not encode any characters (`Utf8.isValidUTF8_iff`). A file is then compiled with the same result
and the same notices whether it is read as a whole or as a stream.
-/

namespace MiniPascal

namespace Utf8

/-! ## The bytes of a character -/

/-- The ways to write a character in several bytes: how many bytes follow the second one, the least
first byte and the number of first bytes, and the least number that is written in this way. -/
inductive Form : (more lead size least : Nat) → Prop
  | two : Form 0 0xC0 0x20 0x80
  | three : Form 1 0xE0 0x10 0x800
  | four : Form 2 0xF0 0x08 0x10000

/-- A number without its last groups of six bits. -/
def front : Nat → Nat → Nat
  | 0, number => number
  | n + 1, number => front n number / 64

/-- The last bytes of a character, which hold a group of six bits of its number each. -/
def continuation : Nat → Nat → List UInt8
  | 0, _ => []
  | n + 1, number => .ofNat (front n number % 64 + 0x80) :: continuation n number

theorem ofNat_eq_iff {n : Nat} (h : n < 256) {byte : UInt8} :
    UInt8.ofNat n = byte ↔ byte.toNat = n := by
  constructor
  · rintro rfl
    exact UInt8.toNat_ofNat_of_lt h
  · rintro rfl
    exact UInt8.ofNat_toNat

/-- The first of the last bytes holds the next six bits of the number. -/
theorem continuation_succ_iff {n number code : Nat} {byte : UInt8} :
    continuation (n + 1) number = byte :: continuation n number ∧ front (n + 1) number = code ↔
      (0x80 ≤ byte.toNat ∧ byte.toNat < 0xC0) ∧
        front n number = 64 * code + (byte.toNat - 0x80) := by
  have hbyte : front n number % 64 + 0x80 < 256 := by omega
  rw [continuation, List.cons.injEq, ofNat_eq_iff hbyte, front]
  constructor
  · rintro ⟨⟨hbyte, -⟩, hcode⟩
    omega
  · rintro ⟨hbyte, hfront⟩
    exact ⟨⟨by omega, rfl⟩, by omega⟩

theorem toNat_ofNat {n : Nat} (h : n < 0x80) : (Char.ofNat n).toNat = n := by
  have hvalid : n.isValidChar := .inl (by omega)
  rw [Char.ofNat, dif_pos hvalid]
  rfl

theorem utf8EncodeChar_of_lt {c : Char} (h : c.toNat < 0x80) :
    String.utf8EncodeChar c = [.ofNat c.toNat] := by
  rw [String.utf8EncodeChar]
  exact if_pos (Nat.le_of_lt_succ h)

theorem exists_form {c : Char} (h : 0x80 ≤ c.toNat) : ∃ more lead size least,
    Form more lead size least ∧ least ≤ c.toNat ∧ front (more + 1) c.toNat < size := by
  have hvalid : c.toNat.isValidChar := c.valid
  rw [Nat.isValidChar] at hvalid
  by_cases htwo : c.toNat < 0x800
  · exact ⟨_, _, _, _, .two, h, by simp only [front]; omega⟩
  by_cases hthree : c.toNat < 0x10000
  · exact ⟨_, _, _, _, .three, by omega, by simp only [front]; omega⟩
  · exact ⟨_, _, _, _, .four, by omega, by simp only [front]; omega⟩

theorem Form.utf8EncodeChar {more lead size least : Nat} (h : Form more lead size least)
    {c : Char} (hleast : least ≤ c.toNat) (hsize : front (more + 1) c.toNat < size) :
    String.utf8EncodeChar c =
      .ofNat (front (more + 1) c.toNat + lead) :: continuation (more + 1) c.toNat := by
  have hval : c.val.toNat = c.toNat := rfl
  cases h with
  | two =>
    simp only [front] at hsize
    simp only [String.utf8EncodeChar, hval, continuation, front]
    rw [if_neg (by omega), if_pos (by omega), Nat.mod_eq_of_lt hsize]
  | three =>
    simp only [front, Nat.div_div_eq_div_mul] at hsize
    simp only [String.utf8EncodeChar, hval, continuation, front, Nat.div_div_eq_div_mul]
    rw [if_neg (by omega), if_neg (by omega), if_pos (by omega), Nat.mod_eq_of_lt hsize]
  | four =>
    simp only [front, Nat.div_div_eq_div_mul] at hsize
    simp only [String.utf8EncodeChar, hval, continuation, front, Nat.div_div_eq_div_mul]
    rw [if_neg (by omega), if_neg (by omega), if_neg (by omega), Nat.mod_eq_of_lt hsize]

theorem Form.lead_add_lt {more lead size least : Nat} (h : Form more lead size least) {code : Nat}
    (hcode : code < size) : code + lead < 256 := by
  cases h <;> omega

/-! ## The steps of the decoder -/

namespace Decoder

variable {d d' : Decoder}

theorem scalar?_eq_some_iff {least code : Nat} {c : Char} :
    scalar? least code = some c ↔ c.toNat = code ∧ least ≤ code := by
  constructor
  · intro h
    rw [scalar?] at h
    by_cases hvalid : code.isValidChar
    · rw [dif_pos hvalid] at h
      by_cases hleast : least ≤ code
      · rw [if_pos hleast] at h
        cases h
        exact ⟨rfl, hleast⟩
      · rw [if_neg hleast] at h
        cases h
    · rw [dif_neg hvalid] at h
      cases h
  · rintro ⟨rfl, hleast⟩
    have hvalid : c.toNat.isValidChar := c.valid
    rw [scalar?, dif_pos hvalid, if_pos hleast]
    rfl

/-- What the first byte of a character does. -/
theorem first_eq_ok_iff {byte : Nat} : d.first byte = .ok d' ↔
    (byte < 0x80 ∧ d' = { d with chars := .ofNat byte :: d.chars }) ∨
    ∃ more lead size least, Form more lead size least ∧ lead ≤ byte ∧ byte - lead < size ∧
      d' = { d with pending := some ⟨more, byte - lead, least⟩ } := by
  constructor
  · intro h
    rw [first] at h
    split at h
    · next hlt =>
      cases h
      exact .inl ⟨hlt, rfl⟩
    split at h
    · cases h
    split at h
    · cases h
      exact .inr ⟨_, _, _, _, .two, by omega, by omega, rfl⟩
    split at h
    · cases h
      exact .inr ⟨_, _, _, _, .three, by omega, by omega, rfl⟩
    split at h
    · cases h
      exact .inr ⟨_, _, _, _, .four, by omega, by omega, rfl⟩
    · cases h
  · rintro (⟨hlt, rfl⟩ | ⟨more, lead, size, least, hform, hle, hlt, rfl⟩)
    · exact if_pos hlt
    · cases hform with
      | two => rw [first, if_neg (by omega), if_neg (by omega), if_pos (by omega)]
      | three =>
        rw [first, if_neg (by omega), if_neg (by omega), if_neg (by omega), if_pos (by omega)]
      | four =>
        rw [first, if_neg (by omega), if_neg (by omega), if_neg (by omega), if_neg (by omega),
          if_pos (by omega)]

/-- What a further byte of a character does. -/
theorem next_eq_ok_iff {p : Pending} {byte : Nat} : d.next p byte = .ok d' ↔
    (0x80 ≤ byte ∧ byte < 0xC0) ∧
      ((∃ more, p.more = more + 1 ∧
          d' = { d with pending := some ⟨more, 64 * p.code + (byte - 0x80), p.least⟩ }) ∨
        p.more = 0 ∧ ∃ c : Char, c.toNat = 64 * p.code + (byte - 0x80) ∧ p.least ≤ c.toNat ∧
          d' = ⟨c :: d.chars, none⟩) := by
  obtain ⟨more, code, least⟩ := p
  constructor
  · intro h
    rw [next] at h
    split at h
    · next hbyte =>
      cases more with
      | succ more =>
        cases h
        exact ⟨hbyte, .inl ⟨more, rfl, rfl⟩⟩
      | zero =>
        cases hscalar : scalar? least (64 * code + (byte - 0x80)) with
        | none =>
          simp only [hscalar] at h
          cases h
        | some c =>
          simp only [hscalar] at h
          cases h
          obtain ⟨hcode, hleast⟩ := scalar?_eq_some_iff.1 hscalar
          exact ⟨hbyte, .inr ⟨rfl, c, hcode, hcode ▸ hleast, rfl⟩⟩
    · cases h
  · rintro ⟨hbyte, ⟨more, rfl, rfl⟩ | ⟨rfl, c, hcode, hleast, rfl⟩⟩
    · rw [next, if_pos hbyte]
    · have hscalar : scalar? least (64 * code + (byte - 0x80)) = some c :=
        scalar?_eq_some_iff.2 ⟨hcode, hcode ▸ hleast⟩
      rw [next, if_pos hbyte]
      simp only [hscalar]

end Decoder

/-! ## What may follow -/

/-- What may follow the bytes read so far: the rest of the character that is being read, and any
characters. -/
inductive Completes : Option Pending → List UInt8 → List Char → Prop
  | between (chars : List Char) : Completes none (chars.flatMap String.utf8EncodeChar) chars
  | inside {more code least : Nat} {c : Char} (hcode : front (more + 1) c.toNat = code)
      (hleast : least ≤ c.toNat) (chars : List Char) :
      Completes (some ⟨more, code, least⟩)
        (continuation (more + 1) c.toNat ++ chars.flatMap String.utf8EncodeChar) (c :: chars)

theorem completes_none_iff {bytes : List UInt8} {chars : List Char} :
    Completes none bytes chars ↔ bytes = chars.flatMap String.utf8EncodeChar := by
  constructor
  · rintro ⟨⟩
    rfl
  · rintro rfl
    exact .between chars

theorem Completes.pending_eq_none {pending : Option Pending} {chars : List Char}
    (h : Completes pending [] chars) : pending = none ∧ chars = [] := by
  generalize hbytes : ([] : List UInt8) = bytes at h
  cases h with
  | between chars =>
    cases chars with
    | nil => exact ⟨rfl, rfl⟩
    | cons c chars => simp at hbytes
  | inside => cases hbytes

namespace Decoder

variable {d d' : Decoder}

theorem feed_between (before : List Char) (byte : UInt8) :
    feed ⟨before, none⟩ byte = first ⟨before, none⟩ byte.toNat := rfl

theorem feed_inside (before : List Char) (p : Pending) (byte : UInt8) :
    feed ⟨before, some p⟩ byte = next ⟨before, some p⟩ p byte.toNat := rfl

/-- A byte that is taken may follow, together with what may follow it. -/
theorem completes_cons_of_feed {byte : UInt8} {bytes : List UInt8} {chars : List Char}
    (hfeed : d.feed byte = .ok d') (h : Completes d'.pending bytes chars) :
    ∃ chars', Completes d.pending (byte :: bytes) chars' := by
  obtain ⟨before, pending⟩ := d
  cases pending with
  | none =>
    rw [feed_between, first_eq_ok_iff] at hfeed
    obtain ⟨hlt, rfl⟩ | ⟨more, lead, size, least, hform, hle, hlt, rfl⟩ := hfeed
    · refine ⟨.ofNat byte.toNat :: chars, ?_⟩
      rw [completes_none_iff] at h ⊢
      have hnumber := toNat_ofNat hlt
      rw [List.flatMap_cons, utf8EncodeChar_of_lt (by rwa [hnumber]), hnumber, UInt8.ofNat_toNat,
        h]
      rfl
    · refine ⟨chars, ?_⟩
      cases h with
      | @inside _ _ _ c hcode hleast chars =>
        rw [← hcode] at hlt
        rw [completes_none_iff, List.flatMap_cons, hform.utf8EncodeChar hleast hlt, hcode]
        rw [Nat.sub_add_cancel hle, UInt8.ofNat_toNat]
        rfl
  | some p =>
    obtain ⟨more, code, least⟩ := p
    rw [feed_inside, next_eq_ok_iff] at hfeed
    obtain ⟨hbyte, ⟨more, rfl, rfl⟩ | ⟨rfl, c, hcode, hleast, rfl⟩⟩ := hfeed
    · refine ⟨chars, ?_⟩
      -- the byte holds the six bits by which the number that was made has grown
      cases h with
      | @inside _ _ _ c hcode hleast chars =>
        obtain ⟨hcons, hcode⟩ := continuation_succ_iff.2 ⟨hbyte, hcode⟩
        have h : Completes (some ⟨more + 1, code, least⟩) _ _ := .inside hcode hleast chars
        rwa [hcons] at h
    · refine ⟨c :: chars, ?_⟩
      have hfront : front 0 c.toNat = 64 * code + (byte.toNat - 0x80) := hcode
      obtain ⟨hcons, hcode⟩ := continuation_succ_iff.2 ⟨hbyte, hfront⟩
      cases h
      have h : Completes (some ⟨0, code, least⟩) _ _ := .inside hcode hleast chars
      rwa [hcons] at h

/-- A byte that may follow is taken. -/
theorem exists_feed_of_completes {byte : UInt8} {bytes : List UInt8} {chars : List Char}
    (h : Completes d.pending (byte :: bytes) chars) :
    ∃ d' chars', d.feed byte = .ok d' ∧ Completes d'.pending bytes chars' ∧
      d'.chars.reverse ++ chars' = d.chars.reverse ++ chars := by
  obtain ⟨before, pending⟩ := d
  cases pending with
  | none =>
    rw [completes_none_iff] at h
    cases chars with
    | nil => cases h
    | cons c chars =>
      rw [List.flatMap_cons] at h
      -- a character of one byte is done with it, one of several bytes is begun
      by_cases hlt : c.toNat < 0x80
      · rw [utf8EncodeChar_of_lt hlt] at h
        obtain ⟨hbyte, rfl⟩ := List.cons.inj h
        have hnumber := (ofNat_eq_iff (by omega)).1 hbyte.symm
        have hfeed : feed ⟨before, none⟩ byte = .ok ⟨.ofNat byte.toNat :: before, none⟩ := by
          rw [feed_between, first_eq_ok_iff]
          exact .inl ⟨by rwa [hnumber], rfl⟩
        exact ⟨_, chars, hfeed, .between chars, by simp [hnumber]⟩
      · obtain ⟨more, lead, size, least, hform, hleast, hsize⟩ :=
          exists_form (Nat.le_of_not_lt hlt)
        rw [hform.utf8EncodeChar hleast hsize] at h
        obtain ⟨hbyte, rfl⟩ := List.cons.inj h
        have hnumber := (ofNat_eq_iff (hform.lead_add_lt hsize)).1 hbyte.symm
        have hcode : front (more + 1) c.toNat = byte.toNat - lead := by
          rw [hnumber, Nat.add_sub_cancel]
        have hle : lead ≤ byte.toNat := hnumber ▸ Nat.le_add_left ..
        have hfeed : feed ⟨before, none⟩ byte =
            .ok ⟨before, some ⟨more, byte.toNat - lead, least⟩⟩ := by
          rw [feed_between, first_eq_ok_iff]
          exact .inr ⟨more, lead, size, least, hform, hle, hcode ▸ hsize, rfl⟩
        exact ⟨_, c :: chars, hfeed, .inside hcode hleast chars, rfl⟩
  | some p =>
    generalize hbytes : byte :: bytes = all at h
    cases h with
    | @inside more code least c hcode hleast chars =>
      rw [continuation, List.cons_append] at hbytes
      obtain ⟨hhead, rfl⟩ := List.cons.inj hbytes
      have hcons : continuation (more + 1) c.toNat = byte :: continuation more c.toNat := by
        rw [continuation, hhead]
      obtain ⟨hbyte, hfront⟩ := continuation_succ_iff.1 ⟨hcons, hcode⟩
      cases more with
      | succ more =>
        have hfeed : feed ⟨before, some ⟨more + 1, code, least⟩⟩ byte =
            .ok ⟨before, some ⟨more, 64 * code + (byte.toNat - 0x80), least⟩⟩ := by
          rw [feed_inside, next_eq_ok_iff]
          exact ⟨hbyte, .inl ⟨more, rfl, rfl⟩⟩
        exact ⟨_, c :: chars, hfeed, .inside hfront hleast chars, rfl⟩
      | zero =>
        have hfeed : feed ⟨before, some ⟨0, code, least⟩⟩ byte = .ok ⟨c :: before, none⟩ := by
          rw [feed_inside, next_eq_ok_iff]
          exact ⟨hbyte, .inr ⟨rfl, c, hfront, hleast, rfl⟩⟩
        exact ⟨_, chars, hfeed, .between chars, by simp⟩

/-- What may follow is decoded. -/
theorem run_of_completes {bytes : List UInt8} {chars : List Char}
    (h : Completes d.pending bytes chars) : d.run bytes = ⟨d.chars.reverse ++ chars, none⟩ := by
  induction bytes generalizing d chars with
  | nil =>
    obtain ⟨hpending, rfl⟩ := h.pending_eq_none
    rw [run, fault?, hpending, List.append_nil]
  | cons byte bytes ih =>
    obtain ⟨d', chars', hfeed, hrest, hchars⟩ := exists_feed_of_completes h
    rw [run, hfeed, ← hchars]
    exact ih hrest

/-- What is decoded without a fault may follow. -/
theorem completes_of_run {bytes : List UInt8} (h : (d.run bytes).fault = none) :
    ∃ chars, Completes d.pending bytes chars := by
  induction bytes generalizing d with
  | nil =>
    rw [run, fault?] at h
    cases hpending : d.pending with
    | none => exact ⟨[], .between []⟩
    | some p =>
      rw [hpending] at h
      cases h
  | cons byte bytes ih =>
    rw [run] at h
    cases hfeed : d.feed byte with
    | error f =>
      rw [hfeed] at h
      cases h
    | ok d' =>
      rw [hfeed] at h
      obtain ⟨chars, hrest⟩ := ih h
      exact completes_cons_of_feed hfeed hrest

end Decoder

/-- The decoder takes the bytes of some characters to these characters. -/
theorem decode_utf8Encode (chars : List Char) :
    decode chars.utf8Encode.data.toList = ⟨chars, none⟩ := by
  rw [List.utf8Encode, List.data_toByteArray]
  exact Decoder.run_of_completes (.between chars)

/-- The decoder finds a fault exactly in bytes that are not those of some characters. -/
theorem isValidUTF8_iff {bytes : ByteArray} :
    bytes.IsValidUTF8 ↔ (decode bytes.data.toList).fault = none := by
  constructor
  · rintro ⟨chars, rfl⟩
    rw [decode_utf8Encode]
  · intro h
    obtain ⟨chars, hchars⟩ := Decoder.completes_of_run h
    rw [completes_none_iff] at hchars
    refine ⟨chars, ByteArray.ext ?_⟩
    rw [List.utf8Encode, List.data_toByteArray, ← hchars]

end Utf8

/-! ## Notices that are emitted -/

theorem NoticeBoard.foldl_post (board : NoticeBoard) (notices : List Notice) :
    notices.foldl post board = ⟨board.keeps, board.count + notices.length,
      if board.keeps then board.notices ++ notices else board.notices⟩ := by
  induction notices generalizing board with
  | nil => simp
  | cons n notices ih =>
    rw [List.foldl_cons, ih, post]
    cases hkeeps : board.keeps <;> simp <;> omega

/-- Notices that are emitted one after the other are posted in this order. -/
theorem NoticeBoard.run_forM_emit (notices : List Notice) (board : NoticeBoard) :
    (notices.forM emit).run board = ((), notices.foldl post board) := by
  induction notices generalizing board with
  | nil => rfl
  | cons n notices ih => exact ih (board.post n)

/-! ## Compiling what was read -/

section
variable {m : Type → Type} [Monad m] (emit : Notice → m Unit) {fuel : Nat} {path : String}
  {bytes : ByteArray}

theorem compileFile_toUTF8 (source : String) :
    compileFile emit fuel path (.ok source.toUTF8) = compileSource emit fuel path source := by
  have hread : String.fromUTF8? source.toUTF8 = some source := dif_pos source.isValidUTF8
  simp only [compileFile, hread]

theorem compileStream_toUTF8 (source : String) :
    compileStream emit fuel path (.ok source.toUTF8) = compileSource emit fuel path source := by
  have hdecode : Utf8.decode source.toUTF8.data.toList = ⟨source.toList, none⟩ := by
    rw [String.toUTF8, ← String.utf8Encode_toList]
    exact Utf8.decode_utf8Encode source.toList
  simp only [compileStream, hdecode, String.ofList_toList]
  rfl

/-- Nothing is emitted about a file that is no text. -/
theorem compileFile_of_not_isValidUTF8 (h : ¬bytes.IsValidUTF8) :
    compileFile emit fuel path (.ok bytes) = pure (some (.error (.file .invalidData))) := by
  have hread : String.fromUTF8? bytes = none := dif_neg h
  simp only [compileFile, hread]

/-- Nor is it if the file is a stream, even if the program in front of the fault has compiled. -/
theorem compileStream_of_not_isValidUTF8 (fuel : Nat) (path : String)
    (h : ¬bytes.IsValidUTF8) :
    compileStream emit fuel path (.ok bytes) = pure none ∨
      ∃ f, compileStream emit fuel path (.ok bytes) = pure (some (.error (.file f))) := by
  rw [Utf8.isValidUTF8_iff] at h
  obtain ⟨f, hf⟩ := Option.ne_none_iff_exists'.1 h
  simp only [compileStream, hf]
  split
  · exact .inl rfl
  · next hfault _ =>
    cases hfault
    exact .inr ⟨_, rfl⟩
  · next hfault => cases hfault

end

section
variable {σ τ : Type} {emit : Notice → StateM σ Unit} {fuel : Nat} {path source : String} {s t : σ}
  {result : Except Failure Compilation}

/-- What is left of a state once the notices of a result were emitted. -/
def emitted (emit : Notice → StateM σ Unit) (s : σ) : Except Failure Compilation → σ
  | .ok c => ((c.notices.forM emit).run s).2
  | .error _ => s

theorem emitted_of_conclude {r : Except Halt Compiled}
    (h : (conclude emit path source r).run s = (some result, t)) :
    t = emitted emit s result ∧ ∀ (emit' : Notice → StateM τ Unit) (s' : τ),
      (conclude emit' path source r).run s' = (some result, emitted emit' s' result) := by
  cases r with
  | ok compiled =>
    cases h
    exact ⟨rfl, fun _ _ ↦ rfl⟩
  | error halt =>
    cases halt with
    | fault f =>
      cases h
      exact ⟨rfl, fun _ _ ↦ rfl⟩
    | outOfFuel => cases h

/-- **What is emitted does not depend on the emitter**: it is the notices of the result. -/
theorem emitted_of_compileStream {content : Except FileFault ByteArray}
    (h : (compileStream emit fuel path content).run s = (some result, t)) :
    t = emitted emit s result ∧ ∀ (emit' : Notice → StateM τ Unit) (s' : τ),
      (compileStream emit' fuel path content).run s' = (some result, emitted emit' s' result) := by
  cases content with
  | error f =>
    cases h
    exact ⟨rfl, fun _ _ ↦ rfl⟩
  | ok bytes =>
    simp only [compileStream] at h ⊢
    split at h
    · cases h
    · cases h
      exact ⟨rfl, fun _ _ ↦ rfl⟩
    · exact emitted_of_conclude h

end

/-- Compiling a file ends with a result, whatever board its warnings are emitted to. -/
def CompilesTo (fuel : Nat) (path : String) (content : Except FileFault ByteArray)
    (result : Except Failure Compilation) : Prop :=
  ∀ board, ((compileStream NoticeBoard.emit fuel path content).run board).1 = some result

theorem CompilesTo.run {fuel : Nat} {path : String} {content : Except FileFault ByteArray}
    {result : Except Failure Compilation} (h : CompilesTo fuel path content result) {σ : Type}
    (emit : Notice → StateM σ Unit) (s : σ) :
    (compileStream emit fuel path content).run s = (some result, emitted emit s result) :=
  (emitted_of_compileStream (Prod.ext (h { keeps := false }) rfl)).2 emit s

variable {fuel : Nat} {path source : String} {bytes : ByteArray} {board board' : NoticeBoard}
  {result : Except Failure Compilation}

/-- What comes of compiling a text, and what is emitted. -/
theorem compileSource_eq_some
    (h : (compileSource NoticeBoard.emit fuel path source).run board = (some result, board')) :
    (∃ compiled, compileText fuel source = .ok compiled ∧ result = .ok ⟨path, source, compiled⟩ ∧
        board' = (compiled.warnings.map fun w ↦ Notice.mk path source w).foldl .post board) ∨
      ∃ f, compileText fuel source = .error (.fault f) ∧
        result = .error (.program path source f) ∧ board' = board := by
  rw [compileSource] at h
  cases hcompile : compileText fuel source with
  | ok compiled =>
    rw [hcompile] at h
    simp only [conclude, StateT.run_bind, NoticeBoard.run_forM_emit] at h
    cases h
    exact .inl ⟨compiled, rfl, rfl, rfl⟩
  | error halt =>
    rw [hcompile] at h
    cases halt with
    | fault f =>
      cases h
      exact .inr ⟨f, rfl, rfl, rfl⟩
    | outOfFuel => cases h

/-- **A file read as a whole and as a stream.** Suppose that compiling it as a stream ends. If the
file is UTF-8, both ways have the result of compiling its text and emit one notice for each warning,
in their order; indeed they do the same whatever the emitter is. If it is not, both ways fail to
read the file and emit nothing, even though the stream was compiled up to where it is not UTF-8. -/
theorem stream_agrees_with_file
    (h : (compileStream NoticeBoard.emit fuel path (.ok bytes)).run board =
      (some result, board')) :
    (bytes.IsValidUTF8 →
      (∀ (m : Type → Type) [Monad m] (emit : Notice → m Unit),
        compileStream emit fuel path (.ok bytes) = compileFile emit fuel path (.ok bytes)) ∧
      (compileFile NoticeBoard.emit fuel path (.ok bytes)).run board = (some result, board') ∧
      ∃ source : String, source.toUTF8 = bytes ∧
        ((∃ compiled, compileText fuel source = .ok compiled ∧
            result = .ok ⟨path, source, compiled⟩ ∧
            board' = ⟨board.keeps, board.count + compiled.warnings.length,
              if board.keeps then board.notices ++ compiled.warnings.map (⟨path, source, ·⟩)
              else board.notices⟩) ∨
          ∃ f, compileText fuel source = .error (.fault f) ∧
            result = .error (.program path source f) ∧ board' = board)) ∧
    (¬bytes.IsValidUTF8 →
      (compileFile NoticeBoard.emit fuel path (.ok bytes)).run board =
        (some (.error (.file .invalidData)), board) ∧
      (∃ f, result = .error (.file f)) ∧ board' = board) := by
  constructor
  · intro hvalid
    obtain ⟨source, rfl⟩ : ∃ source : String, source.toUTF8 = bytes :=
      ⟨.fromUTF8 bytes hvalid, rfl⟩
    rw [compileStream_toUTF8] at h
    refine ⟨fun m _ emit ↦ (compileStream_toUTF8 emit source).trans
      (compileFile_toUTF8 emit source).symm, by rw [compileFile_toUTF8, h], source, rfl, ?_⟩
    obtain ⟨compiled, hcompile, rfl, rfl⟩ | hfault := compileSource_eq_some h
    · refine .inl ⟨compiled, hcompile, rfl, ?_⟩
      rw [NoticeBoard.foldl_post, List.length_map]
    · exact .inr hfault
  · intro hinvalid
    refine ⟨by rw [compileFile_of_not_isValidUTF8 _ hinvalid]; rfl, ?_⟩
    obtain hnone | ⟨f, hf⟩ := compileStream_of_not_isValidUTF8 NoticeBoard.emit fuel path hinvalid
    · rw [hnone] at h
      cases h
    · rw [hf] at h
      cases h
      exact ⟨⟨f, rfl⟩, rfl⟩

theorem stream_agrees_with_file_at_bad_ending :
    let program := "PROGRAM p;VAR x:REAL;BEGIN END.\x7bé\x7d".toUTF8
    let board : NoticeBoard := ⟨true, 0, []⟩
    (∃ result board', (compileStream NoticeBoard.emit 4 "p.pas" (.ok program)).run board =
        (some result, board') ∧
      (compileFile NoticeBoard.emit 4 "p.pas" (.ok program)).run board = (some result, board') ∧
      board'.notices.map Notice.warning = [.unusedVariable ⟨14, 15⟩ "x"]) ∧
    ∃ result, (compileStream NoticeBoard.emit 4 "p.pas" (.ok (program.push 0xFF))).run board =
        (some result, board) ∧
      (compileFile NoticeBoard.emit 4 "p.pas" (.ok (program.push 0xFF))).run board =
        (some (.error (.file .invalidData)), board) ∧
      ∃ f, result = .error (.file f) := by
  intro program board
  have hvalid : program.IsValidUTF8 := String.isValidUTF8 _
  have hinvalid : ¬(program.push 0xFF).IsValidUTF8 := by
    rw [Utf8.isValidUTF8_iff]
    decide +kernel
  have hends : ((compileStream NoticeBoard.emit 4 "p.pas" (.ok program)).run board).1.isSome ∧
      ((compileStream NoticeBoard.emit 4 "p.pas" (.ok program)).run board).2.notices.map
        Notice.warning = [.unusedVariable ⟨14, 15⟩ "x"] ∧
      ((compileStream NoticeBoard.emit 4 "p.pas" (.ok (program.push 0xFF))).run board).1.isSome :=
    by decide +kernel
  have hpair {x : Option (Except Failure Compilation) × NoticeBoard} (h : x.1.isSome) :
      ∃ result board', x = (some result, board') := by
    obtain ⟨_ | result, board'⟩ := x
    · cases h
    · exact ⟨result, board', rfl⟩
  obtain ⟨hsome, hnotices, hsome'⟩ := hends
  obtain ⟨result, board', hrun⟩ := hpair hsome
  obtain ⟨failure, board'', hrun'⟩ := hpair hsome'
  obtain ⟨-, hfile, -⟩ := (stream_agrees_with_file hrun).1 hvalid
  obtain ⟨hfile', hfault, rfl⟩ := (stream_agrees_with_file hrun').2 hinvalid
  rw [hrun] at hnotices
  exact ⟨⟨result, board', hrun, hfile, hnotices⟩, failure, hrun', hfile', hfault⟩

end MiniPascal
