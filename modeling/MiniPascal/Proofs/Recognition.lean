import MiniPascal.Proofs.Parser

/-!
# What the parser recognizes

For every production of the parser: what it takes makes the tree it returns; where it halts because
of a token, the tokens before that one can be completed to a phrase of the grammar; where the text
has no next token, all the tokens there are can be completed so; and neither outcome depends on
anything beyond the next token.

The four are carried together by `RecognizesAt`, which sequencing keeps (`RecognizesAt.bind`), so
each production needs only the rule of the grammar it stands for. That a halt depends on nothing
beyond its token is what later makes it final: no other continuation of the text helps.
-/

namespace MiniPascal

open Grammar

variable {α β : Type}

/-! ## Positions -/

namespace Position

/-- The tokens `ts` stand between a position and a later one. -/
def Leads (p : Position) (ts : List Lexeme) (q : Position) : Prop :=
  p.lexemes = ts ++ q.lexemes ∧ p.ending = q.ending

/-- A text without lexical fault ends with the token for its end. -/
def Closed (p : Position) : Prop :=
  p.ending = none → ∃ init last, p.lexemes = init ++ [last] ∧ last.token = .endOfInput

theorem Leads.refl (p : Position) : p.Leads [] p := ⟨rfl, rfl⟩

theorem Leads.trans {p q r : Position} {ts us : List Lexeme} (h : p.Leads ts q)
    (h' : q.Leads us r) : p.Leads (ts ++ us) r :=
  ⟨by rw [h.1, h'.1, List.append_assoc], h.2.trans h'.2⟩

theorem leads_nil_iff {p q : Position} : p.Leads [] q ↔ p = q := by
  constructor
  · rintro ⟨h, he⟩
    obtain ⟨c, u, e⟩ := p
    simp only [lexemes, List.nil_append, List.cons.injEq] at h
    obtain ⟨rfl, rfl⟩ := h
    subst he
    rfl
  · rintro rfl
    exact .refl p

theorem Leads.split {p r : Position} {ts us : List Lexeme} (h : p.Leads (ts ++ us) r) :
    ∃ q, p.Leads ts q ∧ q.Leads us r := by
  cases us with
  | nil => exact ⟨r, by rwa [List.append_nil] at h, .refl r⟩
  | cons u us =>
    refine ⟨⟨u, us ++ r.lexemes, r.ending⟩, ⟨?_, h.2⟩, ⟨rfl, rfl⟩⟩
    rw [h.1, List.append_assoc]
    rfl

theorem Leads.head {p q : Position} {l : Lexeme} {ts : List Lexeme} (h : p.Leads (l :: ts) q) :
    p.current = l := by
  have := h.1
  rw [lexemes, List.cons_append, List.cons.injEq] at this
  exact this.1

/-- Where the same tokens lead to the same token, they start at the same token. -/
theorem Leads.current_eq {p q p' q' : Position} {ts : List Lexeme} (h : p.Leads ts q)
    (h' : p'.Leads ts q') (hq : q'.current = q.current) : p'.current = p.current := by
  have hp : p.lexemes.head? = p'.lexemes.head? := by
    rw [h.1, h'.1]
    cases ts with
    | nil => simp [lexemes, hq]
    | cons t ts => rfl
  simpa [lexemes] using hp.symm

theorem Closed.of_leads {p q : Position} {ts : List Lexeme} (hp : p.Closed) (h : p.Leads ts q) :
    q.Closed := by
  intro he
  obtain ⟨init, last, hl, ht⟩ := hp (h.2.trans he)
  rw [h.1, lexemes] at hl
  refine ⟨q.lexemes.dropLast, last, ?_, ht⟩
  have hlast : q.lexemes.getLast? = some last := by
    have := congrArg List.getLast? hl
    simpa [lexemes] using this
  rw [List.getLast?_eq_some_iff] at hlast
  obtain ⟨ys, hys⟩ := hlast
  rw [hys, List.dropLast_concat]

/-- After a token other than the end of the text there is a token or a lexical fault. -/
theorem Closed.ending_of_upcoming_nil {p : Position} (hp : p.Closed)
    (hc : p.current.token ≠ .endOfInput) (hu : p.upcoming = []) : ∃ f, p.ending = some f := by
  cases he : p.ending with
  | some f => exact ⟨f, rfl⟩
  | none =>
    obtain ⟨init, last, hl, ht⟩ := hp he
    rw [lexemes, hu] at hl
    have : last = p.current := by
      have := congrArg List.getLast? hl
      simpa using this.symm
    exact absurd (this ▸ ht) hc

end Position

open Position

/-! ## Recognition at a position -/

/-- The parser takes tokens that make its result, and would do so before any tokens that start with
the same next one. -/
def Accepts (x : Parser α) (G : List Lexeme → α → Prop) (p : Position) (a : α) (q : Position) :
    Prop :=
  ∃ ts, p.Leads ts q ∧ G ts a ∧
    ∀ p' q', p'.Leads ts q' → q'.current = q.current → x.run p' = .ok a q'

/-- The parser halts after tokens that can be completed: because of the next token, whatever comes
after it, or because there is none. -/
def Refuses (x : Parser α) (G : List Lexeme → α → Prop) (p : Position) (f : Fault)
    (q : Position) : Prop :=
  (∃ ts expected, f = ⟨.unexpected q.current.token expected, q.current.span⟩ ∧ p.Leads ts q ∧
    (∃ us a, G (ts ++ us) a) ∧
    ∀ p' q', p'.Leads ts q' → q'.current = q.current → x.run p' = .error (.fault f) q') ∨
  ∃ g, f = .ofLexical g ∧ p.ending = some g ∧ ∃ us a, G (p.lexemes ++ us) a

/-- At a position, the parser takes or refuses tokens as the phrases in `G` demand. -/
def RecognizesAt (x : Parser α) (G : List Lexeme → α → Prop) (p : Position) : Prop :=
  match x.run p with
  | .ok a q => Accepts x G p a q
  | .error (.fault f) q => Refuses x G p f q
  | .error .outOfFuel _ => True

namespace RecognizesAt

variable {p : Position}

theorem of_ok {x : Parser α} {G : List Lexeme → α → Prop} {a : α} {q : Position}
    (h : x.run p = .ok a q) (hx : Accepts x G p a q) : RecognizesAt x G p := by
  rw [RecognizesAt, h]
  exact hx

theorem of_fault {x : Parser α} {G : List Lexeme → α → Prop} {f : Fault} {q : Position}
    (h : x.run p = .error (.fault f) q) (hx : Refuses x G p f q) : RecognizesAt x G p := by
  rw [RecognizesAt, h]
  exact hx

theorem accepts {x : Parser α} {G : List Lexeme → α → Prop} (hx : RecognizesAt x G p) {a : α}
    {q : Position} (h : x.run p = .ok a q) : Accepts x G p a q := by
  rw [RecognizesAt, h] at hx
  exact hx

theorem refuses {x : Parser α} {G : List Lexeme → α → Prop} (hx : RecognizesAt x G p) {f : Fault}
    {q : Position} (h : x.run p = .error (.fault f) q) : Refuses x G p f q := by
  rw [RecognizesAt, h] at hx
  exact hx

theorem outOfFuel {G : List Lexeme → α → Prop} : RecognizesAt Parser.outOfFuel G p := trivial

theorem pure {a : α} {G : List Lexeme → α → Prop} (h : G [] a) :
    RecognizesAt (Pure.pure a) G p :=
  of_ok rfl ⟨[], .refl p, h, fun p' q' hp _ ↦ by rw [leads_nil_iff.1 hp]; rfl⟩

/-- A token is refused where the phrases start with another one. -/
theorem unexpected {G : List Lexeme → α → Prop} (expected : List String) (h : ∃ us a, G us a) :
    RecognizesAt (Parser.unexpected expected) G p := by
  refine of_fault rfl (.inl ⟨[], expected, rfl, .refl p, h, fun p' q' hp hq ↦ ?_⟩)
  rw [leads_nil_iff.1 hp, ← hq]
  rfl

/-- A run before one next token goes on in a run before another. -/
theorem run_bind_of_leads {x : Parser α} {f : α → Parser β} {ts us : List Lexeme} {a : α}
    {q r : Position} {outcome : Position → EStateM.Result Halt Position β} (hus : q.Leads us r)
    (hx : ∀ p' q', p'.Leads ts q' → q'.current = q.current → x.run p' = .ok a q')
    (hf : ∀ q' r', q'.Leads us r' → r'.current = r.current → (f a).run q' = outcome r')
    (p' r' : Position) (hp' : p'.Leads (ts ++ us) r') (hr' : r'.current = r.current) :
    (x >>= f).run p' = outcome r' := by
  obtain ⟨q', hq', hr''⟩ := hp'.split
  rw [run_bind_of_ok (hx p' q' hq' (hus.current_eq hr'' hr'))]
  exact hf q' r' hr'' hr'

/-- One phrase after another. The completion of the first needs one of the second. -/
theorem bind {x : Parser α} {f : α → Parser β} {G : List Lexeme → α → Prop}
    {H : α → List Lexeme → β → Prop} {K : List Lexeme → β → Prop} (hp : p.Closed)
    (hx : RecognizesAt x G p) (hf : ∀ a q, q.Closed → RecognizesAt (f a) (H a) q)
    (hH : ∀ a, ∃ us b, H a us b) (hK : ∀ {ts us a b}, G ts a → H a us b → K (ts ++ us) b) :
    RecognizesAt (x >>= f) K p := by
  cases hxp : x.run p with
  | ok a q =>
    obtain ⟨ts, hts, hG, hlocal⟩ := hx.accepts hxp
    have hfa := hf a q (hp.of_leads hts)
    cases hfq : (f a).run q with
    | ok b r =>
      obtain ⟨us, hus, hHb, hlocal'⟩ := hfa.accepts hfq
      exact of_ok ((run_bind_of_ok hxp).trans hfq)
        ⟨ts ++ us, hts.trans hus, hK hG hHb, run_bind_of_leads hus hlocal hlocal'⟩
    | error e r =>
      cases e with
      | outOfFuel => rw [RecognizesAt, run_bind_of_ok hxp, hfq]; trivial
      | fault e =>
        refine of_fault ((run_bind_of_ok hxp).trans hfq) ?_
        rcases hfa.refuses hfq with ⟨us, expected, he, hus, ⟨vs, b, hHb⟩, hlocal'⟩ | h
        · refine .inl ⟨ts ++ us, expected, he, hts.trans hus, ⟨vs, b, ?_⟩,
            run_bind_of_leads hus hlocal hlocal'⟩
          rw [List.append_assoc]
          exact hK hG hHb
        · obtain ⟨g, he, hg, vs, b, hHb⟩ := h
          refine .inr ⟨g, he, hts.2.trans hg, vs, b, ?_⟩
          rw [hts.1, List.append_assoc]
          exact hK hG hHb
  | error e q =>
    cases e with
    | outOfFuel => rw [RecognizesAt, run_bind_of_error hxp]; trivial
    | fault e =>
      refine of_fault (run_bind_of_error hxp) ?_
      -- the first phrase is not complete, so any second one completes the whole
      rcases hx.refuses hxp with ⟨ts, expected, he, hts, ⟨us, a, hG⟩, hlocal⟩ | h
      · obtain ⟨vs, b, hHb⟩ := hH a
        refine .inl ⟨ts, expected, he, hts, ⟨us ++ vs, b, ?_⟩, ?_⟩
        · rw [← List.append_assoc]
          exact hK hG hHb
        · intro p' q' hp' hq'
          exact run_bind_of_error (hlocal p' q' hp' hq')
      · obtain ⟨g, he, hg, us, a, hG⟩ := h
        obtain ⟨vs, b, hHb⟩ := hH a
        refine .inr ⟨g, he, hg, us ++ vs, b, ?_⟩
        rw [← List.append_assoc]
        exact hK hG hHb

/-- A result changes with the meaning of its phrase. -/
theorem map {x : Parser α} {g : α → β} {G : List Lexeme → α → Prop} {K : List Lexeme → β → Prop}
    (hp : p.Closed) (hx : RecognizesAt x G p) (hK : ∀ {ts a}, G ts a → K ts (g a)) :
    RecognizesAt (x >>= fun a ↦ Pure.pure (g a)) K p := by
  refine hx.bind hp (H := fun a us b ↦ us = [] ∧ b = g a) (fun a q _ ↦ pure ⟨rfl, rfl⟩)
    (fun a ↦ ⟨[], g a, rfl, rfl⟩) ?_
  rintro ts us a b hG ⟨rfl, rfl⟩
  rw [List.append_nil]
  exact hK hG

/-- A choice by the next token is made there. -/
theorem current {f : Lexeme → Parser α} {G : List Lexeme → α → Prop}
    (h : RecognizesAt (f p.current) G p) : RecognizesAt (Parser.current >>= f) G p := by
  have hrun : ∀ p' : Position, p'.current = p.current →
      (Parser.current >>= f).run p' = (f p.current).run p' := fun p' hp ↦ by rw [← hp]; rfl
  cases hf : (f p.current).run p with
  | ok a q =>
    obtain ⟨ts, hts, hG, hlocal⟩ := h.accepts hf
    refine of_ok ((hrun p rfl).trans hf) ⟨ts, hts, hG, fun p' q' hp' hq' ↦ ?_⟩
    rw [hrun p' (hts.current_eq hp' hq'), hlocal p' q' hp' hq']
  | error e q =>
    cases e with
    | outOfFuel => rw [RecognizesAt, hrun p rfl, hf]; trivial
    | fault e =>
      refine of_fault ((hrun p rfl).trans hf) ?_
      rcases h.refuses hf with ⟨ts, expected, he, hts, hG, hlocal⟩ | h
      · refine .inl ⟨ts, expected, he, hts, hG, fun p' q' hp' hq' ↦ ?_⟩
        rw [hrun p' (hts.current_eq hp' hq'), hlocal p' q' hp' hq']
      · exact .inr h

/-- Moving on takes the next token, unless the text is at its end. -/
theorem step (hp : p.Closed) (hc : p.current.token ≠ .endOfInput) :
    RecognizesAt Parser.step (fun ts _ ↦ ts = [p.current]) p := by
  cases hu : p.upcoming with
  | nil =>
    obtain ⟨f, hf⟩ := hp.ending_of_upcoming_nil hc hu
    refine of_fault (f := .ofLexical f) (q := p) ?_ (.inr ⟨f, rfl, hf, [], (), ?_⟩)
    · simp only [Parser.step, EStateM.run, hu, hf]
    · rw [lexemes, hu]
      rfl
  | cons l ls =>
    refine of_ok (a := ()) (q := ⟨l, ls, p.ending⟩) ?_ ⟨[p.current], ⟨?_, rfl⟩, rfl, ?_⟩
    · simp only [Parser.step, EStateM.run, hu]
    · rw [lexemes, hu]
      rfl
    · rintro ⟨c, u, e⟩ q' ⟨h, he⟩ -
      simp only [lexemes, List.cons_append, List.nil_append, List.cons.injEq] at h
      obtain ⟨rfl, rfl⟩ := h
      subst he
      rfl

/-- The next token is taken, and then a phrase. -/
theorem step_bind {f : Unit → Parser α} {H : List Lexeme → α → Prop} {K : List Lexeme → α → Prop}
    (hp : p.Closed) (hc : p.current.token ≠ .endOfInput)
    (hf : ∀ q : Position, q.Closed → RecognizesAt (f ()) H q) (hH : ∃ us a, H us a)
    (hK : ∀ {us a}, H us a → K (p.current :: us) a) :
    RecognizesAt (Parser.step >>= f) K p := by
  refine (step hp hc).bind hp (fun _ ↦ hf) (fun _ ↦ hH) ?_
  rintro ts us - a rfl hHa
  exact hK hHa

/-- The next token is taken for a result. -/
theorem step_pure {a : α} {K : List Lexeme → α → Prop} (hp : p.Closed)
    (hc : p.current.token ≠ .endOfInput) (hK : K [p.current] a) :
    RecognizesAt (Parser.step >>= fun _ ↦ Pure.pure a) K p := by
  refine (step hp hc).map hp ?_
  rintro ts - rfl
  exact hK

/-- A given token, which is told from all others by `same`. -/
theorem expect {t : Token} (hp : p.Closed) (ht : ∀ {u : Token}, u.same t = true ↔ u = t)
    (hend : t ≠ .endOfInput) :
    RecognizesAt (Parser.expect t) (fun ts place ↦ ∃ l, ts = [l] ∧ l.token = t ∧ place = l.span)
      p := by
  refine .current ?_
  split
  · next h =>
    have hc := ht.1 h
    exact step_pure hp (hc ▸ hend) ⟨_, rfl, hc, rfl⟩
  · exact unexpected _ ⟨[⟨t, p.current.span⟩], _, _, rfl, rfl, rfl⟩

theorem keyword (k : Keyword) (hp : p.Closed) :
    RecognizesAt (Parser.expect (.keyword k))
      (fun ts place ↦ ∃ l, ts = [l] ∧ l.token = .keyword k ∧ place = l.span) p :=
  expect hp Token.same_keyword_iff nofun

theorem symbol (s : Symbol) (hp : p.Closed) :
    RecognizesAt (Parser.expect (.symbol s))
      (fun ts place ↦ ∃ l, ts = [l] ∧ l.token = .symbol s ∧ place = l.span) p :=
  expect hp Token.same_symbol_iff nofun

theorem identifier (hp : p.Closed) :
    RecognizesAt Parser.identifier
      (fun ts a ↦ ∃ l, ts = [l] ∧ l.token = .identifier a.1 ∧ a.2 = l.span) p := by
  refine .current ?_
  split
  · next name h => exact step_pure hp (by simp [h]) ⟨_, rfl, h, rfl⟩
  · exact unexpected _ ⟨[⟨.identifier "", p.current.span⟩], ("", p.current.span), _, rfl, rfl, rfl⟩

/-- A phrase with a token that closes it. -/
theorem closing {x : Parser α} {t : Token} {g : α → Span → β} {G : List Lexeme → α → Prop}
    {K : List Lexeme → β → Prop} (hp : p.Closed) (hx : RecognizesAt x G p)
    (ht : ∀ q : Position, q.Closed → RecognizesAt (Parser.expect t)
      (fun ts place ↦ ∃ l, ts = [l] ∧ l.token = t ∧ place = l.span) q)
    (hK : ∀ {ts a l}, G ts a → l.token = t → K (ts ++ [l]) (g a l.span)) :
    RecognizesAt (x >>= fun a ↦ Parser.expect t >>= fun place ↦ Pure.pure (g a place)) K p := by
  refine hx.bind hp (H := fun a us b ↦ ∃ l : Lexeme, us = [l] ∧ l.token = t ∧ b = g a l.span)
    (fun a q hq ↦ (ht q hq).map hq ?_) (fun a ↦ ⟨_, _, ⟨t, ⟨0, 0⟩⟩, rfl, rfl, rfl⟩) ?_
  · rintro ts place ⟨l, rfl, hl, rfl⟩
    exact ⟨l, rfl, hl, rfl⟩
  · rintro ts us a b hG ⟨l, rfl, hl, rfl⟩
    exact hK hG hl

end RecognizesAt

/-! ## Expressions -/

/-- There is a phrase of every rank. -/
theorem Grammar.Expression.exists_derives (r : Rank) : ∃ ts, ∃ e : Expression, e.Derives r ts := by
  have h : Derives .factor [⟨.integer 0, ⟨0, 0⟩⟩] (.literal (.integer 0) ⟨0, 0⟩) := .integer rfl
  cases r with
  | factor => exact ⟨_, _, h⟩
  | term => exact ⟨_, _, h.factor⟩
  | expression => exact ⟨_, _, h.factor.term⟩

namespace Parser

variable {p : Position}

/-- What an operator and its operand add to the phrases before them. -/
theorem recognizesAt_binary {op : Operator} {left : Expression} {x : Parser Expression}
    {G : List Lexeme → Expression → Prop} (hp : p.Closed) (hc : p.current.token ≠ .endOfInput)
    (hx : ∀ q : Position, q.Closed → RecognizesAt x G q) (hG : ∃ us e, G us e) :
    RecognizesAt (binary op left x)
      (fun ts e ↦ ∃ us f, ts = p.current :: us ∧ G us f ∧ e = .binary op p.current.span left f)
      p := by
  refine .current (.step_bind hp hc (H := fun us e ↦ ∃ f, G us f ∧
    e = .binary op p.current.span left f) (fun q hq ↦ ?_) ?_ ?_)
  · exact (hx q hq).map hq fun h ↦ ⟨_, h, rfl⟩
  · obtain ⟨us, f, h⟩ := hG
    exact ⟨us, _, f, h, rfl⟩
  · rintro us e ⟨f, h, rfl⟩
    exact ⟨us, f, rfl, h, rfl⟩

/-- A sign takes an expression, whose tree it is put in front of. -/
theorem recognizesAt_signed {n : Nat} {sign : Expression → Expression} (hp : p.Closed)
    (hc : p.current.token ≠ .endOfInput)
    (hx : ∀ q : Position, q.Closed →
      RecognizesAt (expression n) (fun ts e ↦ e.Derives .expression ts) q)
    (hsign : ∀ {us} {e : Expression}, e.Derives .expression us →
      (sign e).Derives .factor (p.current :: us)) :
    RecognizesAt (step >>= fun _ ↦ expression n >>= fun e ↦ pure (sign e))
      (fun ts e ↦ e.Derives .factor ts) p := by
  refine .step_bind hp hc (H := fun us e ↦ ∃ f : Expression, f.Derives .expression us ∧ e = sign f)
    (fun q hq ↦ (hx q hq).map hq fun h ↦ ⟨_, h, rfl⟩) ?_ ?_
  · obtain ⟨us, f, hf⟩ := Expression.exists_derives .expression
    exact ⟨us, _, f, hf, rfl⟩
  · rintro us e ⟨f, hf, rfl⟩
    exact hsign hf

/-- Parentheses take an expression between them. -/
theorem recognizesAt_parens {n : Nat} (hp : p.Closed) (hc : p.current.token = .symbol .openParen)
    (hx : ∀ q : Position, q.Closed →
      RecognizesAt (expression n) (fun ts e ↦ e.Derives .expression ts) q) :
    RecognizesAt (do
        step
        let e ← expression n
        let close ← expect (.symbol .closeParen)
        return .parens ⟨p.current.span.start, close.stop⟩ e)
      (fun ts e ↦ Expression.Derives .factor ts e) p := by
  refine .step_bind hp (by simp [hc]) (H := fun us e ↦ Expression.Derives .factor
    (p.current :: us) e) (fun q hq ↦ ?_) ?_ id
  · exact (hx q hq).closing hq (fun q hq ↦ .symbol .closeParen hq) fun hf hr ↦ .parens hc hf hr
  · obtain ⟨us, f, hf⟩ := Expression.exists_derives .expression
    exact ⟨_, _, hf.parens hc (r := ⟨.symbol .closeParen, ⟨0, 0⟩⟩) rfl⟩

/-- The phrases of all productions of expressions. What follows an expression turns any phrase of it
into one of the result. -/
theorem recognizesAt_expression (n : Nat) :
    (∀ p : Position, p.Closed →
        RecognizesAt (expression n) (fun ts e ↦ e.Derives .expression ts) p) ∧
      (∀ (left : Expression) (p : Position), p.Closed →
        RecognizesAt (sums n left) (fun us e ↦
          ∀ {ts}, left.Derives .expression ts → e.Derives .expression (ts ++ us)) p) ∧
      (∀ p : Position, p.Closed → RecognizesAt (term n) (fun ts e ↦ e.Derives .term ts) p) ∧
      (∀ (left : Expression) (p : Position), p.Closed →
        RecognizesAt (products n left) (fun us e ↦
          ∀ {ts}, left.Derives .term ts → e.Derives .term (ts ++ us)) p) ∧
      ∀ p : Position, p.Closed → RecognizesAt (factor n) (fun ts e ↦ e.Derives .factor ts) p := by
  induction n with
  | zero => exact ⟨fun _ _ ↦ .outOfFuel, fun _ _ _ ↦ .outOfFuel, fun _ _ ↦ .outOfFuel,
      fun _ _ _ ↦ .outOfFuel, fun _ _ ↦ .outOfFuel⟩
  | succ n ih =>
    obtain ⟨hexpression, hsums, hterm, hproducts, hfactor⟩ := ih
    refine ⟨fun p hp ↦ ?_, fun left p hp ↦ ?_, fun p hp ↦ ?_, fun left p hp ↦ ?_, fun p hp ↦ ?_⟩
    · exact (hterm p hp).bind hp hsums
        (fun e ↦ ⟨[], e, fun h ↦ by rwa [List.append_nil]⟩) fun h hs ↦ hs h.term
    -- after an operator, the expression so far becomes the left operand of the next one
    · rw [sums]
      refine .current ?_
      split
      · next op hop =>
        have hc : p.current.token ≠ .endOfInput := fun h ↦ by rw [h] at hop; cases hop
        refine (recognizesAt_binary hp hc hterm (Expression.exists_derives .term)).bind hp hsums
          (fun e ↦ ⟨[], e, fun h ↦ by rwa [List.append_nil]⟩) ?_
        rintro - vs - e ⟨us, f, rfl, hf, rfl⟩ hs ts hts
        have := hs (hts.sum hop hf)
        rwa [List.append_assoc] at this
      · exact .pure fun h ↦ by rwa [List.append_nil]
    · exact (hfactor p hp).bind hp hproducts
        (fun e ↦ ⟨[], e, fun h ↦ by rwa [List.append_nil]⟩) fun h hs ↦ hs h.factor
    · rw [products]
      refine .current ?_
      split
      · next op hop =>
        have hc : p.current.token ≠ .endOfInput := fun h ↦ by rw [h] at hop; cases hop
        refine (recognizesAt_binary hp hc hfactor (Expression.exists_derives .factor)).bind hp
          hproducts (fun e ↦ ⟨[], e, fun h ↦ by rwa [List.append_nil]⟩) ?_
        rintro - vs - e ⟨us, f, rfl, hf, rfl⟩ hs ts hts
        have := hs (hts.product hop hf)
        rwa [List.append_assoc] at this
      · exact .pure fun h ↦ by rwa [List.append_nil]
    · rw [factor]
      refine .current ?_
      split
      · next h => exact recognizesAt_signed hp (by simp [h]) hexpression (.plus h)
      · next h => exact recognizesAt_signed hp (by simp [h]) hexpression (.minus h)
      · next h => exact .step_pure hp (by simp [h]) (.integer h)
      · next h => exact .step_pure hp (by simp [h]) (.real h)
      · next h => exact recognizesAt_parens hp h hexpression
      · next h => exact .step_pure hp (by simp [h]) (.named h)
      · exact .unexpected _ (Expression.exists_derives .factor)

theorem recognizesAt_condition (n : Nat) (hp : p.Closed) :
    RecognizesAt (comparison n) (fun ts c ↦ c.Derives ts) p := by
  have hrest (e : Expression) : ∃ us, ∃ c : Condition, ∀ {ts}, e.Derives .expression ts →
      c.Derives (ts ++ us) := by
    obtain ⟨us, f, hf⟩ := Expression.exists_derives .expression
    exact ⟨⟨.symbol .equal, ⟨0, 0⟩⟩ :: us, _, fun he ↦ .mk he rfl hf⟩
  refine ((recognizesAt_expression n).1 p hp).bind hp (H := fun e us c ↦
    ∀ {ts}, e.Derives .expression ts → c.Derives (ts ++ us)) (fun e q hq ↦ .current ?_) hrest
    fun he h ↦ h he
  split
  · next c hc =>
    refine .step_bind hq (fun h ↦ by rw [h] at hc; cases hc) (H := fun us d ↦ ∃ f : Expression,
      f.Derives .expression us ∧ d = ⟨c, e, f⟩) (fun q hq ↦ ?_) ?_ ?_
    · exact ((recognizesAt_expression n).1 q hq).map hq fun hf ↦ ⟨_, hf, rfl⟩
    · obtain ⟨us, f, hf⟩ := Expression.exists_derives .expression
      exact ⟨us, _, f, hf, rfl⟩
    · rintro us - ⟨f, hf, rfl⟩ ts he
      exact .mk he hc hf
  · exact .unexpected _ (hrest e)

/-! ## Statements -/

theorem recognizesAt_assignment (n : Nat) (hp : p.Closed) :
    RecognizesAt (assignment n) (fun ts s ↦ s.Derives .statement ts) p := by
  refine (RecognizesAt.identifier hp).bind hp (H := fun a us s ↦ ∀ {l : Lexeme},
    l.token = .identifier a.1 → a.2 = l.span → s.Derives .statement (l :: us))
    (fun a q hq ↦ ?_) ?_ ?_
  · refine (RecognizesAt.symbol .assign hq).bind hq (H := fun _ us s ↦ ∃ e : Expression,
      e.Derives .expression us ∧ s = .assign a.1 a.2 e) (fun _ q hq ↦ ?_) (fun _ ↦ ?_) ?_
    · exact ((recognizesAt_expression n).1 q hq).map hq fun he ↦ ⟨_, he, rfl⟩
    · obtain ⟨us, e, he⟩ := Expression.exists_derives .expression
      exact ⟨us, _, e, he, rfl⟩
    · rintro - us - s ⟨c, rfl, hc, -⟩ ⟨e, he, rfl⟩ l hl hplace
      rw [hplace]
      exact .assign hl hc he
  · intro a
    obtain ⟨us, e, he⟩ := Expression.exists_derives .expression
    refine ⟨⟨.symbol .assign, ⟨0, 0⟩⟩ :: us, .assign a.1 a.2 e, fun {l} hl hplace ↦ ?_⟩
    rw [hplace]
    exact .assign hl rfl he
  · rintro - us a s ⟨l, rfl, hl, hplace⟩ h
    exact h hl hplace

/-- There is a phrase of every kind. -/
theorem exists_derives_statement (k : Phrase) : ∃ ts, ∃ s : Statement, s.Derives k ts := by
  cases k with
  | statement => exact ⟨_, _, .nothing⟩
  | statements => exact ⟨_, _, .single .nothing⟩
  | compound =>
    exact ⟨_, _, .block (l := ⟨.keyword .blockBegin, ⟨0, 0⟩⟩) (r := ⟨.keyword .blockEnd, ⟨0, 0⟩⟩)
      rfl (.single .nothing) rfl⟩

theorem exists_derives_condition : ∃ ts, ∃ c : Condition, c.Derives ts := by
  obtain ⟨us, e, he⟩ := Expression.exists_derives .expression
  exact ⟨_, _, .mk he (l := ⟨.symbol .equal, ⟨0, 0⟩⟩) rfl he⟩

/-- A loop from its `REPEAT` on, with statements that are recognized. -/
theorem recognizesAt_loop {n : Nat} {x : Parser Statement} (hp : p.Closed)
    (hx : ∀ q : Position, q.Closed → RecognizesAt x (fun ts s ↦ s.Derives .statements ts) q) :
    RecognizesAt (do
        let place ← expect (.keyword .loopRepeat)
        let body ← x
        let _ ← expect (.keyword .loopUntil)
        let condition ← comparison n
        return .loop place.start body condition)
      (fun ts s ↦ Statement.Derives .statement ts s) p := by
  refine (RecognizesAt.keyword .loopRepeat hp).bind hp (H := fun place us t ↦ ∃ ts u vs s c,
    us = ts ++ u :: vs ∧ Statement.Derives .statements ts s ∧ u.token = .keyword .loopUntil ∧
      Condition.Derives vs c ∧ t = .loop place.start s c) (fun place q hq ↦ ?_) (fun place ↦ ?_) ?_
  · refine (hx q hq).bind hq (H := fun s us t ↦ ∃ u vs c, us = u :: vs ∧
      u.token = .keyword .loopUntil ∧ Condition.Derives vs c ∧ t = .loop place.start s c)
      (fun s q hq ↦ ?_) (fun s ↦ ?_) ?_
    · refine (RecognizesAt.keyword .loopUntil hq).bind hq (H := fun _ us t ↦ ∃ c,
        Condition.Derives us c ∧ t = .loop place.start s c) (fun _ q hq ↦ ?_) (fun _ ↦ ?_) ?_
      · exact (recognizesAt_condition n hq).map hq fun hc ↦ ⟨_, hc, rfl⟩
      · obtain ⟨us, c, hc⟩ := exists_derives_condition
        exact ⟨us, _, c, hc, rfl⟩
      · rintro - us - t ⟨u, rfl, hu, -⟩ ⟨c, hc, rfl⟩
        exact ⟨u, us, c, rfl, hu, hc, rfl⟩
    · obtain ⟨us, c, hc⟩ := exists_derives_condition
      exact ⟨_, _, ⟨.keyword .loopUntil, ⟨0, 0⟩⟩, us, c, rfl, rfl, hc, rfl⟩
    · rintro ts - s - hs ⟨u, vs, c, rfl, hu, hc, rfl⟩
      exact ⟨ts, u, vs, s, c, rfl, hs, hu, hc, rfl⟩
  · obtain ⟨us, c, hc⟩ := exists_derives_condition
    exact ⟨_, _, [], ⟨.keyword .loopUntil, ⟨0, 0⟩⟩, us, .nothing, c, rfl, .single .nothing, rfl, hc,
      rfl⟩
  · rintro - - place - ⟨l, rfl, hl, rfl⟩ ⟨ts, u, vs, s, c, rfl, hs, hu, hc, rfl⟩
    exact .loop hl hs hu hc

/-- The phrases of all productions of statements. -/
theorem recognizesAt_statement (n : Nat) :
    (∀ p : Position, p.Closed →
        RecognizesAt (statement n) (fun ts s ↦ s.Derives .statement ts) p) ∧
      (∀ p : Position, p.Closed →
        RecognizesAt (compound n) (fun ts s ↦ s.Derives .compound ts) p) ∧
      (∀ p : Position, p.Closed →
        RecognizesAt (statements n) (fun ts s ↦ s.Derives .statements ts) p) ∧
      (∀ (first : Statement) (p : Position), p.Closed →
        RecognizesAt (moreStatements n first) (fun us s ↦
          ∀ {ts}, first.Derives .statement ts → s.Derives .statements (ts ++ us)) p) ∧
      ∀ p : Position, p.Closed → RecognizesAt (loop n) (fun ts s ↦ s.Derives .statement ts) p := by
  induction n with
  | zero => exact ⟨fun _ _ ↦ .outOfFuel, fun _ _ ↦ .outOfFuel, fun _ _ ↦ .outOfFuel,
      fun _ _ _ ↦ .outOfFuel, fun _ _ ↦ .outOfFuel⟩
  | succ n ih =>
    obtain ⟨hstatement, hcompound, hstatements, hmore, hloop⟩ := ih
    refine ⟨fun p hp ↦ ?_, fun p hp ↦ ?_, fun p hp ↦ ?_, fun first p hp ↦ ?_, fun p hp ↦ ?_⟩
    · rw [statement]
      refine .current ?_
      split
      · exact (hcompound p hp).map hp .compound
      · exact recognizesAt_assignment n hp
      · exact hloop p hp
      · exact .pure .nothing
    · refine (RecognizesAt.keyword .blockBegin hp).bind hp (H := fun _ us s ↦ ∀ {l : Lexeme},
        l.token = .keyword .blockBegin → s.Derives .compound (l :: us)) (fun _ q hq ↦ ?_) ?_ ?_
      · exact (hstatements q hq).closing hq (fun q hq ↦ .keyword .blockEnd hq)
          fun hs hr _ hl ↦ .block hl hs hr
      · exact fun _ ↦ ⟨_, _, fun hl ↦ .block hl (.single .nothing)
          (r := ⟨.keyword .blockEnd, ⟨0, 0⟩⟩) rfl⟩
      · rintro - us - s ⟨l, rfl, hl, -⟩ h
        exact h hl
    · exact (hstatement p hp).bind hp hmore
        (fun s ↦ ⟨[], s, fun h ↦ by rw [List.append_nil]; exact .single h⟩) fun h hs ↦ hs h
    · rw [moreStatements]
      refine .current ?_
      split
      · next h =>
        refine .step_bind hp (by simp [h]) (H := fun us s ↦ ∃ t : Statement,
          t.Derives .statements us ∧ s = .sequence first t) (fun q hq ↦ ?_) ?_ ?_
        · refine (hstatement q hq).bind hq (H := fun second us s ↦ ∃ t : Statement,
            (∀ {ts}, second.Derives .statement ts → t.Derives .statements (ts ++ us)) ∧
              s = .sequence first t) (fun second q hq ↦ ?_) (fun second ↦ ?_) ?_
          · exact (hmore second q hq).map hq fun ht ↦ ⟨_, ht, rfl⟩
          · exact ⟨[], _, second, fun h ↦ by rw [List.append_nil]; exact .single h, rfl⟩
          · rintro ts us second - hs ⟨t, ht, rfl⟩
            exact ⟨t, ht hs, rfl⟩
        · exact ⟨[], _, .nothing, .single .nothing, rfl⟩
        · rintro us - ⟨t, ht, rfl⟩ ts hfirst
          exact .sequence hfirst h ht
      · exact .pure fun h ↦ by rw [List.append_nil]; exact .single h
    · exact recognizesAt_loop hp hstatements

/-! ## Programs -/

theorem recognizesAt_dataType (hp : p.Closed) :
    RecognizesAt dataType (fun ts type ↦ ∃ l : Lexeme, ts = [l] ∧
      l.token.dataType? = some type) p := by
  refine .current ?_
  split
  · next type h => exact .step_pure hp (fun hend ↦ by rw [hend] at h; cases h) ⟨_, rfl, h⟩
  · exact .unexpected _ ⟨_, _, ⟨.keyword .typeInteger, ⟨0, 0⟩⟩, rfl, rfl⟩

/-- Further names turn a name into a list of them. -/
theorem recognizesAt_moreNames (n : Nat) (p : Position) (hp : p.Closed) :
    RecognizesAt (moreNames n) (fun us names ↦ ∀ {l : Lexeme} {name},
      l.token = .identifier name → DerivesNames (l :: us) ((name, l.span) :: names)) p := by
  induction n generalizing p with
  | zero => exact .outOfFuel
  | succ n ih =>
    rw [moreNames]
    refine .current ?_
    split
    · next hcomma =>
      refine .step_bind hp (by simp [hcomma]) (H := fun us names ↦ DerivesNames us names)
        (fun q hq ↦ ?_) ⟨_, _, .one (l := ⟨.identifier "", ⟨0, 0⟩⟩) rfl⟩
        fun h _ _ hl ↦ .more hl hcomma h
      refine (RecognizesAt.identifier hq).bind hq (H := fun a us names ↦ ∀ {l : Lexeme},
        l.token = .identifier a.1 → a.2 = l.span → DerivesNames (l :: us) names)
        (fun a q hq ↦ (ih q hq).map hq ?_) ?_ ?_
      · intro us names h l hl hplace
        have := h hl
        rwa [← hplace] at this
      · intro a
        refine ⟨[], [a], fun hl hplace ↦ ?_⟩
        have := DerivesNames.one hl
        rwa [← hplace] at this
      · rintro - us a names ⟨l, rfl, hl, hplace⟩ h
        exact h hl hplace
    · exact .pure fun hl ↦ .one hl

theorem recognizesAt_group (n : Nat) (p : Position) (hp : p.Closed) :
    RecognizesAt (group n) (fun ts g ↦ g.Derives ts) p := by
  refine (RecognizesAt.identifier hp).bind hp (H := fun a us g ↦ ∀ {l : Lexeme},
    l.token = .identifier a.1 → a.2 = l.span → g.Derives (l :: us)) (fun a q hq ↦ ?_) ?_ ?_
  · refine (recognizesAt_moreNames n q hq).bind hq (H := fun names us g ↦
      ∀ {ts}, DerivesNames ts (a :: names) → g.Derives (ts ++ us)) (fun names q hq ↦ ?_) ?_ ?_
    · refine (RecognizesAt.symbol .colon hq).bind hq (H := fun _ us g ↦
        ∃ (l : Lexeme) (type : DataType), us = [l] ∧ l.token.dataType? = some type ∧
          g = ⟨a :: names, type⟩) (fun _ q hq ↦ ?_) ?_ ?_
      · refine (recognizesAt_dataType hq).map hq ?_
        rintro - type ⟨l, rfl, hl⟩
        exact ⟨l, type, rfl, hl, rfl⟩
      · exact fun _ ↦ ⟨_, _, ⟨.keyword .typeInteger, ⟨0, 0⟩⟩, .integer, rfl, rfl, rfl⟩
      · rintro - - - - ⟨c, rfl, hc, -⟩ ⟨l, type, rfl, hl, rfl⟩ ts hts
        exact .mk hts hc hl
    · exact fun names ↦ ⟨_, ⟨a :: names, .integer⟩, fun h ↦ .mk h (c := ⟨.symbol .colon, ⟨0, 0⟩⟩)
        (t := ⟨.keyword .typeInteger, ⟨0, 0⟩⟩) rfl rfl⟩
    · intro ts us names g hnames h l hl hplace
      have := hnames hl
      rw [← hplace] at this
      exact h this
  · intro a
    refine ⟨[⟨.symbol .colon, ⟨0, 0⟩⟩, ⟨.keyword .typeInteger, ⟨0, 0⟩⟩], ⟨[a], .integer⟩,
      fun {l} hl hplace ↦ ?_⟩
    have := DerivesNames.one hl
    rw [← hplace] at this
    exact .mk this rfl rfl
  · rintro - us a g ⟨l, rfl, hl, hplace⟩ h
    exact h hl hplace

theorem exists_derives_groups : ∃ ts gs, DerivesGroups ts gs :=
  ⟨_, _, .one (.mk (.one (l := ⟨.identifier "", ⟨0, 0⟩⟩) rfl) (c := ⟨.symbol .colon, ⟨0, 0⟩⟩)
    (t := ⟨.keyword .typeInteger, ⟨0, 0⟩⟩) rfl rfl) (l := ⟨.symbol .semicolon, ⟨0, 0⟩⟩) rfl⟩

theorem recognizesAt_groups (n : Nat) (p : Position) (hp : p.Closed) :
    RecognizesAt (groups n) (fun ts gs ↦ DerivesGroups ts gs) p := by
  induction n generalizing p with
  | zero => exact .outOfFuel
  | succ n ih =>
    rw [groups]
    refine (recognizesAt_group n p hp).bind hp (H := fun g us gs ↦
      ∀ {ts}, g.Derives ts → DerivesGroups (ts ++ us) gs) (fun g q hq ↦ ?_) ?_ fun hg h ↦ h hg
    · refine (RecognizesAt.symbol .semicolon hq).bind hq (H := fun _ us gs ↦ ∀ {ts} {l : Lexeme},
        g.Derives ts → l.token = .symbol .semicolon → DerivesGroups (ts ++ l :: us) gs)
        (fun _ q hq ↦ .current ?_) ?_ ?_
      · split
        · exact (ih q hq).map hq fun h _ _ hg hl ↦ .more hg hl h
        · exact .pure fun hg hl ↦ .one hg hl
      · exact fun _ ↦ ⟨[], _, fun hg hl ↦ .one hg hl⟩
      · rintro - us - gs ⟨l, rfl, hl, -⟩ h ts hg
        exact h hg hl
    · exact fun g ↦ ⟨_, _, fun hg ↦ .one hg (l := ⟨.symbol .semicolon, ⟨0, 0⟩⟩) rfl⟩

theorem recognizesAt_declarations (n : Nat) (p : Position) (hp : p.Closed) :
    RecognizesAt (declarations n) (fun ts gs ↦ DerivesDeclarations ts gs) p := by
  refine .current ?_
  split
  · refine (RecognizesAt.keyword .var hp).bind hp (fun _ q hq ↦ recognizesAt_groups n q hq)
      (fun _ ↦ exists_derives_groups) ?_
    rintro - us - gs ⟨l, rfl, hl, -⟩ h
    exact .some hl h
  · exact .pure .none

/-- The end of a program, from its declarations on. -/
theorem recognizesAt_body (n : Nat) (name : String) (p : Position) (hp : p.Closed) :
    RecognizesAt (do
        let groups ← declarations n
        let body ← compound n
        let _ ← expect (.symbol .dot)
        return ⟨name, groups, body⟩)
      (fun us t ↦ ∀ {k l c : Lexeme}, k.token = .keyword .program → l.token = .identifier name →
        c.token = .symbol .semicolon → Program.Derives (k :: l :: c :: us) t) p := by
  refine (recognizesAt_declarations n p hp).bind hp (H := fun gs us t ↦ ∃ vs d s, us = vs ++ [d] ∧
    Statement.Derives .compound vs s ∧ d.token = .symbol .dot ∧ t = ⟨name, gs, s⟩)
    (fun gs q hq ↦ ?_) (fun gs ↦ ?_) ?_
  · exact ((recognizesAt_statement n).2.1 q hq).closing hq (fun q hq ↦ .symbol .dot hq)
      fun hs hd ↦ ⟨_, _, _, rfl, hs, hd, rfl⟩
  · obtain ⟨vs, s, hs⟩ := exists_derives_statement .compound
    exact ⟨_, _, vs, ⟨.symbol .dot, ⟨0, 0⟩⟩, s, rfl, hs, rfl, rfl⟩
  · rintro ts - gs - hgs ⟨vs, d, s, rfl, hs, hd, rfl⟩ k l c hk hl hc
    exact .mk hk hl hc hgs hs hd

theorem exists_derives_program : ∃ (ts : List Lexeme) (t : Program), t.Derives ts := by
  obtain ⟨us, s, hs⟩ := exists_derives_statement .compound
  exact ⟨⟨.keyword .program, ⟨0, 0⟩⟩ :: ⟨.identifier "", ⟨0, 0⟩⟩ :: ⟨.symbol .semicolon, ⟨0, 0⟩⟩ ::
    ([] ++ (us ++ [⟨.symbol .dot, ⟨0, 0⟩⟩])), _, .mk rfl rfl rfl .none hs rfl⟩

/-- **The parser and the grammar.** The parser takes just what makes the program it returns, and
halts after tokens that some program starts with. -/
theorem recognizesAt_program (n : Nat) (p : Position) (hp : p.Closed) :
    RecognizesAt (program n) (fun ts t ↦ t.Derives ts) p := by
  -- what completes a program at any of its first three tokens: no declarations and an empty block
  obtain ⟨us, s, hs⟩ := exists_derives_statement .compound
  have hbody {name : String} {k l c : Lexeme} (hk : k.token = .keyword .program)
      (hl : l.token = .identifier name) (hc : c.token = .symbol .semicolon) :
      Program.Derives (k :: l :: c :: ([] ++ (us ++ [⟨.symbol .dot, ⟨0, 0⟩⟩]))) ⟨name, [], s⟩ :=
    .mk hk hl hc .none hs rfl
  refine (RecognizesAt.keyword .program hp).bind hp (H := fun _ us t ↦ ∀ {k : Lexeme},
    k.token = .keyword .program → Program.Derives (k :: us) t) (fun _ q hq ↦ ?_) (fun _ ↦ ?_) ?_
  · refine (RecognizesAt.identifier hq).bind hq (H := fun a us t ↦ ∀ {k l : Lexeme},
      k.token = .keyword .program → l.token = .identifier a.1 →
        Program.Derives (k :: l :: us) t) (fun a q hq ↦ ?_) (fun a ↦ ?_) ?_
    · refine (RecognizesAt.symbol .semicolon hq).bind hq
        (fun _ q hq ↦ recognizesAt_body n a.1 q hq) (fun _ ↦ ⟨_, _, hbody⟩) ?_
      rintro - us - t ⟨c, rfl, hc, -⟩ h k l hk hl
      exact h hk hl hc
    · exact ⟨⟨.symbol .semicolon, ⟨0, 0⟩⟩ :: _, _, fun hk hl ↦ hbody hk hl rfl⟩
    · rintro - us a t ⟨l, rfl, hl, -⟩ h k hk
      exact h hk hl
  · exact ⟨⟨.identifier "", ⟨0, 0⟩⟩ :: ⟨.symbol .semicolon, ⟨0, 0⟩⟩ :: _, _,
      fun hk ↦ hbody hk rfl rfl⟩
  · rintro - us - t ⟨k, rfl, hk, -⟩ h
    exact h hk

end Parser

end MiniPascal
