import MiniPascal.Proofs.Grammar

/-!
# Facts about derivations

Two facts about the grammar alone.

Whatever tokens make a phrase also make it with a tree in which every sign takes the longest
expression after it, so the choice that the language makes among its trees excludes no text. To see
it, an expression is taken apart from the left: it is a row of signs, an operand, and perhaps an
operator with another such row (`Row`). Putting an operand and an operator in front of a tree keeps
what the tree ends in, while putting them behind it does not.

And whether tokens make a phrase does not depend on their places.
-/

namespace MiniPascal

namespace Operator

/-- No token is an operator of both kinds. -/
theorem multiplicative?_eq_none {t : Token} {op : Operator} (h : additive? t = some op) :
    multiplicative? t = none := by
  rw [additive?.eq_def] at h
  split at h
  · rfl
  · rfl
  · cases h

theorem ofToken?_eq_some_iff {t : Token} {op : Operator} :
    ofToken? t = some op ↔ additive? t = some op ∨ multiplicative? t = some op := by
  rw [ofToken?, Option.or_eq_some_iff]
  refine or_congr_right ⟨And.right, fun h ↦ ⟨?_, h⟩⟩
  cases ha : additive? t with
  | none => rfl
  | some op' =>
    rw [multiplicative?_eq_none ha] at h
    cases h

theorem ofToken?_eq_none_iff {t : Token} :
    ofToken? t = none ↔ additive? t = none ∧ multiplicative? t = none := Option.or_eq_none_iff

/-- No comparison is an operator. -/
theorem ofToken?_eq_none_of_comparison {t : Token} {c : Comparison}
    (h : Comparison.ofToken? t = some c) : ofToken? t = none := by
  rw [Comparison.ofToken?.eq_def] at h
  split at h
  · rfl
  · rfl
  · rfl
  · rfl
  · rfl
  · rfl
  · cases h

end Operator

namespace Grammar

/-! ## Signs that take all -/

namespace Expression

/-- Tokens that make an operand, which is no sign. -/
def Operand (ts : List Lexeme) : Prop :=
  ∃ e : Expression, e.Derives .factor ts ∧ ¬e.EndsInSign ∧ e.SignsTakeAll

/-- Operands with operators between them and signs in front of them. -/
inductive Row : List Lexeme → Prop
  | operand {ts : List Lexeme} (h : Operand ts) : Row ts
  | sign {l : Lexeme} {ts : List Lexeme}
    (h : l.token = .symbol .plus ∨ l.token = .symbol .minus) (rest : Row ts) : Row (l :: ts)
  | operator {l : Lexeme} {op : Operator} {ts us : List Lexeme} (first : Operand ts)
    (h : Operator.ofToken? l.token = some op) (rest : Row us) : Row (ts ++ l :: us)

theorem Row.append {ts us : List Lexeme} {l : Lexeme} {op : Operator} (hts : Row ts)
    (hl : Operator.ofToken? l.token = some op) (hus : Row us) : Row (ts ++ l :: us) := by
  induction hts with
  | operand h => exact .operator h hl hus
  | sign h _ ih => exact .sign h ih
  | operator first h _ ih =>
    rw [List.append_assoc]
    exact .operator first h ih

/-- An operand and an operator in front of a tree: the operator joins them to the first operand of
the tree, or to the first term. -/
theorem Derives.prepend {r : Rank} {us : List Lexeme} {e : Expression} (he : e.Derives r us)
    (hs : e.SignsTakeAll) {ts : List Lexeme} {l : Lexeme} (hts : Operand ts) {op : Operator}
    (hl : r = .expression ∧ Operator.additive? l.token = some op ∨
      r ≠ .factor ∧ Operator.multiplicative? l.token = some op) :
    ∃ f : Expression, f.Derives r (ts ++ l :: us) ∧ f.SignsTakeAll ∧
      (f.EndsInSign ↔ e.EndsInSign) := by
  obtain ⟨a, ha, haend, hall⟩ := hts
  -- down the left side of the tree, where it starts; the right side, and so its end, stays
  induction he with
  | factor h =>
    rcases hl with ⟨hr, -⟩ | ⟨-, hl⟩
    · cases hr
    · exact ⟨_, .product ha.factor hl h, ⟨haend, hall, hs⟩, .rfl⟩
  | product left h right ih _ =>
    obtain ⟨hend, hleft, hright⟩ := hs
    obtain ⟨f, hf, hfs, hfe⟩ := ih hleft hl
    have hprod := hf.product h right
    rw [List.append_assoc] at hprod
    exact ⟨_, hprod, ⟨fun hc ↦ hend (hfe.1 hc), hfs, hright⟩, .rfl⟩
  | term h ih =>
    rcases hl with ⟨-, hl⟩ | ⟨-, hl⟩
    · exact ⟨_, .sum ha.factor.term hl h, ⟨haend, hall, hs⟩, .rfl⟩
    · obtain ⟨f, hf, hfs, hfe⟩ := ih hs (.inr ⟨nofun, hl⟩)
      exact ⟨f, hf.term, hfs, hfe⟩
  | sum left h right ih _ =>
    obtain ⟨hend, hleft, hright⟩ := hs
    obtain ⟨f, hf, hfs, hfe⟩ := ih hleft hl
    have hsum := hf.sum h right
    rw [List.append_assoc] at hsum
    exact ⟨_, hsum, ⟨fun hc ↦ hend (hfe.1 hc), hfs, hright⟩, .rfl⟩
  | _ =>
    rcases hl with ⟨hr, -⟩ | ⟨hr, -⟩
    · cases hr
    · exact absurd rfl hr

/-- A row makes an expression in which the signs take all. -/
theorem Row.exists_derives {ts : List Lexeme} (h : Row ts) :
    ∃ e : Expression, e.Derives .expression ts ∧ e.SignsTakeAll := by
  induction h with
  | operand h =>
    obtain ⟨e, he, -, hs⟩ := h
    exact ⟨e, he.factor.term, hs⟩
  | sign h _ ih =>
    obtain ⟨e, he, hs⟩ := ih
    rcases h with h | h
    · exact ⟨_, (Derives.plus h he).factor.term, hs⟩
    · exact ⟨_, (Derives.minus h he).factor.term, hs⟩
  | operator first h _ ih =>
    obtain ⟨e, he, hs⟩ := ih
    obtain ⟨f, hf, hfs, -⟩ := he.prepend hs first
      ((Operator.ofToken?_eq_some_iff.1 h).imp (fun h ↦ ⟨rfl, h⟩) fun h ↦ ⟨nofun, h⟩)
    exact ⟨f, hf, hfs⟩

theorem Derives.row {r : Rank} {ts : List Lexeme} {e : Expression} (h : e.Derives r ts) :
    Row ts := by
  induction h with
  | integer h => exact .operand ⟨_, .integer h, id, trivial⟩
  | real h => exact .operand ⟨_, .real h, id, trivial⟩
  | named h => exact .operand ⟨_, .named h, id, trivial⟩
  | plus h _ ih => exact .sign (.inl h) ih
  | minus h _ ih => exact .sign (.inr h) ih
  | parens hl _ hr ih =>
    -- what stands between parentheses is a row of its own and is put together again
    obtain ⟨e, he, hs⟩ := ih.exists_derives
    exact .operand ⟨_, .parens hl he hr, id, hs⟩
  | factor _ ih => exact ih
  | product _ h _ ihl ihr => exact ihl.append (Operator.ofToken?_eq_some_iff.2 (.inr h)) ihr
  | term _ ih => exact ih
  | sum _ h _ ihl ihr => exact ihl.append (Operator.ofToken?_eq_some_iff.2 (.inl h)) ihr

/-- Tokens that make an expression make one in which the signs take all. -/
theorem Derives.exists_signsTakeAll {ts : List Lexeme} {e : Expression}
    (h : e.Derives .expression ts) :
    ∃ f : Expression, f.Derives .expression ts ∧ f.SignsTakeAll := h.row.exists_derives

end Expression

theorem Statement.Derives.exists_signsTakeAll {k : Phrase} {ts : List Lexeme} {s : Statement}
    (h : s.Derives k ts) : ∃ t : Statement, t.Derives k ts ∧ t.SignsTakeAll := by
  induction h with
  | nothing => exact ⟨_, .nothing, trivial⟩
  | assign hl ha value =>
    obtain ⟨f, hf, hs⟩ := value.exists_signsTakeAll
    exact ⟨_, .assign hl ha hf, hs⟩
  | compound _ ih =>
    obtain ⟨t, ht, hs⟩ := ih
    exact ⟨_, .compound ht, hs⟩
  | loop hl _ hu condition ih =>
    obtain ⟨t, ht, hs⟩ := ih
    obtain ⟨left, hc, right⟩ := condition
    obtain ⟨e, he, hes⟩ := left.exists_signsTakeAll
    obtain ⟨f, hf, hfs⟩ := right.exists_signsTakeAll
    exact ⟨_, .loop hl ht hu (.mk he hc hf), hs, hes, hfs⟩
  | single _ ih =>
    obtain ⟨t, ht, hs⟩ := ih
    exact ⟨_, .single ht, hs⟩
  | sequence _ h _ ihs iht =>
    obtain ⟨s, hs, hss⟩ := ihs
    obtain ⟨t, ht, hts⟩ := iht
    exact ⟨_, .sequence hs h ht, hss, hts⟩
  | block hl _ hr ih =>
    obtain ⟨t, ht, hs⟩ := ih
    exact ⟨_, .block hl ht hr, hs⟩

/-- **The choice excludes no text.** Tokens that make a program make one in which the signs take
all. -/
theorem Program.Derives.exists_signsTakeAll {ts : List Lexeme} {p : Program} (h : p.Derives ts) :
    ∃ q : Program, q.Derives ts ∧ q.body.SignsTakeAll := by
  obtain ⟨hk, hl, hc, hds, hbody, hd⟩ := h
  obtain ⟨t, ht, hs⟩ := hbody.exists_signsTakeAll
  exact ⟨_, .mk hk hl hc hds ht hd, hs⟩

/-! ## First and last tokens -/

/-- An expression starts where its first token does. -/
theorem Expression.Derives.head {r : Rank} {ts : List Lexeme} {e : Expression}
    (h : e.Derives r ts) : ∃ l us, ts = l :: us ∧ e.start = l.span.start := by
  induction h with
  | integer _ => exact ⟨_, _, rfl, rfl⟩
  | real _ => exact ⟨_, _, rfl, rfl⟩
  | named _ => exact ⟨_, _, rfl, rfl⟩
  | plus _ _ _ => exact ⟨_, _, rfl, rfl⟩
  | minus _ _ _ => exact ⟨_, _, rfl, rfl⟩
  | parens _ _ _ _ => exact ⟨_, _, rfl, rfl⟩
  | factor _ ih => exact ih
  | product _ _ _ ih _ =>
    obtain ⟨l, us, rfl, hl⟩ := ih
    exact ⟨l, _, rfl, hl⟩
  | term _ ih => exact ih
  | sum _ _ _ ih _ =>
    obtain ⟨l, us, rfl, hl⟩ := ih
    exact ⟨l, _, rfl, hl⟩

/-- An expression ends where its last token does. -/
theorem Expression.Derives.last {r : Rank} {ts : List Lexeme} {e : Expression}
    (h : e.Derives r ts) : ∃ us l, ts = us ++ [l] ∧ e.stop = l.span.stop := by
  induction h with
  | integer _ => exact ⟨[], _, rfl, rfl⟩
  | real _ => exact ⟨[], _, rfl, rfl⟩
  | named _ => exact ⟨[], _, rfl, rfl⟩
  | plus _ _ ih =>
    obtain ⟨us, l, rfl, hl⟩ := ih
    exact ⟨_ :: us, l, rfl, hl⟩
  | minus _ _ ih =>
    obtain ⟨us, l, rfl, hl⟩ := ih
    exact ⟨_ :: us, l, rfl, hl⟩
  | parens _ _ _ _ => exact ⟨_ :: _, _, rfl, rfl⟩
  | factor _ ih => exact ih
  | @product m _ ts _ _ _ _ _ _ _ ih =>
    obtain ⟨us, l, rfl, hl⟩ := ih
    exact ⟨ts ++ m :: us, l, by simp, hl⟩
  | term _ ih => exact ih
  | @sum m _ ts _ _ _ _ _ _ _ ih =>
    obtain ⟨us, l, rfl, hl⟩ := ih
    exact ⟨ts ++ m :: us, l, by simp, hl⟩

theorem Statement.Derives.head_compound {ts : List Lexeme} {s : Statement}
    (h : s.Derives .compound ts) : ∃ l us, ts = l :: us ∧ l.token = .keyword .blockBegin := by
  cases h with
  | block hl _ _ => exact ⟨_, _, rfl, hl⟩

theorem DerivesNames.head {ts : List Lexeme} {names : List (String × Span)}
    (h : DerivesNames ts names) : ∃ l us name, ts = l :: us ∧ l.token = .identifier name := by
  cases h with
  | one h => exact ⟨_, _, _, rfl, h⟩
  | more h _ _ => exact ⟨_, _, _, rfl, h⟩

theorem Group.Derives.head {ts : List Lexeme} {g : Group} (h : g.Derives ts) :
    ∃ l us name, ts = l :: us ∧ l.token = .identifier name := by
  obtain ⟨hnames, -, -⟩ := h
  obtain ⟨l, us, name, rfl, hl⟩ := hnames.head
  exact ⟨l, _, name, rfl, hl⟩

theorem DerivesGroups.head {ts : List Lexeme} {gs : List Group} (h : DerivesGroups ts gs) :
    ∃ l us name, ts = l :: us ∧ l.token = .identifier name := by
  cases h with
  | one group _ =>
    obtain ⟨l, us, name, rfl, hl⟩ := group.head
    exact ⟨l, _, name, rfl, hl⟩
  | more group _ _ =>
    obtain ⟨l, us, name, rfl, hl⟩ := group.head
    exact ⟨l, _, name, rfl, hl⟩

/-! ## Places -/

/-- The same tokens, at whatever places. -/
def SameTokens (ts us : List Lexeme) : Prop := us.map Lexeme.token = ts.map Lexeme.token

namespace SameTokens

theorem nil {us : List Lexeme} (h : SameTokens [] us) : us = [] := List.map_eq_nil_iff.1 h

theorem cons {l : Lexeme} {ts us : List Lexeme} (h : SameTokens (l :: ts) us) :
    ∃ l' us', us = l' :: us' ∧ l'.token = l.token ∧ SameTokens ts us' :=
  List.map_eq_cons_iff.1 h

theorem append {ts ts' us : List Lexeme} (h : SameTokens (ts ++ ts') us) :
    ∃ vs vs', us = vs ++ vs' ∧ SameTokens ts vs ∧ SameTokens ts' vs' := by
  rw [SameTokens, List.map_append] at h
  exact List.map_eq_append_iff.1 h

theorem singleton {l : Lexeme} {us : List Lexeme} (h : SameTokens [l] us) :
    ∃ l', us = [l'] ∧ l'.token = l.token := by
  obtain ⟨l', us', rfl, hl, hus⟩ := h.cons
  rw [hus.nil]
  exact ⟨l', rfl, hl⟩

theorem between {l : Lexeme} {ts us vs : List Lexeme} (h : SameTokens (ts ++ l :: us) vs) :
    ∃ ts' l' us', vs = ts' ++ l' :: us' ∧ SameTokens ts ts' ∧ l'.token = l.token ∧
      SameTokens us us' := by
  obtain ⟨ts', vs', rfl, hts, hvs⟩ := h.append
  obtain ⟨l', us', rfl, hl, hus⟩ := hvs.cons
  exact ⟨ts', l', us', rfl, hts, hl, hus⟩

theorem enclosed {l r : Lexeme} {ts us : List Lexeme} (h : SameTokens (l :: (ts ++ [r])) us) :
    ∃ l' ts' r', us = l' :: (ts' ++ [r']) ∧ l'.token = l.token ∧ SameTokens ts ts' ∧
      r'.token = r.token := by
  obtain ⟨l', us', rfl, hl, hus⟩ := h.cons
  obtain ⟨ts', vs, rfl, hts, hvs⟩ := hus.append
  obtain ⟨r', rfl, hr⟩ := hvs.singleton
  exact ⟨l', ts', r', rfl, hl, hts, hr⟩

end SameTokens

theorem Expression.Derives.replace {r : Rank} {ts : List Lexeme} {e : Expression}
    (h : e.Derives r ts) {us : List Lexeme} (hus : SameTokens ts us) :
    ∃ f : Expression, f.Derives r us := by
  induction h generalizing us with
  | integer h =>
    obtain ⟨l, rfl, hl⟩ := hus.singleton
    exact ⟨_, .integer (hl.trans h)⟩
  | real h =>
    obtain ⟨l, rfl, hl⟩ := hus.singleton
    exact ⟨_, .real (hl.trans h)⟩
  | named h =>
    obtain ⟨l, rfl, hl⟩ := hus.singleton
    exact ⟨_, .named (hl.trans h)⟩
  | plus h _ ih =>
    obtain ⟨l, vs, rfl, hl, hvs⟩ := hus.cons
    obtain ⟨f, hf⟩ := ih hvs
    exact ⟨_, .plus (hl.trans h) hf⟩
  | minus h _ ih =>
    obtain ⟨l, vs, rfl, hl, hvs⟩ := hus.cons
    obtain ⟨f, hf⟩ := ih hvs
    exact ⟨_, .minus (hl.trans h) hf⟩
  | parens hl _ hr ih =>
    obtain ⟨l, vs, r, rfl, hl', hvs, hr'⟩ := hus.enclosed
    obtain ⟨f, hf⟩ := ih hvs
    exact ⟨_, .parens (hl'.trans hl) hf (hr'.trans hr)⟩
  | factor _ ih =>
    obtain ⟨f, hf⟩ := ih hus
    exact ⟨f, .factor hf⟩
  | product _ h _ ihl ihr =>
    obtain ⟨vs, l, ws, rfl, hvs, hl, hws⟩ := hus.between
    obtain ⟨e, he⟩ := ihl hvs
    obtain ⟨f, hf⟩ := ihr hws
    exact ⟨_, .product he (hl ▸ h) hf⟩
  | term _ ih =>
    obtain ⟨f, hf⟩ := ih hus
    exact ⟨f, .term hf⟩
  | sum _ h _ ihl ihr =>
    obtain ⟨vs, l, ws, rfl, hvs, hl, hws⟩ := hus.between
    obtain ⟨e, he⟩ := ihl hvs
    obtain ⟨f, hf⟩ := ihr hws
    exact ⟨_, .sum he (hl ▸ h) hf⟩

theorem Condition.Derives.replace {ts : List Lexeme} {c : Condition} (h : c.Derives ts)
    {us : List Lexeme} (hus : SameTokens ts us) : ∃ d : Condition, d.Derives us := by
  obtain ⟨left, hc, right⟩ := h
  obtain ⟨vs, l, ws, rfl, hvs, hl, hws⟩ := hus.between
  obtain ⟨e, he⟩ := left.replace hvs
  obtain ⟨f, hf⟩ := right.replace hws
  exact ⟨_, .mk he (hl ▸ hc) hf⟩

theorem Statement.Derives.replace {k : Phrase} {ts : List Lexeme} {s : Statement}
    (h : s.Derives k ts) {us : List Lexeme} (hus : SameTokens ts us) :
    ∃ t : Statement, t.Derives k us := by
  induction h generalizing us with
  | nothing =>
    rw [hus.nil]
    exact ⟨_, .nothing⟩
  | assign hl ha value =>
    obtain ⟨l, vs, rfl, hl', hvs⟩ := hus.cons
    obtain ⟨a, ws, rfl, ha', hws⟩ := hvs.cons
    obtain ⟨f, hf⟩ := value.replace hws
    exact ⟨_, .assign (hl'.trans hl) (ha'.trans ha) hf⟩
  | compound _ ih =>
    obtain ⟨t, ht⟩ := ih hus
    exact ⟨_, .compound ht⟩
  | loop hl _ hu condition ih =>
    obtain ⟨l, vs, rfl, hl', hvs⟩ := hus.cons
    obtain ⟨vs, u, ws, rfl, hvs, hu', hws⟩ := hvs.between
    obtain ⟨t, ht⟩ := ih hvs
    obtain ⟨d, hd⟩ := condition.replace hws
    exact ⟨_, .loop (hl'.trans hl) ht (hu'.trans hu) hd⟩
  | single _ ih =>
    obtain ⟨t, ht⟩ := ih hus
    exact ⟨t, .single ht⟩
  | sequence _ h _ ihs iht =>
    obtain ⟨vs, l, ws, rfl, hvs, hl, hws⟩ := hus.between
    obtain ⟨s, hs⟩ := ihs hvs
    obtain ⟨t, ht⟩ := iht hws
    exact ⟨_, .sequence hs (hl.trans h) ht⟩
  | block hl _ hr ih =>
    obtain ⟨l, vs, r, rfl, hl', hvs, hr'⟩ := hus.enclosed
    obtain ⟨t, ht⟩ := ih hvs
    exact ⟨t, .block (hl'.trans hl) ht (hr'.trans hr)⟩

theorem DerivesNames.replace {ts : List Lexeme} {names : List (String × Span)}
    (h : DerivesNames ts names) {us : List Lexeme} (hus : SameTokens ts us) :
    ∃ names', DerivesNames us names' := by
  induction h generalizing us with
  | one h =>
    obtain ⟨l, rfl, hl⟩ := hus.singleton
    exact ⟨_, .one (hl.trans h)⟩
  | more h hc _ ih =>
    obtain ⟨l, vs, rfl, hl, hvs⟩ := hus.cons
    obtain ⟨c, ws, rfl, hc', hws⟩ := hvs.cons
    obtain ⟨names, hnames⟩ := ih hws
    exact ⟨_, .more (hl.trans h) (hc'.trans hc) hnames⟩

theorem Group.Derives.replace {ts : List Lexeme} {g : Group} (h : g.Derives ts)
    {us : List Lexeme} (hus : SameTokens ts us) : ∃ g' : Group, g'.Derives us := by
  obtain ⟨hnames, hc, ht⟩ := h
  obtain ⟨vs, c, ws, rfl, hvs, hc', hws⟩ := hus.between
  obtain ⟨t, rfl, ht'⟩ := hws.singleton
  obtain ⟨names, hnames'⟩ := hnames.replace hvs
  exact ⟨_, .mk hnames' (hc'.trans hc) (ht' ▸ ht)⟩

theorem DerivesGroups.replace {ts : List Lexeme} {gs : List Group} (h : DerivesGroups ts gs)
    {us : List Lexeme} (hus : SameTokens ts us) : ∃ gs', DerivesGroups us gs' := by
  induction h generalizing us with
  | one group h =>
    obtain ⟨vs, l, ws, rfl, hvs, hl, hws⟩ := hus.between
    obtain ⟨g, hg⟩ := group.replace hvs
    rw [hws.nil]
    exact ⟨_, .one hg (hl.trans h)⟩
  | more group h _ ih =>
    obtain ⟨vs, l, ws, rfl, hvs, hl, hws⟩ := hus.between
    obtain ⟨g, hg⟩ := group.replace hvs
    obtain ⟨gs, hgs⟩ := ih hws
    exact ⟨_, .more hg (hl.trans h) hgs⟩

theorem DerivesDeclarations.replace {ts : List Lexeme} {gs : List Group}
    (h : DerivesDeclarations ts gs) {us : List Lexeme} (hus : SameTokens ts us) :
    ∃ gs', DerivesDeclarations us gs' := by
  cases h with
  | none =>
    rw [hus.nil]
    exact ⟨_, .none⟩
  | some h groups =>
    obtain ⟨l, vs, rfl, hl, hvs⟩ := hus.cons
    obtain ⟨gs, hgs⟩ := groups.replace hvs
    exact ⟨_, .some (hl.trans h) hgs⟩

/-- **Places do not matter.** Tokens at other places make a program as well. -/
theorem Program.Derives.replace {ts : List Lexeme} {p : Program} (h : p.Derives ts)
    {us : List Lexeme} (hus : SameTokens ts us) : ∃ q : Program, q.Derives us := by
  obtain ⟨hk, hl, hc, hds, hbody, hd⟩ := h
  obtain ⟨k, vs, rfl, hk', hvs⟩ := hus.cons
  obtain ⟨l, vs, rfl, hl', hvs⟩ := hvs.cons
  obtain ⟨c, vs, rfl, hc', hvs⟩ := hvs.cons
  obtain ⟨ds, vs, rfl, hds', hvs⟩ := hvs.append
  obtain ⟨bs, vs, rfl, hbs, hvs⟩ := hvs.append
  obtain ⟨d, rfl, hd'⟩ := hvs.singleton
  obtain ⟨gs, hgs⟩ := hds.replace hds'
  obtain ⟨s, hs⟩ := hbody.replace hbs
  exact ⟨_, .mk (hk'.trans hk) (hl'.trans hl) (hc'.trans hc) hgs hs (hd'.trans hd)⟩

theorem sentence_map_iff {ts : List Lexeme} :
    Sentence (ts.map Lexeme.token) ↔ ∃ p : Program, p.Derives ts := by
  constructor
  · rintro ⟨us, p, hus, hp⟩
    exact hp.replace hus.symm
  · rintro ⟨p, hp⟩
    exact ⟨ts, p, rfl, hp⟩

end Grammar

end MiniPascal
