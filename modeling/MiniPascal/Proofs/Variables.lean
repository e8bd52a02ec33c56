import MiniPascal.Proofs.Interpreter

/-!
# What happens to the variables

The variables of a program are declared once and for all before its first statement. From then on a
variable keeps its name, its type and the place of its declaration, it never loses its value, and
its value is always of its type (`Store.Evolves`).
-/

namespace MiniPascal

namespace Store

variable {s t : Store} {name : String} {v : Value}

/-- The names, types and places of all variables. -/
def signature (s : Store) : List (String × DataType × Span) :=
  s.declared.map fun x ↦ (x.name, x.type, x.span)

/-- The type of a variable, if it is declared. -/
def type? (s : Store) (name : String) : Option DataType := (s.find? name).map Variable.type

/-- No name is declared twice, and every value is of the type of its variable. -/
structure WellFormed (s : Store) : Prop where
  nodup : (s.declared.map Variable.name).Nodup
  typed : ∀ x ∈ s.declared, ∀ v, x.value = some v → v.type = x.type

theorem wellFormed_empty : empty.WellFormed := ⟨.nil, nofun⟩

/-! ## Looking up -/

theorem find?_eq_some {x : Variable} (h : s.find? name = some x) :
    x ∈ s.declared ∧ x.name = name :=
  ⟨List.mem_of_find?_eq_some h, by simpa using List.find?_some h⟩

/-- Among variables of different names, each is the first of its name. -/
theorem find?_name_of_mem {l : List Variable} (hnodup : (l.map Variable.name).Nodup) {x : Variable}
    (hx : x ∈ l) : l.find? (fun y ↦ y.name == x.name) = some x := by
  induction l with
  | nil => cases hx
  | cons y l ih =>
    rw [List.map_cons, List.nodup_cons] at hnodup
    by_cases hy : y.name = x.name
    · rw [List.find?_cons_of_pos (by simpa using hy)]
      rcases List.mem_cons.1 hx with rfl | hx
      · rfl
      · exact absurd (hy ▸ List.mem_map_of_mem hx) hnodup.1
    · rw [List.find?_cons_of_neg (by simpa using hy)]
      rcases List.mem_cons.1 hx with rfl | hx
      · exact absurd rfl hy
      · exact ih hnodup.2 hx

/-- Where no name is declared twice, a name has the variable that is declared with it. -/
theorem find?_eq_some_iff (h : s.WellFormed) {x : Variable} :
    s.find? name = some x ↔ x ∈ s.declared ∧ x.name = name := by
  refine ⟨find?_eq_some, ?_⟩
  rintro ⟨hx, rfl⟩
  exact find?_name_of_mem h.nodup hx

theorem symbols_eq_signature (s : Store) :
    s.symbols = s.signature.map fun x ↦ (x.1, x.2.1) := by
  rw [symbols, signature, List.map_map]
  rfl

/-- The type and the place of a variable can be looked up in the signature. -/
theorem find?_eq_signature (s : Store) (name : String) :
    (s.find? name).map (fun x ↦ (x.type, x.span)) =
      (s.signature.find? fun x ↦ x.1 == name).map Prod.snd := by
  rw [signature, List.find?_map, Option.map_map]
  rfl

theorem type?_eq_of_signature (h : t.signature = s.signature) (name : String) :
    t.type? name = s.type? name := by
  have hlookup (s : Store) :
      s.type? name = (s.signature.find? fun x ↦ x.1 == name).map fun x ↦ x.2.1 := by
    rw [signature, List.find?_map, Option.map_map]
    rfl
  rw [hlookup, hlookup, h]

/-- A value that is found is of the type of its variable. -/
theorem type?_of_value? (h : s.WellFormed) (hv : s.value? name = some v) :
    s.type? name = some v.type := by
  rw [value?, Option.bind_eq_some_iff] at hv
  obtain ⟨x, hx, hxv⟩ := hv
  rw [type?, hx, Option.map_some, h.typed x (find?_eq_some hx).1 v hxv]

/-- The values that are found are those in the memory. -/
theorem mem_memory_iff (h : s.WellFormed) : (name, v) ∈ s.memory ↔ s.value? name = some v := by
  rw [memory, List.mem_filterMap, value?, Option.bind_eq_some_iff]
  constructor
  · rintro ⟨x, hx, hxv⟩
    obtain ⟨w, hw, heq⟩ := Option.map_eq_some_iff.1 hxv
    cases heq
    exact ⟨x, (find?_eq_some_iff h).2 ⟨hx, rfl⟩, hw⟩
  · rintro ⟨x, hx, hxv⟩
    obtain ⟨hmem, rfl⟩ := find?_eq_some hx
    exact ⟨x, hmem, by rw [hxv]; rfl⟩

/-! ## Assigning -/

theorem find?_set (name' : String) : (s.set name v).find? name' =
    (s.find? name').map fun x ↦ if x.name == name then { x with value := some v } else x := by
  rw [find?, set, List.find?_map, find?]
  congr 2
  funext x
  dsimp only [Function.comp]
  split
  · rfl
  · rfl

theorem signature_set (s : Store) (name : String) (v : Value) :
    (s.set name v).signature = s.signature := by
  rw [signature, set, List.map_map]
  refine List.map_congr_left fun x _ ↦ ?_
  dsimp only [Function.comp]
  split
  · rfl
  · rfl

theorem value?_set_self {x : Variable} (h : s.find? name = some x) :
    (s.set name v).value? name = some v := by
  have hx : (x.name == name) = true := by
    rw [(find?_eq_some h).2]
    exact beq_self_eq_true _
  rw [value?, find?_set, h, Option.map_some, if_pos hx]
  rfl

theorem value?_set_of_ne {name' : String} (h : name' ≠ name) :
    (s.set name v).value? name' = s.value? name' := by
  rw [value?, find?_set, value?]
  cases hx : s.find? name' with
  | none => rfl
  | some x =>
    rw [Option.map_some, if_neg (by rw [(find?_eq_some hx).2]; simpa using h)]

/-- An assignment succeeds just if the variable is declared with the type of the value. -/
theorem assign_eq (s : Store) (name : String) (v : Value) :
    s.assign name v = match s.type? name with
      | none => .error .undeclared
      | some type =>
        if type = v.type then .ok (s.set name v) else .error (.typeMismatch type v.type) := by
  rw [assign, type?]
  cases s.find? name with
  | none => rfl
  | some x => rfl

theorem assign_eq_ok_iff :
    s.assign name v = .ok t ↔ s.type? name = some v.type ∧ t = s.set name v := by
  rw [assign_eq]
  cases s.type? name with
  | none => exact ⟨nofun, nofun⟩
  | some type =>
    by_cases h : type = v.type
    · subst h
      simp only [if_true]
      exact ⟨fun h ↦ ⟨trivial, (Except.ok.inj h).symm⟩, fun h ↦ by rw [h.2]⟩
    · simp only [if_neg h]
      exact ⟨nofun, fun h' ↦ absurd (Option.some.inj h'.1) h⟩

theorem value?_assign (h : s.assign name v = .ok t) (name' : String) :
    t.value? name' = if name' = name then some v else s.value? name' := by
  obtain ⟨htype, rfl⟩ := assign_eq_ok_iff.1 h
  split
  · next hname =>
    subst hname
    rw [type?, Option.map_eq_some_iff] at htype
    obtain ⟨x, hx, -⟩ := htype
    exact value?_set_self hx
  · next hname => exact value?_set_of_ne hname

theorem WellFormed.set (h : s.WellFormed) (hv : s.type? name = some v.type) :
    (s.set name v).WellFormed := by
  have hnames : (s.set name v).declared.map Variable.name = s.declared.map Variable.name := by
    have := congrArg (List.map Prod.fst) (signature_set s name v)
    simpa [signature, List.map_map, Function.comp_def] using this
  refine ⟨hnames ▸ h.nodup, fun x hx w hw ↦ ?_⟩
  obtain ⟨y, hy, rfl⟩ := List.mem_map.1 hx
  split at hw
  · next hname =>
    have hfind : s.find? name = some y := (find?_eq_some_iff h).2 ⟨hy, by simpa using hname⟩
    rw [type?, hfind, Option.map_some, Option.some.injEq] at hv
    cases hw
    rw [if_pos hname]
    exact hv.symm
  · next hname =>
    rw [if_neg hname]
    exact h.typed y hy w hw

/-! ## Declaring -/

theorem declare_eq_ok {type : DataType} {place : Span} (h : s.declare name type place = .ok t) :
    s.find? name = none ∧ t = ⟨s.declared ++ [{ name, type, span := place }]⟩ := by
  rw [declare] at h
  split at h
  · cases h
  · next hfind =>
    cases h
    exact ⟨hfind, rfl⟩

theorem declare_eq_error_iff {type : DataType} {place : Span} {first : Variable} :
    s.declare name type place = .error first ↔ s.find? name = some first := by
  rw [declare]
  cases s.find? name with
  | none => simp
  | some x => simp

theorem signature_declare {type : DataType} {place : Span}
    (h : s.declare name type place = .ok t) :
    t.signature = s.signature ++ [(name, type, place)] := by
  obtain ⟨-, rfl⟩ := declare_eq_ok h
  rw [signature, List.map_append]
  rfl

theorem WellFormed.declare {type : DataType} {place : Span} (h : s.WellFormed)
    (hd : s.declare name type place = .ok t) : t.WellFormed := by
  obtain ⟨hfind, rfl⟩ := declare_eq_ok hd
  constructor
  · rw [List.map_append, List.nodup_append]
    refine ⟨h.nodup, by simp, ?_⟩
    intro a ha b hb hab
    obtain ⟨x, hx, rfl⟩ := List.mem_map.1 ha
    rw [List.map_singleton, List.mem_singleton] at hb
    exact List.find?_eq_none.1 hfind x hx (by simpa using hab.trans hb)
  · intro x hx v hv
    rcases List.mem_append.1 hx with hx | hx
    · exact h.typed x hx v hv
    · rw [List.mem_singleton.1 hx] at hv
      cases hv

theorem value?_declare {type : DataType} {place : Span} (h : s.declare name type place = .ok t)
    (name' : String) : t.value? name' = s.value? name' := by
  obtain ⟨hfind, rfl⟩ := declare_eq_ok h
  rw [value?, value?, find?, List.find?_append, find?]
  cases s.declared.find? fun x ↦ x.name == name' with
  | some x => rfl
  | none =>
    by_cases hname : name = name'
    · simp [hname]
    · simp [hname]

/-! ## Evolving -/

/-- The variables stay the same, and those that have a value keep having one. -/
structure Evolves (s t : Store) : Prop where
  signature : t.signature = s.signature
  assigned : ∀ name v, s.value? name = some v → ∃ w, t.value? name = some w
  wellFormed : s.WellFormed → t.WellFormed

namespace Evolves

theorem refl (s : Store) : s.Evolves s := ⟨rfl, fun _ v h ↦ ⟨v, h⟩, id⟩

theorem trans {u : Store} (h : s.Evolves t) (h' : t.Evolves u) : s.Evolves u := by
  refine ⟨h'.signature.trans h.signature, fun name v hv ↦ ?_, h'.wellFormed ∘ h.wellFormed⟩
  obtain ⟨w, hw⟩ := h.assigned name v hv
  exact h'.assigned name w hw

theorem assign (h : s.assign name v = .ok t) : s.Evolves t := by
  obtain ⟨htype, ht⟩ := assign_eq_ok_iff.1 h
  refine ⟨ht ▸ signature_set _ _ _, fun name' w hw ↦ ?_, fun h ↦ ht ▸ h.set htype⟩
  rw [value?_assign h]
  split
  · exact ⟨v, rfl⟩
  · exact ⟨w, hw⟩

end Evolves

end Store

/-! ## Programs -/

namespace Grammar

open Interpreter

variable {r r' : Progress}

/-- An expression changes no variable. -/
theorem Expression.store_run {e : Expression} {v : Value} (h : e.run.run r = .ok v r') :
    r'.store = r.store := by
  induction e generalizing r r' v with
  | literal w place =>
    obtain ⟨-, rfl⟩ := run_literal_eq_ok h
    rfl
  | named name place =>
    obtain ⟨-, rfl⟩ := run_named_eq_ok h
    rfl
  | plus place operand ih => exact ih h
  | minus place operand ih =>
    obtain ⟨w, r₁, hoperand, -, rfl⟩ := run_minus_eq_ok h
    exact (ih hoperand :)
  | binary op place left right ihl ihr =>
    obtain ⟨a, b, r₁, r₂, hleft, hright, -, rfl⟩ := run_binary_eq_ok h
    exact (ihr hright).trans (ihl hleft)
  | parens place inner ih => exact ih h

theorem Condition.store_run {c : Condition} {address : Nat} {done : Bool}
    (h : (c.run address).run r = .ok done r') : r'.store = r.store := by
  obtain ⟨a, b, r₁, hleft, hright, -⟩ := run_eq_ok h
  rw [Expression.store_run hright]
  exact (Expression.store_run hleft :)

/-- **Variables evolve.** No statement declares a variable, takes its value away or gives it one of
another type. -/
theorem Statement.evolves_run {address : Nat → Nat} {s : Statement} {n : Nat}
    (h : (s.run address n).run r = .ok () r') : r.store.Evolves r'.store := by
  induction s generalizing r r' n with
  | nothing =>
    cases h
    exact .refl _
  | assign name place value =>
    obtain ⟨v, r₁, store, hvalue, hstore, rfl⟩ := run_assign_eq_ok h
    rw [← Expression.store_run hvalue]
    exact .assign hstore
  | compound body ih => exact ih h
  | loop start body c ih =>
    refine run_loop_induction (P := fun r r' ↦ r.store.Evolves r'.store) ?_ ?_ h
    · intro n r r₁ r' hbody hc
      rw [Condition.store_run hc]
      exact ih hbody
    · intro n r r₁ r₂ r' hbody hc hrest
      rw [Condition.store_run hc] at hrest
      exact (ih hbody).trans hrest
  | sequence first rest ihf ihr =>
    obtain ⟨r₁, hfirst, hrest⟩ := run_sequence_eq_ok h
    exact (ihf hfirst).trans (ihr hrest)

/-- Declarations that succeed add their variables to those there are. -/
theorem declareAll_run {vs : List (String × DataType × Span)}
    (h : (declareAll vs).run r = .ok () r') :
    r'.store.signature = r.store.signature ++ vs ∧
      (r.store.WellFormed → r'.store.WellFormed) := by
  induction vs generalizing r with
  | nil =>
    cases h
    exact ⟨(List.append_nil _).symm, id⟩
  | cons v vs ih =>
    obtain ⟨_, r₁, hdeclare, hrest⟩ := run_bind_eq_ok_iff.1 h
    obtain ⟨store, hstore, rfl⟩ := run_declare_eq_ok hdeclare
    obtain ⟨hsignature, hwf⟩ := ih hrest
    refine ⟨?_, fun h ↦ hwf (h.declare hstore)⟩
    rw [hsignature, Store.signature_declare hstore, List.append_assoc]
    rfl

/-- **The variables of a program.** When a program has run, its variables are those of its text,
each declared once and with values of its type only. -/
theorem Program.run_store {address : Nat → Nat} {p : Program} {n : Nat}
    (h : (p.run address n).run .empty = .ok () r) :
    r.store.signature = p.variables ∧ r.store.WellFormed := by
  obtain ⟨_, r₁, hdeclare, hbody⟩ := run_bind_eq_ok_iff.1 h
  obtain ⟨hsignature, hwf⟩ := declareAll_run hdeclare
  have hevolves := Statement.evolves_run hbody
  exact ⟨hevolves.signature.trans hsignature, hevolves.wellFormed (hwf Store.wellFormed_empty)⟩

end Grammar

end MiniPascal
