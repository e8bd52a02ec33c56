import Mathlib.Data.List.Nodup
import MiniPascal.Environment
import MiniPascal.Proofs.Variables

/-!
# Environments are stores

The three collections of an environment are in step (`Environment.InStep`) if the names in the order
are just those with a symbol, without repetition, and every value belongs to a symbol of its type.
An environment in step is read as a store by `Environment.store`: it answers every question as the
store does, and an operation on it is the operation on the store (`InStep.declare_cases`,
`InStep.assign_cases`).

The operations change one collection after the other, so they are first put down as what is left of
the environment in all (`run_declare`, `run_assign`).
-/

namespace MiniPascal

namespace Variable

/-- How a variable is declared. -/
def symbol (x : Variable) : Environment.Symbol where
  type := x.type
  span := x.span

end Variable

namespace Environment

variable {e : Environment} {name : String} {v : Value}

/-! ## One operation -/

/-- The environment with one more name. -/
def withSymbol (e : Environment) (name : String) (symbol : Symbol) : Environment :=
  { e with order := e.order ++ [name], symbolTable := e.symbolTable.insert name symbol }

/-- The environment with another value for a name. -/
def withValue (e : Environment) (name : String) (v : Value) : Environment :=
  { e with memoryTable := e.memoryTable.insert name v }

/-- A declaration fails and leaves the environment alone, or makes an entry in the order and in the
symbols. -/
theorem run_declare (e : Environment) (name : String) (type : DataType) (span : Span) :
    (declare name type span).run e = match e.symbol? name with
      | some first => (.error first, e)
      | none => (.ok (), e.withSymbol name { type, span }) := by
  rw [declare, symbol?]
  simp only [StateT.run_bind, StateT.run_get, pure_bind]
  cases e.symbolTable.get? name with
  | some first => rfl
  | none => rfl

/-- An assignment fails and leaves the environment alone, or makes an entry in the memory. -/
theorem run_assign (e : Environment) (name : String) (v : Value) :
    (assign name v).run e = match (e.symbol? name).map Symbol.type with
      | none => (.error .undeclared, e)
      | some type => if type = v.type then (.ok (), e.withValue name v)
        else (.error (.typeMismatch type v.type), e) := by
  rw [assign, symbol?]
  simp only [StateT.run_bind, StateT.run_get, pure_bind]
  cases e.symbolTable.get? name with
  | none => rfl
  | some symbol =>
    by_cases h : symbol.type = v.type
    · simp only [h, ne_eq, not_true_eq_false, if_false, Option.map_some, if_true]
      rfl
    · simp only [h, ne_eq, not_false_eq_true, if_true, Option.map_some, if_false]
      rfl

/-! ### What is found afterwards -/

@[simp] theorem symbol?_withSymbol (e : Environment) (name : String) (symbol : Symbol)
    (name' : String) : (e.withSymbol name symbol).symbol? name' =
      if name' = name then some symbol else e.symbol? name' := e.symbolTable.get?_insert symbol

@[simp] theorem value?_withSymbol (e : Environment) (name : String) (symbol : Symbol)
    (name' : String) : (e.withSymbol name symbol).value? name' = e.value? name' := rfl

@[simp] theorem symbol?_withValue (e : Environment) (name : String) (v : Value) (name' : String) :
    (e.withValue name v).symbol? name' = e.symbol? name' := rfl

@[simp] theorem value?_withValue (e : Environment) (name : String) (v : Value) (name' : String) :
    (e.withValue name v).value? name' = if name' = name then some v else e.value? name' :=
  e.memoryTable.get?_insert v

/-! ## An environment as a store -/

/-- The collections of an environment belong together. -/
structure InStep (e : Environment) : Prop where
  nodup : e.order.Nodup
  mem_order : ∀ name, name ∈ e.order ↔ (e.symbol? name).isSome
  typed : ∀ name v, e.value? name = some v → (e.symbol? name).map Symbol.type = some v.type

/-- The variable that the collections have for a name. -/
def find? (e : Environment) (name : String) : Option Variable :=
  (e.symbol? name).map fun symbol ↦
    { name, type := symbol.type, span := symbol.span, value := e.value? name }

/-- The environment as one list of variables. -/
def store (e : Environment) : Store := ⟨e.order.filterMap e.find?⟩

theorem inStep_empty : ({} : Environment).InStep where
  nodup := .nil
  mem_order name := by simp [symbol?]
  typed name v h := by simp [value?] at h

theorem map_symbol_find? (e : Environment) (name : String) :
    (e.find? name).map Variable.symbol = e.symbol? name := by
  rw [find?, Option.map_map]
  cases e.symbol? name with
  | none => rfl
  | some symbol => rfl

theorem find?_filterMap (e : Environment) (name : String) (names : List String) :
    (names.filterMap e.find?).find? (fun x ↦ x.name == name) =
      if name ∈ names then e.find? name else none := by
  induction names with
  | nil => rfl
  | cons name' names ih =>
    by_cases hname : name = name'
    · subst hname
      cases h : e.find? name with
      | none =>
        rw [List.filterMap_cons_none h, ih, h]
        simp
      | some x =>
        have hx : x.name = name := by
          obtain ⟨symbol, -, rfl⟩ := Option.map_eq_some_iff.1 h
          rfl
        rw [List.filterMap_cons_some h, List.find?_cons_of_pos (by simp [hx])]
        simp
    · have hne : ∀ x, e.find? name' = some x → ¬x.name = name := by
        rintro x h rfl
        obtain ⟨symbol, -, rfl⟩ := Option.map_eq_some_iff.1 h
        exact hname rfl
      simp only [List.mem_cons, hname, false_or, ← ih]
      cases h : e.find? name' with
      | none => rw [List.filterMap_cons_none h]
      | some x => rw [List.filterMap_cons_some h, List.find?_cons_of_neg (by simpa using hne x h)]

namespace InStep

variable (h : e.InStep)
include h

/-! ### Questions -/

theorem find?_store (name : String) : e.store.find? name = e.find? name := by
  rw [Store.find?, store, find?_filterMap]
  split
  · rfl
  · next hname =>
    rw [h.mem_order, Option.not_isSome_iff_eq_none] at hname
    rw [find?, hname, Option.map_none]

theorem map_symbol_find?_store (name : String) :
    (e.store.find? name).map Variable.symbol = e.symbol? name := by
  rw [h.find?_store, map_symbol_find?]

theorem type?_store (name : String) :
    e.store.type? name = (e.symbol? name).map Symbol.type := by
  rw [← h.map_symbol_find?_store, Option.map_map]
  rfl

theorem value?_store (name : String) : e.store.value? name = e.value? name := by
  rw [Store.value?, h.find?_store, find?]
  cases hv : e.value? name with
  | none => cases e.symbol? name <;> rfl
  | some v =>
    have htype := h.typed name v hv
    cases hsymbol : e.symbol? name with
    | none => simp [hsymbol] at htype
    | some symbol => rfl

omit h in
theorem symbols_store (e : Environment) : e.store.symbols = e.symbols := by
  rw [Store.symbols, store, List.map_filterMap, symbols]
  refine List.filterMap_congr fun name _ ↦ ?_
  rw [find?, Option.map_map]
  rfl

theorem order_eq : e.order = e.symbols.map Prod.fst := by
  have hnamed : ∀ name ∈ e.order,
      ((e.symbol? name).map fun symbol ↦ (name, symbol.type)).map Prod.fst = some name := by
    intro name hname
    obtain ⟨symbol, hsymbol⟩ := Option.isSome_iff_exists.1 ((h.mem_order name).1 hname)
    rw [hsymbol]
    rfl
  rw [symbols, List.map_filterMap]
  exact ((List.filterMap_eq_map_iff_forall_eq_some.2 hnamed).trans (List.map_id' _)).symm

theorem memory_store : e.store.memory = e.memory := by
  rw [Store.memory, store, List.filterMap_filterMap, memory]
  refine List.filterMap_congr fun name hname ↦ ?_
  obtain ⟨symbol, hsymbol⟩ := Option.isSome_iff_exists.1 ((h.mem_order name).1 hname)
  rw [find?, hsymbol, Option.map_some, Option.bind_some]
  rfl

omit h in
theorem unassigned_store (e : Environment) : e.store.unassigned = e.unassigned := by
  rw [Store.unassigned, store, List.filterMap_filterMap, unassigned, ← List.filterMap_eq_filter,
    List.filterMap_filterMap]
  refine List.filterMap_congr fun name _ ↦ ?_
  change (e.find? name).bind _ = (Option.guard (fun name ↦ (e.value? name).isNone) name).bind
    fun name ↦ (e.symbol? name).map fun symbol ↦ (name, symbol.span)
  rw [find?]
  cases hv : e.value? name <;> cases hsymbol : e.symbol? name <;>
    simp [Option.guard, hv, hsymbol]

/-! ### Operations -/

theorem value?_eq_none (hfresh : e.symbol? name = none) : e.value? name = none := by
  cases hv : e.value? name with
  | none => rfl
  | some v => simpa [hfresh] using h.typed name v hv

theorem notMem_order (hfresh : e.symbol? name = none) : name ∉ e.order := by
  simp [h.mem_order, hfresh]

theorem store_withSymbol (hfresh : e.symbol? name = none) (symbol : Symbol) :
    (e.withSymbol name symbol).store =
      ⟨e.store.declared ++ [{ name, type := symbol.type, span := symbol.span }]⟩ := by
  have hold : e.order.filterMap (e.withSymbol name symbol).find? =
      e.order.filterMap e.find? := by
    refine List.filterMap_congr fun name' hname' ↦ ?_
    have hne : name' ≠ name := by
      rintro rfl
      exact h.notMem_order hfresh hname'
    simp [find?, hne]
  have hnew : (e.withSymbol name symbol).find? name =
      some { name, type := symbol.type, span := symbol.span } := by
    simp [find?, h.value?_eq_none hfresh]
  change (⟨(e.order ++ [name]).filterMap _⟩ : Store) = _
  rw [List.filterMap_append, hold, List.filterMap_cons_some hnew]
  rfl

theorem withSymbol (hfresh : e.symbol? name = none) (symbol : Symbol) :
    (e.withSymbol name symbol).InStep where
  nodup := by
    have hnodup := h.nodup.concat (h.notMem_order hfresh)
    rwa [List.concat_eq_append] at hnodup
  mem_order name' := by
    change name' ∈ e.order ++ [name] ↔ _
    rw [List.mem_append, h.mem_order, List.mem_singleton, symbol?_withSymbol]
    by_cases hname : name' = name <;> simp [hname]
  typed name' v hv := by
    have htype := h.typed name' v hv
    rw [symbol?_withSymbol, if_neg, htype]
    rintro rfl
    simp [hfresh] at htype

omit h in
theorem store_withValue (e : Environment) (name : String) (v : Value) :
    (e.withValue name v).store = e.store.set name v := by
  rw [store, Store.set, store, List.map_filterMap]
  congr 1
  refine List.filterMap_congr fun name' _ ↦ ?_
  by_cases hname : name' = name
  · simp [find?, hname, Function.comp_def]
  · simp [find?, hname, Function.comp_def]

theorem withValue (htype : (e.symbol? name).map Symbol.type = some v.type) :
    (e.withValue name v).InStep where
  nodup := h.nodup
  mem_order := h.mem_order
  typed name' v' hv := by
    rw [value?_withValue] at hv
    split at hv
    · next hname =>
      cases hv
      rwa [hname]
    · exact h.typed name' v' hv

/-- A declaration is one of the store, with the same answer. -/
theorem declare_cases (name : String) (type : DataType) (span : Span) :
    (∃ x, e.store.declare name type span = .error x ∧
      (declare name type span).run e = (.error x.symbol, e)) ∨
    ∃ e', e.store.declare name type span = .ok e'.store ∧ e'.InStep ∧
      (declare name type span).run e = (.ok (), e') := by
  have hfind := h.map_symbol_find?_store name
  rw [Store.declare, run_declare, ← hfind]
  cases hx : e.store.find? name with
  | some x => exact .inl ⟨x, rfl, rfl⟩
  | none =>
    rw [hx, Option.map_none] at hfind
    refine .inr ⟨e.withSymbol name { type, span }, ?_, h.withSymbol hfind.symm _, rfl⟩
    rw [h.store_withSymbol hfind.symm]

/-- An assignment is one to the store, with the same answer. -/
theorem assign_cases (name : String) (v : Value) :
    (∃ fault, e.store.assign name v = .error fault ∧
      (assign name v).run e = (.error fault, e)) ∨
    ∃ e', e.store.assign name v = .ok e'.store ∧ e'.InStep ∧
      (assign name v).run e = (.ok (), e') := by
  have htype := h.type?_store name
  rw [Store.assign_eq, run_assign, ← htype]
  cases hx : e.store.type? name with
  | none => exact .inl ⟨.undeclared, rfl, rfl⟩
  | some type =>
    by_cases hv : type = v.type
    · simp only [if_pos hv]
      refine .inr ⟨e.withValue name v, ?_, h.withValue ?_, rfl⟩
      · rw [store_withValue]
      · rw [← htype, hx, hv]
    · simp only [if_neg hv]
      exact .inl ⟨_, rfl, rfl⟩

end InStep

end Environment

end MiniPascal
