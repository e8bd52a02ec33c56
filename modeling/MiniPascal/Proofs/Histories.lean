import MiniPascal.Proofs.Environments

/-!
# Environments and their histories

An environment comes about by requests, to declare a variable or to assign to one, in any order and
whether or not they are granted. What it holds in the end can be told from the requests alone,
without keeping anything in between: a variable is what its first declaration made it, and its value
is that of the last assignment behind the declaration that fits its type (`Environment.Reflects`).

The three collections of the environment are in step after every history, and are the store that has
come about by the same requests (`Environment.store_ofHistory`). The store is built up request by
request, while the history is read from its front. So each part is first shown for a history that
goes on from any store, by induction on the history.
-/

namespace MiniPascal

/-! ## Requests -/

/-- A request to an environment. -/
inductive Request where
  | declare (name : String) (type : DataType) (place : Span)
  | assign (name : String) (v : Value)

/-- Why a request is refused. -/
inductive Refusal where
  | declared (first : Environment.Symbol)
  | assign (fault : AssignFault)

namespace Store

/-- The answer to a request. -/
def respond (s : Store) : Request → Except Refusal Store
  | .declare name type place => (s.declare name type place).mapError fun x ↦ .declared x.symbol
  | .assign name v => (s.assign name v).mapError .assign

/-- The store after a request; one that is refused leaves it as it was. -/
def after (s : Store) (r : Request) : Store :=
  match s.respond r with
  | .ok t => t
  | .error _ => s

/-- The store after some requests, from the first to the last. -/
def run (s : Store) (history : List Request) : Store := history.foldl after s

/-- The store that has come about by some requests. -/
def ofHistory (history : List Request) : Store := empty.run history

end Store

namespace Environment

/-- The answer to a request. -/
def respond : Request → StateM Environment (Except Refusal Unit)
  | .declare name type place => return (← declare name type place).mapError .declared
  | .assign name v => return (← assign name v).mapError .assign

/-- What a request leaves of an environment, granted or not. -/
def after (e : Environment) (r : Request) : Environment := (respond r |>.run e).2

/-- The environment after some requests, from the first to the last. -/
def run (e : Environment) (history : List Request) : Environment := history.foldl after e

/-- The environment that has come about by some requests. -/
def ofHistory (history : List Request) : Environment := ({} : Environment).run history

end Environment

/-! ## What a history tells -/

namespace Request

/-- The variable that a request declares, if it is granted. -/
def declared? : Request → Option (String × DataType × Span)
  | .declare name type place => some (name, type, place)
  | .assign _ _ => none

/-- The value that a request gives to a variable of a type. -/
def value? (name : String) (type : DataType) : Request → Option Value
  | .declare _ _ _ => none
  | .assign name' v => if name' = name ∧ v.type = type then some v else none

/-- Whether a request declares a name. -/
def declares (name : String) (r : Request) : Bool := r.declared?.any fun x ↦ x.1 == name

end Request

/-- The first declaration of each name, in the order of the history. -/
def firstDeclarations : List Request → List (String × DataType × Span)
  | [] => []
  | .declare name type place :: rest =>
    (name, type, place) :: (firstDeclarations rest).filter fun x ↦ x.1 != name
  | .assign _ _ :: rest => firstDeclarations rest

/-- The first declaration of a name. -/
def declaration? (name : String) (history : List Request) : Option (DataType × Span) :=
  (history.find? (Request.declares name)).bind fun r ↦ r.declared?.map Prod.snd

/-- The value of the last assignment to a name that comes after the first declaration of the name
and fits it. -/
def lastValue (name : String) (history : List Request) : Option Value :=
  match history.dropWhile fun r ↦ !r.declares name with
  | .declare _ type _ :: later => (later.filterMap (Request.value? name type)).getLast?
  | _ => none

/-- The environment holds what the history tells. -/
structure Environment.Reflects (e : Environment) (history : List Request) : Prop where
  /-- The symbols are the names and types of the first declarations, in their order. -/
  symbols : e.symbols = (firstDeclarations history).map fun x ↦ (x.1, x.2.1)
  /-- They are all names that are ever declared. -/
  names : ∀ name, name ∈ e.symbols.map Prod.fst ↔ ∃ r ∈ history, r.declares name
  /-- No name is listed twice. -/
  nodup : (e.symbols.map Prod.fst).Nodup
  /-- The order has just the names of the symbols. -/
  order : e.order = e.symbols.map Prod.fst
  /-- A name stands for its first declaration. -/
  symbol? : ∀ name, (e.symbol? name).map (fun x ↦ (x.type, x.span)) = declaration? name history
  /-- A name has the value that was last assigned to it. -/
  value? : ∀ name, e.value? name = lastValue name history
  /-- Every value is of the type that its name is declared with. -/
  typed : ∀ name v, e.value? name = some v → (e.symbol? name).map Symbol.type = some v.type
  /-- The memory lists the values of the variables. -/
  memory : ∀ name v, (name, v) ∈ e.memory ↔ e.value? name = some v
  /-- The names with a value are in the order of the symbols. -/
  assigned : (e.memory.map Prod.fst).Sublist (e.symbols.map Prod.fst)
  /-- So are the names without one. -/
  unassigned : (e.unassigned.map Prod.fst).Sublist (e.symbols.map Prod.fst)
  /-- No name is on both sides. -/
  disjoint : ∀ name ∈ e.memory.map Prod.fst, name ∉ e.unassigned.map Prod.fst
  /-- Every name is on one side. -/
  split : ∀ name ∈ e.symbols.map Prod.fst,
    name ∈ e.memory.map Prod.fst ∨ name ∈ e.unassigned.map Prod.fst
  /-- A name without a value is listed with the place of its first declaration. -/
  places : ∀ name place, (name, place) ∈ e.unassigned →
    (declaration? name history).map Prod.snd = some place

/-- The environment answers the next request as the history tells. -/
structure Environment.Answers (e : Environment) (history : List Request) : Prop where
  /-- A declaration is refused just if the name has been declared. -/
  redeclared : ∀ name type place,
    (∃ first, ((declare name type place).run e).1 = .error first) ↔
      ∃ r ∈ history, r.declares name
  /-- Then the first declaration of the name is returned. -/
  first : ∀ name type place first, ((declare name type place).run e).1 = .error first →
    declaration? name history = some (first.type, first.span)
  /-- An assignment finds no variable just if the name has not been declared. -/
  undeclared : ∀ name v,
    ((assign name v).run e).1 = .error .undeclared ↔ ¬∃ r ∈ history, r.declares name
  /-- It does not fit just if the name was first declared with another type. -/
  typeMismatch : ∀ name v expected got,
    ((assign name v).run e).1 = .error (.typeMismatch expected got) ↔
      (declaration? name history).map Prod.fst = some expected ∧ got = v.type ∧ expected ≠ got

/-! ## One request -/

namespace Store

variable {s t : Store} {name : String} {r : Request} {history : List Request}

theorem type?_eq_signature (s : Store) (name : String) :
    s.type? name = (s.signature.find? fun x ↦ x.1 == name).map fun x ↦ x.2.1 := by
  have h := congrArg (Option.map Prod.fst) (find?_eq_signature s name)
  rw [Option.map_map, Option.map_map] at h
  exact h

theorem value?_of_type?_eq_none (h : s.type? name = none) : s.value? name = none := by
  rw [type?, Option.map_eq_none_iff] at h
  rw [value?, h, Option.bind_none]

/-- What can come of a request. -/
theorem after_cases (s : Store) (r : Request) :
    (∃ name type place, r = .declare name type place ∧
      s.declare name type place = .ok (s.after r)) ∨
    (∃ name type place first, r = .declare name type place ∧
      s.declare name type place = .error first ∧ s.after r = s) ∨
    (∃ name v, r = .assign name v ∧ s.assign name v = .ok (s.after r)) ∨
    ∃ name v fault, r = .assign name v ∧ s.assign name v = .error fault ∧ s.after r = s := by
  cases r with
  | declare name type place =>
    rw [after, respond]
    cases h : s.declare name type place with
    | ok t => exact .inl ⟨name, type, place, rfl, h⟩
    | error first => exact .inr (.inl ⟨name, type, place, first, rfl, h, rfl⟩)
  | assign name v =>
    rw [after, respond]
    cases h : s.assign name v with
    | ok t => exact .inr (.inr (.inl ⟨name, v, rfl, h⟩))
    | error fault => exact .inr (.inr (.inr ⟨name, v, fault, rfl, h, rfl⟩))

/-- A request adds the variable that it declares, unless the name is taken. -/
theorem signature_after (s : Store) (r : Request) : (s.after r).signature =
    s.signature ++ (r.declared?.filter fun x ↦ (s.type? x.1).isNone).toList := by
  rcases s.after_cases r with ⟨name, type, place, rfl, h⟩ |
    ⟨name, type, place, first, rfl, h, hsame⟩ | ⟨name, v, rfl, h⟩ | ⟨name, v, fault, rfl, -, hsame⟩
  · have hfresh : s.type? name = none := by simp [type?, (declare_eq_ok h).1]
    rw [signature_declare h]
    simp [Request.declared?, Option.filter, hfresh]
  · have htaken : s.type? name = some first.type := by simp [type?, declare_eq_error_iff.1 h]
    rw [hsame]
    simp [Request.declared?, Option.filter, htaken]
  · rw [(assign_eq_ok_iff.1 h).2, signature_set]
    simp [Request.declared?]
  · rw [hsame]
    simp [Request.declared?]

/-- A request gives a variable the value that fits the variable's type, if it has one, and leaves
the values alone otherwise. -/
theorem value?_after (s : Store) (r : Request) (name : String) : (s.after r).value? name =
    ((s.type? name).bind fun type ↦ r.value? name type).or (s.value? name) := by
  rcases s.after_cases r with ⟨name', type, place, rfl, h⟩ |
    ⟨name', type, place, first, rfl, -, hsame⟩ | ⟨name', v, rfl, h⟩ |
    ⟨name', v, fault, rfl, h, hsame⟩
  · rw [value?_declare h]
    simp [Request.value?]
  · rw [hsame]
    simp [Request.value?]
  · rw [value?_assign h]
    by_cases hname : name = name'
    · subst hname
      simp [(assign_eq_ok_iff.1 h).1, Request.value?]
    · have hne : name' ≠ name := fun h ↦ hname h.symm
      simp [hname, hne, Request.value?]
  -- a refused assignment is to a variable that is not there or has another type
  · have hmiss : (s.type? name).bind (fun type ↦ (Request.assign name' v).value? name type) =
        none := by
      refine Option.bind_eq_none_iff.2 fun type htype ↦ if_neg ?_
      rintro ⟨rfl, rfl⟩
      rw [assign_eq, htype] at h
      simp at h
    rw [hsame, hmiss, Option.none_or]

theorem WellFormed.after (h : s.WellFormed) (r : Request) : (s.after r).WellFormed := by
  rcases s.after_cases r with ⟨name, type, place, rfl, hr⟩ | ⟨_, _, _, _, -, -, hsame⟩ |
    ⟨name, v, rfl, hr⟩ | ⟨_, _, _, -, -, hsame⟩
  · exact h.declare hr
  · rwa [hsame]
  · obtain ⟨htype, hset⟩ := assign_eq_ok_iff.1 hr
    rw [hset]
    exact h.set htype
  · rwa [hsame]

end Store

/-! ## Whole histories -/

theorem mem_firstDeclarations_iff {name : String} {history : List Request} :
    name ∈ (firstDeclarations history).map Prod.fst ↔ ∃ r ∈ history, r.declares name := by
  induction history with
  | nil => simp [firstDeclarations]
  | cons r rest ih =>
    cases r with
    | assign name' v => simpa [firstDeclarations, Request.declares, Request.declared?] using ih
    | declare name' type place =>
      by_cases hname : name' = name
      · simp [firstDeclarations, Request.declares, Request.declared?, hname]
      · have hne : ¬name = name' := fun h ↦ hname h.symm
        simpa [firstDeclarations, Request.declares, Request.declared?, hname, hne] using ih

/-- The first declaration of a name is found among the first declarations. -/
theorem find?_firstDeclarations (name : String) (history : List Request) :
    ((firstDeclarations history).find? fun x ↦ x.1 == name).map Prod.snd =
      declaration? name history := by
  induction history with
  | nil => rfl
  | cons r rest ih =>
    cases r with
    | assign name' v =>
      simpa [firstDeclarations, declaration?, Request.declares, Request.declared?] using ih
    | declare name' type place =>
      by_cases hname : name' = name
      · simp [firstDeclarations, declaration?, Request.declares, Request.declared?, hname]
      · have hrest : ((firstDeclarations rest).filter fun x ↦ x.1 != name').find?
            (fun x ↦ x.1 == name) = (firstDeclarations rest).find? fun x ↦ x.1 == name := by
          rw [List.find?_filter]
          congr 1
          funext x
          have hne : ¬name = name' := fun h ↦ hname h.symm
          by_cases hx : x.1 = name
          · simp [hx, hne]
          · simp [hx]
        have hother : (Request.declare name' type place).declares name = false := by
          simpa [Request.declares, Request.declared?] using hname
        rw [firstDeclarations, List.find?_cons_of_neg (by simpa using hname), hrest, ih,
          declaration?, declaration?, List.find?_cons_of_neg (by simp [hother])]

namespace Store

variable {s : Store} {name : String} {history : List Request}

theorem WellFormed.run (h : s.WellFormed) (history : List Request) :
    (s.run history).WellFormed := by
  induction history generalizing s with
  | nil => exact h
  | cons r rest ih => exact ih (h.after r)

theorem type?_after (s : Store) (r : Request) (name : String) : (s.after r).type? name =
    (s.type? name).or ((r.declared?.filter fun x ↦ x.1 == name).map fun x ↦ x.2.1) := by
  rw [type?_eq_signature, signature_after, List.find?_append, Option.map_or, ← type?_eq_signature]
  cases r.declared? with
  | none => rfl
  | some x =>
    by_cases hx : x.1 = name
    · cases h : s.type? name <;> simp [Option.filter, hx, h]
    · cases h : (s.type? x.1).isNone <;> simp [Option.filter, hx, h]

/-- A history adds the first declarations of the names that are not taken. -/
theorem signature_run (s : Store) (history : List Request) : (s.run history).signature =
    s.signature ++ (firstDeclarations history).filter fun x ↦ (s.type? x.1).isNone := by
  induction history generalizing s with
  | nil => simp [run, firstDeclarations]
  | cons r rest ih =>
    change ((s.after r).run rest).signature = _
    rw [ih, signature_after, List.append_assoc]
    congr 1
    cases r with
    | assign name' v => simp [firstDeclarations, Request.declared?, type?_after]
    | declare name' type place =>
      rw [firstDeclarations, List.filter_cons, List.filter_filter]
      have hrest (x : String × DataType × Span) :
          ((s.after (.declare name' type place)).type? x.1).isNone =
            ((s.type? x.1).isNone && x.1 != name') := by
        rw [type?_after]
        by_cases hx : x.1 = name'
        · cases s.type? x.1 <;> simp [Request.declared?, Option.filter, hx]
        · have hne : ¬name' = x.1 := fun h ↦ hx h.symm
          cases s.type? x.1 <;> simp [Request.declared?, Option.filter, hx, hne]
      simp only [hrest]
      cases h : s.type? name' with
      | none => simp [Request.declared?, Option.filter, h]
      | some type' => simp [Request.declared?, Option.filter, h]

/-- A variable that is there has the value that the history gives it last, or else the one that it
had. -/
theorem value?_run_of_declared {type : DataType} (h : s.type? name = some type)
    (history : List Request) : (s.run history).value? name =
      (history.filterMap (Request.value? name type)).getLast?.or (s.value? name) := by
  induction history generalizing s with
  | nil => rfl
  | cons r rest ih =>
    have hkept : (s.after r).type? name = some type := by rw [type?_after, h, Option.some_or]
    change ((s.after r).run rest).value? name = _
    rw [ih hkept, value?_after, h, Option.bind_some, List.filterMap_cons]
    cases r.value? name type with
    | none => rfl
    | some v =>
      rw [List.getLast?_cons]
      cases (rest.filterMap (Request.value? name type)).getLast? <;> rfl

/-- A variable that is not there gets its values once it is declared. -/
theorem value?_run_of_undeclared (h : s.type? name = none) (history : List Request) :
    (s.run history).value? name = lastValue name history := by
  induction history generalizing s with
  | nil => exact value?_of_type?_eq_none h
  | cons r rest ih =>
    change ((s.after r).run rest).value? name = _
    have hvalue : (s.after r).value? name = none := by
      rw [value?_after, h, Option.bind_none, Option.none_or, value?_of_type?_eq_none h]
    cases hr : r.declares name with
    | false =>
      have hstill : (s.after r).type? name = none := by
        rw [type?_after, h, Option.none_or, Option.map_eq_none_iff, Option.filter_eq_none_iff]
        intro x hx
        simpa [Request.declares, hx] using hr
      rw [ih hstill, lastValue, lastValue, List.dropWhile_cons_of_pos (by simp [hr])]
    | true =>
      cases r with
      | assign name' v => simp [Request.declares, Request.declared?] at hr
      | declare name' type place =>
        have hname : name' = name := by simpa [Request.declares, Request.declared?] using hr
        have hnow : (s.after (.declare name' type place)).type? name = some type := by
          rw [type?_after, h, Option.none_or]
          simp [Request.declared?, Option.filter, hname]
        rw [value?_run_of_declared hnow, hvalue, Option.or_none, lastValue,
          List.dropWhile_cons_of_neg (by simp [hr])]

/-! ## Variables with and without a value -/

theorem map_fst_symbols (s : Store) : s.symbols.map Prod.fst = s.declared.map Variable.name := by
  rw [symbols, List.map_map]
  rfl

/-- The names with a value are those of the variables that were assigned. -/
theorem map_fst_memory (s : Store) : s.memory.map Prod.fst =
    (s.declared.filter fun x ↦ x.value.isSome).map Variable.name := by
  rw [memory, List.map_filterMap, ← List.filterMap_eq_map, ← List.filterMap_eq_filter,
    List.filterMap_filterMap]
  congr 1
  funext x
  cases h : x.value <;> simp [Option.guard, h]

theorem map_fst_unassigned (s : Store) : s.unassigned.map Prod.fst =
    (s.declared.filter fun x ↦ x.value.isNone).map Variable.name := by
  rw [unassigned, List.map_filterMap, ← List.filterMap_eq_map, ← List.filterMap_eq_filter,
    List.filterMap_filterMap]
  congr 1
  funext x
  cases h : x.value <;> simp [Option.guard, h]

/-- A variable with a value is not one without, as no two have the same name. -/
theorem WellFormed.notMem_unassigned (h : s.WellFormed) (hname : name ∈ s.memory.map Prod.fst) :
    name ∉ s.unassigned.map Prod.fst := by
  intro hname'
  rw [map_fst_memory, List.mem_map] at hname
  rw [map_fst_unassigned, List.mem_map] at hname'
  obtain ⟨x, hx, rfl⟩ := hname
  obtain ⟨y, hy, hsame⟩ := hname'
  rw [List.mem_filter] at hx hy
  have hfind := (find?_eq_some_iff h).2 ⟨hy.1, hsame⟩
  rw [(find?_eq_some_iff h).2 ⟨hx.1, rfl⟩] at hfind
  rw [← Option.some.inj hfind, Option.isNone_iff_eq_none] at hy
  simp [hy.2] at hx

theorem mem_memory_or_unassigned (hname : name ∈ s.symbols.map Prod.fst) :
    name ∈ s.memory.map Prod.fst ∨ name ∈ s.unassigned.map Prod.fst := by
  rw [map_fst_symbols, List.mem_map] at hname
  obtain ⟨x, hx, rfl⟩ := hname
  rw [map_fst_memory, map_fst_unassigned]
  by_cases hv : x.value.isSome
  · exact .inl (List.mem_map_of_mem (List.mem_filter.2 ⟨hx, hv⟩))
  · exact .inr (List.mem_map_of_mem (List.mem_filter.2 ⟨hx, by simpa using hv⟩))

/-- A variable without a value is listed with its place. -/
theorem WellFormed.find?_of_mem_unassigned (h : s.WellFormed) {place : Span}
    (hname : (name, place) ∈ s.unassigned) : (s.find? name).map Variable.span = some place := by
  rw [unassigned, List.mem_filterMap] at hname
  obtain ⟨x, hx, hplace⟩ := hname
  split at hplace
  · cases hplace
    rw [(find?_eq_some_iff h).2 ⟨hx, rfl⟩]
    rfl
  · cases hplace

/-! ## The store of a history -/

theorem wellFormed_ofHistory (history : List Request) : (ofHistory history).WellFormed :=
  wellFormed_empty.run history

theorem signature_ofHistory (history : List Request) :
    (ofHistory history).signature = firstDeclarations history := by
  have hfresh : (firstDeclarations history).filter (fun x ↦ (empty.type? x.1).isNone) =
      firstDeclarations history := List.filter_eq_self.2 fun _ _ ↦ rfl
  rw [ofHistory, signature_run, hfresh]
  rfl

theorem find?_ofHistory (name : String) (history : List Request) :
    ((ofHistory history).find? name).map (fun x ↦ (x.type, x.span)) =
      declaration? name history := by
  rw [find?_eq_signature, signature_ofHistory, find?_firstDeclarations]

/-- A variable is found just if its name is declared in the history. -/
theorem exists_find?_ofHistory_iff : (∃ x, (ofHistory history).find? name = some x) ↔
    ∃ r ∈ history, r.declares name := by
  rw [← mem_firstDeclarations_iff, ← signature_ofHistory, signature, List.map_map, List.mem_map]
  constructor
  · rintro ⟨x, hx⟩
    exact ⟨x, find?_eq_some hx⟩
  · rintro ⟨x, hx, hname⟩
    exact ⟨x, (find?_eq_some_iff (wellFormed_ofHistory history)).2 ⟨hx, hname⟩⟩

theorem symbols_ofHistory (history : List Request) : (ofHistory history).symbols =
    (firstDeclarations history).map fun x ↦ (x.1, x.2.1) := by
  rw [symbols_eq_signature, signature_ofHistory]

end Store

/-! ## The environment of a history -/

namespace Environment

variable {e : Environment} {name : String} {history : List Request}

/-- A request that is refused leaves all collections as they were. -/
theorem after_of_refused {r : Request} {refusal : Refusal}
    (h : (respond r |>.run e).1 = .error refusal) : e.after r = e := by
  cases r with
  | declare name type place =>
    change ((declare name type place).run e).1.mapError _ = _ at h
    change ((declare name type place).run e).2 = e
    rw [run_declare] at h ⊢
    cases hname : e.symbol? name with
    | some first => rfl
    | none =>
      rw [hname] at h
      cases h
  | assign name v =>
    change ((assign name v).run e).1.mapError _ = _ at h
    change ((assign name v).run e).2 = e
    rw [run_assign] at h ⊢
    cases htype : (e.symbol? name).map Symbol.type with
    | none => rfl
    | some type =>
      by_cases hv : type = v.type
      · rw [htype] at h
        simp only [if_pos hv] at h
        cases h
      · simp only [if_neg hv]

/-- A request to an environment in step is the request to its store. -/
theorem InStep.after (h : e.InStep) (r : Request) :
    (e.after r).InStep ∧ (e.after r).store = e.store.after r := by
  cases r with
  | declare name type place =>
    change ((declare name type place).run e).2.InStep ∧
      ((declare name type place).run e).2.store = _
    rw [Store.after, Store.respond]
    rcases h.declare_cases name type place with ⟨x, hstore, hrun⟩ | ⟨e', hstore, hstep, hrun⟩
    · rw [hrun, hstore]
      exact ⟨h, rfl⟩
    · rw [hrun, hstore]
      exact ⟨hstep, rfl⟩
  | assign name v =>
    change ((assign name v).run e).2.InStep ∧ ((assign name v).run e).2.store = _
    rw [Store.after, Store.respond]
    rcases h.assign_cases name v with ⟨fault, hstore, hrun⟩ | ⟨e', hstore, hstep, hrun⟩
    · rw [hrun, hstore]
      exact ⟨h, rfl⟩
    · rw [hrun, hstore]
      exact ⟨hstep, rfl⟩

/-- So is a history of requests. -/
theorem InStep.run (h : e.InStep) (history : List Request) :
    (e.run history).InStep ∧ (e.run history).store = e.store.run history := by
  induction history generalizing e with
  | nil => exact ⟨h, rfl⟩
  | cons r rest ih =>
    obtain ⟨hstep, hstore⟩ := h.after r
    obtain ⟨hstep', hstore'⟩ := ih hstep
    refine ⟨hstep', ?_⟩
    change ((e.after r).run rest).store = (e.store.after r).run rest
    rw [hstore', hstore]

theorem inStep_ofHistory (history : List Request) : (ofHistory history).InStep :=
  (inStep_empty.run history).1

theorem store_ofHistory (history : List Request) :
    (ofHistory history).store = Store.ofHistory history := (inStep_empty.run history).2

theorem reflects_ofHistory (history : List Request) :
    (ofHistory history).Reflects history := by
  have hstep := inStep_ofHistory history
  have hwell := Store.wellFormed_ofHistory history
  have hsymbols : (ofHistory history).symbols = (Store.ofHistory history).symbols := by
    rw [← InStep.symbols_store, store_ofHistory]
  have hmemory : (ofHistory history).memory = (Store.ofHistory history).memory := by
    rw [← hstep.memory_store, store_ofHistory]
  have hunassigned : (ofHistory history).unassigned = (Store.ofHistory history).unassigned := by
    rw [← InStep.unassigned_store, store_ofHistory]
  have hvalue (name : String) :
      (ofHistory history).value? name = (Store.ofHistory history).value? name := by
    rw [← hstep.value?_store, store_ofHistory]
  constructor
  case symbols => rw [hsymbols, Store.symbols_ofHistory]
  case names =>
    intro name
    rw [← mem_firstDeclarations_iff, hsymbols, Store.symbols_ofHistory, List.map_map]
    rfl
  case nodup =>
    rw [hsymbols, Store.map_fst_symbols]
    exact hwell.nodup
  case order => exact hstep.order_eq
  case symbol? =>
    intro name
    rw [← Store.find?_ofHistory, ← store_ofHistory, ← hstep.map_symbol_find?_store, Option.map_map]
    rfl
  case value? =>
    intro name
    rw [hvalue]
    exact Store.value?_run_of_undeclared rfl history
  case typed => exact hstep.typed
  case memory =>
    intro name v
    rw [hmemory, hvalue]
    exact Store.mem_memory_iff hwell
  case assigned =>
    rw [hmemory, hsymbols, Store.map_fst_memory, Store.map_fst_symbols]
    exact List.filter_sublist.map _
  case unassigned =>
    rw [hunassigned, hsymbols, Store.map_fst_unassigned, Store.map_fst_symbols]
    exact List.filter_sublist.map _
  case disjoint =>
    intro name hname
    rw [hmemory] at hname
    rw [hunassigned]
    exact hwell.notMem_unassigned hname
  case split =>
    intro name hname
    rw [hsymbols] at hname
    rw [hmemory, hunassigned]
    exact Store.mem_memory_or_unassigned hname
  case places =>
    intro name place hname
    rw [hunassigned] at hname
    rw [← Store.find?_ofHistory, Option.map_map]
    exact hwell.find?_of_mem_unassigned hname

/-- A name has a symbol just if it is declared in the history. -/
theorem isSome_symbol?_ofHistory_iff :
    ((ofHistory history).symbol? name).isSome ↔ ∃ r ∈ history, r.declares name := by
  rw [← (inStep_ofHistory history).map_symbol_find?_store, store_ofHistory, Option.isSome_map,
    Option.isSome_iff_exists]
  exact Store.exists_find?_ofHistory_iff

theorem answers_ofHistory (history : List Request) :
    (ofHistory history).Answers history where
  redeclared name type place := by
    rw [← isSome_symbol?_ofHistory_iff, run_declare]
    cases (ofHistory history).symbol? name <;> simp
  first name type place first h := by
    rw [run_declare] at h
    rw [← (reflects_ofHistory history).symbol?]
    cases hsymbol : (ofHistory history).symbol? name with
    | none =>
      rw [hsymbol] at h
      cases h
    | some first' =>
      rw [hsymbol] at h
      cases h
      rfl
  undeclared name v := by
    rw [← isSome_symbol?_ofHistory_iff, run_assign]
    cases (ofHistory history).symbol? name with
    | none => simp
    | some x => by_cases htype : x.type = v.type <;> simp [htype]
  typeMismatch name v expected got := by
    have htype : ((ofHistory history).symbol? name).map Symbol.type =
        (declaration? name history).map Prod.fst := by
      rw [← (reflects_ofHistory history).symbol?, Option.map_map]
      rfl
    rw [run_assign, htype]
    cases (declaration? name history).map Prod.fst with
    | none => simp
    | some type =>
      by_cases htype : type = v.type
      · simp only [if_pos htype, reduceCtorEq, false_iff]
        rintro ⟨hexpected, rfl, hne⟩
        exact hne ((Option.some.inj hexpected).symm.trans htype)
      · simp only [if_neg htype, Except.error.injEq, AssignFault.typeMismatch.injEq,
          Option.some.injEq]
        constructor
        · rintro ⟨rfl, rfl⟩
          exact ⟨rfl, rfl, htype⟩
        · rintro ⟨rfl, rfl, -⟩
          exact ⟨rfl, rfl⟩

end Environment

/-- **An environment is its history.** Whatever is requested of a new environment, in any order and
granted or not, it holds what the history tells and answers the next request accordingly; and a
request that is refused leaves its symbols, its memory and its order exactly as they were. -/
theorem environment_eq_history (history : List Request) :
    (Environment.ofHistory history).Reflects history ∧
      (Environment.ofHistory history).Answers history ∧
      ∀ r refusal,
        (Environment.respond r |>.run (Environment.ofHistory history)).1 = .error refusal →
          Environment.ofHistory (history ++ [r]) = Environment.ofHistory history := by
  refine ⟨Environment.reflects_ofHistory history, Environment.answers_ofHistory history, ?_⟩
  intro r refusal h
  rw [Environment.ofHistory, Environment.run, List.foldl_append]
  exact Environment.after_of_refused h

end MiniPascal
