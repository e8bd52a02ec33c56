/-!
# Boundaries in a list

Where the elements at the front of a list have a property and the others do not, the boundary
between them is found by halving. The search asks about the element in the middle and goes on with
the part that holds the boundary, so it takes a definite path through any list; on a list with such
a boundary it counts the elements in front of it (`boundary_eq_length_takeWhile`).
-/

namespace MiniPascal

/-- The place where a property ends, found by halving. -/
def boundary {α : Type} (p : α → Bool) : List α → Nat
  | [] => 0
  | [a] => if p a then 1 else 0
  | a :: b :: rest =>
    let half := (rest.length + 2) / 2
    let upper := (a :: b :: rest).drop half
    if upper.head?.any p then half + boundary p upper
    else boundary p ((a :: b :: rest).take (rest.length + 2 - half))
termination_by l => l.length
decreasing_by
  all_goals simp only [List.length_drop, List.length_take, List.length_cons]
  all_goals omega

/-- What follows elements without a property adds nothing to those taken for having it. -/
theorem takeWhile_append_of_forall_not {α : Type} {p : α → Bool} (l : List α) {m : List α}
    (h : ∀ a ∈ m, ¬p a) : (l ++ m).takeWhile p = l.takeWhile p := by
  induction l with
  | nil =>
    cases m with
    | nil => rfl
    | cons a m => simp [h a (by simp)]
  | cons a l ih => by_cases ha : p a <;> simp [ha, ih]

theorem boundary_eq_length_takeWhile {α : Type} {p : α → Bool} {l : List α}
    (h : l.Pairwise fun a b ↦ p b → p a) : boundary p l = (l.takeWhile p).length := by
  fun_induction boundary p l with
  | case1 => rfl
  | case2 a ha => simp [ha]
  | case3 a ha => simp [ha]
  | case4 a b rest half upper hp ih =>
    have hl : (a :: b :: rest).take half ++ upper = a :: b :: rest := List.take_append_drop ..
    rw [← hl, List.pairwise_append] at h
    obtain ⟨m, hm, hpm⟩ := (Option.any_eq_true _ _).1 hp
    have hlow : ∀ x ∈ (a :: b :: rest).take half, p x := fun x hx ↦
      h.2.2 x hx m (List.mem_of_mem_head? (Option.mem_def.2 hm)) hpm
    have hlen : ((a :: b :: rest).take half).length = half := by
      simp only [List.length_take, List.length_cons]
      omega
    rw [ih h.2.1, ← hl, List.takeWhile_append_of_pos hlow, List.length_append, hlen]
  | case5 a b rest half upper hp ih =>
    have hup : ∀ x ∈ upper, ¬p x := by
      intro x hx hpx
      refine hp ?_
      cases hu : upper with
      | nil => simp [hu] at hx
      | cons m ms =>
        have hs : upper.Pairwise fun a b ↦ p b → p a := h.sublist (List.drop_sublist ..)
        rw [hu] at hs
        rw [hu, List.mem_cons] at hx
        rcases hx with rfl | hx
        · simpa using hpx
        · simpa using List.rel_of_pairwise_cons hs hx hpx
    have hcut : ∀ x ∈ (a :: b :: rest).drop (rest.length + 2 - half), ¬p x := fun x hx ↦
      hup x ((List.drop_sublist_drop_left _ (by omega)).subset hx)
    rw [ih (h.sublist (List.take_sublist ..)), ← takeWhile_append_of_forall_not _ hcut,
      List.take_append_drop]

end MiniPascal
