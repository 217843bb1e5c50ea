import Mathlib.Data.List.Nodup

/-!
# Walks that are taken up again

A walk over a list remembers the last element it has given and goes on behind it. Elements
may be taken out of the list in between.
-/

namespace ComSA

variable {α : Type*} [DecidableEq α]

def after (a : α) : List α → List α
  | [] => []
  | x :: xs => if x = a then xs else after a xs

def rest : Option α → List α → List α
  | none, l => l
  | some a, l => after a l

theorem after_cons (a x : α) (xs : List α) : after a (x :: xs) = if x = a then xs else after a xs := rfl

theorem rest_some (a : α) (l : List α) : rest (some a) l = after a l := rfl

theorem after_of_not_mem {a : α} {l : List α} (h : a ∉ l) : after a l = [] := by
  induction l with
  | nil => rfl
  | cons x xs ih =>
    rw [List.mem_cons, not_or] at h
    rw [after_cons, if_neg (Ne.symm h.1), ih h.2]

theorem after_append_cons {a : α} {before behind : List α} (h : a ∉ before) :
    after a (before ++ a :: behind) = behind := by
  induction before with
  | nil => rw [List.nil_append, after_cons, if_pos rfl]
  | cons x xs ih =>
    rw [List.mem_cons, not_or] at h
    rw [List.cons_append, after_cons, if_neg (Ne.symm h.1), ih h.2]

theorem after_suffix (a : α) (l : List α) : after a l <:+ l := by
  induction l with
  | nil => exact List.suffix_rfl
  | cons x xs ih =>
    rw [after_cons]
    split
    · exact List.suffix_cons x xs
    · exact ih.trans (List.suffix_cons x xs)

theorem rest_suffix (last : Option α) (l : List α) : rest last l <:+ l := by
  cases last with
  | none => exact List.suffix_rfl
  | some a => exact after_suffix a l

/-- The walk gives the first element that it looks for, and what it looks for behind that one is left. -/
theorem filter_rest_of_find {p : α → Bool} {last : Option α} {l : List α} {x : α} (hnodup : l.Nodup)
    (hfind : (rest last l).find? p = some x) :
    (rest last l).filter p = x :: (rest (some x) l).filter p := by
  obtain ⟨passed, hl⟩ := rest_suffix last l
  obtain ⟨hx, before, behind, hrest, hbefore⟩ := List.find?_eq_some_iff_append.mp hfind
  have hnone : before.filter p = [] := by
    rw [List.filter_eq_nil_iff]
    intro b hb
    have := hbefore b hb
    simpa using this
  rw [hrest] at hl
  have hnot : x ∉ passed ++ before := by
    rw [← hl, ← List.append_assoc, List.nodup_append] at hnodup
    intro hmem
    exact hnodup.2.2 x hmem x List.mem_cons_self rfl
  have hafter : rest (some x) l = behind := by
    rw [← hl, ← List.append_assoc]
    exact after_append_cons hnot
  rw [hafter, hrest, List.filter_append, hnone, List.nil_append, List.filter_cons, if_pos hx]

/-- Taking an element out that the walk has not got to last changes nothing else of what is left. -/
theorem rest_filter_ne {a : α} {last : Option α} (h : last ≠ some a) (l : List α) :
    rest last (l.filter (· ≠ a)) = (rest last l).filter (· ≠ a) := by
  cases last with
  | none => rfl
  | some b =>
    have hba : b ≠ a := fun heq => h (by rw [heq])
    change after b (l.filter (· ≠ a)) = (after b l).filter (· ≠ a)
    induction l with
    | nil => rfl
    | cons x xs ih =>
      by_cases hxa : x = a
      · subst hxa
        rw [List.filter_cons_of_neg (by simp), ih, after_cons, if_neg (Ne.symm hba)]
      · rw [List.filter_cons_of_pos (by simpa using hxa), after_cons, after_cons]
        split
        · rfl
        · exact ih

end ComSA
