import Mathlib.Data.List.Basic

/-!
# A result that each step overwrites

A loop that keeps one return code and collects what its steps give. Each step replaces the code, so that
the last one decides.
-/

namespace ComSA

variable {α β ρ : Type*}

def collect (step : α → ρ × List β) (xs : List α) (s : ρ × List β) : ρ × List β :=
  xs.foldl (fun s x => ((step x).1, s.2 ++ (step x).2)) s

@[simp] theorem collect_nil (step : α → ρ × List β) (s : ρ × List β) : collect step [] s = s := rfl

theorem collect_append (step : α → ρ × List β) (xs ys : List α) (s : ρ × List β) :
    collect step (xs ++ ys) s = collect step ys (collect step xs s) := List.foldl_append

theorem collect_fst (step : α → ρ × List β) (xs : List α) (s : ρ × List β) :
    (collect step xs s).1 = (xs.map fun x => (step x).1).getLastD s.1 := by
  induction xs generalizing s with
  | nil => rfl
  | cons x xs ih =>
    rw [List.map_cons, List.getLastD_cons]
    exact ih _

theorem collect_snd (step : α → ρ × List β) (xs : List α) (s : ρ × List β) :
    (collect step xs s).2 = s.2 ++ xs.flatMap fun x => (step x).2 := by
  induction xs generalizing s with
  | nil => exact (List.append_nil _).symm
  | cons x xs ih =>
    rw [List.flatMap_cons, ← List.append_assoc]
    exact ih _

theorem getLastD_append (xs ys : List ρ) (r : ρ) : (xs ++ ys).getLastD r = ys.getLastD (xs.getLastD r) := by
  induction xs generalizing r with
  | nil => rfl
  | cons x xs ih =>
    rw [List.cons_append, List.getLastD_cons, List.getLastD_cons]
    exact ih x

/-- Steps that may leave the result as it was: the last one that does not decides. -/
theorem foldl_getD (f : α → Option ρ) (xs : List α) (r : ρ) :
    xs.foldl (fun r x => (f x).getD r) r = (xs.filterMap f).getLastD r := by
  induction xs generalizing r with
  | nil => rfl
  | cons x xs ih =>
    rw [List.foldl_cons, ih]
    cases hx : f x with
    | none => rw [List.filterMap_cons_none hx, Option.getD_none]
    | some y => rw [List.filterMap_cons_some hx, List.getLastD_cons, Option.getD_some]

theorem filterMap_only [DecidableEq α] {xs : List α} (hnodup : xs.Nodup) {a : α} (ha : a ∈ xs) (f : α → ρ) :
    (xs.filterMap fun x => if a = x then some (f x) else none) = [f a] := by
  induction xs with
  | nil => cases ha
  | cons x xs ih =>
    rw [List.nodup_cons] at hnodup
    rw [List.filterMap_cons]
    by_cases hax : a = x
    · subst hax
      have hrest : (xs.filterMap fun x => if a = x then some (f x) else none) = [] := by
        rw [List.filterMap_eq_nil_iff]
        intro y hy
        refine if_neg ?_
        rintro rfl
        exact hnodup.1 hy
      rw [if_pos rfl, hrest]
    · rw [if_neg hax]
      exact ih hnodup.2 ((List.mem_cons.mp ha).resolve_left hax)

end ComSA
