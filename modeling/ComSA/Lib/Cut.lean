import Mathlib.Data.List.TakeWhile

/-!
# Lists cut at an element
-/

namespace ComSA

variable {α : Type*} [DecidableEq α] {c : α}

theorem cut_first {a b : List α} (h : c ∉ a) :
    (a ++ c :: b).takeWhile (· ≠ c) = a ∧ (a ++ c :: b).dropWhile (· ≠ c) = c :: b := by
  have hall : ∀ x ∈ a, decide (x ≠ c) = true := by
    intro x hx
    rw [decide_eq_true_iff]
    rintro rfl
    exact h hx
  rw [List.takeWhile_append_of_pos hall, List.dropWhile_append_of_pos hall]
  simp

theorem takeWhile_of_notMem {s : List α} (h : c ∉ s) : s.takeWhile (· ≠ c) = s := by
  rw [List.takeWhile_eq_self_iff]
  intro x hx
  simp only [decide_eq_true_eq]
  rintro rfl
  exact h hx

theorem dropWhile_of_notMem {s : List α} (h : c ∉ s) : s.dropWhile (· ≠ c) = [] := by
  have happend := List.takeWhile_append_dropWhile (p := (· ≠ c)) (l := s)
  rw [takeWhile_of_notMem h] at happend
  exact List.append_right_eq_self.mp happend

theorem notMem_takeWhile (c : α) (s : List α) : c ∉ s.takeWhile (· ≠ c) := by
  intro hmem
  have hne := List.mem_takeWhile_imp hmem
  simp at hne

theorem takeWhile_append_cons (a b : List α) : (a ++ c :: b).takeWhile (· ≠ c) = a.takeWhile (· ≠ c) := by
  induction a with
  | nil => simp
  | cons x a ih => rw [List.cons_append, List.takeWhile_cons, List.takeWhile_cons, ih]

theorem cut_last {a b : List α} (h : c ∉ b) :
    ((a ++ c :: b).reverse.takeWhile (· ≠ c)).reverse = b ∧
      ((a ++ c :: b).reverse.dropWhile (· ≠ c)).tail.reverse = a := by
  have hrev : (a ++ c :: b).reverse = b.reverse ++ c :: a.reverse := by simp
  obtain ⟨htake, hdrop⟩ := cut_first (b := a.reverse) fun hmem => h (List.mem_reverse.mp hmem)
  rw [hrev, htake, hdrop]
  simp

/-- Of two words that end at the element, one is at the front of the other only where they are the same. -/
theorem eq_of_prefix {a a' b : List α} (ha : c ∉ a) (ha' : c ∉ a') (h : a ++ [c] <+: a' ++ c :: b) : a = a' := by
  obtain ⟨rest, h⟩ := h
  rw [List.append_assoc, List.singleton_append] at h
  rw [← (cut_first (b := rest) ha).1, h, (cut_first ha').1]

omit [DecidableEq α] in
theorem exists_last {s : List α} (h : c ∈ s) : ∃ a b, s = a ++ c :: b ∧ c ∉ b := by
  obtain ⟨b, a, hs, hb⟩ := List.eq_append_cons_of_mem (List.mem_reverse.mpr h)
  refine ⟨a.reverse, b.reverse, ?_, fun hmem => hb (List.mem_reverse.mp hmem)⟩
  rw [← List.reverse_reverse s, hs]
  simp

end ComSA
