import Mathlib.Data.List.Basic

/-!
# Insertion into a sorted list

What a search for the place to insert at skips comes before, and what it does not reach comes after.
-/

namespace ComSA

variable {α : Type*}

/-- Where the list only ever leaves `p`, nothing after the elements in `p` is in it. -/
theorem not_of_mem_dropWhile {p : α → Bool} {l : List α} (h : l.Pairwise fun a b => p b = true → p a = true) :
    ∀ b ∈ l.dropWhile p, p b = false := by
  induction l with
  | nil => exact fun b hb => nomatch hb
  | cons a l ih =>
    obtain ⟨ha, hl⟩ := List.pairwise_cons.mp h
    intro b hb
    rw [List.dropWhile_cons] at hb
    split at hb <;> rename_i hp
    · exact ih hl b hb
    · rcases List.mem_cons.mp hb with rfl | hb
      · exact Bool.eq_false_iff.mpr hp
      · exact Bool.eq_false_iff.mpr fun hpb => hp (ha b hb hpb)

theorem pairwise_insert {R : α → α → Prop} {before after : List α} {t : α} (h : (before ++ after).Pairwise R)
    (hbefore : ∀ a ∈ before, R a t) (hafter : ∀ b ∈ after, R t b) : (before ++ t :: after).Pairwise R := by
  obtain ⟨h₁, h₂, h₁₂⟩ := List.pairwise_append.mp h
  refine List.pairwise_append.mpr ⟨h₁, List.pairwise_cons.mpr ⟨hafter, h₂⟩, fun a ha b hb => ?_⟩
  rcases List.mem_cons.mp hb with rfl | hb
  · exact hbefore a ha
  · exact h₁₂ a ha b hb

end ComSA
