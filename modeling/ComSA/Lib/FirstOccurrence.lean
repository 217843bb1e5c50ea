import Mathlib.Data.List.Basic

/-!
# The first occurrence of a list in another one
-/

namespace ComSA

variable {α : Type*} [DecidableEq α] {t s u : List α}

def fromFirst (t : List α) : List α → Option (List α)
  | [] => if t = [] then some [] else none
  | c :: s => if t.isPrefixOf (c :: s) then some (c :: s) else fromFirst t s

theorem fromFirst_of_isPrefix (h : t <+: s) : fromFirst t s = some s := by
  cases s with
  | nil => exact if_pos (List.prefix_nil.mp h)
  | cons c s => exact if_pos (List.isPrefixOf_iff_prefix.mpr h)

theorem prefix_of_fromFirst (h : fromFirst t s = some u) : t <+: u := by
  induction s with
  | nil =>
    rw [fromFirst] at h
    split at h <;> rename_i ht
    · rw [ht]
      exact List.nil_prefix
    · cases h
  | cons c s ih =>
    rw [fromFirst] at h
    split at h <;> rename_i ht
    · obtain rfl := Option.some.inj h
      exact List.isPrefixOf_iff_prefix.mp ht
    · exact ih h

theorem length_le_of_fromFirst (h : fromFirst t s = some u) : t.length ≤ s.length := by
  induction s with
  | nil =>
    have hhead := prefix_of_fromFirst h
    rw [fromFirst] at h
    split at h
    · obtain rfl := Option.some.inj h
      exact hhead.length_le
    · cases h
  | cons c s ih =>
    rw [fromFirst] at h
    split at h <;> rename_i ht
    · exact (List.isPrefixOf_iff_prefix.mp ht).length_le
    · exact Nat.le_succ_of_le (ih h)

theorem fromFirst_append_of_some (h : fromFirst t s = some u) (x : List α) :
    fromFirst t (s ++ x) = some (u ++ x) := by
  induction s with
  | nil =>
    have hhead := prefix_of_fromFirst h
    rw [fromFirst] at h
    split at h
    · obtain rfl := Option.some.inj h
      exact fromFirst_of_isPrefix (hhead.trans (List.prefix_append [] x))
    · cases h
  | cons c s ih =>
    rw [fromFirst] at h
    rw [List.cons_append, fromFirst]
    split at h <;> rename_i ht
    · obtain rfl := Option.some.inj h
      rw [if_pos]
      · rfl
      · exact List.isPrefixOf_iff_prefix.mpr ((List.isPrefixOf_iff_prefix.mp ht).trans (List.prefix_append _ x))
    · rw [if_neg, ih h]
      -- an occurrence that begins here would lie in the list itself
      intro hhead
      rw [List.isPrefixOf_iff_prefix, ← List.cons_append] at hhead
      exact ht (List.isPrefixOf_iff_prefix.mpr (List.prefix_of_prefix_length_le hhead
        (List.prefix_append (c :: s) x) (Nat.le_succ_of_le (length_le_of_fromFirst h))))

theorem fromFirst_append_cons {c : α} (hc : c ∉ t) (ht : t ≠ []) (h : fromFirst t s = none) (x : List α) :
    fromFirst t (s ++ c :: x) = fromFirst t x := by
  induction s with
  | nil =>
    rw [List.nil_append, fromFirst, if_neg]
    intro hhead
    obtain ⟨b, t, rfl⟩ := List.exists_cons_of_ne_nil ht
    rw [List.isPrefixOf_iff_prefix, List.cons_prefix_cons] at hhead
    exact hc (hhead.1 ▸ List.mem_cons_self)
  | cons b s ih =>
    rw [fromFirst] at h
    split at h <;> rename_i hno
    · cases h
    · rw [List.cons_append, fromFirst, if_neg, ih h]
      intro hhead
      rw [List.isPrefixOf_iff_prefix, ← List.cons_append] at hhead
      rcases Nat.lt_or_ge (b :: s).length t.length with hlong | hshort
      · have hin : (b :: s) ++ [c] <+: t := List.prefix_of_prefix_length_le
          (List.prefix_append_right_inj _ |>.mpr ⟨x, rfl⟩) hhead (by simp at hlong ⊢; omega)
        exact hc (hin.subset (List.mem_append_right _ (List.mem_singleton_self c)))
      · exact hno (List.isPrefixOf_iff_prefix.mpr
          (List.prefix_of_prefix_length_le hhead (List.prefix_append _ _) hshort))

theorem suffix_of_fromFirst (h : fromFirst t s = some u) : u <:+ s := by
  induction s with
  | nil =>
    rw [fromFirst] at h
    split at h <;> cases h
    exact List.suffix_rfl
  | cons c s ih =>
    rw [fromFirst] at h
    split at h
    · cases h
      exact List.suffix_rfl
    · exact (ih h).trans (List.suffix_cons c s)

theorem fromFirst_isSome_iff : (fromFirst t s).isSome = true ↔ t <:+: s := by
  constructor
  · intro h
    obtain ⟨u, hu⟩ := Option.isSome_iff_exists.mp h
    exact (prefix_of_fromFirst hu).isInfix.trans (suffix_of_fromFirst hu).isInfix
  · intro h
    induction s with
    | nil => rw [fromFirst, if_pos (List.infix_nil.mp h), Option.isSome_some]
    | cons c s ih =>
      rw [fromFirst]
      split <;> rename_i hhead
      · rfl
      · refine ih ((List.infix_cons_iff.mp h).resolve_left fun hprefix => hhead ?_)
        exact List.isPrefixOf_iff_prefix.mpr hprefix

/-! ## Replacing it -/

def replaceFirst (t new s : List α) : List α :=
  match fromFirst t s with
  | some u => s.take (s.length - u.length) ++ new ++ u.drop t.length
  | none => s

theorem replaceFirst_of_infix (h : t <:+: s) (new : List α) :
    ∃ a b, s = a ++ t ++ b ∧ replaceFirst t new s = a ++ new ++ b := by
  obtain ⟨u, hu⟩ := Option.isSome_iff_exists.mp (fromFirst_isSome_iff.mpr h)
  obtain ⟨b, rfl⟩ := prefix_of_fromFirst hu
  obtain ⟨a, rfl⟩ := suffix_of_fromFirst hu
  refine ⟨a, b, by simp, ?_⟩
  unfold replaceFirst
  rw [hu]
  simp

theorem replaceFirst_of_absent (h : ¬ t <:+: s) (new : List α) : replaceFirst t new s = s := by
  have hnone : fromFirst t s = none := by
    rw [← Option.not_isSome_iff_eq_none, fromFirst_isSome_iff]
    exact h
  unfold replaceFirst
  rw [hnone]

theorem length_replaceFirst {new : List α} (hlonger : t.length < new.length) (s : List α) :
    s.length ≤ (replaceFirst t new s).length ∧ (t <:+: s → s.length < (replaceFirst t new s).length) := by
  by_cases h : t <:+: s
  · obtain ⟨a, b, hs, hreplaced⟩ := replaceFirst_of_infix h new
    rw [hreplaced]
    have hlength : s.length = (a ++ t ++ b).length := congrArg List.length hs
    simp only [List.length_append] at hlength ⊢
    exact ⟨by omega, fun _ => by omega⟩
  · rw [replaceFirst_of_absent h]
    exact ⟨Nat.le_refl _, fun hin => absurd hin h⟩

theorem mem_replaceFirst {new : List α} {x : α} (h : x ∈ replaceFirst t new s) : x ∈ s ∨ x ∈ new := by
  by_cases hin : t <:+: s
  · obtain ⟨a, b, hs, hreplaced⟩ := replaceFirst_of_infix hin new
    rw [hreplaced] at h
    rw [hs]
    simp only [List.mem_append] at h ⊢
    grind
  · rw [replaceFirst_of_absent hin] at h
    exact .inl h

end ComSA
