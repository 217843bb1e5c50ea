import Mathlib.Data.Nat.Basic

/-!
# Numbers as texts
-/

namespace ComSA

theorem toList_toString (n : Nat) : (toString n).toList = Nat.toDigits 10 n := by
  rw [toString, instToStringNat, Nat.toList_repr]

theorem toString_injective {m n : Nat} (h : toString m = toString n) : m = n := by
  rw [← Nat.ofDigitChars_toDigits (b := 10) (n := m) (by decide) (by decide), ← toList_toString, h,
    toList_toString, Nat.ofDigitChars_toDigits (by decide) (by decide)]

theorem isDigit_of_mem_toString {n : Nat} {c : Char} (h : c ∈ (toString n).toList) : c.isDigit = true := by
  rw [toList_toString] at h
  exact Nat.isDigit_of_mem_toDigits (by decide) (by decide) h

theorem head_toDigits {n : Nat} (hn : n ≠ 0) : (Nat.toDigits 10 n).head? ≠ some '0' := by
  induction n using Nat.strongRecOn with
  | ind n ih =>
    rw [Nat.toDigits_eq_if (by decide)]
    split <;> rename_i hten
    · intro h
      exact hn (by simpa using h)
    · have hdiv := ih (n / 10) (by omega) (by omega)
      obtain ⟨c, hc⟩ := Option.ne_none_iff_exists'.mp (mt List.head?_eq_none_iff.mp (Nat.toDigits_ne_nil (b := 10)
        (n := n / 10)))
      rw [List.head?_append, hc, Option.some_or, ← hc]
      exact hdiv

end ComSA
