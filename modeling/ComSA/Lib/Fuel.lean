import Mathlib.Data.List.Basic

/-!
# Recursion on fuel

A function that may not end gets fuel, and is `none` where that runs out. `Enough` is
what holds from some amount of fuel on.
-/

namespace ComSA

def Enough (P : Nat → Prop) : Prop := ∃ n, ∀ m, n ≤ m → P m

namespace Enough

variable {P Q : Nat → Prop}

theorem of_forall (h : ∀ n, P n) : Enough P := ⟨0, fun m _ => h m⟩

theorem mono (h : Enough P) (hPQ : ∀ n, P n → Q n) : Enough Q := by
  obtain ⟨n, hn⟩ := h
  exact ⟨n, fun m hm => hPQ m (hn m hm)⟩

theorem and (hP : Enough P) (hQ : Enough Q) : Enough fun n => P n ∧ Q n := by
  obtain ⟨n, hn⟩ := hP
  obtain ⟨m, hm⟩ := hQ
  exact ⟨max n m, fun l hl => ⟨hn l (by omega), hm l (by omega)⟩⟩

theorem succ (h : Enough fun n => P (n + 1)) : Enough P := by
  obtain ⟨n, hn⟩ := h
  refine ⟨n + 1, fun m hm => ?_⟩
  obtain ⟨m, rfl⟩ := Nat.exists_eq_succ_of_ne_zero (by omega : m ≠ 0)
  exact hn m (by omega)

theorem shift (h : Enough P) : Enough fun n => P (n + 1) := by
  obtain ⟨n, hn⟩ := h
  exact ⟨n, fun m hm => hn (m + 1) (by omega)⟩

theorem all_of_mem {α : Type*} {R : α → Nat → Prop} {l : List α} (h : ∀ a ∈ l, Enough (R a)) :
    Enough fun n => ∀ a ∈ l, R a n := by
  induction l with
  | nil => exact of_forall fun _ _ ha => absurd ha List.not_mem_nil
  | cons a l ih =>
    have htail := ih fun b hb => h b (List.mem_cons_of_mem a hb)
    refine ((h a List.mem_cons_self).and htail).mono fun n hn b hb => ?_
    rcases List.mem_cons.mp hb with rfl | hb
    · exact hn.1
    · exact hn.2 b hb

end Enough

end ComSA
