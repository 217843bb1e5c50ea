import Mathlib.Data.Set.Finite.Basic
import Mathlib.Logic.Relation

/-!
# Graphs with finitely many edges

Where nothing comes back to where it started, going along the edges ends.
-/

namespace ComSA

open Relation

variable {α : Type*} {R : α → α → Prop} {S : Set α}

theorem acc_of_mem (hS : S.Finite) (hacyclic : ∀ a, ¬ TransGen R a a)
    (hout : ∀ a ∈ S, ∀ b, R b a → b ∉ S → Acc R b) : ∀ a ∈ S, Acc R a := by
  have : Finite S := hS
  have : IsTrans S fun x y => TransGen R x.1 y.1 := ⟨fun _ _ _ => TransGen.trans⟩
  have : Std.Irrefl fun x y : S => TransGen R x.1 y.1 := ⟨fun x => hacyclic x.1⟩
  have hwf : WellFounded fun x y : S => TransGen R x.1 y.1 := Finite.wellFounded_of_trans_of_irrefl _
  intro a ha
  refine hwf.induction (C := fun x => Acc R x.1) ⟨a, ha⟩ fun x ih => Acc.intro _ fun b hb => ?_
  by_cases hbS : b ∈ S
  · exact ih ⟨b, hbS⟩ (.single hb)
  · exact hout x.1 x.2 b hb hbS

theorem wellFounded_of_finite_right (hS : S.Finite) (hacyclic : ∀ a, ¬ TransGen R a a)
    (hmem : ∀ a b, R a b → b ∈ S) : WellFounded R := by
  have hout : ∀ b, b ∉ S → Acc R b := fun b hb => Acc.intro _ fun c hc => absurd (hmem c b hc) hb
  refine ⟨fun a => ?_⟩
  by_cases ha : a ∈ S
  · exact acc_of_mem hS hacyclic (fun _ _ b _ hb => hout b hb) a ha
  · exact hout a ha

theorem wellFounded_of_finite_left (hS : S.Finite) (hacyclic : ∀ a, ¬ TransGen R a a)
    (hmem : ∀ a b, R a b → a ∈ S) : WellFounded R :=
  ⟨fun a => Acc.intro _ fun b hb =>
    acc_of_mem hS hacyclic (fun x _ c hc hcS => absurd (hmem c x hc) hcS) b (hmem b a hb)⟩

end ComSA
