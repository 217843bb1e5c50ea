import Mathlib.Data.Set.Image
import ComSA.Motransaction.DeletedPoints

/-!
# Runs on the list of deleted objects

The set of deletion points the calls ask for, and in which runs the map answers as
that set does.
-/

namespace ComSA

open DeletedObjects

inductive DeletedCall where
  | insert (dn : Dn) (immName : String)
  | remove (dn : Dn)

namespace DeletedCall

def run (map : DeletedMap) : DeletedCall → DeletedMap
  | insert dn immName => DeletedObjects.insert dn.parts immName map
  | remove dn => DeletedObjects.remove dn.parts map

def points (D : Set Dn) : DeletedCall → Set Dn
  | insert dn _ => Insert.insert dn D
  | remove dn => D \ {dn}

def step (s : DeletedMap × Set Dn) (c : DeletedCall) : DeletedMap × Set Dn :=
  (c.run s.1, c.points s.2)

end DeletedCall

/-- A name is deleted exactly when it or a name above it is in the set. -/
def Refines (s : DeletedMap × Set Dn) : Prop :=
  ∀ x : Dn, isDeleted x.parts s.1 = true ↔ ∃ d ∈ s.2, d.parts <+: x.parts

def paths (D : Set Dn) : Set (List String) := Dn.parts '' D

theorem Dn.parts_injective : Function.Injective Dn.parts := by
  rintro ⟨p, _⟩ ⟨q, _⟩ rfl
  rfl

theorem paths_insert (dn : Dn) (D : Set Dn) :
    paths (Insert.insert dn D) = Insert.insert dn.parts (paths D) := Set.image_insert_eq

theorem paths_diff (dn : Dn) (D : Set Dn) : paths (D \ {dn}) = paths D \ {dn.parts} := by
  rw [paths, Set.image_sdiff Dn.parts_injective, Set.image_singleton]
  rfl

theorem covers_paths (D : Set Dn) (x : List String) :
    Covers (paths D) x ↔ ∃ d ∈ D, d.parts <+: x := by
  simp [Covers, paths]

theorem refines_iff (s : DeletedMap × Set Dn) :
    Refines s ↔ ∀ x, Covers (active s.1) x ↔ Covers (paths s.2) x := by
  constructor
  · intro h x
    rcases x with _ | ⟨y, ys⟩
    · constructor
      · rintro ⟨p, hp, hpn⟩
        exact absurd (List.prefix_nil.mp hpn) (ne_nil_of_mem_marked (active_subset_marked _ hp))
      · rw [covers_paths]
        rintro ⟨d, _, hdn⟩
        exact absurd (List.prefix_nil.mp hdn) d.nonempty
    · rw [← isDeleted_iff, covers_paths]
      exact h ⟨y :: ys, by simp⟩
  · intro h x
    rw [isDeleted_iff, h, covers_paths]

/-- The calls that do not go wrong. An insertion does, when the name is an active point of two or
more parts and none is above it. The removal of such a point does, when the marks below it do not
delete what the points of the set below it delete. -/
def Safe (s : DeletedMap × Set Dn) : DeletedCall → Prop
  | .insert dn _ => ¬ (Topmost (active s.1) dn.parts ∧ 2 ≤ dn.parts.length)
  | .remove dn => Topmost (active s.1) dn.parts →
      ∀ x, Covers (below (marked s.1) dn.parts) x ↔ Covers (below (paths s.2) dn.parts) x

theorem refines_insert_iff {s : DeletedMap × Set Dn} (h : Refines s) (dn : Dn) (immName : String) :
    Refines (DeletedCall.step s (.insert dn immName)) ↔ Safe s (.insert dn immName) := by
  rw [refines_iff] at h ⊢
  constructor
  · rintro h' ⟨htop, hlen⟩
    refine not_covers_insert_again htop hlen immName ((h' dn.parts).mpr ?_)
    rw [DeletedCall.step, DeletedCall.points, paths_insert]
    exact covers_of_mem (Set.mem_insert _ _)
  · intro hsafe x
    rw [DeletedCall.step, DeletedCall.run, DeletedCall.points, paths_insert, covers_insert,
      covers_insert_of_ok dn.nonempty hsafe, h]

theorem refines_remove_iff {s : DeletedMap × Set Dn} (h : Refines s) (dn : Dn) :
    Refines (DeletedCall.step s (.remove dn)) ↔ Safe s (.remove dn) := by
  rw [refines_iff] at h ⊢
  rw [DeletedCall.step, DeletedCall.run, DeletedCall.points, paths_diff]
  dsimp only
  by_cases htop : Topmost (active s.1) dn.parts
  · have htopD : Topmost (paths s.2) dn.parts := htop.of_covers_iff h
    have hbelow : ∀ x, dn.parts <+: x →
        ((Covers (active (remove dn.parts s.1)) x ↔ Covers (paths s.2 \ {dn.parts}) x) ↔
          (Covers (below (marked s.1) dn.parts) x ↔ Covers (below (paths s.2) dn.parts) x)) := by
      intro x hx
      rw [covers_remove_topmost htop hx, covers_diff_topmost htopD hx]
    constructor
    · intro h' _ x
      by_cases hx : dn.parts <+: x
      · exact (hbelow x hx).mp (h' x)
      · exact ⟨fun hc => absurd hc.below_isPrefix.1 hx, fun hc => absurd hc.below_isPrefix.1 hx⟩
    · intro hsafe x
      by_cases hx : dn.parts <+: x
      · exact (hbelow x hx).mpr (hsafe htop x)
      · rw [covers_remove_of_not_isPrefix hx, covers_diff_of_not_isPrefix hx, h]
  · -- Either way another point is above the name, or nothing was there to remove.
    refine ⟨fun _ ht => absurd ht htop, fun _ x => ?_⟩
    by_cases hcov : Covers (paths s.2) dn.parts
    · obtain ⟨q, hq, hqp⟩ := hcov.exists_topmost
      have hqa : Topmost (active s.1) q := hq.of_covers_iff fun x => (h x).symm
      have hne : q ≠ dn.parts := by
        rintro rfl
        exact htop hqa
      rw [covers_remove_of_above hqa.1 hqp hne, covers_diff_of_above hq.1 hqp hne, h]
    · have hna : dn.parts ∉ active s.1 := fun ha => hcov ((h _).mp (covers_of_mem ha))
      rw [remove_of_not_active hna, covers_diff_of_not_mem (fun hm => hcov (covers_of_mem hm)), h]

theorem refines_nil : Refines (.nil, ∅) := by
  intro x
  simp [isDeleted_iff, Covers, mem_active]

/-- The map answers as the set in every state of a run exactly when no call of it goes wrong. -/
theorem refines_throughout_iff (calls : List DeletedCall) :
    Throughout DeletedCall.step Refines (.nil, ∅) calls ↔
      Along DeletedCall.step Safe (.nil, ∅) calls :=
  throughout_iff_along
    (fun _ c h => match c with
      | .insert dn immName => refines_insert_iff h dn immName
      | .remove dn => refines_remove_iff h dn)
    refines_nil calls

/-- `A=1,B=2` deleted twice is not deleted. -/
theorem not_refines_of_insert_twice :
    ¬ Throughout DeletedCall.step Refines (.nil, ∅)
      [.insert ⟨["A=1", "B=2"], by simp⟩ "b=2,a=1", .insert ⟨["A=1", "B=2"], by simp⟩ "b=2,a=1"] := by
  intro h
  have hlast := (h.last ⟨["A=1", "B=2"], by simp⟩).mpr
    ⟨⟨["A=1", "B=2"], by simp⟩, Or.inl rfl, List.prefix_rfl⟩
  revert hlast
  decide

/-! ## One insertion -/

/-- An insertion deletes the inserted name and all below it, and nothing that was deleted comes back. -/
def DeletesBelow (map : DeletedMap) (dn : Dn) (immName : String) : Prop :=
  ∀ x : Dn, isDeleted x.parts (DeletedObjects.insert dn.parts immName map) = true ↔
    isDeleted x.parts map = true ∨ dn.parts <+: x.parts

/-- In every state that insertions and removals lead to, an insertion deletes as it should unless the name
is an active point of two or more parts with none above. -/
theorem deletesBelow_iff (calls : List DeletedCall) (dn : Dn) (immName : String) :
    DeletesBelow (calls.foldl DeletedCall.run .nil) dn immName ↔
      ¬ (Topmost (active (calls.foldl DeletedCall.run .nil)) dn.parts ∧ 2 ≤ dn.parts.length) := by
  generalize calls.foldl DeletedCall.run .nil = map
  constructor
  · rintro h ⟨htop, hlen⟩
    refine not_covers_insert_again htop hlen immName ?_
    rw [← isDeleted_iff]
    exact (h dn).mpr (Or.inr List.prefix_rfl)
  · intro hok x
    rw [isDeleted_iff, isDeleted_iff, covers_insert_of_ok dn.nonempty hok, or_comm]

/-- The second insertion of `A=1,B=2` brings it back. -/
theorem not_deletesBelow :
    ¬ ∀ (calls : List DeletedCall) (dn : Dn) (immName : String),
      DeletesBelow (calls.foldl DeletedCall.run .nil) dn immName := by
  intro h
  have hdn := (h [.insert ⟨["A=1", "B=2"], by simp⟩ "b=2,a=1"] ⟨["A=1", "B=2"], by simp⟩ "b=2,a=1"
    ⟨["A=1", "B=2"], by simp⟩).mpr (Or.inr List.prefix_rfl)
  revert hdn
  decide

end ComSA
