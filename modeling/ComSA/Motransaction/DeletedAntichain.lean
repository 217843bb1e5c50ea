import ComSA.Motransaction.DeletedList
import ComSA.Motransaction.DeletedRuns

/-!
# Active deletion points below one another

No active deletion point should be below another one, or the commit deletes an object
and then one that went away with it. Which insertions keep that true.
-/

namespace ComSA

open DeletedObjects Forest

/-! ## What the list names -/

/-- The list holds the IMM name of each active deletion point once, and no point of it is below another
one. -/
def ListsApart (map : DeletedMap) : Prop :=
  ∃ points : List (List String × DeletedData),
    getDeletedData map = points.map (fun x => x.2.immName) ∧
    (∀ x, x ∈ points ↔ map.dataAt x.1 = some x.2 ∧ x.2.isActive = true) ∧
    points.Pairwise fun x y => ¬ x.1 <+: y.1 ∧ ¬ y.1 <+: x.1

def DeletedApart (map : DeletedMap) : Prop := Antichain map ∧ ListsApart map

theorem listsApart {map : DeletedMap} (hunique : Unique map) (h : Antichain map) : ListsApart map := by
  have hmem : ∀ x, x ∈ (listing [] map).filter (fun x => x.2.isActive) ↔
      map.dataAt x.1 = some x.2 ∧ x.2.isActive = true := by
    intro x
    rw [List.mem_filter, mem_listing hunique]
    simp
  refine ⟨_, getDeletedData_eq [] map, hmem, ?_⟩
  refine ((listing_pairwise hunique []).filter _).imp_of_mem ?_
  intro x y hx hy hxy
  refine ⟨hxy, fun hyx => ?_⟩
  have hxa : x.1 ∈ active map := ⟨x.2, (hmem x).mp hx⟩
  have hya : y.1 ∈ active map := ⟨y.2, (hmem y).mp hy⟩
  rw [(h x.1 hxa).2 y.1 hya hyx] at hxy
  exact hxy List.prefix_rfl

/-! ## Which calls keep it -/

/-- The calls that keep active points apart. The others insert a name that the map has no entry for below an
active point of two or more parts. -/
def KeepsApart (map : DeletedMap) : DeletedCall → Prop
  | .insert dn _ => ¬ (map.entryAt dn.parts = none ∧ ∃ p ∈ active map, p <+: dn.parts ∧ 2 ≤ p.length)
  | .remove _ => True

theorem antichain_insert_iff {map : DeletedMap} (h : Antichain map) (dn : Dn) (immName : String) :
    Antichain (DeletedObjects.insert dn.parts immName map) ↔ KeepsApart map (.insert dn immName) := by
  obtain ⟨parts, hne⟩ := dn
  obtain ⟨first, rest, rfl⟩ := List.exists_cons_of_ne_nil hne
  unfold KeepsApart
  dsimp only
  by_cases hcov : Covers (active map) (first :: rest)
  swap
  · refine ⟨fun _ => ?_, fun _ => antichain_insert h hcov immName⟩
    rintro ⟨_, p, hp, hpre, _⟩
    exact hcov ⟨p, hp, hpre⟩
  by_cases htop : [first] ∈ active map
  · rw [insert_of_topActive htop]
    refine ⟨fun _ => ?_, fun _ => h⟩
    rintro ⟨_, p, hp, hpre, hlen⟩
    -- The first part alone would be above that point.
    have hfirst : [first] <+: p :=
      List.prefix_of_prefix_length_le (by simp) hpre (by simp only [List.length_singleton]; omega)
    have := (h p hp).2 _ htop hfirst
    rw [← this] at hlen
    simp at hlen
  cases he : map.entryAt (first :: rest) with
  | none =>
    obtain ⟨p, hp, hpre⟩ := hcov
    have hpne : p ≠ first :: rest := by
      rintro rfl
      obtain ⟨d, hd, _⟩ := hp
      rw [dataAt, he] at hd
      cases hd
    have hlen : 2 ≤ p.length := by
      rcases p with _ | ⟨x, _ | ⟨y, ys⟩⟩
      · exact absurd rfl (ne_nil_of_mem_marked (active_subset_marked _ hp))
      · obtain ⟨rfl, _⟩ := List.cons_prefix_cons.mp hpre
        exact absurd hp htop
      · simp
    constructor
    · intro hanti
      rw [Antichain, active_insert_of_none htop he] at hanti
      exact absurd ((hanti _ (Set.mem_insert _ _)).2 p (Set.mem_insert_of_mem _ hp) hpre) hpne
    · exact fun hkeeps => absurd ⟨rfl, p, hp, hpre, hlen⟩ hkeeps
  | some last =>
    rw [Antichain, active_insert_of_covered htop he hcov]
    simp only [reduceCtorEq, false_and, not_false_eq_true, iff_true]
    intro q hq
    exact ⟨hq, fun r hr hrq => (h q hq.1).2 r hr.1 hrq⟩

/-! ## Runs -/

theorem unique_run {map : DeletedMap} (h : Unique map) (c : DeletedCall) : Unique (c.run map) := by
  cases c with
  | insert dn immName => exact unique_insert h dn.parts immName
  | remove dn => exact unique_remove h dn.parts

theorem antichain_run_iff {map : DeletedMap} (h : Antichain map) (c : DeletedCall) :
    Antichain (c.run map) ↔ KeepsApart map c := by
  cases c with
  | insert dn immName => exact antichain_insert_iff h dn immName
  | remove dn => exact ⟨fun _ => trivial, fun _ => antichain_remove h⟩

/-- The active points are apart, and listed once each, in every state of a run exactly when each call of it
keeps them apart. -/
theorem deletedApart_throughout_iff (calls : List DeletedCall) :
    Throughout DeletedCall.run DeletedApart .nil calls ↔ Along DeletedCall.run KeepsApart .nil calls := by
  have hnil : Antichain .nil ∧ Unique (.nil : DeletedMap) := by
    refine ⟨?_, trivial⟩
    rintro p ⟨d, hd, _⟩
    simp [dataAt_empty] at hd
  have hgood : ∀ map c, Antichain map ∧ Unique map → True → KeepsApart map c →
      Antichain (DeletedCall.run map c) ∧ Unique (DeletedCall.run map c) := by
    rintro map c ⟨hanti, hunique⟩ _ hkeeps
    exact ⟨(antichain_run_iff hanti c).mpr hkeeps, unique_run hunique c⟩
  have hbad : ∀ map c, Antichain map ∧ Unique map → True → DeletedApart (DeletedCall.run map c) →
      KeepsApart map c := by
    rintro map c ⟨hanti, _⟩ _ happart
    exact (antichain_run_iff hanti c).mp happart.1
  exact throughout_iff_along_of (fun map h => ⟨h.1, listsApart h.2 h.1⟩) hgood hbad hnil
    (along_of_split fun _ _ _ _ => trivial)

/-- With `A=1,B=2` deleted, `A=1,B=2,C=3` becomes another active point below it. -/
theorem not_deletedApart :
    ¬ ∀ calls : List DeletedCall, Throughout DeletedCall.run DeletedApart .nil calls := by
  intro h
  have hlast := (h [.insert ⟨["A=1", "B=2"], by simp⟩ "b=2,a=1",
    .insert ⟨["A=1", "B=2", "C=3"], by simp⟩ "c=3,b=2,a=1"]).last.1
  have hbelow : ["A=1", "B=2", "C=3"] ∈ active (List.foldl DeletedCall.run .nil
      [.insert ⟨["A=1", "B=2"], by simp⟩ "b=2,a=1",
        .insert ⟨["A=1", "B=2", "C=3"], by simp⟩ "c=3,b=2,a=1"]) := ⟨newPoint "c=3,b=2,a=1", by decide, rfl⟩
  have habove := (hlast _ hbelow).2 ["A=1", "B=2"] ⟨newPoint "b=2,a=1", by decide, rfl⟩ (by decide)
  revert habove
  decide

end ComSA
