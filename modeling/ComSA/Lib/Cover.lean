import Mathlib.Data.List.Infix
import Mathlib.Data.Set.Insert
import Mathlib.Order.BooleanAlgebra.Set

/-!
# Sets of paths and what lies below them

A set of paths covers a path when it has a prefix of it. Only the topmost members
of the set matter for that.
-/

namespace ComSA

variable {κ : Type*}

def Covers (D : Set (List κ)) (x : List κ) : Prop := ∃ p ∈ D, p <+: x

def Topmost (D : Set (List κ)) (p : List κ) : Prop := p ∈ D ∧ ∀ q ∈ D, q <+: p → q = p

def below (D : Set (List κ)) (p : List κ) : Set (List κ) := {q | q ∈ D ∧ p <+: q ∧ p ≠ q}

theorem Covers.of_isPrefix {D : Set (List κ)} {x y : List κ} (h : Covers D x) (hxy : x <+: y) :
    Covers D y := by
  obtain ⟨p, hp, hpx⟩ := h
  exact ⟨p, hp, hpx.trans hxy⟩

theorem covers_of_mem {D : Set (List κ)} {p : List κ} (h : p ∈ D) : Covers D p :=
  ⟨p, h, List.prefix_rfl⟩

theorem covers_mono {D E : Set (List κ)} (h : D ⊆ E) {x : List κ} (hx : Covers D x) :
    Covers E x := by
  obtain ⟨p, hp, hpx⟩ := hx
  exact ⟨p, h hp, hpx⟩

theorem covers_insert (D : Set (List κ)) (p x : List κ) :
    Covers (insert p D) x ↔ p <+: x ∨ Covers D x := by
  simp [Covers, Set.mem_insert_iff]

theorem Covers.exists_topmost {D : Set (List κ)} {x : List κ} (h : Covers D x) :
    ∃ p, Topmost D p ∧ p <+: x := by
  obtain ⟨p, hp, hpx⟩ := h
  induction hn : p.length using Nat.strong_induction_on generalizing p with
  | _ n ih =>
    by_cases htop : ∀ q ∈ D, q <+: p → q = p
    · exact ⟨p, ⟨hp, htop⟩, hpx⟩
    · push Not at htop
      obtain ⟨q, hq, hqp, hne⟩ := htop
      have hlt : q.length < p.length :=
        lt_of_le_of_ne hqp.length_le fun he => hne (hqp.eq_of_length he)
      exact ih q.length (hn ▸ hlt) q hq (hqp.trans hpx) rfl

theorem Topmost.of_covers_iff {D E : Set (List κ)} (h : ∀ x, Covers D x ↔ Covers E x)
    {p : List κ} (hp : Topmost D p) : Topmost E p := by
  obtain ⟨q, hq, hqp⟩ := (h p).mp (covers_of_mem hp.1)
  obtain ⟨r, hr, hrq⟩ := (h q).mpr (covers_of_mem hq)
  obtain rfl := hp.2 r hr (hrq.trans hqp)
  obtain rfl : q = r := (hrq.sublist.antisymm hqp.sublist).symm
  refine ⟨hq, fun s hs hsp => ?_⟩
  obtain ⟨t, ht, hts⟩ := (h s).mpr (covers_of_mem hs)
  obtain rfl := hp.2 t ht (hts.trans hsp)
  exact (hts.sublist.antisymm hsp.sublist).symm

/-- Taking out a member with another one above it leaves the covered paths as they are. -/
theorem covers_diff_of_above {D : Set (List κ)} {p q : List κ} (hq : q ∈ D) (hqp : q <+: p)
    (hne : q ≠ p) (x : List κ) : Covers (D \ {p}) x ↔ Covers D x := by
  constructor
  · exact covers_mono Set.sdiff_subset
  · rintro ⟨r, hr, hrx⟩
    by_cases hrp : r = p
    · subst hrp
      exact ⟨q, ⟨hq, hne⟩, hqp.trans hrx⟩
    · exact ⟨r, ⟨hr, hrp⟩, hrx⟩

theorem covers_diff_of_not_mem {D : Set (List κ)} {p : List κ} (hp : p ∉ D) (x : List κ) :
    Covers (D \ {p}) x ↔ Covers D x := by
  rw [Set.sdiff_singleton_eq_self hp]

/-- Without a topmost member, what is below it is covered from strictly below it. -/
theorem covers_diff_topmost {D : Set (List κ)} {p x : List κ} (hp : Topmost D p) (hpx : p <+: x) :
    Covers (D \ {p}) x ↔ Covers (below D p) x := by
  constructor
  · rintro ⟨q, ⟨hq, hqp⟩, hqx⟩
    refine ⟨q, ⟨hq, ?_, Ne.symm hqp⟩, hqx⟩
    rcases List.prefix_or_prefix_of_prefix hpx hqx with h | h
    · exact h
    · exact absurd (hp.2 q hq h) hqp
  · rintro ⟨q, ⟨hq, _, hne⟩, hqx⟩
    exact ⟨q, ⟨hq, Ne.symm hne⟩, hqx⟩

theorem covers_diff_of_not_isPrefix {D : Set (List κ)} {p x : List κ} (hpx : ¬ p <+: x) :
    Covers (D \ {p}) x ↔ Covers D x := by
  constructor
  · exact covers_mono Set.sdiff_subset
  · rintro ⟨q, hq, hqx⟩
    refine ⟨q, ⟨hq, ?_⟩, hqx⟩
    rintro rfl
    exact hpx hqx

theorem Covers.below_isPrefix {D : Set (List κ)} {p x : List κ} (h : Covers (below D p) x) :
    p <+: x ∧ p ≠ x := by
  obtain ⟨q, ⟨_, hpq, hne⟩, hqx⟩ := h
  refine ⟨hpq.trans hqx, ?_⟩
  rintro rfl
  exact hne (hpq.sublist.antisymm hqx.sublist)

end ComSA
