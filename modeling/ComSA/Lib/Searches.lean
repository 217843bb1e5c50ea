import Mathlib.Data.List.Basic
import Mathlib.Data.List.Induction
import Mathlib.Data.List.Pairwise

/-!
# Searches one after the other

Several groups of items lie in one list. Each group is searched for in turn, and what a search finds is cut,
so that the searches after it look at what is left. It is told here when each search finds its own group
only.
-/

namespace ComSA

section Searches
variable {γ β : Type*} {hit : γ → β → Bool} {cut : γ → β → β} {items : γ → List β}

def cutAll (cut : γ → β → β) (l : List γ) (x : β) : β := l.foldl (fun x g => cut g x) x

/-- The first of two groups is not found in the second one, nor the second one in what is left of the first. -/
def SearchedApart (hit : γ → β → Bool) (cut : γ → β → β) (items : γ → List β) (a b : γ) : Prop :=
  (∀ x ∈ items b, hit a x = false) ∧ ∀ x ∈ items a, hit b (cut a x) = false

theorem cutAll_of_missed (hmiss : ∀ g x, hit g x = false → cut g x = x) {l : List γ} {x : β}
    (h : ∀ g ∈ l, hit g x = false) : cutAll cut l x = x := by
  induction l with
  | nil => rfl
  | cons g l ih =>
    rw [cutAll, List.foldl_cons, hmiss g x (h g List.mem_cons_self)]
    exact ih fun g' hg' => h g' (List.mem_cons_of_mem g hg')

theorem cutAll_of_mem (hmiss : ∀ g x, hit g x = false → cut g x = x) {l : List γ}
    (h : l.Pairwise (SearchedApart hit cut items)) {a : γ} (ha : a ∈ l) {x : β} (hx : x ∈ items a) :
    cutAll cut l x = cut a x := by
  obtain ⟨before, after, rfl⟩ := List.append_of_mem ha
  obtain ⟨-, hafter, hbefore⟩ := List.pairwise_append.mp h
  have hleft : cutAll cut before x = x :=
    cutAll_of_missed hmiss fun g hg => (hbefore g hg a List.mem_cons_self).1 x hx
  have hright : cutAll cut after (cut a x) = cut a x :=
    cutAll_of_missed hmiss fun g hg => ((List.pairwise_cons.mp hafter).1 g hg).2 x hx
  rw [cutAll, List.foldl_append, List.foldl_cons]
  change cutAll cut after (cut a (cutAll cut before x)) = cut a x
  rw [hleft, hright]

def caught (hit : γ → β → Bool) (cut : γ → β → β) (before : List γ) (b : γ) (l : List β) : List β :=
  l.filter fun x => hit b (cutAll cut before x)

/-- Where the searches before were right, a search finds its own group and what it hits of the others. -/
theorem caught_eq (hmiss : ∀ g x, hit g x = false → cut g x = x) (hown : ∀ g, ∀ x ∈ items g, hit g x = true)
    {before after : List γ} {b : γ} (hpair : before.Pairwise (SearchedApart hit cut items))
    (hrest : ∀ a ∈ before, ∀ c ∈ b :: after, ∀ x ∈ items c, hit a x = false) :
    caught hit cut before b ((before ++ b :: after).flatMap items) =
      (before.flatMap fun a => (items a).filter fun x => hit b (cut a x)) ++
        (items b ++ after.flatMap fun c => (items c).filter fun x => hit b x) := by
  have hlater (c : γ) (hc : c ∈ b :: after) (x : β) (hx : x ∈ items c) : cutAll cut before x = x :=
    cutAll_of_missed hmiss fun a ha => hrest a ha c hc x hx
  have hb : (items b).filter (fun x => hit b (cutAll cut before x)) = items b := by
    refine List.filter_eq_self.mpr fun x hx => ?_
    rw [hlater b List.mem_cons_self x hx]
    exact hown b x hx
  rw [caught, List.flatMap_append, List.flatMap_cons, List.filter_append, List.filter_append, hb,
    List.filter_flatMap, List.filter_flatMap]
  congr 1
  · refine List.flatMap_congr fun a ha => List.filter_congr fun x hx => ?_
    rw [cutAll_of_mem hmiss hpair ha hx]
  · congr 1
    refine List.flatMap_congr fun c hc => List.filter_congr fun x hx => ?_
    rw [hlater c (List.mem_cons_of_mem b hc) x hx]

theorem caught_own (hmiss : ∀ g x, hit g x = false → cut g x = x) (hown : ∀ g, ∀ x ∈ items g, hit g x = true)
    {before after : List γ} {b : γ} (h : (before ++ b :: after).Pairwise (SearchedApart hit cut items)) :
    caught hit cut before b ((before ++ b :: after).flatMap items) = items b := by
  obtain ⟨hpair, hafter, hbefore⟩ := List.pairwise_append.mp h
  have hleft : (before.flatMap fun a => (items a).filter fun x => hit b (cut a x)) = [] :=
    List.flatMap_eq_nil_iff.mpr fun a ha => List.filter_eq_nil_iff.mpr fun x hx =>
      Bool.eq_false_iff.mp ((hbefore a ha b List.mem_cons_self).2 x hx)
  have hright : (after.flatMap fun c => (items c).filter fun x => hit b x) = [] :=
    List.flatMap_eq_nil_iff.mpr fun c hc => List.filter_eq_nil_iff.mpr fun x hx =>
      Bool.eq_false_iff.mp (((List.pairwise_cons.mp hafter).1 c hc).1 x hx)
  rw [caught_eq hmiss hown hpair fun a ha c hc => (hbefore a ha c hc).1, hleft, hright, List.nil_append,
    List.append_nil]

/-- An item that only one search can find, before or after it was cut, is cut by that search. -/
theorem cutAll_eq (hmiss : ∀ g x, hit g x = false → cut g x = x) {l : List γ} (hnodup : l.Nodup) {a : γ} {x : β}
    (hother : ∀ b ∈ l, b ≠ a → hit b x = false ∧ hit b (cut a x) = false) :
    (a ∈ l → cutAll cut l x = cut a x) ∧ (a ∉ l → cutAll cut l x = x) := by
  constructor
  · intro ha
    obtain ⟨before, after, rfl⟩ := List.append_of_mem ha
    obtain ⟨-, hafter, hdisjoint⟩ := List.nodup_append.mp hnodup
    have hleft : cutAll cut before x = x := cutAll_of_missed hmiss fun b hb =>
      (hother b (List.mem_append_left _ hb) (hdisjoint b hb a List.mem_cons_self)).1
    have hright : cutAll cut after (cut a x) = cut a x := cutAll_of_missed hmiss fun b hb => by
      refine (hother b (List.mem_append_right _ (List.mem_cons_of_mem a hb)) ?_).2
      rintro rfl
      exact (List.nodup_cons.mp hafter).1 hb
    rw [cutAll, List.foldl_append, List.foldl_cons]
    change cutAll cut after (cut a (cutAll cut before x)) = cut a x
    rw [hleft, hright]
  · intro ha
    refine cutAll_of_missed hmiss fun b hb => (hother b hb ?_).1
    rintro rfl
    exact ha hb

theorem hit_cutAll_iff (hmiss : ∀ g x, hit g x = false → cut g x = x) {before after : List γ} {a b : γ} {x : β}
    (hnodup : (before ++ b :: after).Nodup) (hown : hit a x = true)
    (hother : ∀ c ∈ before ++ b :: after, c ≠ a → hit c x = false ∧ hit c (cut a x) = false) :
    hit b (cutAll cut before x) = true ↔ b = a := by
  obtain ⟨hbefore, -, hdisjoint⟩ := List.nodup_append.mp hnodup
  obtain ⟨hin, hout⟩ := cutAll_eq hmiss hbefore fun c hc => hother c (List.mem_append_left _ hc)
  have hb : b ∈ before ++ b :: after := List.mem_append_right _ List.mem_cons_self
  constructor
  · intro hhit
    by_contra hne
    obtain ⟨hmissed, hmissed'⟩ := hother b hb hne
    by_cases ha : a ∈ before
    · rw [hin ha, hmissed'] at hhit
      cases hhit
    · rw [hout ha, hmissed] at hhit
      cases hhit
  · rintro rfl
    rw [hout fun hmem => hdisjoint b hmem b List.mem_cons_self rfl]
    exact hown

/-- Where each search finds as many items as its group has, all groups are apart. -/
theorem apart_of_caught (hmiss : ∀ g x, hit g x = false → cut g x = x)
    (hown : ∀ g, ∀ x ∈ items g, hit g x = true) {l : List γ}
    (h : ∀ before b after, l = before ++ b :: after →
      (caught hit cut before b (l.flatMap items)).length = (items b).length) :
    l.Pairwise (SearchedApart hit cut items) := by
  -- what is searched for up to some point is apart, and hits nothing that comes later
  have hupto (before after : List γ) (hl : l = before ++ after) : before.Pairwise (SearchedApart hit cut items) ∧
      ∀ a ∈ before, ∀ c ∈ after, ∀ x ∈ items c, hit a x = false := by
    induction before using List.reverseRecOn generalizing after with
    | nil => exact ⟨List.Pairwise.nil, nofun⟩
    | append_singleton before b ih =>
      have hl : l = before ++ b :: after := by rw [hl, List.append_assoc, List.singleton_append]
      obtain ⟨hpair, hrest⟩ := ih (b :: after) hl
      have hlen := h before b after hl
      rw [hl, caught_eq hmiss hown hpair hrest, List.length_append, List.length_append] at hlen
      have hnone (u : List β) (hu : u.length = 0) : u = [] := List.length_eq_zero_iff.mp hu
      have hleft := List.flatMap_eq_nil_iff.mp (hnone _ (by omega :
        (before.flatMap fun a => (items a).filter fun x => hit b (cut a x)).length = 0))
      have hright := List.flatMap_eq_nil_iff.mp (hnone _ (by omega :
        (after.flatMap fun c => (items c).filter fun x => hit b x).length = 0))
      constructor
      · refine List.pairwise_append.mpr ⟨hpair, List.pairwise_singleton _ _, fun a ha b' hb' => ?_⟩
        obtain rfl := List.mem_singleton.mp hb'
        exact ⟨hrest a ha b' List.mem_cons_self, fun x hx =>
          Bool.eq_false_iff.mpr (List.filter_eq_nil_iff.mp (hleft a ha) x hx)⟩
      · intro a ha c hc x hx
        rcases List.mem_append.mp ha with ha | ha
        · exact hrest a ha c (List.mem_cons_of_mem b hc) x hx
        · obtain rfl := List.mem_singleton.mp ha
          exact Bool.eq_false_iff.mpr (List.filter_eq_nil_iff.mp (hright c hc) x hx)
  exact (hupto l [] (List.append_nil l).symm).1

end Searches

theorem exists_of_flatMap_eq {α β : Type*} {f : α → List β} {l : List α} {before after : List β} {b : β}
    (h : l.flatMap f = before ++ b :: after) :
    ∃ l₁ a l₂ u v, l = l₁ ++ a :: l₂ ∧ f a = u ++ b :: v ∧ before = l₁.flatMap f ++ u := by
  induction l generalizing before with
  | nil => simp at h
  | cons a l ih =>
    rw [List.flatMap_cons, List.append_eq_append_iff] at h
    rcases h with ⟨before', rfl, h⟩ | ⟨v, hf, h⟩
    · obtain ⟨l₁, a', l₂, u, v, rfl, ha', rfl⟩ := ih h
      exact ⟨a :: l₁, a', l₂, u, v, rfl, ha', by rw [List.flatMap_cons, List.append_assoc]⟩
    · cases v with
      | nil =>
        obtain ⟨l₁, a', l₂, u, v, rfl, ha', hu⟩ := @ih [] h.symm
        refine ⟨a :: l₁, a', l₂, u, v, rfl, ha', ?_⟩
        rw [List.append_nil] at hf
        rw [List.flatMap_cons, List.append_assoc, ← hu, List.append_nil, hf]
      | cons b' v =>
        obtain ⟨rfl, -⟩ := List.cons.inj h
        exact ⟨[], a, l, before, v, rfl, hf, rfl⟩

end ComSA
