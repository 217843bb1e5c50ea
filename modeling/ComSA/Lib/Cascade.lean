import Mathlib.Data.List.Nodup
import Mathlib.Logic.Relation

/-!
# Objects that name others

Objects are found by their key, and name others by their keys. With an object goes all that can be reached from it.
-/

namespace ComSA.Cascade

open Relation

variable {α β : Type*} (key : β → α) (names : β → List α)

def Names (l : List β) (a b : α) : Prop := ∃ x ∈ l, key x = a ∧ b ∈ names x

def Within (l : List β) (a : α) (x : β) : Prop := ReflTransGen (Names key names l) a (key x)

def Acyclic (l : List β) : Prop := ∀ a, ¬TransGen (Names key names l) a a

open Classical in
noncomputable def without (a : α) (l : List β) : List β := l.filter fun x => ¬Within key names l a x

open Classical in
noncomputable def reached (a : α) (l : List β) : List β := l.filter fun x => Within key names l a x

variable {key names} {l l' : List β} {a b : α} {x y : β}

theorem mem_without : x ∈ without key names a l ↔ x ∈ l ∧ ¬Within key names l a x := by
  unfold without
  simp

theorem reached_append_without (key : β → α) (names : β → List α) (a : α) (l : List β) :
    (reached key names a l ++ without key names a l).Perm l := by
  classical
  unfold reached without
  have hsplit := List.filter_append_perm (fun x => decide (Within key names l a x)) l
  simpa only [decide_not] using hsplit

theorem without_sublist : (without key names a l).Sublist l := List.filter_sublist

theorem Names.mono (hsub : l ⊆ l') (h : Names key names l a b) : Names key names l' a b := by
  obtain ⟨x, hx, hkey, hb⟩ := h
  exact ⟨x, hsub hx, hkey, hb⟩

theorem Within.mono (hsub : l ⊆ l') (h : Within key names l a x) : Within key names l' a x :=
  ReflTransGen.mono (fun _ _ => Names.mono hsub) _ _ h

theorem Acyclic.mono (hsub : l' ⊆ l) (h : Acyclic key names l) : Acyclic key names l' := fun a ha =>
  h a (TransGen.mono (fun _ _ => Names.mono hsub) _ _ ha)

theorem Within.of_names (hx : x ∈ l) (hb : b ∈ names x) (h : Within key names l b y) :
    Within key names l (key x) y :=
  ReflTransGen.head ⟨x, hx, rfl, hb⟩ h

theorem Acyclic.not_within (h : Acyclic key names l) (hx : x ∈ l) (hb : b ∈ names x) : ¬Within key names l b x :=
  fun hwithin => h (key x) (TransGen.head' ⟨x, hx, rfl, hb⟩ hwithin)

theorem acyclic_nil : Acyclic key names [] := by
  intro a ha
  obtain ⟨b, ⟨x, hx, -⟩, -⟩ := TransGen.head'_iff.mp ha
  exact List.not_mem_nil hx

theorem acyclic_of_lt (rank : α → Nat) (h : ∀ x ∈ l, ∀ b ∈ names x, rank (key x) < rank b) :
    Acyclic key names l := by
  have hlt : ∀ a b, TransGen (Names key names l) a b → rank a < rank b := by
    intro a b hab
    induction hab with
    | single hstep =>
      obtain ⟨x, hx, rfl, hb⟩ := hstep
      exact h x hx _ hb
    | tail _ hstep ih =>
      obtain ⟨x, hx, rfl, hb⟩ := hstep
      exact Nat.lt_trans ih (h x hx _ hb)
  exact fun a ha => Nat.lt_irrefl _ (hlt a a ha)

theorem without_of_not_mem (ha : ∀ x ∈ l, key x ≠ a) : without key names a l = l := by
  classical
  unfold without
  refine List.filter_eq_self.mpr fun x hx => ?_
  rw [decide_eq_true_eq]
  intro hwithin
  rcases ReflTransGen.cases_head hwithin with heq | ⟨b, ⟨y, hy, hkey, -⟩, -⟩
  · exact ha x hx heq.symm
  · exact ha y hy hkey

theorem within_without (hx : ¬Within key names l b x) (h : Within key names l a x) :
    Within key names (without key names b l) a x := by
  induction h using ReflTransGen.head_induction_on with
  | refl => exact ReflTransGen.refl
  | head hstep hrest ih =>
    obtain ⟨y, hy, rfl, hnames⟩ := hstep
    refine ReflTransGen.head ⟨y, mem_without.mpr ⟨hy, fun hwithin => hx ?_⟩, rfl, hnames⟩ ih
    exact ReflTransGen.trans hwithin (ReflTransGen.head ⟨y, hy, rfl, hnames⟩ hrest)

open Classical in
/-- To take away one after the other is to take away what is reached from any of them. -/
theorem foldl_without (bs : List α) (l : List β) :
    bs.foldl (fun l b => without key names b l) l = l.filter fun x => ∀ b ∈ bs, ¬Within key names l b x := by
  induction bs generalizing l with
  | nil => simp
  | cons b bs ih =>
    rw [List.foldl_cons, ih]
    refine List.filter_filter.trans (List.filter_congr fun x hx => ?_)
    rw [← Bool.decide_and, decide_eq_decide, List.forall_mem_cons]
    constructor
    · rintro ⟨hbs, hb⟩
      exact ⟨hb, fun c hc hwithin => hbs c hc (within_without hb hwithin)⟩
    · rintro ⟨hb, hbs⟩
      exact ⟨fun c hc hwithin => hbs c hc (hwithin.mono without_sublist.subset), hb⟩

theorem mem_foldl_without {bs : List α} :
    x ∈ bs.foldl (fun l b => without key names b l) l ↔ x ∈ l ∧ ∀ b ∈ bs, ¬Within key names l b x := by
  rw [foldl_without]
  simp

theorem map_key_erase [DecidableEq α] [DecidableEq β] (hnodup : (l.map key).Nodup) (hx : x ∈ l) :
    (l.erase x).map key = (l.map key).erase (key x) := by
  rw [hnodup.erase_eq_filter, hnodup.of_map.erase_eq_filter, List.filter_map]
  refine congrArg (List.map key) (List.filter_congr fun y hy => ?_)
  rw [Bool.eq_iff_iff, bne_iff_ne, Function.comp_apply, bne_iff_ne]
  exact not_congr ⟨congrArg key, List.inj_on_of_nodup_map hnodup hy hx⟩

theorem without_eq_erase [DecidableEq β] (hnodup : (l.map key).Nodup) (hx : x ∈ l) :
    without key names (key x) l = ((names x).foldl (fun l b => without key names b l) l).erase x := by
  classical
  have hinj : ∀ y ∈ l, key y = key x → y = x := fun y hy hkey => List.inj_on_of_nodup_map hnodup hy hx hkey
  rw [foldl_without, (hnodup.of_map.filter _).erase_eq_filter, List.filter_filter]
  unfold without
  refine List.filter_congr fun y hy => ?_
  rw [Bool.eq_iff_iff, Bool.and_eq_true, bne_iff_ne, decide_eq_true_eq, decide_eq_true_eq]
  constructor
  · refine fun hnot => ⟨?_, fun b hb hwithin => hnot (hwithin.of_names hx hb)⟩
    rintro rfl
    exact hnot ReflTransGen.refl
  · rintro ⟨hne, hnames⟩ hwithin
    rcases ReflTransGen.cases_head hwithin with heq | ⟨b, ⟨z, hz, hkey, hb⟩, hrest⟩
    · exact hne (hinj y hy heq.symm)
    · obtain rfl := hinj z hz hkey
      exact hnames b hb hrest

end ComSA.Cascade
