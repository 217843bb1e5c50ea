import ComSA.Lib.Ledger
import Mathlib.Data.List.Perm.Basic

/-!
# Tokens in custody

A service gives out tokens, each of them once, and takes them back. A log of dealings is proper when nobody uses or
gives back what it does not hold. In a proper log no token is given back twice.
-/

namespace ComSA

inductive Dealing (ω α : Type*) where
  | gets (owner : ω) (token : α)
  | uses (owner : ω) (token : α)
  | returns (owner : ω) (token : α)
  deriving DecidableEq, Repr

structure Custody (ω α : Type*) where
  held : List (ω × α)
  issued : List α
  deriving DecidableEq, Repr

namespace Custody

variable {ω α : Type*}

def empty : Custody ω α := ⟨[], []⟩

structure Sound (noToken : α) (c : Custody ω α) : Prop where
  nodup : c.issued.Nodup
  none_held : ∀ owner, (owner, noToken) ∉ c.held

theorem sound_empty {noToken : α} : (empty : Custody ω α).Sound noToken :=
  ⟨List.nodup_nil, fun _ h => by cases h⟩

variable [DecidableEq ω] [DecidableEq α]

def step (c : Custody ω α) : Dealing ω α → Custody ω α
  | .gets owner token => ⟨(owner, token) :: c.held, token :: c.issued⟩
  | .uses _ _ => c
  | .returns owner token => { c with held := c.held.erase (owner, token) }

def after (log : List (Dealing ω α)) : Custody ω α := log.foldl step empty

def Proper (noToken : α) (c : Custody ω α) : Dealing ω α → Prop
  | .gets _ token => token ≠ noToken ∧ token ∉ c.issued
  | .uses owner token => token = noToken ∨ (owner, token) ∈ c.held
  | .returns owner token => token = noToken ∨ (owner, token) ∈ c.held

instance (noToken : α) (c : Custody ω α) : (d : Dealing ω α) → Decidable (Proper noToken c d)
  | .gets _ _ => inferInstanceAs (Decidable (_ ∧ _))
  | .uses _ _ => inferInstanceAs (Decidable (_ ∨ _))
  | .returns _ _ => inferInstanceAs (Decidable (_ ∨ _))

def returned (noToken : α) : Dealing ω α → List α
  | .gets _ _ => []
  | .uses _ _ => []
  | .returns _ token => if token = noToken then [] else [token]

/-! ## One dealing -/

variable {noToken : α} {c : Custody ω α} {log : List (Dealing ω α)}

theorem Sound.step (h : c.Sound noToken) {d : Dealing ω α} (hd : c.Proper noToken d) :
    (c.step d).Sound noToken := by
  cases d with
  | gets owner token =>
    refine ⟨List.nodup_cons.mpr ⟨hd.2, h.nodup⟩, fun o ho => ?_⟩
    rcases List.mem_cons.mp ho with heq | ho
    · exact hd.1 (Prod.ext_iff.mp heq).2.symm
    · exact h.none_held o ho
  | uses owner token => exact h
  | returns owner token => exact ⟨h.nodup, fun o ho => h.none_held o (List.mem_of_mem_erase ho)⟩

theorem step_count (h : c.Sound noToken) {d : Dealing ω α} (hd : c.Proper noToken d) (a : α) :
    ((c.step d).held.map Prod.snd).count a + (returned noToken d).count a + c.issued.count a =
      (c.held.map Prod.snd).count a + (c.step d).issued.count a := by
  cases d with
  | gets owner token =>
    have hheld : ((c.step (.gets owner token)).held.map Prod.snd) = token :: c.held.map Prod.snd := rfl
    have hissued : (c.step (.gets owner token)).issued = token :: c.issued := rfl
    rw [hheld, hissued, List.count_cons, List.count_cons, returned, List.count_nil]
    omega
  | uses owner token => rfl
  | returns owner token =>
    have hissued : (c.step (.returns owner token)).issued = c.issued := rfl
    rw [hissued, returned, step]
    dsimp only
    by_cases hnone : token = noToken
    · subst hnone
      rw [if_pos rfl, List.erase_of_not_mem (h.none_held owner)]
      rfl
    · have hmem : (owner, token) ∈ c.held := hd.resolve_left hnone
      have hperm := (List.perm_cons_erase hmem).map Prod.snd
      rw [if_neg hnone, hperm.count_eq, List.map_cons, List.count_cons, List.count_cons, List.count_nil]
      dsimp only
      omega

/-! ## Logs -/

structure Holds (noToken : α) (log : List (Dealing ω α)) (owned : List (ω × α)) : Prop where
  proper : Along step (Proper noToken) empty log
  sound : (after log).Sound noToken
  held : (after log).held.Perm owned

variable {owned owned' : List (ω × α)} {owner : ω} {token : α}

theorem holds_nil : Holds noToken ([] : List (Dealing ω α)) [] := ⟨trivial, sound_empty, .nil⟩

theorem after_append_singleton (log : List (Dealing ω α)) (d : Dealing ω α) :
    after (log ++ [d]) = (after log).step d := by
  rw [after, List.foldl_append]
  rfl

namespace Holds

theorem perm (h : Holds noToken log owned) (hperm : owned.Perm owned') : Holds noToken log owned' :=
  ⟨h.proper, h.sound, h.held.trans hperm⟩

theorem append (h : Holds noToken log owned) {d : Dealing ω α} (hd : (after log).Proper noToken d)
    (howned : ((after log).step d).held.Perm owned') : Holds noToken (log ++ [d]) owned' := by
  refine ⟨along_append.mpr ⟨h.proper, hd, trivial⟩, ?_, ?_⟩
  · rw [after_append_singleton]
    exact h.sound.step hd
  · rw [after_append_singleton]
    exact howned

theorem gets (h : Holds noToken log owned) (owner : ω) (hnone : token ≠ noToken)
    (hnew : token ∉ (after log).issued) :
    Holds noToken (log ++ [.gets owner token]) ((owner, token) :: owned) :=
  h.append ⟨hnone, hnew⟩ (h.held.cons _)

theorem uses (h : Holds noToken log owned) (htoken : token = noToken ∨ (owner, token) ∈ owned) :
    Holds noToken (log ++ [.uses owner token]) owned :=
  h.append (htoken.imp_right h.held.mem_iff.mpr) h.held

theorem returns (h : Holds noToken log ((owner, token) :: owned)) :
    Holds noToken (log ++ [.returns owner token]) owned := by
  have hmem : (owner, token) ∈ (after log).held := h.held.mem_iff.mpr List.mem_cons_self
  refine h.append (.inr hmem) ?_
  have herase := h.held.erase (owner, token)
  rwa [List.erase_cons_head] at herase

theorem returns_none (h : Holds noToken log owned) : Holds noToken (log ++ [.returns owner noToken]) owned := by
  refine h.append (.inl rfl) ?_
  have hsame : ((after log).step (.returns owner noToken)).held = (after log).held :=
    List.erase_of_not_mem (h.sound.none_held owner)
  rw [hsame]
  exact h.held

end Holds

theorem count_returned (hs : c.Sound noToken) (h : Along step (Proper noToken) c log) (a : α) :
    ((log.foldl step c).held.map Prod.snd).count a + (log.flatMap (returned noToken)).count a + c.issued.count a =
      (c.held.map Prod.snd).count a + (log.foldl step c).issued.count a := by
  induction log generalizing c with
  | nil => rfl
  | cons d log ih =>
    have hone := step_count hs h.1 a
    have hrest := ih (hs.step h.1) h.2
    rw [List.foldl_cons, List.flatMap_cons, List.count_append]
    omega

theorem Holds.issued_perm (h : Holds noToken log owned) :
    (after log).issued.Perm (owned.map Prod.snd ++ log.flatMap (returned noToken)) := by
  refine List.perm_iff_count.mpr fun a => ?_
  have hcount := count_returned sound_empty h.proper a
  rw [List.count_append, ← (h.held.map Prod.snd).count_eq]
  change _ + _ + 0 = 0 + _ at hcount
  have := hcount
  unfold after
  omega

theorem Holds.returned_nodup (h : Holds noToken log owned) : (log.flatMap (returned noToken)).Nodup :=
  (List.nodup_append.mp (h.issued_perm.nodup_iff.mp h.sound.nodup)).2.1

end Custody

end ComSA
