import Mathlib.Data.List.Nodup

/-!
# Singly linked lists

Elements that are stored in a memory, each with a pointer to the next one. `Segment` is the part of such a list
from one pointer to another.
-/

namespace ComSA

variable {ε α γ : Type*}

/-- From `head` on the elements are stored one after the other, and `tail` is the pointer behind the last. An element
is stored at `addr` as the cell `node` that has the next pointer in it. -/
def Segment (addr : ε → α) (node : ε → Option α → γ) (load : α → Option γ) :
    Option α → List ε → Option α → Prop
  | head, [], tail => head = tail
  | head, e :: es, tail =>
    head = some (addr e) ∧ ∃ next, load (addr e) = some (node e next) ∧ Segment addr node load next es tail

namespace Segment

variable {addr : ε → α} {node : ε → Option α → γ} {load load' : α → Option γ} {head tail : Option α}
  {es fs : List ε} {e : ε}

theorem append_iff : Segment addr node load head (es ++ fs) tail ↔
    ∃ middle, Segment addr node load head es middle ∧ Segment addr node load middle fs tail := by
  induction es generalizing head with
  | nil => simp [Segment]
  | cons e es ih =>
    simp only [List.cons_append, Segment, ih]
    constructor
    · rintro ⟨hhead, next, hload, middle, hes, hfs⟩
      exact ⟨middle, ⟨hhead, next, hload, hes⟩, hfs⟩
    · rintro ⟨middle, ⟨hhead, next, hload, hes⟩, hfs⟩
      exact ⟨hhead, next, hload, middle, hes, hfs⟩

theorem congr (h : ∀ e ∈ es, load' (addr e) = load (addr e)) (hseg : Segment addr node load head es tail) :
    Segment addr node load' head es tail := by
  induction es generalizing head with
  | nil => exact hseg
  | cons e es ih =>
    obtain ⟨hhead, next, hload, hrest⟩ := hseg
    exact ⟨hhead, next, (h e List.mem_cons_self).trans hload, ih (fun f hf => h f (List.mem_cons_of_mem e hf))
      hrest⟩

theorem head_eq (hseg : Segment addr node load head es none) : head = es.head?.map addr := by
  cases es with
  | nil => exact hseg
  | cons e es => exact hseg.1

theorem load_eq (hseg : Segment addr node load head (es ++ e :: fs) none) :
    load (addr e) = some (node e (fs.head?.map addr)) := by
  obtain ⟨middle, -, -, next, hload, hfs⟩ := append_iff.mp hseg
  rw [hload, hfs.head_eq]

theorem exists_load (hseg : Segment addr node load head es none) (he : e ∈ es) :
    ∃ next, load (addr e) = some (node e next) := by
  obtain ⟨front, back, rfl⟩ := List.append_of_mem he
  exact ⟨_, hseg.load_eq⟩

theorem relink {gs : List ε} {next : Option α} (hseg : Segment addr node load head (es ++ e :: fs) tail)
    (hne : ∀ f ∈ es, addr f ≠ addr e) (hstore : load' (addr e) = some (node e next))
    (hother : ∀ f ∈ es, addr f ≠ addr e → load' (addr f) = load (addr f))
    (hgs : Segment addr node load' next gs tail) : Segment addr node load' head (es ++ e :: gs) tail := by
  obtain ⟨middle, hes, hmiddle, -⟩ := append_iff.mp hseg
  exact append_iff.mpr ⟨middle, hes.congr fun f hf => hother f hf (hne f hf), hmiddle, next, hstore, hgs⟩

end Segment

/-! ## Looking for an element -/

def seek (load : α → Option γ) (found : γ → Bool) (next : γ → Option α) :
    Nat → Option α → Option α → Option (Option α × Option α)
  | 0, _, _ => none
  | _ + 1, prev, none => some (prev, none)
  | fuel + 1, prev, some a =>
    match load a with
    | none => none
    | some c => if found c then some (prev, some a) else seek load found next fuel (some a) (next c)

variable {addr : ε → α} {node : ε → Option α → γ} {load : α → Option γ} {found : γ → Bool} {next : γ → Option α}
  {es front back : List ε} {e : ε}

theorem seek_none {fuel : Nat} {head : Option α} (prev : Option α) (hseg : Segment addr node load head es none)
    (hnext : ∀ e ∈ es, ∀ n, next (node e n) = n) (hfound : ∀ e ∈ es, ∀ n, found (node e n) = false)
    (hfuel : es.length < fuel) : ∃ last, seek load found next fuel prev head = some (last, none) := by
  induction es generalizing fuel prev head with
  | nil =>
    obtain ⟨fuel, rfl⟩ := Nat.exists_eq_add_of_lt hfuel
    obtain rfl := hseg
    exact ⟨prev, rfl⟩
  | cons e es ih =>
    obtain ⟨rfl, n, hload, hrest⟩ := hseg
    cases fuel with
    | zero => omega
    | succ fuel =>
      rw [List.length_cons] at hfuel
      simp only [seek, hload, hfound e List.mem_cons_self n, hnext e List.mem_cons_self n, Bool.false_eq_true,
        if_false]
      exact ih _ hrest (fun f hf => hnext f (List.mem_cons_of_mem e hf))
        (fun f hf => hfound f (List.mem_cons_of_mem e hf)) (by omega)

theorem seek_some {fuel : Nat} {head : Option α} (prev : Option α)
    (hseg : Segment addr node load head (front ++ e :: back) none)
    (hnext : ∀ f ∈ front, ∀ n, next (node f n) = n) (hfront : ∀ f ∈ front, ∀ n, found (node f n) = false)
    (hfound : ∀ n, found (node e n) = true) (hfuel : front.length < fuel) :
    seek load found next fuel prev head = some ((front.getLast?.map addr).or prev, some (addr e)) := by
  induction front generalizing fuel prev head with
  | nil =>
    obtain ⟨rfl, n, hload, -⟩ := hseg
    cases fuel with
    | zero => omega
    | succ fuel => simp [seek, hload, hfound]
  | cons f front ih =>
    obtain ⟨rfl, n, hload, hrest⟩ := hseg
    cases fuel with
    | zero => omega
    | succ fuel =>
      rw [List.length_cons] at hfuel
      simp only [seek, hload, hfront f List.mem_cons_self n, hnext f List.mem_cons_self n, Bool.false_eq_true,
        if_false]
      rw [ih _ hrest (fun g hg => hnext g (List.mem_cons_of_mem f hg))
        (fun g hg => hfront g (List.mem_cons_of_mem f hg)) (by omega)]
      rw [List.getLast?_cons]
      cases front.getLast? <;> rfl

end ComSA
