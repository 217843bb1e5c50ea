import Mathlib.Data.List.Infix
import Mathlib.Order.Lattice

/-!
# Maps of maps

A forest is an ordered map from names to entries, and every entry holds data and
a map of the same kind below it. A path is a list of names. The operations are
those of a sorted map with unique names, and what each of them does to the data
stored at a path is stated once, here.
-/

namespace ComSA

/-- The empty map, or the first name of a map: its data, the map below it and the other names. -/
inductive Forest (κ α : Type*) where
  | nil : Forest κ α
  | node (name : κ) (data : α) (below rest : Forest κ α) : Forest κ α
  deriving DecidableEq, Repr

namespace Forest

variable {κ α β : Type*}

/-! ## One map -/

def names : Forest κ α → List κ
  | nil => []
  | node k _ _ r => k :: names r

section Lookup
variable [DecidableEq κ]

def find (k : κ) : Forest κ α → Option (α × Forest κ α)
  | nil => none
  | node k' a b r => if k = k' then some (a, b) else find k r

def set (k : κ) (e : α × Forest κ α) : Forest κ α → Forest κ α
  | nil => nil
  | node k' a b r => if k = k' then node k' e.1 e.2 r else node k' a b (set k e r)

def erase (k : κ) : Forest κ α → Forest κ α
  | nil => nil
  | node k' a b r => if k = k' then erase k r else node k' a b (erase k r)

@[simp] theorem find_nil (k : κ) : find k (nil : Forest κ α) = none := rfl

theorem find_node (k k' : κ) (a : α) (b r : Forest κ α) :
    find k (node k' a b r) = if k = k' then some (a, b) else find k r := rfl

theorem find_set_ne {k k' : κ} (h : k ≠ k') (e : α × Forest κ α) (t : Forest κ α) :
    find k (set k' e t) = find k t := by
  induction t with
  | nil => rfl
  | node k'' a b r _ ih =>
    rw [set]
    split <;> rename_i h''
    · subst h''
      rw [find_node, find_node, if_neg h, if_neg h]
    · rw [find_node, find_node, ih]

theorem find_set_self {k : κ} {t : Forest κ α} {e₀ : α × Forest κ α} (h : find k t = some e₀)
    (e : α × Forest κ α) : find k (set k e t) = some e := by
  induction t with
  | nil => simp at h
  | node k' a b r _ ih =>
    rw [find_node] at h
    rw [set]
    split at h <;> rename_i hk
    · rw [if_pos hk, find_node, if_pos hk]
    · rw [if_neg hk, find_node, if_neg hk]
      exact ih h

theorem set_of_find {k : κ} {t : Forest κ α} {e : α × Forest κ α} (h : find k t = some e) :
    set k e t = t := by
  induction t with
  | nil => rfl
  | node k' a b r _ ih =>
    rw [find_node] at h
    rw [set]
    split at h <;> rename_i hk
    · obtain rfl := Option.some.inj h
      rw [if_pos hk]
    · rw [if_neg hk, ih h]

theorem find_erase_self (k : κ) (t : Forest κ α) : find k (erase k t) = none := by
  induction t with
  | nil => rfl
  | node k' a b r _ ih =>
    rw [erase]
    split <;> rename_i h
    · exact ih
    · rw [find_node, if_neg h, ih]

theorem find_erase_ne {k k' : κ} (h : k ≠ k') (t : Forest κ α) : find k (erase k' t) = find k t := by
  induction t with
  | nil => rfl
  | node k'' a b r _ ih =>
    rw [erase]
    split <;> rename_i h''
    · subst h''
      rw [find_node, if_neg h, ih]
    · rw [find_node, find_node, ih]

end Lookup

section Ordered
variable [LinearOrder κ]

/-- Inserts an entry at its place in the order. A name that is already there keeps its entry. -/
def add (k : κ) (e : α × Forest κ α) : Forest κ α → Forest κ α
  | nil => node k e.1 e.2 nil
  | node k' a b r =>
    if k < k' then node k e.1 e.2 (node k' a b r)
    else if k = k' then node k' a b r
    else node k' a b (add k e r)

theorem find_add_ne {k k' : κ} (h : k ≠ k') (e : α × Forest κ α) (t : Forest κ α) :
    find k (add k' e t) = find k t := by
  induction t with
  | nil => rw [add, find_node, if_neg h]
  | node k'' a b r _ ih =>
    rw [add]
    split
    · rw [find_node, if_neg h]
    · split
      · rfl
      · rw [find_node, find_node, ih]

theorem find_add_self {k : κ} {t : Forest κ α} (h : find k t = none) (e : α × Forest κ α) :
    find k (add k e t) = some e := by
  induction t with
  | nil => rw [add, find_node, if_pos rfl]
  | node k' a b r _ ih =>
    rw [find_node] at h
    split at h <;> rename_i hk
    · simp at h
    · rw [add, if_neg hk]
      split
      · rw [find_node, if_pos rfl]
      · rw [find_node, if_neg hk, ih h]

end Ordered

/-! ## Paths -/

section Paths
variable [DecidableEq κ]

def descend : List κ → α × Forest κ α → Option (α × Forest κ α)
  | [], e => some e
  | k :: ks, e => (find k e.2).bind (descend ks)

/-- The entry at the end of a path. No entry is at the end of the empty path. -/
def entryAt : List κ → Forest κ α → Option (α × Forest κ α)
  | [], _ => none
  | k :: ks, t => (find k t).bind (descend ks)

def dataAt (p : List κ) (t : Forest κ α) : Option α := (entryAt p t).map Prod.fst

@[simp] theorem dataAt_empty (p : List κ) : dataAt p (nil : Forest κ α) = none := by
  cases p <;> rfl

@[simp] theorem descend_nil (e : α × Forest κ α) : descend [] e = some e := rfl

theorem descend_cons (k : κ) (ks : List κ) (e : α × Forest κ α) :
    descend (k :: ks) e = (find k e.2).bind (descend ks) := rfl

theorem entryAt_cons (k : κ) (ks : List κ) (t : Forest κ α) :
    entryAt (k :: ks) t = (find k t).bind (descend ks) := rfl

@[simp] theorem dataAt_nil (t : Forest κ α) : dataAt [] t = none := rfl

theorem descend_append (p q : List κ) (e : α × Forest κ α) :
    descend (p ++ q) e = (descend p e).bind (descend q) := by
  induction p generalizing e with
  | nil => rfl
  | cons k ks ih =>
    rw [List.cons_append, descend_cons, descend_cons, Option.bind_assoc]
    congr 1
    funext e'
    exact ih e'

theorem entryAt_append {p : List κ} (hp : p ≠ []) (q : List κ) (t : Forest κ α) :
    entryAt (p ++ q) t = (entryAt p t).bind (descend q) := by
  cases p with
  | nil => exact absurd rfl hp
  | cons k ks =>
    rw [List.cons_append, entryAt_cons, entryAt_cons, Option.bind_assoc]
    congr 1
    funext e
    exact descend_append ks q e

theorem entryAt_of_isPrefix {p q : List κ} (hp : p ≠ []) (hpq : p <+: q) {t : Forest κ α}
    (h : entryAt p t = none) : entryAt q t = none := by
  obtain ⟨r, rfl⟩ := hpq
  rw [entryAt_append hp, h, Option.bind_none]

/-! ## Changing one entry -/

/-- Changes the entry at the end of a path. A path that leads nowhere changes nothing. -/
def changeBelow (f : α × Forest κ α → α × Forest κ α) :
    List κ → α × Forest κ α → α × Forest κ α
  | [], e => f e
  | k :: ks, e =>
    match find k e.2 with
    | none => e
    | some e' => (e.1, set k (changeBelow f ks e') e.2)

def changeAt (f : α × Forest κ α → α × Forest κ α) : List κ → Forest κ α → Forest κ α
  | [], t => t
  | k :: ks, t =>
    match find k t with
    | none => t
    | some e => set k (changeBelow f ks e) t

theorem changeBelow_cons {f : α × Forest κ α → α × Forest κ α} {k : κ} {e e' : α × Forest κ α}
    (h : find k e.2 = some e') (ks : List κ) :
    changeBelow f (k :: ks) e = (e.1, set k (changeBelow f ks e') e.2) := by
  rw [changeBelow, h]

theorem changeBelow_of_none {f : α × Forest κ α → α × Forest κ α} {p : List κ}
    {e : α × Forest κ α} (h : descend p e = none) : changeBelow f p e = e := by
  induction p generalizing e with
  | nil => simp at h
  | cons k ks ih =>
    cases hk : find k e.2 with
    | none => rw [changeBelow, hk]
    | some e' =>
      rw [descend_cons, hk, Option.bind_some] at h
      rw [changeBelow_cons hk, ih h, set_of_find hk]

theorem changeBelow_of_fixed {f : α × Forest κ α → α × Forest κ α} {p : List κ}
    {e e' : α × Forest κ α} (h : descend p e = some e') (hf : f e' = e') : changeBelow f p e = e := by
  induction p generalizing e with
  | nil =>
    obtain rfl := Option.some.inj h
    exact hf
  | cons k ks ih =>
    cases hk : find k e.2 with
    | none => rw [changeBelow, hk]
    | some e₁ =>
      rw [descend_cons, hk, Option.bind_some] at h
      rw [changeBelow_cons hk, ih h, set_of_find hk]

theorem descend_changeBelow {f : α × Forest κ α → α × Forest κ α} {p : List κ}
    {e e' : α × Forest κ α} (h : descend p e = some e') (q : List κ) :
    descend (p ++ q) (changeBelow f p e) = descend q (f e') := by
  induction p generalizing e with
  | nil =>
    obtain rfl := Option.some.inj h
    rfl
  | cons k ks ih =>
    cases hk : find k e.2 with
    | none => rw [descend_cons, hk, Option.bind_none] at h; cases h
    | some e₁ =>
      rw [descend_cons, hk, Option.bind_some] at h
      rw [changeBelow_cons hk, List.cons_append, descend_cons, find_set_self hk, Option.bind_some, ih h]

theorem data_changeBelow {f : α × Forest κ α → α × Forest κ α} {p q : List κ} (hpq : ¬ p <+: q)
    (e : α × Forest κ α) :
    (descend q (changeBelow f p e)).map Prod.fst = (descend q e).map Prod.fst := by
  induction p generalizing e q with
  | nil => exact absurd List.nil_prefix hpq
  | cons k ks ih =>
    cases hk : find k e.2 with
    | none => rw [changeBelow, hk]
    | some e₁ =>
      rw [changeBelow_cons hk]
      cases q with
      | nil => rfl
      | cons x xs =>
        rw [descend_cons, descend_cons]
        by_cases hx : x = k
        · subst hx
          rw [find_set_self hk, hk, Option.bind_some, Option.bind_some]
          exact ih (fun h => hpq ((List.prefix_cons_inj x).mpr h)) e₁
        · rw [find_set_ne hx]

theorem changeAt_cons {f : α × Forest κ α → α × Forest κ α} {k : κ} {t : Forest κ α}
    {e : α × Forest κ α} (h : find k t = some e) (ks : List κ) :
    changeAt f (k :: ks) t = set k (changeBelow f ks e) t := by
  rw [changeAt, h]

theorem changeBelow_eq (f : α × Forest κ α → α × Forest κ α) {p : List κ} (hp : p ≠ [])
    (a : α) (t : Forest κ α) : changeBelow f p (a, t) = (a, changeAt f p t) := by
  cases p with
  | nil => exact absurd rfl hp
  | cons k ks =>
    rw [changeAt, changeBelow]
    cases find k t <;> rfl

theorem entryAt_eq {p : List κ} (hp : p ≠ []) (t : Forest κ α) (a : α) :
    entryAt p t = descend p (a, t) := by
  cases p with
  | nil => exact absurd rfl hp
  | cons k ks => rfl

theorem changeAt_of_none {f : α × Forest κ α → α × Forest κ α} {p : List κ} {t : Forest κ α}
    (h : entryAt p t = none) : changeAt f p t = t := by
  cases p with
  | nil => rfl
  | cons k ks =>
    cases hk : find k t with
    | none => rw [changeAt, hk]
    | some e =>
      rw [entryAt_cons, hk, Option.bind_some] at h
      rw [changeAt_cons hk, changeBelow_of_none h, set_of_find hk]

theorem changeAt_of_fixed {f : α × Forest κ α → α × Forest κ α} {p : List κ} {t : Forest κ α}
    {e : α × Forest κ α} (h : entryAt p t = some e) (hf : f e = e) : changeAt f p t = t := by
  cases p with
  | nil => rfl
  | cons k ks =>
    cases hk : find k t with
    | none => rw [changeAt, hk]
    | some e₁ =>
      rw [entryAt_cons, hk, Option.bind_some] at h
      rw [changeAt_cons hk, changeBelow_of_fixed h hf, set_of_find hk]

theorem entryAt_changeAt {f : α × Forest κ α → α × Forest κ α} {p : List κ} {t : Forest κ α}
    {e : α × Forest κ α} (h : entryAt p t = some e) (q : List κ) :
    entryAt (p ++ q) (changeAt f p t) = descend q (f e) := by
  have hp : p ≠ [] := by rintro rfl; cases h
  rw [entryAt_eq hp t e.1] at h
  rw [entryAt_eq (by simp [hp]) _ e.1, ← changeBelow_eq f hp]
  exact descend_changeBelow h q

theorem dataAt_changeAt_of_not_isPrefix {f : α × Forest κ α → α × Forest κ α} {p q : List κ}
    (hpq : ¬ p <+: q) (t : Forest κ α) : dataAt q (changeAt f p t) = dataAt q t := by
  cases q with
  | nil => rfl
  | cons x xs =>
    cases p with
    | nil => exact absurd List.nil_prefix hpq
    | cons k ks =>
      cases hk : find k t with
      | none => rw [changeAt, hk]
      | some e =>
        rw [dataAt, dataAt, entryAt_eq (by simp) _ e.1, entryAt_eq (by simp) _ e.1,
          ← changeBelow_eq f (by simp)]
        exact data_changeBelow hpq _

theorem descend_eq {q : List κ} (hq : q ≠ []) (e : α × Forest κ α) (a : α) :
    descend q e = descend q (a, e.2) := by
  cases q with
  | nil => exact absurd rfl hq
  | cons x xs => rfl

theorem dataAt_append {p : List κ} {t : Forest κ α} {e : α × Forest κ α} (h : entryAt p t = some e)
    (r : List κ) : dataAt (p ++ r) t = (descend r e).map Prod.fst := by
  have hp : p ≠ [] := by rintro rfl; cases h
  rw [dataAt, entryAt_append hp, h, Option.bind_some]

theorem dataAt_changeAt_append {f : α × Forest κ α → α × Forest κ α} {p : List κ} {t : Forest κ α}
    {e : α × Forest κ α} (h : entryAt p t = some e) (r : List κ) :
    dataAt (p ++ r) (changeAt f p t) = (descend r (f e)).map Prod.fst := by
  rw [dataAt, entryAt_changeAt h]

theorem dataAt_changeAt_data {f : α × Forest κ α → α × Forest κ α} {p : List κ} {t : Forest κ α}
    {e : α × Forest κ α} {a : α} (h : entryAt p t = some e) (hf : f e = (a, e.2)) (q : List κ) :
    dataAt q (changeAt f p t) = if q = p then some a else dataAt q t := by
  by_cases hpq : p <+: q
  · obtain ⟨r, rfl⟩ := hpq
    rw [dataAt_changeAt_append h, dataAt_append h, hf]
    cases r with
    | nil => simp
    | cons x xs =>
      rw [if_neg (by simp), descend_eq (by simp) e a]
  · rw [dataAt_changeAt_of_not_isPrefix hpq, if_neg]
    rintro rfl
    exact hpq List.prefix_rfl

/-! ## A new branch -/

def chain (mid last : α) : List κ → α × Forest κ α
  | [] => (last, nil)
  | k :: ks => (mid, node k (chain mid last ks).1 (chain mid last ks).2 nil)

theorem data_chain (mid last : α) (p q : List κ) :
    (descend q (chain mid last p)).map Prod.fst =
      if q = p then some last else if q <+: p then some mid else none := by
  induction p generalizing q with
  | nil =>
    cases q with
    | nil => rfl
    | cons x xs => simp [chain, descend_cons]
  | cons k ks ih =>
    cases q with
    | nil => simp [chain]
    | cons x xs =>
      rw [chain, descend_cons, find_node]
      by_cases hx : x = k
      · subst hx
        rw [if_pos rfl, Option.bind_some, ih]
        simp
      · simp [hx, List.prefix_cons_iff]

end Paths

section Grow
variable [LinearOrder κ]

/-- Adds what a path lacks below an entry: `last` at its end and `mid` on the way to it. -/
def growBelow (mid last : α) : List κ → α × Forest κ α → α × Forest κ α
  | [], e => e
  | k :: ks, e =>
    match find k e.2 with
    | none => (e.1, add k (chain mid last ks) e.2)
    | some e' => (e.1, set k (growBelow mid last ks e') e.2)

/-- A path that was not there leads to `last` afterwards, over what was there already or `mid`. -/
theorem data_growBelow (mid last : α) {p : List κ} {e : α × Forest κ α} (h : descend p e = none)
    (q : List κ) :
    (descend q (growBelow mid last p e)).map Prod.fst =
      if q = p then some last
      else if q <+: p then some (((descend q e).map Prod.fst).getD mid)
      else (descend q e).map Prod.fst := by
  induction p generalizing e q with
  | nil => simp at h
  | cons k ks ih =>
    rw [growBelow]
    cases hk : find k e.2 with
    | none =>
      cases q with
      | nil => simp
      | cons x xs =>
        dsimp only
        rw [descend_cons, descend_cons]
        by_cases hx : x = k
        · subst hx
          rw [find_add_self hk, hk, Option.bind_some, data_chain]
          simp
        · rw [find_add_ne hx]
          simp [hx, List.prefix_cons_iff]
    | some e₁ =>
      rw [descend_cons, hk, Option.bind_some] at h
      cases q with
      | nil => simp
      | cons x xs =>
        dsimp only
        rw [descend_cons, descend_cons]
        by_cases hx : x = k
        · subst hx
          rw [find_set_self hk, hk, Option.bind_some, Option.bind_some, ih h]
          simp
        · rw [find_set_ne hx]
          simp [hx, List.prefix_cons_iff]

end Grow

/-! ## Changing many entries -/

def mapData (f : α → β) : Forest κ α → Forest κ β
  | nil => nil
  | node k a b r => node k (f a) (mapData f b) (mapData f r)

/-- Changes the data of the first entries that meet `P` on the way down, and leaves what is below
them. -/
def mapFirst (P : α → Bool) (f : α → α) : Forest κ α → Forest κ α
  | nil => nil
  | node k a b r =>
    if P a then node k (f a) b (mapFirst P f r)
    else node k a (mapFirst P f b) (mapFirst P f r)

section Many
variable [DecidableEq κ]

theorem find_mapData (f : α → β) (k : κ) (t : Forest κ α) :
    find k (mapData f t) = (find k t).map fun e => (f e.1, mapData f e.2) := by
  induction t with
  | nil => rfl
  | node k' a b r _ ih =>
    rw [mapData, find_node, find_node, ih]
    split <;> rfl

theorem descend_mapData (f : α → β) (q : List κ) (e : α × Forest κ α) :
    descend q (f e.1, mapData f e.2) = (descend q e).map fun e => (f e.1, mapData f e.2) := by
  induction q generalizing e with
  | nil => rfl
  | cons x xs ih =>
    rw [descend_cons, descend_cons, find_mapData]
    cases find x e.2 with
    | none => rfl
    | some e' => exact ih e'

theorem dataAt_changeAt_mapData {f : α × Forest κ α → α × Forest κ α} {g : α → α} {p : List κ}
    {t : Forest κ α} {e : α × Forest κ α} {a : α} (h : entryAt p t = some e)
    (hf : f e = (a, mapData g e.2)) (q : List κ) :
    dataAt q (changeAt f p t) =
      if q = p then some a else if p <+: q then (dataAt q t).map g else dataAt q t := by
  by_cases hpq : p <+: q
  · obtain ⟨r, rfl⟩ := hpq
    rw [dataAt_changeAt_append h, dataAt_append h, hf]
    cases r with
    | nil => simp
    | cons x xs =>
      rw [if_neg (by simp), if_pos (by simp), descend_eq (by simp) _ (g e.1), descend_mapData,
        Option.map_map, Option.map_map]
      rfl
  · rw [dataAt_changeAt_of_not_isPrefix hpq, if_neg, if_neg hpq]
    rintro rfl
    exact hpq List.prefix_rfl

theorem find_mapFirst (P : α → Bool) (f : α → α) (k : κ) (t : Forest κ α) :
    find k (mapFirst P f t) =
      (find k t).map fun e => if P e.1 then (f e.1, e.2) else (e.1, mapFirst P f e.2) := by
  induction t with
  | nil => rfl
  | node k' a b r _ ih =>
    rw [mapFirst, find_node]
    by_cases hP : P a
    · rw [if_pos hP, find_node, ih]
      split
      · simp [hP]
      · rfl
    · rw [if_neg hP, find_node, ih]
      split
      · simp [hP]
      · rfl

/-- Nothing that meets `P` lies strictly between an entry and the end of a path from it. -/
def ClearTo (P : α → Bool) (q : List κ) (e : α × Forest κ α) : Prop :=
  ∀ r, r ≠ [] → r <+: q → r ≠ q → ∀ e', descend r e = some e' → P e'.1 = false

theorem clearTo_singleton (P : α → Bool) (x : κ) (e : α × Forest κ α) : ClearTo P [x] e := by
  intro r hr hrx hne
  rcases List.prefix_cons_iff.mp hrx with rfl | ⟨s, rfl, hs⟩
  · exact absurd rfl hr
  · exact absurd (by rw [List.prefix_nil.mp hs]) hne

theorem clearTo_cons_cons {P : α → Bool} {x y : κ} {ys : List κ} {e e₁ : α × Forest κ α}
    (hx : find x e.2 = some e₁) :
    ClearTo P (x :: y :: ys) e ↔ P e₁.1 = false ∧ ClearTo P (y :: ys) e₁ := by
  constructor
  · intro h
    refine ⟨h [x] (by simp) (by simp) (by simp) e₁ (by simp [descend_cons, hx]), ?_⟩
    intro r hr hrq hne e' he'
    exact h (x :: r) (by simp) (by simpa using hrq) (by simpa using hne) e'
      (by rw [descend_cons, hx, Option.bind_some, he'])
  · rintro ⟨h₁, h⟩ r hr hrq hne e' he'
    rcases List.prefix_cons_iff.mp hrq with rfl | ⟨s, rfl, hs⟩
    · exact absurd rfl hr
    · rw [descend_cons, hx, Option.bind_some] at he'
      rcases s with _ | ⟨z, zs⟩
      · obtain rfl := Option.some.inj he'
        exact h₁
      · exact h (z :: zs) (by simp) hs (by simpa using hne) e' he'

open Classical in
theorem data_mapFirst (P : α → Bool) (f : α → α) {q : List κ} (hq : q ≠ []) (e : α × Forest κ α) :
    (descend q (e.1, mapFirst P f e.2)).map Prod.fst =
      (descend q e).map fun e' => if P e'.1 ∧ ClearTo P q e then f e'.1 else e'.1 := by
  induction q generalizing e with
  | nil => exact absurd rfl hq
  | cons x xs ih =>
    rw [descend_cons, descend_cons, find_mapFirst]
    cases hx : find x e.2 with
    | none => rfl
    | some e₁ =>
      rw [Option.map_some, Option.bind_some, Option.bind_some]
      rcases xs with _ | ⟨y, ys⟩
      · by_cases hP : P e₁.1 <;> simp [hP, clearTo_singleton]
      · rw [clearTo_cons_cons hx]
        by_cases hP : P e₁.1
        · rw [if_pos hP]
          simp only [hP, Bool.true_eq_false, false_and, and_false, if_false]
          rfl
        · rw [if_neg hP, ih (by simp)]
          simp only [hP, true_and]

open Classical in
/-- A change of the data of one entry together with the first data below it that meet `P`. -/
theorem dataAt_changeAt_mapFirst {f : α × Forest κ α → α × Forest κ α} {P : α → Bool} {g : α → α}
    {p : List κ} {t : Forest κ α} {e : α × Forest κ α} {a : α} (h : entryAt p t = some e)
    (hf : f e = (a, mapFirst P g e.2)) {r : List κ} (hr : r ≠ []) :
    dataAt (p ++ r) (changeAt f p t) =
      (dataAt (p ++ r) t).map fun d => if P d ∧ ClearTo P r e then g d else d := by
  rw [dataAt_changeAt_append h, dataAt_append h, hf, descend_eq hr _ e.1, data_mapFirst P g hr e,
    Option.map_map]
  rfl

end Many

end Forest

end ComSA
