import Mathlib.Data.List.Nodup
import ComSA.Lib.Forest

/-!
# Visiting a forest

Every entry lists the names below it in an order of its own. A visit follows these
lists and takes each entry after the entries below it.
-/

namespace ComSA.Forest

variable {κ α : Type*}

section
variable [DecidableEq κ]

/-- What holds of an entry when it holds of the entries right below it holds of every entry. -/
theorem entry_induction {Q : α × Forest κ α → Prop}
    (h : ∀ e, (∀ k e', find k e.2 = some e' → Q e') → Q e) (e : α × Forest κ α) : Q e := by
  have hall : ∀ t : Forest κ α, ∀ k e', find k t = some e' → Q e' := by
    intro t
    induction t with
    | nil => intro k e' he'; cases he'
    | node name a b r ihb ihr =>
      intro k e' he'
      rw [find_node] at he'
      split at he'
      · obtain rfl := Option.some.inj he'
        exact h _ ihb
      · exact ihr k e' he'
  exact h e (hall e.2)

def pick {β : Type*} (k : κ) : List (κ × List β) → List β
  | [] => []
  | (k', l) :: r => if k = k' then l else pick k r

/-- The visit of each entry of a map that stands at the end of path `p`. -/
def visits (order : α → List κ) (p : List κ) : Forest κ α → List (κ × List (List κ × α))
  | nil => []
  | node k a b r =>
    (k, ((order a).flatMap fun n => pick n (visits order (p ++ [k]) b)) ++ [(p ++ [k], a)]) ::
      visits order p r

/-- The visit of the entry at the end of path `p`: each entry with its path. -/
def visit (order : α → List κ) (p : List κ) (e : α × Forest κ α) : List (List κ × α) :=
  ((order e.1).flatMap fun n => pick n (visits order p e.2)) ++ [(p, e.1)]

theorem pick_visits (order : α → List κ) (p : List κ) (n : κ) (t : Forest κ α) :
    pick n (visits order p t) = ((find n t).map (visit order (p ++ [n]))).getD [] := by
  induction t with
  | nil => rfl
  | node k a b r _ ih =>
    rw [visits, pick, find_node]
    split <;> rename_i h
    · subst h
      rfl
    · exact ih

theorem visit_eq (order : α → List κ) (p : List κ) (e : α × Forest κ α) :
    visit order p e =
      ((order e.1).flatMap fun n => ((find n e.2).map (visit order (p ++ [n]))).getD []) ++
        [(p, e.1)] := by
  rw [visit]
  simp only [pick_visits]

def Ordered (order : α → List κ) (e : α × Forest κ α) : Prop :=
  ∀ q e', descend q e = some e' →
    (order e'.1).Nodup ∧ ∀ n, n ∈ order e'.1 ↔ ∃ e'', find n e'.2 = some e''

def OrderedHere (order : α → List κ) (e : α × Forest κ α) : Prop :=
  (order e.1).Nodup ∧ ∀ n, n ∈ order e.1 ↔ ∃ e', find n e.2 = some e'

theorem ordered_iff {order : α → List κ} {e : α × Forest κ α} :
    Ordered order e ↔
      OrderedHere order e ∧ ∀ n e', find n e.2 = some e' → Ordered order e' := by
  constructor
  · intro h
    refine ⟨h [] e rfl, fun n e' hn q e'' hq => h (n :: q) e'' ?_⟩
    rw [descend_cons, hn, Option.bind_some, hq]
  · rintro ⟨h, hc⟩ q e'' hq
    rcases q with _ | ⟨n, q⟩
    · obtain rfl := Option.some.inj hq
      exact h
    · cases hn : find n e.2 with
      | none => rw [descend_cons, hn] at hq; cases hq
      | some e' =>
        rw [descend_cons, hn, Option.bind_some] at hq
        exact hc n e' hn q e'' hq

theorem ordered_empty {order : α → List κ} {a : α} (h : order a = []) :
    Ordered order (a, (nil : Forest κ α)) := by
  rw [ordered_iff]
  refine ⟨⟨by simp [h], by simp [h]⟩, fun n e' hn => by simp at hn⟩

theorem ordered_set {order : α → List κ} {e e₀ e₁ : α × Forest κ α} {k : κ} (h : Ordered order e)
    (hk : find k e.2 = some e₀) (h₁ : Ordered order e₁) : Ordered order (e.1, set k e₁ e.2) := by
  obtain ⟨⟨hnd, hmem⟩, hc⟩ := ordered_iff.mp h
  have hfind : ∀ n, find n (set k e₁ e.2) = if n = k then some e₁ else find n e.2 := by
    intro n
    split <;> rename_i hn
    · subst hn
      exact find_set_self hk _
    · exact find_set_ne hn _ _
  refine ordered_iff.mpr ⟨⟨hnd, fun n => ?_⟩, fun n e' hn => ?_⟩
  · rw [hmem, hfind]
    split <;> rename_i hn
    · subst hn
      simp [hk]
    · rfl
  · rw [hfind] at hn
    split at hn
    · obtain rfl := Option.some.inj hn
      exact h₁
    · exact hc n e' hn

/-- A change that keeps the lists of one entry and below ordered keeps those of the whole forest. -/
theorem ordered_changeBelow {order : α → List κ} {f : α × Forest κ α → α × Forest κ α}
    (hf : ∀ e, Ordered order e → Ordered order (f e)) {p : List κ} {e : α × Forest κ α}
    (h : Ordered order e) : Ordered order (changeBelow f p e) := by
  induction p generalizing e with
  | nil => exact hf e h
  | cons k ks ih =>
    cases hk : find k e.2 with
    | none => rwa [changeBelow, hk]
    | some e' =>
      rw [changeBelow_cons hk]
      exact ordered_set h hk (ih ((ordered_iff.mp h).2 k e' hk))

theorem Ordered.child {order : α → List κ} {e e' : α × Forest κ α} (h : Ordered order e) {n : κ}
    (hn : find n e.2 = some e') : Ordered order e' := (ordered_iff.mp h).2 n e' hn

theorem mem_visit {order : α → List κ} {e : α × Forest κ α} (h : Ordered order e) (p : List κ)
    (x : List κ × α) :
    x ∈ visit order p e ↔ ∃ q, x.1 = p ++ q ∧ (descend q e).map Prod.fst = some x.2 := by
  induction e using entry_induction generalizing p with
  | h e ih =>
    rw [visit_eq, List.mem_append, List.mem_flatMap, List.mem_singleton]
    constructor
    · rintro (⟨n, hn, hx⟩ | rfl)
      · obtain ⟨e', he'⟩ := ((h [] e rfl).2 n).mp hn
        rw [he', Option.map_some, Option.getD_some, ih n e' he' (h.child he')] at hx
        obtain ⟨q, hq, hd⟩ := hx
        refine ⟨n :: q, by simpa using hq, ?_⟩
        rw [descend_cons, he', Option.bind_some, hd]
      · exact ⟨[], by simp, rfl⟩
    · rintro ⟨q, hq, hd⟩
      rcases q with _ | ⟨n, q⟩
      · right
        simp only [descend_nil, Option.map_some, Option.some.injEq] at hd
        ext1
        · simpa using hq
        · exact hd.symm
      · left
        cases he' : find n e.2 with
        | none => rw [descend_cons, he'] at hd; cases hd
        | some e' =>
          rw [descend_cons, he', Option.bind_some] at hd
          refine ⟨n, ((h [] e rfl).2 n).mpr ⟨e', he'⟩, ?_⟩
          rw [he', Option.map_some, Option.getD_some, ih n e' he' (h.child he')]
          exact ⟨q, by simpa using hq, hd⟩

/-- A visit takes the branches below an entry in the order of its list, and the entry itself after them. -/
theorem visit_pairwise_of {order : α → List κ} {P : List κ → List κ → Prop} {R : List κ → κ → κ → Prop}
    (hbranch : ∀ {q r s : List κ} {n m : κ}, n ≠ m → R q n m → P (q ++ n :: r) (q ++ m :: s))
    (hself : ∀ (q : List κ) (n : κ) (r : List κ), P (q ++ n :: r) q) {e : α × Forest κ α} (h : Ordered order e)
    (p : List κ) (hR : ∀ q e', descend q e = some e' → (order e'.1).Pairwise (R (p ++ q))) :
    (visit order p e).Pairwise fun x y => P x.1 y.1 := by
  induction e using entry_induction generalizing p with
  | h e ih =>
    have hbelow : ∀ {n e'}, find n e.2 = some e' →
        ∀ q e'', descend q e' = some e'' → (order e''.1).Pairwise (R (p ++ [n] ++ q)) := by
      intro n e' he' q e'' hq
      have := hR (n :: q) e'' (by rw [descend_cons, he', Option.bind_some, hq])
      rwa [List.append_assoc, List.singleton_append]
    rw [visit_eq, List.pairwise_append]
    refine ⟨?_, List.pairwise_singleton _ _, ?_⟩
    · rw [List.pairwise_flatMap]
      constructor
      · intro n hn
        obtain ⟨e', he'⟩ := ((h [] e rfl).2 n).mp hn
        rw [he', Option.map_some, Option.getD_some]
        exact ih n e' he' (h.child he') _ (hbelow he')
      · have hpair := (hR [] e rfl).and (h [] e rfl).1
        refine hpair.imp_of_mem ?_
        rintro n m hn hm ⟨hnm, hne⟩ x hx y hy
        obtain ⟨e', he'⟩ := ((h [] e rfl).2 n).mp hn
        obtain ⟨e'', he''⟩ := ((h [] e rfl).2 m).mp hm
        rw [he', Option.map_some, Option.getD_some, mem_visit (h.child he')] at hx
        rw [he'', Option.map_some, Option.getD_some, mem_visit (h.child he'')] at hy
        obtain ⟨q, hq, _⟩ := hx
        obtain ⟨r, hr, _⟩ := hy
        rw [hq, hr, List.append_assoc, List.append_assoc]
        exact hbranch hne (by simpa using hnm)
    · intro x hx y hy
      rw [List.mem_singleton] at hy
      subst hy
      obtain ⟨n, hn, hx⟩ := List.mem_flatMap.mp hx
      obtain ⟨e', he'⟩ := ((h [] e rfl).2 n).mp hn
      rw [he', Option.map_some, Option.getD_some, mem_visit (h.child he')] at hx
      obtain ⟨q, hq, _⟩ := hx
      rw [hq, List.append_assoc]
      exact hself p n q

theorem visit_pairwise {order : α → List κ} {e : α × Forest κ α} (h : Ordered order e)
    (p : List κ) : (visit order p e).Pairwise fun x y => ¬ x.1 <+: y.1 := by
  refine visit_pairwise_of (P := fun x y => ¬ x <+: y) (R := fun _ _ _ => True) ?_ ?_ h p fun _ _ _ =>
    List.pairwise_of_forall fun _ _ => trivial
  · -- two names of one map start two branches, and neither is a prefix of the other
    intro q r s n m hne _ hprefix
    rw [List.prefix_append_right_inj, List.cons_prefix_cons] at hprefix
    exact hne hprefix.1
  · intro q n r hprefix
    have := hprefix.length_le
    simp only [List.length_append, List.length_cons] at this
    omega

/-- The names of two entries right below `q`, when they are in the order that the list of `q` is in. -/
def InOrder (R : List κ → κ → κ → Prop) (x y : List κ) : Prop :=
  ∀ q a b, x = q ++ [a] → y = q ++ [b] → R q a b

omit [DecidableEq κ] in
/-- Two paths that go on with different names differ in the same place as the names right below it. -/
theorem inOrder_of_ne {R : List κ → κ → κ → Prop} {p r s : List κ} {n m : κ} (hne : n ≠ m) (h : R p n m) :
    InOrder R (p ++ n :: r) (p ++ m :: s) := by
  intro q a b hx hy
  have hq : q = p ++ (n :: r).dropLast := by
    have := congrArg List.dropLast hx
    rw [List.dropLast_concat, List.dropLast_append_cons] at this
    exact this.symm
  have hq' : q = p ++ (m :: s).dropLast := by
    have := congrArg List.dropLast hy
    rw [List.dropLast_concat, List.dropLast_append_cons] at this
    exact this.symm
  have hdrop := List.append_cancel_left (hq.symm.trans hq')
  cases r with
  | nil =>
    cases s with
    | nil =>
      obtain rfl : q = p := by simpa using hq
      obtain rfl : n = a := by simpa using hx
      obtain rfl : m = b := by simpa using hy
      exact h
    | cons => simp at hdrop
  | cons =>
    cases s with
    | nil => simp at hdrop
    | cons => simp [hne] at hdrop

/-- A visit takes the entries right below another one in the order of its list. -/
theorem visit_inOrder {order : α → List κ} {R : List κ → κ → κ → Prop} {e : α × Forest κ α}
    (h : Ordered order e) (p : List κ)
    (hR : ∀ q e', descend q e = some e' → (order e'.1).Pairwise (R (p ++ q))) :
    (visit order p e).Pairwise fun x y => InOrder R x.1 y.1 := by
  refine visit_pairwise_of inOrder_of_ne (fun q n r above a b hx hy => ?_) h p hR
  -- the entry itself is one level above those that were visited before
  have hlen := congrArg List.length hx
  have hlen' := congrArg List.length hy
  simp only [List.length_append, List.length_cons, List.length_nil] at hlen hlen'
  omega

/-! ## In the order of the map -/

def listing (p : List κ) : Forest κ α → List (List κ × α)
  | nil => []
  | node k a b r => listing (p ++ [k]) b ++ [(p ++ [k], a)] ++ listing p r

def Unique : Forest κ α → Prop
  | nil => True
  | node k _ b r => find k r = none ∧ Unique b ∧ Unique r

theorem mem_listing {t : Forest κ α} (h : Unique t) (p : List κ) (x : List κ × α) :
    x ∈ listing p t ↔ ∃ q, x.1 = p ++ q ∧ dataAt q t = some x.2 := by
  induction t generalizing p with
  | nil => simp [listing]
  | node k a b r ihb ihr =>
    obtain ⟨hk, hb, hr⟩ := h
    rw [listing, List.mem_append, List.mem_append, ihb hb, ihr hr, List.mem_singleton]
    constructor
    · rintro ((⟨q, hq, hd⟩ | rfl) | ⟨q, hq, hd⟩)
      · refine ⟨k :: q, by simpa using hq, ?_⟩
        rw [dataAt, entryAt_cons, find_node, if_pos rfl, Option.bind_some, ← hd, dataAt,
          entryAt_eq (by rintro rfl; simp at hd) _ a]
      · exact ⟨[k], rfl, by rw [dataAt, entryAt_cons, find_node, if_pos rfl]; rfl⟩
      · refine ⟨q, hq, ?_⟩
        rcases q with _ | ⟨n, q⟩
        · simp at hd
        · rw [dataAt, entryAt_cons, find_node, if_neg, ← hd, dataAt, entryAt_cons]
          rintro rfl
          rw [dataAt, entryAt_cons, hk] at hd
          cases hd
    · rintro ⟨q, hq, hd⟩
      rcases q with _ | ⟨n, q⟩
      · simp at hd
      · rw [dataAt, entryAt_cons, find_node] at hd
        split at hd <;> rename_i hn
        · subst hn
          rcases q with _ | ⟨m, q⟩
          · left; right
            rw [Option.bind_some, descend_nil, Option.map_some, Option.some.injEq] at hd
            ext1
            · exact hq
            · exact hd.symm
          · left; left
            exact ⟨m :: q, by simpa using hq, by rw [dataAt, entryAt_eq (by simp) _ a]; exact hd⟩
        · right
          exact ⟨n :: q, hq, hd⟩

theorem prefix_of_mem_listing {p : List κ} {t : Forest κ α} {x : List κ × α}
    (h : x ∈ listing p t) : ∃ k q, x.1 = p ++ k :: q ∧ ∃ e, find k t = some e := by
  induction t generalizing p with
  | nil => cases h
  | node n a b r ihb ihr =>
    rw [listing, List.mem_append, List.mem_append, List.mem_singleton] at h
    rcases h with (h | rfl) | h
    · obtain ⟨k, q, hx, _⟩ := ihb h
      exact ⟨n, k :: q, by simpa using hx, _, if_pos rfl⟩
    · exact ⟨n, [], rfl, _, if_pos rfl⟩
    · obtain ⟨k, q, hx, e, he⟩ := ihr h
      by_cases hk : k = n
      · exact ⟨k, q, hx, _, if_pos hk⟩
      · exact ⟨k, q, hx, e, (if_neg hk).trans he⟩

theorem listing_pairwise {t : Forest κ α} (h : Unique t) (p : List κ) :
    (listing p t).Pairwise fun x y => ¬ x.1 <+: y.1 := by
  induction t generalizing p with
  | nil => exact List.Pairwise.nil
  | node k a b r ihb ihr =>
    obtain ⟨hk, hb, hr⟩ := h
    rw [listing, List.pairwise_append, List.pairwise_append]
    refine ⟨⟨ihb hb _, List.pairwise_singleton _ _, ?_⟩, ihr hr _, ?_⟩
    · intro x hx y hy hxy
      obtain ⟨n, q, hxq, _⟩ := prefix_of_mem_listing hx
      rw [List.mem_singleton] at hy
      subst hy
      have := hxy.length_le
      rw [hxq] at this
      simp only [List.length_append, List.length_cons, List.length_nil] at this
      omega
    · intro x hx y hy hxy
      obtain ⟨m, q, hyq, e, he⟩ := prefix_of_mem_listing hy
      have hxk : p ++ [k] <+: x.1 := by
        rcases List.mem_append.mp hx with hx | hx
        · obtain ⟨n, q', hxq, _⟩ := prefix_of_mem_listing hx
          rw [hxq]
          exact List.prefix_append _ _
        · rw [List.mem_singleton] at hx
          subst hx
          exact List.prefix_rfl
      -- The rest of the map holds other names only.
      have hkm : p ++ [k] <+: p ++ m :: q := hyq ▸ hxk.trans hxy
      rw [List.prefix_append_right_inj, List.cons_prefix_cons] at hkm
      obtain ⟨rfl, _⟩ := hkm
      rw [hk] at he
      cases he

/-! ### Names stay unique -/

theorem Unique.find {t : Forest κ α} (h : Unique t) {k : κ} {e : α × Forest κ α}
    (he : find k t = some e) : Unique e.2 := by
  induction t with
  | nil => cases he
  | node n a b r _ ihr =>
    rw [find_node] at he
    split at he
    · obtain rfl := Option.some.inj he
      exact h.2.1
    · exact ihr h.2.2 he

theorem find_set_none {k k' : κ} {e : α × Forest κ α} {t : Forest κ α} (h : Forest.find k t = none) :
    Forest.find k (set k' e t) = none := by
  by_cases hk : k = k'
  · subst hk
    induction t with
    | nil => rfl
    | node n a b r _ ih =>
      rw [find_node] at h
      split at h
      · cases h
      · rename_i hn
        rw [set, if_neg hn, find_node, if_neg hn, ih h]
  · rw [find_set_ne hk, h]

theorem Unique.set {t : Forest κ α} (h : Unique t) {e : α × Forest κ α} (he : Unique e.2) (k : κ) :
    Unique (set k e t) := by
  induction t with
  | nil => trivial
  | node n a b r _ ih =>
    rw [Forest.set]
    split
    · exact ⟨h.1, he, h.2.2⟩
    · exact ⟨find_set_none h.1, h.2.1, ih h.2.2⟩

theorem Unique.mapData {β : Type*} {t : Forest κ α} (h : Unique t) (f : α → β) :
    Unique (mapData f t) := by
  induction t with
  | nil => trivial
  | node n a b r ihb ihr =>
    exact ⟨by rw [find_mapData, h.1]; rfl, ihb h.2.1, ihr h.2.2⟩

theorem Unique.mapFirst {t : Forest κ α} (h : Unique t) (P : α → Bool) (f : α → α) :
    Unique (mapFirst P f t) := by
  induction t with
  | nil => trivial
  | node n a b r ihb ihr =>
    have hn : Forest.find n (Forest.mapFirst P f r) = none := by rw [find_mapFirst, h.1]; rfl
    rw [Forest.mapFirst]
    split
    · exact ⟨hn, h.2.1, ihr h.2.2⟩
    · exact ⟨hn, ihb h.2.1, ihr h.2.2⟩

theorem Unique.changeBelow {f : α × Forest κ α → α × Forest κ α}
    (hf : ∀ e, Unique e.2 → Unique (f e).2) {p : List κ} {e : α × Forest κ α} (h : Unique e.2) :
    Unique (changeBelow f p e).2 := by
  induction p generalizing e with
  | nil => exact hf e h
  | cons k ks ih =>
    cases hk : Forest.find k e.2 with
    | none => rwa [Forest.changeBelow, hk]
    | some e' =>
      rw [changeBelow_cons hk]
      exact h.set (ih (h.find hk)) k

theorem Unique.descend {p : List κ} {e e' : α × Forest κ α} (h : Unique e.2)
    (hp : descend p e = some e') : Unique e'.2 := by
  induction p generalizing e with
  | nil =>
    obtain rfl := Option.some.inj hp
    exact h
  | cons k ks ih =>
    rw [descend_cons] at hp
    cases hk : Forest.find k e.2 with
    | none => rw [hk] at hp; cases hp
    | some e₁ =>
      rw [hk, Option.bind_some] at hp
      exact ih (h.find hk) hp

theorem Unique.erase {t : Forest κ α} (h : Unique t) (k : κ) : Unique (erase k t) := by
  induction t with
  | nil => trivial
  | node n a b r _ ih =>
    rw [Forest.erase]
    split
    · exact ih h.2.2
    · refine ⟨?_, h.2.1, ih h.2.2⟩
      by_cases hk : n = k
      · subst hk
        exact find_erase_self _ _
      · rw [find_erase_ne hk, h.1]

theorem mem_names {n : κ} {t : Forest κ α} : n ∈ names t ↔ ∃ e, Forest.find n t = some e := by
  induction t with
  | nil => simp [names]
  | node k a b r _ ih =>
    rw [names, List.mem_cons, ih, find_node]
    split <;> rename_i hn <;> simp [hn]

theorem Unique.nodup_names {t : Forest κ α} (h : Unique t) : (names t).Nodup := by
  induction t with
  | nil => exact List.nodup_nil
  | node k a b r _ ih =>
    refine List.nodup_cons.mpr ⟨fun hk => ?_, ih h.2.2⟩
    obtain ⟨e, he⟩ := mem_names.mp hk
    rw [h.1] at he
    cases he

theorem OrderedHere.perm {order : α → List κ} {e : α × Forest κ α} (h : OrderedHere order e)
    (hunique : Unique e.2) : (order e.1).Perm (names e.2) :=
  (List.perm_ext_iff_of_nodup h.1 hunique.nodup_names).mpr fun n => by rw [h.2, mem_names]

theorem unique_chain (mid last : α) (p : List κ) : Unique (chain mid last p).2 := by
  induction p with
  | nil => trivial
  | cons k ks ih => exact ⟨rfl, ih, trivial⟩

end

section
variable [LinearOrder κ]

theorem Unique.add {t : Forest κ α} (h : Unique t) {e : α × Forest κ α} (he : Unique e.2) {k : κ}
    (hk : Forest.find k t = none) : Unique (add k e t) := by
  induction t with
  | nil => exact ⟨rfl, he, trivial⟩
  | node n a b r _ ih =>
    rw [find_node] at hk
    split at hk <;> rename_i hn
    · cases hk
    · rw [Forest.add, if_neg hn]
      split
      · exact ⟨by rw [find_node, if_neg hn, hk], he, h⟩
      · exact ⟨by rw [find_add_ne (Ne.symm hn), h.1], h.2.1, ih h.2.2 hk⟩

end

end ComSA.Forest
