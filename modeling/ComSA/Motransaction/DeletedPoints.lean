import ComSA.Lib.Cover
import ComSA.Lib.Run
import ComSA.Motransaction.DeletedObjects

/-!
# Deletion points

What the multilevel map means: the active points delete the names they cover, and
the marked points, active or dormant, are those that can become active again.
-/

namespace ComSA.DeletedObjects

open Forest

/-! ## The points of a map -/

def active (map : DeletedMap) : Set (List String) :=
  {p | ∃ d, map.dataAt p = some d ∧ d.isActive = true}

def marked (map : DeletedMap) : Set (List String) :=
  {p | ∃ d, map.dataAt p = some d ∧ (d.isActive = true ∨ d.isDormant = true)}

theorem mem_active {map : DeletedMap} {p : List String} :
    p ∈ active map ↔ ∃ d, map.dataAt p = some d ∧ d.isActive = true := Iff.rfl

theorem mem_marked {map : DeletedMap} {p : List String} :
    p ∈ marked map ↔ ∃ d, map.dataAt p = some d ∧ (d.isActive = true ∨ d.isDormant = true) := Iff.rfl

theorem active_subset_marked (map : DeletedMap) : active map ⊆ marked map := by
  rintro p ⟨d, hd, ha⟩
  exact ⟨d, hd, Or.inl ha⟩

theorem ne_nil_of_mem_marked {map : DeletedMap} {p : List String} (h : p ∈ marked map) : p ≠ [] := by
  rintro rfl
  obtain ⟨d, hd, _⟩ := h
  simp at hd

theorem mem_active_cons {part : String} {rest : List String} {map : DeletedMap} :
    part :: rest ∈ active map ↔
      ∃ entry, map.find part = some entry ∧
        ((rest = [] ∧ entry.1.isActive = true) ∨ rest ∈ active entry.2) := by
  rw [mem_active, dataAt, entryAt_cons]
  cases hf : map.find part with
  | none => simp
  | some entry =>
    rw [Option.bind_some]
    rcases rest with _ | ⟨x, xs⟩
    · constructor
      · rintro ⟨d, hd, ha⟩
        obtain rfl := Option.some.inj hd
        exact ⟨entry, rfl, Or.inl ⟨rfl, ha⟩⟩
      · rintro ⟨e', he', ⟨_, ha⟩ | h⟩
        · obtain rfl := Option.some.inj he'
          exact ⟨entry.1, rfl, ha⟩
        · exact absurd rfl (ne_nil_of_mem_marked (active_subset_marked e'.2 h))
    · simp [mem_active, dataAt, entryAt_cons, descend_cons]

theorem isDeleted_iff (parts : List String) (map : DeletedMap) :
    isDeleted parts map = true ↔ Covers (active map) parts := by
  induction parts generalizing map with
  | nil =>
    simp only [isDeleted, Bool.false_eq_true, false_iff]
    rintro ⟨p, hp, hnil⟩
    exact ne_nil_of_mem_marked (active_subset_marked map hp) (List.prefix_nil.mp hnil)
  | cons part rest ih =>
    rw [isDeleted]
    cases hf : map.find part with
    | none =>
      simp only [Bool.false_eq_true, false_iff]
      rintro ⟨p, hp, hpre⟩
      rcases List.prefix_cons_iff.mp hpre with rfl | ⟨s, rfl, _⟩
      · exact ne_nil_of_mem_marked (active_subset_marked map hp) rfl
      · obtain ⟨entry, he, _⟩ := mem_active_cons.mp hp
        rw [hf] at he
        cases he
    | some entry =>
      dsimp only
      split <;> rename_i ha
      · simp only [true_iff]
        exact ⟨[part], mem_active_cons.mpr ⟨entry, hf, Or.inl ⟨rfl, ha⟩⟩, by simp⟩
      · rw [ih]
        constructor
        · rintro ⟨s, hs, hsr⟩
          exact ⟨part :: s, mem_active_cons.mpr ⟨entry, hf, Or.inr hs⟩, by simpa using hsr⟩
        · rintro ⟨p, hp, hpre⟩
          rcases List.prefix_cons_iff.mp hpre with rfl | ⟨s, rfl, hs⟩
          · exact absurd rfl (ne_nil_of_mem_marked (active_subset_marked map hp))
          · obtain ⟨e', he', hor⟩ := mem_active_cons.mp hp
            obtain rfl : entry = e' := Option.some.inj (hf.symm.trans he')
            rcases hor with ⟨_, hact⟩ | hs'
            · exact absurd hact ha
            · exact ⟨s, hs', hs⟩

/-! ## What `insert` does -/

theorem insertWalk_of_some {immName : String} {rest : List String} {entry last : DeletedEntry}
    (h : descend rest entry = some last) (found : Bool) :
    insertWalk immName rest found entry =
      changeBelow (insertWalk immName [] (found || isDeleted rest entry.2)) rest entry := by
  induction rest generalizing entry found with
  | nil => simp [changeBelow, isDeleted]
  | cons part rest ih =>
    cases hf : entry.2.find part with
    | none => rw [descend_cons, hf, Option.bind_none] at h; cases h
    | some next =>
      rw [descend_cons, hf, Option.bind_some] at h
      rw [insertWalk, hf, changeBelow_cons hf, isDeleted, hf]
      dsimp only
      rw [ih h]
      cases next.1.isActive <;> simp

theorem insertWalk_of_none {immName : String} {rest : List String} {entry : DeletedEntry}
    (h : descend rest entry = none) (found : Bool) :
    insertWalk immName rest found entry = growBelow {} (newPoint immName) rest entry := by
  induction rest generalizing entry found with
  | nil => simp at h
  | cons part rest ih =>
    rw [insertWalk, growBelow]
    cases hf : entry.2.find part with
    | none => rfl
    | some next =>
      rw [descend_cons, hf, Option.bind_some] at h
      dsimp only
      rw [ih h]

theorem insert_of_topActive {first : String} {rest : List String} {map : DeletedMap}
    (h : [first] ∈ active map) (immName : String) : insert (first :: rest) immName map = map := by
  obtain ⟨entry, he, ⟨_, ha⟩ | hnil⟩ := mem_active_cons.mp h
  · rw [insert, he]
    dsimp only
    rw [if_pos ha]
  · exact absurd rfl (ne_nil_of_mem_marked (active_subset_marked _ hnil))

theorem find_not_active {first : String} {map : DeletedMap} {entry : DeletedEntry}
    (h : [first] ∉ active map) (he : map.find first = some entry) : entry.1.isActive = false := by
  rw [← Bool.not_eq_true]
  exact fun ha => h (mem_active_cons.mpr ⟨entry, he, Or.inl ⟨rfl, ha⟩⟩)

theorem insert_of_some {first : String} {rest : List String} {map : DeletedMap}
    {last : DeletedEntry} (htop : [first] ∉ active map)
    (h : map.entryAt (first :: rest) = some last) (immName : String) :
    insert (first :: rest) immName map =
      map.changeAt (insertWalk immName [] (isDeleted (first :: rest) map)) (first :: rest) := by
  rw [insert, isDeleted]
  cases hf : map.find first with
  | none => rw [entryAt_cons, hf, Option.bind_none] at h; cases h
  | some entry =>
    rw [entryAt_cons, hf, Option.bind_some] at h
    have ha := find_not_active htop hf
    dsimp only
    rw [changeAt_cons hf, insertWalk_of_some h]
    simp [ha]

theorem dataAt_insert_of_none {first : String} {rest : List String} {map : DeletedMap}
    (htop : [first] ∉ active map) (h : map.entryAt (first :: rest) = none) (immName : String)
    {q : List String} (hq : q ≠ []) :
    (insert (first :: rest) immName map).dataAt q =
      if q = first :: rest then some (newPoint immName)
      else if q <+: first :: rest then some ((map.dataAt q).getD {})
      else map.dataAt q := by
  have hgrow := data_growBelow {} (newPoint immName) (e := (({} : DeletedData), map))
    (p := first :: rest) (by rw [← entryAt_eq (by simp), h]) q
  rw [dataAt, dataAt, entryAt_eq hq _ {}, entryAt_eq hq _ {}, ← hgrow, growBelow, insert]
  cases hf : map.find first with
  | none => rfl
  | some entry =>
    rw [entryAt_cons, hf, Option.bind_some] at h
    have ha := find_not_active htop hf
    dsimp only
    rw [insertWalk_of_none h]
    simp [ha]

/-! ### The active points afterwards -/

theorem active_insert_of_none {first : String} {rest : List String} {map : DeletedMap}
    (htop : [first] ∉ active map) (h : map.entryAt (first :: rest) = none) (immName : String) :
    active (insert (first :: rest) immName map) = Insert.insert (first :: rest) (active map) := by
  ext q
  rw [Set.mem_insert_iff, mem_active, mem_active]
  by_cases hq : q = []
  · simp [hq]
  rw [dataAt_insert_of_none htop h immName hq]
  by_cases hqp : q = first :: rest
  · simp only [hqp, if_true, true_or, iff_true]
    exact ⟨_, rfl, rfl⟩
  · rw [if_neg hqp]
    simp only [hqp, false_or]
    split
    · cases map.dataAt q with
      | none => simp [DeletedData.isActive]
      | some d => simp
    · rfl

theorem active_insert_of_covered {first : String} {rest : List String} {map : DeletedMap}
    {last : DeletedEntry} (htop : [first] ∉ active map)
    (h : map.entryAt (first :: rest) = some last) (hcov : Covers (active map) (first :: rest))
    (immName : String) :
    active (insert (first :: rest) immName map) = active map \ {first :: rest} := by
  ext q
  rw [insert_of_some htop h, (isDeleted_iff _ _).mpr hcov, Set.mem_sdiff, mem_active, mem_active,
    dataAt_changeAt_data h rfl]
  by_cases hq : q = first :: rest <;> simp [hq]

theorem active_insert_of_not_covered {first : String} {rest : List String} {map : DeletedMap}
    {last : DeletedEntry} (htop : [first] ∉ active map)
    (h : map.entryAt (first :: rest) = some last) (hcov : ¬ Covers (active map) (first :: rest))
    (immName : String) :
    active (insert (first :: rest) immName map) =
      Insert.insert (first :: rest) {q | q ∈ active map ∧ ¬ first :: rest <+: q} := by
  have hdel : isDeleted (first :: rest) map = false := by
    rwa [← Bool.not_eq_true, isDeleted_iff]
  have hdorm : ∀ d : DeletedData, (toDormant d).isActive = false := by
    intro d
    rw [toDormant]
    split <;> simp_all
  ext q
  rw [insert_of_some htop h, hdel, Set.mem_insert_iff, mem_active,
    dataAt_changeAt_mapData h rfl]
  by_cases hq : q = first :: rest
  · simp [hq]
  · rw [if_neg hq]
    simp only [hq, false_or]
    split <;> rename_i hpre
    · simp [hdorm, hpre, Option.map_eq_some_iff]
    · simp [hpre, mem_active]

theorem covers_insert_of_ok {p : List String} (hp : p ≠ []) {map : DeletedMap}
    (hok : ¬ (Topmost (active map) p ∧ 2 ≤ p.length)) (immName : String) (x : List String) :
    Covers (active (insert p immName map)) x ↔ p <+: x ∨ Covers (active map) x := by
  obtain ⟨first, rest, rfl⟩ := List.exists_cons_of_ne_nil hp
  by_cases htop : [first] ∈ active map
  · rw [insert_of_topActive htop]
    constructor
    · exact Or.inr
    · rintro (hpx | h)
      · exact ⟨[first], htop, List.IsPrefix.trans (by simp) hpx⟩
      · exact h
  cases he : map.entryAt (first :: rest) with
  | none => rw [active_insert_of_none htop he, covers_insert]
  | some last =>
    by_cases hcov : Covers (active map) (first :: rest)
    · rw [active_insert_of_covered htop he hcov]
      obtain ⟨q, hq, hqp⟩ := hcov.exists_topmost
      -- The topmost point above the name is not the name itself.
      have hne : q ≠ first :: rest := by
        rintro rfl
        refine hok ⟨hq, ?_⟩
        cases rest with
        | nil => exact absurd hq.1 htop
        | cons y ys => simp
      rw [covers_diff_of_above hq.1 hqp hne]
      exact ⟨Or.inr, fun h => h.elim (hcov.of_isPrefix ·) id⟩
    · rw [active_insert_of_not_covered htop he hcov, covers_insert]
      constructor
      · exact Or.imp_right (covers_mono fun q hq => hq.1)
      · rintro (h | ⟨q, hq, hqx⟩)
        · exact Or.inl h
        · by_cases hpq : first :: rest <+: q
          · exact Or.inl (hpq.trans hqx)
          · exact Or.inr ⟨q, ⟨hq, hpq⟩, hqx⟩

theorem not_covers_insert_again {p : List String} {map : DeletedMap} (hp : Topmost (active map) p)
    (hlen : 2 ≤ p.length) (immName : String) : ¬ Covers (active (insert p immName map)) p := by
  rcases p with _ | ⟨first, _ | ⟨y, ys⟩⟩
  · simp at hlen
  · simp at hlen
  have htop : [first] ∉ active map := by
    intro h
    have := hp.2 _ h (by simp)
    simp at this
  obtain ⟨d, hd, _⟩ := hp.1
  obtain ⟨last, he, _⟩ := Option.map_eq_some_iff.mp hd
  rw [active_insert_of_covered htop he (covers_of_mem hp.1)]
  rintro ⟨q, ⟨hq, hne⟩, hqp⟩
  exact hne (hp.2 q hq hqp)

/-! ## What `remove` does -/

theorem remove_of_not_active {p : List String} {map : DeletedMap} (h : p ∉ active map) :
    remove p map = map := by
  cases he : map.entryAt p with
  | none => exact changeAt_of_none he
  | some e =>
    refine changeAt_of_fixed he ?_
    rw [disable, if_neg]
    exact fun ha => h ⟨e.1, by rw [dataAt, he, Option.map_some], ha⟩

theorem disable_of_active {e : DeletedEntry} (h : e.1.isActive = true) :
    disable e = (e.1.setDormant, mapFirst DeletedData.isDormant DeletedData.setActive e.2) := by
  have hd : e.1.isDormant ≠ true := fun hd => by simp [DeletedData.isActive_of_isDormant hd] at h
  rw [disable, if_pos h, setDormantDPsActive, if_neg hd]

theorem mem_active_remove_of_not_below {p q : List String} {map : DeletedMap}
    (hpq : ¬ (p <+: q ∧ p ≠ q)) : q ∈ active (remove p map) ↔ q ∈ active map ∧ q ≠ p := by
  by_cases hp : p ∈ active map
  · by_cases hqp : q = p
    · subst hqp
      obtain ⟨d, hd, ha⟩ := hp
      obtain ⟨e, he, rfl⟩ := Option.map_eq_some_iff.mp hd
      have := dataAt_changeAt_append (f := disable) he []
      rw [List.append_nil, disable_of_active ha] at this
      simp [mem_active, remove, this]
    · have hpre : ¬ p <+: q := fun h => hpq ⟨h, Ne.symm hqp⟩
      simp [mem_active, remove, dataAt_changeAt_of_not_isPrefix hpre, hqp]
  · rw [remove_of_not_active hp]
    exact ⟨fun h => ⟨h, by rintro rfl; exact hp h⟩, And.left⟩

theorem mem_active_remove_below {p r : List String} {map : DeletedMap} {e : DeletedEntry}
    (he : map.entryAt p = some e) (ha : e.1.isActive = true) (hr : r ≠ []) :
    p ++ r ∈ active (remove p map) ↔
      p ++ r ∈ active map ∨ (p ++ r ∈ marked map ∧ ClearTo DeletedData.isDormant r e) := by
  rw [mem_active, remove, dataAt_changeAt_mapFirst he (disable_of_active ha) hr, mem_active,
    mem_marked]
  cases hd : map.dataAt (p ++ r) with
  | none => simp
  | some d =>
    by_cases hdorm : d.isDormant = true
    · by_cases hc : ClearTo DeletedData.isDormant r e <;>
        simp [hdorm, hc, DeletedData.isActive_of_isDormant hdorm]
    · by_cases hact : d.isActive = true <;> simp [hdorm, hact]

theorem covers_remove_of_above {p q : List String} {map : DeletedMap} (hq : q ∈ active map)
    (hqp : q <+: p) (hne : q ≠ p) (x : List String) :
    Covers (active (remove p map)) x ↔ Covers (active map) x := by
  have hq' : q ∈ active (remove p map) := by
    refine (mem_active_remove_of_not_below ?_).mpr ⟨hq, hne⟩
    rintro ⟨hpq, _⟩
    exact hne (hqp.sublist.antisymm hpq.sublist)
  by_cases hqx : q <+: x
  · exact ⟨fun _ => ⟨q, hq, hqx⟩, fun _ => ⟨q, hq', hqx⟩⟩
  · have hpx : ∀ r, r <+: x → ¬ (p <+: r ∧ p ≠ r) := fun r hrx h =>
      hqx (hqp.trans (h.1.trans hrx))
    constructor
    · rintro ⟨r, hr, hrx⟩
      exact ⟨r, ((mem_active_remove_of_not_below (hpx r hrx)).mp hr).1, hrx⟩
    · rintro ⟨r, hr, hrx⟩
      refine ⟨r, (mem_active_remove_of_not_below (hpx r hrx)).mpr ⟨hr, ?_⟩, hrx⟩
      rintro rfl
      exact hqx (hqp.trans hrx)

theorem covers_remove_topmost {p x : List String} {map : DeletedMap}
    (hp : Topmost (active map) p) (hpx : p <+: x) :
    Covers (active (remove p map)) x ↔ Covers (below (marked map) p) x := by
  obtain ⟨d, hd, ha⟩ := hp.1
  obtain ⟨e, he, rfl⟩ := Option.map_eq_some_iff.mp hd
  constructor
  · rintro ⟨q, hq, hqx⟩
    by_cases hpq : p <+: q ∧ p ≠ q
    · refine ⟨q, ⟨?_, hpq⟩, hqx⟩
      obtain ⟨r, rfl⟩ := hpq.1
      have hr : r ≠ [] := by
        rintro rfl
        simp at hpq
      rcases (mem_active_remove_below he ha hr).mp hq with h | ⟨h, _⟩
      · exact active_subset_marked map h
      · exact h
    · obtain ⟨hq', hne⟩ := (mem_active_remove_of_not_below hpq).mp hq
      rcases List.prefix_or_prefix_of_prefix hpx hqx with h | h
      · exact absurd ⟨h, Ne.symm hne⟩ hpq
      · exact absurd (hp.2 q hq' h) hne
  · intro h
    -- The topmost marked point below `p` on the way to `x` is the one that ends up active.
    obtain ⟨q, ⟨⟨hq, hpq, hne⟩, htop⟩, hqx⟩ := h.exists_topmost
    refine ⟨q, ?_, hqx⟩
    obtain ⟨r, rfl⟩ := hpq
    have hr : r ≠ [] := by
      rintro rfl
      simp at hne
    refine (mem_active_remove_below he ha hr).mpr (Or.inr ⟨hq, ?_⟩)
    intro s hs hsr hsne e' he'
    by_contra hdorm
    rw [Bool.not_eq_false] at hdorm
    have hmem : p ++ s ∈ below (marked map) p := by
      refine ⟨⟨e'.1, by rw [dataAt_append he, he', Option.map_some], Or.inr hdorm⟩, by simp, ?_⟩
      simpa using hs
    have := htop _ hmem (by simpa using hsr)
    exact hsne (by simpa using this)

theorem covers_remove_of_not_isPrefix {p x : List String} {map : DeletedMap} (hpx : ¬ p <+: x) :
    Covers (active (remove p map)) x ↔ Covers (active map) x := by
  have hnot : ∀ q, q <+: x → ¬ (p <+: q ∧ p ≠ q) := fun q hqx h => hpx (h.1.trans hqx)
  constructor
  · rintro ⟨q, hq, hqx⟩
    exact ⟨q, ((mem_active_remove_of_not_below (hnot q hqx)).mp hq).1, hqx⟩
  · rintro ⟨q, hq, hqx⟩
    refine ⟨q, (mem_active_remove_of_not_below (hnot q hqx)).mpr ⟨hq, ?_⟩, hqx⟩
    rintro rfl
    exact hpx hqx

/-! ## Marks only grow -/

theorem marked_remove (p : List String) (map : DeletedMap) : marked (remove p map) = marked map := by
  by_cases hp : p ∈ active map
  · obtain ⟨d, hd, ha⟩ := hp
    obtain ⟨e, he, rfl⟩ := Option.map_eq_some_iff.mp hd
    have hf := disable_of_active ha
    ext q
    rw [mem_marked, mem_marked, remove]
    by_cases hpq : p <+: q
    · obtain ⟨r, rfl⟩ := hpq
      by_cases hr : r = []
      · subst hr
        have hself := dataAt_changeAt_append (f := disable) he []
        rw [List.append_nil, hf] at hself
        simp [hself, hd, ha]
      · rw [dataAt_changeAt_mapFirst he hf hr]
        cases map.dataAt (p ++ r) with
        | none => simp
        | some d =>
          by_cases hc : d.isDormant = true ∧ ClearTo DeletedData.isDormant r e
          · simp [hc]
          · simp [hc]
    · rw [dataAt_changeAt_of_not_isPrefix hpq]
  · rw [remove_of_not_active hp]

theorem marked_insert {first : String} {rest : List String} {map : DeletedMap}
    (htop : [first] ∉ active map) (immName : String) :
    marked (insert (first :: rest) immName map) = Insert.insert (first :: rest) (marked map) := by
  have hdorm : ∀ d : DeletedData, ((toDormant d).isActive = true ∨ (toDormant d).isDormant = true) ↔
      (d.isActive = true ∨ d.isDormant = true) := by
    intro d
    rw [toDormant]
    split <;> simp_all
  ext q
  by_cases hq : q = []
  · subst hq
    simp [mem_marked]
  rw [Set.mem_insert_iff, mem_marked, mem_marked]
  cases he : map.entryAt (first :: rest) with
  | none =>
    rw [dataAt_insert_of_none htop he immName hq]
    by_cases hqp : q = first :: rest
    · simp [hqp, newPoint]
    · rw [if_neg hqp]
      simp only [hqp, false_or]
      split
      · cases map.dataAt q with
        | none => simp [DeletedData.isActive, DeletedData.isDormant]
        | some d => simp
      · rfl
  | some last =>
    rw [insert_of_some htop he]
    cases isDeleted (first :: rest) map with
    | true =>
      rw [dataAt_changeAt_data he rfl]
      by_cases hqp : q = first :: rest <;> simp [hqp]
    | false =>
      rw [dataAt_changeAt_mapData he rfl]
      by_cases hqp : q = first :: rest
      · simp [hqp]
      · rw [if_neg hqp]
        simp only [hqp, false_or]
        split
        · cases map.dataAt q with
          | none => simp
          | some d => simp [hdorm]
        · rfl

end ComSA.DeletedObjects
