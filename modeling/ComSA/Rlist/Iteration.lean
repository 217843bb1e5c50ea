import Mathlib.Data.Finset.Card
import Mathlib.Data.Finset.Union
import Mathlib.Data.List.Forall2
import ComSA.Rlist.LastItem

/-!
# Iterations

A caller goes through a list item by item until its reference is NULL, and erases items that it
has got already. The reference holds the number to go on at, and how many items were returned,
which is compared with a count that gets smaller.
-/

namespace ComSA.Rlist

open RlistState

structure Caller where
  erases : List String → List ListItemName
  returned : ∀ done, ∀ name ∈ erases done, validateName name = true ∧ name.value ∈ done

section
variable (env : RlistEnv)

def eraseAll (names : List ListItemName) (s : RlistState) : RlistState :=
  names.foldl (fun s name => (listEraseItem env name s).2) s

/-- The items that come back until the reference is NULL, with so many calls at most. There are none where
a call fails or does not return. -/
def iterate (caller : Caller) (ref : Nat) : Nat → List (String × Memory) → RlistState →
    Option (List (String × Memory))
  | 0, _, _ => none
  | calls + 1, done, s =>
    match listGetNextItemFront env ref (eraseAll env (caller.erases (done.map Prod.fst)) s) with
    | some (.ok, item, s) =>
      if s.refs[ref]?.join = none then some (done ++ item.toList)
      else iterate caller ref calls (done ++ item.toList) s
    | _ => none

def iteration (caller : Caller) (calls : Nat) (s : RlistState) : Option (List (String × Memory)) :=
  match listGetFrontRef s with
  | (_, none, _) => some []
  | (_, some ref, s) => iterate env caller ref calls [] s

structure InOrder (s : RlistState) (ids : List Nat) : Prop where
  increasing : ids.Pairwise (· < ·)
  mem_iff : ∀ n, n ∈ ids ↔ n ∈ numbers env s

def Returned (s : RlistState) (n : Nat) (item : String × Memory) : Prop :=
  item.1 = itemName n ∧ (s.find env (itemName n)).bind (fun stored => readItem env stored s.blockSize) = some item.2

/-- Every item comes back once, in the order of the numbers, and then the reference is NULL. -/
def Complete (caller : Caller) (s : RlistState) (ids : List Nat) : Prop :=
  ∃ calls items, iteration env caller calls s = some items ∧ List.Forall₂ (Returned env s) ids items

def erased (caller : Caller) (ids : List Nat) (k : Nat) : Finset String :=
  (Finset.range k).biUnion fun j => ((caller.erases ((ids.take j).map itemName)).map (·.value)).toFinset

/-- The search comes by the number on its way up. It comes to 0 only after all others. -/
def OnTheWay (s : RlistState) (ids : List Nat) (n : Nat) : Prop :=
  1 ≤ n ∧ n ≤ s.lastId ∨ n = 0 ∧ env.replicateInIMM = false ∧ s.lastId = uintMax ∧ ∀ m ∈ ids, m = 0

def Readable (s : RlistState) (n : Nat) : Prop :=
  (s.find env (itemName n)).bind (fun stored => readItem env stored s.blockSize) ≠ none

instance (s : RlistState) (n : Nat) : Decidable (Readable env s n) := inferInstanceAs (Decidable (_ ≠ none))

/-- Every item is found and can be read; and the count is that of the items, and of those that are erased
before the last item has come back, but no higher than with those that are erased right after. -/
structure Undisturbed (caller : Caller) (s : RlistState) (ids : List Nat) : Prop where
  onTheWay : ∀ n ∈ ids, OnTheWay env s ids n
  readable : ∀ n ∈ ids, Readable env s n
  count_ge : ids.length + (erased caller ids ids.length).card ≤ s.numElements
  count_le : s.numElements ≤ ids.length + (erased caller ids (ids.length + 1)).card

end

section
variable {env : RlistEnv} {caller : Caller} {s : RlistState} {ids : List Nat}

/-! ## The items that are erased -/

theorem erased_succ (k : Nat) : erased caller ids (k + 1) =
    erased caller ids k ∪ ((caller.erases ((ids.take k).map itemName)).map (·.value)).toFinset := by
  rw [erased, Finset.range_add_one, Finset.biUnion_insert, Finset.union_comm, erased]

theorem erased_mono {k k' : Nat} (h : k ≤ k') : erased caller ids k ⊆ erased caller ids k' :=
  Finset.biUnion_subset_biUnion_of_subset_left _ (Finset.range_subset_range.mpr h)

theorem erased_zero : erased caller ids 0 = ∅ := rfl

theorem exists_of_mem_erased {k : Nat} {name : String} (h : name ∈ erased caller ids (k + 1)) :
    ∃ n ∈ ids.take k, name = itemName n := by
  obtain ⟨j, hj, hname⟩ := Finset.mem_biUnion.mp h
  obtain ⟨name', hname', rfl⟩ := List.mem_map.mp (List.mem_toFinset.mp hname)
  obtain ⟨n, hn, heq⟩ := List.mem_map.mp (caller.returned _ name' hname').2
  refine ⟨n, ?_, heq.symm⟩
  exact (List.take_prefix_take_left (Nat.lt_succ_iff.mp (Finset.mem_range.mp hj))).subset hn

theorem card_erased_le (k : Nat) : (erased caller ids (k + 1)).card ≤ k := by
  have hsub : erased caller ids (k + 1) ⊆ ((ids.take k).map itemName).toFinset := by
    intro name hname
    obtain ⟨n, hn, rfl⟩ := exists_of_mem_erased hname
    exact List.mem_toFinset.mpr (List.mem_map_of_mem hn)
  refine (Finset.card_le_card hsub).trans ((List.toFinset_card_le _).trans ?_)
  rw [List.length_map, List.length_take]
  exact Nat.min_le_left _ _

structure Without (env : RlistEnv) (s₀ : RlistState) (gone : Finset String) (s : RlistState) : Prop where
  find : ∀ n, s.find env (itemName n) = if itemName n ∈ gone then none else s₀.find env (itemName n)
  numElements : s.numElements + gone.card = s₀.numElements
  blockSize : s.blockSize = s₀.blockSize
  lastId : s.lastId = s₀.lastId

variable {s₀ : RlistState} {gone : Finset String}

theorem Without.refs (h : Without env s₀ gone s) (refs : List (Option RLIterator)) :
    Without env s₀ gone { s with refs := refs } :=
  ⟨h.find, h.numElements, h.blockSize, h.lastId⟩

theorem Without.remove (h : Without env s₀ gone s) {n : Nat} (hgone : itemName n ∉ gone) {count : Nat}
    (hcount : count + gone.card + 1 = s₀.numElements) :
    Without env s₀ (insert (itemName n) gone) { s.remove env (itemName n) with numElements := count } ∧
      ({ s.remove env (itemName n) with numElements := count } : RlistState).refs = s.refs := by
  refine ⟨⟨fun m => ?_, ?_, h.blockSize, h.lastId⟩, rfl⟩
  · have hfind := @find_remove env s (itemName n) (itemName m)
    rw [key_itemName, key_itemName, h.find m] at hfind
    refine hfind.trans ?_
    by_cases hm : itemName m = itemName n
    · rw [if_pos hm, if_pos (by simp [hm])]
    · simp [hm]
  · rw [Finset.card_insert_of_notMem hgone]
    dsimp only
    omega

theorem Without.erase (h : Without env s₀ gone s) (hle : s₀.numElements ≤ uintMax) {name : ListItemName} {n : Nat}
    (hvalid : validateName name = true) (hname : name.value = itemName n) (hreach : ¬ Unreachable env (itemName n))
    (hthere : s₀.find env (itemName n) ≠ none) (hcard : gone.card < s₀.numElements) :
    Without env s₀ (insert name.value gone) (listEraseItem env name s).2 ∧
      (listEraseItem env name s).2.refs = s.refs := by
  have hcount := h.numElements
  have hdec : decrement s.numElements = s.numElements - 1 := decrement_eq (by omega) (by omega)
  rw [listEraseItem_eq, if_neg (by simp [hvalid]), hname, if_neg hreach, h.find n]
  by_cases hgone : itemName n ∈ gone
  · rw [if_pos hgone, if_pos rfl, Finset.insert_eq_of_mem hgone]
    exact ⟨h, rfl⟩
  · rw [if_neg hgone, if_neg hthere]
    exact h.remove hgone (by omega)

theorem Without.eraseAll (hle : s₀.numElements ≤ uintMax) {names : List ListItemName}
    (hnames : ∀ name ∈ names, validateName name = true ∧ ∃ n, name.value = itemName n ∧
      ¬ Unreachable env (itemName n) ∧ s₀.find env (itemName n) ≠ none)
    (h : Without env s₀ gone s) (hcard : (gone ∪ (names.map (·.value)).toFinset).card < s₀.numElements) :
    Without env s₀ (gone ∪ (names.map (·.value)).toFinset) (Rlist.eraseAll env names s) ∧
      (Rlist.eraseAll env names s).refs = s.refs := by
  induction names generalizing gone s with
  | nil => simpa [Rlist.eraseAll] using h
  | cons name names ih =>
    obtain ⟨hvalid, n, hname, hreach, hthere⟩ := hnames name List.mem_cons_self
    have hunion : gone ∪ ((name :: names).map (·.value)).toFinset =
        insert name.value gone ∪ (names.map (·.value)).toFinset := by
      rw [List.map_cons, List.toFinset_cons, Finset.union_insert, Finset.insert_union]
    rw [hunion] at hcard ⊢
    have hlt : gone.card < s₀.numElements :=
      (Finset.card_le_card ((Finset.subset_insert _ _).trans Finset.subset_union_left)).trans_lt hcard
    obtain ⟨hone, hrefs⟩ := h.erase hle hvalid hname hreach hthere hlt
    obtain ⟨hall, hrefs'⟩ := ih (fun name hname => hnames name (List.mem_cons_of_mem _ hname)) hone hcard
    exact ⟨hall, hrefs'.trans hrefs⟩

/-! ## One call -/

variable {ref : Nat} {it : RLIterator}

theorem next_of_end (href : s.refs[ref]? = some (some it)) (hend : s.numElements ≤ it.index) :
    listGetNextItemFront env ref s = some (.ok, none, { s with refs := s.refs.set ref none }) := by
  unfold listGetNextItemFront
  rw [href, Option.join_some]
  exact if_pos hend

theorem next_ok_iff (href : s.refs[ref]? = some (some it)) (hopen : it.index < s.numElements)
    (hle : s.numElements ≤ uintMax) {item : Option (String × Memory)} {s' : RlistState} :
    listGetNextItemFront env ref s = some (.ok, item, s') ↔
      ∃ n data, findNextListItem env it.id s = some (some n) ∧
        (s.find env (itemName n)).bind (fun stored => readItem env stored it.size) = some data ∧
        item = some (itemName n, data) ∧
        s' = { s with refs := s.refs.set ref (if s.numElements ≤ it.index + 1 then none
          else some ⟨toUint (n + 1), it.index + 1, it.size⟩) } := by
  have hindex : toUint (it.index + 1) = it.index + 1 := toUint_succ_of_lt (by omega)
  unfold listGetNextItemFront
  rw [href, Option.join_some]
  dsimp only
  rw [if_neg (not_le.mpr hopen)]
  cases hfind : findNextListItem env it.id s with
  | none => simp
  | some r =>
    cases r with
    | none => simp
    | some n =>
      dsimp only
      cases hread : (s.find env (itemName n)).bind fun stored => readItem env stored it.size with
      | none => simp [hread]
      | some data =>
        dsimp only
        rw [hindex]
        constructor
        · intro h
          cases h
          exact ⟨n, data, rfl, hread, rfl, rfl⟩
        · rintro ⟨n', data', hn, hread', rfl, rfl⟩
          obtain rfl := Option.some.inj (Option.some.inj hn)
          obtain rfl := Option.some.inj (hread.symm.trans hread')
          rfl

theorem iterate_prefix {calls : Nat} {done out : List (String × Memory)}
    (h : iterate env caller ref calls done s = some out) : done <+: out := by
  induction calls generalizing done s with
  | zero => cases h
  | succ calls ih =>
    rw [iterate] at h
    split at h
    · split at h
      · cases h
        exact List.prefix_append _ _
      · exact (List.prefix_append _ _).trans (ih h)
    · cases h

theorem exists_iterate_iff {P : List (String × Memory) → Prop} {done : List (String × Memory)} :
    (∃ calls out, iterate env caller ref calls done s = some out ∧ P out) ↔
      ∃ item s', listGetNextItemFront env ref (eraseAll env (caller.erases (done.map Prod.fst)) s) =
          some (.ok, item, s') ∧
        if s'.refs[ref]?.join = none then P (done ++ item.toList)
        else ∃ calls out, iterate env caller ref calls (done ++ item.toList) s' = some out ∧ P out := by
  constructor
  · rintro ⟨calls, out, h, hP⟩
    cases calls with
    | zero => cases h
    | succ calls =>
      rw [iterate] at h
      split at h
      · rename_i item s' hnext
        refine ⟨item, s', hnext, ?_⟩
        split at h <;> rename_i hnull
        · cases h
          rwa [if_pos hnull]
        · rw [if_neg hnull]
          exact ⟨calls, out, h, hP⟩
      · cases h
  · rintro ⟨item, s', hnext, h⟩
    split at h <;> rename_i hnull
    · refine ⟨1, done ++ item.toList, ?_, h⟩
      rw [iterate, hnext]
      exact if_pos hnull
    · obtain ⟨calls, out, h, hP⟩ := h
      refine ⟨calls + 1, out, ?_, hP⟩
      rw [iterate, hnext]
      exact (if_neg hnull).trans h

/-! ## The item that is found -/

def cursor (pre : List Nat) : Nat :=
  match pre.getLast? with
  | none => 1
  | some n => toUint (n + 1)

theorem cursor_spec {pre : List Nat} {n : Nat} (hpre : pre.Pairwise (· < ·)) (hlt : ∀ m ∈ pre, m < n)
    (hn : n ≤ uintMax) : 1 ≤ cursor pre ∧ (1 ≤ n → cursor pre ≤ n) ∧ ∀ m ∈ pre, m < cursor pre := by
  rcases List.eq_nil_or_concat pre with rfl | ⟨init, last, rfl⟩
  · exact ⟨le_rfl, fun h => h, fun m hm => absurd hm List.not_mem_nil⟩
  · rw [List.concat_eq_append] at hpre hlt ⊢
    have hlast := hlt last (by simp)
    have hcursor : cursor (init ++ [last]) = last + 1 := by
      rw [cursor, List.getLast?_concat]
      exact toUint_succ_of_lt (by omega)
    rw [hcursor]
    refine ⟨Nat.le_add_left _ _, fun _ => hlast, fun m hm => ?_⟩
    rcases List.mem_append.mp hm with hm | hm
    · exact Nat.lt_succ_of_lt ((List.pairwise_append.mp hpre).2.2 m hm last (by simp))
    · rw [List.mem_singleton.mp hm]
      exact Nat.lt_succ_self _

theorem le_lastId_of_found {id n : Nat} (h : findNextListItem env id s = some (some n)) : n ≤ s.lastId := by
  unfold findNextListItem at h
  dsimp only at h
  split at h
  · cases h
  split at h
  · rename_i hsearch
    cases h
    have := searchUp_lt hsearch
    by_contra hgt
    rw [Nat.sub_eq_zero_of_le (by omega)] at hsearch
    cases hsearch
  split at h
  · cases h
  split at h
  · cases h
  · obtain ⟨m, hsearch, heq⟩ := Option.map_eq_some_iff.mp h
    obtain rfl := Option.some.inj heq
    have := searchUp_lt hsearch
    omega

theorem found_zero_iff (hzero : s.find env (itemName 0) ≠ none)
    (hbound : ∀ m, s.find env (itemName m) ≠ none → m ≤ uintMax) :
    findNextListItem env 1 s = some (some 0) ↔ env.replicateInIMM = false ∧ s.lastId = uintMax ∧
      ∀ m, s.find env (itemName m) ≠ none → m = 0 := by
  unfold findNextListItem
  rw [if_neg (by simp)]
  cases hsearch : searchUp (fun n => (s.find env (itemName n)).isSome) 1 (s.lastId + 1 - 1) with
  | some k =>
    obtain ⟨hpos, hk⟩ := searchUp_eq_some hsearch
    refine iff_of_false (fun h => ?_) fun h => ?_
    · cases h
      omega
    · have := h.2.2 k (isSome_find_iff.mp hk)
      omega
  | none =>
    by_cases hlast : s.lastId = uintMax
    · by_cases himm : env.replicateInIMM = true
      · simp [hlast, himm]
      · have hfirst : searchUp (fun n => (s.find env (itemName n)).isSome) 0 (s.lastId + 1) = some 0 :=
          searchUp_first le_rfl (by omega) (isSome_find_iff.mpr hzero) fun k _ hk => absurd hk (Nat.not_lt_zero k)
        have hall (m : Nat) (hm : s.find env (itemName m) ≠ none) : m = 0 := by
          by_contra hpos
          have hmiss := searchUp_eq_none hsearch (Nat.one_le_iff_ne_zero.mpr hpos) (by have := hbound m hm; omega)
          exact absurd (isSome_find_iff.mpr hm) (by simp [hmiss])
        rw [if_neg (not_not.mpr hlast), if_neg himm, hfirst]
        exact iff_of_true rfl ⟨by simpa using himm, hlast, hall⟩
    · simp [hlast]

variable {pre suf : List Nat} {n : Nat}

theorem Without.there_iff (hids : InOrder env s₀ ids)
    (h : Without env s₀ (erased caller ids (pre.length + 1)) s) (m : Nat) :
    s.find env (itemName m) ≠ none ↔ m ∈ ids ∧ itemName m ∉ erased caller ids (pre.length + 1) := by
  rw [h.find m, hids.mem_iff, mem_numbers_iff]
  split
  · rename_i hgone
    exact iff_of_false (fun hne => hne rfl) fun hm => hm.2 hgone
  · rename_i hstays
    exact ⟨fun hm => ⟨hm, hstays⟩, fun hm => hm.1⟩

theorem notMem_erased (hids : InOrder env s₀ ids) (hsplit : ids = pre ++ suf) {m : Nat} (hm : m ∈ suf) :
    itemName m ∉ erased caller ids (pre.length + 1) := by
  intro hgone
  obtain ⟨k, hk, hname⟩ := exists_of_mem_erased hgone
  obtain rfl := itemName_injective hname
  rw [hsplit, List.take_left] at hk
  have hlt := (List.pairwise_append.mp (hsplit ▸ hids.increasing)).2.2 m hk m hm
  exact lt_irrefl m hlt

theorem found_next_iff (h₀ : Numbered env s₀) (hids : InOrder env s₀ ids) (hsplit : ids = pre ++ n :: suf)
    (h : Without env s₀ (erased caller ids (pre.length + 1)) s) :
    findNextListItem env (cursor pre) s = some (some n) ↔ OnTheWay env s₀ ids n := by
  obtain ⟨hpre, hsuf, hlt⟩ := List.pairwise_append.mp (hsplit ▸ hids.increasing)
  have hbound (m : Nat) (hm : m ∈ ids) : m ≤ uintMax := by
    obtain ⟨k, hk, hle⟩ := h₀.named _ ((hids.mem_iff m).mp hm)
    rwa [itemName_injective hk]
  have hmem : n ∈ ids := by simp [hsplit]
  have hthere : s.find env (itemName n) ≠ none :=
    (h.there_iff hids n).mpr ⟨hmem, notMem_erased hids hsplit List.mem_cons_self⟩
  obtain ⟨hpos, hle, hpast⟩ := cursor_spec hpre (fun m hm => hlt m hm n List.mem_cons_self) (hbound n hmem)
  -- What has not come back is not below the item.
  have hleast (m : Nat) (hm : s.find env (itemName m) ≠ none) (hge : cursor pre ≤ m) : n ≤ m := by
    have hmids := ((h.there_iff hids m).mp hm).1
    rw [hsplit] at hmids
    rcases List.mem_append.mp hmids with hm | hm
    · exact absurd (hpast m hm) (not_lt.mpr hge)
    · rcases List.mem_cons.mp hm with rfl | hm
      · exact le_rfl
      · exact ((List.pairwise_cons.mp hsuf).1 m hm).le
  rcases Nat.eq_zero_or_pos n with rfl | hn
  · obtain rfl : pre = [] := List.eq_nil_iff_forall_not_mem.mpr fun m hm =>
      Nat.not_lt_zero m (hlt m hm 0 List.mem_cons_self)
    rw [show cursor [] = 1 from rfl, found_zero_iff hthere fun m hm => hbound m ((h.there_iff hids m).mp hm).1,
      h.lastId, OnTheWay, or_iff_right (by omega), and_iff_right rfl]
    have hall : (∀ m, s.find env (itemName m) ≠ none → m = 0) ↔ ∀ m ∈ ids, m = 0 := by
      constructor
      · intro hall m hm
        refine hall m ((h.there_iff hids m).mpr ⟨hm, notMem_erased hids hsplit ?_⟩)
        rw [hsplit] at hm
        exact hm
      · exact fun hall m hm => hall m ((h.there_iff hids m).mp hm).1
    rw [hall]
  · rw [OnTheWay, or_iff_left (by omega), and_iff_right (Nat.one_le_iff_ne_zero.mpr hn.ne'), ← h.lastId]
    refine ⟨le_lastId_of_found, fun hlast => ?_⟩
    refine findNextListItem_first hpos (hle hn) hlast hthere fun m hm hlt => ?_
    by_contra hm'
    exact absurd (hleast m hm' hm) (not_le.mpr hlt)

structure Going (env : RlistEnv) (caller : Caller) (s₀ : RlistState) (ids : List Nat) (ref : Nat) (pre : List Nat)
    (s : RlistState) : Prop where
  without : Without env s₀ (erased caller ids pre.length) s
  iterator : s.refs[ref]? = some (some ⟨cursor pre, pre.length, s₀.blockSize⟩)
  left : pre.length < s.numElements

theorem names_of_returned {done : List (String × Memory)} (h : List.Forall₂ (Returned env s₀) pre done) :
    done.map Prod.fst = pre.map itemName := by
  induction h with
  | nil => rfl
  | cons hitem _ ih => rw [List.map_cons, List.map_cons, ih, hitem.1]

theorem Going.erase (h₀ : Numbered env s₀) (hids : InOrder env s₀ ids) (hsplit : ids = pre ++ suf)
    (hreach : ∀ m ∈ pre, ¬ Unreachable env (itemName m)) {done : List (String × Memory)}
    (hdone : List.Forall₂ (Returned env s₀) pre done) (h : Going env caller s₀ ids ref pre s) :
    Without env s₀ (erased caller ids (pre.length + 1)) (eraseAll env (caller.erases (done.map Prod.fst)) s) ∧
      (eraseAll env (caller.erases (done.map Prod.fst)) s).refs = s.refs := by
  have hcount := h.without.numElements
  have hleft := h.left
  have hcard := @card_erased_le caller ids pre.length
  have htake : ids.take pre.length = pre := by rw [hsplit, List.take_left]
  rw [erased_succ, htake] at hcard ⊢
  rw [names_of_returned hdone]
  refine h.without.eraseAll h₀.numElements_le (fun name hname => ?_) (by omega)
  obtain ⟨hvalid, hmem⟩ := caller.returned _ name hname
  obtain ⟨m, hm, heq⟩ := List.mem_map.mp hmem
  refine ⟨hvalid, m, heq.symm, hreach m hm, ?_⟩
  refine mem_numbers_iff.mp ((hids.mem_iff m).mp ?_)
  rw [hsplit]
  exact List.mem_append_left _ hm

theorem OnTheWay.reachable (h : OnTheWay env s₀ ids n) : ¬ Unreachable env (itemName n) := by
  rintro ⟨himm, hzero⟩
  rw [itemName_eq_zero] at hzero
  rcases h with ⟨hpos, -⟩ | ⟨-, hfile, -⟩
  · omega
  · exact Bool.false_ne_true (hfile.symm.trans himm)

theorem name_of_isPrefix {done out : List (String × Memory)} {item : String × Memory}
    (hdone : List.Forall₂ (Returned env s₀) pre done) (hout : List.Forall₂ (Returned env s₀) (pre ++ n :: suf) out)
    (h : done ++ [item] <+: out) : item.1 = itemName n := by
  obtain ⟨rest, rfl⟩ := h
  have hdrop := List.forall₂_drop pre.length hout
  rw [List.drop_left, List.append_assoc, List.drop_left' hdone.length_eq.symm] at hdrop
  cases hdrop with
  | cons hitem _ => exact hitem.1

theorem length_lt_of_isPrefix {done out : List (String × Memory)} {item : String × Memory}
    (hdone : List.Forall₂ (Returned env s₀) pre done) (hout : List.Forall₂ (Returned env s₀) ids out)
    (h : done ++ [item] <+: out) : pre.length < ids.length := by
  have hle := h.length_le
  rw [List.length_append, List.length_singleton, ← hdone.length_eq, ← hout.length_eq] at hle
  omega

theorem null_iff (href : s.refs[ref]? = some (some it)) (r : Option RLIterator) :
    (s.refs.set ref r)[ref]?.join = none ↔ r = none := by
  obtain ⟨hlt, -⟩ := List.getElem?_eq_some_iff.mp href
  rw [List.getElem?_set_self hlt, Option.join_some]

theorem exists_iterate_iff_of_open {P : List (String × Memory) → Prop} {done : List (String × Memory)}
    {s₁ : RlistState} (hs₁ : eraseAll env (caller.erases (done.map Prod.fst)) s = s₁)
    (href : s₁.refs[ref]? = some (some it)) (hopen : it.index < s₁.numElements) (hle : s₁.numElements ≤ uintMax) :
    (∃ calls out, iterate env caller ref calls done s = some out ∧ P out) ↔
      ∃ n data, findNextListItem env it.id s₁ = some (some n) ∧
        (s₁.find env (itemName n)).bind (fun stored => readItem env stored it.size) = some data ∧
        if s₁.numElements ≤ it.index + 1 then P (done ++ [(itemName n, data)])
        else ∃ calls out, iterate env caller ref calls (done ++ [(itemName n, data)])
          { s₁ with refs := s₁.refs.set ref (some ⟨toUint (n + 1), it.index + 1, it.size⟩) } = some out ∧
            P out := by
  rw [exists_iterate_iff, hs₁]
  constructor
  · rintro ⟨item, s', hnext, h⟩
    obtain ⟨n, data, hfound, hread, rfl, rfl⟩ := (next_ok_iff href hopen hle).mp hnext
    refine ⟨n, data, hfound, hread, ?_⟩
    dsimp only at h
    simp only [null_iff href] at h
    by_cases hlast : s₁.numElements ≤ it.index + 1
    · rw [if_pos hlast]
      rwa [if_pos hlast, if_pos rfl] at h
    · rw [if_neg hlast]
      rwa [if_neg hlast, if_neg (Option.some_ne_none _)] at h
  · rintro ⟨n, data, hfound, hread, h⟩
    refine ⟨_, _, (next_ok_iff href hopen hle).mpr ⟨n, data, hfound, hread, rfl, rfl⟩, ?_⟩
    dsimp only
    simp only [null_iff href]
    by_cases hlast : s₁.numElements ≤ it.index + 1
    · rw [if_pos hlast] at h
      rwa [if_pos hlast, if_pos rfl]
    · rw [if_neg hlast] at h
      rwa [if_neg hlast, if_neg (Option.some_ne_none _)]

theorem exists_iterate_iff_of_found {P : List (String × Memory) → Prop} {done : List (String × Memory)}
    {s₁ : RlistState} (hs₁ : eraseAll env (caller.erases (done.map Prod.fst)) s = s₁)
    (href : s₁.refs[ref]? = some (some it)) (hopen : it.index < s₁.numElements) (hle : s₁.numElements ≤ uintMax)
    (hfound : findNextListItem env it.id s₁ = some (some n)) {data : Memory}
    (hread : (s₁.find env (itemName n)).bind (fun stored => readItem env stored it.size) = some data) :
    (∃ calls out, iterate env caller ref calls done s = some out ∧ P out) ↔
      if s₁.numElements ≤ it.index + 1 then P (done ++ [(itemName n, data)])
      else ∃ calls out, iterate env caller ref calls (done ++ [(itemName n, data)])
        { s₁ with refs := s₁.refs.set ref (some ⟨toUint (n + 1), it.index + 1, it.size⟩) } = some out ∧ P out := by
  rw [exists_iterate_iff_of_open hs₁ href hopen hle]
  constructor
  · rintro ⟨m, data', hfound', hread', h⟩
    obtain rfl := Option.some.inj (Option.some.inj (hfound.symm.trans hfound'))
    obtain rfl := Option.some.inj (hread.symm.trans hread')
    exact h
  · exact fun h => ⟨n, data, hfound, hread, h⟩

theorem exists_next_of_iterate {P : List (String × Memory) → Prop} {done : List (String × Memory)}
    {s₁ : RlistState} (hs₁ : eraseAll env (caller.erases (done.map Prod.fst)) s = s₁)
    (href : s₁.refs[ref]? = some (some it)) (hopen : it.index < s₁.numElements) (hle : s₁.numElements ≤ uintMax)
    (h : ∃ calls out, iterate env caller ref calls done s = some out ∧ P out) :
    ∃ n data out, findNextListItem env it.id s₁ = some (some n) ∧
      (s₁.find env (itemName n)).bind (fun stored => readItem env stored it.size) = some data ∧
      done ++ [(itemName n, data)] <+: out ∧ P out := by
  obtain ⟨n, data, hfound, hread, h⟩ := (exists_iterate_iff_of_open hs₁ href hopen hle).mp h
  split at h
  · exact ⟨n, data, _, hfound, hread, List.prefix_refl _, h⟩
  · obtain ⟨calls, out, hiterate, hP⟩ := h
    exact ⟨n, data, out, hfound, hread, iterate_prefix hiterate, hP⟩

structure Needed (env : RlistEnv) (caller : Caller) (s₀ : RlistState) (ids suf : List Nat) : Prop where
  found : ∀ n ∈ suf, OnTheWay env s₀ ids n ∧ Readable env s₀ n
  count_ge : ids.length + (erased caller ids ids.length).card ≤ s₀.numElements
  count_le : s₀.numElements ≤ ids.length + (erased caller ids (ids.length + 1)).card

theorem card_erased_mono {k k' : Nat} (h : k ≤ k') : (erased caller ids k).card ≤ (erased caller ids k').card :=
  Finset.card_le_card (erased_mono h)

theorem iterate_iff_of_end (hsplit : ids = pre ++ suf) {done : List (String × Memory)}
    (hdone : List.Forall₂ (Returned env s₀) pre done) (h : Going env caller s₀ ids ref pre s) {s₁ : RlistState}
    (hs₁ : eraseAll env (caller.erases (done.map Prod.fst)) s = s₁)
    (hwithout : Without env s₀ (erased caller ids (pre.length + 1)) s₁) (hrefs : s₁.refs = s.refs)
    (hend : s₁.numElements ≤ pre.length) :
    (∃ calls out, iterate env caller ref calls done s = some out ∧ List.Forall₂ (Returned env s₀) ids out) ↔
      Needed env caller s₀ ids suf := by
  have href := hrefs ▸ h.iterator
  have hcount := h.without.numElements
  have hcount₁ := hwithout.numElements
  have hleft := h.left
  rw [exists_iterate_iff, hs₁]
  have hnext := @next_of_end env _ _ _ href hend
  cases suf with
  | nil =>
    obtain rfl : ids = pre := by simpa using hsplit
    refine iff_of_true ⟨none, _, hnext, ?_⟩ ⟨fun n hn => absurd hn List.not_mem_nil, by omega, by omega⟩
    dsimp only
    rw [if_pos ((null_iff href none).mpr rfl)]
    simpa using hdone
  | cons n suf =>
    have hlen : pre.length + 1 ≤ ids.length := by simp [hsplit]
    refine iff_of_false ?_ fun hneeded => ?_
    · rintro ⟨item, s', hnext', hout⟩
      rw [hnext] at hnext'
      cases hnext'
      dsimp only at hout
      rw [if_pos ((null_iff href none).mpr rfl)] at hout
      have := hout.length_eq
      simp only [Option.toList_none, List.append_nil, ← hdone.length_eq] at this
      omega
    · have := hneeded.count_ge
      have := @card_erased_mono caller ids _ _ hlen
      omega

theorem returned_iff_of_last (hsplit : ids = (pre ++ [n]) ++ suf) {done : List (String × Memory)}
    (hdone : List.Forall₂ (Returned env s₀) (pre ++ [n]) done) (hway : OnTheWay env s₀ ids n)
    (hreadable : Readable env s₀ n) {s₁ : RlistState}
    (hwithout : Without env s₀ (erased caller ids (pre.length + 1)) s₁) (hopen : ¬ s₁.numElements ≤ pre.length)
    (hlast : s₁.numElements ≤ (pre ++ [n]).length) :
    List.Forall₂ (Returned env s₀) ids done ↔ Needed env caller s₀ ids (n :: suf) := by
  have hcount := hwithout.numElements
  have hlen : (pre ++ [n]).length = pre.length + 1 := List.length_append
  cases suf with
  | nil =>
    have hids' : ids.length = pre.length + 1 := by rw [hsplit, List.append_nil, hlen]
    refine iff_of_true (by rwa [hsplit, List.append_nil]) ⟨fun m hm => ?_, ?_, ?_⟩
    · rw [List.mem_singleton.mp hm]
      exact ⟨hway, hreadable⟩
    · rw [hids']
      omega
    · have := @card_erased_mono caller ids _ _ (Nat.le_add_right (pre.length + 1) 1)
      rw [hids']
      omega
  | cons m suf =>
    have hids' : pre.length + 2 ≤ ids.length := by simp [hsplit]
    refine iff_of_false (fun hout => ?_) fun hneeded => ?_
    · have := hout.length_eq
      rw [← hdone.length_eq] at this
      omega
    · have := hneeded.count_ge
      have := @card_erased_mono caller ids _ _ (Nat.le_of_succ_le hids')
      omega

theorem iterate_iff (h₀ : Numbered env s₀) (hids : InOrder env s₀ ids) (hsplit : ids = pre ++ suf)
    (hpre : ∀ m ∈ pre, OnTheWay env s₀ ids m) {done : List (String × Memory)}
    (hdone : List.Forall₂ (Returned env s₀) pre done) (h : Going env caller s₀ ids ref pre s) :
    (∃ calls out, iterate env caller ref calls done s = some out ∧ List.Forall₂ (Returned env s₀) ids out) ↔
      Needed env caller s₀ ids suf := by
  induction suf generalizing pre done s with
  | nil =>
    obtain ⟨hwithout, hrefs⟩ := h.erase h₀ hids hsplit (fun m hm => (hpre m hm).reachable) hdone
    generalize hs₁ : eraseAll env (caller.erases (done.map Prod.fst)) s = s₁ at hwithout hrefs
    have hcount := hwithout.numElements
    have hle := h₀.numElements_le
    have hlen : ids.length = pre.length := by simp [hsplit]
    by_cases hend : s₁.numElements ≤ pre.length
    · exact iterate_iff_of_end hsplit hdone h hs₁ hwithout hrefs hend
    refine iff_of_false (fun hiterate => ?_) fun hneeded => ?_
    · obtain ⟨m, data, out, -, -, hleft, hout⟩ :=
        exists_next_of_iterate hs₁ (hrefs ▸ h.iterator) (not_le.mp hend) (by omega) hiterate
      exact absurd (length_lt_of_isPrefix hdone hout hleft) (by omega)
    · have := hneeded.count_le
      rw [hlen] at this
      omega
  | cons n suf ih =>
    obtain ⟨hwithout, hrefs⟩ := h.erase h₀ hids hsplit (fun m hm => (hpre m hm).reachable) hdone
    generalize hs₁ : eraseAll env (caller.erases (done.map Prod.fst)) s = s₁ at hwithout hrefs
    have hcount := hwithout.numElements
    have hle := h₀.numElements_le
    by_cases hend : s₁.numElements ≤ pre.length
    · exact iterate_iff_of_end hsplit hdone h hs₁ hwithout hrefs hend
    have hfound := found_next_iff h₀ hids hsplit hwithout
    have hsame : s₁.find env (itemName n) = s₀.find env (itemName n) := by
      rw [hwithout.find n, if_neg (notMem_erased hids hsplit List.mem_cons_self)]
    by_cases hgood : OnTheWay env s₀ ids n ∧ Readable env s₀ n
    swap
    · refine iff_of_false (fun hiterate => hgood ?_) fun hneeded => hgood (hneeded.found n List.mem_cons_self)
      obtain ⟨m, data, out, hm, hread, hleft, hout⟩ :=
        exists_next_of_iterate hs₁ (hrefs ▸ h.iterator) (not_le.mp hend) (by omega) hiterate
      obtain rfl : m = n := itemName_injective (name_of_isPrefix hdone (hsplit ▸ hout) hleft)
      refine ⟨hfound.mp hm, ?_⟩
      rw [hsame] at hread
      rw [Readable, hread]
      exact Option.some_ne_none _
    obtain ⟨hway, hreadable⟩ := hgood
    obtain ⟨data, hdata⟩ := Option.ne_none_iff_exists'.mp hreadable
    have hread := (congrArg (·.bind fun stored => readItem env stored s₀.blockSize) hsame).trans hdata
    have hsplit' : ids = (pre ++ [n]) ++ suf := by simp [hsplit]
    have hdone' : List.Forall₂ (Returned env s₀) (pre ++ [n]) (done ++ [(itemName n, data)]) :=
      List.rel_append hdone (.cons ⟨rfl, hdata⟩ .nil)
    have hlen : (pre ++ [n]).length = pre.length + 1 := List.length_append
    rw [exists_iterate_iff_of_found hs₁ (hrefs ▸ h.iterator) (not_le.mp hend) (by omega) (hfound.mpr hway) hread]
    dsimp only
    by_cases hlast : s₁.numElements ≤ pre.length + 1
    · rw [if_pos hlast]
      exact returned_iff_of_last hsplit' hdone' hway hreadable hwithout hend (by rwa [hlen])
    · rw [if_neg hlast]
      have hpre' : ∀ m ∈ pre ++ [n], OnTheWay env s₀ ids m := by
        intro m hm
        rcases List.mem_append.mp hm with hm | hm
        · exact hpre m hm
        · rw [List.mem_singleton.mp hm]
          exact hway
      have hgoing : Going env caller s₀ ids ref (pre ++ [n])
          { s₁ with refs := s₁.refs.set ref (some ⟨toUint (n + 1), pre.length + 1, s₀.blockSize⟩) } := by
        obtain ⟨hlt, -⟩ := List.getElem?_eq_some_iff.mp (hrefs ▸ h.iterator)
        refine ⟨?_, ?_, ?_⟩
        · rw [hlen]
          exact hwithout.refs _
        · rw [hlen, cursor, List.getLast?_concat]
          exact List.getElem?_set_self hlt
        · rw [hlen]
          exact not_le.mp hlast
      rw [ih hsplit' hpre' hdone' hgoing]
      refine ⟨fun hneeded => ⟨fun m hm => ?_, hneeded.count_ge, hneeded.count_le⟩,
        fun hneeded => ⟨fun m hm => hneeded.found m (List.mem_cons_of_mem _ hm), hneeded.count_ge,
          hneeded.count_le⟩⟩
      rcases List.mem_cons.mp hm with rfl | hm
      · exact ⟨hway, hreadable⟩
      · exact hneeded.found m hm

/-! ## From the front -/

theorem undisturbed_iff : Undisturbed env caller s ids ↔ Needed env caller s ids ids :=
  ⟨fun h => ⟨fun n hn => ⟨h.onTheWay n hn, h.readable n hn⟩, h.count_ge, h.count_le⟩,
    fun h => ⟨fun n hn => (h.found n hn).1, fun n hn => (h.found n hn).2, h.count_ge, h.count_le⟩⟩

theorem complete_iff_undisturbed (h : Numbered env s) (hids : InOrder env s ids) (caller : Caller) :
    Complete env caller s ids ↔ Undisturbed env caller s ids := by
  rw [undisturbed_iff]
  unfold Complete iteration listGetFrontRef
  by_cases hcount : s.numElements = 0
  · rw [if_pos hcount]
    dsimp only
    constructor
    · rintro ⟨-, items, heq, hitems⟩
      cases heq
      obtain rfl := List.forall₂_nil_right_iff.mp hitems
      exact ⟨fun n hn => absurd hn List.not_mem_nil, by simp [erased_zero], by simp [hcount]⟩
    · intro hneeded
      have hnil : ids = [] := by
        have := hneeded.count_ge
        exact List.length_eq_zero_iff.mp (by omega)
      rw [hnil]
      exact ⟨0, [], rfl, .nil⟩
  · rw [if_neg hcount]
    dsimp only
    have hgoing : Going env caller s ids s.refs.length [] { s with refs :=
      s.refs ++ [some ⟨1, 0, s.blockSize⟩] } := by
      refine ⟨⟨fun n => ?_, rfl, rfl, rfl⟩, ?_, Nat.pos_of_ne_zero hcount⟩
      · rw [List.length_nil, erased_zero, if_neg (Finset.notMem_empty _)]
        rfl
      · exact List.getElem?_concat_length
    exact iterate_iff h hids (List.nil_append ids).symm (fun m hm => absurd hm List.not_mem_nil) .nil hgoing

end

/-! ## In any list -/

/-- **Iterations.** Every item comes back once, in the order of the numbers, exactly when nothing disturbs
the iteration. -/
theorem iteration_complete_iff (env : RlistEnv) {s : RlistState} (h : Reached env s) {ids : List Nat}
    (hids : InOrder env s ids) (caller : Caller) : Complete env caller s ids ↔ Undisturbed env caller s ids :=
  complete_iff_undisturbed h.numbered hids caller

def sampleItems : RlistState :=
  { blockSize := 1, lastId := 2, numElements := 2, storage := [("1", [7]), ("2", [8])] }

theorem reached_sampleItems : Reached ⟨"L", false, id⟩ sampleItems :=
  .call (.call (.created (created_empty _ 1)) (.pushBack [7]) rfl) (.pushBack [8]) rfl

theorem inOrder_sampleItems : InOrder ⟨"L", false, id⟩ sampleItems [1, 2] := by
  refine ⟨by decide, fun n => ?_⟩
  have hitems : items ⟨"L", false, id⟩ sampleItems = [itemName 1, itemName 2] := by decide
  change n ∈ [1, 2] ↔ itemName n ∈ items _ _
  rw [hitems]
  constructor
  · exact List.mem_map_of_mem
  · intro hn
    obtain ⟨m, hm, hname⟩ := List.mem_map.mp (show itemName n ∈ [1, 2].map itemName from hn)
    rwa [← itemName_injective hname]

theorem iteration_complete_quiet : Complete ⟨"L", false, id⟩ ⟨fun _ => [], nofun⟩ sampleItems [1, 2] :=
  (iteration_complete_iff ⟨"L", false, id⟩ reached_sampleItems inOrder_sampleItems ⟨fun _ => [], nofun⟩).mpr
    ⟨fun n hn => Or.inl (by revert n; decide), fun n hn => by revert n; decide, by decide, by decide⟩

/-- The first item is erased before the second one is asked for. -/
theorem not_iteration_complete :
    ¬ ∀ (env : RlistEnv) (s : RlistState), Reached env s → ∀ ids, InOrder env s ids →
      ∀ caller, Complete env caller s ids := by
  intro h
  have h := h _ _ reached_sampleItems _ inOrder_sampleItems
    ⟨fun done => if done = ["1"] then [⟨1, "1"⟩] else [], fun done name hname => by
      split at hname
      · rename_i hdone
        rw [List.mem_singleton.mp hname, hdone]
        decide
      · cases hname⟩
  rw [complete_iff_undisturbed reached_sampleItems.numbered inOrder_sampleItems] at h
  exact absurd h.count_ge (by decide)

end ComSA.Rlist
