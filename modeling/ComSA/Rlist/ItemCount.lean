import Mathlib.Data.List.Nodup
import Mathlib.Data.List.Perm.Subperm
import ComSA.Lib.Run
import ComSA.Rlist.ReplicatedList

/-!
# The number of items

The count, the highest number and the items of a list are changed one by one. When the
count is the number of the items that are stored, after every call of a run.
-/

namespace ComSA.Rlist

open RlistState

def items (env : RlistEnv) (s : RlistState) : List String := (s.storage.map Prod.fst).filter (isItem env)

def Consistent (env : RlistEnv) (s : RlistState) : Prop :=
  s.numElements = (items env s).length ∧
    ∀ x ∈ items env s, ∃ n, x = itemName n ∧ 1 ≤ n ∧ n ≤ s.lastId

structure Created (env : RlistEnv) (s : RlistState) : Prop where
  lastId : s.lastId = 0
  numElements : s.numElements = 0
  refs : s.refs = []
  items : items env s = []
  sorted : SortedMap.Sorted s.storage

def Unreadable (env : RlistEnv) (s : RlistState) (name : ListItemName) : Prop :=
  validateName name = true ∧ ¬ Unreachable env name.value ∧
    ∃ stored, s.find env name.value = some stored ∧ readItem env stored s.blockSize = none

/-- An item has this number or a higher one, or the search starts again at 0. -/
def HasNext (env : RlistEnv) (s : RlistState) (id : Nat) : Prop :=
  (∃ n, id ≤ n ∧ s.find env (itemName n) ≠ none ∧ (env.replicateInIMM = true → id ≠ 0)) ∨
    env.replicateInIMM = false ∧ s.lastId = uintMax

inductive ListCall where
  | pushBack (data : Memory)
  | popBack
  | eraseItem (name : ListItemName)
  | replaceItem (name : ListItemName) (data : Memory)
  | findItem (name : ListItemName)
  | clear
  | getFrontRef
  | getNextItemFront (ref : Nat)
  | getFinalize (ref : Nat)

namespace ListCall

def run (env : RlistEnv) (s : RlistState) : ListCall → Option RlistState
  | pushBack data => some (listPushBack env data s).2.2
  | popBack => some (listPopBack env s).2
  | eraseItem name => some (listEraseItem env name s).2
  | replaceItem name data => some (listReplaceItem env name data s).2
  | findItem name => some (listFindItem env name s).2.2
  | clear => some (listClear env s).2
  | getFrontRef => some (listGetFrontRef s).2.2
  | getNextItemFront ref => (listGetNextItemFront env ref s).map (·.2.2)
  | getFinalize ref => some (listGetFinalize ref s).2

def step (env : RlistEnv) (o : Option RlistState) (c : ListCall) : Option RlistState :=
  o.bind fun s => c.run env s

/-- There is a number left for a new item; an erase does not use the name `0` of an RT object or a name
that leads to a file of others; what is found can be read, or is an item in a file; and an iteration
that has not come to its end has an item to go on with. -/
def Fine (env : RlistEnv) (s : RlistState) : ListCall → Prop
  | pushBack _ => s.lastId < uintMax
  | eraseItem name => validateName name = true → ¬ Unreachable env name.value ∧
      (s.find env name.value ≠ none → isItem env (key env name.value) = true)
  | findItem name => Unreadable env s name →
      env.replicateInIMM = false ∧ isItem env (key env name.value) = true
  | getNextItemFront ref => ∀ it, s.refs[ref]?.join = some it → it.index < s.numElements →
      HasNext env s it.id
  | _ => True

end ListCall

structure ListInv (env : RlistEnv) (s : RlistState) : Prop where
  sorted : SortedMap.Sorted s.storage
  lastId_le : s.lastId ≤ uintMax
  consistent : Consistent env s

section
variable {env : RlistEnv} {s : RlistState}

/-! ## Stored items -/

theorem find_eq_none_iff {name : String} :
    s.find env name = none ↔ key env name ∉ s.storage.map Prod.fst :=
  SortedMap.get?_eq_none_iff

theorem mem_items_iff {n : Nat} : itemName n ∈ items env s ↔ s.find env (itemName n) ≠ none := by
  rw [ne_eq, find_eq_none_iff, not_not, key_itemName, items, List.mem_filter, isItem_itemName]
  simp

theorem items_count (n l : Nat) : items env { s with numElements := n, lastId := l } = items env s := rfl

theorem items_store (hs : SortedMap.Sorted s.storage) {name : String} (h : s.find env name ≠ none)
    (data : Memory) : items env (s.store env name data) = items env s := by
  rw [items, store, SortedMap.keys_put hs h, items]

theorem items_store_new {n : Nat} (h : s.find env (itemName n) = none) (data : Memory) :
    (items env (s.store env (itemName n) data)).Perm (itemName n :: items env s) := by
  have hperm := ((SortedMap.put_perm h data).map Prod.fst).filter (isItem env)
  rw [List.map_cons, List.filter_cons, key_itemName, isItem_itemName, if_pos rfl] at hperm
  rwa [items, store, key_itemName]

theorem items_remove (hs : SortedMap.Sorted s.storage) {name : String} (h : s.find env name ≠ none) :
    (items env s).Perm (if isItem env (key env name) = true
      then key env name :: items env (s.remove env name) else items env (s.remove env name)) := by
  obtain ⟨stored, hstored⟩ := Option.ne_none_iff_exists'.mp h
  have hperm := ((SortedMap.perm_erase hs hstored).map Prod.fst).filter (isItem env)
  rwa [List.map_cons, List.filter_cons] at hperm

theorem ListInv.numElements_le (h : ListInv env s) : s.numElements ≤ s.lastId := by
  have hnodup : (items env s).Nodup := by
    refine List.Nodup.filter _ ?_
    exact (List.pairwise_map.mpr h.sorted).imp ne_of_lt
  have hsub : items env s ⊆ (List.range' 1 s.lastId).map itemName := by
    intro x hx
    obtain ⟨n, rfl, hn, hle⟩ := h.consistent.2 x hx
    exact List.mem_map_of_mem (List.mem_range'_1.mpr ⟨hn, by omega⟩)
  have hlen := (List.subperm_of_subset hnodup hsub).length_le
  rw [List.length_map, List.length_range'] at hlen
  rw [h.consistent.1]
  exact hlen

theorem ListInv.number (h : ListInv env s) {n : Nat} (hn : s.find env (itemName n) ≠ none) :
    1 ≤ n ∧ n ≤ s.lastId := by
  obtain ⟨m, hm, hpos, hle⟩ := h.consistent.2 _ (mem_items_iff.mpr hn)
  rw [itemName_injective hm]
  exact ⟨hpos, hle⟩

/-! ## Changes of the count -/

theorem decrement_eq {n : Nat} (hpos : 1 ≤ n) (hle : n ≤ uintMax) : decrement n = n - 1 := by
  unfold decrement toUint uintMax at *
  omega

theorem decrement_ne (n : Nat) : decrement n ≠ n := by
  unfold decrement toUint uintMax
  omega

theorem ListInv.not_consistent_decrement (h : ListInv env s) (l : Nat) :
    ¬ Consistent env { s with numElements := decrement s.numElements, lastId := l } := by
  intro hcons
  have hcount := hcons.1
  rw [items_count, ← h.consistent.1] at hcount
  exact decrement_ne _ hcount

theorem ListInv.length_remove (h : ListInv env s) {name : String} (hname : s.find env name ≠ none)
    (hitem : isItem env (key env name) = true) :
    s.numElements = (items env (s.remove env name)).length + 1 := by
  have hperm := items_remove h.sorted hname
  rw [if_pos hitem] at hperm
  rw [h.consistent.1, hperm.length_eq, List.length_cons]

theorem ListInv.not_consistent_remove (h : ListInv env s) {name : String} (hname : s.find env name ≠ none)
    (hitem : isItem env (key env name) ≠ true) (l : Nat) :
    ¬ Consistent env { s.remove env name with numElements := decrement s.numElements, lastId := l } := by
  intro hcons
  have hperm := items_remove h.sorted hname
  rw [if_neg hitem] at hperm
  have hcount := hcons.1
  rw [items_count, ← hperm.length_eq, ← h.consistent.1] at hcount
  exact decrement_ne _ hcount

theorem mem_items_of_remove {name x : String} (hx : x ∈ items env (s.remove env name)) :
    x ∈ items env s := by
  rw [items, remove, SortedMap.erase_eq_filter] at hx
  obtain ⟨hx, hitem⟩ := List.mem_filter.mp hx
  refine List.mem_filter.mpr ⟨?_, hitem⟩
  exact ((List.filter_sublist).map Prod.fst).subset hx

theorem ListInv.remove_item (h : ListInv env s) {name : String} (hname : s.find env name ≠ none)
    (hitem : isItem env (key env name) = true) {l : Nat} (hl : l ≤ uintMax)
    (hnamed : ∀ n, (s.remove env name).find env (itemName n) ≠ none → n ≤ s.lastId → n ≤ l) :
    ListInv env { s.remove env name with numElements := decrement s.numElements, lastId := l } := by
  have hlen := h.length_remove hname hitem
  have hle := h.numElements_le.trans h.lastId_le
  refine ⟨SortedMap.sorted_erase h.sorted _, hl, ?_, fun x hx => ?_⟩
  · rw [items_count]
    dsimp only
    rw [decrement_eq (by omega) hle, hlen, Nat.add_sub_cancel]
  · rw [items_count] at hx
    obtain ⟨n, rfl, hpos, hle⟩ := h.consistent.2 x (mem_items_of_remove hx)
    exact ⟨n, rfl, hpos, hnamed n (mem_items_iff.mp hx) hle⟩

/-! ## One call -/

theorem listInv_pushBack (h : ListInv env s) (hlast : s.lastId < uintMax) (data : Memory) :
    ListInv env (listPushBack env data s).2.2 := by
  have hnum := h.numElements_le
  have hid : toUint (s.lastId + 1) = s.lastId + 1 := by
    unfold uintMax at hlast
    exact Nat.mod_eq_of_lt (by omega)
  have hnum' : toUint (s.numElements + 1) = s.numElements + 1 := by
    unfold uintMax at hlast
    exact Nat.mod_eq_of_lt (by omega)
  have hnew : s.find env (itemName (s.lastId + 1)) = none := by
    by_contra hthere
    exact absurd (h.number hthere).2 (by omega)
  rw [listPushBack_eq, hid]
  dsimp only
  rw [if_neg (by simp [hnew]), hnum']
  have hperm := items_store_new hnew (storedData env s data)
  refine ⟨SortedMap.sorted_put h.sorted _ _, hlast, ?_, fun x hx => ?_⟩
  · rw [items_count, hperm.length_eq, List.length_cons, ← h.consistent.1]
  · rw [items_count] at hx
    rcases List.mem_cons.mp (hperm.subset hx) with rfl | hx
    · exact ⟨s.lastId + 1, rfl, by omega, le_rfl⟩
    · obtain ⟨n, hn, hpos, hle⟩ := h.consistent.2 x hx
      exact ⟨n, hn, hpos, hle.trans (Nat.le_succ _)⟩

theorem not_consistent_pushBack (h : ListInv env s) (hlast : s.lastId = uintMax) (data : Memory) :
    ¬ Consistent env (listPushBack env data s).2.2 := by
  have hnew : s.find env (itemName 0) = none := by
    by_contra hthere
    exact absurd (h.number hthere).1 (by omega)
  have hid : toUint (s.lastId + 1) = 0 := by
    rw [hlast]
    rfl
  rw [listPushBack_eq, hid]
  dsimp only
  rw [if_neg (by simp [hnew])]
  intro hcons
  obtain ⟨n, hn, hpos, -⟩ := hcons.2 (itemName 0) (by
    rw [items_count, mem_items_iff, find_store, if_pos rfl]
    exact Option.some_ne_none _)
  rw [← itemName_injective hn] at hpos
  omega

theorem le_lowerLastId {present : Nat → Bool} {n m : Nat} (hn : present n = true) (hlt : n < m) :
    n ≤ lowerLastId present m := by
  induction m with
  | zero => omega
  | succ m ih =>
    rw [lowerLastId]
    split
    · omega
    · rename_i hm
      refine ih (lt_of_le_of_ne (by omega) ?_)
      rintro rfl
      exact hm hn

theorem lowerLastId_le (present : Nat → Bool) (m : Nat) : lowerLastId present m ≤ m := by
  induction m with
  | zero => exact le_rfl
  | succ m ih =>
    rw [lowerLastId]
    split <;> omega

theorem lowerLastId_present {present : Nat → Bool} {n m : Nat} (hn : present n = true) (hlt : n < m) :
    present (lowerLastId present m) = true := by
  induction m with
  | zero => omega
  | succ m ih =>
    rw [lowerLastId]
    split
    · assumption
    · rename_i hm
      refine ih (lt_of_le_of_ne (by omega) ?_)
      rintro rfl
      exact hm hn

theorem lowerLastId_eq_zero {present : Nat → Bool} {m : Nat} (h : ∀ n, present n = false) :
    lowerLastId present m = 0 := by
  induction m with
  | zero => rfl
  | succ m ih => rw [lowerLastId, if_neg (by simp [h m]), ih]

theorem listInv_popBack (h : ListInv env s) : ListInv env (listPopBack env s).2 := by
  rw [listPopBack_eq]
  split
  · exact h
  · rename_i hthere
    rw [not_or] at hthere
    refine h.remove_item hthere.2 (by simp) ((lowerLastId_le _ _).trans h.lastId_le) ?_
    intro n hn hle
    refine le_lowerLastId (by simpa [Option.isSome_iff_ne_none] using hn) (lt_of_le_of_ne hle ?_)
    rintro rfl
    rw [find_remove, if_pos rfl] at hn
    exact hn rfl

theorem listInv_eraseItem {name : ListItemName} (h : ListInv env s)
    (hfine : (ListCall.eraseItem name).Fine env s) : ListInv env (listEraseItem env name s).2 := by
  rw [listEraseItem_eq]
  split
  · exact h
  · rename_i hvalid
    obtain ⟨hreach, hitem⟩ := hfine (by simpa using hvalid)
    rw [if_neg hreach]
    split
    · exact h
    · rename_i hthere
      exact h.remove_item hthere (hitem hthere) h.lastId_le fun _ _ hle => hle

theorem fine_of_consistent_eraseItem {name : ListItemName} (h : ListInv env s)
    (hcons : Consistent env (listEraseItem env name s).2) : (ListCall.eraseItem name).Fine env s := by
  intro hvalid
  rw [listEraseItem_eq, if_neg (by simp [hvalid])] at hcons
  split at hcons
  · exact (h.not_consistent_decrement _ hcons).elim
  · rename_i hreach
    refine ⟨hreach, fun hthere => ?_⟩
    rw [if_neg hthere] at hcons
    by_contra hitem
    exact h.not_consistent_remove hthere hitem _ hcons

theorem listInv_replaceItem (h : ListInv env s) (name : ListItemName) (data : Memory) :
    ListInv env (listReplaceItem env name data s).2 := by
  rw [listReplaceItem_eq]
  split
  · exact h
  split
  · exact h
  · rename_i hthere
    rw [not_or] at hthere
    have hitems := items_store h.sorted hthere.2 (storedData env s data)
    refine ⟨SortedMap.sorted_put h.sorted _ _, h.lastId_le, ?_, ?_⟩
    · rw [hitems]
      exact h.consistent.1
    · rw [hitems]
      exact h.consistent.2

theorem listInv_clear (h : ListInv env s) : ListInv env (listClear env s).2 := by
  have hnone : items env (listClear env s).2 = [] := by
    rw [items, List.filter_eq_nil_iff]
    intro x hx
    obtain ⟨y, hy, rfl⟩ := List.mem_map.mp hx
    simpa using (List.mem_filter.mp hy).2
  refine ⟨h.sorted.filter _, h.lastId_le, ?_, ?_⟩
  · rw [hnone]
    rfl
  · rw [hnone]
    exact fun x hx => absurd hx List.not_mem_nil

theorem listInv_refs (h : ListInv env s) (refs : List (Option RLIterator)) :
    ListInv env { s with refs := refs } :=
  ⟨h.sorted, h.lastId_le, h.consistent⟩

theorem listInv_getFrontRef (h : ListInv env s) : ListInv env (listGetFrontRef s).2.2 := by
  rw [listGetFrontRef]
  split
  · exact h
  · exact listInv_refs h _

theorem listFindItem_of_readable {name : ListItemName} (h : ¬ Unreadable env s name) :
    (listFindItem env name s).2.2 = s := by
  unfold listFindItem
  split
  · rfl
  split
  · rfl
  rename_i hvalid hreach
  cases hfind : s.find env name.value with
  | none => rfl
  | some stored =>
    cases hread : readItem env stored s.blockSize with
    | some data => simp only [hread]
    | none => exact absurd ⟨by simpa using hvalid, by simpa [Unreachable] using hreach, stored, hfind, hread⟩ h

theorem listFindItem_of_unreadable {name : ListItemName} (h : Unreadable env s name) :
    s.find env name.value ≠ none ∧
    (listFindItem env name s).2.2 = if env.replicateInIMM then s.remove env name.value
      else { s.remove env name.value with numElements := decrement s.numElements } := by
  obtain ⟨hvalid, hreach, stored, hfind, hread⟩ := h
  have hthere : s.find env name.value ≠ none := by simp [hfind]
  refine ⟨hthere, ?_⟩
  unfold listFindItem
  rw [if_neg (by simp [hvalid]), if_neg (by simpa [Unreachable] using hreach), hfind]
  simp only [hread]
  split
  · rename_i himm
    have hzero : ¬ name.value = "0" := fun hzero => hreach ⟨himm, hzero⟩
    unfold deleteRTObject
    rw [if_neg hzero, if_pos (by simp [hfind])]
  · rw [listEraseItem_eq, if_neg (by simp [hvalid]), if_neg hreach, if_neg hthere]

theorem listInv_findItem {name : ListItemName} (h : ListInv env s)
    (hfine : (ListCall.findItem name).Fine env s) : ListInv env (listFindItem env name s).2.2 := by
  by_cases hunread : Unreadable env s name
  · obtain ⟨himm, hitem⟩ := hfine hunread
    obtain ⟨hthere, heq⟩ := listFindItem_of_unreadable hunread
    rw [heq, himm]
    exact h.remove_item hthere hitem h.lastId_le fun _ _ hle => hle
  · rwa [listFindItem_of_readable hunread]

theorem fine_of_consistent_findItem {name : ListItemName} (h : ListInv env s)
    (hcons : Consistent env (listFindItem env name s).2.2) : (ListCall.findItem name).Fine env s := by
  intro hunread
  obtain ⟨hthere, heq⟩ := listFindItem_of_unreadable hunread
  rw [heq] at hcons
  by_cases himm : env.replicateInIMM = true
  · rw [if_pos himm] at hcons
    have hlen := h.length_remove hthere (by simp [isItem, himm])
    rw [← hcons.1] at hlen
    exact absurd hlen (Nat.ne_of_lt (Nat.lt_succ_self _))
  · refine ⟨by simpa using himm, ?_⟩
    rw [if_neg himm] at hcons
    by_contra hitem
    exact h.not_consistent_remove hthere hitem _ hcons

/-! ## The next item -/

theorem searchUp_eq_some {present : Nat → Bool} {n m steps : Nat} (h : searchUp present n steps = some m) :
    n ≤ m ∧ present m = true := by
  induction steps generalizing n with
  | zero => cases h
  | succ steps ih =>
    rw [searchUp] at h
    split at h
    · rename_i hn
      obtain rfl := Option.some.inj h
      exact ⟨le_rfl, hn⟩
    · obtain ⟨hle, hm⟩ := ih h
      exact ⟨by omega, hm⟩

theorem searchUp_lt {present : Nat → Bool} {n m steps : Nat} (h : searchUp present n steps = some m) :
    m < n + steps := by
  induction steps generalizing n with
  | zero => cases h
  | succ steps ih =>
    rw [searchUp] at h
    split at h
    · obtain rfl := Option.some.inj h
      omega
    · have := ih h
      omega

theorem searchUp_eq_none {present : Nat → Bool} {n m steps : Nat} (h : searchUp present n steps = none)
    (hn : n ≤ m) (hm : m < n + steps) : present m = false := by
  induction steps generalizing n with
  | zero => omega
  | succ steps ih =>
    rw [searchUp] at h
    split at h
    · cases h
    · rename_i hpresent
      rcases Nat.eq_or_lt_of_le hn with rfl | hlt
      · simpa using hpresent
      · exact ih h hlt (by omega)

theorem searchUp_least {present : Nat → Bool} {n m k steps : Nat} (h : searchUp present n steps = some m)
    (hn : n ≤ k) (hk : k < m) : present k = false := by
  induction steps generalizing n with
  | zero => cases h
  | succ steps ih =>
    rw [searchUp] at h
    split at h
    · obtain rfl := Option.some.inj h
      omega
    · rename_i hpresent
      rcases Nat.eq_or_lt_of_le hn with rfl | hlt
      · simpa using hpresent
      · exact ih h hlt

theorem searchUp_first {present : Nat → Bool} {n m steps : Nat} (hn : n ≤ m) (hm : m < n + steps)
    (hpresent : present m = true) (hfirst : ∀ k, n ≤ k → k < m → present k = false) :
    searchUp present n steps = some m := by
  cases hsearch : searchUp present n steps with
  | none => exact absurd hpresent (by simp [searchUp_eq_none hsearch hn hm])
  | some k =>
    obtain ⟨hle, hk⟩ := searchUp_eq_some hsearch
    rcases lt_trichotomy k m with hlt | rfl | hlt
    · exact absurd hk (by simp [hfirst k hle hlt])
    · rfl
    · exact absurd hpresent (by simp [searchUp_least hsearch hn hlt])

theorem isSome_find_iff {name : String} : (s.find env name).isSome = true ↔ s.find env name ≠ none :=
  Option.isSome_iff_ne_none

theorem findNextListItem_of_hasNext (h : ListInv env s) (hpos : 0 < s.numElements) {id : Nat}
    (hnext : HasNext env s id) :
    ∃ n, findNextListItem env id s = some (some n) ∧ s.find env (itemName n) ≠ none := by
  unfold findNextListItem
  dsimp only
  rw [if_neg]
  · split
    · rename_i n hn
      exact ⟨n, rfl, isSome_find_iff.mp (searchUp_eq_some hn).2⟩
    · rename_i hnone
      rcases hnext with ⟨n, hle, hn, -⟩ | ⟨himm, hlast⟩
      · -- The search has come by every number that an item can have.
        have hlt := (h.number hn).2
        have hmiss := searchUp_eq_none hnone hle (by omega)
        exact absurd (isSome_find_iff.mpr hn) (by simp [hmiss])
      · rw [if_neg (not_not.mpr hlast), if_neg (by simp [himm])]
        obtain ⟨x, hx⟩ := List.exists_mem_of_length_pos (h.consistent.1 ▸ hpos)
        obtain ⟨n, rfl, -, hle⟩ := h.consistent.2 x hx
        cases hsearch : searchUp (fun n => (s.find env (itemName n)).isSome) 0 (s.lastId + 1) with
        | some m => exact ⟨m, rfl, isSome_find_iff.mp (searchUp_eq_some hsearch).2⟩
        | none =>
          have hmiss := searchUp_eq_none hsearch (Nat.zero_le n) (by omega)
          exact absurd (isSome_find_iff.mpr (mem_items_iff.mp hx)) (by simp [hmiss])
  · rcases hnext with ⟨n, -, -, hid⟩ | ⟨himm, -⟩
    · simpa using hid
    · simp [himm]

theorem findNextListItem_of_not_hasNext {id : Nat} (hnext : ¬ HasNext env s id) :
    findNextListItem env id s = some none := by
  unfold findNextListItem
  dsimp only
  split
  · rfl
  · rename_i hid
    split
    · rename_i n hn
      obtain ⟨hle, hfind⟩ := searchUp_eq_some hn
      exact absurd (Or.inl ⟨n, hle, isSome_find_iff.mp hfind, by simpa using hid⟩) hnext
    split
    · rfl
    split
    · rfl
    · rename_i hlast himm
      exact absurd (Or.inr ⟨by simpa using himm, not_not.mp hlast⟩) hnext

theorem listInv_lostItem (h : ListInv env s) {n : Nat} (hn : s.find env (itemName n) ≠ none) :
    ListInv env (lostItem (s.remove env (itemName n))) := by
  have hlen := h.length_remove hn (by simp)
  have hle := h.numElements_le.trans h.lastId_le
  have hcount := decrement_eq (by omega) hle
  refine h.remove_item hn (by simp) ?_ fun m hm hle => ?_
  · split
    · exact Nat.zero_le _
    · exact h.lastId_le
  · rw [if_neg]
    · exact hle
    · intro hzero
      have hnil : items env (s.remove env (itemName n)) = [] :=
        List.length_eq_zero_iff.mp (by change decrement s.numElements = 0 at hzero; omega)
      have := mem_items_iff.mpr hm
      rw [hnil] at this
      exact absurd this List.not_mem_nil

theorem listInv_getNextItemFront {ref : Nat} (h : ListInv env s)
    (hfine : (ListCall.getNextItemFront ref).Fine env s) :
    ∃ s', (ListCall.getNextItemFront ref).run env s = some s' ∧ ListInv env s' := by
  unfold ListCall.run listGetNextItemFront
  dsimp only
  cases href : s.refs[ref]?.join with
  | none => exact ⟨s, rfl, h⟩
  | some it =>
    dsimp only
    split
    · exact ⟨_, rfl, listInv_refs h _⟩
    · rename_i hindex
      have hindex := not_le.mp hindex
      obtain ⟨n, hfound, hn⟩ := findNextListItem_of_hasNext h (by omega) (hfine it href hindex)
      simp only [hfound]
      cases hread : (s.find env (itemName n)).bind fun stored => readItem env stored it.size with
      | some data => exact ⟨_, rfl, listInv_refs h _⟩
      | none =>
        refine ⟨_, rfl, ?_⟩
        have hinv := listInv_lostItem (listInv_refs h
          (s.refs.set ref (some { it with id := toUint (n + 1) }))) hn
        dsimp only
        split
        · have hzero : ¬ itemName n = "0" := fun hzero =>
            absurd (h.number hn).1 (by rw [itemName_eq_zero.mp hzero]; omega)
          unfold deleteRTObject
          rw [if_neg hzero, if_pos]
          · exact hinv
          · exact isSome_find_iff.mpr hn
        · exact hinv

theorem fine_of_consistent_getNextItemFront {ref : Nat} (h : ListInv env s)
    (hcons : ∀ s' ∈ (ListCall.getNextItemFront ref).run env s, Consistent env s') :
    (ListCall.getNextItemFront ref).Fine env s := by
  intro it href hindex
  by_contra hnext
  refine h.not_consistent_decrement _ (hcons (lostItem s) ?_)
  unfold ListCall.run listGetNextItemFront
  simp only [href, if_neg (not_le.mpr hindex), findNextListItem_of_not_hasNext hnext]
  rfl

/-! ## Runs -/

theorem listInv_run {c : ListCall} (h : ListInv env s) (hfine : c.Fine env s) :
    ∃ s', c.run env s = some s' ∧ ListInv env s' := by
  cases c with
  | pushBack data => exact ⟨_, rfl, listInv_pushBack h hfine data⟩
  | popBack => exact ⟨_, rfl, listInv_popBack h⟩
  | eraseItem name => exact ⟨_, rfl, listInv_eraseItem h hfine⟩
  | replaceItem name data => exact ⟨_, rfl, listInv_replaceItem h name data⟩
  | findItem name => exact ⟨_, rfl, listInv_findItem h hfine⟩
  | clear => exact ⟨_, rfl, listInv_clear h⟩
  | getFrontRef => exact ⟨_, rfl, listInv_getFrontRef h⟩
  | getNextItemFront ref => exact listInv_getNextItemFront h hfine
  | getFinalize ref => exact ⟨_, rfl, listInv_refs h _⟩

theorem fine_of_consistent {c : ListCall} (h : ListInv env s)
    (hcons : ∀ s' ∈ c.run env s, Consistent env s') : c.Fine env s := by
  cases c with
  | pushBack data =>
    refine lt_of_le_of_ne h.lastId_le fun hlast => ?_
    exact not_consistent_pushBack h hlast data (hcons _ rfl)
  | eraseItem name => exact fine_of_consistent_eraseItem h (hcons _ rfl)
  | findItem name => exact fine_of_consistent_findItem h (hcons _ rfl)
  | getNextItemFront ref => exact fine_of_consistent_getNextItemFront h hcons
  | _ => trivial

theorem Created.listInv (h : Created env s) : ListInv env s := by
  refine ⟨h.sorted, by rw [h.lastId]; exact Nat.zero_le _, ?_, ?_⟩
  · rw [h.numElements, h.items]
    rfl
  · rw [h.items]
    exact fun x hx => absurd hx List.not_mem_nil

end

def After (P : RlistState → Prop) (o : Option RlistState) : Prop := ∃ s, o = some s ∧ P s

theorem created_empty (env : RlistEnv) (n : Nat) : Created env { blockSize := n } :=
  ⟨rfl, rfl, rfl, rfl, List.Pairwise.nil⟩

end ComSA.Rlist
