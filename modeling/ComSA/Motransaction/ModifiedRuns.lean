import ComSA.Lib.PartialFold
import ComSA.Lib.Run
import ComSA.Motransaction.DeletedObjects
import ComSA.Motransaction.ModifiedTree

/-!
# Runs on the tree of modified objects

What removing an object does in every tree the calls lead to, and in which order the
created objects come out for the commit.
-/

namespace ComSA

open Forest ModifiedObjects

/-! ## The calls -/

inductive ModifiedCall where
  | insertNewObject (dn : Dn) (immName className : String) (parentName : List String)
      (attributeName : String) (v : MoAttributeValueContainer)
  | insert (dn : Dn) (immName attributeName : String) (v : MoAttributeValueContainer)
  | removeObject (dn : Dn)

def emptyTree : ModifiedEntry := ({}, .nil)

namespace ModifiedCall

/-- There is no result where the code is undefined. -/
def run (root : ModifiedEntry) : ModifiedCall → Option ModifiedEntry
  | insertNewObject dn immName className parentName attributeName v =>
    some (ModifiedObjects.insertNewObject dn.parts immName className parentName attributeName v root)
  | insert dn immName attributeName v =>
    some (ModifiedObjects.insert dn.parts immName attributeName v root)
  | removeObject dn => (ModifiedObjects.removeObject dn.parts root).map Prod.snd

def Fine (root : ModifiedEntry) : ModifiedCall → Prop
  | removeObject dn => find dn.parts root = true → 2 ≤ dn.parts.length
  | _ => True

/-- The tree after a call, the same one where the code is undefined. -/
def step (root : ModifiedEntry) (c : ModifiedCall) : ModifiedEntry := (c.run root).getD root

def added : ModifiedCall → Option Dn
  | insertNewObject dn .. => some dn
  | insert dn .. => some dn
  | removeObject _ => none

end ModifiedCall

/-! ## Removing an object -/

theorem findAttribute_eq (parts : List String) (attributeName : String) (root : ModifiedEntry) :
    findAttribute parts attributeName root =
      (objectAt parts root).bind fun o => SortedMap.get? attributeName o.attributes := by
  unfold findAttribute objectAt
  rw [Option.bind_map]
  rfl

/-- The ordered list of every entry is its names, each once. -/
def ListsNames (root : ModifiedEntry) : Prop :=
  ∀ q e, descend q root = some e → e.1.orderedNames.Nodup ∧ e.1.orderedNames.Perm (names e.2)

def RemovesObject (root : ModifiedEntry) (dn : Dn) : Prop :=
  ∃ wasNew after, removeObject dn.parts root = some (wasNew, after) ∧
    (∀ x : Dn, dn.parts <+: x.parts → find x.parts after = false) ∧
    (∀ x : Dn, ¬ dn.parts <+: x.parts → find x.parts after = find x.parts root ∧
      ∀ attributeName, findAttribute x.parts attributeName after = findAttribute x.parts attributeName root) ∧
    ListsNames after ∧
    (wasNew = true ↔ ∃ o, objectAt dn.parts root = some o ∧ o.isNewObject = true)

theorem removeObject_of_two {parts : List String} (hlen : 2 ≤ parts.length) {root : ModifiedEntry}
    {o : ObjectData} (h : objectAt parts root = some o) :
    ∃ above last, above ≠ [] ∧ parts = above ++ [last] ∧
      removeObject parts root = some (o.isNewObject, changeBelow (dropName last) above root) := by
  have hne : parts ≠ [] := by
    rintro rfl
    simp at hlen
  have habove : parts.dropLast ≠ [] := by
    intro hnil
    have := congrArg List.length hnil
    rw [List.length_dropLast, List.length_nil] at this
    omega
  have hparts := List.dropLast_append_getLast hne
  rw [← hparts] at h
  refine ⟨parts.dropLast, parts.getLast hne, habove, hparts.symm, ?_⟩
  have := removeObject_of_some habove h
  rwa [hparts] at this

theorem removeObject_isSome_iff (root : ModifiedEntry) (dn : Dn) :
    (removeObject dn.parts root).isSome = true ↔ (find dn.parts root = true → 2 ≤ dn.parts.length) := by
  rw [find_eq]
  cases ho : objectAt dn.parts root with
  | none => simp [removeObject_of_none ho]
  | some o =>
    simp only [Option.isSome_some, forall_const]
    constructor
    · intro hsome
      by_contra hlen
      have hone : ∃ part, dn.parts = [part] := by
        rcases hparts : dn.parts with _ | ⟨part, _ | ⟨y, ys⟩⟩
        · exact absurd hparts dn.nonempty
        · exact ⟨part, rfl⟩
        · rw [hparts] at hlen
          simp at hlen
      obtain ⟨part, hpart⟩ := hone
      rw [hpart] at ho hsome
      rw [removeObject_singleton ho] at hsome
      cases hsome
    · intro hlen
      obtain ⟨_, _, _, _, hremove⟩ := removeObject_of_two hlen ho
      rw [hremove]
      rfl

theorem run_isSome_iff (root : ModifiedEntry) (c : ModifiedCall) :
    (c.run root).isSome = true ↔ c.Fine root := by
  cases c with
  | insertNewObject => exact ⟨fun _ => trivial, fun _ => rfl⟩
  | insert => exact ⟨fun _ => trivial, fun _ => rfl⟩
  | removeObject dn =>
    unfold ModifiedCall.run ModifiedCall.Fine
    rw [Option.isSome_map, removeObject_isSome_iff]

/-! ### The trees that the calls lead to -/

structure TreeInv (root : ModifiedEntry) : Prop where
  ordered : WellOrdered root
  unique : Unique root.2
  rootObject : root.1.object = {}

theorem treeInv_empty : TreeInv emptyTree := ⟨wellOrdered_empty {}, trivial, rfl⟩

theorem TreeInv.listsNames {root : ModifiedEntry} (h : TreeInv root) : ListsNames root := by
  intro q e hq
  have hhere : OrderedHere ModifiedData.orderedNames e := h.ordered q e hq
  exact ⟨hhere.1, hhere.perm (h.unique.descend hq)⟩

theorem unique_addName {entry : ModifiedEntry} (h : Unique entry.2) (part : String) :
    Unique (addName part entry).2 := by
  unfold addName
  split
  · exact h
  · rename_i hnone
    exact h.add (e := (({} : ModifiedData), Forest.nil)) trivial hnone

theorem unique_addNames (f : ObjectData → ObjectData) (parts : List String) {root : ModifiedEntry}
    (h : Unique root.2) : Unique (addNames f parts root).2 := by
  induction parts generalizing root with
  | nil => exact h
  | cons part rest ih =>
    rw [addNames_cons]
    refine (unique_addName h part).set (ih ?_) part
    cases hk : root.2.find part with
    | none => trivial
    | some e => exact h.find hk

theorem TreeInv.addNames {root : ModifiedEntry} (h : TreeInv root) (f : ObjectData → ObjectData) (dn : Dn) :
    TreeInv (addNames f dn.parts root) := by
  refine ⟨wellOrdered_addNames f dn.parts h.ordered, unique_addNames f dn.parts h.unique, ?_⟩
  have hroot := objectAt_addNames f dn.parts [] root
  rw [if_neg (Ne.symm dn.nonempty), if_pos List.nil_prefix, objectAt_nil, objectAt_nil, Option.getD_some,
    h.rootObject] at hroot
  exact Option.some.inj hroot

theorem TreeInv.dropName {root : ModifiedEntry} (h : TreeInv root) {above : List String} (habove : above ≠ [])
    (last : String) : TreeInv (changeBelow (dropName last) above root) := by
  refine ⟨wellOrdered_dropName h.ordered above last, Unique.changeBelow (fun e he => he.erase last) h.unique, ?_⟩
  obtain ⟨x, xs, rfl⟩ := List.exists_cons_of_ne_nil habove
  unfold changeBelow
  split
  · exact h.rootObject
  · exact h.rootObject

theorem TreeInv.run {root after : ModifiedEntry} (h : TreeInv root) {c : ModifiedCall}
    (hrun : c.run root = some after) : TreeInv after := by
  cases c with
  | insertNewObject dn =>
    obtain rfl := Option.some.inj hrun
    exact h.addNames _ dn
  | insert dn =>
    obtain rfl := Option.some.inj hrun
    exact h.addNames _ dn
  | removeObject dn =>
    unfold ModifiedCall.run at hrun
    obtain ⟨⟨wasNew, after'⟩, hremove, rfl⟩ := Option.map_eq_some_iff.mp hrun
    obtain ⟨_, _, rfl⟩ | ⟨above, last, _, habove, _, _, _, rfl⟩ := removeObject_cases dn.nonempty hremove
    · exact h
    · exact h.dropName habove last

theorem treeInv_of_calls {calls : List ModifiedCall} {root before : ModifiedEntry} (h : TreeInv before)
    (hcalls : calls.foldlM ModifiedCall.run before = some root) : TreeInv root :=
  foldlM_keeps (fun _ _ _ _ hs hrun => hs.run hrun) h hcalls

/-- In every tree that calls lead to, removing an object does what it should unless its name has one part and
is in the tree. -/
theorem removesObject_iff (calls : List ModifiedCall) {root : ModifiedEntry}
    (hcalls : calls.foldlM ModifiedCall.run emptyTree = some root) (dn : Dn) :
    RemovesObject root dn ↔ (find dn.parts root = true → 2 ≤ dn.parts.length) := by
  have hinv := treeInv_of_calls treeInv_empty hcalls
  constructor
  · rintro ⟨wasNew, after, hremove, _⟩
    exact (removeObject_isSome_iff root dn).mp (by rw [hremove]; rfl)
  · intro hfine
    cases ho : objectAt dn.parts root with
    | none =>
      refine ⟨false, root, removeObject_of_none ho, fun x hx => ?_, fun x _ => ⟨rfl, fun _ => rfl⟩,
        hinv.listsNames, by simp [ho]⟩
      rw [find_eq, objectAt_none_of_isPrefix hx ho]
      rfl
    | some o =>
      obtain ⟨above, last, habove, hparts, hremove⟩ := removeObject_of_two
        (hfine (by rw [find_eq, ho]; rfl)) ho
      have hobj := objectAt_dropName above last (by rw [← hparts]; exact ho)
      rw [← hparts] at hobj
      refine ⟨o.isNewObject, _, hremove, fun x hx => ?_, fun x hx => ?_, (hinv.dropName habove last).listsNames,
        by simp [ho]⟩
      · rw [find_eq, hobj, if_pos hx]
        rfl
      · rw [find_eq, find_eq, hobj, if_neg hx]
        refine ⟨rfl, fun attributeName => ?_⟩
        rw [findAttribute_eq, findAttribute_eq, hobj, if_neg hx]

/-- An object two levels down. -/
theorem removesObject_sample :
    RemovesObject (ModifiedObjects.insert ["A=1", "B=2"] "b=2,a=1" "x" ⟨.int32, [.number 5]⟩ emptyTree)
      ⟨["A=1", "B=2"], by simp⟩ :=
  (removesObject_iff [.insert ⟨["A=1", "B=2"], by simp⟩ "b=2,a=1" "x" ⟨.int32, [.number 5]⟩] rfl
    ⟨["A=1", "B=2"], by simp⟩).mpr fun _ => Nat.le_refl 2

/-- The topmost object is in the tree because one below it was written. -/
theorem not_removesObject :
    ¬ ∀ (calls : List ModifiedCall) (root : ModifiedEntry),
      calls.foldlM ModifiedCall.run emptyTree = some root → ∀ dn, RemovesObject root dn := by
  intro h
  obtain ⟨_, _, hremove, _⟩ := h [.insert ⟨["A=1", "B=2"], by simp⟩ "b=2,a=1" "x" ⟨.int32, [.number 5]⟩] _ rfl
    ⟨["A=1"], by simp⟩
  have hnone : removeObject ["A=1"]
      (ModifiedObjects.insert ["A=1", "B=2"] "b=2,a=1" "x" ⟨.int32, [.number 5]⟩ emptyTree) = none := by decide
  rw [hnone] at hremove
  cases hremove

end ComSA
