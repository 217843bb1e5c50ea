import ComSA.Motransaction.ModifiedRuns

/-!
# The order of the created objects

The commit takes the list of created objects from its end. Read that way a new object
comes before the new objects below it, and new siblings come in the order in which their
names were first added to the tree.
-/

namespace ComSA

open Forest ModifiedObjects

/-! ## When a name was added -/

/-- The number of the call that added a name, after call number `time`: the first one since a removal took
the name out. -/
def ModifiedCall.stamp (time : Nat) (q : List String) (old : Option Nat) : ModifiedCall → Option Nat
  | insertNewObject dn .. => if q <+: dn.parts then some (old.getD time) else old
  | insert dn .. => if q <+: dn.parts then some (old.getD time) else old
  | removeObject dn => if dn.parts <+: q then none else old

/-- The number of the first call that added a name, of those that no removal has undone since. -/
def insertedAt (calls : List ModifiedCall) (q : List String) : Option Nat :=
  (calls.foldl (fun s c => (s.1 + 1, c.stamp s.1 q s.2)) (0, none)).2

def AddedBefore (stamps : List String → Option Nat) (x y : List String) : Prop :=
  ∃ i j, stamps x = some i ∧ stamps y = some j ∧ i < j

/-! ## The lists for the commit -/

/-- What the lists of created and of modified objects should be after some calls. -/
structure ListsRight (calls : List ModifiedCall) (root : ModifiedEntry) : Prop where
  created : ∀ x, x ∈ getCreatedData root ↔ objectAt x.name root = some x.object ∧ x.object.isNewObject = true
  createdOnce : ((getCreatedData root).map ObjectOf.name).Nodup
  parentsFirst : (getCreatedData root).reverse.Pairwise fun x y => ¬ y.name <+: x.name
  siblings : (getCreatedData root).reverse.Pairwise fun x y =>
    x.name.dropLast = y.name.dropLast → AddedBefore (insertedAt calls) x.name y.name
  modified : ∀ x, x ∈ getModifiedData root ↔
    objectAt x.name root = some x.object ∧ x.object.isModifiedObject = true
  modifiedOnce : ((getModifiedData root).map ObjectOf.name).Nodup
  apart : ∀ x ∈ getCreatedData root, ∀ y ∈ getModifiedData root, x.name ≠ y.name

/-! ## The ordered lists -/

def listed (q : List String) (root : ModifiedEntry) : List String :=
  ((descend q root).map fun e => e.1.orderedNames).getD []

theorem listed_cons (x : String) (q : List String) (root : ModifiedEntry) :
    listed (x :: q) root = ((root.2.find x).map (listed q)).getD [] := by
  unfold listed
  rw [descend_cons]
  cases root.2.find x <;> rfl

theorem listed_empty (q : List String) : listed q emptyTree = [] := by
  cases q with
  | nil => rfl
  | cons x q => rfl

theorem listed_find_getD (q : List String) (o : Option ModifiedEntry) :
    listed q (o.getD ({}, .nil)) = (o.map (listed q)).getD [] := by
  cases o with
  | none => exact listed_empty q
  | some e => rfl

theorem listed_addNames (f : ObjectData → ObjectData) (p q : List String) (root : ModifiedEntry) :
    (∀ n, q ++ [n] <+: p → listed q (addNames f p root) =
      if (objectAt (q ++ [n]) root).isSome = true then listed q root else n :: listed q root) ∧
    ((∀ n, ¬ q ++ [n] <+: p) → listed q (addNames f p root) = listed q root) := by
  induction p generalizing q root with
  | nil =>
    refine ⟨fun n h => by simp at h, fun _ => ?_⟩
    cases q with
    | nil => rfl
    | cons x q => rw [listed_cons, listed_cons]; rfl
  | cons part rest ih =>
    rw [addNames_cons]
    cases q with
    | nil =>
      have hnames : (addName part root).1.orderedNames =
          if (objectAt [part] root).isSome = true then root.1.orderedNames
          else part :: root.1.orderedNames := by
        unfold addName
        rw [objectAt_cons]
        cases root.2.find part with
        | none => rfl
        | some e => rfl
      refine ⟨fun n hn => ?_, fun hnone => ?_⟩
      · obtain rfl : n = part := by simpa using hn
        exact hnames
      · exact absurd (by simp) (hnone part)
    | cons x q =>
      have hset : listed (x :: q) ((addName part root).1, (addName part root).2.set part
            (addNames f rest ((root.2.find part).getD ({}, .nil)))) =
          if x = part then listed q (addNames f rest ((root.2.find part).getD ({}, .nil)))
          else listed (x :: q) root := by
        rw [listed_cons]
        split <;> rename_i hx
        · subst hx
          rw [find_set_self (find_addName_self x root)]
          rfl
        · rw [find_set_ne hx, find_addName_ne hx, listed_cons]
      rw [hset]
      obtain ⟨hadd, hkeep⟩ := ih q ((root.2.find part).getD ({}, .nil))
      refine ⟨fun n hn => ?_, fun hnone => ?_⟩
      · rw [List.cons_append, List.cons_prefix_cons] at hn
        obtain ⟨rfl, hn⟩ := hn
        rw [if_pos rfl, hadd n hn, listed_find_getD, List.cons_append, objectAt_cons, listed_cons]
        cases root.2.find x with
        | none => simp [objectAt_empty]
        | some e => rfl
      · split <;> rename_i hx
        · subst hx
          rw [hkeep, listed_find_getD, listed_cons]
          intro n hn
          exact hnone n (List.cons_prefix_cons.mpr ⟨rfl, hn⟩)
        · rfl

theorem listed_dropName (above : List String) (last : String) {root : ModifiedEntry} {o : ObjectData}
    (h : objectAt (above ++ [last]) root = some o) (q : List String) :
    listed q (changeBelow (dropName last) above root) =
      if q = above then (listed q root).filter (· ≠ last)
      else if above ++ [last] <+: q then [] else listed q root := by
  have habove : (objectAt above root).isSome = true :=
    objectAt_of_isPrefix (List.prefix_append above [last]) (by rw [h]; rfl)
  obtain ⟨e, he⟩ : ∃ e, descend above root = some e := by
    rwa [objectAt, Option.isSome_map, Option.isSome_iff_exists] at habove
  unfold listed
  by_cases hq : above <+: q
  · obtain ⟨r, rfl⟩ := hq
    rw [descend_changeBelow he, descend_append, he, Option.bind_some]
    cases r with
    | nil => simp [dropName]
    | cons x xs =>
      have hne : above ++ x :: xs ≠ above := by simp
      rw [if_neg hne]
      simp only [List.prefix_append_right_inj, List.cons_prefix_cons, List.nil_prefix, and_true]
      by_cases hx : x = last
      · subst hx
        simp [dropName, descend_cons, find_erase_self]
      · rw [if_neg (Ne.symm hx), dropName, descend_cons, descend_cons, find_erase_ne hx]
  · have hne : q ≠ above := by
      rintro rfl
      exact hq List.prefix_rfl
    rw [if_neg hne, if_neg fun h => hq ((List.prefix_append above [last]).trans h)]
    have hdata := @data_changeBelow _ _ _ (dropName last) _ _ hq root
    have := congrArg (Option.map ModifiedData.orderedNames) hdata
    rw [Option.map_map, Option.map_map] at this
    exact congrArg (Option.getD · []) this

/-! ## The order in every tree -/

/-- The names in the tree are those with a number, and every list has the name that was added last first. -/
structure OrderInv (root : ModifiedEntry) (time : Nat) (stamps : List String → Option Nat) : Prop where
  tree : TreeInv root
  added : ∀ q, q ≠ [] → ((objectAt q root).isSome = true ↔ (stamps q).isSome = true)
  past : ∀ q i, stamps q = some i → i < time
  newestFirst : ∀ q, (listed q root).Pairwise fun a b => AddedBefore stamps (q ++ [b]) (q ++ [a])

theorem TreeInv.mem_listed {root : ModifiedEntry} (h : TreeInv root) {q : List String} {n : String} :
    n ∈ listed q root ↔ (objectAt (q ++ [n]) root).isSome = true := by
  unfold listed objectAt
  rw [descend_append]
  cases hq : descend q root with
  | none => simp
  | some e =>
    rw [Option.map_some, Option.getD_some, Option.bind_some, (h.ordered q e hq).2, descend_cons]
    cases e.2.find n <;> simp

theorem orderInv_empty : OrderInv emptyTree 0 fun _ => none := by
  refine ⟨treeInv_empty, fun q hq => ?_, fun q i h => (by cases h), fun q => ?_⟩
  · obtain ⟨x, xs, rfl⟩ := List.exists_cons_of_ne_nil hq
    simp [emptyTree, objectAt_cons]
  · rw [listed_empty]
    exact List.Pairwise.nil

theorem OrderInv.addNames {root : ModifiedEntry} {time : Nat} {stamps : List String → Option Nat}
    (h : OrderInv root time stamps) (f : ObjectData → ObjectData) (dn : Dn) :
    OrderInv (addNames f dn.parts root) (time + 1)
      fun q => if q <+: dn.parts then some ((stamps q).getD time) else stamps q := by
  have hkeep : ∀ q i, stamps q = some i →
      (if q <+: dn.parts then some ((stamps q).getD time) else stamps q) = some i := by
    intro q i hq
    rw [hq]
    split <;> rfl
  have hpairs : ∀ q, (listed q root).Pairwise fun a b =>
      AddedBefore (fun q => if q <+: dn.parts then some ((stamps q).getD time) else stamps q) (q ++ [b])
        (q ++ [a]) := by
    intro q
    refine (h.newestFirst q).imp ?_
    rintro a b ⟨i, j, hi, hj, hij⟩
    exact ⟨i, j, hkeep _ i hi, hkeep _ j hj, hij⟩
  refine ⟨h.tree.addNames f dn, fun q hq => ?_, fun q i hi => ?_, fun q => ?_⟩
  · rw [objectAt_addNames]
    by_cases hqp : q <+: dn.parts
    · rw [if_pos hqp, if_pos hqp]
      split <;> simp
    · rw [if_neg hqp, if_neg hqp, if_neg]
      · exact h.added q hq
      · rintro rfl
        exact hqp List.prefix_rfl
  · split at hi
    · obtain rfl := Option.some.inj hi
      cases hq : stamps q with
      | none => simp
      | some j =>
        have := h.past q j hq
        rw [Option.getD_some]
        omega
    · have := h.past q i hi
      omega
  · obtain ⟨hadd, hsame⟩ := listed_addNames f dn.parts q root
    by_cases hn : ∃ n, q ++ [n] <+: dn.parts
    · obtain ⟨n, hn⟩ := hn
      rw [hadd n hn]
      split <;> rename_i hthere
      · exact hpairs q
      · -- The new name is younger than all the others.
        refine List.pairwise_cons.mpr ⟨fun b hb => ?_, hpairs q⟩
        have hb := h.tree.mem_listed.mp hb
        rw [h.added _ (by simp), Option.isSome_iff_exists] at hb
        obtain ⟨j, hj⟩ := hb
        have hnone : stamps (q ++ [n]) = none := by
          rw [h.added _ (by simp)] at hthere
          simpa using hthere
        refine ⟨j, time, hkeep _ j hj, ?_, h.past _ j hj⟩
        dsimp only
        rw [if_pos hn, hnone, Option.getD_none]
    · push Not at hn
      rw [hsame hn]
      exact hpairs q

theorem OrderInv.dropName {root : ModifiedEntry} {time : Nat} {stamps : List String → Option Nat}
    (h : OrderInv root time stamps) {above : List String} (habove : above ≠ []) {last : String} {o : ObjectData}
    (ho : objectAt (above ++ [last]) root = some o) :
    OrderInv (changeBelow (dropName last) above root) (time + 1)
      fun q => if above ++ [last] <+: q then none else stamps q := by
  refine ⟨h.tree.dropName habove last, fun q hq => ?_, fun q i hi => ?_, fun q => ?_⟩
  · rw [objectAt_dropName above last ho]
    split
    · simp
    · exact h.added q hq
  · split at hi
    · cases hi
    · have := h.past q i hi
      omega
  · have hpairs : ∀ {a b}, ¬ above ++ [last] <+: q ++ [a] → ¬ above ++ [last] <+: q ++ [b] →
        AddedBefore stamps (q ++ [b]) (q ++ [a]) →
        AddedBefore (fun q => if above ++ [last] <+: q then none else stamps q) (q ++ [b]) (q ++ [a]) := by
      rintro a b ha hb ⟨i, j, hi, hj, hij⟩
      exact ⟨i, j, (if_neg hb).trans hi, (if_neg ha).trans hj, hij⟩
    rw [listed_dropName above last ho]
    by_cases hqa : q = above
    · subst hqa
      rw [if_pos rfl]
      refine ((h.newestFirst q).filter _).imp_of_mem ?_
      intro a b ha hb hab
      have hne : ∀ {c}, c ∈ (listed q root).filter (· ≠ last) → ¬ q ++ [last] <+: q ++ [c] := by
        intro c hc hpre
        have hc' := (List.mem_filter.mp hc).2
        simp only [List.prefix_append_right_inj, List.cons_prefix_cons, List.nil_prefix, and_true] at hpre
        simp [hpre] at hc'
      exact hpairs (hne ha) (hne hb) hab
    · rw [if_neg hqa]
      split <;> rename_i hpre
      · exact List.Pairwise.nil
      · refine (h.newestFirst q).imp ?_
        intro a b hab
        have hne : ∀ c, ¬ above ++ [last] <+: q ++ [c] := by
          intro c hc
          rcases List.prefix_concat_iff.mp hc with heq | hq
          · exact hqa (List.append_inj_left' heq rfl).symm
          · exact hpre hq
        exact hpairs (hne a) (hne b) hab

theorem OrderInv.unchanged {root : ModifiedEntry} {time : Nat} {stamps : List String → Option Nat}
    (h : OrderInv root time stamps) {dn : Dn} (ho : objectAt dn.parts root = none) :
    OrderInv root (time + 1) fun q => if dn.parts <+: q then none else stamps q := by
  have hsame : (fun q => if dn.parts <+: q then none else stamps q) = stamps := by
    funext q
    split <;> rename_i hq
    · have hnot : ¬ (objectAt q root).isSome = true :=
        Option.not_isSome_iff_eq_none.mpr (objectAt_none_of_isPrefix hq ho)
      have hne : q ≠ [] := by
        rintro rfl
        exact dn.nonempty (List.prefix_nil.mp hq)
      rw [h.added q hne] at hnot
      exact (by simpa using hnot : stamps q = none).symm
    · rfl
  rw [hsame]
  refine ⟨h.tree, h.added, fun q i hi => ?_, h.newestFirst⟩
  have := h.past q i hi
  omega

theorem OrderInv.run {root after : ModifiedEntry} {time : Nat} {stamps : List String → Option Nat}
    (h : OrderInv root time stamps) {c : ModifiedCall} (hrun : c.run root = some after) :
    OrderInv after (time + 1) fun q => c.stamp time q (stamps q) := by
  cases c with
  | insertNewObject dn =>
    obtain rfl := Option.some.inj hrun
    exact h.addNames _ dn
  | insert dn =>
    obtain rfl := Option.some.inj hrun
    exact h.addNames _ dn
  | removeObject dn =>
    unfold ModifiedCall.run at hrun
    obtain ⟨⟨wasNew, after'⟩, hremove, rfl⟩ := Option.map_eq_some_iff.mp hrun
    obtain ⟨ho, _, rfl⟩ | ⟨above, last, o, habove, hparts, ho, _, rfl⟩ := removeObject_cases dn.nonempty hremove
    · exact h.unchanged ho
    · rw [hparts] at ho
      have hdrop := h.dropName habove ho
      rw [← hparts] at hdrop
      exact hdrop

theorem stamps_eq (calls : List ModifiedCall) (time : Nat) (stamps : List String → Option Nat) (q : List String) :
    calls.foldl (fun s c => (s.1 + 1, c.stamp s.1 q s.2)) (time, stamps q) =
      ((calls.foldl (fun s c => (s.1 + 1, fun q => c.stamp s.1 q (s.2 q))) (time, stamps)).1,
        (calls.foldl (fun s c => (s.1 + 1, fun q => c.stamp s.1 q (s.2 q))) (time, stamps)).2 q) := by
  induction calls generalizing time stamps with
  | nil => rfl
  | cons c cs ih =>
    rw [List.foldl_cons, List.foldl_cons]
    exact ih (time + 1) fun q => c.stamp time q (stamps q)

theorem orderInv_of_calls {calls : List ModifiedCall} {root before : ModifiedEntry} {time : Nat}
    {stamps : List String → Option Nat} (h : OrderInv before time stamps)
    (hcalls : calls.foldlM ModifiedCall.run before = some root) :
    OrderInv root (time + calls.length)
      (calls.foldl (fun s c => (s.1 + 1, fun q => c.stamp s.1 q (s.2 q))) (time, stamps)).2 := by
  induction calls generalizing before time stamps with
  | nil =>
    obtain rfl := Option.some.inj hcalls
    exact h
  | cons c cs ih =>
    obtain ⟨after, hrun, hrest⟩ := Option.bind_eq_some_iff.mp (by simpa using hcalls)
    have := ih (h.run hrun) hrest
    rw [List.length_cons, Nat.add_comm cs.length 1, ← Nat.add_assoc]
    exact this

/-! ## The lists are right -/

theorem traverse_siblings {keep : ObjectData → Bool} {root : ModifiedEntry} {time : Nat}
    {stamps : List String → Option Nat} (h : OrderInv root time stamps) (hroot : keep {} = false) :
    (traverse keep root).Pairwise fun x y =>
      x.name.dropLast = y.name.dropLast → AddedBefore stamps y.name x.name := by
  have hvisit := visit_inOrder (R := fun q a b => AddedBefore stamps (q ++ [b]) (q ++ [a])) h.tree.ordered []
    (fun q e hq => by
      have := h.newestFirst q
      unfold listed at this
      rw [hq] at this
      exact this)
  have hlist : (traverse keep root).Pairwise fun x y =>
      InOrder (fun q a b => AddedBefore stamps (q ++ [b]) (q ++ [a])) x.name y.name :=
    (hvisit.filter _).map _ fun _ _ hxy => hxy
  have hne : ∀ x ∈ traverse keep root, x.name ≠ [] := by
    intro x hx hnil
    obtain ⟨hobj, hkeep⟩ := (mem_traverse h.tree.ordered x).mp hx
    rw [hnil, objectAt_nil, h.tree.rootObject] at hobj
    rw [← Option.some.inj hobj, hroot] at hkeep
    cases hkeep
  refine hlist.imp_of_mem ?_
  intro x y hx hy hxy hdrop
  have hx' := List.dropLast_append_getLast (hne x hx)
  have hy' := List.dropLast_append_getLast (hne y hy)
  have hbefore : AddedBefore stamps (x.name.dropLast ++ [y.name.getLast (hne y hy)])
      (x.name.dropLast ++ [x.name.getLast (hne x hx)]) :=
    hxy x.name.dropLast _ _ hx'.symm (by rw [hdrop]; exact hy'.symm)
  rwa [hx', hdrop, hy'] at hbefore

theorem nodup_traverse {keep : ObjectData → Bool} {root : ModifiedEntry} (h : WellOrdered root) :
    ((traverse keep root).map ObjectOf.name).Nodup := by
  refine (traverse_pairwise h).map _ ?_
  rintro x y hxy heq
  rw [heq] at hxy
  exact hxy List.prefix_rfl

theorem listsRight {calls : List ModifiedCall} {root : ModifiedEntry}
    (hcalls : calls.foldlM ModifiedCall.run emptyTree = some root) : ListsRight calls root := by
  have hinv := orderInv_of_calls orderInv_empty hcalls
  have hat : insertedAt calls =
      (calls.foldl (fun s c => (s.1 + 1, fun q => c.stamp s.1 q (s.2 q))) (0, fun _ => none)).2 := by
    funext q
    unfold insertedAt
    rw [stamps_eq calls 0 (fun _ => none) q]
  rw [← hat] at hinv
  refine ⟨mem_traverse hinv.tree.ordered, nodup_traverse hinv.tree.ordered, ?_, ?_,
    mem_traverse hinv.tree.ordered, nodup_traverse hinv.tree.ordered, ?_⟩
  · rw [List.pairwise_reverse]
    exact traverse_pairwise hinv.tree.ordered
  · rw [List.pairwise_reverse]
    refine (traverse_siblings hinv rfl).imp ?_
    intro x y hxy hdrop
    exact hxy hdrop.symm
  · intro x hx y hy heq
    obtain ⟨hxo, hnew⟩ := (mem_traverse hinv.tree.ordered x).mp hx
    obtain ⟨hyo, hmod⟩ := (mem_traverse hinv.tree.ordered y).mp hy
    rw [heq, hyo] at hxo
    rw [← Option.some.inj hxo] at hnew
    unfold ObjectData.isNewObject at hnew
    unfold ObjectData.isModifiedObject at hmod
    simp only [decide_eq_true_eq] at hnew hmod
    rw [hnew] at hmod
    cases hmod

/-! ## Runs -/

theorem defined_iff_along (calls : List ModifiedCall) (root : ModifiedEntry) :
    (∃ after, calls.foldlM ModifiedCall.run root = some after) ↔
      Along ModifiedCall.step ModifiedCall.Fine root calls := by
  induction calls generalizing root with
  | nil => exact ⟨fun _ => trivial, fun _ => ⟨root, rfl⟩⟩
  | cons c cs ih =>
    rw [Along, ← run_isSome_iff, List.foldlM_cons]
    cases hrun : c.run root with
    | none => simp
    | some next =>
      have hstep : ModifiedCall.step root c = next := by
        unfold ModifiedCall.step
        rw [hrun, Option.getD_some]
      simp only [Option.bind_eq_bind, Option.bind_some, Option.isSome_some, true_and, hstep]
      exact ih next

/-- The lists for the commit are right after any calls that are defined, which are those that remove no
object whose name has one part. -/
theorem listsRight_iff (calls : List ModifiedCall) :
    (∃ root, calls.foldlM ModifiedCall.run emptyTree = some root ∧ ListsRight calls root) ↔
      Along ModifiedCall.step ModifiedCall.Fine emptyTree calls := by
  rw [← defined_iff_along]
  constructor
  · rintro ⟨root, hroot, _⟩
    exact ⟨root, hroot⟩
  · rintro ⟨root, hroot⟩
    exact ⟨root, hroot, listsRight hroot⟩

/-- There are no lists after the removal of `A=1`. -/
theorem not_listsRight :
    ¬ ∀ calls : List ModifiedCall,
      ∃ root, calls.foldlM ModifiedCall.run emptyTree = some root ∧ ListsRight calls root := by
  intro h
  obtain ⟨root, hroot, _⟩ := h [.insert ⟨["A=1", "B=2"], by simp⟩ "b=2,a=1" "x" ⟨.int32, [.number 5]⟩,
    .removeObject ⟨["A=1"], by simp⟩]
  have hnone : [ModifiedCall.insert ⟨["A=1", "B=2"], by simp⟩ "b=2,a=1" "x" ⟨.int32, [.number 5]⟩,
      .removeObject ⟨["A=1"], by simp⟩].foldlM ModifiedCall.run emptyTree = none := by decide
  rw [hnone] at hroot
  cases hroot

end ComSA
