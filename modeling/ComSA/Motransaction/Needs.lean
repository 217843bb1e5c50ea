import ComSA.Motransaction.Calls
import ComSA.Motransaction.Resource

/-!
# What has to be owned

The names that the operations of a transaction need, and what its record of taken names
is worth.
-/

namespace ComSA

open DeletedObjects ModifiedObjects TxState

/-! ## Scopes -/

abbrev Need := String × ImmScope

def Apart (tr : Translator) (a b : Need) : Prop :=
  a.1 = b.1 ∨ ∀ q, InScope tr a.1 a.2 q → ¬ InScope tr b.1 b.2 q

def CcbOp.need (op : CcbOp) : Need := (op.ownerName, op.ownerScope)

section
variable {tr : Translator} {imm : ImmTree} {c : Cache}

theorem immBelow_self (tr : Translator) (p : List String) : ImmBelow tr p p := by
  refine ⟨List.prefix_rfl, fun r hpr hne hrp => ?_⟩
  exact absurd (hrp.sublist.antisymm hpr.sublist) hne

theorem InScope.of_le {name : String} {s t : ImmScope} (hst : s.toNat ≤ t.toNat) {q : List String}
    (h : InScope tr name s q) : InScope tr name t q := by
  cases s with
  | subtree =>
    cases t with
    | subtree => exact h
    | one => simp [ImmScope.toNat] at hst
  | one =>
    cases t with
    | one => exact h
    | subtree => exact ⟨q, (List.mem_inits q q).mpr List.prefix_rfl, h, immBelow_self tr q⟩

theorem inScope_subtree (hinj : Function.Injective tr.mo2ImmDn) {p q : List String}
    (h : InScope tr (tr.mo2ImmDn p) .subtree q) : p <+: q := by
  obtain ⟨r, _, hr, hbelow⟩ := h
  rw [hinj hr] at hbelow
  exact hbelow.1

/-! ## The names of the operations -/

theorem need_cases (h : CacheInv tr imm c) (hp : Parented tr c) {op : CcbOp}
    (hop : op ∈ prepareOps tr c) :
    (∃ p ∈ active c.deleted, op.need = (tr.mo2ImmDn p, .subtree)) ∨ op.need = ("", .one) ∨
      ∃ p, p ≠ [] ∧ (objectAt p c.modified).isSome = true ∧ op.need = (tr.mo2ImmDn p, .one) := by
  simp only [prepareOps, List.mem_append, List.mem_map, List.mem_reverse] at hop
  rcases hop with ⟨x, hx, rfl⟩ | ⟨name, hname, rfl⟩ | hop | ⟨x, hx, rfl⟩
  · right
    obtain ⟨hne, hobj, hnew⟩ := h.mem_created hx
    obtain ⟨hparent, htop⟩ := hp x.name x.object hne hobj hnew
    have hneed : (createOp tr x).need = (x.immParentName tr, .one) := rfl
    rw [hneed, ObjectOf.immParentName, hparent]
    split <;> rename_i hroot
    · exact Or.inl rfl
    · by_cases hnil : x.name.dropLast = []
      · rw [hnil, (htop hnil).resolve_left hroot]
        exact Or.inl rfl
      · refine Or.inr ⟨x.name.dropLast, hnil, ?_, rfl⟩
        exact objectAt_of_isPrefix (List.dropLast_prefix x.name) (by rw [hobj]; rfl)
  · left
    rw [h.getDeletedData_eq, List.mem_map] at hname
    obtain ⟨p, hp, rfl⟩ := hname
    exact ⟨p, (mem_deletedNames h.unique).mp hp, rfl⟩
  · right; right
    rw [prepareListOfModifiedObjects, List.mem_map] at hop
    obtain ⟨x, hx, rfl⟩ := hop
    obtain ⟨hmem, hunset⟩ := List.mem_filter.mp hx
    obtain ⟨hne, hobj, _⟩ := h.mem_created hmem
    refine ⟨x.name, hne, by rw [hobj]; rfl, ?_⟩
    rw [← h.immName_of_unset hmem (of_decide_eq_true hunset)]
    rfl
  · right; right
    obtain ⟨hne, hobj, hmod⟩ := h.mem_modified hx
    refine ⟨x.name, hne, by rw [hobj]; rfl, ?_⟩
    rw [← (h.object x.name x.object hne hobj).altered hmod]
    rfl

theorem needs_apart (h : CacheInv tr imm c) (hp : Parented tr c)
    (hinj : Function.Injective tr.mo2ImmDn) {op op' : CcbOp} (hop : op ∈ prepareOps tr c)
    (hop' : op' ∈ prepareOps tr c) (hne : op.ownerName ≠ "") (hne' : op'.ownerName ≠ "") :
    Apart tr op.need op'.need := by
  have hobject : ∀ p q, p ∈ active c.deleted → q ≠ [] → (objectAt q c.modified).isSome = true →
      ¬ p <+: q := by
    intro p q hpa hq hobj hpq
    obtain ⟨o, ho⟩ := Option.isSome_iff_exists.mp hobj
    exact h.notDeleted q o hq ho ⟨p, hpa, hpq⟩
  rcases need_cases h hp hop with ⟨p, hpa, hneed⟩ | hnil | ⟨p, hpn, hobj, hneed⟩
  · rcases need_cases h hp hop' with ⟨q, hqa, hneed'⟩ | hnil | ⟨q, hqn, hobj, hneed'⟩
    · rw [hneed, hneed']
      by_cases hpq : p = q
      · exact Or.inl (by rw [hpq])
      · refine Or.inr fun r hr hr' => hpq ?_
        have hpr := inScope_subtree hinj hr
        have hqr := inScope_subtree hinj hr'
        rcases List.prefix_or_prefix_of_prefix hpr hqr with hle | hle
        · exact (h.antichain q hqa).2 p hpa hle
        · exact ((h.antichain p hpa).2 q hqa hle).symm
    · exact absurd (congrArg Prod.fst hnil) hne'
    · rw [hneed, hneed']
      refine Or.inr fun r hr hr' => hobject p q hpa hqn hobj ?_
      rw [← hinj hr']
      exact inScope_subtree hinj hr
  · exact absurd (congrArg Prod.fst hnil) hne
  · rcases need_cases h hp hop' with ⟨q, hqa, hneed'⟩ | hnil | ⟨q, hqn, hobj', hneed'⟩
    · rw [hneed, hneed']
      refine Or.inr fun r hr hr' => hobject q p hqa hpn hobj ?_
      rw [← hinj hr]
      exact inScope_subtree hinj hr'
    · exact absurd (congrArg Prod.fst hnil) hne'
    · rw [hneed, hneed']
      by_cases hpq : p = q
      · exact Or.inl (by rw [hpq])
      · refine Or.inr fun r hr hr' => hpq ?_
        rw [← hinj hr, ← hinj hr']

/-! ## Objects that are there -/

def supply (inCcb : List (List String)) (op : CcbOp) : List (List String) := op.created ++ inCcb

theorem mem_supply {p : List String} {ops : List CcbOp} {inCcb : List (List String)} :
    p ∈ ops.foldl supply inCcb ↔ p ∈ inCcb ∨ ∃ op ∈ ops, p ∈ op.created := by
  induction ops generalizing inCcb with
  | nil => simp
  | cons op ops ih =>
    rw [List.foldl_cons, ih, supply, List.mem_append]
    simp only [List.mem_cons, exists_eq_or_imp]
    tauto

/-- What an operation needs is in IMM, or was created before in the same CCB. Only a created object may
need nothing. -/
def Supplied (tr : Translator) (imm : ImmTree) (inCcb : List (List String)) (op : CcbOp) : Prop :=
  op.created ≠ [] ∧ op.ownerName = "" ∨ ∃ p, p ≠ [] ∧ tr.mo2ImmDn p = op.ownerName ∧
    ((imm p).isSome = true ∨ op.ownerScope = .one ∧ p ∈ inCcb)

theorem supplied_creates {objects : List ObjectOf} (h : Creatable tr imm objects) :
    Along supply (Supplied tr imm) [] (objects.map (createOp tr)) := by
  refine along_of_split fun before op after hsplit => ?_
  obtain ⟨front, back, rfl, hfront, hback⟩ := List.map_eq_append_iff.mp hsplit
  obtain ⟨x, rest, rfl, rfl, _⟩ := List.map_eq_cons_iff.mp hback
  obtain ⟨_, hpair, hcross⟩ := List.pairwise_append.mp h.order
  have hx : x ∈ front ++ x :: rest := by simp
  by_cases hname : x.immParentName tr = ""
  · exact Or.inl ⟨by simp [createOp, CcbOp.created], hname⟩
  obtain ⟨p, hnil, hp, hpx, hpne, hor⟩ := (h.parent x hx).resolve_left hname
  refine Or.inr ⟨p, hnil, hp, hor.imp_right fun hcreated => ⟨rfl, ?_⟩⟩
  obtain ⟨y, hy, hyp⟩ := hcreated
  -- The parent comes before its child.
  rw [← hyp] at hpx hpne
  rcases List.mem_append.mp hy with hy | hy
  · rw [mem_supply, ← hfront]
    exact Or.inr ⟨createOp tr y, List.mem_map_of_mem hy, by simp [createOp, CcbOp.created, hyp]⟩
  · rcases List.mem_cons.mp hy with rfl | hy
    · exact absurd rfl hpne
    · exact absurd hpx ((List.pairwise_cons.mp hpair).1 y hy)

theorem supplied_prepareOps (h : CacheInv tr imm c) (hp : Parented tr c) :
    Along supply (Supplied tr imm) [] (prepareOps tr c) := by
  have hexists : ∀ p o, p ≠ [] → objectAt p c.modified = some o →
      (imm p).isSome = true ∨ o.isNewObject = true := by
    intro p o hne ho
    by_cases hnew : o.isNewObject = true
    · exact Or.inr hnew
    · exact Or.inl (Option.isSome_iff_ne_none.mpr fun hnone =>
        hnew ((h.object p o hne ho).newIff.mpr hnone))
  rw [prepareOps, along_append]
  refine ⟨supplied_creates (h.creatable hp), along_of_split fun before op after hsplit => ?_⟩
  have hop : op ∈ before ++ op :: after := by simp
  rw [← hsplit] at hop
  simp only [List.mem_append, List.mem_map] at hop
  rcases hop with ⟨name, hname, rfl⟩ | hop | ⟨x, hx, rfl⟩
  · rw [h.getDeletedData_eq, List.mem_map] at hname
    obtain ⟨p, hp, rfl⟩ := hname
    have hpm := active_subset_marked _ ((mem_deletedNames h.unique).mp hp)
    exact Or.inr ⟨p, ne_nil_of_mem_marked hpm, rfl, Or.inl (h.markedExists p hpm)⟩
  · -- The object was created by one of the operations before.
    rw [prepareListOfModifiedObjects, List.mem_map] at hop
    obtain ⟨x, hx, rfl⟩ := hop
    obtain ⟨hmem, hunset⟩ := List.mem_filter.mp hx
    obtain ⟨hne, _, _⟩ := h.mem_created hmem
    refine Or.inr ⟨x.name, hne, (h.immName_of_unset hmem (of_decide_eq_true hunset)).symm,
      Or.inr ⟨rfl, ?_⟩⟩
    rw [mem_supply]
    refine Or.inl (mem_supply.mpr (Or.inr ⟨createOp tr x, ?_, by simp [createOp, CcbOp.created]⟩))
    exact List.mem_map_of_mem (List.mem_reverse.mpr hmem)
  · obtain ⟨hne, hobj, hmod⟩ := h.mem_modified hx
    refine Or.inr ⟨x.name, hne, ((h.object x.name x.object hne hobj).altered hmod).symm, Or.inl ?_⟩
    refine (hexists x.name x.object hne hobj).resolve_right fun hnew => ?_
    rw [not_isModifiedObject_of_new hnew] at hmod
    cases hmod

end

/-! ## The record -/

structure TxEnv.Models (env : TxEnv) (imm : ImmTree) : Prop where
  closed : imm.Closed
  injective : Function.Injective env.tr.mo2ImmDn
  named : ∀ p, p ≠ [] → env.tr.mo2ImmDn p ≠ ""
  known : ∀ p, p ≠ [] → env.immExists (env.tr.mo2ImmDn p) = (imm p).isSome

def Sound (tr : Translator) (w : TxState) : Prop :=
  ∀ name scope, w.isAdminOwnerFor name scope = true → ∀ q, InScope tr name scope q → w.owned q = true

def Taken (env : TxEnv) (w : TxState) (need : Need) : Prop :=
  need.1 = "" ∨ w.isAdminOwnerFor need.1 need.2 = true ∨ env.immExists need.1 = false

def Issued.Held (tr : Translator) (x : Issued) : Prop :=
  match x.op with
  | .objectCreate parentName _ _ _ => parentName = "" ∨
    ∀ p, tr.mo2ImmDn p = parentName → x.owned p = true ∨ p ∈ x.inCcb
  | .objectDelete objectName => ∀ q, InScope tr objectName .subtree q → x.owned q = true
  | .modify objectName _ => ∀ p, tr.mo2ImmDn p = objectName → x.owned p = true ∨ p ∈ x.inCcb

section
variable {env : TxEnv} {imm : ImmTree} {w : TxState}

theorem held_of_taken (hm : env.Models imm) (hsound : Sound env.tr w) {op : CcbOp}
    (hsup : Supplied env.tr imm w.inCcb op) (htaken : Taken env w op.need) :
    Issued.Held env.tr ⟨op, w.owned, w.inCcb⟩ := by
  rcases hsup with ⟨hcreated, hname⟩ | ⟨p, hp, hpn, hor⟩
  · cases op with
    | objectCreate => exact Or.inl hname
    | _ => exact absurd rfl hcreated
  have hname : op.ownerName ≠ "" := hpn ▸ hm.named p hp
  have hone : op.ownerScope = .one → ∀ q, env.tr.mo2ImmDn q = op.ownerName →
      w.owned q = true ∨ q ∈ w.inCcb := by
    intro hscope q hq
    obtain rfl := hm.injective (hq.trans hpn.symm)
    rcases htaken.resolve_left hname with hown | hnot
    · exact Or.inl (hsound _ _ hown q (by rw [CcbOp.need, hscope]; exact hq))
    · rw [CcbOp.need, ← hpn, hm.known q hp] at hnot
      rw [hnot] at hor
      exact Or.inr (hor.resolve_left Bool.false_ne_true).2
  cases op with
  | objectCreate parentName className name values => exact Or.inr (hone rfl)
  | modify objectName values => exact hone rfl
  | objectDelete objectName =>
    have hexists : (imm p).isSome = true :=
      hor.resolve_right fun hcontra => by simp [CcbOp.ownerScope] at hcontra
    rcases htaken.resolve_left hname with hown | hnot
    · exact hsound _ _ hown
    · rw [CcbOp.need, ← hpn, hm.known p hp, hexists] at hnot
      cases hnot

/-! ## Taking -/

theorem isAdminOwnerFor_add (name : String) (scope : ImmScope) (name' : String) (scope' : ImmScope) :
    (w.addAdminOwnerFor name scope).isAdminOwnerFor name' scope' =
      if name' = name then decide (scope'.toNat ≤ scope.toNat) else w.isAdminOwnerFor name' scope' := by
  rw [isAdminOwnerFor, addAdminOwnerFor, SortedMap.get?_put]
  by_cases h : name' = name
  · rw [if_pos h, if_pos h]
  · rw [if_neg h, if_neg h]
    rfl

structure Locked (env : TxEnv) (name : String) (scope : ImmScope) (w w' : TxState) : Prop where
  rest : w' = { w with adminOwners := w'.adminOwners, owned := w'.owned, answers := w'.answers }
  answers : w'.answers ⊆ w.answers
  sound : Sound env.tr w → Sound env.tr w'
  keeps : ∀ n s, w.isAdminOwnerFor n s = true → w'.isAdminOwnerFor n s = true
  gains : ∀ n s, w'.isAdminOwnerFor n s = true →
    w.isAdminOwnerFor n s = true ∨ n = name ∧ s.toNat ≤ scope.toNat

theorem locked_refl (env : TxEnv) (name : String) (scope : ImmScope) (w : TxState) :
    Locked env name scope w w :=
  ⟨rfl, fun _ ha => ha, id, fun _ _ h => h, fun _ _ h => Or.inl h⟩

theorem nextAnswer_answers (w : TxState) : w.nextAnswer.2.answers ⊆ w.answers := by
  rw [nextAnswer]
  split <;> rename_i h
  · exact fun _ ha => ha
  · rw [h]
    exact List.subset_cons_self _ _

theorem nextAnswer_rest (w : TxState) :
    w.nextAnswer.2 = { w with answers := w.nextAnswer.2.answers } := by
  rw [nextAnswer]
  split <;> rfl

theorem locked_nextAnswer (env : TxEnv) (name : String) (scope : ImmScope) (w : TxState) :
    Locked env name scope w w.nextAnswer.2 := by
  have hanswers := nextAnswer_answers w
  rw [nextAnswer_rest w]
  exact ⟨rfl, hanswers, id, fun _ _ h => h, fun _ _ h => Or.inl h⟩

theorem Locked.own {name : String} {scope : ImmScope} {w' : TxState} (h : Locked env name scope w w')
    (hnew : w.isAdminOwnerFor name scope = false) :
    Locked env name scope w ((w'.own env.tr name scope).addAdminOwnerFor name scope) := by
  refine ⟨?_, h.answers, fun hsound => ?_, ?_, ?_⟩
  · rw [h.rest]
    rfl
  · intro n s hown q hq
    rw [isAdminOwnerFor_add] at hown
    rw [TxState.addAdminOwnerFor, TxState.own, Bool.or_eq_true, decide_eq_true_iff]
    split at hown <;> rename_i hn
    · rw [hn] at hq
      exact Or.inl (hq.of_le (of_decide_eq_true hown))
    · exact Or.inr (h.sound hsound n s hown q hq)
  · intro n s hown
    rw [isAdminOwnerFor_add]
    split <;> rename_i hn
    · -- The scope on record was smaller.
      subst hn
      rw [isAdminOwnerFor] at hown hnew
      rw [decide_eq_true_iff]
      split at hown
      · rename_i t ht
        rw [ht] at hnew
        simp only [decide_eq_true_eq, decide_eq_false_iff_not] at hown hnew
        omega
      · cases hown
    · exact h.keeps n s hown
  · intro n s hown
    rw [isAdminOwnerFor_add] at hown
    split at hown <;> rename_i hn
    · exact Or.inr ⟨hn, of_decide_eq_true hown⟩
    · exact h.gains n s hown

theorem nextAnswer_mem (w : TxState) : w.nextAnswer.1 = .ok ∨ w.nextAnswer.1 ∈ w.answers := by
  rw [nextAnswer]
  split <;> rename_i h
  · exact Or.inl rfl
  · rw [h]
    exact Or.inr List.mem_cons_self

theorem locked_lockDn (name : String) (scope : ImmScope) (hclear : .cleared false ∉ w.answers) :
    Locked env name scope w (lockDn env name scope w).2 ∧
      ((lockDn env name scope w).1 = .ok → Taken env (lockDn env name scope w).2 (name, scope)) := by
  rw [lockDn, checkSetAdminOwner]
  by_cases hname : name = ""
  · rw [if_pos hname]
    exact ⟨locked_refl env name scope w, fun _ => Or.inl hname⟩
  rw [if_neg hname]
  cases hown : w.isAdminOwnerFor name scope with
  | true => exact ⟨locked_refl env name scope w, fun _ => Or.inr (Or.inl hown)⟩
  | false =>
    cases hknown : env.immExists name with
    | false => exact ⟨locked_refl env name scope w, fun _ => Or.inr (Or.inr hknown)⟩
    | true =>
      have hnext := locked_nextAnswer env name scope w
      have hmem := nextAnswer_mem w
      have htaken : Taken env ((w.nextAnswer.2.own env.tr name scope).addAdminOwnerFor name scope)
          (name, scope) := by
        refine Or.inr (Or.inl ?_)
        rw [isAdminOwnerFor_add, if_pos rfl, decide_eq_true_iff]
      have htook := hnext.own hown
      generalize w.nextAnswer = r at hnext hmem htaken htook ⊢
      obtain ⟨a, w'⟩ := r
      cases a with
      | ok => exact ⟨htook, fun _ => htaken⟩
      | cleared again =>
        cases again with
        | true => exact ⟨htook, fun _ => htaken⟩
        | false => exact absurd (hmem.resolve_left nofun) hclear
      | exist => exact ⟨hnext, fun h => by cases h⟩
      | failedOperation r => exact ⟨hnext, fun h => by cases h⟩
      | badHandle => exact ⟨hnext, fun h => by cases h⟩
      | error => exact ⟨hnext, fun h => by cases h⟩

end

end ComSA
