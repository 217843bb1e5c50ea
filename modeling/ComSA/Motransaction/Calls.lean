import ComSA.Motransaction.Session

/-!
# What the calls do

Each call of the bridge, in terms of what the transaction shows before and after it.
-/

namespace ComSA

open DeletedObjects ModifiedObjects

/-! ## Valid names -/

section Valid
variable {tr : Translator}

theorem Translator.isListValid_append (above below : List String) (childName : String)
    (h : tr.isListValid (below ++ above) childName = true) :
    ∃ name, tr.isListValid above name = true := by
  induction below generalizing childName with
  | nil => exact ⟨childName, h⟩
  | cons part below ih =>
    rw [List.cons_append, isListValid, Bool.and_eq_true] at h
    exact ih _ h.2

def Translator.NamedChildren (tr : Translator) : Prop := ∀ name, tr.containmentValid name "" = true

theorem Translator.isListValid_of_child (hn : tr.NamedChildren) {parts : List String}
    {childName : String} (h : tr.isListValid parts childName = true) :
    tr.isListValid parts "" = true := by
  cases parts with
  | nil => rfl
  | cons part above =>
    rw [isListValid, Bool.and_eq_true] at h ⊢
    exact ⟨hn _, h.2⟩

theorem Translator.isDnListValid_of_isPrefix (hn : tr.NamedChildren) {p q : List String}
    (hpq : p <+: q) (h : tr.isDnListValid q "" = true) : tr.isDnListValid p "" = true := by
  obtain ⟨r, rfl⟩ := hpq
  rw [isDnListValid, List.reverse_append] at h
  obtain ⟨name, hname⟩ := isListValid_append _ _ _ h
  exact isListValid_of_child hn hname

end Valid

/-! ## Names of new objects -/

theorem splitChars_ne_nil (cs : List Char) : splitChars cs ≠ [] := by
  cases cs with
  | nil => simp [splitChars]
  | cons c cs =>
    rw [splitChars]
    split
    · simp
    · split <;> simp

theorem splitDn_ne_nil (dn : String) : splitDn dn ≠ [] := by
  simp [splitDn, splitChars_ne_nil]

theorem splitChars_of_not_mem {b : List Char} (hb : ',' ∉ b) : splitChars b = [b] := by
  induction b with
  | nil => rfl
  | cons c cs ih =>
    have hc : c ≠ ',' := fun heq => hb (heq ▸ List.mem_cons_self)
    rw [splitChars, if_neg hc, ih fun hmem => hb (List.mem_cons_of_mem _ hmem)]

theorem splitChars_append {b : List Char} (hb : ',' ∉ b) (a : List Char) :
    splitChars (a ++ ',' :: b) = splitChars a ++ [b] := by
  induction a with
  | nil =>
    change (if ',' = ',' then [] :: splitChars b else _) = _
    rw [if_pos rfl, splitChars_of_not_mem hb]
    rfl
  | cons c cs ih =>
    rw [List.cons_append, splitChars, splitChars, ih]
    split
    · rfl
    · obtain ⟨part, parts, hparts⟩ := List.exists_cons_of_ne_nil (splitChars_ne_nil cs)
      rw [hparts]
      rfl

theorem splitDn_append {u : String} (hu : ',' ∉ u.toList) (dn : String) :
    splitDn (dn ++ "," ++ u) = splitDn dn ++ [u] := by
  have hlist : (dn ++ "," ++ u).toList = dn.toList ++ ',' :: u.toList := by simp
  rw [splitDn, hlist, splitChars_append hu, List.map_append, List.map_singleton, String.ofList_toList]
  rfl

theorem splitDn_intercalate_cons (s : String) {parts : List String} (hparts : ∀ p ∈ parts, ',' ∉ p.toList) :
    splitDn (",".intercalate (s :: parts)) = splitDn s ++ parts := by
  induction parts using List.reverseRecOn with
  | nil => rw [String.intercalate_singleton, List.append_nil]
  | append_singleton parts part ih =>
    rw [← List.cons_append, String.intercalate_append_of_ne_nil (by simp) (by simp), String.intercalate_singleton,
      splitDn_append (hparts part (by simp)), ih fun p hp => hparts p (by simp [hp]), List.append_assoc]

theorem splitDn_intercalate {parts : List String} (hne : parts ≠ []) (hparts : ∀ p ∈ parts, ',' ∉ p.toList) :
    splitDn (",".intercalate parts) = parts := by
  obtain ⟨part, parts, rfl⟩ := List.exists_cons_of_ne_nil hne
  rw [splitDn_intercalate_cons part fun p hp => hparts p (List.mem_cons_of_mem _ hp), splitDn,
    splitChars_of_not_mem (hparts part List.mem_cons_self), List.map_singleton, String.ofList_toList,
    List.singleton_append]

namespace CreateCall

theorem dn_ne_nil (m : CreateCall) : m.dn ≠ [] := by
  simp [dn, buildObjectName, splitDn_ne_nil]

theorem parent_isPrefix (m : CreateCall) : m.parent <+: m.dn := List.prefix_append _ _

theorem parent_ne_dn (m : CreateCall) : m.parent ≠ m.dn := by
  intro h
  exact splitDn_ne_nil _ (List.self_eq_append_right.mp h)

end CreateCall

section
variable {tr : Translator} {imm : ImmTree} {c : Cache}

/-! ## Setting attributes -/

theorem setImmMoAttribute_eq (dn : List String) (name : String) (v : MoAttributeValueContainer)
    (c : Cache) :
    setImmMoAttribute tr dn name v c =
      if tr.isDnListValid dn name = true ∧ c.isDeleted dn = false then
        (.ok, { c with modified := ModifiedObjects.insert dn (tr.mo2ImmDn dn) name v c.modified })
      else (.failure, c) := by
  rw [setImmMoAttribute]
  cases hv : tr.isDnListValid dn name with
  | false => rfl
  | true =>
    cases hd : c.isDeleted dn with
    | true => simp
    | false => simp [Cache.updateObjectAttribute, hd]

theorem setImmMoAttribute_spec (h : CacheInv tr imm c) (himm : imm.Closed) {dn : List String}
    (hdn : dn ≠ []) (hsome : (content imm c dn).isSome = true) {name : String}
    {v : MoAttributeValueContainer} {c' : Cache}
    (hset : setImmMoAttribute tr dn name v c = (.ok, c')) :
    CacheInv tr imm c' ∧ c'.deleted = c.deleted ∧ ∀ p, content imm c' p =
      if p = dn then (content imm c p).map (setAttribute name v.values) else content imm c p := by
  rw [setImmMoAttribute_eq] at hset
  split at hset
  · obtain rfl := (Prod.mk.inj hset).2
    exact ⟨h.set himm hdn hsome name v, rfl, content_asAltered hdn hsome rfl rfl⟩
  · cases (Prod.mk.inj hset).1

theorem setInitialAttributes_of_valid {dn : List String}
    {attributes : List (String × MoAttributeValueContainer)} (ret : MafReturn)
    (hdel : c.isDeleted dn = false) (hvalid : ∀ a ∈ attributes, a.1 ∈ tr.comAttributeList dn →
      tr.isDnListValid dn a.1 = true) :
    (setInitialAttributes tr dn attributes ret c).1 = ret := by
  induction attributes generalizing c with
  | nil => rfl
  | cons a rest ih =>
    have hrest : ∀ b ∈ rest, b.1 ∈ tr.comAttributeList dn → tr.isDnListValid dn b.1 = true :=
      fun b hb => hvalid b (List.mem_cons_of_mem _ hb)
    rw [setInitialAttributes, setImmMoAttribute_eq]
    split <;> rename_i hmem
    · rw [if_pos ⟨hvalid a List.mem_cons_self hmem, hdel⟩]
      exact ih hdel hrest
    · exact ih hdel hrest

theorem setInitialAttributes_ok {dn : List String}
    {attributes : List (String × MoAttributeValueContainer)} {ret : MafReturn}
    (h : (setInitialAttributes tr dn attributes ret c).1 = .ok) : ret = .ok := by
  induction attributes generalizing ret c with
  | nil => exact h
  | cons a rest ih =>
    rw [setInitialAttributes, setImmMoAttribute_eq] at h
    by_cases hmem : a.1 ∈ tr.comAttributeList dn
    · rw [if_pos hmem] at h
      split_ifs at h with hvalid
      · exact ih h
      · cases ih h
    · rw [if_neg hmem] at h
      exact ih h

theorem setInitialAttributes_keeps (tr : Translator) (dn : List String)
    (attributes : List (String × MoAttributeValueContainer)) (ret : MafReturn) (c : Cache) :
    (setInitialAttributes tr dn attributes ret c).2.deleted = c.deleted ∧
      ∀ p, (objectAt p c.modified).isSome = true →
        (objectAt p (setInitialAttributes tr dn attributes ret c).2.modified).isSome = true := by
  induction attributes generalizing ret c with
  | nil => exact ⟨rfl, fun _ h => h⟩
  | cons a rest ih =>
    rw [setInitialAttributes, setImmMoAttribute_eq]
    split
    · by_cases hset : tr.isDnListValid dn a.1 = true ∧ c.isDeleted dn = false
      · rw [if_pos hset]
        obtain ⟨hdel, hkeep⟩ := ih ret { c with
          modified := ModifiedObjects.insert dn (tr.mo2ImmDn dn) a.1 a.2 c.modified }
        refine ⟨hdel, fun p hp => hkeep p ?_⟩
        rw [ModifiedObjects.insert, objectAt_addNames]
        split_ifs <;> first | rfl | exact hp
      · rw [if_neg hset]
        exact ih _ c
    · exact ih ret c

/-- The initial attributes that the class has, written over others. -/
def withInitial (tr : Translator) (dn : List String)
    (attributes : List (String × MoAttributeValueContainer)) (a : Attributes) : Attributes :=
  attributes.foldl
    (fun a x => if x.1 ∈ tr.comAttributeList dn then setAttribute x.1 x.2.values a else a) a

theorem withInitial_nil (dn : List String) : withInitial tr dn [] = id := rfl

theorem withInitial_cons (dn : List String) (x : String × MoAttributeValueContainer)
    (rest : List (String × MoAttributeValueContainer)) :
    withInitial tr dn (x :: rest) = if x.1 ∈ tr.comAttributeList dn
      then withInitial tr dn rest ∘ setAttribute x.1 x.2.values else withInitial tr dn rest := by
  funext a
  rw [withInitial, List.foldl_cons]
  split <;> rfl

theorem setInitialAttributes_spec (h : CacheInv tr imm c) (himm : imm.Closed) {dn : List String}
    (hdn : dn ≠ []) (hsome : (content imm c dn).isSome = true)
    {attributes : List (String × MoAttributeValueContainer)} {ret : MafReturn}
    (hok : (setInitialAttributes tr dn attributes ret c).1 = .ok) :
    CacheInv tr imm (setInitialAttributes tr dn attributes ret c).2 ∧
      (setInitialAttributes tr dn attributes ret c).2.deleted = c.deleted ∧
      ∀ p, content imm (setInitialAttributes tr dn attributes ret c).2 p =
        if p = dn then (content imm c p).map (withInitial tr dn attributes) else content imm c p := by
  induction attributes generalizing ret c with
  | nil =>
    refine ⟨h, rfl, fun p => ?_⟩
    rw [withInitial_nil, Option.map_id]
    exact (ite_self _).symm
  | cons a rest ih =>
    rw [setInitialAttributes] at hok ⊢
    by_cases hmem : a.1 ∈ tr.comAttributeList dn
    · rw [if_pos hmem] at hok ⊢
      cases hset : setImmMoAttribute tr dn a.1 a.2 c with
      | mk r c' =>
        rw [hset] at hok
        cases r with
        | ok =>
          obtain ⟨hinv, hdel, hcont⟩ := setImmMoAttribute_spec h himm hdn hsome hset
          have hsome' : (content imm c' dn).isSome = true := by
            rw [hcont, if_pos rfl, Option.isSome_map, hsome]
          obtain ⟨hinv', hdel', hcont'⟩ := ih hinv hsome' hok
          refine ⟨hinv', hdel'.trans hdel, fun p => ?_⟩
          rw [hcont', hcont]
          split
          · rw [Option.map_map, withInitial_cons, if_pos hmem]
          · rfl
        | _ => cases setInitialAttributes_ok hok
    · rw [if_neg hmem] at hok ⊢
      obtain ⟨hinv, hdel, hcont⟩ := ih h hsome hok
      refine ⟨hinv, hdel, fun p => ?_⟩
      rw [hcont, withInitial_cons, if_neg hmem]

/-! ## Creating -/

theorem createImmMo_ok {m : CreateCall} (hok : (createImmMo tr m c).1 = .ok) :
    createImmMo tr m c =
      setInitialAttributes tr m.dn m.initialAttributes .ok (recordCreation tr m c) := by
  rw [createImmMo] at hok ⊢
  by_cases hgraph : m.keyAttributeValue.toList.all isGraph = true
  · by_cases hvalid : tr.isDnListValid m.parent m.className = true
    · rw [hgraph, hvalid]
      rfl
    · rw [hgraph, Bool.eq_false_iff.mpr hvalid] at hok
      cases hok
  · rw [Bool.eq_false_iff.mpr hgraph] at hok
    cases hok

theorem recordCreation_of_not_deleted {m : CreateCall} (h : ¬ Covers (active c.deleted) m.dn) :
    recordCreation tr m c = c.insertCreatedObject m.dn (tr.translateClassName m.parent m.className)
      m.parent "" (m.immKey tr) m.keyAttributeValue := by
  rw [recordCreation, if_neg (by rwa [c.isDeleted_iff])]
  exact removeDeletedObject_of_not_covered h

theorem recordCreation_of_deleted {m : CreateCall} (h : Covers (active c.deleted) m.dn) :
    recordCreation tr m c = c.removeDeletedObject m.dn := by
  rw [recordCreation, if_pos ((c.isDeleted_iff _).mpr h)]

def CreateCall.given (tr : Translator) (m : CreateCall) : Attributes :=
  withInitial tr m.dn m.initialAttributes
    (setAttribute (m.immKey tr) [.text (buildAttributeValue (m.immKey tr) m.keyAttributeValue)]
      fun _ => [])

theorem createImmMo_of_not_deleted (h : CacheInv tr imm c) (himm : imm.Closed) {m : CreateCall}
    (hok : (createImmMo tr m c).1 = .ok) (hcov : ¬ Covers (active c.deleted) m.dn)
    (hnone : content imm c m.dn = none)
    (hparent : m.dn.dropLast = [] ∨ (content imm c m.dn.dropLast).isSome = true) :
    CacheInv tr imm (createImmMo tr m c).2 ∧ ∀ p, content imm (createImmMo tr m c).2 p =
      if p = m.dn then some (m.given tr) else content imm c p := by
  have hcall := createImmMo_ok hok
  rw [hcall] at hok ⊢
  rw [recordCreation_of_not_deleted hcov] at hok ⊢
  have hobj : objectAt m.dn c.modified = none := by
    rw [← Option.not_isSome_iff_eq_none]
    intro hsome
    have := (h.isSome_iff m.dn_ne_nil).mpr ⟨hcov, Or.inl hsome⟩
    rw [hnone] at this
    cases this
  have hnew : ∀ p, content imm _ p = _ := content_insertCreatedObject m.dn_ne_nil hcov hobj
    (tr.translateClassName m.parent m.className) m.parent "" (m.immKey tr) m.keyAttributeValue
  have hinv := h.insertCreatedObject himm m.dn_ne_nil hcov hnone hparent
    (tr.translateClassName m.parent m.className) m.parent (m.immKey tr) m.keyAttributeValue
  obtain ⟨hinv', _, hcont⟩ := setInitialAttributes_spec hinv himm m.dn_ne_nil
    (by rw [hnew, if_pos rfl]; rfl) hok
  refine ⟨hinv', fun p => ?_⟩
  rw [hcont, hnew]
  split <;> rfl

theorem createImmMo_of_deleted (h : CacheInv tr imm c) (himm : imm.Closed) {m : CreateCall}
    (hok : (createImmMo tr m c).1 = .ok) (hmem : m.dn ∈ active c.deleted) :
    CacheInv tr imm (createImmMo tr m c).2 ∧ ∀ p, content imm (createImmMo tr m c).2 p =
      if p = m.dn then (imm p).map (withInitial tr m.dn m.initialAttributes)
      else if m.dn <+: p then
        if isDeleted p (c.removeDeletedObject m.dn).deleted then none else imm p
      else content imm c p := by
  have hcall := createImmMo_ok hok
  rw [hcall] at hok ⊢
  rw [recordCreation_of_deleted (covers_of_mem hmem)] at hok ⊢
  have hback := content_removeDeletedObject h hmem
  have hself : content imm (c.removeDeletedObject m.dn) m.dn = imm m.dn := by
    rw [hback, if_pos List.prefix_rfl, if_neg]
    rw [DeletedObjects.isDeleted_iff, covers_removeDeletedObject h hmem, if_pos List.prefix_rfl]
    exact fun hc => hc.below_isPrefix.2 rfl
  have himmSome := h.markedExists m.dn (active_subset_marked _ hmem)
  obtain ⟨hinv, _, hcont⟩ := setInitialAttributes_spec (h.removeDeletedObject hmem) himm m.dn_ne_nil
    (by rwa [hself]) hok
  refine ⟨hinv, fun p => ?_⟩
  rw [hcont]
  split <;> rename_i hp
  · rw [hp, hself]
  · exact hback p

theorem undeleted_eq_none (h : CacheInv tr imm c) (himm : imm.Closed) {dn p : List String}
    (hmem : dn ∈ active c.deleted)
    (hchildren : ∀ x, (imm (dn ++ [x])).isSome = true → dn ++ [x] ∈ marked c.deleted)
    (hpre : dn <+: p) (hne : p ≠ dn) :
    (if isDeleted p (c.removeDeletedObject dn).deleted then none else imm p) = none := by
  rw [ite_eq_left_iff]
  intro hdel
  rw [← Option.not_isSome_iff_eq_none]
  intro hsome
  -- A child of the object is on the way, and its mark deletes what is below it.
  obtain ⟨x, hx, hxs⟩ := himm.exists_child hpre (Ne.symm hne) hsome
  refine hdel ((DeletedObjects.isDeleted_iff _ _).mpr ?_)
  rw [covers_removeDeletedObject h hmem, if_pos hpre]
  exact ⟨dn ++ [x], ⟨hchildren x hxs, List.prefix_append _ _, by simp⟩, hx⟩

/-! ## Parents -/

theorem Parented.addNames (h : Parented tr c) {dn : List String} {f : ObjectData → ObjectData}
    {c' : Cache} (hmod : c'.modified = ModifiedObjects.addNames f dn c.modified)
    (hf : (f ((objectAt dn c.modified).getD {})).isNewObject = true →
      (f ((objectAt dn c.modified).getD {})).parentName = dn.dropLast ∧
        (dn.dropLast = [] → tr.isImmRoot dn = true ∨ tr.mo2ImmDn [] = "")) : Parented tr c' := by
  intro p o hp ho hn
  rw [hmod, objectAt_addNames] at ho
  split at ho <;> rename_i hpd
  · rw [hpd]
    obtain rfl := Option.some.inj ho
    exact hf hn
  · split at ho
    · obtain rfl := Option.some.inj ho
      cases hq : objectAt p c.modified with
      | none =>
        rw [hq] at hn
        cases hn
      | some o =>
        rw [hq] at hn
        exact h p o hp hq hn
    · exact h p o hp ho hn

theorem Parented.set (h : Parented tr c) {dn : List String} (hdn : dn ≠ []) (immName name : String)
    (v : MoAttributeValueContainer) :
    Parented tr { c with modified := ModifiedObjects.insert dn immName name v c.modified } := by
  refine @Parented.addNames _ _ h dn _ _ rfl fun hn => ?_
  rw [isNewObject_asAltered] at hn
  rw [asAltered_parentName]
  cases hq : objectAt dn c.modified with
  | none =>
    rw [hq] at hn
    cases hn
  | some o =>
    rw [hq] at hn
    exact h dn o hdn hq hn

theorem Parented.setInitialAttributes (h : Parented tr c) {dn : List String} (hdn : dn ≠ [])
    (attributes : List (String × MoAttributeValueContainer)) (ret : MafReturn) :
    Parented tr (setInitialAttributes tr dn attributes ret c).2 := by
  induction attributes generalizing ret c with
  | nil => exact h
  | cons a rest ih =>
    rw [ComSA.setInitialAttributes, setImmMoAttribute_eq]
    split
    · by_cases hset : tr.isDnListValid dn a.1 = true ∧ c.isDeleted dn = false
      · rw [if_pos hset]
        exact ih (h.set hdn _ a.1 a.2) ret
      · rw [if_neg hset]
        exact ih h _
    · exact ih h ret

/-- What a call that creates an object needs: a name right below the parent, which exists or is not
needed, no object there yet, and attributes that the model allows. -/
structure Creates (tr : Translator) (t : ImmTree) (m : CreateCall) : Prop where
  noComma : m.dn.dropLast = m.parent
  parent : (m.parent = [] ∧ (tr.isImmRoot m.dn = true ∨ tr.mo2ImmDn [] = "")) ∨
    (t m.parent).isSome = true
  absent : t m.dn = none
  attributes : ∀ a ∈ m.initialAttributes, a.1 ∈ tr.comAttributeList m.dn →
    tr.isDnListValid m.dn a.1 = true

theorem Creates.above {t : ImmTree} {m : CreateCall} (hm : Creates tr t m) :
    m.dn.dropLast = [] ∨ (t m.dn.dropLast).isSome = true := by
  rw [hm.noComma]
  exact hm.parent.imp_left And.left

theorem Parented.recordCreation (h : Parented tr c) {m : CreateCall}
    (hm : Creates tr (content imm c) m) : Parented tr (recordCreation tr m c) := by
  by_cases hcov : Covers (active c.deleted) m.dn
  · rw [recordCreation_of_deleted hcov]
    exact h
  · rw [recordCreation_of_not_deleted hcov]
    refine h.addNames rfl fun _ => ?_
    rw [hm.noComma]
    refine ⟨rfl, fun hnil => (hm.parent.resolve_right ?_).2⟩
    rw [hnil]
    exact Bool.false_ne_true

theorem Creates.isDeleted_recordCreation {m : CreateCall} (hm : Creates tr (content imm c) m)
    (h : CacheInv tr imm c) : (recordCreation tr m c).isDeleted m.dn = false := by
  rw [← Bool.not_eq_true, Cache.isDeleted_iff]
  by_cases hcov : Covers (active c.deleted) m.dn
  · rw [recordCreation_of_deleted hcov,
      covers_removeDeletedObject h (mem_active_of_covered hcov hm.above), if_pos List.prefix_rfl]
    exact fun hc => hc.below_isPrefix.2 rfl
  · rw [recordCreation_of_not_deleted hcov]
    exact hcov

theorem Creates.createImmMo_ok {m : CreateCall} (hm : Creates tr (content imm c) m)
    (h : CacheInv tr imm c) (hgraph : m.keyAttributeValue.toList.all isGraph = true)
    (hvalid : tr.isDnListValid m.parent m.className = true) : (createImmMo tr m c).1 = .ok := by
  rw [createImmMo, hgraph, hvalid]
  exact setInitialAttributes_of_valid .ok (hm.isDeleted_recordCreation h) hm.attributes

theorem Creates.cacheInv {m : CreateCall} (hm : Creates tr (content imm c) m)
    (h : CacheInv tr imm c) (himm : imm.Closed) (hok : (createImmMo tr m c).1 = .ok) :
    CacheInv tr imm (createImmMo tr m c).2 := by
  by_cases hcov : Covers (active c.deleted) m.dn
  · exact (createImmMo_of_deleted h himm hok (mem_active_of_covered hcov hm.above)).1
  · exact (createImmMo_of_not_deleted h himm hok hcov hm.absent hm.above).1

/-! ## Deleting -/

theorem deleteImmMo_ok {dn : List String} (hvalid : tr.isDnListValid dn "" = true) {r : MafReturn}
    {c' : Cache} (h : deleteImmMo tr dn c = some (r, c')) : r = .ok := by
  rw [deleteImmMo, hvalid] at h
  cases hrem : c.removeCreatedObject dn with
  | none =>
    rw [hrem] at h
    cases h
  | some x =>
    obtain ⟨new, c₁⟩ := x
    rw [hrem] at h
    cases new <;> exact (Prod.mk.inj (Option.some.inj h)).1.symm

theorem deleteImmMo_eq_none_iff (dn : Dn) :
    deleteImmMo tr dn.parts c = none ↔
      tr.isDnListValid dn.parts "" = true ∧ dn.parts.length = 1 ∧ c.isInCache dn.parts = true := by
  rw [deleteImmMo, Cache.removeCreatedObject, Cache.isInCache, find_eq]
  cases hvalid : tr.isDnListValid dn.parts "" with
  | false => simp
  | true =>
    cases hobj : objectAt dn.parts c.modified with
    | none => simp [removeObject_of_none hobj]
    | some o =>
      obtain ⟨above, last, hdn⟩ := (List.eq_nil_or_concat' dn.parts).resolve_left dn.nonempty
      rw [hdn] at hobj ⊢
      by_cases ha : above = []
      · subst ha
        simp [removeObject_singleton hobj]
      · rw [removeObject_of_some ha hobj]
        cases o.isNewObject <;> simp [ha]

theorem removeCreatedObject_of_some {dn : List String} (hdn : dn ≠ []) {o : ObjectData}
    (hobj : objectAt dn c.modified = some o) {new : Bool} {c₁ : Cache}
    (h : c.removeCreatedObject dn = some (new, c₁)) :
    new = o.isNewObject ∧ c₁.deleted = c.deleted ∧
      (WellOrdered c.modified → WellOrdered c₁.modified) ∧
      ∀ p, objectAt p c₁.modified = if dn <+: p then none else objectAt p c.modified := by
  rw [Cache.removeCreatedObject] at h
  obtain ⟨⟨wasNew, after⟩, hremove, heq⟩ := Option.map_eq_some_iff.mp h
  obtain ⟨rfl, rfl⟩ := Prod.mk.inj heq
  obtain ⟨hnone, _⟩ | ⟨above, last, o', _, rfl, ho, hnew, rfl⟩ := removeObject_cases hdn hremove
  · exact nomatch hobj.symm.trans hnone
  · obtain rfl := Option.some.inj (ho.symm.trans hobj)
    exact ⟨hnew, rfl, fun hw => wellOrdered_dropName hw above last, objectAt_dropName above last hobj⟩

theorem removeCreatedObject_sub {dn : List String} (hdn : dn ≠ []) {new : Bool} {c₁ : Cache}
    (h : c.removeCreatedObject dn = some (new, c₁)) : c₁.deleted = c.deleted ∧
      ∀ p o, objectAt p c₁.modified = some o → objectAt p c.modified = some o := by
  cases hobj : objectAt dn c.modified with
  | none =>
    rw [Cache.removeCreatedObject, removeObject_of_none hobj] at h
    obtain ⟨rfl, rfl⟩ := Prod.mk.inj (Option.some.inj h)
    exact ⟨rfl, fun _ _ ho => ho⟩
  | some o =>
    obtain ⟨_, hdel, _, hnames⟩ := removeCreatedObject_of_some hdn hobj h
    refine ⟨hdel, fun p o ho => ?_⟩
    rw [hnames] at ho
    split at ho
    · cases ho
    · exact ho

theorem deleteImmMo_spec (h : CacheInv tr imm c) (himm : imm.Closed) {dn : List String}
    (hdn : dn ≠ []) (hsome : (content imm c dn).isSome = true) {c' : Cache}
    (hdel : deleteImmMo tr dn c = some (.ok, c')) :
    CacheInv tr imm c' ∧
      ∀ p, content imm c' p = if dn <+: p then none else content imm c p := by
  obtain ⟨hcov, hor⟩ := (h.isSome_iff hdn).mp hsome
  rw [deleteImmMo] at hdel
  split at hdel
  · cases hdel
  cases hobj : objectAt dn c.modified with
  | none =>
    rw [Cache.removeCreatedObject, removeObject_of_none hobj] at hdel
    obtain rfl := (Prod.mk.inj (Option.some.inj hdel)).2
    rw [hobj] at hor
    refine ⟨h.insertDeletedObject hdn hcov (hor.resolve_left (by simp)) ?_,
      content_insertDeletedObject hdn hcov _⟩
    exact fun p hp => objectAt_none_of_isPrefix hp hobj
  | some o =>
    cases hrem : c.removeCreatedObject dn with
    | none =>
      rw [hrem] at hdel
      cases hdel
    | some r =>
      obtain ⟨new, c₁⟩ := r
      obtain ⟨hnew, hdeleted, hord, hnames⟩ := removeCreatedObject_of_some hdn hobj hrem
      have hinv : CacheInv tr imm c₁ := h.erased hdeleted (hord h.ordered) hnames
      have hiff := (h.object dn o hdn hobj).newIff
      rw [hrem] at hdel
      cases new with
      | true =>
        obtain rfl := (Prod.mk.inj (Option.some.inj hdel)).2
        refine ⟨hinv, fun p => ?_⟩
        by_cases hp : p = []
        · rw [hp, content_nil, content_nil, ite_self]
        rw [content_erased hdeleted hnames hp]
        split <;> rename_i hpre
        · -- IMM has nothing below an object that it does not have.
          have hnone : imm p = none := by
            rw [← Option.not_isSome_iff_eq_none]
            intro hs
            have := himm.of_isPrefix hdn hpre hs
            rw [hiff.mp hnew.symm] at this
            cases this
          rw [hnone, ite_self]
        · rfl
      | false =>
        obtain rfl := (Prod.mk.inj (Option.some.inj hdel)).2
        have hcov₁ : ¬ Covers (active c₁.deleted) dn := by rwa [hdeleted]
        have hexists : (imm dn).isSome = true := by
          rw [Option.isSome_iff_ne_none]
          intro hnone
          rw [hiff.mpr hnone] at hnew
          cases hnew
        refine ⟨hinv.insertDeletedObject hdn hcov₁ hexists fun p hp => ?_, fun p => ?_⟩
        · rw [hnames, if_pos hp]
        · rw [content_insertDeletedObject hdn hcov₁]
          split <;> rename_i hpre
          · rfl
          · by_cases hp : p = []
            · rw [hp, content_nil, content_nil]
            · rw [content_erased hdeleted hnames hp, if_neg hpre]

theorem deleteImmMo_sub {dn : List String} (hdn : dn ≠ [])
    (hcov : ¬ Covers (active c.deleted) dn) {c' : Cache}
    (hdel : deleteImmMo tr dn c = some (.ok, c')) :
    (∀ p o, objectAt p c'.modified = some o → objectAt p c.modified = some o) ∧
      marked c'.deleted ⊆ insert dn (marked c.deleted) := by
  rw [deleteImmMo] at hdel
  split at hdel
  · cases hdel
  cases hrem : c.removeCreatedObject dn with
  | none =>
    rw [hrem] at hdel
    cases hdel
  | some r =>
    obtain ⟨new, c₁⟩ := r
    obtain ⟨hdeleted, hsub⟩ := removeCreatedObject_sub hdn hrem
    rw [hrem] at hdel
    cases new with
    | true =>
      obtain rfl := (Prod.mk.inj (Option.some.inj hdel)).2
      exact ⟨hsub, hdeleted ▸ Set.subset_insert _ _⟩
    | false =>
      obtain rfl := (Prod.mk.inj (Option.some.inj hdel)).2
      refine ⟨hsub, ?_⟩
      obtain ⟨first, rest, rfl⟩ := List.exists_cons_of_ne_nil hdn
      have htop : [first] ∉ active c₁.deleted := by
        rw [hdeleted]
        exact fun ht => hcov ⟨[first], ht, by simp⟩
      rw [Cache.insertDeletedObject, marked_insert htop, hdeleted]

theorem Parented.deleteImmMo (h : Parented tr c) {dn : List String} (hdn : dn ≠ [])
    (hcov : ¬ Covers (active c.deleted) dn) {c' : Cache}
    (hdel : ComSA.deleteImmMo tr dn c = some (.ok, c')) : Parented tr c' :=
  fun p o hp ho => h p o hp ((deleteImmMo_sub hdn hcov hdel).1 p o ho)

end

/-! ## A small model -/

namespace Sample

def names : List (List String × String) :=
  [(["ManagedElement=1"], "managedElementId=1"),
   (["ManagedElement=1", "Foo=1"], "fooId=1,managedElementId=1"),
   (["ManagedElement=1", "Foo=1", "Bar=1"], "barId=1,fooId=1,managedElementId=1")]

def otherName (dn : List String) : List Char :=
  dn.flatMap fun part => part.toList.flatMap (fun c => ['?', c]) ++ ['!']

def mo2ImmDn (dn : List String) : String :=
  match names.find? fun x => x.1 = dn with
  | some x => x.2
  | none => String.ofList ('?' :: otherName dn)

def translator : Translator where
  mo2ImmDn := mo2ImmDn
  containmentValid _ _ := true
  getImmKeyAttribute _ _ keyAttributeName := keyAttributeName
  translateClassName _ className := className
  comAttributeList _ := ["fooId", "barId", "counter", "points"]
  isImmRoot dn := dn.length = 1

def imm : ImmTree := fun dn => if dn ∈ names.map Prod.fst then some fun _ => [] else none

def immExists (name : String) : Bool := name ∈ names.map Prod.snd

def foo : Dn := ⟨["ManagedElement=1", "Foo=1"], by simp⟩

def bar : Dn := ⟨["ManagedElement=1", "Foo=1", "Bar=1"], by simp⟩

theorem imm_isSome_iff (dn : List String) :
    (imm dn).isSome = true ↔ dn = ["ManagedElement=1"] ∨ dn = foo.parts ∨ dn = bar.parts := by
  rw [imm]
  split <;> rename_i h <;> simp [names, foo, bar] at h ⊢ <;> exact h

theorem closed : imm.Closed := by
  refine ⟨rfl, fun p x hp hx => ?_⟩
  rw [imm_isSome_iff] at hx ⊢
  rcases hx with h | h | h <;> have hd := congrArg List.dropLast h <;>
    rw [List.dropLast_concat] at hd
  · exact absurd hd hp
  · exact Or.inl hd
  · exact Or.inr (Or.inl hd)

theorem isListValid (parts : List String) (childName : String) :
    translator.isListValid parts childName = true := by
  induction parts generalizing childName with
  | nil => rfl
  | cons part above ih =>
    rw [Translator.isListValid, ih, Bool.and_true]
    rfl

theorem otherName_cons_inj (a b : List Char) {x y : List Char}
    (h : a.flatMap (fun c => ['?', c]) ++ '!' :: x = b.flatMap (fun c => ['?', c]) ++ '!' :: y) :
    a = b ∧ x = y := by
  induction a generalizing b with
  | nil =>
    cases b with
    | nil => simpa using h
    | cons d b => simp at h
  | cons c a ih =>
    cases b with
    | nil => simp at h
    | cons d b =>
      simp only [List.flatMap_cons, List.cons_append, List.nil_append, List.cons.injEq,
        true_and] at h
      obtain ⟨hab, hxy⟩ := ih b h.2
      exact ⟨by rw [h.1, hab], hxy⟩

theorem otherName_injective : Function.Injective otherName := by
  intro p q h
  induction p generalizing q with
  | nil =>
    cases q with
    | nil => rfl
    | cons t q => simp [otherName] at h
  | cons s p ih =>
    cases q with
    | nil => simp [otherName] at h
    | cons t q =>
      simp only [otherName, List.flatMap_cons, List.append_assoc, List.singleton_append] at h
      obtain ⟨hst, hpq⟩ := otherName_cons_inj _ _ h
      rw [String.toList_inj.mp hst, ih hpq]

theorem otherName_not_mem (dn : List String) :
    String.ofList ('?' :: otherName dn) ∉ names.map Prod.snd := by
  intro h
  have hhead : ∀ name ∈ names.map Prod.snd, name.toList.head? ≠ some '?' := by decide
  exact hhead _ h (by rw [String.toList_ofList, List.head?_cons])

theorem mo2ImmDn_mem_iff (dn : List String) :
    mo2ImmDn dn ∈ names.map Prod.snd ↔ dn ∈ names.map Prod.fst := by
  rw [mo2ImmDn]
  cases hf : names.find? fun x => x.1 = dn with
  | some x =>
    have hx := List.mem_of_find?_eq_some hf
    have hdn : x.1 = dn := by simpa using List.find?_some hf
    exact ⟨fun _ => hdn ▸ List.mem_map_of_mem hx, fun _ => List.mem_map_of_mem hx⟩
  | none =>
    refine ⟨fun h => absurd h (otherName_not_mem dn), fun h => ?_⟩
    obtain ⟨x, hx, rfl⟩ := List.mem_map.mp h
    simpa using List.find?_eq_none.mp hf x hx

theorem mo2ImmDn_injective : Function.Injective mo2ImmDn := by
  intro p q h
  have hmem := mo2ImmDn_mem_iff p
  rw [h, mo2ImmDn_mem_iff] at hmem
  rw [mo2ImmDn, mo2ImmDn] at h
  cases hp : names.find? fun x => x.1 = p with
  | some x =>
    have hxp : x.1 = p := by simpa using List.find?_some hp
    have hx := List.mem_of_find?_eq_some hp
    cases hq : names.find? fun x => x.1 = q with
    | some y =>
      have hyq : y.1 = q := by simpa using List.find?_some hq
      rw [hp, hq] at h
      have hnames : ∀ x ∈ names, ∀ y ∈ names, x.2 = y.2 → x.1 = y.1 := by decide
      rw [← hxp, ← hyq, hnames x hx y (List.mem_of_find?_eq_some hq) h]
    | none =>
      obtain ⟨y, hy, hyq⟩ := List.mem_map.mp (hmem.mpr (hxp ▸ List.mem_map_of_mem hx))
      simpa [hyq] using List.find?_eq_none.mp hq y hy
  | none =>
    cases hq : names.find? fun x => x.1 = q with
    | some y =>
      have hyq : y.1 = q := by simpa using List.find?_some hq
      have hy := List.mem_of_find?_eq_some hq
      obtain ⟨x, hx, hxp⟩ := List.mem_map.mp (hmem.mp (hyq ▸ List.mem_map_of_mem hy))
      simpa [hxp] using List.find?_eq_none.mp hp x hx
    | none =>
      rw [hp, hq] at h
      exact otherName_injective (List.cons.inj (String.ofList_inj.mp h)).2

theorem mo2ImmDn_ne (dn : List String) : mo2ImmDn dn ≠ "" := by
  rw [mo2ImmDn]
  cases hf : names.find? fun x => x.1 = dn with
  | some x =>
    have hnames : ∀ x ∈ names, x.2 ≠ "" := by decide
    exact hnames x (List.mem_of_find?_eq_some hf)
  | none =>
    intro h
    have := congrArg String.toList h
    simp at this

theorem known (dn : List String) : immExists (translator.mo2ImmDn dn) = (imm dn).isSome := by
  rw [Bool.eq_iff_iff, immExists, decide_eq_true_iff, imm]
  rw [show translator.mo2ImmDn = mo2ImmDn from rfl, mo2ImmDn_mem_iff]
  split <;> rename_i h <;> simp [h]

end Sample

end ComSA
