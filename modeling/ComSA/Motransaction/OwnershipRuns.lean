import ComSA.Motransaction.LockedStructs
import ComSA.Motransaction.StructCommit

/-!
# No operation without ownership

In which runs every operation that is sent to IMM finds the objects it needs owned.
-/

namespace ComSA

open DeletedObjects ModifiedObjects TxState

variable {env : TxEnv} {imm : ImmTree} {w : TxState} {c : Cache}

/-! ## Ready to prepare -/

/-- The answers in which nothing goes wrong: what is cleared is taken again, and where objects are taken
at the calls, no operation is tried again. -/
def Allowed (env : TxEnv) (a : ImmAnswer) : Prop :=
  a ≠ .cleared false ∧ (env.lockMoForConfigChange = true → a ≠ .failedOperation true)

def needs (tr : Translator) (c : Cache) (finalModified : List CcbOp) : List Need :=
  (prepareOps tr c).map CcbOp.need ++ finalModified.map fun op => (op.ownerName, .one)

def NoOverlap (tr : Translator) (w : TxState) : Prop :=
  ∀ name scope, w.isAdminOwnerFor name scope = true →
    ∀ need ∈ needs tr w.cache w.finalModified, need.1 ≠ "" → Apart tr (name, scope) need

structure Ready (env : TxEnv) (imm : ImmTree) (c : Cache) (w : TxState) : Prop where
  cache : w.cache = c
  kept : Kept env imm w
  log : ∀ x ∈ w.log, x.Held env.tr
  noOverlap : env.lockMoForConfigChange = false → NoOverlap env.tr w
  answers : ∀ a ∈ w.answers, Allowed env a

theorem Ready.congr (h : Ready env imm c w) {w' : TxState} (hcache : w'.cache = w.cache)
    (hfinal : w'.finalModified = w.finalModified) (howners : w'.adminOwners = w.adminOwners)
    (howned : w'.owned = w.owned) (hlog : w'.log = w.log) (hanswers : w'.answers ⊆ w.answers) :
    Ready env imm c w' := by
  cases w
  cases w'
  dsimp only at hcache hfinal howners howned hlog hanswers
  subst hcache hfinal howners howned hlog
  refine ⟨h.cache, ⟨h.kept.cacheInv, h.kept.parented, h.kept.sound, fun hflag => ?_⟩, h.log,
    h.noOverlap, fun a ha => h.answers a (hanswers ha)⟩
  exact ⟨(h.kept.taken hflag).created, (h.kept.taken hflag).deleted, (h.kept.taken hflag).altered⟩

theorem Ready.closeCcb (h : Ready env imm c w) : Ready env imm c { w with ccbCreated := false } :=
  h.congr rfl rfl rfl rfl rfl fun _ ha => ha

theorem Ready.nextAnswer (h : Ready env imm c w) :
    Ready env imm c w.nextAnswer.2 ∧ Allowed env w.nextAnswer.1 := by
  constructor
  · have hanswers := nextAnswer_answers w
    rw [nextAnswer_rest w]
    exact h.congr rfl rfl rfl rfl rfl hanswers
  · rcases nextAnswer_mem w with hok | hmem
    · rw [hok]
      exact ⟨nofun, fun _ => nofun⟩
    · exact h.answers _ hmem

/-! ## Giving back -/

theorem isAdminOwnerFor_remove {name : String} {scope : ImmScope}
    (h : w.isAdminOwnerFor name scope = true) (name' : String) (scope' : ImmScope) :
    (w.removeAdminOwnerFor name scope).isAdminOwnerFor name' scope' =
      if name' = name then false else w.isAdminOwnerFor name' scope' := by
  rw [removeAdminOwnerFor, if_pos h, isAdminOwnerFor, SortedMap.get?_erase]
  by_cases hn : name' = name
  · rw [if_pos hn, if_pos hn]
  · rw [if_neg hn, if_neg hn]
    rfl

theorem Ready.remove (h : Ready env imm c w) (hflag : env.lockMoForConfigChange = false)
    {name : String} {scope : ImmScope}
    (hneed : (name, scope) ∈ needs env.tr w.cache w.finalModified) (hname : name ≠ "")
    (hown : w.isAdminOwnerFor name scope = true) {w' : TxState} (hcache : w'.cache = w.cache)
    (hfinal : w'.finalModified = w.finalModified) (hlog : w'.log = w.log)
    (hanswers : w'.answers ⊆ w.answers)
    (howners : w'.adminOwners = (w.removeAdminOwnerFor name scope).adminOwners)
    (howned : ∀ q, ¬ InScope env.tr name scope q → w'.owned q = w.owned q) :
    Ready env imm c w' := by
  have howner : ∀ n s, w'.isAdminOwnerFor n s = true → n ≠ name ∧ w.isAdminOwnerFor n s = true := by
    intro n s hown'
    rw [isAdminOwnerFor, howners, ← isAdminOwnerFor, isAdminOwnerFor_remove hown] at hown'
    split at hown' <;> rename_i hn
    · cases hown'
    · exact ⟨hn, hown'⟩
  have hno := h.noOverlap hflag
  refine ⟨hcache.trans h.cache, ⟨?_, ?_, fun n s hown' q hq => ?_, fun ht => ?_⟩, ?_,
    fun _ n s hown' need' hneed' hname' => ?_, fun a ha => h.answers a (hanswers ha)⟩
  · rw [hcache]
    exact h.kept.cacheInv
  · rw [hcache]
    exact h.kept.parented
  · obtain ⟨hne, hown'⟩ := howner n s hown'
    rw [howned q fun hq' => ?_]
    · exact h.kept.sound n s hown' q hq
    · exact (hno n s hown' (name, scope) hneed hname).resolve_left hne q hq hq'
  · rw [hflag] at ht
    cases ht
  · rw [hlog]
    exact h.log
  · rw [hcache, hfinal] at hneed'
    exact hno n s (howner n s hown').2 need' hneed' hname'

theorem Ready.releaseAdminOwner (h : Ready env imm c w) (hflag : env.lockMoForConfigChange = false)
    {name : String} {scope : ImmScope}
    (hneed : (name, scope) ∈ needs env.tr w.cache w.finalModified) :
    Ready env imm c (releaseAdminOwner env name scope w) := by
  rw [ComSA.releaseAdminOwner]
  by_cases hname : name = ""
  · rw [if_pos hname]
    exact h
  rw [if_neg hname]
  by_cases hown : w.isAdminOwnerFor name scope = true
  swap
  · rw [if_neg hown]
    exact h
  rw [if_pos hown]
  have hnext := h.nextAnswer.1
  have hrest := nextAnswer_rest w
  have hanswers := nextAnswer_answers w
  generalize w.nextAnswer = r at hnext hrest hanswers
  obtain ⟨a, w₁⟩ := r
  cases a with
  | ok =>
    have hown₁ : w₁.isAdminOwnerFor name scope = true := by
      rw [show w₁ = _ from hrest]
      exact hown
    have hremove : ((w₁.disown env.tr name scope).removeAdminOwnerFor name scope) =
        { w₁.disown env.tr name scope with
          adminOwners := (w₁.removeAdminOwnerFor name scope).adminOwners } := by
      rw [removeAdminOwnerFor, removeAdminOwnerFor, if_pos hown₁, if_pos (by exact hown₁)]
      rfl
    simp only [hremove]
    refine hnext.remove hflag ?_ hname hown₁ rfl rfl rfl (fun _ ha => ha) rfl fun q hq => ?_
    · rw [show w₁ = _ from hrest]
      exact hneed
    · change (!decide (InScope env.tr name scope q) && w₁.owned q) = w₁.owned q
      rw [decide_eq_false hq]
      rfl
  | _ => exact hnext

theorem Ready.releaseDeleted (h : Ready env imm c w) (hflag : env.lockMoForConfigChange = false)
    {name : String} (hneed : (name, .subtree) ∈ needs env.tr w.cache w.finalModified) :
    Ready env imm c (releaseDeleted env w name) := by
  rw [ComSA.releaseDeleted]
  by_cases hname : name = ""
  · rw [if_pos hname]
    exact h
  rw [if_neg hname]
  split
  · exact h.releaseAdminOwner hflag hneed
  split <;> rename_i hown
  · refine h.remove hflag hneed hname hown ?_ ?_ ?_ ?_ rfl fun q _ => ?_ <;>
      rw [removeAdminOwnerFor, if_pos hown]
    exact fun _ ha => ha
  · exact h

theorem quiet_releaseDeleted (env : TxEnv) (w : TxState) (name : String) :
    Quiet w (releaseDeleted env w name) := by
  rw [releaseDeleted]
  split
  · exact .refl w
  split
  · exact quiet_releaseAdminOwner env name .subtree w
  split
  · exact quiet_removeAdminOwnerFor name .subtree w
  · exact .refl w

theorem quiet_foldl {α : Type*} {f : TxState → α → TxState} (hf : ∀ w a, Quiet w (f w a))
    (l : List α) (w : TxState) : Quiet w (l.foldl f w) :=
  List.foldlRecOn l f (.refl w) fun w' h a _ => h.trans (hf w' a)

theorem Ready.foldl (h : Ready env imm c w) {α : Type*} {f : TxState → α → TxState}
    (hf : ∀ w a, Quiet w (f w a)) {l : List α} (hstep : ∀ a ∈ l, ∀ w', Ready env imm c w' →
      w'.cache = w.cache → w'.finalModified = w.finalModified → Ready env imm c (f w' a)) :
    Ready env imm c (l.foldl f w) := by
  refine (List.foldlRecOn (motive := fun w' => Ready env imm c w' ∧
    w'.finalModified = w.finalModified) l f ⟨h, rfl⟩ fun w' hw' a ha => ?_).1
  exact ⟨hstep a ha w' hw'.1 (hw'.1.cache.trans h.cache.symm) hw'.2,
    (hf w' a).finalModified.trans hw'.2⟩

theorem Ready.final (h : Ready env imm c w) {ops : List CcbOp}
    (hops : ∀ op ∈ ops, op ∈ prepareOps env.tr c ∧ op.ownerScope = .one ∨ op ∈ w.finalModified) :
    Ready env imm c { w with finalModified := ops } := by
  refine ⟨h.cache, ⟨h.kept.cacheInv, h.kept.parented, h.kept.sound, fun hflag => ?_⟩, h.log,
    fun hflag name scope hown need hneed hname => ?_, h.answers⟩
  · exact ⟨(h.kept.taken hflag).created, (h.kept.taken hflag).deleted, (h.kept.taken hflag).altered⟩
  · refine h.noOverlap hflag name scope hown need ?_ hname
    rcases List.mem_append.mp hneed with hneed | hneed
    · exact List.mem_append_left _ hneed
    · obtain ⟨op, hop, rfl⟩ := List.mem_map.mp hneed
      rcases hops op hop with ⟨hprep, hscope⟩ | hfinal
      · refine List.mem_append_left _ ?_
        rw [h.cache, ← hscope]
        exact List.mem_map_of_mem hprep
      · exact List.mem_append_right _ (List.mem_map_of_mem hfinal)

/-- The operations so far had what they needed. After ownership was given back where objects are taken at
the calls, nothing more is known. -/
def Settled (env : TxEnv) (imm : ImmTree) (c : Cache) (w : TxState) : Prop :=
  (∀ x ∈ w.log, x.Held env.tr) ∧
    (env.lockMoForConfigChange = true ∧ w.released = true ∨ Ready env imm c w)

theorem Ready.settled (h : Ready env imm c w) : Settled env imm c w := ⟨h.log, Or.inr h⟩

theorem Settled.ready (h : Settled env imm c w) (hflag : env.lockMoForConfigChange = false) :
    Ready env imm c w := by
  refine h.2.resolve_left fun ht => ?_
  rw [hflag] at ht
  cases ht.1

theorem quiet_releaseNames (env : TxEnv) (names : List String) (w : TxState) :
    Quiet w (releaseNames env names w) :=
  quiet_foldl (fun w name => quiet_releaseAdminOwner env name .one w) names w

theorem Ready.releaseNames (h : Ready env imm c w) (hflag : env.lockMoForConfigChange = false)
    {names : List String}
    (hneed : ∀ name ∈ names, (name, .one) ∈ needs env.tr w.cache w.finalModified) :
    Ready env imm c (releaseNames env names w) := by
  refine h.foldl (fun w name => quiet_releaseAdminOwner env name .one w) fun name hname w' hw' hc hf => ?_
  refine hw'.releaseAdminOwner hflag ?_
  rw [hc, hf]
  exact hneed name hname

theorem Ready.releaseAdminOwnerForDn (h : Ready env imm c w) :
    Settled env imm c (releaseAdminOwnerForDn env w) := by
  have hneeds : ∀ op ∈ prepareOps env.tr w.cache, op.need ∈ needs env.tr w.cache w.finalModified :=
    fun op hop => List.mem_append_left _ (List.mem_map_of_mem hop)
  unfold ComSA.releaseAdminOwnerForDn
  extract_lets creObj delObj w₁ w₂ w₃
  have hq₁ : Quiet w w₁ := quiet_releaseNames env _ w
  have hq₂ : Quiet w₁ w₂ := quiet_foldl (quiet_releaseDeleted env) delObj w₁
  have hq₃ : Quiet w₂ w₃ := quiet_releaseNames env _ w₂
  refine ⟨fun x hx => h.log x ?_, ?_⟩
  · rw [← ((hq₁.trans hq₂).trans hq₃).log]
    exact hx
  cases hflag : env.lockMoForConfigChange with
  | true => exact Or.inl ⟨rfl, rfl⟩
  | false =>
    right
    have h₁ : Ready env imm c w₁ := by
      refine h.releaseNames hflag fun name hname => ?_
      obtain ⟨x, hx, rfl⟩ := List.mem_map.mp hname
      exact hneeds (createOp env.tr x) (List.mem_append_left _ (List.mem_map_of_mem hx))
    have h₂ : Ready env imm c w₂ := by
      refine h₁.foldl (quiet_releaseDeleted env) fun name hname w' hw' hc hf => ?_
      refine hw'.releaseDeleted hflag ?_
      rw [hc, hf, h₁.cache, hq₁.finalModified, ← h.cache]
      exact hneeds (.objectDelete name)
        (List.mem_append_right _ (List.mem_append_left _ (List.mem_map_of_mem hname)))
    have h₃ : Ready env imm c w₃ := by
      refine h₂.releaseNames hflag fun name hname => List.mem_append_right _ ?_
      obtain ⟨op, hop, rfl⟩ := List.mem_map.mp hname
      exact List.mem_map_of_mem hop
    exact (h₃.final fun op hop => by simp at hop).congr rfl rfl rfl rfl rfl fun _ ha => ha

/-! ## Preparing -/

theorem Ready.log_append (h : Ready env imm c w) {x : Issued} (hx : x.Held env.tr) :
    Ready env imm c { w with log := w.log ++ [x] } := by
  refine ⟨h.cache, ⟨h.kept.cacheInv, h.kept.parented, h.kept.sound, fun hflag => ?_⟩,
    fun y hy => ?_, h.noOverlap, h.answers⟩
  · exact ⟨(h.kept.taken hflag).created, (h.kept.taken hflag).deleted, (h.kept.taken hflag).altered⟩
  · rcases List.mem_append.mp hy with hy | hy
    · exact h.log y hy
    · rw [List.mem_singleton.mp hy]
      exact hx

/-- After a step the next one may follow, and nothing is tried again where it would not be taken
again. -/
structure Proceeds (env : TxEnv) (imm : ImmTree) (c : Cache) (r : MafReturn × TxState) : Prop where
  ready : Ready env imm c r.2
  noRetry : env.lockMoForConfigChange = true → r.1 ≠ .commitFailed

structure Prepared (env : TxEnv) (imm : ImmTree) (c : Cache) (w : TxState) (ops : List CcbOp)
    (r : MafReturn × TxState) : Prop extends Proceeds env imm c r where
  final : r.2.finalModified = w.finalModified
  inCcb : r.1 = .ok → r.2.inCcb = ops.foldl supply w.inCcb

theorem Prepared.onOk {ops : List CcbOp} {r : MafReturn × TxState}
    (h : Prepared env imm c w ops r) {next : TxState → MafReturn × TxState}
    (hnext : ∀ w', Ready env imm c w' → w'.finalModified = w.finalModified →
      w'.inCcb = ops.foldl supply w.inCcb → Proceeds env imm c (next w')) :
    Proceeds env imm c (onOk r next) := by
  rw [ComSA.onOk]
  split <;> rename_i hr
  · exact hnext r.2 h.ready h.final (h.inCcb hr)
  · exact h.toProceeds

theorem Ready.failed (h : Ready env imm c w) {w₀ : TxState} {op : CcbOp} {ops : List CcbOp}
    {a : ImmAnswer} (ha : Allowed env a) (hfinal : w.finalModified = w₀.finalModified) :
    Prepared env imm c w₀ ops
      (if a = .failedOperation true then .commitFailed else .failure,
        if op.isDelete then { w with ccbDeleteFailed := true } else w) := by
  refine ⟨⟨?_, fun hflag => ?_⟩, ?_, fun hok => ?_⟩
  · simp only
    split
    · exact h.congr rfl rfl rfl rfl rfl fun _ ha => ha
    · exact h
  · simp only
    rw [if_neg (ha.2 hflag)]
    nofun
  · simp only
    split <;> exact hfinal
  · simp only at hok
    split at hok <;> cases hok

theorem Ready.issue (h : Ready env imm c w) (hm : env.Models imm) {op : CcbOp}
    (hsup : Supplied env.tr imm w.inCcb op) (ht : Taken env w op.need) :
    Prepared env imm c w [op] (issue op w) := by
  have hlog := h.log_append (held_of_taken hm h.kept.sound hsup ht)
  unfold ComSA.issue
  extract_lets w₁
  obtain ⟨hnext, hallowed⟩ := hlog.nextAnswer
  have hfinal := (quiet_nextAnswer w₁).finalModified
  have hinCcb : w₁.nextAnswer.2.inCcb = w.inCcb := by rw [nextAnswer_rest w₁]
  generalize w₁.nextAnswer = r at hnext hallowed hfinal hinCcb
  obtain ⟨a, w₂⟩ := r
  cases a with
  | ok =>
    refine ⟨⟨hnext.congr rfl rfl rfl rfl rfl fun _ ha => ha, fun _ => nofun⟩, hfinal, fun _ => ?_⟩
    change op.created ++ w₂.inCcb = op.created ++ w.inCcb
    rw [show w₂.inCcb = w.inCcb from hinCcb]
  | _ => exact hnext.failed hallowed hfinal

theorem Kept.taken_need (h : Kept env imm w) (hm : env.Models imm)
    (hflag : env.lockMoForConfigChange = true) {op : CcbOp} (hop : op ∈ prepareOps env.tr w.cache) :
    Taken env w op.need := by
  have ht := h.taken hflag
  simp only [prepareOps, List.mem_append, List.mem_map, List.mem_reverse] at hop
  rcases hop with ⟨x, hx, rfl⟩ | ⟨name, hname, rfl⟩ | hop | ⟨x, hx, rfl⟩
  · obtain ⟨hne, hobj, hnew⟩ := h.cacheInv.mem_created hx
    exact ht.created x.name x.object hne hobj hnew
  · rw [h.cacheInv.getDeletedData_eq, List.mem_map] at hname
    obtain ⟨p, hp, rfl⟩ := hname
    exact ht.deleted p (active_subset_marked _ ((mem_deletedNames h.cacheInv.unique).mp hp))
  · -- IMM does not have the new object yet.
    rw [prepareListOfModifiedObjects, List.mem_map] at hop
    obtain ⟨x, hx, rfl⟩ := hop
    obtain ⟨hmem, hunset⟩ := List.mem_filter.mp hx
    obtain ⟨hne, hobj, hnew⟩ := h.cacheInv.mem_created hmem
    refine Or.inr (Or.inr ?_)
    change env.immExists x.object.immName = false
    rw [h.cacheInv.immName_of_unset hmem (of_decide_eq_true hunset), hm.known x.name hne,
      (h.cacheInv.object x.name x.object hne hobj).newIff.mp hnew]
    rfl
  · obtain ⟨hne, hobj, hmod⟩ := h.cacheInv.mem_modified hx
    have haltered := ht.altered x.name x.object hne hobj hmod
    rwa [← (h.cacheInv.object x.name x.object hne hobj).altered hmod] at haltered

theorem Apart.of_le {tr : Translator} {name : String} {s t : ImmScope} {need : Need}
    (h : Apart tr (name, t) need) (hst : s.toNat ≤ t.toNat) : Apart tr (name, s) need :=
  h.imp_right fun hno q hq => hno q (hq.of_le hst)

theorem Ready.lock (h : Ready env imm c w) (hm : env.Models imm) {op : CcbOp}
    (hop : op ∈ prepareOps env.tr c)
    (hfinal : ∀ op ∈ w.finalModified, op ∈ prepareOps env.tr c ∧ op.ownerScope = .one)
    {r : MafReturn × TxState} (hr : (if env.lockMoForConfigChange then (.ok, w)
      else lockDn env op.ownerName op.ownerScope w) = r) :
    Ready env imm c r.2 ∧ (r.1 = .ok → Taken env r.2 op.need) ∧
      (env.lockMoForConfigChange = true → r.1 = .ok) ∧
      r.2.finalModified = w.finalModified ∧ r.2.inCcb = w.inCcb := by
  cases hflag : env.lockMoForConfigChange with
  | true =>
    rw [hflag] at hr
    subst hr
    refine ⟨h, fun _ => h.kept.taken_need hm hflag ?_, fun _ => rfl, rfl, rfl⟩
    rw [h.cache]
    exact hop
  | false =>
    rw [hflag] at hr
    subst hr
    simp only [Bool.false_eq_true, if_false]
    by_cases hname : op.ownerName = ""
    · rw [lockDn, checkSetAdminOwner, if_pos hname]
      exact ⟨h, fun _ => Or.inl hname, fun _ => rfl, rfl, rfl⟩
    obtain ⟨hl, ht⟩ := @locked_lockDn env w op.ownerName op.ownerScope
      fun hmem => (h.answers _ hmem).1 rfl
    generalize lockDn env op.ownerName op.ownerScope w = r at hl ht
    have hfin : r.2.finalModified = w.finalModified := by rw [hl.rest]
    refine ⟨⟨hl.cache.trans h.cache, h.kept.locked hl, ?_, fun _ n s hown need hneed hne => ?_,
      fun a ha => h.answers a (hl.answers ha)⟩, ht, False.elim, hfin, by rw [hl.rest]⟩
    · rw [hl.rest]
      exact h.log
    · rw [hl.cache, hfin] at hneed
      rcases hl.gains n s hown with hown | ⟨rfl, hs⟩
      · exact h.noOverlap hflag n s hown need hneed hne
      · -- The name that was taken is one that is needed, as the other one.
        have hneed' : ∃ op' ∈ prepareOps env.tr c, op'.need = need := by
          rcases List.mem_append.mp hneed with hneed | hneed
          · rw [h.cache] at hneed
            exact List.mem_map.mp hneed
          · obtain ⟨op', hop', rfl⟩ := List.mem_map.mp hneed
            obtain ⟨hprep, hscope⟩ := hfinal op' hop'
            exact ⟨op', hprep, by rw [CcbOp.need, hscope]⟩
        obtain ⟨op', hop', rfl⟩ := hneed'
        have hinv := h.kept.cacheInv
        have hpar := h.kept.parented
        rw [h.cache] at hinv hpar
        exact (needs_apart hinv hpar hm.injective hop hop' hname hne).of_le hs

/-- Every operation of the list is issued with what it needs, down to the first that fails. -/
theorem Ready.issueAll (hm : env.Models imm) {ops : List CcbOp} (h : Ready env imm c w)
    (hops : ∀ op ∈ ops, op ∈ prepareOps env.tr c)
    (hsup : Along supply (Supplied env.tr imm) w.inCcb ops)
    (hfinal : ∀ op ∈ w.finalModified, op ∈ prepareOps env.tr c ∧ op.ownerScope = .one) :
    Prepared env imm c w ops (issueAll env ops w) := by
  induction ops generalizing w with
  | nil => exact ⟨⟨h, fun _ => nofun⟩, rfl, fun _ => rfl⟩
  | cons op ops ih =>
    rw [ComSA.issueAll]
    generalize hlock : (if env.lockMoForConfigChange then (.ok, w)
      else lockDn env op.ownerName op.ownerScope w) = r
    obtain ⟨hready, htaken, hgiven, hfin, hin⟩ := h.lock hm (hops op List.mem_cons_self) hfinal hlock
    rw [onOk]
    split <;> rename_i hret
    swap
    · exact ⟨⟨hready, fun hflag => absurd (hgiven hflag) hret⟩, hfin, fun hok => absurd hok hret⟩
    rw [← hin] at hsup
    have hissue := hready.issue hm hsup.1 (htaken hret)
    have hfin₂ := hissue.final.trans hfin
    rw [onOk]
    split <;> rename_i hret₂
    swap
    · exact ⟨hissue.toProceeds, hfin₂, fun hok => absurd hok hret₂⟩
    have hin₂ := hissue.inCcb hret₂
    have hrest := hsup.2
    rw [show supply r.2.inCcb op = [op].foldl supply r.2.inCcb from rfl, ← hin₂] at hrest
    rw [← hfin₂] at hfinal
    have hlast := ih hissue.ready (fun op hop => hops op (List.mem_cons_of_mem _ hop)) hrest hfinal
    refine ⟨hlast.toProceeds, hlast.final.trans hfin₂, fun hok => ?_⟩
    rw [hlast.inCcb hok, hin₂, hin]
    rfl

theorem mem_modObj {op : CcbOp} (hop : op ∈ prepareListOfModifiedObjects (getCreatedData c.modified) ++
    (getModifiedData c.modified).map modifyOp) :
    op ∈ prepareOps env.tr c ∧ op.ownerScope = .one := by
  refine ⟨List.mem_append_right _ (List.mem_append_right _ hop), ?_⟩
  rcases List.mem_append.mp hop with hop | hop <;>
    obtain ⟨x, _, rfl⟩ := List.mem_map.mp hop <;> rfl

theorem Ready.oamSAPrepare (h : Ready env imm c w) (hm : env.Models imm) :
    Proceeds env imm c (oamSAPrepare env w) := by
  have hinv := h.kept.cacheInv
  have hpar := h.kept.parented
  rw [h.cache] at hinv hpar
  have hsup := supplied_prepareOps hinv hpar
  rw [prepareOps, along_append, along_append] at hsup
  obtain ⟨hsup₁, hsup₂, hsup₃⟩ := hsup
  unfold ComSA.oamSAPrepare
  extract_lets w₀
  have hready : Ready env imm c w₀ :=
    (h.final fun op hop => by simp at hop).congr rfl rfl rfl rfl rfl fun _ ha => ha
  by_cases hccb : w₀.ccbCreated = true
  · rw [if_pos hccb]
    exact ⟨hready, fun _ h => by cases h⟩
  rw [if_neg hccb]
  have hnext := hready.nextAnswer.1
  generalize w₀.nextAnswer = r at hnext ⊢
  obtain ⟨a, w₁⟩ := r
  cases a with
  | ok =>
    obtain rfl : w₁.cache = c := hnext.cache
    dsimp -zeta only
    extract_lets creObj delObj
    have hmods : ∀ op ∈ prepareListOfModifiedObjects creObj,
        op ∈ prepareOps env.tr w₁.cache ∧ op.ownerScope = .one :=
      fun op hop => mem_modObj (List.mem_append_left _ hop)
    refine Prepared.onOk (Ready.issueAll hm ?_ (fun op hop => List.mem_append_left _ hop) hsup₁ hmods)
      fun w₂ h₂ hfin₂ hin₂ => ?_
    · exact (hnext.final fun op hop => Or.inl (hmods op hop)).congr rfl rfl rfl rfl rfl fun _ ha => ha
    have hfin₂ : w₂.finalModified = prepareListOfModifiedObjects creObj := hfin₂
    rw [← show w₂.inCcb = _ from hin₂] at hsup₂ hsup₃
    refine Prepared.onOk (Ready.issueAll hm ?_
      (fun op hop => List.mem_append_right _ (List.mem_append_left _ hop)) (by exact hsup₂) ?_)
      fun w₃ h₃ hfin₃ hin₃ => ?_
    · exact h₂.congr rfl rfl rfl rfl rfl fun _ ha => ha
    · rw [show w₂.finalModified = _ from hfin₂]
      exact hmods
    have hfin₃ : w₃.finalModified = prepareListOfModifiedObjects creObj := hfin₃.trans hfin₂
    rw [← show w₃.inCcb = _ from hin₃] at hsup₃
    extract_lets modObj
    have hmod : ∀ op ∈ modObj, op ∈ prepareOps env.tr w₁.cache ∧ op.ownerScope = .one := by
      intro op hop
      refine mem_modObj ?_
      rw [← hfin₃, ← h₃.cache]
      exact hop
    refine Prepared.onOk (Ready.issueAll hm ?_ (fun op hop => (hmod op hop).1) ?_ hmod)
      fun w₄ h₄ _ _ => ⟨?_, fun _ h => by cases h⟩
    · exact h₃.final fun op hop => Or.inl (hmod op hop)
    · change Along supply _ w₃.inCcb (w₃.finalModified ++ (getModifiedData w₃.cache.modified).map modifyOp)
      rw [hfin₃, h₃.cache]
      exact hsup₃
    · exact h₄.congr rfl rfl rfl rfl rfl fun _ ha => ha
  | _ => exact ⟨hnext, fun _ h => by cases h⟩

/-! ## Trying again -/

theorem Ready.handlePrepareOnImmAbort (hm : env.Models imm) (hflag : env.lockMoForConfigChange = false)
    (n : Nat) (h : Ready env imm c w) : Ready env imm c (handlePrepareOnImmAbort env n w).2 := by
  induction n generalizing w with
  | zero => exact h
  | succ n ih =>
    rw [ComSA.handlePrepareOnImmAbort]
    have hreleased := h.releaseAdminOwnerForDn.ready hflag
    have hprep := hreleased.closeCcb.oamSAPrepare hm
    generalize ComSA.oamSAPrepare env _ = r at hprep ⊢
    obtain ⟨ret, w'⟩ := r
    cases ret with
    | commitFailed => exact ih hprep.ready
    | _ => exact hprep.ready

theorem Ready.prepareOnImmAbort (h : Ready env imm c w) (hm : env.Models imm) :
    Ready env imm c (prepareOnImmAbort env w).2 := by
  have hprep := h.oamSAPrepare hm
  rw [ComSA.prepareOnImmAbort]
  generalize ComSA.oamSAPrepare env w = r at hprep ⊢
  obtain ⟨ret, w'⟩ := r
  cases ret with
  | commitFailed =>
    cases hflag : env.lockMoForConfigChange with
    | true => exact absurd rfl (hprep.noRetry hflag)
    | false => exact hprep.ready.handlePrepareOnImmAbort hm hflag _
  | _ => exact hprep.ready

theorem Ready.validateLoop (hm : env.Models imm) (n : Nat) {a : ImmAnswer} (ha : Allowed env a)
    (h : Ready env imm c w) : Settled env imm c (validateLoop env n a w).2.2 := by
  induction n generalizing a w with
  | zero =>
    cases a with
    | ok => exact h.settled
    | _ => exact h.releaseAdminOwnerForDn
  | succ n ih =>
    cases a with
    | ok => exact h.settled
    | failedOperation immResAbort =>
      cases immResAbort with
      | false => exact h.releaseAdminOwnerForDn
      | true =>
        have hflag : env.lockMoForConfigChange = false :=
          Bool.eq_false_iff.mpr fun hflag => ha.2 hflag rfl
        have hreleased := h.releaseAdminOwnerForDn.ready hflag
        have hprep := hreleased.closeCcb.prepareOnImmAbort hm
        rw [ComSA.validateLoop, handleCcbOnFailedOperation]
        simp only
        generalize ComSA.prepareOnImmAbort env _ = r at hprep ⊢
        obtain ⟨ret, w'⟩ := r
        cases ret with
        | ok =>
          obtain ⟨hnext, hallowed⟩ := hprep.nextAnswer
          exact ih hallowed hnext
        | _ => exact hprep.releaseAdminOwnerForDn
    | _ => exact h.releaseAdminOwnerForDn

theorem Ready.oamSAValidate (h : Ready env imm c w) (hm : env.Models imm) :
    Settled env imm c (oamSAValidate env w).2.2 := by
  have habort : Ready env imm c (abortCcb w).2 := by
    rw [abortCcb]
    split
    · exact h.closeCcb.nextAnswer.1
    · exact h
  rw [ComSA.oamSAValidate]
  generalize abortCcb w = r at habort ⊢
  obtain ⟨aborted, w₁⟩ := r
  cases aborted with
  | false => exact habort.settled
  | true =>
    have hprep := habort.prepareOnImmAbort hm
    simp only
    generalize ComSA.prepareOnImmAbort env w₁ = r at hprep ⊢
    obtain ⟨ret, w₂⟩ := r
    cases ret with
    | ok =>
      simp only
      split
      · exact hprep.settled
      · obtain ⟨hnext, hallowed⟩ := hprep.nextAnswer
        exact hnext.validateLoop hm _ hallowed
    | _ => exact hprep.releaseAdminOwnerForDn

theorem Settled.applied (h : Settled env imm c w) : Settled env imm c { w with applied := true } :=
  h.imp_right (Or.imp_right fun h => h.congr rfl rfl rfl rfl rfl fun _ ha => ha)

theorem Ready.commitLoop (hm : env.Models imm) (n : Nat) {a : ImmAnswer} (ha : Allowed env a)
    (h : Ready env imm c w) : Settled env imm c (commitLoop env n a w).2 := by
  induction n generalizing a w with
  | zero =>
    cases a with
    | ok => exact h.releaseAdminOwnerForDn.applied
    | _ => exact h.releaseAdminOwnerForDn
  | succ n ih =>
    cases a with
    | ok => exact h.releaseAdminOwnerForDn.applied
    | failedOperation immResAbort =>
      cases immResAbort with
      | false => exact h.releaseAdminOwnerForDn
      | true =>
        have hflag : env.lockMoForConfigChange = false :=
          Bool.eq_false_iff.mpr fun hflag => ha.2 hflag rfl
        have hvalid := ((h.releaseAdminOwnerForDn.ready hflag).oamSAValidate hm).ready hflag
        rw [ComSA.commitLoop, handleCcbOnFailedOperation]
        simp only
        generalize ComSA.oamSAValidate env _ = r at hvalid ⊢
        obtain ⟨ret, valid, w'⟩ := r
        cases ret with
        | ok =>
          cases valid with
          | true =>
            obtain ⟨hnext, hallowed⟩ := hvalid.closeCcb.nextAnswer
            exact ih hallowed hnext
          | false => exact hvalid.releaseAdminOwnerForDn
        | _ => exact hvalid.releaseAdminOwnerForDn
    | _ => exact h.releaseAdminOwnerForDn

theorem Ready.oamSACommit (h : Ready env imm c w) (hm : env.Models imm) :
    Settled env imm c (oamSACommit env w).2 := by
  obtain ⟨hnext, hallowed⟩ := h.closeCcb.nextAnswer
  exact hnext.commitLoop hm _ hallowed

/-! ## Runs -/

inductive TxCall where
  | create (m : CreateMoCall)
  | delete (dn : Dn)
  | set (dn attributeName : String) (v : AttributeValue)
  | prepare
  | validate
  | commit

namespace TxCall

def isEdit : TxCall → Bool
  | create _ | delete _ | set .. => true
  | _ => false

def run (env : TxEnv) (w : TxState) : TxCall → Option TxState
  | create m => (LockedBridge.createImmMo env m w).map Prod.snd
  | delete dn => (TxState.deleteImmMo env dn.parts w).map Prod.snd
  | set dn attributeName v => (LockedBridge.setImmMoAttribute env dn attributeName v w).map Prod.snd
  | prepare => some (oamSAPrepare env w).2
  | validate => some (oamSAValidate env w).2.2
  | commit => some (oamSACommit env w).2

def step (env : TxEnv) (s : Option TxState) (x : TxCall × List ImmAnswer) : Option TxState :=
  s.bind fun w => x.1.run env { w with answers := x.2 }

/-- The objects that a call of a transaction names are there, or are not there yet, and so are those of the
calls that it makes on its way. -/
def Legal (env : TxEnv) (imm : ImmTree) (w : TxState) : TxCall → Prop
  | create m => CreateLegal env.toBridgeEnv imm w.cache m
  | delete dn => (SessionCall.delete dn).Legal env.tr imm w.cache
  | set dn attributeName v => SetLegal env.toBridgeEnv imm dn w.cache (attributeName, v)
  | _ => True

/-- A call that makes others on its way takes all the objects that it asks for, and fails at no name, or it
does nothing. It is made before ownership was given back. -/
def AllOrNothing (env : TxEnv) (w : TxState) : TxCall → Prop
  | create m => w.released = false ∧ CreateGranted env m w ∨ ∃ m', m.withoutStructs env.toBridgeEnv = some m' ∧
    ∀ a ∈ m'.initialAttributes, a.1 ∈ env.tr.comAttributeList m'.dn → env.tr.isDnListValid m'.dn a.1 = true
  | set dn attributeName (.struct values) => w.released = false ∧ SetGranted env dn (attributeName, .struct values) w
  | _ => True

def Allows (env : TxEnv) (imm : ImmTree) (s : Option TxState) (x : TxCall × List ImmAnswer) : Prop :=
  ∀ w, s = some w → w.applied = false ∧ x.1.Legal env imm w

/-- The calls that do not go wrong. Where objects are taken at the calls, no call stops between the ones that it
makes, and nothing is prepared after ownership was given back. Where they are taken when the transaction is prepared,
no name that an earlier preparation has left on record overlaps one that is needed. -/
structure Fine (env : TxEnv) (imm : ImmTree) (s : Option TxState) (x : TxCall × List ImmAnswer) :
    Prop where
  allowed : Allows env imm s x
  cleared : .cleared false ∉ x.2
  granted : env.lockMoForConfigChange = true → ∀ w, s = some w → x.1.AllOrNothing env { w with answers := x.2 }
  retry : x.1.isEdit = false → env.lockMoForConfigChange = true →
    .failedOperation true ∉ x.2 ∧ ∀ w, s = some w → w.released = false
  noOverlap : x.1.isEdit = false → env.lockMoForConfigChange = false →
    ∀ w, s = some w → NoOverlap env.tr w

end TxCall

/-- Every operation that was issued so far found what it needs owned. -/
def OpsHeld (tr : Translator) (s : Option TxState) : Prop :=
  ∃ w, s = some w ∧ ∀ x ∈ w.log, x.Held tr

def TxState.initial (ccbDeleteFailed : Bool) : TxState := { ccbDeleteFailed := ccbDeleteFailed }

def RunInv (env : TxEnv) (imm : ImmTree) (s : Option TxState) : Prop :=
  ∃ w, s = some w ∧ (∀ x ∈ w.log, x.Held env.tr) ∧
    (env.lockMoForConfigChange = true ∧ w.released = true ∨ Kept env imm w)

theorem Kept.withAnswers (h : Kept env imm w) (answers : List ImmAnswer) :
    Kept env imm { w with answers := answers } :=
  ⟨h.cacheInv, h.parented, h.sound, fun hflag =>
    ⟨(h.taken hflag).created, (h.taken hflag).deleted, (h.taken hflag).altered⟩⟩

theorem runInv_of_edit {answers : List ImmAnswer} {w' : TxState}
    (hlog : ∀ x ∈ w.log, x.Held env.tr) (hquiet : Quiet { w with answers := answers } w')
    (hor : env.lockMoForConfigChange = true ∧ w.released = true ∨ Kept env imm w') :
    RunInv env imm (some w') := by
  refine ⟨w', rfl, ?_, ?_⟩
  · rw [hquiet.log]
    exact hlog
  · rw [hquiet.released]
    exact hor

theorem runInv_of_settled (h : Settled env imm c w) : RunInv env imm (some w) :=
  ⟨w, rfl, h.1, h.2.imp_right Ready.kept⟩

theorem TxCall.Fine.ready {call : TxCall} {answers : List ImmAnswer}
    (hfine : TxCall.Fine env imm (some w) (call, answers)) (hedit : call.isEdit = false)
    (hlog : ∀ x ∈ w.log, x.Held env.tr)
    (hor : env.lockMoForConfigChange = true ∧ w.released = true ∨ Kept env imm w) :
    Ready env imm w.cache { w with answers := answers } := by
  have hkept : Kept env imm w := by
    refine hor.resolve_left fun ⟨hflag, hreleased⟩ => ?_
    rw [(hfine.retry hedit hflag).2 w rfl] at hreleased
    cases hreleased
  refine ⟨rfl, hkept.withAnswers answers, hlog, fun hflag => hfine.noOverlap hedit hflag w rfl,
    fun a ha => ⟨fun hbad => hfine.cleared (hbad ▸ ha), fun hflag hbad => ?_⟩⟩
  exact (hfine.retry hedit hflag).1 (hbad ▸ ha)

theorem runInv_create (hm : env.Models imm) {m : CreateMoCall} {answers : List ImmAnswer}
    (hlog : ∀ x ∈ w.log, x.Held env.tr)
    (hor : env.lockMoForConfigChange = true ∧ w.released = true ∨ Kept env imm { w with answers := answers })
    (hclear : .cleared false ∉ answers) (hlegal : (TxCall.create m).Legal env imm w)
    (hgranted : env.lockMoForConfigChange = true →
      (TxCall.create m).AllOrNothing env { w with answers := answers }) :
    RunInv env imm ((TxCall.create m).run env { w with answers := answers }) := by
  rw [TxCall.run]
  -- A call without structs is the simple one, also after ownership was given back.
  by_cases hplain : ∃ m', m.withoutStructs env.toBridgeEnv = some m' ∧
    ∀ a ∈ m'.initialAttributes, a.1 ∈ env.tr.comAttributeList m'.dn → env.tr.isDnListValid m'.dn a.1 = true
  · obtain ⟨m', hstructs, hattributes⟩ := hplain
    rw [createImmMo_locked_withoutStructs hstructs]
    refine runInv_of_edit hlog (quiet_createImmMo env m' _) (hor.imp_right fun h => h.createImmMo hm hclear ?_)
    obtain ⟨-, -, hm'⟩ := withoutStructs_eq hstructs
    intro hgraph hvalid
    rw [hm'] at hgraph hvalid hattributes ⊢
    have hcreates := hlegal.1.1 w.cache rfl hgraph hvalid
    exact ⟨hcreates.noComma, hcreates.parent, hcreates.absent, hattributes⟩
  · have hgranted := fun hflag => (hgranted hflag).resolve_right hplain
    have hkept : Kept env imm { w with answers := answers } := by
      refine hor.resolve_left fun ⟨hflag, hreleased⟩ => ?_
      rw [show w.released = false from (hgranted hflag).1] at hreleased
      cases hreleased
    obtain ⟨ret, w', hrun, hkept'⟩ := keeps_createImmMo ⟨hkept, hclear⟩ hm hlegal fun hflag => (hgranted hflag).2
    rw [hrun]
    exact runInv_of_edit hlog (quiet_createLocked hrun) (Or.inr hkept'.kept)

theorem runInv_set (hm : env.Models imm) {dn name : String} {v : AttributeValue} {answers : List ImmAnswer}
    (hlog : ∀ x ∈ w.log, x.Held env.tr)
    (hor : env.lockMoForConfigChange = true ∧ w.released = true ∨ Kept env imm { w with answers := answers })
    (hclear : .cleared false ∉ answers) (hlegal : (TxCall.set dn name v).Legal env imm w)
    (hgranted : env.lockMoForConfigChange = true →
      (TxCall.set dn name v).AllOrNothing env { w with answers := answers }) :
    RunInv env imm ((TxCall.set dn name v).run env { w with answers := answers }) := by
  rw [TxCall.run]
  cases v with
  | simple v =>
    exact runInv_of_edit hlog (quiet_setImmMoAttribute env (splitDn dn) name v _)
      (hor.imp_right fun h => h.setImmMoAttribute hm hclear (splitDn_ne_nil dn) hlegal v)
  | struct values =>
    have hkept : Kept env imm { w with answers := answers } := by
      refine hor.resolve_left fun ⟨hflag, hreleased⟩ => ?_
      rw [show w.released = false from (hgranted hflag).1] at hreleased
      cases hreleased
    obtain ⟨ret, w', hrun, hkeeps⟩ :=
      @keeps_setImmMoAttribute env imm _ ⟨hkept, hclear⟩ hm dn (name, .struct values) hlegal
    have hrun : LockedBridge.setImmMoAttribute env dn name (.struct values) _ = some (ret, w') := hrun
    rw [hrun]
    refine runInv_of_edit hlog (quiet_setLocked hrun) (Or.inr (hkeeps.kept ?_).kept)
    cases hflag : env.lockMoForConfigChange with
    | false => exact Or.inl (Or.inl hflag)
    | true => exact (hgranted hflag).2.symm.imp_left fun h => Or.inr (hkeeps.succeeds h.1 h.2)

theorem runInv_step (hm : env.Models imm) (s : Option TxState) (x : TxCall × List ImmAnswer)
    (h : RunInv env imm s) (hfine : TxCall.Fine env imm s x) :
    RunInv env imm (TxCall.step env s x) := by
  obtain ⟨w, rfl, hlog, hor⟩ := h
  obtain ⟨call, answers⟩ := x
  have hlegal := (hfine.allowed w rfl).2
  have hcleared : .cleared false ∉ answers := hfine.cleared
  have hor₀ := hor.imp_right fun h => h.withAnswers answers
  rw [TxCall.step, Option.bind_some]
  cases call with
  | create m => exact runInv_create hm hlog hor₀ hcleared hlegal fun hflag => hfine.granted hflag w rfl
  | delete dn =>
    have hsome := @deleteImmMo_isSome env dn { w with answers := answers }
      (fun hvalid => (hlegal hvalid).2) hcleared
    obtain ⟨⟨r, w'⟩, hdel⟩ := Option.isSome_iff_exists.mp hsome
    rw [TxCall.run, hdel]
    exact runInv_of_edit hlog (quiet_deleteImmMo env hdel)
      (hor₀.imp_right fun h => h.deleteImmMo hm hcleared dn (fun hvalid => (hlegal hvalid).1) hdel)
  | set dn name v => exact runInv_set hm hlog hor₀ hcleared hlegal fun hflag => hfine.granted hflag w rfl
  | prepare => exact runInv_of_settled ((hfine.ready rfl hlog hor).oamSAPrepare hm).ready.settled
  | validate => exact runInv_of_settled ((hfine.ready rfl hlog hor).oamSAValidate hm)
  | commit => exact runInv_of_settled ((hfine.ready rfl hlog hor).oamSACommit hm)

theorem runInv_initial (ccbDeleteFailed : Bool) :
    RunInv env imm (some (.initial ccbDeleteFailed)) := by
  refine ⟨_, rfl, nofun, Or.inr ⟨cacheInv_empty env.tr imm, fun p o hp ho => ?_,
    fun name scope hown => ?_, fun _ => ⟨fun p o hp ho => ?_, ?_, fun p o hp ho => ?_⟩⟩⟩
  · exact absurd ho (no_object_of_empty p o hp)
  · cases hown
  · exact absurd ho (no_object_of_empty p o hp)
  · rintro p ⟨d, hd, _⟩
    simp [TxState.initial] at hd
  · exact absurd ho (no_object_of_empty p o hp)

section
open Sample

def sampleEnv (lockMoForConfigChange : Bool) : TxEnv := ⟨bridgeEnv, immExists, lockMoForConfigChange⟩

theorem sample_models (lockMoForConfigChange : Bool) :
    (sampleEnv lockMoForConfigChange).Models Sample.imm :=
  ⟨Sample.closed, mo2ImmDn_injective, fun p _ => mo2ImmDn_ne p, fun p _ => known p⟩

def setCounter : TxCall := .set "ManagedElement=1,Foo=1" "counter" (.simple ⟨.string, [.text "1"]⟩)

theorem legal_setCounter (lockMoForConfigChange : Bool) {w : TxState}
    (hfoo : (content Sample.imm w.cache (splitDn "ManagedElement=1,Foo=1")).isSome = true) :
    setCounter.Legal (sampleEnv lockMoForConfigChange) Sample.imm w := fun _ => hfoo

theorem allows_setCounter (lockMoForConfigChange ccbDeleteFailed : Bool) :
    TxCall.Allows (sampleEnv lockMoForConfigChange) Sample.imm
      (some (.initial ccbDeleteFailed)) (setCounter, []) := by
  intro w hw
  obtain rfl := Option.some.inj hw
  have hfoo : (content Sample.imm {} (splitDn "ManagedElement=1,Foo=1")).isSome = true := by decide
  exact ⟨rfl, legal_setCounter lockMoForConfigChange hfoo⟩

theorem legal_createFooWithPoint : CreateLegal bridgeEnv Sample.imm {} createFooWithPoint := by
  refine ⟨⟨fun c hc _ _ => ?_, fun c hc _ _ => ?_, fun c hc => ?_, trivial⟩, fun c hc _ => ?_, trivial⟩
  · obtain rfl := Option.some.inj hc
    exact ⟨by decide, Or.inr (by decide), Option.isNone_iff_eq_none.mp (by decide), nofun⟩
  · have hcreates : ∀ c ∈ ((creationCalls bridgeEnv createFooWithPoint).take 1).foldl
        (goOn .ok fun c call => SessionCall.run bridgeEnv.tr c call) (some {}),
        (content Sample.imm c createFooWithPoint.dn).isSome = true ∧
        (content Sample.imm c (Bridge.firstInstance createFooWithPoint "points" "Point").dn).isNone = true := by
      decide +kernel
    obtain ⟨hsome, hnone⟩ := hcreates c hc
    exact ⟨by decide +kernel, Or.inr hsome, Option.isNone_iff_eq_none.mp hnone, nofun⟩
  · have hnew : ∀ c ∈ ((creationCalls bridgeEnv createFooWithPoint).take 2).foldl
        (goOn .ok fun c call => SessionCall.run bridgeEnv.tr c call) (some {}),
        (content Sample.imm c createFooWithPoint.dn).isSome = true ∧
        ∃ o ∈ objectAt createFooWithPoint.dn c.modified, o.isNewObject = true ∧
          (∀ a ∈ o.attributes, a.2.hasDefaultValue = false) ∧
          (Bridge.firstReference createFooWithPoint "points" "Point").values ≠ [] := by decide +kernel
    exact (hnew c hc).imp_right Or.inr
  · have hwrite : ∀ c ∈ recorded bridgeEnv {} createFooWithPoint,
        (content Sample.imm c createFooWithPoint.dn).isSome = true ∧
        structReferences bridgeEnv.toStructEnv (joinDn createFooWithPoint.dn) "points" c =
          some ["ManagedElement=1,Foo=2,Point.id=points_0"] ∧
        (content Sample.imm c (splitDn "ManagedElement=1,Foo=2,Point.id=points_0")).isSome = true ∧
        ∀ c' ∈ goOn .ok (SessionCall.answered bridgeEnv.tr) (some c)
          (.set (.ofString "ManagedElement=1,Foo=2,Point.id=points_0") "x" ⟨.int32, [.number 1]⟩),
          (content Sample.imm c' (splitDn (joinDn createFooWithPoint.dn))).isSome = true := by decide +kernel
    obtain ⟨hsome, hread, hpoint, hset⟩ := hwrite c hc
    refine ⟨hsome, fun refs hrefs => ?_⟩
    rw [hread] at hrefs
    obtain rfl := Option.some.inj hrefs
    refine ⟨fun c' hc' _ => ?_, fun c' hc' => ⟨hset c' hc', Or.inl (by decide +kernel)⟩, trivial⟩
    obtain rfl := Option.some.inj hc'
    exact hpoint

end

end ComSA
