import ComSA.OIproxy.CacheSteps
import ComSA.OIproxy.OIProxy
import Mathlib.Data.Fintype.Card

/-!
# What one callback does

Whatever is answered, a callback leaves the cache sound and each transaction with one CCB. What it
does to its own CCB is said once for every kind of callback.
-/

namespace ComSA.OIproxy

open OIProxy

section
variable (answers : Nat → MafReturn) (c : CcbId)

/-- No values are added to no values: a struct attribute is not deleted once more while nothing but its
deletion is cached. -/
def SetsFine (tx : TxHandle) (moIf : MoIf) (moDn : String) :
    List (Option (String × AttrValue)) → StructCache → Prop
  | [], _ => True
  | none :: _, _ => True
  | some (attrName, value) :: rest, cache =>
    (∀ mem values, cache.inUse c = some mem → value = .struct values →
      isSameStructType c moDn attrName cache = .ok → mem.values.toList ++ values ≠ []) ∧
    ∀ cache', cache_setMoAttribute (cacheEnv answers tx) c moIf moDn attrName value cache = some (.ok, cache') →
      SetsFine tx moIf moDn rest cache'

def ModifyAnswers.Fine (a : ModifyAnswers) (s : OIProxy) : Prop :=
  s.ccbApplierError c = .ok → a.early = none →
    ∀ tx s' moIf attrMods, openTransaction (.ccb c) c a.openTx s = (some tx, s') → a.moIf = some moIf →
      a.attrMods = some attrMods → SetsFine answers c tx moIf a.moDn attrMods s.cache

end

/-- What every callback keeps, whatever is answered. -/
structure OIProxy.Ok (s : OIProxy) : Prop where
  slots : SlotsOk s.cache
  below : ∀ c tx, s.ccbTxMap c = some tx → tx < s.started
  apart : ∀ c c' tx, s.ccbTxMap c = some tx → s.ccbTxMap c' = some tx → c = c'
  cached : ∀ c, s.cache.inUse c ≠ none → s.ccbTxMap c ≠ none

def Opened (owner : Owner) (c : CcbId) (s s' : OIProxy) : Prop :=
  s' = s ∨ s.ccbTxMap c = none ∧ s' = (s.newTransaction owner).addNewCcbTransaction c s.started

structure CcbStep (c : CcbId) (s s' : OIProxy) : Prop where
  opened : ∃ s₁, Opened (.ccb c) c s s₁ ∧ s'.ccbTxMap = s₁.ccbTxMap ∧ s'.started = s₁.started ∧
    s'.txLog = s₁.txLog
  cache : CacheStep c [] s.cache s'.cache
  cached : s'.cache = s.cache ∨ s'.ccbTxMap c ≠ none
  errors : ∀ c' ≠ c, s'.ccbApplierError c' = s.ccbApplierError c'

section
variable {answers : Nat → MafReturn} {c : CcbId} {s s' : OIProxy} {owner : Owner}

theorem openTransaction_spec (owner : Owner) (c : CcbId) (a : OpenAnswers) (s : OIProxy) :
    ∃ o s', openTransaction owner c a s = (o, s') ∧ Opened owner c s s' ∧
      ∀ tx, o = some tx → s'.ccbTxMap c = some tx := by
  unfold openTransaction
  split
  · exact ⟨none, s, rfl, Or.inl rfl, fun tx h => nomatch h⟩
  · cases hmap : s.ccbTxMap c with
    | some tx =>
      refine ⟨_, s, rfl, Or.inl rfl, fun tx' h => ?_⟩
      split at h <;> cases h
      exact hmap
    | none =>
      dsimp only
      split
      · exact ⟨none, s, rfl, Or.inl rfl, fun tx h => nomatch h⟩
      · refine ⟨_, _, rfl, Or.inr ⟨hmap, rfl⟩, fun tx h => ?_⟩
        split at h <;> cases h
        exact Function.update_self ..

theorem Opened.cache (h : Opened owner c s s') : s'.cache = s.cache := by
  rcases h with rfl | ⟨_, rfl⟩ <;> rfl

theorem Opened.errors (h : Opened owner c s s') : s'.ccbApplierError = s.ccbApplierError := by
  rcases h with rfl | ⟨_, rfl⟩ <;> rfl

theorem CcbStep.of_opened (h : Opened (.ccb c) c s s') (hslots : SlotsOk s.cache) : CcbStep c s s' where
  opened := ⟨s', h, rfl, rfl, rfl⟩
  cache := by
    rw [h.cache]
    exact CacheStep.refl hslots
  cached := Or.inl h.cache
  errors _ _ := by rw [h.errors]

theorem CcbStep.of_cache {s₁ : OIProxy} {cache : StructCache} (h : Opened (.ccb c) c s s₁)
    (hopen : s₁.ccbTxMap c ≠ none) (hcache : CacheStep c [] s.cache cache) :
    CcbStep c s { s₁ with cache := cache } where
  opened := ⟨s₁, h, rfl, rfl, rfl⟩
  cache := hcache
  cached := Or.inr hopen
  errors _ _ := congrFun h.errors _

theorem CcbStep.setError (h : CcbStep c s s') (err : SaAisError) :
    CcbStep c s (s'.setCcbApplierError c err) where
  opened := h.opened
  cache := h.cache
  cached := h.cached
  errors c' hc := (Function.update_of_ne hc ..).trans (h.errors c' hc)

theorem onObject_spec {a : ObjectAnswers} (hslots : SlotsOk s.cache)
    {rest : TxHandle → MoIf → StructCache → Option (SaAisError × StructCache)}
    (hrest : ∀ tx s' moIf, s.ccbApplierError c = .ok → a.early = none →
      openTransaction (.ccb c) c a.openTx s = (some tx, s') → a.moIf = some moIf → ∃ err cache,
        rest tx moIf s.cache = some (err, cache) ∧
        CacheStep c [] s.cache cache) :
    ∃ err s', onObject c a s rest = some (err, s') ∧ CcbStep c s s' ∧
      s'.ccbApplierError = s.ccbApplierError := by
  have hsame : CcbStep c s s := CcbStep.of_opened (Or.inl rfl) hslots
  unfold onObject
  split <;> rename_i herror
  · exact ⟨_, s, rfl, hsame, rfl⟩
  · cases hearly : a.early with
    | some err => exact ⟨err, s, rfl, hsame, rfl⟩
    | none =>
      obtain ⟨o, s₁, hopen, hopened, htx⟩ := openTransaction_spec (.ccb c) c a.openTx s
      dsimp only
      rw [hopen]
      cases o with
      | none => exact ⟨_, s₁, rfl, CcbStep.of_opened hopened hslots, hopened.errors⟩
      | some tx =>
        dsimp only
        cases hmoIf : a.moIf with
        | none => exact ⟨_, s₁, rfl, CcbStep.of_opened hopened hslots, hopened.errors⟩
        | some moIf =>
          obtain ⟨err, cache, hdone, hcache⟩ := hrest tx s₁ moIf (not_not.mp herror) hearly hopen hmoIf
          dsimp only
          rw [hopened.cache, hdone, Option.map_some]
          refine ⟨err, _, rfl, CcbStep.of_cache hopened ?_ hcache, hopened.errors⟩
          rw [htx tx rfl]
          exact Option.some_ne_none tx

variable (answers) in
theorem setAttributes_spec (tx : TxHandle) (moIf : MoIf) (moDn : String)
    {sets : List (Option (String × AttrValue))} {cache : StructCache} (hslots : SlotsOk cache)
    (hfine : SetsFine answers c tx moIf moDn sets cache) :
    ∃ err cache', setAttributes answers c tx moIf moDn sets cache = some (err, cache') ∧
      CacheStep c [] cache cache' := by
  induction sets generalizing cache with
  | nil => exact ⟨.ok, cache, rfl, CacheStep.refl hslots⟩
  | cons x rest ih =>
    cases x with
    | none => exact ⟨.badOperation, cache, rfl, CacheStep.refl hslots⟩
    | some x =>
      obtain ⟨attrName, value⟩ := x
      obtain ⟨hvalue, hrest⟩ := hfine
      obtain ⟨ret, cache', hset, hstep, _⟩ := cache_setMoAttribute_spec (cacheEnv answers tx) hslots
        moIf moDn attrName value hvalue
      rw [setAttributes, hset]
      cases ret with
      | ok =>
        obtain ⟨err, cache'', hdone, hstep'⟩ := ih hstep.slots (hrest cache' hset)
        exact ⟨err, cache'', hdone, hstep.trans hstep'⟩
      | _ => exact ⟨_, cache', rfl, hstep⟩

theorem setsFine_simple {tx : TxHandle} {moIf : MoIf} {moDn : String}
    (attributes : List (String × MoAttributeValueContainer)) (cache : StructCache) :
    SetsFine answers c tx moIf moDn
      (attributes.map fun (attrName, container) => some (attrName, .simple container)) cache := by
  induction attributes generalizing cache with
  | nil => trivial
  | cons x rest ih => exact ⟨fun _ _ _ h => (nomatch h), fun cache' _ => ih cache'⟩

variable (answers) in
theorem createObject_spec (a : CreateAnswers) (hslots : SlotsOk s.cache) :
    ∃ err s', handleCcbCreateObject answers c a s = some (err, s') ∧ CcbStep c s s' ∧
      s'.ccbApplierError = s.ccbApplierError := by
  refine onObject_spec hslots fun tx _ moIf _ _ _ _ => ?_
  cases a.key with
  | none => exact ⟨_, s.cache, rfl, CacheStep.refl hslots⟩
  | some key =>
    obtain ⟨ret, cache, hcreate, hstep⟩ := sendAfterCached_spec (cacheEnv answers tx) (c := c) hslots
      (.createMo moIf a.version2 tx a.parentDn a.className key.1 key.2)
    have hcreate : cache_createMo (cacheEnv answers tx) c moIf a.version2 a.parentDn a.className key.1 key.2
      s.cache = some (ret, cache) := hcreate
    dsimp only
    rw [hcreate]
    cases ret with
    | ok =>
      dsimp only
      cases a.attributes with
      | none => exact ⟨_, cache, rfl, hstep⟩
      | some attributes =>
        obtain ⟨err, cache', hset, hstep'⟩ := setAttributes_spec answers tx moIf a.moDn hstep.slots
          (setsFine_simple attributes cache)
        exact ⟨err, cache', hset, hstep.trans hstep'⟩
    | _ => exact ⟨_, cache, rfl, hstep⟩

variable (answers) in
theorem deleteObject_spec (a : ObjectAnswers) (hslots : SlotsOk s.cache) :
    ∃ err s', handleCcbDeleteObject answers c a s = some (err, s') ∧ CcbStep c s s' ∧
      s'.ccbApplierError = s.ccbApplierError := by
  refine onObject_spec hslots fun tx _ moIf _ _ _ _ => ?_
  obtain ⟨ret, cache, hdelete, hstep⟩ := sendAfterCached_spec (cacheEnv answers tx) (c := c) hslots
    (.deleteMo moIf a.version2 tx a.moDn)
  have hdelete : cache_deleteMo (cacheEnv answers tx) c moIf a.version2 a.moDn s.cache = some (ret, cache) :=
    hdelete
  rw [hdelete]
  cases ret with
  | ok => exact ⟨_, cache, rfl, hstep⟩
  | _ => exact ⟨_, cache, rfl, hstep⟩

theorem modification_spec (a : ModifyAnswers) (hslots : SlotsOk s.cache) (hfine : a.Fine answers c s) :
    ∃ err s', handleCcbModification answers c a s = some (err, s') ∧ CcbStep c s s' ∧
      s'.ccbApplierError = s.ccbApplierError := by
  refine onObject_spec hslots fun tx s₁ moIf herror hearly hopen hmoIf => ?_
  cases hmods : a.attrMods with
  | none => exact ⟨_, s.cache, rfl, CacheStep.refl hslots⟩
  | some attrMods =>
    exact setAttributes_spec answers tx moIf a.moDn hslots
      (hfine herror hearly tx s₁ moIf attrMods hopen hmoIf hmods)

def StructAnswers.values (a : StructAnswers) : List (String × String × StructValue) :=
  if a.early = none then a.value.toList.map fun value => (a.moDn, a.ctAttr, value) else []

/-- What a callback for a struct value does: the value is cached, or else its failure is kept. -/
structure StructStep (c : CcbId) (a : StructAnswers) (s s' : OIProxy) : Prop extends CcbStep c s s' where
  value : s'.ccbApplierError c = .ok → CacheStep c a.values s.cache s'.cache
  idle : a.values = [] → s'.cache = s.cache
  error : s'.ccbApplierError c = .ok → s.ccbApplierError c = .ok

theorem StructStep.of_error {err : SaAisError} {a : StructAnswers} (herr : err ≠ .ok) (h : CcbStep c s s')
    (hidle : a.values = [] → s'.cache = s.cache) : StructStep c a s (s'.setCcbApplierError c err) where
  toCcbStep := h.setError err
  value hok := absurd ((Function.update_self ..).symm.trans hok) herr
  idle := hidle
  error hok := absurd ((Function.update_self ..).symm.trans hok) herr

variable (answers) in
theorem setStruct_spec (setError : SaAisError) (herror : setError ≠ .ok) (a : StructAnswers)
    (hslots : SlotsOk s.cache) :
    ∃ err s', setStruct answers c setError a s = some (err, s') ∧ StructStep c a s s' := by
  unfold setStruct
  cases hearly : a.early with
  | some err =>
    have hvalues : a.values = [] := by rw [StructAnswers.values, hearly]; rfl
    refine ⟨err, s, rfl, CcbStep.of_opened (Or.inl rfl) hslots, fun _ => ?_, fun _ => rfl, fun hok => hok⟩
    rw [hvalues]
    exact CacheStep.refl hslots
  | none =>
    obtain ⟨o, s₁, hopen, hopened, htx⟩ := openTransaction_spec (.ccb c) c a.openTx s
    have hstep : CcbStep c s s₁ := CcbStep.of_opened hopened hslots
    have hsame : a.values = [] → s₁.cache = s.cache := fun _ => hopened.cache
    dsimp only
    rw [hopen]
    cases o with
    | none => exact ⟨_, _, rfl, StructStep.of_error (fun h => nomatch h) hstep hsame⟩
    | some tx =>
      dsimp only
      cases a.moIf with
      | none => exact ⟨_, _, rfl, StructStep.of_error (fun h => nomatch h) hstep hsame⟩
      | some moIf =>
        dsimp only
        cases hvalue : a.value with
        | none => exact ⟨_, _, rfl, StructStep.of_error herror hstep hsame⟩
        | some value =>
          have hmap : s₁.ccbTxMap c ≠ none := by
            rw [htx tx rfl]
            exact Option.some_ne_none tx
          have hvalues : a.values = [(a.moDn, a.ctAttr, value)] := by
            rw [StructAnswers.values, hearly, hvalue]
            rfl
          have hbusy : ∀ {cache : StructCache}, a.values = [] → cache = s.cache := by
            intro cache hnil
            rw [hvalues] at hnil
            cases hnil
          obtain ⟨ret, cache, hset, hcache, hadded⟩ := cache_setMoAttribute_spec (cacheEnv answers tx)
            hslots moIf a.moDn a.ctAttr (.struct [value])
            (fun mem values _ hstruct _ => by cases hstruct; simp)
          have hset' : CcbStep c s { s₁ with cache := cache } := CcbStep.of_cache hopened hmap hcache
          dsimp only
          rw [hopened.cache, hset]
          cases ret with
          | ok =>
            refine ⟨_, _, rfl, hset', fun _ => ?_, hbusy, fun hok => ?_⟩
            · rw [hvalues]
              exact hadded rfl
            · rw [← hopened.errors]
              exact hok
          | _ => exact ⟨_, _, rfl, StructStep.of_error herror hset' hbusy⟩

/-! ## What stays sound -/

theorem ok_initial : OIProxy.initial.Ok where
  slots _ _ hmem := nomatch hmem
  below _ _ htx := nomatch htx
  apart _ _ _ htx := nomatch htx
  cached _ hcached := absurd rfl hcached

theorem OIProxy.Ok.newTransaction (h : s.Ok) (owner : Owner) : (s.newTransaction owner).Ok :=
  { h with below := fun c tx htx => Nat.lt_succ_of_lt (h.below c tx htx) }

theorem OIProxy.Ok.call (h : s.Ok) (owner : Owner) (tx : TxHandle) (k : TxCall) : (s.call owner tx k).Ok :=
  { h with }

theorem OIProxy.Ok.setError (h : s.Ok) (err : SaAisError) : (s.setCcbApplierError c err).Ok :=
  { h with }

theorem OIProxy.Ok.opened (h : s.Ok) (hopened : Opened owner c s s') : s'.Ok := by
  rcases hopened with rfl | ⟨hnone, rfl⟩
  · exact h
  · have hself : ((s.newTransaction owner).addNewCcbTransaction c s.started).ccbTxMap c = some s.started :=
      Function.update_self ..
    have hother : ∀ c' ≠ c, ((s.newTransaction owner).addNewCcbTransaction c s.started).ccbTxMap c'
        = s.ccbTxMap c' := fun c' hc => Function.update_of_ne hc ..
    have hfresh : ∀ c', s.ccbTxMap c' ≠ some s.started := fun c' htx => absurd (h.below c' _ htx) (Nat.lt_irrefl _)
    refine ⟨h.slots, fun c' tx htx => ?_, fun c₁ c₂ tx h₁ h₂ => ?_, fun c' hcached => ?_⟩
    · by_cases hc : c' = c
      · rw [hc, hself] at htx
        cases htx
        exact Nat.lt_succ_self _
      · rw [hother c' hc] at htx
        exact Nat.lt_succ_of_lt (h.below c' tx htx)
    · by_cases hc₁ : c₁ = c <;> by_cases hc₂ : c₂ = c
      · rw [hc₁, hc₂]
      · rw [hc₁, hself] at h₁
        rw [hother c₂ hc₂, ← h₁] at h₂
        exact (hfresh c₂ h₂).elim
      · rw [hc₂, hself] at h₂
        rw [hother c₁ hc₁, ← h₂] at h₁
        exact (hfresh c₁ h₁).elim
      · rw [hother c₁ hc₁] at h₁
        rw [hother c₂ hc₂] at h₂
        exact h.apart c₁ c₂ tx h₁ h₂
    · by_cases hc : c' = c
      · rw [hc, hself]
        exact Option.some_ne_none _
      · rw [hother c' hc]
        exact h.cached c' hcached

theorem OIProxy.Ok.ccbStep (h : s.Ok) (hstep : CcbStep c s s') : s'.Ok := by
  obtain ⟨s₁, hopened, hmap, hstarted, _⟩ := hstep.opened
  have h₁ := h.opened hopened
  refine ⟨hstep.cache.slots, ?_, ?_, fun c' hcached => ?_⟩
  · rw [hmap, hstarted]
    exact h₁.below
  · rw [hmap]
    exact h₁.apart
  · have hsame : s'.cache.inUse c' = s.cache.inUse c' → s'.ccbTxMap c' ≠ none := by
      intro hsame
      rw [hmap]
      refine h₁.cached c' ?_
      rw [hopened.cache, ← hsame]
      exact hcached
    by_cases hc : c' = c
    · rcases hstep.cached with hcache | hopen
      · exact hsame (by rw [hcache])
      · rw [hc]
        exact hopen
    · exact hsame (inUse_of_elsewhere hstep.cache.elsewhere hc)

theorem OIProxy.Ok.removed (h : s.Ok) {cache : StructCache} (hslots : SlotsOk cache)
    (helse : Elsewhere c s.cache cache) (hnone : cache.inUse c = none) :
    OIProxy.Ok (({ s with cache := cache } : OIProxy).removeCcbTransaction c) := by
  have hself : (({ s with cache := cache } : OIProxy).removeCcbTransaction c).ccbTxMap c = none :=
    Function.update_self ..
  have hother : ∀ c' ≠ c, (({ s with cache := cache } : OIProxy).removeCcbTransaction c).ccbTxMap c'
      = s.ccbTxMap c' := fun c' hc => Function.update_of_ne hc ..
  have hmapped : ∀ c' tx, (({ s with cache := cache } : OIProxy).removeCcbTransaction c).ccbTxMap c' = some tx →
      s.ccbTxMap c' = some tx := by
    intro c' tx htx
    have hc : c' ≠ c := by
      rintro rfl
      rw [hself] at htx
      cases htx
    exact (hother c' hc).symm.trans htx
  refine ⟨hslots, fun c' tx htx => h.below c' tx (hmapped c' tx htx),
    fun c₁ c₂ tx h₁ h₂ => h.apart c₁ c₂ tx (hmapped c₁ tx h₁) (hmapped c₂ tx h₂), fun c' hcached => ?_⟩
  have hc : c' ≠ c := by
    rintro rfl
    exact hcached hnone
  rw [hother c' hc]
  refine h.cached c' ?_
  rw [← inUse_of_elsewhere helse hc]
  exact hcached

/-! ## The end of a CCB -/

inductive CompletedStep (c : CcbId) (prepare : MafReturn) (s : OIProxy) : SaAisError → OIProxy → Prop where
  | error (herror : s.ccbApplierError c ≠ .ok) : CompletedStep c prepare s (s.ccbApplierError c) s
  | noTransaction (herror : s.ccbApplierError c = .ok) (htx : s.ccbTxMap c = none) :
      CompletedStep c prepare s .ok s
  | notSent {cache : StructCache} (hopen : s.ccbTxMap c ≠ none) (hcache : CacheStep c [] s.cache cache) :
      CompletedStep c prepare s .badOperation { s with cache := cache }
  | prepared {tx : TxHandle} {cache : StructCache} (herror : s.ccbApplierError c = .ok)
      (htx : s.ccbTxMap c = some tx) (hcache : CacheStep c [] s.cache cache) (hnone : cache.inUse c = none)
      (hprepare : prepare = .ok) :
      CompletedStep c prepare s .ok
        (({ s with cache := cache } : OIProxy).call (.ccb c) tx (.explicitPrepare prepare))
  | notPrepared {tx : TxHandle} {cache : StructCache} (herror : s.ccbApplierError c = .ok)
      (htx : s.ccbTxMap c = some tx) (hcache : CacheStep c [] s.cache cache) (hnone : cache.inUse c = none)
      (hprepare : prepare ≠ .ok) :
      CompletedStep c prepare s .badOperation
        ((({ s with cache := cache } : OIProxy).removeCcbTransaction c).call (.ccb c) tx (.explicitPrepare prepare))

variable (answers) in
theorem completed_spec (h : s.Ok) (c : CcbId) (prepare : MafReturn) :
    ∃ err s', handleCcbCompleted answers c prepare s = some (err, s') ∧ CompletedStep c prepare s err s' := by
  unfold handleCcbCompleted
  split <;> rename_i herror
  · exact ⟨_, s, rfl, .error herror⟩
  · have herror := not_not.mp herror
    cases htx : s.ccbTxMap c with
    | none => exact ⟨.ok, s, rfl, .noTransaction herror htx⟩
    | some tx =>
      obtain ⟨ret, cache, hsend, hstep, hnone⟩ := sendCached_spec (cacheEnv answers tx) (c := c) h.slots
      have hopen : s.ccbTxMap c ≠ none := by
        rw [htx]
        exact Option.some_ne_none tx
      dsimp only
      rw [hsend]
      cases ret with
      | ok =>
        dsimp only
        split <;> rename_i hprepare
        · exact ⟨.ok, _, rfl, .prepared herror htx hstep (hnone rfl) hprepare⟩
        · have habort : cache_ccbAbort c cache = some cache := by
            unfold cache_ccbAbort existCacheData
            rw [hnone rfl]
            rfl
          refine ⟨.badOperation, _, ?_, .notPrepared herror htx hstep (hnone rfl) hprepare⟩
          rw [OIProxy.call, habort]
          rfl
      | _ => exact ⟨_, _, rfl, .notSent hopen hstep⟩

variable (c) in
theorem abort_spec (h : s.Ok) :
    s.ccbTxMap c = none ∧ handleCcbAbort c s = some s ∨
      ∃ tx cache, s.ccbTxMap c = some tx ∧ SlotsOk cache ∧ Elsewhere c s.cache cache ∧ cache.inUse c = none ∧
        handleCcbAbort c s =
          some ((({ s with cache := cache } : OIProxy).removeCcbTransaction c).call (.ccb c) tx .abort) := by
  unfold handleCcbAbort
  cases htx : s.ccbTxMap c with
  | none => exact Or.inl ⟨rfl, rfl⟩
  | some tx =>
    obtain ⟨cache, habort, hslots, helse, hnone, _⟩ := cache_ccbAbort_spec (c := c) h.slots
    refine Or.inr ⟨tx, cache, rfl, hslots, helse, hnone, ?_⟩
    dsimp only
    rw [habort, Option.map_some]

/-! ## Transactions of their own -/

variable (s) in
theorem freeCcbId_spec (fuel : Nat) (ccbId : CcbId) :
    (∃ c, freeCcbId s fuel ccbId = some c ∧ s.ccbTxMap c = none) ∨
      ∀ i < fuel, (s.ccbTxMap (ccbId + i)).isSome := by
  induction fuel generalizing ccbId with
  | zero => exact Or.inr fun i hi => absurd hi (Nat.not_lt_zero i)
  | succ fuel ih =>
    unfold freeCcbId
    split <;> rename_i hsome
    · refine (ih (ccbId + 1)).imp_right fun hall i hi => ?_
      cases i with
      | zero => exact hsome
      | succ i =>
        have := hall i (Nat.lt_of_succ_lt_succ hi)
        rwa [Nat.add_assoc, Nat.add_comm 1 i] at this
    · exact Or.inl ⟨ccbId, rfl, Option.not_isSome_iff_eq_none.mp hsome⟩

theorem freeCcbId_of_ok (h : s.Ok) : ∃ c, freeCcbId s (s.started + 1) 47 = some c ∧ s.ccbTxMap c = none := by
  refine (freeCcbId_spec s (s.started + 1) 47).resolve_right fun hall => ?_
  have hget : ∀ i : Fin (s.started + 1), ∃ tx : Fin s.started, s.ccbTxMap (47 + i) = some tx.val := by
    intro i
    obtain ⟨tx, htx⟩ := Option.isSome_iff_exists.mp (hall i i.isLt)
    exact ⟨⟨tx, h.below _ tx htx⟩, htx⟩
  choose f hf using hget
  have hinj : Function.Injective f := by
    intro i j hij
    have hids : 47 + i.val = 47 + j.val := h.apart _ _ _ (hf i) (by rw [hij]; exact hf j)
    exact Fin.ext (Nat.add_left_cancel hids)
  have hcard := Fintype.card_le_of_injective f hinj
  rw [Fintype.card_fin, Fintype.card_fin] at hcard
  exact absurd hcard (Nat.not_succ_le_self _)

theorem remove_opened (h : s.ccbTxMap c = none) :
    ((s.newTransaction owner).addNewCcbTransaction c s.started).removeCcbTransaction c = s.newTransaction
    owner := by
  have hmap : Function.update (Function.update s.ccbTxMap c (some s.started)) c none = s.ccbTxMap := by
    rw [Function.update_idem, ← h, Function.update_eq_self]
  unfold OIProxy.removeCcbTransaction OIProxy.addNewCcbTransaction OIProxy.newTransaction
  dsimp only
  rw [hmap]

theorem openTransaction_free (owner : Owner) (h : s.ccbTxMap c = none) (a : OpenAnswers) :
    openTransaction owner c a s = (none, s) ∨ a.getInterface = .ok ∧ a.newTransaction = .ok ∧
      openTransaction owner c a s = (if a.joined then some s.started else none,
        (s.newTransaction owner).addNewCcbTransaction c s.started) := by
  unfold openTransaction
  rw [h]
  split <;> rename_i hportal
  · exact Or.inl rfl
  · dsimp only
    split <;> rename_i hnew
    · exact Or.inl rfl
    · exact Or.inr ⟨not_not.mp hportal, not_not.mp hnew, rfl⟩

theorem openAnonymousTransaction_spec (owner : Owner) (a : OpenAnswers) (s : OIProxy) :
    openAnonymousTransaction owner a s = (none, s) ∨ a.getInterface = .ok ∧ a.newTransaction = .ok ∧
      openAnonymousTransaction owner a s = (if a.joined then some s.started else none, s.newTransaction owner) := by
  unfold openAnonymousTransaction
  split <;> rename_i hportal
  · exact Or.inl rfl
  · split <;> rename_i hnew
    · exact Or.inl rfl
    · exact Or.inr ⟨not_not.mp hportal, not_not.mp hnew, rfl⟩

/-- What a callback with a transaction of its own does, whatever is answered. -/
structure OwnStep (owner : Owner) (s s' : OIProxy) : Prop where
  ok : s'.Ok
  cache : s'.cache = s.cache
  errors : s'.ccbApplierError = s.ccbApplierError
  log : ∃ added, s'.txLog = s.txLog ++ added ∧ ∀ entry ∈ added, entry.owner = owner

theorem OwnStep.refl (h : s.Ok) : OwnStep owner s s :=
  ⟨h, rfl, rfl, [], (List.append_nil _).symm, fun _ hentry => nomatch hentry⟩

theorem OwnStep.newTransaction (h : s.Ok) : OwnStep owner s (s.newTransaction owner) := by
  refine ⟨h.newTransaction owner, rfl, rfl, _, rfl, fun entry hentry => ?_⟩
  rw [List.mem_singleton.mp hentry]

theorem OwnStep.call (h : OwnStep owner s s') (tx : TxHandle) (k : TxCall) :
    OwnStep owner s (s'.call owner tx k) := by
  obtain ⟨added, hlog, hadded⟩ := h.log
  refine ⟨h.ok.call .., h.cache, h.errors, added ++ [⟨owner, tx, k⟩], ?_, fun entry hentry => ?_⟩
  · rw [← List.append_assoc, ← hlog]
    rfl
  · rcases List.mem_append.mp hentry with hentry | hentry
    · exact hadded entry hentry
    · rw [List.mem_singleton.mp hentry]

theorem adminOperation_spec (h : s.Ok) (a : AdminAnswers) :
    ∃ s', handleAdminOperation a s = some s' ∧ OwnStep .adminOperation s s' := by
  unfold handleAdminOperation
  split
  · exact ⟨s, rfl, OwnStep.refl h⟩
  · obtain ⟨c, hfree, hnone⟩ := freeCcbId_of_ok h
    rw [hfree]
    dsimp only
    split
    · exact ⟨s, rfl, OwnStep.refl h⟩
    · have hown : OwnStep .adminOperation s (s.newTransaction .adminOperation) := OwnStep.newTransaction h
      rcases openTransaction_free .adminOperation hnone a.openTx with hopen | ⟨_, _, hopen⟩
      · rw [hopen]
        exact ⟨s, rfl, OwnStep.refl h⟩
      · rw [hopen]
        cases a.openTx.joined with
        | false =>
          -- the entry of the invented id is left in the map
          exact ⟨_, rfl, { hown with ok := h.opened (Or.inr ⟨hnone, rfl⟩) }⟩
        | true =>
          rw [if_pos rfl]
          dsimp only
          rw [remove_opened hnone]
          split
          · split
            · exact ⟨_, rfl, (hown.call _ _).call _ _⟩
            · split
              · exact ⟨_, rfl, hown.call _ _⟩
              · exact ⟨_, rfl, (hown.call _ _).call _ _⟩
          · split
            · exact ⟨_, rfl, hown⟩
            · exact ⟨_, rfl, hown.call _ _⟩

theorem rtAttrUpdate_spec (h : s.Ok) (a : RtAnswers) : OwnStep .rtAttrUpdate s (handleRtAttrUpdate a s) := by
  unfold handleRtAttrUpdate
  split
  · exact OwnStep.refl h
  · have hown : OwnStep .rtAttrUpdate s (s.newTransaction .rtAttrUpdate) := OwnStep.newTransaction h
    rcases openAnonymousTransaction_spec .rtAttrUpdate a.openTx s with hopen | ⟨_, _, hopen⟩
    · rw [hopen]
      exact OwnStep.refl h
    · rw [hopen]
      cases a.openTx.joined with
      | false => exact hown
      | true =>
        rw [if_pos rfl]
        dsimp only
        split
        · exact hown
        · split
          · exact hown
          · cases a.attributes with
            | noContainer => exact hown
            | failed => exact hown.call _ _
            | ok =>
              dsimp only
              split
              · exact (hown.call _ _).call _ _
              · exact hown.call _ _

end

end ComSA.OIproxy
