import ComSA.Lib.Run
import ComSA.OIproxy.StructCache

/-!
# The calls that are forwarded

What the object implementers get for a CCB is what was requested for it, with each run of
values for one struct attribute in one call.
-/

namespace ComSA.OIproxy

open StructCache

inductive Request where
  | createMo (moIf : MoIf) (version2 : Bool) (dn className keyAttrName keyAttrValue : String)
  | deleteMo (moIf : MoIf) (version2 : Bool) (dn : String)
  | setMoAttribute (moIf : MoIf) (dn attrName : String) (value : AttrValue)
  | ccbApply (moIf : MoIf)
  deriving DecidableEq, Repr

namespace Request

def run (env : CacheEnv) (ccbId : CcbId) (s : StructCache) : Request → Option (MafReturn × StructCache)
  | createMo moIf version2 dn className keyAttrName keyAttrValue =>
    cache_createMo env ccbId moIf version2 dn className keyAttrName keyAttrValue s
  | deleteMo moIf version2 dn => cache_deleteMo env ccbId moIf version2 dn s
  | setMoAttribute moIf dn attrName value => cache_setMoAttribute env ccbId moIf dn attrName value s
  | ccbApply _ => cache_ccbApply env ccbId s

def step (env : CacheEnv) (o : Option StructCache) (x : CcbId × Request) : Option StructCache :=
  o.bind fun s => (x.2.run env x.1 s).map Prod.snd

def continues (dn attrName : String) : Request → Bool
  | setMoAttribute _ dn' attrName' (.struct _) => dn' = dn ∧ attrName' = attrName
  | _ => false

def structValues : Request → List StructValue
  | setMoAttribute _ _ _ (.struct values) => values
  | _ => []

def moIf : Request → MoIf
  | createMo moIf .. | deleteMo moIf .. | setMoAttribute moIf .. | ccbApply moIf => moIf

def calls (tx : TxHandle) : Request → List OiCall
  | createMo moIf version2 dn className keyAttrName keyAttrValue =>
    [.createMo moIf version2 tx dn className keyAttrName keyAttrValue]
  | deleteMo moIf version2 dn => [.deleteMo moIf version2 tx dn]
  | setMoAttribute moIf dn attrName value => [.setMoAttribute moIf tx dn attrName value]
  | ccbApply _ => []

end Request

open Request

/-- The requested calls in order, where the struct values for one attribute that follow each other are
in one call. -/
def expected (tx : TxHandle) : List Request → List OiCall
  | [] => []
  | .setMoAttribute moIf dn attrName (.struct values) :: rest =>
    .setMoAttribute moIf tx dn attrName
      (.struct (values ++ (rest.takeWhile (continues dn attrName)).flatMap structValues)) ::
      expected tx (rest.dropWhile (continues dn attrName))
  | r :: rest => r.calls tx ++ expected tx rest
  termination_by rs => rs.length
  decreasing_by
    · have := (List.dropWhile_sublist (l := rest) (continues dn attrName)).length_le
      simp only [List.length_cons]
      omega
    · simp

/-- Values that are in one call were all to go to the same interface. -/
def OneInterface : List Request → Prop
  | [] => True
  | .setMoAttribute moIf dn attrName (.struct _) :: rest =>
    (∀ r ∈ rest.takeWhile (continues dn attrName), r.moIf = moIf) ∧
      OneInterface (rest.dropWhile (continues dn attrName))
  | _ :: rest => OneInterface rest
  termination_by rs => rs.length
  decreasing_by
    · have := (List.dropWhile_sublist (l := rest) (continues dn attrName)).length_le
      simp only [List.length_cons]
      omega
    · simp

def requestsOf (ccbId : CcbId) (run : List (CcbId × Request)) : List Request :=
  (run.filter fun x => x.1 = ccbId).map Prod.snd

def callsOf (ccbId : CcbId) (s : StructCache) : List OiCall :=
  (s.log.filter fun x => x.1 = ccbId).map Prod.snd

/-- A struct value goes to the interface that the memory of its CCB was made with, and does not add
nothing to nothing. -/
def Fine (o : Option StructCache) (x : CcbId × Request) : Prop :=
  ∀ s ∈ o, ∀ mem, s.attrStructCache x.1 = some mem →
    match x.2 with
    | .setMoAttribute moIf dn attrName (.struct values) =>
      mem.moIf = moIf ∧ (isSameStructType x.1 dn attrName s = .ok → mem.values.toList ++ values ≠ [])
    | _ => True

/-- Memory that is not in use holds no block, and memory in use does. -/
def SlotsOk (s : StructCache) : Prop :=
  ∀ c mem, s.attrStructCache c = some mem →
    match mem.status with
    | .empty => mem.values = .null
    | .inuse => ∃ values, mem.values = .block values

def collected (ccbId : CcbId) (s : StructCache) : List Request :=
  match s.inUse ccbId with
  | none => []
  | some mem => [.setMoAttribute mem.moIf mem.the3gppDn mem.attrName (.struct mem.values.toList)]

section
variable {env : CacheEnv} {tx : TxHandle} {c : CcbId} {s s' : StructCache}

/-! ## The requested calls -/

theorem expected_struct (moIf : MoIf) (dn attrName : String) (values : List StructValue) (rest : List Request) :
    expected tx (.setMoAttribute moIf dn attrName (.struct values) :: rest) =
      .setMoAttribute moIf tx dn attrName
        (.struct (values ++ (rest.takeWhile (continues dn attrName)).flatMap structValues)) ::
        expected tx (rest.dropWhile (continues dn attrName)) := by
  rw [expected]

theorem expected_other {r : Request} (h : ∀ moIf dn attrName values,
    r ≠ .setMoAttribute moIf dn attrName (.struct values)) (rest : List Request) :
    expected tx (r :: rest) = r.calls tx ++ expected tx rest := by
  rw [expected]
  exact h

theorem oneInterface_other {r : Request} (h : ∀ moIf dn attrName values,
    r ≠ .setMoAttribute moIf dn attrName (.struct values)) (rest : List Request) :
    OneInterface (r :: rest) ↔ OneInterface rest := by
  rw [OneInterface]
  exact h

theorem expected_merge (moIf moIf' : MoIf) (dn attrName : String) (values more : List StructValue)
    (rest : List Request) :
    expected tx (.setMoAttribute moIf dn attrName (.struct values) ::
      .setMoAttribute moIf' dn attrName (.struct more) :: rest) =
    expected tx (.setMoAttribute moIf dn attrName (.struct (values ++ more)) :: rest) := by
  rw [expected_struct, expected_struct, List.takeWhile_cons_of_pos (by simp [continues]),
    List.dropWhile_cons_of_pos (by simp [continues]), List.flatMap_cons, structValues, List.append_assoc]

theorem oneInterface_merge (moIf : MoIf) (dn attrName : String) (values more : List StructValue)
    (rest : List Request) :
    OneInterface (.setMoAttribute moIf dn attrName (.struct values) ::
      .setMoAttribute moIf dn attrName (.struct more) :: rest) ↔
    OneInterface (.setMoAttribute moIf dn attrName (.struct (values ++ more)) :: rest) := by
  rw [OneInterface, OneInterface, List.takeWhile_cons_of_pos (by simp [continues]),
    List.dropWhile_cons_of_pos (by simp [continues]), List.forall_mem_cons]
  simp [Request.moIf]

theorem expected_collected {r : Request}
    (h : ∀ mem, s.inUse c = some mem → continues mem.the3gppDn mem.attrName r = false) (rest : List Request) :
    expected tx (collected c s ++ r :: rest) =
      (collected c s).flatMap (calls tx) ++ expected tx (r :: rest) := by
  unfold collected
  cases hmem : s.inUse c with
  | none => rfl
  | some mem =>
    rw [List.singleton_append, expected_struct, List.takeWhile_cons_of_neg (by simp [h mem hmem]),
      List.dropWhile_cons_of_neg (by simp [h mem hmem])]
    simp [calls]

theorem oneInterface_collected {r : Request}
    (h : ∀ mem, s.inUse c = some mem → continues mem.the3gppDn mem.attrName r = false) (rest : List Request) :
    OneInterface (collected c s ++ r :: rest) ↔ OneInterface (r :: rest) := by
  unfold collected
  cases hmem : s.inUse c with
  | none => rfl
  | some mem =>
    rw [List.singleton_append, OneInterface, List.takeWhile_cons_of_neg (by simp [h mem hmem]),
      List.dropWhile_cons_of_neg (by simp [h mem hmem])]
    simp

/-! ## What one CCB does to the others -/

def Elsewhere (c : CcbId) (s s' : StructCache) : Prop :=
  ∀ c' ≠ c, s'.attrStructCache c' = s.attrStructCache c' ∧ callsOf c' s' = callsOf c' s

theorem Elsewhere.refl (c : CcbId) (s : StructCache) : Elsewhere c s s := fun _ _ => ⟨rfl, rfl⟩

theorem Elsewhere.trans {s'' : StructCache} (h : Elsewhere c s s') (h' : Elsewhere c s' s'') :
    Elsewhere c s s'' :=
  fun c' hc => ⟨(h' c' hc).1.trans (h c' hc).1, (h' c' hc).2.trans (h c' hc).2⟩

theorem elsewhere_setMem (mem : AttrHelperMem) : Elsewhere c s (s.setMem c mem) := by
  intro c' hc
  exact ⟨Function.update_of_ne hc _ _, rfl⟩

theorem elsewhere_send (call : OiCall) : Elsewhere c s (s.send env c call).2 := by
  intro c' hc
  refine ⟨rfl, ?_⟩
  simp [send, callsOf, Ne.symm hc]

theorem callsOf_send (call : OiCall) : callsOf c (s.send env c call).2 = callsOf c s ++ [call] := by
  simp [send, callsOf]

@[simp] theorem callsOf_setMem (mem : AttrHelperMem) : callsOf c (s.setMem c mem) = callsOf c s := rfl

@[simp] theorem setMem_same (mem : AttrHelperMem) : (s.setMem c mem).attrStructCache c = some mem :=
  Function.update_self _ _ _

theorem slotsOk_setMem (h : SlotsOk s) {mem : AttrHelperMem}
    (hmem : match mem.status with
      | .empty => mem.values = .null
      | .inuse => ∃ values, mem.values = .block values) : SlotsOk (s.setMem c mem) := by
  intro c' mem' hmem'
  by_cases hc : c' = c
  · subst hc
    rw [setMem_same] at hmem'
    obtain rfl := Option.some.inj hmem'
    exact hmem
  · rw [(elsewhere_setMem mem c' hc).1] at hmem'
    exact h c' mem' hmem'

/-! ## What the calls do when the implementers agree -/

theorem inUse_eq_some {mem : AttrHelperMem} :
    s.inUse c = some mem ↔ s.attrStructCache c = some mem ∧ mem.status = .inuse := by
  rw [inUse, Option.filter_eq_some_iff]
  simp

theorem inUse_eq_none : s.inUse c = none ↔ ∀ mem, s.attrStructCache c = some mem → mem.status = .empty := by
  rw [inUse, Option.filter_eq_none_iff]
  refine forall₂_congr fun mem _ => ?_
  cases mem.status <;> simp

theorem collected_of_none (h : s.inUse c = none) : collected c s = [] := by
  rw [collected, h]

theorem collected_of_inUse {mem : AttrHelperMem} (h : s.inUse c = some mem) {values : List StructValue}
    (hvalues : mem.values = .block values) :
    collected c s = [.setMoAttribute mem.moIf mem.the3gppDn mem.attrName (.struct values)] := by
  rw [collected, h]
  simp [hvalues, Values.toList]

theorem sendCache_ok (hok : ∀ n, env.answers n = .ok) (h : SlotsOk s) {mem : AttrHelperMem}
    (hmem : s.inUse c = some mem) :
    ∃ s', cache_sendCache env c s = some (.ok, s') ∧ SlotsOk s' ∧ Elsewhere c s s' ∧
      s'.attrStructCache c = some { moIf := mem.moIf } ∧
      callsOf c s' = callsOf c s ++ (collected c s).flatMap (calls (env.tx c)) := by
  obtain ⟨hthere, hstatus⟩ := inUse_eq_some.mp hmem
  have hslot := h c mem hthere
  rw [hstatus] at hslot
  obtain ⟨values, hvalues⟩ := hslot
  have hclean : ∀ s₁ : StructCache, s₁.attrStructCache c = some mem →
      cleanCcbId c s₁ = some (s₁.setMem c { moIf := mem.moIf }) := by
    intro s₁ hs₁
    rw [cleanCcbId, hs₁]
    simp [emptyHelperMemory, hstatus, hvalues, Values.free]
  refine ⟨(s.send env c (.setMoAttribute mem.moIf (env.tx c) mem.the3gppDn mem.attrName
    (.struct mem.values.toList))).2.setMem c { moIf := mem.moIf }, ?_, ?_, ?_, setMem_same _, ?_⟩
  · unfold cache_sendCache cache_sendMoData
    simp only [hmem, send, hok]
    exact congrArg (Option.map fun s => (MafReturn.ok, s)) (hclean _ (by exact hthere))
  · exact slotsOk_setMem h rfl
  · exact (elsewhere_send _).trans (elsewhere_setMem _)
  · rw [callsOf_setMem, callsOf_send, collected, hmem]
    rfl

theorem sendCached_ok (hok : ∀ n, env.answers n = .ok) (h : SlotsOk s) :
    ∃ s', sendCached env c s = some (.ok, s') ∧ SlotsOk s' ∧ Elsewhere c s s' ∧ s'.inUse c = none ∧
      callsOf c s' = callsOf c s ++ (collected c s).flatMap (calls (env.tx c)) := by
  unfold sendCached existCacheData
  cases hmem : s.inUse c with
  | none => exact ⟨s, rfl, h, Elsewhere.refl c s, hmem, by simp [collected, hmem]⟩
  | some mem =>
    obtain ⟨s', hsend, hslots, helse, hcache, hcalls⟩ := sendCache_ok hok h hmem
    refine ⟨s', hsend, hslots, helse, inUse_eq_none.mpr ?_, hcalls⟩
    rintro mem' hmem'
    rw [hcache] at hmem'
    rw [← Option.some.inj hmem']

/-- What a request does to the calls of its CCB and to what is still collected for it. -/
structure Advances (env : CacheEnv) (c : CcbId) (r : Request) (s s' : StructCache) : Prop where
  slots : SlotsOk s'
  elsewhere : Elsewhere c s s'
  calls : ∀ rest, callsOf c s' ++ expected (env.tx c) (collected c s' ++ rest) =
    callsOf c s ++ expected (env.tx c) (collected c s ++ r :: rest)
  oneInterface : ∀ rest, OneInterface (collected c s' ++ rest) → OneInterface (collected c s ++ r :: rest)
  applied : ∀ moIf, r = .ccbApply moIf → collected c s' = []

theorem advances_of_sent {r : Request} (hr : ∀ moIf dn attrName values,
      r ≠ .setMoAttribute moIf dn attrName (.struct values)) {s₁ : StructCache}
    (helse : Elsewhere c s s₁) (hslots : SlotsOk s₁) (hnone : s₁.inUse c = none)
    (hcalls : callsOf c s₁ = callsOf c s ++ (collected c s).flatMap (calls (env.tx c)) ++ r.calls (env.tx c)) :
    Advances env c r s s₁ := by
  have hnot : ∀ mem, s.inUse c = some mem → continues mem.the3gppDn mem.attrName r = false := by
    intro mem _
    cases r with
    | setMoAttribute moIf dn attrName value =>
      cases value with
      | simple _ => rfl
      | struct values => exact absurd rfl (hr moIf dn attrName values)
    | _ => rfl
  refine ⟨hslots, helse, fun rest => ?_, fun rest hone => ?_, fun _ _ => collected_of_none hnone⟩
  · rw [collected_of_none hnone, List.nil_append, expected_collected hnot, expected_other hr, hcalls]
    simp only [List.append_assoc]
  · rw [collected_of_none hnone, List.nil_append] at hone
    rw [oneInterface_collected hnot, oneInterface_other hr]
    exact hone

theorem advances_sendAfterCached (hok : ∀ n, env.answers n = .ok) (h : SlotsOk s) {r : Request}
    (hr : ∀ moIf dn attrName values, r ≠ .setMoAttribute moIf dn attrName (.struct values)) {call : OiCall}
    (hcall : r.calls (env.tx c) = [call]) :
    ∃ s', (sendAfterCached env c call s).map Prod.snd = some s' ∧ Advances env c r s s' := by
  obtain ⟨s₁, hsend, hslots, helse, hnone, hcalls⟩ := sendCached_ok (c := c) hok h
  refine ⟨(s₁.send env c call).2, ?_, ?_⟩
  · unfold sendAfterCached
    rw [hsend]
    rfl
  · refine advances_of_sent hr (helse.trans (elsewhere_send _)) hslots hnone ?_
    rw [callsOf_send, hcalls, hcall]

theorem inUse_setMem {mem : AttrHelperMem} (hstatus : mem.status = .inuse) :
    (s.setMem c mem).inUse c = some mem :=
  inUse_eq_some.mpr ⟨setMem_same mem, hstatus⟩

theorem add_first (h : SlotsOk s) (hnone : s.inUse c = none) (moIf : MoIf)
    (hmoIf : ∀ mem, s.attrStructCache c = some mem → mem.moIf = moIf) (dn attrName : String)
    (values : List StructValue) :
    addAttrValueContainer c moIf dn attrName values s =
      some (.ok, s.setMem c ⟨.inuse, moIf, dn, attrName, .block values⟩) := by
  have hempty := inUse_eq_none.mp hnone
  unfold addAttrValueContainer isSameStructType
  rw [hnone, if_neg (by simp)]
  cases hmem : s.attrStructCache c with
  | none => rfl
  | some mem =>
    have hslot := h c mem hmem
    rw [hempty mem hmem] at hslot
    simp [hslot, hempty mem hmem, hmoIf mem hmem, Values.realloc]

theorem add_more {mem : AttrHelperMem} (hmem : s.inUse c = some mem) {old : List StructValue}
    (hold : mem.values = .block old) (moIf : MoIf) {values : List StructValue} (hne : old ++ values ≠ []) :
    addAttrValueContainer c moIf mem.the3gppDn mem.attrName values s =
      some (.ok, s.setMem c { mem with values := .block (old ++ values) }) := by
  obtain ⟨hthere, hstatus⟩ := inUse_eq_some.mp hmem
  have hrealloc : mem.values.realloc values = some (true, .block (old ++ values)) := by
    rw [hold, Values.realloc, if_neg]
    rw [← List.length_append, List.length_eq_zero_iff]
    exact hne
  unfold addAttrValueContainer isSameStructType
  rw [hmem, hthere]
  simp [hrealloc, hstatus]

theorem advances_of_first {moIf : MoIf} {dn attrName : String} {values : List StructValue} (hslots : SlotsOk s')
    (helse : Elsewhere c s s')
    (hnot : ∀ mem, s.inUse c = some mem → ¬ (mem.attrName = attrName ∧ mem.the3gppDn = dn))
    (hcalls : callsOf c s' = callsOf c s ++ (collected c s).flatMap (calls (env.tx c))) :
    Advances env c (.setMoAttribute moIf dn attrName (.struct values)) s
      (s'.setMem c ⟨.inuse, moIf, dn, attrName, .block values⟩) := by
  have hcontinues : ∀ mem, s.inUse c = some mem → continues mem.the3gppDn mem.attrName
      (.setMoAttribute moIf dn attrName (.struct values)) = false := by
    intro mem hmem
    have := hnot mem hmem
    simp only [continues, decide_eq_false_iff_not]
    rintro ⟨hdn, hattr⟩
    exact this ⟨hattr.symm, hdn.symm⟩
  have hcollected : collected c (s'.setMem c ⟨.inuse, moIf, dn, attrName, .block values⟩) =
      [.setMoAttribute moIf dn attrName (.struct values)] := by
    exact collected_of_inUse (inUse_setMem rfl) rfl
  refine ⟨slotsOk_setMem hslots ⟨values, rfl⟩, helse.trans (elsewhere_setMem _), fun rest => ?_,
    fun rest hone => ?_, fun _ happly => nomatch happly⟩
  · rw [hcollected, expected_collected hcontinues, callsOf_setMem, hcalls, List.append_assoc]
    rfl
  · rw [hcollected] at hone
    rw [oneInterface_collected hcontinues]
    exact hone

theorem isSameStructType_eq_ok {dn attrName : String} : isSameStructType c dn attrName s = .ok ↔
    ∃ mem, s.inUse c = some mem ∧ mem.attrName = attrName ∧ mem.the3gppDn = dn := by
  unfold isSameStructType
  cases s.inUse c with
  | none => simp
  | some mem => simp

theorem advances_setStruct (hok : ∀ n, env.answers n = .ok) (h : SlotsOk s) {moIf : MoIf} {dn attrName : String}
    {values : List StructValue}
    (hfine : Fine (some s) (c, .setMoAttribute moIf dn attrName (.struct values))) :
    ∃ s', (cache_setMoAttribute env c moIf dn attrName (.struct values) s).map Prod.snd = some s' ∧
      Advances env c (.setMoAttribute moIf dn attrName (.struct values)) s s' := by
  have hfine := hfine s rfl
  dsimp only at hfine
  unfold cache_setMoAttribute
  cases hmem : s.inUse c with
  | none =>
    have hsame : isSameStructType c dn attrName s = .empty := by rw [isSameStructType, hmem]
    simp only [hsame]
    rw [add_first h hmem moIf (fun mem hthere => (hfine mem hthere).1)]
    refine ⟨_, rfl, advances_of_first h (Elsewhere.refl c s) (fun mem hmem' => ?_) ?_⟩
    · rw [hmem] at hmem'
      cases hmem'
    · simp [collected, hmem]
  | some mem =>
    obtain ⟨hthere, hstatus⟩ := inUse_eq_some.mp hmem
    by_cases hattr : mem.attrName = attrName ∧ mem.the3gppDn = dn
    · -- The same attribute: the values are added to what is there.
      have hsame := isSameStructType_eq_ok.mpr ⟨mem, hmem, hattr⟩
      obtain ⟨hmoIf, hsome⟩ := hfine mem hthere
      obtain ⟨old, hold⟩ : ∃ old, mem.values = .block old := by
        have hslot := h c mem hthere
        rwa [hstatus] at hslot
      have hne : old ++ values ≠ [] := by
        have := hsome hsame
        rwa [hold] at this
      simp only [hsame]
      obtain ⟨rfl, rfl⟩ := hattr
      rw [add_more hmem hold moIf hne]
      have hcollected : collected c s =
          [.setMoAttribute moIf mem.the3gppDn mem.attrName (.struct old)] := by
        rw [collected_of_inUse hmem hold, hmoIf]
      have hcollected' : collected c (s.setMem c { mem with values := .block (old ++ values) }) =
          [.setMoAttribute moIf mem.the3gppDn mem.attrName (.struct (old ++ values))] := by
        rw [← hmoIf]
        exact collected_of_inUse (inUse_setMem (by exact hstatus)) rfl
      refine ⟨_, rfl, slotsOk_setMem h ?_, elsewhere_setMem _, fun rest => ?_, fun rest hone => ?_,
        fun _ happly => nomatch happly⟩
      · dsimp only
        rw [hstatus]
        exact ⟨_, rfl⟩
      · rw [hcollected, hcollected', callsOf_setMem, List.singleton_append, List.singleton_append, expected_merge]
      · rw [hcollected', List.singleton_append] at hone
        rw [hcollected, List.singleton_append]
        exact (oneInterface_merge ..).mpr hone
    · -- Another attribute: what is there is sent first.
      have hdifferent : isSameStructType c dn attrName s = .different := by
        rw [isSameStructType, hmem]
        exact if_neg hattr
      obtain ⟨s₁, hsend, hslots, helse, hcache, hcalls⟩ := sendCache_ok hok h hmem
      have hnone : s₁.inUse c = none := by
        refine inUse_eq_none.mpr fun mem' hmem' => ?_
        rw [hcache] at hmem'
        rw [← Option.some.inj hmem']
      simp only [hdifferent, hsend]
      rw [add_first hslots hnone moIf fun mem' hmem' => ?_]
      · refine ⟨_, rfl, advances_of_first hslots helse (fun mem' hmem' => ?_) hcalls⟩
        rw [hmem] at hmem'
        obtain rfl := Option.some.inj hmem'
        exact hattr
      · rw [hcache] at hmem'
        rw [← Option.some.inj hmem']
        exact (hfine mem hthere).1

/-! ## Runs -/

theorem advances_run (hok : ∀ n, env.answers n = .ok) (h : SlotsOk s) {r : Request} (hfine : Fine (some s) (c, r)) :
    ∃ s', Request.step env (some s) (c, r) = some s' ∧ Advances env c r s s' := by
  cases r with
  | createMo moIf version2 dn className keyAttrName keyAttrValue =>
    exact advances_sendAfterCached hok h (fun _ _ _ _ => by simp) rfl
  | deleteMo moIf version2 dn => exact advances_sendAfterCached hok h (fun _ _ _ _ => by simp) rfl
  | setMoAttribute moIf dn attrName value =>
    cases value with
    | simple container => exact advances_sendAfterCached hok h (fun _ _ _ _ => by simp) rfl
    | struct values => exact advances_setStruct hok h hfine
  | ccbApply moIf =>
    obtain ⟨s', hsend, hslots, helse, hnone, hcalls⟩ := sendCached_ok (c := c) hok h
    refine ⟨s', ?_, advances_of_sent (fun _ _ _ _ => by simp) helse hslots hnone ?_⟩
    · unfold Request.step Request.run cache_ccbApply
      simp [hsend]
    · rw [hcalls, calls, List.append_nil]

theorem collected_elsewhere {c' : CcbId} (h : Elsewhere c s s') (hc : c' ≠ c) :
    collected c' s' = collected c' s := by
  rw [collected, inUse, (h c' hc).1, collected, inUse]

def Closed (rs : List Request) : Prop := ∀ r ∈ rs.getLast?, ∃ moIf, r = .ccbApply moIf

theorem collected_eq_nil_of_closed (h : Closed (collected c s)) : collected c s = [] := by
  unfold collected at h ⊢
  cases hmem : s.inUse c with
  | none => rfl
  | some mem =>
    rw [hmem] at h
    obtain ⟨moIf, hr⟩ := h _ rfl
    cases hr

theorem callsOf_run (hok : ∀ n, env.answers n = .ok) {run : List (CcbId × Request)} (h : SlotsOk s)
    (hfine : Along (Request.step env) Fine (some s) run) :
    ∃ s', run.foldl (Request.step env) (some s) = some s' ∧
      ∀ c, Closed (collected c s ++ requestsOf c run) →
        callsOf c s' = callsOf c s ++ expected (env.tx c) (collected c s ++ requestsOf c run) ∧
          OneInterface (collected c s ++ requestsOf c run) := by
  induction run generalizing s with
  | nil =>
    refine ⟨s, rfl, fun c hclosed => ?_⟩
    rw [requestsOf, List.filter_nil, List.map_nil, List.append_nil] at hclosed ⊢
    rw [collected_eq_nil_of_closed hclosed, expected, List.append_nil]
    exact ⟨rfl, by rw [OneInterface]; trivial⟩
  | cons x run ih =>
    obtain ⟨c₀, r⟩ := x
    obtain ⟨s₁, hstep, hadv⟩ := advances_run hok h hfine.1
    rw [List.foldl_cons, hstep]
    have hrest := hfine.2
    rw [hstep] at hrest
    obtain ⟨s', hs', hcalls⟩ := ih hadv.slots hrest
    refine ⟨s', hs', fun c hclosed => ?_⟩
    by_cases hc : c = c₀
    · subst hc
      have hreqs : requestsOf c ((c, r) :: run) = r :: requestsOf c run := by
        simp [requestsOf]
      rw [hreqs] at hclosed ⊢
      have hclosed' : Closed (collected c s₁ ++ requestsOf c run) := by
        by_cases hnil : requestsOf c run = []
        · rw [hnil] at hclosed ⊢
          obtain ⟨moIf, hr⟩ := hclosed r (by simp)
          rw [hadv.applied moIf hr]
          exact fun r hr => nomatch hr
        · intro r' hr'
          refine hclosed r' ?_
          rw [List.getLast?_append_of_ne_nil _ hnil] at hr'
          rw [List.getLast?_append_of_ne_nil _ (List.cons_ne_nil _ _), List.getLast?_cons_of_ne_nil hnil]
          exact hr'
      obtain ⟨heq, hone⟩ := hcalls c hclosed'
      exact ⟨heq.trans (hadv.calls _), hadv.oneInterface _ hone⟩
    · have hreqs : requestsOf c ((c₀, r) :: run) = requestsOf c run := by
        simp [requestsOf, Ne.symm hc]
      rw [hreqs, ← collected_elsewhere hadv.elsewhere hc] at hclosed ⊢
      rw [← (hadv.elsewhere c hc).2]
      exact hcalls c hclosed

end

/-- **The calls of a CCB.** After its closing apply, the implementers got for a CCB just the requested
calls, with the values for one struct attribute in one call, and every value went to its interface. -/
theorem forwards_requests (env : CacheEnv) (hok : ∀ n, env.answers n = .ok) (run : List (CcbId × Request))
    (hfine : Along (Request.step env) Fine (some .initial) run) :
    ∃ s, run.foldl (Request.step env) (some .initial) = some s ∧
      ∀ c, Closed (requestsOf c run) →
        callsOf c s = expected (env.tx c) (requestsOf c run) ∧ OneInterface (requestsOf c run) := by
  have hslots : SlotsOk .initial := fun c mem hmem => nomatch hmem
  obtain ⟨s, hs, hcalls⟩ := callsOf_run hok hslots hfine
  exact ⟨s, hs, hcalls⟩

/-! ## Two struct values of one CCB -/

def sampleEnv : CacheEnv := ⟨fun c => c, fun _ => .ok⟩

def sampleValue (text : String) : StructValue := [⟨"name", some ⟨.string, [.text text]⟩⟩]

/-- Two values of an attribute, and the creation of an object by another CCB between them. -/
def sampleRun : List (CcbId × Request) :=
  [(1, .setMoAttribute 7 "A=1" "s" (.struct [sampleValue "x"])),
    (2, .createMo 8 false "B=1" "B" "bId" "1"),
    (1, .setMoAttribute 7 "A=1" "s" (.struct [sampleValue "y"])),
    (1, .ccbApply 7)]

theorem forwards_requests_sample :
    ∃ s, sampleRun.foldl (Request.step sampleEnv) (some .initial) = some s ∧
      ∀ c, Closed (requestsOf c sampleRun) →
        callsOf c s = expected (sampleEnv.tx c) (requestsOf c sampleRun) ∧
          OneInterface (requestsOf c sampleRun) := by
  refine forwards_requests sampleEnv (fun _ => rfl) sampleRun ⟨?_, ?_, ?_, ?_, trivial⟩
  · rintro s ⟨⟩ mem hmem
    cases hmem
  · exact fun _ _ _ _ => trivial
  · rintro s ⟨⟩ mem hmem
    obtain rfl := Option.some.inj hmem
    exact ⟨rfl, fun _ => by simp⟩
  · exact fun _ _ _ _ => trivial

/-- The second value is for another interface. -/
theorem not_forwards_requests :
    ¬ ∀ (env : CacheEnv), (∀ n, env.answers n = .ok) → ∀ run : List (CcbId × Request),
      ∃ s, run.foldl (Request.step env) (some .initial) = some s ∧
        ∀ c, Closed (requestsOf c run) →
          callsOf c s = expected (env.tx c) (requestsOf c run) ∧ OneInterface (requestsOf c run) := by
  intro h
  obtain ⟨s, hs, hcalls⟩ := h sampleEnv (fun _ => rfl)
    [(1, .setMoAttribute 7 "A=1" "s" (.struct [sampleValue "x"])),
      (1, .setMoAttribute 8 "B=1" "s" (.struct [sampleValue "y"])), (1, .ccbApply 7)]
  obtain rfl := Option.some.inj hs
  obtain ⟨hcalls, -⟩ := hcalls 1 fun r hr => ⟨7, (Option.some.inj hr).symm⟩
  have hexpected : expected 1 [.setMoAttribute 7 "A=1" "s" (.struct [sampleValue "x"]),
      .setMoAttribute 8 "B=1" "s" (.struct [sampleValue "y"]), .ccbApply 7] =
      [.setMoAttribute 7 1 "A=1" "s" (.struct [sampleValue "x"]),
        .setMoAttribute 8 1 "B=1" "s" (.struct [sampleValue "y"])] := by
    simp [expected, continues, calls]
  have hcalls := hcalls.trans hexpected
  revert hcalls
  decide

end ComSA.OIproxy
