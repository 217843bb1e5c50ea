import ComSA.Motransaction.BridgeAction
import ComSA.Motransaction.StructRoundTrip

/-!
# Parameters through IMM

The parameters of a call are converted at one end of IMM and put into an array at the other, where the
implementer reads them. It is told here which calls it reads as they were made.
-/

namespace ComSA.Action

open OIproxy.Admin (MoAction RegisteredMoInterface NamedAttributeValueContainer translateParameters
  translateImm2MoFrom_spec entryAt container paramTypeOf Written Leading InModelOrder inModelOrder_iff
  written_of_mem)

/-! ## What it has to be -/

/-- What an implementer reads in the buffer of IMM, which it gets as it is. Nothing is told of a name, whose first
bytes are no pointer, of a value that is longer than its buffer, and of one that the interface does not have. -/
def readBuffer (moIfVersion : RegisteredMoInterface) : Datatype → MoValue → Option MoValue
  | .int8, .number n => some (.number (asSigned 8 n))
  | .int16, .number n => some (.number (asSigned 16 n))
  | .int32, .number n => some (.number (asSigned 32 n))
  | .int64, .number n => some (.number (asSigned 64 n))
  | .uint8, .number n => some (.number (asUnsigned 8 n))
  | .uint16, .number n => some (.number (asUnsigned 16 n))
  | .uint32, .number n => some (.number (asUnsigned 32 n))
  | .uint64, .number n => some (.number (asUnsigned 64 n))
  | .string, .text s => some (.text s)
  | .bool, .number n => some (.flag (asUnsigned 8 n ≠ 0))
  | .enum, .number n => if moIfVersion = .managedObject2 then some (.number (asSigned 16 n)) else none
  | .double, .number n => if moIfVersion = .managedObject3 then some (.number n) else none
  | _, _ => none

/-- The array has one entry for each parameter of the call, in the order of the model, and its value is read as it
was. -/
structure Received (moIfVersion : RegisteredMoInterface) (parameters : List Parameter)
    (theComParameterList : List AttributeValueContainer) (writes : List (Nat × NamedAttributeValueContainer)) :
    Prop where
  inside : ∀ w ∈ writes, w.1 < theComParameterList.length
  each : ∀ i v, theComParameterList[i]? = some v → ∃ par_p x entry, parameters[i]? = some par_p ∧ v.values = [x] ∧
    entryAt writes i = some entry ∧ entry.name = par_p.name ∧ entry.nrOfValues = 1 ∧
      readBuffer moIfVersion (baseType par_p.parameterType.toDatatypeContainer) entry.values = some x.simple

/-- An enum has 64 bits in the new interface, 16 in the old one and 32 in IMM. The old one has no double. -/
def Passes (moIfVersion : RegisteredMoInterface) : Datatype → MoValue → Prop
  | .enum, .number n => moIfVersion = .managedObject2 ∧ asSigned 16 n = n
  | .double, _ => moIfVersion = .managedObject3
  | .reference, _ => False
  | _, _ => True

/-- There are no more parameters than the model has, their names differ, and each is one value of its type that
passes. -/
structure Passed (moIfVersion : RegisteredMoInterface) (parameters : List Parameter)
    (theComParameterList : List AttributeValueContainer) : Prop where
  short : theComParameterList.length ≤ parameters.length
  distinct : ((parameters.map (·.name)).take theComParameterList.length).Nodup
  each : ∀ m ∈ parameters.zip theComParameterList,
    baseType m.1.parameterType.toDatatypeContainer = m.2.type ∧ HasCase m.2.type = true ∧
      ∃ x, m.2.values = [x] ∧ Passes moIfVersion m.2.type x.simple

def WellTyped (theComParameterList : List AttributeValueContainer) : Prop :=
  ∀ v ∈ theComParameterList, HasCase v.type = true → ∀ x ∈ v.values, OfType v.type x.simple

section
variable {env : TranslateEnv} {moIfVersion : RegisteredMoInterface}

/-! ## One parameter -/

theorem attrType_false (type : DatatypeContainer) : attrType false type = baseType type := by
  unfold attrType baseType
  by_cases hderived : type.type = .derived
  · rw [if_pos hderived, if_pos ⟨hderived, rfl⟩]
  · rw [if_neg hderived, if_neg fun hand => hderived hand.1]

theorem sanityCheckAdminParameters_iff {par_p : Parameter} {type : Datatype} :
    sanityCheckAdminParameters par_p type = true ↔ baseType par_p.parameterType.toDatatypeContainer = type := by
  unfold sanityCheckAdminParameters baseType
  split <;> exact decide_eq_true_iff

theorem hasCase_of_readBuffer {type : Datatype} {buffer value : MoValue}
    (h : readBuffer moIfVersion type buffer = some value) : HasCase type = true := by
  cases type <;> first | rfl | cases h

theorem ne_struct_of_hasCase {type : DatatypeContainer} (h : HasCase (baseType type) = true) :
    type.type ≠ .struct := by
  intro hstruct
  rw [← attrType_false, attrType_struct hstruct] at h
  cases h

theorem readBuffer_of_convert {name : List Char} {type : DatatypeContainer} {value : MoValue}
    {p : AdminOperationParams} (h : convertASingleAdmOpParam env name false type value = some p)
    (hvalue : OfType (baseType type) value) :
    readBuffer moIfVersion (baseType type) p.paramBuffer = some value ↔
      Passes moIfVersion (baseType type) value := by
  have hbits (n : Int) : asSigned 16 (asSigned 32 n) = asSigned 16 n :=
    Int.bmod_bmod_of_dvd (by decide)
  unfold convertASingleAdmOpParam at h
  rw [attrType_false] at h
  generalize baseType type = t at h hvalue ⊢
  cases t <;> cases value <;> try exact hvalue.elim
  case bool.flag b =>
    cases h
    cases b <;> simp [readBuffer, Passes, asSaInt32, asUnsigned]
  all_goals
    cases h
    cases moIfVersion <;> simp_all [readBuffer, Passes, OfType, asSaInt32]

/-! ## The parameters of a call -/

def Sent (env : TranslateEnv) (m : Parameter × AttributeValueContainer) (p : AdminOperationParams) : Prop :=
  ∃ x, m.2.values = [x] ∧
    convertASingleAdmOpParam env m.1.name false m.1.parameterType.toDatatypeContainer x.simple = some p

variable (env) in
theorem convertContainer_of_single {m : Parameter × AttributeValueContainer}
    (hcase : HasCase (baseType m.1.parameterType.toDatatypeContainer) = true) {x : ComValue} (hx : m.2.values = [x])
    (s : MafReturn × List AdminOperationParams) :
    ∃ p, Sent env m p ∧
      convertContainer env m.1.name false m.1.parameterType m.2 s = (s.1, s.2 ++ [p]) := by
  have hsome := (@convertASingleAdmOpParam_ne_none_iff env false m.1.name _ x.simple).mpr
    ((attrType_false m.1.parameterType.toDatatypeContainer).symm ▸ hcase)
  obtain ⟨p, hp⟩ := Option.ne_none_iff_exists'.mp hsome
  refine ⟨p, ⟨x, hx, hp⟩, ?_⟩
  have hname : elementName m.1.name 1 0 = m.1.name := elementName_of_le le_rfl 0
  unfold convertContainer convertValues
  rw [if_neg (ne_struct_of_hasCase hcase), hx]
  simp [hname, hp]

variable (env) in
theorem convertParameters_of_single {parameters : List Parameter} {theComParameterList : List AttributeValueContainer}
    (h : ∀ m ∈ parameters.zip theComParameterList, sanityCheckAdminParameters m.1 m.2.type = true ∧
      HasCase (baseType m.1.parameterType.toDatatypeContainer) = true ∧ ∃ x, m.2.values = [x])
    (s : MafReturn × List AdminOperationParams) :
    ∃ opPP, convertParameters env parameters theComParameterList s = (s.1, s.2 ++ opPP) ∧
      List.Forall₂ (Sent env) (parameters.zip theComParameterList) opPP := by
  induction parameters generalizing theComParameterList s with
  | nil => exact ⟨[], by simp [convertParameters], .nil⟩
  | cons par_p parameters ih =>
    cases theComParameterList with
    | nil => exact ⟨[], by simp [convertParameters], .nil⟩
    | cons v theComParameterList =>
      rw [List.zip_cons_cons] at h
      obtain ⟨⟨hsane, hcase, x, hx⟩, hrest⟩ := List.forall_mem_cons.mp h
      obtain ⟨p, hsent, hconvert⟩ := convertContainer_of_single env (m := (par_p, v)) hcase hx s
      obtain ⟨opPP, hopPP, hall⟩ := ih hrest (convertContainer env par_p.name false par_p.parameterType v s)
      refine ⟨p :: opPP, ?_, .cons hsent hall⟩
      rw [convertParameters, if_pos hsane, hopPP, hconvert, List.append_assoc]
      rfl

theorem paramName_of_sent {m : Parameter × AttributeValueContainer} {p : AdminOperationParams} (h : Sent env m p) :
    p.paramName = m.1.name := by
  obtain ⟨x, -, hp⟩ := h
  exact paramName_of_convert hp

theorem names_of_sent {parameters : List Parameter} {theComParameterList : List AttributeValueContainer}
    (hshort : theComParameterList.length ≤ parameters.length) {opPP : List AdminOperationParams}
    (h : List.Forall₂ (Sent env) (parameters.zip theComParameterList) opPP) :
    opPP.map (·.paramName) = (parameters.map (·.name)).take theComParameterList.length := by
  have hnames : List.Forall₂ (fun m p => m.1.name = p.paramName) (parameters.zip theComParameterList) opPP :=
    h.imp fun m p hp => (paramName_of_sent hp).symm
  have heq := List.forall₂_map_left_iff.mpr (List.forall₂_map_right_iff.mpr hnames)
  rw [List.forall₂_eq_eq_eq] at heq
  have hzip : ((parameters.zip theComParameterList).map Prod.fst) = parameters.take theComParameterList.length := by
    rw [List.zip_eq_zip_take_min, min_eq_right hshort, List.map_fst_zip (by simp)]
  rw [← heq, ← List.map_take, ← hzip, List.map_map]
  rfl

/-! ## The array -/

theorem mem_of_entryAt {writes : List (Nat × NamedAttributeValueContainer)} {i : Nat}
    {entry : NamedAttributeValueContainer} (h : entryAt writes i = some entry) : (i, entry) ∈ writes := by
  obtain ⟨w, hw, rfl⟩ := Option.map_eq_some_iff.mp h
  have hplace : w.1 = i := by simpa using List.find?_some hw
  rw [← hplace]
  exact List.mem_reverse.mp (List.mem_of_find?_eq_some hw)

theorem nodup_take_of_idxOf? {names : List (List Char)} {n : Nat} (hn : n ≤ names.length)
    (h : ∀ i < n, ∀ name, names[i]? = some name → names.idxOf? name = some i) : (names.take n).Nodup := by
  rw [List.nodup_iff_getElem?_ne_getElem?]
  intro i j hij hj
  rw [List.length_take, min_eq_left hn] at hj
  rw [List.getElem?_take_of_lt (hij.trans hj), List.getElem?_take_of_lt hj]
  intro heq
  have hi' : i < names.length := by omega
  have hj' : j < names.length := by omega
  rw [List.getElem?_eq_getElem hi', List.getElem?_eq_getElem hj', Option.some_inj] at heq
  have hi := h i (hij.trans hj) _ (List.getElem?_eq_getElem hi')
  have hj := h j hj _ (List.getElem?_eq_getElem hj')
  rw [heq, hj, Option.some_inj] at hi
  omega

theorem entries_of_sent {parameters : List Parameter} {theComParameterList : List AttributeValueContainer}
    (hshort : theComParameterList.length ≤ parameters.length)
    (hdistinct : ((parameters.map (·.name)).take theComParameterList.length).Nodup)
    {opPP : List AdminOperationParams} (hsent : List.Forall₂ (Sent env) (parameters.zip theComParameterList) opPP)
    {writes : List (Nat × NamedAttributeValueContainer)}
    (hwritten : List.Forall₂ (Written (moIfVersion = .managedObject2) parameters) opPP writes) :
    (∀ w ∈ writes, w.1 < theComParameterList.length) ∧
      ∀ i v, theComParameterList[i]? = some v → ∃ par_p p, parameters[i]? = some par_p ∧ Sent env (par_p, v) p ∧
        entryAt writes i = some (container p (paramTypeOf (moIfVersion = .managedObject2) par_p)) := by
  have hnames := names_of_sent hshort hsent
  have hlen : opPP.length = theComParameterList.length := by
    rw [← hsent.length_eq, List.length_zip, min_eq_right hshort]
  have hleading : Leading parameters opPP := by
    unfold Leading
    rw [hnames, hlen]
    exact ⟨hdistinct, .refl _⟩
  obtain ⟨hinside, -, hholds⟩ := (inModelOrder_iff hwritten).mpr hleading
  refine ⟨fun w hw => hlen ▸ hinside w hw, fun i v hv => ?_⟩
  obtain ⟨hi, -⟩ := List.getElem?_eq_some_iff.mp hv
  obtain ⟨par_p, p, hpar, hp, hname, hentry⟩ := hholds i (hlen ▸ hi)
  -- the parameter of that name is the one in this place
  have hzip : (parameters.zip theComParameterList)[i]? = some (par_p, v) :=
    List.getElem?_zip_eq_some.mpr ⟨hpar, hv⟩
  obtain ⟨p', hp', hsent'⟩ : ∃ p', opPP[i]? = some p' ∧ Sent env (par_p, v) p' := by
    obtain ⟨hi', heq⟩ := List.getElem?_eq_some_iff.mp hzip
    have hi'' : i < opPP.length := by omega
    have hget := hsent.get hi' hi''
    rw [List.get_eq_getElem, List.get_eq_getElem, heq] at hget
    exact ⟨opPP[i], List.getElem?_eq_getElem hi'', hget⟩
  have hsame : p = p' := by
    refine List.inj_on_of_nodup_map (hnames ▸ hdistinct) hp (List.mem_of_getElem? hp') ?_
    rw [hname, paramName_of_sent hsent']
  exact ⟨par_p, p, hpar, hsame ▸ hsent', hentry⟩

theorem passed_of_received {parameters : List Parameter} {theComParameterList : List AttributeValueContainer}
    (htyped : WellTyped theComParameterList)
    (hsane : ∀ m ∈ parameters.zip theComParameterList, sanityCheckAdminParameters m.1 m.2.type = true)
    {opPP : List AdminOperationParams}
    (hopPP : (convertParameters env parameters theComParameterList (.ok, [])).2 = opPP)
    {writes : List (Nat × NamedAttributeValueContainer)}
    (hwritten : List.Forall₂ (Written (moIfVersion = .managedObject2) parameters) opPP writes)
    (h : Received moIfVersion parameters theComParameterList writes) :
    Passed moIfVersion parameters theComParameterList := by
  have hplace (i : Nat) (v : AttributeValueContainer) (hv : theComParameterList[i]? = some v) (par_p : Parameter)
      (hpar : parameters[i]? = some par_p) : (parameters.map (·.name)).idxOf? par_p.name = some i := by
    obtain ⟨par_p', x, entry, hpar', -, hentry, hname, -⟩ := h.each i v hv
    obtain rfl : par_p = par_p' := Option.some.inj (hpar.symm.trans hpar')
    obtain ⟨p, -, hindex, q, -, hpname, heq⟩ := written_of_mem hwritten (mem_of_entryAt hentry)
    rw [← hname, show entry = _ from heq]
    exact hindex
  have hshort : theComParameterList.length ≤ parameters.length := by
    by_contra hlong
    rw [not_le] at hlong
    obtain ⟨par_p, x, entry, hpar, -⟩ := h.each parameters.length _ (List.getElem?_eq_getElem hlong)
    rw [List.getElem?_eq_none le_rfl] at hpar
    cases hpar
  have hdistinct : ((parameters.map (·.name)).take theComParameterList.length).Nodup := by
    refine nodup_take_of_idxOf? (by rwa [List.length_map]) fun i hi name hname => ?_
    rw [List.getElem?_map] at hname
    obtain ⟨par_p, hpar, rfl⟩ := Option.map_eq_some_iff.mp hname
    exact hplace i _ (List.getElem?_eq_getElem hi) par_p hpar
  have hone : ∀ m ∈ parameters.zip theComParameterList, sanityCheckAdminParameters m.1 m.2.type = true ∧
      HasCase (baseType m.1.parameterType.toDatatypeContainer) = true ∧ ∃ x, m.2.values = [x] := by
    intro m hm
    obtain ⟨i, hi⟩ := List.mem_iff_getElem?.mp hm
    obtain ⟨hpar, hv⟩ := List.getElem?_zip_eq_some.mp hi
    obtain ⟨par_p, x, entry, hpar', hx, -, -, -, hread⟩ := h.each i m.2 hv
    obtain rfl : m.1 = par_p := Option.some.inj (hpar.symm.trans hpar')
    exact ⟨hsane m hm, hasCase_of_readBuffer hread, x, hx⟩
  refine ⟨hshort, hdistinct, fun m hm => ?_⟩
  obtain ⟨opPP', hconvert, hsent⟩ := convertParameters_of_single env hone (.ok, [])
  rw [hconvert] at hopPP
  obtain rfl : opPP' = opPP := hopPP
  obtain ⟨-, hentries⟩ := entries_of_sent hshort hdistinct hsent hwritten
  obtain ⟨i, hi⟩ := List.mem_iff_getElem?.mp hm
  obtain ⟨hpar, hv⟩ := List.getElem?_zip_eq_some.mp hi
  obtain ⟨par_p, x, entry, hpar', hx, hentry, -, -, hread⟩ := h.each i m.2 hv
  obtain rfl : m.1 = par_p := Option.some.inj (hpar.symm.trans hpar')
  obtain ⟨par_p, p, hpar', ⟨x', hx', hp⟩, hentry'⟩ := hentries i m.2 hv
  obtain rfl : m.1 = par_p := Option.some.inj (hpar.symm.trans hpar')
  obtain rfl : x' = x := (List.cons.inj (hx'.symm.trans hx)).1
  obtain rfl := Option.some.inj (hentry.symm.trans hentry')
  have htype := sanityCheckAdminParameters_iff.mp (hsane m hm)
  have hcase : HasCase m.2.type = true := htype ▸ hasCase_of_readBuffer hread
  have hvalue : OfType m.2.type x'.simple := htyped m.2 (List.mem_of_getElem? hv) hcase x' (by rw [hx]; simp)
  refine ⟨htype, hcase, x', hx, ?_⟩
  rw [← htype] at hvalue ⊢
  exact (readBuffer_of_convert hp hvalue).mp hread

end

/-! ## A call -/

section
variable {env : ActionEnv} {moIfVersion : RegisteredMoInterface} {ap : MoAction}
  {theComParameterList : List AttributeValueContainer}

theorem sendParameters_eq_iff {opPP : List AdminOperationParams} :
    sendParameters env ap theComParameterList .ok = (.ok, some opPP) ↔
      (theComParameterList ≠ [] → ap.parameters ≠ []) ∧
        convertParameters env.translate ap.parameters theComParameterList (.ok, []) = (.ok, opPP) := by
  have hresult (s : MafReturn × List AdminOperationParams) : result s = (.ok, some opPP) ↔ s = (.ok, opPP) := by
    unfold result
    rw [Prod.ext_iff, Prod.ext_iff]
    refine and_congr_right fun hok => ?_
    dsimp only at hok ⊢
    rw [if_pos hok, Option.some_inj]
  unfold sendParameters convertToAdminOpParameters
  by_cases hcom : theComParameterList = []
  · subst hcom
    rw [if_neg (not_not_intro rfl), hresult, and_iff_right fun hne => absurd rfl hne]
    cases ap.parameters <;> simp [convertParameters]
  · rw [if_pos hcom, if_neg hcom]
    by_cases hpar : ap.parameters = []
    · rw [if_pos hpar]
      exact iff_of_false (by simp) fun h => h.1 hcom hpar
    · rw [if_neg hpar, hresult, and_iff_right fun _ => hpar]

theorem Passed.single (h : Passed moIfVersion ap.parameters theComParameterList) :
    ∀ m ∈ ap.parameters.zip theComParameterList, sanityCheckAdminParameters m.1 m.2.type = true ∧
      HasCase (baseType m.1.parameterType.toDatatypeContainer) = true ∧ ∃ x, m.2.values = [x] := by
  intro m hm
  obtain ⟨htype, hcase, x, hx, -⟩ := h.each m hm
  exact ⟨sanityCheckAdminParameters_iff.mpr htype, htype ▸ hcase, x, hx⟩

theorem Passed.length_of_sent (h : Passed moIfVersion ap.parameters theComParameterList)
    {opPP : List AdminOperationParams} (hsend : sendParameters env ap theComParameterList .ok = (.ok, some opPP)) :
    opPP.length = theComParameterList.length := by
  obtain ⟨sent, hconvert, hsent⟩ := convertParameters_of_single env.translate h.single (.ok, [])
  rw [(sendParameters_eq_iff.mp hsend).2] at hconvert
  obtain rfl : opPP = sent := (Prod.ext_iff.mp hconvert).2
  rw [← hsent.length_eq, List.length_zip, min_eq_right h.short]

theorem received_iff (hwell : WellTyped theComParameterList) :
    (∃ opPP, sendParameters env ap theComParameterList .ok = (.ok, some opPP) ∧
      (translateParameters moIfVersion ap.parameters (some opPP)).1 = .ok ∧
        Received moIfVersion ap.parameters theComParameterList
          (translateParameters moIfVersion ap.parameters (some opPP)).2) ↔
      Passed moIfVersion ap.parameters theComParameterList := by
  constructor
  · rintro ⟨opPP, hsend, hok, hreceived⟩
    obtain ⟨-, hconvert⟩ := sendParameters_eq_iff.mp hsend
    have hstart : (MafReturn.ok, ([] : List AdminOperationParams)).1 = .ok ↔ LastTaken [] := by
      refine iff_of_true rfl fun s hs => ?_
      cases hs
    obtain ⟨hsane, -⟩ := (convertParameters_ok_iff hstart _ _).mp (congrArg Prod.fst hconvert)
    rcases translateImm2MoFrom_spec (moIfVersion = .managedObject2) ap.parameters opPP with
      ⟨-, hwritten, -⟩ | ⟨hbad, -⟩
    · exact passed_of_received hwell hsane (congrArg Prod.snd hconvert) hwritten hreceived
    · exact absurd hok hbad
  · intro hpassed
    obtain ⟨opPP, hconvert, hsent⟩ := convertParameters_of_single env.translate hpassed.single (.ok, [])
    have hnames := names_of_sent hpassed.short hsent
    refine ⟨opPP, sendParameters_eq_iff.mpr ⟨fun hne hnil => hne ?_, hconvert⟩, ?_⟩
    · have hshort := hpassed.short
      rw [hnil, List.length_nil] at hshort
      exact List.length_eq_zero_iff.mp (Nat.le_zero.mp hshort)
    · rcases translateImm2MoFrom_spec (moIfVersion = .managedObject2) ap.parameters opPP with
        ⟨hok, hwritten, -⟩ | ⟨-, p, hp, hnot⟩
      · obtain ⟨hinside, hentries⟩ := entries_of_sent hpassed.short hpassed.distinct hsent hwritten
        refine ⟨hok, hinside, fun i v hv => ?_⟩
        obtain ⟨par_p, p, hpar, ⟨x, hx, hp⟩, hentry⟩ := hentries i v hv
        have hzip : (par_p, v) ∈ ap.parameters.zip theComParameterList :=
          List.mem_of_getElem? (List.getElem?_zip_eq_some.mpr ⟨hpar, hv⟩)
        obtain ⟨htype, hcase, x', hx', hpasses⟩ := hpassed.each (par_p, v) hzip
        obtain rfl : x' = x := (List.cons.inj (hx'.symm.trans hx)).1
        have hvalue : OfType v.type x'.simple := hwell v (List.mem_of_getElem? hv) hcase x' (by rw [hx]; simp)
        refine ⟨par_p, x', _, hpar, hx, hentry, paramName_of_convert hp, rfl, ?_⟩
        rw [← htype] at hvalue hpasses
        exact (readBuffer_of_convert hp hvalue).mpr hpasses
      · refine absurd ?_ hnot
        exact List.mem_of_mem_take (hnames ▸ List.mem_map_of_mem hp)

end

end ComSA.Action
