import ComSA.Lib.Delimited
import ComSA.Motransaction.DnTranslation
import ComSA.Motransaction.PopulatedRoots

/-!
# From a class path to an IMM class path

`getImmPath` makes up a DN for a class path, translates it to IMM and goes back from the key attributes to the classes.
Which classes it finds where no key attribute misleads it.
-/

namespace ComSA.Translator

open SortedMap

namespace KeyMOMRepo

def momPrefix (m : KeyMOMRepo) : String := if m.momDecorated then m.momName else ""

def Plain (m : KeyMOMRepo) : Prop :=
  ∀ c ∈ [',', ';'], c ∉ m.momName.toList ∧ ∀ e ∈ m.classNameMap, c ∉ e.2.toList

end KeyMOMRepo

structure OamSAKeyAttributeRepository.PlainMoms (holder : OamSAKeyAttributeRepository) : Prop where
  empty : holder.emptyMOM.Plain
  moms : ∀ e ∈ holder.momOamSAKeyMOMRepoMAP, e.2.Plain

/-- The repositories once they are populated, with the MOMs that were registered. -/
structure Repositories where
  repository : RootRepository
  registeredParentMOCWithMOMVALUESet : List String
  registeredDecoratedIMMKeyAttributes : List (String × String)

namespace Repositories

variable (p : Repositories)

def registry : Registry :=
  p.repository.registry p.registeredParentMOCWithMOMVALUESet p.registeredDecoratedIMMKeyAttributes

def theKeyHolder : OamSAKeyAttributeRepository := p.repository.theKeyHolder

/-! ## The functions -/

def getStructAndMocPathName (mocPath : String) : String × String :=
  (String.ofList (mocPath.toList.takeWhile (· ≠ ':')), String.ofList (mocPath.toList.dropWhile (· ≠ ':')).tail)

def mockDn (mocPath : String) : List String :=
  (mocPath.toList.splitOn ',').map fun name => String.ofList name ++ "=0"

def getMockImmDn (mocPath : String) : String := MO2Imm_DN p.registry (mockDn mocPath)

/-- The MOM's prefix, the class and the repository that the next part is looked for in; nothing where the key attribute
is not found. -/
def renderImmClassName (immFragment : String) (keyRepo : Option KeyMOMRepo) :
    Option (String × String × KeyMOMRepo) :=
  let keyRepo :=
    match keyRepo with
    | some m =>
      if m.getClassNameForKeyAttribute immFragment = "" then p.theKeyHolder.getMOMRepoImmKey immFragment else m
    | none => p.theKeyHolder.getMOMRepoImmKey immFragment
  if keyRepo.getClassNameForKeyAttribute immFragment = "" then none
  else some (keyRepo.momPrefix, keyRepo.momPrefix ++ keyRepo.getClassNameForKeyAttribute immFragment, keyRepo)

/-- The loop over the parts of the made up DN, which stand from the last one up. -/
def renderParts : List String → Option KeyMOMRepo → String → String → Option (String × String)
  | [], _, immPath, structPrefix => some (immPath, structPrefix)
  | part :: parts, keyRepo, immPath, _ => do
    let immPath := if immPath = "" then "" else immPath ++ ","
    let (structPrefix, immClass, keyRepo) ← p.renderImmClassName (beforeEqual part) keyRepo
    renderParts parts (some keyRepo) (immPath ++ immClass) structPrefix

/-- The parts of a DN from the last one up. The loop ends where nothing is left before the last `,`. -/
def partsFromLast : List String → List String
  | [] => []
  | [part] => [part]
  | part :: rest => if rest = [""] then [part] else part :: partsFromLast rest

def convertToImmPath (mocPath : String) : String × String :=
  let mockImmDn := p.getMockImmDn mocPath
  if mockImmDn = "" then ("", "")
  else
    (p.renderParts (partsFromLast ((mockImmDn.toList.splitOn ',').map String.ofList).reverse) none "" "").getD
    ("", "")

def getImmPath (mocPath : String) : String :=
  let (mocPath, structName) := getStructAndMocPathName mocPath
  let (immPath, structPrefix) := p.convertToImmPath mocPath
  if immPath ≠ "" ∧ structName ≠ "" then immPath ++ "," ++ structPrefix ++ structName else immPath

/-! ## What a class path means -/

def immClassName (x : Fragment × List Fragment) : String :=
  (p.theKeyHolder.getMOMRepo (momKey p.registry x.1 x.2)).momPrefix ++ x.1.className

/-- The classes from the lowest root down where the DN splits, with their names in IMM. -/
def immClasses (d : MoName) : List String := (d.translated p.registry).reverse.map p.immClassName

def lastPrefix (d : MoName) : String :=
  ((d.translated p.registry).head?.map fun x =>
    (p.theKeyHolder.getMOMRepo (momKey p.registry x.1 x.2)).momPrefix).getD ""

/-- From the top down, the key attribute of each part is that of its class in its MOM, and this MOM is where it is
looked for: that of the part above, or else, where that one does not know the key attribute, the one with this key
attribute. -/
def FoundFrom : Option KeyMOMRepo → List (Fragment × List Fragment) → Prop
  | _, [] => True
  | keyRepo, x :: below =>
    let m := p.theKeyHolder.getMOMRepo (momKey p.registry x.1 x.2)
    let key := keyAttribute p.registry x.1 x.2
    m.getClassNameForKeyAttribute key = x.1.className ∧
      (keyRepo = some m ∨
        (∀ m' ∈ keyRepo, m'.getClassNameForKeyAttribute key = "") ∧ p.theKeyHolder.getMOMRepoImmKey key = m) ∧
      FoundFrom (some m) below

structure FoundAgain (d : MoName) : Prop where
  straight : Straight p.registry (d.translated p.registry)
  plain : ∀ x ∈ d.translated p.registry,
    '=' ∉ (keyAttribute p.registry x.1 x.2).toList ∧ ',' ∉ (keyAttribute p.registry x.1 x.2).toList
  found : p.FoundFrom none (d.translated p.registry).reverse

structure MockOf (d : MoName) (mocPath : String) : Prop where
  values : ∀ f ∈ d.fragments, f.value = "0"
  classes : ∀ f ∈ d.fragments, ',' ∉ f.className.toList
  path : mocPath = ",".intercalate (d.fragments.map Fragment.className)

/-! ## The way back -/

variable {p} {d : MoName} {mocPath : String}

theorem mockDn_eq (h : MockOf d mocPath) : mockDn mocPath = d.texts := by
  have hnil : d.fragments.map Fragment.className ≠ [] := by simpa using d.nonempty
  have hcomma : ∀ n ∈ d.fragments.map Fragment.className, ',' ∉ n.toList := by
    intro n hn
    obtain ⟨f, hf, rfl⟩ := List.mem_map.mp hn
    exact h.classes f hf
  unfold mockDn MoName.texts
  rw [h.path, splitOn_intercalate_comma hcomma hnil, List.map_map, List.map_map]
  apply List.map_congr_left
  intro f hf
  have hzero : "=0" = "=" ++ "0" := rfl
  simp [Fragment.text, h.values f hf, hzero, String.append_assoc]

theorem getMockImmDn_eq (h : MockOf d mocPath) (hfound : p.FoundAgain d) :
    p.getMockImmDn mocPath = d.immName p.registry := by
  rw [getMockImmDn, mockDn_eq h, MO2Imm_DN_eq hfound.straight]

theorem immClassName_ne (x : Fragment × List Fragment) : p.immClassName x ≠ "" := by
  simp [immClassName, x.1.className_ne]

theorem renderImmClassName_eq {keyRepo : Option KeyMOMRepo} {x : Fragment × List Fragment}
    {below : List (Fragment × List Fragment)} (h : p.FoundFrom keyRepo (x :: below)) :
    p.renderImmClassName (keyAttribute p.registry x.1 x.2) keyRepo =
      some ((p.theKeyHolder.getMOMRepo (momKey p.registry x.1 x.2)).momPrefix, p.immClassName x,
        p.theKeyHolder.getMOMRepo (momKey p.registry x.1 x.2)) := by
  obtain ⟨hclass, hrepo, -⟩ := h
  unfold renderImmClassName immClassName
  obtain rfl | ⟨hother, hrepo⟩ := hrepo
  · simp [hclass, x.1.className_ne]
  · cases keyRepo with
    | none => simp [hrepo, hclass, x.1.className_ne]
    | some m => simp [hother m rfl, hrepo, hclass, x.1.className_ne]

theorem renderParts_eq {keyRepo : Option KeyMOMRepo} {parts : List (Fragment × List Fragment)}
    {classes : List String}
    (hfound : p.FoundFrom keyRepo parts) (hclasses : ∀ n ∈ classes, n ≠ "")
    (hplain : ∀ x ∈ parts, '=' ∉ (keyAttribute p.registry x.1 x.2).toList) (structPrefix : String) :
    p.renderParts (parts.map (toImm p.registry)) keyRepo (",".intercalate classes) structPrefix =
      some (",".intercalate (classes ++ parts.map p.immClassName), (parts.getLast?.map fun x =>
        (p.theKeyHolder.getMOMRepo (momKey p.registry x.1 x.2)).momPrefix).getD structPrefix) := by
  induction parts generalizing keyRepo classes structPrefix with
  | nil => simp [renderParts]
  | cons x parts ih =>
    have hkey := (toImm_cut (hplain x List.mem_cons_self)).1
    have hclasses' : ∀ n ∈ classes ++ [p.immClassName x], n ≠ "" := by
      intro n hn
      rcases List.mem_append.mp hn with hn | hn
      · exact hclasses n hn
      · rw [List.mem_singleton.mp hn]
        exact immClassName_ne x
    rw [List.map_cons, renderParts, hkey, renderImmClassName_eq hfound]
    dsimp only [Option.bind_eq_bind, Option.bind_some]
    rw [← intercalate_concat hclasses, ih hfound.2.2 hclasses' fun y hy => hplain y (List.mem_cons_of_mem x hy)]
    simp only [List.append_assoc, List.singleton_append, List.map_cons]
    cases parts with
    | nil => rfl
    | cons y parts => rw [List.getLast?_cons_cons]; rfl

theorem partsFromLast_of_ne {parts : List String} (h : ∀ s ∈ parts, s ≠ "") : partsFromLast parts = parts := by
  induction parts with
  | nil => rfl
  | cons s rest ih =>
    cases rest with
    | nil => rfl
    | cons t rest =>
      have hrest : t :: rest ≠ [""] := by
        intro heq
        exact h t (by simp) (List.cons.inj heq).1
      rw [partsFromLast, if_neg hrest, ih fun u hu => h u (List.mem_cons_of_mem s hu)]
      simp

theorem toImm_ne {g : Registry} (x : Fragment × List Fragment) : toImm g x ≠ "" := by
  intro h
  have hmem : '=' ∈ (toImm g x).toList := by simp [toImm]
  rw [h] at hmem
  exact absurd hmem (by decide)

theorem convertToImmPath_eq (h : MockOf d mocPath) (hfound : p.FoundAgain d) :
    p.convertToImmPath mocPath = (",".intercalate (p.immClasses d), p.lastPrefix d) := by
  have hparts : ∀ s ∈ (d.translated p.registry).map (toImm p.registry), s ≠ "" := by
    intro s hs
    obtain ⟨x, -, rfl⟩ := List.mem_map.mp hs
    exact toImm_ne x
  have hcomma : ∀ x ∈ d.translated p.registry, ',' ∉ (toImm p.registry x).toList := by
    intro x hx
    exact toImm_chars (hfound.plain x hx).2
  have hnil : (d.translated p.registry).map (toImm p.registry) ≠ [] := by
    simpa using d.translated_ne_nil
  have hsplit : ((d.immName p.registry).toList.splitOn ',').map String.ofList =
      (d.translated p.registry).map (toImm p.registry) := by
    rw [splitOn_immName hcomma, List.map_map]
    simp
  have hname : d.immName p.registry ≠ "" := by
    rw [MoName.immName, Ne, intercalate_eq_empty_iff hparts]
    exact hnil
  have hplain : ∀ x ∈ (d.translated p.registry).reverse, '=' ∉ (keyAttribute p.registry x.1 x.2).toList := by
    intro x hx
    exact (hfound.plain x (List.mem_reverse.mp hx)).1
  have hempty : ∀ n ∈ ([] : List String), n ≠ "" := by simp
  have hrender := renderParts_eq hfound.found hempty hplain ""
  unfold convertToImmPath
  rw [getMockImmDn_eq h hfound, if_neg hname, hsplit, partsFromLast_of_ne (by simpa using hparts),
    ← List.map_reverse]
  rw [String.intercalate_nil] at hrender
  rw [hrender, List.nil_append, List.getLast?_reverse]
  rfl

/-! ## What the names in a path are made of -/

theorem getMOMRepo_plain {holder : OamSAKeyAttributeRepository} (h : holder.PlainMoms) (searchKey : String) :
    (holder.getMOMRepo searchKey).Plain := by
  unfold OamSAKeyAttributeRepository.getMOMRepo
  cases hm : get? searchKey holder.momOamSAKeyMOMRepoMAP with
  | none => exact h.empty
  | some m => exact h.moms (searchKey, m) (mem_of_get? hm)

theorem getMOMRepoImmKey_plain {holder : OamSAKeyAttributeRepository} (h : holder.PlainMoms)
    (immKeyAttribute : String) :
    (holder.getMOMRepoImmKey immKeyAttribute).Plain := by
  unfold OamSAKeyAttributeRepository.getMOMRepoImmKey
  split
  · exact getMOMRepo_plain h _
  · exact h.empty

section
variable {m : KeyMOMRepo} {c : Char}

theorem momPrefix_plain (h : m.Plain) (hc : c ∈ [',', ';']) : c ∉ m.momPrefix.toList := by
  unfold KeyMOMRepo.momPrefix
  split
  · exact (h c hc).1
  · simp

theorem getClassName_plain (h : m.Plain) (hc : c ∈ [',', ';']) (keyAttribute : String) :
    c ∉ (m.getClassNameForKeyAttribute keyAttribute).toList := by
  unfold KeyMOMRepo.getClassNameForKeyAttribute
  cases hclass : get? keyAttribute m.classNameMap with
  | none => simp
  | some name => exact (h c hc).2 (keyAttribute, name) (mem_of_get? hclass)

end

section
variable {keyRepo : Option KeyMOMRepo} {immFragment : String} {out : String × String × KeyMOMRepo}

theorem renderImmClassName_plain (h : p.theKeyHolder.PlainMoms) (hrepo : ∀ m ∈ keyRepo, m.Plain)
    (hout : p.renderImmClassName immFragment keyRepo = some out) :
    out.2.2.Plain ∧ out.1 = out.2.2.momPrefix ∧ out.2.1 ≠ "" ∧ ∀ c ∈ [',', ';'], c ∉ out.2.1.toList := by
  have hspec (m : KeyMOMRepo) (hm : m.Plain)
      (hfound : (if m.getClassNameForKeyAttribute immFragment = "" then none
        else some (m.momPrefix, m.momPrefix ++ m.getClassNameForKeyAttribute immFragment, m)) = some out) :
      out.2.2.Plain ∧ out.1 = out.2.2.momPrefix ∧ out.2.1 ≠ "" ∧ ∀ c ∈ [',', ';'], c ∉ out.2.1.toList := by
    split at hfound <;> rename_i hclass
    · cases hfound
    · obtain rfl := Option.some.inj hfound
      refine ⟨hm, rfl, by simp [hclass], fun c hc hmem => ?_⟩
      rw [String.toList_append] at hmem
      rcases List.mem_append.mp hmem with hmem | hmem
      · exact momPrefix_plain hm hc hmem
      · exact getClassName_plain hm hc immFragment hmem
  have himm := getMOMRepoImmKey_plain h immFragment
  unfold renderImmClassName at hout
  cases keyRepo with
  | none => exact hspec _ himm hout
  | some m =>
    dsimp only at hout
    by_cases hclass : m.getClassNameForKeyAttribute immFragment = ""
    · rw [if_pos hclass] at hout
      exact hspec _ himm hout
    · rw [if_neg hclass] at hout
      exact hspec m (hrepo m rfl) hout

theorem renderParts_plain (h : p.theKeyHolder.PlainMoms) {parts : List String} (hrepo : ∀ m ∈ keyRepo, m.Plain)
    {immPath structPrefix : String} (hpath : ';' ∉ immPath.toList) (hhead : ∀ c ∈ [',', ';'],
      c ∉ structPrefix.toList)
    {result : String × String} (hresult : p.renderParts parts keyRepo immPath structPrefix = some result) :
    ';' ∉ result.1.toList ∧ ∀ c ∈ [',', ';'], c ∉ result.2.toList := by
  induction parts generalizing keyRepo immPath structPrefix with
  | nil =>
    obtain rfl := Option.some.inj hresult
    exact ⟨hpath, hhead⟩
  | cons part parts ih =>
    rw [renderParts] at hresult
    obtain ⟨out, hout, hrest⟩ := Option.bind_eq_some_iff.mp hresult
    obtain ⟨hplain, hstruct, -, hclass⟩ := renderImmClassName_plain h hrepo hout
    refine ih (by simpa using hplain) ?_ ?_ hrest
    · rw [String.toList_append, List.mem_append, not_or]
      refine ⟨?_, hclass ';' (by simp)⟩
      split
      · simp
      · simpa using hpath
    · intro c hc
      rw [hstruct]
      exact momPrefix_plain hplain hc

end

theorem convertToImmPath_plain (h : p.theKeyHolder.PlainMoms) (mocPath : String) :
    ';' ∉ (p.convertToImmPath mocPath).1.toList ∧ ∀ c ∈ [',', ';'], c ∉ (p.convertToImmPath mocPath).2.toList := by
  unfold convertToImmPath
  dsimp only
  split
  · simp
  · cases hrender : p.renderParts (partsFromLast (((p.getMockImmDn mocPath).toList.splitOn ',').map
        String.ofList).reverse) none "" "" with
    | none => simp
    | some result => exact renderParts_plain h (by simp) (by simp) (by simp) hrender

end Repositories

end ComSA.Translator
