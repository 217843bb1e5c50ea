import Mathlib.Data.List.TakeWhile
import ComSA.Lib.Resume
import ComSA.Motransaction.Commit
import ComSA.Motransaction.ModifiedRuns

/-!
# Iterating over children

`getImmNextMo` first gives the children that the cache holds, taking up the walk over the
map behind the name that it gave last, and then what a search in IMM finds. Errors of a
search that has begun are left out. What the search finds is known from its start, since
the objects in IMM do not change before the transaction is committed.
-/

namespace ComSA

open Forest ModifiedObjects

/-! ## Names -/

/-- What follows the first `c`, or everything where there is none. -/
def afterFirst (c : Char) (l : List Char) : List Char :=
  match l.dropWhile (· ≠ c) with
  | [] => l
  | _ :: behind => behind

/-- What follows the last `c`, or everything where there is none. -/
def afterLast (c : Char) (l : List Char) : List Char := (l.reverse.takeWhile (· ≠ c)).reverse

def beforeComma (l : List Char) : List Char := l.takeWhile (· ≠ ',')

/-- An object that the search in IMM finds, named after a key attribute. -/
structure ImmChild where
  keyAttribute : String
  key : String
  above : String
  plain : '=' ∉ keyAttribute.toList ∧ ',' ∉ keyAttribute.toList

namespace ImmChild

def rdn (o : ImmChild) : String := o.keyAttribute ++ "=" ++ o.key

def name (o : ImmChild) : String := o.rdn ++ if o.above = "" then "" else "," ++ o.above

end ImmChild

structure Child where
  part : String
  key : String
  deriving DecidableEq

/-! ## The iterator -/

structure IterEnv where
  tr : Translator
  /-- `ConvertImmNameFragmentTo3GPPNameFragmentWoMomPre`, of a name fragment and the whole name. -/
  fragment : String → String → String

def parentDn (root : String) : List String := if root = "" then [] else splitDn root

structure BridgeImmIterator where
  root : String
  className : String
  lastCacheObj : String
  /-- What the search has not given yet, where there is one. -/
  search : Option (List ImmChild)

/-- An object of the class that a walk over the children of the entry gives, if it is not deleted. -/
def isOfClass (theObjectClass : String) (entry : ModifiedEntry) (name : String) : Bool :=
  match entry.2.find name with
  | some child => child.1.object.className = theObjectClass && child.1.object.kind ≠ .noKind
  | none => false

def getNextChildObject (theObjectList : List String) (theObjectClass thePreviousSibling : String) (c : Cache) :
    String :=
  match descend theObjectList c.modified with
  | none => ""
  | some entry =>
    let mapiter := rest (if thePreviousSibling = "" then none else some thePreviousSibling) (names entry.2)
    (mapiter.find? fun name =>
      isOfClass theObjectClass entry name && !c.isDeleted (theObjectList ++ [name])).getD ""

section
variable (env : IterEnv)

def searchedPart (o : ImmChild) : String :=
  env.fragment (String.ofList (beforeComma o.name.toList)) o.name

/-- What is between the first `=` and the first `,` of the name. The key attribute has no `,`. -/
def searchedKey (o : ImmChild) : String :=
  String.ofList (beforeComma (afterFirst '=' o.name.toList))

/-- The child that the cache or IMM has next, with the key that is returned for it. -/
def nextChild (c : Cache) (biip : BridgeImmIterator) : Option Child × BridgeImmIterator :=
  let theObjectList := splitDn biip.root
  let theSibling := getNextChildObject theObjectList biip.className biip.lastCacheObj c
  if theSibling ≠ "" then
    (some ⟨theSibling, String.ofList (afterLast '=' theSibling.toList)⟩,
      { biip with lastCacheObj := theSibling })
  else
    match biip.search with
    | none => (none, biip)
    | some found =>
      match found.dropWhile fun o => c.isDeleted (theObjectList ++ [searchedPart env o]) with
      | [] => (none, { biip with search := some [] })
      | o :: found => (some ⟨searchedPart env o, searchedKey o⟩, { biip with search := some found })

def getImmNextMo (c : Cache) (biip : BridgeImmIterator) : Option String × BridgeImmIterator :=
  let r := nextChild env c biip
  (r.1.map Child.key, r.2)

inductive SearchInit where
  | ok (found : List ImmChild)
  | notExist
  | error

def SearchInit.found : SearchInit → List ImmChild
  | ok found => found
  | _ => []

def getImmMoIterator (dn className : String) (immErr : SearchInit) (c : Cache) : MafReturn × BridgeImmIterator :=
  let biip : BridgeImmIterator :=
    { root := dn
      className := env.tr.translateClassName (parentDn dn) className
      lastCacheObj := ""
      search := none }
  match immErr with
  | .ok found => (.ok, { biip with search := some found })
  | .notExist => if c.isInCache (splitDn dn) then (.ok, biip) else (.notExist, biip)
  | .error => (.failure, biip)

def countLoop (c : Cache) : Nat → BridgeImmIterator → Nat → Option Nat
  | 0, _, _ => none
  | fuel + 1, it, result =>
    match getImmNextMo env c it with
    | (none, _) => some result
    | (some _, it) => countLoop c fuel it (result + 1)

end

/-! ## What there is to be given -/

section
variable (env : IterEnv) (c : Cache)

/-- The children of the class below an object that the cache holds, in the order of the map. -/
def cachedParts (dn : List String) (theObjectClass : String) : List String :=
  match descend dn c.modified with
  | none => []
  | some entry => (names entry.2).filter fun name =>
      isOfClass theObjectClass entry name && !c.isDeleted (dn ++ [name])

def ImmChild.part (o : ImmChild) : String := env.fragment o.rdn o.name

/-- The existing children of the class: those that the cache holds, and those of IMM that are not deleted. -/
def existingChildren (root theObjectClass : String) (found : List ImmChild) : List Child :=
  let cached := cachedParts c (parentDn root) theObjectClass
  cached.map (fun part => ⟨part, String.ofList (afterFirst '=' part.toList)⟩) ++
    (found.filter fun o => !c.isDeleted (parentDn root ++ [o.part env]) && o.part env ∉ cached).map
      fun o => ⟨o.part env, o.key⟩

def cachedLeft (biip : BridgeImmIterator) : List String :=
  match descend (splitDn biip.root) c.modified with
  | none => []
  | some entry =>
    (rest (if biip.lastCacheObj = "" then none else some biip.lastCacheObj) (names entry.2)).filter fun name =>
      isOfClass biip.className entry name && !c.isDeleted (splitDn biip.root ++ [name])

def immLeft (biip : BridgeImmIterator) : List ImmChild :=
  (biip.search.getD []).filter fun o => !c.isDeleted (splitDn biip.root ++ [searchedPart env o])

def left (biip : BridgeImmIterator) : List Child :=
  (cachedLeft c biip).map (fun part => ⟨part, String.ofList (afterLast '=' part.toList)⟩) ++
    (immLeft env c biip).map fun o => ⟨searchedPart env o, searchedKey o⟩

end

/-! ## One call -/

section
variable {env : IterEnv} {c : Cache} {biip : BridgeImmIterator}

theorem getNextChildObject_eq :
    getNextChildObject (splitDn biip.root) biip.className biip.lastCacheObj c =
      (cachedLeft c biip).head?.getD "" := by
  unfold getNextChildObject cachedLeft
  cases descend (splitDn biip.root) c.modified with
  | none => rfl
  | some entry =>
    dsimp only
    rw [List.head?_filter]

theorem cachedLeft_next {x : String} {xs : List String} (hunique : Unique c.modified.2)
    (hleft : cachedLeft c biip = x :: xs) (hx : x ≠ "") :
    cachedLeft c { biip with lastCacheObj := x } = xs := by
  unfold cachedLeft at hleft ⊢
  cases hentry : descend (splitDn biip.root) c.modified with
  | none =>
    rw [hentry] at hleft
    cases hleft
  | some entry =>
    rw [hentry] at hleft
    dsimp only at hleft ⊢
    rw [if_neg hx]
    have hfind := congrArg List.head? hleft
    rw [List.head?_filter, List.head?_cons] at hfind
    have hnodup := (hunique.descend hentry).nodup_names
    have := filter_rest_of_find hnodup hfind
    rw [hleft, List.cons.injEq] at this
    exact this.2.symm

theorem filter_not_of_dropWhile {α : Type} (p : α → Bool) (l : List α) :
    l.filter (fun a => !p a) =
      match l.dropWhile p with
      | [] => []
      | x :: xs => x :: xs.filter fun a => !p a := by
  induction l with
  | nil => rfl
  | cons a l ih =>
    rw [List.dropWhile_cons, List.filter_cons]
    cases ha : p a with
    | true => simpa using ih
    | false => simp

theorem nextChild_cached {x : String}
    (hnext : getNextChildObject (splitDn biip.root) biip.className biip.lastCacheObj c = x) (hx : x ≠ "") :
    nextChild env c biip =
      (some ⟨x, String.ofList (afterLast '=' x.toList)⟩, { biip with lastCacheObj := x }) := by
  unfold nextChild
  dsimp only
  rw [hnext, if_pos hx]

theorem nextChild_imm
    (hnext : getNextChildObject (splitDn biip.root) biip.className biip.lastCacheObj c = "") :
    nextChild env c biip =
      match biip.search with
      | none => (none, biip)
      | some found =>
        match found.dropWhile fun o => c.isDeleted (splitDn biip.root ++ [searchedPart env o]) with
        | [] => (none, { biip with search := some [] })
        | o :: found => (some ⟨searchedPart env o, searchedKey o⟩, { biip with search := some found }) := by
  unfold nextChild
  dsimp only
  rw [hnext, if_neg (by simp)]

variable (env) in
theorem nextChild_spec (hunique : Unique c.modified.2) (hne : "" ∉ cachedLeft c biip) :
    (nextChild env c biip).1 = (left env c biip).head? ∧
      left env c (nextChild env c biip).2 = (left env c biip).tail ∧
      cachedLeft c (nextChild env c biip).2 = (cachedLeft c biip).tail ∧
      (nextChild env c biip).2.root = biip.root ∧ (nextChild env c biip).2.className = biip.className := by
  have hnext := @getNextChildObject_eq c biip
  cases hcached : cachedLeft c biip with
  | cons x xs =>
    rw [hcached, List.head?_cons, Option.getD_some] at hnext
    have hx : x ≠ "" := by
      rintro rfl
      exact hne (hcached ▸ List.mem_cons_self)
    have hafter := cachedLeft_next hunique hcached hx
    rw [nextChild_cached hnext hx]
    unfold left
    dsimp only
    rw [hafter, hcached]
    exact ⟨rfl, rfl, rfl, rfl, rfl⟩
  | nil =>
    rw [hcached, List.head?_nil, Option.getD_none] at hnext
    rw [nextChild_imm hnext]
    have himm := filter_not_of_dropWhile
      (fun o => c.isDeleted (splitDn biip.root ++ [searchedPart env o])) (biip.search.getD [])
    change immLeft env c biip = _ at himm
    unfold left
    rw [himm, hcached]
    cases hsearch : biip.search with
    | none =>
      dsimp only
      rw [hcached, himm, hsearch]
      exact ⟨rfl, rfl, rfl, rfl, rfl⟩
    | some found =>
      have hkeep : ∀ l, cachedLeft c { biip with search := some l } = [] := fun _ => hcached
      dsimp only [Option.getD_some]
      cases hrest : found.dropWhile fun o => c.isDeleted (splitDn biip.root ++ [searchedPart env o]) with
      | nil =>
        dsimp only
        rw [hkeep]
        exact ⟨rfl, rfl, rfl, rfl, rfl⟩
      | cons o os =>
        dsimp only
        rw [hkeep]
        exact ⟨rfl, rfl, rfl, rfl, rfl⟩

end

/-! ## Deleting a child -/

structure TakesChild (dn : List String) (part : String) (c c' : Cache) : Prop where
  unique : Unique c'.modified.2
  deleted : ∀ q, q ≠ part → c'.isDeleted (dn ++ [q]) = c.isDeleted (dn ++ [q])
  children : descend dn c'.modified = none ∧ descend dn c.modified = none ∨
    ∃ entry entry', descend dn c.modified = some entry ∧ descend dn c'.modified = some entry' ∧
      names entry'.2 = (names entry.2).filter (· ≠ part) ∧
      ∀ q, q ≠ part → entry'.2.find q = entry.2.find q

theorem names_erase (k : String) (t : ModifiedMap) : names (t.erase k) = (names t).filter (· ≠ k) := by
  induction t with
  | nil => rfl
  | node k' a b r _ ih =>
    rw [erase, names]
    by_cases hk : k = k'
    · subst hk
      rw [if_pos rfl, ih]
      simp
    · rw [if_neg hk, names, ih]
      simp [Ne.symm hk]

section
variable {tr : Translator} {c : Cache} {dn : List String} {part : String}

theorem children_removeCreated (hunique : Unique c.modified.2) (hdn : dn ≠ []) :
    ∃ wasNew modified', removeObject (dn ++ [part]) c.modified = some (wasNew, modified') ∧
      Unique modified'.2 ∧
      (descend dn modified' = none ∧ descend dn c.modified = none ∨
        ∃ entry entry', descend dn c.modified = some entry ∧ descend dn modified' = some entry' ∧
          names entry'.2 = (names entry.2).filter (· ≠ part) ∧
          ∀ q, q ≠ part → entry'.2.find q = entry.2.find q) := by
  cases ho : objectAt (dn ++ [part]) c.modified with
  | none =>
    refine ⟨false, c.modified, removeObject_of_none ho, hunique, ?_⟩
    cases hentry : descend dn c.modified with
    | none => exact Or.inl ⟨rfl, rfl⟩
    | some entry =>
      refine Or.inr ⟨entry, entry, rfl, rfl, ?_, fun _ _ => rfl⟩
      have hfind : entry.2.find part = none := by
        rw [objectAt, descend_append, hentry, Option.bind_some, descend_cons, Option.map_eq_none_iff] at ho
        cases hfound : entry.2.find part with
        | none => rfl
        | some child =>
          rw [hfound] at ho
          cases ho
      refine (List.filter_eq_self.mpr fun q hq => ?_).symm
      rw [decide_eq_true_iff]
      rintro rfl
      obtain ⟨child, hchild⟩ := mem_names.mp hq
      rw [hfind] at hchild
      cases hchild
  | some o =>
    obtain ⟨entry, hentry⟩ : ∃ entry, descend dn c.modified = some entry := by
      have habove := objectAt_of_isPrefix (List.prefix_append dn [part]) (by rw [ho]; rfl)
      rwa [objectAt, Option.isSome_map, Option.isSome_iff_exists] at habove
    refine ⟨_, _, removeObject_of_some hdn ho, Unique.changeBelow (fun e he => he.erase part) hunique,
      Or.inr ⟨entry, dropName part entry, hentry, ?_, names_erase part entry.2,
        fun q hq => find_erase_ne hq entry.2⟩⟩
    have := descend_changeBelow (f := dropName part) hentry []
    rwa [List.append_nil] at this

theorem deleteImmMo_child (hunique : Unique c.modified.2) (hdn : dn ≠ [])
    (hexists : c.isDeleted (dn ++ [part]) = false) :
    ∃ ret c', deleteImmMo tr (dn ++ [part]) c = some (ret, c') ∧ (c' = c ∨ TakesChild dn part c c') := by
  unfold deleteImmMo
  by_cases hvalid : tr.isDnListValid (dn ++ [part]) "" = true
  swap
  · exact ⟨_, _, by rw [if_pos (by simpa using hvalid)], Or.inl rfl⟩
  rw [if_neg (by simpa using hvalid)]
  obtain ⟨wasNew, modified', hremove, hunique', hchildren⟩ := @children_removeCreated _ _ part hunique hdn
  unfold Cache.removeCreatedObject
  rw [hremove]
  cases wasNew with
  | true => exact ⟨_, _, rfl, Or.inr ⟨hunique', fun _ _ => rfl, hchildren⟩⟩
  | false =>
    refine ⟨_, _, rfl, Or.inr ⟨hunique', fun q hq => ?_, hchildren⟩⟩
    have hnot : ¬ Covers (DeletedObjects.active c.deleted) (dn ++ [part]) := by
      rw [← c.isDeleted_iff, hexists]
      decide
    have hcovers := DeletedObjects.covers_insert_of_ok (p := dn ++ [part]) (by simp)
      (fun hok => hnot ⟨_, hok.1.1, List.prefix_rfl⟩) (tr.mo2ImmDn (dn ++ [part])) (dn ++ [q])
    rw [Bool.eq_iff_iff, Cache.isDeleted_iff, Cache.isDeleted_iff]
    refine hcovers.trans (or_iff_right fun habove => hq ?_)
    simpa using (habove.eq_of_length (by simp)).symm

end

section
variable {env : IterEnv} {c c' : Cache} {biip : BridgeImmIterator} {part : String}

theorem cachedLeft_takes (htakes : TakesChild (splitDn biip.root) part c c')
    (hlast : biip.lastCacheObj = part → cachedLeft c biip = []) (hgiven : part ∉ cachedLeft c biip) :
    cachedLeft c' biip = cachedLeft c biip := by
  rcases htakes.children with ⟨hnone', hnone⟩ | ⟨entry, entry', hentry, hentry', hnames, hfind⟩
  · unfold cachedLeft
    rw [hnone', hnone]
  · have hsame : ∀ q, q ≠ part →
        (isOfClass biip.className entry' q && !c'.isDeleted (splitDn biip.root ++ [q])) =
          (isOfClass biip.className entry q && !c.isDeleted (splitDn biip.root ++ [q])) := by
      intro q hq
      unfold isOfClass
      rw [hfind q hq, htakes.deleted q hq]
    unfold cachedLeft at hlast hgiven ⊢
    rw [hentry] at hlast hgiven ⊢
    rw [hentry']
    dsimp only at hlast hgiven ⊢
    rw [hnames]
    by_cases hpart : biip.lastCacheObj = part
    · rw [hlast hpart]
      split
      · rename_i hempty
        rw [if_pos hempty] at hlast
        have hnil := hlast hpart
        rw [List.filter_eq_nil_iff] at hnil ⊢
        intro q hq
        obtain ⟨hq, hne⟩ := List.mem_filter.mp hq
        rw [decide_eq_true_iff] at hne
        rw [hsame q hne]
        exact hnil q hq
      · rw [hpart]
        have hnot : part ∉ (names entry.2).filter (· ≠ part) := by simp
        rw [rest_some, after_of_not_mem hnot]
        rfl
    · have hne : (if biip.lastCacheObj = "" then none else some biip.lastCacheObj) ≠ some part := by
        split
        · exact fun h => nomatch h
        · exact fun h => hpart (Option.some.inj h)
      rw [rest_filter_ne hne, List.filter_filter]
      refine List.filter_congr fun q hq => ?_
      by_cases hqp : q = part
      · subst hqp
        have hnot : ¬ (isOfClass biip.className entry q && !c.isDeleted (splitDn biip.root ++ [q])) = true :=
          fun h => hgiven (List.mem_filter.mpr ⟨hq, h⟩)
        rw [Bool.not_eq_true] at hnot
        rw [hnot]
        simp
      · rw [hsame q hqp]
        simp [hqp]

variable (env) in
theorem immLeft_takes (htakes : TakesChild (splitDn biip.root) part c c')
    (hexists : c.isDeleted (splitDn biip.root ++ [part]) = false)
    (hgiven : part ∉ (immLeft env c biip).map (searchedPart env)) :
    immLeft env c' biip = immLeft env c biip := by
  unfold immLeft at hgiven ⊢
  refine List.filter_congr fun o ho => ?_
  by_cases hpart : searchedPart env o = part
  · refine absurd ?_ hgiven
    rw [List.mem_map]
    refine ⟨o, List.mem_filter.mpr ⟨ho, ?_⟩, hpart⟩
    rw [hpart, hexists]
    rfl
  · rw [htakes.deleted _ hpart]

end

/-! ## Runs -/

inductive IterCall where
  | getImmNextMo
  | deleteImmMo (part : String)

/-- The cache, the iterator, and the children that were given so far. -/
structure IterState where
  cache : Cache
  biip : BridgeImmIterator
  given : List Child

namespace IterCall

/-- There is no state after a call that is undefined. -/
def step (env : IterEnv) (s : Option IterState) : IterCall → Option IterState
  | getImmNextMo => s.map fun s =>
    let r := nextChild env s.cache s.biip
    { s with biip := r.2, given := s.given ++ r.1.toList }
  | deleteImmMo part => s.bind fun s =>
    (ComSA.deleteImmMo env.tr (parentDn s.biip.root ++ [part]) s.cache).map fun r => { s with cache := r.2 }

def Legal (env : IterEnv) (found : List ImmChild) (s : Option IterState) : IterCall → Prop
  | getImmNextMo => True
  | deleteImmMo part => ∀ s', s = some s' → part ∈ s'.given.map Child.part ∧
      part ∈ (existingChildren env s'.cache s'.biip.root s'.biip.className found).map Child.part

/-- The last child that the cache gave is deleted only when the cache has no other left to give, and no topmost
object is deleted. -/
def Fine (s : Option IterState) : IterCall → Prop
  | getImmNextMo => True
  | deleteImmMo part => ∀ s', s = some s' → s'.biip.root ≠ "" ∧
      (s'.biip.lastCacheObj = part → cachedLeft s'.cache s'.biip = [])

end IterCall

/-- The children that the code can tell from each other and name: no topmost ones that the cache holds or that
were deleted, no keys with a `=` in the cache or a `,` in IMM, and none that both have. -/
structure Nameable (env : IterEnv) (c : Cache) (root theObjectClass : String) (found : List ImmChild) : Prop where
  top : root = "" → c = {}
  cached : ∀ part ∈ cachedParts c (parentDn root) theObjectClass,
    part ≠ "" ∧ '=' ∉ afterFirst '=' part.toList ∧ ∀ o ∈ found, o.part env ≠ part
  searched : ∀ o ∈ found, ',' ∉ o.key.toList

/-- Nothing undefined has been done, and where no child is left to give, each that existed at the beginning was
given once. -/
def GivesAll (env : IterEnv) (c : Cache) (biip : BridgeImmIterator) (found : List ImmChild)
    (calls : List IterCall) : Prop :=
  ∃ s, calls.foldl (IterCall.step env) (some ⟨c, biip, []⟩) = some s ∧
    ((getImmNextMo env s.cache s.biip).1 = none →
      s.given.Perm (existingChildren env c biip.root biip.className found))

def countImmMoChildren (env : IterEnv) (dn className : String) (immErr : SearchInit) (c : Cache) (fuel : Nat) :
    MafReturn × Option Nat :=
  match getImmMoIterator env dn className immErr c with
  | (.ok, it) => (.ok, countLoop env c fuel it 0)
  | (e, _) => (e, none)

/-! ### The start -/

section
variable {env : IterEnv} {c : Cache} {biip : BridgeImmIterator}

theorem afterLast_eq {ch : Char} {l : List Char} (h : ch ∉ afterFirst ch l) :
    afterLast ch l = afterFirst ch l := by
  unfold afterFirst at h ⊢
  unfold afterLast
  have hsplit := List.takeWhile_append_dropWhile (p := (· ≠ ch)) (l := l)
  cases hdrop : l.dropWhile (· ≠ ch) with
  | nil =>
    rw [hdrop] at h
    dsimp only at h ⊢
    rw [List.takeWhile_eq_self_iff.mpr]
    · exact List.reverse_reverse l
    · intro x hx
      rw [decide_eq_true_iff]
      rintro rfl
      exact h (List.mem_reverse.mp hx)
  | cons x behind =>
    rw [hdrop] at h hsplit
    dsimp only at h ⊢
    have hx : x = ch := by
      have := List.head?_dropWhile_not (· ≠ ch) l
      rw [hdrop] at this
      simpa using this
    subst hx
    have hbehind : ∀ y ∈ behind.reverse, decide (y ≠ x) = true := by
      intro y hy
      rw [decide_eq_true_iff]
      rintro rfl
      exact h (List.mem_reverse.mp hy)
    rw [← hsplit, List.reverse_append, List.reverse_cons, List.append_assoc,
      List.takeWhile_append_of_pos hbehind]
    simp

theorem beforeComma_append {l : List Char} (h : ',' ∉ l) (behind : List Char) :
    beforeComma (l ++ ',' :: behind) = l := by
  unfold beforeComma
  rw [List.takeWhile_append_of_pos]
  · simp
  · intro x hx
    rw [decide_eq_true_iff]
    rintro rfl
    exact h hx

theorem beforeComma_of_not_mem {l : List Char} (h : ',' ∉ l) : beforeComma l = l := by
  refine List.takeWhile_eq_self_iff.mpr fun x hx => ?_
  rw [decide_eq_true_iff]
  rintro rfl
  exact h hx

namespace ImmChild
variable {o : ImmChild}

theorem name_cases (o : ImmChild) :
    o.name.toList = o.rdn.toList ∨ ∃ behind, o.name.toList = o.rdn.toList ++ ',' :: behind := by
  unfold name
  split
  · left
    simp
  · right
    exact ⟨o.above.toList, by simp⟩

theorem rdn_toList (o : ImmChild) : o.rdn.toList = o.keyAttribute.toList ++ '=' :: o.key.toList := by
  unfold rdn
  simp

theorem searchedPart_eq (h : ',' ∉ o.key.toList) : searchedPart env o = o.part env := by
  have hrdn : ',' ∉ o.rdn.toList := by
    rw [rdn_toList]
    simp [h, o.plain.2]
  have hcut : beforeComma o.name.toList = o.rdn.toList := by
    rcases name_cases o with hname | ⟨behind, hname⟩
    · rw [hname, beforeComma_of_not_mem hrdn]
    · rw [hname, beforeComma_append hrdn]
  unfold searchedPart part
  rw [hcut, String.ofList_toList]

theorem afterFirst_append {l : List Char} (h : '=' ∉ l) (behind : List Char) :
    afterFirst '=' (l ++ '=' :: behind) = behind := by
  unfold afterFirst
  rw [List.dropWhile_append_of_pos]
  · simp
  · intro x hx
    rw [decide_eq_true_iff]
    rintro rfl
    exact h hx

theorem searchedKey_eq (h : ',' ∉ o.key.toList) : searchedKey o = o.key := by
  unfold searchedKey
  have hcut : beforeComma (afterFirst '=' o.name.toList) = o.key.toList := by
    rcases name_cases o with hname | ⟨behind, hname⟩
    · rw [hname, rdn_toList, afterFirst_append o.plain.1, beforeComma_of_not_mem h]
    · rw [hname, rdn_toList, List.append_assoc, List.cons_append, afterFirst_append o.plain.1,
        beforeComma_append h]
  rw [hcut, String.ofList_toList]

end ImmChild

theorem cachedParts_nodup (hunique : Unique c.modified.2) (dn : List String) (theObjectClass : String) :
    (cachedParts c dn theObjectClass).Nodup := by
  unfold cachedParts
  cases hentry : descend dn c.modified with
  | none => exact List.nodup_nil
  | some entry => exact (hunique.descend hentry).nodup_names.filter _

theorem cachedLeft_start {root theObjectClass : String} {search : Option (List ImmChild)}
    (htop : root = "" → c = {}) :
    cachedLeft c ⟨root, theObjectClass, "", search⟩ = cachedParts c (parentDn root) theObjectClass := by
  by_cases hroot : root = ""
  · obtain rfl := htop hroot
    subst hroot
    rfl
  · unfold cachedLeft cachedParts parentDn
    rw [if_neg hroot]
    rfl

theorem isDeleted_empty (dn : List String) : Cache.isDeleted dn {} = false := by
  cases dn with
  | nil => rfl
  | cons part rest => rfl

theorem isDeleted_split {root : String} (htop : root = "" → c = {}) (part : String) :
    c.isDeleted (splitDn root ++ [part]) = c.isDeleted (parentDn root ++ [part]) := by
  unfold parentDn
  split <;> rename_i hroot
  · rw [htop hroot, isDeleted_empty, isDeleted_empty]
  · rfl

theorem left_start {root theObjectClass : String} {search : Option (List ImmChild)} {found : List ImmChild}
    (hsearch : search.getD [] = found) (hnames : Nameable env c root theObjectClass found) :
    left env c ⟨root, theObjectClass, "", search⟩ = existingChildren env c root theObjectClass found := by
  have himm : immLeft env c ⟨root, theObjectClass, "", search⟩ = found.filter fun o =>
      !c.isDeleted (parentDn root ++ [o.part env]) &&
        o.part env ∉ cachedParts c (parentDn root) theObjectClass := by
    unfold immLeft
    dsimp only
    rw [hsearch]
    refine List.filter_congr fun o ho => ?_
    have hother : o.part env ∉ cachedParts c (parentDn root) theObjectClass :=
      fun hmem => (hnames.cached _ hmem).2.2 o ho rfl
    rw [isDeleted_split hnames.top, ImmChild.searchedPart_eq (hnames.searched o ho)]
    simp [hother]
  unfold left existingChildren
  dsimp only
  rw [himm, cachedLeft_start hnames.top]
  congr 1
  · refine List.map_congr_left fun part hpart => ?_
    rw [afterLast_eq (hnames.cached part hpart).2.1]
  · refine List.map_congr_left fun o ho => ?_
    have hcomma := hnames.searched o (List.mem_of_mem_filter ho)
    rw [ImmChild.searchedPart_eq hcomma, ImmChild.searchedKey_eq hcomma]

theorem existing_nodup {root theObjectClass : String} {found : List ImmChild} (hunique : Unique c.modified.2)
    (honce : (found.map (ImmChild.part env)).Nodup) :
    ((existingChildren env c root theObjectClass found).map Child.part).Nodup := by
  unfold existingChildren
  dsimp only
  rw [List.map_append, List.map_map, List.map_map, List.nodup_append]
  refine ⟨?_, ?_, ?_⟩
  · have hid : (Child.part ∘ fun part : String => (⟨part, String.ofList (afterFirst '=' part.toList)⟩ : Child)) =
        id := rfl
    rw [hid, List.map_id]
    exact cachedParts_nodup hunique _ _
  · exact honce.sublist (List.filter_sublist.map (ImmChild.part env))
  · rintro a ha b hb rfl
    obtain ⟨part, hpart, rfl⟩ := List.mem_map.mp ha
    obtain ⟨o, ho, hsame⟩ := List.mem_map.mp hb
    have := (List.mem_filter.mp ho).2
    rw [Bool.and_eq_true, decide_eq_true_iff] at this
    have hsame : o.part env = part := hsame
    exact this.2 (hsame ▸ hpart)

theorem not_deleted_of_existing {root theObjectClass : String} {found : List ImmChild} {part : String}
    (h : part ∈ (existingChildren env c root theObjectClass found).map Child.part) :
    c.isDeleted (parentDn root ++ [part]) = false := by
  unfold existingChildren at h
  dsimp only at h
  rw [List.map_append, List.mem_append, List.map_map, List.map_map] at h
  rcases h with h | h
  · obtain ⟨q, hq, rfl⟩ := List.mem_map.mp h
    unfold cachedParts at hq
    split at hq
    · cases hq
    · have := (List.mem_filter.mp hq).2
      rw [Bool.and_eq_true, Bool.not_eq_true'] at this
      exact this.2
  · obtain ⟨o, ho, rfl⟩ := List.mem_map.mp h
    have := (List.mem_filter.mp ho).2
    rw [Bool.and_eq_true, Bool.not_eq_true'] at this
    exact this.1

/-! ### The calls -/

/-- What the calls of a run keep: what was given and what is left are the children of the beginning. -/
structure IterInv (env : IterEnv) (root theObjectClass : String) (all : List Child) (s : IterState) : Prop where
  unique : Unique s.cache.modified.2
  root : s.biip.root = root
  className : s.biip.className = theObjectClass
  nonempty : "" ∉ cachedLeft s.cache s.biip
  all : all = s.given ++ left env s.cache s.biip

variable {root theObjectClass : String} {found : List ImmChild} {all : List Child} {s : IterState}

theorem IterInv.next (inv : IterInv env root theObjectClass all s) :
    ∃ s', IterCall.getImmNextMo.step env (some s) = some s' ∧ IterInv env root theObjectClass all s' := by
  obtain ⟨hgives, hleft, hcached, hroot, hclass⟩ := nextChild_spec env inv.unique inv.nonempty
  refine ⟨_, rfl, inv.unique, hroot.trans inv.root, hclass.trans inv.className, ?_, ?_⟩
  · dsimp only
    rw [hcached]
    exact fun hmem => inv.nonempty (List.mem_of_mem_tail hmem)
  · dsimp only
    rw [hgives, hleft, List.append_assoc, inv.all]
    cases left env s.cache s.biip <;> rfl

theorem IterInv.delete (inv : IterInv env root theObjectClass all s) (hnodup : (all.map Child.part).Nodup)
    {part : String} (hlegal : (IterCall.deleteImmMo part).Legal env found (some s))
    (hfine : (IterCall.deleteImmMo part).Fine (some s)) :
    ∃ s', (IterCall.deleteImmMo part).step env (some s) = some s' ∧ IterInv env root theObjectClass all s' := by
  obtain ⟨hgiven, hexisting⟩ := hlegal s rfl
  obtain ⟨htop, hlast⟩ := hfine s rfl
  have hexists := not_deleted_of_existing hexisting
  have hdn : parentDn s.biip.root = splitDn s.biip.root := if_neg htop
  rw [hdn] at hexists
  obtain ⟨ret, c', hdelete, hchange⟩ := @deleteImmMo_child env.tr _ _ _ inv.unique (splitDn_ne_nil _) hexists
  have hstep : (IterCall.deleteImmMo part).step env (some s) = some { s with cache := c' } := by
    unfold IterCall.step
    dsimp only [Option.bind_some]
    rw [hdn, hdelete]
    rfl
  refine ⟨_, hstep, ?_⟩
  rcases hchange with rfl | htakes
  · exact inv
  -- the child has been given, so it is not left
  have hnot : part ∉ (left env s.cache s.biip).map Child.part := by
    rw [inv.all, List.map_append, List.nodup_append] at hnodup
    exact fun hmem => hnodup.2.2 part hgiven part hmem rfl
  unfold left at hnot
  rw [List.map_append, List.map_map, List.map_map, List.mem_append, not_or] at hnot
  have hcached : part ∉ cachedLeft s.cache s.biip := by
    intro hmem
    refine hnot.1 (List.mem_map.mpr ⟨part, hmem, rfl⟩)
  have hcachedLeft := cachedLeft_takes htakes hlast hcached
  have himmLeft := immLeft_takes env htakes hexists hnot.2
  refine ⟨htakes.unique, inv.root, inv.className, ?_, ?_⟩
  · dsimp only
    rw [hcachedLeft]
    exact inv.nonempty
  · rw [inv.all]
    unfold left
    dsimp only
    rw [hcachedLeft, himmLeft]

theorem countLoop_eq {fuel : Nat} {result : Nat} (hunique : Unique c.modified.2) (hne : "" ∉ cachedLeft c biip)
    (hfuel : (left env c biip).length < fuel) :
    countLoop env c fuel biip result = some (result + (left env c biip).length) := by
  induction fuel generalizing biip result with
  | zero => omega
  | succ fuel ih =>
    obtain ⟨hgives, hleft, hcached, -, -⟩ := nextChild_spec env hunique hne
    unfold countLoop getImmNextMo
    dsimp only
    generalize nextChild env c biip = r at hgives hleft hcached
    obtain ⟨child, biip'⟩ := r
    dsimp only at hgives hleft hcached ⊢
    cases hcase : left env c biip with
    | nil =>
      rw [hcase] at hgives
      rw [hgives]
      rfl
    | cons x xs =>
      rw [hcase] at hgives hleft hfuel
      rw [hgives]
      dsimp only [List.head?_cons, Option.map_some]
      rw [List.length_cons] at hfuel
      rw [ih (by rw [hcached]; exact fun hmem => hne (List.mem_of_mem_tail hmem))
        (by rw [hleft]; exact Nat.lt_of_succ_lt_succ hfuel), hleft, List.tail_cons, List.length_cons,
        Nat.add_assoc, Nat.add_comm 1]

/-! ### The caches of a transaction -/

theorem treeInv_setInitialAttributes {tr : Translator} (dn : Dn)
    (attributes : List (String × MoAttributeValueContainer)) (ret : MafReturn) (h : TreeInv c.modified) :
    TreeInv (setInitialAttributes tr dn.parts attributes ret c).2.modified := by
  have hset : ∀ (c : Cache) name v, TreeInv c.modified →
      TreeInv (setImmMoAttribute tr dn.parts name v c).2.modified := by
    intro c name v hc
    rw [setImmMoAttribute_eq]
    split
    · exact hc.addNames _ dn
    · exact hc
  induction attributes generalizing c ret with
  | nil => exact h
  | cons a attributes ih =>
    unfold setInitialAttributes
    split
    · have ha := hset c a.1 a.2 h
      split <;> rename_i heq <;> rw [heq] at ha <;> exact ih _ ha
    · exact ih _ h

theorem treeInv_run {tr : Translator} {call : SessionCall} {c' : Cache} {ret : MafReturn}
    (h : TreeInv c.modified) (hrun : call.run tr c = some (ret, c')) : TreeInv c'.modified := by
  cases call with
  | create m =>
    have hcreate : createImmMo tr m c = (ret, c') := Option.some.inj hrun
    have hc' : c' = (createImmMo tr m c).2 := by rw [hcreate]
    rw [hc']
    unfold createImmMo
    split
    · exact h
    split
    · exact h
    refine treeInv_setInitialAttributes ⟨m.dn, m.dn_ne_nil⟩ m.initialAttributes .ok ?_
    unfold recordCreation
    dsimp only [Cache.removeDeletedObject]
    split
    · exact h
    · exact h.addNames _ ⟨m.dn, m.dn_ne_nil⟩
  | delete dn =>
    have hrun : deleteImmMo tr dn.parts c = some (ret, c') := hrun
    unfold deleteImmMo Cache.removeCreatedObject at hrun
    split at hrun
    · cases hrun
      exact h
    cases hremove : removeObject dn.parts c.modified with
    | none =>
      rw [hremove] at hrun
      cases hrun
    | some r =>
      have hr : TreeInv r.2 := h.run (c := .removeObject dn) (by
        change (removeObject dn.parts c.modified).map Prod.snd = some r.2
        rw [hremove]
        rfl)
      rw [hremove] at hrun
      obtain ⟨wasNew, modified'⟩ := r
      cases wasNew <;> cases hrun <;> exact hr
  | set dn attributeName v =>
    have hset : setImmMoAttribute tr dn.parts attributeName v c = (ret, c') := Option.some.inj hrun
    rw [setImmMoAttribute_eq] at hset
    split at hset
    · cases hset
      exact h.addNames _ dn
    · cases hset
      exact h
  | update dn immName attributeName v =>
    rw [SessionCall.run, Cache.updateObjectAttribute] at hrun
    by_cases hdel : c.isDeleted dn.parts = true
    · rw [if_pos hdel] at hrun
      cases hrun
      exact h
    · rw [if_neg hdel] at hrun
      cases hrun
      exact h.addNames _ dn

theorem treeInv_of_session {tr : Translator} {imm : ImmTree} {before : List SessionCall}
    (h : (before.foldl (SessionCall.step tr) (.initial imm)).1 = some c) : TreeInv c.modified := by
  have hinv : ∀ c, (before.foldl (SessionCall.step tr) (.initial imm)).1 = some c → TreeInv c.modified := by
    refine foldl_invariant (I := fun s : SessionState => ∀ c, s.1 = some c → TreeInv c.modified) ?_ ?_ before
    · intro s call hs c' hc'
      unfold SessionCall.step at hc'
      cases hs1 : s.1 with
      | none =>
        rw [hs1] at hc'
        cases hc'
      | some c =>
        rw [hs1, Option.bind_some] at hc'
        cases hrun : call.run tr c with
        | none =>
          rw [hrun] at hc'
          cases hc'
        | some r =>
          obtain ⟨ret, c₂⟩ := r
          rw [hrun] at hc'
          have := treeInv_run (hs c hs1) hrun
          cases ret <;> cases hc' <;> exact this
    · intro c hc
      cases hc
      exact treeInv_empty
  exact hinv c h

/-! ### Runs -/

/-- Each existing child is given once, and their number is counted. -/
def IteratesChildren (env : IterEnv) (c : Cache) (dn className : String) (immErr : SearchInit)
    (it : BridgeImmIterator) (calls : List IterCall) : Prop :=
  GivesAll env c it immErr.found calls ∧
    ∃ enough, ∀ fuel ≥ enough, countImmMoChildren env dn className immErr c fuel =
      (.ok, some (existingChildren env c it.root it.className immErr.found).length)

theorem getImmMoIterator_ok {dn className : String} {immErr : SearchInit} {it : BridgeImmIterator}
    (h : getImmMoIterator env dn className immErr c = (.ok, it)) :
    ∃ search, it = ⟨dn, it.className, "", search⟩ ∧ search.getD [] = immErr.found := by
  unfold getImmMoIterator at h
  cases immErr with
  | ok found =>
    cases h
    exact ⟨some found, rfl, rfl⟩
  | notExist =>
    dsimp only at h
    split at h
    · cases h
      exact ⟨none, rfl, rfl⟩
    · cases h
  | error => cases h

/-- In every transaction: where the children can be told from each other and named, each of them is given once
when no more is deleted between the calls than what the code can go on after. -/
theorem iteratesChildren (env : IterEnv) (imm : ImmTree) (before : List SessionCall) (c : Cache)
    (hreach : (before.foldl (SessionCall.step env.tr) (.initial imm)).1 = some c) (dn className : String)
    (immErr : SearchInit) (honce : (immErr.found.map (ImmChild.part env)).Nodup) (it : BridgeImmIterator)
    (hiter : getImmMoIterator env dn className immErr c = (.ok, it)) (calls : List IterCall)
    (hlegal : Along (IterCall.step env) (IterCall.Legal env immErr.found) (some ⟨c, it, []⟩) calls)
    (hnames : Nameable env c it.root it.className immErr.found)
    (hfine : Along (IterCall.step env) IterCall.Fine (some ⟨c, it, []⟩) calls) :
    IteratesChildren env c dn className immErr it calls := by
  have hunique : Unique c.modified.2 := (treeInv_of_session hreach).unique
  obtain ⟨search, hit, hsearch⟩ := getImmMoIterator_ok hiter
  have hroot : it.root = dn := by rw [hit]
  have hstart : left env c it = existingChildren env c it.root it.className immErr.found := by
    rw [hit]
    exact left_start hsearch (by rw [hit] at hnames; exact hnames)
  have hcached : cachedLeft c it = cachedParts c (parentDn it.root) it.className := by
    rw [hit]
    exact cachedLeft_start (by rw [hit] at hnames; exact hnames.top)
  have hne : "" ∉ cachedLeft c it := by
    rw [hcached]
    exact fun hmem => (hnames.cached _ hmem).1 rfl
  have hnodup := @existing_nodup env c it.root it.className _ hunique honce
  have hall := hstart.symm
  generalize existingChildren env c it.root it.className immErr.found = all at hnodup hall
  constructor
  · have hinv : IterInv env it.root it.className all ⟨c, it, []⟩ := ⟨hunique, rfl, rfl, hne, hall⟩
    have hlast : Throughout (IterCall.step env)
        (fun s => ∃ s', s = some s' ∧ IterInv env it.root it.className all s') (some ⟨c, it, []⟩) calls := by
      refine throughout_of_along (fun s call hs hcall => ?_) ⟨_, rfl, hinv⟩ (hlegal.and hfine)
      obtain ⟨s', rfl, inv⟩ := hs
      cases call with
      | getImmNextMo => exact inv.next
      | deleteImmMo part => exact inv.delete hnodup hcall.1 hcall.2
    obtain ⟨s, hs, inv⟩ := hlast.last
    refine ⟨s, hs, fun hnone => ?_⟩
    have hgives := (nextChild_spec env inv.unique inv.nonempty).1
    unfold getImmNextMo at hnone
    rw [Option.map_eq_none_iff, hgives, List.head?_eq_none_iff] at hnone
    have := inv.all
    rw [hnone, List.append_nil] at this
    rw [hall, hstart] at this
    rw [← this]
  · refine ⟨all.length + 1, fun fuel hfuel => ?_⟩
    unfold countImmMoChildren
    rw [hiter]
    dsimp only
    rw [countLoop_eq hunique hne (by rw [← hall]; exact hfuel), Nat.zero_add, hstart]

end

namespace Sample

def foos : SearchInit := .ok [⟨"fooId", "1", "managedElementId=1", by decide⟩]

def iterEnv : IterEnv :=
  ⟨translator, fun rdn _ => String.ofList ("Foo".toList ++ rdn.toList.dropWhile (· ≠ '='))⟩

def createFoo3 : CreateCall := ⟨["ManagedElement=1"], "Foo", "fooId", "3", []⟩

def created : Cache :=
  ((([.create createFoo2, .create createFoo3] : List SessionCall).foldl (SessionCall.step translator)
    (.initial imm)).1).getD {}

def iterator : BridgeImmIterator := (getImmMoIterator iterEnv "ManagedElement=1" "Foo" foos created).2

end Sample

section
open Sample

/-- The first of the two created objects is deleted after the second was given. -/
theorem iteratesChildren_foos : IteratesChildren iterEnv created "ManagedElement=1" "Foo" foos iterator
    [.getImmNextMo, .getImmNextMo, .deleteImmMo "Foo=2", .getImmNextMo] := by
  refine iteratesChildren iterEnv imm [.create createFoo2, .create createFoo3] created (by decide +kernel)
    "ManagedElement=1" "Foo" foos (by decide) iterator rfl _ ⟨trivial, trivial, fun s hs => ?_, trivial, trivial⟩
    ⟨fun h => absurd h (by decide), by decide +kernel, by decide⟩ ⟨trivial, trivial, fun s hs => ?_, trivial,
      trivial⟩
  · obtain rfl := Option.some.inj hs
    decide +kernel
  · obtain rfl := Option.some.inj hs
    exact ⟨by decide, fun h => absurd h (by decide +kernel)⟩

/-- `Foo=2` is deleted when it is the last one that was given: `Foo=3` is not given any more. -/
theorem not_iteratesChildren : ¬ ∀ (env : IterEnv) (imm : ImmTree) (before : List SessionCall) (c : Cache),
    (before.foldl (SessionCall.step env.tr) (.initial imm)).1 = some c → ∀ (dn className : String)
    (immErr : SearchInit), (immErr.found.map (ImmChild.part env)).Nodup → ∀ it : BridgeImmIterator,
    getImmMoIterator env dn className immErr c = (.ok, it) → ∀ calls : List IterCall,
    Along (IterCall.step env) (IterCall.Legal env immErr.found) (some ⟨c, it, []⟩) calls →
    IteratesChildren env c dn className immErr it calls := by
  intro h
  have hrun := h iterEnv imm [.create createFoo2, .create createFoo3] created (by decide +kernel)
    "ManagedElement=1" "Foo" foos (by decide) iterator rfl
    [.getImmNextMo, .deleteImmMo "Foo=2", .getImmNextMo] ⟨trivial, fun s hs => by
      obtain rfl := Option.some.inj hs
      decide +kernel, trivial, trivial⟩
  obtain ⟨⟨s, hs, hgiven⟩, -⟩ := hrun
  obtain rfl := Option.some.inj hs
  have hlength := (hgiven (by decide +kernel)).length_eq
  revert hlength
  decide +kernel

end

end ComSA
