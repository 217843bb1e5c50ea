import ComSA.Lib.Cascade
import ComSA.Lib.Memory
import ComSA.Lib.Run

/-!
# Attribute containers

The cache keeps the containers that were handed to COM until COM releases them or the transaction ends. They are
modelled with their pointers, in a memory that tells which blocks were freed.
-/

namespace ComSA.AttributeContainers

open Relation

abbrev Addr := Nat

inductive MafOamSpiMoAttributeType where
  | struct
  | string
  | reference
  | other
  deriving DecidableEq, Repr

structure MafMoAttributeValueContainer where
  type : MafOamSpiMoAttributeType
  nrOfValues : Nat
  values : Option Addr
  deriving DecidableEq, Repr

structure MafMoAttributeValueStructMember where
  memberName : Option Addr
  /-- A container. The pointer is only compared with those in the list. -/
  memberValue : Addr
  next : Option Addr
  deriving DecidableEq, Repr

inductive Cell where
  | container (c : MafMoAttributeValueContainer)
  /-- What the values point to: a string, a reference or the first member of a struct. -/
  | values (values : List (Option Addr))
  | structMember (member : MafMoAttributeValueStructMember)
  | chars
  deriving DecidableEq, Repr

abbrev Mem := Memory Addr Cell

structure State where
  memory : Mem := Memory.empty
  myAttValCList : List Addr := []

def loadContainer (a : Addr) (m : Mem) : Option MafMoAttributeValueContainer :=
  match m.load a with
  | some (.container c) => some c
  | _ => none

def loadMember (a : Addr) (m : Mem) : Option MafMoAttributeValueStructMember :=
  match m.load a with
  | some (.structMember member) => some member
  | _ => none

def loadValues (a : Addr) (m : Mem) : Option (List (Option Addr)) :=
  match m.load a with
  | some (.values values) => some values
  | _ => none

def valueAt (vcp : Addr) (i : Nat) (m : Mem) : Option (Option Addr) := do
  let c ← loadContainer vcp m
  let values ← c.values
  let values ← loadValues values m
  values[i]?

def delete (p : Option Addr) (s : State) : Option State :=
  (s.memory.freeAll p.toList).map fun memory => { s with memory }

/-! ## A container is deleted -/

section
variable (release : Addr → State → Option (Bool × State))

/-- The members from a node on, with what is done about the container of each. -/
def deleteMembers : Nat → Option Addr → State → Option State
  | 0, _, _ => none
  | _ + 1, none, s => some s
  | fuel + 1, some tmp, s => do
    let member ← loadMember tmp s.memory
    let s ← delete member.memberName s
    -- what the call returns is overwritten before it is returned
    let (_, s) ← release member.memberValue s
    let member ← loadMember tmp s.memory
    let s ← delete (some tmp) s
    deleteMembers fuel member.next s

def forEachValue (vcp : Addr) (nrOfValues : Nat) (body : Option Addr → State → Option State) (s : State) :
    Option State :=
  (List.range nrOfValues).foldlM (fun s i => do
    let value ← valueAt vcp i s.memory
    body value s) s

def deleteValues (vcp : Addr) (c : MafMoAttributeValueContainer) (s : State) : Option State :=
  match c.type with
  | .struct => forEachValue vcp c.nrOfValues (fun p s => deleteMembers release (s.memory.live.length + 1) p s) s
  | .string => forEachValue vcp c.nrOfValues delete s
  | .reference => forEachValue vcp c.nrOfValues delete s
  | .other => some s

def deleteContainer (vcp : Addr) (s : State) : Option State := do
  let c ← loadContainer vcp s.memory
  let s ← deleteValues release vcp c s
  let c ← loadContainer vcp s.memory
  let s ← delete c.values s
  delete (some vcp) s

end

/-! ## The calls -/

def registerAttributeValueContainer (valuec : Addr) (s : State) : State :=
  { s with myAttValCList := s.myAttValCList ++ [valuec] }

def release : Nat → Addr → State → Option (Bool × State)
  | 0, _, _ => none
  | fuel + 1, container, s =>
    match s.myAttValCList.find? fun vcp => vcp = container with
    | none => some (false, s)
    | some vcp => do
      let s ← deleteContainer (release fuel) vcp s
      -- the iterator must still be in the list
      if vcp ∈ s.myAttValCList then some (true, { s with myAttValCList := s.myAttValCList.erase vcp }) else none

def releaseAttributeValueContainer (container : Addr) (s : State) : Option (Bool × State) :=
  release (s.myAttValCList.length + 1) container s

def destroy (s : State) : Option State := do
  let s ← s.myAttValCList.foldlM (fun s vcp => deleteContainer (fun _ s => some (false, s)) vcp s) s
  some { s with myAttValCList := [] }

/-! ## What a container owns -/

structure Member where
  node : Addr
  memberName : Option Addr
  memberValue : Addr
  deriving DecidableEq, Repr

inductive Contents where
  | structs (values : List (List Member))
  | strings (values : List (Option Addr))
  | references (values : List (Option Addr))
  | others (nrOfValues : Nat)
  deriving DecidableEq, Repr

def stringCells (p : Option Addr) : List (Addr × Cell) := p.toList.map fun a => (a, .chars)

def memberCells : List Member → List (Addr × Cell)
  | [] => []
  | member :: members =>
    stringCells member.memberName ++
      (member.node, .structMember ⟨member.memberName, member.memberValue, members.head?.map Member.node⟩) ::
        memberCells members

namespace Contents

def type : Contents → MafOamSpiMoAttributeType
  | structs _ => .struct
  | strings _ => .string
  | references _ => .reference
  | others _ => .other

def pointers : Contents → List (Option Addr)
  | structs values => values.map fun members => members.head?.map Member.node
  | strings values => values
  | references values => values
  | others nrOfValues => List.replicate nrOfValues none

def pieces : Contents → List (List (Addr × Cell))
  | structs values => values.map memberCells
  | strings values => values.map stringCells
  | references values => values.map stringCells
  | others _ => []

def members : Contents → List Member
  | structs values => values.flatten
  | _ => []

end Contents

structure Container where
  addr : Addr
  values : Option Addr
  contents : Contents
  array : values = none → contents.pointers = []
  deriving DecidableEq

namespace Container

def cells (c : Container) : List (Addr × Cell) :=
  c.contents.pieces.flatten ++ (c.values.toList.map (fun a => (a, .values c.contents.pointers)) ++
    [(c.addr, .container ⟨c.contents.type, c.contents.pointers.length, c.values⟩)])

def blocks (c : Container) : List Addr := c.cells.map Prod.fst

def frame (c : Container) : List Addr := c.values.toList ++ [c.addr]

def memberValues (c : Container) : List Addr := c.contents.members.map Member.memberValue

end Container

/-! ## Runs -/

inductive Event where
  | register (c : Container)
  | release (container : Addr)
  deriving DecidableEq

/-- What a call does and, of the one that releases, what it returns. The caller made the container before. -/
def step (s : State) : Event → Option (Option Bool × State)
  | .register c =>
    some (none, registerAttributeValueContainer c.addr { s with memory := s.memory.allocateAll c.cells })
  | .release container => (releaseAttributeValueContainer container s).map fun x => (some x.1, x.2)

def run : State → List Event → Option (List (Option Bool) × State)
  | s, [] => some ([], s)
  | s, event :: events => do
    let (result, s) ← step s event
    let (results, s) ← run s events
    some (result :: results, s)

/-! ## The list as a set of containers -/

structure Kept where
  pending : List Container := []
  released : List Container := []

namespace Kept

noncomputable def step (k : Kept) : Event → Kept
  | .register c => { k with pending := k.pending ++ [c] }
  | .release container =>
    ⟨Cascade.without Container.addr Container.memberValues container k.pending,
      k.released ++ Cascade.reached Container.addr Container.memberValues container k.pending⟩

def result (k : Kept) : Event → Option Bool
  | .register _ => none
  | .release container => some (container ∈ k.pending.map Container.addr)

/-- The blocks of a container are different from each other and from those of the registered containers, and no
container has itself in it. -/
def Fresh (k : Kept) : Event → Prop
  | .register c =>
    (c.blocks ++ k.pending.flatMap Container.blocks).Nodup ∧
      Cascade.Acyclic Container.addr Container.memberValues (k.pending ++ [c])
  | .release _ => True

end Kept

/-! ## While containers are deleted -/

def Stored (load : Addr → Option Cell) (cells : List (Addr × Cell)) :
    Prop := ∀ cell ∈ cells, load cell.1 = some cell.2

def untouched (opened l : List Container) : List Container := l.filter fun c => c ∉ opened

/-- The list is that of the containers, those that are not opened are whole, and apart from their blocks those of
`rest` are live. -/
structure Held (opened l : List Container) (rest : List Addr) (s : State) : Prop where
  list : s.myAttValCList = l.map Container.addr
  nodup : (l.map Container.addr).Nodup
  stored : ∀ c ∈ untouched opened l, Stored s.memory.load c.cells
  live : s.memory.live.Perm ((untouched opened l).flatMap Container.blocks ++ rest)

/-- What has happened since `s₀`: the list went from `l₀` to `l`, and freed are `own` and the blocks of what is not in
the list any more. -/
structure Post (opened : List Container) (own rest : List Addr) (l₀ : List Container) (s₀ : State)
    (l : List Container) (s : State) : Prop where
  held : Held opened l rest s
  kept : ∀ a ∈ rest, s.memory.load a = s₀.memory.load a
  freed : (s.memory.freed ++ l.flatMap Container.blocks).Perm
    (s₀.memory.freed ++ own ++ l₀.flatMap Container.blocks)

section
variable {load load' : Addr → Option Cell} {cells : List (Addr × Cell)}

theorem Stored.congr (h : ∀ a ∈ cells.map Prod.fst, load' a = load a) (hstored : Stored load cells) :
    Stored load' cells := fun cell hcell =>
  (h cell.1 (List.mem_map_of_mem hcell)).trans (hstored cell hcell)

theorem Stored.mono {cells' : List (Addr × Cell)} (h : cells' ⊆ cells) (hstored : Stored load cells) :
    Stored load cells' := fun cell hcell => hstored cell (h hcell)

end

theorem loadMember_eq {a : Addr} {m : Mem} {member : MafMoAttributeValueStructMember}
    (h : m.load a = some (.structMember member)) : loadMember a m = some member := by
  unfold loadMember
  rw [h]

theorem loadContainer_eq {a : Addr} {m : Mem} {c : MafMoAttributeValueContainer}
    (h : m.load a = some (.container c)) : loadContainer a m = some c := by
  unfold loadContainer
  rw [h]

theorem loadValues_eq {a : Addr} {m : Mem} {values : List (Option Addr)} (h : m.load a = some (.values values)) :
    loadValues a m = some values := by
  unfold loadValues
  rw [h]

section
variable {opened l l₀ l₁ : List Container} {own own' rest : List Addr} {s s₀ s₁ : State}

theorem Held.post (h : Held opened l rest s) : Post opened [] rest l s l s := by
  refine ⟨h, fun _ _ => rfl, ?_⟩
  rw [List.append_nil]

theorem Post.trans {opened₁ : List Container} {rest₁ : List Addr} (h : Post opened₁ own rest₁ l₀ s₀ l₁ s₁)
    (h' : Post opened own' rest l₁ s₁ l s) (hsub : rest ⊆ rest₁) : Post opened (own ++ own') rest l₀ s₀ l s := by
  refine ⟨h'.held, fun a ha => (h'.kept a ha).trans (h.kept a (hsub ha)), ?_⟩
  refine List.perm_iff_count.mpr fun a => ?_
  have hfirst := h.freed.count_eq a
  have hthen := h'.freed.count_eq a
  simp only [List.count_append] at hfirst hthen ⊢
  omega

theorem Held.freeAll {as : List Addr} (h : Held opened l (as ++ rest) s) :
    ∃ m, s.memory.freeAll as = some m ∧ Post opened as rest l s l { s with memory := m } := by
  have hlive : s.memory.live.Perm (as ++ ((untouched opened l).flatMap Container.blocks ++ rest)) := by
    refine h.live.trans ?_
    rw [← List.append_assoc, ← List.append_assoc]
    exact List.perm_append_comm.append_right rest
  obtain ⟨m, hfree, hlive', hfreed, hload⟩ := Memory.freeAll_of_perm hlive
  refine ⟨m, hfree, ⟨h.list, h.nodup, fun c hc => ?_, hlive'⟩, fun a ha => ?_, ?_⟩
  · refine (h.stored c hc).congr fun a ha => hload a ?_
    exact List.mem_append_left _ (List.mem_flatMap.mpr ⟨c, hc, ha⟩)
  · exact hload a (List.mem_append_right _ ha)
  · change (m.freed ++ _).Perm _
    rw [hfreed]

theorem delete_spec {p : Option Addr} (h : Held opened l (p.toList ++ rest) s) :
    ∃ s', delete p s = some s' ∧ Post opened p.toList rest l s l s' := by
  obtain ⟨m, hfree, hpost⟩ := h.freeAll
  refine ⟨_, ?_, hpost⟩
  unfold delete
  rw [hfree]
  rfl

end

/-- What a call for a member does to the list, as long as the list has no more in it than `l₀`. -/
def ReleaseSpec (release : Addr → State → Option (Bool × State)) (opened l₀ : List Container)
    (after : Addr → List Container → List Container) (container : Addr) : Prop :=
  ∀ l s rest, l.Sublist l₀ → Held opened l rest s →
    ∃ result s', release container s = some (result, s') ∧ Post opened [] rest l s (after container l) s'

section
variable {release : Addr → State → Option (Bool × State)} {opened l₀ : List Container}
  {after : Addr → List Container → List Container}

@[simp] theorem map_fst_stringCells (p : Option Addr) : (stringCells p).map Prod.fst = p.toList := by
  cases p <;> rfl

theorem length_members_le (members : List Member) : members.length ≤ (memberCells members).length := by
  induction members with
  | nil => exact Nat.le_refl 0
  | cons member members ih =>
    rw [memberCells, List.length_append, List.length_cons, List.length_cons]
    omega

theorem foldl_sublist (hafter : ∀ a l, (after a l).Sublist l) (as : List Addr) (l : List Container) :
    (as.foldl (fun l a => after a l) l).Sublist l := by
  induction as generalizing l with
  | nil => exact List.Sublist.refl l
  | cons a as ih => exact (ih (after a l)).trans (hafter a l)

theorem deleteMembers_spec (hafter : ∀ a l, (after a l).Sublist l) {members : List Member}
    (hrelease : ∀ member ∈ members, ReleaseSpec release opened l₀ after member.memberValue) {fuel : Nat}
    (hfuel : members.length < fuel) {l : List Container} {s : State} {rest : List Addr} (hl : l.Sublist l₀)
    (hheld : Held opened l ((memberCells members).map Prod.fst ++ rest) s)
    (hstored : Stored s.memory.load (memberCells members)) :
    ∃ s', deleteMembers release fuel (members.head?.map Member.node) s = some s' ∧
      Post opened ((memberCells members).map Prod.fst) rest l s
        ((members.map Member.memberValue).foldl (fun l a => after a l) l) s' := by
  induction members generalizing fuel l s with
  | nil =>
    cases fuel with
    | zero => omega
    | succ fuel => exact ⟨s, rfl, hheld.post⟩
  | cons member members ih =>
    cases fuel with
    | zero => omega
    | succ fuel =>
      rw [List.length_cons] at hfuel
      have hblocks : (memberCells (member :: members)).map Prod.fst =
          member.memberName.toList ++ ([member.node] ++ (memberCells members).map Prod.fst) := by
        rw [memberCells, List.map_append, map_fst_stringCells]
        rfl
      have hnode := hstored (member.node, _) (List.mem_append_right _ List.mem_cons_self)
      have htail : Stored s.memory.load (memberCells members) := hstored.mono fun cell hcell =>
        List.mem_append_right _ (List.mem_cons_of_mem _ hcell)
      rw [hblocks, List.append_assoc, List.append_assoc] at hheld
      obtain ⟨s₁, hname, hpost₁⟩ := delete_spec hheld
      obtain ⟨result, s₂, hcall, hpost₂⟩ := hrelease member List.mem_cons_self l s₁ _ hl hpost₁.held
      have hpost₂ := hpost₁.trans hpost₂ (List.Subset.refl _)
      have hnode₂ := (hpost₂.kept member.node List.mem_cons_self).trans hnode
      obtain ⟨s₃, hdelete, hpost₃⟩ := delete_spec (p := some member.node) hpost₂.held
      have hpost₃ := hpost₂.trans hpost₃ (List.subset_append_right _ _)
      have htail₃ : Stored s₃.memory.load (memberCells members) := htail.congr fun a ha =>
        hpost₃.kept a (List.mem_append_left _ ha)
      have hfuel : members.length < fuel := Nat.lt_of_succ_lt_succ hfuel
      obtain ⟨s', hrest, hpost⟩ := ih (fun m hm => hrelease m (List.mem_cons_of_mem _ hm)) hfuel
        ((hafter _ l).trans hl) hpost₃.held htail₃
      refine ⟨s', ?_, ?_⟩
      · rw [List.head?_cons, Option.map_some, deleteMembers, loadMember_eq hnode]
        simp only [Option.bind_eq_bind, Option.bind_some, hname, hcall, loadMember_eq hnode₂, hdelete, hrest]
      · have hall := hpost₃.trans hpost (List.subset_append_right _ _)
        rw [List.append_nil, Option.toList_some, List.append_assoc] at hall
        rw [hblocks]
        exact hall

theorem blocks_eq (c : Container) : c.blocks = c.contents.pieces.flatten.map Prod.fst ++ c.frame := by
  unfold Container.blocks Container.cells Container.frame
  rw [List.map_append, List.map_append, List.map_map]
  exact congrArg (fun as => _ ++ (as ++ _)) (List.map_id _)

theorem load_addr {c : Container} {m : Mem} (hstored : Stored m.load c.cells) :
    m.load c.addr = some (.container ⟨c.contents.type, c.contents.pointers.length, c.values⟩) :=
  hstored (c.addr, _) (List.mem_append_right _ (List.mem_append_right _ List.mem_cons_self))

/-- The array can be read as long as it is not freed. -/
theorem valueAt_eq {c : Container} {m m₀ : Mem} (hstored : Stored m₀.load c.cells)
    (hkept : ∀ a ∈ c.frame, m.load a = m₀.load a) {i : Nat} (hi : i < c.contents.pointers.length) :
    valueAt c.addr i m = some c.contents.pointers[i] := by
  have haddr := (hkept c.addr (List.mem_append_right _ List.mem_cons_self)).trans (load_addr hstored)
  cases hvalues : c.values with
  | none =>
    rw [c.array hvalues] at hi
    exact absurd hi (Nat.not_lt_zero i)
  | some a =>
    have hframe : a ∈ c.frame := by
      unfold Container.frame
      simp [hvalues]
    have hcell : (a, Cell.values c.contents.pointers) ∈ c.cells := by
      unfold Container.cells
      simp [hvalues]
    have harray := (hkept a hframe).trans (hstored _ hcell)
    unfold valueAt
    simp only [loadContainer_eq haddr, hvalues, loadValues_eq harray, Option.bind_eq_bind, Option.bind_some,
      List.getElem?_eq_getElem hi]

theorem forEachValue_spec {c : Container} (hpieces : c.contents.pieces.length = c.contents.pointers.length)
    (body : Option Addr → State → Option State) (lists : Nat → List Container) {s : State} {rest : List Addr}
    (hbody : ∀ i (hi : i < c.contents.pieces.length) (hp : i < c.contents.pointers.length) t rest,
      Held opened (lists i) (c.contents.pieces[i].map Prod.fst ++ rest) t →
        Stored t.memory.load c.contents.pieces[i] →
        ∃ t', body c.contents.pointers[i] t = some t' ∧
          Post opened (c.contents.pieces[i].map Prod.fst) rest (lists i) t (lists (i + 1)) t')
    (hheld : Held opened (lists 0) (c.blocks ++ rest) s) (hstored : Stored s.memory.load c.cells) :
    ∃ s', forEachValue c.addr c.contents.pointers.length body s = some s' ∧
      Post opened (c.contents.pieces.flatten.map Prod.fst) (c.frame ++ rest) (lists 0) s
        (lists c.contents.pointers.length) s' := by
  have hround : ∀ i < c.contents.pointers.length, ∀ t,
      Post opened ((c.contents.pieces.take i).flatten.map Prod.fst)
        ((c.contents.pieces.drop i).flatten.map Prod.fst ++ (c.frame ++ rest)) (lists 0) s (lists i) t →
      ∃ t', (valueAt c.addr i t.memory).bind (fun value => body value t) = some t' ∧
        Post opened ((c.contents.pieces.take (i + 1)).flatten.map Prod.fst)
          ((c.contents.pieces.drop (i + 1)).flatten.map Prod.fst ++ (c.frame ++ rest)) (lists 0) s
            (lists (i + 1)) t' := by
    intro i hi t hpost
    have hi' : i < c.contents.pieces.length := hpieces.symm ▸ hi
    have hvalue : valueAt c.addr i t.memory = some c.contents.pointers[i] :=
      valueAt_eq hstored (fun a ha => hpost.kept a (List.mem_append_right _ (List.mem_append_left _ ha))) hi
    rw [List.drop_eq_getElem_cons hi', List.flatten_cons, List.map_append, List.append_assoc] at hpost
    have hpiece : Stored t.memory.load c.contents.pieces[i] := by
      have hsub : c.contents.pieces[i] ⊆ c.cells := fun cell hcell =>
        List.mem_append_left _ (List.mem_flatten.mpr ⟨_, List.getElem_mem hi', hcell⟩)
      exact (hstored.mono hsub).congr fun a ha => hpost.kept a (List.mem_append_left _ ha)
    obtain ⟨t', ht', hpost'⟩ := hbody i hi' hi t _ hpost.held hpiece
    refine ⟨t', ?_, ?_⟩
    · rw [hvalue]
      exact ht'
    · rw [List.take_add_one, List.getElem?_eq_getElem hi', Option.toList_some, List.flatten_append,
        List.flatten_singleton,
        List.map_append]
      exact hpost.trans hpost' (List.subset_append_right _ _)
  have hstart : Post opened ((c.contents.pieces.take 0).flatten.map Prod.fst)
      ((c.contents.pieces.drop 0).flatten.map Prod.fst ++ (c.frame ++ rest)) (lists 0) s (lists 0) s := by
    rw [blocks_eq, List.append_assoc] at hheld
    exact hheld.post
  obtain ⟨s', hloop, hpost⟩ := foldlM_range hround hstart
  refine ⟨s', hloop, ?_⟩
  rw [← hpieces, List.take_length, List.drop_length] at hpost
  rw [← hpieces]
  exact hpost

theorem forEachString_spec {c : Container} {values : List (Option Addr)} (hpointers : c.contents.pointers = values)
    (hpieces : c.contents.pieces = values.map stringCells) {l : List Container} {s : State} {rest : List Addr}
    (hheld : Held opened l (c.blocks ++ rest) s) (hstored : Stored s.memory.load c.cells) :
    ∃ s', forEachValue c.addr c.contents.pointers.length delete s = some s' ∧
      Post opened (c.contents.pieces.flatten.map Prod.fst) (c.frame ++ rest) l s l s' := by
  have hlength : c.contents.pieces.length = c.contents.pointers.length := by
    rw [hpieces, hpointers, List.length_map]
  refine forEachValue_spec hlength delete (fun _ => l) (fun i hi hp t rest hheld _ => ?_) hheld hstored
  have hpiece : c.contents.pieces[i].map Prod.fst = c.contents.pointers[i].toList := by
    simp only [hpieces, hpointers, List.getElem_map, map_fst_stringCells]
  rw [hpiece] at hheld ⊢
  exact delete_spec hheld

theorem deleteValues_spec (hafter : ∀ a l, (after a l).Sublist l) {c : Container}
    (hrelease : ∀ a ∈ c.memberValues, ReleaseSpec release opened l₀ after a) {l : List Container} {s : State}
    {rest : List Addr} (hl : l.Sublist l₀) (hheld : Held opened l (c.blocks ++ rest) s)
    (hstored : Stored s.memory.load c.cells) :
    ∃ s', deleteValues release c.addr ⟨c.contents.type, c.contents.pointers.length, c.values⟩ s = some s' ∧
      Post opened (c.contents.pieces.flatten.map Prod.fst) (c.frame ++ rest) l s
        (c.memberValues.foldl (fun l a => after a l) l) s' := by
  have hnone (h : c.contents.members = []) : c.memberValues = [] := congrArg (List.map Member.memberValue) h
  cases hcontents : c.contents with
  | structs values =>
    have hpieces : c.contents.pieces = values.map memberCells := congrArg Contents.pieces hcontents
    have hpointers : c.contents.pointers = values.map fun members => members.head?.map Member.node :=
      congrArg Contents.pointers hcontents
    have hmembers : c.memberValues = values.flatten.map Member.memberValue := by
      unfold Container.memberValues
      rw [hcontents]
      rfl
    have hlength : c.contents.pieces.length = c.contents.pointers.length := by
      rw [hpieces, hpointers, List.length_map, List.length_map]
    have hvalues : c.contents.pointers.length = values.length := by rw [hpointers, List.length_map]
    have hbody : ∀ i (hi : i < c.contents.pieces.length) (hp : i < c.contents.pointers.length) t rest,
        Held opened (((values.take i).flatten.map Member.memberValue).foldl (fun l a => after a l) l)
          (c.contents.pieces[i].map Prod.fst ++ rest) t → Stored t.memory.load c.contents.pieces[i] →
        ∃ t', deleteMembers release (t.memory.live.length + 1) c.contents.pointers[i] t = some t' ∧
          Post opened (c.contents.pieces[i].map Prod.fst) rest
            (((values.take i).flatten.map Member.memberValue).foldl (fun l a => after a l) l) t
            (((values.take (i + 1)).flatten.map Member.memberValue).foldl (fun l a => after a l) l) t' := by
      intro i hi hp t rest hheld hstored
      have hi' : i < values.length := hvalues ▸ hp
      simp only [hpieces, List.getElem_map] at hheld hstored ⊢
      simp only [hpointers, List.getElem_map]
      have hcalls : ∀ member ∈ values[i], ReleaseSpec release opened l₀ after member.memberValue := fun member hm =>
        hrelease _ (hmembers ▸ List.mem_map_of_mem (List.mem_flatten.mpr ⟨_, List.getElem_mem hi', hm⟩))
      have hfuel : values[i].length < t.memory.live.length + 1 := by
        have hlive := hheld.live.length_eq
        have hle := length_members_le values[i]
        rw [List.length_append, List.length_append, List.length_map] at hlive
        omega
      obtain ⟨t', ht', hpost⟩ :=
        deleteMembers_spec hafter hcalls hfuel ((foldl_sublist hafter _ l).trans hl) hheld hstored
      refine ⟨t', ht', ?_⟩
      rw [List.take_add_one, List.getElem?_eq_getElem hi', Option.toList_some, List.flatten_append,
        List.flatten_singleton, List.map_append, List.foldl_append]
      exact hpost
    obtain ⟨s', hloop, hpost⟩ := forEachValue_spec hlength
      (fun p t => deleteMembers release (t.memory.live.length + 1) p t)
      (fun i => ((values.take i).flatten.map Member.memberValue).foldl (fun l a => after a l) l) hbody hheld hstored
    rw [hvalues, List.take_length, ← hmembers] at hpost
    rw [hcontents] at hpost hloop
    exact ⟨s', hloop, hpost⟩
  | strings values | references values =>
    obtain ⟨s', hloop, hpost⟩ := forEachString_spec (congrArg Contents.pointers hcontents)
      (congrArg Contents.pieces hcontents) hheld hstored
    rw [hnone (congrArg Contents.members hcontents)]
    rw [hcontents] at hpost hloop
    exact ⟨s', hloop, hpost⟩
  | others nrOfValues =>
    rw [hnone (congrArg Contents.members hcontents)]
    rw [blocks_eq, hcontents, List.append_assoc] at hheld
    exact ⟨s, rfl, hheld.post⟩

theorem deleteContainer_spec (hafter : ∀ a l, (after a l).Sublist l) {c : Container}
    (hrelease : ∀ a ∈ c.memberValues, ReleaseSpec release opened l₀ after a) {l : List Container} {s : State}
    {rest : List Addr} (hl : l.Sublist l₀) (hheld : Held opened l (c.blocks ++ rest) s)
    (hstored : Stored s.memory.load c.cells) :
    ∃ s', deleteContainer release c.addr s = some s' ∧
      Post opened c.blocks rest l s (c.memberValues.foldl (fun l a => after a l) l) s' := by
  have haddr := load_addr hstored
  obtain ⟨s₁, hvalues, hpost₁⟩ := deleteValues_spec hafter hrelease hl hheld hstored
  have haddr₁ : s₁.memory.load c.addr = _ := (hpost₁.kept c.addr (by simp [Container.frame])).trans haddr
  have hheld₁ := hpost₁.held
  unfold Container.frame at hheld₁
  rw [List.append_assoc] at hheld₁
  obtain ⟨s₂, harray, hpost₂⟩ := delete_spec hheld₁
  obtain ⟨s₃, hcontainer, hpost₃⟩ := delete_spec (p := some c.addr) hpost₂.held
  refine ⟨s₃, ?_, ?_⟩
  · unfold deleteContainer
    simp only [loadContainer_eq haddr, Option.bind_eq_bind, Option.bind_some, hvalues,
      loadContainer_eq haddr₁, harray,
      hcontainer]
  · have hlast := hpost₂.trans hpost₃ (List.subset_append_right _ _)
    have hall := hpost₁.trans hlast (List.subset_append_right _ _)
    rw [blocks_eq]
    exact hall

end

/-! ## A container is opened, and taken out of the list -/

section
variable {opened l l₀ : List Container} {own rest : List Addr} {s s₀ : State} {c : Container}

theorem untouched_cons (opened : List Container) (c : Container) (hnodup : l.Nodup) :
    untouched (c :: opened) l = (untouched opened l).erase c := by
  unfold untouched
  rw [(hnodup.filter _).erase_eq_filter, List.filter_filter]
  refine List.filter_congr fun d _ => ?_
  rw [Bool.eq_iff_iff, Bool.and_eq_true, bne_iff_ne, decide_eq_true_eq, decide_eq_true_eq, List.mem_cons, not_or]

theorem untouched_erase (opened : List Container) (c : Container) (hnodup : l.Nodup) :
    untouched opened (l.erase c) = untouched (c :: opened) l := by
  unfold untouched
  rw [hnodup.erase_eq_filter, List.filter_filter]
  refine List.filter_congr fun d _ => ?_
  rw [Bool.eq_iff_iff, Bool.and_eq_true, bne_iff_ne, decide_eq_true_eq, decide_eq_true_eq, List.mem_cons, not_or,
    and_comm]

theorem untouched_nil (l : List Container) : untouched [] l = l :=
  List.filter_eq_self.mpr fun _ _ => decide_eq_true List.not_mem_nil

theorem mem_untouched {d : Container} : d ∈ untouched opened l ↔ d ∈ l ∧ d ∉ opened := by
  unfold untouched
  simp

theorem Held.opening (h : Held opened l rest s) (hc : c ∈ untouched opened l) :
    Held (c :: opened) l (c.blocks ++ rest) s := by
  have hcons := untouched_cons opened c h.nodup.of_map
  refine ⟨h.list, h.nodup, fun d hd => ?_, h.live.trans ?_⟩
  · rw [hcons] at hd
    exact h.stored d (List.mem_of_mem_erase hd)
  · rw [hcons, ← List.append_assoc]
    refine List.Perm.append_right rest ?_
    exact ((List.perm_cons_erase hc).flatMap_right _).trans List.perm_append_comm

theorem Post.closing (h : Post (c :: opened) c.blocks rest l₀ s₀ l s) (hc : c ∈ l) :
    Post opened [] rest l₀ s₀ (l.erase c) { s with myAttValCList := s.myAttValCList.erase c.addr } := by
  have hnodup := h.held.nodup
  have hlist : s.myAttValCList.erase c.addr = (l.erase c).map Container.addr := by
    rw [h.held.list, Cascade.map_key_erase hnodup hc]
  have huntouched := untouched_erase opened c hnodup.of_map
  refine ⟨⟨hlist, ?_, ?_, ?_⟩, h.kept, ?_⟩
  · exact hnodup.sublist (List.erase_sublist.map _)
  · rw [huntouched]
    exact h.held.stored
  · rw [huntouched]
    exact h.held.live
  · refine List.perm_iff_count.mpr fun a => ?_
    have hfreed := h.freed.count_eq a
    have herase := ((List.perm_cons_erase hc).flatMap_right Container.blocks).count_eq a
    simp only [List.count_append, List.flatMap_cons, List.count_nil] at hfreed herase ⊢
    omega

end

/-! ## The calls -/

theorem release_spec {opened l : List Container} {fuel : Nat} {container : Addr} {s : State} {rest : List Addr}
    (hheld : Held opened l rest s) (hacyclic : Cascade.Acyclic Container.addr Container.memberValues l)
    (hopened : ∀ c ∈ opened, ¬Cascade.Within Container.addr Container.memberValues l container c)
    (hfuel : (untouched opened l).length < fuel) :
    ∃ s', release fuel container s = some (decide (container ∈ l.map Container.addr), s') ∧
      Post opened [] rest l s (Cascade.without Container.addr Container.memberValues container l) s' := by
  induction fuel generalizing opened l container s rest with
  | zero => omega
  | succ fuel ih =>
    by_cases hmem : container ∈ l.map Container.addr
    · obtain ⟨c, hc, rfl⟩ := List.mem_map.mp hmem
      have huntouched : c ∈ untouched opened l := mem_untouched.mpr ⟨hc, fun ho => hopened c ho ReflTransGen.refl⟩
      have hfind : s.myAttValCList.find? (fun vcp => vcp = c.addr) = some c.addr := by
        cases hfind : s.myAttValCList.find? (fun vcp => vcp = c.addr) with
        | none =>
          rw [hheld.list] at hfind
          exact absurd (decide_eq_true rfl) (List.find?_eq_none.mp hfind c.addr hmem)
        | some vcp =>
          have heq := List.find?_some hfind
          rw [of_decide_eq_true heq]
      have hlength : (untouched (c :: opened) l).length + 1 = (untouched opened l).length := by
        rw [untouched_cons _ _ hheld.nodup.of_map, List.length_erase_add_one huntouched]
      -- the calls for the members do not come back to a container that is being deleted
      have hcalls : ∀ a ∈ c.memberValues, ReleaseSpec (release fuel) (c :: opened) l
          (Cascade.without Container.addr Container.memberValues) a := by
        intro a ha l' s' rest' hl' hheld'
        have hlt : (untouched (c :: opened) l').length < fuel := by
          have hle : (untouched (c :: opened) l').length ≤ (untouched (c :: opened) l).length :=
            (hl'.filter _).length_le
          omega
        have hback : ∀ o ∈ c :: opened, ¬Cascade.Within Container.addr Container.memberValues l' a o := by
          intro o ho hwithin
          have hwithin := hwithin.mono hl'.subset
          rcases List.mem_cons.mp ho with rfl | ho
          · exact hacyclic.not_within hc ha hwithin
          · exact hopened o ho (hwithin.of_names hc ha)
        obtain ⟨s'', hcall, hpost⟩ := ih hheld' (hacyclic.mono hl'.subset) hback hlt
        exact ⟨_, s'', hcall, hpost⟩
      obtain ⟨s', hdelete, hpost⟩ := deleteContainer_spec (fun _ _ => Cascade.without_sublist) hcalls
        (List.Sublist.refl l) (hheld.opening huntouched) (hheld.stored c huntouched)
      have hleft := Cascade.mem_foldl_without.mpr ⟨hc, fun a ha => hacyclic.not_within hc ha⟩
      refine ⟨_, ?_, Cascade.without_eq_erase hheld.nodup hc ▸ hpost.closing hleft⟩
      have hin : c.addr ∈ s'.myAttValCList := by
        rw [hpost.held.list]
        exact List.mem_map_of_mem hleft
      unfold release
      rw [hfind, decide_eq_true hmem]
      simp only [hdelete, Option.bind_eq_bind, Option.bind_some, if_pos hin]
    · have hfind : s.myAttValCList.find? (fun vcp => vcp = container) = none := by
        rw [hheld.list]
        refine List.find?_eq_none.mpr fun vcp hvcp heq => hmem ?_
        exact of_decide_eq_true heq ▸ hvcp
      have hleft : Cascade.without Container.addr Container.memberValues container l = l :=
        Cascade.without_of_not_mem fun c hc heq => hmem (heq ▸ List.mem_map_of_mem hc)
      refine ⟨s, ?_, hleft.symm ▸ hheld.post⟩
      unfold release
      rw [hfind, decide_eq_false hmem]

theorem destroyEach_spec {l todo : List Container} {opened : List Container} {s : State}
    (hheld : Held opened l [] s)
    (htodo : todo ⊆ untouched opened l) (hnodup : todo.Nodup) :
    ∃ s' opened', (todo.map Container.addr).foldlM
        (fun s vcp => deleteContainer (fun _ s => some (false, s)) vcp s) s = some s' ∧
      (∀ c, c ∈ opened' ↔ c ∈ todo ∨ c ∈ opened) ∧ Post opened' (todo.flatMap Container.blocks) [] l s l s' := by
  induction todo generalizing opened s with
  | nil => exact ⟨s, opened, rfl, fun c => by simp, hheld.post⟩
  | cons c todo ih =>
    obtain ⟨hc, hnodup⟩ := List.nodup_cons.mp hnodup
    have huntouched := htodo List.mem_cons_self
    have hcalls : ∀ a ∈ c.memberValues, ReleaseSpec (fun _ s => some (false, s)) (c :: opened) l (fun _ l => l) a :=
      fun _ _ _ s _ _ hheld => ⟨false, s, rfl, hheld.post⟩
    obtain ⟨s₁, hdelete, hpost₁⟩ := deleteContainer_spec (fun _ l => List.Sublist.refl l) hcalls
      (List.Sublist.refl l)
      (hheld.opening huntouched) (hheld.stored c huntouched)
    rw [List.foldl_fixed] at hpost₁
    have hrest : todo ⊆ untouched (c :: opened) l := by
      intro d hd
      rw [untouched_cons _ _ hheld.nodup.of_map]
      refine (List.mem_erase_of_ne ?_).mpr (htodo (List.mem_cons_of_mem c hd))
      rintro rfl
      exact hc hd
    obtain ⟨s', opened', hloop, hopened, hpost⟩ := ih hpost₁.held hrest hnodup
    refine ⟨s', opened', ?_, fun d => ?_, hpost₁.trans hpost (List.Subset.refl _)⟩
    · rw [List.map_cons, List.foldlM_cons, hdelete]
      exact hloop
    · rw [hopened, List.mem_cons, List.mem_cons]
      tauto

theorem destroy_spec {l : List Container} {s : State} (hheld : Held [] l [] s) :
    ∃ s', destroy s = some s' ∧ s'.myAttValCList = [] ∧ s'.memory.live = [] ∧
      s'.memory.freed.Perm (s.memory.freed ++ l.flatMap Container.blocks) := by
  have htodo : l ⊆ untouched [] l := by
    rw [untouched_nil]
    exact List.Subset.refl l
  obtain ⟨s', opened, hloop, hopened, hpost⟩ := destroyEach_spec hheld htodo hheld.nodup.of_map
  have hnone : untouched opened l = [] := by
    refine List.eq_nil_iff_forall_not_mem.mpr fun c hc => ?_
    obtain ⟨hc, hnot⟩ := mem_untouched.mp hc
    exact hnot ((hopened c).mpr (Or.inl hc))
  refine ⟨{ s' with myAttValCList := [] }, ?_, rfl, ?_, ?_⟩
  · unfold destroy
    rw [hheld.list, hloop]
    rfl
  · have hlive := hpost.held.live
    rw [hnone] at hlive
    exact List.perm_nil.mp hlive
  · refine List.perm_iff_count.mpr fun a => ?_
    have hfreed := hpost.freed.count_eq a
    simp only [List.count_append] at hfreed ⊢
    omega

/-! ## Runs of calls -/

/-- The list is that of the pending containers, with their blocks and no others, and the blocks of the released ones
were freed. -/
structure Represents (s : State) (k : Kept) : Prop where
  held : Held [] k.pending [] s
  acyclic : Cascade.Acyclic Container.addr Container.memberValues k.pending
  freed : s.memory.freed.Perm (k.released.flatMap Container.blocks)

theorem addr_mem_blocks (c : Container) : c.addr ∈ c.blocks := by
  rw [blocks_eq]
  exact List.mem_append_right _ (List.mem_append_right _ List.mem_cons_self)

theorem register_spec {s : State} {k : Kept} (h : Represents s k) {c : Container} (hfresh : k.Fresh (.register c)) :
    Represents (registerAttributeValueContainer c.addr { s with memory := s.memory.allocateAll c.cells })
      (k.step (.register c)) := by
  obtain ⟨hblocks, hacyclic⟩ := hfresh
  obtain ⟨hnodup, -, hdisjoint⟩ := List.nodup_append.mp hblocks
  obtain ⟨hlive, hfreed⟩ := Memory.heap_allocateAll (m := s.memory) c.cells
  have helsewhere : ∀ d ∈ k.pending, ∀ a ∈ d.blocks, a ∉ c.blocks := fun d hd a ha hin =>
    hdisjoint a hin a (List.mem_flatMap.mpr ⟨d, hd, ha⟩) rfl
  refine ⟨⟨?_, ?_, ?_, ?_⟩, hacyclic, ?_⟩
  · change s.myAttValCList ++ [c.addr] = (k.pending ++ [c]).map Container.addr
    rw [h.held.list, List.map_append]
    rfl
  · change ((k.pending ++ [c]).map Container.addr).Nodup
    rw [List.map_append, List.map_singleton, ← List.concat_eq_append, List.nodup_concat]
    refine ⟨fun hin => ?_, h.held.nodup⟩
    obtain ⟨d, hd, heq⟩ := List.mem_map.mp hin
    exact helsewhere d hd _ (addr_mem_blocks d) (heq ▸ addr_mem_blocks c)
  · change ∀ d ∈ untouched [] (k.pending ++ [c]), Stored (s.memory.allocateAll c.cells).load d.cells
    intro d hd
    rw [untouched_nil] at hd
    rcases List.mem_append.mp hd with hd | hd
    · have hstored := h.held.stored d (by rw [untouched_nil]; exact hd)
      exact hstored.congr fun a ha => Memory.load_allocateAll_of_not_mem (helsewhere d hd a ha)
    · obtain rfl := List.mem_singleton.mp hd
      exact fun cell hcell => Memory.load_allocateAll hnodup hcell
  · change (s.memory.allocateAll c.cells).live.Perm ((untouched [] (k.pending ++ [c])).flatMap
      Container.blocks ++ [])
    have hbefore := h.held.live
    rw [untouched_nil, List.append_nil] at hbefore ⊢
    rw [List.flatMap_append, List.flatMap_singleton]
    exact (hlive.trans (hbefore.append_left _)).trans List.perm_append_comm
  · change (s.memory.allocateAll c.cells).freed.Perm _
    rw [hfreed]
    exact h.freed

theorem releaseAttributeValueContainer_spec {s : State} {k : Kept} (h : Represents s k) (container : Addr) :
    ∃ s', releaseAttributeValueContainer container s =
        some (decide (container ∈ k.pending.map Container.addr), s') ∧
      Represents s' (k.step (.release container)) := by
  have hfuel : (untouched [] k.pending).length < s.myAttValCList.length + 1 := by
    rw [h.held.list, List.length_map]
    exact Nat.lt_succ_of_le (List.length_filter_le ..)
  obtain ⟨s', hrelease, hpost⟩ := release_spec h.held h.acyclic (fun c hc => absurd hc List.not_mem_nil) hfuel
  refine ⟨s', hrelease, hpost.held, h.acyclic.mono Cascade.without_sublist.subset, ?_⟩
  refine List.perm_iff_count.mpr fun a => ?_
  have hfreed := hpost.freed.count_eq a
  have hbefore := h.freed.count_eq a
  have hsplit := ((Cascade.reached_append_without Container.addr Container.memberValues container
    k.pending).flatMap_right Container.blocks).count_eq a
  simp only [Kept.step, List.flatMap_append, List.count_append, List.count_nil] at hfreed hbefore hsplit ⊢
  omega

theorem step_spec {s : State} {k : Kept} (h : Represents s k) {event : Event} (hfresh : k.Fresh event) :
    ∃ s', step s event = some (k.result event, s') ∧ Represents s' (k.step event) := by
  cases event with
  | register c => exact ⟨_, rfl, register_spec h hfresh⟩
  | release container =>
    obtain ⟨s', hrelease, hrep⟩ := releaseAttributeValueContainer_spec h container
    exact ⟨s', congrArg (Option.map _) hrelease, hrep⟩

noncomputable def Kept.results : Kept → List Event → List (Option Bool)
  | _, [] => []
  | k, event :: events => k.result event :: Kept.results (k.step event) events

theorem run_spec {s : State} {k : Kept} (h : Represents s k) {events : List Event}
    (hfresh : Along Kept.step Kept.Fresh k events) :
    ∃ s', run s events = some (k.results events, s') ∧ Represents s' (events.foldl Kept.step k) := by
  induction events generalizing s k with
  | nil => exact ⟨s, rfl, h⟩
  | cons event events ih =>
    obtain ⟨s₁, hstep, hrep⟩ := step_spec h hfresh.1
    obtain ⟨s', hrun, hrep⟩ := ih hrep hfresh.2
    refine ⟨s', ?_, hrep⟩
    unfold run
    simp only [hstep, hrun, Option.bind_eq_bind, Option.bind_some]
    rfl

def registeredBy : Event → Option Container
  | .register c => some c
  | .release _ => none

theorem kept_perm (k : Kept) (events : List Event) :
    ((events.foldl Kept.step k).pending ++ (events.foldl Kept.step k).released).Perm
      (k.pending ++ k.released ++ events.filterMap registeredBy) := by
  induction events generalizing k with
  | nil => simp
  | cons event events ih =>
    refine (ih (k.step event)).trans (List.perm_iff_count.mpr fun c => ?_)
    cases event with
    | register d =>
      have hadded : (Event.register d :: events).filterMap registeredBy = d :: events.filterMap registeredBy := rfl
      rw [hadded]
      simp only [Kept.step, List.count_append, List.count_cons, List.count_nil]
      omega
    | release container =>
      have hadded : (Event.release container :: events).filterMap registeredBy = events.filterMap
        registeredBy := rfl
      have hsplit := (Cascade.reached_append_without Container.addr Container.memberValues container
        k.pending).count_eq c
      rw [hadded]
      simp only [Kept.step, List.count_append] at hsplit ⊢
      omega

/-- What holds after a run, and when the cache is destroyed then. -/
structure ReleasedOnce (events : List Event) (results : List (Option Bool)) (s : State) : Prop where
  list : s.myAttValCList = (events.foldl Kept.step {}).pending.map Container.addr
  results_eq : results = Kept.results {} events
  all : ((events.foldl Kept.step {}).pending ++ (events.foldl Kept.step {}).released).Perm
    (events.filterMap registeredBy)
  live : s.memory.live.Perm ((events.foldl Kept.step {}).pending.flatMap Container.blocks)
  freed : s.memory.freed.Perm ((events.foldl Kept.step {}).released.flatMap Container.blocks)
  destroyed : ∃ s', destroy s = some s' ∧ s'.myAttValCList = [] ∧ s'.memory.live = [] ∧
    s'.memory.freed.Perm ((events.filterMap registeredBy).flatMap Container.blocks)

/-- Whatever the calls are, nothing is used that is freed, and each block is freed once. -/
theorem releasedOnce_of_run (events : List Event) (hfresh : Along Kept.step Kept.Fresh {} events) :
    ∃ results s, run {} events = some (results, s) ∧ ReleasedOnce events results s := by
  have hinit : Represents {} {} := by
    exact ⟨⟨rfl, List.nodup_nil, fun c hc => absurd hc List.not_mem_nil, List.Perm.refl _⟩, Cascade.acyclic_nil,
      List.Perm.refl _⟩
  obtain ⟨s, hrun, hrep⟩ := run_spec hinit hfresh
  have hall := kept_perm {} events
  obtain ⟨s', hdestroy, hlist, hlive', hfreed⟩ := destroy_spec hrep.held
  refine ⟨_, s, hrun, hrep.held.list, rfl, hall, ?_, hrep.freed, s', hdestroy, hlist, hlive', ?_⟩
  · have hlive := hrep.held.live
    rw [untouched_nil, List.append_nil] at hlive
    exact hlive
  · refine hfreed.trans ((hrep.freed.append_right _).trans ?_)
    rw [← List.flatMap_append]
    exact (List.perm_append_comm.trans hall).flatMap_right Container.blocks

/-! ## A struct with a member that is released before it -/

def member : Container where
  addr := 10
  values := some 11
  contents := .strings [some 12]
  array := by decide

def otherMember : Container where
  addr := 20
  values := some 21
  contents := .others 1
  array := by decide

def structContainer : Container where
  addr := 1
  values := some 2
  contents := .structs [[⟨3, some 4, 10⟩, ⟨5, some 6, 20⟩]]
  array := by decide

theorem releasedOnce_of_run_structContainer : ∃ results s,
    run {} [.register member, .register structContainer, .register otherMember, .release 10, .release 1,
      .release 20] =
      some (results, s) ∧
    ReleasedOnce [.register member, .register structContainer, .register otherMember, .release 10, .release 1,
      .release 20] results s :=
  releasedOnce_of_run _ ⟨⟨by decide, Cascade.acyclic_of_lt id (by decide)⟩,
    ⟨by decide, Cascade.acyclic_of_lt id (by decide)⟩, ⟨by decide, Cascade.acyclic_of_lt id (by decide)⟩, trivial,
    trivial, trivial, trivial⟩

end ComSA.AttributeContainers
