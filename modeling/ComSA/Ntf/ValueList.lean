import ComSA.Lib.LinkedList
import ComSA.Lib.Memory
import ComSA.Lib.Run

/-!
# The list of FM values

A notification that is sent is kept in a list until COM is done with it. The list is modelled with its pointers, in a
memory that tells which blocks were freed.
-/

namespace ComSA.ValueList

abbrev Addr := Nat

inductive FmVersion where
  | fm3
  | fm4
  deriving DecidableEq, Repr

inductive MafReturn where
  | ok
  | notExist
  | failure
  deriving DecidableEq, Repr

/-- The blocks that belong to a notification, `none` for `NULL`. -/
structure FmNotification where
  dn : Option Addr
  additionalText : Option Addr
  /-- The name and the value of each element of the array. -/
  additionalInfo : List (Addr × Addr)
  additionalInfoArr : Option Addr
  deriving DecidableEq, Repr

structure ValueNode where
  comNot : Addr
  comNot_2 : Option Addr
  next : Option Addr
  deriving DecidableEq, Repr

inductive Cell where
  | node (n : ValueNode)
  | comNot (c : FmNotification)
  /-- The struct of FM version 3, which has the strings of the other one. -/
  | comNot_2 (dn additionalText : Option Addr)
  | bytes
  deriving DecidableEq, Repr

abbrev Mem := Memory Addr Cell

structure State where
  memory : Mem := Memory.empty
  nVlist4 : Option Addr := none
  nVlLast4 : Option Addr := none

def loadNode (a : Addr) (m : Mem) : Option ValueNode :=
  match m.load a with
  | some (.node n) => some n
  | _ => none

def loadComNot (a : Addr) (m : Mem) : Option FmNotification :=
  match m.load a with
  | some (.comNot c) => some c
  | _ => none

/-! ## A value is added -/

/-- The node that `addNotValue4` makes, in the blocks that `malloc` gives. -/
def newNode (version : FmVersion) (comNot ne comNot_2 : Addr) (m : Mem) : Option Mem :=
  if version = .fm3 then do
    let c ← loadComNot comNot m
    some ((m.allocate ne (.node ⟨comNot, some comNot_2, none⟩)).allocate comNot_2 (.comNot_2 c.dn c.additionalText))
  else some (m.allocate ne (.node ⟨comNot, none, none⟩))

def addNotValue4 (version : FmVersion) (comNot ne comNot_2 : Addr) (s : State) : Option State := do
  let memory ← newNode version comNot ne comNot_2 s.memory
  match s.nVlist4 with
  | none => some { memory, nVlist4 := some ne, nVlLast4 := some ne }
  | some nVlist4 => do
    let nVlLast4 ← s.nVlLast4
    let last ← loadNode nVlLast4 memory
    let memory ← memory.store nVlLast4 (.node { last with next := some ne })
    some { memory, nVlist4 := some nVlist4, nVlLast4 := some ne }

/-! ## COM is done with a value -/

def mafOamSpiNotificationFmEventType_2 : String := "MafOamSpiNotificationFmEventType_2"
def mafOamSpiNotificationFmEventType_4 : String := "MafOamSpiNotificationFmEventType_4"

def isFmEventType (eventType : Option String) : Bool :=
  eventType = none ∨ eventType = some mafOamSpiNotificationFmEventType_4 ∨
    eventType = some mafOamSpiNotificationFmEventType_2

def isNodeOf (version : FmVersion) (value : Addr) : Cell → Bool
  | .node n =>
    match version with
    | .fm4 => n.comNot = value
    | .fm3 => n.comNot_2 = some value
  | _ => false

def nextOf : Cell → Option Addr
  | .node n => n.next
  | _ => none

def unlink (prev tmp : Addr) (s : State) : Option State := do
  let node ← loadNode tmp s.memory
  if some tmp = s.nVlLast4 then
    -- the last left in the list
    if s.nVlist4 = s.nVlLast4 then some { s with nVlist4 := none, nVlLast4 := none }
    else do
      let before ← loadNode prev s.memory
      let memory ← s.memory.store prev (.node { before with next := none })
      some { s with memory, nVlLast4 := some prev }
  else if some tmp = s.nVlist4 then some { s with nVlist4 := node.next }
  else do
    let before ← loadNode prev s.memory
    let memory ← s.memory.store prev (.node { before with next := node.next })
    some { s with memory }

namespace FmNotification

def infoBlocks (c : FmNotification) : List Addr :=
  (c.additionalInfo.flatMap fun info => [info.1, info.2]) ++ c.additionalInfoArr.toList

def parts (c : FmNotification) : List Addr := c.dn.toList ++ c.additionalText.toList ++ c.infoBlocks

end FmNotification

/-- Frees the notification and its node. Pointers into it are not set to `NULL` first. -/
def freeNotification (inV tmp : Addr) (m : Mem) : Option Mem := do
  let c ← loadComNot inV m
  let m ← m.freeAll c.parts
  let m ← m.free inV
  m.free tmp

/-- Under FM version 3 the struct that COM gives back is freed as soon as it is found. -/
def freeCompanion (version : FmVersion) (value : Addr) (m : Mem) : Option Mem :=
  if version = .fm3 then m.free value else some m

def doneWithValue (version : FmVersion) (eventType : Option String) (value : Option Addr) (s : State) :
    Option (MafReturn × State) :=
  match value with
  | none => some (.failure, s)
  | some value =>
    if isFmEventType eventType then do
      -- there are more live blocks than nodes
      let fuel := s.memory.live.length + 1
      let (prev, tmp) ← seek s.memory.load (isNodeOf version value) nextOf fuel s.nVlist4 s.nVlist4
      match tmp with
      | none => some (.notExist, s)
      | some tmp => do
        let prev ← prev
        let node ← loadNode tmp s.memory
        let memory ← freeCompanion version value s.memory
        let s ← unlink prev tmp { s with memory }
        let memory ← freeNotification node.comNot tmp s.memory
        some (.ok, { s with memory })
    else some (.failure, s)

/-! ## Runs -/

structure Entry where
  comNot : Addr
  content : FmNotification
  ne : Addr
  comNot_2 : Addr
  deriving DecidableEq, Repr

def convert (e : Entry) (m : Mem) : Mem :=
  (e.content.parts.foldl (fun m a => m.allocate a .bytes) m).allocate e.comNot (.comNot e.content)

inductive Event where
  | add (e : Entry)
  | done (eventType : Option String) (value : Option Addr)
  deriving DecidableEq, Repr

def step (version : FmVersion) (s : State) : Event → Option (Option MafReturn × State)
  | .add e =>
    (addNotValue4 version e.comNot e.ne e.comNot_2 { s with memory := convert e s.memory }).map fun s => (none, s)
  | .done eventType value =>
    (doneWithValue version eventType value s).map fun x => (some x.1, x.2)

def run (version : FmVersion) : State → List Event → Option (List (Option MafReturn) × State)
  | s, [] => some ([], s)
  | s, event :: events => do
    let (result, s) ← step version s event
    let (results, s) ← run version s events
    some (result :: results, s)

/-! ## The list as a queue -/

namespace Entry

def handle (version : FmVersion) (e : Entry) : Addr :=
  match version with
  | .fm3 => e.comNot_2
  | .fm4 => e.comNot

def blocks (version : FmVersion) (e : Entry) : List Addr :=
  (if version = .fm3 then [e.comNot_2] else []) ++ (e.content.parts ++ [e.comNot, e.ne])

def node (version : FmVersion) (e : Entry) (next : Option Addr) : Cell :=
  .node ⟨e.comNot, if version = .fm3 then some e.comNot_2 else none, next⟩

end Entry

structure Queue where
  pending : List Entry := []
  released : List Entry := []

def Queue.find (version : FmVersion) (value : Option Addr) (q : Queue) : Option Entry :=
  q.pending.find? fun e => value = some (e.handle version)

def Queue.step (version : FmVersion) (q : Queue) : Event → Queue
  | .add e => { q with pending := q.pending ++ [e] }
  | .done eventType value =>
    if isFmEventType eventType then
      match q.find version value with
      | some e => ⟨q.pending.erase e, q.released ++ [e]⟩
      | none => q
    else q

def Queue.result (version : FmVersion) (q : Queue) : Event → Option MafReturn
  | .add _ => none
  | .done _ none => some .failure
  | .done eventType (some value) =>
    if isFmEventType eventType = false then some .failure
    else if ∃ e ∈ q.pending, e.handle version = value then some .ok else some .notExist

/-- The blocks of a notification are different from each other and from those of the notifications in the list. -/
def Fresh (version : FmVersion) (q : Queue) : Event → Prop
  | .add e => (e.blocks version ++ q.pending.flatMap (Entry.blocks version)).Nodup
  | .done _ _ => True

instance (version : FmVersion) (q : Queue) : (event : Event) → Decidable (Fresh version q event)
  | .add e => inferInstanceAs (Decidable (e.blocks version ++ q.pending.flatMap (Entry.blocks version)).Nodup)
  | .done _ _ => .isTrue trivial

/-- The pointers make up the queue, and the memory has the blocks of what is in it, all others being freed. -/
structure Represents (version : FmVersion) (s : State) (q : Queue) : Prop where
  list : Segment Entry.ne (Entry.node version) s.memory.load s.nVlist4 q.pending none
  last : s.nVlLast4 = q.pending.getLast?.map Entry.ne
  content : ∀ e ∈ q.pending, s.memory.load e.comNot = some (.comNot e.content)
  live : s.memory.live.Perm (q.pending.flatMap (Entry.blocks version))
  nodup : (q.pending.flatMap (Entry.blocks version)).Nodup
  freed : s.memory.freed = q.released.flatMap (Entry.blocks version)

theorem loadNode_eq {a : Addr} {m : Mem} {n : ValueNode} (h : m.load a = some (.node n)) :
    loadNode a m = some n := by
  unfold loadNode
  rw [h]

theorem loadComNot_eq {a : Addr} {m : Mem} {c : FmNotification} (h : m.load a = some (.comNot c)) :
    loadComNot a m = some c := by
  unfold loadComNot
  rw [h]

section
variable {version : FmVersion} {e f : Entry}

theorem ne_mem_blocks : e.ne ∈ e.blocks version := by
  unfold Entry.blocks
  simp

theorem comNot_mem_blocks : e.comNot ∈ e.blocks version := by
  unfold Entry.blocks
  simp

theorem comNot_ne (h : (e.blocks version).Nodup) : e.comNot ≠ e.ne := by
  have hpair := (List.nodup_append.mp (List.nodup_append.mp h).2.1).2.1
  simpa using hpair

end

/-! ## A value is added -/

theorem convert_spec (e : Entry) (m : Mem) :
    (convert e m).live.Perm (e.content.parts ++ e.comNot :: m.live) ∧ (convert e m).freed = m.freed ∧
      (convert e m).load e.comNot = some (.comNot e.content) ∧
      ∀ a ∉ e.content.parts, a ≠ e.comNot → (convert e m).load a = m.load a := by
  have hfold : ∀ (parts : List Addr) (m : Mem),
      (parts.foldl (fun m a => m.allocate a .bytes) m).live.Perm (parts ++ m.live) ∧
        (parts.foldl (fun m a => m.allocate a .bytes) m).freed = m.freed ∧
        ∀ a ∉ parts, (parts.foldl (fun m a => m.allocate a .bytes) m).load a = m.load a := by
    intro parts
    induction parts with
    | nil => exact fun m => ⟨List.Perm.refl _, rfl, fun _ _ => rfl⟩
    | cons b parts ih =>
      intro m
      obtain ⟨hlive, hfreed, hload⟩ := ih (m.allocate b .bytes)
      refine ⟨hlive.trans List.perm_middle, hfreed, fun a ha => ?_⟩
      rw [List.mem_cons, not_or] at ha
      exact (hload a ha.2).trans (Memory.load_allocate_of_ne ha.1)
  obtain ⟨hlive, hfreed, hload⟩ := hfold e.content.parts m
  refine ⟨(hlive.cons e.comNot).trans List.perm_middle.symm, hfreed, Memory.load_allocate_self, fun a ha hne => ?_⟩
  exact (Memory.load_allocate_of_ne hne).trans (hload a ha)

theorem newNode_spec {version : FmVersion} {m : Mem} {e : Entry}
    (hload : m.load e.comNot = some (.comNot e.content))
    (hnodup : (e.blocks version).Nodup) :
    ∃ m', newNode version e.comNot e.ne e.comNot_2 m = some m' ∧
      m'.live.Perm ((if version = .fm3 then [e.comNot_2] else []) ++ e.ne :: m.live) ∧ m'.freed = m.freed ∧
      m'.load e.ne = some (e.node version none) ∧
      ∀ a, a ≠ e.ne → (version = .fm3 → a ≠ e.comNot_2) → m'.load a = m.load a := by
  unfold newNode
  cases version with
  | fm3 =>
    have hne : e.ne ≠ e.comNot_2 := by
      rintro heq
      simp [Entry.blocks, heq] at hnodup
    refine ⟨(m.allocate e.ne (.node ⟨e.comNot, some e.comNot_2, none⟩)).allocate e.comNot_2
      (.comNot_2 e.content.dn e.content.additionalText), ?_, List.Perm.refl _, rfl, ?_, fun a ha hcom => ?_⟩
    · rw [if_pos rfl, loadComNot_eq hload]
      rfl
    · exact (Memory.load_allocate_of_ne hne).trans Memory.load_allocate_self
    · exact (Memory.load_allocate_of_ne (hcom rfl)).trans (Memory.load_allocate_of_ne ha)
  | fm4 =>
    refine ⟨_, if_neg (by decide), List.Perm.refl _, rfl, Memory.load_allocate_self, fun a ha _ => ?_⟩
    exact Memory.load_allocate_of_ne ha

theorem addNotValue4_spec {version : FmVersion} {s : State} {q : Queue} (h : Represents version s q) {e : Entry}
    (hfresh : Fresh version q (.add e)) :
    ∃ s', addNotValue4 version e.comNot e.ne e.comNot_2 { s with memory := convert e s.memory } = some s' ∧
      Represents version s' (q.step version (.add e)) := by
  obtain ⟨hnodup, hqueue, hdisjoint⟩ := List.nodup_append.mp hfresh
  obtain ⟨hclive, hcfreed, hccontent, hcload⟩ := convert_spec e s.memory
  obtain ⟨m, hm, hlive, hfreed, hnode, hload⟩ := newNode_spec hccontent hnodup
  -- what is in the list is elsewhere
  have hother : ∀ f ∈ q.pending, ∀ a ∈ f.blocks version, m.load a = s.memory.load a := by
    intro f hf a ha
    have hne : ∀ b ∈ e.blocks version, a ≠ b := fun b hb heq =>
      hdisjoint b hb a (List.mem_flatMap.mpr ⟨f, hf, ha⟩) heq.symm
    rw [hload a (hne _ ne_mem_blocks) fun hfm3 => hne _ (by simp [Entry.blocks, hfm3])]
    apply hcload
    · exact fun hpart => hne a (by simp [Entry.blocks, hpart]) rfl
    · exact hne _ comNot_mem_blocks
  have hcomNot : m.load e.comNot = some (.comNot e.content) := by
    rw [hload e.comNot (comNot_ne hnodup), hccontent]
    rintro rfl heq
    simp [Entry.blocks, heq] at hnodup
  have hmlive : m.live.Perm ((q.pending ++ [e]).flatMap (Entry.blocks version)) := by
    refine List.perm_iff_count.mpr fun a => ?_
    rw [hlive.count_eq, List.flatMap_append, List.flatMap_singleton, List.count_append, List.count_append,
      List.count_cons, hclive.count_eq]
    unfold Entry.blocks
    simp only [List.count_append, List.count_cons, h.live.count_eq, List.count_nil]
    unfold Entry.blocks
    omega
  have hmfreed : m.freed = q.released.flatMap (Entry.blocks version) := (hfreed.trans hcfreed).trans h.freed
  have hmnodup : ((q.pending ++ [e]).flatMap (Entry.blocks version)).Nodup := by
    rw [List.flatMap_append, List.flatMap_singleton]
    exact List.perm_append_comm.nodup_iff.mp hfresh
  have hmcontent : ∀ f ∈ q.pending ++ [e], m.load f.comNot = some (.comNot f.content) := by
    intro f hf
    rcases List.mem_append.mp hf with hf | hf
    · rw [hother f hf _ comNot_mem_blocks]
      exact h.content f hf
    · obtain rfl := List.mem_singleton.mp hf
      exact hcomNot
  unfold addNotValue4
  simp only [hm, Option.bind_eq_bind, Option.bind_some]
  rcases List.eq_nil_or_concat q.pending with hnil | ⟨front, last, hpending⟩
  · have hhead := h.list
    rw [hnil] at hhead
    have hhead : s.nVlist4 = none := hhead
    rw [hnil] at hmlive hmnodup hmcontent
    rw [hhead]
    refine ⟨_, rfl, ?_⟩
    simp only [Queue.step, hnil]
    exact ⟨⟨rfl, none, hnode, rfl⟩, rfl, hmcontent, hmlive, hmnodup, hmfreed⟩
  · have hlist := h.list
    have hlast := h.last
    rw [hpending] at hlist hlast
    rw [List.concat_eq_append] at hlist hlast hpending
    have hmem : last ∈ q.pending := by simp [hpending]
    have hloadLast : m.load last.ne = some (last.node version none) := by
      rw [hother last hmem _ ne_mem_blocks]
      exact hlist.load_eq
    obtain ⟨first, hfirst⟩ : ∃ first, s.nVlist4 = some first := by
      rw [hlist.head_eq]
      cases front <;> exact ⟨_, rfl⟩
    have hne : last.ne ≠ e.ne := fun heq =>
      hdisjoint _ ne_mem_blocks _ (List.mem_flatMap.mpr ⟨last, hmem, ne_mem_blocks⟩) heq.symm
    obtain ⟨m', hstore, hheap, hself, hrest⟩ :=
      Memory.store_of_mem (last.node version (some e.ne)) (Memory.mem_live_of_load hloadLast)
    have hlastNe : s.nVlLast4 = some last.ne := by
      rw [hlast]
      simp
    rw [hfirst, hlastNe]
    simp only [Option.bind_some, loadNode_eq hloadLast]
    refine ⟨{ memory := m', nVlist4 := some first, nVlLast4 := some e.ne }, ?_, ?_⟩
    · exact congrArg (Option.bind · _) hstore
    · have hfront : ∀ f ∈ front, f.ne ≠ last.ne := by
        intro f hf heq
        have hqueue' := hqueue
        rw [hpending] at hqueue'
        exact owners_disjoint hqueue' (by simpa using hf) ne_mem_blocks ne_mem_blocks heq.symm
      have hnodes : ∀ f ∈ front, f.ne ≠ last.ne → m'.load f.ne = s.memory.load f.ne := fun f hf hfne =>
        (hrest f.ne hfne).trans (hother f (by simp [hpending, hf]) _ ne_mem_blocks)
      have hnew : m'.load e.ne = some (e.node version none) := (hrest e.ne hne.symm).trans hnode
      refine ⟨?_, ?_, ?_, ?_, hmnodup, ?_⟩
      · simp only [Queue.step, hpending, List.append_assoc, List.singleton_append]
        rw [← hfirst]
        exact hlist.relink hfront hself hnodes ⟨rfl, none, hnew, rfl⟩
      · simp [Queue.step]
      · intro f hf
        have hload : m'.load f.comNot = m.load f.comNot := by
          apply hrest
          intro heq
          have hcontent := hmcontent f hf
          rw [heq, hloadLast] at hcontent
          cases hcontent
        exact hload.trans (hmcontent f hf)
      · change m'.heap.live.Perm _
        rw [hheap]
        exact hmlive
      · exact (congrArg Heap.freed hheap).trans hmfreed

/-! ## COM is done with a value -/

theorem unlink_spec {version : FmVersion} {front back : List Entry} {e : Entry} (s : State) (prev : Addr)
    (hlist : Segment Entry.ne (Entry.node version) s.memory.load s.nVlist4 (front ++ e :: back) none)
    (hlast : s.nVlLast4 = (front ++ e :: back).getLast?.map Entry.ne)
    (hnodup : ((front ++ e :: back).map Entry.ne).Nodup)
    (hprev : ∀ p ∈ front.getLast?, prev = p.ne) :
    ∃ s', unlink prev e.ne s = some s' ∧ s'.memory.heap = s.memory.heap ∧
      Segment Entry.ne (Entry.node version) s'.memory.load s'.nVlist4 (front ++ back) none ∧
      s'.nVlLast4 = (front ++ back).getLast?.map Entry.ne ∧
      ∀ a ∉ front.map Entry.ne, s'.memory.load a = s.memory.load a := by
  have hnode := hlist.load_eq
  have hhead := hlist.head_eq
  rw [List.map_append, List.map_cons] at hnodup
  obtain ⟨hfrontNodup, htailNodup, hdisjoint⟩ := List.nodup_append.mp hnodup
  have hnotBack : e.ne ∉ back.map Entry.ne := (List.nodup_cons.mp htailNodup).1
  have hnotFront : ∀ f ∈ front, f.ne ≠ e.ne := fun f hf =>
    hdisjoint _ (List.mem_map_of_mem hf) _ List.mem_cons_self
  have hback : Segment Entry.ne (Entry.node version) s.memory.load (back.head?.map Entry.ne) back none := by
    obtain ⟨-, -, -, next, -, hrest⟩ := Segment.append_iff.mp hlist
    rw [← hrest.head_eq]
    exact hrest
  have hlastE : s.nVlLast4 = some (back.getLast?.getD e).ne := by
    rw [hlast, List.getLast?_append, List.getLast?_cons]
    rfl
  have hlastNe : some e.ne = s.nVlLast4 ↔ back = [] := by
    rw [hlastE]
    rcases List.eq_nil_or_concat' back with rfl | ⟨between, last, rfl⟩
    · simp
    · have hne : e.ne ≠ last.ne := fun heq => hnotBack (by simp [heq])
      simp [hne]
  have hlastRest : back ≠ [] → s.nVlLast4 = (front ++ back).getLast?.map Entry.ne := by
    intro hnil
    obtain ⟨between, last, rfl⟩ := (List.eq_nil_or_concat' back).resolve_left hnil
    rw [hlastE]
    simp
  unfold unlink
  simp only [loadNode_eq hnode, Option.bind_eq_bind, Option.bind_some]
  rcases List.eq_nil_or_concat' front with rfl | ⟨before, p, rfl⟩
  · have hfirst : s.nVlist4 = some e.ne := hhead
    by_cases hnil : back = []
    · -- the only one
      subst hnil
      have hsame : s.nVlist4 = s.nVlLast4 := hfirst.trans hlastE.symm
      rw [if_pos (hlastNe.mpr rfl), if_pos hsame]
      exact ⟨_, rfl, rfl, rfl, rfl, fun _ _ => rfl⟩
    · -- the first one
      rw [if_neg (mt hlastNe.mp hnil), if_pos hfirst.symm]
      exact ⟨_, rfl, rfl, hback, hlastRest hnil, fun _ _ => rfl⟩
  · obtain rfl : prev = p.ne := hprev p (by simp)
    have hp : p ∈ before ++ [p] := by simp
    have hfirst : s.nVlist4 ≠ some e.ne := by
      rw [hhead]
      cases before with
      | nil => simpa using hnotFront p hp
      | cons f before => simpa using hnotFront f (by simp)
    have hloadP : s.memory.load p.ne = some (p.node version (some e.ne)) := by
      rw [List.append_assoc, List.singleton_append] at hlist
      exact hlist.load_eq
    obtain ⟨m', hstore, hheap, hself, hrest⟩ :=
      Memory.store_of_mem (p.node version (back.head?.map Entry.ne)) (Memory.mem_live_of_load hloadP)
    have hlinked : Segment Entry.ne (Entry.node version) m'.load s.nVlist4 (before ++ [p] ++ back) none := by
      rw [List.append_assoc, List.singleton_append] at hlist ⊢
      have hbackNe : ∀ f ∈ back, f.ne ≠ p.ne := fun f hf heq =>
        hdisjoint _ (List.mem_map_of_mem hp) _ (List.mem_cons_of_mem _ (List.mem_map_of_mem hf)) heq.symm
      have hbeforeNe : ∀ f ∈ before, f.ne ≠ p.ne := by
        rw [List.map_append] at hfrontNodup
        exact fun f hf => (List.nodup_append.mp hfrontNodup).2.2 _ (List.mem_map_of_mem hf) _ (by simp)
      exact hlist.relink hbeforeNe hself (fun f _ hne => hrest f.ne hne)
        (hback.congr fun f hf => hrest f.ne (hbackNe f hf))
    have hother : ∀ a ∉ (before ++ [p]).map Entry.ne, m'.load a = s.memory.load a := by
      intro a ha
      apply hrest
      rintro rfl
      exact ha (List.mem_map_of_mem hp)
    by_cases hnil : back = []
    · -- the last one
      subst hnil
      have hdifferent : s.nVlist4 ≠ s.nVlLast4 := by
        rw [hlastE]
        exact hfirst
      rw [if_pos (hlastNe.mpr rfl), if_neg hdifferent]
      simp only [loadNode_eq hloadP, Option.bind_some]
      refine ⟨_, congrArg (Option.bind · _) hstore, hheap, hlinked, ?_, hother⟩
      simp
    · -- one in the middle
      rw [if_neg (mt hlastNe.mp hnil), if_neg fun heq => hfirst heq.symm]
      simp only [loadNode_eq hloadP, Option.bind_some]
      exact ⟨_, congrArg (Option.bind · _) hstore, hheap, hlinked, hlastRest hnil, hother⟩

theorem freeNotification_eq {m : Mem} {inV tmp : Addr} {c : FmNotification}
    (hload : m.load inV = some (.comNot c)) :
    freeNotification inV tmp m = m.freeAll (c.parts ++ [inV, tmp]) := by
  unfold freeNotification
  simp only [loadComNot_eq hload, Option.bind_eq_bind, Option.bind_some, Memory.free_eq_freeAll]
  rw [Memory.freeAll_append]
  congr 1
  funext m
  exact (Memory.freeAll_append [inV] [tmp]).symm

theorem freeCompanion_eq {version : FmVersion} {m : Mem} {e : Entry} :
    freeCompanion version (e.handle version) m =
      m.freeAll (if version = .fm3 then [e.comNot_2] else []) := by
  cases version
  · exact Memory.free_eq_freeAll
  · rfl

theorem isNodeOf_iff {version : FmVersion} {e : Entry} {value : Addr} {next : Option Addr} :
    isNodeOf version value (e.node version next) = true ↔ value = e.handle version := by
  cases version <;> simp [isNodeOf, Entry.node, Entry.handle, eq_comm]

theorem length_le_live {version : FmVersion} {s : State} {q : Queue} (h : Represents version s q) :
    q.pending.length ≤ s.memory.live.length := by
  rw [h.live.length_eq]
  induction q.pending with
  | nil => exact Nat.zero_le _
  | cons e es ih =>
    have hpos : 0 < (e.blocks version).length := List.length_pos_of_mem ne_mem_blocks
    rw [List.flatMap_cons, List.length_append, List.length_cons]
    omega

theorem release_spec {version : FmVersion} {s : State} {q : Queue} (h : Represents version s q)
    {eventType : Option String}
    (htype : isFmEventType eventType = true) {front back : List Entry} {e : Entry}
    (hpending : q.pending = front ++ e :: back) (hfront : ∀ f ∈ front, f.handle version ≠ e.handle version) :
    ∃ s', doneWithValue version eventType (some (e.handle version)) s = some (.ok, s') ∧
      Represents version s' ⟨front ++ back, q.released ++ [e]⟩ := by
  have hlist := h.list
  have hlast := h.last
  have hcontent := h.content
  have hlive := h.live
  have hnodup := h.nodup
  rw [hpending] at hlist hlast hcontent hlive hnodup
  have hsplit : ((front ++ e :: back).flatMap (Entry.blocks version)).Perm
      (e.blocks version ++ (front ++ back).flatMap (Entry.blocks version)) :=
    List.perm_middle.flatMap_right _
  generalize hrest : (front ++ back).flatMap (Entry.blocks version) = rest at hsplit
  have hin : ∀ f ∈ front ++ back, ∀ a ∈ f.blocks version, a ∈ rest := fun f hf a ha =>
    hrest ▸ List.mem_flatMap.mpr ⟨f, hf, ha⟩
  have hmem : ∀ f ∈ front, f ∈ front ++ back := fun f hf => List.mem_append_left back hf
  -- the node is found
  obtain ⟨prev, hprev, hbefore⟩ : ∃ prev, (front.getLast?.map Entry.ne).or s.nVlist4 = some prev ∧
      ∀ p ∈ front.getLast?, prev = p.ne := by
    cases hlastFront : front.getLast? with
    | none =>
      obtain rfl := List.getLast?_eq_none_iff.mp hlastFront
      exact ⟨e.ne, hlist.head_eq, by simp⟩
    | some p => exact ⟨p.ne, rfl, by simp⟩
  have hlength : front.length < s.memory.live.length + 1 := by
    have hle := length_le_live h
    rw [hpending, List.length_append] at hle
    omega
  have hnot : ∀ f ∈ front, ∀ n, isNodeOf version (e.handle version) (f.node version n) = false := fun f hf n =>
    Bool.eq_false_iff.mpr (mt isNodeOf_iff.mp (Ne.symm (hfront f hf)))
  have hfound : ∀ n, isNodeOf version (e.handle version) (e.node version n) = true := fun n => isNodeOf_iff.mpr rfl
  have hnext : ∀ f ∈ front, ∀ n, nextOf (f.node version n) = n := fun _ _ _ => rfl
  have hseek := seek_some s.nVlist4 hlist hnext hnot hfound hlength
  rw [hprev] at hseek
  -- the struct that COM had is freed
  have hlive1 : s.memory.live.Perm ((if version = .fm3 then [e.comNot_2] else []) ++
      (e.content.parts ++ [e.comNot, e.ne] ++ rest)) := by
    rw [← List.append_assoc]
    exact hlive.trans hsplit
  obtain ⟨m1, hfree1, hrest1, hfreed1, hload1⟩ := Memory.freeAll_of_perm hlive1
  have hkept : ∀ f ∈ front ++ e :: back, m1.load f.ne = s.memory.load f.ne := by
    intro f hf
    apply hload1
    rcases List.mem_cons.mp (List.perm_middle.mem_iff.mp hf) with rfl | hf
    · simp
    · exact List.mem_append_right _ (hin f hf _ ne_mem_blocks)
  have hcontent1 : ∀ f ∈ front ++ e :: back, m1.load f.comNot = some (.comNot f.content) := by
    intro f hf
    rw [hload1, hcontent f hf]
    rcases List.mem_cons.mp (List.perm_middle.mem_iff.mp hf) with rfl | hf
    · simp
    · exact List.mem_append_right _ (hin f hf _ comNot_mem_blocks)
  -- the node is taken out
  have hnodes : ((front ++ e :: back).map Entry.ne).Nodup := owners_nodup (fun _ => ne_mem_blocks) hnodup
  obtain ⟨s2, hunlink, hheap2, hlist2, hlast2, hload2⟩ := unlink_spec { s with memory := m1 } prev
    (hlist.congr hkept) hlast hnodes hbefore
  have hcontent2 : ∀ f ∈ front ++ e :: back, s2.memory.load f.comNot = some (.comNot f.content) := by
    intro f hf
    rw [hload2, hcontent1 f hf]
    intro hnode
    obtain ⟨g, hg, heq⟩ := List.mem_map.mp hnode
    have hg : g ∈ front ++ e :: back := List.mem_append_left _ hg
    obtain ⟨next, hloadG⟩ := hlist.exists_load hg
    rw [← hkept g hg, heq, hcontent1 f hf] at hloadG
    cases hloadG
  -- the notification and its node are freed
  have hlive2 : s2.memory.live.Perm (e.content.parts ++ [e.comNot, e.ne] ++ rest) := by
    change s2.memory.heap.live.Perm _
    rw [hheap2]
    exact hrest1
  obtain ⟨m3, hfree3, hrest3, hfreed3, hload3⟩ := Memory.freeAll_of_perm hlive2
  refine ⟨{ s2 with memory := m3 }, ?_, ?_⟩
  · unfold doneWithValue
    simp only [if_pos htype, hseek, Option.bind_eq_bind, Option.bind_some, loadNode_eq hlist.load_eq,
      freeCompanion_eq,
      hfree1, hunlink, freeNotification_eq (hcontent2 e (by simp)), hfree3]
  · refine ⟨?_, hlast2, ?_, ?_, ?_, ?_⟩
    · exact hlist2.congr fun f hf => hload3 _ (hin f hf _ ne_mem_blocks)
    · intro f hf
      refine (hload3 _ (hin f hf _ comNot_mem_blocks)).trans (hcontent2 f ?_)
      exact List.perm_middle.mem_iff.mpr (List.mem_cons_of_mem e hf)
    · rw [hrest]
      exact hrest3
    · rw [hrest]
      exact (List.nodup_append.mp (hsplit.nodup_iff.mp hnodup)).2.1
    · rw [List.flatMap_append, List.flatMap_singleton, ← h.freed]
      change m3.freed = _
      rw [hfreed3]
      change s2.memory.heap.freed ++ _ = _
      rw [hheap2]
      change m1.freed ++ _ = _
      rw [hfreed1, List.append_assoc]
      rfl

theorem doneWithValue_spec {version : FmVersion} {s : State} {q : Queue} (h : Represents version s q)
    (eventType : Option String) (value : Option Addr) :
    ∃ r s', doneWithValue version eventType value s = some (r, s') ∧
      q.result version (.done eventType value) = some r ∧
      Represents version s' (q.step version (.done eventType value)) := by
  cases value with
  | none =>
    have hfind : q.find version none = none := by
      unfold Queue.find
      simp
    refine ⟨_, _, rfl, rfl, ?_⟩
    unfold Queue.step
    simp only [hfind, ite_self]
    exact h
  | some value =>
    unfold Queue.step Queue.result
    by_cases htype : isFmEventType eventType = true
    · simp only [htype, Bool.true_eq_false, if_false]
      cases hfind : q.find version (some value) with
      | none =>
        have hnone : ∀ e ∈ q.pending, value ≠ e.handle version := by
          intro e he heq
          have hnot := List.find?_eq_none.mp hfind e he
          simp [heq] at hnot
        have hnot : ∀ e ∈ q.pending, ∀ n, isNodeOf version value (e.node version n) = false := fun e he n =>
          Bool.eq_false_iff.mpr (mt isNodeOf_iff.mp (hnone e he))
        have hnext : ∀ e ∈ q.pending, ∀ n, nextOf (e.node version n) = n := fun _ _ _ => rfl
        obtain ⟨prev, hseek⟩ := seek_none s.nVlist4 h.list hnext hnot (Nat.lt_succ_of_le (length_le_live h))
        refine ⟨.notExist, s, ?_, ?_, h⟩
        · unfold doneWithValue
          simp only [if_pos htype, hseek, Option.bind_eq_bind, Option.bind_some]
        · rw [if_neg]
          rintro ⟨e, he, heq⟩
          exact hnone e he heq.symm
      | some e =>
        obtain ⟨hfound, front, back, hpending, hfront⟩ := List.find?_eq_some_iff_append.mp hfind
        obtain rfl : value = e.handle version := by simpa using hfound
        have hne : ∀ f ∈ front, f.handle version ≠ e.handle version := fun f hf heq => by
          simpa [heq] using hfront f hf
        obtain ⟨s', hdone, hrep⟩ := release_spec h htype hpending hne
        refine ⟨.ok, s', hdone, if_pos ⟨e, by simp [hpending], rfl⟩, ?_⟩
        have herase : q.pending.erase e = front ++ back := by
          rw [hpending, List.erase_append_right _ fun he => hne e he rfl, List.erase_cons_head]
        simp only [herase]
        exact hrep
    · refine ⟨.failure, s, ?_, ?_, ?_⟩
      · unfold doneWithValue
        simp only [if_neg htype]
      · exact if_pos (Bool.eq_false_iff.mpr htype)
      · simp only [if_neg htype]
        exact h

/-! ## Runs of calls -/

theorem step_spec {version : FmVersion} {s : State} {q : Queue} (h : Represents version s q) {event : Event}
    (hfresh : Fresh version q event) :
    ∃ s', step version s event = some (q.result version event, s') ∧
      Represents version s' (q.step version event) := by
  cases event with
  | add e =>
    obtain ⟨s', hadd, hrep⟩ := addNotValue4_spec h hfresh
    exact ⟨s', congrArg (Option.map _) hadd, hrep⟩
  | done eventType value =>
    obtain ⟨r, s', hdone, hresult, hrep⟩ := doneWithValue_spec h eventType value
    refine ⟨s', ?_, hrep⟩
    rw [hresult]
    exact congrArg (Option.map _) hdone

def Queue.results (version : FmVersion) : Queue → List Event → List (Option MafReturn)
  | _, [] => []
  | q, event :: events => q.result version event :: Queue.results version (q.step version event) events

theorem run_spec {version : FmVersion} {s : State} {q : Queue} (h : Represents version s q) {events : List Event}
    (hfresh : Along (Queue.step version) (Fresh version) q events) :
    ∃ s', run version s events = some (q.results version events, s') ∧
      Represents version s' (events.foldl (Queue.step version) q) := by
  induction events generalizing s q with
  | nil => exact ⟨s, rfl, h⟩
  | cons event events ih =>
    obtain ⟨s', hstep, hrep⟩ := step_spec h hfresh.1
    obtain ⟨s'', hrun, hrep''⟩ := ih hrep hfresh.2
    refine ⟨s'', ?_, hrep''⟩
    unfold run
    simp only [hstep, hrun, Option.bind_eq_bind, Option.bind_some]
    rfl

def addedBy : Event → Option Entry
  | .add e => some e
  | .done _ _ => none

theorem queue_perm {version : FmVersion} (q : Queue) (events : List Event) :
    let q' := events.foldl (Queue.step version) q
    (q'.pending ++ q'.released).Perm (q.pending ++ q.released ++ events.filterMap addedBy) := by
  induction events generalizing q with
  | nil => simp
  | cons event events ih =>
    refine (ih (q.step version event)).trans ?_
    cases event with
    | add e =>
      have hadded : (Event.add e :: events).filterMap addedBy = e :: events.filterMap addedBy := rfl
      rw [hadded]
      refine List.perm_iff_count.mpr fun a => ?_
      simp only [Queue.step, List.count_append, List.count_cons, List.count_nil]
      omega
    | done eventType value =>
      have hadded : (Event.done eventType value :: events).filterMap addedBy = events.filterMap addedBy := rfl
      rw [hadded]
      apply List.Perm.append_right
      unfold Queue.step
      dsimp only
      split
      · split
        · rename_i e hfind
          have hmem : e ∈ q.pending := List.mem_of_find?_eq_some hfind
          refine List.perm_iff_count.mpr fun a => ?_
          have hcount := (List.perm_cons_erase hmem).count_eq a
          simp only [List.count_append, List.count_cons, List.count_nil] at hcount ⊢
          omega
        · exact List.Perm.refl _
      · exact List.Perm.refl _

/-- What holds after a run: the list is that of the values that are not done, the calls returned what they shall, and
the blocks of each value that is done were freed once. -/
structure OwnedOnce (version : FmVersion) (events : List Event) (results : List (Option MafReturn)) (s : State) :
    Prop where
  list : Segment Entry.ne (Entry.node version) s.memory.load s.nVlist4
    (events.foldl (Queue.step version) {}).pending none
  last : s.nVlLast4 = (events.foldl (Queue.step version) {}).pending.getLast?.map Entry.ne
  empty_iff : (s.nVlist4 = none ↔ (events.foldl (Queue.step version) {}).pending = []) ∧
    (s.nVlLast4 = none ↔ (events.foldl (Queue.step version) {}).pending = [])
  results_eq : results = Queue.results version {} events
  all : ((events.foldl (Queue.step version) {}).pending ++ (events.foldl (Queue.step version) {}).released).Perm
    (events.filterMap addedBy)
  freed : s.memory.freed = (events.foldl (Queue.step version) {}).released.flatMap (Entry.blocks version)
  live : s.memory.live.Perm ((events.foldl (Queue.step version) {}).pending.flatMap (Entry.blocks version))

/-- Whatever the calls are, none touches a block that is freed, and the list owns each value once. -/
theorem ownedOnce_of_run (version : FmVersion) (events : List Event)
    (hfresh : Along (Queue.step version) (Fresh version) {} events) :
    ∃ results s, run version {} events = some (results, s) ∧ OwnedOnce version events results s := by
  have hinit : Represents version {} {} :=
    ⟨rfl, rfl, fun _ he => absurd he List.not_mem_nil, List.Perm.refl _, List.nodup_nil, rfl⟩
  obtain ⟨s, hrun, h⟩ := run_spec hinit hfresh
  refine ⟨_, s, hrun, h.list, h.last, ⟨?_, ?_⟩, rfl, ?_, h.freed, h.live⟩
  · rw [h.list.head_eq, Option.map_eq_none_iff, List.head?_eq_none_iff]
  · rw [h.last, Option.map_eq_none_iff, List.getLast?_eq_none_iff]
  · exact queue_perm {} events

/-! ## A call about another event -/

def oneValue : Entry where
  comNot := 1
  content := ⟨some 2, some 3, [(4, 5)], some 6⟩
  ne := 7
  comNot_2 := 8

def laterValue (offset : Nat) : Entry where
  comNot := offset + 1
  content := ⟨some (offset + 2), some (offset + 3), [(offset + 4, offset + 5)], some (offset + 6)⟩
  ne := offset + 7
  comNot_2 := offset + 8

/-- Four values, of which the second, the first and the last are done, one of them twice. -/
theorem ownedOnce_of_run_oneValue : ∃ results s,
    run .fm3 {} [.add oneValue, .add (laterValue 10), .add (laterValue 20), .add (laterValue 30),
      .done none (some 1), .done none (some 18), .done none (some 8), .done none (some 8), .done none (some 38)] =
        some (results, s) ∧
      OwnedOnce .fm3 [.add oneValue, .add (laterValue 10), .add (laterValue 20), .add (laterValue 30),
        .done none (some 1), .done none (some 18), .done none (some 8), .done none (some 8), .done none (some 38)]
        results s :=
  ownedOnce_of_run .fm3 _ (by decide +kernel)

def OkIffListed : Prop :=
  ∀ version events eventType value, Along (Queue.step version) (Fresh version) {} events →
    ∀ results s r s', run version {} events = some (results, s) →
      doneWithValue version eventType (some value) s = some (r, s') →
        (r = .ok ↔ ∃ e ∈ (events.foldl (Queue.step version) {}).pending, e.handle version = value)

/-- A call with the type of another event is refused. -/
theorem not_okIffListed : ¬OkIffListed := by
  intro h
  have hok := (h .fm4 [.add oneValue] (some "AnotherEventType") 1 (by decide) _ _ .failure _ rfl rfl).mpr
    ⟨oneValue, by decide, rfl⟩
  cases hok

end ComSA.ValueList
