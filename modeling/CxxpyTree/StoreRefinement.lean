import CxxpyTree.AstPool
import CxxpyTree.Lib.Budget
import CxxpyTree.StoredParser

/-! The nodes that the parser makes as they lie in the pools of the `AST`, and the room that they take there. -/

namespace CxxpyTree
open Machine Store

/-- The class of a node. -/
def AstNode.type : AstNode → NodeType
  | .literal _ => .literal
  | .listElem _ => .listElem
  | .nodeName _ => .nodeName
  | .nodeList _ => .nodeList
  | .argName _ => .argName
  | .argValue (.nodeValue _) => .nodeValue
  | .argValue (.listValue _) => .listValue
  | .argValue (.literalValue _) => .literalValue
  | .nodeArg _ => .nodeArg
  | .nodeArgs (.listArgs _) => .listArgs
  | .nodeArgs (.literalArgs _) => .literalArgs
  | .treeNode _ => .treeNode
  | .tree _ => .tree

/-- A member of a node by what it stands for. -/
inductive Part where
  | string (str : CStr)
  | index (index : UInt8)
  | node (node : AstNode)
  | list (nodes : List AstNode)

def AstNode.parts : AstNode → List Part
  | .literal ⟨str⟩ => [.string str]
  | .listElem (.mk index node) => [.index index, .node (.treeNode node)]
  | .nodeName ⟨ident⟩ => [.string ident]
  | .nodeList (.mk base elems) => [.node (.nodeName base), .list (elems.map AstNode.listElem)]
  | .argName ⟨str⟩ => [.string str]
  | .argValue (.nodeValue node) => [.node (.treeNode node)]
  | .argValue (.listValue list) => [.node (.nodeList list)]
  | .argValue (.literalValue value) => [.node (.literal value)]
  | .nodeArg (.mk name value) => [.node (.argName name), .node (.argValue value)]
  | .nodeArgs (.listArgs list) => [.list (list.map AstNode.nodeArg)]
  | .nodeArgs (.literalArgs value) => [.node (.literal value)]
  | .treeNode (.mk name args) => [.node (.nodeName name), .node (.nodeArgs args)]
  | .tree ⟨root⟩ => [.node (.treeNode root)]

/-- A pool after an allocation, if there is room for it. -/
def PoolAllocator.take (nbytes align : Nat) (s : PoolAllocator) : Option PoolAllocator :=
  match PoolAllocator.allocate nbytes align s with
  | .ok _ s' => some s'
  | .error _ _ => none

/-- `raw_alloc` after a member was copied into it. -/
def Part.copy (raw : PoolAllocator) : Part → Option PoolAllocator
  | .string str => raw.take ((1 + str.length) % wordSize) 1
  | .list nodes =>
    if nodes.length ≠ 0 then raw.take (PoolAllocator.ptrSize * nodes.length % wordSize) PoolAllocator.ptrSize
    else some raw
  | _ => some raw

/-- The pools after a node was made, if there is room for it. -/
def Pools.add (layout : Layout) (pools : Pools) (node : AstNode) : Option Pools := do
  let raw ← node.parts.foldlM Part.copy pools.raw
  let nodes ← pools.nodes.take (layout.size node.type).toNat (layout.align node.type).value
  return { nodes, raw }

/-- There is room for nodes made in this order. -/
def Pools.Fit (layout : Layout) (pools : Pools) (nodes : List AstNode) : Prop :=
  (nodes.foldlM (Pools.add layout) pools).isSome

def Store.AST.pools (ast : Store.AST) : Pools := { nodes := ast.nodeAlloc, raw := ast.rawAlloc }

/-- The nodes that were made, and the pointers to them. -/
structure World where
  nodes : List AstNode
  ptrs : List Nat

instance : Preorder World where
  le w w' := w.nodes <+: w'.nodes ∧ w.ptrs <+: w'.ptrs
  le_refl _ := ⟨List.prefix_rfl, List.prefix_rfl⟩
  le_trans _ _ _ first second := ⟨first.1.trans second.1, first.2.trans second.2⟩

namespace World

/-- The pointer leads to the node. -/
def At (w : World) (node : AstNode) (p : Nat) : Prop := ∃ i : Nat, w.ptrs[i]? = some p ∧ w.nodes[i]? = some node

/-- A member of an object shows a member of its node. -/
def Shows (w : World) : Part → Member → Prop
  | .string str, member => member = .string str
  | .index index, member => member = .index index
  | .node node, member => ∃ p, member = .node p ∧ w.At node p
  | .list nodes, member => ∃ ptrs, member = .list ptrs ∧ List.Forall₂ w.At nodes ptrs

/-- An argument of a factory stands for a member of the node to be made. -/
def Given (w : World) : Part → Arg → Prop
  | .string str, arg => arg = .string (some str)
  | .index index, arg => arg = .index index
  | .node node, arg => ∃ p, arg = .node p ∧ w.At node p
  | .list nodes, arg => ∃ ptrs, arg = .list (some ptrs) ∧ List.Forall₂ w.At nodes ptrs

/-- The objects of an `AST` are the nodes, in the order in which they were made. -/
structure Holds (w : World) (ast : Store.AST) : Prop where
  ptrs : ast.nodeAlloc.ptrs = w.ptrs
  length : w.ptrs.length = w.nodes.length
  objects : List.Forall₂ (fun node object => object.type = node.type ∧ List.Forall₂ w.Shows node.parts object.members)
    w.nodes ast.objects

section Growth
variable {w w' : World}

theorem At.mono {node : AstNode} {p : Nat} (at_ : w.At node p) (le : w ≤ w') : w'.At node p := by
  obtain ⟨i, ptr, here⟩ := at_
  obtain ⟨⟨_, nodes⟩, ⟨_, ptrs⟩⟩ := le
  refine ⟨i, ?_, ?_⟩
  · rw [← ptrs, List.getElem?_append_left (List.getElem?_eq_some_iff.mp ptr).1, ptr]
  · rw [← nodes, List.getElem?_append_left (List.getElem?_eq_some_iff.mp here).1, here]

theorem At.mem {node : AstNode} {p : Nat} (at_ : w.At node p) : p ∈ w.ptrs := by
  obtain ⟨i, ptr, -⟩ := at_
  exact List.mem_of_getElem? ptr

theorem at_all_mono {nodes : List AstNode} {ptrs : List Nat} (all : List.Forall₂ w.At nodes ptrs) (le : w ≤ w') :
    List.Forall₂ w'.At nodes ptrs := all.imp fun _ _ at_ => at_.mono le

theorem Shows.mono {part : Part} {member : Member} (shows_ : w.Shows part member) (le : w ≤ w') : w'.Shows part member := by
  cases part with
  | string str => exact shows_
  | index index => exact shows_
  | node node =>
    obtain ⟨p, same, at_⟩ := shows_
    exact ⟨p, same, at_.mono le⟩
  | list nodes =>
    obtain ⟨ptrs, same, all⟩ := shows_
    exact ⟨ptrs, same, at_all_mono all le⟩

/-- A node is added behind the others. -/
def push (w : World) (node : AstNode) (p : Nat) : World := { nodes := w.nodes ++ [node], ptrs := w.ptrs ++ [p] }

theorem le_push (w : World) (node : AstNode) (p : Nat) : w ≤ w.push node p := ⟨List.prefix_append .., List.prefix_append ..⟩

theorem at_push {node : AstNode} {p : Nat} (length : w.ptrs.length = w.nodes.length) : (w.push node p).At node p := by
  refine ⟨w.nodes.length, ?_, ?_⟩
  · rw [push, ← length, List.getElem?_concat_length]
  · rw [push, List.getElem?_concat_length]

theorem Holds.push {ast : Store.AST} {node : AstNode} {members : List Member} {p : Nat} {nodeAlloc : PoolAllocator}
    (holds : w.Holds ast) (recorded : nodeAlloc.ptrs = ast.nodeAlloc.ptrs ++ [p])
    (shown : List.Forall₂ w.Shows node.parts members) :
    (w.push node p).Holds { ast with nodeAlloc, objects := ast.objects ++ [{ type := node.type, members }] } where
  ptrs := by rw [recorded, holds.ptrs]; rfl
  length := by simp [World.push, holds.length]
  objects := by
    have later := le_push w node p
    refine List.rel_append ?_ (.cons ⟨rfl, shown.imp fun _ _ shows_ => shows_.mono later⟩ .nil)
    exact holds.objects.imp fun _ _ both => ⟨both.1, both.2.imp fun _ _ shows_ => shows_.mono later⟩

end Growth

end World

section Room
variable {s : Store.AST} {nbytes align : Nat}

/-- A pool that has room for one more object has that much less room for others. -/
theorem PoolAllocator.take_counts {pool pool' : PoolAllocator} (taken : pool.take nbytes align = some pool') :
    pool.ptrs.length < pool.nobjs ∧ pool'.ptrs.length = pool.ptrs.length + 1 ∧ pool'.nobjs = pool.nobjs := by
  have sub : ∀ {a b : Nat} {s : PoolAllocator} {Q : Nat → PoolAllocator → Prop} {E : AllocError → PoolAllocator → Prop},
      (∀ n s', s'.ptrs = s.ptrs → s'.nobjs = s.nobjs → Q n s') → wp (sizeSub a b) Q E s := fun all => by
    unfold wp sizeSub
    split_ifs
    · exact all _ _ rfl rfl
    · exact all _ _ rfl rfl
  have add : ∀ {a b : Nat} {s : PoolAllocator} {Q : Nat → PoolAllocator → Prop} {E : AllocError → PoolAllocator → Prop},
      (∀ n s', s'.ptrs = s.ptrs → s'.nobjs = s.nobjs → Q n s') → wp (sizeAdd a b) Q E s := fun all => by
    unfold wp sizeAdd
    split_ifs
    · exact all _ _ rfl rfl
    · exact all _ _ rfl rfl
  have run : wp (PoolAllocator.allocate nbytes align) (fun _ pool' => pool.ptrs.length < pool.nobjs ∧
      pool'.ptrs.length = pool.ptrs.length + 1 ∧ pool'.nobjs = pool.nobjs) (fun _ _ => True) pool := by
    unfold PoolAllocator.allocate
    rw [wp_bind, wp_get, wp_ite]
    refine ⟨fun _ => trivial, fun fewer => wp_bind.mpr (sub fun _ s₁ ptrs₁ nobjs₁ => wp_bind.mpr (sub fun _ s₂ ptrs₂ nobjs₂ =>
      wp_ite.mpr ⟨fun _ => trivial, fun _ => wp_bind.mpr (add fun _ s₃ ptrs₃ nobjs₃ =>
      wp_ite.mpr ⟨fun _ => trivial, fun _ => wp_bind.mpr (sub fun _ s₄ ptrs₄ nobjs₄ => wp_bind.mpr (sub fun _ s₅ ptrs₅ nobjs₅ =>
      wp_ite.mpr ⟨fun _ => trivial, fun _ => wp_bind.mpr (add fun _ s₆ ptrs₆ nobjs₆ => wp_bind.mpr (add fun _ s₇ ptrs₇ nobjs₇ =>
        ?_))⟩))⟩)⟩))⟩
    refine ⟨Nat.lt_of_not_le fewer, ?_, ?_⟩
    · simp only [List.length_append, List.length_singleton, ptrs₇, ptrs₆, ptrs₅, ptrs₄, ptrs₃, ptrs₂, ptrs₁]
    · simp only [nobjs₇, nobjs₆, nobjs₅, nobjs₄, nobjs₃, nobjs₂, nobjs₁]
  unfold PoolAllocator.take at taken
  split at taken
  next p pool'' ran =>
    cases taken
    exact run.of_ok ran
  next => cases taken

/-- The pools of a new `AST` are empty. -/
theorem new_nobjs {nodeHeap rawHeap : Heap} {ast : Store.AST} (made : Store.new nodeHeap rawHeap = some ast) :
    ast.pools.nodes.nobjs - ast.pools.nodes.ptrs.length = 8192 := by
  simp only [Store.new] at made
  split at made
  next nodeAlloc rawAlloc nodes raw =>
    cases made
    simp only [PoolAllocator.new] at nodes
    split at nodes
    next => cases nodes
    next => cases nodes; rfl
  next => cases made

/-- `node_alloc` has an object for each node that fits. -/
theorem Pools.Fit.length_le {layout : Layout} {pools : Pools} {nodes : List AstNode} (fit : pools.Fit layout nodes) :
    nodes.length ≤ pools.nodes.nobjs - pools.nodes.ptrs.length := by
  induction nodes generalizing pools with
  | nil => exact Nat.zero_le _
  | cons node nodes ih =>
    obtain ⟨rest, fit⟩ := Option.isSome_iff_exists.mp fit
    obtain ⟨pools', added, fit⟩ := Option.bind_eq_some_iff.mp fit
    obtain ⟨raw, _, added⟩ := Option.bind_eq_some_iff.mp added
    obtain ⟨nodes', taken, same⟩ := Option.bind_eq_some_iff.mp added
    cases same
    have later := ih (Option.isSome_iff_exists.mpr ⟨rest, fit⟩)
    obtain ⟨fewer, count, limit⟩ := PoolAllocator.take_counts taken
    simp only [count, limit] at later
    rw [List.length_cons]
    omega

theorem onRaw_some {raw : PoolAllocator} (room : s.rawAlloc.take nbytes align = some raw) :
    ∃ p, onRaw (PoolAllocator.allocate nbytes align) s = .ok p { s with rawAlloc := raw } := by
  unfold PoolAllocator.take at room
  unfold onRaw
  split at room
  next p raw' made =>
    cases room
    exact ⟨p, by rw [made]⟩
  next => cases room

theorem onRaw_none (full : s.rawAlloc.take nbytes align = none) :
    ∃ what s', onRaw (PoolAllocator.allocate nbytes align) s = .error (.alloc (.badAlloc what)) s' := by
  unfold PoolAllocator.take at full
  unfold onRaw
  split at full
  next => cases full
  next err raw failed =>
    obtain ⟨what, rfl⟩ := allocate_error failed
    exact ⟨what, _, by rw [failed]⟩

end Room

section Factories
variable {w : World} {s : Store.AST} {part : Part} {arg : Arg}

theorem check_at (sorted : s.nodeAlloc.ptrs.Pairwise (· < ·)) (same : s.nodeAlloc.ptrs = w.ptrs) {node : AstNode} {p : Nat}
    (at_ : w.At node p) : check p s = .ok () s := by
  rw [check_run sorted, if_pos (same ▸ at_.mem)]

theorem checkAll_at (sorted : s.nodeAlloc.ptrs.Pairwise (· < ·)) (same : s.nodeAlloc.ptrs = w.ptrs) {nodes : List AstNode}
    {ptrs : List Nat} (all : List.Forall₂ w.At nodes ptrs) : checkAll ptrs s = .ok () s := by
  induction all with
  | nil => rfl
  | cons at_ _ ih => rw [checkAll, bind_of_ok (check_at sorted same at_), ih]

theorem allocArg_some (sorted : s.nodeAlloc.ptrs.Pairwise (· < ·)) (same : s.nodeAlloc.ptrs = w.ptrs)
    (given : w.Given part arg) {raw : PoolAllocator} (room : part.copy s.rawAlloc = some raw) :
    ∃ member, allocArg arg s = .ok member { s with rawAlloc := raw } ∧ w.Shows part member := by
  cases part with
  | string str =>
    cases given
    obtain ⟨p, made⟩ := onRaw_some room
    exact ⟨.string str, bind_of_ok made, rfl⟩
  | index index =>
    cases given
    cases room
    exact ⟨.index index, rfl, rfl⟩
  | node node =>
    obtain ⟨p, rfl, at_⟩ := given
    cases room
    exact ⟨.node p, bind_of_ok (check_at sorted same at_), p, rfl, at_⟩
  | list nodes =>
    obtain ⟨ptrs, rfl, all⟩ := given
    refine ⟨.list ptrs, ?_, ptrs, rfl, all⟩
    rw [Part.copy, all.length_eq] at room
    rw [allocArg, Option.getD_some, bind_of_ok (checkAll_at sorted same all)]
    split at room
    next some =>
      obtain ⟨p, made⟩ := onRaw_some room
      rw [if_pos some, bind_of_ok made]
      rfl
    next none =>
      cases room
      rw [if_neg none, List.eq_nil_of_length_eq_zero (not_not.mp none)]
      rfl

theorem allocArg_none (sorted : s.nodeAlloc.ptrs.Pairwise (· < ·)) (same : s.nodeAlloc.ptrs = w.ptrs)
    (given : w.Given part arg) (full : part.copy s.rawAlloc = none) :
    ∃ what s', allocArg arg s = .error (.alloc (.badAlloc what)) s' := by
  cases part with
  | string str =>
    cases given
    obtain ⟨what, s', failed⟩ := onRaw_none full
    exact ⟨what, s', bind_of_error failed⟩
  | index index => cases full
  | node node => cases full
  | list nodes =>
    obtain ⟨ptrs, rfl, all⟩ := given
    rw [Part.copy, all.length_eq] at full
    rw [allocArg, Option.getD_some, bind_of_ok (checkAll_at sorted same all)]
    split at full
    next some =>
      obtain ⟨what, s', failed⟩ := onRaw_none full
      rw [if_pos some, bind_of_error failed]
      exact ⟨what, s', rfl⟩
    next => cases full

theorem allocArgs_some {parts : List Part} {args : List Arg} (given : List.Forall₂ w.Given parts args) :
    ∀ {s : Store.AST} {raw : PoolAllocator}, s.nodeAlloc.ptrs.Pairwise (· < ·) → s.nodeAlloc.ptrs = w.ptrs →
      parts.foldlM Part.copy s.rawAlloc = some raw →
      ∃ members, allocArgs args s = .ok members { s with rawAlloc := raw } ∧ List.Forall₂ w.Shows parts members := by
  induction given with
  | nil =>
    intro s raw _ _ room
    cases room
    exact ⟨[], rfl, .nil⟩
  | cons given _ ih =>
    intro s raw sorted same room
    obtain ⟨middle, first, rest⟩ := Option.bind_eq_some_iff.mp room
    obtain ⟨member, made, shown⟩ := allocArg_some sorted same given first
    obtain ⟨members, made', shown'⟩ := @ih { s with rawAlloc := middle } raw sorted same rest
    refine ⟨member :: members, ?_, .cons shown shown'⟩
    rw [allocArgs, bind_of_ok made, bind_of_ok made']
    rfl

theorem allocArgs_none {parts : List Part} {args : List Arg} (given : List.Forall₂ w.Given parts args) :
    ∀ {s : Store.AST}, s.nodeAlloc.ptrs.Pairwise (· < ·) → s.nodeAlloc.ptrs = w.ptrs →
      parts.foldlM Part.copy s.rawAlloc = none → ∃ what s', allocArgs args s = .error (.alloc (.badAlloc what)) s' := by
  induction given with
  | nil =>
    intro s _ _ full
    cases full
  | @cons part arg parts args given _ ih =>
    intro s sorted same full
    cases first : part.copy s.rawAlloc with
    | none =>
      obtain ⟨what, s', failed⟩ := allocArg_none sorted same given first
      exact ⟨what, s', by rw [allocArgs, bind_of_error failed]⟩
    | some middle =>
      obtain ⟨member, made, -⟩ := allocArg_some sorted same given first
      rw [List.foldlM_cons, first] at full
      obtain ⟨what, s', failed⟩ := @ih { s with rawAlloc := middle } sorted same full
      exact ⟨what, s', by rw [allocArgs, bind_of_ok made, bind_of_error failed]⟩

theorem World.Shows.mem {member : Member} (shows_ : w.Shows part member) {q : Nat} (inside : q ∈ member.pointers) : q ∈ w.ptrs := by
  cases part with
  | string str => cases shows_; cases inside
  | index index => cases shows_; cases inside
  | node node =>
    obtain ⟨p, rfl, at_⟩ := shows_
    cases List.mem_singleton.mp inside
    exact at_.mem
  | list nodes =>
    obtain ⟨ptrs, rfl, all⟩ := shows_
    obtain ⟨i, bound, rfl⟩ := List.getElem_of_mem inside
    exact (List.forall₂_iff_get.mp all).2 i (all.length_eq ▸ bound) bound |>.mem

variable {layout : Layout} {fresh : PoolAllocator} {node : AstNode} {args : List Arg}

theorem newNodeOf_some (valid : s.Valid fresh) (holds : w.Holds s) (given : List.Forall₂ w.Given node.parts args)
    {pools : Pools} (room : s.pools.add layout node = some pools) :
    ∃ p s', newNodeOf layout node.type args s = .ok p s' ∧ s'.Valid fresh ∧ (w.push node p).Holds s' ∧ s'.pools = pools := by
  obtain ⟨raw, copied, room⟩ := Option.bind_eq_some_iff.mp room
  obtain ⟨nodes, taken, same⟩ := Option.bind_eq_some_iff.mp room
  cases same
  obtain ⟨members, made, shown⟩ := allocArgs_some given valid.sorted holds.ptrs copied
  -- the copies leave the nodes alone, and the node gets the block behind theirs
  have valid₁ : AST.Valid fresh { s with rawAlloc := raw } := valid.same ⟨rfl, rfl, rfl, rfl⟩
  have holds₁ : w.Holds { s with rawAlloc := raw } := ⟨holds.ptrs, holds.length, holds.objects⟩
  obtain ⟨live, stacked⟩ := valid₁.stacked
  unfold PoolAllocator.take at taken
  rcases stacked.allocate (layout.size node.type) (layout.align node.type) with ⟨err, failed⟩ | ⟨r, alloc, live', found, recorded, next⟩
  · change PoolAllocator.allocate _ _ s.nodeAlloc = _ at failed
    rw [show s.pools.nodes = s.nodeAlloc from rfl, failed] at taken
    cases taken
  · change PoolAllocator.allocate _ _ s.nodeAlloc = _ at found
    rw [show s.pools.nodes = s.nodeAlloc from rfl, found] at taken
    cases taken
    refine ⟨r, { s with rawAlloc := raw, nodeAlloc := nodes, objects := s.objects ++ [{ type := node.type, members }] },
      ?_, valid₁.push next recorded ?_, holds₁.push recorded shown, rfl⟩
    · have placed : onNodes (PoolAllocator.allocate (layout.size node.type).toNat (layout.align node.type).value)
          { s with rawAlloc := raw } = .ok r { s with rawAlloc := raw, nodeAlloc := nodes } := by simp only [onNodes, found]
      rw [newNodeOf, bind_of_ok made, bind_of_ok placed]
      rfl
    · intro q inside
      obtain ⟨member, present, inside⟩ := List.mem_flatMap.mp inside
      obtain ⟨i, bound, rfl⟩ := List.getElem_of_mem present
      have shows_ := (List.forall₂_iff_get.mp shown).2 i (shown.length_eq ▸ bound) bound
      exact holds.ptrs ▸ shows_.mem inside

theorem newNodeOf_none (valid : s.Valid fresh) (holds : w.Holds s) (given : List.Forall₂ w.Given node.parts args)
    (full : s.pools.add layout node = none) :
    ∃ what s', newNodeOf layout node.type args s = .error (.alloc (.badAlloc what)) s' := by
  cases copied : node.parts.foldlM Part.copy s.pools.raw with
  | none =>
    obtain ⟨what, s', failed⟩ := allocArgs_none given valid.sorted holds.ptrs copied
    exact ⟨what, s', by rw [newNodeOf, bind_of_error failed]⟩
  | some raw =>
    obtain ⟨members, made, -⟩ := allocArgs_some given valid.sorted holds.ptrs copied
    rw [Pools.add, copied] at full
    unfold PoolAllocator.take at full
    cases found : PoolAllocator.allocate (layout.size node.type).toNat (layout.align node.type).value s.nodeAlloc with
    | ok r alloc =>
      rw [show s.pools.nodes = s.nodeAlloc from rfl, found] at full
      cases full
    | error err alloc =>
      obtain ⟨what, rfl⟩ := allocate_error found
      have failed : onNodes (PoolAllocator.allocate (layout.size node.type).toNat (layout.align node.type).value)
          { s with rawAlloc := raw } = .error (.alloc (.badAlloc what)) { s with rawAlloc := raw, nodeAlloc := alloc } := by
        simp only [onNodes, found]
      exact ⟨what, _, by rw [newNodeOf, bind_of_ok made, bind_of_error failed]⟩

end Factories

end CxxpyTree
