import CxxpyTree.Ctype
import CxxpyTree.PoolRuns
import Mathlib.Logic.Relation

/-! The `AST` of tree/ast.cpp with pointers: its factories check the pointers they are given and
store them in nodes of the pool. -/

namespace CxxpyTree.Store
open Machine

inductive NodeType where
  | node
  | literal
  | listElem
  | nodeName
  | nodeList
  | argName
  | argValue
  | nodeValue
  | listValue
  | literalValue
  | nodeArg
  | nodeArgs
  | listArgs
  | literalArgs
  | treeNode
  | tree
  deriving DecidableEq, Repr

/-- An argument of a factory: a string or a list may be a null pointer, and a node may be any pointer. -/
inductive Arg where
  | string (arg : Option CStr)
  | index (arg : UInt8)
  | node (arg : Nat)
  | list (arg : Option (List Nat))

/-- A member of a node; copies in `raw_alloc` are the values that were copied. -/
inductive Member where
  | string (str : CStr)
  | index (index : UInt8)
  | node (ptr : Nat)
  | list (ptrs : List Nat)

structure NodeObject where
  type : NodeType
  members : List Member

/-- `sizeof` and `alignof` of the classes of nodes, which the compiler chooses. -/
structure Layout where
  size : NodeType → UInt64
  align : NodeType → Alignment

/-- A thrown `AstError` or allocation error, or a null pointer given to `strlen`. -/
inductive StoreError where
  | invalidNode (arg : Nat)
  | alloc (err : AllocError)
  | nullPtr
  deriving DecidableEq, Repr

/-- `objects` holds the nodes in the order of the pointers of `nodeAlloc`; a null root is zero. -/
structure AST where
  nodeAlloc : PoolAllocator
  rawAlloc : PoolAllocator
  objects : List NodeObject := []
  root : Nat := 0
  nTreenodes : Nat := 0

abbrev StoreM := EStateM StoreError AST

def onNodes {α : Type} (step : AllocM α) : StoreM α := fun s =>
  match step s.nodeAlloc with
  | .ok a nodeAlloc => .ok a { s with nodeAlloc }
  | .error err nodeAlloc => .error (.alloc err) { s with nodeAlloc }

def onRaw {α : Type} (step : AllocM α) : StoreM α := fun s =>
  match step s.rawAlloc with
  | .ok a rawAlloc => .ok a { s with rawAlloc }
  | .error err rawAlloc => .error (.alloc err) { s with rawAlloc }

def check (arg : Nat) : StoreM Unit := do
  let s ← get
  match s.nodeAlloc.find arg with
  | .error err => throw (.alloc err)
  | .ok found => if !found then throw (.invalidNode arg)

def checkAll : List Nat → StoreM Unit
  | [] => pure ()
  | arg :: args => do
    check arg
    checkAll args

def allocArg : Arg → StoreM Member
  | .string none => throw .nullPtr
  | .string (some str) => do
    let _ ← onRaw (PoolAllocator.allocate ((1 + str.length) % wordSize) 1)
    return .string str
  | .index arg => return .index arg
  | .node arg => do
    check arg
    return .node arg
  | .list arg => do
    let ptrs := arg.getD []
    checkAll ptrs
    if ptrs.length ≠ 0 then
      let _ ← onRaw (PoolAllocator.allocate (PoolAllocator.ptrSize * ptrs.length % wordSize) PoolAllocator.ptrSize)
      return .list ptrs
    else return .list []

/-- The arguments of a call of `new_node`. C++ leaves the order in which they are computed open;
here it is the order of the members. -/
def allocArgs : List Arg → StoreM (List Member)
  | [] => return []
  | arg :: args => do
    let member ← allocArg arg
    return member :: (← allocArgs args)

section Factories
variable (layout : Layout)

/-- `BaseAST::new_node`; the constructors of the nodes only store their arguments. -/
def newNodeOf (type : NodeType) (args : List Arg) : StoreM Nat := do
  let members ← allocArgs args
  let p ← onNodes (PoolAllocator.allocate (layout.size type).toNat (layout.align type).value)
  modify fun s => { s with objects := s.objects ++ [{ type, members }] }
  return p

def newNode : StoreM Nat := newNodeOf layout .node []
def newLiteral (str : Option CStr) : StoreM Nat := newNodeOf layout .literal [.string str]
def newListelem (index : UInt8) (node : Nat) : StoreM Nat := newNodeOf layout .listElem [.index index, .node node]
def newNodename (ident : Option CStr) : StoreM Nat := newNodeOf layout .nodeName [.string ident]
def newNodelist (base : Nat) (elems : Option (List Nat)) : StoreM Nat :=
  newNodeOf layout .nodeList [.node base, .list elems]
def newArgname (str : Option CStr) : StoreM Nat := newNodeOf layout .argName [.string str]
def newArgvalue : StoreM Nat := newNodeOf layout .argValue []
def newNodevalue (node : Nat) : StoreM Nat := newNodeOf layout .nodeValue [.node node]
def newListvalue (list : Nat) : StoreM Nat := newNodeOf layout .listValue [.node list]
def newLiteralvalue (literal : Nat) : StoreM Nat := newNodeOf layout .literalValue [.node literal]
def newNodearg (name value : Nat) : StoreM Nat := newNodeOf layout .nodeArg [.node name, .node value]
def newNodeargs : StoreM Nat := newNodeOf layout .nodeArgs []
def newListargs (list : Option (List Nat)) : StoreM Nat := newNodeOf layout .listArgs [.list list]
def newLiteralargs (literal : Nat) : StoreM Nat := newNodeOf layout .literalArgs [.node literal]
def newTreenode (name args : Nat) : StoreM Nat := newNodeOf layout .treeNode [.node name, .node args]
def newTree (root : Nat) : StoreM Nat := newNodeOf layout .tree [.node root]

end Factories

def rootNode (node : Nat) : StoreM Unit := do
  check node
  modify fun s => { s with root := node, nTreenodes := s.objects.countP (fun object => object.type = .treeNode) }

/-- The constructor, with the sizes of `POOL_SIZE`. -/
def new (nodeHeap rawHeap : Heap) : Option AST :=
  match PoolAllocator.new nodeHeap 8192 131072, PoolAllocator.new rawHeap 4096 65536 with
  | some nodeAlloc, some rawAlloc => some { nodeAlloc, rawAlloc }
  | _, _ => none

def ignore (x : StoreM Nat) : StoreM Unit := do
  let _ ← x

/-- The calls that change an `AST`. -/
inductive Call where
  | newNode
  | newLiteral (str : Option CStr)
  | newListelem (index : UInt8) (node : Nat)
  | newNodename (ident : Option CStr)
  | newNodelist (base : Nat) (elems : Option (List Nat))
  | newArgname (str : Option CStr)
  | newArgvalue
  | newNodevalue (node : Nat)
  | newListvalue (list : Nat)
  | newLiteralvalue (literal : Nat)
  | newNodearg (name value : Nat)
  | newNodeargs
  | newListargs (list : Option (List Nat))
  | newLiteralargs (literal : Nat)
  | newTreenode (name args : Nat)
  | newTree (root : Nat)
  | rootNode (node : Nat)

namespace Call

def run (layout : Layout) : Call → StoreM Unit
  | newNode => ignore (Store.newNode layout)
  | newLiteral str => ignore (Store.newLiteral layout str)
  | newListelem index node => ignore (Store.newListelem layout index node)
  | newNodename ident => ignore (Store.newNodename layout ident)
  | newNodelist base elems => ignore (Store.newNodelist layout base elems)
  | newArgname str => ignore (Store.newArgname layout str)
  | newArgvalue => ignore (Store.newArgvalue layout)
  | newNodevalue node => ignore (Store.newNodevalue layout node)
  | newListvalue list => ignore (Store.newListvalue layout list)
  | newLiteralvalue literal => ignore (Store.newLiteralvalue layout literal)
  | newNodearg name value => ignore (Store.newNodearg layout name value)
  | newNodeargs => ignore (Store.newNodeargs layout)
  | newListargs list => ignore (Store.newListargs layout list)
  | newLiteralargs literal => ignore (Store.newLiteralargs layout literal)
  | newTreenode name args => ignore (Store.newTreenode layout name args)
  | newTree root => ignore (Store.newTree layout root)
  | rootNode node => Store.rootNode node

/-- The pointers to nodes that a call is given, in fields of their own and in lists. -/
def pointers : Call → List Nat
  | newNode | newLiteral _ | newNodename _ | newArgname _ | newArgvalue | newNodeargs => []
  | newListelem _ p | newNodevalue p | newListvalue p | newLiteralvalue p | newLiteralargs p | newTree p | rootNode p =>
    [p]
  | newNodelist base elems => base :: elems.getD []
  | newListargs list => list.getD []
  | newNodearg p q | newTreenode p q => [p, q]

end Call

/-- The state a call leaves, whether it returns or throws. -/
def stateOf {ε σ α : Type} : EStateM.Result ε σ α → σ
  | .ok _ s => s
  | .error _ s => s

/-- The state after any number of calls, each of which may have thrown. -/
def runCalls (layout : Layout) (calls : List Call) (s : AST) : AST :=
  calls.foldl (fun s call => stateOf (call.run layout s)) s

def Member.pointers : Member → List Nat
  | .node ptr => [ptr]
  | .list ptrs => ptrs
  | _ => []

def NodeObject.pointers (object : NodeObject) : List Nat := object.members.flatMap Member.pointers

/-- The node at `p` points to `q`. -/
def AST.Refers (s : AST) (p q : Nat) : Prop :=
  ∃ (i : Nat) (object : NodeObject), s.nodeAlloc.ptrs[i]? = some p ∧ s.objects[i]? = some object ∧ q ∈ object.pointers

/-- Every node points only to nodes that were allocated before it, and the root is null or a node. -/
structure AST.Closed (s : AST) : Prop where
  objects : s.objects.length = s.nodeAlloc.ptrs.length
  earlier : ∀ (i : Nat) (object : NodeObject), s.objects[i]? = some object →
    ∀ q ∈ object.pointers, ∃ j, j < i ∧ s.nodeAlloc.ptrs[j]? = some q
  acyclic : ∀ p, ¬ Relation.TransGen s.Refers p p
  root : s.root = 0 ∨ s.root ∈ s.nodeAlloc.ptrs

/-- Nothing but `raw_alloc` differs. -/
structure SameNodes (s s' : AST) : Prop where
  nodeAlloc : s'.nodeAlloc = s.nodeAlloc
  objects : s'.objects = s.objects
  root : s'.root = s.root
  nTreenodes : s'.nTreenodes = s.nTreenodes

section Frame
variable {s s' s'' : AST}

theorem SameNodes.refl (s : AST) : SameNodes s s := ⟨rfl, rfl, rfl, rfl⟩

theorem SameNodes.trans (first : SameNodes s s') (second : SameNodes s' s'') : SameNodes s s'' :=
  ⟨second.nodeAlloc.trans first.nodeAlloc, second.objects.trans first.objects, second.root.trans first.root,
    second.nTreenodes.trans first.nTreenodes⟩

end Frame

def Arg.pointers : Arg → List Nat
  | .node arg => [arg]
  | .list arg => arg.getD []
  | _ => []

section Arguments
variable {s : AST}

/-- `x` returns a value that `Q` holds of only if the pointers are nodes, and leaves the nodes as
they are when it returns and when it throws. -/
def Checks {α : Type} (x : StoreM α) (pointers : List Nat) (Q : α → Prop) (s : AST) : Prop :=
  wp x (fun a s' => (∀ q ∈ pointers, q ∈ s.nodeAlloc.ptrs) ∧ Q a ∧ SameNodes s s') (fun _ s' => SameNodes s s') s

theorem Checks.bind {α β : Type} {x : StoreM α} {f : α → StoreM β} {ps qs : List Nat} {P : α → Prop} {Q : β → Prop}
    (first : Checks x ps P s) (rest : ∀ a s', P a → SameNodes s s' → Checks (f a) qs Q s') :
    Checks (x >>= f) (ps ++ qs) Q s := by
  refine wp_bind.mpr (first.mono ?_ fun _ _ same => same)
  rintro a s₁ ⟨nodes, holds, same⟩
  refine (rest a s₁ holds same).mono ?_ fun _ _ same' => same.trans same'
  rintro b s₂ ⟨nodes', holds', same'⟩
  refine ⟨?_, holds', same.trans same'⟩
  intro q member
  rcases List.mem_append.mp member with left | right
  · exact nodes q left
  · exact same.nodeAlloc ▸ nodes' q right

theorem Checks.pure {α : Type} {a : α} {Q : α → Prop} (holds : Q a) : Checks (Pure.pure a) [] Q s :=
  ⟨nofun, holds, .refl s⟩

theorem onRaw_checks {α : Type} (step : AllocM α) : Checks (onRaw step) [] (fun _ => True) s := by
  unfold Checks wp onRaw
  cases step s.rawAlloc with
  | ok a alloc => exact ⟨nofun, trivial, rfl, rfl, rfl, rfl⟩
  | error err alloc => exact ⟨rfl, rfl, rfl, rfl⟩

theorem check_run (sorted : s.nodeAlloc.ptrs.Pairwise (· < ·)) (arg : Nat) :
    check arg s = if arg ∈ s.nodeAlloc.ptrs then .ok () s else .error (.invalidNode arg) s := by
  unfold check
  rw [get_bind, PoolAllocator.find_sorted sorted]
  by_cases member : arg ∈ s.nodeAlloc.ptrs <;> simp [member] <;> rfl

theorem check_checks (sorted : s.nodeAlloc.ptrs.Pairwise (· < ·)) (arg : Nat) :
    Checks (check arg) [arg] (fun _ => True) s := by
  unfold Checks wp
  rw [check_run sorted]
  by_cases member : arg ∈ s.nodeAlloc.ptrs
  · rw [if_pos member]
    exact ⟨by simpa using member, trivial, .refl s⟩
  · rw [if_neg member]
    exact .refl s

theorem checkAll_checks : ∀ (args : List Nat) {s : AST}, s.nodeAlloc.ptrs.Pairwise (· < ·) →
    Checks (checkAll args) args (fun _ => True) s
  | [], _, _ => .pure trivial
  | arg :: args, _, sorted =>
    (check_checks sorted arg).bind fun _ _ _ same => checkAll_checks args (same.nodeAlloc.symm ▸ sorted)

theorem allocArg_checks (sorted : s.nodeAlloc.ptrs.Pairwise (· < ·)) (arg : Arg) :
    Checks (allocArg arg) arg.pointers (fun member => member.pointers = arg.pointers) s := by
  cases arg with
  | string str =>
    cases str with
    | none => exact .refl s
    | some str => exact (onRaw_checks _).bind fun _ _ _ _ => .pure rfl
  | index index => exact .pure rfl
  | node ptr =>
    have checked : Checks (do check ptr; return .node ptr) ([ptr] ++ []) (fun member => Member.pointers member = [ptr]) s :=
      (check_checks sorted ptr).bind fun _ _ _ _ => .pure rfl
    rwa [List.append_nil] at checked
  | list ptrs =>
    have checked : Checks (allocArg (.list ptrs)) (ptrs.getD [] ++ []) (fun member => member.pointers = ptrs.getD []) s := by
      apply (checkAll_checks (ptrs.getD []) sorted).bind
      intro _ s' _ _
      split
      next => exact (onRaw_checks _).bind fun _ _ _ _ => .pure rfl
      next empty => exact .pure (List.eq_nil_of_length_eq_zero (not_not.mp empty)).symm
    rwa [List.append_nil] at checked

theorem allocArgs_checks : ∀ (args : List Arg) {s : AST}, s.nodeAlloc.ptrs.Pairwise (· < ·) →
    Checks (allocArgs args) (args.flatMap Arg.pointers)
      (fun members => members.flatMap Member.pointers = args.flatMap Arg.pointers) s
  | [], _, _ => .pure rfl
  | arg :: args, _, sorted => by
    apply (allocArg_checks sorted arg).bind
    intro member s' stored same
    have rest : Checks (do return member :: (← allocArgs args)) (args.flatMap Arg.pointers ++ [])
        (fun members => members.flatMap Member.pointers = arg.pointers ++ args.flatMap Arg.pointers) s' := by
      apply (allocArgs_checks args (same.nodeAlloc.symm ▸ sorted)).bind
      intro members _ stored' _
      exact .pure (by rw [List.flatMap_cons, stored, stored'])
    rwa [List.append_nil] at rest

end Arguments

/-- What carries over from call to call. -/
structure AST.Valid (fresh : PoolAllocator) (s : AST) : Prop where
  stacked : ∃ live, PoolState.Stacked fresh ⟨s.nodeAlloc, live⟩
  objects : s.objects.length = s.nodeAlloc.ptrs.length
  earlier : ∀ (i : Nat) (object : NodeObject), s.objects[i]? = some object →
    ∀ q ∈ object.pointers, ∃ j, j < i ∧ s.nodeAlloc.ptrs[j]? = some q
  root : s.root = 0 ∨ s.root ∈ s.nodeAlloc.ptrs

section Calls
variable {fresh : PoolAllocator} {s s' : AST}

theorem AST.Valid.sorted (valid : s.Valid fresh) : s.nodeAlloc.ptrs.Pairwise (· < ·) := by
  obtain ⟨live, stacked⟩ := valid.stacked
  exact stacked.sound.increasing

theorem AST.Valid.same (valid : s.Valid fresh) (same : SameNodes s s') : s'.Valid fresh := by
  obtain ⟨nodeAlloc, objects, root, -⟩ := same
  constructor
  · rw [nodeAlloc]
    exact valid.stacked
  · rw [nodeAlloc, objects]
    exact valid.objects
  · rw [nodeAlloc, objects]
    exact valid.earlier
  · rw [nodeAlloc, root]
    exact valid.root

/-- An object whose pointers are nodes may be added behind the others. -/
theorem AST.Valid.push {alloc : PoolAllocator} {live : List Block} {r : Nat} {object : NodeObject} (valid : s.Valid fresh)
    (stacked : PoolState.Stacked fresh ⟨alloc, live⟩) (recorded : alloc.ptrs = s.nodeAlloc.ptrs ++ [r])
    (nodes : ∀ q ∈ object.pointers, q ∈ s.nodeAlloc.ptrs) :
    AST.Valid fresh { s with nodeAlloc := alloc, objects := s.objects ++ [object] } where
  stacked := ⟨live, stacked⟩
  objects := by simp [recorded, valid.objects]
  earlier := by
    intro i found at_ q member
    simp only [recorded]
    rcases Nat.lt_or_ge i s.objects.length with inside | last
    · rw [List.getElem?_append_left inside] at at_
      obtain ⟨j, before, there⟩ := valid.earlier i found at_ q member
      refine ⟨j, before, ?_⟩
      rw [List.getElem?_append_left (List.getElem?_eq_some_iff.mp there).1]
      exact there
    · rw [List.getElem?_append_right last] at at_
      obtain ⟨bound, same⟩ := List.getElem?_eq_some_iff.mp at_
      simp only [List.length_singleton] at bound
      have here : i = s.objects.length := by omega
      simp only [List.getElem_singleton] at same
      obtain ⟨j, within, there⟩ := List.getElem_of_mem (nodes q (same ▸ member))
      refine ⟨j, ?_, ?_⟩
      · rw [here, valid.objects]
        exact within
      · rw [List.getElem?_append_left within, List.getElem?_eq_getElem within, there]
  root := by
    rcases valid.root with null | node
    · exact .inl null
    · exact .inr (recorded ▸ List.mem_append_left _ node)

/-- What a call promises: it returns only if it was given nodes, and what it throws leaves them alone. -/
def Keeps (fresh : PoolAllocator) (x : StoreM Unit) (pointers : List Nat) (s : AST) : Prop :=
  wp x (fun _ s' => (∀ q ∈ pointers, q ∈ s.nodeAlloc.ptrs) ∧ s'.Valid fresh) (fun _ s' => SameNodes s s') s

theorem newNodeOf_keeps (layout : Layout) (valid : s.Valid fresh) (type : NodeType) (args : List Arg) :
    Keeps fresh (ignore (newNodeOf layout type args)) (args.flatMap Arg.pointers) s := by
  refine wp_bind.mpr (wp_bind.mpr ((allocArgs_checks args valid.sorted).mono ?_ fun _ _ same => same))
  rintro members s₁ ⟨nodes, stored, same⟩
  have valid₁ := valid.same same
  obtain ⟨live, stacked⟩ := valid₁.stacked
  rw [wp_bind]
  rcases stacked.allocate (layout.size type) (layout.align type) with ⟨err, failed⟩ | ⟨r, alloc, live', made, recorded, next⟩
  · have outcome : onNodes (PoolAllocator.allocate (layout.size type).toNat (layout.align type).value) s₁ =
        .error (.alloc err) s₁ := by simp only [onNodes, failed]
    exact (wp_of_error outcome).mpr same
  · have outcome : onNodes (PoolAllocator.allocate (layout.size type).toNat (layout.align type).value) s₁ =
        .ok r { s₁ with nodeAlloc := alloc } := by simp only [onNodes, made]
    refine (wp_of_ok outcome).mpr ⟨nodes, valid₁.push next recorded ?_⟩
    intro q member
    simp only [NodeObject.pointers, stored] at member
    exact same.nodeAlloc ▸ nodes q member

theorem rootNode_keeps (valid : s.Valid fresh) (node : Nat) : Keeps fresh (rootNode node) [node] s := by
  refine wp_bind.mpr ((check_checks valid.sorted node).mono ?_ fun _ _ same => same)
  rintro _ s₁ ⟨nodes, -, same⟩
  have valid₁ := valid.same same
  have member : node ∈ s₁.nodeAlloc.ptrs := same.nodeAlloc ▸ nodes node List.mem_cons_self
  exact ⟨nodes, valid₁.stacked, valid₁.objects, valid₁.earlier, .inr member⟩

theorem Call.run_keeps (layout : Layout) (valid : s.Valid fresh) (call : Call) :
    Keeps fresh (call.run layout) call.pointers s := by
  have made := newNodeOf_keeps layout valid
  cases call with
  | newNode => exact made .node []
  | newLiteral str => exact made .literal [.string str]
  | newListelem index node => exact made .listElem [.index index, .node node]
  | newNodename ident => exact made .nodeName [.string ident]
  | newNodelist base elems =>
    have kept := made .nodeList [.node base, .list elems]
    simp only [List.flatMap_cons, List.flatMap_nil, Arg.pointers, List.append_nil, List.singleton_append] at kept
    exact kept
  | newArgname str => exact made .argName [.string str]
  | newArgvalue => exact made .argValue []
  | newNodevalue node => exact made .nodeValue [.node node]
  | newListvalue list => exact made .listValue [.node list]
  | newLiteralvalue literal => exact made .literalValue [.node literal]
  | newNodearg name value => exact made .nodeArg [.node name, .node value]
  | newNodeargs => exact made .nodeArgs []
  | newListargs list =>
    have kept := made .listArgs [.list list]
    simp only [List.flatMap_cons, List.flatMap_nil, Arg.pointers, List.append_nil] at kept
    exact kept
  | newLiteralargs literal => exact made .literalArgs [.node literal]
  | newTreenode name args => exact made .treeNode [.node name, .node args]
  | newTree root => exact made .tree [.node root]
  | rootNode node => exact rootNode_keeps valid node

theorem AST.Valid.runCalls (layout : Layout) : ∀ (calls : List Call) {s : AST}, s.Valid fresh →
    (runCalls layout calls s).Valid fresh
  | [], _, valid => valid
  | call :: calls, s, valid => by
    have keeps := call.run_keeps layout valid
    have next : (stateOf (call.run layout s)).Valid fresh := by
      cases outcome : call.run layout s with
      | ok _ s' => exact (keeps.of_ok outcome).2
      | error err s' => exact valid.same (keeps.of_error outcome)
    exact AST.Valid.runCalls layout calls next

/-- Pointers lead to smaller addresses. -/
theorem AST.Valid.refers_lt (valid : s.Valid fresh) {p q : Nat} (refers : s.Refers p q) : q < p := by
  obtain ⟨i, object, here, at_, member⟩ := refers
  obtain ⟨j, before, there⟩ := valid.earlier i object at_ q member
  obtain ⟨insideP, rfl⟩ := List.getElem?_eq_some_iff.mp here
  obtain ⟨insideQ, rfl⟩ := List.getElem?_eq_some_iff.mp there
  exact List.pairwise_iff_getElem.mp valid.sorted j i insideQ insideP before

theorem AST.Valid.closed (valid : s.Valid fresh) : s.Closed where
  objects := valid.objects
  earlier := valid.earlier
  acyclic := by
    have lower : ∀ p q, Relation.TransGen s.Refers p q → q < p := by
      intro p q path
      induction path with
      | single refers => exact valid.refers_lt refers
      | tail _ refers ih => exact (valid.refers_lt refers).trans ih
    exact fun p path => Nat.lt_irrefl p (lower p p path)
  root := valid.root

end Calls

section Fresh
variable {layout : Layout} {nodeHeap rawHeap : Heap} {s₀ : AST}

theorem new_valid (made : new nodeHeap rawHeap = some s₀) : ∃ fresh, s₀.Valid fresh := by
  simp only [new] at made
  split at made
  next nodeAlloc rawAlloc nodes raw =>
    cases made
    have stacked := new_stacked nodes (by decide)
    exact ⟨nodeAlloc, ⟨[], stacked⟩, (congrArg List.length stacked.recorded).symm, nofun, .inl rfl⟩
  next => cases made

/-- After any calls, failing ones included, the nodes form a finite acyclic graph that holds the root;
a call that throws changes no node, and a call that is given anything but nodes throws. -/
theorem store_closed (made : new nodeHeap rawHeap = some s₀) (calls : List Call) :
    let s := runCalls layout calls s₀
    s.Closed ∧ (∀ (call : Call) (err : StoreError) (s' : AST), call.run layout s = .error err s' → SameNodes s s') ∧
      ∀ call : Call, (∃ p ∈ call.pointers, p ∉ s.nodeAlloc.ptrs) →
        ∃ err s', call.run layout s = .error err s' ∧ SameNodes s s' := by
  intro s
  obtain ⟨fresh, valid₀⟩ := new_valid made
  have valid : s.Valid fresh := valid₀.runCalls layout calls
  refine ⟨valid.closed, ?_, ?_⟩
  · intro call err s' outcome
    exact (call.run_keeps layout valid).of_error outcome
  · rintro call ⟨p, given, stranger⟩
    have keeps := call.run_keeps layout valid
    cases outcome : call.run layout s with
    | ok _ s' => exact absurd ((keeps.of_ok outcome).1 p given) stranger
    | error err s' => exact ⟨err, s', rfl, keeps.of_error outcome⟩

end Fresh

/-- Two nodes and a call that is given a pointer from elsewhere. -/
theorem store_closed_name :
    let layout : Layout := ⟨fun _ => 24, fun _ => ⟨3⟩⟩
    let s := runCalls layout [.newNodename (some "a".toList), .newNodeargs, .newListargs (some [8])]
      ⟨⟨8192, 131072, 65552, 65552, [], false⟩, ⟨4096, 65536, 1081344, 1081344, [], false⟩, [], 0, 0⟩
    s.Closed ∧ (∀ (call : Call) (err : StoreError) (s' : AST), call.run layout s = .error err s' → SameNodes s s') ∧
      ∀ call : Call, (∃ p ∈ call.pointers, p ∉ s.nodeAlloc.ptrs) →
        ∃ err s', call.run layout s = .error err s' ∧ SameNodes s s' :=
  have nodes : PoolAllocator.new (heapAt 16 (by decide)) 8192 131072 = some ⟨8192, 131072, 65552, 65552, [], false⟩ := by
    decide +kernel
  have raw : PoolAllocator.new (heapAt 1048576 (by decide)) 4096 65536 =
      some ⟨4096, 65536, 1081344, 1081344, [], false⟩ := by
    decide +kernel
  have made : new (heapAt 16 (by decide)) (heapAt 1048576 (by decide)) =
      some ⟨⟨8192, 131072, 65552, 65552, [], false⟩, ⟨4096, 65536, 1081344, 1081344, [], false⟩, [], 0, 0⟩ := by
    simp only [new, nodes, raw]
  store_closed made _

end CxxpyTree.Store
