import CxxpyTree.StoredRun

/-! An `AST` as it lies in its pools, by the pointers that are followed from its root. -/

namespace CxxpyTree
open Store

/-- The object at a pointer. -/
def Store.AST.object (ast : Store.AST) (ptr : Nat) : Option NodeObject :=
  (ast.nodeAlloc.ptrs.zip ast.objects).lookup ptr

section Objects
variable {w : World} {ast : Store.AST} {parts : List Part} {members : List Member}

theorem lookup_zip {ptrs : List Nat} {objects : List NodeObject} {i p : Nat} {object : NodeObject}
    (sorted : ptrs.Pairwise (· < ·)) (ptr : ptrs[i]? = some p) (here : objects[i]? = some object) :
    (ptrs.zip objects).lookup p = some object := by
  induction ptrs generalizing objects i with
  | nil => simp at ptr
  | cons q ptrs ih =>
    obtain ⟨later, sorted⟩ := List.pairwise_cons.mp sorted
    cases objects with
    | nil => simp at here
    | cons first objects =>
      rw [List.zip_cons_cons, List.lookup_cons]
      cases i with
      | zero =>
        cases ptr
        cases here
        rw [beq_self_eq_true]
      | succ i =>
        rw [List.getElem?_cons_succ] at ptr here
        have other : p ≠ q := Nat.ne_of_gt (later p (List.mem_of_getElem? ptr))
        rw [beq_eq_false_iff_ne.mpr other]
        exact ih sorted ptr here

variable (holds : w.Holds ast) (sorted : ast.nodeAlloc.ptrs.Pairwise (· < ·))
include holds sorted

/-- A pointer to a node leads to the object with its class and its members. -/
theorem World.At.object {node : AstNode} {p : Nat} (at_ : w.At node p) :
    ∃ members, ast.object p = some ⟨node.type, members⟩ ∧ List.Forall₂ w.Shows node.parts members := by
  obtain ⟨i, ptr, here⟩ := at_
  obtain ⟨object, there, same, shown⟩ : ∃ object, ast.objects[i]? = some object ∧ object.type = node.type ∧
      List.Forall₂ w.Shows node.parts object.members := by
    have length := holds.objects.length_eq
    obtain ⟨inside, rfl⟩ := List.getElem?_eq_some_iff.mp here
    have inside' : i < ast.objects.length := length ▸ inside
    exact ⟨ast.objects[i], List.getElem?_eq_getElem inside', holds.objects.get inside inside'⟩
  refine ⟨object.members, ?_, shown⟩
  rw [← holds.ptrs] at ptr
  rw [Store.AST.object, lookup_zip sorted ptr there, ← same]

end Objects

section Members
variable {w : World} {parts : List Part} {members : List Member}

theorem World.shown_string {str : CStr} (shown : List.Forall₂ w.Shows (.string str :: parts) members) :
    ∃ rest, members = .string str :: rest ∧ List.Forall₂ w.Shows parts rest := by
  obtain ⟨member, rest, rfl, later, rfl⟩ := List.forall₂_cons_left_iff.mp shown
  exact ⟨rest, rfl, later⟩

theorem World.shown_index {index : UInt8} (shown : List.Forall₂ w.Shows (.index index :: parts) members) :
    ∃ rest, members = .index index :: rest ∧ List.Forall₂ w.Shows parts rest := by
  obtain ⟨member, rest, rfl, later, rfl⟩ := List.forall₂_cons_left_iff.mp shown
  exact ⟨rest, rfl, later⟩

theorem World.shown_node {node : AstNode} (shown : List.Forall₂ w.Shows (.node node :: parts) members) :
    ∃ p rest, members = .node p :: rest ∧ w.At node p ∧ List.Forall₂ w.Shows parts rest := by
  obtain ⟨member, rest, ⟨p, rfl, at_⟩, later, rfl⟩ := List.forall₂_cons_left_iff.mp shown
  exact ⟨p, rest, rfl, at_, later⟩

theorem World.shown_list {nodes : List AstNode} (shown : List.Forall₂ w.Shows (.list nodes :: parts) members) :
    ∃ ptrs rest, members = .list ptrs :: rest ∧ List.Forall₂ w.At nodes ptrs ∧ List.Forall₂ w.Shows parts rest := by
  obtain ⟨member, rest, ⟨ptrs, rfl, all⟩, later, rfl⟩ := List.forall₂_cons_left_iff.mp shown
  exact ⟨ptrs, rest, rfl, all, later⟩

/-- An empty list is shown by an empty one. -/
theorem World.isEmpty_shown {α : Type} {wrap : α → AstNode} {list : List α} {ptrs : List Nat}
    (all : List.Forall₂ w.At (list.map wrap) ptrs) : ptrs.isEmpty = list.isEmpty := by
  cases list with
  | nil =>
    cases all
    rfl
  | cons first list =>
    cases all
    rfl

theorem World.shown_nil (shown : List.Forall₂ w.Shows [] members) : members = [] := List.forall₂_nil_left_iff.mp shown

end Members

/-! The tree behind the pointers has no more nodes than the pools, so that the fuel lasts. -/

/-- A node of any class with its descendants. -/
def AstNode.nodes : AstNode → List AstNode
  | .literal node => node.nodes
  | .listElem node => node.nodes
  | .nodeName node => node.nodes
  | .nodeList node => node.nodes
  | .argName node => node.nodes
  | .argValue node => node.nodes
  | .nodeArg node => node.nodes
  | .nodeArgs node => node.nodes
  | .treeNode node => node.nodes
  | .tree node => node.nodes

/-- The nodes that a member stands for. -/
def Part.children : Part → List AstNode
  | .string _ => []
  | .index _ => []
  | .node child => [child]
  | .list children => children

theorem nodeArg_nodes_le {arg : NodeArg} {list : List NodeArg} (member : arg ∈ list) :
    arg.nodes.length ≤ (nodeArgListNodes list).length := by
  induction list with
  | nil => cases member
  | cons first list ih =>
    rw [nodeArgListNodes, List.length_append]
    rcases List.mem_cons.mp member with rfl | later
    · exact Nat.le_add_right _ _
    · exact Nat.le_trans (ih later) (Nat.le_add_left _ _)

theorem listElem_nodes_le {elem : ListElem} {elems : List ListElem} (member : elem ∈ elems) :
    elem.nodes.length ≤ (listElemsNodes elems).length := by
  induction elems with
  | nil => cases member
  | cons first elems ih =>
    rw [listElemsNodes, List.length_append]
    rcases List.mem_cons.mp member with rfl | later
    · exact Nat.le_add_right _ _
    · exact Nat.le_trans (ih later) (Nat.le_add_left _ _)

theorem AstNode.nodes_pos (node : AstNode) : 0 < node.nodes.length := by
  rcases node with node | ⟨_, _⟩ | node | ⟨_, _⟩ | node | (_ | _ | _) | ⟨_, _⟩ | (_ | _) | ⟨_, _⟩ | node <;>
    simp [AstNode.nodes, Literal.nodes, ListElem.nodes, NodeName.nodes, NodeList.nodes, ArgName.nodes, ArgValue.nodes,
      NodeArg.nodes, NodeArgs.nodes, TreeNode.nodes, Tree.nodes]

/-- A child has fewer nodes. -/
theorem AstNode.nodes_child {node child : AstNode} (inside : child ∈ node.parts.flatMap Part.children) :
    child.nodes.length < node.nodes.length := by
  have last : ∀ (nodes : List AstNode) (node : AstNode), (nodes ++ [node]).length = nodes.length + 1 :=
    fun _ _ => List.length_append
  rcases node with node | ⟨_, _⟩ | node | ⟨_, _⟩ | node | (_ | _ | _) | ⟨_, _⟩ | (_ | _) | ⟨_, _⟩ | node
  all_goals simp only [AstNode.parts, Part.children, List.flatMap_cons, List.flatMap_nil, List.append_nil, List.nil_append,
    List.cons_append, List.mem_cons, List.not_mem_nil, or_false, List.mem_map] at inside
  all_goals simp only [AstNode.nodes, ListElem.nodes, NodeList.nodes, ArgValue.nodes, NodeArg.nodes, NodeArgs.nodes,
    TreeNode.nodes, Tree.nodes, last, List.length_append, Nat.lt_succ_iff]
  case listElem | tree | nodeValue | listValue | literalValue | literalArgs => subst inside; exact Nat.le_refl _
  case nodeArg | treeNode => rcases inside with rfl | rfl <;> simp
  case nodeList =>
    rcases inside with rfl | ⟨elem, member, rfl⟩
    · exact Nat.le_add_right _ _
    · exact Nat.le_trans (listElem_nodes_le member) (Nat.le_add_left _ _)
  case listArgs =>
    obtain ⟨arg, member, rfl⟩ := inside
    exact nodeArg_nodes_le member

/-! The tree behind a pointer. Every pointer that is followed spends one unit of fuel; nothing is found behind one
that leads to no node, or to a node whose class has other members. -/

def AstNode.asListElem : AstNode → Option ListElem
  | .listElem elem => some elem
  | _ => none

def AstNode.asNodeArg : AstNode → Option NodeArg
  | .nodeArg arg => some arg
  | _ => none

namespace Stored
variable (ast : Store.AST)

def node : Nat → Nat → Option AstNode
  | 0, _ => none
  | fuel + 1, ptr => do
    let object ← ast.object ptr
    match object.type, object.members with
    | .literal, [.string str] => return .literal ⟨str⟩
    | .listElem, [.index index, .node ptr] => do
      let .treeNode tree ← node fuel ptr | none
      return .listElem (.mk index tree)
    | .nodeName, [.string ident] => return .nodeName ⟨ident⟩
    | .nodeList, [.node base, .list elems] => do
      let .nodeName name ← node fuel base | none
      let list ← elems.mapM fun ptr => (node fuel ptr).bind AstNode.asListElem
      return .nodeList (.mk name list)
    | .argName, [.string str] => return .argName ⟨str⟩
    | .nodeValue, [.node ptr] => do
      let .treeNode tree ← node fuel ptr | none
      return .argValue (.nodeValue tree)
    | .listValue, [.node ptr] => do
      let .nodeList list ← node fuel ptr | none
      return .argValue (.listValue list)
    | .literalValue, [.node ptr] => do
      let .literal literal ← node fuel ptr | none
      return .argValue (.literalValue literal)
    | .nodeArg, [.node name, .node value] => do
      let .argName name ← node fuel name | none
      let .argValue value ← node fuel value | none
      return .nodeArg (.mk name value)
    | .listArgs, [.list args] => do
      let list ← args.mapM fun ptr => (node fuel ptr).bind AstNode.asNodeArg
      return .nodeArgs (.listArgs list)
    | .literalArgs, [.node ptr] => do
      let .literal literal ← node fuel ptr | none
      return .nodeArgs (.literalArgs literal)
    | .treeNode, [.node name, .node args] => do
      let .nodeName name ← node fuel name | none
      let .nodeArgs args ← node fuel args | none
      return .treeNode (.mk name args)
    | .tree, [.node root] => do
      let .treeNode root ← node fuel root | none
      return .tree ⟨root⟩
    | _, _ => none

/-- The tree of an `AST`, if its root is a node of class `Tree`. -/
def tree : Option Tree := do
  let .tree tree ← node ast ast.objects.length ast.root | none
  return tree

end Stored

section Tree
variable {w : World} {ast : Store.AST}

theorem mapM_shown {α : Type} {wrap : α → AstNode} {read : Nat → Option α} {list : List α} {ptrs : List Nat}
    (all : List.Forall₂ w.At (list.map wrap) ptrs) (each : ∀ a ∈ list, ∀ p, w.At (wrap a) p → read p = some a) :
    ptrs.mapM read = some list := by
  induction list generalizing ptrs with
  | nil =>
    cases all
    rfl
  | cons a list ih =>
    obtain ⟨p, rest, at_, later, rfl⟩ := List.forall₂_cons_left_iff.mp all
    obtain ⟨here, others⟩ := List.forall_mem_cons.mp each
    rw [List.mapM_cons, here p at_, ih later others]
    rfl

variable (holds : w.Holds ast) (sorted : ast.nodeAlloc.ptrs.Pairwise (· < ·))
include holds sorted

/-- The induction is on the fuel: one unit is spent on the node, and the rest is enough for each child. -/
theorem node_shown {fuel : Nat} {node : AstNode} {p : Nat} (at_ : w.At node p) (enough : node.nodes.length ≤ fuel) :
    Stored.node ast fuel p = some node := by
  induction fuel generalizing node p with
  | zero => exact absurd node.nodes_pos (Nat.not_lt_of_le enough)
  | succ fuel ih =>
    obtain ⟨members, found, shown⟩ := at_.object holds sorted
    have child : ∀ child ∈ node.parts.flatMap Part.children, ∀ q, w.At child q → Stored.node ast fuel q = some child := by
      intro child inside q below
      exact ih below (Nat.le_of_lt_succ (Nat.lt_of_lt_of_le (AstNode.nodes_child inside) enough))
    rcases node with ⟨str⟩ | ⟨index, node⟩ | ⟨ident⟩ | ⟨base, elems⟩ | ⟨str⟩ | (node | list | literal) | ⟨name, value⟩ |
      (list | literal) | ⟨name, args⟩ | ⟨root⟩
    case literal | nodeName | argName =>
      obtain ⟨rest, rfl, later⟩ := World.shown_string shown
      cases World.shown_nil later
      simp only [Stored.node, found, AstNode.type, Option.bind_eq_bind, Option.bind_some, Option.pure_def]
    case listElem =>
      obtain ⟨rest, rfl, later⟩ := World.shown_index shown
      obtain ⟨q, rest, rfl, given, last⟩ := World.shown_node later
      cases World.shown_nil last
      have value := child (.treeNode node) (by simp [AstNode.parts, Part.children]) q given
      simp only [Stored.node, found, AstNode.type, value, Option.bind_eq_bind, Option.bind_some, Option.pure_def]
    case nodeValue | listValue | literalValue | literalArgs | tree =>
      obtain ⟨q, rest, rfl, given, later⟩ := World.shown_node shown
      cases World.shown_nil later
      have value := child _ (List.mem_singleton_self _) q given
      simp only [Stored.node, found, AstNode.type, value, Option.bind_eq_bind, Option.bind_some, Option.pure_def]
    case nodeArg | treeNode =>
      obtain ⟨q, rest, rfl, named, later⟩ := World.shown_node shown
      obtain ⟨r, rest, rfl, given, last⟩ := World.shown_node later
      cases World.shown_nil last
      have first := child _ (List.mem_cons_self ..) q named
      have second := child _ (List.mem_cons_of_mem _ (List.mem_singleton_self _)) r given
      simp only [Stored.node, found, AstNode.type, first, second, Option.bind_eq_bind, Option.bind_some, Option.pure_def]
    case nodeList =>
      obtain ⟨q, rest, rfl, named, later⟩ := World.shown_node shown
      obtain ⟨ptrs, rest, rfl, all, last⟩ := World.shown_list later
      cases World.shown_nil last
      simp only [AstNode.parts, Part.children, List.flatMap_cons, List.flatMap_nil, List.append_nil] at child
      have first := child (.nodeName base) (List.mem_cons_self ..) q named
      have second : ptrs.mapM (fun ptr => (Stored.node ast fuel ptr).bind AstNode.asListElem) = some elems := by
        refine mapM_shown all fun elem inside r at_ => ?_
        rw [child (.listElem elem) (List.mem_cons_of_mem _ (List.mem_map_of_mem inside)) r at_]
        rfl
      simp only [Stored.node, found, AstNode.type, first, second, Option.bind_eq_bind, Option.bind_some, Option.pure_def]
    case listArgs =>
      obtain ⟨ptrs, rest, rfl, all, later⟩ := World.shown_list shown
      cases World.shown_nil later
      simp only [AstNode.parts, Part.children, List.flatMap_cons, List.flatMap_nil, List.append_nil] at child
      have elems : ptrs.mapM (fun ptr => (Stored.node ast fuel ptr).bind AstNode.asNodeArg) = some list := by
        refine mapM_shown all fun arg inside r at_ => ?_
        rw [child (.nodeArg arg) (List.mem_map_of_mem inside) r at_]
        rfl
      simp only [Stored.node, found, AstNode.type, elems, Option.bind_eq_bind, Option.bind_some, Option.pure_def]

theorem tree_shown {tree : Tree} (at_ : w.At (.tree tree) ast.root) (enough : tree.nodes.length ≤ ast.objects.length) :
    Stored.tree ast = some tree := by
  rw [Stored.tree, node_shown holds sorted at_ enough]
  rfl

end Tree

end CxxpyTree
