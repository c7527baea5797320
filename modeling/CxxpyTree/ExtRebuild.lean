import CxxpyTree.ExtText

/-! The tree that the text of a printed object spells, and the object that the node maker builds from it. -/

namespace CxxpyTree.Obj
open Machine

variable {ι : Type}

def ObjType.operand : ObjType ι → Operand
  | .node _ => .node
  | .list _ => .list
  | .cptr .charPtr => .repr
  | .cptr _ => .type

def argItems (arg : ArgDef ι) : List PrintItem := [.attr arg.argName, .arg arg.argType.operand arg.argName]

/-- A `visit` method that spells the declared arguments: none, each behind its name, or one text alone. -/
inductive SpellsArgs : List (ArgDef ι) → VisitBody → Prop where
  | empty : SpellsArgs [] .empty
  | attrs {args : List (ArgDef ι)} : SpellsArgs args (.items (args.flatMap argItems ++ [.endl]))
  | literal {name : CStr} : SpellsArgs [⟨name, .cptr .charPtr⟩] (.items [.arg .repr name])

section Tree
variable (lib : ExtLibrary ι)

/-- A text that is printed without a name becomes the literal of the node. -/
def printedArgs : VisitBody → List NodeArg → NodeArgs
  | .items [.arg .repr _], [.mk _ (.literalValue literal)] => .literalArgs literal
  | _, list => .listArgs list

/-- The name between the angle brackets of a printed list. -/
def listBase : ObjType ι → NodeName
  | .list T => ⟨lib.nodeName T⟩
  | _ => ⟨[]⟩

mutual

def printedNode : Node ι → TreeNode
  | .mk type fields => .mk ⟨lib.nodeName type⟩ (printedArgs (lib.visit type) (printedFields fields (lib.members type)))
  termination_by structural node => node

def printedFields : List (Field ι) → List (ArgDef ι) → List NodeArg
  | field :: fields, arg :: args => .mk ⟨arg.argName⟩ (printedField field arg.argType) :: printedFields fields args
  | _, _ => []
  termination_by structural fields => fields

def printedField : Field ι → ObjType ι → ArgValue
  | .node ptr, _ => .nodeValue (printedNode ptr)
  | .list elems, argType => .listValue (.mk (listBase lib argType) (printedElems elems 0))
  | .charPtr str, _ => .literalValue ⟨str⟩
  | .bool val, _ => .literalValue ⟨boolText val⟩
  | .compOp val, _ => .literalValue ⟨val.name⟩
  termination_by structural field => field

def printedElems : List (Node ι) → (k : Nat) → List ListElem
  | [], _ => []
  | node :: nodes, k => .mk (UInt8.ofNat k) (printedNode node) :: printedElems nodes (k + 1)
  termination_by structural nodes => nodes

end

def printedTree (root : Node ι) : Tree := ⟨printedNode lib root⟩

end Tree

/-- The type whose nodes a pointer or a list of a declared type holds. -/
def ObjType.target : ObjType ι → Option ι
  | .node T => some T
  | .list T => some T
  | .cptr _ => none

/-- The tables, the builders and the names of a library agree, and so does the printer on the types
of `Good`, to which everything belongs that a member can hold. -/
structure Faithful (lib : ExtLibrary ι) (Good : ι → Prop) : Prop where
  sorted : lib.table.Sorted
  acyclic : lib.table.Acyclic
  named : Named lib
  entry (type : ι) : ⟨lib.nodeName type, type⟩ ∈ lib.table.newFuncs
  members (type : ι) : lib.members type = (lib.table.astType type).args
  newNode (type : ι) : lib.newNode type = ownReads (lib.table.astType type).args 0
  distinct (type : ι) : ((lib.table.astType type).args.map ArgDef.argName).Nodup
  spells {type : ι} : Good type → SpellsArgs (lib.table.astType type).args (lib.visit type)
  closed {type src T : ι} {arg : ArgDef ι} : arg ∈ (lib.table.astType type).args → arg.argType.target = some T →
    lib.table.Derives src T → Good src

section Leaves

theorem shownMember_of_mem {α : Type} : ∀ {members : List (ArgDef ι)} {shown : List (Shown α)},
    (members.map ArgDef.argName).Nodup → ∀ pair ∈ members.zip shown,
      shownMember members shown pair.1.argName = some pair
  | [], _, _, _, member => by cases member
  | _ :: _, [], _, _, member => by cases member
  | arg :: members, value :: shown, distinct, pair, member => by
    rw [List.map_cons, List.nodup_cons] at distinct
    rw [List.zip_cons_cons, List.mem_cons] at member
    unfold shownMember
    rw [List.zip_cons_cons, List.find?_cons]
    rcases member with rfl | later
    · simp
    · have other : arg.argName ≠ pair.1.argName := by
        intro same
        exact distinct.1 (same ▸ List.mem_map_of_mem (List.of_mem_zip later).1)
      simp only [other, decide_false]
      exact shownMember_of_mem distinct.2 pair later

/-- Whatever a member of a declared type can hold is `Good`. -/
def HoldsOnly (lib : ExtLibrary ι) (Good : ι → Prop) (argType : ObjType ι) : Prop :=
  ∀ {T src : ι}, argType.target = some T → lib.table.Derives src T → Good src

variable {lib : ExtLibrary ι} {Good : ι → Prop} (faithful : Faithful lib Good)
include faithful

set_option linter.unusedSectionVars false in
mutual

/-- The printed tokens of a node are the leaves of its printed tree. -/
theorem printNode_leaves {node : Node ι} (ok : NodeOk lib.table node) (good : Good node.astType) :
    printNode leafSink lib node = (printedNode lib node).leaves := by
  cases ok with
  | @mk type fields oks =>
    have body : printBody leafSink lib (lib.members type) (showFields leafSink lib fields) (lib.visit type) =
        (printedArgs (lib.visit type) (printedFields lib fields (lib.members type))).leaves := by
      have named : ∀ pair ∈ (lib.table.astType type).args.zip (showFields leafSink lib fields),
          shownMember (lib.table.astType type).args (showFields leafSink lib fields) pair.1.argName = some pair :=
        shownMember_of_mem (faithful.distinct type)
      have holds : ∀ arg ∈ (lib.table.astType type).args, HoldsOnly lib Good arg.argType :=
        fun arg member _ _ => faithful.closed member
      have printed := printArgs_leaves oks holds named
      rw [faithful.members type]
      have spells : SpellsArgs (lib.table.astType type).args (lib.visit type) := faithful.spells good
      generalize lib.visit type = visit at spells ⊢
      generalize (lib.table.astType type).args = args at oks printed spells
      cases spells with
      | empty => cases oks; rfl
      | attrs =>
        have listed : printedArgs (.items (args.flatMap argItems ++ [.endl])) (printedFields lib fields args) =
            .listArgs (printedFields lib fields args) := by
          cases args <;> rfl
        rw [listed, NodeArgs.leaves, ← printed]
        simp [printBody, printItem]
      | @literal name =>
        cases oks with
        | cons ok oks =>
          cases oks
          cases ok
          simp [printBody, printItem, showFields, showField, shownMember, printArg, printedArgs, printedFields,
            printedField, NodeArgs.leaves, Literal.leaves, leafSink]
    rw [printNode, printedNode, TreeNode.leaves, NodeName.leaves, printVisit, body]
    rfl
  termination_by structural node

theorem printArgs_leaves {args members : List (ArgDef ι)} {shown : List (Shown Leaf)} {fields : List (Field ι)}
    (oks : FieldsOk lib.table args fields) (holds : ∀ arg ∈ args, HoldsOnly lib Good arg.argType)
    (found : ∀ pair ∈ args.zip (showFields leafSink lib fields), shownMember members shown pair.1.argName = some pair) :
    (args.flatMap argItems).flatMap (printItem leafSink lib members shown) =
      nodeArgListLeaves (printedFields lib fields args) := by
  cases oks with
  | nil => rfl
  | @cons arg args field fields ok oks =>
    rw [showFields, List.zip_cons_cons] at found
    obtain ⟨first, later⟩ := List.forall_mem_cons.mp found
    obtain ⟨held, holds⟩ := List.forall_mem_cons.mp holds
    have value := printArg_leaves ok held
    have rest := printArgs_leaves oks holds later
    rw [printedFields, nodeArgListLeaves, NodeArg.leaves, ← rest, ← value]
    simp [argItems, printItem, first, leafSink, ArgName.leaves]
  termination_by structural fields

theorem printArg_leaves {argType : ObjType ι} {field : Field ι} (ok : FieldOk lib.table argType field)
    (holds : HoldsOnly lib Good argType) :
    printArg leafSink lib argType.operand argType (showField leafSink lib field) = (printedField lib field argType).leaves := by
  cases ok with
  | @node T ptr fits ok =>
    obtain ⟨src, fields⟩ := ptr
    rw [showField, printedField, ArgValue.leaves]
    exact printNode_leaves ok (holds rfl fits)
  | @list T elems _ oks =>
    have printed := printElems_leaves (k := 0) oks holds
    rw [showField, printedField, ArgValue.leaves, NodeList.leaves, ← printed]
    rfl
  | charPtr => rfl
  | bool => rfl
  | compOp => rfl
  termination_by structural field

theorem printElems_leaves {T : ι} {nodes : List (Node ι)} {k : Nat} (oks : NodesOk lib.table T nodes)
    (holds : HoldsOnly lib Good (.list T)) :
    printElems leafSink (printNodes leafSink lib nodes) k = listElemsLeaves (printedElems lib nodes k) := by
  cases oks with
  | nil => rfl
  | @cons _ node nodes fits ok oks =>
    obtain ⟨src, fields⟩ := node
    have first := printNode_leaves ok (holds rfl fits)
    have rest := printElems_leaves (k := k + 1) oks holds
    rw [printNodes, printElems, printedElems, listElemsLeaves, ListElem.leaves, ← first, ← rest]
    simp [leafSink]
  termination_by structural nodes

end

end Leaves

theorem cptrCast_boolText (val : Bool) : (cptrCast .bool (boolText val) : Except (Stop ι) _) = .ok (.bool val) := by
  cases val <;> rfl

theorem cptrCast_compOp (val : CompOp) : (cptrCast .compOp val.name : Except (Stop ι) _) = .ok (.compOp val) := by
  cases val <;> rfl

section Values
variable [DecidableEq ι] {lib : ExtLibrary ι} {Good : ι → Prop} (faithful : Faithful lib Good)

omit [DecidableEq ι] in
theorem find_entry (faithful : Faithful lib Good) (type : ι) {m : MakerState ι} (valid : lib.table.CacheValid m) :
    ∃ m', lib.table.find (lib.nodeName type) m = .ok ⟨lib.nodeName type, type⟩ m' ∧ lib.table.CacheValid m' := by
  have named : TypeNamed lib.table ⟨lib.nodeName type⟩ type := faithful.entry type
  exact find_named faithful.sorted valid named

/-- The arguments of a printed node are accepted, also where a single text stands without its name. -/
theorem accepts_printed {type : ι} (visit : VisitBody) {list : List NodeArg} {objs : List (StackObj (ObjValue ι))}
    {m m' : MakerState ι} (valued : valueNodeArgList lib.table false (nodeValues lib.table) list m = .ok objs m')
    (passes : List.Forall₂ (Passes lib.table false ObjValue.type) (lib.table.astType type).args objs) :
    ∃ objs', objs'.map StackObj.value = objs.map StackObj.value ∧
      valueNodeArgs lib.table false (nodeValues lib.table) (printedArgs visit list) m = .ok objs' m' ∧
      Accepts lib.table false ObjValue.type type (printedArgs visit list) objs' := by
  unfold printedArgs
  split
  next literal =>
    cases valued
    refine ⟨[{ value := .cptr literal.str }], rfl, rfl, ?_⟩
    unfold Accepts
    generalize (lib.table.astType type).args = args at passes
    cases passes with
    | cons passed rest => cases rest; exact .cons passed.2 .nil
  next => exact ⟨objs, rfl, valued, passes⟩

include faithful

set_option linter.unusedSectionVars false in
mutual

theorem value_of_printedNode {node : Node ι} (ok : NodeOk lib.table node) {m : MakerState ι}
    (valid : lib.table.CacheValid m) :
    ∃ m', valueTreeNode lib.table false (nodeValues lib.table) (printedNode lib node) m = .ok (.node node.astType node) m' ∧
      lib.table.CacheValid m' := by
  cases ok with
  | @mk type fields oks =>
    obtain ⟨objs, m₁, valued, valid₁, passes, filled⟩ := value_of_printedFields oks valid
    obtain ⟨m₂, found, valid₂⟩ := find_entry faithful type valid₁
    obtain ⟨objs', values, valued', accepts⟩ := accepts_printed (lib.visit type) valued passes
    obtain ⟨m₃, made, cache⟩ : ∃ m₃, nodeFromValues lib.table false (nodeValues lib.table) type _ objs' m₂ =
        .ok (.node type (.mk type fields)) m₃ ∧ m₃.cache = m₂.cache :=
      ⟨_, (nodeFromValues_ok (valueNodeArgs_length valued')).mpr
        ⟨rfl, accepts, by rw [nodeValues_node, values, filled]; rfl⟩, rfl⟩
    refine ⟨m₃, ?_, cacheValid_of_cache cache valid₂⟩
    rw [printedNode, faithful.members, valueTreeNode, bind_of_ok valued', bind_of_ok found]
    exact made
  termination_by structural node

theorem value_of_printedFields {args : List (ArgDef ι)} {fields : List (Field ι)} (oks : FieldsOk lib.table args fields)
    {m : MakerState ι} (valid : lib.table.CacheValid m) :
    ∃ objs m', valueNodeArgList lib.table false (nodeValues lib.table) (printedFields lib fields args) m = .ok objs m' ∧
      lib.table.CacheValid m' ∧ List.Forall₂ (Passes lib.table false ObjValue.type) args objs ∧
      argFields args (objs.map StackObj.value) = .ok fields := by
  cases oks with
  | nil => exact ⟨[], m, rfl, valid, .nil, rfl⟩
  | @cons arg args field fields ok oks =>
    obtain ⟨v, m₁, valued, valid₁, cast, made⟩ := value_of_printedField ok valid
    obtain ⟨objs, m₂, rest, valid₂, passes, filled⟩ := value_of_printedFields oks valid₁
    refine ⟨{ name := some arg.argName, value := v } :: objs, m₂, ?_, valid₂, .cons ⟨rfl, cast⟩ passes, ?_⟩
    · have first : valueNodeArg lib.table false (nodeValues lib.table)
          (.mk ⟨arg.argName⟩ (printedField lib field arg.argType)) m =
          .ok { name := some arg.argName, value := v } m₁ := by
        rw [valueNodeArg, bind_of_ok valued]
        rfl
      rw [printedFields, valueNodeArgList, bind_of_ok first, bind_of_ok rest]
      rfl
    · rw [List.map_cons, argFields, made, filled]
      rfl
  termination_by structural fields

theorem value_of_printedField {argType : ObjType ι} {field : Field ι} (ok : FieldOk lib.table argType field)
    {m : MakerState ι} (valid : lib.table.CacheValid m) :
    ∃ v m', valueArgValue lib.table false (nodeValues lib.table) (printedField lib field argType) m = .ok v m' ∧
      lib.table.CacheValid m' ∧ lib.table.objTypeCast false argType v.type = .yes ∧ argField argType v = .ok field := by
  cases ok with
  | @node T ptr fits ok =>
    obtain ⟨m', valued, valid'⟩ := value_of_printedNode ok valid
    obtain ⟨src, fields⟩ := ptr
    refine ⟨.node src (.mk src fields), m', ?_, valid', (TypeTable.typeCast_relaxed faithful.acyclic).mpr fits, rfl⟩
    rw [printedField, valueArgValue]
    exact valued
  | @list T elems bounded oks =>
    obtain ⟨values, m₁, valued, valid₁, casts, listed⟩ := value_of_printedElems (k := 0) oks (by omega) valid
    obtain ⟨m₂, found, valid₂⟩ := find_entry faithful T valid₁
    obtain ⟨m₃, made, cache⟩ : ∃ m₃, listFromValues lib.table false (nodeValues lib.table) T values m₂ =
        .ok (.list T elems) m₃ ∧ m₃.cache = m₂.cache :=
      ⟨_, listFromValues_ok.mpr ⟨rfl, casts, by rw [nodeValues_list, listed]; rfl⟩, rfl⟩
    refine ⟨.list T elems, m₃, ?_, cacheValid_of_cache cache valid₂,
      (TypeTable.typeCast_relaxed faithful.acyclic).mpr Walk.Meets.refl, rfl⟩
    rw [printedField, listBase, valueArgValue, valueNodeList, bind_of_ok valued, bind_of_ok found]
    exact made
  | @charPtr str => exact ⟨.cptr str, m, by rw [printedField, valueArgValue]; rfl, valid, rfl, rfl⟩
  | @bool val => exact ⟨.cptr (boolText val), m, by rw [printedField, valueArgValue]; rfl, valid, rfl, cptrCast_boolText val⟩
  | @compOp val => exact ⟨.cptr val.name, m, by rw [printedField, valueArgValue]; rfl, valid, rfl, cptrCast_compOp val⟩
  termination_by structural field

theorem value_of_printedElems {T : ι} {nodes : List (Node ι)} {k : Nat} (oks : NodesOk lib.table T nodes)
    (bounded : k + nodes.length ≤ 256) {m : MakerState ι} (valid : lib.table.CacheValid m) :
    ∃ values m', valueListElems lib.table false (nodeValues lib.table) (printedElems lib nodes k) k m = .ok values m' ∧
      lib.table.CacheValid m' ∧ (∀ value ∈ values, lib.table.listTypeCast false T value.type = .yes) ∧
      listElems values = .ok nodes := by
  cases nodes with
  | nil => exact ⟨[], m, rfl, valid, by simp, rfl⟩
  | cons node nodes =>
    obtain ⟨fits, ok, oks⟩ := nodesOk_cons.mp oks
    rw [List.length_cons] at bounded
    obtain ⟨m₁, first, valid₁⟩ := value_of_printedNode ok valid
    obtain ⟨values, m₂, rest, valid₂, casts, listed⟩ := value_of_printedElems (k := k + 1) oks (by omega) valid₁
    obtain ⟨src, fields⟩ := node
    have index : (UInt8.ofNat k).toNat = k := by simp [Nat.mod_eq_of_lt (show k < 256 by omega)]
    refine ⟨.node src (.mk src fields) :: values, m₂, ?_, valid₂, ?_, ?_⟩
    · have elem : valueListElem lib.table false (nodeValues lib.table)
          (.mk (UInt8.ofNat k) (printedNode lib (.mk src fields))) k m = .ok (.node src (.mk src fields)) m₁ := by
        rw [valueListElem_run, if_neg (not_not.mpr index)]
        exact first
      rw [printedElems, valueListElems, bind_of_ok elem, bind_of_ok rest]
      rfl
    · exact List.forall_mem_cons.mpr ⟨(TypeTable.typeCast_relaxed faithful.acyclic).mpr fits, casts⟩
    · rw [listElems, listed]
      rfl
  termination_by structural nodes

end

end Values

end CxxpyTree.Obj
