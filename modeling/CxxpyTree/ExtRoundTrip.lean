import CxxpyTree.ExtRebuild
import CxxpyTree.ObjectRequests
import CxxpyTree.StoredPrinter

/-! Printed objects that rebuild to themselves. -/

namespace CxxpyTree.Obj
open Machine

variable {ι : Type} [DecidableEq ι]

/-- The text printed for `obj` parses, and the node maker under relaxed casts builds `obj` from its tree. -/
def Rebuilds (lib : ExtLibrary ι) (type : InputType) (obj : Node ι) : Prop :=
  ∃ tree astType, parseText type (lib.print obj) = .ok tree ∧
    (eval lib.table (lib.nodeMaker false) tree {}).1 = .ok (.node astType obj)

section Library
variable {lib : ExtLibrary ι} {Good : ι → Prop} (faithful : Faithful lib Good) {obj : Node ι}
variable (ok : NodeOk lib.table obj)
include faithful ok

/-- The printed tree of an object builds the object under relaxed casts. -/
theorem eval_printedTree : (eval lib.table (lib.nodeMaker false) (printedTree lib obj) {}).1 = .ok (.node obj.astType obj) := by
  obtain ⟨m', valued, _⟩ := value_of_printedNode faithful ok (m := {}) (fun _ cached => nomatch cached)
  rw [nodeMaker_eq false faithful.newNode]
  exact (eval_returns_iff (nodeMaker_implements lib.table false) rfl).mpr ⟨m', valued⟩

theorem rebuilds_of_quotable (good : Good obj.astType) (quotable : ∀ text ∈ obj.charPtrs, Quotable text)
    (type : InputType) : Rebuilds lib type obj := by
  have shown := printNode_shows faithful.named ok quotable
  rw [printNode_leaves faithful ok good] at shown
  exact ⟨printedTree lib obj, obj.astType, parseText_of_shows shown type, eval_printedTree faithful ok⟩

/-- The texts of an object that is rebuilt have been read from between apostrophes. -/
theorem quotable_of_rebuilds {type : InputType} (safe : ∀ text ∈ obj.charPtrs, bareApostrophe text = false)
    (rebuilds : Rebuilds lib type obj) : ∀ text ∈ obj.charPtrs, Quotable text := by
  obtain ⟨tree, astType, parsed, built⟩ := rebuilds
  rw [nodeMaker_eq false faithful.newNode] at built
  obtain ⟨_, texts⟩ := eval_object built
  obtain ⟨first, last, _, reads, _⟩ := reads_of_parseText parsed
  have free : nul ∉ lib.print obj := by
    unfold ExtLibrary.print
    rw [List.mem_append, not_or]
    exact ⟨printNode_nul_free faithful.named ok fun text member => reads.nul_free (texts text member), by decide⟩
  intro text member
  have lexed := lexed_of_parseText free parsed _ (texts text member)
  exact lexed.printable (by rintro body ⟨⟩; exact safe text member)

end Library

/-- The text printed for `obj` is read into the `AST`, and from there the node maker under relaxed casts builds `obj` in
pools of its own. -/
def RebuildsIn (lib : ExtLibrary ι) (layout : Store.Layout) (ast : Store.AST) (classes : Classes ι) (pools : Pools)
    (type : InputType) (obj : Node ι) : Prop :=
  ∃ ast' tree astType, Stored.parseText layout type (lib.print obj) ast = .ok ast' ∧ Stored.tree ast' = some tree ∧
    (eval lib.table (lib.nodeMakerOn false (demand classes pools)) tree {}).1 = .ok (.node astType obj)

section Pools
variable {layout : Store.Layout} {nodeHeap rawHeap : Heap} {ast : Store.AST} (made : Store.new nodeHeap rawHeap = some ast)
variable {lib : ExtLibrary ι} {Good : ι → Prop} (faithful : Faithful lib Good) {obj : Node ι}
variable (ok : NodeOk lib.table obj) (good : Good obj.astType) {classes : Classes ι} {pools : Pools}
include made faithful ok good

/-- What is read back is rebuilt in the pools as well if they have room for the tree and for the object. -/
theorem rebuildsIn_iff (safe : ∀ text ∈ obj.charPtrs, bareApostrophe text = false) (type : InputType) :
    RebuildsIn lib layout ast classes pools type obj ↔ (∀ text ∈ obj.charPtrs, Quotable text) ∧
      ast.pools.Fit layout (printedTree lib obj).nodes ∧ Serve classes pools obj.requests := by
  have on := nodeMakerOn_eq false faithful.newNode (demand classes pools)
  have off := nodeMaker_eq false faithful.newNode
  have empty : Serve classes pools ({} : MakerState ι).asked := rfl
  have printed (quotable : ∀ text ∈ obj.charPtrs, Quotable text) :
      parseText type (lib.print obj) = .ok (printedTree lib obj) := by
    have shown := printNode_shows faithful.named ok quotable
    rw [printNode_leaves faithful ok good] at shown
    exact parseText_of_shows shown type
  constructor
  · rintro ⟨ast', tree, astType, ran, read, built⟩
    obtain ⟨room, tree', parsed, shows_⟩ := storedText_returned made ran
    cases read.symm.trans shows_.read
    rw [on, eval_demand_iff empty] at built
    have quotable := quotable_of_rebuilds faithful ok safe ⟨tree, astType, parsed, by rw [off]; exact built.1⟩
    have nodes := parseNodes_of_parsed (printed quotable)
    exact ⟨quotable, nodes ▸ room, built.2⟩
  · rintro ⟨quotable, room, serve⟩
    have parsed := printed quotable
    obtain ⟨ast', ran, shows_⟩ := storedText_shows made (by rwa [parseNodes_of_parsed parsed]) parsed
    refine ⟨ast', printedTree lib obj, obj.astType, ran, shows_.read, ?_⟩
    rw [on, eval_demand_iff empty, ← off]
    exact ⟨eval_printedTree faithful ok, serve⟩

end Pools

end CxxpyTree.Obj
