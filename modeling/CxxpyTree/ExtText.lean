import CxxpyTree.ExtObject
import CxxpyTree.ExtPrinter

/-! What an extension printer writes: related piece by piece for two sinks, from that the tokens
that the printed text shows. -/

namespace CxxpyTree.Obj

variable {ι α β : Type}

/-- The names given to `attr` in a `visit` method. -/
def VisitBody.attrs : VisitBody → List CStr
  | .empty => []
  | .items body => body.flatMap fun item =>
    match item with
    | .attr attr => [attr]
    | _ => []

section Relation
variable (lib : ExtLibrary ι) (Text : CStr → Prop) (R : List α → List β → Prop) (sink : Sink α) (sink' : Sink β)

/-- Two sinks that agree on every piece a library prints, with texts that satisfy `Text`. -/
structure Relates : Prop where
  nil : R [] []
  append {a a' : List α} {b b' : List β} : R a b → R a' b' → R (a ++ a') (b ++ b')
  nodeBegin (type : ι) : R (sink.nodeBegin (lib.nodeName type)) (sink'.nodeBegin (lib.nodeName type))
  nodeEnd : R sink.nodeEnd sink'.nodeEnd
  attr {type : ι} {attr : CStr} : attr ∈ (lib.visit type).attrs → R (sink.attr attr) (sink'.attr attr)
  quoted {text : CStr} : Text text → R (sink.quoted text) (sink'.quoted text)
  bool (val : Bool) : Text (boolText val)
  compOp (val : CompOp) : Text val.name
  listBegin (type : ι) : R (sink.listBegin (lib.nodeName type)) (sink'.listBegin (lib.nodeName type))
  elemBegin {k : Nat} : k < 256 → R (sink.elemBegin k) (sink'.elemBegin k)
  listEnd : R sink.listEnd sink'.listEnd

inductive ShownRelated : Shown α → Shown β → Prop where
  | node {out : List α} {out' : List β} : R out out' → ShownRelated (.node out) (.node out')
  | list {elems : List (List α)} {elems' : List (List β)} : elems.length ≤ 256 → List.Forall₂ R elems elems' →
      ShownRelated (.list elems) (.list elems')
  | charPtr {str : CStr} : Text str → ShownRelated (.charPtr str) (.charPtr str)
  | bool {val : Bool} : ShownRelated (.bool val) (.bool val)
  | compOp {val : CompOp} : ShownRelated (.compOp val) (.compOp val)

variable {lib Text R sink sink'}

theorem shownMember_related {member : CStr} : ∀ {members : List (ArgDef ι)} {shown : List (Shown α)}
    {shown' : List (Shown β)}, List.Forall₂ (ShownRelated Text R) shown shown' →
    Option.Rel (fun pair pair' => pair.1 = pair'.1 ∧ ShownRelated Text R pair.2 pair'.2)
      (shownMember members shown member) (shownMember members shown' member)
  | [], _, _, _ => .none
  | _ :: _, _, _, .nil => .none
  | arg :: members, _ :: _, _ :: _, .cons first rest => by
    unfold shownMember
    rw [List.zip_cons_cons, List.zip_cons_cons, List.find?_cons, List.find?_cons]
    cases same : decide (arg.argName = member) with
    | true => exact .some ⟨rfl, first⟩
    | false => exact shownMember_related rest

theorem printNodes_length : ∀ {nodes : List (Node ι)}, (printNodes sink lib nodes).length = nodes.length
  | [] => rfl
  | _ :: nodes => by rw [printNodes, List.length_cons, List.length_cons, printNodes_length]

variable (relates : Relates lib Text R sink sink')
include relates

theorem printElems_related : ∀ {elems : List (List α)} {elems' : List (List β)} {k : Nat}, List.Forall₂ R elems elems' →
    k + elems.length ≤ 256 → R (printElems sink elems k) (printElems sink' elems' k)
  | [], [], _, .nil, _ => relates.nil
  | _ :: _, _ :: _, k, .cons first rest, bounded => by
    rw [List.length_cons] at bounded
    exact relates.append (relates.elemBegin (by omega))
      (relates.append first (printElems_related rest (by omega)))

theorem printArg_related {operand : Operand} {argType : ObjType ι} {value : Shown α} {value' : Shown β}
    (same : ShownRelated Text R value value') :
    R (printArg sink lib operand argType value) (printArg sink' lib operand argType value') := by
  cases same with
  | node out => cases operand <;> cases argType <;> first | exact out | exact relates.nil
  | list bounded elems =>
    have printed := printElems_related relates (k := 0) elems (by omega)
    cases operand <;> cases argType <;>
      first
        | exact relates.append (relates.listBegin _) (relates.append printed relates.listEnd)
        | exact relates.nil
  | charPtr text => cases operand <;> cases argType <;> first | exact relates.quoted text | exact relates.nil
  | @bool val => cases operand <;> cases argType <;> first | exact relates.quoted (relates.bool val) | exact relates.nil
  | @compOp val =>
    cases operand <;> cases argType <;> first | exact relates.quoted (relates.compOp val) | exact relates.nil

theorem printItem_related {type : ι} {members : List (ArgDef ι)} {shown : List (Shown α)} {shown' : List (Shown β)}
    (same : List.Forall₂ (ShownRelated Text R) shown shown') {item : PrintItem}
    (declared : ∀ attr, item = .attr attr → attr ∈ (lib.visit type).attrs) :
    R (printItem sink lib members shown item) (printItem sink' lib members shown' item) := by
  cases item with
  | attr attr => exact relates.attr (declared attr rfl)
  | endl => exact relates.nil
  | arg operand member =>
    have found : Option.Rel _ (shownMember members shown member) (shownMember members shown' member) :=
      shownMember_related same
    simp only [printItem]
    generalize shownMember members shown member = left at found
    generalize shownMember members shown' member = right at found
    cases found with
    | none => exact relates.nil
    | @some pair pair' both =>
      obtain ⟨arg, value⟩ := pair
      obtain ⟨arg', value'⟩ := pair'
      obtain ⟨rfl, related⟩ := both
      exact printArg_related relates related

theorem printVisit_related {type : ι} {shown : List (Shown α)} {shown' : List (Shown β)}
    (same : List.Forall₂ (ShownRelated Text R) shown shown') :
    R (printVisit sink lib type shown) (printVisit sink' lib type shown') := by
  refine relates.append (relates.nodeBegin type) (relates.append ?_ relates.nodeEnd)
  cases body : lib.visit type with
  | empty => exact relates.nil
  | items items =>
    have declared : ∀ item ∈ items, ∀ attr, item = .attr attr → attr ∈ (lib.visit type).attrs := by
      rintro item member attr rfl
      rw [body]
      exact List.mem_flatMap.mpr ⟨_, member, List.mem_singleton_self _⟩
    simp only [printBody]
    clear body
    induction items with
    | nil => exact relates.nil
    | cons item items ih =>
      obtain ⟨first, later⟩ := List.forall_mem_cons.mp declared
      rw [List.flatMap_cons, List.flatMap_cons]
      exact relates.append (printItem_related relates same first) (ih later)

set_option linter.unusedSectionVars false in
mutual

theorem printNode_related {t : TypeTable ι} {node : Node ι} (ok : NodeOk t node) (texts : ∀ text ∈ node.charPtrs, Text text) :
    R (printNode sink lib node) (printNode sink' lib node) := by
  cases ok with
  | @mk type fields oks =>
    rw [printNode, printNode]
    exact printVisit_related relates (showFields_related oks texts)
  termination_by structural node

theorem showFields_related {t : TypeTable ι} {args : List (ArgDef ι)} {fields : List (Field ι)} (oks : FieldsOk t args fields)
    (texts : ∀ text ∈ fieldsCharPtrs fields, Text text) :
    List.Forall₂ (ShownRelated Text R) (showFields sink lib fields) (showFields sink' lib fields) := by
  cases oks with
  | nil => rw [showFields, showFields]; exact .nil
  | cons ok oks =>
    rw [fieldsCharPtrs, List.forall_mem_append] at texts
    rw [showFields, showFields]
    exact .cons (showField_related ok texts.1) (showFields_related oks texts.2)
  termination_by structural fields

theorem showField_related {t : TypeTable ι} {argType : ObjType ι} {field : Field ι} (ok : FieldOk t argType field)
    (texts : ∀ text ∈ field.charPtrs, Text text) :
    ShownRelated Text R (showField sink lib field) (showField sink' lib field) := by
  cases ok with
  | node _ ok => rw [showField, showField]; exact .node (printNode_related ok texts)
  | list bounded oks =>
    rw [showField, showField]
    exact .list (by rw [printNodes_length]; exact bounded) (printNodes_related oks texts)
  | charPtr => exact .charPtr (texts _ (List.mem_singleton_self _))
  | bool => exact .bool
  | compOp => exact .compOp
  termination_by structural field

theorem printNodes_related {t : TypeTable ι} {T : ι} {nodes : List (Node ι)} (oks : NodesOk t T nodes)
    (texts : ∀ text ∈ nodesCharPtrs nodes, Text text) :
    List.Forall₂ R (printNodes sink lib nodes) (printNodes sink' lib nodes) := by
  cases oks with
  | nil => rw [printNodes, printNodes]; exact .nil
  | cons _ ok oks =>
    rw [nodesCharPtrs, List.forall_mem_append] at texts
    rw [printNodes, printNodes]
    exact .cons (printNode_related ok texts.1) (printNodes_related oks texts.2)
  termination_by structural nodes

end

end Relation

/-- The letters of a token that starts like an identifier. -/
def isWord : CStr → Bool
  | [] => false
  | c :: tail => isident0 c && tail.all isident

theorem spelled_of_isWord {str : CStr} (word : isWord str = true) : Item.Spelled (.word str) str := by
  cases str with
  | nil => cases word
  | cons c tail =>
    obtain ⟨first, later⟩ := Bool.and_eq_true_iff.mp word
    exact .word first (List.all_eq_true.mp later)

/-- Whether a text can stand between two quotes. -/
def isBody (quote : Char) : List Char → Bool
  | [] => true
  | [c] => isPlainChar c && c != backslash && c != quote
  | c :: d :: rest =>
    if c == backslash then d != newline && isBody quote rest
    else isPlainChar c && c != quote && isBody quote (d :: rest)

theorem isBody_iff {quote : Char} {body : List Char} : isBody quote body = true ↔ LiteralBody quote body := by
  fun_induction isBody quote body with
  | case1 => exact iff_of_true rfl .nil
  | case2 c =>
    simp only [Bool.and_eq_true, bne_iff_ne, ne_eq]
    constructor
    · rintro ⟨⟨plain, unescaped⟩, other⟩
      exact .plain plain unescaped other .nil
    · intro valid
      cases valid with
      | plain plain unescaped other _ => exact ⟨⟨plain, unescaped⟩, other⟩
  | case3 c d rest escaped ih =>
    obtain rfl : c = backslash := by simpa using escaped
    simp only [Bool.and_eq_true, bne_iff_ne, ne_eq, ih]
    constructor
    · rintro ⟨inside, tail⟩
      exact .escape inside tail
    · intro valid
      cases valid with
      | plain _ unescaped => exact absurd rfl unescaped
      | escape inside tail => exact ⟨inside, tail⟩
  | case4 c d rest unescaped ih =>
    have unescaped : c ≠ backslash := by simpa using unescaped
    simp only [Bool.and_eq_true, bne_iff_ne, ne_eq, ih]
    constructor
    · rintro ⟨⟨plain, other⟩, tail⟩
      exact .plain plain unescaped other tail
    · intro valid
      cases valid with
      | plain plain _ other tail => exact ⟨⟨plain, other⟩, tail⟩
      | escape => exact absurd rfl unescaped

instance {quote : Char} {body : List Char} : Decidable (LiteralBody quote body) := decidable_of_iff _ isBody_iff

/-- A text that is read back from between apostrophes. -/
def Quotable (text : CStr) : Prop := LiteralBody '\'' text ∧ nul ∉ text

instance {text : CStr} : Decidable (Quotable text) := inferInstanceAs (Decidable (_ ∧ _))

theorem quotable_bool (val : Bool) : Quotable (boolText val) := by
  cases val <;> decide

theorem quotable_compOp (val : CompOp) : Quotable val.name := by
  cases val <;> decide

section Shown
variable (lib : ExtLibrary ι)

/-- The type names are identifiers with a letter that no name has, the argument names are names. -/
structure Named : Prop where
  nodeName (type : ι) : isWord (lib.nodeName type) = true ∧ (lib.nodeName type).all isname = false
  attr {type : ι} {attr : CStr} : attr ∈ (lib.visit type).attrs → isWord attr = true ∧ attr.all isname = true

/-- `text` can be put before any text: it shows the tokens `out` there. -/
def Prints (out : List Leaf) (text : List Char) : Prop :=
  ∀ {leaves : List Leaf} {rest : List Char}, Shows false leaves rest → Shows false (out ++ leaves) (text ++ rest)

variable {lib} (named : Named lib)
include named

theorem prints_relates : Relates lib Quotable Prints leafSink textSink where
  nil := fun rest => rest
  append first second := fun rest => by
    rw [List.append_assoc, List.append_assoc]
    exact first (second rest)
  nodeBegin type := fun rest => by
    have printable := named.nodeName type
    simp only [leafSink, textSink, List.append_assoc, List.cons_append, List.nil_append]
    exact .ident ⟨spelled_of_isWord printable.1, printable.2⟩ (head_free rfl) (.punct rfl rest)
  nodeEnd := fun rest => .punct rfl rest
  attr member := fun rest => by
    have printable := named.attr member
    simp only [leafSink, textSink, List.append_assoc, List.cons_append, List.nil_append]
    exact .punct rfl (.name ⟨spelled_of_isWord printable.1, printable.2⟩ (head_free rfl) (.punct rfl rest))
  quoted quotable := fun rest => by
    simp only [leafSink, textSink, List.append_assoc, List.cons_append, List.nil_append]
    exact .str quotable rest
  bool := quotable_bool
  compOp := quotable_compOp
  listBegin type := fun {leaves rest} shows_ => by
    have printable := named.nodeName type
    have word : textSink.listBegin (lib.nodeName type) ++ rest =
        "list".toList ++ '<' :: (lib.nodeName type ++ '>' :: '[' :: rest) := by
      simp [textSink]
    rw [word]
    exact .list (head_free rfl) (.punct rfl (.ident ⟨spelled_of_isWord printable.1, printable.2⟩
      (head_free rfl) (.punct rfl (.punct rfl shows_))))
  elemBegin {k} small := fun {leaves rest} shows_ => by
    have index : (UInt8.ofNat k).toNat = k := by simp [Nat.mod_eq_of_lt small]
    have word : textSink.elemBegin k ++ rest = '[' :: (decimalText (UInt8.ofNat k).toNat ++ ']' :: '=' :: rest) := by
      simp [textSink, index]
    rw [word]
    exact .punct rfl (.index _ (head_free rfl) (.punct rfl (.punct rfl shows_)))
  listEnd := fun rest => .punct rfl rest

theorem nul_free_relates : Relates lib (nul ∉ ·) (fun (_ : List Char) text => nul ∉ text) textSink textSink where
  nil := by simp
  append first second := by simpa using ⟨first, second⟩
  nodeBegin type := by
    have free := word_free (spelled_of_isWord (named.nodeName type).1)
    simpa [textSink, nul] using free
  nodeEnd := by decide
  attr member := by
    have free := word_free (spelled_of_isWord (named.attr member).1)
    simpa [textSink, nul] using free
  quoted free := by simpa [textSink, nul] using free
  bool val := (quotable_bool val).2
  compOp val := (quotable_compOp val).2
  listBegin type := by
    have free := word_free (spelled_of_isWord (named.nodeName type).1)
    simpa [textSink, nul] using free
  elemBegin {k} _ := by
    have free := decimalText_free k
    simpa [textSink, nul] using free
  listEnd := by decide

variable {t : TypeTable ι} {node : Node ι}

/-- The printed text of an object whose texts can be quoted shows the tokens printed for it. -/
theorem printNode_shows (ok : NodeOk t node) (texts : ∀ text ∈ node.charPtrs, Quotable text) :
    Shows false (printNode leafSink lib node) (printNode textSink lib node) := by
  have shown : Shows false (_ ++ []) (_ ++ []) := printNode_related (prints_relates named) ok texts .done
  rwa [List.append_nil, List.append_nil] at shown

theorem printNode_nul_free (ok : NodeOk t node) (texts : ∀ text ∈ node.charPtrs, nul ∉ text) :
    nul ∉ printNode textSink lib node :=
  printNode_related (nul_free_relates named) ok texts

end Shown

end CxxpyTree.Obj
