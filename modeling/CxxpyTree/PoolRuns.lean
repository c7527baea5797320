import CxxpyTree.PoolAllocator
import Mathlib.Data.UInt

/-! Runs of a `PoolAllocator`: whatever is allocated and rolled back, and whichever calls fail, the
live blocks stay apart from each other and inside the pool. -/

namespace CxxpyTree
open Machine

/-- An alignment that a type can have. -/
structure Alignment where
  log : Fin 64

def Alignment.value (align : Alignment) : Nat := 2 ^ align.log.val

inductive PoolOp where
  | allocate (nbytes : UInt64) (align : Alignment)
  | rollback (obj : Nat)

/-- A block that was handed out: what was asked for, and where it is. -/
structure Block where
  addr : Nat
  size : Nat
  align : Nat
  deriving DecidableEq, Repr

def Block.Disjoint (a b : Block) : Prop := a.addr + a.size ≤ b.addr ∨ b.addr + b.size ≤ a.addr

/-- The bytes a call of `allocate` asks for. -/
def requested (nbytes : UInt64) : Nat := if nbytes.toNat = 0 then 1 else nbytes.toNat

/-- The allocator and, beside it, the blocks that are live. -/
structure PoolState where
  alloc : PoolAllocator
  live : List Block := []

/-- One call, with the error it ends in. -/
def PoolOp.run (op : PoolOp) (s : PoolState) : Option AllocError × PoolState :=
  match op with
  | .allocate nbytes align =>
    match PoolAllocator.allocate nbytes.toNat align.value s.alloc with
    | .ok r alloc => (none, { alloc, live := s.live ++ [⟨r, requested nbytes, align.value⟩] })
    | .error err alloc => (some err, { s with alloc })
  | .rollback obj =>
    match PoolAllocator.rollback obj s.alloc with
    | .ok _ alloc => (none, { alloc, live := s.live.filter (fun block => block.addr ≠ obj) })
    | .error err alloc => (some err, { s with alloc })

/-- The state after any number of calls, some of which may have failed. -/
def runOps (ops : List PoolOp) (s : PoolState) : PoolState := ops.foldl (fun s op => (op.run s).2) s

/-- What the allocator promises of a state that it has come to from `fresh`. -/
structure PoolState.Sound (fresh : PoolAllocator) (s : PoolState) : Prop where
  recorded : s.alloc.ptrs = s.live.map Block.addr
  increasing : s.alloc.ptrs.Pairwise (· < ·)
  bounded : s.alloc.ptrs.length ≤ fresh.nobjs
  aligned : ∀ block ∈ s.live, block.addr % block.align = 0
  inside : ∀ block ∈ s.live, fresh.pool ≤ block.addr ∧ block.addr + block.size ≤ fresh.pool + fresh.poolSz
  disjoint : s.live.Pairwise Block.Disjoint
  unwrapped : s.alloc.wrapped = false
  find : ∀ p, s.alloc.find p = .ok (decide (p ∈ s.live.map Block.addr))
  findIndex : ∀ p, if p ∈ s.live.map Block.addr then
    ∃ i, s.alloc.findIndex p = .ok (some i) ∧ (s.live.map Block.addr)[i]? = some p
    else s.alloc.findIndex p = .ok none
  unchanged : ∀ (op : PoolOp) (err : AllocError), (op.run s).1 = some err → (op.run s).2 = s

/-- What carries over from call to call: the blocks lie one behind the other below `ptr`. -/
structure PoolState.Stacked (fresh : PoolAllocator) (s : PoolState) : Prop where
  nobjs : s.alloc.nobjs = fresh.nobjs
  poolSz : s.alloc.poolSz = fresh.poolSz
  pool : s.alloc.pool = fresh.pool
  unwrapped : s.alloc.wrapped = false
  addressable : fresh.pool + fresh.poolSz < wordSize
  recorded : s.alloc.ptrs = s.live.map Block.addr
  bounded : s.alloc.ptrs.length ≤ fresh.nobjs
  ordered : s.live.Pairwise fun a b => a.addr + a.size < b.addr
  below : ∀ block ∈ s.live, block.addr + block.size ≤ s.alloc.ptr
  above : ∀ block ∈ s.live, fresh.pool ≤ block.addr
  aligned : ∀ block ∈ s.live, block.addr % block.align = 0
  bottom : fresh.pool ≤ s.alloc.ptr
  top : s.alloc.ptr ≤ fresh.pool + fresh.poolSz

section Sizes
variable {s : PoolAllocator} {a b : Nat}

theorem sizeAdd_run (fits : a + b < wordSize) : sizeAdd a b s = .ok (a + b) s := by
  unfold sizeAdd
  rw [if_neg (Nat.not_le.mpr fits), Nat.mod_eq_of_lt fits]

theorem sizeSub_run (less : b ≤ a) (fits : a < wordSize) : sizeSub a b s = .ok (a - b) s := by
  unfold sizeSub
  have shift : a + wordSize - b = a - b + wordSize := by omega
  rw [if_neg (Nat.not_lt.mpr less), shift, Nat.add_mod_right, Nat.mod_eq_of_lt (by omega)]

/-- The padding is never zero, and behind it the address is aligned. -/
theorem padded_aligned (ptr : Nat) {align : Nat} (positive : 0 < align) : (ptr + (align - ptr % align)) % align = 0 := by
  have less := Nat.mod_lt ptr positive
  have split := Nat.div_add_mod ptr align
  have whole : ptr + (align - ptr % align) = align * (ptr / align + 1) := by
    rw [Nat.mul_add]
    omega
  rw [whole, Nat.mul_mod_right]

end Sizes

section Allocate
variable {s : PoolAllocator} {nbytes align : Nat}

/-- The part of `allocate` behind the checks that need no address. -/
def takeBlock (s : PoolAllocator) (size pad : Nat) : AllocM Nat := do
  if (← sizeSub s.ptr s.pool) > s.poolSz - (size + pad) then throw (.badAlloc "pool_sz")
  else
    let r ← sizeAdd s.ptr pad
    let ptr ← sizeAdd r size
    modify fun s => { s with ptr, ptrs := s.ptrs ++ [r] }
    return r

/-- Up to there nothing wraps, wherever the pool and its pointer are. -/
theorem allocate_eq (addressable : s.poolSz < wordSize) (small : nbytes < wordSize) (positive : 0 < align)
    (word : align < wordSize) :
    let size := if nbytes = 0 then 1 else nbytes
    let pad := align - s.ptr % align
    PoolAllocator.allocate nbytes align s =
      if s.nobjs ≤ s.ptrs.length then .error (.badAlloc "nobjs") s
      else if s.poolSz < size + pad then .error (.badAlloc "pool_sz") s
      else takeBlock s size pad s := by
  intro size pad
  have sized : size < wordSize := by
    change (if nbytes = 0 then 1 else nbytes) < wordSize
    split
    · decide
    · exact small
  have less := Nat.mod_lt s.ptr positive
  have padded : pad ≤ align := Nat.sub_le _ _
  have padding : sizeSub align (s.ptr % align) s = .ok pad s := sizeSub_run (Nat.le_of_lt less) word
  have room : sizeSub sizeMax pad s = .ok (sizeMax - pad) s :=
    sizeSub_run (by simp only [sizeMax]; omega) (by simp only [sizeMax, wordSize]; omega)
  unfold PoolAllocator.allocate
  rw [get_bind]
  by_cases full : s.nobjs ≤ s.ptrs.length
  · rw [if_pos full, if_pos full]
    rfl
  rw [if_neg full, if_neg full, bind_of_ok padding, bind_of_ok room]
  change (if sizeMax - pad < size then _ else _ : AllocM Nat) s = _
  by_cases wraps : sizeMax - pad < size
  · have large : s.poolSz < size + pad := by
      simp only [sizeMax] at wraps
      omega
    rw [if_pos wraps, if_pos large]
    rfl
  have fits : size + pad < wordSize := by
    simp only [sizeMax] at wraps
    have some : 0 < wordSize := by decide
    omega
  rw [if_neg wraps, bind_of_ok (sizeAdd_run fits)]
  change (if s.poolSz < size + pad then _ else _ : AllocM Nat) s = _
  by_cases large : s.poolSz < size + pad
  · rw [if_pos large, if_pos large]
    rfl
  rw [if_neg large, if_neg large, takeBlock]
  cases used : sizeSub s.ptr s.pool s with
  | error err s' => rw [bind_of_error used, bind_of_error used]
  | ok n s' =>
    have left : sizeSub s.poolSz (size + pad) s' = .ok (s.poolSz - (size + pad)) s' :=
      sizeSub_run (Nat.not_lt.mp large) addressable
    rw [bind_of_ok used, bind_of_ok used, bind_of_ok left]

/-- Inside its pool an allocator has three outcomes, and no computation on the way to them wraps. -/
theorem allocate_run (bottom : s.pool ≤ s.ptr) (top : s.ptr ≤ s.pool + s.poolSz)
    (addressable : s.pool + s.poolSz < wordSize) (small : nbytes < wordSize) (positive : 0 < align)
    (word : align < wordSize) :
    let size := if nbytes = 0 then 1 else nbytes
    let pad := align - s.ptr % align
    PoolAllocator.allocate nbytes align s =
      if s.nobjs ≤ s.ptrs.length then .error (.badAlloc "nobjs") s
      else if s.pool + s.poolSz < s.ptr + pad + size then .error (.badAlloc "pool_sz") s
      else .ok (s.ptr + pad) { s with ptr := s.ptr + pad + size, ptrs := s.ptrs ++ [s.ptr + pad] } := by
  intro size pad
  have used : sizeSub s.ptr s.pool s = .ok (s.ptr - s.pool) s := sizeSub_run bottom (by omega)
  have outcome : PoolAllocator.allocate nbytes align s = _ := allocate_eq (by omega) small positive word
  change _ = if s.nobjs ≤ s.ptrs.length then _ else if s.poolSz < size + pad then _ else takeBlock s size pad s
    at outcome
  rw [outcome]
  congr 1
  by_cases large : s.poolSz < size + pad
  · have outside : s.pool + s.poolSz < s.ptr + pad + size := by omega
    rw [if_pos large, if_pos outside]
  rw [if_neg large, takeBlock, bind_of_ok used]
  by_cases past : s.ptr - s.pool > s.poolSz - (size + pad)
  · have outside : s.pool + s.poolSz < s.ptr + pad + size := by omega
    rw [if_pos past, if_pos outside]
    rfl
  have inside : ¬ s.pool + s.poolSz < s.ptr + pad + size := by omega
  have block : sizeAdd s.ptr pad s = .ok (s.ptr + pad) s := sizeAdd_run (by omega)
  have next : sizeAdd (s.ptr + pad) size s = .ok (s.ptr + pad + size) s := sizeAdd_run (by omega)
  rw [if_neg past, if_neg inside, bind_of_ok block, bind_of_ok next]
  rfl

theorem rollback_run (obj : Nat) : PoolAllocator.rollback obj s =
    if s.ptrs.getLast? = some obj then .ok () { s with ptr := obj, ptrs := s.ptrs.dropLast }
    else .error (.badRollback obj) s := by
  unfold PoolAllocator.rollback
  rw [get_bind]
  by_cases last : s.ptrs.getLast? = some obj
  · rw [if_neg (not_not.mpr last), if_pos last]
    rfl
  · rw [if_pos last, if_neg last]
    rfl

end Allocate

section Steps
variable {fresh : PoolAllocator} {s : PoolState}

theorem Alignment.positive (align : Alignment) : 0 < align.value := Nat.two_pow_pos _

theorem Alignment.word (align : Alignment) : align.value < wordSize := Nat.pow_lt_pow_right (by decide) align.log.isLt

theorem requested_pos (nbytes : UInt64) : 0 < requested nbytes := by
  unfold requested
  split
  · decide
  · next some => exact Nat.pos_of_ne_zero some

/-- The pointer on top of the stack is that of the youngest block, and of no other. -/
theorem PoolState.Stacked.youngest (stacked : s.Stacked fresh) {obj : Nat} (last : s.alloc.ptrs.getLast? = some obj) :
    ∃ before block, s.live = before ++ [block] ∧ block.addr = obj ∧ s.alloc.ptrs.dropLast = before.map Block.addr ∧
      s.live.filter (fun b => decide (b.addr ≠ obj)) = before := by
  obtain ⟨-, -, -, -, -, recorded, -, ordered, -, -, -, -, -⟩ := stacked
  rcases List.eq_nil_or_concat s.live with empty | ⟨before, block, split⟩
  · rw [recorded, empty] at last
    cases last
  · rw [List.concat_eq_append] at split
    rw [split, List.pairwise_append] at ordered
    have same : block.addr = obj := by simpa [recorded, split] using last
    refine ⟨before, block, split, same, by simp [recorded, split], ?_⟩
    rw [split, List.filter_append, List.filter_eq_self.mpr, List.filter_cons_of_neg (by simp [same])]
    · exact List.append_nil before
    · intro b member
      have apart := ordered.2.2 b member block List.mem_cons_self
      simp only [ne_eq, decide_not, Bool.not_eq_true', decide_eq_false_iff_not]
      omega

/-- What the two calls do to a stacked state: they push a block behind the others, take the last
one away, or fail and change nothing. -/
theorem run_cases (stacked : s.Stacked fresh) (op : PoolOp) :
    (∃ err, op.run s = (some err, s)) ∨
    (∃ block : Block, 0 < block.size ∧ block.addr % block.align = 0 ∧ s.alloc.ptr < block.addr ∧
      block.addr + block.size ≤ fresh.pool + fresh.poolSz ∧ s.alloc.ptrs.length < fresh.nobjs ∧
      op.run s = (none, {
        alloc := { s.alloc with ptr := block.addr + block.size, ptrs := s.alloc.ptrs ++ [block.addr] }
        live := s.live ++ [block] })) ∨
    ∃ before block, s.live = before ++ [block] ∧
      op.run s = (none, { alloc := { s.alloc with ptr := block.addr, ptrs := before.map Block.addr }, live := before }) := by
  cases op with
  | allocate nbytes align =>
    obtain ⟨nobjs, poolSz, pool, -, addressable, -, -, -, -, -, -, bottom, top⟩ := stacked
    have outcome := @allocate_run s.alloc nbytes.toNat align.value (by omega) (by omega) (by omega) nbytes.toNat_lt
      align.positive align.word
    have less := Nat.mod_lt s.alloc.ptr align.positive
    dsimp only at outcome
    by_cases full : s.alloc.nobjs ≤ s.alloc.ptrs.length
    · rw [if_pos full] at outcome
      exact .inl ⟨_, by simp only [PoolOp.run, outcome]; rfl⟩
    rw [if_neg full] at outcome
    by_cases past : s.alloc.pool + s.alloc.poolSz <
        s.alloc.ptr + (align.value - s.alloc.ptr % align.value) + if nbytes.toNat = 0 then 1 else nbytes.toNat
    · rw [if_pos past] at outcome
      exact .inl ⟨_, by simp only [PoolOp.run, outcome]; rfl⟩
    rw [if_neg past] at outcome
    refine .inr (.inl ⟨⟨_, requested nbytes, align.value⟩, requested_pos nbytes,
      padded_aligned s.alloc.ptr align.positive, ?_, ?_, by omega, by simp only [PoolOp.run, outcome]; rfl⟩)
    · exact Nat.lt_add_of_pos_right (Nat.sub_pos_of_lt less)
    · rw [← pool, ← poolSz]
      exact Nat.not_lt.mp past
  | rollback obj =>
    by_cases last : s.alloc.ptrs.getLast? = some obj
    · obtain ⟨before, block, split, same, rest, kept⟩ := stacked.youngest last
      refine .inr (.inr ⟨before, block, split, ?_⟩)
      simp only [PoolOp.run, rollback_run, if_pos last, rest, kept, same]
    · refine .inl ⟨.badRollback obj, ?_⟩
      simp only [PoolOp.run, rollback_run, if_neg last]

theorem PoolState.Stacked.push (stacked : s.Stacked fresh) {block : Block} (fits : block.addr % block.align = 0)
    (behind : s.alloc.ptr < block.addr) (inside : block.addr + block.size ≤ fresh.pool + fresh.poolSz)
    (free : s.alloc.ptrs.length < fresh.nobjs) : PoolState.Stacked fresh {
      alloc := { s.alloc with ptr := block.addr + block.size, ptrs := s.alloc.ptrs ++ [block.addr] }
      live := s.live ++ [block] } := by
  have ⟨nobjs, poolSz, pool, unwrapped, addressable, recorded, bounded, ordered, below, above, aligned, bottom, top⟩ :=
    stacked
  have last {P : Block → Prop} (earlier : ∀ a ∈ s.live, P a) (new : P block) : ∀ a ∈ s.live ++ [block], P a :=
    List.forall_mem_append.mpr ⟨earlier, List.forall_mem_singleton.mpr new⟩
  constructor
  · exact nobjs
  · exact poolSz
  · exact pool
  · exact unwrapped
  · exact addressable
  · simp [recorded]
  · rw [List.length_append]
    exact free
  · rw [List.pairwise_append]
    refine ⟨ordered, List.pairwise_singleton _ _, fun a member => List.forall_mem_singleton.mpr ?_⟩
    exact Nat.lt_of_le_of_lt (below a member) behind
  · refine last (fun a earlier => ?_) (Nat.le_refl _)
    exact Nat.le_trans (below a earlier) (Nat.le_trans (Nat.le_of_lt behind) (Nat.le_add_right _ _))
  · exact last above (by omega)
  · exact last aligned fits
  · exact Nat.le_trans bottom (Nat.le_trans (Nat.le_of_lt behind) (Nat.le_add_right _ _))
  · exact inside

theorem PoolState.Stacked.pop (stacked : s.Stacked fresh) {before : List Block} {block : Block}
    (split : s.live = before ++ [block]) : PoolState.Stacked fresh {
      alloc := { s.alloc with ptr := block.addr, ptrs := before.map Block.addr }
      live := before } := by
  have ⟨nobjs, poolSz, pool, unwrapped, addressable, recorded, bounded, ordered, below, above, aligned, bottom, top⟩ :=
    stacked
  rw [split, List.pairwise_append] at ordered
  have member : block ∈ s.live := split ▸ List.mem_append_right _ List.mem_cons_self
  have within : ∀ a ∈ before, a ∈ s.live := fun a earlier => split ▸ List.mem_append_left _ earlier
  constructor
  · exact nobjs
  · exact poolSz
  · exact pool
  · exact unwrapped
  · exact addressable
  · rfl
  · rw [recorded, split] at bounded
    simp only [List.map_append, List.length_append, List.length_map] at bounded ⊢
    omega
  · exact ordered.1
  · exact fun a earlier => Nat.le_of_lt (ordered.2.2 a earlier block List.mem_cons_self)
  · exact fun a earlier => above a (within a earlier)
  · exact fun a earlier => aligned a (within a earlier)
  · exact above block member
  · exact Nat.le_trans (Nat.le_add_right _ _) (Nat.le_trans (below block member) top)

/-- The step lemma. -/
theorem PoolState.Stacked.run (stacked : s.Stacked fresh) (op : PoolOp) : (op.run s).2.Stacked fresh := by
  rcases run_cases stacked op with ⟨err, ran⟩ | ⟨block, -, fits, behind, inside, free, ran⟩ | ⟨before, block, split, ran⟩
  · rw [ran]
    exact stacked
  · rw [ran]
    exact stacked.push fits behind inside free
  · rw [ran]
    exact stacked.pop split

/-- The run lemma. -/
theorem PoolState.Stacked.runOps : ∀ (ops : List PoolOp) {s : PoolState}, s.Stacked fresh → (runOps ops s).Stacked fresh
  | [], _, stacked => stacked
  | op :: ops, _, stacked => PoolState.Stacked.runOps ops (stacked.run op)

/-- What is promised of a state follows from how its blocks lie. -/
theorem PoolState.Stacked.sound (stacked : s.Stacked fresh) : s.Sound fresh := by
  have ⟨_, _, _, unwrapped, _, recorded, bounded, ordered, below, above, aligned, _, top⟩ := stacked
  have increasing : s.alloc.ptrs.Pairwise (· < ·) := by
    rw [recorded, List.pairwise_map]
    exact ordered.imp fun apart => by omega
  constructor
  · exact recorded
  · exact increasing
  · exact bounded
  · exact aligned
  · exact fun block member => ⟨above block member, Nat.le_trans (below block member) top⟩
  · exact ordered.imp fun apart => .inl (Nat.le_of_lt apart)
  · exact unwrapped
  · intro p
    rw [← recorded]
    exact PoolAllocator.find_sorted increasing
  · intro p
    rw [← recorded]
    obtain ⟨present, absent⟩ := @PoolAllocator.findIndex_sorted s.alloc p increasing
    split
    next member => exact present member
    next missing => exact absent missing
  · intro op err failed
    rcases run_cases stacked op with ⟨err', ran⟩ | ⟨block, _, _, _, _, _, ran⟩ | ⟨before, block, _, ran⟩
    · rw [ran]
    · rw [ran] at failed
      cases failed
    · rw [ran] at failed
      cases failed

/-- A call of `allocate` alone: it records one more pointer, or changes nothing. -/
theorem PoolState.Stacked.allocate (stacked : s.Stacked fresh) (nbytes : UInt64) (align : Alignment) :
    (∃ err, PoolAllocator.allocate nbytes.toNat align.value s.alloc = .error err s.alloc) ∨
    ∃ r alloc live, PoolAllocator.allocate nbytes.toNat align.value s.alloc = .ok r alloc ∧
      alloc.ptrs = s.alloc.ptrs ++ [r] ∧ PoolState.Stacked fresh ⟨alloc, live⟩ := by
  have next := stacked.run (.allocate nbytes align)
  have kept := stacked.sound.unchanged (.allocate nbytes align)
  cases outcome : PoolAllocator.allocate nbytes.toNat align.value s.alloc with
  | error err alloc =>
    simp only [PoolOp.run, outcome] at kept
    have same := congrArg PoolState.alloc (kept err rfl)
    exact .inl ⟨err, by rw [← same]⟩
  | ok r alloc =>
    simp only [PoolOp.run, outcome] at next
    have recorded := next.recorded
    simp only [List.map_append, ← stacked.recorded] at recorded
    exact .inr ⟨r, alloc, _, rfl, recorded, next⟩

end Steps

section Fresh
variable {heap : Heap} {nobjs poolSz : UInt64} {fresh : PoolAllocator}

theorem new_stacked (made : PoolAllocator.new heap nobjs poolSz = some fresh)
    (fits : nobjs.toNat * PoolAllocator.ptrSize + poolSz.toNat < wordSize) :
    PoolState.Stacked fresh { alloc := fresh } := by
  have count : nobjs.toNat * PoolAllocator.ptrSize % wordSize = nobjs.toNat * PoolAllocator.ptrSize :=
    Nat.mod_eq_of_lt (by omega)
  simp only [PoolAllocator.new, count, Nat.mod_eq_of_lt fits] at made
  split at made
  next => cases made
  next p found =>
    cases made
    have room := (heap.inside _ _ found).2
    have addressed : (p + nobjs.toNat * PoolAllocator.ptrSize) % wordSize = p + nobjs.toNat * PoolAllocator.ptrSize :=
      Nat.mod_eq_of_lt (by omega)
    constructor
    · rfl
    · rfl
    · rfl
    · simp only [decide_eq_false_iff_not]
      omega
    · simp only [addressed]
      omega
    · rfl
    · exact Nat.zero_le _
    · exact .nil
    · exact fun _ member => nomatch member
    · exact fun _ member => nomatch member
    · exact fun _ member => nomatch member
    · exact Nat.le_refl _
    · exact Nat.le_add_right _ _

/-- An allocator keeps its promises over every sequence of calls just when its constructor could
count the memory it asks for. -/
theorem pool_sound_iff (made : PoolAllocator.new heap nobjs poolSz = some fresh) :
    (∀ ops, (runOps ops { alloc := fresh }).Sound fresh) ↔
      nobjs.toNat * PoolAllocator.ptrSize + poolSz.toNat < wordSize := by
  constructor
  · intro sound
    have unwrapped : fresh.wrapped = false := (sound []).unwrapped
    simp only [PoolAllocator.new] at made
    split at made
    next => cases made
    next =>
      cases made
      simp only [decide_eq_false_iff_not, not_or, Nat.not_le] at unwrapped
      rw [Nat.mod_eq_of_lt unwrapped.1] at unwrapped
      exact unwrapped.2
  · intro fits ops
    exact ((new_stacked made fits).runOps ops).sound

end Fresh

/-- An allocation fails only for lack of room. -/
theorem allocate_error {nbytes align : Nat} {pool pool' : PoolAllocator} {err : AllocError}
    (failed : PoolAllocator.allocate nbytes align pool = .error err pool') : ∃ what, err = .badAlloc what := by
  have sub : ∀ {a b : Nat} {pool : PoolAllocator} {Q : Nat → PoolAllocator → Prop} {E : AllocError → PoolAllocator → Prop},
      (∀ n pool', Q n pool') → wp (sizeSub a b) Q E pool := fun all => all _ _
  have add : ∀ {a b : Nat} {pool : PoolAllocator} {Q : Nat → PoolAllocator → Prop} {E : AllocError → PoolAllocator → Prop},
      (∀ n pool', Q n pool') → wp (sizeAdd a b) Q E pool := fun all => all _ _
  have run : wp (PoolAllocator.allocate nbytes align) (fun _ _ => True) (fun err _ => ∃ what, err = .badAlloc what) pool := by
    unfold PoolAllocator.allocate
    rw [wp_bind, wp_get, wp_ite]
    refine ⟨fun _ => ⟨_, rfl⟩, fun _ => wp_bind.mpr (sub fun _ _ => wp_bind.mpr (sub fun _ _ => wp_ite.mpr ?_))⟩
    refine ⟨fun _ => ⟨_, rfl⟩, fun _ => wp_bind.mpr (add fun _ _ => wp_ite.mpr ?_)⟩
    refine ⟨fun _ => ⟨_, rfl⟩, fun _ => wp_bind.mpr (sub fun _ _ => wp_bind.mpr (sub fun _ _ => wp_ite.mpr ?_))⟩
    refine ⟨fun _ => ⟨_, rfl⟩, fun _ => wp_bind.mpr (add fun _ _ => wp_bind.mpr (add fun _ _ => ?_))⟩
    trivial
  exact run.of_error failed

/-- A heap that has one place for whatever fits behind it. -/
def heapAt (base : Nat) (positive : 0 < base) : Heap where
  realloc n := if 0 < n ∧ base + n < wordSize then some base else none
  empty := rfl
  inside := by
    intro n p found
    split at found
    next fits =>
      cases found
      exact ⟨positive, fits.2⟩
    next => cases found

/-- An allocator for ten objects: two blocks, of which one is given back, and one that is too large. -/
theorem pool_sound_ten :
    (runOps [.allocate 24 ⟨3⟩, .allocate 3 ⟨0⟩, .rollback 129, .allocate 100 ⟨4⟩]
      { alloc := ⟨10, 100, 96, 96, [], false⟩ }).Sound ⟨10, 100, 96, 96, [], false⟩ :=
  (@pool_sound_iff (heapAt 16 (by decide)) 10 100 _ (by decide)).mpr (by decide) _

/-- For 2^61 objects the constructor counts no memory for their pointers. -/
theorem pool_not_sound : ∃ fresh, PoolAllocator.new (heapAt 16 (by decide)) (2 ^ 61) 64 = some fresh ∧
    ¬ (runOps [] { alloc := fresh }).Sound fresh :=
  ⟨⟨2 ^ 61, 64, 16, 16, [], true⟩, by decide +kernel, fun sound => nomatch sound.unwrapped⟩

end CxxpyTree
