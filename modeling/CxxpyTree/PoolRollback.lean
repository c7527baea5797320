import CxxpyTree.PoolRuns

/-! What `rollback` gives back: the block, but not the padding that aligned it. -/

namespace CxxpyTree
open Machine

/-- What `BaseAST::new_node` throws: an error of the allocator, or what the constructor threw. -/
inductive NodeError (ε : Type) where
  | alloc (err : AllocError)
  | thrown (e : ε)

/-- `construct` is the constructor at the address of the node. -/
def newNodeAt (nbytes align : Nat) (construct : Nat → Except ε Unit) (s : PoolAllocator) :
    EStateM.Result (NodeError ε) PoolAllocator Nat :=
  match PoolAllocator.allocate nbytes align s with
  | .error err s => .error (.alloc err) s
  | .ok p s =>
    match construct p with
    | .ok () => .ok p s
    | .error e =>
      match PoolAllocator.rollback p s with
      | .ok () s => .error (.thrown e) s
      | .error err s => .error (.alloc err) s

structure Request where
  nbytes : UInt64
  align : Alignment

namespace PoolAllocator

def request (r : Request) : AllocM Nat := allocate r.nbytes.toNat r.align.value

/-- The addresses and errors that a sequence of allocations ends in. -/
def answers : List Request → PoolAllocator → List (Except AllocError Nat)
  | [], _ => []
  | r :: requests, s =>
    match request r s with
    | .ok p s => .ok p :: answers requests s
    | .error err s => .error err :: answers requests s

/-- The pool after nodes whose constructors all threw. -/
def afterThrows (e : ε) : List Request → PoolAllocator → PoolAllocator
  | [], s => s
  | r :: requests, s =>
    match newNodeAt r.nbytes.toNat r.align.value (fun _ => .error e) s with
    | .ok _ s => afterThrows e requests s
    | .error _ s => afterThrows e requests s

/-- The bytes between `pool` and `ptr`. -/
def used (s : PoolAllocator) : Nat := (s.ptr + wordSize - s.pool) % wordSize

/-- Addresses and sizes are words. -/
structure InWords (s : PoolAllocator) : Prop where
  pool : s.pool < wordSize
  poolSz : s.poolSz < wordSize
  ptr : s.ptr < wordSize
  ptrs : ∀ p ∈ s.ptrs, p < wordSize

end PoolAllocator

section Allocate
variable {s : PoolAllocator} {nbytes align : Nat}

theorem sizeAdd_any (a b : Nat) (s : PoolAllocator) :
    ∃ w, sizeAdd a b s = .ok ((a + b) % wordSize) { s with wrapped := w } := by
  by_cases wraps : wordSize ≤ a + b
  · exact ⟨true, by simp [sizeAdd, wraps]⟩
  · exact ⟨s.wrapped, by simp [sizeAdd, wraps]⟩

theorem sizeSub_any (a b : Nat) (s : PoolAllocator) :
    ∃ w, sizeSub a b s = .ok ((a + wordSize - b) % wordSize) { s with wrapped := w } := by
  by_cases wraps : a < b
  · exact ⟨true, by simp [sizeSub, wraps]⟩
  · exact ⟨s.wrapped, by simp [sizeSub, wraps]⟩

/-- The outcomes of a call in any state, wrapped or not. -/
theorem allocate_any (words : s.InWords) (small : nbytes < wordSize) (positive : 0 < align) (word : align < wordSize) :
    let size := if nbytes = 0 then 1 else nbytes
    let pad := align - s.ptr % align
    let r := (s.ptr + pad) % wordSize
    ∃ w, PoolAllocator.allocate nbytes align s =
      if s.nobjs ≤ s.ptrs.length then .error (.badAlloc "nobjs") { s with wrapped := w }
      else if s.poolSz < s.used + (size + pad) then .error (.badAlloc "pool_sz") { s with wrapped := w }
      else .ok r { s with ptr := (r + size) % wordSize, ptrs := s.ptrs ++ [r], wrapped := w } := by
  intro size pad r
  have outcome : PoolAllocator.allocate nbytes align s = _ := allocate_eq words.poolSz small positive word
  change _ = if s.nobjs ≤ s.ptrs.length then _ else if s.poolSz < size + pad then _ else takeBlock s size pad s
    at outcome
  rw [outcome]
  by_cases full : s.nobjs ≤ s.ptrs.length
  · exact ⟨s.wrapped, by rw [if_pos full, if_pos full]⟩
  simp only [if_neg full]
  by_cases large : s.poolSz < size + pad
  · exact ⟨s.wrapped, by rw [if_pos large, if_pos (Nat.lt_of_lt_of_le large (Nat.le_add_left _ _))]⟩
  obtain ⟨w₁, used⟩ := sizeSub_any s.ptr s.pool s
  rw [if_neg large, takeBlock, bind_of_ok used]
  change ∃ w, (if s.used > s.poolSz - (size + pad) then _ else _ : AllocM Nat) { s with wrapped := w₁ } = _
  by_cases past : s.used > s.poolSz - (size + pad)
  · refine ⟨w₁, ?_⟩
    rw [if_pos past, if_pos (show s.poolSz < s.used + (size + pad) by omega)]
    rfl
  obtain ⟨w₂, block⟩ := sizeAdd_any s.ptr pad { s with wrapped := w₁ }
  obtain ⟨w₃, next⟩ := sizeAdd_any r size { s with wrapped := w₂ }
  refine ⟨w₃, ?_⟩
  rw [if_neg past, if_neg (show ¬ s.poolSz < s.used + (size + pad) by omega), bind_of_ok block, bind_of_ok next]
  rfl

end Allocate

section Words
variable {s s' : PoolAllocator} {r : Request}

/-- What a request takes: its bytes, and the padding in front of them. -/
def Request.size (r : Request) : Nat := if r.nbytes.toNat = 0 then 1 else r.nbytes.toNat
def Request.pad (r : Request) (ptr : Nat) : Nat := r.align.value - ptr % r.align.value

theorem Request.size_pos (r : Request) : 0 < r.size := requested_pos r.nbytes
theorem Request.pad_pos (r : Request) (ptr : Nat) : 0 < r.pad ptr :=
  Nat.sub_pos_of_lt (Nat.mod_lt ptr r.align.positive)

/-- A request succeeds, at the next aligned address, or leaves the pool as it is. -/
theorem request_cases (words : s.InWords) (r : Request) :
    (∃ err w, PoolAllocator.request r s = .error err { s with wrapped := w } ∧
      (s.nobjs ≤ s.ptrs.length ∨ s.poolSz < s.used + (r.size + r.pad s.ptr))) ∨
    ∃ p w, p = (s.ptr + r.pad s.ptr) % wordSize ∧ s.ptrs.length < s.nobjs ∧
      s.used + (r.size + r.pad s.ptr) ≤ s.poolSz ∧ PoolAllocator.request r s =
        .ok p { s with ptr := (p + r.size) % wordSize, ptrs := s.ptrs ++ [p], wrapped := w } := by
  obtain ⟨w, outcome⟩ := allocate_any words r.nbytes.toNat_lt r.align.positive r.align.word
  by_cases full : s.nobjs ≤ s.ptrs.length
  · rw [if_pos full] at outcome
    exact .inl ⟨_, w, outcome, .inl full⟩
  rw [if_neg full] at outcome
  by_cases past : s.poolSz < s.used + (r.size + r.pad s.ptr)
  · exact .inl ⟨_, w, outcome.trans (if_pos past), .inr past⟩
  · exact .inr ⟨_, w, rfl, Nat.not_le.mp full, Nat.not_lt.mp past, outcome.trans (if_neg past)⟩

theorem PoolAllocator.InWords.request (words : s.InWords) (r : Request) :
    match PoolAllocator.request r s with
    | .ok _ s' => s'.InWords
    | .error _ s' => s'.InWords := by
  rcases request_cases words r with ⟨err, w, failed, -⟩ | ⟨p, w, rfl, -, -, made⟩
  · rw [failed]
    exact ⟨words.pool, words.poolSz, words.ptr, words.ptrs⟩
  · have bound (n : Nat) : n % wordSize < wordSize := Nat.mod_lt n (by decide)
    rw [made]
    exact ⟨words.pool, words.poolSz, bound _,
      List.forall_mem_append.mpr ⟨words.ptrs, List.forall_mem_singleton.mpr (bound _)⟩⟩

theorem PoolAllocator.InWords.run (words : s.InWords) (op : PoolOp) {live : List Block} :
    (op.run ⟨s, live⟩).2.alloc.InWords := by
  cases op with
  | allocate nbytes align =>
    have next := words.request ⟨nbytes, align⟩
    unfold PoolAllocator.request at next
    unfold PoolOp.run
    split at next <;> next outcome => simp only [outcome]; exact next
  | rollback obj =>
    simp only [PoolOp.run, rollback_run]
    by_cases last : s.ptrs.getLast? = some obj
    · rw [if_pos last]
      exact ⟨words.pool, words.poolSz, words.ptrs obj (List.mem_of_getLast? last),
        fun p listed => words.ptrs p (List.dropLast_subset _ listed)⟩
    · rw [if_neg last]
      exact words

theorem runOps_inWords : ∀ (ops : List PoolOp) {s : PoolState}, s.alloc.InWords → (runOps ops s).alloc.InWords
  | [], _, words => words
  | op :: ops, _, words => runOps_inWords ops (words.run op)

theorem new_inWords {heap : Heap} {nobjs poolSz : UInt64} {fresh : PoolAllocator}
    (made : PoolAllocator.new heap nobjs poolSz = some fresh) : fresh.InWords := by
  have bound (n : Nat) : n % wordSize < wordSize := Nat.mod_lt n (by decide)
  simp only [PoolAllocator.new] at made
  split at made
  next => cases made
  next =>
    cases made
    exact ⟨bound _, poolSz.toNat_lt, bound _, fun _ member => absurd member List.not_mem_nil⟩

/-- Taking a block and giving it back leaves its padding behind. -/
theorem rollback_keeps_padding (words : s.InWords) {p : Nat} (allocated : PoolAllocator.request r s = .ok p s') :
    ∃ s₂, PoolAllocator.rollback p s' = .ok () s₂ ∧ s₂.InWords ∧ s₂.pool = s.pool ∧ s.used < s₂.used ∧
      s.ptrs.length < s.nobjs ∧ s.used + 2 ≤ s.poolSz := by
  have next := words.request r
  rcases request_cases words r with ⟨err, w, failed, -⟩ | ⟨p', w, block, free, room, made⟩
  · rw [failed] at allocated
    cases allocated
  · rw [made] at allocated next
    cases allocated
    have sized := r.size_pos
    have padded := r.pad_pos s.ptr
    refine ⟨{ s with ptr := p, wrapped := w }, ?_, ?_, rfl, ?_, free, by omega⟩
    · simp [rollback_run]
    · exact ⟨words.pool, words.poolSz, next.ptrs p (by simp), words.ptrs⟩
    · have pool := words.pool
      have poolSz := words.poolSz
      have ptr := words.ptr
      simp only [PoolAllocator.used, block, wordSize] at *
      omega

def byteRequest : Request := ⟨1, ⟨0⟩⟩

/-- What one byte is answered tells how much of the pool is used. -/
theorem answers_ne (words : s.InWords) (words' : s'.InWords) (same : s'.pool = s.pool) (more : s.used < s'.used)
    (free : s.ptrs.length < s.nobjs) (room : s.used + 2 ≤ s.poolSz) :
    PoolAllocator.answers [byteRequest] s' ≠ PoolAllocator.answers [byteRequest] s := by
  have one (ptr : Nat) : byteRequest.pad ptr = 1 := by
    have whole : byteRequest.align.value = 1 := rfl
    rw [Request.pad, whole]
    omega
  have small : byteRequest.size = 1 := rfl
  rcases request_cases words byteRequest with ⟨err, w, failed, full | past⟩ | ⟨p, w, block, -, -, made⟩
  · omega
  · rw [one, small] at past
    omega
  rcases request_cases words' byteRequest with ⟨err, w', failed', -⟩ | ⟨p', w', block', -, -, made'⟩
  · simp [PoolAllocator.answers, made, failed']
  · simp only [PoolAllocator.answers, made, made', ne_eq, List.cons.injEq, Except.ok.injEq, and_true]
    rintro rfl
    have ptr := words.ptr
    have ptr' := words'.ptr
    rw [one] at block block'
    simp only [PoolAllocator.used, same, wordSize] at *
    omega

/-- A throwing constructor gives nothing back, and takes padding where there was room for the node. -/
theorem newNodeAt_throws (words : s.InWords) (e : ε) (r : Request) :
    ∃ err s', newNodeAt r.nbytes.toNat r.align.value (fun _ => .error e) s = .error err s' ∧ s'.InWords ∧
      s'.pool = s.pool ∧ s.used ≤ s'.used ∧ (∀ p s₁, PoolAllocator.request r s = .ok p s₁ → s.used < s'.used) := by
  cases outcome : PoolAllocator.request r s with
  | error err s₁ =>
    rcases request_cases words r with ⟨err', w, failed, -⟩ | ⟨p, w, -, -, -, made⟩
    · rw [failed] at outcome
      cases outcome
      have allocate : PoolAllocator.allocate r.nbytes.toNat r.align.value s = .error err { s with wrapped := w } := failed
      refine ⟨.alloc err, { s with wrapped := w }, by rw [newNodeAt, allocate], ?_, rfl, le_rfl, nofun⟩
      exact ⟨words.pool, words.poolSz, words.ptr, words.ptrs⟩
    · rw [made] at outcome
      cases outcome
  | ok p s₁ =>
    obtain ⟨s₂, back, words₂, pool, more, -, -⟩ := rollback_keeps_padding words outcome
    have allocate : PoolAllocator.allocate r.nbytes.toNat r.align.value s = .ok p s₁ := outcome
    exact ⟨_, s₂, by rw [newNodeAt, allocate]; simp only [back]; rfl, words₂, pool, more.le, fun _ _ _ => more⟩

theorem afterThrows_used (words : s.InWords) (e : ε) (nodes : List Request) :
    (PoolAllocator.afterThrows e nodes s).InWords ∧ (PoolAllocator.afterThrows e nodes s).pool = s.pool ∧
      s.used ≤ (PoolAllocator.afterThrows e nodes s).used := by
  induction nodes generalizing s with
  | nil => exact ⟨words, rfl, le_rfl⟩
  | cons r nodes ih =>
    obtain ⟨err, s', threw, words', pool, more, -⟩ := newNodeAt_throws words e r
    obtain ⟨later, pool', more'⟩ := ih words'
    rw [PoolAllocator.afterThrows, threw]
    exact ⟨later, pool'.trans pool, more.trans more'⟩

end Words

section Reachable
variable {heap : Heap} {nobjs poolSz : UInt64} {fresh : PoolAllocator}

/-- In no reachable state does `rollback` undo an allocation: the pointer stays behind the padding, and a later
allocation answers otherwise than it would have. Nor does a constructor that throws leave the pool as it was, however
many others throw after it. -/
theorem rollback_restores_never (made : PoolAllocator.new heap nobjs poolSz = some fresh) (ops : List PoolOp)
    {s s' : PoolAllocator} (reached : (runOps ops { alloc := fresh }).alloc = s) {r : Request} {p : Nat}
    (allocated : PoolAllocator.request r s = .ok p s') :
    (∃ s₂, PoolAllocator.rollback p s' = .ok () s₂ ∧ s₂.ptr ≠ s.ptr ∧
      ∃ requests, PoolAllocator.answers requests s₂ ≠ PoolAllocator.answers requests s) ∧
    ∀ (ε : Type) (e : ε) (more : List Request), (PoolAllocator.afterThrows e (r :: more) s).ptr ≠ s.ptr ∧
      ∃ requests, PoolAllocator.answers requests (PoolAllocator.afterThrows e (r :: more) s) ≠
        PoolAllocator.answers requests s := by
  have words : s.InWords := reached ▸ runOps_inWords ops (new_inWords made)
  have moved {s' : PoolAllocator} (pool : s'.pool = s.pool) (more : s.used < s'.used) : s'.ptr ≠ s.ptr := by
    intro same
    rw [PoolAllocator.used, PoolAllocator.used, same, pool] at more
    exact lt_irrefl _ more
  obtain ⟨s₂, back, words₂, pool, more, free, room⟩ := rollback_keeps_padding words allocated
  refine ⟨⟨s₂, back, moved pool more, [byteRequest], answers_ne words words₂ pool more free room⟩, fun ε e nodes => ?_⟩
  obtain ⟨err, s₃, threw, words₃, pool₃, -, less⟩ := newNodeAt_throws words e r
  obtain ⟨words₄, pool₄, more₄⟩ := afterThrows_used words₃ e nodes
  have grown := (less p s' allocated).trans_le more₄
  rw [PoolAllocator.afterThrows, threw]
  exact ⟨moved (pool₄.trans pool₃) grown, [byteRequest], answers_ne words words₄ (pool₄.trans pool₃) grown free room⟩

end Reachable

/-- Room for one node of eight bytes, which starts on an aligned address. -/
def oneNode : PoolAllocator := ⟨1, 16, 24, 24, [], false⟩

def nodeRequest : Request := ⟨8, ⟨3⟩⟩

theorem oneNode_new : PoolAllocator.new (heapAt 16 (by decide)) 1 16 = some oneNode := by decide

theorem oneNode_request : PoolAllocator.request nodeRequest oneNode = .ok 32 { oneNode with ptr := 40, ptrs := [32] } := by
  have outcome := @allocate_run oneNode 8 8 (by decide) (by decide) (by decide) (by decide) (by decide) (by decide)
  exact outcome

theorem rollback_restores_never_oneNode :
    (∃ s₂, PoolAllocator.rollback 32 { oneNode with ptr := 40, ptrs := [32] } = .ok () s₂ ∧ s₂.ptr ≠ oneNode.ptr ∧
      ∃ requests, PoolAllocator.answers requests s₂ ≠ PoolAllocator.answers requests oneNode) :=
  (rollback_restores_never oneNode_new [] rfl oneNode_request).1

/-- The node that was rolled back does not fit a second time. -/
theorem rollback_not_restores : ¬ ∀ (heap : Heap) (nobjs poolSz : UInt64) (fresh : PoolAllocator),
    PoolAllocator.new heap nobjs poolSz = some fresh → ∀ (ops : List PoolOp) (r : Request) (p : Nat) (s' : PoolAllocator),
    PoolAllocator.request r (runOps ops { alloc := fresh }).alloc = .ok p s' → ∃ s₂, PoolAllocator.rollback p s' = .ok () s₂ ∧
      ∀ requests, PoolAllocator.answers requests s₂ = PoolAllocator.answers requests (runOps ops { alloc := fresh }).alloc := by
  intro always
  obtain ⟨s₂, back, same⟩ := always _ 1 16 oneNode oneNode_new [] nodeRequest 32 _ oneNode_request
  have rolled : s₂ = { oneNode with ptr := 32 } := by
    simp only [rollback_run] at back
    exact (EStateM.Result.ok.inj back).2.symm
  subst rolled
  exact absurd (same [nodeRequest]) (by decide +kernel)

end CxxpyTree
