import CxxpyTree.ReadInput

/-! `Sys::buf_t`, the buffer a lexeme is kept in: keys one behind the other, each with its NUL. Pointers into
the buffer are offsets from `get()`. Sizes count bytes that are in memory together, so no sum of them wraps. -/

namespace CxxpyTree.Sys

inductive BufStop where
  | outOfMemory
  | assertFailed
  | outOfBounds
  | outOfFuel
  deriving DecidableEq, Repr

/-- `buf_t`. The members `size` and `ptr` are its own, next to those of `mem_t`. -/
structure TextBuf where
  mem : Mem := {}
  incr : Nat
  size : Nat := 0
  ptr : Nat := 0
  deriving DecidableEq, Repr

/-- Bytes up to the first NUL. -/
def cstrBytes (str : List UInt8) : List UInt8 := str.takeWhile (· ≠ 0)

def strlen (str : List UInt8) : Nat := (cstrBytes str).length

/-- `strncmp(r, key, sz) == 0`, where `key` is cut after `sz` bytes. -/
def strncmpEq : List (Option UInt8) → List UInt8 → Bool
  | _, [] => true
  | some a :: r, b :: key => a == b && (a == 0 || strncmpEq r key)
  | _, _ :: _ => false

namespace TextBuf

/-- `has n` tells whether `realloc` finds memory for `n` bytes; for no bytes it returns null. -/
def enlarge (has : Nat → Bool) (n : Nat) (b : TextBuf) : Except BufStop TextBuf :=
  if b.size + n = 0 ∨ has (b.size + n) = false then .error .outOfMemory
  else .ok { b with mem := b.mem.realloc (b.size + n), size := b.size + n }

def new (has : Nat → Bool) (incr : Nat) : Except BufStop TextBuf := enlarge has incr { incr }

/-- A `memcpy` or an assignment to a byte, which must stay inside the allocated bytes. -/
def write (d : Nat) (src : List UInt8) (b : TextBuf) : Except BufStop TextBuf :=
  match b.mem.copy d src with
  | none => .error .outOfBounds
  | some mem => .ok { b with mem }

def reserve (has : Nat → Bool) (s : Nat) (b : TextBuf) : Except BufStop TextBuf :=
  if b.ptr + s > b.size then do
    let b ← b.enlarge has (if b.incr > s then b.incr else s)
    if ¬ b.ptr + s ≤ b.size then throw .assertFailed
    return b
  else .ok b

/-- The call of `memcpy`, which is left out for no bytes. -/
def copyKey (key : List UInt8) (b : TextBuf) : Except BufStop TextBuf :=
  if key.length ≠ 0 then b.write b.ptr key else .ok b

/-- `nadd(key, sz)` with `sz` the length of `key`; returns where the key is. -/
def nadd (has : Nat → Bool) (key : List UInt8) (b : TextBuf) : Except BufStop (Nat × TextBuf) := do
  let sz := key.length
  let s := 1 + sz
  let b ← b.reserve has s
  let r := b.ptr
  let b ← b.copyKey key
  let b ← b.write (r + sz) [0]
  if sz ≠ 0 ∧ strncmpEq (b.mem.bytes.drop r) key = false then throw .assertFailed
  return (r, { b with ptr := b.ptr + s })

def nassign (has : Nat → Bool) (key : List UInt8) (b : TextBuf) : Except BufStop (Nat × TextBuf) :=
  nadd has key { b with ptr := 0 }

def assign (has : Nat → Bool) (key : List UInt8) (b : TextBuf) : Except BufStop (Nat × TextBuf) :=
  b.nassign has (key.take (strlen key))

def add (has : Nat → Bool) (key : List UInt8) (b : TextBuf) : Except BufStop (Nat × TextBuf) :=
  b.nadd has (key.take (strlen key))

/-- The bytes between `get()` and `ptr`. -/
def content (b : TextBuf) : List (Option UInt8) := b.mem.bytes.take b.ptr

/-- The `while` of `iterator::operator++` at `p`, in front of the bytes that are left. -/
def skip (stop : Nat) : Nat → List (Option UInt8) → Except BufStop Nat
  | _, [] => .error .outOfBounds
  | p, c :: rest => if c ≠ some 0 ∧ p < stop then skip stop (p + 1) rest else .ok p

def next (b : TextBuf) (p : Nat) : Except BufStop Nat := do
  let p ← skip b.ptr p (b.mem.bytes.drop p)
  return if p < b.ptr then p + 1 else p

def read (b : TextBuf) (p : Nat) : List (Option UInt8) := (b.mem.bytes.drop p).takeWhile (· ≠ some 0)

def keysFrom (b : TextBuf) : Nat → Nat → Except BufStop (List (List (Option UInt8)))
  | fuel, p =>
    if p = b.ptr then .ok []
    else
      match fuel with
      | 0 => .error .outOfFuel
      | fuel + 1 => do
        let q ← b.next p
        return b.read p :: (← keysFrom b fuel q)

/-- From `begin()` to `end()`; a round takes one byte or more. -/
def keys (b : TextBuf) : Except BufStop (List (List (Option UInt8))) := b.keysFrom b.ptr 0

end TextBuf

inductive BufOp where
  | nassign (key : List UInt8)
  | nadd (key : List UInt8)
  | assign (key : List UInt8)
  | add (key : List UInt8)

namespace BufOp

def run (has : Nat → Bool) (b : TextBuf) : BufOp → Except BufStop (Nat × TextBuf)
  | nassign key => b.nassign has key
  | nadd key => b.nadd has key
  | assign key => b.assign has key
  | add key => b.add has key

/-- The keys given since the last `nassign` or `assign`, after one call more. -/
def collect (keys : List (List UInt8)) : BufOp → List (List UInt8)
  | nassign key => [key]
  | nadd key => keys ++ [key]
  | assign key => [cstrBytes key]
  | add key => keys ++ [cstrBytes key]

end BufOp

def runBufOps (has : Nat → Bool) (b : TextBuf) : List BufOp → Except BufStop TextBuf
  | [] => .ok b
  | op :: ops => do
    let (_, b) ← op.run has b
    runBufOps has b ops

def bufRun (has : Nat → Bool) (incr : Nat) (ops : List BufOp) : Except BufStop TextBuf := do
  runBufOps has (← TextBuf.new has incr) ops

def given (ops : List BufOp) : List (List UInt8) := ops.foldl BufOp.collect []

/-- A call ends with a result that meets `post`, or for want of memory. -/
structure Yields (has : Nat → Bool) (out : Except BufStop α) (post : α → Prop) : Prop where
  stops : ∀ stop, out = .error stop → stop = .outOfMemory ∧ ∃ n, 0 < n ∧ has n = false
  returns : ∀ a, out = .ok a → post a

section Yields
variable {has : Nat → Bool}

theorem Yields.ok {a : α} {post : α → Prop} (meets : post a) : Yields has (.ok a) post :=
  ⟨nofun, fun _ same => Except.ok.inj same ▸ meets⟩

theorem Yields.bind {out : Except BufStop α} {f : α → Except BufStop β} {mid : α → Prop} {post : β → Prop}
    (first : Yields has out mid) (rest : ∀ a, mid a → Yields has (f a) post) : Yields has (out >>= f) post := by
  cases out with
  | error stop => exact ⟨fun other same => by cases same; exact first.stops stop rfl, nofun⟩
  | ok a => exact rest a (first.returns a rfl)

theorem Yields.imp {out : Except BufStop α} {mid post : α → Prop} (first : Yields has out mid)
    (weaker : ∀ a, mid a → post a) : Yields has out post :=
  ⟨first.stops, fun a same => weaker a (first.returns a same)⟩

end Yields

def stored (keys : List (List UInt8)) : List UInt8 := keys.flatMap fun key => key ++ [0]

/-- The buffer keeps `keys`, and knows how large it is. -/
structure TextBuf.Keeps (keys : List (List UInt8)) (b : TextBuf) : Prop where
  size : b.size = b.mem.size
  room : b.ptr ≤ b.size
  count : b.ptr = (stored keys).length
  bytes : b.content = (stored keys).map some

section Calls
variable {has : Nat → Bool} {b : TextBuf} {key : List UInt8} {keys : List (List UInt8)}

/-- `enlarge` moves what is in the buffer to a larger one. -/
theorem TextBuf.enlarge_yields (size : b.size = b.mem.size) (room : b.ptr ≤ b.size) {n : Nat} (some : 0 < n) :
    Yields has (b.enlarge has n) fun b' =>
      b'.size = b'.mem.size ∧ b'.size = b.size + n ∧ b'.ptr = b.ptr ∧ b'.content = b.content := by
  unfold TextBuf.enlarge
  split
  · next fails =>
    have missing : has (b.size + n) = false := fails.resolve_left (by omega)
    exact ⟨fun stop same => by cases same; exact ⟨rfl, _, by omega, missing⟩, nofun⟩
  · refine Yields.ok ⟨Mem.size_realloc.symm, rfl, rfl, ?_⟩
    exact Mem.take_realloc (size ▸ room) (by omega)

theorem TextBuf.reserve_yields (size : b.size = b.mem.size) (room : b.ptr ≤ b.size) {s : Nat} (some : 0 < s) :
    Yields has (b.reserve has s) fun b' =>
      b'.size = b'.mem.size ∧ b'.ptr + s ≤ b'.size ∧ b'.ptr = b.ptr ∧ b'.content = b.content := by
  unfold TextBuf.reserve
  split
  · refine (enlarge_yields size room (by split <;> omega)).bind ?_
    rintro b' ⟨size', grown, ptr, content⟩
    have fits : b'.ptr + s ≤ b'.size := by split at grown <;> omega
    simp only [fits, not_true_eq_false, if_false]
    exact Yields.ok ⟨size', fits, ptr, content⟩
  · exact Yields.ok ⟨size, by omega, rfl, rfl⟩

/-- A write that fits leaves what stands in front of it. -/
theorem TextBuf.write_yields {d : Nat} {src : List UInt8} (fits : d + src.length ≤ b.mem.size) :
    ∃ mem, b.write d src = .ok { b with mem } ∧ mem.size = b.mem.size ∧
      mem.bytes.take (d + src.length) = b.mem.bytes.take d ++ src.map some := by
  obtain ⟨mem, copied, size, bytes⟩ := Mem.copy_fits fits
  exact ⟨mem, by rw [TextBuf.write, copied], size, bytes⟩

theorem strncmpEq_self (key : List UInt8) (rest : List (Option UInt8)) : strncmpEq (key.map some ++ rest) key = true := by
  induction key with
  | nil => cases rest <;> rfl
  | cons a key ih => simp [strncmpEq, ih]

/-- One call puts its key and a NUL behind what is there. -/
theorem TextBuf.nadd_yields (size : b.size = b.mem.size) (room : b.ptr ≤ b.size) :
    Yields has (b.nadd has key) fun (r, b') => r = b.ptr ∧ b'.size = b'.mem.size ∧ b'.ptr ≤ b'.size ∧
      b'.ptr = b.ptr + (key.length + 1) ∧ b'.content = b.content ++ (key ++ [0]).map some := by
  unfold TextBuf.nadd
  refine (reserve_yields size room (by omega)).bind ?_
  rintro b' ⟨size', fits, ptr, content⟩
  obtain ⟨mem, copied, kept, front⟩ : ∃ mem, b'.copyKey key = .ok { b' with mem } ∧ mem.size = b'.mem.size ∧
      mem.bytes.take (b'.ptr + key.length) = b'.content ++ key.map some := by
    unfold TextBuf.copyKey
    by_cases empty : key.length = 0
    · obtain rfl := List.length_eq_zero_iff.mp empty
      exact ⟨b'.mem, by simp, rfl, by simp [TextBuf.content]⟩
    · rw [if_pos empty]
      exact write_yields (by omega)
  have last : b'.ptr + key.length + [(0 : UInt8)].length ≤ mem.size := by
    simp only [List.length_singleton]
    omega
  obtain ⟨mem', ended, kept', whole⟩ := @write_yields { b' with mem } _ _ last
  simp only [List.length_singleton, front] at whole
  have compared : strncmpEq (mem'.bytes.drop b'.ptr) key = true := by
    have split := List.take_append_drop (b'.ptr + key.length + 1) mem'.bytes
    have before : b'.content.length = b'.ptr := by
      have inside : b'.ptr ≤ b'.mem.bytes.length := by
        rw [size'] at fits
        exact Nat.le_trans (Nat.le_add_right _ _) fits
      simp [TextBuf.content, inside]
    rw [whole, List.append_assoc, List.append_assoc] at split
    rw [← split, List.drop_left' before]
    exact strncmpEq_self key _
  simp only [copied, ended, compared, bind, Except.bind, pure, Except.pure, Bool.true_eq_false, and_false, if_false]
  refine Yields.ok ⟨ptr, ?_, ?_, ?_, ?_⟩
  · exact size'.trans (kept.symm.trans kept'.symm)
  · exact fits
  · change b'.ptr + (1 + key.length) = _
    omega
  · change mem'.bytes.take (b'.ptr + (1 + key.length)) = _
    rw [Nat.add_comm 1, ← Nat.add_assoc, whole, content, List.map_append, List.append_assoc]

theorem stored_append (keys : List (List UInt8)) (key : List UInt8) : stored (keys ++ [key]) = stored keys ++ (key ++ [0]) := by
  simp [stored]

theorem TextBuf.Keeps.nadd (keeps : b.Keeps keys) :
    Yields has (b.nadd has key) fun (_, b') => b'.Keeps (keys ++ [key]) := by
  obtain ⟨size, room, count, bytes⟩ := keeps
  refine (nadd_yields size room).imp ?_
  rintro ⟨r, b'⟩ ⟨-, size', room', ptr, content⟩
  refine ⟨size', room', ?_, ?_⟩
  · rw [ptr, count, stored_append, List.length_append, List.length_append]
    rfl
  · rw [content, bytes, stored_append, @List.map_append _ _ some (stored keys)]

theorem TextBuf.Keeps.nassign (keeps : b.Keeps keys) :
    Yields has (b.nassign has key) fun (_, b') => b'.Keeps [key] := by
  have empty : TextBuf.Keeps [] { b with ptr := 0 } := ⟨keeps.size, Nat.zero_le _, rfl, rfl⟩
  exact empty.nadd

theorem take_strlen (str : List UInt8) : str.take (strlen str) = cstrBytes str :=
  (List.prefix_iff_eq_take.mp (List.takeWhile_prefix _)).symm

theorem TextBuf.Keeps.run (keeps : b.Keeps keys) (op : BufOp) :
    Yields has (op.run has b) fun (_, b') => b'.Keeps (op.collect keys) := by
  cases op with
  | nassign key => exact keeps.nassign
  | nadd key => exact keeps.nadd
  | assign key =>
    rw [BufOp.run, TextBuf.assign, take_strlen]
    exact keeps.nassign
  | add key =>
    rw [BufOp.run, TextBuf.add, take_strlen]
    exact keeps.nadd

theorem TextBuf.Keeps.runs (keeps : b.Keeps keys) (ops : List BufOp) :
    Yields has (runBufOps has b ops) (·.Keeps (ops.foldl BufOp.collect keys)) := by
  induction ops generalizing b keys with
  | nil => exact Yields.ok keeps
  | cons op ops ih => exact (keeps.run op).bind fun _ next => ih next

end Calls

section Iteration
variable {b : TextBuf} {stop p : Nat} {key : List UInt8} {rest : List (Option UInt8)}

/-- The search for a NUL reads the key in front of it and no further. -/
theorem TextBuf.skip_key (clean : 0 ∉ key) (inside : p + key.length ≤ stop) :
    TextBuf.skip stop p (key.map some ++ some 0 :: rest) = .ok (p + key.length) := by
  induction key generalizing p with
  | nil => simp [TextBuf.skip]
  | cons c key ih =>
    obtain ⟨solid, clean⟩ := not_or.mp (mt List.mem_cons.mpr clean)
    rw [List.length_cons] at inside
    simp only [List.map_cons, List.cons_append, TextBuf.skip]
    rw [if_pos ⟨by simpa using Ne.symm solid, by omega⟩, ih clean (by omega), List.length_cons]
    congr 1
    omega

theorem TextBuf.next_key (clean : 0 ∉ key) (here : b.mem.bytes.drop p = key.map some ++ some 0 :: rest)
    (inside : p + key.length < b.ptr) : b.next p = .ok (p + key.length + 1) := by
  rw [TextBuf.next, here, skip_key clean (Nat.le_of_lt inside)]
  simp [bind, Except.bind, pure, Except.pure, inside]

theorem TextBuf.read_key (clean : 0 ∉ key) (here : b.mem.bytes.drop p = key.map some ++ some 0 :: rest) :
    b.read p = key.map some := by
  have solid : ∀ c ∈ key.map some, decide (c ≠ some (0 : UInt8)) = true := by
    intro c listed
    obtain ⟨byte, member, rfl⟩ := List.mem_map.mp listed
    have other : byte ≠ 0 := fun zero => clean (zero ▸ member)
    simpa using other
  rw [TextBuf.read, here, List.takeWhile_append_of_pos solid]
  simp

/-- From the start of a key the loop meets that key and the ones behind it. -/
theorem TextBuf.keysFrom_stored (keys : List (List UInt8)) (clean : ∀ key ∈ keys, 0 ∉ key)
    (here : b.mem.bytes.drop p = (stored keys).map some ++ rest) (ends : p + (stored keys).length = b.ptr)
    {fuel : Nat} (enough : keys.length ≤ fuel) : b.keysFrom fuel p = .ok (keys.map (List.map some)) := by
  induction keys generalizing p fuel with
  | nil =>
    have last : p = b.ptr := ends
    cases fuel <;> simp [TextBuf.keysFrom, last]
  | cons key keys ih =>
    obtain ⟨first, others⟩ := List.forall_mem_cons.mp clean
    have cut : stored (key :: keys) = key ++ 0 :: stored keys := by simp [stored]
    rw [cut] at here ends
    simp only [List.map_append, List.map_cons, List.append_assoc, List.cons_append] at here
    rw [List.length_append, List.length_cons] at ends
    have onward : b.mem.bytes.drop (p + key.length + 1) = (stored keys).map some ++ rest := by
      have front : (key.map some ++ [some (0 : UInt8)]).length = key.length + 1 := by simp
      rw [Nat.add_assoc, ← List.drop_drop, here, List.append_cons, List.drop_left' front]
    cases fuel with
    | zero => cases enough
    | succ fuel =>
      rw [TextBuf.keysFrom, if_neg (by omega), next_key first here (by omega)]
      simp only [bind, Except.bind, ih others onward (by omega) (Nat.le_of_succ_le_succ enough), read_key first here]
      rfl

theorem length_le_stored (keys : List (List UInt8)) : keys.length ≤ (stored keys).length := by
  induction keys with
  | nil => exact Nat.zero_le _
  | cons key keys ih =>
    have cut : stored (key :: keys) = key ++ 0 :: stored keys := by simp [stored]
    rw [cut, List.length_append, List.length_cons, List.length_cons]
    omega

theorem TextBuf.Keeps.keys {keys : List (List UInt8)} (keeps : b.Keeps keys) (clean : ∀ key ∈ keys, 0 ∉ key) :
    b.keys = .ok (keys.map (List.map some)) := by
  have here : b.mem.bytes.drop 0 = (stored keys).map some ++ b.mem.bytes.drop b.ptr := by
    rw [← keeps.bytes, TextBuf.content, List.take_append_drop, List.drop_zero]
  exact keysFrom_stored keys clean here (by rw [keeps.count, Nat.zero_add]) (keeps.count ▸ length_le_stored keys)

end Iteration

section Runs
variable {incr : Nat}

theorem bufRun_yields (has : Nat → Bool) (positive : 0 < incr) (ops : List BufOp) :
    Yields has (bufRun has incr ops) (·.Keeps (given ops)) := by
  refine (TextBuf.enlarge_yields rfl (Nat.le_refl 0) positive).bind ?_
  rintro b ⟨size, -, ptr, content⟩
  have empty : b.Keeps [] := ⟨size, by rw [ptr]; exact Nat.zero_le _, ptr, content⟩
  exact empty.runs ops

/-- However the calls follow each other, a buffer of positive increment writes inside its bytes and keeps the keys
since the last reset, each with its NUL; a loop over it yields them. Nothing but a lack of memory ends a run early. -/
theorem textBuf_keeps (has : Nat → Bool) (positive : 0 < incr) (ops : List BufOp) :
    (∀ stop, bufRun has incr ops = .error stop → stop = .outOfMemory ∧ ∃ n, 0 < n ∧ has n = false) ∧
    ∀ b, bufRun has incr ops = .ok b → b.ptr ≤ b.mem.size ∧ b.content = (stored (given ops)).map some ∧
      ((∀ key ∈ given ops, 0 ∉ key) → b.keys = .ok ((given ops).map (List.map some))) := by
  obtain ⟨stops, returns⟩ := bufRun_yields has positive ops
  refine ⟨stops, fun b ran => ?_⟩
  have keeps := returns b ran
  exact ⟨keeps.size ▸ keeps.room, keeps.bytes, keeps.keys⟩

/-- Four bytes at a time: a key of three just fits behind its reset, and the next one makes room. -/
theorem textBuf_keeps_four : ∃ b,
    bufRun (fun _ => true) 4 [.nadd [9], .assign [1, 2, 3, 0, 7], .add [4, 5], .nadd []] = .ok b ∧
      b.content = [some 1, some 2, some 3, some 0, some 4, some 5, some 0, some 0] ∧
      b.keys = .ok [[some 1, some 2, some 3], [some 4, some 5], []] := by
  obtain ⟨stops, returns⟩ := textBuf_keeps (fun _ => true) (show 0 < 4 by decide)
    [.nadd [9], .assign [1, 2, 3, 0, 7], .add [4, 5], .nadd []]
  cases ran : bufRun (fun _ => true) 4 [.nadd [9], .assign [1, 2, 3, 0, 7], .add [4, 5], .nadd []] with
  | error stop =>
    obtain ⟨-, n, -, missing⟩ := stops stop ran
    cases missing
  | ok b =>
    obtain ⟨-, content, keys⟩ := returns b ran
    exact ⟨b, rfl, content.trans (by decide), (keys (by decide)).trans (by rfl)⟩

end Runs

end CxxpyTree.Sys
