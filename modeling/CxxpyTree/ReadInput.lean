import Mathlib.Data.List.Basic
import Mathlib.Tactic.Common

/-! `file_t::read_regular` and `file_t::read_stdin` of sys.cpp over `mem_t` buffers. -/

namespace CxxpyTree.Sys

def maxSize : Nat := 10485760

/-- `mem_t`: the allocated bytes, of which those never written hold nothing, and `e`. -/
structure Mem where
  bytes : List (Option UInt8) := []
  stop : Nat := 0
  deriving DecidableEq, Repr

namespace Mem

def size (m : Mem) : Nat := m.bytes.length

/-- `realloc`, which finds the memory. -/
def realloc (m : Mem) (n : Nat) : Mem :=
  { bytes := m.bytes.take n ++ List.replicate (n - m.size) none, stop := n }

def setEnd (m : Mem) (e : Nat) : Bool × Mem := if e ≤ m.size then (true, { m with stop := e }) else (false, m)

/-- What a reader of the buffer sees, up to `end()`. -/
def content (m : Mem) : List (Option UInt8) := m.bytes.take m.stop

/-- `memcpy(get() + d, src, n)`, which must stay inside the allocated bytes. -/
def copy (m : Mem) (d : Nat) (src : List UInt8) : Option Mem :=
  if d + src.length ≤ m.size then
    some { m with bytes := m.bytes.take d ++ src.map some ++ m.bytes.drop (d + src.length) }
  else none

end Mem

/-- Why a read ends without a buffer: a thrown `Error`, a failed `SYS_ASSERT`, or a `memcpy` past
the end of the buffer. -/
inductive ReadStop where
  | error (what : String)
  | assertFailed
  | outOfBounds
  deriving DecidableEq, Repr

/-- The bytes that one call of `read` returns, at most as many as `chunk` holds. -/
structure Chunk where
  bytes : List UInt8
  some : 0 < bytes.length
  fits : bytes.length ≤ 1024

structure StdinState where
  size : Nat := 0
  d : Nat := 0
  buf : Mem := {}
  deriving DecidableEq, Repr

def inc : Nat := 4096

def tooLarge : ReadStop := .error "<stdin>: input is too large"

/-- The rest of a round of the loop, after `read` has returned `chunk`. -/
def readChunk (s : StdinState) (chunk : Chunk) : Except ReadStop StdinState :=
  let n := chunk.bytes.length
  if s.buf.size + n ≥ maxSize then .error tooLarge
  else
    let s :=
      if s.d + n > s.size then
        let size := s.size + if n < inc then inc else n
        { s with size, buf := s.buf.realloc size }
      else s
    match s.buf.copy s.d chunk.bytes with
    | none => .error .outOfBounds
    | some buf => .ok { s with buf, d := s.d + n }

/-- The loop of `read_stdin`; the calls of `read` return the chunks and then zero. -/
def readStdinLoop : List Chunk → StdinState → Except ReadStop StdinState
  | chunks, s =>
    if ¬ s.d ≤ s.size then .error .assertFailed
    else
      match chunks with
      | [] => .ok s
      | chunk :: chunks =>
        match readChunk s chunk with
        | .error stop => .error stop
        | .ok s => readStdinLoop chunks s

/-- What `read_regular` and `read_stdin` do with the end of the buffer. -/
def closeBuf (buf : Mem) (e : Nat) : Except ReadStop Mem :=
  let (b, buf) := buf.setEnd e
  if b then .ok buf else .error .assertFailed

def readStdin (chunks : List Chunk) : Except ReadStop Mem :=
  match readStdinLoop chunks {} with
  | .error stop => .error stop
  | .ok s => closeBuf s.buf s.d

/-- `read_regular` of the file `name` with the content `d`, which one call of `read` returns. -/
def readRegular (name : String) (d : List UInt8) : Except ReadStop Mem :=
  if d.length > maxSize then .error (.error (name ++ ": file is too large"))
  else
    let size := d.length
    match (Mem.realloc {} size).copy 0 d with
    | none => .error .outOfBounds
    | some buf => closeBuf buf size

def input (chunks : List Chunk) : List UInt8 := chunks.flatMap Chunk.bytes

section Memory
variable {m : Mem} {d e n : Nat} {src : List UInt8}

@[simp] theorem Mem.size_realloc : (m.realloc n).size = n := by
  simp only [realloc, size, List.length_append, List.length_take, List.length_replicate]
  omega

theorem Mem.take_realloc (kept : d ≤ m.size) (grown : m.size ≤ n) : (m.realloc n).bytes.take d = m.bytes.take d := by
  have within : d ≤ m.bytes.length := kept
  have whole : m.bytes.take n = m.bytes := List.take_of_length_le grown
  simp only [realloc, whole]
  exact List.take_append_of_le_length within

/-- A copy that fits leaves what stood before it and puts the source behind. -/
theorem Mem.copy_fits (fits : d + src.length ≤ m.size) :
    ∃ m', m.copy d src = some m' ∧ m'.size = m.size ∧
      m'.bytes.take (d + src.length) = m.bytes.take d ++ src.map some := by
  have bound : d + src.length ≤ m.bytes.length := fits
  have front : (m.bytes.take d ++ src.map some).length = d + src.length := by
    simp only [List.length_append, List.length_take, List.length_map]
    omega
  refine ⟨_, if_pos fits, ?_, ?_⟩
  · simp only [size, List.length_append, front, List.length_drop]
    omega
  · exact List.take_left' front

theorem closeBuf_inside (inside : e ≤ m.size) : closeBuf m e = .ok { m with stop := e } := by
  simp [closeBuf, Mem.setEnd, inside]

end Memory

/-- Between two rounds: `read` holds what has been stored, in a buffer of as many blocks of `inc`
bytes as that takes. -/
structure Stored (read : List UInt8) (s : StdinState) : Prop where
  d : s.d = read.length
  size : s.buf.size = s.size
  blocks : inc ∣ s.size
  room : s.d ≤ s.size
  tight : s.size < s.d + inc
  bytes : s.buf.bytes.take s.d = read.map some

/-- Behind this many bytes the buffer already has `max_size` bytes, and the next chunk is refused. -/
def lastRoom : Nat := maxSize - inc

section Rounds
variable {read : List UInt8} {s : StdinState} {chunk : Chunk}

/-- The step lemma: the test is on the size of the buffer, so a chunk is taken up to `lastRoom`. -/
theorem readChunk_stored (stored : Stored read s) :
    if lastRoom < read.length then readChunk s chunk = .error tooLarge
    else ∃ s', readChunk s chunk = .ok s' ∧ Stored (read ++ chunk.bytes) s' := by
  obtain ⟨counted, sized, ⟨k, blocks⟩, room, tight, bytes⟩ := stored
  have some := chunk.some
  have fits := chunk.fits
  split
  next late =>
    have full : s.buf.size + chunk.bytes.length ≥ maxSize := by
      simp only [lastRoom, maxSize, inc] at late blocks tight ⊢
      omega
    unfold readChunk
    rw [if_pos full]
  next early =>
    have small : ¬ s.buf.size + chunk.bytes.length ≥ maxSize := by
      simp only [lastRoom, maxSize, inc] at early blocks tight ⊢
      omega
    unfold readChunk
    rw [if_neg small]
    by_cases grows : s.d + chunk.bytes.length > s.size
    · have short : chunk.bytes.length < inc := by simp only [inc]; omega
      have enough : s.d + chunk.bytes.length ≤ (s.buf.realloc (s.size + inc)).size := by
        rw [Mem.size_realloc]
        omega
      obtain ⟨buf, copied, kept, front⟩ := Mem.copy_fits enough
      rw [Mem.take_realloc (sized ▸ room) (by omega), bytes, ← List.map_append] at front
      simp only [if_pos grows, if_pos short, copied]
      refine ⟨_, rfl, ?_⟩
      constructor
      · simp [counted]
      · simp [kept]
      · exact Nat.dvd_add ⟨k, blocks⟩ (Nat.dvd_refl inc)
      · simp only
        omega
      · simp only
        omega
      · exact front
    · have enough : s.d + chunk.bytes.length ≤ s.buf.size := by omega
      obtain ⟨buf, copied, kept, front⟩ := Mem.copy_fits enough
      rw [bytes, ← List.map_append] at front
      simp only [if_neg grows, copied]
      refine ⟨_, rfl, ?_⟩
      constructor
      · simp [counted]
      · exact kept.trans sized
      · exact ⟨k, blocks⟩
      · simp only
        omega
      · simp only
        omega
      · exact front

/-- The run lemma: the loop ends well just when the last chunk starts early enough. -/
theorem readStdinLoop_stored : ∀ (chunks : List Chunk) {read : List UInt8} {s : StdinState}, Stored read s →
    if chunks ≠ [] ∧ lastRoom < (read ++ input chunks.dropLast).length then
      readStdinLoop chunks s = .error tooLarge
    else ∃ s', readStdinLoop chunks s = .ok s' ∧ Stored (read ++ input chunks) s'
  | [], read, s, stored => by
    have ended : readStdinLoop [] s = .ok s := by
      unfold readStdinLoop
      rw [if_neg (not_not.mpr stored.room)]
    rw [if_neg (fun both => both.1 rfl)]
    exact ⟨s, ended, by simpa [input] using stored⟩
  | chunk :: chunks, read, s, stored => by
    have step := @readChunk_stored read s chunk stored
    have round : readStdinLoop (chunk :: chunks) s =
        match readChunk s chunk with
        | .error stop => .error stop
        | .ok s => readStdinLoop chunks s := by
      rw [readStdinLoop, if_neg (not_not.mpr stored.room)]
    rw [round]
    split at step
    next late =>
      have later : lastRoom < (read ++ input (chunk :: chunks).dropLast).length := by
        rw [List.length_append]
        omega
      rw [if_pos ⟨List.cons_ne_nil _ _, later⟩, step]
    next early =>
      obtain ⟨s', taken, stored'⟩ := step
      have rest := readStdinLoop_stored chunks stored'
      simp only [taken]
      cases chunks with
      | nil =>
        rw [if_neg (fun both => both.1 rfl)] at rest
        rw [if_neg (fun both => early (by simpa [input] using both.2))]
        simpa [input] using rest
      | cons next chunks => simpa [input] using rest

end Rounds

section Whole
variable (chunks : List Chunk)

/-- Only where the last chunk starts decides, and what is read is the input. -/
theorem readStdin_outcome :
    if lastRoom < (input chunks.dropLast).length then readStdin chunks = .error tooLarge
    else ∃ buf, readStdin chunks = .ok buf ∧ buf.content = (input chunks).map some := by
  have start : Stored [] {} := by
    constructor <;> simp [Mem.size, inc]
  have run := readStdinLoop_stored chunks start
  rw [List.nil_append, List.nil_append] at run
  unfold readStdin
  split
  next late =>
    have some : chunks ≠ [] := by
      rintro rfl
      simp [input] at late
    rw [if_pos ⟨some, late⟩] at run
    rw [run]
  next early =>
    rw [if_neg (fun both => early both.2)] at run
    obtain ⟨s, ended, stored⟩ := run
    have inside : s.d ≤ s.buf.size := stored.size ▸ stored.room
    simp only [ended]
    exact ⟨_, closeBuf_inside inside, stored.bytes⟩

theorem readRegular_outcome (name : String) (d : List UInt8) :
    if d.length ≤ maxSize then ∃ buf, readRegular name d = .ok buf ∧ buf.content = d.map some
    else readRegular name d = .error (.error (name ++ ": file is too large")) := by
  unfold readRegular
  split
  next small =>
    have fits : 0 + d.length ≤ (Mem.realloc {} d.length).size := by simp
    obtain ⟨buf, copied, kept, front⟩ := Mem.copy_fits fits
    have inside : d.length ≤ buf.size := by simp [kept]
    simp only [if_neg (Nat.not_lt.mpr small), copied]
    refine ⟨_, closeBuf_inside inside, ?_⟩
    simpa [Mem.content] using front
  next large => rw [if_pos (Nat.not_le.mp large)]

/-- Reading from standard input returns just the input if that has at most `max_size` bytes, and
throws otherwise; it accepts what `read_regular` accepts of a file, and every copy is in bounds. -/
structure ReadsWhole : Prop where
  whole : (input chunks).length ≤ maxSize → ∃ buf, readStdin chunks = .ok buf ∧ buf.content = (input chunks).map some
  refused : maxSize < (input chunks).length → readStdin chunks = .error tooLarge
  regular : ∀ name, (∃ buf, readStdin chunks = .ok buf) ↔ ∃ buf, readRegular name (input chunks) = .ok buf
  inBounds : readStdin chunks ≠ .error .outOfBounds

/-- The last chunk of an input that is too long starts behind `lastRoom`. -/
theorem late_of_large (large : maxSize < (input chunks).length) : lastRoom < (input chunks.dropLast).length := by
  rcases List.eq_nil_or_concat chunks with rfl | ⟨before, last, rfl⟩
  · cases large
  · have fits := last.fits
    simp only [input, List.concat_eq_append, List.flatMap_append, List.flatMap_singleton, List.length_append] at large
    simp only [List.concat_eq_append, List.dropLast_concat, input, lastRoom, maxSize, inc] at large ⊢
    omega

/-- A read is whole just when it is refused for its length or its last chunk finds the buffer with
room for one more block. -/
theorem reads_whole_iff :
    ReadsWhole chunks ↔ maxSize < (input chunks).length ∨ (input chunks.dropLast).length ≤ lastRoom := by
  have outcome := readStdin_outcome chunks
  constructor
  · intro reads
    by_contra neither
    rw [not_or, Nat.not_lt, Nat.not_le] at neither
    rw [if_pos neither.2] at outcome
    obtain ⟨buf, accepted, -⟩ := reads.whole neither.1
    rw [outcome] at accepted
    cases accepted
  · intro condition
    split at outcome
    next late =>
      have large : maxSize < (input chunks).length := condition.resolve_right (Nat.not_le.mpr late)
      refine ⟨fun small => absurd small (Nat.not_le.mpr large), fun _ => outcome, fun name => ?_, ?_⟩
      · have refused := readRegular_outcome name (input chunks)
        rw [if_neg (Nat.not_le.mpr large)] at refused
        simp [outcome, refused]
      · rw [outcome]
        exact nofun
    next early =>
      obtain ⟨buf, accepted, content⟩ := outcome
      have small : (input chunks).length ≤ maxSize := by
        by_contra large
        exact early (late_of_large chunks (Nat.not_le.mp large))
      refine ⟨fun _ => ⟨buf, accepted, content⟩, fun large => absurd small (Nat.not_le.mpr large), fun name => ?_, ?_⟩
      · have regular := readRegular_outcome name (input chunks)
        rw [if_pos small] at regular
        obtain ⟨file, read, -⟩ := regular
        exact iff_of_true ⟨buf, accepted⟩ ⟨file, read⟩
      · rw [accepted]
        exact nofun

end Whole

def fullChunk : Chunk where
  bytes := List.replicate 1024 0
  some := List.length_replicate ▸ Nat.succ_pos 1023
  fits := List.length_replicate ▸ Nat.le_refl 1024

theorem length_input_replicate (n : Nat) : (input (List.replicate n fullChunk)).length = n * 1024 := by
  induction n with
  | zero => rfl
  | succ n ih =>
    rw [List.replicate_succ, input, List.flatMap_cons, List.length_append, ← input, ih, fullChunk, List.length_replicate]
    omega

theorem fullChunks_refused {n : Nat} (late : lastRoom < (n - 1) * 1024) (small : n * 1024 ≤ maxSize) :
    ¬ ReadsWhole (List.replicate n fullChunk) := by
  intro reads
  rw [← length_input_replicate] at small
  have outcome := readStdin_outcome (List.replicate n fullChunk)
  rw [List.dropLast_replicate, length_input_replicate, if_pos late] at outcome
  obtain ⟨buf, accepted, -⟩ := reads.whole small
  rw [outcome] at accepted
  cases accepted

/-- An input of `max_size` bytes that arrives in full chunks is refused. -/
theorem full_chunks_not_whole : ¬ ReadsWhole (List.replicate 10240 fullChunk) :=
  fullChunks_refused (by decide) (by decide)

end CxxpyTree.Sys
