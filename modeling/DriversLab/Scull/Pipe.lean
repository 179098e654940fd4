import DriversLab.Scull.Main
import DriversLab.Lib.Ring
import DriversLab.Lib.Lts

/-!
# Scull.Pipe — the scullpipe device

`pipe.c` and its system: one pipe, any number of files on it and any number of
threads that read and write through them. What a function does while it holds
`dev->mutex` is one step; the tests on which a thread goes to sleep or gives up are
made there. The `ioctl` is that of `main.c`.

Pointers into the buffer are kept relative to its beginning, and memory is flat: a
pointer that has left the buffer reads and writes the bytes next to it. Those are not
the pipe's: whoever has them stores there at any time.
-/

namespace Scull

open CInt Lts

/-- `struct scull_pipe`; `buffer` is NULL or the number of bytes that `kmalloc` gave
out for it, `mem` the memory around it, in which the buffer begins at 0. -/
structure ScullPipe where
  buffer : Option ℕ
  bufEnd : ℤ
  buffersize : ℤ
  rp : ℤ
  wp : ℤ
  nreaders : ℤ
  nwriters : ℤ
  mem : ℤ → UInt8

/-- `f_mode` of a file. -/
structure FMode where
  read : Bool
  write : Bool
deriving DecidableEq, Repr

namespace ScullPipe

/-! ## Opening and closing -/

/-- The part of a count that one file makes up. -/
def one (b : Bool) : ℤ := if b then 1 else 0

/-- The buffer that `scull_p_open` works with: the one that is there, or a new one
with the contents of `heap`. A negative size is a huge `size_t`, which `kmalloc` does
not serve. -/
def allocate (size : ℤ) (heap : Option (ℤ → UInt8)) (dev : ScullPipe) : Option ScullPipe :=
  match dev.buffer with
  | some _ => some dev
  | none =>
      if 0 ≤ size then heap.map fun mem => { dev with buffer := some size.toNat, mem := mem }
      else none

/-- `scull_p_open` under the mutex, with the value `size` of `scull_p_buffer`; `none`
when it returns `-ENOMEM`. -/
def scullPOpen (size : ℤ) (mode : FMode) (heap : Option (ℤ → UInt8)) (dev : ScullPipe) :
    Option ScullPipe :=
  (dev.allocate size heap).map fun dev =>
    { dev with
      -- on every open, also of a pipe in use
      buffersize := size
      bufEnd := size
      rp := 0
      wp := 0
      nreaders := dev.nreaders + one mode.read
      nwriters := dev.nwriters + one mode.write }

/-- `scull_p_release` under the mutex. -/
def scullPRelease (mode : FMode) (dev : ScullPipe) : ScullPipe :=
  let nreaders := dev.nreaders - one mode.read
  let nwriters := dev.nwriters - one mode.write
  { dev with
    nreaders := nreaders
    nwriters := nwriters
    buffer := if nreaders + nwriters = 0 then none else dev.buffer }

/-! ## Reading -/

/-- The number of bytes that `scull_p_read` copies. -/
def readCount (count : ℕ) (dev : ScullPipe) : ℕ :=
  if dev.rp < dev.wp then min count (toULong (dev.wp - dev.rp)).toNat
  -- the write pointer has wrapped: data up to `end`
  else min count (toULong (dev.bufEnd - dev.rp)).toNat

/-- `scull_p_read` once there is something to read: what it returns, the bytes it
hands over, and the pipe after it. -/
def scullPRead (count : ℕ) (fault : Bool) (dev : ScullPipe) : ℤ × List UInt8 × ScullPipe :=
  let count := dev.readCount count
  if fault then (-EFAULT, [], dev)
  else
    let rp := dev.rp + count
    (count, Ring.segment dev.mem dev.rp count, { dev with rp := if rp = dev.bufEnd then 0 else rp })

/-! ## Writing -/

/-- `spacefree`. -/
def spacefree (dev : ScullPipe) : ℤ :=
  if dev.rp = dev.wp then toInt (dev.buffersize - 1)
  else toInt ((dev.rp + dev.buffersize - dev.wp).tmod dev.buffersize - 1)

/-- The number of bytes that `scull_p_write` copies. -/
def writeCount (count : ℕ) (dev : ScullPipe) : ℕ :=
  let count := min count (toULong dev.spacefree).toNat
  if dev.rp ≤ dev.wp then min count (toULong (dev.bufEnd - dev.wp)).toNat
  -- the write pointer has wrapped: fill up to `rp - 1`
  else min count (toULong (dev.rp - dev.wp - 1)).toNat

/-- `scull_p_write` of the user's bytes `buf` once there is space: what it returns,
the bytes it accepts, and the pipe after it. -/
def scullPWrite (buf : List UInt8) (fault : Option ℕ) (dev : ScullPipe) :
    ℤ × List UInt8 × ScullPipe :=
  let data := buf.take (dev.writeCount buf.length)
  -- a copy that faults has stored bytes too
  let dev := { dev with mem := Ring.store dev.mem dev.wp (copied data fault) }
  if fault.isSome then (-EFAULT, [], dev)
  else
    let wp := dev.wp + data.length
    (data.length, data, { dev with wp := if wp = dev.bufEnd then 0 else wp })

end ScullPipe

/-! ## The system -/

/-- An open file. -/
structure PipeFile where
  mode : FMode
  nonblock : Bool
deriving DecidableEq, Repr

/-- A call of `scull_p_read` or `scull_p_write`. -/
inductive PipeCall where
  | read (count : ℕ)
  | write (buf : List UInt8)
deriving DecidableEq, Repr

/-- The number of bytes that a call asks for. -/
def PipeCall.count : PipeCall → ℕ
  | .read count => count
  | .write buf => buf.length

/-- The VFS lets a call through to a file of this mode. -/
def PipeCall.allowed : PipeCall → FMode → Bool
  | .read _, mode => mode.read
  | .write _, mode => mode.write

/-- A thread: outside a call (with the value that the last one returned), about to
take the mutex, or asleep on a queue. -/
inductive PipeThread where
  | returned (ret : ℤ)
  | locking (f : ℕ) (call : PipeCall)
  | sleeping (f : ℕ) (call : PipeCall)
deriving DecidableEq, Repr

/-- The file that a thread works on. -/
def PipeThread.file : PipeThread → Option ℕ
  | .returned _ => none
  | .locking f _ | .sleeping f _ => some f

/-- The pipe with its files (`none` once released) and threads, and the bytes that
writes have accepted and reads have returned since the buffer was allocated. -/
structure PipeSys where
  dev : ScullPipe
  params : Params
  files : List (Option PipeFile)
  threads : List PipeThread
  accepted : List UInt8
  returned : List UInt8

inductive PipeAct where
  | openFile (file : PipeFile) (heap : Option (ℤ → UInt8))
  | release (f : ℕ) (file : PipeFile)
  | ioctl (cmd : IoctlCmd) (arg : ℤ) (user : IoctlUser)
  | enter (t f : ℕ) (file : PipeFile) (call : PipeCall)
  | locked (t f : ℕ) (call : PipeCall) (fault : Option ℕ)
  | wake (t f : ℕ) (call : PipeCall)
  | interrupted (t f : ℕ) (call : PipeCall)
  /-- Other code stores a byte in memory of its own. -/
  | foreign (a : ℤ) (val : UInt8)

def PipeAct.IsOpen : PipeAct → Prop
  | .openFile _ _ => True
  | _ => False

namespace Pipe

/-- A call that is blocked: it returns at once or goes to sleep. -/
def blocked (s : PipeSys) (f : ℕ) (call : PipeCall) : PipeThread :=
  match s.files[f]?.join with
  | some ⟨_, true⟩ => .returned (-EAGAIN)
  | _ => .sleeping f call

/-- The test on which a call goes on. -/
def passes (dev : ScullPipe) : PipeCall → Bool
  | .read _ => dev.rp ≠ dev.wp
  | .write _ => dev.spacefree ≠ 0

def guard (s : PipeSys) : PipeAct → Prop
  | .openFile _ _ | .ioctl _ _ _ => True
  -- the VFS releases a file once no call is on it
  | .release f file => s.files[f]? = some (some file) ∧ ∀ th ∈ s.threads, th.file ≠ some f
  | .enter t f file call => (∃ ret, s.threads[t]? = some (.returned ret)) ∧
      s.files[f]? = some (some file) ∧ call.allowed file.mode = true
  | .locked t f call _ => s.threads[t]? = some (.locking f call)
  | .wake t f call => s.threads[t]? = some (.sleeping f call)
  | .interrupted t f call => s.threads[t]? = some (.locking f call) ∨
      s.threads[t]? = some (.sleeping f call)
  | .foreign a _ => ∃ n ∈ s.dev.buffer, a < 0 ∨ (n : ℤ) ≤ a

/-- Whether a slot holds a thread outside a call. -/
def idle : Option PipeThread → Bool
  | some (.returned _) => true
  | _ => false

theorem idle_iff (x : Option PipeThread) : idle x = true ↔ ∃ ret, x = some (.returned ret) := by
  rcases x with _ | _ | _ | _ <;> simp [idle]

instance (s : PipeSys) : ∀ a : PipeAct, Decidable (guard s a)
  | .openFile _ _ => inferInstanceAs (Decidable True)
  | .ioctl _ _ _ => inferInstanceAs (Decidable True)
  | .release _ _ => inferInstanceAs (Decidable (_ ∧ _))
  | .enter t f file call =>
      decidable_of_iff (idle s.threads[t]? = true ∧ s.files[f]? = some (some file) ∧
        call.allowed file.mode = true) (and_congr_left' (idle_iff _))
  | .locked _ _ _ _ => inferInstanceAs (Decidable (_ = _))
  | .wake _ _ _ => inferInstanceAs (Decidable (_ = _))
  | .interrupted _ _ _ => inferInstanceAs (Decidable (_ ∨ _))
  | .foreign a _ => inferInstanceAs (Decidable (∃ n ∈ s.dev.buffer, a < 0 ∨ (n : ℤ) ≤ a))

/-- A critical section of `scull_p_read` or `scull_p_write`. -/
def critical (s : PipeSys) (t f : ℕ) (call : PipeCall) (fault : Option ℕ) : PipeSys :=
  if passes s.dev call then
    match call with
    | .read count =>
        let r := s.dev.scullPRead count fault.isSome
        { s with
          dev := r.2.2
          threads := s.threads.set t (.returned r.1)
          returned := s.returned ++ r.2.1 }
    | .write buf =>
        let r := s.dev.scullPWrite buf fault
        { s with
          dev := r.2.2
          threads := s.threads.set t (.returned r.1)
          accepted := s.accepted ++ r.2.1 }
  else { s with threads := s.threads.set t (blocked s f call) }

section Critical

variable {s : PipeSys} {t f : ℕ} {fault : Option ℕ}

theorem critical_read {count : ℕ} (h : passes s.dev (.read count) = true) :
    critical s t f (.read count) fault =
      { s with
        dev := (s.dev.scullPRead count fault.isSome).2.2
        threads := s.threads.set t (.returned (s.dev.scullPRead count fault.isSome).1)
        returned := s.returned ++ (s.dev.scullPRead count fault.isSome).2.1 } := if_pos h

theorem critical_write {buf : List UInt8} (h : passes s.dev (.write buf) = true) :
    critical s t f (.write buf) fault =
      { s with
        dev := (s.dev.scullPWrite buf fault).2.2
        threads := s.threads.set t (.returned (s.dev.scullPWrite buf fault).1)
        accepted := s.accepted ++ (s.dev.scullPWrite buf fault).2.1 } := if_pos h

theorem critical_blocked {call : PipeCall} (h : passes s.dev call = false) :
    critical s t f call fault = { s with threads := s.threads.set t (blocked s f call) } :=
  if_neg (by simp [h])

end Critical

def update (s : PipeSys) : PipeAct → PipeSys
  | .openFile file heap =>
      match s.dev.scullPOpen s.params.scullPBuffer file.mode heap with
      | none => s
      | some dev =>
          { s with
            dev := dev
            files := s.files ++ [some file]
            accepted := if s.dev.buffer = none then [] else s.accepted
            returned := if s.dev.buffer = none then [] else s.returned }
  | .release f file =>
      { s with dev := s.dev.scullPRelease file.mode, files := s.files.set f none }
  | .ioctl cmd arg user => { s with params := (scullIoctl cmd arg user s.params).params }
  | .enter t f _ call => { s with threads := s.threads.set t (.locking f call) }
  | .locked t f call fault => critical s t f call fault
  | .wake t f call => { s with threads := s.threads.set t (.locking f call) }
  | .interrupted t _ _ => { s with threads := s.threads.set t (.returned (-ERESTARTSYS)) }
  | .foreign a val => { s with dev := { s.dev with mem := Function.update s.dev.mem a val } }

def step : PipeSys → PipeAct → Option PipeSys := guarded guard update

/-- How an open can go: refused for want of memory, or with an empty ring of
`scull_p_buffer` bytes on the buffer that was there or on a new one of that size. -/
theorem open_cases (s : PipeSys) (file : PipeFile) (heap : Option (ℤ → UInt8)) :
    (update s (.openFile file heap) = s ∧ s.dev.buffer = none) ∨
      ∃ n mem, (s.dev.buffer = some n ∧ mem = s.dev.mem ∨
          s.dev.buffer = none ∧ (n : ℤ) = s.params.scullPBuffer) ∧
        update s (.openFile file heap) =
          { s with
            dev :=
              { buffer := some n
                bufEnd := s.params.scullPBuffer
                buffersize := s.params.scullPBuffer
                rp := 0
                wp := 0
                nreaders := s.dev.nreaders + ScullPipe.one file.mode.read
                nwriters := s.dev.nwriters + ScullPipe.one file.mode.write
                mem := mem }
            files := s.files ++ [some file]
            accepted := if s.dev.buffer = none then [] else s.accepted
            returned := if s.dev.buffer = none then [] else s.returned } := by
  cases hbuf : s.dev.buffer with
  | some n =>
      refine Or.inr ⟨n, s.dev.mem, Or.inl ⟨rfl, rfl⟩, ?_⟩
      simp [update, ScullPipe.scullPOpen, ScullPipe.allocate, hbuf]
  | none =>
      by_cases hsize : 0 ≤ s.params.scullPBuffer
      · cases heap with
        | none =>
            refine Or.inl ⟨?_, rfl⟩
            simp [update, ScullPipe.scullPOpen, ScullPipe.allocate, hbuf]
        | some mem =>
            refine Or.inr ⟨s.params.scullPBuffer.toNat, mem, Or.inr ⟨rfl, by omega⟩, ?_⟩
            simp [update, ScullPipe.scullPOpen, ScullPipe.allocate, hbuf, hsize]
      · -- a negative size is not served
        refine Or.inl ⟨?_, rfl⟩
        simp [update, ScullPipe.scullPOpen, ScullPipe.allocate, hbuf, hsize]

/-- The pipe after `scull_p_init`, with a module parameter `scull_p_buffer` and `n`
threads. -/
def init (scullPBuffer : ℤ) (n : ℕ) : PipeSys where
  dev := ⟨none, 0, 0, 0, 0, 0, 0, fun _ => 0⟩
  params := { Params.default with scullPBuffer := toInt scullPBuffer }
  files := []
  threads := List.replicate n (.returned 0)
  accepted := []
  returned := []

end Pipe

end Scull
