import DriversLab.Lib.Lts
import DriversLab.Lib.Ring

/-!
# ShortPrint.Driver — the output side of shortprint

`shortp_write` puts bytes into a page, `shortp_do_work` strobes them out one at a time,
the interrupt handler and the timer callback make it go on. The parties are

* one writer, because `shortp_write` holds `shortp_out_mutex` from the beginning to the
  end; what it does to the page it does without the spinlock;
* the one thread of the work queue, and the work item, which can be queued again while
  it runs;
* the interrupt handler, which nothing excludes;
* the timer, and its callback, which the kernel never runs twice at a time.

A section under `shortp_out_lock` is one step, but for that of `shortp_do_work`, which
the writer's accesses to the page can come between. Pointers into the page are offsets.
-/

namespace ShortPrint

open Lts

def PAGE_SIZE : ℤ := 4096
def EFAULT : ℤ := 14
def SP_SR_BUSY : UInt8 := 0x80
def SP_SR_ACK : UInt8 := 0x40

/-- `shortp_out_space`, with what its two loads of `shortp_out_tail` have found. -/
def shortpOutSpace (head tail₁ tail₂ : ℤ) : ℤ :=
  if tail₁ ≤ head then
    let space := PAGE_SIZE - head
    if tail₂ = 0 then space - 1 else space
  else tail₂ - head - 1

/-- `shortp_incr_out_bp`. -/
def shortpIncrOutBp (bp incr : ℤ) : ℤ :=
  if PAGE_SIZE ≤ bp + incr then bp + incr - PAGE_SIZE else bp + incr

/-- The test of the status register in the timer callback. -/
def stillBusy (status : UInt8) : Bool := status &&& SP_SR_BUSY = 0 || status &&& SP_SR_ACK ≠ 0

/-! ## The parties -/

/-- Where `shortp_write` is, with the bytes that are left and the number written. -/
inductive Writer where
  /-- Nobody holds the mutex; the last call returned `ret` and moved `*f_pos` by `moved`. -/
  | returned (ret : ℤ) (moved : ℕ)
  /-- At the head of the loop. -/
  | looping (buf : List UInt8) (written : ℕ)
  /-- In `wait_event_interruptible`, the condition having been false. -/
  | waiting (buf : List UInt8) (written : ℕ)
  /-- In `shortp_out_space`, between the two loads of the tail. -/
  | loaded (buf : List UInt8) (written : ℕ) (tail : ℤ)
  /-- With `space` bytes of free space, in front of the copy. -/
  | room (buf : List UInt8) (written : ℕ) (space : ℤ)
  /-- The first `n` bytes are in the page, the head has not moved. -/
  | copied (buf : List UInt8) (written n : ℕ)
  /-- The head has moved; in front of the lock. -/
  | advanced (buf : List UInt8) (written : ℕ)
deriving DecidableEq, Repr

/-- Where the thread of the work queue is. -/
inductive Worker where
  | idle
  /-- In `shortp_wait`, or in front of the lock. -/
  | starting
  /-- Under the lock, the page being empty. -/
  | empty
  /-- Under the lock, with `shortp_output_active` cleared. -/
  | stopping
  /-- Under the lock, the page not being empty. -/
  | writing
  /-- Under the lock, the timer having been reset. -/
  | armed
  /-- Past the lock, on the read side. -/
  | finishing
deriving DecidableEq, Repr

/-- Whether the thread holds `shortp_out_lock`. -/
def Worker.locked : Worker → Bool
  | empty | stopping | writing | armed => true
  | idle | starting | finishing => false

/-- Where the timer callback is. -/
inductive Callback where
  | idle
  /-- In front of the test of `shortp_output_active`. -/
  | started
  /-- Past it, in front of the lock. -/
  | passed
  /-- Past the lock, in front of the call of `shortp_interrupt`. -/
  | missed
  /-- In `shortp_interrupt`, past its test. -/
  | queueing
deriving DecidableEq, Repr

/-- Where the interrupt handler is. -/
inductive Handler where
  | idle
  | queueing
deriving DecidableEq, Repr

/-- The variables of the driver, the pending timer, the queued work item, the bytes that
have gone out to the data port, and the parties. -/
structure Printer where
  page : ℤ → UInt8
  head : ℤ
  tail : ℤ
  active : Bool
  timer : Bool
  queued : Bool
  port : List UInt8
  writer : Writer
  worker : Worker
  callback : Callback
  handler : Handler

inductive Act where
  | shortpWrite (buf : List UInt8)
  | loadTail (buf : List UInt8) (written : ℕ)
  | loadTailAgain (buf : List UInt8) (written : ℕ) (tail : ℤ)
  | interrupted (buf : List UInt8) (written : ℕ)
  | copy (buf : List UInt8) (written : ℕ) (space : ℤ) (fault : Option ℕ)
  | advanceHead (buf : List UInt8) (written n : ℕ)
  | writerSection (buf : List UInt8) (written : ℕ)
  | writeDone (written : ℕ)
  | runWork
  | workSection
  | workStop
  | workDelTimer
  | workModTimer
  | workStrobe
  | workDone
  | irq
  | irqQueue
  | expire
  | callbackTest
  | callbackSection (status : UInt8)
  | callbackInterrupt
  | callbackQueue
deriving DecidableEq, Repr

namespace Printer

/-! ## The steps -/

def guard (s : Printer) : Act → Prop
  | .shortpWrite _ => ∃ ret moved, s.writer = .returned ret moved
  | .loadTail buf written =>
      s.writer = .looping buf written ∧ buf ≠ [] ∨ s.writer = .waiting buf written
  | .loadTailAgain buf written tail => s.writer = .loaded buf written tail
  | .interrupted buf written => s.writer = .waiting buf written
  | .copy buf written space _ => s.writer = .room buf written space
  | .advanceHead buf written n => s.writer = .copied buf written n
  | .writerSection buf written => s.writer = .advanced buf written ∧ s.worker.locked = false
  | .writeDone written => s.writer = .looping [] written
  | .runWork => s.worker = .idle ∧ s.queued = true
  | .workSection => s.worker = .starting
  | .workStop => s.worker = .empty
  | .workDelTimer => s.worker = .stopping
  | .workModTimer => s.worker = .writing
  | .workStrobe => s.worker = .armed
  | .workDone => s.worker = .finishing
  | .irq => s.handler = .idle
  | .irqQueue => s.handler = .queueing
  | .expire => s.timer = true ∧ s.callback = .idle
  | .callbackTest => s.callback = .started
  | .callbackSection _ => s.callback = .passed ∧ s.worker.locked = false
  | .callbackInterrupt => s.callback = .missed
  | .callbackQueue => s.callback = .queueing

instance (s : Printer) : Decidable (∃ ret moved, s.writer = .returned ret moved) :=
  match h : s.writer with
  | .returned ret moved => isTrue ⟨ret, moved, rfl⟩
  | .looping _ _ | .waiting _ _ | .loaded _ _ _ | .room _ _ _ | .copied _ _ _ | .advanced _ _ =>
      isFalse (by simp)

instance (s : Printer) : ∀ a : Act, Decidable (guard s a)
  | .shortpWrite _ => inferInstanceAs (Decidable (∃ _ _, _))
  | .loadTail _ _ => inferInstanceAs (Decidable (_ ∧ _ ∨ _))
  | .loadTailAgain _ _ _ => inferInstanceAs (Decidable (_ = _))
  | .interrupted _ _ => inferInstanceAs (Decidable (_ = _))
  | .copy _ _ _ _ => inferInstanceAs (Decidable (_ = _))
  | .advanceHead _ _ _ => inferInstanceAs (Decidable (_ = _))
  | .writerSection _ _ => inferInstanceAs (Decidable (_ ∧ _))
  | .writeDone _ => inferInstanceAs (Decidable (_ = _))
  | .runWork => inferInstanceAs (Decidable (_ ∧ _))
  | .workSection => inferInstanceAs (Decidable (_ = _))
  | .workStop => inferInstanceAs (Decidable (_ = _))
  | .workDelTimer => inferInstanceAs (Decidable (_ = _))
  | .workModTimer => inferInstanceAs (Decidable (_ = _))
  | .workStrobe => inferInstanceAs (Decidable (_ = _))
  | .workDone => inferInstanceAs (Decidable (_ = _))
  | .irq => inferInstanceAs (Decidable (_ = _))
  | .irqQueue => inferInstanceAs (Decidable (_ = _))
  | .expire => inferInstanceAs (Decidable (_ ∧ _))
  | .callbackTest => inferInstanceAs (Decidable (_ = _))
  | .callbackSection _ => inferInstanceAs (Decidable (_ ∧ _))
  | .callbackInterrupt => inferInstanceAs (Decidable (_ = _))
  | .callbackQueue => inferInstanceAs (Decidable (_ = _))

/-- `shortp_start_output`; called under the lock. -/
def shortpStartOutput (s : Printer) : Printer :=
  if s.active then s else { s with active := true, timer := true, queued := true }

/-- The bytes of one round of the loop in `shortp_write`. -/
def chunk (buf : List UInt8) (space : ℤ) : List UInt8 := buf.take space.toNat

/-- What `copy_from_user` leaves in the page: where it faults, it pads with zero bytes. -/
def landed (bytes : List UInt8) : Option ℕ → List UInt8
  | none => bytes
  | some k => bytes.take k ++ List.replicate (bytes.length - k) 0

def update (s : Printer) : Act → Printer
  | .shortpWrite buf => { s with writer := .looping buf 0 }
  | .loadTail buf written => { s with writer := .loaded buf written s.tail }
  | .loadTailAgain buf written tail =>
      let space := shortpOutSpace s.head tail s.tail
      { s with writer := if 0 < space then .room buf written space else .waiting buf written }
  | .interrupted _ written => { s with writer := .returned written written }
  | .copy buf written space fault =>
      { s with
        page := Ring.store s.page s.head (landed (chunk buf space) fault)
        writer :=
          if fault.isSome then .returned (-EFAULT) 0
          else .copied buf written (chunk buf space).length }
  | .advanceHead buf written n =>
      { s with
        head := shortpIncrOutBp s.head n
        writer := .advanced (buf.drop n) (written + n) }
  | .writerSection buf written => { s.shortpStartOutput with writer := .looping buf written }
  | .writeDone written => { s with writer := .returned written written }
  | .runWork => { s with queued := false, worker := .starting }
  | .workSection =>
      -- nobody else takes the lock until the worker gives it back
      { s with worker := if s.head = s.tail then .empty else .writing }
  | .workStop => { s with active := false, worker := .stopping }
  | .workDelTimer => { s with timer := false, worker := .finishing }
  | .workModTimer => { s with timer := true, worker := .armed }
  | .workStrobe =>
      { s with
        port := s.port ++ [s.page s.tail]
        tail := shortpIncrOutBp s.tail 1
        worker := .finishing }
  | .workDone => { s with worker := .idle }
  | .irq => { s with handler := if s.active then .queueing else .idle }
  | .irqQueue => { s with queued := true, handler := .idle }
  | .expire => { s with timer := false, callback := .started }
  | .callbackTest => { s with callback := if s.active then .passed else .idle }
  | .callbackSection status =>
      if stillBusy status then { s with timer := true, callback := .idle }
      else { s with callback := .missed }
  | .callbackInterrupt => { s with callback := if s.active then .queueing else .idle }
  | .callbackQueue => { s with queued := true, callback := .idle }

def step : Printer → Act → Option Printer := guarded guard update

/-- The module once it is loaded, with a page that holds whatever it held. -/
def Loaded (s : Printer) : Prop :=
  ∃ page, s = ⟨page, 0, 0, false, false, false, [], .returned 0 0, .idle, .idle, .idle⟩

/-- The page being zeroed. -/
def loaded : Printer :=
  ⟨fun _ => 0, 0, 0, false, false, false, [], .returned 0 0, .idle, .idle, .idle⟩

end Printer

end ShortPrint
