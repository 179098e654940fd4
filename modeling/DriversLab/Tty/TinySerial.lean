import DriversLab.Lib.Lts
import DriversLab.Lib.Ring

/-!
# Tty.TinySerial — the transmitter of `tiny_serial.c`

The serial core puts characters into the ring `xmit` of the port, and may ask for a single
character `x_char` ahead of them. Every two seconds `tiny_timer` has `tiny_tx_chars` send
some: half as many as the FIFO of the chip holds, and one if that is none. The port of the
module has `fifosize` zero.

* `txLoop_spec`: what the `do` loop takes out of the ring;
* `sent_in_order`: along every run, what has been sent and what is in the ring is what the
  core has put in, in order, and `icount.tx` counts the characters sent, modulo 2^32;
* `drained_iff`: how many ticks it takes to empty the ring.

The core is modelled as far as it uses the ring: it puts a character only where there is
room. The character that the timer makes up for the reader is left out.
-/

namespace Tty.Serial

open Lts

/-! ## The port -/

/-- A power of two: a mask of it is a remainder. -/
def UART_XMIT_SIZE : ℤ := 4096

def WAKEUP_CHARS : ℕ := 256

/-- A character that has been sent: one of the ring, or an `x_char`. -/
inductive Wrote where
  | data (c : UInt8)
  | xChar (c : UInt8)
deriving DecidableEq, Repr

/-- The data of the ring. -/
def Wrote.data? : Wrote → Option UInt8
  | data c => some c
  | xChar _ => none

/-- `struct uart_port` with its `info->xmit`. -/
structure UartPort where
  buf : ℤ → UInt8
  head : ℤ
  tail : ℤ
  xChar : UInt8
  fifosize : ℕ
  /-- `uart_tx_stopped`. -/
  stopped : Bool
  /-- `icount.tx`. -/
  tx : UInt32
  wrote : List Wrote
  /-- Calls of `uart_write_wakeup`. -/
  wakeups : ℕ

namespace UartPort

/-- What is in the ring, oldest first. -/
def queued (p : UartPort) : List UInt8 := Ring.content p.buf UART_XMIT_SIZE p.tail p.head

/-- `uart_circ_empty`. -/
def circEmpty (p : UartPort) : Prop := p.head = p.tail

instance (p : UartPort) : Decidable p.circEmpty := inferInstanceAs (Decidable (_ = _))

/-- `uart_circ_chars_pending`. -/
def circCharsPending (p : UartPort) : ℕ := ((p.head - p.tail) % UART_XMIT_SIZE).toNat

/-- The first three lines of the loop. -/
def sendOne (p : UartPort) : UartPort :=
  { p with
    wrote := p.wrote ++ [.data (p.buf p.tail)]
    tail := (p.tail + 1) % UART_XMIT_SIZE
    tx := p.tx + 1 }

/-- The `do` loop, which has one iteration before it looks at `count`. -/
def txLoop : ℕ → UartPort → UartPort
  | 0, p => p.sendOne
  | count + 1, p =>
      if p.sendOne.circEmpty then p.sendOne
      else if count = 0 then p.sendOne
      else txLoop count p.sendOne

/-- `tiny_tx_chars`. -/
def tinyTxChars (p : UartPort) : UartPort :=
  if p.xChar ≠ 0 then
    { p with wrote := p.wrote ++ [.xChar p.xChar], tx := p.tx + 1, xChar := 0 }
  else if p.circEmpty ∨ p.stopped = true then p
  else
    let p := txLoop (p.fifosize / 2) p
    if p.circCharsPending < WAKEUP_CHARS then { p with wakeups := p.wakeups + 1 } else p

end UartPort

/-- The port, and what the core has put into its ring. -/
structure Line where
  port : UartPort
  accepted : List UInt8

inductive Act where
  /-- The core puts a character into the ring. -/
  | put (c : UInt8)
  /-- It asks for a character out of turn. -/
  | sendXchar (c : UInt8)
  /-- Flow control stops and starts the transmitter. -/
  | flow (stopped : Bool)
  /-- `tiny_timer`. -/
  | tinyTimer
deriving DecidableEq, Repr

namespace Line

def guard (s : Line) : Act → Prop
  | .put _ => 1 ≤ Ring.free UART_XMIT_SIZE s.port.tail s.port.head
  | _ => True

instance (s : Line) : ∀ a : Act, Decidable (s.guard a)
  | .put _ => inferInstanceAs (Decidable (_ ≤ _))
  | .sendXchar _ | .flow _ | .tinyTimer => inferInstanceAs (Decidable True)

def update (s : Line) : Act → Line
  | .put c =>
      { port := { s.port with
          buf := Ring.store s.port.buf s.port.head [c]
          head := (s.port.head + 1) % UART_XMIT_SIZE }
        accepted := s.accepted ++ [c] }
  | .sendXchar c => { s with port := { s.port with xChar := c } }
  | .flow stopped => { s with port := { s.port with stopped := stopped } }
  | .tinyTimer => { s with port := s.port.tinyTxChars }

def step : Line → Act → Option Line := guarded guard update

/-- The line when the port is opened. -/
def opened (buf : ℤ → UInt8) (fifosize : ℕ) : Line :=
  ⟨⟨buf, 0, 0, 0, fifosize, false, 0, [], 0⟩, []⟩

end Line

/-! ## What one tick sends -/

section Tick

variable {p : UartPort}

/-- Both positions lie in the ring. -/
def UartPort.Fits (p : UartPort) : Prop := Ring.Within UART_XMIT_SIZE p.tail p.head

theorem next_eq {x : ℤ} (h₀ : 0 ≤ x) (h₁ : x < UART_XMIT_SIZE) :
    (x + 1) % UART_XMIT_SIZE = Ring.advance UART_XMIT_SIZE x 1 := by
  rw [show UART_XMIT_SIZE = 4096 from rfl] at *
  unfold Ring.advance
  split <;> omega

theorem queued_eq_nil_iff (h : p.Fits) : p.queued = [] ↔ p.circEmpty := by
  rw [← List.length_eq_zero_iff]
  exact (Ring.content_length_eq_zero_iff h).trans eq_comm

/-- One round of the loop takes the oldest character. -/
theorem sendOne_spec (h : p.Fits) (hne : ¬ p.circEmpty) :
    p.sendOne.Fits ∧ p.queued = p.buf p.tail :: p.sendOne.queued := by
  have hone : ((1 : ℕ) : ℤ) ≤ Ring.readable UART_XMIT_SIZE p.tail p.head := Ring.one_le_readable h
  have hnext := next_eq h.rpNonneg h.rpLt
  have hne' : p.tail ≠ p.head := fun he => hne he.symm
  constructor
  · show Ring.Within _ ((p.tail + 1) % _) p.head
    rw [hnext]
    exact h.read hone
  · show p.queued = p.buf p.tail :: Ring.content p.buf _ ((p.tail + 1) % _) p.head
    rw [hnext, UartPort.queued, Ring.content_take h hne' hone, Ring.segment_one]
    rfl

/-- What the loop does: `k` characters are sent, the oldest first. -/
structure Sends (p p' : UartPort) (k : ℕ) : Prop where
  fits : p'.Fits
  queued : p'.queued = p.queued.drop k
  wrote : p'.wrote = p.wrote ++ (p.queued.take k).map .data
  tx : p'.tx = p.tx + .ofNat (p.queued.take k).length
  buf : p'.buf = p.buf
  head : p'.head = p.head
  fifosize : p'.fifosize = p.fifosize
  xChar : p'.xChar = p.xChar
  stopped : p'.stopped = p.stopped

theorem sends_one (h : p.Fits) (hne : ¬ p.circEmpty) : Sends p p.sendOne 1 := by
  obtain ⟨hfits, hqueued⟩ := sendOne_spec h hne
  refine ⟨hfits, ?_, ?_, ?_, rfl, rfl, rfl, rfl, rfl⟩
  · rw [hqueued, List.drop_succ_cons, List.drop_zero]
  · rw [hqueued, List.take_succ_cons, List.take_zero]
    rfl
  · rw [hqueued, List.take_succ_cons, List.take_zero]
    rfl

theorem Sends.trans {p p' p'' : UartPort} {k l : ℕ} (h : Sends p p' k) (h' : Sends p' p'' l) :
    Sends p p'' (k + l) := by
  have htake : p.queued.take (k + l) = p.queued.take k ++ (p.queued.drop k).take l := List.take_add
  refine ⟨h'.fits, ?_, ?_, ?_, h'.buf.trans h.buf, h'.head.trans h.head,
    h'.fifosize.trans h.fifosize, h'.xChar.trans h.xChar, h'.stopped.trans h.stopped⟩
  · rw [h'.queued, h.queued, List.drop_drop]
  · rw [h'.wrote, h.wrote, h.queued, htake, List.map_append, List.append_assoc]
  · rw [h'.tx, h.tx, h.queued, htake, List.length_append, UInt32.ofNat_add, UInt32.add_assoc]

/-- More than is queued is not sent. -/
theorem Sends.more {p p' : UartPort} {k l : ℕ} (h : Sends p p' k) (hempty : p'.circEmpty)
    (hkl : k ≤ l) : Sends p p' l := by
  have hle : p.queued.length ≤ k := by
    have hnil := (queued_eq_nil_iff h.fits).mpr hempty
    rwa [h.queued, List.drop_eq_nil_iff] at hnil
  have htake : p.queued.take l = p.queued.take k := by
    rw [List.take_of_length_le hle, List.take_of_length_le (Nat.le_trans hle hkl)]
  refine ⟨h.fits, ?_, ?_, ?_, h.buf, h.head, h.fifosize, h.xChar, h.stopped⟩
  · rw [h.queued, List.drop_eq_nil_of_le hle, List.drop_eq_nil_of_le (Nat.le_trans hle hkl)]
  · rw [htake]
    exact h.wrote
  · rw [htake]
    exact h.tx

/-- The loop takes `count` characters from the ring, or one if `count` is zero, or what
there is. -/
theorem txLoop_spec (count : ℕ) (h : p.Fits) (hne : ¬ p.circEmpty) :
    Sends p (p.txLoop count) (max 1 count) := by
  induction count generalizing p with
  | zero => exact sends_one h hne
  | succ count ih =>
      have hone := sends_one h hne
      unfold UartPort.txLoop
      split
      · rename_i hempty
        exact hone.more hempty (by omega)
      · rename_i hmore
        split
        · rename_i hzero
          subst hzero
          exact hone
        · rename_i hcount
          have hrest := hone.trans (ih hone.fits hmore)
          rwa [show 1 + max 1 count = max 1 (count + 1) by omega] at hrest

end Tick

/-! ## Runs -/

section Runs

variable {s s' : Line}

/-- The data that has been sent. -/
def UartPort.sent (p : UartPort) : List UInt8 := p.wrote.filterMap Wrote.data?

/-- Nothing is lost and nothing is sent twice or out of order. -/
structure Line.Books (s : Line) : Prop where
  fits : s.port.Fits
  inOrder : s.port.sent ++ s.port.queued = s.accepted
  count : s.port.tx = .ofNat s.port.wrote.length

theorem filterMap_data (l : List UInt8) : (l.map Wrote.data).filterMap Wrote.data? = l := by
  induction l with
  | nil => rfl
  | cons c l ih =>
      show c :: (l.map Wrote.data).filterMap Wrote.data? = c :: l
      rw [ih]

theorem Sends.books {p : UartPort} {k : ℕ} {accepted : List UInt8} (h : Sends s.port p k)
    (hb : s.Books) (hacc : s.accepted = accepted) : (Line.mk p accepted).Books := by
  refine ⟨h.fits, ?_, ?_⟩
  · show p.sent ++ p.queued = accepted
    rw [UartPort.sent, h.wrote, List.filterMap_append, filterMap_data, h.queued, List.append_assoc,
      List.take_append_drop, ← hacc]
    exact hb.inOrder
  · show p.tx = .ofNat p.wrote.length
    rw [h.tx, h.wrote, hb.count, List.length_append, List.length_map, UInt32.ofNat_add]

theorem tick_books (h : s.Books) : (s.update .tinyTimer).Books := by
  show (Line.mk s.port.tinyTxChars s.accepted).Books
  unfold UartPort.tinyTxChars
  split
  · refine ⟨h.fits, ?_, ?_⟩
    · show (s.port.wrote ++ [Wrote.xChar s.port.xChar]).filterMap Wrote.data? ++ s.port.queued = _
      rw [List.filterMap_append, List.filterMap_cons_none rfl, List.filterMap_nil, List.append_nil]
      exact h.inOrder
    · show s.port.tx + 1 = .ofNat (s.port.wrote ++ [Wrote.xChar s.port.xChar]).length
      rw [List.length_append, UInt32.ofNat_add, h.count]
      rfl
  · split
    · exact h
    · rename_i hgo
      have hne : ¬ s.port.circEmpty := fun he => hgo (.inl he)
      have hloop := (txLoop_spec (s.port.fifosize / 2) h.fits hne).books h rfl
      simp only
      split
      · exact ⟨hloop.fits, hloop.inOrder, hloop.count⟩
      · exact hloop

theorem put_books {c : UInt8} (h : s.Books) (hg : s.guard (.put c)) :
    (s.update (.put c)).Books := by
  have hfree : (([c] : List UInt8).length : ℤ) ≤
      Ring.free UART_XMIT_SIZE s.port.tail s.port.head := hg
  have hrun : (([c] : List UInt8).length : ℤ) ≤
      Ring.writable UART_XMIT_SIZE s.port.tail s.port.head := Ring.one_le_writable h.fits hg
  have hnext := next_eq h.fits.wpNonneg h.fits.wpLt
  refine ⟨?_, ?_, h.count⟩
  · show Ring.Within _ s.port.tail ((s.port.head + 1) % _)
    rw [hnext]
    exact h.fits.write hrun
  · show s.port.sent ++ Ring.content (Ring.store s.port.buf s.port.head [c]) _ s.port.tail
      ((s.port.head + 1) % _) = s.accepted ++ [c]
    rw [hnext, ← h.inOrder, List.append_assoc]
    exact congrArg (s.port.sent ++ ·) (Ring.content_store h.fits hfree hrun)

theorem opened_books (buf : ℤ → UInt8) (fifosize : ℕ) : (Line.opened buf fifosize).Books := by
  have hsize : (0 : ℤ) < UART_XMIT_SIZE := by decide
  refine ⟨⟨Int.le_refl 0, hsize, Int.le_refl 0, hsize⟩, ?_, rfl⟩
  show [] ++ Ring.content buf UART_XMIT_SIZE 0 0 = []
  rw [Ring.content_empty, List.nil_append]

/-- Whatever the core puts in, asks for and stops, and however the ticks fall: what has
been sent of the ring, followed by what is in it, is what has been put into it. -/
theorem sent_in_order {buf : ℤ → UInt8} {fifosize : ℕ} {as : List Act}
    (hr : run Line.step (Line.opened buf fifosize) as = some s) : s.Books := by
  have hstep : ∀ (s : Line) a s', s.Books → s.step a = some s' → s'.Books := by
    intro s a s' hb h
    obtain ⟨hg, rfl⟩ := guarded_eq_some.mp h
    cases a with
    | put c => exact put_books hb hg
    | sendXchar c => exact ⟨hb.fits, hb.inOrder, hb.count⟩
    | flow stopped => exact ⟨hb.fits, hb.inOrder, hb.count⟩
    | tinyTimer => exact tick_books hb
  exact run_invariant hstep (opened_books buf fifosize) hr

/-- One tick on its own. -/
theorem tick_sends {p : UartPort} (h : p.Fits) (hx : p.xChar = 0) (hs : p.stopped = false) :
    Sends p p.tinyTxChars (max 1 (p.fifosize / 2)) := by
  unfold UartPort.tinyTxChars
  rw [if_neg fun hne => hne hx]
  split
  · rename_i hstay
    have hempty : p.circEmpty := hstay.resolve_right (by rw [hs]; decide)
    have hnone : Sends p p 0 := by
      refine ⟨h, rfl, ?_, (UInt32.add_zero _).symm, rfl, rfl, rfl, rfl, rfl⟩
      rw [List.take_zero, List.map_nil, List.append_nil]
    exact hnone.more hempty (Nat.zero_le _)
  · rename_i hgo
    have hloop := txLoop_spec (p.fifosize / 2) h fun he => hgo (.inl he)
    simp only
    split
    · exact ⟨hloop.fits, hloop.queued, hloop.wrote, hloop.tx, hloop.buf, hloop.head,
        hloop.fifosize, hloop.xChar, hloop.stopped⟩
    · exact hloop

/-- Ticks with nothing in between. -/
theorem ticks_send {k : ℕ} (h : s.port.Fits) (hx : s.port.xChar = 0) (hs : s.port.stopped = false)
    (hr : run Line.step s (List.replicate k .tinyTimer) = some s') :
    Sends s.port s'.port (k * max 1 (s.port.fifosize / 2)) := by
  induction k generalizing s with
  | zero =>
      cases hr
      rw [Nat.zero_mul]
      refine ⟨h, rfl, ?_, (UInt32.add_zero _).symm, rfl, rfl, rfl, rfl, rfl⟩
      rw [List.take_zero, List.map_nil, List.append_nil]
  | succ k ih =>
      rcases run_cons.mp hr with ⟨m, hm, hrest⟩
      obtain ⟨-, rfl⟩ := guarded_eq_some.mp hm
      have hone : Sends s.port (s.update .tinyTimer).port _ := tick_sends h hx hs
      have hmany := hone.trans (ih hone.fits (hone.xChar.trans hx) (hone.stopped.trans hs) hrest)
      rw [hone.fifosize] at hmany
      rwa [Nat.succ_mul, Nat.add_comm]

/-- After any run in which no `x_char` is waiting and the transmitter is not stopped, `k`
ticks send the first `k * max 1 (fifosize / 2)` characters of the ring, and empty it exactly
if that is all of them. -/
theorem drained_iff {buf : ℤ → UInt8} {fifosize k : ℕ} {as : List Act}
    (hr : run Line.step (Line.opened buf fifosize) as = some s) (hx : s.port.xChar = 0)
    (hs : s.port.stopped = false)
    (hticks : run Line.step s (List.replicate k .tinyTimer) = some s') :
    s'.port.sent = s.port.sent ++ s.port.queued.take (k * max 1 (s.port.fifosize / 2)) ∧
      (s'.port.circEmpty ↔ s.port.queued.length ≤ k * max 1 (s.port.fifosize / 2)) := by
  have hsends := ticks_send (sent_in_order hr).fits hx hs hticks
  constructor
  · rw [UartPort.sent, hsends.wrote, List.filterMap_append, filterMap_data]
    rfl
  · rw [← queued_eq_nil_iff hsends.fits, hsends.queued, List.drop_eq_nil_iff]

end Runs

/-- Three characters, an `x_char` and two ticks of a port without a FIFO. -/
def threePut : List Act := [.put 10, .put 11, .put 12, .sendXchar 17, .tinyTimer, .tinyTimer]

theorem sent_in_order_three : ∃ s, run Line.step (Line.opened (fun _ => 0) 0) threePut = some s ∧
    s.port.sent = [10] ∧ s.Books := by
  obtain ⟨s, hs⟩ := Option.isSome_iff_exists.mp
    (show (run Line.step (Line.opened (fun _ => 0) 0) threePut).isSome = true by decide)
  have hsent : (run Line.step (Line.opened (fun _ => 0) 0) threePut).map (fun s => s.port.sent) =
      some [10] := by decide
  rw [hs, Option.map_some, Option.some.injEq] at hsent
  exact ⟨s, hs, hsent, sent_in_order hs⟩

/-- Two more ticks empty its ring. -/
theorem drained_iff_three : ∃ s s',
    run Line.step (Line.opened (fun _ => 0) 0) threePut = some s ∧
      run Line.step s (List.replicate 2 .tinyTimer) = some s' ∧ s'.port.circEmpty := by
  obtain ⟨s', hs'⟩ := Option.isSome_iff_exists.mp
    (show (run Line.step (Line.opened (fun _ => 0) 0)
      (threePut ++ List.replicate 2 .tinyTimer)).isSome = true by decide)
  obtain ⟨s, hs, hticks⟩ := run_append.mp hs'
  have hport : (run Line.step (Line.opened (fun _ => 0) 0) threePut).map (fun s =>
      (s.port.xChar, s.port.stopped, s.port.queued.length, s.port.fifosize)) =
      some (0, false, 2, 0) := by decide
  rw [hs, Option.map_some, Option.some.injEq, Prod.mk.injEq, Prod.mk.injEq, Prod.mk.injEq] at hport
  obtain ⟨hx, hstopped, hlen, hfifo⟩ := hport
  refine ⟨s, s', hs, hticks, (drained_iff hs hx hstopped hticks).2.mpr ?_⟩
  rw [hlen, hfifo]
  decide

end Tty.Serial
