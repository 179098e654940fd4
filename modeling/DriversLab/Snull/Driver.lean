import DriversLab.Lib.Lts
import DriversLab.Lib.CInt
import Mathlib.Logic.Function.Basic

/-!
# Snull.Driver — two network devices that are each other's wire

A transmission on one device takes a packet from the pool of that device, puts it on the
receive queue of the other, and interrupts first the other and then its own device. The
interrupts are calls of `snull_interrupt`, so they run in the transmission. The packet
goes back to the pool in the interrupt, or, in NAPI mode, in a later poll.

* `Tx`: what the kernel runs under the transmit lock of a device, a transmission or a
  timeout, one at a time;
* `Poll`: the poll of a device, which may still have to enable the receive interrupt when
  the next one starts;
* `Release`: where either of them is in `snull_release_buffer`.

A section under a device's lock is one step, but for that of the interrupt handler: what
sets a status bit does not take the lock, and can come between its load of the status word
and the store of zero. A frame is the one that `snull_hw_tx` has readdressed; it is
longer than the two headers, because `snull_tx` has padded it.
-/

namespace Snull

open CInt Lts

/-- `snull_devs`. -/
inductive NetDev where
  | sn0
  | sn1
deriving DecidableEq, Repr

/-- The device that `snull_hw_tx` sends to. -/
def NetDev.peer : NetDev → NetDev
  | sn0 => sn1
  | sn1 => sn0

/-- A `struct snull_packet *`: the field `dev`, which never changes, and a number. -/
structure SnullPacket where
  dev : NetDev
  number : ℕ
deriving DecidableEq, Repr

abbrev Frame := List UInt8

/-- The bits of the status word. -/
structure Status where
  rxIntr : Bool
  txIntr : Bool
deriving DecidableEq, Repr

/-- Which call of `snull_interrupt`: that for the peer, that for the sending device
itself, or that of `snull_tx_timeout`. -/
inductive Caller where
  | receive
  | transmit
  | timeout
deriving DecidableEq, Repr

/-- The device that is interrupted. -/
def Caller.device (d : NetDev) : Caller → NetDev
  | receive => d.peer
  | transmit | timeout => d

/-- Where `snull_release_buffer` is. -/
inductive Release where
  /-- In front of the section under the lock. -/
  | pushing (pkt : SnullPacket)
  /-- In front of the load of the queue's state. -/
  | checking (pkt : SnullPacket)
  /-- In front of the load of `pkt->next`. -/
  | peeking (pkt : SnullPacket)
  /-- In front of `netif_wake_queue`. -/
  | waking (pkt : SnullPacket)
deriving DecidableEq, Repr

inductive Tx where
  | idle
  /-- In front of `snull_get_tx_buffer`. -/
  | started (frame : Frame)
  /-- In front of the copy into the packet. -/
  | taken (pkt : SnullPacket) (frame : Frame)
  /-- In front of `snull_enqueue_buf`. -/
  | copied (pkt : SnullPacket)
  /-- In front of the test of the peer's `rx_int_enabled`. -/
  | enqueued
  /-- In front of the store of `SNULL_RX_INTR` in the peer's status. -/
  | raising
  /-- In front of the section of the interrupt handler. -/
  | calling (caller : Caller)
  /-- In that section, with the status word loaded. -/
  | inside (caller : Caller) (statusword : Status)
  | releasing (r : Release) (caller : Caller)
  /-- In front of the store of `SNULL_TX_INTR` in the own status. -/
  | signalling
  /-- In front of the lockup simulation. -/
  | deciding
  /-- At the end of a timeout, in front of `netif_wake_queue`. -/
  | restarting
  /-- A null pointer has been dereferenced. -/
  | oopsed
deriving DecidableEq, Repr

inductive Poll where
  | idle
  /-- At the test of the loop. -/
  | looping (npackets quota : ℕ)
  /-- In front of `snull_dequeue_buf`. -/
  | fetching (npackets quota : ℕ)
  | holding (pkt : SnullPacket) (npackets quota : ℕ)
  | releasing (r : Release) (npackets quota : ℕ)
  /-- In front of the last test of the queue. -/
  | finishing
  /-- The queue was empty; in front of `netif_rx_complete`. -/
  | completing
  | oopsed
deriving DecidableEq, Repr

/-- `struct snull_priv`, the state of the kernel's queue and of its list of devices to
poll, and the parties. -/
structure Device where
  status : Status
  ppool : Option SnullPacket
  rxQueue : Option SnullPacket
  rxIntEnabled : Bool
  txPackets : ℕ
  /-- `netif_queue_stopped`. -/
  stopped : Bool
  /-- From `netif_rx_schedule` to `netif_rx_complete`. -/
  scheduled : Bool
  tx : Tx
  poll : Poll
  /-- The polls that are in front of `snull_rx_ints(dev, 1)`. -/
  enabling : ℕ
  /-- The frames handed to the network stack. -/
  stack : List Frame

/-- The module parameters. -/
structure Params where
  useNapi : Bool
  lockup : ℤ

structure Net where
  dev : NetDev → Device
  next : SnullPacket → Option SnullPacket
  data : SnullPacket → Frame

/-- Who is in `snull_release_buffer`. -/
inductive Who where
  | tx (d : NetDev)
  | poll (d : NetDev)
deriving DecidableEq, Repr

inductive Act where
  | snullTx (d : NetDev) (frame : Frame)
  | getTxBuffer (d : NetDev) (frame : Frame)
  | copyFrame (d : NetDev) (pkt : SnullPacket) (frame : Frame)
  | enqueueBuf (d : NetDev) (pkt : SnullPacket)
  | testRxInt (d : NetDev)
  | raiseRx (d : NetDev)
  | loadStatus (d : NetDev) (caller : Caller)
  | handle (d : NetDev) (caller : Caller) (statusword : Status) (alloc : Bool)
  | raiseTx (d : NetDev)
  | decide (d : NetDev)
  | txTimeout (d : NetDev)
  | restart (d : NetDev)
  | push (who : Who) (pkt : SnullPacket)
  | checkQueue (who : Who) (pkt : SnullPacket)
  | peekNext (who : Who) (pkt : SnullPacket)
  | wakeQueue (who : Who) (pkt : SnullPacket)
  | snullPoll (d : NetDev) (quota : ℕ)
  | testQueue (d : NetDev) (npackets quota : ℕ)
  | dequeueBuf (d : NetDev) (npackets quota : ℕ)
  | pollReceive (d : NetDev) (pkt : SnullPacket) (npackets quota : ℕ) (alloc : Bool)
  | testEmpty (d : NetDev)
  | rxComplete (d : NetDev)
  | rxIntsOn (d : NetDev)
deriving DecidableEq, Repr

/-- Where a transmission or a timeout goes on after its interrupt. -/
def Caller.resume : Caller → Tx
  | receive => .signalling
  | transmit => .idle
  | timeout => .restarting

/-- In the section of the handler for the device itself. -/
def Tx.insideOwn : Tx → Bool
  | inside .transmit _ | inside .timeout _ => true
  | _ => false

/-- In the section of the handler for the peer. -/
def Tx.insidePeer : Tx → Bool
  | inside .receive _ => true
  | _ => false

namespace Net

def set (s : Net) (d : NetDev) (v : Device) : Net := { s with dev := Function.update s.dev d v }

@[simp] theorem set_dev (s : Net) (d : NetDev) (v : Device) : (s.set d v).dev d = v := by
  simp [set]

@[simp] theorem set_dev_of_ne {d e : NetDev} (h : e ≠ d) (s : Net) (v : Device) :
    (s.set d v).dev e = s.dev e := by
  simp [set, h]

/-- What a field holds after the record of `d` has been written. -/
theorem set_field {β : Type} (f : Device → β) (s : Net) (d : NetDev) (v : Device) (e : NetDev) :
    f ((s.set d v).dev e) = Function.update (fun k => f (s.dev k)) d (f v) e :=
  Function.apply_update (fun _ => f) s.dev d v e

/-- A field that the new record of `d` keeps. -/
theorem set_field_same {β : Type} (f : Device → β) {s : Net} {d : NetDev} {v : Device}
    (hf : f v = f (s.dev d)) (e : NetDev) : f ((s.set d v).dev e) = f (s.dev e) := by
  rw [set_field f, hf, Function.update_eq_self]

@[simp] theorem set_next (s : Net) (d : NetDev) (v : Device) : (s.set d v).next = s.next := rfl

@[simp] theorem set_data (s : Net) (d : NetDev) (v : Device) : (s.set d v).data = s.data := rfl

/-- Move the transmit side of `d`. -/
def txAt (s : Net) (d : NetDev) (tx : Tx) : Net := s.set d { s.dev d with tx := tx }

/-- Move the poll of `d`. -/
def pollAt (s : Net) (d : NetDev) (poll : Poll) : Net := s.set d { s.dev d with poll := poll }

/-- Whether a handler is inside its section with the lock of `d`. -/
def locked (s : Net) (d : NetDev) : Bool :=
  (s.dev d).tx.insideOwn || (s.dev d.peer).tx.insidePeer

/-- Where `who` is in `snull_release_buffer`. -/
def releasing (s : Net) : Who → Option Release
  | .tx d =>
      match (s.dev d).tx with
      | .releasing r _ => some r
      | _ => none
  | .poll d =>
      match (s.dev d).poll with
      | .releasing r _ _ => some r
      | _ => none

/-- Move `who` on in `snull_release_buffer`, or out of it. -/
def proceed (s : Net) (r : Option Release) : Who → Net
  | .tx d =>
      match (s.dev d).tx with
      | .releasing _ caller => s.txAt d (r.elim caller.resume fun r => .releasing r caller)
      | _ => s
  | .poll d =>
      match (s.dev d).poll with
      | .releasing _ n quota => s.pollAt d (r.elim (.looping n quota) fun r => .releasing r n quota)
      | _ => s

/-! ## The steps -/

def guard (s : Net) : Act → Prop
  | .snullTx d _ => (s.dev d).tx = .idle ∧ (s.dev d).stopped = false
  | .getTxBuffer d frame => (s.dev d).tx = .started frame ∧ s.locked d = false
  | .copyFrame d pkt frame => (s.dev d).tx = .taken pkt frame
  | .enqueueBuf d pkt => (s.dev d).tx = .copied pkt ∧ s.locked d.peer = false
  | .testRxInt d => (s.dev d).tx = .enqueued
  | .raiseRx d => (s.dev d).tx = .raising
  | .loadStatus d caller => (s.dev d).tx = .calling caller ∧ s.locked (caller.device d) = false
  | .handle d caller statusword _ => (s.dev d).tx = .inside caller statusword
  | .raiseTx d => (s.dev d).tx = .signalling
  | .decide d => (s.dev d).tx = .deciding
  | .txTimeout d => (s.dev d).tx = .idle ∧ (s.dev d).stopped = true
  | .restart d => (s.dev d).tx = .restarting
  | .push who pkt => s.releasing who = some (.pushing pkt) ∧ s.locked pkt.dev = false
  | .checkQueue who pkt => s.releasing who = some (.checking pkt)
  | .peekNext who pkt => s.releasing who = some (.peeking pkt)
  | .wakeQueue who pkt => s.releasing who = some (.waking pkt)
  | .snullPoll d _ => (s.dev d).poll = .idle ∧ (s.dev d).scheduled = true
  | .testQueue d n quota => (s.dev d).poll = .looping n quota
  | .dequeueBuf d n quota => (s.dev d).poll = .fetching n quota ∧ s.locked d = false
  | .pollReceive d pkt n quota _ => (s.dev d).poll = .holding pkt n quota
  | .testEmpty d => (s.dev d).poll = .finishing
  | .rxComplete d => (s.dev d).poll = .completing
  | .rxIntsOn d => 0 < (s.dev d).enabling

instance (s : Net) : ∀ a : Act, Decidable (guard s a)
  | .snullTx _ _ | .getTxBuffer _ _ | .enqueueBuf _ _ | .loadStatus _ _ | .txTimeout _
  | .push _ _ | .snullPoll _ _ | .dequeueBuf _ _ _ => inferInstanceAs (Decidable (_ ∧ _))
  | .copyFrame _ _ _ | .testRxInt _ | .raiseRx _ | .handle _ _ _ _ | .raiseTx _ | .decide _
  | .restart _ | .checkQueue _ _ | .peekNext _ _ | .wakeQueue _ _ | .testQueue _ _ _
  | .pollReceive _ _ _ _ _ | .testEmpty _ | .rxComplete _ => inferInstanceAs (Decidable (_ = _))
  | .rxIntsOn _ => inferInstanceAs (Decidable (_ < _))

/-- `snull_get_tx_buffer`. -/
def snullGetTxBuffer (s : Net) (d : NetDev) (frame : Frame) : Net :=
  let v := s.dev d
  match v.ppool with
  | none => s.txAt d .oopsed
  | some pkt =>
      s.set d { v with
        ppool := s.next pkt
        stopped := if s.next pkt = none then true else v.stopped
        tx := .taken pkt frame }

/-- `snull_enqueue_buf`. -/
def snullEnqueueBuf (s : Net) (d : NetDev) (pkt : SnullPacket) : Net :=
  let v := s.dev d
  { s with next := Function.update s.next pkt v.rxQueue }.set d { v with rxQueue := some pkt }

/-- The packet goes back to the pool, under the lock. -/
def pushPool (s : Net) (pkt : SnullPacket) : Net :=
  let v := s.dev pkt.dev
  { s with next := Function.update s.next pkt v.ppool }.set pkt.dev { v with ppool := some pkt }

/-- What `snull_rx` and the body of the loop in `snull_poll` hand on, if there is memory
for it. -/
def handOn (v : Device) (frame : Frame) (alloc : Bool) : Device :=
  if alloc then { v with stack := v.stack ++ [frame] } else v

/-- Both handlers free the buffer of a transmission that is over. -/
def countTx (v : Device) (statusword : Status) : Device :=
  if statusword.txIntr then { v with txPackets := (v.txPackets + 1) % 2 ^ 64 } else v

/-- `snull_regular_interrupt` on `e`, from the store of zero to the unlock, with the packet
it has taken. -/
def snullRegularInterrupt (s : Net) (e : NetDev) (statusword : Status) (alloc : Bool) :
    Net × Option SnullPacket :=
  let v := { s.dev e with status := ⟨false, false⟩ }
  match if statusword.rxIntr then v.rxQueue else none with
  | some pkt =>
      let v := { handOn v (s.data pkt) alloc with rxQueue := s.next pkt }
      (s.set e (countTx v statusword), some pkt)
  | none => (s.set e (countTx v statusword), none)

/-- `snull_napi_interrupt` on `e`, from the store of zero to the unlock. -/
def snullNapiInterrupt (s : Net) (e : NetDev) (statusword : Status) : Net :=
  let v := { s.dev e with status := ⟨false, false⟩ }
  let v := if statusword.rxIntr then { v with rxIntEnabled := false, scheduled := true } else v
  s.set e (countTx v statusword)

/-- The test of the lockup simulation. -/
def locksUp (p : Params) (v : Device) : Bool :=
  p.lockup ≠ 0 && ((v.txPackets : ℤ) + 1) % 2 ^ 64 % toULong p.lockup = 0

/-- `snull_dequeue_buf` and the first use of what it returns. -/
def snullDequeueBuf (s : Net) (d : NetDev) (n quota : ℕ) : Net :=
  let v := s.dev d
  match v.rxQueue with
  | none => s.pollAt d .oopsed
  | some pkt => s.set d { v with rxQueue := s.next pkt, poll := .holding pkt n quota }

def update (p : Params) (s : Net) : Act → Net
  | .snullTx d frame => s.txAt d (.started frame)
  | .getTxBuffer d frame => s.snullGetTxBuffer d frame
  | .copyFrame d pkt frame =>
      { s with data := Function.update s.data pkt frame }.txAt d (.copied pkt)
  | .enqueueBuf d pkt => (s.snullEnqueueBuf d.peer pkt).txAt d .enqueued
  | .testRxInt d => s.txAt d (if (s.dev d.peer).rxIntEnabled then .raising else .signalling)
  | .raiseRx d =>
      let v := s.dev d.peer
      (s.set d.peer { v with status := { v.status with rxIntr := true } }).txAt d
        (.calling .receive)
  | .loadStatus d caller => s.txAt d (.inside caller (s.dev (caller.device d)).status)
  | .handle d caller statusword alloc =>
      if p.useNapi then
        (s.snullNapiInterrupt (caller.device d) statusword).txAt d caller.resume
      else
        let r := s.snullRegularInterrupt (caller.device d) statusword alloc
        r.1.txAt d (r.2.elim caller.resume fun pkt => .releasing (.pushing pkt) caller)
  | .raiseTx d =>
      let v := s.dev d
      s.set d { v with status := { v.status with txIntr := true }, tx := .deciding }
  | .decide d =>
      if locksUp p (s.dev d) then s.set d { s.dev d with stopped := true, tx := .idle }
      else s.txAt d (.calling .transmit)
  | .txTimeout d => s.set d { s.dev d with status := ⟨false, true⟩, tx := .calling .timeout }
  | .restart d => s.set d { s.dev d with stopped := false, tx := .idle }
  | .push who pkt => (s.pushPool pkt).proceed (some (.checking pkt)) who
  | .checkQueue who pkt =>
      s.proceed (if (s.dev pkt.dev).stopped then some (.peeking pkt) else none) who
  | .peekNext who pkt => s.proceed (if s.next pkt = none then some (.waking pkt) else none) who
  | .wakeQueue who pkt =>
      (s.set pkt.dev { s.dev pkt.dev with stopped := false }).proceed none who
  | .snullPoll d quota => s.pollAt d (.looping 0 quota)
  | .testQueue d n quota =>
      s.pollAt d (if n < quota ∧ (s.dev d).rxQueue ≠ none then .fetching n quota else .finishing)
  | .dequeueBuf d n quota => s.snullDequeueBuf d n quota
  | .pollReceive d pkt n quota alloc =>
      s.set d { handOn (s.dev d) (s.data pkt) alloc with
        poll := .releasing (.pushing pkt) (if alloc then n + 1 else n) quota }
  | .testEmpty d => s.pollAt d (if (s.dev d).rxQueue = none then .completing else .idle)
  | .rxComplete d =>
      let v := s.dev d
      s.set d { v with scheduled := false, poll := .idle, enabling := v.enabling + 1 }
  | .rxIntsOn d =>
      let v := s.dev d
      s.set d { v with rxIntEnabled := true, enabling := v.enabling - 1 }

def step (p : Params) : Net → Act → Option Net := guarded guard (update p)

/-! ## Loading -/

/-- `snull_setup_pool`, for the packets that `kmalloc` has found memory for. -/
def snullSetupPool (d : NetDev) : ℕ → Net → Net
  | 0, s => s.set d { s.dev d with ppool := none }
  | n + 1, s => (snullSetupPool d n s).pushPool ⟨d, n⟩

/-- A device after `snull_init` and `snull_open`, before its pool is set up. -/
def opened : Device :=
  ⟨⟨false, false⟩, none, none, true, 0, false, false, .idle, .idle, 0, []⟩

/-- Both devices up, with `n d` packets for the device `d`, and memory that holds whatever
it held. -/
def init (next : SnullPacket → Option SnullPacket) (data : SnullPacket → Frame)
    (n : NetDev → ℕ) : Net :=
  snullSetupPool .sn1 (n .sn1) (snullSetupPool .sn0 (n .sn0) ⟨fun _ => opened, next, data⟩)

end Net

end Snull
