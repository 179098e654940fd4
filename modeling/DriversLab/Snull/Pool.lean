import DriversLab.Snull.Driver
import DriversLab.Lib.Chain

/-!
# Snull.Pool — where the packets are

A packet goes from its pool to the hands of a transmission, to the receive queue of the
peer, to the hands of a receive path, and back. That a transmission finds one in the pool
is only seen to by the state of the queue: `snull_get_tx_buffer` stops it with the last
packet, and it must not be woken before one has come back.

* `Kept`: the pools and the receive queues are lists, and with the hands they make up the
  packets that have been created, each of them once;
* `WakesStocked`: a queue is only woken with a packet in the pool;
* `pool_conserved`: the packets are kept in every run, and with that condition no
  transmission finds an empty pool;
* `pool_exhausted`: a timeout that wakes the queue too early.
-/

namespace Snull

open Lts Linked

def Release.hands : Release → List SnullPacket
  | pushing pkt => [pkt]
  | checking _ | peeking _ | waking _ => []

/-- The packet that a transmission has taken and not yet passed on. -/
def Tx.sending : Tx → List SnullPacket
  | taken pkt _ | copied pkt => [pkt]
  | _ => []

/-- The packet that an interrupt has received and not yet put back. -/
def Tx.receiving : Tx → List SnullPacket
  | releasing r _ => r.hands
  | _ => []

/-- The packet that a poll has received and not yet put back. -/
def Poll.receiving : Poll → List SnullPacket
  | holding pkt _ _ => [pkt]
  | releasing r _ _ => r.hands
  | _ => []

@[simp] theorem Poll.receiving_holding (pkt : SnullPacket) (npackets quota : ℕ) :
    (holding pkt npackets quota).receiving = [pkt] := rfl

@[simp] theorem Poll.receiving_releasing (r : Release) (npackets quota : ℕ) :
    (releasing r npackets quota).receiving = r.hands := rfl

def Tx.hands (tx : Tx) : List SnullPacket := tx.sending ++ tx.receiving

@[simp] theorem Tx.hands_taken (pkt : SnullPacket) (frame : Frame) :
    (taken pkt frame).hands = [pkt] := rfl

@[simp] theorem Tx.hands_releasing (r : Release) (caller : Caller) :
    (releasing r caller).hands = r.hands := rfl

@[simp] theorem Tx.hands_resume (caller : Caller) : caller.resume.hands = [] := by
  cases caller <;> rfl

def Device.hands (v : Device) : List SnullPacket := v.tx.hands ++ v.poll.receiving

namespace Net

/-- The packets in somebody's hands. -/
def hands (s : Net) : List SnullPacket := (s.dev .sn0).hands ++ (s.dev .sn1).hands

/-- How often `pkt` occurs in what the two devices have. -/
def occurs (pkt : SnullPacket) (l : NetDev → List SnullPacket) : ℕ :=
  (l .sn0).count pkt + (l .sn1).count pkt

/-- With the packets of `loose`, the pools and the queues hold what `snull_setup_pool` has
created, `n d` packets for `d`. -/
def Kept (n : NetDev → ℕ) (s : Net) (loose : List SnullPacket) : Prop :=
  ∃ pool queue : NetDev → List SnullPacket,
    (∀ d, Chain s.next (s.dev d).ppool (pool d)) ∧
      (∀ d, Chain s.next (s.dev d).rxQueue (queue d)) ∧
      (∀ d, ∀ pkt ∈ pool d, pkt.dev = d) ∧
      ∀ pkt, occurs pkt pool + occurs pkt queue + loose.count pkt =
        if pkt.number < n pkt.dev then 1 else 0

/-- A queue is woken with a packet in the pool of its device. -/
def WakesStocked (s : Net) : Act → Prop
  | .wakeQueue _ pkt => (s.dev pkt.dev).ppool ≠ none
  | .restart d => (s.dev d).ppool ≠ none
  | _ => True

instance (s : Net) : ∀ a, Decidable (WakesStocked s a)
  | .wakeQueue _ _ | .restart _ => inferInstanceAs (Decidable (_ ≠ _))
  | .snullTx _ _ | .getTxBuffer _ _ | .copyFrame _ _ _ | .enqueueBuf _ _ | .testRxInt _
  | .raiseRx _ | .loadStatus _ _ | .handle _ _ _ _ | .raiseTx _ | .decide _ | .txTimeout _
  | .push _ _ | .checkQueue _ _ | .peekNext _ _ | .snullPoll _ _ | .testQueue _ _ _
  | .dequeueBuf _ _ _ | .pollReceive _ _ _ _ _ | .testEmpty _ | .rxComplete _ | .rxIntsOn _ =>
      inferInstanceAs (Decidable True)

/-- `snull_get_tx_buffer` finds a packet. -/
def FindsPacket (s : Net) : Act → Prop
  | .getTxBuffer d _ => (s.dev d).ppool ≠ none
  | _ => True

/-- A queue that runs has a packet in its pool, for the transmission that has been started
or is yet to be. -/
def Stocked (s : Net) : Prop :=
  ∀ d, (s.dev d).stopped = false ∨ (∃ frame, (s.dev d).tx = .started frame) →
    (s.dev d).ppool ≠ none

/-! ## Lists -/

section Lists

variable {n : NetDev → ℕ} {s s' : Net} {d e : NetDev} {pkt : SnullPacket}
  {loose loose' : List SnullPacket} {v : Device}

theorem occurs_update (q : SnullPacket) (l : NetDev → List SnullPacket) (d : NetDev)
    (m : List SnullPacket) :
    occurs q (Function.update l d m) + (l d).count q = occurs q l + m.count q := by
  cases d with
  | sn0 =>
      simp [occurs]
      omega
  | sn1 =>
      simp [occurs]
      omega

theorem kept_congr (h : Kept n s loose) (hnext : s'.next = s.next)
    (hpool : ∀ d, (s'.dev d).ppool = (s.dev d).ppool)
    (hqueue : ∀ d, (s'.dev d).rxQueue = (s.dev d).rxQueue)
    (hloose : ∀ q, loose'.count q = loose.count q) : Kept n s' loose' := by
  obtain ⟨pool, queue, hp, hq, howner, hcount⟩ := h
  refine ⟨pool, queue, ?_, ?_, howner, ?_⟩
  · intro d
    rw [hnext, hpool]
    exact hp d
  · intro d
    rw [hnext, hqueue]
    exact hq d
  · intro q
    rw [hloose]
    exact hcount q

theorem kept_recount (h : Kept n s loose) (hloose : ∀ q, loose'.count q = loose.count q) :
    Kept n s loose' :=
  kept_congr h rfl (fun _ => rfl) (fun _ => rfl) hloose

/-- A loose packet is in no list. -/
theorem not_mem_of_loose {pool queue : NetDev → List SnullPacket}
    (hcount : ∀ q, occurs q pool + occurs q queue + (pkt :: loose).count q =
      if q.number < n q.dev then 1 else 0) (d : NetDev) :
    pkt ∉ pool d ∧ pkt ∉ queue d := by
  have hone := hcount pkt
  rw [List.count_cons_self] at hone
  unfold occurs at hone
  have hle : (if pkt.number < n pkt.dev then 1 else 0) ≤ 1 := by split <;> decide
  constructor
  · apply List.count_eq_zero.mp
    cases d <;> omega
  · apply List.count_eq_zero.mp
    cases d <;> omega

theorem count_cons_add (q : SnullPacket) :
    (pkt :: loose).count q = loose.count q + [pkt].count q := by
  rw [← List.singleton_append, List.count_append, Nat.add_comm]

/-- The first packet of a pool is taken out. -/
theorem kept_popPool (h : Kept n s loose) (hsome : (s.dev d).ppool = some pkt)
    (hpool : v.ppool = s.next pkt) (hqueue : v.rxQueue = (s.dev d).rxQueue) :
    Kept n (s.set d v) (pkt :: loose) := by
  obtain ⟨pool, queue, hp, hq, howner, hcount⟩ := h
  obtain ⟨l, hl, hrest⟩ := chains_pop hp hsome
  refine ⟨Function.update pool d l, queue, ?_, ?_, ?_, ?_⟩
  · intro e
    rw [set_field Device.ppool, hpool]
    exact hrest e
  · intro e
    rw [set_field Device.rxQueue, hqueue, Function.update_eq_self]
    exact hq e
  · refine (Function.forall_update_iff pool fun e l => ∀ q ∈ l, q.dev = e).mpr ⟨?_, ?_⟩
    · intro q hmem
      exact howner d q (hl ▸ List.mem_cons_of_mem pkt hmem)
    · exact fun e _ => howner e
  · intro q
    have hsum := occurs_update q pool d l
    rw [hl, count_cons_add] at hsum
    rw [count_cons_add, ← hcount q]
    omega

/-- The first packet of a receive queue is taken out. -/
theorem kept_popQueue (h : Kept n s loose) (hsome : (s.dev d).rxQueue = some pkt)
    (hpool : v.ppool = (s.dev d).ppool) (hqueue : v.rxQueue = s.next pkt) :
    Kept n (s.set d v) (pkt :: loose) := by
  obtain ⟨pool, queue, hp, hq, howner, hcount⟩ := h
  obtain ⟨l, hl, hrest⟩ := chains_pop hq hsome
  refine ⟨pool, Function.update queue d l, ?_, ?_, howner, ?_⟩
  · intro e
    rw [set_field Device.ppool, hpool, Function.update_eq_self]
    exact hp e
  · intro e
    rw [set_field Device.rxQueue, hqueue]
    exact hrest e
  · intro q
    have hsum := occurs_update q queue d l
    rw [hl, count_cons_add] at hsum
    rw [count_cons_add, ← hcount q]
    omega

/-- A loose packet goes back to its pool. -/
theorem kept_pushPool (h : Kept n s (pkt :: loose)) : Kept n (s.pushPool pkt) loose := by
  obtain ⟨pool, queue, hp, hq, howner, hcount⟩ := h
  have hfree := not_mem_of_loose hcount
  unfold pushPool
  refine ⟨Function.update pool pkt.dev (pkt :: pool pkt.dev), queue, ?_, ?_, ?_, ?_⟩
  · intro e
    rw [set_field Device.ppool]
    exact chains_push hp (fun e => (hfree e).1) pkt.dev e
  · intro e
    rw [set_field Device.rxQueue, Function.update_eq_self]
    exact chain_update (hq e) (hfree e).2 _
  · refine (Function.forall_update_iff pool fun e l => ∀ q ∈ l, q.dev = e).mpr ⟨?_, ?_⟩
    · intro q hmem
      rcases List.mem_cons.mp hmem with rfl | hmem
      · rfl
      · exact howner _ q hmem
    · exact fun e _ => howner e
  · intro q
    have hsum := occurs_update q pool pkt.dev (pkt :: pool pkt.dev)
    have hbefore := hcount q
    rw [count_cons_add] at hsum hbefore
    omega

/-- A loose packet is put on a receive queue. -/
theorem kept_enqueueBuf (h : Kept n s (pkt :: loose)) (d : NetDev) :
    Kept n (s.snullEnqueueBuf d pkt) loose := by
  obtain ⟨pool, queue, hp, hq, howner, hcount⟩ := h
  have hfree := not_mem_of_loose hcount
  unfold snullEnqueueBuf
  refine ⟨pool, Function.update queue d (pkt :: queue d), ?_, ?_, howner, ?_⟩
  · intro e
    rw [set_field Device.ppool, Function.update_eq_self]
    exact chain_update (hp e) (hfree e).1 _
  · intro e
    rw [set_field Device.rxQueue]
    exact chains_push hq (fun e => (hfree e).2) d e
  · intro q
    have hsum := occurs_update q queue d (pkt :: queue d)
    have hbefore := hcount q
    rw [count_cons_add] at hsum hbefore
    omega

theorem hands_set (s : Net) (d : NetDev) (v : Device) (q : SnullPacket) :
    (hands (s.set d v)).count q + (s.dev d).hands.count q =
      (hands s).count q + v.hands.count q := by
  have hsum := occurs_update q (fun e => (s.dev e).hands) d v.hands
  unfold occurs at hsum
  cases d <;> simpa [hands, set] using hsum

end Lists

/-! ## The steps -/

section Steps

variable {p : Params} {n : NetDev → ℕ} {s : Net} {d e : NetDev} {pkt : SnullPacket}
  {loose : List SnullPacket} {v : Device}

/-- What the interrupt handlers leave alone in the device they are called for. -/
structure Untouched (v v' : Device) : Prop where
  ppool : v'.ppool = v.ppool
  stopped : v'.stopped = v.stopped
  tx : v'.tx = v.tx
  poll : v'.poll = v.poll

theorem handOn_untouched (v : Device) (frame : Frame) (alloc : Bool) :
    Untouched v (handOn v frame alloc) ∧ (handOn v frame alloc).rxQueue = v.rxQueue := by
  unfold handOn
  split <;> exact ⟨⟨rfl, rfl, rfl, rfl⟩, rfl⟩

theorem countTx_untouched (v : Device) (w : Status) :
    Untouched v (countTx v w) ∧ (countTx v w).rxQueue = v.rxQueue := by
  unfold countTx
  split <;> exact ⟨⟨rfl, rfl, rfl, rfl⟩, rfl⟩

theorem untouched_trans {v v' v'' : Device} (h : Untouched v v') (h' : Untouched v' v'') :
    Untouched v v'' :=
  ⟨h'.ppool.trans h.ppool, h'.stopped.trans h.stopped, h'.tx.trans h.tx, h'.poll.trans h.poll⟩

/-- The handler of NAPI mode touches no packet. -/
theorem napiInterrupt_spec (s : Net) (e : NetDev) (w : Status) :
    ∃ v, s.snullNapiInterrupt e w = s.set e v ∧ Untouched (s.dev e) v ∧
      v.rxQueue = (s.dev e).rxQueue := by
  refine ⟨_, rfl, ?_, ?_⟩
  · refine untouched_trans ?_ (countTx_untouched _ w).1
    split <;> exact ⟨rfl, rfl, rfl, rfl⟩
  · rw [(countTx_untouched _ w).2]
    split <;> rfl

/-- The regular handler takes at most the first packet of the queue. -/
theorem regularInterrupt_spec (s : Net) (e : NetDev) (w : Status) (alloc : Bool) :
    ∃ v, (s.snullRegularInterrupt e w alloc).1 = s.set e v ∧ Untouched (s.dev e) v ∧
      ((s.snullRegularInterrupt e w alloc).2 = none ∧ v.rxQueue = (s.dev e).rxQueue ∨
        ∃ pkt, (s.snullRegularInterrupt e w alloc).2 = some pkt ∧
          (s.dev e).rxQueue = some pkt ∧ v.rxQueue = s.next pkt) := by
  cases hpkt : (if w.rxIntr then (s.dev e).rxQueue else none) with
  | none =>
      simp only [snullRegularInterrupt, hpkt]
      refine ⟨_, rfl, ?_, Or.inl ⟨trivial, (countTx_untouched _ w).2⟩⟩
      have hcount := (countTx_untouched { s.dev e with status := ⟨false, false⟩ } w).1
      exact ⟨hcount.ppool, hcount.stopped, hcount.tx, hcount.poll⟩
  | some pkt =>
      have hqueue : (s.dev e).rxQueue = some pkt := by
        split at hpkt
        · exact hpkt
        · cases hpkt
      simp only [snullRegularInterrupt, hpkt]
      refine ⟨_, rfl, ?_, Or.inr ⟨pkt, rfl, hqueue, (countTx_untouched _ w).2⟩⟩
      refine untouched_trans ?_ (countTx_untouched _ w).1
      have hon := (handOn_untouched { s.dev e with status := ⟨false, false⟩ } (s.data pkt) alloc).1
      exact ⟨hon.ppool, hon.stopped, hon.tx, hon.poll⟩

theorem kept_set (h : Kept n s loose) (hpool : v.ppool = (s.dev d).ppool)
    (hqueue : v.rxQueue = (s.dev d).rxQueue) : Kept n (s.set d v) loose := by
  refine kept_congr h rfl ?_ ?_ (fun _ => rfl)
  · exact set_field_same Device.ppool hpool
  · exact set_field_same Device.rxQueue hqueue

/-- A step that moves no packet. -/
theorem kept_move (h : Kept n s (hands s)) (hpool : v.ppool = (s.dev d).ppool)
    (hqueue : v.rxQueue = (s.dev d).rxQueue) (hhands : v.hands = (s.dev d).hands) :
    Kept n (s.set d v) (hands (s.set d v)) := by
  refine kept_recount (kept_set h hpool hqueue) ?_
  intro q
  have hsum := hands_set s d v q
  rw [hhands] at hsum
  omega

theorem hands_txAt (s : Net) (d : NetDev) (tx : Tx) (q : SnullPacket) :
    (hands (s.txAt d tx)).count q + (s.dev d).tx.hands.count q =
      (hands s).count q + tx.hands.count q := by
  have hsum : (hands (s.txAt d tx)).count q + (s.dev d).hands.count q =
      (hands s).count q + (tx.hands ++ (s.dev d).poll.receiving).count q := hands_set s d _ q
  simp only [Device.hands, List.count_append] at hsum
  omega

theorem hands_pollAt (s : Net) (d : NetDev) (poll : Poll) (q : SnullPacket) :
    (hands (s.pollAt d poll)).count q + (s.dev d).poll.receiving.count q =
      (hands s).count q + poll.receiving.count q := by
  have hsum : (hands (s.pollAt d poll)).count q + (s.dev d).hands.count q =
      (hands s).count q + ((s.dev d).tx.hands ++ poll.receiving).count q := hands_set s d _ q
  simp only [Device.hands, List.count_append] at hsum
  omega

theorem kept_txAt (h : Kept n s (hands s)) {tx : Tx} (htx : tx.hands = (s.dev d).tx.hands) :
    Kept n (s.txAt d tx) (hands (s.txAt d tx)) :=
  kept_move h rfl rfl (by simp only [Device.hands, htx])

theorem kept_pollAt (h : Kept n s (hands s)) {poll : Poll}
    (hpoll : poll.receiving = (s.dev d).poll.receiving) :
    Kept n (s.pollAt d poll) (hands (s.pollAt d poll)) :=
  kept_move h rfl rfl (by simp only [Device.hands, hpoll])

theorem kept_getTxBuffer (h : Kept n s (hands s)) {frame : Frame}
    (hw : (s.dev d).tx = .started frame) :
    Kept n (s.snullGetTxBuffer d frame) (hands (s.snullGetTxBuffer d frame)) := by
  have htx : (s.dev d).tx.hands = [] := by
    simp [hw, Tx.hands, Tx.sending, Tx.receiving]
  cases hsome : (s.dev d).ppool with
  | none =>
      simp only [snullGetTxBuffer, hsome]
      exact kept_txAt h htx.symm
  | some pkt =>
      simp only [snullGetTxBuffer, hsome]
      refine kept_recount (kept_popPool h hsome rfl rfl) ?_
      intro q
      refine Nat.add_right_cancel ((hands_set s d _ q).trans ?_)
      have hcons : (pkt :: hands s).count q = (hands s).count q + [pkt].count q := count_cons_add q
      simp only [Device.hands, htx, Tx.hands_taken, List.nil_append, List.count_append]
      omega

theorem hands_enqueueBuf (s : Net) (d : NetDev) (pkt q : SnullPacket) :
    (hands (s.snullEnqueueBuf d pkt)).count q = (hands s).count q := by
  have hsum := hands_set { s with next := Function.update s.next pkt (s.dev d).rxQueue } d
    { s.dev d with rxQueue := some pkt } q
  exact Nat.add_right_cancel hsum

theorem hands_pushPool (s : Net) (pkt q : SnullPacket) :
    (hands (s.pushPool pkt)).count q = (hands s).count q := by
  have hsum := hands_set { s with next := Function.update s.next pkt (s.dev pkt.dev).ppool } pkt.dev
    { s.dev pkt.dev with ppool := some pkt } q
  exact Nat.add_right_cancel hsum

theorem peer_ne (d : NetDev) : d ≠ d.peer := by
  cases d <;> decide

theorem kept_enqueue_step (h : Kept n s (hands s)) (hw : (s.dev d).tx = .copied pkt) :
    Kept n (update p s (.enqueueBuf d pkt)) (hands (update p s (.enqueueBuf d pkt))) := by
  have hdev : (s.snullEnqueueBuf d.peer pkt).dev d = s.dev d := set_dev_of_ne (peer_ne d) _ _
  have htx : (s.dev d).tx.hands = [pkt] := by
    simp [hw, Tx.hands, Tx.sending, Tx.receiving]
  -- the hands without the packet
  have hloose : Kept n s (pkt :: hands (s.txAt d .enqueued)) := by
    refine kept_recount h ?_
    intro q
    have hsum := hands_txAt s d .enqueued q
    have hnone : Tx.enqueued.hands = [] := rfl
    rw [htx, hnone, List.count_nil] at hsum
    rw [count_cons_add]
    omega
  refine kept_recount (kept_set (kept_enqueueBuf hloose d.peer) rfl rfl) ?_
  intro q
  have hbefore := hands_txAt s d .enqueued q
  have hafter := hands_txAt (s.snullEnqueueBuf d.peer pkt) d .enqueued q
  have hsame := hands_enqueueBuf s d.peer pkt q
  rw [hdev] at hafter
  have : (hands ((s.snullEnqueueBuf d.peer pkt).txAt d .enqueued)).count q =
      (hands (s.txAt d .enqueued)).count q := by omega
  exact this

theorem kept_dequeueBuf (h : Kept n s (hands s)) {k quota : ℕ}
    (hw : (s.dev d).poll = .fetching k quota) :
    Kept n (s.snullDequeueBuf d k quota) (hands (s.snullDequeueBuf d k quota)) := by
  have hpoll : (s.dev d).poll.receiving = [] := by
    rw [hw]
    rfl
  cases hsome : (s.dev d).rxQueue with
  | none =>
      simp only [snullDequeueBuf, hsome]
      exact kept_pollAt h hpoll.symm
  | some pkt =>
      simp only [snullDequeueBuf, hsome]
      refine kept_recount (kept_popQueue h hsome rfl rfl) ?_
      intro q
      refine Nat.add_right_cancel ((hands_set s d _ q).trans ?_)
      have hcons : (pkt :: hands s).count q = (hands s).count q + [pkt].count q := count_cons_add q
      simp only [Device.hands, hpoll, Poll.receiving_holding, List.append_nil, List.count_append]
      omega

/-! ## Releasing -/

theorem kept_proceed (h : Kept n s loose) (r : Option Release) (who : Who) :
    Kept n (s.proceed r who) loose := by
  cases who with
  | tx d =>
      simp only [proceed]
      split
      · exact kept_set h rfl rfl
      · exact h
  | poll d =>
      simp only [proceed]
      split
      · exact kept_set h rfl rfl
      · exact h

theorem hands_proceed {who : Who} {r₀ : Release} (hrel : s.releasing who = some r₀)
    (r : Option Release) (q : SnullPacket) :
    (hands (s.proceed r who)).count q + r₀.hands.count q =
      (hands s).count q + (r.elim [] Release.hands).count q := by
  cases who with
  | tx d =>
      simp only [releasing] at hrel
      split at hrel
      · rename_i r₁ caller hw
        cases hrel
        have hsum := hands_txAt s d (r.elim caller.resume fun r => .releasing r caller) q
        simp only [hw, Tx.hands_releasing] at hsum
        simp only [proceed, hw]
        rw [hsum]
        cases r with
        | none => simp
        | some r => rfl
      · cases hrel
  | poll d =>
      simp only [releasing] at hrel
      split at hrel
      · rename_i r₁ k quota hw
        cases hrel
        have hsum := hands_pollAt s d (r.elim (.looping k quota) fun r => .releasing r k quota) q
        simp only [hw, Poll.receiving_releasing] at hsum
        simp only [proceed, hw]
        rw [hsum]
        cases r with
        | none => rfl
        | some r => rfl
      · cases hrel

/-- Past the section that puts the packet back, no packet moves. -/
theorem kept_release {who : Who} {r₀ : Release} (h : Kept n s (hands s))
    (hrel : s.releasing who = some r₀) (hr₀ : r₀.hands = []) {r : Option Release}
    (hr : r.elim [] Release.hands = []) :
    Kept n (s.proceed r who) (hands (s.proceed r who)) := by
  refine kept_recount (kept_proceed h r who) ?_
  intro q
  have hsum := hands_proceed hrel r q
  rw [hr₀, hr] at hsum
  exact Nat.add_right_cancel hsum

theorem releasing_set {e : NetDev} (htx : v.tx = (s.dev e).tx) (hpoll : v.poll = (s.dev e).poll)
    (who : Who) : (s.set e v).releasing who = s.releasing who := by
  cases who with
  | tx d =>
      unfold releasing
      simp only [set_field_same Device.tx htx]
  | poll d =>
      unfold releasing
      simp only [set_field_same Device.poll hpoll]

theorem kept_push_step {who : Who} (h : Kept n s (hands s))
    (hrel : s.releasing who = some (.pushing pkt)) :
    Kept n (update p s (.push who pkt)) (hands (update p s (.push who pkt))) := by
  have hrel' : (s.pushPool pkt).releasing who = some (.pushing pkt) := by
    refine (releasing_set ?_ ?_ who).trans hrel
    · rfl
    · rfl
  have hloose : Kept n s (pkt :: hands (s.proceed (some (.checking pkt)) who)) := by
    refine kept_recount h ?_
    intro q
    have hsum := hands_proceed hrel (some (.checking pkt)) q
    simp only [Release.hands, Option.elim_some, List.count_nil] at hsum
    rw [count_cons_add]
    omega
  refine kept_recount (kept_proceed (kept_pushPool hloose) _ who) ?_
  intro q
  have hbefore := hands_proceed hrel (some (.checking pkt)) q
  have hafter := hands_proceed hrel' (some (.checking pkt)) q
  rw [hands_pushPool] at hafter
  simp only [update]
  omega

/-! ## The interrupt handlers -/

theorem hands_of_untouched {v' : Device} (h : Untouched v v') : v'.hands = v.hands := by
  unfold Device.hands
  rw [h.tx, h.poll]

theorem kept_handle {caller : Caller} {w : Status} (h : Kept n s (hands s)) (alloc : Bool)
    (hw : (s.dev d).tx = .inside caller w) :
    Kept n (update p s (.handle d caller w alloc))
      (hands (update p s (.handle d caller w alloc))) := by
  have htx : (s.dev d).tx.hands = [] := by
    rw [hw]
    rfl
  simp only [update]
  split
  · obtain ⟨v, hset, huntouched, hqueue⟩ := napiInterrupt_spec s (caller.device d) w
    rw [hset]
    refine kept_txAt (kept_move h huntouched.ppool hqueue (hands_of_untouched huntouched)) ?_
    rw [Tx.hands_resume, set_field_same Device.tx huntouched.tx, htx]
  · obtain ⟨v, hset, huntouched, hcase⟩ := regularInterrupt_spec s (caller.device d) w alloc
    rw [hset]
    rcases hcase with ⟨hnone, hqueue⟩ | ⟨pkt, hsome, hfirst, hqueue⟩
    · rw [hnone]
      refine kept_txAt (kept_move h huntouched.ppool hqueue (hands_of_untouched huntouched)) ?_
      rw [Option.elim_none, Tx.hands_resume, set_field_same Device.tx huntouched.tx, htx]
    · -- the packet goes from the queue to the hands of the interrupt
      rw [hsome]
      refine kept_recount (kept_set (kept_popQueue h hfirst huntouched.ppool hqueue) rfl rfl) ?_
      intro q
      have hhands := hands_set s (caller.device d) v q
      have hsum := hands_txAt (s.set (caller.device d) v) d (.releasing (.pushing pkt) caller) q
      have hcons : (pkt :: hands s).count q = (hands s).count q + [pkt].count q := count_cons_add q
      rw [hands_of_untouched huntouched] at hhands
      rw [set_field_same Device.tx huntouched.tx, htx, Tx.hands_releasing, Release.hands,
        List.count_nil] at hsum
      have hgoal : (hands ((s.set (caller.device d) v).txAt d
          (.releasing (.pushing pkt) caller))).count q = (pkt :: hands s).count q := by omega
      exact hgoal

theorem kept_step {a : Act} (h : Kept n s (hands s)) (hg : guard s a) :
    Kept n (update p s a) (hands (update p s a)) := by
  cases a with
  | snullTx d frame =>
      refine kept_txAt h ?_
      rw [hg.1]
      rfl
  | getTxBuffer d frame => exact kept_getTxBuffer h hg.1
  | copyFrame d pkt frame =>
      have hw : (s.dev d).tx = .taken pkt frame := hg
      have hdata : Kept n { s with data := Function.update s.data pkt frame } (hands s) := h
      refine kept_txAt hdata ?_
      rw [hw]
      rfl
  | enqueueBuf d pkt => exact kept_enqueue_step h hg.1
  | testRxInt d =>
      have hw : (s.dev d).tx = .enqueued := hg
      refine kept_txAt h ?_
      rw [hw]
      split <;> rfl
  | raiseRx d =>
      have hw : (s.dev d).tx = .raising := hg
      simp only [update]
      refine kept_txAt (kept_move h ?_ ?_ ?_) ?_
      · rfl
      · rfl
      · rfl
      · rw [set_dev_of_ne (peer_ne d), hw]
        rfl
  | loadStatus d caller =>
      refine kept_txAt h ?_
      rw [hg.1]
      rfl
  | handle d caller w alloc => exact kept_handle h alloc hg
  | raiseTx d =>
      have hw : (s.dev d).tx = .signalling := hg
      refine kept_move h rfl rfl ?_
      simp only [Device.hands, hw]
      rfl
  | decide d =>
      have hw : (s.dev d).tx = .deciding := hg
      simp only [update]
      split
      · refine kept_move h rfl rfl ?_
        simp only [Device.hands, hw]
        rfl
      · refine kept_txAt h ?_
        rw [hw]
        rfl
  | txTimeout d =>
      refine kept_move h rfl rfl ?_
      simp only [Device.hands, hg.1]
      rfl
  | restart d =>
      have hw : (s.dev d).tx = .restarting := hg
      refine kept_move h rfl rfl ?_
      simp only [Device.hands, hw]
      rfl
  | push who pkt => exact kept_push_step h hg.1
  | checkQueue who pkt =>
      refine kept_release h hg rfl ?_
      split <;> rfl
  | peekNext who pkt =>
      refine kept_release h hg rfl ?_
      split <;> rfl
  | wakeQueue who pkt =>
      have hset :=
        kept_move (d := pkt.dev) (v := { s.dev pkt.dev with stopped := false }) h rfl rfl rfl
      have hrel : (s.set pkt.dev { s.dev pkt.dev with stopped := false }).releasing who =
          some (.waking pkt) := by
        refine (releasing_set ?_ ?_ who).trans hg
        · rfl
        · rfl
      exact kept_release hset hrel rfl rfl
  | snullPoll d quota =>
      refine kept_pollAt h ?_
      rw [hg.1]
      rfl
  | testQueue d k quota =>
      have hw : (s.dev d).poll = .looping k quota := hg
      refine kept_pollAt h ?_
      rw [hw]
      split <;> rfl
  | dequeueBuf d k quota => exact kept_dequeueBuf h hg.1
  | pollReceive d pkt k quota alloc =>
      have hw : (s.dev d).poll = .holding pkt k quota := hg
      obtain ⟨hon, hqueue⟩ := handOn_untouched (s.dev d) (s.data pkt) alloc
      refine kept_move h hon.ppool hqueue ?_
      simp only [Device.hands, hon.tx, hw]
      rfl
  | testEmpty d =>
      have hw : (s.dev d).poll = .finishing := hg
      refine kept_pollAt h ?_
      rw [hw]
      split <;> rfl
  | rxComplete d =>
      have hw : (s.dev d).poll = .completing := hg
      refine kept_move h rfl rfl ?_
      simp only [Device.hands, hw]
      rfl
  | rxIntsOn d => exact kept_move h rfl rfl rfl

/-! ## The state of the queue -/

theorem stocked_set (h : Stocked s)
    (hv : v.stopped = false ∨ (∃ frame, v.tx = .started frame) → v.ppool ≠ none) :
    Stocked (s.set d v) := by
  refine (Function.forall_update_iff s.dev fun _ v =>
    v.stopped = false ∨ (∃ frame, v.tx = .started frame) → v.ppool ≠ none).mpr ⟨hv, ?_⟩
  exact fun e _ => h e

theorem stocked_txAt (h : Stocked s) {tx : Tx} (htx : ∀ frame, tx ≠ .started frame) :
    Stocked (s.txAt d tx) := by
  refine stocked_set h ?_
  rintro (hrun | ⟨frame, hstarted⟩)
  · exact h d (Or.inl hrun)
  · exact absurd hstarted (htx frame)

theorem stocked_pollAt (h : Stocked s) (poll : Poll) : Stocked (s.pollAt d poll) :=
  stocked_set h (h d)

theorem stocked_untouched (h : Stocked s) (hv : Untouched (s.dev d) v) : Stocked (s.set d v) := by
  refine stocked_set h ?_
  rw [hv.stopped, hv.tx, hv.ppool]
  exact h d

theorem resume_ne_started (caller : Caller) (frame : Frame) : caller.resume ≠ .started frame := by
  cases caller <;> simp [Caller.resume]

theorem stocked_proceed (h : Stocked s) (r : Option Release) (who : Who) :
    Stocked (s.proceed r who) := by
  cases who with
  | tx d =>
      simp only [proceed]
      split
      · refine stocked_txAt h ?_
        intro frame
        cases r with
        | none => exact resume_ne_started _ frame
        | some r => simp
      · exact h
  | poll d =>
      simp only [proceed]
      split
      · exact stocked_pollAt h _
      · exact h

theorem stocked_handle {caller : Caller} {w : Status} (h : Stocked s) (alloc : Bool) :
    Stocked (update p s (.handle d caller w alloc)) := by
  simp only [update]
  split
  · obtain ⟨v, hset, huntouched, _⟩ := napiInterrupt_spec s (caller.device d) w
    rw [hset]
    exact stocked_txAt (stocked_untouched h huntouched) (resume_ne_started caller)
  · obtain ⟨v, hset, huntouched, _⟩ := regularInterrupt_spec s (caller.device d) w alloc
    rw [hset]
    refine stocked_txAt (stocked_untouched h huntouched) ?_
    intro frame
    cases (s.snullRegularInterrupt (caller.device d) w alloc).2 with
    | none => exact resume_ne_started caller frame
    | some pkt => simp

theorem stocked_getTxBuffer (h : Stocked s) (frame : Frame) :
    Stocked (s.snullGetTxBuffer d frame) := by
  cases hsome : (s.dev d).ppool with
  | none =>
      simp only [snullGetTxBuffer, hsome]
      exact stocked_txAt h (by simp)
  | some pkt =>
      simp only [snullGetTxBuffer, hsome]
      refine stocked_set h ?_
      -- the last packet stops the queue
      rintro (hrun | ⟨frame, hstarted⟩)
      · intro hlast
        have hnext : s.next pkt = none := hlast
        simp [hnext] at hrun
      · simp at hstarted

theorem stocked_step {a : Act} (h : Stocked s) (hq : WakesStocked s a) (hg : guard s a) :
    Stocked (update p s a) := by
  cases a with
  | snullTx d frame =>
      refine stocked_set h ?_
      exact fun _ => h d (Or.inl hg.2)
  | getTxBuffer d frame => exact stocked_getTxBuffer h frame
  | copyFrame d pkt frame =>
      have hdata : Stocked { s with data := Function.update s.data pkt frame } := h
      exact stocked_txAt hdata (by simp)
  | enqueueBuf d pkt =>
      have hnext : Stocked (s.snullEnqueueBuf d.peer pkt) := by
        have hlink : Stocked { s with
            next := Function.update s.next pkt (s.dev d.peer).rxQueue } := h
        exact stocked_set hlink (h d.peer)
      exact stocked_txAt hnext (by simp)
  | testRxInt d =>
      refine stocked_txAt h ?_
      intro frame
      split <;> simp
  | raiseRx d =>
      simp only [update]
      refine stocked_txAt (stocked_set h ?_) ?_
      · exact h d.peer
      · simp
  | loadStatus d caller => exact stocked_txAt h (by simp)
  | handle d caller w alloc => exact stocked_handle h alloc
  | raiseTx d =>
      refine stocked_set h ?_
      rintro (hrun | ⟨frame, hstarted⟩)
      · exact h d (Or.inl hrun)
      · simp at hstarted
  | decide d =>
      simp only [update]
      split
      · refine stocked_set h ?_
        rintro (hrun | ⟨frame, hstarted⟩)
        · simp at hrun
        · simp at hstarted
      · exact stocked_txAt h (by simp)
  | txTimeout d =>
      refine stocked_set h ?_
      rintro (hrun | ⟨frame, hstarted⟩)
      · exact h d (Or.inl hrun)
      · simp at hstarted
  | restart d => exact stocked_set h fun _ => hq
  | push who pkt =>
      have hput : Stocked (s.pushPool pkt) := by
        have hlink : Stocked { s with
            next := Function.update s.next pkt (s.dev pkt.dev).ppool } := h
        refine stocked_set hlink ?_
        simp
      exact stocked_proceed hput _ who
  | checkQueue who pkt => exact stocked_proceed h _ who
  | peekNext who pkt => exact stocked_proceed h _ who
  | wakeQueue who pkt =>
      have hwoken : Stocked (s.set pkt.dev { s.dev pkt.dev with stopped := false }) :=
        stocked_set h fun _ => hq
      exact stocked_proceed hwoken none who
  | snullPoll d quota => exact stocked_pollAt h _
  | testQueue d k quota => exact stocked_pollAt h _
  | dequeueBuf d k quota =>
      simp only [update, snullDequeueBuf]
      split
      · exact stocked_pollAt h _
      · exact stocked_set h (h d)
  | pollReceive d pkt k quota alloc =>
      obtain ⟨hon, _⟩ := handOn_untouched (s.dev d) (s.data pkt) alloc
      refine stocked_set h ?_
      simp only [hon.stopped, hon.tx, hon.ppool]
      exact h d
  | testEmpty d => exact stocked_pollAt h _
  | rxComplete d => exact stocked_set h (h d)
  | rxIntsOn d => exact stocked_set h (h d)

theorem stocked_finds {a : Act} (h : Stocked s) (hg : guard s a) : FindsPacket s a := by
  cases a with
  | getTxBuffer d frame => exact h d (Or.inr ⟨frame, hg.1⟩)
  | _ => trivial

end Steps

/-! ## Loading -/

section Loading

variable {n : NetDev → ℕ} {s : Net} {d : NetDev}

/-- One more packet is allocated. -/
theorem kept_create (h : Kept n s []) (d : NetDev) :
    Kept (Function.update n d (n d + 1)) s [⟨d, n d⟩] := by
  obtain ⟨pool, queue, hp, hq, howner, hcount⟩ := h
  refine ⟨pool, queue, hp, hq, howner, ?_⟩
  intro q
  have hbefore := hcount q
  by_cases hd : q.dev = d
  · by_cases hnew : q = ⟨d, n d⟩
    · subst hnew
      simp at hbefore ⊢
      exact hbefore
    · have hnumber : q.number ≠ n d := by
        intro heq
        exact hnew (by cases q; simp_all)
      have hiff : q.number < n d + 1 ↔ q.number < n d := by omega
      simp only [List.count_nil, hd] at hbefore
      simp only [hd, Function.update_self, hiff, List.count_singleton, beq_iff_eq,
        if_neg (Ne.symm hnew)]
      exact hbefore
  · have hother : q ≠ ⟨d, n d⟩ := fun heq => hd (congrArg SnullPacket.dev heq)
    simp only [List.count_nil] at hbefore
    simp only [Function.update_of_ne hd, List.count_singleton, beq_iff_eq, if_neg (Ne.symm hother)]
    exact hbefore

/-- What setting up the pool of `d` leaves alone. -/
theorem setupPool_spec (d : NetDev) (k : ℕ) (s : Net) :
    (∃ ppool, (snullSetupPool d k s).dev d = { s.dev d with ppool := ppool } ∧
      (0 < k → ppool ≠ none)) ∧
    ∀ e, e ≠ d → (snullSetupPool d k s).dev e = s.dev e := by
  induction k with
  | zero =>
      refine ⟨⟨none, set_dev _ _ _, by simp⟩, ?_⟩
      intro e he
      exact set_dev_of_ne he _ _
  | succ k ih =>
      obtain ⟨⟨ppool, hdev, _⟩, hother⟩ := ih
      refine ⟨⟨some ⟨d, k⟩, ?_, by simp⟩, ?_⟩
      · simp only [snullSetupPool, pushPool, set_dev, hdev]
      · intro e he
        rw [← hother e he]
        exact set_dev_of_ne he _ _

theorem kept_setupPool (h : Kept n s []) (hn : n d = 0) (hpool : (s.dev d).ppool = none) (k : ℕ) :
    Kept (Function.update n d k) (snullSetupPool d k s) [] := by
  induction k with
  | zero =>
      have hsame : Function.update n d 0 = n :=
        (congrArg (Function.update n d) hn).symm.trans (Function.update_eq_self d n)
      rw [hsame]
      have hset : Kept n (s.set d { s.dev d with ppool := none }) [] := by
        refine kept_set h ?_ ?_
        · exact hpool.symm
        · rfl
      exact hset
  | succ k ih =>
      have hnew := kept_create ih d
      rw [Function.update_self, Function.update_idem] at hnew
      exact kept_pushPool hnew

theorem kept_init (next : SnullPacket → Option SnullPacket) (data : SnullPacket → Frame)
    (n : NetDev → ℕ) : Kept n (init next data n) [] := by
  have hbase : Kept (fun _ => 0) ⟨fun _ => opened, next, data⟩ [] := by
    refine ⟨fun _ => [], fun _ => [], fun _ => rfl, fun _ => rfl, by simp, ?_⟩
    intro q
    simp [occurs]
  have hfirst := kept_setupPool (d := .sn0) hbase rfl rfl (n .sn0)
  have hother := (setupPool_spec .sn0 (n .sn0) ⟨fun _ => opened, next, data⟩).2 .sn1 (by decide)
  have hsecond := kept_setupPool (d := .sn1) hfirst rfl (by rw [hother]; rfl) (n .sn1)
  have hn : Function.update (Function.update (fun _ => 0) .sn0 (n .sn0)) .sn1 (n .sn1) = n := by
    funext d
    cases d <;> rfl
  rw [hn] at hsecond
  exact hsecond

/-- Before the first transmission, a device has its pool and nothing else. -/
theorem init_dev (next : SnullPacket → Option SnullPacket) (data : SnullPacket → Frame)
    (n : NetDev → ℕ) (d : NetDev) :
    ∃ ppool, (init next data n).dev d = { opened with ppool := ppool } ∧
      (0 < n d → ppool ≠ none) := by
  have hfirst := setupPool_spec .sn0 (n .sn0) ⟨fun _ => opened, next, data⟩
  have hsecond := setupPool_spec .sn1 (n .sn1)
    (snullSetupPool .sn0 (n .sn0) ⟨fun _ => opened, next, data⟩)
  cases d with
  | sn0 =>
      unfold init
      rw [hsecond.2 .sn0 (by decide)]
      exact hfirst.1
  | sn1 =>
      unfold init
      rw [hfirst.2 .sn1 (by decide)] at hsecond
      exact hsecond.1

theorem kept_hands_init (next : SnullPacket → Option SnullPacket) (data : SnullPacket → Frame)
    (n : NetDev → ℕ) : Kept n (init next data n) (hands (init next data n)) := by
  refine kept_recount (kept_init next data n) ?_
  obtain ⟨ppool₀, hdev₀, _⟩ := init_dev next data n .sn0
  obtain ⟨ppool₁, hdev₁, _⟩ := init_dev next data n .sn1
  intro q
  simp only [hands, hdev₀, hdev₁]
  rfl

end Loading

/-- In every run each packet that has been created is in one place: its pool, a receive
queue, or the hands of a transmission or of a receive path. In every run of two devices
with at least one packet each, in which a queue is only woken with a packet in its pool,
no transmission finds an empty pool. -/
theorem pool_conserved {p : Params} {n : NetDev → ℕ} {next : SnullPacket → Option SnullPacket}
    {data : SnullPacket → Frame} {as : List Act} {s : Net}
    (hr : run (step p) (init next data n) as = some s) :
    Kept n s (hands s) ∧
      ((∀ d, 0 < n d) → Along (step p) WakesStocked (init next data n) as →
        Along (step p) FindsPacket (init next data n) as) := by
  constructor
  · have hstep : ∀ s a s', Kept n s (hands s) → step p s a = some s' → Kept n s' (hands s') := by
      rintro s a s' h hs
      obtain ⟨hg, rfl⟩ := guarded_eq_some.mp hs
      exact kept_step h hg
    exact run_invariant hstep (kept_hands_init next data n) hr
  · intro hn hq
    refine along_of_invariant Stocked
      (P := fun s a => WakesStocked s a ∧ (step p s a).isSome = true)
      ?_ ?_ ?_ (along_and hq (along_enabled hr))
    · rintro s a h ⟨_, henabled⟩
      obtain ⟨s', hs⟩ := Option.isSome_iff_exists.mp henabled
      exact stocked_finds h (guarded_eq_some.mp hs).1
    · rintro s a s' h ⟨hq, _⟩ hs
      obtain ⟨hg, rfl⟩ := guarded_eq_some.mp hs
      exact stocked_step h hq hg
    · intro d _
      obtain ⟨ppool, hdev, hpos⟩ := init_dev next data n d
      rw [hdev]
      exact hpos (hn d)

/-! ## Pools of one packet -/

/-- Both devices with one packet. -/
def onePacket : Net := init (fun _ => none) (fun _ => []) fun _ => 1

def only : SnullPacket := ⟨.sn0, 0⟩

/-- The transmission of a frame, up to the interrupt of the peer. -/
def send (frame : Frame) : List Act :=
  [.snullTx .sn0 frame, .getTxBuffer .sn0 frame, .copyFrame .sn0 only frame, .enqueueBuf .sn0 only,
    .testRxInt .sn0, .raiseRx .sn0, .loadStatus .sn0 .receive,
    .handle .sn0 .receive ⟨true, false⟩ true]

/-- The rest of a transmission. -/
def sent : List Act :=
  [.raiseTx .sn0, .decide .sn0, .loadStatus .sn0 .transmit,
    .handle .sn0 .transmit ⟨false, true⟩ true]

/-- In interrupt mode, the peer's interrupt gives the only packet back, and wakes the queue. -/
def sendAndRelease : List Act :=
  send [7] ++ [.push (.tx .sn0) only, .checkQueue (.tx .sn0) only, .peekNext (.tx .sn0) only,
    .wakeQueue (.tx .sn0) only] ++ sent

theorem pool_conserved_one_packet : ∃ s,
    run (step ⟨false, 0⟩) onePacket sendAndRelease = some s ∧ (s.dev .sn1).stack = [[7]] ∧
      Kept (fun _ => 1) s (hands s) ∧
        Along (step ⟨false, 0⟩) FindsPacket onePacket sendAndRelease := by
  refine ⟨_, rfl, rfl, ?_⟩
  have h := pool_conserved (p := ⟨false, 0⟩) (n := fun _ => 1)
    (show run _ onePacket sendAndRelease = some _ from rfl)
  exact ⟨h.1, h.2 (fun _ => Nat.one_pos) (by decide)⟩

/-- In NAPI mode the packet waits for the poll of the peer; a timeout of the stopped queue
comes first, and wakes it. -/
def wokenByTimeout : List Act :=
  send [7] ++ sent ++ [.txTimeout .sn0, .loadStatus .sn0 .timeout,
    .handle .sn0 .timeout ⟨false, true⟩ true, .restart .sn0, .snullTx .sn0 [8]]

/-- The next transmission finds the pool empty. -/
theorem pool_exhausted : ∃ s, run (step ⟨true, 0⟩) onePacket wokenByTimeout = some s ∧
    (step ⟨true, 0⟩ s (.getTxBuffer .sn0 [8])).isSome = true ∧
    ¬ FindsPacket s (.getTxBuffer .sn0 [8]) := by
  refine ⟨_, rfl, by decide, ?_⟩
  intro hfinds
  exact hfinds rfl

end Net

end Snull
