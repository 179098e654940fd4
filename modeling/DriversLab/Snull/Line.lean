import DriversLab.Snull.Napi

/-!
# Snull.Line — the frames on their way through a receiver

A device hands frames on to the stack, holds one in the hands of its poll, and has others
on its receive queue. In that order they are its line, which the transmissions of its peer
make longer: `snull_enqueue_buf` puts a packet in front of those that are waiting.

* `line`: the frames of a device, from the first that it has handed on;
* `Books`: what a device has been given to transmit, of which all but the frame under way
  are in the line of its peer;
* `books_step`: no step changes the line, but for that which puts a packet on the queue.
-/

namespace Snull

open Linked

/-- The packet that a poll has taken from the queue and not yet handed on. -/
def Poll.held : Poll → List SnullPacket
  | holding pkt _ _ => [pkt]
  | _ => []

/-- The frame that a transmission has been given and has not yet put on the queue; there is
no saying after a null pointer. -/
def Tx.carried (data : SnullPacket → Frame) : Tx → Option (List Frame)
  | started frame | taken _ frame => some [frame]
  | copied pkt => some [data pkt]
  | oopsed => none
  | _ => some []

@[simp] theorem Tx.carried_resume (data : SnullPacket → Frame) (caller : Caller) :
    caller.resume.carried data = some [] := by
  cases caller <;> rfl

namespace Net

/-- The history: the frames that `d` has been given to transmit. -/
def transmitted (d : NetDev) (_ : Net) (a : Act) (sent : List Frame) : List Frame :=
  match a with
  | .snullTx k frame => if k = d then sent ++ [frame] else sent
  | _ => sent

/-- There is memory for a received packet. -/
def Allocates : Act → Prop
  | .handle _ _ _ alloc | .pollReceive _ _ _ _ alloc => alloc = true
  | _ => True

instance : ∀ a, Decidable (Allocates a)
  | .handle _ _ _ _ | .pollReceive _ _ _ _ _ => inferInstanceAs (Decidable (_ = _))
  | .snullTx _ _ | .getTxBuffer _ _ | .copyFrame _ _ _ | .enqueueBuf _ _ | .testRxInt _
  | .raiseRx _ | .loadStatus _ _ | .raiseTx _ | .decide _ | .txTimeout _ | .restart _
  | .push _ _ | .checkQueue _ _ | .peekNext _ _ | .wakeQueue _ _ | .snullPoll _ _
  | .testQueue _ _ _ | .dequeueBuf _ _ _ | .testEmpty _ | .rxComplete _
  | .rxIntsOn _ => inferInstanceAs (Decidable True)

/-- What the device `e` has handed on, and what it has in the hands of its poll. -/
def front (s : Net) (e : NetDev) : List Frame :=
  (s.dev e).stack ++ (s.dev e).poll.held.map s.data

/-- With the packets of `q` on the queue of `e`. -/
def line (s : Net) (e : NetDev) (q : List SnullPacket) : List Frame := s.front e ++ q.map s.data

/-- The packets of `q` are on the queue of the peer of `d`, and `d` has put the frames of
`sent` there, in that order. -/
structure Books (d : NetDev) (c : Net × List Frame) (q : List SnullPacket)
    (sent : List Frame) : Prop where
  chain : Chain c.1.next (c.1.dev d.peer).rxQueue q
  sent : ∀ l, (c.1.dev d).tx.carried c.1.data = some l → c.2 = sent ++ l

/-- The line is as it was in `s`, with no more packets on the queue than in `q`. -/
def Flows (d : NetDev) (s : Net) (q : List SnullPacket) (sent : List Frame)
    (c : Net × List Frame) : Prop :=
  ∃ q' : List SnullPacket, q'.length ≤ q.length ∧ Books d c q' sent ∧
    c.1.line d.peer q' = s.line d.peer q

/-! ## Packets that are apart -/

section Apart

variable {p : Params} {n : NetDev → ℕ} {s : Net} {d e : NetDev} {pkt : SnullPacket}
  {q loose : List SnullPacket}

/-- A packet in somebody's hands is on no queue. -/
theorem not_queued_of_loose (h : Kept n s (pkt :: loose)) (hq : Chain s.next (s.dev e).rxQueue q) :
    pkt ∉ q := by
  obtain ⟨pool, queue, _, hqueue, _, hcount⟩ := h
  rw [chain_unique hq (hqueue e)]
  exact (not_mem_of_loose hcount e).2

/-- Nobody else has it. -/
theorem count_hands_le (h : Kept n s (hands s)) (pkt : SnullPacket) :
    (hands s).count pkt ≤ 1 := by
  obtain ⟨pool, queue, _, _, _, hcount⟩ := h
  have hone := hcount pkt
  have hle : (if pkt.number < n pkt.dev then 1 else 0) ≤ 1 := by split <;> decide
  omega

theorem loose_of_hands (h : Kept n s (hands s)) (hmem : pkt ∈ hands s) :
    ∃ loose, Kept n s (pkt :: loose) := by
  refine ⟨(hands s).erase pkt, kept_recount h ?_⟩
  intro k
  exact (List.perm_cons_erase hmem).symm.count_eq k

theorem not_queued_of_hands (h : Kept n s (hands s)) (hmem : pkt ∈ hands s)
    (hq : Chain s.next (s.dev e).rxQueue q) : pkt ∉ q := by
  obtain ⟨loose, hloose⟩ := loose_of_hands h hmem
  exact not_queued_of_loose hloose hq

theorem mem_hands (hmem : pkt ∈ (s.dev d).hands) : pkt ∈ hands s := by
  cases d with
  | sn0 => exact List.mem_append_left _ hmem
  | sn1 => exact List.mem_append_right _ hmem

theorem mem_hands_tx (hmem : pkt ∈ (s.dev d).tx.hands) : pkt ∈ hands s :=
  mem_hands (List.mem_append_left _ hmem)

theorem mem_hands_poll (hmem : pkt ∈ (s.dev d).poll.receiving) : pkt ∈ hands s :=
  mem_hands (List.mem_append_right _ hmem)

/-- A transmission and a poll have different packets. -/
theorem not_mem_receiving (h : Kept n s (hands s)) (hmem : pkt ∈ (s.dev d).tx.hands)
    (e : NetDev) : pkt ∉ (s.dev e).poll.receiving := by
  intro hpoll
  have hle := count_hands_le h pkt
  have htx := List.count_pos_iff.mpr hmem
  have hrx := List.count_pos_iff.mpr hpoll
  unfold hands Device.hands at hle
  cases d <;> cases e <;> simp only [List.count_append] at hle <;> omega

/-- Two transmissions have different packets. -/
theorem not_mem_sending (h : Kept n s (hands s)) (hmem : pkt ∈ (s.dev d).tx.hands)
    (hne : e ≠ d) : pkt ∉ (s.dev e).tx.hands := by
  intro hother
  have hle := count_hands_le h pkt
  have htx := List.count_pos_iff.mpr hmem
  have hrx := List.count_pos_iff.mpr hother
  unfold hands Device.hands at hle
  cases d <;> cases e <;> simp only [List.count_append] at hle <;> first | omega | contradiction

theorem held_subset (poll : Poll) : poll.held ⊆ poll.receiving := by
  cases poll <;> simp [Poll.held, Poll.receiving]

end Apart

/-! ## Steps that move no frame -/

section Moves

variable {p : Params} {n : NetDev → ℕ} {s s' s'' : Net} {d e : NetDev} {pkt : SnullPacket}
  {q : List SnullPacket} {v : Device} {sent total : List Frame}

/-- No frame moves. -/
structure SamePath (s s' : Net) : Prop where
  next : s'.next = s.next
  data : s'.data = s.data
  queue : ∀ k, (s'.dev k).rxQueue = (s.dev k).rxQueue
  stack : ∀ k, (s'.dev k).stack = (s.dev k).stack
  held : ∀ k, (s'.dev k).poll.held = (s.dev k).poll.held
  carried : ∀ k, (s'.dev k).tx.carried s.data = (s.dev k).tx.carried s.data

theorem samePath_refl (s : Net) : SamePath s s :=
  ⟨rfl, rfl, fun _ => rfl, fun _ => rfl, fun _ => rfl, fun _ => rfl⟩

theorem samePath_trans (h : SamePath s s') (h' : SamePath s' s'') : SamePath s s'' := by
  constructor
  · exact h'.next.trans h.next
  · exact h'.data.trans h.data
  · exact fun k => (h'.queue k).trans (h.queue k)
  · exact fun k => (h'.stack k).trans (h.stack k)
  · exact fun k => (h'.held k).trans (h.held k)
  · intro k
    rw [← h.carried k, ← h.data]
    exact h'.carried k

theorem samePath_set (hqueue : v.rxQueue = (s.dev d).rxQueue) (hstack : v.stack = (s.dev d).stack)
    (hheld : v.poll.held = (s.dev d).poll.held)
    (hcarried : v.tx.carried s.data = (s.dev d).tx.carried s.data) : SamePath s (s.set d v) := by
  constructor
  · rfl
  · rfl
  · exact set_field_same Device.rxQueue hqueue
  · exact set_field_same Device.stack hstack
  · exact set_field_same (fun v => v.poll.held) hheld
  · exact set_field_same (fun v => v.tx.carried s.data) hcarried

theorem samePath_txAt {tx : Tx} (h : tx.carried s.data = (s.dev d).tx.carried s.data) :
    SamePath s (s.txAt d tx) :=
  samePath_set rfl rfl rfl h

theorem samePath_pollAt {poll : Poll} (h : poll.held = (s.dev d).poll.held) :
    SamePath s (s.pollAt d poll) :=
  samePath_set rfl rfl h rfl

theorem samePath_proceed (r : Option Release) (who : Who) : SamePath s (s.proceed r who) := by
  cases who with
  | tx d =>
      simp only [proceed]
      split
      · rename_i r₀ caller hw
        refine samePath_txAt ?_
        rw [hw]
        cases r with
        | none => exact Tx.carried_resume _ _
        | some r => rfl
      · exact samePath_refl s
  | poll d =>
      simp only [proceed]
      split
      · rename_i r₀ k quota hw
        refine samePath_pollAt ?_
        rw [hw]
        cases r <;> rfl
      · exact samePath_refl s

theorem samePath_napiInterrupt (s : Net) (e : NetDev) (w : Status) :
    SamePath s (s.snullNapiInterrupt e w) := by
  unfold snullNapiInterrupt countTx
  refine samePath_set ?_ ?_ ?_ ?_
  all_goals
    cases w.rxIntr <;> cases w.txIntr <;> rfl

theorem line_samePath (h : SamePath s s') (e : NetDev) (q : List SnullPacket) :
    s'.line e q = s.line e q := by
  unfold line front
  rw [h.stack, h.held, h.data]

theorem books_samePath (hb : Books d (s, total) q sent) (h : SamePath s s') :
    Books d (s', total) q sent := by
  constructor
  · show Chain s'.next (s'.dev d.peer).rxQueue q
    rw [h.next, h.queue]
    exact hb.chain
  · intro l hl
    refine hb.sent l ?_
    rw [← h.carried d, ← h.data]
    exact hl

end Moves

/-! ## Steps that do -/

section Frames

variable {p : Params} {n : NetDev → ℕ} {s : Net} {d e k : NetDev} {pkt : SnullPacket}
  {q : List SnullPacket} {v : Device} {sent total total' : List Frame} {frame : Frame}

theorem line_set (hstack : v.stack = (s.dev k).stack) (hheld : v.poll.held = (s.dev k).poll.held)
    (e : NetDev) (q : List SnullPacket) : (s.set k v).line e q = s.line e q := by
  have hs := set_field_same Device.stack hstack e
  have hh := set_field_same (fun v => v.poll.held) hheld e
  simp only [line, front, set_data, hs, hh]

/-- The transmit side of a device moves; no queue does. -/
theorem books_set (hb : Books d (s, total) q sent) (hqueue : v.rxQueue = (s.dev k).rxQueue)
    (hown : k = d → ∀ l, v.tx.carried s.data = some l → total' = sent ++ l)
    (hother : k ≠ d → total' = total) : Books d (s.set k v, total') q sent := by
  constructor
  · show Chain s.next ((s.set k v).dev d.peer).rxQueue q
    rw [set_field_same Device.rxQueue hqueue]
    exact hb.chain
  · intro l hl
    by_cases hk : k = d
    · subst hk
      exact hown rfl l (by simpa using hl)
    · rw [hother hk]
      refine hb.sent l ?_
      simpa [set_dev_of_ne (Ne.symm hk)] using hl

@[simp] theorem txAt_rxQueue (s : Net) (k : NetDev) (tx : Tx) (e : NetDev) :
    ((s.txAt k tx).dev e).rxQueue = (s.dev e).rxQueue := by
  unfold txAt
  exact set_field_same Device.rxQueue (v := { s.dev k with tx := tx }) rfl e

@[simp] theorem txAt_data (s : Net) (k : NetDev) (tx : Tx) : (s.txAt k tx).data = s.data := rfl

@[simp] theorem txAt_tx (s : Net) (k : NetDev) (tx : Tx) : ((s.txAt k tx).dev k).tx = tx := by
  simp [txAt]

theorem txAt_dev_of_ne (h : e ≠ k) (s : Net) (tx : Tx) : (s.txAt k tx).dev e = s.dev e :=
  set_dev_of_ne h _ _

theorem line_txAt (s : Net) (k : NetDev) (tx : Tx) (e : NetDev) (q : List SnullPacket) :
    (s.txAt k tx).line e q = s.line e q := by
  refine line_set ?_ ?_ e q
  · rfl
  · rfl

theorem books_snullTx (hb : Books d (s, total) q sent) (hw : (s.dev k).tx = .idle) :
    Books d (s.txAt k (.started frame), transmitted d s (.snullTx k frame) total) q sent := by
  refine books_set hb rfl ?_ ?_
  · rintro rfl l hl
    cases hl
    have hidle := hb.sent [] (by simp [hw, Tx.carried])
    simp only [transmitted, if_true]
    simpa using hidle
  · intro hne
    simp [transmitted, hne]

theorem books_getTxBuffer (hb : Books d (s, total) q sent) (hw : (s.dev k).tx = .started frame) :
    Books d (s.snullGetTxBuffer k frame, total) q sent := by
  simp only [snullGetTxBuffer]
  split
  · exact books_set hb rfl (by simp [Tx.carried]) (fun _ => rfl)
  · refine books_set hb rfl ?_ (fun _ => rfl)
    rintro rfl l hl
    refine hb.sent l ?_
    rw [hw]
    exact hl

theorem line_getTxBuffer (s : Net) (k : NetDev) (frame : Frame) (e : NetDev)
    (q : List SnullPacket) : (s.snullGetTxBuffer k frame).line e q = s.line e q := by
  simp only [snullGetTxBuffer]
  split
  · exact line_txAt s k .oopsed e q
  · refine line_set ?_ ?_ e q
    · rfl
    · rfl

/-- The copy goes into a packet that nobody else has. -/
theorem map_copyFrame (hq : pkt ∉ q) : q.map (Function.update s.data pkt frame) = q.map s.data := by
  refine List.map_congr_left ?_
  intro r hr
  refine Function.update_of_ne ?_ _ _
  rintro rfl
  exact hq hr

theorem line_copyFrame (hk : Kept n s (hands s)) (hw : (s.dev k).tx = .taken pkt frame)
    (hq : Chain s.next (s.dev e).rxQueue q) :
    (update p s (.copyFrame k pkt frame)).line e q = s.line e q := by
  have hmem : pkt ∈ (s.dev k).tx.hands := by simp [hw]
  have hheld : pkt ∉ (s.dev e).poll.held := fun hin =>
    not_mem_receiving hk hmem e (held_subset _ hin)
  have hqueue := not_queued_of_hands hk (mem_hands_tx hmem) hq
  simp only [update, line_txAt]
  simp only [line, front, map_copyFrame hheld, map_copyFrame hqueue]

theorem books_copyFrame (hk : Kept n s (hands s)) (hw : (s.dev k).tx = .taken pkt frame)
    (hb : Books d (s, total) q sent) :
    Books d (update p s (.copyFrame k pkt frame), total) q sent := by
  have hmem : pkt ∈ (s.dev k).tx.hands := by simp [hw]
  constructor
  · show Chain s.next
      (({ s with data := Function.update s.data pkt frame }.txAt k (.copied pkt)).dev
        d.peer).rxQueue q
    rw [txAt_rxQueue]
    exact hb.chain
  · intro l hl
    by_cases hkd : k = d
    · subst hkd
      refine hb.sent l ?_
      rw [hw]
      simpa [update, Tx.carried] using hl
    · -- `d` transmits another packet
      refine hb.sent l ?_
      have hother := not_mem_sending hk hmem (Ne.symm hkd)
      simp only [update, txAt_dev_of_ne (Ne.symm hkd), txAt_data] at hl
      rw [← hl]
      cases htx : (s.dev d).tx with
      | copied r =>
          have hne : r ≠ pkt := by
            rintro rfl
            exact hother (by simp [htx, Tx.hands, Tx.sending])
          simp only [Tx.carried, Function.update_of_ne hne]
      | _ => rfl

/-- The packet that `d` puts on the queue of its peer goes in front of the others. -/
theorem books_enqueueBuf (hk : Kept n s (hands s)) (hw : (s.dev d).tx = .copied pkt)
    (hb : Books d (s, total) q sent) :
    Books d (update p s (.enqueueBuf d pkt), total) (pkt :: q) (sent ++ [s.data pkt]) := by
  have hmem : pkt ∈ (s.dev d).tx.hands := by simp [hw, Tx.hands, Tx.sending]
  have hfree := not_queued_of_hands hk (mem_hands_tx hmem) hb.chain
  constructor
  · show Chain (Function.update s.next pkt (s.dev d.peer).rxQueue)
      (((s.snullEnqueueBuf d.peer pkt).txAt d .enqueued).dev d.peer).rxQueue (pkt :: q)
    rw [txAt_rxQueue, snullEnqueueBuf, set_dev]
    exact chain_push hb.chain hfree
  · intro l hl
    have hcarried : l = [] := by simpa [update, Tx.carried] using hl.symm
    subst hcarried
    rw [List.append_nil]
    exact hb.sent [s.data pkt] (by rw [hw]; rfl)

theorem line_enqueueBuf (s : Net) (k e : NetDev) (pkt : SnullPacket) (q : List SnullPacket) :
    (update p s (.enqueueBuf k pkt)).line e q = s.line e q := by
  simp only [update, line_txAt, snullEnqueueBuf]
  have hlink : line { s with next := Function.update s.next pkt (s.dev k.peer).rxQueue } e q =
    s.line e q := rfl
  rw [← hlink]
  refine line_set ?_ ?_ e q
  · rfl
  · rfl

/-- The packets that the peer puts on the queue of `d` are no concern of its own. -/
theorem books_enqueueBuf_peer (hk : Kept n s (hands s)) (hw : (s.dev d.peer).tx = .copied pkt)
    (hb : Books d (s, total) q sent) :
    Books d (update p s (.enqueueBuf d.peer pkt), total) q sent := by
  have hmem : pkt ∈ (s.dev d.peer).tx.hands := by simp [hw, Tx.hands, Tx.sending]
  have hfree := not_queued_of_hands hk (mem_hands_tx hmem) hb.chain
  have hpeer := peer_peer d
  constructor
  · show Chain (Function.update s.next pkt (s.dev d.peer.peer).rxQueue)
      (((s.snullEnqueueBuf d.peer.peer pkt).txAt d.peer .enqueued).dev d.peer).rxQueue q
    rw [txAt_rxQueue, snullEnqueueBuf, hpeer, set_dev_of_ne (Ne.symm (peer_ne d))]
    exact chain_update hb.chain hfree _
  · intro l hl
    refine hb.sent l ?_
    rw [← hl]
    simp only [update, txAt_dev_of_ne (peer_ne d), txAt_data, snullEnqueueBuf, hpeer, set_dev,
      set_data]

/-! ### Packets that are received -/

/-- What `pushPool` writes is of no queue. -/
theorem books_pushPool (hfree : pkt ∉ q) (hb : Books d (s, total) q sent) :
    Books d (s.pushPool pkt, total) q sent := by
  have hlink : Books d
      ({ s with next := Function.update s.next pkt (s.dev pkt.dev).ppool }, total) q sent := by
    constructor
    · exact chain_update hb.chain hfree _
    · exact hb.sent
  refine books_set hlink ?_ ?_ (fun _ => rfl)
  · rfl
  · intro hd
    exact hd ▸ hlink.sent

theorem line_pushPool (s : Net) (pkt : SnullPacket) (e : NetDev) (q : List SnullPacket) :
    (s.pushPool pkt).line e q = s.line e q := by
  have hlink : line { s with next := Function.update s.next pkt (s.dev pkt.dev).ppool } e q =
    s.line e q := rfl
  rw [← hlink]
  refine line_set ?_ ?_ e q
  · rfl
  · rfl

/-- The packet that a releasing party is about to put back. -/
theorem mem_hands_pushing {who : Who} (hrel : s.releasing who = some (.pushing pkt)) :
    pkt ∈ hands s := by
  cases who with
  | tx d =>
      simp only [releasing] at hrel
      split at hrel
      · rename_i r caller hw
        cases hrel
        exact mem_hands_tx (d := d) (by simp [hw, Release.hands])
      · cases hrel
  | poll d =>
      simp only [releasing] at hrel
      split at hrel
      · rename_i r k quota hw
        cases hrel
        exact mem_hands_poll (d := d) (by simp [hw, Release.hands])
      · cases hrel

/-- The first packet of the queue is taken off, and the line closes up behind it. -/
theorem books_pop (hb : Books d (s, total) q sent) (hsome : (s.dev d.peer).rxQueue = some pkt)
    (hqueue : v.rxQueue = s.next pkt) :
    ∃ rest, q = pkt :: rest ∧ Books d (s.set d.peer v, total) rest sent := by
  have hchain : Chain s.next (s.dev d.peer).rxQueue q := hb.chain
  rw [hsome] at hchain
  obtain ⟨rest, hq, hrest⟩ := chain_cons hchain
  refine ⟨rest, hq, ?_⟩
  constructor
  · show Chain s.next ((s.set d.peer v).dev d.peer).rxQueue rest
    rw [set_dev, hqueue]
    exact hrest
  · intro l hl
    refine hb.sent l ?_
    rw [← hl]
    simp only [set_dev_of_ne (peer_ne d), set_data]

/-- A device other than the receiver takes a packet off its queue, or hands one on. -/
theorem books_elsewhere (hk : k = d) (hb : Books d (s, total) q sent)
    (hcarried : v.tx.carried s.data = (s.dev k).tx.carried s.data) :
    Books d (s.set k v, total) q sent := by
  subst hk
  constructor
  · show Chain s.next ((s.set k v).dev k.peer).rxQueue q
    rw [set_dev_of_ne (Ne.symm (peer_ne k))]
    exact hb.chain
  · intro l hl
    refine hb.sent l ?_
    rw [← hcarried, ← hl]
    simp only [set_dev, set_data]

theorem line_elsewhere (hk : k = d) (s : Net) (v : Device) (q : List SnullPacket) :
    (s.set k v).line d.peer q = s.line d.peer q := by
  subst hk
  simp only [line, front, set_dev_of_ne (Ne.symm (peer_ne k)), set_data]

theorem flows_samePath {s' : Net} (hb : Books d (s, total) q sent) (h : SamePath s s') :
    Flows d s q sent (s', total) :=
  ⟨q, le_refl _, books_samePath hb h, line_samePath h d.peer q⟩

theorem flows_then {s' s'' : Net} (hf : Flows d s q sent (s', total)) (h : SamePath s' s'') :
    Flows d s q sent (s'', total) := by
  obtain ⟨q', hle, hb, hline⟩ := hf
  exact ⟨q', hle, books_samePath hb h, (line_samePath h d.peer q').trans hline⟩

theorem eq_or_eq_peer (k d : NetDev) : k = d ∨ k = d.peer := by
  cases k <;> cases d <;> simp [NetDev.peer]

theorem flows_dequeueBuf {m quota : ℕ} (hw : (s.dev k).poll = .fetching m quota)
    (hb : Books d (s, total) q sent) :
    Flows d s q sent (s.snullDequeueBuf k m quota, total) := by
  cases hsome : (s.dev k).rxQueue with
  | none =>
      simp only [snullDequeueBuf, hsome]
      refine flows_samePath hb (samePath_pollAt ?_)
      rw [hw]
      rfl
  | some pkt =>
      simp only [snullDequeueBuf, hsome]
      rcases eq_or_eq_peer k d with hk | rfl
      · exact ⟨q, le_refl _, books_elsewhere hk hb rfl, line_elsewhere hk s _ q⟩
      · -- the packet goes from the queue to the hands of the poll
        obtain ⟨rest, rfl, hrest⟩ := books_pop (v := { s.dev d.peer with
          rxQueue := s.next pkt, poll := .holding pkt m quota }) hb hsome rfl
        refine ⟨rest, by simp, hrest, ?_⟩
        simp [line, front, hw, Poll.held]

theorem flows_pollReceive {m quota : ℕ} (hw : (s.dev k).poll = .holding pkt m quota)
    (hb : Books d (s, total) q sent) :
    Flows d s q sent (update p s (.pollReceive k pkt m quota true), total) := by
  simp only [update, handOn, if_true]
  rcases eq_or_eq_peer k d with hk | rfl
  · exact ⟨q, le_refl _, books_elsewhere hk hb rfl, line_elsewhere hk s _ q⟩
  · -- the packet goes from the hands of the poll to the stack
    refine ⟨q, le_refl _, ?_, ?_⟩
    · refine books_set hb ?_ ?_ (fun _ => rfl)
      · rfl
      · intro hpeer
        exact absurd hpeer.symm (peer_ne d)
    · simp [line, front, hw, Poll.held]

/-- What the regular handler does with frames, and what it leaves alone. -/
theorem regularInterrupt_frames (s : Net) (e : NetDev) (w : Status) :
    ∃ v, (s.snullRegularInterrupt e w true).1 = s.set e v ∧ Untouched (s.dev e) v ∧
      (v.rxIntEnabled = (s.dev e).rxIntEnabled ∧ v.scheduled = (s.dev e).scheduled) ∧
      ((v.rxQueue = (s.dev e).rxQueue ∧ v.stack = (s.dev e).stack ∧
          (w.rxIntr = true → (s.dev e).rxQueue = none)) ∨
        ∃ pkt, (s.dev e).rxQueue = some pkt ∧ v.rxQueue = s.next pkt ∧
          v.stack = (s.dev e).stack ++ [s.data pkt]) := by
  cases hpkt : (if w.rxIntr then (s.dev e).rxQueue else none) with
  | none =>
      simp only [snullRegularInterrupt, hpkt, countTx]
      refine ⟨_, rfl, ⟨?_, ?_, ?_, ?_⟩, ⟨?_, ?_⟩, Or.inl ⟨?_, ?_, ?_⟩⟩
      -- no packet, though there is a receive interrupt
      case refine_9 =>
        intro hrx
        simpa [hrx] using hpkt
      all_goals
        split <;> rfl
  | some pkt =>
      have hqueue : (s.dev e).rxQueue = some pkt := by
        split at hpkt
        · exact hpkt
        · cases hpkt
      simp only [snullRegularInterrupt, hpkt, countTx, handOn, if_true]
      refine ⟨_, rfl, ⟨?_, ?_, ?_, ?_⟩, ⟨?_, ?_⟩, Or.inr ⟨pkt, hqueue, ?_, ?_⟩⟩
      all_goals
        split <;> rfl

theorem flows_regularInterrupt (hheld : (s.dev d.peer).poll.held = [])
    (hb : Books d (s, total) q sent) (e : NetDev) (w : Status) :
    Flows d s q sent ((s.snullRegularInterrupt e w true).1, total) := by
  obtain ⟨v, hset, huntouched, _, hcase⟩ := regularInterrupt_frames s e w
  rw [hset]
  rcases eq_or_eq_peer e d with he | rfl
  · refine ⟨q, le_refl _, books_elsewhere he hb ?_, line_elsewhere he s v q⟩
    rw [huntouched.tx]
  · rcases hcase with ⟨hqueue, hstack, _⟩ | ⟨pkt, hsome, hqueue, hstack⟩
    · refine flows_samePath hb (samePath_set hqueue hstack ?_ ?_)
      · rw [huntouched.poll]
      · rw [huntouched.tx]
    · -- the packet goes from the queue to the stack
      obtain ⟨rest, rfl, hrest⟩ := books_pop hb hsome hqueue
      refine ⟨rest, by simp, hrest, ?_⟩
      simp [line, front, huntouched.poll, hheld, hstack]

theorem flows_handle {caller : Caller} {w : Status} (hw : (s.dev k).tx = .inside caller w)
    (hheld : p.useNapi = false → (s.dev d.peer).poll.held = [])
    (hb : Books d (s, total) q sent) :
    Flows d s q sent (update p s (.handle k caller w true), total) := by
  simp only [update]
  split
  · -- NAPI
    have hnapi := samePath_napiInterrupt s (caller.device k) w
    refine flows_samePath hb (samePath_trans hnapi (samePath_txAt ?_))
    rw [hnapi.data, hnapi.carried, hw, Tx.carried_resume]
    rfl
  · rename_i hmode
    refine flows_then (flows_regularInterrupt (hheld (by simpa using hmode)) hb
      (caller.device k) w) (samePath_txAt ?_)
    obtain ⟨v, hset, huntouched, _⟩ := regularInterrupt_frames s (caller.device k) w
    rw [hset, set_field_same Device.tx huntouched.tx, hw]
    cases (s.snullRegularInterrupt (caller.device k) w true).2 with
    | none => exact Tx.carried_resume _ _
    | some pkt => rfl

end Frames

/-! ## The step -/

section Step

variable {p : Params} {n : NetDev → ℕ} {s : Net} {d k : NetDev} {pkt : SnullPacket}
  {q : List SnullPacket} {sent total : List Frame}

theorem samePath_guarded_txAt {tx tx' : Tx} (hw : (s.dev k).tx = tx)
    (h : tx'.carried s.data = tx.carried s.data) : SamePath s (s.txAt k tx') :=
  samePath_txAt (by rw [hw, h])

theorem samePath_raiseRx (hw : (s.dev k).tx = .raising) :
    SamePath s (update p s (.raiseRx k)) := by
  have hraised := samePath_set (d := k.peer) (s := s)
    (v := { s.dev k.peer with status := { (s.dev k.peer).status with rxIntr := true } })
    rfl rfl rfl rfl
  refine samePath_trans hraised (samePath_txAt ?_)
  rw [set_dev_of_ne (peer_ne k), hw]
  rfl

theorem samePath_decide (hw : (s.dev k).tx = .deciding) :
    SamePath s (update p s (.decide k)) := by
  simp only [update]
  split
  · refine samePath_set rfl rfl rfl ?_
    rw [hw]
    rfl
  · exact samePath_guarded_txAt hw rfl

theorem flows_push {who : Who} (hk : Kept n s (hands s))
    (hrel : s.releasing who = some (.pushing pkt)) (hb : Books d (s, total) q sent) :
    Flows d s q sent (update p s (.push who pkt), total) := by
  have hfree := not_queued_of_hands hk (mem_hands_pushing hrel) hb.chain
  have hput : Flows d s q sent (s.pushPool pkt, total) :=
    ⟨q, le_refl _, books_pushPool hfree hb, line_pushPool s pkt d.peer q⟩
  exact flows_then hput (samePath_proceed _ who)

/-- The step that puts a packet of `d` on the queue aside, the line stays as it is. -/
theorem flows_step {a : Act} (hk : Kept n s (hands s)) (hg : guard s a) (ha : Allocates a)
    (hheld : p.useNapi = false → (s.dev d.peer).poll.held = [])
    (henq : ∀ pkt, a ≠ .enqueueBuf d pkt) (hb : Books d (s, total) q sent) :
    Flows d s q sent (update p s a, transmitted d s a total) := by
  cases a with
  | snullTx k frame =>
      -- on its way, and in no line yet
      exact ⟨q, le_refl _, books_snullTx hb hg.1, line_txAt s k _ d.peer q⟩
  | getTxBuffer k frame =>
      exact ⟨q, le_refl _, books_getTxBuffer hb hg.1, line_getTxBuffer s k frame d.peer q⟩
  | copyFrame k pkt frame =>
      -- into a packet that is in no line
      exact ⟨q, le_refl _, books_copyFrame hk hg hb, line_copyFrame (p := p) hk hg hb.chain⟩
  | enqueueBuf k pkt =>
      rcases eq_or_eq_peer k d with rfl | rfl
      · exact absurd rfl (henq pkt)
      · -- into the line of `d`, not that of its peer
        exact ⟨q, le_refl _, books_enqueueBuf_peer hk hg.1 hb,
          line_enqueueBuf (p := p) s d.peer d.peer pkt q⟩
  | testRxInt k =>
      refine flows_samePath hb (samePath_guarded_txAt hg ?_)
      split <;> rfl
  | raiseRx k => exact flows_samePath hb (samePath_raiseRx hg)
  | loadStatus k caller => exact flows_samePath hb (samePath_guarded_txAt hg.1 rfl)
  | handle k caller w alloc =>
      have halloc : alloc = true := ha
      subst halloc
      exact flows_handle hg hheld hb
  | raiseTx k =>
      refine flows_samePath hb (samePath_set rfl rfl rfl ?_)
      rw [show (s.dev k).tx = .signalling from hg]
      rfl
  | decide k => exact flows_samePath hb (samePath_decide hg)
  | txTimeout k =>
      refine flows_samePath hb (samePath_set rfl rfl rfl ?_)
      rw [hg.1]
      rfl
  | restart k =>
      refine flows_samePath hb (samePath_set rfl rfl rfl ?_)
      rw [show (s.dev k).tx = .restarting from hg]
      rfl
  -- a packet on its way back to the pool is on no queue
  | push who pkt => exact flows_push hk hg.1 hb
  | checkQueue who pkt => exact flows_samePath hb (samePath_proceed _ who)
  | peekNext who pkt => exact flows_samePath hb (samePath_proceed _ who)
  | wakeQueue who pkt =>
      refine flows_samePath hb (samePath_trans ?_ (samePath_proceed none who))
      exact samePath_set rfl rfl rfl rfl
  | snullPoll k quota =>
      refine flows_samePath hb (samePath_pollAt ?_)
      rw [hg.1]
      rfl
  | testQueue k m quota =>
      refine flows_samePath hb (samePath_pollAt ?_)
      rw [show (s.dev k).poll = .looping m quota from hg]
      split <;> rfl
  | dequeueBuf k m quota => exact flows_dequeueBuf hg.1 hb
  | pollReceive k pkt m quota alloc =>
      have halloc : alloc = true := ha
      subst halloc
      exact flows_pollReceive hg hb
  | testEmpty k =>
      refine flows_samePath hb (samePath_pollAt ?_)
      rw [show (s.dev k).poll = .finishing from hg]
      split <;> rfl
  | rxComplete k =>
      refine flows_samePath hb (samePath_set rfl rfl ?_ rfl)
      rw [show (s.dev k).poll = .completing from hg]
      rfl
  | rxIntsOn k => exact flows_samePath hb (samePath_set rfl rfl rfl rfl)

/-- What every step does to the line: a packet goes in between what has been handed on and
what is on the queue, or nothing happens to it. -/
theorem books_step {a : Act} (hk : Kept n s (hands s)) (hg : guard s a) (ha : Allocates a)
    (hheld : p.useNapi = false → (s.dev d.peer).poll.held = [])
    (hb : Books d (s, total) q sent) :
    (∃ pkt, a = .enqueueBuf d pkt ∧
      Books d (update p s a, transmitted d s a total) (pkt :: q) (sent ++ [s.data pkt]) ∧
      (update p s a).line d.peer (pkt :: q) =
        s.front d.peer ++ s.data pkt :: q.map s.data) ∨
      (∀ pkt, a ≠ .enqueueBuf d pkt) ∧
        Flows d s q sent (update p s a, transmitted d s a total) := by
  by_cases henq : ∃ pkt, a = .enqueueBuf d pkt
  · obtain ⟨pkt, rfl⟩ := henq
    refine Or.inl ⟨pkt, rfl, books_enqueueBuf hk hg.1 hb, ?_⟩
    rw [line_enqueueBuf]
    rfl
  · have hnot : ∀ pkt, a ≠ .enqueueBuf d pkt := fun pkt heq => henq ⟨pkt, heq⟩
    exact Or.inr ⟨hnot, flows_step hk hg ha hheld hnot hb⟩

end Step

end Net

end Snull
