import DriversLab.Snull.Line

/-!
# Snull.Direct — reception in interrupt mode

The transmission of a packet interrupts the peer before it returns, and the handler of that
interrupt takes the packet off the queue.

* `Direct`: a device that does not transmit, and the interrupt that is on its way to it;
* `directTo_step`: every step in which the device is not given anything to transmit keeps
  that.
-/

namespace Snull

open Linked

namespace Net

/-- Only `d` transmits. -/
def SentBy (d : NetDev) : Act → Prop
  | .snullTx k _ => k = d
  | _ => True

instance (d : NetDev) : ∀ a, Decidable (SentBy d a)
  | .snullTx _ _ => inferInstanceAs (Decidable (_ = _))
  | .getTxBuffer _ _ | .copyFrame _ _ _ | .enqueueBuf _ _ | .testRxInt _ | .raiseRx _
  | .loadStatus _ _ | .handle _ _ _ _ | .raiseTx _ | .decide _ | .txTimeout _ | .restart _
  | .push _ _ | .checkQueue _ _ | .peekNext _ _ | .wakeQueue _ _ | .snullPoll _ _
  | .testQueue _ _ _ | .dequeueBuf _ _ _ | .pollReceive _ _ _ _ _ | .testEmpty _
  | .rxComplete _ | .rxIntsOn _ => inferInstanceAs (Decidable True)

/-- A receiving device that does not transmit, and the transmission of its peer: an
interrupt is on its way to the packet that is on the queue. -/
structure Direct (v : Device) (tx : Tx) : Prop where
  idle : v.tx = .idle
  running : v.stopped = false
  enabled : v.rxIntEnabled = true
  unscheduled : v.scheduled = false
  unpolled : v.poll = .idle
  called : tx = .calling .receive → v.status.rxIntr = true
  loaded : ∀ w, tx.peerWord = some w → w.rxIntr = true
  served : v.rxQueue ≠ none → tx.quiet = false

section Interrupts

variable {p : Params} {s : Net} {d k : NetDev} {pkt : SnullPacket} {v : Device} {tx tx' : Tx}

theorem direct_quiet (h : Direct v tx) (hq : tx.quiet = true) (hq' : tx'.quiet = true) :
    Direct v tx' := by
  refine ⟨h.idle, h.running, h.enabled, h.unscheduled, h.unpolled, ?_, ?_, ?_⟩
  · intro hcalling
    exact absurd hcalling (not_calling_of_quiet hq').2.2.1
  · intro w hw
    rw [peerWord_of_quiet hq'] at hw
    cases hw
  · intro hne
    rw [h.served hne] at hq
    cases hq

/-- What the queue and the interrupts of a device are made of is the same. -/
theorem direct_alike {v' : Device} (h : Direct v tx) (hsame : SameRx v v') (htx : v'.tx = v.tx)
    (hstopped : v'.stopped = v.stopped) : Direct v' tx := by
  constructor
  · exact htx.trans h.idle
  · exact hstopped.trans h.running
  · exact hsame.rxIntEnabled.trans h.enabled
  · exact hsame.scheduled.trans h.unscheduled
  · exact hsame.poll.trans h.unpolled
  · exact fun hcalling => hsame.status.trans (h.called hcalling)
  · exact h.loaded
  · exact fun hne => h.served (hsame.rxQueue ▸ hne)

/-- The peer of `d` with the transmission of `d`. -/
def DirectTo (d : NetDev) (s : Net) : Prop := Direct (s.dev d.peer) (s.dev d).tx

theorem directTo_set (h : Direct (s.dev d.peer) v.tx) : DirectTo d (s.set d v) := by
  unfold DirectTo
  rw [set_dev, set_dev_of_ne (peer_ne d).symm]
  exact h

theorem directTo_set_peer (h : Direct v (s.dev d).tx) : DirectTo d (s.set d.peer v) := by
  unfold DirectTo
  rw [set_dev, set_dev_of_ne (peer_ne d)]
  exact h

/-- Only `d` has something to transmit. -/
theorem sender_eq (h : DirectTo d s) (hw : (s.dev k).tx = tx) (hne : tx ≠ .idle) : k = d := by
  rcases eq_or_eq_peer k d with rfl | rfl
  · rfl
  · exact absurd (hw.symm.trans h.idle) hne

theorem poller_eq (h : DirectTo d s) {poll : Poll} (hw : (s.dev k).poll = poll)
    (hne : poll ≠ .idle) : k = d := by
  rcases eq_or_eq_peer k d with rfl | rfl
  · rfl
  · exact absurd (hw.symm.trans h.unpolled) hne

/-- The transmission of `d` moves between places that its peer does not depend on. -/
theorem directTo_quiet (h : DirectTo d s) (hw : (s.dev d).tx = tx) (hq : tx.quiet = true)
    (hq' : v.tx.quiet = true) : DirectTo d (s.set d v) := by
  unfold DirectTo at h
  rw [hw] at h
  exact directTo_set (direct_quiet h hq hq')

/-- The poll of `d` is no concern of its peer. -/
theorem directTo_own (h : DirectTo d s) (htx : v.tx = (s.dev d).tx) : DirectTo d (s.set d v) := by
  refine directTo_set ?_
  rw [htx]
  exact h

theorem directTo_proceed (h : DirectTo d s) (r : Option Release) (who : Who) :
    DirectTo d (s.proceed r who) := by
  cases who with
  | tx k =>
      simp only [proceed]
      split
      · rename_i r₀ caller hw
        obtain rfl := sender_eq h hw (by simp)
        refine directTo_quiet h hw rfl ?_
        cases r with
        | none => exact (resume_quiet caller).1
        | some r => rfl
      · exact h
  | poll k =>
      simp only [proceed]
      split
      · rename_i r₀ m quota hw
        obtain rfl := poller_eq h hw (by simp)
        exact directTo_own h rfl
      · exact h

/-- Either device, with its receive side as it was. -/
theorem directTo_alike (h : DirectTo d s) (hsame : SameRx (s.dev k) v) (htx : v.tx = (s.dev k).tx)
    (hstopped : v.stopped = (s.dev k).stopped) : DirectTo d (s.set k v) := by
  rcases eq_or_eq_peer k d with rfl | rfl
  · exact directTo_own h htx
  · exact directTo_set_peer (direct_alike h hsame htx hstopped)

theorem directTo_push {who : Who} (h : DirectTo d s) :
    DirectTo d (update p s (.push who pkt)) := by
  have hput : DirectTo d (s.pushPool pkt) := by
    have hlink : DirectTo d { s with
        next := Function.update s.next pkt (s.dev pkt.dev).ppool } := h
    exact directTo_alike hlink ⟨rfl, rfl, rfl, rfl, rfl, rfl⟩ rfl rfl
  exact directTo_proceed hput _ who

theorem directTo_wakeQueue {who : Who} (h : DirectTo d s) :
    DirectTo d (update p s (.wakeQueue who pkt)) := by
  refine directTo_proceed ?_ none who
  rcases eq_or_eq_peer pkt.dev d with hk | hk
  · rw [hk]
    exact directTo_own h rfl
  · rw [hk]
    refine directTo_set_peer ?_
    exact ⟨h.idle, rfl, h.enabled, h.unscheduled, h.unpolled, h.called, h.loaded, h.served⟩

theorem directTo_enqueueBuf (h : DirectTo d s) : DirectTo d (update p s (.enqueueBuf d pkt)) := by
  simp only [update]
  refine directTo_set ?_
  simp only [snullEnqueueBuf, set_dev]
  refine ⟨h.idle, h.running, h.enabled, h.unscheduled, h.unpolled, ?_, ?_, ?_⟩
  · intro hcalling
    cases hcalling
  · intro w hw
    cases hw
  · exact fun _ => rfl

theorem directTo_testRxInt (h : DirectTo d s) : DirectTo d (update p s (.testRxInt d)) := by
  simp only [update, h.enabled, if_true]
  refine directTo_set ?_
  refine ⟨h.idle, h.running, h.enabled, h.unscheduled, h.unpolled, ?_, ?_, ?_⟩
  · intro hcalling
    cases hcalling
  · intro w hw
    cases hw
  · exact fun _ => rfl

theorem directTo_raiseRx (h : DirectTo d s) : DirectTo d (update p s (.raiseRx d)) := by
  simp only [update]
  refine directTo_set ?_
  rw [set_dev]
  refine ⟨h.idle, h.running, h.enabled, h.unscheduled, h.unpolled, ?_, ?_, ?_⟩
  · exact fun _ => rfl
  · intro w hw
    cases hw
  · exact fun _ => rfl

theorem directTo_loadStatus {caller : Caller} (h : DirectTo d s)
    (hw : (s.dev d).tx = .calling caller) : DirectTo d (update p s (.loadStatus d caller)) := by
  cases caller with
  | receive =>
      refine directTo_set ?_
      refine ⟨h.idle, h.running, h.enabled, h.unscheduled, h.unpolled, ?_, ?_, ?_⟩
      · intro hcalling
        cases hcalling
      · intro w hword
        cases hword
        exact h.called hw
      · exact fun _ => rfl
  | transmit => exact directTo_quiet h hw rfl rfl
  | timeout => exact directTo_quiet h hw rfl rfl

/-- The handler takes the packet off the queue, and there is no other. -/
theorem directTo_handle (hp : p.useNapi = false) (h : DirectTo d s) {caller : Caller} {w : Status}
    (hw : (s.dev d).tx = .inside caller w)
    (hlast : ∀ pkt, (s.dev d.peer).rxQueue = some pkt → s.next pkt = none) :
    DirectTo d (update p s (.handle d caller w true)) := by
  obtain ⟨v, hset, huntouched, ⟨henabled, hscheduled⟩, hcase⟩ :=
    regularInterrupt_frames s (caller.device d) w
  have hquiet : ((s.snullRegularInterrupt (caller.device d) w true).2.elim caller.resume
      fun pkt => .releasing (.pushing pkt) caller).quiet = true := by
    cases (s.snullRegularInterrupt (caller.device d) w true).2 with
    | none => exact (resume_quiet caller).1
    | some pkt => rfl
  simp only [update, hp, hset]
  by_cases hcaller : caller = .receive
  · -- the peer: its handler takes the packet off the queue, which was the only one
    subst hcaller
    have hempty : v.rxQueue = none := by
      rcases hcase with ⟨hsame, _, hnone⟩ | ⟨pkt, hsome, hnext, _⟩
      · rw [hsame]
        exact hnone (h.loaded w (by rw [hw]; rfl))
      · rw [hnext]
        exact hlast pkt hsome
    refine directTo_set ?_
    rw [show Caller.receive.device d = d.peer from rfl, set_dev]
    have hserved : Direct v .signalling := by
      refine ⟨huntouched.tx.trans h.idle, huntouched.stopped.trans h.running,
        henabled.trans h.enabled, hscheduled.trans h.unscheduled,
        huntouched.poll.trans h.unpolled, ?_, ?_, ?_⟩
      · intro hcalling
        cases hcalling
      · intro w hw
        cases hw
      · exact fun hne => absurd hempty hne
    exact direct_quiet hserved rfl hquiet
  · -- `d` itself: the peer is not concerned
    have hown : caller.device d = d := by
      cases caller <;> first | rfl | contradiction
    have hbefore : (s.dev d).tx.quiet = true := by
      rw [hw]
      cases caller <;> first | rfl | contradiction
    rw [hown] at huntouched hquiet ⊢
    have hmid : DirectTo d (s.set d v) := directTo_own h huntouched.tx
    exact directTo_quiet hmid (by rw [set_dev, huntouched.tx]) hbefore hquiet

theorem directTo_getTxBuffer {frame : Frame} (h : DirectTo d s)
    (hw : (s.dev d).tx = .started frame) : DirectTo d (s.snullGetTxBuffer d frame) := by
  simp only [snullGetTxBuffer]
  split
  · exact directTo_quiet h hw rfl rfl
  · exact directTo_quiet h hw rfl rfl

theorem directTo_decide (h : DirectTo d s) (hw : (s.dev d).tx = .deciding) :
    DirectTo d (update p s (.decide d)) := by
  simp only [update]
  split
  · exact directTo_quiet h hw rfl rfl
  · exact directTo_quiet h hw rfl rfl

theorem directTo_dequeueBuf {m quota : ℕ} (h : DirectTo d s) :
    DirectTo d (s.snullDequeueBuf d m quota) := by
  simp only [snullDequeueBuf]
  split
  · exact directTo_own h rfl
  · exact directTo_own h rfl

theorem directTo_rxIntsOn (h : DirectTo d s) : DirectTo d (update p s (.rxIntsOn k)) := by
  rcases eq_or_eq_peer k d with rfl | rfl
  · exact directTo_own h rfl
  · refine directTo_set_peer ?_
    exact ⟨h.idle, h.running, rfl, h.unscheduled, h.unpolled, h.called, h.loaded, h.served⟩

theorem directTo_step {a : Act} (hp : p.useNapi = false) (hsent : SentBy d a) (ha : Allocates a)
    (hlast : ∀ pkt, (s.dev d.peer).rxQueue = some pkt → s.next pkt = none) (hg : guard s a)
    (h : DirectTo d s) : DirectTo d (update p s a) := by
  cases a with
  | snullTx k frame =>
      obtain rfl : k = d := hsent
      exact directTo_quiet h hg.1 rfl rfl
  | getTxBuffer k frame =>
      obtain rfl := sender_eq h hg.1 (by simp)
      exact directTo_getTxBuffer h hg.1
  | copyFrame k pkt frame =>
      obtain rfl := sender_eq h hg (by simp)
      have hdata : DirectTo k { s with data := Function.update s.data pkt frame } := h
      exact directTo_quiet hdata hg rfl rfl
  | enqueueBuf k pkt =>
      obtain rfl := sender_eq h hg.1 (by simp)
      exact directTo_enqueueBuf h
  | testRxInt k =>
      obtain rfl := sender_eq h hg (by simp)
      exact directTo_testRxInt h
  | raiseRx k =>
      obtain rfl := sender_eq h hg (by simp)
      exact directTo_raiseRx h
  | loadStatus k caller =>
      obtain rfl := sender_eq h hg.1 (by simp)
      exact directTo_loadStatus h hg.1
  | handle k caller w alloc =>
      obtain rfl := sender_eq h hg (by simp)
      have halloc : alloc = true := ha
      subst halloc
      exact directTo_handle hp h hg hlast
  | raiseTx k =>
      obtain rfl := sender_eq h hg (by simp)
      exact directTo_quiet h hg rfl rfl
  | decide k =>
      obtain rfl := sender_eq h hg (by simp)
      exact directTo_decide h hg
  | txTimeout k =>
      rcases eq_or_eq_peer k d with rfl | rfl
      · exact directTo_quiet h hg.1 rfl rfl
      · -- the queue of the peer has not been stopped
        exact absurd (h.running.symm.trans hg.2) (by simp)
  | restart k =>
      obtain rfl := sender_eq h hg (by simp)
      exact directTo_quiet h hg rfl rfl
  | push who pkt => exact directTo_push h
  | checkQueue who pkt => exact directTo_proceed h _ who
  | peekNext who pkt => exact directTo_proceed h _ who
  | wakeQueue who pkt => exact directTo_wakeQueue h
  | snullPoll k quota =>
      rcases eq_or_eq_peer k d with rfl | rfl
      · exact directTo_own h rfl
      · -- the peer has not been scheduled
        exact absurd (h.unscheduled.symm.trans hg.2) (by simp)
  | testQueue k m quota =>
      obtain rfl := poller_eq h hg (by simp)
      exact directTo_own h rfl
  | dequeueBuf k m quota =>
      obtain rfl := poller_eq h hg.1 (by simp)
      exact directTo_dequeueBuf h
  | pollReceive k pkt m quota alloc =>
      obtain rfl := poller_eq h hg (by simp)
      exact directTo_own h (handOn_untouched _ _ _).1.tx
  | testEmpty k =>
      obtain rfl := poller_eq h hg (by simp)
      exact directTo_own h rfl
  | rxComplete k =>
      obtain rfl := poller_eq h hg (by simp)
      exact directTo_own h rfl
  | rxIntsOn k => exact directTo_rxIntsOn h

end Interrupts

end Net

end Snull
