import DriversLab.Snull.Direct
import DriversLab.Lib.Lifo

/-!
# Snull.Modes — the frames that the two receive modes hand on

The receive queue is a stack: `snull_enqueue_buf` puts a packet in front of those that are
waiting, which the source calls misordering. In interrupt mode nobody notices, since the
packet is taken off before the next one comes. In NAPI mode packets wait for a poll, and
the last one is handed on first.

* `InOrder`: what a device has handed on, and is about to, is what its peer has sent;
* `modes_agree`: when all is done, interrupt mode has handed on the frames in order. So has
  NAPI mode, if each packet has been put on an empty queue, and only then if no two of the
  frames are the same;
* `modes_misorder`: a poll that finds two packets.
-/

namespace Snull

open Lts Linked Lifo

namespace Net

/-- The system with that history. -/
def transmitStep (p : Params) (d : NetDev) :
    Net × List Frame → Act → Option (Net × List Frame) :=
  recorded (step p) (transmitted d)

/-- Nothing that `d` has been given to transmit is under way. -/
def Processed (s : Net) (d : NetDev) : Prop :=
  (s.dev d).tx.carried s.data = some [] ∧ (s.dev d.peer).rxQueue = none ∧
    (s.dev d.peer).poll.held = []

instance (s : Net) (d : NetDev) : Decidable (Processed s d) :=
  inferInstanceAs (Decidable (_ ∧ _ ∧ _))

/-- A packet that `d` puts on the queue of its peer finds it empty. -/
def EnqueuesAlone (d : NetDev) (c : Net × List Frame) : Act → Prop
  | .enqueueBuf k _ => k = d → (c.1.dev d.peer).rxQueue = none
  | _ => True

instance (d : NetDev) (c : Net × List Frame) : ∀ a, Decidable (EnqueuesAlone d c a)
  | .enqueueBuf _ _ => inferInstanceAs (Decidable (_ → _))
  | .snullTx _ _ | .getTxBuffer _ _ | .copyFrame _ _ _ | .testRxInt _ | .raiseRx _
  | .loadStatus _ _ | .handle _ _ _ _ | .raiseTx _ | .decide _ | .txTimeout _ | .restart _
  | .push _ _ | .checkQueue _ _ | .peekNext _ _ | .wakeQueue _ _ | .snullPoll _ _
  | .testQueue _ _ _ | .dequeueBuf _ _ _ | .pollReceive _ _ _ _ _ | .testEmpty _
  | .rxComplete _ | .rxIntsOn _ => inferInstanceAs (Decidable True)

/-! ## Order -/

/-- What the peer of `d` has handed on, and is about to, is what `d` has put on its queue, in
that order, with at most one packet on the queue. -/
def InOrder (d : NetDev) (c : Net × List Frame) : Prop :=
  ∃ q sent, Books d c q sent ∧ c.1.line d.peer q = sent ∧ q.length ≤ 1

/-- It comes from there. -/
def Accounted (d : NetDev) (c : Net × List Frame) : Prop :=
  ∃ q sent, Books d c q sent ∧ ∀ frame ∈ c.1.line d.peer q, frame ∈ sent

/-- Two frames are the other way round. -/
def OutOfOrder (d : NetDev) (c : Net × List Frame) : Prop :=
  ∃ q sent, Books d c q sent ∧ Swapped sent (c.1.line d.peer q)

section Order

variable {p : Params} {n : NetDev → ℕ} {d : NetDev} {c c' : Net × List Frame} {a : Act}

theorem transmitStep_eq (hs : transmitStep p d c a = some c') :
    guard c.1 a ∧ c' = (update p c.1 a, transmitted d c.1 a c.2) := by
  obtain ⟨hs, hnext⟩ := recorded_eq_some.mp hs
  obtain ⟨hg, hupdate⟩ := guarded_eq_some.mp hs
  exact ⟨hg, Prod.ext hupdate hnext⟩

/-- The step, with what it needs of the state. -/
structure Sound (p : Params) (n : NetDev → ℕ) (d : NetDev) (c : Net × List Frame)
    (a : Act) : Prop where
  kept : Kept n c.1 (hands c.1)
  allocates : Allocates a
  unheld : p.useNapi = false → (c.1.dev d.peer).poll.held = []

theorem inOrder_step (hsound : Sound p n d c a) (hs : transmitStep p d c a = some c')
    (halone : EnqueuesAlone d c a) (h : InOrder d c) : InOrder d c' := by
  obtain ⟨hg, rfl⟩ := transmitStep_eq hs
  obtain ⟨q, sent, hb, hline, hle⟩ := h
  rcases books_step hsound.kept hg hsound.allocates hsound.unheld hb with
    ⟨pkt, rfl, hbooks, hnew⟩ | ⟨_, q', hle', hbooks, hsame⟩
  · -- in front of an empty queue is behind all the others
    have hempty : q = [] := chain_unique hb.chain (halone rfl)
    subst hempty
    refine ⟨[pkt], _, hbooks, ?_, by simp⟩
    rw [hnew, ← hline]
    simp [line]
  · exact ⟨q', sent, hbooks, hsame.trans hline, hle'.trans hle⟩

theorem accounted_step (hsound : Sound p n d c a) (hs : transmitStep p d c a = some c')
    (h : Accounted d c) : Accounted d c' := by
  obtain ⟨hg, rfl⟩ := transmitStep_eq hs
  obtain ⟨q, sent, hb, hline⟩ := h
  rcases books_step hsound.kept hg hsound.allocates hsound.unheld hb with
    ⟨pkt, rfl, hbooks, hnew⟩ | ⟨_, q', _, hbooks, hsame⟩
  · refine ⟨_, _, hbooks, ?_⟩
    intro frame hmem
    rw [hnew] at hmem
    simp only [line, List.mem_append] at hline
    simp only [List.mem_append, List.mem_cons] at hmem
    rcases hmem with hfront | rfl | hrest
    · exact List.mem_append_left _ (hline frame (Or.inl hfront))
    · exact List.mem_append_right _ (by simp)
    · exact List.mem_append_left _ (hline frame (Or.inr hrest))
  · refine ⟨q', sent, hbooks, ?_⟩
    rw [hsame]
    exact hline

theorem outOfOrder_step (hsound : Sound p n d c a) (hs : transmitStep p d c a = some c')
    (h : OutOfOrder d c) : OutOfOrder d c' := by
  obtain ⟨hg, rfl⟩ := transmitStep_eq hs
  obtain ⟨q, sent, hb, hline⟩ := h
  rcases books_step hsound.kept hg hsound.allocates hsound.unheld hb with
    ⟨pkt, rfl, hbooks, hnew⟩ | ⟨_, q', _, hbooks, hsame⟩
  · refine ⟨_, _, hbooks, ?_⟩
    rw [hnew]
    exact swapped_push hline
  · refine ⟨q', sent, hbooks, ?_⟩
    rw [hsame]
    exact hline

/-- A packet that is put in front of another is handed on before it. -/
theorem outOfOrder_of_crowded (hsound : Sound p n d c a) (hs : transmitStep p d c a = some c')
    (hcrowded : ¬ EnqueuesAlone d c a) (h : Accounted d c) : OutOfOrder d c' := by
  obtain ⟨hg, rfl⟩ := transmitStep_eq hs
  obtain ⟨q, sent, hb, hline⟩ := h
  rcases books_step hsound.kept hg hsound.allocates hsound.unheld hb with
    ⟨pkt, rfl, hbooks, hnew⟩ | ⟨hnot, _⟩
  · -- the packet overtakes those that wait
    refine ⟨_, _, hbooks, ?_⟩
    rw [hnew]
    refine swapped_of_push ?_ ?_
    · intro hempty
      rw [List.map_eq_nil_iff] at hempty
      subst hempty
      exact hcrowded fun _ => hb.chain
    · intro frame hmem
      exact hline frame (List.mem_append_right _ hmem)
  · exfalso
    cases a with
    | enqueueBuf k pkt =>
        refine hcrowded ?_
        rintro rfl
        exact absurd rfl (hnot pkt)
    | _ => exact hcrowded trivial

/-- What is left when all is done. -/
theorem line_of_processed {q : List SnullPacket} {sent : List Frame} (hdone : Processed c.1 d)
    (hb : Books d c q sent) : c.1.line d.peer q = (c.1.dev d.peer).stack ∧ sent = c.2 := by
  obtain ⟨hcarried, hqueue, hheld⟩ := hdone
  have hempty : q = [] := chain_unique hb.chain hqueue
  subst hempty
  have hsent := hb.sent [] hcarried
  simp [line, front, hheld, hsent]

theorem stack_of_inOrder (hdone : Processed c.1 d) (h : InOrder d c) :
    (c.1.dev d.peer).stack = c.2 := by
  obtain ⟨q, sent, hb, hline, _⟩ := h
  obtain ⟨hstack, hsent⟩ := line_of_processed hdone hb
  rw [← hstack, hline, hsent]

theorem not_outOfOrder (hdone : Processed c.1 d) (hnodup : c.2.Nodup)
    (hstack : (c.1.dev d.peer).stack = c.2) : ¬ OutOfOrder d c := by
  rintro ⟨q, sent, hb, hswapped⟩
  obtain ⟨hline, rfl⟩ := line_of_processed hdone hb
  rw [hline, hstack] at hswapped
  exact not_swapped_self hnodup hswapped

end Order

/-! ## Runs -/

section Runs

variable {p : Params} {n : NetDev → ℕ} {next : SnullPacket → Option SnullPacket}
  {data : SnullPacket → Frame} {d : NetDev} {as : List Act} {c : Net × List Frame}

theorem books_init (d : NetDev) : Books d (init next data n, []) [] [] := by
  obtain ⟨ppool, hdev, _⟩ := init_dev next data n d
  obtain ⟨ppool', hpeer, _⟩ := init_dev next data n d.peer
  constructor
  · simp [hpeer, Chain, opened]
  · intro l hl
    simpa [hdev, opened, Tx.carried] using hl

theorem line_init (e : NetDev) : (init next data n).line e [] = [] := by
  obtain ⟨ppool, hdev, _⟩ := init_dev next data n e
  simp [line, front, hdev, opened, Poll.held]

theorem inOrder_init (d : NetDev) : InOrder d (init next data n, []) :=
  ⟨[], [], books_init d, line_init d.peer, Nat.zero_le 1⟩

theorem accounted_init (d : NetDev) : Accounted d (init next data n, []) :=
  ⟨[], [], books_init d, by simp [line_init]⟩

theorem directTo_init (d : NetDev) : DirectTo d (init next data n) := by
  obtain ⟨ppool, hdev, _⟩ := init_dev next data n d
  obtain ⟨ppool', hpeer, _⟩ := init_dev next data n d.peer
  unfold DirectTo
  rw [hdev, hpeer]
  refine ⟨rfl, rfl, rfl, rfl, rfl, ?_, ?_, ?_⟩
  · intro hcalling
    cases hcalling
  · intro w hw
    cases hw
  · exact fun hne => absurd rfl hne

/-- The only packet on a queue has no successor. -/
theorem last_of_inOrder (h : InOrder d c) {pkt : SnullPacket}
    (hsome : (c.1.dev d.peer).rxQueue = some pkt) : c.1.next pkt = none := by
  obtain ⟨q, sent, hb, _, hle⟩ := h
  have hchain := hb.chain
  rw [hsome] at hchain
  obtain ⟨rest, rfl, hrest⟩ := chain_cons hchain
  have hnil : rest = [] := by simpa using hle
  subst hnil
  exact hrest

/-- In interrupt mode, the packet before has been taken when the next one is put. -/
theorem alone_of_directTo {a : Act} (h : DirectTo d c.1) (hg : guard c.1 a) :
    EnqueuesAlone d c a := by
  cases a with
  | enqueueBuf k pkt =>
      rintro rfl
      by_contra hne
      have hbusy := h.served hne
      rw [hg.1] at hbusy
      cases hbusy
  | _ => trivial

theorem regular_inOrder (hp : p.useNapi = false)
    (hr : run (transmitStep p d) (init next data n, []) as = some c)
    (hsent : ∀ a ∈ as, SentBy d a) (halloc : ∀ a ∈ as, Allocates a) : InOrder d c := by
  -- the queue is empty at each packet by `DirectTo`, which relies on the order in turn
  have hstep : ∀ c a c', (Kept n c.1 (hands c.1) ∧ InOrder d c ∧ DirectTo d c.1) →
      SentBy d a ∧ Allocates a → transmitStep p d c a = some c' →
      Kept n c'.1 (hands c'.1) ∧ InOrder d c' ∧ DirectTo d c'.1 := by
    rintro c a c' ⟨hk, ho, hd⟩ ⟨hs, ha⟩ hstep
    obtain ⟨hg, rfl⟩ := transmitStep_eq hstep
    have hsound : Sound p n d c a := ⟨hk, ha, fun _ => by rw [hd.unpolled]; rfl⟩
    refine ⟨kept_step hk hg, inOrder_step hsound hstep (alone_of_directTo hd hg) ho, ?_⟩
    exact directTo_step hp hs ha (fun _ => last_of_inOrder ho) hg hd
  have hall : Along (transmitStep p d) (fun _ a => SentBy d a ∧ Allocates a)
      (init next data n, []) as :=
    along_of_forall fun a ha _ => ⟨hsent a ha, halloc a ha⟩
  have hinit : Kept n (init next data n) (hands (init next data n)) ∧
      InOrder d (init next data n, []) ∧ DirectTo d (init next data n) :=
    ⟨kept_hands_init next data n, inOrder_init d, directTo_init d⟩
  exact (run_invariant_along hstep hinit hall hr).2.1

theorem sound_of_napi {c : Net × List Frame} {a : Act} (hp : p.useNapi = true)
    (hk : Kept n c.1 (hands c.1)) (ha : Allocates a) : Sound p n d c a :=
  ⟨hk, ha, fun hoff => absurd (hp.symm.trans hoff) (by decide)⟩

theorem napi_inOrder (hp : p.useNapi = true)
    (hr : run (transmitStep p d) (init next data n, []) as = some c)
    (halloc : ∀ a ∈ as, Allocates a)
    (halone : Along (transmitStep p d) (EnqueuesAlone d) (init next data n, []) as) :
    InOrder d c := by
  have hstep : ∀ c a c', (Kept n c.1 (hands c.1) ∧ InOrder d c) →
      Allocates a ∧ EnqueuesAlone d c a → transmitStep p d c a = some c' →
      Kept n c'.1 (hands c'.1) ∧ InOrder d c' := by
    rintro c a c' ⟨hk, ho⟩ ⟨ha, halone⟩ hstep
    have ho' := inOrder_step (sound_of_napi hp hk ha) hstep halone ho
    obtain ⟨hg, rfl⟩ := transmitStep_eq hstep
    exact ⟨kept_step hk hg, ho'⟩
  have hall : Along (transmitStep p d) (fun _ a => Allocates a) (init next data n, []) as :=
    along_of_forall fun a ha _ => halloc a ha
  have hinit : Kept n (init next data n) (hands (init next data n)) ∧
      InOrder d (init next data n, []) := ⟨kept_hands_init next data n, inOrder_init d⟩
  exact (run_invariant_along hstep hinit (along_and hall halone) hr).2

theorem napi_alone (hp : p.useNapi = true)
    (hr : run (transmitStep p d) (init next data n, []) as = some c)
    (halloc : ∀ a ∈ as, Allocates a) (horder : ¬ OutOfOrder d c) :
    Along (transmitStep p d) (EnqueuesAlone d) (init next data n, []) as := by
  have hall : Along (transmitStep p d) (fun _ a => Allocates a) (init next data n, []) as :=
    along_of_forall fun a ha _ => halloc a ha
  have hinit : Kept n (init next data n) (hands (init next data n)) ∧
      Accounted d (init next data n, []) := ⟨kept_hands_init next data n, accounted_init d⟩
  have hstep : ∀ c a c', (Kept n c.1 (hands c.1) ∧ Accounted d c) → Allocates a →
      transmitStep p d c a = some c' → Kept n c'.1 (hands c'.1) ∧ Accounted d c' := by
    rintro c a c' ⟨hk, hacc⟩ ha hs
    have hacc' := accounted_step (sound_of_napi hp hk ha) hs hacc
    obtain ⟨hg, rfl⟩ := transmitStep_eq hs
    exact ⟨kept_step hk hg, hacc'⟩
  -- what has once been put out of order stays so
  refine along_of_avoids hstep ?_ ?_ hinit hall hr horder
  · rintro c a c' ⟨hk, hacc⟩ ha hcrowded hs
    exact outOfOrder_of_crowded (sound_of_napi hp hk ha) hs hcrowded hacc
  · rintro c a c' ⟨hk, _⟩ ha hbad hs
    exact outOfOrder_step (sound_of_napi hp hk ha) hs hbad

end Runs

/-- When all that `d` has been given to transmit is processed: in interrupt mode its peer has
handed on these frames, in order and each of them once; in NAPI mode it has handed on the
same, if each packet has been put on an empty queue, and only if, where the frames are
different from one another. -/
theorem modes_agree {p p' : Params} {n n' : NetDev → ℕ}
    {next next' : SnullPacket → Option SnullPacket} {data data' : SnullPacket → Frame}
    {d : NetDev} {as as' : List Act} {c c' : Net × List Frame}
    (hp : p.useNapi = false) (hp' : p'.useNapi = true)
    (hr : run (transmitStep p d) (init next data n, []) as = some c)
    (hr' : run (transmitStep p' d) (init next' data' n', []) as' = some c')
    (hsent : ∀ a ∈ as, SentBy d a) (halloc : ∀ a ∈ as, Allocates a)
    (halloc' : ∀ a ∈ as', Allocates a) (hsame : c'.2 = c.2)
    (hdone : Processed c.1 d) (hdone' : Processed c'.1 d) :
    (c.1.dev d.peer).stack = c.2 ∧
      (Along (transmitStep p' d) (EnqueuesAlone d) (init next' data' n', []) as' →
        (c'.1.dev d.peer).stack = (c.1.dev d.peer).stack) ∧
      (c.2.Nodup → (c'.1.dev d.peer).stack = (c.1.dev d.peer).stack →
        Along (transmitStep p' d) (EnqueuesAlone d) (init next' data' n', []) as') := by
  have hregular := stack_of_inOrder hdone (regular_inOrder hp hr hsent halloc)
  refine ⟨hregular, ?_, ?_⟩
  · intro halone
    rw [stack_of_inOrder hdone' (napi_inOrder hp' hr' halloc' halone), hsame, hregular]
  · intro hnodup heq
    rw [hregular, ← hsame] at heq
    rw [← hsame] at hnodup
    exact napi_alone hp' hr' halloc' (not_outOfOrder hdone' hnodup heq)

/-! ## Two frames in both modes -/

/-- In interrupt mode, a transmission from its beginning to its end. -/
def sendRegular (frame : Frame) : List Act :=
  put 1 frame ++ [.testRxInt .sn0, .raiseRx .sn0, .loadStatus .sn0 .receive,
    .handle .sn0 .receive ⟨true, false⟩ true, .push (.tx .sn0) ⟨.sn0, 1⟩,
    .checkQueue (.tx .sn0) ⟨.sn0, 1⟩] ++ sent

/-- In NAPI mode, the transmission that schedules the poll. -/
def sendScheduling (frame : Frame) : List Act :=
  put 1 frame ++ [.testRxInt .sn0, .raiseRx .sn0, .loadStatus .sn0 .receive,
    .handle .sn0 .receive ⟨true, false⟩ true] ++ sent

/-- In NAPI mode, the poll takes a packet. -/
def receivePolled (number npackets : ℕ) : List Act :=
  [.testQueue .sn1 npackets 2, .dequeueBuf .sn1 npackets 2,
    .pollReceive .sn1 ⟨.sn0, number⟩ npackets 2 true, .push (.poll .sn1) ⟨.sn0, number⟩,
    .checkQueue (.poll .sn1) ⟨.sn0, number⟩]

def finishPoll (npackets : ℕ) : List Act :=
  [.testQueue .sn1 npackets 2, .testEmpty .sn1, .rxComplete .sn1, .rxIntsOn .sn1]

/-- A poll after each transmission. -/
def polledOneByOne : List Act :=
  sendScheduling [7] ++ [.snullPoll .sn1 2] ++ receivePolled 1 0 ++ finishPoll 1 ++
    sendScheduling [8] ++ [.snullPoll .sn1 2] ++ receivePolled 1 0 ++ finishPoll 1

/-- What has been transmitted, what has been handed on, and whether all is done. -/
def outcome (c : Net × List Frame) : List Frame × List Frame × Bool :=
  (c.2, (c.1.dev .sn1).stack, decide (Processed c.1 .sn0))

theorem outcome_eq {r : Option (Net × List Frame)} {total stack : List Frame}
    (h : r.map outcome = some (total, stack, true)) :
    ∃ c, r = some c ∧ c.2 = total ∧ (c.1.dev .sn1).stack = stack ∧ Processed c.1 .sn0 := by
  obtain ⟨c, hc, heq⟩ := Option.map_eq_some_iff.mp h
  have htotal := congrArg Prod.fst heq
  have hrest := congrArg Prod.snd heq
  have hdone := congrArg Prod.snd hrest
  exact ⟨c, hc, htotal, congrArg Prod.fst hrest, of_decide_eq_true hdone⟩

theorem modes_agree_two_frames : ∃ c c',
    run (transmitStep ⟨false, 0⟩ .sn0) (twoPackets, []) (sendRegular [7] ++ sendRegular [8]) =
      some c ∧
    run (transmitStep ⟨true, 0⟩ .sn0) (twoPackets, []) polledOneByOne = some c' ∧
    (c.1.dev .sn1).stack = [[7], [8]] ∧ (c'.1.dev .sn1).stack = (c.1.dev .sn1).stack := by
  have hregular : (run (transmitStep ⟨false, 0⟩ .sn0) (twoPackets, [])
      (sendRegular [7] ++ sendRegular [8])).map outcome =
        some ([[7], [8]], [[7], [8]], true) := by decide +kernel
  have hnapi : (run (transmitStep ⟨true, 0⟩ .sn0) (twoPackets, []) polledOneByOne).map outcome =
      some ([[7], [8]], [[7], [8]], true) := by decide +kernel
  obtain ⟨c, hc, htotal, hstack, hdone⟩ := outcome_eq hregular
  obtain ⟨c', hc', htotal', _, hdone'⟩ := outcome_eq hnapi
  have h := modes_agree rfl rfl hc hc' (by decide) (by decide) (by decide)
    (htotal'.trans htotal.symm) hdone hdone'
  exact ⟨c, c', hc, hc', hstack, h.2.1 (by decide +kernel)⟩

/-- Two frames of the least length. -/
def firstFrame : Frame := List.replicate 60 7

def secondFrame : Frame := List.replicate 60 8

/-- The second transmission comes before the poll that the first one has scheduled, and takes
the last packet of the pool. -/
def polledLate : List Act :=
  sendScheduling firstFrame ++ put 0 secondFrame ++ [.testRxInt .sn0] ++ sent ++
    [.snullPoll .sn1 2] ++ receivePolled 0 0 ++
    [.peekNext (.poll .sn1) ⟨.sn0, 0⟩, .wakeQueue (.poll .sn1) ⟨.sn0, 0⟩] ++
    receivePolled 1 1 ++ finishPoll 2

theorem modes_misorder : ∃ c c',
    run (transmitStep ⟨false, 0⟩ .sn0) (twoPackets, [])
      (sendRegular firstFrame ++ sendRegular secondFrame) = some c ∧
    run (transmitStep ⟨true, 0⟩ .sn0) (twoPackets, []) polledLate = some c' ∧
    c'.2 = c.2 ∧ Processed c.1 .sn0 ∧ Processed c'.1 .sn0 ∧
    (∀ a ∈ sendRegular firstFrame ++ sendRegular secondFrame ++ polledLate,
      SentBy .sn0 a ∧ Allocates a) ∧
    (c.1.dev .sn1).stack = [firstFrame, secondFrame] ∧
    (c'.1.dev .sn1).stack = [secondFrame, firstFrame] ∧
    (c'.1.dev .sn1).stack ≠ (c.1.dev .sn1).stack := by
  have hregular : (run (transmitStep ⟨false, 0⟩ .sn0) (twoPackets, [])
      (sendRegular firstFrame ++ sendRegular secondFrame)).map outcome =
        some ([firstFrame, secondFrame], [firstFrame, secondFrame], true) := by decide +kernel
  have hnapi : (run (transmitStep ⟨true, 0⟩ .sn0) (twoPackets, []) polledLate).map outcome =
      some ([firstFrame, secondFrame], [secondFrame, firstFrame], true) := by decide +kernel
  obtain ⟨c, hc, htotal, hstack, hdone⟩ := outcome_eq hregular
  obtain ⟨c', hc', htotal', hstack', hdone'⟩ := outcome_eq hnapi
  refine ⟨c, c', hc, hc', htotal'.trans htotal.symm, hdone, hdone', by decide, hstack, hstack', ?_⟩
  intro heq
  rw [hstack, hstack'] at heq
  have hfirst : secondFrame = firstFrame := (List.cons.inj heq).1
  exact absurd hfirst (by decide)

end Net

end Snull
