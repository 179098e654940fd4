import DriversLab.Snull.Pool

/-!
# Snull.Napi — who will look at the receive queue

In NAPI mode the interrupt disables itself and schedules a poll, and the poll enables it
again when it has found the queue empty. It does the one after the other, without the lock;
the sender puts a packet on the queue and then looks whether the interrupt is enabled.

* `NotStranded`: a packet on the queue has a poll or an interrupt coming;
* `Seen`: no sender finds the interrupt disabled by a poll that has looked for the last
  time, and no status bit is lost;
* `Wired`: what a receiving device and the transmission of its peer know of each other;
* `packets_seen`: in a run in which every step is `Seen`, no packet is stranded;
* `packet_stranded`: a packet that comes between the two steps.
-/

namespace Snull

open Lts

/-- The status word of a handler for the device itself. -/
def Tx.ownWord : Tx → Option Status
  | inside .transmit w | inside .timeout w => some w
  | _ => none

/-- The status word of a handler for the peer. -/
def Tx.peerWord : Tx → Option Status
  | inside .receive w => some w
  | _ => none

/-- In none of the places that the receiving device depends on. -/
def Tx.quiet : Tx → Bool
  | enqueued | raising | calling .receive | inside .receive _ => false
  | _ => true

/-- A transmission of the peer is delivering the receive interrupt. -/
def Tx.delivering : Tx → Bool
  | raising | calling .receive | inside .receive _ => true
  | _ => false

namespace Net

/-- A packet on the receive queue of `d`, which the peer has put there and looked what to
do about it, will be looked at. -/
def NotStranded (s : Net) (d : NetDev) : Prop :=
  (s.dev d).rxQueue ≠ none → (s.dev d.peer).tx ≠ .enqueued →
    ((s.dev d).scheduled = true ∨ (s.dev d).poll ≠ .idle ∨ 0 < (s.dev d).enabling) ∨
      (s.dev d.peer).tx.delivering = true

/-- Where the sender finds the receive interrupt disabled, the poll of the receiver has
still to make its last test; no receive bit is set while a handler of the receiver is
between its load and its store of the status, or overwritten by a timeout. -/
def Seen (s : Net) : Act → Prop
  | .testRxInt d => (s.dev d.peer).rxIntEnabled = false →
      (s.dev d.peer).poll ≠ .completing ∧ (s.dev d.peer).enabling = 0
  | .raiseRx d => s.locked d.peer = false
  | .txTimeout d => (s.dev d).status.rxIntr = false
  | _ => True

instance (s : Net) : ∀ a, Decidable (Seen s a)
  | .testRxInt _ => inferInstanceAs (Decidable (_ → _))
  | .raiseRx _ | .txTimeout _ => inferInstanceAs (Decidable (_ = _))
  | .snullTx _ _ | .getTxBuffer _ _ | .copyFrame _ _ _ | .enqueueBuf _ _ | .loadStatus _ _
  | .handle _ _ _ _ | .raiseTx _ | .decide _ | .restart _ | .push _ _ | .checkQueue _ _
  | .peekNext _ _ | .wakeQueue _ _ | .snullPoll _ _ | .testQueue _ _ _ | .dequeueBuf _ _ _
  | .pollReceive _ _ _ _ _ | .testEmpty _ | .rxComplete _ | .rxIntsOn _ =>
      inferInstanceAs (Decidable True)

/-- A receive interrupt that has been decided upon and not been handled: the sender is about
to set the bit, or it is set, or a handler has loaded it. -/
def Pending (v : Device) (tx : Tx) : Prop :=
  tx = .raising ∨ v.status.rxIntr = true ∨
    ∃ w : Status, (v.tx.ownWord = some w ∨ tx.peerWord = some w) ∧ w.rxIntr = true

/-- A receiving device, and the transmit side of its peer. -/
structure Wired (v : Device) (tx : Tx) : Prop where
  on : v.rxIntEnabled = true → v.scheduled = false ∧ v.enabling = 0
  off : v.rxIntEnabled = false → v.scheduled = true ∨ 0 < v.enabling
  running : v.poll ≠ .idle → v.scheduled = true
  enabling : 0 < v.enabling → v.scheduled = false ∧ v.enabling = 1
  /-- A poll is not scheduled twice. -/
  pending : Pending v tx → v.rxIntEnabled = true
  /-- The bit is set for the call of the handler. -/
  bit : v.status.rxIntr = true → tx = .calling .receive ∨ ∃ w, tx = .inside .receive w
  ownWord : ∀ w, v.tx.ownWord = some w → w.rxIntr = true → tx = .calling .receive
  lock : v.tx.ownWord ≠ none → tx.peerWord = none
  /-- What a handler is about to clear, it has loaded. -/
  loaded : ∀ w, v.tx.ownWord = some w ∨ tx.peerWord = some w → v.status.rxIntr = true →
    w.rxIntr = true
  attended : v.rxQueue ≠ none → tx ≠ .enqueued →
    v.scheduled = true ∧ v.poll ≠ .completing ∨ Pending v tx

/-! ## The sender -/

section Sender

variable {v : Device} {tx tx' : Tx} {w : Status}

theorem peerWord_of_quiet (h : tx.quiet = true) : tx.peerWord = none := by
  cases tx with
  | inside caller w => cases caller <;> simp_all [Tx.quiet, Tx.peerWord]
  | _ => rfl

theorem not_calling_of_quiet (h : tx.quiet = true) :
    tx ≠ .raising ∧ tx ≠ .enqueued ∧ tx ≠ .calling .receive ∧ ∀ w, tx ≠ .inside .receive w := by
  refine ⟨?_, ?_, ?_, ?_⟩
  · rintro rfl
    simp [Tx.quiet] at h
  · rintro rfl
    simp [Tx.quiet] at h
  · rintro rfl
    simp [Tx.quiet] at h
  · rintro w rfl
    simp [Tx.quiet] at h

/-- While the sender is busy with other things, no interrupt is pending. -/
theorem not_pending_of_quiet (h : Wired v tx) (hq : tx.quiet = true) : ¬ Pending v tx := by
  obtain ⟨hraising, _, hcalling, hinside⟩ := not_calling_of_quiet hq
  rintro (heq | hbit | ⟨w, hw | hw, hrx⟩)
  · exact hraising heq
  · rcases h.bit hbit with heq | ⟨w, heq⟩
    · exact hcalling heq
    · exact hinside w heq
  · exact hcalling (h.ownWord w hw hrx)
  · rw [peerWord_of_quiet hq] at hw
    cases hw

/-- Nor is one when the sender has just put a packet on the queue. -/
theorem not_pending_of_enqueued (h : Wired v .enqueued) : ¬ Pending v .enqueued := by
  rintro (heq | hbit | ⟨w, hw | hw, hrx⟩)
  · cases heq
  · rcases h.bit hbit with heq | ⟨w, heq⟩
    · cases heq
    · cases heq
  · cases h.ownWord w hw hrx
  · cases hw

/-- The sender moves where nobody is interrupted. -/
theorem wired_calm (h : Wired v tx) (hp : ¬ Pending v tx) (hword' : tx'.peerWord = none)
    (hraising : tx' ≠ .raising)
    (hattended : v.rxQueue ≠ none → tx' ≠ .enqueued →
      v.scheduled = true ∧ v.poll ≠ .completing) : Wired v tx' := by
  have hbit : v.status.rxIntr = false := by
    by_contra hset
    exact hp (Or.inr (Or.inl (by simpa using hset)))
  have hown : ∀ w, v.tx.ownWord = some w → w.rxIntr = false := by
    intro w hw
    by_contra hset
    exact hp (Or.inr (Or.inr ⟨w, Or.inl hw, by simpa using hset⟩))
  refine ⟨h.on, h.off, h.running, h.enabling, ?_, ?_, ?_, ?_, ?_, ?_⟩
  · rintro (heq | hset | ⟨w, hw | hw, hrx⟩)
    · exact absurd heq hraising
    · simp [hbit] at hset
    · simp [hown w hw] at hrx
    · simp [hword'] at hw
  · simp [hbit]
  · intro w hw hrx
    simp [hown w hw] at hrx
  · exact fun _ => hword'
  · simp [hbit]
  · exact fun hne henq => Or.inl (hattended hne henq)

theorem wired_quiet (h : Wired v tx) (hq : tx.quiet = true) (hq' : tx'.quiet = true) :
    Wired v tx' := by
  have hp := not_pending_of_quiet h hq
  obtain ⟨_, henq, _, _⟩ := not_calling_of_quiet hq
  refine wired_calm h hp (peerWord_of_quiet hq') (not_calling_of_quiet hq').1 ?_
  intro hne _
  exact (h.attended hne henq).resolve_right hp

/-- A packet comes onto the queue. -/
theorem wired_enqueue (h : Wired v tx) (hq : tx.quiet = true) (pkt : SnullPacket) :
    Wired { v with rxQueue := some pkt } .enqueued := by
  have hcalm : Wired v .enqueued :=
    wired_calm h (not_pending_of_quiet h hq) rfl (by simp) fun _ henq => absurd rfl henq
  exact ⟨hcalm.on, hcalm.off, hcalm.running, hcalm.enabling, hcalm.pending, hcalm.bit,
    hcalm.ownWord, hcalm.lock, hcalm.loaded, fun _ henq => absurd rfl henq⟩

/-- The interrupt is enabled, so it is raised. -/
theorem wired_enabled (h : Wired v .enqueued) (hon : v.rxIntEnabled = true) : Wired v .raising := by
  have hp := not_pending_of_enqueued h
  refine ⟨h.on, h.off, h.running, h.enabling, fun _ => hon, ?_, ?_, ?_, ?_, ?_⟩
  · exact fun hset => absurd (Or.inr (Or.inl hset)) hp
  · exact fun w hw hrx => absurd (Or.inr (Or.inr ⟨w, Or.inl hw, hrx⟩)) hp
  · exact fun _ => rfl
  · exact fun w _ hset => absurd (Or.inr (Or.inl hset)) hp
  · exact fun _ _ => Or.inr (Or.inl rfl)

/-- The interrupt is disabled, and the poll has still to make its last test. -/
theorem wired_disabled (h : Wired v .enqueued) (hoff : v.rxIntEnabled = false)
    (hseen : v.poll ≠ .completing ∧ v.enabling = 0) : Wired v .signalling := by
  refine wired_calm h (not_pending_of_enqueued h) rfl (by simp) ?_
  intro _ _
  refine ⟨(h.off hoff).resolve_right ?_, hseen.1⟩
  rw [hseen.2]
  exact Nat.lt_irrefl 0

theorem wired_raise (h : Wired v .raising) (hunlocked : v.tx.ownWord = none) :
    Wired { v with status := { v.status with rxIntr := true } } (.calling .receive) := by
  refine ⟨h.on, h.off, h.running, h.enabling, ?_, ?_, ?_, ?_, ?_, ?_⟩
  · exact fun _ => h.pending (Or.inl rfl)
  · exact fun _ => Or.inl rfl
  · exact fun _ _ _ => rfl
  · exact fun _ => rfl
  · rintro w (hw | hw) _
    · simp [hunlocked] at hw
    · cases hw
  · exact fun _ _ => Or.inr (Or.inr (Or.inl rfl))

/-- The handler that the sender has called loads the status. -/
theorem wired_load (h : Wired v (.calling .receive)) (hunlocked : v.tx.ownWord = none) :
    Wired v (.inside .receive v.status) := by
  refine ⟨h.on, h.off, h.running, h.enabling, ?_, ?_, ?_, ?_, ?_, ?_⟩
  · rintro (heq | hset | ⟨w, hw | hw, hrx⟩)
    · cases heq
    · exact h.pending (Or.inr (Or.inl hset))
    · simp [hunlocked] at hw
    · cases hw
      exact h.pending (Or.inr (Or.inl hrx))
  · exact fun _ => Or.inr ⟨v.status, rfl⟩
  · intro w hw
    simp [hunlocked] at hw
  · exact fun hword => absurd hunlocked hword
  · rintro w (hw | hw) hset
    · simp [hunlocked] at hw
    · cases hw
      exact hset
  · intro hne _
    rcases h.attended hne (by simp) with hatt | heq | hset | ⟨w, hw | hw, _⟩
    · exact Or.inl hatt
    · cases heq
    · exact Or.inr (Or.inr (Or.inl hset))
    · simp [hunlocked] at hw
    · cases hw

end Sender

/-! ## The handler -/

section Handler

variable {v v' : Device} {tx tx' : Tx} {w : Status}

/-- What the handler has done to its device when it gives the lock back. -/
structure Served (v : Device) (w : Status) (v' : Device) : Prop where
  status : v'.status.rxIntr = false
  rxQueue : v'.rxQueue = v.rxQueue
  rxIntEnabled : v'.rxIntEnabled = (!w.rxIntr && v.rxIntEnabled)
  scheduled : v'.scheduled = (w.rxIntr || v.scheduled)
  enabling : v'.enabling = v.enabling
  poll : v'.poll = v.poll
  tx : v'.tx = v.tx

theorem napiInterrupt_served (s : Net) (e : NetDev) (w : Status) :
    ∃ v, s.snullNapiInterrupt e w = s.set e v ∧ Served (s.dev e) w v := by
  refine ⟨_, rfl, ?_⟩
  cases hrx : w.rxIntr <;> cases htx : w.txIntr <;>
    exact ⟨by simp [countTx, htx], by simp [countTx, htx], by simp [countTx, htx, hrx],
      by simp [countTx, htx, hrx], by simp [countTx, htx], by simp [countTx, htx],
      by simp [countTx, htx]⟩

/-- Only one handler is inside its section. -/
theorem word_unique (h : Wired v tx) (hw : v.tx.ownWord = some w ∨ tx.peerWord = some w)
    {u : Status} (hu : v.tx.ownWord = some u ∨ tx.peerWord = some u) : u = w := by
  rcases hw with hw | hw
  · have hfree := h.lock (by simp [hw])
    rcases hu with hu | hu
    · exact Option.some.inj (hu.symm.trans hw)
    · simp [hfree] at hu
  · have hfree : v.tx.ownWord = none := by
      by_contra hne
      simp [h.lock hne] at hw
    rcases hu with hu | hu
    · simp [hfree] at hu
    · exact Option.some.inj (hu.symm.trans hw)

/-- A handler that has loaded `w` is done, and its caller goes on. -/
theorem wired_served (h : Wired v tx) (hw : v.tx.ownWord = some w ∨ tx.peerWord = some w)
    (hstatus : v'.status.rxIntr = false) (hqueue : v'.rxQueue = v.rxQueue)
    (henabled : v'.rxIntEnabled = (!w.rxIntr && v.rxIntEnabled))
    (hscheduled : v'.scheduled = (w.rxIntr || v.scheduled)) (henabling : v'.enabling = v.enabling)
    (hpoll : v'.poll = v.poll) (hown : v'.tx.ownWord = none) (hpeer : tx'.peerWord = none)
    (hraising : tx' = .raising ↔ tx = .raising) (hqueued : tx' ≠ .enqueued → tx ≠ .enqueued) :
    Wired v' tx' := by
  have hpending : Pending v' tx' → tx = .raising := by
    rintro (heq | hset | ⟨u, hu | hu, _⟩)
    · exact hraising.mp heq
    · simp [hstatus] at hset
    · simp [hown] at hu
    · simp [hpeer] at hu
  have hnobit : v'.status.rxIntr ≠ true := by simp [hstatus]
  have hnoword : ∀ u, ¬ (v'.tx.ownWord = some u ∨ tx'.peerWord = some u) := by
    intro u
    simp [hown, hpeer]
  cases hrx : w.rxIntr with
  | true =>
      -- the interrupt was enabled, so no poll was scheduled
      obtain ⟨hidle, hnone⟩ := h.on (h.pending (Or.inr (Or.inr ⟨w, hw, hrx⟩)))
      have hstopped : v.poll = .idle := by
        by_contra hne
        simp [h.running hne] at hidle
      have hnotRaising : tx ≠ .raising := by
        rintro rfl
        rcases hw with hw | hw
        · cases h.ownWord w hw hrx
        · cases hw
      have hsched : v'.scheduled = true := by simp [hscheduled, hrx]
      refine ⟨?_, fun _ => Or.inl hsched, fun _ => hsched, ?_, ?_, ?_, ?_, fun _ => hpeer, ?_, ?_⟩
      · simp [henabled, hrx]
      · simp [henabling, hnone]
      · exact fun hp => absurd (hpending hp) hnotRaising
      · exact fun hset => absurd hset hnobit
      · exact fun u hu => absurd (Or.inl hu) (hnoword u)
      · exact fun u hu => absurd hu (hnoword u)
      · intro _ _
        refine Or.inl ⟨hsched, ?_⟩
        rw [hpoll, hstopped]
        simp
  | false =>
      have hunset : v.status.rxIntr = false := by
        by_contra hset
        simp [h.loaded w hw (by simpa using hset)] at hrx
      have henabled' : v'.rxIntEnabled = v.rxIntEnabled := by simp [henabled, hrx]
      have hscheduled' : v'.scheduled = v.scheduled := by simp [hscheduled, hrx]
      refine ⟨?_, ?_, ?_, ?_, ?_, ?_, ?_, fun _ => hpeer, ?_, ?_⟩
      · rw [henabled', hscheduled', henabling]
        exact h.on
      · rw [henabled', hscheduled', henabling]
        exact h.off
      · rw [hpoll, hscheduled']
        exact h.running
      · rw [henabling, hscheduled']
        exact h.enabling
      · rw [henabled']
        exact fun hp => h.pending (Or.inl (hpending hp))
      · exact fun hset => absurd hset hnobit
      · exact fun u hu => absurd (Or.inl hu) (hnoword u)
      · exact fun u hu => absurd hu (hnoword u)
      · rw [hqueue, hscheduled', hpoll]
        intro hne henq
        rcases h.attended hne (hqueued henq) with hatt | heq | hset | ⟨u, hu, hrx'⟩
        · exact Or.inl hatt
        · exact Or.inr (Or.inl (hraising.mpr heq))
        · simp [hunset] at hset
        · rw [word_unique h hw hu, hrx] at hrx'
          cases hrx'

end Handler

/-! ## The receiver -/

section Receiver

variable {v v' : Device} {tx : Tx}

theorem pending_alike (hstatus : v'.status.rxIntr = v.status.rxIntr)
    (hown : v'.tx.ownWord = v.tx.ownWord) : Pending v' tx ↔ Pending v tx := by
  unfold Pending
  rw [hstatus, hown]

/-- A step of the receiver that raises, disables and enables nothing. -/
theorem wired_alike (h : Wired v tx) (hstatus : v'.status.rxIntr = v.status.rxIntr)
    (henabled : v'.rxIntEnabled = v.rxIntEnabled) (hscheduled : v'.scheduled = v.scheduled)
    (henabling : v'.enabling = v.enabling) (hown : v'.tx.ownWord = v.tx.ownWord)
    (hrunning : v'.poll ≠ .idle → v'.scheduled = true)
    (hattended : v'.rxQueue ≠ none → v.rxQueue ≠ none ∧ (v.poll ≠ .completing →
      v'.poll ≠ .completing) ∨ v'.scheduled = true ∧ v'.poll ≠ .completing) : Wired v' tx := by
  have hp : Pending v' tx ↔ Pending v tx := pending_alike hstatus hown
  refine ⟨?_, ?_, hrunning, ?_, ?_, ?_, ?_, ?_, ?_, ?_⟩
  · rw [henabled, hscheduled, henabling]
    exact h.on
  · rw [henabled, hscheduled, henabling]
    exact h.off
  · rw [hscheduled, henabling]
    exact h.enabling
  · rw [hp, henabled]
    exact h.pending
  · rw [hstatus]
    exact h.bit
  · rw [hown]
    exact h.ownWord
  · rw [hown]
    exact h.lock
  · rw [hown, hstatus]
    exact h.loaded
  · intro hne henq
    rcases hattended hne with ⟨hne', hpoll⟩ | hatt
    · rw [hscheduled, hp]
      exact (h.attended hne' henq).imp (fun hatt => ⟨hatt.1, hpoll hatt.2⟩) id
    · exact Or.inl hatt

/-- The handler for the device itself loads the status. -/
theorem wired_load_own (h : Wired v tx) {caller : Caller} (hcaller : caller ≠ .receive)
    (hold : v.tx.ownWord = none) (hunlocked : tx.peerWord = none) :
    Wired { v with tx := .inside caller v.status } tx := by
  have hword : (Tx.inside caller v.status).ownWord = some v.status := by
    cases caller with
    | receive => exact absurd rfl hcaller
    | transmit | timeout => rfl
  have hp : Pending { v with tx := .inside caller v.status } tx ↔ Pending v tx := by
    unfold Pending
    simp only [hword, hold, hunlocked]
    constructor
    · rintro (heq | hset | ⟨w, hw | hw, hrx⟩)
      · exact Or.inl heq
      · exact Or.inr (Or.inl hset)
      · cases hw
        exact Or.inr (Or.inl hrx)
      · cases hw
    · rintro (heq | hset | ⟨w, hw | hw, _⟩)
      · exact Or.inl heq
      · exact Or.inr (Or.inl hset)
      · cases hw
      · cases hw
  refine ⟨h.on, h.off, h.running, h.enabling, ?_, h.bit, ?_, fun _ => hunlocked, ?_, ?_⟩
  · rw [hp]
    exact h.pending
  · intro w hw hrx
    simp only [hword] at hw
    cases hw
    refine (h.bit hrx).resolve_right ?_
    rintro ⟨w, rfl⟩
    cases hunlocked
  · rintro w (hw | hw) hset
    · simp only [hword] at hw
      cases hw
      exact hset
    · simp [hunlocked] at hw
  · rw [hp]
    exact h.attended

/-- The poll has found the queue empty. -/
theorem wired_complete (h : Wired v tx) (hw : v.poll = .completing) :
    Wired { v with scheduled := false, poll := .idle, enabling := v.enabling + 1 } tx := by
  have hsched := h.running (by simp [hw])
  have hoff : v.rxIntEnabled = false := by
    by_contra hon
    simp [(h.on (by simpa using hon)).1] at hsched
  have hnone : v.enabling = 0 := by
    by_contra hne
    simp [(h.enabling (Nat.pos_of_ne_zero hne)).1] at hsched
  refine ⟨?_, ?_, ?_, ?_, h.pending, h.bit, h.ownWord, h.lock, h.loaded, ?_⟩
  · simp [hoff]
  · simp
  · simp
  · simp [hnone]
  · intro hne henq
    exact Or.inr ((h.attended hne henq).resolve_left fun hatt => hatt.2 hw)

/-- It enables the interrupt. -/
theorem wired_enable (h : Wired v tx) (hpos : 0 < v.enabling) :
    Wired { v with rxIntEnabled := true, enabling := v.enabling - 1 } tx := by
  obtain ⟨hidle, hone⟩ := h.enabling hpos
  refine ⟨?_, ?_, h.running, ?_, fun _ => rfl, h.bit, h.ownWord, h.lock, h.loaded, h.attended⟩
  · simp [hidle, hone]
  · simp
  · simp [hone]

end Receiver

/-! ## The steps -/

/-- Each device, with the transmit side of the other. -/
def AllWired (s : Net) : Prop := ∀ d, Wired (s.dev d) (s.dev d.peer).tx

section Steps

variable {p : Params} {s : Net} {d : NetDev} {v : Device} {tx : Tx}

theorem peer_peer (d : NetDev) : d.peer.peer = d := by
  cases d <;> rfl

theorem allWired_iff (d : NetDev) :
    AllWired s ↔ Wired (s.dev d) (s.dev d.peer).tx ∧ Wired (s.dev d.peer) (s.dev d).tx := by
  constructor
  · intro h
    have hpeer := h d.peer
    rw [peer_peer] at hpeer
    exact ⟨h d, hpeer⟩
  · rintro ⟨hown, hpeer⟩ e
    by_cases he : e = d
    · exact he ▸ hown
    · have heq : e = d.peer := by
        cases e <;> cases d <;> simp_all [NetDev.peer]
      subst heq
      rw [peer_peer]
      exact hpeer

/-- What the receive side of a device consists of is the same. -/
structure SameRx (v v' : Device) : Prop where
  status : v'.status.rxIntr = v.status.rxIntr
  rxQueue : v'.rxQueue = v.rxQueue
  rxIntEnabled : v'.rxIntEnabled = v.rxIntEnabled
  scheduled : v'.scheduled = v.scheduled
  enabling : v'.enabling = v.enabling
  poll : v'.poll = v.poll

theorem wired_sameRx (h : Wired v tx) {v' : Device} (hsame : SameRx v v')
    (hown : v'.tx.ownWord = v.tx.ownWord) : Wired v' tx := by
  refine wired_alike h hsame.status hsame.rxIntEnabled hsame.scheduled hsame.enabling hown ?_ ?_
  · rw [hsame.poll, hsame.scheduled]
    exact h.running
  · rw [hsame.rxQueue, hsame.poll]
    exact fun hne => Or.inl ⟨hne, id⟩

theorem allWired_set (h : AllWired s) (hown : Wired v (s.dev d.peer).tx)
    (hpeer : Wired (s.dev d.peer) (s.dev d).tx → Wired (s.dev d.peer) v.tx) :
    AllWired (s.set d v) := by
  rw [allWired_iff d] at h ⊢
  rw [set_dev, set_dev_of_ne (peer_ne d).symm]
  exact ⟨hown, hpeer h.2⟩

/-- A step of a device that touches nothing of the receive side. -/
theorem allWired_sameRx (h : AllWired s) (hsame : SameRx (s.dev d) v)
    (hown : v.tx.ownWord = (s.dev d).tx.ownWord)
    (hpeer : Wired (s.dev d.peer) (s.dev d).tx → Wired (s.dev d.peer) v.tx) :
    AllWired (s.set d v) :=
  allWired_set h (wired_sameRx (h d) hsame hown) hpeer

theorem allWired_txAt (h : AllWired s) (hown : tx.ownWord = (s.dev d).tx.ownWord)
    (hpeer : Wired (s.dev d.peer) (s.dev d).tx → Wired (s.dev d.peer) tx) :
    AllWired (s.txAt d tx) :=
  allWired_sameRx h ⟨rfl, rfl, rfl, rfl, rfl, rfl⟩ hown hpeer

theorem allWired_pollAt (h : AllWired s) {poll : Poll}
    (hown : Wired { s.dev d with poll := poll } (s.dev d.peer).tx) : AllWired (s.pollAt d poll) :=
  allWired_set h hown id

/-- A poll that goes on, and neither makes nor has made its last test. -/
theorem allWired_poll (h : AllWired s) (hidle : (s.dev d).poll ≠ .idle) {poll : Poll}
    (hlast : poll ≠ .completing) : AllWired (s.pollAt d poll) := by
  refine allWired_pollAt h (wired_alike (h d) rfl rfl rfl rfl rfl ?_ ?_)
  · exact fun _ => (h d).running hidle
  · exact fun hne => Or.inl ⟨hne, fun _ => hlast⟩

theorem resume_quiet (caller : Caller) :
    caller.resume.quiet = true ∧ caller.resume.ownWord = none ∧ caller.resume.peerWord = none := by
  cases caller <;> exact ⟨rfl, rfl, rfl⟩

theorem allWired_proceed (h : AllWired s) (r : Option Release) (who : Who) :
    AllWired (s.proceed r who) := by
  cases who with
  | tx d =>
      simp only [proceed]
      split
      · rename_i r₀ caller hw
        have hquiet : (s.dev d).tx.quiet = true ∧ (s.dev d).tx.ownWord = none := by
          rw [hw]
          exact ⟨rfl, rfl⟩
        have hnext : (r.elim caller.resume fun r => .releasing r caller).quiet = true ∧
            (r.elim caller.resume fun r => .releasing r caller).ownWord = none := by
          cases r with
          | none => exact ⟨(resume_quiet caller).1, (resume_quiet caller).2.1⟩
          | some r => exact ⟨rfl, rfl⟩
        exact allWired_txAt h (hnext.2.trans hquiet.2.symm)
          fun hp => wired_quiet hp hquiet.1 hnext.1
      · exact h
  | poll d =>
      simp only [proceed]
      split
      · rename_i r₀ k quota hw
        refine allWired_poll h (by simp [hw]) ?_
        cases r <;> simp
      · exact h

theorem ownWord_of_unlocked (h : s.locked d.peer = false) : (s.dev d.peer).tx.ownWord = none := by
  unfold locked at h
  obtain ⟨hown, _⟩ := Bool.or_eq_false_iff.mp h
  cases htx : (s.dev d.peer).tx with
  | inside caller w => cases caller <;> simp_all [Tx.insideOwn, Tx.ownWord]
  | _ => rfl

theorem peerWord_of_unlocked (h : s.locked d = false) : (s.dev d.peer).tx.peerWord = none := by
  unfold locked at h
  obtain ⟨_, hpeer⟩ := Bool.or_eq_false_iff.mp h
  cases htx : (s.dev d.peer).tx with
  | inside caller w => cases caller <;> simp_all [Tx.insidePeer, Tx.peerWord]
  | _ => rfl

theorem allWired_enqueueBuf (h : AllWired s) {pkt : SnullPacket}
    (hw : (s.dev d).tx = .copied pkt) : AllWired (update p s (.enqueueBuf d pkt)) := by
  obtain ⟨hown, hpeer⟩ := (allWired_iff d).mp h
  have hne := peer_ne d
  simp only [update, snullEnqueueBuf, txAt]
  rw [allWired_iff d]
  simp only [set_dev, set_dev_of_ne hne, set_dev_of_ne hne.symm]
  refine ⟨wired_sameRx hown ⟨rfl, rfl, rfl, rfl, rfl, rfl⟩ ?_, wired_enqueue hpeer ?_ pkt⟩
  · rw [hw]
    rfl
  · rw [hw]
    rfl

theorem allWired_testRxInt (h : AllWired s) (hq : Seen s (.testRxInt d))
    (hw : (s.dev d).tx = .enqueued) : AllWired (update p s (.testRxInt d)) := by
  refine allWired_txAt h ?_ ?_
  · rw [hw]
    split <;> rfl
  · intro hpeer
    rw [hw] at hpeer
    split
    · exact wired_enabled hpeer ‹_›
    · rename_i hoff
      have hoff' : (s.dev d.peer).rxIntEnabled = false := by simpa using hoff
      exact wired_disabled hpeer hoff' (hq hoff')

theorem allWired_raiseRx (h : AllWired s) (hq : Seen s (.raiseRx d))
    (hw : (s.dev d).tx = .raising) : AllWired (update p s (.raiseRx d)) := by
  obtain ⟨hown, hpeer⟩ := (allWired_iff d).mp h
  rw [hw] at hpeer
  have hne := peer_ne d
  simp only [update, txAt]
  rw [allWired_iff d]
  simp only [set_dev, set_dev_of_ne hne, set_dev_of_ne hne.symm]
  refine ⟨wired_sameRx hown ⟨rfl, rfl, rfl, rfl, rfl, rfl⟩ ?_,
    wired_raise hpeer (ownWord_of_unlocked hq)⟩
  rw [hw]
  rfl

theorem allWired_loadStatus (h : AllWired s) {caller : Caller}
    (hw : (s.dev d).tx = .calling caller) (hfree : s.locked (caller.device d) = false) :
    AllWired (update p s (.loadStatus d caller)) := by
  by_cases hcaller : caller = .receive
  · subst hcaller
    refine allWired_txAt h ?_ ?_
    · rw [hw]
      rfl
    · intro hpeer
      rw [hw] at hpeer
      exact wired_load hpeer (ownWord_of_unlocked hfree)
  · have hdev : caller.device d = d := by cases caller <;> simp_all [Caller.device]
    rw [hdev] at hfree
    have hold : (s.dev d).tx.ownWord = none := by
      rw [hw]
      rfl
    simp only [update, hdev]
    refine allWired_set h (wired_load_own (h d) hcaller hold (peerWord_of_unlocked hfree)) ?_
    intro hpeer
    refine wired_quiet hpeer ?_ ?_
    · rw [hw]
      cases caller <;> simp_all [Tx.quiet]
    · cases caller <;> simp_all [Tx.quiet]

theorem allWired_handle (hp : p.useNapi = true) (h : AllWired s) {caller : Caller} {w : Status}
    (hw : (s.dev d).tx = .inside caller w) (alloc : Bool) :
    AllWired (update p s (.handle d caller w alloc)) := by
  obtain ⟨hown, hpeer⟩ := (allWired_iff d).mp h
  have hne := peer_ne d
  obtain ⟨hquiet, hnone, hnopeer⟩ := resume_quiet caller
  simp only [update, hp, if_true]
  obtain ⟨v, hset, hserved⟩ := napiInterrupt_served s (caller.device d) w
  rw [hset]
  by_cases hcaller : caller = .receive
  · -- the sender has interrupted the peer
    subst hcaller
    have hsame : v.tx.ownWord = none := by
      rw [hserved.tx]
      by_contra hword
      have := hpeer.lock hword
      simp [hw, Tx.peerWord] at this
    simp only [Caller.device, txAt]
    rw [allWired_iff d]
    simp only [set_dev, set_dev_of_ne hne, set_dev_of_ne hne.symm]
    refine ⟨?_, ?_⟩
    · rw [hserved.tx]
      refine wired_sameRx hown ⟨rfl, rfl, rfl, rfl, rfl, rfl⟩ ?_
      rw [hw]
      rfl
    · refine wired_served hpeer (Or.inr ?_) hserved.status hserved.rxQueue hserved.rxIntEnabled
        hserved.scheduled hserved.enabling hserved.poll hsame hnopeer ?_ ?_
      · rw [hw]
        rfl
      · simp [hw, Caller.resume]
      · simp [hw]
  · have hdev : caller.device d = d := by cases caller <;> simp_all [Caller.device]
    have hword : (s.dev d).tx.ownWord = some w := by
      rw [hw]
      cases caller <;> simp_all [Tx.ownWord]
    have hquiet' : (s.dev d).tx.quiet = true := by
      rw [hw]
      cases caller <;> simp_all [Tx.quiet]
    have hunlocked := hown.lock (by simp [hword])
    rw [hdev] at hset hserved ⊢
    simp only [txAt]
    rw [allWired_iff d]
    simp only [set_dev, set_dev_of_ne hne.symm]
    refine ⟨?_, wired_quiet hpeer hquiet' hquiet⟩
    exact wired_served hown (Or.inl hword) hserved.status hserved.rxQueue hserved.rxIntEnabled
      hserved.scheduled hserved.enabling hserved.poll hnone hunlocked Iff.rfl id

/-- The transmit side goes on between two places that the receivers do not depend on. -/
theorem allWired_quiet (h : AllWired s) (hsame : SameRx (s.dev d) v) (hw : (s.dev d).tx = tx)
    (hold : tx.quiet = true ∧ tx.ownWord = none)
    (hnew : v.tx.quiet = true ∧ v.tx.ownWord = none) : AllWired (s.set d v) := by
  subst hw
  refine allWired_sameRx h hsame (hnew.2.trans hold.2.symm) ?_
  exact fun hpeer => wired_quiet hpeer hold.1 hnew.1

theorem allWired_getTxBuffer (h : AllWired s) {frame : Frame}
    (hw : (s.dev d).tx = .started frame) : AllWired (s.snullGetTxBuffer d frame) := by
  cases hsome : (s.dev d).ppool with
  | none =>
      simp only [snullGetTxBuffer, hsome]
      exact allWired_quiet h ⟨rfl, rfl, rfl, rfl, rfl, rfl⟩ hw ⟨rfl, rfl⟩ ⟨rfl, rfl⟩
  | some pkt =>
      simp only [snullGetTxBuffer, hsome]
      exact allWired_quiet h ⟨rfl, rfl, rfl, rfl, rfl, rfl⟩ hw ⟨rfl, rfl⟩ ⟨rfl, rfl⟩

theorem allWired_dequeueBuf (h : AllWired s) {k quota : ℕ}
    (hw : (s.dev d).poll = .fetching k quota) : AllWired (s.snullDequeueBuf d k quota) := by
  have hsched := (h d).running (by simp [hw])
  cases hsome : (s.dev d).rxQueue with
  | none =>
      simp only [snullDequeueBuf, hsome]
      exact allWired_poll h (by simp [hw]) (by simp)
  | some pkt =>
      simp only [snullDequeueBuf, hsome]
      refine allWired_set h (wired_alike (h d) rfl rfl rfl rfl rfl ?_ ?_) id
      · exact fun _ => hsched
      · exact fun _ => Or.inr ⟨hsched, by simp⟩

theorem allWired_step {a : Act} (hp : p.useNapi = true) (h : AllWired s) (hq : Seen s a)
    (hg : guard s a) : AllWired (update p s a) := by
  cases a with
  | snullTx d frame =>
      exact allWired_quiet h ⟨rfl, rfl, rfl, rfl, rfl, rfl⟩ hg.1 ⟨rfl, rfl⟩ ⟨rfl, rfl⟩
  | getTxBuffer d frame => exact allWired_getTxBuffer h hg.1
  | copyFrame d pkt frame =>
      have hdata : AllWired { s with data := Function.update s.data pkt frame } := h
      exact allWired_quiet hdata ⟨rfl, rfl, rfl, rfl, rfl, rfl⟩ hg ⟨rfl, rfl⟩ ⟨rfl, rfl⟩
  | enqueueBuf d pkt => exact allWired_enqueueBuf h hg.1
  | testRxInt d => exact allWired_testRxInt h hq hg
  | raiseRx d => exact allWired_raiseRx h hq hg
  | loadStatus d caller => exact allWired_loadStatus h hg.1 hg.2
  | handle d caller w alloc => exact allWired_handle hp h hg alloc
  | raiseTx d =>
      exact allWired_quiet h ⟨rfl, rfl, rfl, rfl, rfl, rfl⟩ hg ⟨rfl, rfl⟩ ⟨rfl, rfl⟩
  | decide d =>
      simp only [update]
      split
      · exact allWired_quiet h ⟨rfl, rfl, rfl, rfl, rfl, rfl⟩ hg ⟨rfl, rfl⟩ ⟨rfl, rfl⟩
      · exact allWired_quiet h ⟨rfl, rfl, rfl, rfl, rfl, rfl⟩ hg ⟨rfl, rfl⟩ ⟨rfl, rfl⟩
  | txTimeout d =>
      -- the bit that the timeout overwrites is not set
      have hunset : (s.dev d).status.rxIntr = false := hq
      exact allWired_quiet h ⟨hunset.symm, rfl, rfl, rfl, rfl, rfl⟩ hg.1 ⟨rfl, rfl⟩ ⟨rfl, rfl⟩
  | restart d =>
      exact allWired_quiet h ⟨rfl, rfl, rfl, rfl, rfl, rfl⟩ hg ⟨rfl, rfl⟩ ⟨rfl, rfl⟩
  | push who pkt =>
      have hlink : AllWired { s with
          next := Function.update s.next pkt (s.dev pkt.dev).ppool } := h
      have hput : AllWired (s.pushPool pkt) :=
        allWired_sameRx hlink ⟨rfl, rfl, rfl, rfl, rfl, rfl⟩ rfl id
      exact allWired_proceed hput _ who
  | checkQueue who pkt => exact allWired_proceed h _ who
  | peekNext who pkt => exact allWired_proceed h _ who
  | wakeQueue who pkt =>
      have hwoken : AllWired (s.set pkt.dev { s.dev pkt.dev with stopped := false }) :=
        allWired_sameRx h ⟨rfl, rfl, rfl, rfl, rfl, rfl⟩ rfl id
      exact allWired_proceed hwoken none who
  | snullPoll d quota =>
      refine allWired_pollAt h (wired_alike (h d) rfl rfl rfl rfl rfl ?_ ?_)
      · exact fun _ => hg.2
      · exact fun hne => Or.inl ⟨hne, fun _ => by simp⟩
  | testQueue d k quota =>
      have hw : (s.dev d).poll = .looping k quota := hg
      refine allWired_poll h (by simp [hw]) ?_
      split <;> simp
  | dequeueBuf d k quota => exact allWired_dequeueBuf h hg.1
  | pollReceive d pkt k quota alloc =>
      have hw : (s.dev d).poll = .holding pkt k quota := hg
      have hsched := (h d).running (by simp [hw])
      cases alloc with
      | false =>
          refine allWired_set h (wired_alike (h d) rfl rfl rfl rfl rfl ?_ ?_) id
          · exact fun _ => hsched
          · exact fun _ => Or.inr ⟨hsched, by simp⟩
      | true =>
          refine allWired_set h (wired_alike (h d) rfl rfl rfl rfl rfl ?_ ?_) id
          · exact fun _ => hsched
          · exact fun _ => Or.inr ⟨hsched, by simp⟩
  | testEmpty d =>
      have hw : (s.dev d).poll = .finishing := hg
      have hsched := (h d).running (by simp [hw])
      refine allWired_pollAt h (wired_alike (h d) rfl rfl rfl rfl rfl ?_ ?_)
      · exact fun _ => hsched
      · intro hne
        have hne' : (s.dev d).rxQueue ≠ none := hne
        exact Or.inr ⟨hsched, by simp [hne']⟩
  | rxComplete d => exact allWired_set h (wired_complete (h d) hg) id
  | rxIntsOn d => exact allWired_set h (wired_enable (h d) hg) id

end Steps

theorem allWired_init (next : SnullPacket → Option SnullPacket) (data : SnullPacket → Frame)
    (n : NetDev → ℕ) : AllWired (init next data n) := by
  intro d
  obtain ⟨_, hdev, _⟩ := init_dev next data n d
  obtain ⟨_, hpeer, _⟩ := init_dev next data n d.peer
  rw [hdev, hpeer]
  constructor <;> simp [opened, Pending, Tx.ownWord, Tx.peerWord]

theorem notStranded_of_wired {s : Net} {d : NetDev} (h : Wired (s.dev d) (s.dev d.peer).tx) :
    NotStranded s d := by
  intro hne henq
  have hdelivering : ∀ tx : Tx, tx = .raising ∨ tx = .calling .receive ∨
      (∃ w, tx = .inside .receive w) → tx.delivering = true := by
    rintro tx (rfl | rfl | ⟨w, rfl⟩) <;> rfl
  rcases h.attended hne henq with ⟨hsched, _⟩ | hraising | hbit | ⟨w, hw | hw, hrx⟩
  · exact Or.inl (Or.inl hsched)
  · exact Or.inr (hdelivering _ (Or.inl hraising))
  · exact Or.inr (hdelivering _ (Or.inr (h.bit hbit)))
  · exact Or.inr (hdelivering _ (Or.inr (Or.inl (h.ownWord w hw hrx))))
  · refine Or.inr ?_
    cases htx : (s.dev d.peer).tx with
    | inside caller u => cases caller <;> simp_all [Tx.peerWord, Tx.delivering]
    | _ => simp [htx, Tx.peerWord] at hw

/-- In every state of every run in NAPI mode whose steps are all `Seen`: a packet on a receive
queue, which its sender has done with, has a poll scheduled or running, or an interrupt
being delivered. -/
theorem packets_seen {p : Params} (hp : p.useNapi = true) {n : NetDev → ℕ}
    {next : SnullPacket → Option SnullPacket} {data : SnullPacket → Frame} {as : List Act}
    {s : Net} (hr : run (step p) (init next data n) as = some s)
    (hq : Along (step p) Seen (init next data n) as) : ∀ d, NotStranded s d := by
  have h : AllWired s := by
    refine run_invariant_along (P := Seen) ?_ (allWired_init next data n) hq hr
    intro s a s' h hq hs
    obtain ⟨hg, rfl⟩ := guarded_eq_some.mp hs
    exact allWired_step hp h hq hg
  exact fun d => notStranded_of_wired (h d)

/-! ## Two packets -/

/-- Both devices with two packets. -/
def twoPackets : Net := init (fun _ => none) (fun _ => []) fun _ => 2

/-- A transmission from its beginning to the test of the receive interrupt. -/
def put (k : ℕ) (frame : Frame) : List Act :=
  [.snullTx .sn0 frame, .getTxBuffer .sn0 frame, .copyFrame .sn0 ⟨.sn0, k⟩ frame,
    .enqueueBuf .sn0 ⟨.sn0, k⟩]

/-- The first packet is received by a poll, as far as its last test. -/
def polled : List Act :=
  put 1 [7] ++ [.testRxInt .sn0, .raiseRx .sn0, .loadStatus .sn0 .receive,
    .handle .sn0 .receive ⟨true, false⟩ true] ++ sent ++
  [.snullPoll .sn1 2, .testQueue .sn1 0 2, .dequeueBuf .sn1 0 2,
    .pollReceive .sn1 ⟨.sn0, 1⟩ 0 2 true, .push (.poll .sn1) ⟨.sn0, 1⟩,
    .checkQueue (.poll .sn1) ⟨.sn0, 1⟩, .testQueue .sn1 1 2, .testEmpty .sn1]

theorem packets_seen_polled : ∃ s, run (step ⟨true, 0⟩) twoPackets polled = some s ∧
    (s.dev .sn1).stack = [[7]] ∧ NotStranded s .sn1 := by
  refine ⟨_, rfl, rfl, ?_⟩
  have hseen : Along (step ⟨true, 0⟩) Seen twoPackets polled := by decide
  exact packets_seen (p := ⟨true, 0⟩) rfl (show run _ twoPackets polled = some _ from rfl)
    hseen .sn1

/-- The second packet comes between the last test of the poll and the enabling of the
interrupt: its sender finds the interrupt disabled, and nobody comes for it. -/
theorem packet_stranded : ∃ s, run (step ⟨true, 0⟩) twoPackets
    (polled ++ put 1 [8] ++ [.testRxInt .sn0] ++ sent ++ [.rxComplete .sn1, .rxIntsOn .sn1]) =
      some s ∧ ¬ NotStranded s .sn1 := by
  refine ⟨_, rfl, ?_⟩
  intro h
  exact absurd (h (by decide) (by decide)) (by decide)

end Net

end Snull
