import DriversLab.ShortPrint.Stall

/-!
# ShortPrint.Timer — who adds the timer when

`add_timer` must not be called on a pending timer. The callback decides to call it from
a test of `shortp_output_active` that it makes without the lock, and the worker may write
or stop in between.

* `rearmed`: the history, whether the timer has been armed since it expired;
* `TestHolds`: what was true when the callback and the work item were started is true
  under the lock;
* `timer_added_once`: in a run with that, no pending timer is added;
* `timer_added_twice`: a run without it.
-/

namespace ShortPrint

open Lts

namespace Printer

/-- Whether the step calls `add_timer`. -/
def addsTimer (s : Printer) : Act → Bool
  | .writerSection _ _ => !s.active
  | .callbackSection status => stillBusy status
  | _ => false

/-- The history: since it last expired, the timer has been armed by the worker or by a
writer. -/
def rearmed (s : Printer) (a : Act) (h : Bool) : Bool :=
  match a with
  | .expire => false
  | .workModTimer => true
  | .writerSection _ _ => !s.active || h
  | _ => h

/-- The system with that history. -/
def timerStep : Printer × Bool → Act → Option (Printer × Bool) := recorded step rearmed

def LoadedTimer (c : Printer × Bool) : Prop := Loaded c.1 ∧ c.2 = false

/-- The timer that is added is not pending. -/
def NotPending (c : Printer × Bool) (a : Act) : Prop :=
  (timerStep c a).isSome = true → addsTimer c.1 a = true → c.1.timer = false

/-- Where the callback finds the printer busy, output is still active and nobody has armed
the timer since it expired; the worker writes only while output is active. -/
def TestHolds (c : Printer × Bool) : Act → Prop
  | .callbackSection status => stillBusy status = true → c.1.active = true ∧ c.2 = false
  | .workModTimer => c.1.active = true
  | _ => True

instance (c : Printer × Bool) : ∀ a, Decidable (TestHolds c a)
  | .callbackSection _ => inferInstanceAs (Decidable (_ → _))
  | .workModTimer => inferInstanceAs (Decidable (_ = _))
  | .shortpWrite _ | .loadTail _ _ | .loadTailAgain _ _ _ | .interrupted _ _ | .copy _ _ _ _
  | .advanceHead _ _ _ | .writerSection _ _ | .writeDone _ | .runWork | .workSection | .workStop
  | .workDelTimer | .workStrobe | .workDone | .irq | .irqQueue | .expire | .callbackTest
  | .callbackInterrupt | .callbackQueue => inferInstanceAs (Decidable True)

/-- When output is active, the timer may be pending; and when the worker is about to
delete it. -/
structure Armed (c : Printer × Bool) : Prop where
  timer : c.1.timer = true → c.1.active = true ∨ c.1.worker = .stopping
  /-- From the expiry to the section under the lock. -/
  callback : c.1.callback = .started ∨ c.1.callback = .passed → c.2 = false → c.1.timer = false

section Steps

variable {c c' : Printer × Bool} {a : Act}

theorem armed_timer_step (h : Armed c) (hq : TestHolds c a) (hg : guard c.1 a) :
    (update c.1 a).timer = true →
      (update c.1 a).active = true ∨ (update c.1 a).worker = .stopping := by
  have ht := h.timer
  cases a with
  | writerSection buf written => exact fun _ => Or.inl (startOutput_active c.1)
  | workStop => exact fun _ => Or.inr rfl
  | workDelTimer | expire => simp [update]
  | workModTimer => exact fun _ => Or.inl hq
  | runWork | workSection | workStrobe | workDone =>
      -- the worker is not about to delete the timer
      intro htimer
      refine Or.inl ((ht htimer).resolve_right ?_)
      simp only [guard] at hg
      simp [hg]
  | callbackSection status =>
      intro htimer
      simp only [update] at htimer ⊢
      split at htimer
      · rename_i hbusy
        rw [if_pos hbusy]
        exact Or.inl (hq hbusy).1
      · rename_i hbusy
        rw [if_neg hbusy]
        exact ht htimer
  | shortpWrite _ | loadTail _ _ | loadTailAgain _ _ _ | interrupted _ _ | copy _ _ _ _
  | advanceHead _ _ _ | writeDone _ | irq | irqQueue | callbackTest | callbackInterrupt
  | callbackQueue => exact ht

theorem armed_callback_step (h : Armed c) (hg : guard c.1 a) :
    (update c.1 a).callback = .started ∨ (update c.1 a).callback = .passed →
      rearmed c.1 a c.2 = false → (update c.1 a).timer = false := by
  have hcb := h.callback
  cases a with
  | writerSection buf written =>
      intro hat hclean
      simp only [rearmed, Bool.or_eq_false_iff, Bool.not_eq_false'] at hclean
      obtain ⟨hact, hclean⟩ := hclean
      simp only [update, shortpStartOutput, hact, if_true] at hat ⊢
      exact hcb hat hclean
  | workModTimer => simp [rearmed]
  | workDelTimer | expire => exact fun _ _ => rfl
  | callbackTest => exact fun _ hclean => hcb (Or.inl hg) hclean
  | callbackSection status =>
      intro hat
      simp only [update] at hat
      split at hat <;> simp at hat
  | callbackInterrupt =>
      intro hat
      simp only [update] at hat
      split at hat <;> simp at hat
  | callbackQueue => simp [update]
  | shortpWrite _ | loadTail _ _ | loadTailAgain _ _ _ | interrupted _ _ | copy _ _ _ _
  | advanceHead _ _ _ | writeDone _ | irq | irqQueue | runWork | workSection | workStop
  | workStrobe | workDone => exact hcb

theorem armed_step (h : Armed c) (hq : TestHolds c a) (hs : timerStep c a = some c') :
    Armed c' := by
  obtain ⟨hs, hnext⟩ := recorded_eq_some.mp hs
  obtain ⟨hg, hupd⟩ := guarded_eq_some.mp hs
  constructor
  · rw [hupd]
    exact armed_timer_step h hq hg
  · rw [hupd, hnext]
    exact armed_callback_step h hg

theorem armed_notPending (h : Armed c) (hq : TestHolds c a) : NotPending c a := by
  intro hs hadds
  obtain ⟨c', hs⟩ := Option.isSome_iff_exists.mp hs
  obtain ⟨hg, _⟩ := guarded_eq_some.mp (recorded_eq_some.mp hs).1
  cases a with
  | writerSection buf written =>
      have hoff : c.1.active = false := by simpa [addsTimer] using hadds
      have hlocked := hg.2
      by_contra htimer
      rcases h.timer (by simpa using htimer) with hact | hstop
      · simp [hoff] at hact
      · simp [hstop, Worker.locked] at hlocked
  | callbackSection status => exact h.callback (Or.inr hg.1) (hq hadds).2
  | _ => simp [addsTimer] at hadds

end Steps

theorem armed_loaded {c : Printer × Bool} (hc : LoadedTimer c) : Armed c := by
  obtain ⟨⟨page, hs⟩, _⟩ := hc
  constructor
  · simp [hs]
  · simp [hs]

/-- In every run in which what the callback and the worker rely on holds, no pending
timer is added. -/
theorem timer_added_once {c : Printer × Bool} {as : List Act} (hc : LoadedTimer c)
    (hq : Along timerStep TestHolds c as) : Along timerStep NotPending c as :=
  along_of_invariant Armed (fun _ _ h hq => armed_notPending h hq)
    (fun _ _ _ h hq hs => armed_step h hq hs) (armed_loaded hc) hq

/-- The timer expires, the printer is found busy, and output goes on by the interrupt. -/
def busyPrinter : List Act :=
  lostInterrupt ++ [.callbackTest, .callbackSection 0, .irq, .irqQueue, .runWork, .workSection,
    .workModTimer, .workStrobe, .workDone]

theorem timer_added_once_busy : (run timerStep (loaded, false) busyPrinter).isSome = true ∧
    Along timerStep NotPending (loaded, false) busyPrinter := by
  exact ⟨by decide, timer_added_once ⟨⟨fun _ => 0, rfl⟩, rfl⟩ (by decide)⟩

/-- The interrupt comes after all, between the test of the callback and its section: the
worker writes the second byte and arms the timer. -/
def lateInterrupt : List Act :=
  lostInterrupt ++ [.callbackTest, .irq, .irqQueue, .runWork, .workSection, .workModTimer,
    .workStrobe]

/-- The callback then adds the timer that the worker has armed. -/
theorem timer_added_twice : ∃ s, Reachable step Loaded s ∧
    (step s (.callbackSection 0)).isSome = true ∧ addsTimer s (.callbackSection 0) = true ∧
    s.timer = true :=
  ⟨_, ⟨loaded, lateInterrupt, ⟨fun _ => 0, rfl⟩, rfl⟩, by decide, by decide, rfl⟩

end Printer

end ShortPrint
