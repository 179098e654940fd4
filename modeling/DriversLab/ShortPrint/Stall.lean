import DriversLab.ShortPrint.Output

/-!
# ShortPrint.Stall — somebody is left to go on

The writer, the worker, the interrupt handler and the timer callback hand the duty to
print the next byte to one another.

* `Going`: who has it, in every state;
* `output_goes_on`: while output is active the timer is pending, the work item is queued
  or executing, or the callback is executing; and the page is only left alone when it is
  empty;
* `duty_before_test`: the callback has the duty from its first instruction on, and not
  only once it has tested `shortp_output_active`.
-/

namespace ShortPrint

open Lts

/-- Between the move of the head and the section under the lock. -/
def Writer.isAdvanced : Writer → Bool
  | advanced _ _ => true
  | returned _ _ | looping _ _ | waiting _ _ | loaded _ _ _ | room _ _ _ | copied _ _ _ => false

/-- Executing, past the test of `shortp_output_active`. -/
def Callback.pastTest : Callback → Bool
  | passed | missed | queueing => true
  | idle | started => false

namespace Printer

/-- What is in the page is being printed, or is about to be. -/
def Covered (s : Printer) : Prop := s.active = true ∨ s.writer.isAdvanced = true

/-- Somebody will come back to the page. -/
def Attended (s : Printer) : Prop :=
  s.timer = true ∨ s.queued = true ∨ s.callback ≠ .idle ∨
    s.worker = .starting ∨ s.worker = .empty ∨ s.worker = .writing

structure Going (s : Printer) : Prop where
  attended : s.active = true → Attended s
  stopping : s.worker = .stopping → s.active = false
  /-- The writer can move the head under the worker's eyes, but not get at the lock. -/
  empty : s.worker = .empty → s.head = s.tail ∨ s.writer.isAdvanced = true
  writing : s.worker = .writing ∨ s.worker = .armed → Covered s
  covered : s.head ≠ s.tail → Covered s

section Steps

variable {s s' : Printer} {a : Act}

theorem startOutput_active (s : Printer) : s.shortpStartOutput.active = true := by
  unfold shortpStartOutput
  split
  · assumption
  · rfl

/-- Output is started with the timer and the work item. -/
theorem startOutput_attended (hs : s.active = true → Attended s) :
    Attended s.shortpStartOutput := by
  unfold shortpStartOutput
  split
  · exact hs ‹_›
  · exact Or.inl rfl

theorem attended_step (h : Going s) (hg : guard s a) :
    (update s a).active = true → Attended (update s a) := by
  have hatt := h.attended
  cases a with
  | writerSection buf written => exact fun _ => startOutput_attended hatt
  | runWork => exact fun _ => Or.inr (Or.inr (Or.inr (Or.inl rfl)))
  | workSection =>
      intro _
      simp only [Attended, update]
      split <;> simp
  | workStop => simp [update]
  | workDelTimer =>
      have hoff := h.stopping hg
      simp [update, hoff]
  | workModTimer => exact fun _ => Or.inl rfl
  | workStrobe =>
      have hw : s.worker = .armed := hg
      simpa [Attended, update, hw] using hatt
  | workDone =>
      have hw : s.worker = .finishing := hg
      simpa [Attended, update, hw] using hatt
  | irqQueue | callbackQueue => exact fun _ => Or.inr (Or.inl rfl)
  | expire => exact fun _ => Or.inr (Or.inr (Or.inl (by simp [update])))
  | callbackTest | callbackInterrupt =>
      intro hact
      have hact' : s.active = true := hact
      exact Or.inr (Or.inr (Or.inl (by simp [update, hact'])))
  | callbackSection status =>
      intro _
      simp only [update]
      split
      · exact Or.inl rfl
      · exact Or.inr (Or.inr (Or.inl (by simp)))
  | shortpWrite _ | loadTail _ _ | loadTailAgain _ _ _ | interrupted _ _ | copy _ _ _ _
  | advanceHead _ _ _ | writeDone _ | irq => exact hatt

theorem stopping_step (h : Going s) (hg : guard s a) :
    (update s a).worker = .stopping → (update s a).active = false := by
  cases a with
  | writerSection buf written =>
      -- the lock is free
      intro hw
      have hlocked := hg.2
      have hworker := (startOutput_frame s).2.2.2.2
      simp only [update, hworker] at hw
      simp [hw, Worker.locked] at hlocked
  | workSection =>
      simp only [update]
      split <;> simp
  | callbackSection status =>
      simp only [update]
      split <;> exact h.stopping
  | workStop => exact fun _ => rfl
  | runWork | workDelTimer | workModTimer | workStrobe | workDone => simp [update]
  | shortpWrite _ | loadTail _ _ | loadTailAgain _ _ _ | interrupted _ _ | copy _ _ _ _
  | advanceHead _ _ _ | writeDone _ | irq | irqQueue | expire | callbackTest
  | callbackInterrupt | callbackQueue => exact h.stopping

/-- A step of the writer takes it out of the place in front of the lock only with the
lock. -/
theorem advanced_step (hg : guard s a) (hadv : s.writer.isAdvanced = true) :
    (∃ buf written, a = .writerSection buf written) ∨ (update s a).writer.isAdvanced = true := by
  cases a with
  | writerSection buf written => exact Or.inl ⟨buf, written, rfl⟩
  | shortpWrite buf =>
      obtain ⟨ret, moved, hw⟩ := hg
      simp [hw, Writer.isAdvanced] at hadv
  | loadTail buf written =>
      rcases hg with ⟨hw, _⟩ | hw <;> simp [hw, Writer.isAdvanced] at hadv
  | loadTailAgain _ _ _ | interrupted _ _ | copy _ _ _ _ | advanceHead _ _ _ | writeDone _ =>
      simp only [guard] at hg
      simp [hg, Writer.isAdvanced] at hadv
  | callbackSection status =>
      simp only [update]
      split <;> exact Or.inr hadv
  | _ => exact Or.inr hadv

/-- Only the worker stops output. -/
theorem active_step (hact : s.active = true) (hne : a ≠ .workStop) :
    (update s a).active = true := by
  cases a with
  | workStop => exact absurd rfl hne
  | writerSection buf written => exact startOutput_active s
  | callbackSection status =>
      simp only [update]
      split <;> exact hact
  | _ => exact hact

theorem covered_step (hg : guard s a) (hc : Covered s) (hne : a ≠ .workStop) :
    Covered (update s a) := by
  rcases hc with hact | hadv
  · exact Or.inl (active_step hact hne)
  · rcases advanced_step hg hadv with ⟨buf, written, rfl⟩ | hadv'
    · exact Or.inl (startOutput_active s)
    · exact Or.inr hadv'

/-- The pointers are moved in one place each. -/
theorem pointers_step : (∃ buf written n, a = .advanceHead buf written n) ∨ a = .workStrobe ∨
    (update s a).head = s.head ∧ (update s a).tail = s.tail := by
  cases a with
  | advanceHead buf written n => exact Or.inl ⟨buf, written, n, rfl⟩
  | workStrobe => exact Or.inr (Or.inl rfl)
  | writerSection buf written =>
      obtain ⟨_, hhead, htail, _, _⟩ := startOutput_frame s
      exact Or.inr (Or.inr ⟨hhead, htail⟩)
  | callbackSection status =>
      simp only [update]
      split <;> exact Or.inr (Or.inr ⟨rfl, rfl⟩)
  | _ => exact Or.inr (Or.inr ⟨rfl, rfl⟩)

theorem empty_of_update (hw : (update s a).worker = .empty) :
    s.worker = .empty ∨ a = .workSection ∧ s.head = s.tail := by
  cases a with
  | workSection =>
      simp only [update] at hw
      split at hw
      · exact Or.inr ⟨rfl, ‹_›⟩
      · simp at hw
  | writerSection buf written => exact Or.inl ((startOutput_frame s).2.2.2.2 ▸ hw)
  | callbackSection status =>
      simp only [update] at hw
      split at hw <;> exact Or.inl hw
  | runWork | workStop | workDelTimer | workModTimer | workStrobe | workDone => simp [update] at hw
  | _ => exact Or.inl hw

theorem writing_of_update (hg : guard s a)
    (hw : (update s a).worker = .writing ∨ (update s a).worker = .armed) :
    (s.worker = .writing ∨ s.worker = .armed) ∨ a = .workSection ∧ s.head ≠ s.tail := by
  cases a with
  | workSection =>
      simp only [update] at hw
      split at hw
      · simp at hw
      · exact Or.inr ⟨rfl, ‹_›⟩
  | writerSection buf written => exact Or.inl ((startOutput_frame s).2.2.2.2 ▸ hw)
  | callbackSection status =>
      simp only [update] at hw
      split at hw <;> exact Or.inl hw
  | workModTimer => exact Or.inl (Or.inl hg)
  | runWork | workStop | workDelTimer | workStrobe | workDone => simp [update] at hw
  | _ => exact Or.inl hw

theorem empty_step (h : Going s) (hg : guard s a) (hw : (update s a).worker = .empty) :
    (update s a).head = (update s a).tail ∨ (update s a).writer.isAdvanced = true := by
  rcases pointers_step (s := s) (a := a) with ⟨buf, written, n, rfl⟩ | rfl | ⟨hhead, htail⟩
  · exact Or.inr rfl
  · simp [update] at hw
  · rw [hhead, htail]
    rcases empty_of_update hw with hempty | ⟨rfl, heq⟩
    · rcases h.empty hempty with heq | hadv
      · exact Or.inl heq
      · rcases advanced_step hg hadv with ⟨buf, written, rfl⟩ | hadv'
        · -- the lock is the worker's
          have hlocked := hg.2
          simp [hempty, Worker.locked] at hlocked
        · exact Or.inr hadv'
    · exact Or.inl heq

theorem writing_step (h : Going s) (hg : guard s a)
    (hw : (update s a).worker = .writing ∨ (update s a).worker = .armed) :
    Covered (update s a) := by
  have hne : a ≠ .workStop := by
    rintro rfl
    simp [update] at hw
  rcases writing_of_update hg hw with hw | ⟨rfl, hpending⟩
  · exact covered_step hg (h.writing hw) hne
  · exact covered_step hg (h.covered hpending) hne

theorem served_step (h : Going s) (hg : guard s a)
    (hpending : (update s a).head ≠ (update s a).tail) : Covered (update s a) := by
  rcases pointers_step (s := s) (a := a) with ⟨buf, written, n, rfl⟩ | rfl | ⟨hhead, htail⟩
  · exact Or.inr rfl
  · exact covered_step hg (h.writing (Or.inr hg)) (by simp)
  · rw [hhead, htail] at hpending
    by_cases hstop : a = .workStop
    · -- the worker has found the page empty, so the writer has come after that
      subst hstop
      exact Or.inr ((h.empty hg).resolve_left hpending)
    · exact covered_step hg (h.covered hpending) hstop

theorem going_step (h : Going s) (hs : step s a = some s') : Going s' := by
  obtain ⟨hg, rfl⟩ := guarded_eq_some.mp hs
  exact ⟨attended_step h hg, stopping_step h hg, empty_step h hg, writing_step h hg,
    served_step h hg⟩

end Steps

theorem going_loaded {s : Printer} (hs : Loaded s) : Going s := by
  obtain ⟨page, rfl⟩ := hs
  constructor <;> simp

/-- In every reachable state: while output is active, the timer is pending, or the work
item is queued or executing, or a timer callback is executing; and while there is
something in the page and no writer is between the move of the head and its section
under the lock, output is active. -/
theorem output_goes_on {s : Printer} (hr : Reachable step Loaded s) :
    (s.active = true →
        s.timer = true ∨ (s.queued = true ∨ s.worker ≠ .idle) ∨ s.callback ≠ .idle) ∧
      (s.head ≠ s.tail → s.writer.isAdvanced = false → s.active = true) := by
  have h : Going s := reachable_invariant (fun _ => going_loaded) (fun _ _ _ => going_step) hr
  constructor
  · intro hact
    rcases h.attended hact with htimer | hqueued | hcallback | hw | hw | hw
    · exact Or.inl htimer
    · exact Or.inr (Or.inl (Or.inl hqueued))
    · exact Or.inr (Or.inr hcallback)
    all_goals exact Or.inr (Or.inl (Or.inr (by simp [hw])))
  · intro hpending hadv
    refine (h.covered hpending).resolve_right ?_
    simp [hadv]

/-- Two bytes are written, one goes out, and its interrupt is lost. -/
def lostInterrupt : List Act :=
  [.shortpWrite [7, 8], .loadTail [7, 8] 0, .loadTailAgain [7, 8] 0 0, .copy [7, 8] 0 4095 none,
    .advanceHead [7, 8] 0 2, .writerSection [] 2, .writeDone 2, .runWork, .workSection,
    .workModTimer, .workStrobe, .workDone, .expire]

theorem output_goes_on_lost_interrupt : ∃ s, run step loaded lostInterrupt = some s ∧
    s.active = true ∧ s.head ≠ s.tail ∧ (s.timer = true ∨
      (s.queued = true ∨ s.worker ≠ .idle) ∨ s.callback ≠ .idle) := by
  refine ⟨_, rfl, rfl, by decide, ?_⟩
  exact (output_goes_on ⟨loaded, lostInterrupt, ⟨fun _ => 0, rfl⟩, rfl⟩).1 rfl

/-- Before its test, the callback alone has the duty. -/
theorem duty_before_test : ∃ s, Reachable step Loaded s ∧ s.active = true ∧
    ¬ (s.timer = true ∨ (s.queued = true ∨ s.worker ≠ .idle) ∨ s.callback.pastTest = true) :=
  ⟨_, ⟨loaded, lostInterrupt, ⟨fun _ => 0, rfl⟩, rfl⟩, rfl, by decide⟩

end Printer

end ShortPrint
