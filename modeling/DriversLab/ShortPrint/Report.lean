import DriversLab.ShortPrint.Driver

/-!
# ShortPrint.Report — what a write says it has written

`shortp_write` queues its data in chunks, and can leave after any of them: at the end of
the data, by a signal in a wait, or by a fault of `copy_from_user`.

* `queuedNow`: how many bytes of the current call have been queued;
* `counted_step`: `written` is that number, wherever the call stands;
* `reports_iff`: what the call returns, and by how much it moves `*f_pos`, is that number
  too, unless a chunk behind the first one faults.
-/

namespace ShortPrint

open Lts

/-- `written`, inside of a call. -/
def Writer.written : Writer → Option ℕ
  | .returned _ _ => none
  | .looping _ written | .waiting _ written | .loaded _ written _ | .room _ written _
  | .copied _ written _ | .advanced _ written => some written

namespace Printer

/-- The history: the bytes of the current call that the head has passed. -/
def queuedNow (_ : Printer) (a : Act) (k : ℕ) : ℕ :=
  match a with
  | .shortpWrite _ => 0
  | .advanceHead _ _ n => k + n
  | _ => k

/-- The system with that history. -/
def queuedStep : Printer × ℕ → Act → Option (Printer × ℕ) := recorded step queuedNow

def LoadedQueued (c : Printer × ℕ) : Prop := Loaded c.1 ∧ c.2 = 0

/-! ## What is promised, and when it holds -/

/-- The step ends a call. -/
def Returns : Act → Prop
  | .interrupted _ _ | .writeDone _ | .copy _ _ _ (some _) => True
  | _ => False

/-- The call that has just ended returned the number of bytes that it had queued, or an
error and had queued none, and moved `*f_pos` by as many. -/
def Reports (c : Printer × ℕ) : Prop :=
  ∃ ret moved, c.1.writer = .returned ret moved ∧ (c.2 : ℤ) = max ret 0 ∧ moved = c.2

/-- `copy_from_user` faults in a chunk behind the first one. -/
def LateFault : Act → Prop
  | .copy _ written _ (some _) => 0 < written
  | _ => False

/-! ## The count -/

/-- `written` is what has been queued. -/
def Counted (c : Printer × ℕ) : Prop := ∀ k, c.1.writer.written = some k → c.2 = k

section Steps

variable {c c' : Printer × ℕ} {a : Act}

/-- A step of another party, or of the writer if it goes on with the same count. -/
theorem counted_same (hc : Counted c) (hwritten : c'.1.writer.written = c.1.writer.written)
    (hk : c'.2 = c.2) : Counted c' := by
  intro k hw
  rw [hwritten] at hw
  rw [hk]
  exact hc k hw

/-- A step that ends the call. -/
theorem counted_returned {ret : ℤ} {moved : ℕ} (hwriter : c'.1.writer = .returned ret moved) :
    Counted c' := by
  intro k hw
  rw [hwriter] at hw
  cases hw

theorem counted_step (hc : Counted c) (hs : queuedStep c a = some c') : Counted c' := by
  obtain ⟨s, k⟩ := c
  obtain ⟨s', k'⟩ := c'
  obtain ⟨hstep, hk⟩ := recorded_eq_some.mp hs
  simp only at hstep hk
  obtain ⟨hg, rfl⟩ := guarded_eq_some.mp hstep
  subst hk
  cases a with
  | shortpWrite buf =>
      intro n hn
      cases hn
      rfl
  | loadTail buf written =>
      refine counted_same hc ?_ rfl
      rcases hg with ⟨hw, _⟩ | hw
      · simp [update, hw, Writer.written]
      · simp [update, hw, Writer.written]
  | loadTailAgain buf written tail =>
      have hw : s.writer = .loaded buf written tail := hg
      refine counted_same hc ?_ rfl
      simp only [update, hw]
      split
      · rfl
      · rfl
  | interrupted buf written => exact counted_returned rfl
  | copy buf written space fault =>
      have hw : s.writer = .room buf written space := hg
      cases fault with
      | some n => exact counted_returned rfl
      | none => exact counted_same hc (by simp [update, hw, Writer.written]) rfl
  | advanceHead buf written n =>
      have hw : s.writer = .copied buf written n := hg
      have hold := hc written (by rw [hw]; rfl)
      intro m hm
      cases hm
      exact congrArg (· + n) hold
  | writerSection buf written =>
      refine counted_same hc ?_ rfl
      rw [hg.1]
      rfl
  | writeDone written => exact counted_returned rfl
  | callbackSection status =>
      refine counted_same hc ?_ rfl
      simp only [update]
      split
      · rfl
      · rfl
  | runWork | workSection | workStop | workDelTimer | workModTimer | workStrobe | workDone | irq
  | irqQueue | expire | callbackTest | callbackInterrupt | callbackQueue =>
      exact counted_same hc rfl rfl

theorem counted_reachable (hr : Reachable queuedStep LoadedQueued c) : Counted c := by
  refine reachable_invariant ?_ (fun _ _ _ hc hs => counted_step hc hs) hr
  rintro ⟨s, k⟩ ⟨⟨page, rfl⟩, rfl⟩
  exact counted_returned rfl

/-- The call returns `written`, and moves `*f_pos` by it. -/
theorem reports_written {s : Printer} {written k : ℕ} (hw : s.writer = .returned written written)
    (hk : k = written) : Reports (s, k) := by
  refine ⟨written, written, hw, ?_, hk.symm⟩
  simp only [hk]
  omega

end Steps

/-- In every reachable state, a call that ends reports what it has queued, exactly if it
does not end by a fault behind its first chunk. -/
theorem reports_iff {c c' : Printer × ℕ} (hr : Reachable queuedStep LoadedQueued c) {a : Act}
    (ha : Returns a) (hs : queuedStep c a = some c') : Reports c' ↔ ¬ LateFault a := by
  have hc := counted_reachable hr
  obtain ⟨s, k⟩ := c
  obtain ⟨s', k'⟩ := c'
  obtain ⟨hstep, hk⟩ := recorded_eq_some.mp hs
  simp only at hstep hk
  obtain ⟨hg, rfl⟩ := guarded_eq_some.mp hstep
  subst hk
  cases a with
  | interrupted buf written =>
      have hw : s.writer = .waiting buf written := hg
      have hold := hc written (by rw [hw]; rfl)
      exact ⟨fun _ hlate => hlate, fun _ => reports_written rfl hold⟩
  | writeDone written =>
      have hw : s.writer = .looping [] written := hg
      have hold := hc written (by rw [hw]; rfl)
      exact ⟨fun _ hlate => hlate, fun _ => reports_written rfl hold⟩
  | copy buf written space fault =>
      have hw : s.writer = .room buf written space := hg
      have hold := hc written (by rw [hw]; rfl)
      simp only at hold
      cases fault with
      | none => exact absurd ha id
      | some n =>
          -- the call returns -EFAULT, whatever it has queued
          constructor
          · rintro ⟨ret, moved, hwriter, hqueued, hmoved⟩ hlate
            cases hwriter
            have hpos : 0 < written := hlate
            simp only [queuedNow, hold] at hmoved
            omega
          · intro hfirst
            have hzero : written = 0 := Nat.eq_zero_of_not_pos hfirst
            refine ⟨-EFAULT, 0, rfl, ?_, ?_⟩
            · simp only [queuedNow, hold, hzero]
              decide
            · simp only [queuedNow, hold, hzero]
  | _ => exact absurd ha id

theorem loaded_queued : LoadedQueued (loaded, 0) := ⟨⟨fun _ => 0, rfl⟩, rfl⟩

theorem queuedStep_of_guard {c : Printer × ℕ} {a : Act} (hg : guard c.1 a) :
    queuedStep c a = some (update c.1 a, queuedNow c.1 a c.2) :=
  recorded_eq_some.mpr ⟨guarded_eq_some.mpr ⟨hg, rfl⟩, rfl⟩

/-- One byte more than fits into the page at once. -/
def pageful : List UInt8 := List.replicate 4096 7

theorem pageful_ne_nil : pageful ≠ [] := by
  apply List.ne_nil_of_length_pos
  rw [pageful, List.length_replicate]
  decide

theorem pageful_drop : pageful.drop 4095 = [7] := by
  rw [pageful, List.drop_replicate]
  rfl

theorem pageful_copied : (update (update (update (update loaded (.shortpWrite pageful))
    (.loadTail pageful 0)) (.loadTailAgain pageful 0 0)) (.copy pageful 0 4095 none)).writer =
      .copied pageful 0 4095 := by
  have hchunk : (chunk pageful 4095).length = 4095 := by
    rw [chunk, pageful, List.take_replicate, List.length_replicate]
    rfl
  exact congrArg (Writer.copied pageful 0) hchunk

/-- All but the last byte are queued, and the write finds no room for that. -/
def fullPage : List Act :=
  [.shortpWrite pageful, .loadTail pageful 0, .loadTailAgain pageful 0 0,
    .copy pageful 0 4095 none, .advanceHead pageful 0 4095, .writerSection [7] 4095,
    .loadTail [7] 4095, .loadTailAgain [7] 4095 0]

theorem fullPage_run : ∃ s, run queuedStep (loaded, 0) fullPage = some (s, 4095) ∧
    s.writer = .waiting [7] 4095 := by
  refine ⟨_, run_cons.mpr ⟨_, queuedStep_of_guard ⟨0, 0, rfl⟩,
    run_cons.mpr ⟨_, queuedStep_of_guard (Or.inl ⟨rfl, pageful_ne_nil⟩),
    run_cons.mpr ⟨_, queuedStep_of_guard rfl,
    run_cons.mpr ⟨_, queuedStep_of_guard rfl,
    run_cons.mpr ⟨_, queuedStep_of_guard pageful_copied,
    run_cons.mpr ⟨_, queuedStep_of_guard ⟨congrArg (Writer.advanced · 4095) pageful_drop, rfl⟩,
    run_cons.mpr ⟨_, queuedStep_of_guard (Or.inl ⟨rfl, by simp⟩),
    run_cons.mpr ⟨_, queuedStep_of_guard rfl, rfl⟩⟩⟩⟩⟩⟩⟩⟩, rfl⟩

/-- A signal ends the wait, with 4095 bytes queued: that is what the call returns. -/
theorem reports_iff_signal : ∃ c c', Reachable queuedStep LoadedQueued c ∧
    queuedStep c (.interrupted [7] 4095) = some c' ∧ c'.2 = 4095 ∧ Reports c' := by
  obtain ⟨s, hrun, hwriter⟩ := fullPage_run
  have hr : Reachable queuedStep LoadedQueued (s, 4095) := ⟨_, _, loaded_queued, hrun⟩
  have hs := queuedStep_of_guard (c := (s, 4095)) (a := .interrupted [7] 4095) hwriter
  have hends : Returns (.interrupted [7] 4095) := trivial
  exact ⟨(s, 4095), _, hr, hs, rfl, (reports_iff hr hends hs).mpr id⟩

/-- All but the last byte are queued, one goes out, and the write finds room for the last. -/
def lastChunk : List Act :=
  [.shortpWrite pageful, .loadTail pageful 0, .loadTailAgain pageful 0 0,
    .copy pageful 0 4095 none, .advanceHead pageful 0 4095, .writerSection [7] 4095,
    .loadTail [7] 4095, .runWork, .workSection, .workModTimer, .workStrobe,
    .loadTailAgain [7] 4095 0]

theorem lastChunk_run : ∃ s, run queuedStep (loaded, 0) lastChunk = some (s, 4095) ∧
    s.writer = .room [7] 4095 1 := by
  refine ⟨_, run_cons.mpr ⟨_, queuedStep_of_guard ⟨0, 0, rfl⟩,
    run_cons.mpr ⟨_, queuedStep_of_guard (Or.inl ⟨rfl, pageful_ne_nil⟩),
    run_cons.mpr ⟨_, queuedStep_of_guard rfl,
    run_cons.mpr ⟨_, queuedStep_of_guard rfl,
    run_cons.mpr ⟨_, queuedStep_of_guard pageful_copied,
    run_cons.mpr ⟨_, queuedStep_of_guard ⟨congrArg (Writer.advanced · 4095) pageful_drop, rfl⟩,
    run_cons.mpr ⟨_, queuedStep_of_guard (Or.inl ⟨rfl, by simp⟩),
    run_cons.mpr ⟨_, queuedStep_of_guard ⟨rfl, rfl⟩,
    run_cons.mpr ⟨_, queuedStep_of_guard rfl,
    run_cons.mpr ⟨_, queuedStep_of_guard rfl,
    run_cons.mpr ⟨_, queuedStep_of_guard rfl,
    run_cons.mpr ⟨_, queuedStep_of_guard rfl, rfl⟩⟩⟩⟩⟩⟩⟩⟩⟩⟩⟩⟩, rfl⟩

/-- The copy of that last byte faults: the call returns -EFAULT and leaves `*f_pos`, with
4095 bytes in the buffer or on their way. -/
theorem reports_lateFault : ∃ c c', Reachable queuedStep LoadedQueued c ∧
    queuedStep c (.copy [7] 4095 1 (some 0)) = some c' ∧
      c'.1.writer = .returned (-EFAULT) 0 ∧ c'.2 = 4095 ∧ ¬ Reports c' := by
  obtain ⟨s, hrun, hwriter⟩ := lastChunk_run
  refine ⟨(s, 4095), _, ⟨_, _, loaded_queued, hrun⟩, queuedStep_of_guard hwriter, rfl, rfl, ?_⟩
  rintro ⟨ret, moved, hret, _, hmoved⟩
  cases hret
  cases hmoved

end Printer

end ShortPrint
