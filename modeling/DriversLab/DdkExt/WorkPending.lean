import DriversLab.DdkExt.System

/-!
# DdkExt.WorkPending — no blink request is lost and none is doubled

`work_pending` repeats the kernel's own pending bit of `blink_work`, but is
cleared by the worker's snapshot section, not when the item is dequeued. The
invariant `PendingInv` relates the two through the window in between:

* the flag is set exactly while the item is queued or the worker has been
  dequeued and has not taken its snapshot;
* in that window the item is not queued again.

From it: every `schedule_work` call finds the item not queued, and a request
made after a report is served by a later snapshot.
-/

namespace DdkExt

open Lts

variable {j : Jiffies}

/-- The worker is queued or has started and will take a snapshot. -/
def Due (s : Sys) : Prop := s.ext.blinkWork = true ∨ s.worker = .dequeued

/-- The invariant that carries everything below. -/
structure PendingInv (s : Sys) : Prop where
  flag : s.ext.workPending = true ↔ Due s
  excl : s.worker = .dequeued → s.ext.blinkWork = false
  /-- Between its two LED calls the loop is inside its bound. -/
  lit : ∀ b, s.worker = .blinking b → b.lit = true → b.i < b.count

/-- The action calls `schedule_work`. -/
def Schedules (s : Sys) (a : Act) : Prop :=
  s.ext.workPending = false ∧ ((∃ t, a = .cbQueue t) ∨ ∃ t d, a = .queueWork t d)

/-- A step of `blink_worker`. -/
def IsWorker : Act → Prop
  | .dequeue | .snapshot | .led _ _ | .finishBlink _ => True
  | _ => False

/-! ## The invariant -/

theorem pendingInv_init (created : Bool) (m n k : ℕ) : PendingInv (init created m n k) := by
  refine ⟨?_, ?_, ?_⟩ <;> simp [init, ddkExtInit, Due]

/-- Queueing keeps the invariant whatever happens to the other parties. -/
theorem pendingInv_queueBlink {s s' : Sys} (hi : PendingInv s) (he : s'.ext = s.ext.queueBlink)
    (hw : s'.worker = s.worker) : PendingInv s' := by
  have hflag := hi.flag
  have hexcl := hi.excl
  refine ⟨?_, ?_, ?_⟩
  · -- the flag is set now; it was set already, or the item has just been queued
    simp only [Due, he, hw, DdkExtState.queueBlink_eq, true_iff]
    cases hp : s.ext.workPending with
    | false => simp
    | true => simpa [Due, hp] using hflag
  · intro hd
    rw [hw] at hd
    have hp : s.ext.workPending = true := hflag.mpr (Or.inr hd)
    simp [he, DdkExtState.queueBlink_eq, hp, hexcl hd]
  · rw [hw]
    exact hi.lit

/-- A step that touches neither the worker nor the two marks keeps the
invariant. -/
theorem pendingInv_frame {s s' : Sys} (hi : PendingInv s)
    (hp : s'.ext.workPending = s.ext.workPending) (hb : s'.ext.blinkWork = s.ext.blinkWork)
    (hw : s'.worker = s.worker) : PendingInv s' := by
  refine ⟨?_, ?_, ?_⟩
  · simpa only [Due, hp, hb, hw] using hi.flag
  · simpa only [hb, hw] using hi.excl
  · simpa only [hw] using hi.lit

theorem pendingInv_step {s s' : Sys} {a : Act} (hi : PendingInv s)
    (hs : step j s a = some s') : PendingInv s' := by
  rcases step_eq_some.mp hs with ⟨hg, rfl⟩
  cases a with
  | onWriteSuccess t len => exact pendingInv_frame hi rfl rfl rfl
  | armTimer t d => exact pendingInv_frame hi rfl rfl rfl
  | queueWork t d => exact pendingInv_queueBlink hi rfl rfl
  | onWriteFail => exact pendingInv_frame hi rfl rfl rfl
  | fire t => exact pendingInv_frame hi rfl rfl rfl
  | cbQueue t => exact pendingInv_queueBlink hi rfl rfl
  | cbInterval t => exact pendingInv_frame hi rfl rfl rfl
  | cbRearm t d => exact pendingInv_frame hi rfl rfl rfl
  | dequeue =>
      -- the mark moves from the queue to the worker, the flag stays set
      rcases hg with ⟨hq, hw⟩
      have hp : s.ext.workPending = true := hi.flag.mpr (Or.inl hq)
      refine ⟨?_, ?_, ?_⟩ <;> simp [update, Due, hp]
  | snapshot =>
      -- the flag is cleared at the end of the window, in which nothing was queued
      have hg' : s.worker = .dequeued := hg
      have hb := hi.excl hg'
      refine ⟨?_, ?_, ?_⟩
      · simp [update, DdkExtState.clearPending, Due, hb]
      · intro hd
        cases hd
      · intro b hb' hl
        cases hb'
        cases hl
  | led b ret =>
      -- an LED that is lit now was lit under a true loop test
      rcases hg with ⟨hw, hlt⟩
      have hflag := hi.flag
      refine ⟨?_, ?_, ?_⟩
      · simpa [update, Due, hw] using hflag
      · intro hd
        cases hd
      · intro b' hb' hl
        cases hb'
        unfold Blinking.next at hl ⊢
        cases hl' : b.lit with
        | true => simp [hl'] at hl
        | false => simpa [hl'] using hlt
  | finishBlink b =>
      rcases hg with ⟨hw, _, _⟩
      have hflag := hi.flag
      refine ⟨?_, ?_, ?_⟩
      · simpa [update, Due, hw, DdkExtState.addBlinks] using hflag
      · intro hd
        cases hd
      · intro b' hb'
        cases hb'
  | procEnter t ubuf junk => exact pendingInv_frame hi rfl rfl rfl
  | procWrite t ubuf junk =>
      have hf := ddkProcWrite_frame ubuf junk s.ext
      exact pendingInv_frame hi hf.workPending hf.blinkWork rfl

theorem pendingInv_run {s s' : Sys} {as : List Act} (hi : PendingInv s)
    (hr : run (step j) s as = some s') : PendingInv s' :=
  run_invariant (fun _ _ _ h hs => pendingInv_step h hs) hi hr

/-! ## Every `schedule_work` takes effect -/

theorem schedule_takes_effect {s s' : Sys} {a : Act} (hi : PendingInv s)
    (hs : step j s a = some s') (ha : Schedules s a) :
    s.ext.blinkWork = false ∧ s'.ext.blinkWork = true := by
  rcases ha with ⟨hp, ha⟩
  have hnot : ¬ Due s := by
    intro hd
    rw [hi.flag.mpr hd] at hp
    cases hp
  have hb : s.ext.blinkWork = false := by
    cases hb : s.ext.blinkWork with
    | false => rfl
    | true => exact absurd (Or.inl hb) hnot
  rcases step_eq_some.mp hs with ⟨_, rfl⟩
  rcases ha with ⟨t, rfl⟩ | ⟨t, d, rfl⟩
  · exact ⟨hb, by simp [update, DdkExtState.queueBlink_eq, hp]⟩
  · exact ⟨hb, by simp [update, DdkExtState.queueBlink_eq, hp]⟩

/-! ## A request stays due until the next snapshot -/

theorem due_step {s s' : Sys} {a : Act} (hd : Due s) (hs : step j s a = some s')
    (ha : a ≠ .snapshot) : Due s' := by
  rcases step_eq_some.mp hs with ⟨hg, rfl⟩
  cases a with
  | onWriteSuccess t len => exact hd
  | armTimer t d => exact hd
  | queueWork t d =>
      rcases hd with hb | hw
      · exact Or.inl (by simp [update, DdkExtState.queueBlink_eq, hb])
      · exact Or.inr hw
  | onWriteFail => exact hd
  | fire t => exact hd
  | cbQueue t =>
      rcases hd with hb | hw
      · exact Or.inl (by simp [update, DdkExtState.queueBlink_eq, hb])
      · exact Or.inr hw
  | cbInterval t => exact hd
  | cbRearm t d => exact hd
  | dequeue => exact Or.inr rfl
  | snapshot => exact absurd rfl ha
  | led b ret =>
      rcases hd with hb | hw
      · exact Or.inl hb
      · rw [hg.1] at hw
        cases hw
  | finishBlink b =>
      rcases hd with hb | hw
      · exact Or.inl hb
      · rw [hg.1] at hw
        cases hw
  | procEnter t ubuf junk => exact hd
  | procWrite t ubuf junk =>
      rcases hd with hb | hw
      · exact Or.inl ((ddkProcWrite_frame ubuf junk s.ext).blinkWork.trans hb)
      · exact Or.inr hw

theorem due_run {s s' : Sys} {as : List Act} (hd : Due s) (hr : run (step j) s as = some s') :
    .snapshot ∈ as ∨ Due s' := by
  induction as generalizing s with
  | nil =>
      cases hr
      exact Or.inr hd
  | cons a as ih =>
      rcases run_cons.mp hr with ⟨m, hm, hr'⟩
      by_cases ha : a = .snapshot
      · exact Or.inl (by simp [ha])
      · rcases ih (due_step hd hm ha) hr' with h | h
        · exact Or.inl (List.mem_cons_of_mem _ h)
        · exact Or.inr h

/-- The second section of a report leaves a worker due. -/
theorem due_queueWork {s s' : Sys} {t : ℕ} {d : ℤ} (hi : PendingInv s)
    (hs : step j s (.queueWork t d) = some s') : Due s' := by
  have hi' := pendingInv_step hi hs
  rcases step_eq_some.mp hs with ⟨_, rfl⟩
  exact hi'.flag.mp (by simp [update, DdkExtState.queueBlink_eq])

/-! ## The caller between its two sections -/

theorem caller_step {s s' : Sys} {a : Act} {t : ℕ} {d : ℤ}
    (hc : s.callers[t]? = some (.sampled false d)) (hs : step j s a = some s')
    (ha : a ≠ .queueWork t d) : s'.callers[t]? = some (.sampled false d) := by
  rcases step_eq_some.mp hs with ⟨hg, rfl⟩
  -- the other callers move their own slots
  have hset : ∀ u c, u ≠ t → (s.callers.set u c)[t]? = some (.sampled false d) := by
    intro u c hu
    rwa [List.getElem?_set_ne hu]
  cases a with
  | onWriteSuccess u len =>
      refine hset u _ ?_
      rintro rfl
      rw [guard, hc] at hg
      cases hg
  | armTimer u d' =>
      refine hset u _ ?_
      rintro rfl
      rw [guard, hc] at hg
      cases hg
  | queueWork u d' =>
      refine hset u _ ?_
      rintro rfl
      rw [guard, hc] at hg
      cases hg
      exact ha rfl
  | onWriteFail => exact hc
  | fire u => exact hc
  | cbQueue u => exact hc
  | cbInterval u => exact hc
  | cbRearm u d' => exact hc
  | dequeue => exact hc
  | snapshot => exact hc
  | led b ret => exact hc
  | finishBlink b => exact hc
  | procEnter u ubuf junk => exact hc
  | procWrite u ubuf junk => exact hc

theorem caller_run {s s' : Sys} {as : List Act} {t : ℕ} {d : ℤ}
    (hc : s.callers[t]? = some (.sampled false d)) (hr : run (step j) s as = some s') :
    s'.callers[t]? = some (.sampled false d) ∨
      ∃ mid rest, as = mid ++ .queueWork t d :: rest := by
  induction as generalizing s with
  | nil =>
      cases hr
      exact Or.inl hc
  | cons a as ih =>
      rcases run_cons.mp hr with ⟨m, hm, hr'⟩
      by_cases ha : a = .queueWork t d
      · -- the call goes on here
        exact Or.inr ⟨[], as, by simp [ha]⟩
      · rcases ih (caller_step hc hm ha) hr' with h | ⟨mid, rest, rfl⟩
        · exact Or.inl h
        · exact Or.inr ⟨a :: mid, rest, rfl⟩

/-- A report made while `timer_enabled` was read as false: its call is still
before its second section, or a snapshot has followed that section, or a worker
is due. -/
theorem report_served {s s' : Sys} {as : List Act} {t len : ℕ} (hi : PendingInv s)
    (hte : s.ext.timerEnabled = false)
    (hr : run (step j) s (.onWriteSuccess t len :: as) = some s') :
    (∃ d, s'.callers[t]? = some (.sampled false d)) ∨
      ∃ mid d rest, as = mid ++ .queueWork t d :: rest ∧ (.snapshot ∈ rest ∨ Due s') := by
  rcases run_cons.mp hr with ⟨m, hm, hr'⟩
  have him := pendingInv_step hi hm
  have hc : m.callers[t]? = some (.sampled false (s.ext.interval j)) := by
    rcases step_eq_some.mp hm with ⟨hg, rfl⟩
    have hlt : t < s.callers.length := (List.getElem?_eq_some_iff.mp hg).1
    simp [update, hte, hlt]
  rcases caller_run hc hr' with h | ⟨mid, rest, rfl⟩
  · exact Or.inl ⟨_, h⟩
  · refine Or.inr ⟨mid, _, rest, rfl, ?_⟩
    rcases run_append.mp hr' with ⟨m₁, hm₁, hr₁⟩
    rcases run_cons.mp hr₁ with ⟨m₂, hm₂, hr₂⟩
    exact due_run (due_queueWork (pendingInv_run him hm₁) hm₂) hr₂

/-! ## The worker can always go on to its snapshot -/

/-- What is left of the loop: two LED calls for each cycle, one when the LED is
lit. -/
def Blinking.left (b : Blinking) : ℕ := 2 * (b.count - b.i).toNat - if b.lit then 1 else 0

theorem blinking_left_next {b : Blinking} (h : b.i < b.count) : b.next.left < b.left := by
  unfold Blinking.left Blinking.next
  cases hl : b.lit with
  | false => simp only [Bool.false_eq_true, if_false, if_true]; omega
  | true => simp only [if_true, Bool.false_eq_true, if_false]; omega

/-- The loop of `blink_worker` ends by steps of the worker alone. -/
theorem worker_finishes {s : Sys} {b : Blinking} (hw : s.worker = .blinking b)
    (hl : b.lit = true → b.i < b.count) :
    ∃ ws, (∀ a ∈ ws, IsWorker a) ∧
      run (step j) s ws = some { s with ext := s.ext.addBlinks b.count, worker := .idle } := by
  induction hn : b.left using Nat.strong_induction_on generalizing s b with
  | _ n ih =>
      by_cases hlt : b.i < b.count
      · -- one more LED call, then the rest of the loop
        have hled : step j s (.led b 0) = some { s with worker := .blinking b.next } :=
          step_eq_some.mpr ⟨⟨hw, hlt⟩, rfl⟩
        have hnext : b.next.count = b.count := by
          unfold Blinking.next
          split <;> rfl
        have hl' : b.next.lit = true → b.next.i < b.next.count := by
          intro hnl
          unfold Blinking.next at hnl ⊢
          cases hb : b.lit with
          | true => simp [hb] at hnl
          | false => simpa [hb] using hlt
        rcases ih b.next.left (hn ▸ blinking_left_next hlt)
          (s := { s with worker := .blinking b.next }) rfl hl' rfl with ⟨ws, hws, hr⟩
        refine ⟨.led b 0 :: ws, ?_, run_cons.mpr ⟨_, hled, ?_⟩⟩
        · intro a ha
          rcases List.mem_cons.mp ha with rfl | ha
          · trivial
          · exact hws a ha
        · rw [hr, hnext]
      · -- the loop test fails: the last section
        have hlit : b.lit = false := by
          cases hb : b.lit with
          | false => rfl
          | true => exact absurd (hl hb) hlt
        refine ⟨[.finishBlink b], ?_, run_singleton.mpr ?_⟩
        · intro a ha
          rw [List.mem_singleton.mp ha]
          trivial
        · exact step_eq_some.mpr ⟨⟨hw, hlit, Int.not_lt.mp hlt⟩, rfl⟩

/-- A worker that is due reaches its snapshot by its own steps. -/
theorem due_reaches_snapshot {s : Sys} (hi : PendingInv s) (hd : Due s) :
    ∃ ws s', (∀ a ∈ ws, IsWorker a) ∧ run (step j) s (ws ++ [.snapshot]) = some s' := by
  have hidle : ∀ s : Sys, s.ext.blinkWork = true → s.worker = .idle →
      ∃ s', run (step j) s [.dequeue, .snapshot] = some s' := by
    intro s hb hw
    refine ⟨update j (update j s .dequeue) .snapshot, run_cons.mpr ⟨update j s .dequeue, ?_, ?_⟩⟩
    · exact step_eq_some.mpr ⟨⟨hb, hw⟩, rfl⟩
    · exact run_singleton.mpr (step_eq_some.mpr ⟨rfl, rfl⟩)
  cases hw : s.worker with
  | idle =>
      rcases hd with hb | hw'
      · rcases hidle s hb hw with ⟨s', hr⟩
        refine ⟨[.dequeue], s', ?_, hr⟩
        intro a ha
        rw [List.mem_singleton.mp ha]
        trivial
      · rw [hw] at hw'
        cases hw'
  | dequeued =>
      refine ⟨[], update j s .snapshot, ?_, run_singleton.mpr (step_eq_some.mpr ⟨hw, rfl⟩)⟩
      intro a ha
      cases ha
  | blinking b =>
      -- the running worker finishes its loop, then takes the queued item
      rcases hd with hb | hw'
      · rcases worker_finishes (j := j) hw (hi.lit b hw) with ⟨ws, hws, hr⟩
        rcases hidle { s with ext := s.ext.addBlinks b.count, worker := .idle } hb rfl with
          ⟨s', hr'⟩
        refine ⟨ws ++ [.dequeue], s', ?_, ?_⟩
        · intro a ha
          rcases List.mem_append.mp ha with ha | ha
          · exact hws a ha
          · rw [List.mem_singleton.mp ha]
            trivial
        · rw [List.append_assoc]
          exact run_append.mpr ⟨_, hr, hr'⟩
      · rw [hw] at hw'
        cases hw'

/-! ## The law -/

/-- After every run from `ddk_ext_init`:

* `work_pending` is set exactly while the work item is queued or the worker is
  before its snapshot section;
* every `schedule_work` call of the next step finds the item not queued;
* every report made while `timer_enabled` was read as false is followed by a
  snapshot or by a worker that is due (or its call has not yet finished);
* a worker that is due takes its snapshot by steps of its own. -/
theorem work_pending_law {created : Bool} {m n k : ℕ} {as : List Act} {s : Sys}
    (hr : run (step j) (init created m n k) as = some s) :
    (s.ext.workPending = true ↔ s.ext.blinkWork = true ∨ s.worker = .dequeued) ∧
    (∀ a s', step j s a = some s' → Schedules s a →
      s.ext.blinkWork = false ∧ s'.ext.blinkWork = true) ∧
    (∀ pre t len post s₁, as = pre ++ .onWriteSuccess t len :: post →
      run (step j) (init created m n k) pre = some s₁ → s₁.ext.timerEnabled = false →
      (∃ d, s.callers[t]? = some (.sampled false d)) ∨
        ∃ mid d rest, post = mid ++ .queueWork t d :: rest ∧ (.snapshot ∈ rest ∨ Due s)) ∧
    (Due s → ∃ ws s', (∀ a ∈ ws, IsWorker a) ∧
      run (step j) s (ws ++ [.snapshot]) = some s') := by
  have hi : PendingInv s := pendingInv_run (pendingInv_init created m n k) hr
  refine ⟨hi.flag, fun a s' hs ha => schedule_takes_effect hi hs ha, ?_,
    fun hd => due_reaches_snapshot hi hd⟩
  rintro pre t len post s₁ rfl hpre hte
  have hi₁ : PendingInv s₁ := pendingInv_run (pendingInv_init created m n k) hpre
  rcases run_append.mp hr with ⟨m₁, hm₁, hr₁⟩
  have hm : m₁ = s₁ := Option.some.inj (hm₁.symm.trans hpre)
  subst hm
  exact report_served hi₁ hte hr₁

/-- One report with the timer off, in the window between dequeue and snapshot. -/
theorem work_pending_law_window :
    ∃ s, run (step .hz1000) (init true 1 1 1)
        [.onWriteSuccess 0 5, .queueWork 0 1000, .dequeue] = some s ∧
      s.worker = .dequeued ∧
      (s.ext.workPending = true ↔ s.ext.blinkWork = true ∨ s.worker = .dequeued) ∧
      ∃ ws s', (∀ a ∈ ws, IsWorker a) ∧ run (step .hz1000) s (ws ++ [.snapshot]) = some s' := by
  refine ⟨_, rfl, rfl, ?_⟩
  have hlaw := work_pending_law (show run (step .hz1000) (init true 1 1 1)
    [.onWriteSuccess 0 5, .queueWork 0 1000, .dequeue] = some _ from rfl)
  exact ⟨hlaw.1, hlaw.2.2.2 (Or.inr rfl)⟩

end DdkExt
