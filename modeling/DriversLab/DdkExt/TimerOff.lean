import DriversLab.DdkExt.WorkPending

/-!
# DdkExt.TimerOff — when does "timer 0" really disable the timer?

`ddk_ext_on_write_success` and `activity_timer_cb` read `timer_enabled` under
the lock but call `mod_timer` after dropping it, and `timer_delete` does not
wait for a running callback. So a "timer 0" can be overtaken:

* `Quiet` is the state in which it cannot: no caller stands between a read of
  `timer_enabled` as true and its `mod_timer`, and no callback is running;
* `Off` is the invariant of the time after a "timer 0" from a quiet state;
* `timer_off_iff`: the timer stays off until the next enabling command, in
  every continuation, exactly when the "timer 0" met a quiet state;
* `timer_off_overtaken`: a run in which it does not stay off.
-/

namespace DdkExt

open Lts

variable {j : Jiffies}

/-- The section of a "timer 0" command. -/
def Disables (a : Act) : Prop :=
  ∃ t ubuf junk n, a = .procWrite t (some ubuf) junk ∧
    request ubuf = some (.timer, n) ∧ valOf n junk = 0

/-- The section of a "timer 1" command (any number but zero). -/
def Enables (a : Act) : Prop :=
  ∃ t ubuf junk n, a = .procWrite t (some ubuf) junk ∧
    request ubuf = some (.timer, n) ∧ valOf n junk ≠ 0

/-- `activity_timer_cb` sets `work_pending` and queues `blink_work`. -/
def TimerSchedules (s : Sys) (a : Act) : Prop :=
  s.ext.workPending = false ∧ ∃ t, a = .cbQueue t

/-- Until the next enabling command the timer is never pending and its callback
never queues work, in every continuation. -/
def StaysOff (j : Jiffies) (s : Sys) : Prop :=
  ∀ as s', (∀ a ∈ as, ¬ Enables a) → run (step j) s as = some s' →
    s'.ext.activityTimer = none ∧ ∀ a s'', step j s' a = some s'' → ¬ TimerSchedules s' a

/-- Nobody holds a stale "enabled", and no callback runs. -/
structure Quiet (s : Sys) : Prop where
  callers : ∀ d, .sampled true d ∉ s.callers
  callbacks : ∀ c ∈ s.callbacks, c = .idle

/-- The timer is off and nobody can arm it without an enabling command. -/
structure Off (s : Sys) : Prop extends Quiet s where
  enabled : s.ext.timerEnabled = false
  timer : s.ext.activityTimer = none

/-! ## What a write does to the timer switch -/

/-- The switch after a write: set by a timer command, otherwise as before. -/
theorem procWrite_timerEnabled (t : ℕ) (ubuf : Option (List UInt8)) (junk : ℤ)
    (s : DdkExtState) (he : ¬ Enables (.procWrite t ubuf junk)) :
    (ddkProcWrite ubuf junk s).2.timerEnabled = false ∨
      (ddkProcWrite ubuf junk s).2.timerEnabled = s.timerEnabled := by
  cases ubuf with
  | none => exact Or.inr rfl
  | some ubuf =>
      simp only [ddkProcWrite]
      cases hr : request ubuf with
      | none => exact Or.inr rfl
      | some r =>
          rcases r with ⟨c, n⟩
          cases c with
          | timer =>
              by_cases hn : valOf n junk = 0
              · exact Or.inl (by simp [ddkProcSection, hn, DdkExtState.timerDelete])
              · exact absurd ⟨t, ubuf, junk, n, rfl, hr, hn⟩ he
          | interval => right; simp only [ddkProcSection]; split <;> rfl
          | blink => right; simp only [ddkProcSection]; split <;> rfl
          | delay => right; simp only [ddkProcSection]; split <;> rfl
          | reset => exact Or.inr rfl

theorem disables_update {s : Sys} {a : Act} (ha : Disables a) :
    (update j s a).ext = { s.ext with timerEnabled := false, activityTimer := none } ∧
      (update j s a).callers = s.callers ∧ (update j s a).callbacks = s.callbacks := by
  rcases ha with ⟨t, ubuf, junk, n, rfl, hr, hn⟩
  simp [update, ddkProcWrite, hr, ddkProcSection, hn, DdkExtState.timerDelete]

/-! ## From a quiet state the timer stays off -/

theorem off_of_quiet {s s' : Sys} {a : Act} (hq : Quiet s) (ha : Disables a)
    (hs : step j s a = some s') : Off s' := by
  rcases step_eq_some.mp hs with ⟨_, rfl⟩
  rcases disables_update (j := j) (s := s) ha with ⟨he, hc, hb⟩
  refine ⟨⟨?_, ?_⟩, ?_, ?_⟩
  · simpa only [hc] using hq.callers
  · simpa only [hb] using hq.callbacks
  · rw [he]
  · rw [he]

/-- Setting one slot to something harmless keeps the callers harmless. -/
theorem no_sampled_set {l : List Caller} {t : ℕ} {c : Caller}
    (h : ∀ d, .sampled true d ∉ l) (hc : ∀ d, c ≠ .sampled true d) :
    ∀ d, .sampled true d ∉ l.set t c := by
  intro d hd
  rcases List.mem_or_eq_of_mem_set hd with hd | hd
  · exact h d hd
  · exact hc d hd.symm

theorem off_step {s s' : Sys} {a : Act} (ho : Off s) (ha : ¬ Enables a)
    (hs : step j s a = some s') : Off s' := by
  rcases step_eq_some.mp hs with ⟨hg, rfl⟩
  have hcb : ∀ {t : ℕ} {c : Callback}, s.callbacks[t]? = some c → c = .idle :=
    fun h => ho.callbacks _ (List.mem_of_getElem? h)
  cases a with
  | onWriteSuccess t len =>
      refine ⟨⟨no_sampled_set ho.callers ?_, ho.callbacks⟩, ho.enabled, ho.timer⟩
      intro d hd
      rw [ho.enabled] at hd
      cases hd
  | armTimer t d =>
      -- no caller has read "enabled"
      exact absurd (List.mem_of_getElem? hg) (ho.callers d)
  | queueWork t d =>
      refine ⟨⟨no_sampled_set ho.callers ?_, ho.callbacks⟩, ?_, ?_⟩
      · intro d' hd
        cases hd
      · simpa [update, DdkExtState.queueBlink_eq] using ho.enabled
      · simpa [update, DdkExtState.queueBlink_eq] using ho.timer
  | onWriteFail => exact ⟨⟨ho.callers, ho.callbacks⟩, ho.enabled, ho.timer⟩
  | fire t =>
      -- the timer is not pending
      exact absurd ho.timer hg.2
  | cbQueue t => cases hcb hg
  | cbInterval t => cases hcb hg
  | cbRearm t d => cases hcb hg
  | dequeue => exact ⟨⟨ho.callers, ho.callbacks⟩, ho.enabled, ho.timer⟩
  | snapshot => exact ⟨⟨ho.callers, ho.callbacks⟩, ho.enabled, ho.timer⟩
  | led b ret => exact ⟨⟨ho.callers, ho.callbacks⟩, ho.enabled, ho.timer⟩
  | finishBlink b => exact ⟨⟨ho.callers, ho.callbacks⟩, ho.enabled, ho.timer⟩
  | procEnter t ubuf junk => exact ⟨⟨ho.callers, ho.callbacks⟩, ho.enabled, ho.timer⟩
  | procWrite t ubuf junk =>
      -- a command that is no "timer 1" leaves both as they are, or off
      refine ⟨⟨ho.callers, ho.callbacks⟩, ?_, ?_⟩
      · rcases procWrite_timerEnabled t ubuf junk s.ext ha with h | h
        · exact h
        · exact h.trans ho.enabled
      · rcases (ddkProcWrite_frame ubuf junk s.ext).activityTimer with h | h
        · exact h.trans ho.timer
        · exact h

theorem off_run {s s' : Sys} {as : List Act} (ho : Off s) (ha : ∀ a ∈ as, ¬ Enables a)
    (hr : run (step j) s as = some s') : Off s' := by
  have hstep : ∀ s a s', Off s → ¬ Enables a → step j s a = some s' → Off s' :=
    fun _ _ _ ho ha hs => off_step ho ha hs
  exact run_invariant_along hstep ho ((along_const hr).mpr ha) hr

theorem staysOff_of_off {s : Sys} (ho : Off s) : StaysOff j s := by
  intro as s' ha hr
  have ho' := off_run ho ha hr
  refine ⟨ho'.timer, ?_⟩
  rintro a s'' hs ⟨_, t, rfl⟩
  rcases step_eq_some.mp hs with ⟨hg, _⟩
  cases ho'.callbacks _ (List.mem_of_getElem? hg)

/-! ## From any other state it can come back -/

/-- Staying off is inherited by every continuation without enabling command. -/
theorem staysOff_run {s m : Sys} {as : List Act} (h : StaysOff j s)
    (ha : ∀ a ∈ as, ¬ Enables a) (hr : run (step j) s as = some m) : StaysOff j m := by
  intro bs s' hb hr'
  refine h (as ++ bs) s' ?_ (run_append.mpr ⟨m, hr, hr'⟩)
  intro a hab
  rcases List.mem_append.mp hab with hab | hab
  · exact ha a hab
  · exact hb a hab

theorem staysOff_step {s m : Sys} {a : Act} (h : StaysOff j s) (ha : ¬ Enables a)
    (hs : step j s a = some m) : StaysOff j m := by
  refine staysOff_run h ?_ (run_singleton.mpr hs)
  intro b hb
  rw [List.mem_singleton.mp hb]
  exact ha

/-- Only a write can be an enabling command. -/
theorem not_enables_of_ne {a : Act} (ha : ∀ t ubuf junk, a ≠ .procWrite t ubuf junk) :
    ¬ Enables a := by
  rintro ⟨t, ubuf, junk, n, rfl, _⟩
  exact ha t ubuf junk rfl

/-- What stays off is off now. -/
theorem timer_of_staysOff {s : Sys} (h : StaysOff j s) : s.ext.activityTimer = none :=
  (h [] s (fun _ ha => nomatch ha) rfl).1

/-- A caller that has read "enabled" arms the timer. -/
theorem not_staysOff_of_caller {s : Sys} {d : ℤ} (hd : .sampled true d ∈ s.callers) :
    ¬ StaysOff j s := by
  intro h
  rcases List.getElem?_of_mem hd with ⟨t, ht⟩
  have hs : step j s (.armTimer t d) = some (update j s (.armTimer t d)) :=
    step_eq_some.mpr ⟨ht, rfl⟩
  cases timer_of_staysOff (staysOff_step h (not_enables_of_ne (by simp)) hs)

/-- A callback that has read the interval arms the timer. -/
theorem not_staysOff_of_rearm {s : Sys} {t : ℕ} {d : ℤ}
    (ht : s.callbacks[t]? = some (.rearm d)) : ¬ StaysOff j s := by
  intro h
  have hs : step j s (.cbRearm t d) = some (update j s (.cbRearm t d)) :=
    step_eq_some.mpr ⟨ht, rfl⟩
  cases timer_of_staysOff (staysOff_step h (not_enables_of_ne (by simp)) hs)

/-- A callback that has read "enabled" reads the interval and arms the timer. -/
theorem not_staysOff_of_enabled {s : Sys} {t : ℕ} (ht : s.callbacks[t]? = some .enabled) :
    ¬ StaysOff j s := by
  intro h
  have hlt : t < s.callbacks.length := (List.getElem?_eq_some_iff.mp ht).1
  have hs : step j s (.cbInterval t) = some (update j s (.cbInterval t)) :=
    step_eq_some.mpr ⟨ht, rfl⟩
  refine not_staysOff_of_rearm (t := t) (d := s.ext.interval j) ?_
    (staysOff_step h (not_enables_of_ne (by simp)) hs)
  simp [update, hlt]

theorem isWorker_not_enables {a : Act} (ha : IsWorker a) : ¬ Enables a := by
  rintro ⟨t, ubuf, junk, n, rfl, _⟩
  exact ha

/-- The worker's steps leave the callbacks alone. -/
theorem worker_run_callbacks {s s' : Sys} {ws : List Act} (hw : ∀ a ∈ ws, IsWorker a)
    (hr : run (step j) s ws = some s') : s'.callbacks = s.callbacks := by
  induction ws generalizing s with
  | nil =>
      cases hr
      rfl
  | cons a ws ih =>
      rcases run_cons.mp hr with ⟨m, hm, hr'⟩
      have hm' : m.callbacks = s.callbacks := by
        rcases step_eq_some.mp hm with ⟨_, rfl⟩
        have ha := hw a List.mem_cons_self
        cases a <;> first | rfl | exact ha.elim
      exact (ih (fun b hb => hw b (List.mem_cons_of_mem _ hb)) hr').trans hm'

/-- A callback that has not taken the lock yet queues work, once the worker has
cleared the flag. -/
theorem not_staysOff_of_fired {s : Sys} {t : ℕ} (hi : PendingInv s)
    (ht : s.callbacks[t]? = some .fired) : ¬ StaysOff j s := by
  intro h
  have hnow : ∀ m : Sys, m.callbacks[t]? = some .fired → m.ext.workPending = false →
      ¬ StaysOff j m := by
    intro m hm hp hso
    exact (hso [] m (fun _ ha => nomatch ha) rfl).2 (.cbQueue t) (update j m (.cbQueue t))
      (step_eq_some.mpr ⟨hm, rfl⟩) ⟨hp, t, rfl⟩
  cases hp : s.ext.workPending with
  | false => exact hnow s ht hp h
  | true =>
      -- the flag is set, so a worker is due and its snapshot clears it
      rcases due_reaches_snapshot (j := j) hi (hi.flag.mp hp) with ⟨ws, s', hws, hr⟩
      have hws' : ∀ a ∈ ws ++ [.snapshot], IsWorker a := by
        intro a ha
        rcases List.mem_append.mp ha with ha | ha
        · exact hws a ha
        · rw [List.mem_singleton.mp ha]
          trivial
      have hso : StaysOff j s' := staysOff_run h (fun a ha => isWorker_not_enables (hws' a ha)) hr
      have hcb : s'.callbacks[t]? = some .fired := by
        rw [worker_run_callbacks hws' hr]
        exact ht
      rcases run_append.mp hr with ⟨m, _, hm⟩
      rcases step_eq_some.mp (run_singleton.mp hm) with ⟨_, rfl⟩
      exact hnow _ hcb rfl hso

/-! ## The exact condition -/

/-- A "timer 0" command that runs its section in a reachable state `s` keeps the
timer off until the next enabling command, in every interleaving, if and only
if in `s` no caller stands between its read of `timer_enabled` as true and its
`mod_timer`, and no callback is running. -/
theorem timer_off_iff {s s' : Sys} {a : Act} (h : Reachable (step j) Init s)
    (ha : Disables a) (hs : step j s a = some s') : StaysOff j s' ↔ Quiet s := by
  constructor
  · -- whoever is under way can bring the timer or its work back
    intro hso
    have hinit : ∀ s : Sys, Init s → PendingInv s := by
      rintro _ ⟨created, m, n, k, rfl⟩
      exact pendingInv_init created m n k
    have hi : PendingInv s' :=
      pendingInv_step (reachable_invariant hinit (fun _ _ _ hi hs => pendingInv_step hi hs) h) hs
    rcases step_eq_some.mp hs with ⟨_, rfl⟩
    rcases disables_update (j := j) (s := s) ha with ⟨_, hc, hb⟩
    constructor
    · intro d hd
      rw [← hc] at hd
      exact not_staysOff_of_caller hd hso
    · intro c hcm
      rw [← hb] at hcm
      rcases List.getElem?_of_mem hcm with ⟨t, ht⟩
      cases c with
      | idle => rfl
      | fired => exact absurd hso (not_staysOff_of_fired hi ht)
      | enabled => exact absurd hso (not_staysOff_of_enabled ht)
      | rearm d => exact absurd hso (not_staysOff_of_rearm ht)
  · intro hq
    exact staysOff_of_off (off_of_quiet hq ha hs)

/-! ## Both sides on the "timer 0" of a user -/

theorem disables_timer0 (t : ℕ) : Disables (.procWrite t (some timer0) 0) :=
  ⟨t, timer0, 0, some 0, rfl, by decide, by decide⟩

/-- "timer 1" and "timer 0" with nothing in between: the second meets a quiet
state, so the timer stays off. -/
theorem timer_off_iff_quiet :
    ∃ s s', run (step .hz1000) (init true 1 1 1)
        [.procEnter 0 (some timer1) 0, .procWrite 0 (some timer1) 0,
          .procEnter 0 (some timer0) 0] = some s ∧
      step .hz1000 s (.procWrite 0 (some timer0) 0) = some s' ∧ StaysOff .hz1000 s' := by
  refine ⟨_, _, rfl, rfl, ?_⟩
  refine (timer_off_iff ⟨_, [.procEnter 0 (some timer1) 0, .procWrite 0 (some timer1) 0,
    .procEnter 0 (some timer0) 0], ⟨true, 1, 1, 1, rfl⟩, rfl⟩ (disables_timer0 0) rfl).mpr ?_
  constructor
  · intro d
    simp [update, init, ddkExtInit]
  · decide

/-- A write is reported while the timer is enabled; "timer 0" returns before the
reporting call reaches its `mod_timer`. The timer is armed after that, fires,
and its callback queues work, all while `timer_enabled` is false. -/
theorem timer_off_overtaken :
    ∃ s s' s₁ s₂, run (step .hz1000) (init true 1 1 1)
        [.procEnter 0 (some timer1) 0, .procWrite 0 (some timer1) 0, .onWriteSuccess 0 5,
          .procEnter 0 (some timer0) 0] = some s ∧
      step .hz1000 s (.procWrite 0 (some timer0) 0) = some s' ∧
      step .hz1000 s' (.armTimer 0 1000) = some s₁ ∧ s₁.ext.activityTimer = some 1000 ∧
      step .hz1000 s₁ (.fire 0) = some s₂ ∧ TimerSchedules s₂ (.cbQueue 0) ∧
      (step .hz1000 s₂ (.cbQueue 0)).isSome = true ∧ s₂.ext.timerEnabled = false ∧
      ¬ StaysOff .hz1000 s' := by
  refine ⟨_, _, _, _, rfl, rfl, rfl, rfl, rfl, ⟨rfl, 0, rfl⟩, rfl, rfl, ?_⟩
  exact not_staysOff_of_caller (d := 1000) (by decide)

end DdkExt
