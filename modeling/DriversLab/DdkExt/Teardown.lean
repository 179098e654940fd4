import DriversLab.DdkExt.System

/-!
# DdkExt.Teardown — `ddk_ext_cleanup` against everything still running

`ddk_ext_cleanup` runs beside the parties of `DdkExt.System`. Its three calls
wait, so each is split at the point where the waiting starts:

1. `remove_proc_entry` takes the entry away, then waits for its users (a NULL
   `proc_entry` is skipped);
2. `timer_delete_sync` waits until no callback runs and removes the timer,
   also one that a callback has just re-armed;
3. `cancel_work_sync` removes a queued item, then waits out a running worker.

One invariant per stage: what a stage has stopped can only be started by a
party that an earlier stage has stopped.
-/

namespace DdkExt

open Lts

/-- How far `ddk_ext_cleanup` has got. -/
inductive Stage where
  | running
  | procUnlinked
  | procGone
  | timerGone
  | cancelling
  | done
deriving DecidableEq, Repr

def Stage.rank : Stage → ℕ
  | .running => 0
  | .procUnlinked => 1
  | .procGone => 2
  | .timerGone => 3
  | .cancelling => 4
  | .done => 5

/-- The extension together with its cleanup. -/
structure Down where
  core : Sys
  stage : Stage
deriving DecidableEq, Repr

inductive DownAct where
  | core (a : Act)
  | removeProcEntry
  | procDrained
  | timerDeleteSync
  | cancelWork
  | workDrained
deriving DecidableEq, Repr

variable (j : Jiffies)

/-- One step of the extension with its cleanup. -/
def downStep (d : Down) : DownAct → Option Down
  | .core a => (step j d.core a).map fun s => { d with core := s }
  | .removeProcEntry =>
      if d.stage = .running then
        some {
          core := { d.core with ext := { d.core.ext with procEntry := false } }
          stage := if d.core.ext.procEntry then .procUnlinked else .procGone }
      else none
  | .procDrained =>
      if d.stage = .procUnlinked ∧ ∀ p ∈ d.core.procs, p = .idle then
        some { d with stage := .procGone }
      else none
  | .timerDeleteSync =>
      if d.stage = .procGone ∧ ∀ c ∈ d.core.callbacks, c = .idle then
        some { core := { d.core with ext := d.core.ext.timerDelete }, stage := .timerGone }
      else none
  | .cancelWork =>
      if d.stage = .timerGone then
        some {
          core := { d.core with ext := { d.core.ext with blinkWork := false } }
          stage := .cancelling }
      else none
  | .workDrained =>
      if d.stage = .cancelling ∧ d.core.worker = .idle then some { d with stage := .done }
      else none

variable {j}

/-- What `ddk_ext_cleanup` has to leave behind. -/
structure Dead (s : Sys) : Prop where
  timer : s.ext.activityTimer = none
  callbacks : ∀ c ∈ s.callbacks, c = .idle
  queued : s.ext.blinkWork = false
  worker : s.worker = .idle
  procs : ∀ p ∈ s.procs, p = .idle
  entry : s.ext.procEntry = false

/-- What each stage has stopped. -/
structure DownInv (d : Down) : Prop where
  callers : ∀ c ∈ d.core.callers, c = .idle
  entry : 1 ≤ d.stage.rank → d.core.ext.procEntry = false
  procs : d.core.ext.procEntry = false → d.stage ≠ .procUnlinked → ∀ p ∈ d.core.procs, p = .idle
  timer : 3 ≤ d.stage.rank → d.core.ext.activityTimer = none
  callbacks : 3 ≤ d.stage.rank → ∀ c ∈ d.core.callbacks, c = .idle
  queued : 4 ≤ d.stage.rank → d.core.ext.blinkWork = false
  worker : 5 ≤ d.stage.rank → d.core.worker = .idle

/-! ## Tables of idle slots -/

/-- A slot of a table that is idle throughout holds nothing else. -/
theorem idle_slot {τ : Type} {l : List τ} {idle x : τ} {t : ℕ} (h : ∀ c ∈ l, c = idle)
    (hx : l[t]? = some x) : x = idle :=
  h x (List.mem_of_getElem? hx)

/-- Putting an idle slot back keeps a table idle. -/
theorem idle_set {τ : Type} {l : List τ} {idle : τ} {t : ℕ} (h : ∀ c ∈ l, c = idle) :
    ∀ c ∈ l.set t idle, c = idle := by
  intro c hc
  rcases List.mem_or_eq_of_mem_set hc with hc | hc
  · exact h c hc
  · exact hc

/-! ## The steps of the extension -/

/-- While a callback runs, `timer_delete_sync` has not returned. -/
theorem DownInv.rank_of_callback {d : Down} (hi : DownInv d) {t : ℕ} {c : Callback}
    (hc : d.core.callbacks[t]? = some c) (hne : c ≠ .idle) : ¬ 3 ≤ d.stage.rank := by
  intro h
  exact hne (idle_slot (hi.callbacks h) hc)

/-- While the worker runs, `cancel_work_sync` has not returned. -/
theorem DownInv.rank_of_worker {d : Down} (hi : DownInv d) (hne : d.core.worker ≠ .idle) :
    ¬ 5 ≤ d.stage.rank := by
  intro h
  exact hne (hi.worker h)

/-- With no caller of `ddk_ext_on_write_success` a step of the extension starts
nothing that the cleanup has stopped. -/
theorem downInv_core {d : Down} {s : Sys} {a : Act} (hi : DownInv d)
    (ha : ∀ t len, a ≠ .onWriteSuccess t len) (hs : step j d.core a = some s) :
    DownInv { d with core := s } := by
  rcases step_eq_some.mp hs with ⟨hg, rfl⟩
  cases a with
  | onWriteSuccess t len => exact absurd rfl (ha t len)
  | armTimer t iv => cases idle_slot hi.callers hg
  | queueWork t iv => cases idle_slot hi.callers hg
  | onWriteFail =>
      exact ⟨hi.callers, hi.entry, hi.procs, hi.timer, hi.callbacks, hi.queued, hi.worker⟩
  | fire t =>
      -- the timer is pending, so it has not been deleted yet
      have hlt : ¬ 3 ≤ d.stage.rank := fun h => hg.2 (hi.timer h)
      exact ⟨hi.callers, hi.entry, hi.procs, fun _ => rfl, fun h => absurd h hlt, hi.queued,
        hi.worker⟩
  | cbQueue t =>
      have hlt := hi.rank_of_callback hg (by simp)
      refine ⟨hi.callers, ?_, ?_, fun h => absurd h hlt, fun h => absurd h hlt,
        fun h => absurd (Nat.le_of_succ_le h) hlt, hi.worker⟩
      · simpa [update, DdkExtState.queueBlink_eq] using hi.entry
      · simpa [update, DdkExtState.queueBlink_eq] using hi.procs
  | cbInterval t =>
      have hlt := hi.rank_of_callback hg (by simp)
      exact ⟨hi.callers, hi.entry, hi.procs, hi.timer, fun h => absurd h hlt, hi.queued,
        hi.worker⟩
  | cbRearm t iv =>
      have hlt := hi.rank_of_callback hg (by simp)
      exact ⟨hi.callers, hi.entry, hi.procs, fun h => absurd h hlt, fun h => absurd h hlt,
        hi.queued, hi.worker⟩
  | dequeue =>
      -- the item is queued, so it has not been cancelled yet
      have hlt : ¬ 4 ≤ d.stage.rank := fun h => by
        have hq := hi.queued h
        rw [hg.1] at hq
        cases hq
      exact ⟨hi.callers, hi.entry, hi.procs, hi.timer, hi.callbacks, fun _ => rfl,
        fun h => absurd (Nat.le_of_succ_le h) hlt⟩
  | snapshot =>
      have hw : d.core.worker = .dequeued := hg
      have hlt := hi.rank_of_worker (by simp [hw])
      exact ⟨hi.callers, hi.entry, hi.procs, hi.timer, hi.callbacks, hi.queued,
        fun h => absurd h hlt⟩
  | led b ret =>
      have hlt := hi.rank_of_worker (by simp [hg.1])
      exact ⟨hi.callers, hi.entry, hi.procs, hi.timer, hi.callbacks, hi.queued,
        fun h => absurd h hlt⟩
  | finishBlink b =>
      exact ⟨hi.callers, hi.entry, hi.procs, hi.timer, hi.callbacks, hi.queued, fun _ => rfl⟩
  | procEnter t ubuf junk =>
      -- the entry is there to be opened
      have hp : d.core.ext.procEntry = true := hg.2
      refine ⟨hi.callers, hi.entry, ?_, hi.timer, hi.callbacks, hi.queued, hi.worker⟩
      intro he
      rw [show d.core.ext.procEntry = false from he] at hp
      cases hp
  | procWrite t ubuf junk =>
      have hf := ddkProcWrite_frame ubuf junk d.core.ext
      refine ⟨hi.callers, ?_, ?_, ?_, hi.callbacks, ?_, hi.worker⟩
      · intro h
        exact hf.procEntry.trans (hi.entry h)
      · intro he hst
        exact idle_set (hi.procs (hf.procEntry.symm.trans he) hst)
      · intro h
        rcases hf.activityTimer with ht | ht
        · exact ht.trans (hi.timer h)
        · exact ht
      · intro h
        exact hf.blinkWork.trans (hi.queued h)

/-! ## The steps of the cleanup -/

theorem downInv_step {d d' : Down} {a : DownAct} (hi : DownInv d)
    (ha : ∀ t len, a ≠ .core (.onWriteSuccess t len)) (hs : downStep j d a = some d') :
    DownInv d' := by
  cases a with
  | core a =>
      rcases Option.map_eq_some_iff.mp hs with ⟨s, hs', rfl⟩
      exact downInv_core hi (fun t len h => ha t len (by rw [h])) hs'
  | removeProcEntry =>
      simp only [downStep] at hs
      split at hs
      · rename_i hst
        cases hs
        have hr : d.stage.rank = 0 := by rw [hst]; rfl
        cases he : d.core.ext.procEntry with
        | true =>
            -- unlinked; its users are still waited for
            refine ⟨hi.callers, fun _ => rfl, ?_, ?_, ?_, ?_, ?_⟩
            · intro _ hne
              exact absurd rfl hne
            all_goals
              intro h
              simp [Stage.rank] at h
        | false =>
            -- `ddk_ext_init` had no entry: there is nothing to remove
            refine ⟨hi.callers, fun _ => rfl, ?_, ?_, ?_, ?_, ?_⟩
            · intro _ _
              exact hi.procs he (by rw [hst]; decide)
            all_goals
              intro h
              simp [Stage.rank] at h
      · cases hs
  | procDrained =>
      simp only [downStep] at hs
      split at hs
      · rename_i hst
        cases hs
        refine ⟨hi.callers, ?_, fun _ _ => hst.2, ?_, ?_, ?_, ?_⟩
        · intro _
          exact hi.entry (by rw [hst.1]; decide)
        all_goals
          intro h
          simp [Stage.rank] at h
      · cases hs
  | timerDeleteSync =>
      simp only [downStep] at hs
      split at hs
      · rename_i hst
        cases hs
        have he : d.core.ext.procEntry = false := hi.entry (by rw [hst.1]; decide)
        refine ⟨hi.callers, fun _ => he, ?_, fun _ => rfl, fun _ => hst.2, ?_, ?_⟩
        · intro _ _
          exact hi.procs he (by rw [hst.1]; decide)
        all_goals
          intro h
          simp [Stage.rank] at h
      · cases hs
  | cancelWork =>
      simp only [downStep] at hs
      split at hs
      · rename_i hst
        cases hs
        have h3 : 3 ≤ d.stage.rank := by rw [hst]; decide
        have he : d.core.ext.procEntry = false := hi.entry (Nat.le_trans (by decide) h3)
        refine ⟨hi.callers, fun _ => he, ?_, fun _ => hi.timer h3, fun _ => hi.callbacks h3,
          fun _ => rfl, ?_⟩
        · intro _ _
          exact hi.procs he (by rw [hst]; decide)
        · intro h
          simp [Stage.rank] at h
      · cases hs
  | workDrained =>
      simp only [downStep] at hs
      split at hs
      · rename_i hst
        cases hs
        have h4 : 4 ≤ d.stage.rank := by rw [hst.1]; decide
        have h3 : 3 ≤ d.stage.rank := Nat.le_of_succ_le h4
        have he : d.core.ext.procEntry = false := hi.entry (Nat.le_trans (by decide) h4)
        refine ⟨hi.callers, fun _ => he, ?_, fun _ => hi.timer h3, fun _ => hi.callbacks h3,
          fun _ => hi.queued h4, fun _ => hst.2⟩
        intro _ _
        exact hi.procs he (by rw [hst.1]; decide)
      · cases hs

/-- The invariant along a run without new calls of `ddk_ext_on_write_success`. -/
theorem downInv_run {d d' : Down} {as : List DownAct} (hi : DownInv d)
    (ha : ∀ t len, .core (.onWriteSuccess t len) ∉ as)
    (hr : run (downStep j) d as = some d') : DownInv d' := by
  have hstep : ∀ d a d', DownInv d → (∀ t len, a ≠ .core (.onWriteSuccess t len)) →
      downStep j d a = some d' → DownInv d' := fun _ _ _ hi ha hs => downInv_step hi ha hs
  refine run_invariant_along hstep hi ((along_const hr).mpr ?_) hr
  rintro a hmem t len rfl
  exact ha t len hmem

/-- The last stage is final. -/
theorem done_step {d d' : Down} {a : DownAct} (hd : d.stage = .done)
    (hs : downStep j d a = some d') : d'.stage = .done := by
  cases a with
  | core a =>
      rcases Option.map_eq_some_iff.mp hs with ⟨s, _, rfl⟩
      exact hd
  | removeProcEntry => simp [downStep, hd] at hs
  | procDrained => simp [downStep, hd] at hs
  | timerDeleteSync => simp [downStep, hd] at hs
  | cancelWork => simp [downStep, hd] at hs
  | workDrained => simp [downStep, hd] at hs

theorem dead_of_done {d : Down} (hi : DownInv d) (hd : d.stage = .done) : Dead d.core := by
  have hr : d.stage.rank = 5 := by rw [hd]; rfl
  have he : d.core.ext.procEntry = false := hi.entry (by omega)
  exact ⟨hi.timer (by omega), hi.callbacks (by omega), hi.queued (by omega),
    hi.worker (by omega), hi.procs he (by rw [hd]; decide), he⟩

/-! ## The states from which the cleanup may start -/

/-- Without a proc entry nobody is inside `ddk_proc_write`. -/
theorem procs_idle_of_no_entry {s : Sys} (h : Reachable (step j) Init s) :
    s.ext.procEntry = false → ∀ p ∈ s.procs, p = .idle := by
  refine @reachable_invariant _ _ _ _
    (fun s : Sys => s.ext.procEntry = false → ∀ p ∈ s.procs, p = .idle) ?_ ?_ _ h
  · rintro _ ⟨created, m, n, k, rfl⟩ _ p hp
    exact List.eq_of_mem_replicate hp
  · intro s a s' hi hs
    rcases step_eq_some.mp hs with ⟨hg, rfl⟩
    cases a with
    | procEnter t ubuf junk =>
        intro he
        have hp : s.ext.procEntry = true := hg.2
        rw [show s.ext.procEntry = false from he] at hp
        cases hp
    | procWrite t ubuf junk =>
        intro he
        exact idle_set (hi ((ddkProcWrite_frame ubuf junk s.ext).procEntry.symm.trans he))
    | queueWork t iv => simpa [update, DdkExtState.queueBlink_eq] using hi
    | cbQueue t => simpa [update, DdkExtState.queueBlink_eq] using hi
    | onWriteSuccess t len => exact hi
    | armTimer t iv => exact hi
    | onWriteFail => exact hi
    | fire t => exact hi
    | cbInterval t => exact hi
    | cbRearm t iv => exact hi
    | dequeue => exact hi
    | snapshot => exact hi
    | led b ret => exact hi
    | finishBlink b => exact hi

theorem downInv_start {s : Sys} (h : Reachable (step j) Init s)
    (hc : ∀ c ∈ s.callers, c = .idle) : DownInv ⟨s, .running⟩ := by
  refine ⟨hc, ?_, fun he _ => procs_idle_of_no_entry h he, ?_, ?_, ?_, ?_⟩
  all_goals
    intro hr
    simp [Stage.rank] at hr

/-- **Teardown leaves nothing armed.** From every reachable state of the
extension with no call of `ddk_ext_on_write_success` in progress, and in every
interleaving without a new one: when `ddk_ext_cleanup` has returned, the timer
is not pending, no callback runs, the work item is neither queued nor running
and nobody is in the proc entry; and this stays so. -/
theorem cleanup_leaves_nothing {s : Sys} {as : List DownAct} {d : Down}
    (h : Reachable (step j) Init s) (hc : ∀ c ∈ s.callers, c = .idle)
    (ha : ∀ t len, .core (.onWriteSuccess t len) ∉ as)
    (hr : run (downStep j) ⟨s, .running⟩ as = some d) (hd : d.stage = .done) :
    Dead d.core ∧
      ∀ bs d', (∀ t len, .core (.onWriteSuccess t len) ∉ bs) →
        run (downStep j) d bs = some d' → Dead d'.core := by
  have hi : DownInv d := downInv_run (downInv_start h hc) ha hr
  refine ⟨dead_of_done hi hd, ?_⟩
  intro bs d' hb hr'
  have hd' : d'.stage = .done :=
    run_invariant (fun _ _ _ h hs => done_step h hs) hd hr'
  exact dead_of_done (downInv_run hi hb hr') hd'

/-- A cleanup that starts while the item is queued and finds the worker taking
its snapshot: it waits for the three blinks. -/
theorem cleanup_leaves_nothing_blinking :
    ∃ s d, run (step .hz1000) (init true 1 1 1) [.onWriteSuccess 0 5, .queueWork 0 1000] = some s ∧
      run (downStep .hz1000) ⟨s, .running⟩
        [.removeProcEntry, .core .dequeue, .procDrained, .timerDeleteSync, .core .snapshot,
          .cancelWork, .core (.led ⟨0, false, 3, 200⟩ 0), .core (.led ⟨0, true, 3, 200⟩ 0),
          .core (.led ⟨1, false, 3, 200⟩ 0), .core (.led ⟨1, true, 3, 200⟩ 0),
          .core (.led ⟨2, false, 3, 200⟩ 0), .core (.led ⟨2, true, 3, 200⟩ 0),
          .core (.finishBlink ⟨3, false, 3, 200⟩), .workDrained] = some d ∧
      Dead d.core := by
  refine ⟨_, _, rfl, rfl, ?_⟩
  refine (cleanup_leaves_nothing ⟨_, [.onWriteSuccess 0 5, .queueWork 0 1000],
    ⟨true, 1, 1, 1, rfl⟩, rfl⟩ ?_ ?_ (show run (downStep .hz1000) _
    [.removeProcEntry, .core .dequeue, .procDrained, .timerDeleteSync, .core .snapshot,
      .cancelWork, .core (.led ⟨0, false, 3, 200⟩ 0), .core (.led ⟨0, true, 3, 200⟩ 0),
      .core (.led ⟨1, false, 3, 200⟩ 0), .core (.led ⟨1, true, 3, 200⟩ 0),
      .core (.led ⟨2, false, 3, 200⟩ 0), .core (.led ⟨2, true, 3, 200⟩ 0),
      .core (.finishBlink ⟨3, false, 3, 200⟩), .workDrained] = some _ from rfl) rfl).1
  · decide
  · intro t len
    simp

end DdkExt
