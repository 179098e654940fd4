import DriversLab.Lib.WaitQueue
import DriversLab.Scull.PipeFifo

/-!
# Scull.PipeWake — who sleeps on a scullpipe, and who wakes

A blocked call gives the mutex back, enters its queue, tests once more and only then sleeps.
A call that has moved bytes gives the mutex back, and wakes the other queue in a step of
its own. Between any two of these steps all other threads can go on.

* `WakeSys`: the pipe of `Scull.Pipe` with these steps;
* `attended_iff`: along every run no thread sleeps on a condition that holds, unless a thread
  is still to wake it; what breaks this is an open that gives sleeping writers the space they
  wait for.
-/

namespace Scull

open CInt Lts WaitQueue

/-! ## The system -/

inductive PipeQueue where
  | inq
  | outq
deriving DecidableEq, Repr

/-- The queue that a call waits on. -/
def PipeCall.queue : PipeCall → PipeQueue
  | .read _ => .inq
  | .write _ => .outq

/-- The queue that a call wakes. -/
def PipeCall.wakes : PipeCall → PipeQueue
  | .read _ => .outq
  | .write _ => .inq

/-- The condition that the threads on a queue wait for. -/
def ScullPipe.Ready (dev : ScullPipe) : PipeQueue → Prop
  | .inq => dev.rp ≠ dev.wp
  | .outq => dev.spacefree ≠ 0

/-- Where a thread stands. -/
inductive WakeThread where
  | returned (ret : ℤ)
  | locking (f : ℕ) (call : PipeCall)
  /-- It has given the mutex back, and is about to enter its queue. -/
  | blocked (f : ℕ) (call : PipeCall)
  /-- `prepare_to_wait` has been done; `woken` if the queue has been woken since. -/
  | queued (f : ℕ) (call : PipeCall) (woken : Bool)
  /-- In `schedule`. -/
  | asleep (f : ℕ) (call : PipeCall)
  /-- It has moved bytes and given the mutex back, and is about to wake the other queue. -/
  | waking (f : ℕ) (call : PipeCall) (ret : ℤ)
deriving DecidableEq, Repr

namespace WakeThread

def file : WakeThread → Option ℕ
  | .returned _ => none
  | .locking f _ | .blocked f _ | .queued f _ _ | .asleep f _ | .waking f _ _ => some f

def asleepOn : WakeThread → Option PipeQueue
  | .asleep _ call => some call.queue
  | _ => none

def willWake : WakeThread → Option PipeQueue
  | .waking _ call _ => some call.wakes
  | _ => none

/-- Where a signal ends the call. -/
def interruptible : WakeThread → Bool
  | .locking _ _ | .queued _ _ _ | .asleep _ _ => true
  | _ => false

/-- Where a call goes on that `schedule` returns to: `wait_event_interruptible` tests again,
`scull_getwritespace` takes the mutex first. -/
def rescheduled (f : ℕ) : PipeCall → WakeThread
  | .read count => .blocked f (.read count)
  | .write buf => .locking f (.write buf)

/-- `wake_up_interruptible` of a queue, for one thread. -/
def wokenBy (q : PipeQueue) (x : WakeThread) : WakeThread :=
  match x with
  | .queued f call woken => .queued f call (woken || call.queue = q)
  | .asleep f call => if call.queue = q then rescheduled f call else x
  | _ => x

end WakeThread

/-- The pipe, its files and its threads. -/
structure WakeSys where
  dev : ScullPipe
  params : Params
  files : List (Option PipeFile)
  threads : List WakeThread

inductive WakeAct where
  | openFile (file : PipeFile) (heap : Option (ℤ → UInt8))
  | release (f : ℕ) (file : PipeFile)
  | ioctl (cmd : IoctlCmd) (arg : ℤ) (user : IoctlUser)
  | enter (t f : ℕ) (ret : ℤ) (file : PipeFile) (call : PipeCall)
  | locked (t f : ℕ) (call : PipeCall) (fault : Option ℕ)
  | prepare (t f : ℕ) (call : PipeCall)
  | test (t f : ℕ) (call : PipeCall) (woken : Bool)
  | wakeUp (t f : ℕ) (call : PipeCall) (ret : ℤ)
  | interrupted (t : ℕ) (x : WakeThread)

namespace WakeSys

def guard (s : WakeSys) : WakeAct → Prop
  | .openFile _ _ | .ioctl _ _ _ => True
  | .release f file => s.files[f]? = some (some file) ∧ ∀ x ∈ s.threads, x.file ≠ some f
  | .enter t f ret file call => s.threads[t]? = some (.returned ret) ∧
      s.files[f]? = some (some file) ∧ call.allowed file.mode = true
  | .locked t f call _ => s.threads[t]? = some (.locking f call)
  | .prepare t f call => s.threads[t]? = some (.blocked f call)
  | .test t f call woken => s.threads[t]? = some (.queued f call woken)
  | .wakeUp t f call ret => s.threads[t]? = some (.waking f call ret)
  | .interrupted t x => s.threads[t]? = some x ∧ x.interruptible = true

instance (s : WakeSys) (a : WakeAct) : Decidable (s.guard a) := by
  cases a <;> unfold guard <;> infer_instance

def goto (s : WakeSys) (t : ℕ) (x : WakeThread) : WakeSys := { s with threads := s.threads.set t x }

/-- What the copy of a call comes to: a fault ends it, else it has a queue to wake. -/
def moved (f : ℕ) (call : PipeCall) (fault : Option ℕ) (ret : ℤ) : WakeThread :=
  if fault.isSome then .returned ret else .waking f call ret

/-- `scull_p_read` or `scull_p_write`, from the mutex until it is given back. -/
def critical (s : WakeSys) (t f : ℕ) (call : PipeCall) (fault : Option ℕ) : WakeSys :=
  if Pipe.passes s.dev call then
    match call with
    | .read count =>
        let r := s.dev.scullPRead count fault.isSome
        { s.goto t (moved f call fault r.1) with dev := r.2.2 }
    | .write buf =>
        let r := s.dev.scullPWrite buf fault
        { s.goto t (moved f call fault r.1) with dev := r.2.2 }
  else
    match s.files[f]?.join with
    | some ⟨_, true⟩ => s.goto t (.returned (-EAGAIN))
    | _ => s.goto t (.blocked f call)

def update (s : WakeSys) : WakeAct → WakeSys
  | .openFile file heap =>
      match s.dev.scullPOpen s.params.scullPBuffer file.mode heap with
      | none => s
      | some dev => { s with dev := dev, files := s.files ++ [some file] }
  | .release f file =>
      { s with dev := s.dev.scullPRelease file.mode, files := s.files.set f none }
  | .ioctl cmd arg user => { s with params := (scullIoctl cmd arg user s.params).params }
  | .enter t f _ _ call => s.goto t (.locking f call)
  | .locked t f call fault => s.critical t f call fault
  | .prepare t f call => s.goto t (.queued f call false)
  | .test t f call woken =>
      if Pipe.passes s.dev call then s.goto t (.locking f call)
      else if woken then s.goto t (WakeThread.rescheduled f call)
      else s.goto t (.asleep f call)
  | .wakeUp t _ call ret =>
      { s with threads := (s.threads.map (WakeThread.wokenBy call.wakes)).set t (.returned ret) }
  | .interrupted t _ => s.goto t (.returned (-ERESTARTSYS))

def step : WakeSys → WakeAct → Option WakeSys := guarded guard update

/-- The pipe after `scull_p_init`, with `n` threads. -/
def init (scullPBuffer : ℤ) (n : ℕ) : WakeSys where
  dev := ⟨none, 0, 0, 0, 0, 0, 0, fun _ => 0⟩
  params := { Params.default with scullPBuffer := toInt scullPBuffer }
  files := []
  threads := List.replicate n (.returned 0)

/-! ## What is promised, and when it holds -/

/-- No thread sleeps on a condition that holds, unless a thread is still to wake it. -/
def SleepersAttended (s : WakeSys) : Prop :=
  Attended WakeThread.asleepOn WakeThread.willWake s.dev.Ready s.threads

/-- What a step must leave behind. -/
def Attends (s : WakeSys) (a : WakeAct) : Prop := ∀ s', step s a = some s' → s'.SleepersAttended

/-- An open that makes room does not meet a sleeping writer whom nobody is about to wake. -/
def Calm (s : WakeSys) : WakeAct → Prop
  | .openFile file heap =>
      (s.dev.scullPOpen s.params.scullPBuffer file.mode heap).isSome = true →
        toInt (s.params.scullPBuffer - 1) ≠ 0 →
        (∃ x ∈ s.threads, x.asleepOn = some .outq) → ∃ x ∈ s.threads, x.willWake = some .outq
  | _ => True

instance (s : WakeSys) (a : WakeAct) : Decidable (s.Calm a) := by
  cases a <;> unfold Calm <;> infer_instance

/-! ## The steps -/

section Steps

variable {s : WakeSys}

theorem passes_iff (dev : ScullPipe) (call : PipeCall) :
    Pipe.passes dev call = true ↔ dev.Ready call.queue := by
  cases call <;> simp [Pipe.passes, ScullPipe.Ready, PipeCall.queue]

/-- A thread that had nobody to wake goes on, the pipe stays as it is. -/
theorem attended_goto (ha : s.SleepersAttended) {t : ℕ} {x y : WakeThread}
    (hx : s.threads[t]? = some x) (hidle : x.willWake = none)
    (hsleep : ∀ k, y.asleepOn = some k → ¬ s.dev.Ready k) : (s.goto t y).SleepersAttended :=
  attended_set ha hx hidle hsleep fun _ hk => .inl hk

/-- What a transfer makes true is what its call will wake for. -/
theorem attended_moved (ha : s.SleepersAttended) {t f : ℕ} {call : PipeCall} {fault : Option ℕ}
    (hx : s.threads[t]? = some (.locking f call)) (hpass : Pipe.passes s.dev call = true)
    {dev : ScullPipe} (ret : ℤ) (hsame : fault.isSome = true → ∀ k, dev.Ready k ↔ s.dev.Ready k) :
    ({ s.goto t (moved f call fault ret) with dev := dev } : WakeSys).SleepersAttended := by
  refine attended_set ha hx rfl ?_ ?_
  · intro k hk
    unfold moved at hk
    split at hk <;> cases hk
  · intro k hk
    by_cases hfault : fault.isSome = true
    · exact .inl ((hsame hfault k).mp hk)
    · rcases eq_or_ne k call.queue with rfl | hne
      · exact .inl ((passes_iff s.dev call).mp hpass)
      · right
        unfold moved
        rw [if_neg hfault]
        show some call.wakes = some k
        cases call <;> cases k
        · exact absurd rfl hne
        · rfl
        · rfl
        · exact absurd rfl hne

theorem attended_critical (ha : s.SleepersAttended) {t f : ℕ} {call : PipeCall} (fault : Option ℕ)
    (hx : s.threads[t]? = some (.locking f call)) :
    (s.critical t f call fault).SleepersAttended := by
  unfold critical
  split
  · rename_i hpass
    cases call with
    | read count =>
        refine attended_moved ha hx hpass _ ?_
        intro hfault k
        rw [hfault]
        exact Iff.rfl
    | write buf =>
        refine attended_moved ha hx hpass _ ?_
        intro hfault k
        unfold ScullPipe.scullPWrite
        simp only [hfault, if_true]
        cases k <;> exact Iff.rfl
  · split
    · exact attended_goto ha hx rfl (by simp [WakeThread.asleepOn])
    · exact attended_goto ha hx rfl (by simp [WakeThread.asleepOn])

theorem attended_test (ha : s.SleepersAttended) {t f : ℕ} {call : PipeCall} {woken : Bool}
    (hx : s.threads[t]? = some (.queued f call woken)) :
    (s.update (.test t f call woken)).SleepersAttended := by
  show SleepersAttended (if Pipe.passes s.dev call then s.goto t (.locking f call)
    else if woken then s.goto t (WakeThread.rescheduled f call) else s.goto t (.asleep f call))
  split
  · exact attended_goto ha hx rfl (by simp [WakeThread.asleepOn])
  · rename_i hfail
    split
    · refine attended_goto ha hx rfl ?_
      intro k hk
      cases call <;> cases hk
    · -- it falls asleep, and the condition does not hold
      refine attended_goto ha hx rfl ?_
      intro k hk
      cases hk
      rw [← passes_iff]
      exact hfail

/-- A sleeper stays asleep when another queue is woken. -/
theorem asleepOn_wokenBy {q m : PipeQueue} {x : WakeThread}
    (h : (x.wokenBy q).asleepOn = some m) : m ≠ q ∧ x.asleepOn = some m := by
  cases x with
  | asleep f call =>
      by_cases hq : call.queue = q
      · simp only [WakeThread.wokenBy, hq, if_true] at h
        cases call <;> cases h
      · simp only [WakeThread.wokenBy, hq, if_false] at h
        cases h
        exact ⟨hq, rfl⟩
  | _ => cases h

theorem willWake_wokenBy (q : PipeQueue) (x : WakeThread) :
    (x.wokenBy q).willWake = x.willWake := by
  cases x with
  | asleep f call =>
      by_cases hq : call.queue = q
      · simp only [WakeThread.wokenBy, hq, if_true]
        cases call <;> rfl
      · simp only [WakeThread.wokenBy, hq, if_false]
  | _ => rfl

theorem attended_wakeUp (ha : s.SleepersAttended) {t f : ℕ} {call : PipeCall} {ret : ℤ}
    (hx : s.threads[t]? = some (.waking f call ret)) :
    (s.update (.wakeUp t f call ret)).SleepersAttended := by
  apply attended_wake ha hx (k := call.wakes) rfl rfl
  · intro z hz
    exact (asleepOn_wokenBy hz).1 rfl
  · intro z m hz
    exact (asleepOn_wokenBy hz).2
  · exact willWake_wokenBy call.wakes

/-- An open empties the pipe, whoever may be waiting for that. -/
theorem attended_open_iff (ha : s.SleepersAttended) (file : PipeFile)
    (heap : Option (ℤ → UInt8)) :
    (s.update (.openFile file heap)).SleepersAttended ↔ s.Calm (.openFile file heap) := by
  unfold Calm
  cases ho : s.dev.scullPOpen s.params.scullPBuffer file.mode heap with
  | none =>
      simp only [update, ho]
      exact ⟨fun _ h => absurd h (by simp), fun _ => ha⟩
  | some dev =>
      have hspace : dev.Ready .outq ↔ toInt (s.params.scullPBuffer - 1) ≠ 0 := by
        rcases Option.map_eq_some_iff.mp ho with ⟨dev₀, -, rfl⟩
        exact Iff.rfl
      have hempty : ¬ dev.Ready .inq := by
        rcases Option.map_eq_some_iff.mp ho with ⟨dev₀, -, rfl⟩
        exact fun h => h rfl
      simp only [update, ho, Option.isSome_some, forall_const, ← hspace]
      constructor
      · intro h
        exact h .outq
      · intro h k hk
        cases k with
        | inq => exact absurd hk hempty
        | outq => exact h hk

theorem attended_step {s' : WakeSys} {a : WakeAct} (ha : s.SleepersAttended) (hcalm : s.Calm a)
    (hs : step s a = some s') : s'.SleepersAttended := by
  rcases guarded_eq_some.mp hs with ⟨hg, rfl⟩
  cases a with
  | openFile file heap => exact (attended_open_iff ha file heap).mpr hcalm
  | release f file =>
      intro k hk
      refine ha k ?_
      cases k <;> exact hk
  | ioctl cmd arg user => exact ha
  | enter t f ret file call => exact attended_goto ha hg.1 rfl (by simp [WakeThread.asleepOn])
  | locked t f call fault => exact attended_critical ha fault hg
  | prepare t f call => exact attended_goto ha hg rfl (by simp [WakeThread.asleepOn])
  | test t f call woken => exact attended_test ha hg
  | wakeUp t f call ret => exact attended_wakeUp ha hg
  | interrupted t x =>
      refine attended_goto ha hg.1 ?_ (by simp [WakeThread.asleepOn])
      have hint := hg.2
      cases x with
      | waking f call ret => cases hint
      | _ => rfl

theorem attends_iff (ha : s.SleepersAttended) (a : WakeAct) : s.Attends a ↔ s.Calm a := by
  constructor
  · intro h
    cases a with
    | openFile file heap =>
        exact (attended_open_iff ha file heap).mp (h _ (guarded_eq_some.mpr ⟨trivial, rfl⟩))
    | _ => trivial
  · intro hcalm s' hs
    exact attended_step ha hcalm hs

end Steps

/-! ## Whole runs -/

theorem attended_init (scullPBuffer : ℤ) (n : ℕ) : (init scullPBuffer n).SleepersAttended := by
  intro k _ hsleeper
  rcases hsleeper with ⟨x, hx, hxk⟩
  cases List.eq_of_mem_replicate hx
  cases hxk

/-- No wake-up is lost: no thread ever sleeps on a queue whose condition holds, with nobody
about to wake that queue, exactly when no open makes room for writers that sleep and that
nobody is about to wake. -/
theorem attended_iff (scullPBuffer : ℤ) (n : ℕ) (as : List WakeAct) :
    Along step Attends (init scullPBuffer n) as ↔ Along step Calm (init scullPBuffer n) as :=
  along_iff (R := fun _ _ => True) (fun _ a ha _ => attends_iff ha a)
    (fun _ _ _ ha _ hcalm hs => attended_step ha hcalm hs) (attended_init scullPBuffer n)
    (along_of_forall fun _ _ _ => trivial)

/-- In a run without such an open, nobody sleeps in vain once all wake-ups are done. -/
theorem not_ready_of_asleep {scullPBuffer : ℤ} {n : ℕ} {as : List WakeAct} {s : WakeSys}
    (hr : run step (init scullPBuffer n) as = some s)
    (hcalm : Along step Calm (init scullPBuffer n) as)
    (hdone : ∀ x ∈ s.threads, x.willWake = none) {x : WakeThread} (hx : x ∈ s.threads)
    {k : PipeQueue} (hk : x.asleepOn = some k) : ¬ s.dev.Ready k := by
  have ha : s.SleepersAttended :=
    run_invariant_along (fun _ _ _ ha hc hs => attended_step ha hc hs)
      (attended_init scullPBuffer n) hcalm hr
  intro hready
  rcases ha k hready ⟨x, hx, hk⟩ with ⟨y, hy, hwake⟩
  rw [hdone y hy] at hwake
  cases hwake

/-- A file whose calls block. -/
def blocking : PipeFile := ⟨⟨true, true⟩, false⟩

/-- A writer has filled a pipe of two bytes, and sleeps until there is room. -/
def writerAsleep : List WakeAct :=
  [.openFile blocking (some fun _ => 0),
   .enter 0 0 0 blocking (.write [1]), .locked 0 0 (.write [1]) none, .wakeUp 0 0 (.write [1]) 1,
   .enter 0 0 1 blocking (.write [2]), .locked 0 0 (.write [2]) none,
   .prepare 0 0 (.write [2]), .test 0 0 (.write [2]) false]

/-- Then the pipe is opened again: all bytes are gone, and the writer sleeps on. -/
theorem second_open_strands : ∃ s,
    run step (init 2 1) (writerAsleep ++ [.openFile blocking none]) = some s ∧
      s.threads = [.asleep 0 (.write [2])] ∧ s.dev.spacefree = 1 ∧ s.dev.rp = s.dev.wp :=
  ⟨_, rfl, rfl, rfl, rfl⟩

end WakeSys

end Scull
