import DriversLab.Lib.Simulation
import DriversLab.Scull.PipeWake

/-!
# Scull.PipeProgress — readers and writers of a scullpipe do not wait for each other

* `simulated`: `WakeSys` is `PipeSys` with more steps, so that what holds of the buffer there
  holds here;
* `not_both_asleep`: no reader and writer sleep at the same time with nobody to wake them;
* `scullPPoll`, `poll_spec`: what `poll` says about the calls that could be made.
-/

namespace Scull

open CInt Lts

namespace WakeSys

/-! ## The steps that `Scull.Pipe` does not tell apart -/

/-- Where `PipeSys` sees a thread: a call has returned once it has moved its bytes. -/
def coarse : WakeThread → PipeThread
  | .returned ret => .returned ret
  | .locking f call => .locking f call
  | .blocked f call | .queued f call _ | .asleep f call => .sleeping f call
  | .waking _ _ ret => .returned ret

/-- `p` is `s`, seen coarsely. -/
structure Shows (s : WakeSys) (p : PipeSys) : Prop where
  dev : p.dev = s.dev
  params : p.params = s.params
  files : p.files = s.files
  threads : p.threads = s.threads.map coarse

/-- Opens, and only they, stand for opens. -/
def allows (a : WakeAct) (b : PipeAct) : Prop := b.IsOpen → ∃ file heap, a = .openFile file heap

/-- How a step is matched. -/
def Matched (s : WakeSys) (a : WakeAct) (p : PipeSys) : Prop :=
  ∃ bs p', run Pipe.step p bs = some p' ∧ (∀ b ∈ bs, allows a b) ∧ Shows (s.update a) p'

section Steps

variable {s : WakeSys} {p : PipeSys}

/-- By nothing. -/
theorem matched_nil {a : WakeAct} (h : Shows (s.update a) p) : Matched s a p :=
  ⟨[], p, rfl, by simp, h⟩

/-- By one action. -/
theorem matched_one {a : WakeAct} {b : PipeAct} (hg : Pipe.guard p b) (hab : allows a b)
    (h : Shows (s.update a) (Pipe.update p b)) : Matched s a p := by
  refine ⟨[b], _, run_singleton.mpr (guarded_eq_some.mpr ⟨hg, rfl⟩), ?_, h⟩
  intro c hc
  cases List.mem_singleton.mp hc
  exact hab

theorem coarse_getElem? (h : Shows s p) {t : ℕ} {x : WakeThread} (hx : s.threads[t]? = some x) :
    p.threads[t]? = some (coarse x) := by
  rw [h.threads, List.getElem?_map, hx, Option.map_some]

/-- A thread goes where `PipeSys` sees no difference. -/
theorem shows_goto_same (h : Shows s p) {t : ℕ} {x y : WakeThread}
    (hx : s.threads[t]? = some x) (hxy : coarse y = coarse x) : Shows (s.goto t y) p := by
  refine ⟨h.dev, h.params, h.files, ?_⟩
  show p.threads = (s.threads.set t y).map coarse
  rcases List.getElem?_eq_some_iff.mp (coarse_getElem? h hx) with ⟨hlt, hat⟩
  rw [List.map_set, hxy, ← h.threads, ← hat, List.set_getElem_self]

/-- A thread goes on alike in both. -/
theorem shows_goto (h : Shows s p) (t : ℕ) (y : WakeThread) :
    Shows (s.goto t y) { p with threads := p.threads.set t (coarse y) } := by
  refine ⟨h.dev, h.params, h.files, ?_⟩
  show p.threads.set t (coarse y) = (s.threads.set t y).map coarse
  rw [List.map_set, h.threads]

theorem shows_open (h : Shows s p) (file : PipeFile) (heap : Option (ℤ → UInt8)) :
    Shows (s.update (.openFile file heap)) (Pipe.update p (.openFile file heap)) := by
  rcases p with ⟨dev, params, files, threads, accepted, returned⟩
  rcases h with ⟨rfl, rfl, rfl, rfl⟩
  cases ho : s.dev.scullPOpen s.params.scullPBuffer file.mode heap with
  | none =>
      simp only [update, Pipe.update, ho]
      exact ⟨rfl, rfl, rfl, rfl⟩
  | some dev =>
      simp only [update, Pipe.update, ho]
      exact ⟨rfl, rfl, rfl, rfl⟩

theorem matched_locked (h : Shows s p) {t f : ℕ} {call : PipeCall} (fault : Option ℕ)
    (hx : s.threads[t]? = some (.locking f call)) : Matched s (.locked t f call fault) p := by
  refine matched_one (b := .locked t f call fault) (coarse_getElem? h hx) False.elim ?_
  show Shows (s.critical t f call fault) (Pipe.critical p t f call fault)
  rcases p with ⟨dev, params, files, threads, accepted, returned⟩
  rcases h with ⟨rfl, rfl, rfl, rfl⟩
  cases hpass : Pipe.passes s.dev call with
  | false =>
      rw [Pipe.critical_blocked hpass]
      unfold critical Pipe.blocked
      rw [if_neg (by simp [hpass])]
      rcases s.files[f]?.join with _ | ⟨mode, _ | _⟩ <;> exact shows_goto ⟨rfl, rfl, rfl, rfl⟩ t _
  | true =>
      have hmoved : ∀ ret, coarse (moved f call fault ret) = .returned ret := by
        intro ret
        unfold moved
        split <;> rfl
      cases call with
      | read count =>
          rw [Pipe.critical_read hpass, critical, if_pos hpass]
          refine ⟨rfl, rfl, rfl, ?_⟩
          show _ = (s.threads.set t _).map coarse
          rw [List.map_set, hmoved]
      | write buf =>
          rw [Pipe.critical_write hpass, critical, if_pos hpass]
          refine ⟨rfl, rfl, rfl, ?_⟩
          show _ = (s.threads.set t _).map coarse
          rw [List.map_set, hmoved]

/-- A wake-up sends a sleeper for the mutex, or changes nothing to be seen. -/
theorem coarse_wokenBy (q : PipeQueue) (z : WakeThread) :
    coarse (z.wokenBy q) = coarse z ∨
      ∃ f call, coarse z = .sleeping f call ∧ coarse (z.wokenBy q) = .locking f call := by
  cases z with
  | asleep f call =>
      by_cases hq : call.queue = q
      · simp only [WakeThread.wokenBy, hq, if_true]
        cases call with
        | read count => exact Or.inl rfl
        | write buf => exact Or.inr ⟨f, .write buf, rfl, rfl⟩
      · simp only [WakeThread.wokenBy, hq, if_false]
        exact Or.inl trivial
  | _ => exact Or.inl rfl

theorem matched_test (h : Shows s p) {t f : ℕ} {call : PipeCall} {woken : Bool}
    (hx : s.threads[t]? = some (.queued f call woken)) :
    Matched s (.test t f call woken) p := by
  -- it goes for the mutex, or stays where it was
  have hmutex : ∀ y, coarse y = .locking f call → s.update (.test t f call woken) = s.goto t y →
      Matched s (.test t f call woken) p := by
    intro y hy hupdate
    refine matched_one (b := .wake t f call) (coarse_getElem? h hx) False.elim ?_
    rw [hupdate]
    show Shows (s.goto t y) { p with threads := p.threads.set t (.locking f call) }
    rw [← hy]
    exact shows_goto h t y
  have hstay : ∀ y, coarse y = .sleeping f call → s.update (.test t f call woken) = s.goto t y →
      Matched s (.test t f call woken) p := by
    intro y hy hupdate
    apply matched_nil
    rw [hupdate]
    exact shows_goto_same h hx hy
  cases hpass : Pipe.passes s.dev call with
  | true => exact hmutex (.locking f call) rfl (by simp [update, hpass])
  | false =>
      cases woken with
      | false => exact hstay (.asleep f call) rfl (by simp [update, hpass])
      | true =>
          cases call with
          | read count =>
              exact hstay (.blocked f (.read count)) rfl
                (by simp [update, hpass, WakeThread.rescheduled])
          | write buf =>
              exact hmutex (.locking f (.write buf)) rfl
                (by simp [update, hpass, WakeThread.rescheduled])

/-- The sleepers that a wake-up reaches go on one after the other. -/
theorem matched_wakeUp (h : Shows s p) {t f : ℕ} {call : PipeCall} {ret : ℤ}
    (hx : s.threads[t]? = some (.waking f call ret)) :
    Matched s (.wakeUp t f call ret) p := by
  have hone : ∀ pre z post, ∃ bs, run Pipe.step { p with threads := pre ++ coarse z :: post } bs =
      some { p with threads := pre ++ coarse (z.wokenBy call.wakes) :: post } ∧
        ∀ b ∈ bs, allows (.wakeUp t f call ret) b := by
    intro pre z post
    rcases coarse_wokenBy call.wakes z with heq | ⟨g, c, hz, hwoken⟩
    · rw [heq]
      exact ⟨[], rfl, by simp⟩
    · rw [hz, hwoken]
      refine ⟨[.wake pre.length g c], ?_, ?_⟩
      · refine run_singleton.mpr (guarded_eq_some.mpr ⟨?_, ?_⟩)
        · simp [Pipe.guard]
        · simp [Pipe.update]
      · intro b hb
        cases List.mem_singleton.mp hb
        exact False.elim
  rcases run_map (m := fun l => { p with threads := l }) (f := coarse)
    (g := fun z => coarse (z.wokenBy call.wakes)) hone s.threads with ⟨bs, hbs, hallow⟩
  refine ⟨bs, { p with threads := s.threads.map fun z => coarse (z.wokenBy call.wakes) }, ?_,
    hallow, h.dev, h.params, h.files, ?_⟩
  · rw [← h.threads] at hbs
    exact hbs
  · -- the waking thread is seen to have returned
    show _ = ((s.threads.map (WakeThread.wokenBy call.wakes)).set t (.returned ret)).map coarse
    have hat : (s.threads.map fun z => coarse (z.wokenBy call.wakes))[t]? =
        some (.returned ret) := by
      rw [List.getElem?_map, hx]
      rfl
    rcases List.getElem?_eq_some_iff.mp hat with ⟨hlt, heq⟩
    rw [List.map_set, List.map_map]
    exact ((congrArg _ heq.symm).trans (List.set_getElem_self hlt)).symm

theorem matched {a : WakeAct} (h : Shows s p) (hg : s.guard a) : Matched s a p := by
  cases a with
  | openFile file heap =>
      exact matched_one (b := .openFile file heap) trivial (fun _ => ⟨file, heap, rfl⟩)
        (shows_open h file heap)
  | release f file =>
      refine matched_one (b := .release f file) ?_ False.elim ?_
      · refine ⟨by rw [h.files]; exact hg.1, ?_⟩
        rw [h.threads, List.forall_mem_map]
        intro x hx hfile
        apply hg.2 x hx
        cases x with
        | waking g call ret => cases hfile
        | _ => exact hfile
      · rcases h with ⟨hdev, hparams, hfiles, hthreads⟩
        exact ⟨by simp only [Pipe.update, update, hdev], hparams,
          by simp only [Pipe.update, update, hfiles], hthreads⟩
  | ioctl cmd arg user =>
      refine matched_one (b := .ioctl cmd arg user) trivial False.elim ?_
      rcases h with ⟨hdev, hparams, hfiles, hthreads⟩
      exact ⟨hdev, by simp only [Pipe.update, update, hparams], hfiles, hthreads⟩
  | enter t f ret file call =>
      refine matched_one (b := .enter t f file call) ?_ False.elim (shows_goto h t _)
      exact ⟨⟨ret, coarse_getElem? h hg.1⟩, by rw [h.files]; exact hg.2.1, hg.2.2⟩
  | locked t f call fault => exact matched_locked h fault hg
  | prepare t f call => exact matched_nil (shows_goto_same h hg rfl)
  | test t f call woken => exact matched_test h hg
  | wakeUp t f call ret => exact matched_wakeUp h hg
  | interrupted t x =>
      have hat := coarse_getElem? h hg.1
      have hint := hg.2
      cases x with
      | returned ret => cases hint
      | blocked f call => cases hint
      | waking f call ret => cases hint
      | locking f call =>
          exact matched_one (b := .interrupted t f call) (Or.inl hat) False.elim (shows_goto h t _)
      | queued f call woken =>
          exact matched_one (b := .interrupted t f call) (Or.inr hat) False.elim (shows_goto h t _)
      | asleep f call =>
          exact matched_one (b := .interrupted t f call) (Or.inr hat) False.elim (shows_goto h t _)

end Steps

/-- The pipe with its wait queues runs like the pipe of `Scull.Pipe`. -/
theorem simulated : Simulated step Pipe.step Shows allows := by
  intro s p a s' hR hs
  rcases guarded_eq_some.mp hs with ⟨hg, rfl⟩
  exact matched hR hg

theorem shows_init (scullPBuffer : ℤ) (n : ℕ) :
    Shows (init scullPBuffer n) (Pipe.init scullPBuffer n) := by
  refine ⟨rfl, rfl, rfl, ?_⟩
  simp [init, Pipe.init, coarse]

/-! ## Between two opens -/

/-- An open of the pipe that leaves a ring of `n ≥ 2` bytes, in a buffer that is no smaller. -/
structure Opened (s₀ : WakeSys) (n : ℕ) : Prop where
  buffer : ∃ k, s₀.dev.buffer = some k ∧ n ≤ k
  buffersize : s₀.dev.buffersize = n
  room : 2 ≤ n

/-- The bytes in the pipe, since an open that left a ring of `n ≥ 2` bytes. -/
theorem unread {scullPBuffer : ℤ} {m n : ℕ} {as₁ as : List WakeAct} {s₁ s₀ s : WakeSys}
    {file : PipeFile} {heap : Option (ℤ → UInt8)}
    (h₁ : run step (init scullPBuffer m) as₁ = some s₁)
    (hopen : step s₁ (.openFile file heap) = some s₀) (hn : Opened s₀ n)
    (hr : run step s₀ as = some s) (has : ∀ file heap, WakeAct.openFile file heap ∉ as) :
    ∃ u : ℕ, u ≤ n - 1 ∧ (s.dev.rp = s.dev.wp ↔ u = 0) ∧ s.dev.spacefree = n - 1 - u := by
  rcases simulated.run (shows_init scullPBuffer m) h₁ with ⟨bs₁, p₁, hbs₁, -, hp₁⟩
  have hp₀ : Shows s₀ (Pipe.update p₁ (.openFile file heap)) := by
    rcases guarded_eq_some.mp hopen with ⟨-, rfl⟩
    exact shows_open hp₁ file heap
  rcases simulated.run hp₀ hr with ⟨bs, p, hbs, hallow, hp⟩
  rcases hn.buffer with ⟨k, hbuf, hk⟩
  have hlaw := Pipe.fifo (n := n) (k := k) ⟨_, _, ⟨scullPBuffer, m, rfl⟩, hbs₁⟩
    (guarded_eq_some.mpr ⟨trivial, rfl⟩) (by rw [hp₀.dev]; exact hbuf)
    (by rw [hp₀.dev]; exact hn.buffersize) hn.room hk hbs ?_
  · rcases hlaw with ⟨_, _, u, _, _, _, _, hu, hempty, hspace, _⟩
    rw [hp.dev] at hempty hspace
    exact ⟨u, hu, hempty, hspace⟩
  · intro b hb hopen
    rcases hallow b hb with ⟨a, ha, hab⟩
    rcases hab hopen with ⟨file', heap', rfl⟩
    exact has file' heap' ha

/-- No reader and writer of a pipe of two bytes or more wait for each other: when both sleep,
somebody is about to wake one of them. -/
theorem not_both_asleep {scullPBuffer : ℤ} {m n : ℕ} {as₁ as : List WakeAct}
    {s₁ s₀ s : WakeSys} {file : PipeFile} {heap : Option (ℤ → UInt8)}
    (h₁ : run step (init scullPBuffer m) as₁ = some s₁)
    (hopen : step s₁ (.openFile file heap) = some s₀) (hn : Opened s₀ n)
    (hr : run step s₀ as = some s) (has : ∀ file heap, WakeAct.openFile file heap ∉ as)
    (hcalm : Along step Calm (init scullPBuffer m) (as₁ ++ .openFile file heap :: as))
    {x y : WakeThread} (hx : x ∈ s.threads) (hreader : x.asleepOn = some .inq)
    (hy : y ∈ s.threads) (hwriter : y.asleepOn = some .outq) :
    ∃ z ∈ s.threads, z.willWake ≠ none := by
  rcases unread h₁ hopen hn hr has with ⟨u, hu, hempty, hspace⟩
  have hroom := hn.room
  have hrun : run step (init scullPBuffer m) (as₁ ++ .openFile file heap :: as) = some s :=
    run_append.mpr ⟨s₁, h₁, run_cons.mpr ⟨s₀, hopen, hr⟩⟩
  by_contra hnobody
  have hdone : ∀ z ∈ s.threads, z.willWake = none := by
    intro z hz
    by_contra hwake
    exact hnobody ⟨z, hz, hwake⟩
  have hnothing : s.dev.rp = s.dev.wp := by
    by_contra hne
    exact not_ready_of_asleep hrun hcalm hdone hx hreader hne
  have hfull : s.dev.spacefree = 0 := by
    by_contra hne
    exact not_ready_of_asleep hrun hcalm hdone hy hwriter hne
  have hzero := hempty.mp hnothing
  omega

/-- The first thread waits for a byte; the second has written one, and is about to wake the
first; the third waits for room. -/
def bothAsleep : List WakeAct :=
  [.enter 0 0 0 blocking (.read 1), .locked 0 0 (.read 1) none,
   .prepare 0 0 (.read 1), .test 0 0 (.read 1) false,
   .enter 1 0 0 blocking (.write [1]), .locked 1 0 (.write [1]) none,
   .enter 2 0 0 blocking (.write [2]), .locked 2 0 (.write [2]) none,
   .prepare 2 0 (.write [2]), .test 2 0 (.write [2]) false]

theorem not_both_asleep_two : ∃ s₀ s,
    step (init 2 3) (.openFile blocking (some fun _ => 0)) = some s₀ ∧
      run step s₀ bothAsleep = some s ∧
      s.threads = [.asleep 0 (.read 1), .waking 0 (.write [1]) 1, .asleep 0 (.write [2])] ∧
      ∃ z ∈ s.threads, z.willWake ≠ none := by
  refine ⟨_, _, rfl, rfl, rfl, ?_⟩
  refine not_both_asleep (show run step (init 2 3) [] = some (init 2 3) from rfl)
    (show step (init 2 3) (.openFile blocking (some fun _ => 0)) = some _ from rfl)
    (⟨⟨2, rfl, le_refl 2⟩, rfl, le_refl 2⟩ : Opened _ 2)
    (show run step _ bothAsleep = some _ from rfl) ?_
    (by decide) (x := .asleep 0 (.read 1)) (y := .asleep 0 (.write [2])) List.mem_cons_self rfl
    (List.mem_cons_of_mem _ (List.mem_cons_of_mem _ List.mem_cons_self)) rfl
  intro file heap hmem
  simp [bothAsleep] at hmem

end WakeSys

/-! ## poll -/

def POLLIN : ℕ := 0x1
def POLLOUT : ℕ := 0x4
def POLLRDNORM : ℕ := 0x40
def POLLWRNORM : ℕ := 0x100

/-- `scull_p_poll` under the mutex. -/
def ScullPipe.scullPPoll (dev : ScullPipe) : ℕ :=
  (if dev.rp ≠ dev.wp then POLLIN ||| POLLRDNORM else 0) |||
    (if dev.spacefree ≠ 0 then POLLOUT ||| POLLWRNORM else 0)

/-- The event that tells of a call that would not block. -/
def PipeCall.event : PipeCall → ℕ
  | .read _ => POLLIN
  | .write _ => POLLOUT

namespace Pipe

theorem event_bits (r w : Prop) [Decidable r] [Decidable w] :
    (((if r then POLLIN ||| POLLRDNORM else 0) ||| (if w then POLLOUT ||| POLLWRNORM else 0)) &&&
      POLLIN ≠ 0 ↔ r) ∧
    (((if r then POLLIN ||| POLLRDNORM else 0) ||| (if w then POLLOUT ||| POLLWRNORM else 0)) &&&
      POLLOUT ≠ 0 ↔ w) := by
  by_cases hr : r <;> by_cases hw : w <;> simp only [hr, hw, if_true, if_false] <;> decide

theorem poll_event_iff (dev : ScullPipe) (call : PipeCall) :
    dev.scullPPoll &&& call.event ≠ 0 ↔ passes dev call = true := by
  rcases event_bits (dev.rp ≠ dev.wp) (dev.spacefree ≠ 0) with ⟨hread, hwrite⟩
  cases call with
  | read count => exact hread.trans (by simp [passes])
  | write buf => exact hwrite.trans (by simp [passes])

/-- `poll` tells the truth about a pipe of two bytes or more, between two opens (a ring of `n` bytes
lies in a buffer of `k ≥ n`):

* it reports the pipe readable exactly when bytes that have been accepted have not been
  returned, writable exactly when fewer than `n - 1` are in it, and always one of the two;
* a call that it has promised moves at least a byte when it comes next and its copy does not
  fault; one that it has not promised leaves the pipe as it is, and returns `-EAGAIN` or goes
  to sleep. -/
theorem poll_spec {s₁ s₀ s : PipeSys} {file : PipeFile} {heap : Option (ℤ → UInt8)} {n k : ℕ}
    {as : List PipeAct} (h₁ : Reachable step Loaded s₁)
    (hopen : step s₁ (.openFile file heap) = some s₀) (hbuf : s₀.dev.buffer = some k)
    (hsize : s₀.dev.buffersize = n) (hn : 2 ≤ n) (hk : n ≤ k) (hr : run step s₀ as = some s)
    (has : ∀ a ∈ as, ¬ a.IsOpen) :
    (∃ written read : List UInt8, ∃ u : ℕ,
      s.accepted = s₀.accepted ++ written ∧ s.returned = s₀.returned ++ read ∧
      written.length = read.length + u ∧ (s.dev.scullPPoll &&& POLLIN ≠ 0 ↔ 1 ≤ u) ∧
      (s.dev.scullPPoll &&& POLLOUT ≠ 0 ↔ u < n - 1)) ∧
    (s.dev.scullPPoll &&& POLLIN ≠ 0 ∨ s.dev.scullPPoll &&& POLLOUT ≠ 0) ∧
    (∀ t f call s', s.dev.scullPPoll &&& call.event ≠ 0 → 1 ≤ call.count →
      step s (.locked t f call none) = some s' →
      ∃ m : ℕ, 1 ≤ m ∧ s'.threads[t]? = some (.returned m) ∧
        s'.accepted.length + s'.returned.length = s.accepted.length + s.returned.length + m) ∧
    ∀ t f call fault s', s.dev.scullPPoll &&& call.event = 0 →
      step s (.locked t f call fault) = some s' →
      s'.dev = s.dev ∧ s'.threads[t]? = some (blocked s f call) := by
  rcases fifo h₁ hopen hbuf hsize hn hk hr has with
    ⟨written, read, u, hacc, hret, -, hlen, hu, hempty, hspace, -, -, hmoves⟩
  have hread : s.dev.scullPPoll &&& POLLIN ≠ 0 ↔ 1 ≤ u := by
    have hiff : s.dev.scullPPoll &&& POLLIN ≠ 0 ↔ s.dev.rp ≠ s.dev.wp := by
      simpa [passes, PipeCall.event] using poll_event_iff s.dev (.read 0)
    rw [hiff, ne_eq, hempty]
    omega
  have hwrite : s.dev.scullPPoll &&& POLLOUT ≠ 0 ↔ u < n - 1 := by
    have hiff : s.dev.scullPPoll &&& POLLOUT ≠ 0 ↔ s.dev.spacefree ≠ 0 := by
      simpa [passes, PipeCall.event] using poll_event_iff s.dev (.write [])
    rw [hiff, hspace]
    omega
  refine ⟨⟨written, read, u, hacc, hret, hlen, hread, hwrite⟩, ?_, ?_, ?_⟩
  · rw [hread, hwrite]
    omega
  · intro t f call s' hevent
    exact hmoves t f call s' ((poll_event_iff s.dev call).mp hevent)
  · intro t f call fault s' hevent hs
    have hfail : passes s.dev call = false := by
      cases hpass : passes s.dev call with
      | false => rfl
      | true => exact absurd hevent ((poll_event_iff s.dev call).mpr hpass)
    rcases guarded_eq_some.mp hs with ⟨hg, rfl⟩
    have hlt : t < s.threads.length := (List.getElem?_eq_some_iff.mp hg).1
    show (critical s t f call fault).dev = _ ∧ (critical s t f call fault).threads[t]? = _
    rw [critical_blocked hfail]
    exact ⟨rfl, List.getElem?_set_self hlt⟩

/-- A pipe of three bytes in a buffer of four, with one byte in it, can be read and written. -/
theorem poll_shrunk : ∃ s₁ s₀ s, run step (init 4 1) [openFour, shrink] = some s₁ ∧
    step s₁ openFour = some s₀ ∧ run step s₀ putTwoTakeOne = some s ∧
    (s.dev.scullPPoll &&& POLLIN ≠ 0 ∨ s.dev.scullPPoll &&& POLLOUT ≠ 0) ∧
    s.dev.scullPPoll = 0x145 := by
  refine ⟨_, _, _, rfl, rfl, rfl, ?_, rfl⟩
  have hlaw := poll_spec (n := 3) (k := 4)
    ⟨init 4 1, [openFour, shrink], ⟨4, 1, rfl⟩, rfl⟩ (show step _ openFour = some _ from rfl)
    rfl rfl (by decide) (by decide) (show run step _ putTwoTakeOne = some _ from rfl) ?_
  · exact hlaw.2.1
  · intro a ha
    simp only [putTwoTakeOne, putTwo, List.cons_append, List.nil_append, List.mem_cons,
      List.not_mem_nil, or_false] at ha
    rcases ha with rfl | rfl | rfl | rfl <;> exact id

end Pipe

end Scull
