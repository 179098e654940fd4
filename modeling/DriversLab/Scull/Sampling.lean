import DriversLab.Scull.Layout
import DriversLab.Lib.Lts
import DriversLab.Lib.Table

/-!
# Scull.Sampling — the sizes that a transfer works with

`scull_read` and `scull_write` load `dev->quantum` and `dev->qset` before they take
the mutex. The parties are any number of threads that transfer, opens that trim and
ioctls; a critical section is one step, and so is the load in front of it.

* `Sampled`: every thread between its load and its critical section holds the sizes
  of the device;
* `section_in_bounds`: a critical section that holds them leaves no array and no
  quantum;
* `sampling`: all of them do, in every run in which no write-only open changes the
  sizes of the device while a thread is between the two.
-/

namespace Scull

open Lts

/-- A call of `scull_read` or `scull_write`; the VFS passes no negative position. -/
inductive Xfer where
  | read (count : ℕ) (fPos : ℕ)
  | write (buf : List UInt8) (fPos : ℕ)
deriving DecidableEq, Repr

/-- A thread: between two calls, or in one with the sizes that it has loaded. -/
inductive XferThread where
  | idle
  | sampled (g : Geometry) (call : Xfer)
deriving DecidableEq, Repr

structure SampleSys where
  params : Params
  dev : ScullDev
  threads : List XferThread
deriving DecidableEq, Repr

inductive SampleAct where
  | sample (t : ℕ) (call : Xfer)
  | locked (t : ℕ) (g : Geometry) (call : Xfer) (env : Env)
  | interrupted (t : ℕ) (g : Geometry) (call : Xfer)
  | openFile (wronly : Bool)
  | ioctl (cmd : IoctlCmd) (arg : ℤ) (user : IoctlUser)

namespace Sampling

/-- The critical section of a call. -/
def perform (g : Geometry) (call : Xfer) (env : Env) (dev : ScullDev) : Except Trap Transfer :=
  match call with
  | .read count fPos => scullRead g count fPos env dev
  | .write buf fPos => scullWrite g buf fPos env dev

def guard (s : SampleSys) : SampleAct → Prop
  | .sample t _ => s.threads[t]? = some .idle
  | .locked t g call _ | .interrupted t g call => s.threads[t]? = some (.sampled g call)
  | .openFile _ | .ioctl _ _ _ => True

instance (s : SampleSys) : ∀ a : SampleAct, Decidable (guard s a)
  | .sample _ _ => inferInstanceAs (Decidable (_ = _))
  | .locked _ _ _ _ => inferInstanceAs (Decidable (_ = _))
  | .interrupted _ _ _ => inferInstanceAs (Decidable (_ = _))
  | .openFile _ => inferInstanceAs (Decidable True)
  | .ioctl _ _ _ => inferInstanceAs (Decidable True)

def update (s : SampleSys) : SampleAct → SampleSys
  | .sample t call => { s with threads := s.threads.set t (.sampled s.dev.geometry call) }
  | .locked t g call env =>
      { s with
        threads := s.threads.set t .idle
        dev :=
          match perform g call env s.dev with
          | .ok r => r.dev
          | .error _ => s.dev }
  | .interrupted t _ _ => { s with threads := s.threads.set t .idle }
  | .openFile wronly => { s with dev := scullOpen s.params wronly s.dev }
  | .ioctl cmd arg user => { s with params := (scullIoctl cmd arg user s.params).params }

def step : SampleSys → SampleAct → Option SampleSys := guarded guard update

/-- A device that has just been set up, and `n` threads. -/
def init (p : Params) (n : ℕ) : SampleSys :=
  ⟨p, ⟨[], p.geometry, 0⟩, List.replicate n .idle⟩

/-! ## What is promised, and when it holds -/

/-- An ioctl leaves the parameters at positive values. -/
def Positive (s : SampleSys) : SampleAct → Prop
  | .ioctl cmd arg user => (scullIoctl cmd arg user s.params).params.geometry.Valid
  | _ => True

/-- A critical section works with the sizes of the device, and accesses neither a
pointer array nor a quantum outside its bounds. -/
def InGeometry (s : SampleSys) : SampleAct → Prop
  | .locked t g call env => s.threads[t]? = some (.sampled g call) → g = s.dev.geometry ∧
      perform g call env s.dev ≠ .error .array ∧ perform g call env s.dev ≠ .error .quantum
  | _ => True

/-- A write-only open finds the parameters at the sizes of the device, or no thread
between its load and its critical section. -/
def QuietTrim (s : SampleSys) : SampleAct → Prop
  | .openFile true => s.params.geometry = s.dev.geometry ∨
      ∀ (t : ℕ) g call, s.threads[t]? ≠ some (.sampled g call)
  | _ => True

/-! ## The invariant -/

structure Sampled (s : SampleSys) : Prop where
  params : s.params.geometry.Valid
  dev : s.dev.geometry.Valid
  shape : Shape s.dev
  same : ∀ (t : ℕ) g call, s.threads[t]? = some (.sampled g call) → g = s.dev.geometry

/-- A critical section with the sizes of the device. -/
theorem perform_cases {dev : ScullDev} (hg : dev.geometry.Valid) (hshape : Shape dev)
    (call : Xfer) (env : Env) : perform dev.geometry call env dev = .error .divide ∨
      ∃ r, perform dev.geometry call env dev = .ok r ∧ Shape r.dev ∧
        r.dev.geometry = dev.geometry := by
  cases call with
  | read count fPos =>
      rcases read_cases _ env hg hshape (Int.natCast_nonneg fPos) with h | ⟨r, hr, hout⟩
      · exact Or.inl h
      · exact Or.inr ⟨r, hr, hout.kept.shape, hout.kept.geometry⟩
  | write buf fPos =>
      rcases write_cases hg hshape (Int.natCast_nonneg fPos) with h | ⟨r, hr, hout⟩
      · exact Or.inl h
      · cases hout with
        | refused hret hpos hkept => exact Or.inr ⟨r, hr, hkept.shape, hkept.geometry⟩
        | stored pos q hplace hq hret hpos hshape' hgeometry hsize hchunks =>
            exact Or.inr ⟨r, hr, hshape', hgeometry⟩

theorem section_in_bounds {s : SampleSys} (hi : Sampled s) (a : SampleAct) : InGeometry s a := by
  cases a with
  | locked t g call env =>
      intro ht
      have hsame := hi.same t g call ht
      subst hsame
      refine ⟨rfl, ?_, ?_⟩
      · rcases perform_cases hi.dev hi.shape call env with h | ⟨r, hr, _⟩
        · simp [h]
        · simp [hr]
      · rcases perform_cases hi.dev hi.shape call env with h | ⟨r, hr, _⟩
        · simp [h]
        · simp [hr]
  | sample t call => trivial
  | interrupted t g call => trivial
  | openFile wronly => trivial
  | ioctl cmd arg user => trivial

/-- A thread goes on, with the sizes of the device if it is in a call. -/
theorem same_set {s : SampleSys} {g₀ : Geometry} {t : ℕ} {th : XferThread}
    (h : ∀ (t : ℕ) g call, s.threads[t]? = some (.sampled g call) → g = g₀)
    (hth : ∀ g call, th = .sampled g call → g = g₀) :
    ∀ (u : ℕ) g call, (s.threads.set t th)[u]? = some (.sampled g call) → g = g₀ := by
  intro u g call hu
  refine Table.forall_set (P := fun _ x => ∀ g call, x = .sampled g call → g = g₀) ?_ hth u _ hu g
    call rfl
  intro v x _ hx g call heq
  subst heq
  exact h v g call hx

theorem sampled_step {s s' : SampleSys} {a : SampleAct} (hi : Sampled s) (hp : Positive s a)
    (hq : QuietTrim s a) (hs : step s a = some s') : Sampled s' := by
  rcases guarded_eq_some.mp hs with ⟨hgd, rfl⟩
  cases a with
  | sample t call =>
      refine ⟨hi.params, hi.dev, hi.shape, same_set hi.same ?_⟩
      intro g call' heq
      cases heq
      rfl
  | locked t g call env =>
      have hsame := hi.same t g call hgd
      subst hsame
      rcases perform_cases hi.dev hi.shape call env with h | ⟨r, hr, hshape, hgeometry⟩
      · simp only [update, h]
        exact ⟨hi.params, hi.dev, hi.shape, same_set hi.same nofun⟩
      · -- a transfer changes neither size
        simp only [update, hr]
        refine ⟨hi.params, ?_, hshape, ?_⟩
        · show r.dev.geometry.Valid
          rw [hgeometry]
          exact hi.dev
        · show ∀ (u : ℕ) g call, _ → g = r.dev.geometry
          rw [hgeometry]
          exact same_set hi.same nofun
  | interrupted t g call => exact ⟨hi.params, hi.dev, hi.shape, same_set hi.same nofun⟩
  | openFile wronly =>
      cases wronly with
      | true =>
          -- the trim gives the device the sizes of the parameters
          refine ⟨hi.params, hi.params, shape_trim s.params s.dev, ?_⟩
          intro t g call ht
          rcases hq with heq | hnone
          · exact (hi.same t g call ht).trans heq.symm
          · exact absurd ht (hnone t g call)
      | false => exact ⟨hi.params, hi.dev, hi.shape, hi.same⟩
  | ioctl cmd arg user => exact ⟨hp, hi.dev, hi.shape, hi.same⟩

theorem sampled_init {p : Params} (hp : p.geometry.Valid) (n : ℕ) : Sampled (init p n) := by
  refine ⟨hp, hp, shape_trim p ⟨[], p.geometry, 0⟩, ?_⟩
  intro t g call ht
  simp only [init, List.getElem?_replicate] at ht
  split at ht <;> cases ht

/-- In every run with positive parameters in which no write-only open changes the
sizes of the device while a thread is between its load and its critical section,
every critical section works with the sizes of the device and stays inside the array
and the quantum it accesses. -/
theorem sampling {p : Params} (hp : p.geometry.Valid) {n : ℕ} {as : List SampleAct}
    (hpos : Along step Positive (init p n) as) (hquiet : Along step QuietTrim (init p n) as) :
    Along step InGeometry (init p n) as := by
  refine along_of_invariant Sampled ?_ ?_ (sampled_init hp n) (along_and hpos hquiet)
  · intro s a hi _
    exact section_in_bounds hi a
  · intro s a s' hi ha hs
    exact sampled_step hi ha.1 ha.2 hs

/-! ## Three parties -/

/-- Quanta of four bytes, two to an item. -/
def fourByTwo : Params := ⟨4, 2, 0⟩

/-- Everything is served. -/
def served : Env := ⟨1, true, some fun _ => 0, none⟩

def root : IoctlUser := ⟨true, true, none, false⟩

/-- One thread writes four bytes. -/
def oneWrite : List SampleAct :=
  [.sample 0 (.write [1, 2, 3, 4] 0), .locked 0 ⟨4, 2⟩ (.write [1, 2, 3, 4] 0) served]

/-- A thread loads the sizes; the quantum is set to one byte, an open trims the
device, another thread writes a byte to it. -/
def overtaken : List SampleAct :=
  [.sample 0 (.write [1, 2, 3, 4] 0), .ioctl (.tell .quantum) 1 root, .openFile true,
    .sample 1 (.write [5] 0), .locked 1 ⟨1, 2⟩ (.write [5] 0) served]

theorem sampling_alone : Along step InGeometry (init fourByTwo 2) oneWrite := by
  refine sampling (by constructor <;> decide) ?_ ?_
  · exact ⟨trivial, fun _ _ => ⟨trivial, fun _ _ => trivial⟩⟩
  · exact ⟨trivial, fun _ _ => ⟨trivial, fun _ _ => trivial⟩⟩

/-- The critical section of the first thread now writes four bytes to a quantum of
one. -/
theorem sampling_overtaken : ∃ s, run step (init fourByTwo 2) overtaken = some s ∧
    s.threads[0]? = some (.sampled ⟨4, 2⟩ (.write [1, 2, 3, 4] 0)) ∧
    perform ⟨4, 2⟩ (.write [1, 2, 3, 4] 0) served s.dev = .error .quantum ∧
    ¬ InGeometry s (.locked 0 ⟨4, 2⟩ (.write [1, 2, 3, 4] 0) served) := by
  refine ⟨_, rfl, rfl, rfl, ?_⟩
  intro h
  exact (h rfl).2.2 rfl

end Sampling

end Scull
