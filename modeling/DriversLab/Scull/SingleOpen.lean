import DriversLab.Scull.Access

/-!
# Scull.SingleOpen — the device that one process may open

`scull_s_available` starts at one. An open takes one from it; if that does not leave
zero it gives it back, in a second step.

* `Booked`: the counter is one less the opens that are outstanding and the failing
  ones between their two steps, and no more than one is outstanding;
* `single_open`: so it is in every reachable state, and an open that meets no other
  succeeds.
-/

namespace Scull

open Lts

namespace Access

/-- The part of the outstanding opens that a process makes up: its open has been
granted and has not returned. -/
def opens : Point → ℤ
  | .granted file _ | .trimming file => if file.device = .single then 1 else 0
  | _ => 0

/-- The part that a file makes up. -/
def holds : Option AccFile → ℤ
  | some file => if file.device = .single then 1 else 0
  | none => 0

/-- The part of the failing opens that a process makes up. -/
def fails : Point → ℤ
  | .failing => 1
  | _ => 0

/-- The number of successful opens of the single-open device that have not been
released. -/
def outstanding (s : AccSys) : ℤ := (s.procs.map opens).sum + (s.files.map holds).sum

/-- The number of failing opens between their two steps. -/
def failing (s : AccSys) : ℤ := (s.procs.map fails).sum

/-- The books of `scull_s_available`. -/
structure Booked (s : AccSys) : Prop where
  available : s.sAvailable = 1 - outstanding s - failing s
  one : outstanding s ≤ 1

theorem opens_nonneg (x : Point) : 0 ≤ opens x := by
  unfold opens
  split
  · split <;> decide
  · split <;> decide
  · exact le_refl _

theorem holds_nonneg (x : Option AccFile) : 0 ≤ holds x := by
  unfold holds
  split
  · split <;> decide
  · exact le_refl _

theorem fails_nonneg (x : Point) : 0 ≤ fails x := by
  unfold fails
  split <;> decide

section Books

variable {s s' : AccSys} {p : ℕ} {x y : Point}

/-- A process goes on: what it contributes afterwards counts in place of what it
contributed before. -/
theorem booked_set (hb : Booked s) (hx : s.procs[p]? = some x) (hs : s'.procs = s.procs.set p y)
    {d e : ℤ} (hfiles : (s'.files.map holds).sum = (s.files.map holds).sum + e)
    (hopens : opens y = opens x + d) (hfails : fails y = fails x) (hsum : d + e = 0)
    (havail : s'.sAvailable = s.sAvailable) : Booked s' := by
  rcases hb with ⟨hbooks, hone⟩
  have hnew : outstanding s' = outstanding s := by
    unfold outstanding
    rw [hs, Table.sum_map_set opens hx hopens, hfiles]
    omega
  have hfail : failing s' = failing s := by
    unfold failing
    rw [hs, Table.sum_map_set fails hx (hfails.trans (add_zero _).symm), add_zero]
  constructor
  · rw [havail, hnew, hfail]
    exact hbooks
  · rw [hnew]
    exact hone

/-- A step that has nothing to do with the single-open device. -/
theorem booked_move (hb : Booked s) (hx : s.procs[p]? = some x) (hs : s'.procs = s.procs.set p y)
    (hfiles : s'.files = s.files) (hopens : opens y = opens x) (hfails : fails y = fails x)
    (havail : s'.sAvailable = s.sAvailable) : Booked s' :=
  booked_set hb hx hs (d := 0) (e := 0) (by rw [hfiles, add_zero]) (by rw [hopens, add_zero]) hfails
    rfl havail

/-- An open returns: the file takes over what the process made up. -/
theorem booked_opened (hb : Booked s) {file : AccFile} (hx : s.procs[p]? = some x)
    (hopens : opens x = holds (some file)) (hfails : fails x = 0)
    (hs : s'.procs = s.procs.set p (.returned 0)) (hfiles : s'.files = s.files ++ [some file])
    (havail : s'.sAvailable = s.sAvailable) : Booked s' := by
  refine booked_set hb hx hs (d := -holds (some file)) (e := holds (some file)) ?_ ?_ hfails.symm
    (by omega) havail
  · rw [hfiles]
    simp
  · rw [hopens, add_neg_cancel]
    rfl

theorem booked_round (hb : Booked s) (hx : s.procs[p]? = some x) (hopens : opens x = 0)
    (hfails : fails x = 0) {cred : Cred} {wronly : Bool} (hblocked : opens y = 0 ∧ fails y = 0) :
    Booked (scullWRound s p cred wronly y) := by
  unfold scullWRound
  split
  · exact booked_move hb hx rfl rfl hopens.symm hfails.symm rfl
  · exact booked_move hb hx rfl rfl (hblocked.1.trans hopens.symm)
      (hblocked.2.trans hfails.symm) rfl

/-- The atomic operation of `scull_s_open`. -/
theorem booked_take (hb : Booked s) {ret : ℤ} (hx : s.procs[p]? = some (.returned ret))
    (cred : Cred) (wronly : Bool) : Booked (update s (.scullSOpen p cred wronly)) := by
  rcases hb with ⟨hbooks, hone⟩
  have hfilesPos := Table.sum_map_nonneg s.files holds_nonneg
  have hprocsPos := Table.sum_map_nonneg s.procs opens_nonneg
  have hfailsPos := Table.sum_map_nonneg s.procs fails_nonneg
  unfold outstanding failing at hbooks
  unfold outstanding at hone
  by_cases hzero : s.sAvailable - 1 = 0
  · -- nobody is in, and nobody is failing
    have hopens := Table.sum_map_set opens hx (y := .granted ⟨.single, cred⟩ wronly) (d := 1) rfl
    have hfails := Table.sum_map_set fails hx (y := .granted ⟨.single, cred⟩ wronly) (d := 0) rfl
    constructor
    · simp only [update, scullSTake, hzero, decide_true, if_true, outstanding, failing, hopens,
        hfails]
      omega
    · simp only [update, scullSTake, hzero, decide_true, if_true, outstanding, hopens]
      omega
  · -- the counter is one too low until the second step
    have hopens := Table.sum_map_set opens hx (y := .failing) (d := 0) rfl
    have hfails := Table.sum_map_set fails hx (y := .failing) (d := 1) rfl
    constructor
    · simp only [update, scullSTake, hzero, decide_false, Bool.false_eq_true, if_false, outstanding,
        failing, hopens, hfails]
      omega
    · simp only [update, scullSTake, hzero, decide_false, Bool.false_eq_true, if_false, outstanding,
        hopens]
      omega

/-- The second step of an open that fails. -/
theorem booked_giveBack (hb : Booked s) (hx : s.procs[p]? = some .failing) :
    Booked (update s (.scullSFail p)) := by
  rcases hb with ⟨hbooks, hone⟩
  have hopens := Table.sum_map_set opens hx (y := .returned (-EBUSY)) (d := 0) rfl
  have hfails := Table.sum_map_set fails hx (y := .returned (-EBUSY)) (d := -1) rfl
  unfold outstanding failing at hbooks
  unfold outstanding at hone
  constructor
  · simp only [update, outstanding, failing, hopens, hfails]
    omega
  · simp only [update, outstanding, hopens]
    omega

theorem booked_release (hb : Booked s) {f : ℕ} {file : AccFile}
    (hf : s.files[f]? = some (some file)) : Booked (update s (.release f file)) := by
  rcases hb with ⟨hbooks, hone⟩
  have hholds := Table.sum_map_set holds hf (y := none) (d := -holds (some file))
    (add_neg_cancel _).symm
  have hpos := holds_nonneg (some file)
  have hfile : holds (some file) = if file.device = .single then 1 else 0 := rfl
  unfold outstanding failing at hbooks
  unfold outstanding at hone
  constructor
  · simp only [update, outstanding, failing, hholds, hfile]
    split <;> omega
  · simp only [update, outstanding, hholds]
    omega

theorem booked_step {a : AccAct} (hb : Booked s) (hs : step s a = some s') : Booked s' := by
  rcases guarded_eq_some.mp hs with ⟨hg, rfl⟩
  cases a with
  | scullOpen p i cred wronly =>
      rcases idle_cases hg with ⟨ret, hx⟩
      cases wronly <;> exact booked_move hb hx rfl rfl rfl rfl rfl
  | scullSOpen p cred wronly =>
      rcases idle_cases hg with ⟨ret, hx⟩
      exact booked_take hb hx cred wronly
  | scullSFail p => exact booked_giveBack hb hg
  | scullUOpen p cred wronly =>
      rcases idle_cases hg with ⟨ret, hx⟩
      unfold update
      simp only
      split <;> exact booked_move hb hx rfl rfl rfl rfl rfl
  | scullWOpen p cred wronly nonblock =>
      rcases idle_cases hg with ⟨ret, hx⟩
      refine booked_round hb hx rfl rfl ?_
      cases nonblock <;> exact ⟨rfl, rfl⟩
  | scullWWake p cred wronly => exact booked_move hb hg.1 rfl rfl rfl rfl rfl
  | scullWRetry p cred wronly => exact booked_round hb hg rfl rfl ⟨rfl, rfl⟩
  | scullCOpen p tty cred wronly served =>
      rcases idle_cases hg.1 with ⟨ret, hx⟩
      unfold update
      simp only
      split
      · exact booked_move hb hx rfl rfl rfl rfl rfl
      · split
        · exact booked_move hb hx rfl rfl rfl rfl rfl
        · split <;> exact booked_move hb hx rfl rfl rfl rfl rfl
  | scullCCreated p key cred wronly => exact booked_move hb hg rfl rfl rfl rfl rfl
  | lockTrim p i cred => exact booked_move hb hg.1 rfl rfl rfl rfl rfl
  | startTrim p file => exact booked_move hb hg.1 rfl rfl rfl rfl rfl
  | endTrim p file => exact booked_opened hb hg rfl rfl rfl rfl rfl
  | opened p file => exact booked_opened hb hg rfl rfl rfl rfl rfl
  | enter p f file =>
      rcases idle_cases hg.1 with ⟨ret, hx⟩
      exact booked_move hb hx rfl rfl rfl rfl rfl
  | lock p f file => exact booked_move hb hg.1 rfl rfl rfl rfl rfl
  | unlock p f file ret => exact booked_move hb hg rfl rfl rfl rfl rfl
  | interrupted p =>
      rcases interruptible_cases hg with ⟨x, hx, hint⟩
      cases x with
      | locking i cred => exact booked_move hb hx rfl rfl rfl rfl rfl
      | sleeping cred wronly => exact booked_move hb hx rfl rfl rfl rfl rfl
      | calling f file => exact booked_move hb hx rfl rfl rfl rfl rfl
      | _ => cases hint
  | release f file => exact booked_release hb hg.1

theorem booked_init (n : ℕ) : Booked (init n) := by
  have hzero : ∀ f : Point → ℤ, f (.returned 0) = 0 → ((init n).procs.map f).sum = 0 := by
    intro f hf
    simp [init, hf]
  have hopens := hzero opens rfl
  have hfails := hzero fails rfl
  constructor
  · simp only [outstanding, failing, hopens, hfails]
    rfl
  · simp only [outstanding, hopens]
    exact zero_le_one

end Books

/-- The states right after the module has been loaded, with any number of processes. -/
def Loaded (s : AccSys) : Prop := ∃ n, s = init n

theorem booked_reachable {s : AccSys} (h : Reachable step Loaded s) : Booked s := by
  refine reachable_invariant ?_ (fun _ _ _ hb hs => booked_step hb hs) h
  rintro _ ⟨n, rfl⟩
  exact booked_init n

/-! ## The law -/

/-- The steps of a `scull_s_open` that is granted. -/
def openSingle (p : ℕ) (cred : Cred) : Bool → List AccAct
  | true => [.scullSOpen p cred true, .startTrim p ⟨.single, cred⟩, .endTrim p ⟨.single, cred⟩]
  | false => [.scullSOpen p cred false, .opened p ⟨.single, cred⟩]

/-- With the counter at one an open returns zero and leaves a file. -/
theorem openSingle_succeeds {s : AccSys} (hone : s.sAvailable = 1) {p : ℕ}
    (hidle : s.procs[p]?.map Point.idle = some true) (cred : Cred) (wronly : Bool) :
    ∃ s', run step s (openSingle p cred wronly) = some s' ∧
      s'.procs[p]? = some (.returned 0) ∧ s'.files = s.files ++ [some ⟨.single, cred⟩] := by
  rcases idle_cases hidle with ⟨ret, hx⟩
  have hlt : p < s.procs.length := (List.getElem?_eq_some_iff.mp hx).1
  have htake : update s (.scullSOpen p cred wronly) =
      { s with sAvailable := 0, procs := s.procs.set p (.granted ⟨.single, cred⟩ wronly) } := by
    simp [update, scullSTake, hone]
  have hfirst :=
    guarded_eq_some.mpr ⟨show guard s (.scullSOpen p cred wronly) from hidle, htake.symm⟩
  cases wronly with
  | true =>
      refine ⟨_, run_cons.mpr ⟨_, hfirst, run_cons.mpr ⟨_, guarded_eq_some.mpr ⟨?_, rfl⟩,
        run_singleton.mpr (guarded_eq_some.mpr ⟨?_, rfl⟩)⟩⟩, ?_, ?_⟩
      · simp [guard, locksTrim, hlt]
      · simp [guard, update, hlt]
      · simp [update, hlt]
      · rfl
  | false =>
      refine ⟨_, run_cons.mpr ⟨_, hfirst,
        run_singleton.mpr (guarded_eq_some.mpr ⟨?_, rfl⟩)⟩, ?_, ?_⟩
      · simp [guard, hlt]
      · simp [update, hlt]
      · rfl

/-- In every reachable state, however the steps of all the processes have been
interleaved: at most one successful open is outstanding, `scull_s_available` is one less
the outstanding opens and the failing ones, and if there is neither the next open
succeeds. -/
theorem single_open {s : AccSys} (h : Reachable step Loaded s) :
    outstanding s ≤ 1 ∧ s.sAvailable = 1 - outstanding s - failing s ∧
      (outstanding s = 0 → failing s = 0 → ∀ p cred wronly,
        s.procs[p]?.map Point.idle = some true →
        ∃ s', run step s (openSingle p cred wronly) = some s' ∧
          s'.procs[p]? = some (.returned 0) ∧ s'.files = s.files ++ [some ⟨.single, cred⟩]) := by
  rcases booked_reachable h with ⟨hbooks, hone⟩
  refine ⟨hone, hbooks, ?_⟩
  intro hout hfail p cred wronly hidle
  exact openSingle_succeeds (by omega) hidle cred wronly

def alice : Cred := ⟨1, 1, false⟩

/-- One process opens the device; two others fail, and are between their steps when it
is released. -/
def racing : List AccAct :=
  openSingle 0 alice true ++ [.scullSOpen 1 alice false, .scullSOpen 2 alice false,
    .release 0 ⟨.single, alice⟩]

theorem single_open_racing : ∃ s, run step (init 3) racing = some s ∧ s.sAvailable = -1 ∧
    outstanding s ≤ 1 ∧ s.sAvailable = 1 - outstanding s - failing s := by
  refine ⟨_, rfl, rfl, ?_⟩
  have hlaw := single_open ⟨init 3, racing, ⟨3, rfl⟩, rfl⟩
  exact ⟨hlaw.1, hlaw.2.1⟩

end Access

end Scull
