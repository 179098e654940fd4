import DriversLab.Lib.CInt
import DriversLab.Lib.Lts

/-!
# Sbull.MediaChange — the timer that takes the medium out

A device that nobody has open for a while is to look as if its medium had been changed: the
last release starts a timer, whose function sets `media_change`, and the next open clears the
data. `sbull_open` deletes the timer before it takes the lock under which it counts itself, so
the release of another user can start the timer again in between.

* `Protocol`: the count is that of the open files, and the timer, the flag and the data are
  left alone while there is one;
* `Undisturbed`: an open that gets the lock finds the timer not pending, and room in the count;
* `protocol_iff`: along every run, the first holds exactly as long as the second does;
* `protocol_pending`: a release between the two halves of an open.
-/

namespace Sbull

open CInt Lts

/-- The part of `struct sbull_dev` that is about media changes, and where its users are.
Time is not modelled: a pending timer can expire in every step. -/
structure Media where
  users : ℤ
  mediaChange : Bool
  /-- `NULL`, or `size` bytes. -/
  data : Option (List UInt8)
  /-- `timer_pending`. -/
  pending : Bool
  /-- Calls of the timer function that wait for the lock. -/
  invalidating : ℕ
  /-- Users inside `del_timer_sync`, which have deleted the timer. -/
  deleting : ℕ
  /-- Users behind `del_timer_sync`, which wait for the lock. -/
  opening : ℕ
  /-- Opens that have returned and have not been released. -/
  outstanding : ℕ
deriving DecidableEq, Repr

/-- The three that have the name of a function are what it does under `dev->lock`; `expire`
is the kernel, which takes the timer off its list and calls `sbull_invalidate`. -/
inductive Act where
  | delTimer
  | delTimerSync
  | sbullOpen
  | sbullRelease
  | expire
  | sbullInvalidate
deriving DecidableEq, Repr

namespace Media

/-- The device as `setup_device` leaves it. -/
def loaded (data : List UInt8) : Media := ⟨0, false, some data, false, 0, 0, 0, 0⟩

def sbullMediaChanged (s : Media) : Bool := s.mediaChange

def sbullRevalidate (s : Media) : Media :=
  if s.mediaChange then
    { s with mediaChange := false, data := s.data.map fun d => List.replicate d.length 0 }
  else s

/-- The block layer asks the driver, and has it revalidate a medium that has changed. -/
def checkDiskChange (s : Media) : Media :=
  if sbullMediaChanged s then sbullRevalidate s else s

def sbullOpen (s : Media) : Media :=
  let s := if s.users = 0 then checkDiskChange s else s
  { s with users := toShort (s.users + 1) }

/-- `add_timer` leaves the timer pending, also one that was pending before. -/
def sbullRelease (s : Media) : Media :=
  let users := toShort (s.users - 1)
  { s with users, pending := if users = 0 then true else s.pending }

/-- Without the message of the failed sanity check. -/
def sbullInvalidate (s : Media) : Media :=
  if s.users ≠ 0 ∨ s.data = none then s else { s with mediaChange := true }

def guard (s : Media) : Act → Prop
  | .delTimer => True
  -- it waits for the timer function, and has deleted the timer before
  | .delTimerSync => 0 < s.deleting ∧ s.invalidating = 0
  | .sbullOpen => 0 < s.opening
  | .sbullRelease => 0 < s.outstanding
  | .expire => s.pending = true
  | .sbullInvalidate => 0 < s.invalidating

instance (s : Media) : ∀ a : Act, Decidable (guard s a)
  | .delTimer => inferInstanceAs (Decidable True)
  | .delTimerSync => inferInstanceAs (Decidable (_ ∧ _))
  | .sbullOpen | .sbullRelease | .sbullInvalidate => inferInstanceAs (Decidable (_ < _))
  | .expire => inferInstanceAs (Decidable (_ = _))

def update (s : Media) : Act → Media
  | .delTimer => { s with pending := false, deleting := s.deleting + 1 }
  | .delTimerSync => { s with deleting := s.deleting - 1, opening := s.opening + 1 }
  | .sbullOpen =>
      { sbullOpen s with opening := s.opening - 1, outstanding := s.outstanding + 1 }
  | .sbullRelease => { sbullRelease s with outstanding := s.outstanding - 1 }
  | .expire => { s with pending := false, invalidating := s.invalidating + 1 }
  | .sbullInvalidate => { sbullInvalidate s with invalidating := s.invalidating - 1 }

def step : Media → Act → Option Media := guarded guard update

/-- What the driver counts on in the step from `s` to `s'`. -/
structure Protocol (s : Media) (a : Act) (s' : Media) : Prop where
  users : s'.users = s'.outstanding
  idle : s'.pending = true → s'.users = 0
  /-- `add_timer` is for a timer that is not pending. -/
  started : a = .sbullRelease → s'.users = 0 → s.pending = false
  unchanged : 0 < s'.users → s'.mediaChange = false
  kept : s'.data ≠ s.data → s.outstanding = 0
  /-- A call of `sbull_revalidate` by the block layer, now. -/
  revalidated : 0 < s'.outstanding → sbullRevalidate s' = s'

/-- An open that gets the lock finds the timer as it has left it, and room in `users`. -/
def Undisturbed (s : Media) : Act → Prop
  | .sbullOpen => s.pending = false ∧ s.outstanding + 1 < 2 ^ 15
  | _ => True

instance (s : Media) : ∀ a : Act, Decidable (Undisturbed s a)
  | .sbullOpen => inferInstanceAs (Decidable (_ ∧ _))
  | .delTimer | .delTimerSync | .sbullRelease | .expire | .sbullInvalidate =>
      inferInstanceAs (Decidable True)

/-- The invariant: what is asked of a state, in terms of the opens that are outstanding. -/
structure Attended (s : Media) : Prop where
  users : s.users = s.outstanding
  fits : s.outstanding < 2 ^ 15
  idle : s.pending = true → s.outstanding = 0
  unchanged : s.mediaChange = true → s.outstanding = 0

theorem attended_loaded (data : List UInt8) : Attended (loaded data) := by
  constructor
  · rfl
  · show 0 < 2 ^ 15
    omega
  · intro _
    rfl
  · intro _
    rfl

/-! ## The locked sections -/

@[simp] theorem sbullRevalidate_mediaChange (s : Media) :
    (sbullRevalidate s).mediaChange = false := by
  unfold sbullRevalidate
  split <;> simp_all

@[simp] theorem sbullRevalidate_users (s : Media) : (sbullRevalidate s).users = s.users := by
  unfold sbullRevalidate
  split <;> rfl

@[simp] theorem sbullRevalidate_pending (s : Media) :
    (sbullRevalidate s).pending = s.pending := by
  unfold sbullRevalidate
  split <;> rfl

theorem sbullRevalidate_of_unchanged {s : Media} (h : s.mediaChange = false) :
    sbullRevalidate s = s := by
  simp [sbullRevalidate, h]

/-- The driver itself tests the flag that it is asked for first. -/
@[simp] theorem checkDiskChange_eq (s : Media) : checkDiskChange s = sbullRevalidate s := by
  unfold checkDiskChange sbullMediaChanged
  split
  · rfl
  · rename_i hunset
    rw [sbullRevalidate_of_unchanged (by simpa using hunset)]

@[simp] theorem sbullOpen_users (s : Media) :
    (sbullOpen s).users = toShort (s.users + 1) := by
  unfold sbullOpen
  split <;> simp

@[simp] theorem sbullOpen_pending (s : Media) : (sbullOpen s).pending = s.pending := by
  unfold sbullOpen
  split <;> simp

theorem sbullOpen_data {s : Media} (h : s.users ≠ 0) : (sbullOpen s).data = s.data := by
  simp [sbullOpen, h]

/-- The first open takes the flag down, and later ones do not find it set. -/
theorem sbullOpen_mediaChange {s : Media} (ha : Attended s) :
    (sbullOpen s).mediaChange = false := by
  unfold sbullOpen
  split
  · simp
  · rename_i hne
    have hunset : s.mediaChange ≠ true := by
      intro hset
      exact hne (by rw [ha.users, ha.unchanged hset]; rfl)
    simpa using hunset

@[simp] theorem sbullInvalidate_users (s : Media) : (sbullInvalidate s).users = s.users := by
  unfold sbullInvalidate
  split <;> rfl

@[simp] theorem sbullInvalidate_pending (s : Media) :
    (sbullInvalidate s).pending = s.pending := by
  unfold sbullInvalidate
  split <;> rfl

@[simp] theorem sbullInvalidate_data (s : Media) : (sbullInvalidate s).data = s.data := by
  unfold sbullInvalidate
  split <;> rfl

@[simp] theorem sbullInvalidate_outstanding (s : Media) :
    (sbullInvalidate s).outstanding = s.outstanding := by
  unfold sbullInvalidate
  split <;> rfl

theorem sbullInvalidate_mediaChange {s : Media} (ha : Attended s)
    (h : (sbullInvalidate s).mediaChange = true) : s.outstanding = 0 := by
  unfold sbullInvalidate at h
  split at h
  · exact ha.unchanged h
  · rename_i hsane
    have hzero := ha.users
    omega

/-! ## One step -/

/-- A release finds the timer not pending: the file it closes is still counted. -/
theorem not_pending_of_release {s : Media} (ha : Attended s) (hg : guard s .sbullRelease) :
    s.pending = false := by
  have hopen : 0 < s.outstanding := hg
  cases hp : s.pending with
  | false => rfl
  | true =>
      have hnone := ha.idle hp
      omega

theorem sbullRelease_users {s : Media} (ha : Attended s) (hg : guard s .sbullRelease) :
    (sbullRelease s).users = (s.outstanding - 1 : ℕ) := by
  have hopen : 0 < s.outstanding := hg
  have hfits := ha.fits
  show toShort (s.users - 1) = _
  rw [ha.users, toShort_of_range (by omega) (by omega)]
  omega

theorem attended_open {s : Media} (ha : Attended s) (hq : Undisturbed s .sbullOpen) :
    Attended (update s .sbullOpen) := by
  obtain ⟨hp, hroom⟩ := hq
  constructor
  · -- there is room in the count
    show (sbullOpen s).users = (s.outstanding + 1 : ℕ)
    rw [sbullOpen_users, ha.users, toShort_of_range (by omega) (by omega)]
    omega
  · exact hroom
  · intro hpending
    have hkeep : (sbullOpen s).pending = true := hpending
    simp [hp] at hkeep
  · intro hset
    have hunset := sbullOpen_mediaChange ha
    have hset : (sbullOpen s).mediaChange = true := hset
    simp [hunset] at hset

theorem attended_release {s : Media} (ha : Attended s) (hg : guard s .sbullRelease) :
    Attended (update s .sbullRelease) := by
  have husers := sbullRelease_users ha hg
  constructor
  · exact husers
  · have hfits := ha.fits
    show s.outstanding - 1 < 2 ^ 15
    omega
  · intro hpending
    have hpending : (if (sbullRelease s).users = 0 then true else s.pending) = true := hpending
    rw [not_pending_of_release ha hg, husers] at hpending
    show s.outstanding - 1 = 0
    split at hpending
    · omega
    · contradiction
  · intro hset
    have hnone := ha.unchanged hset
    show s.outstanding - 1 = 0
    omega

theorem attended_invalidate {s : Media} (ha : Attended s) :
    Attended (update s .sbullInvalidate) := by
  constructor
  · simpa [update] using ha.users
  · simpa [update] using ha.fits
  · simpa [update] using ha.idle
  · intro hset
    simpa [update] using sbullInvalidate_mediaChange ha hset

theorem attended_update {s : Media} {a : Act} (ha : Attended s) (hg : guard s a)
    (hq : Undisturbed s a) : Attended (update s a) := by
  cases a with
  | sbullOpen => exact attended_open ha hq
  | sbullRelease => exact attended_release ha hg
  | sbullInvalidate => exact attended_invalidate ha
  | delTimer | expire => exact ⟨ha.users, ha.fits, by simp [update], ha.unchanged⟩
  | delTimerSync => exact ⟨ha.users, ha.fits, ha.idle, ha.unchanged⟩

/-- Only an open that finds nobody else replaces the data. -/
theorem update_data {s : Media} {a : Act} (ha : Attended s) (h : (update s a).data ≠ s.data) :
    s.outstanding = 0 := by
  cases a with
  | sbullOpen =>
      by_contra hopen
      have husers : s.users ≠ 0 := by
        rw [ha.users]
        omega
      exact h (sbullOpen_data husers)
  | sbullInvalidate => exact absurd (sbullInvalidate_data s) h
  | delTimer | delTimerSync | sbullRelease | expire => exact absurd rfl h

theorem protocol_update {s : Media} {a : Act} (ha : Attended s) (hg : guard s a)
    (hq : Undisturbed s a) : Protocol s a (update s a) := by
  have hafter := attended_update ha hg hq
  have hunset : 0 < (update s a).outstanding → (update s a).mediaChange = false := by
    intro hopen
    by_contra hset
    have hnone := hafter.unchanged (by simpa using hset)
    omega
  constructor
  · exact hafter.users
  · intro hpending
    rw [hafter.users, hafter.idle hpending]
    rfl
  · rintro rfl _
    exact not_pending_of_release ha hg
  · intro hopen
    rw [hafter.users] at hopen
    exact hunset (by omega)
  · exact update_data ha
  · intro hopen
    exact sbullRevalidate_of_unchanged (hunset hopen)

/-- An open that finds the timer pending leaves it pending, and one too many shows in the
count. -/
theorem undisturbed_of_protocol {s : Media} {a : Act} (ha : Attended s)
    (hp : Protocol s a (update s a)) : Undisturbed s a := by
  cases a with
  | sbullOpen =>
      have husers : (sbullOpen s).users = (s.outstanding + 1 : ℕ) := hp.users
      have hidle : (sbullOpen s).pending = true → (sbullOpen s).users = 0 := hp.idle
      have hfits := ha.fits
      constructor
      · -- it stays pending, under the new user
        by_contra hpending
        have hzero := hidle (by simpa using hpending)
        omega
      · -- one user more than a `short` holds is a negative number
        rw [sbullOpen_users, ha.users] at husers
        unfold toShort at husers
        omega
  | delTimer | delTimerSync | sbullRelease | expire | sbullInvalidate => trivial

/-- Along every run, by any number of users: every step keeps to the protocol, exactly if
each open finds the timer not pending and room in the count once it has the lock. -/
theorem protocol_iff {data : List UInt8} {s : Media} {as : List Act}
    (hr : run step (loaded data) as = some s) :
    Along step (fun s a => ∀ s', step s a = some s' → Protocol s a s') (loaded data) as ↔
      Along step Undisturbed (loaded data) as := by
  have hiff : ∀ s a, Attended s → (step s a).isSome →
      ((∀ s', step s a = some s' → Protocol s a s') ↔ Undisturbed s a) := by
    intro s a ha henabled
    obtain ⟨s', hs⟩ := Option.isSome_iff_exists.mp henabled
    obtain ⟨hg, rfl⟩ := guarded_eq_some.mp hs
    constructor
    · intro hp
      exact undisturbed_of_protocol ha (hp _ hs)
    · intro hq s' hs'
      obtain ⟨_, rfl⟩ := guarded_eq_some.mp hs'
      exact protocol_update ha hg hq
  refine along_iff hiff ?_ (attended_loaded data) (along_enabled hr)
  intro s a s' ha _ hq hs
  obtain ⟨hg, rfl⟩ := guarded_eq_some.mp hs
  exact attended_update ha hg hq

/-- The device is opened and released, the medium is taken out, and it is opened again. -/
def mediumChanged : List Act :=
  [.delTimer, .delTimerSync, .sbullOpen, .sbullRelease, .expire, .sbullInvalidate, .delTimer,
    .delTimerSync, .sbullOpen]

theorem protocol_medium_changed : Along step
    (fun s a => ∀ s', step s a = some s' → Protocol s a s') (loaded [7]) mediumChanged :=
  (protocol_iff (s := ⟨1, false, some [0], false, 0, 0, 0, 1⟩) (by decide)).mpr (by decide)

/-- A second user has deleted the timer when the first one releases the device, and opens it
then. -/
def lateOpen : List Act :=
  [.delTimer, .delTimerSync, .sbullOpen, .delTimer, .delTimerSync, .sbullRelease, .sbullOpen]

/-- The timer is pending under the open file, and its release adds it once more. -/
theorem protocol_pending : ∃ s s', run step (loaded [7]) lateOpen = some s ∧
    s.users = 1 ∧ s.outstanding = 1 ∧ s.pending = true ∧
    step s .sbullRelease = some s' ∧ s'.users = 0 ∧ ¬ Protocol s .sbullRelease s' := by
  refine ⟨⟨1, false, some [7], true, 0, 0, 0, 1⟩, ⟨0, false, some [7], true, 0, 0, 0, 0⟩, ?_⟩
  refine ⟨by decide, rfl, rfl, rfl, by decide, rfl, ?_⟩
  intro hp
  exact absurd (hp.started rfl rfl) (by decide)

end Media

end Sbull
