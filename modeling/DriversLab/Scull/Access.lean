import DriversLab.Scull.Main
import DriversLab.Lib.Lts
import DriversLab.Lib.Table
import Mathlib.Logic.Function.Basic

/-!
# Scull.Access — who may open a scull device, and when it is trimmed

`access.c` with the opens of `main.c`: the bare devices, the single-open one, the two
per-user ones and the private ones that are cloned for each terminal. The parties are
any number of processes, in system calls that go through the program points below.

What a spinlock protects is one step, but for `scull_c_lock`, under which a new device
is trimmed; so is one atomic operation. A trim takes time, and so does the section of
`scull_read` or `scull_write` that holds the device mutex: they have a first and a last
step.
-/

namespace Scull

open Lts

def EBUSY : ℤ := 16

/-- A `struct scull_dev`, by what it is for. -/
inductive Device where
  | bare (i : ℕ)
  | single
  | user
  | wuser
  | priv (key : ℕ)
deriving DecidableEq, Repr

/-- What the open methods ask about the calling process. -/
structure Cred where
  uid : ℕ
  euid : ℕ
  dacOverride : Bool
deriving DecidableEq, Repr

/-- An open file, with the process that it was opened for. -/
structure AccFile where
  device : Device
  opener : Cred
deriving DecidableEq, Repr

/-! ## The admission rules -/

/-- `atomic_dec_and_test(&scull_s_available)`: the counter after it and what it says.
There are fewer processes than an `int` can count. -/
def scullSTake (available : ℤ) : ℤ × Bool := (available - 1, available - 1 = 0)

/-- `scull_u_count` and `scull_u_owner`, or those of the blocking device. -/
structure Owner where
  count : ℤ
  owner : ℕ
deriving DecidableEq, Repr

/-- The end of the two locked sections. -/
def Owner.grab (o : Owner) (cred : Cred) : Owner :=
  ⟨o.count + 1, if o.count = 0 then cred.uid else o.owner⟩

/-- The test of `scull_u_open`. -/
def scullURefuses (o : Owner) (cred : Cred) : Bool :=
  o.count ≠ 0 && o.owner ≠ cred.uid && o.owner ≠ cred.euid && !cred.dacOverride

/-- `scull_w_available`. -/
def scullWAvailable (o : Owner) (cred : Cred) : Bool :=
  o.count = 0 || o.owner = cred.uid || o.owner = cred.euid || cred.dacOverride

/-! ## The processes -/

/-- Where a process is. -/
inductive Point where
  /-- Outside a call; the last one returned `ret`. -/
  | returned (ret : ℤ)
  /-- In `scull_open`, in front of the mutex. -/
  | locking (i : ℕ) (cred : Cred)
  /-- In `scull_s_open`, between the two atomic operations. -/
  | failing
  /-- In `scull_w_open`, asleep. -/
  | sleeping (cred : Cred) (wronly : Bool)
  /-- In `scull_w_open`, in front of the lock. -/
  | woken (cred : Cred) (wronly : Bool)
  /-- In `scull_c_lookfor_device`, trimming the new device. -/
  | creating (key : ℕ) (cred : Cred) (wronly : Bool)
  /-- In an open, past the admission. -/
  | granted (file : AccFile) (wronly : Bool)
  /-- In an open, in `scull_trim`. -/
  | trimming (file : AccFile)
  /-- In `scull_read` or `scull_write`, in front of the mutex. -/
  | calling (f : ℕ) (file : AccFile)
  /-- In `scull_read` or `scull_write`, holding the mutex. -/
  | inside (f : ℕ) (file : AccFile)
deriving DecidableEq, Repr

namespace Point

def idle : Point → Bool
  | returned _ => true
  | _ => false

/-- Whether a signal ends the call. -/
def interruptible : Point → Bool
  | locking _ _ | sleeping _ _ | calling _ _ => true
  | _ => false

/-- The file that a read or a write is on. -/
def call : Point → Option (ℕ × AccFile)
  | calling f file | inside f file => some (f, file)
  | _ => none

/-- The device that is being trimmed. -/
def trims : Point → Option Device
  | creating key _ _ => some (.priv key)
  | trimming file => some file.device
  | _ => none

/-- The device in whose critical section a read or a write is. -/
def within : Point → Option Device
  | inside _ file => some file.device
  | _ => none

end Point

/-- The processes and the files that they have opened (`none` once released), the owner
of each device mutex, and the variables of `access.c`. -/
structure AccSys where
  procs : List Point
  files : List (Option AccFile)
  mutex : Device → Option ℕ
  sAvailable : ℤ
  u : Owner
  w : Owner
  cList : List ℕ
  cLock : Option ℕ

inductive AccAct where
  | scullOpen (p i : ℕ) (cred : Cred) (wronly : Bool)
  | scullSOpen (p : ℕ) (cred : Cred) (wronly : Bool)
  | scullSFail (p : ℕ)
  | scullUOpen (p : ℕ) (cred : Cred) (wronly : Bool)
  | scullWOpen (p : ℕ) (cred : Cred) (wronly nonblock : Bool)
  | scullWWake (p : ℕ) (cred : Cred) (wronly : Bool)
  | scullWRetry (p : ℕ) (cred : Cred) (wronly : Bool)
  | scullCOpen (p : ℕ) (tty : Option ℕ) (cred : Cred) (wronly served : Bool)
  | scullCCreated (p key : ℕ) (cred : Cred) (wronly : Bool)
  | lockTrim (p i : ℕ) (cred : Cred)
  | startTrim (p : ℕ) (file : AccFile)
  | endTrim (p : ℕ) (file : AccFile)
  | opened (p : ℕ) (file : AccFile)
  | enter (p f : ℕ) (file : AccFile)
  | lock (p f : ℕ) (file : AccFile)
  | unlock (p f : ℕ) (file : AccFile) (ret : ℤ)
  | interrupted (p : ℕ)
  | release (f : ℕ) (file : AccFile)
deriving DecidableEq, Repr

namespace Access

/-- Whether the open of a device trims it under the mutex: only `scull_open` does. -/
def locksTrim : Device → Bool
  | .bare _ => true
  | _ => false

def guard (s : AccSys) : AccAct → Prop
  | .scullOpen p _ _ _ | .scullSOpen p _ _ | .scullUOpen p _ _ | .scullWOpen p _ _ _ =>
      s.procs[p]?.map Point.idle = some true
  | .scullSFail p => s.procs[p]? = some .failing
  | .scullWWake p cred wronly =>
      s.procs[p]? = some (.sleeping cred wronly) ∧ scullWAvailable s.w cred = true
  | .scullWRetry p cred wronly => s.procs[p]? = some (.woken cred wronly)
  | .scullCOpen p tty _ _ _ =>
      -- scull_c_lock is taken only when there is a terminal
      s.procs[p]?.map Point.idle = some true ∧ (tty = none ∨ s.cLock = none)
  | .scullCCreated p key cred wronly => s.procs[p]? = some (.creating key cred wronly)
  | .lockTrim p i cred => s.procs[p]? = some (.locking i cred) ∧ s.mutex (.bare i) = none
  | .startTrim p file =>
      s.procs[p]? = some (.granted file true) ∧ locksTrim file.device = false
  | .endTrim p file => s.procs[p]? = some (.trimming file)
  | .opened p file => s.procs[p]? = some (.granted file false)
  | .enter p f file =>
      s.procs[p]?.map Point.idle = some true ∧ s.files[f]? = some (some file)
  | .lock p f file => s.procs[p]? = some (.calling f file) ∧ s.mutex file.device = none
  | .unlock p f file _ => s.procs[p]? = some (.inside f file)
  | .interrupted p => s.procs[p]?.map Point.interruptible = some true
  -- the VFS releases a file once no call is on it
  | .release f file => s.files[f]? = some (some file) ∧ ∀ x ∈ s.procs, x.call.map Prod.fst ≠ some f

instance (s : AccSys) : ∀ a : AccAct, Decidable (guard s a)
  | .scullOpen _ _ _ _ => inferInstanceAs (Decidable (_ = _))
  | .scullSOpen _ _ _ => inferInstanceAs (Decidable (_ = _))
  | .scullSFail _ => inferInstanceAs (Decidable (_ = _))
  | .scullUOpen _ _ _ => inferInstanceAs (Decidable (_ = _))
  | .scullWOpen _ _ _ _ => inferInstanceAs (Decidable (_ = _))
  | .scullWWake _ _ _ => inferInstanceAs (Decidable (_ ∧ _))
  | .scullWRetry _ _ _ => inferInstanceAs (Decidable (_ = _))
  | .scullCOpen _ _ _ _ _ => inferInstanceAs (Decidable (_ ∧ _))
  | .scullCCreated _ _ _ _ => inferInstanceAs (Decidable (_ = _))
  | .lockTrim _ _ _ => inferInstanceAs (Decidable (_ ∧ _))
  | .startTrim _ _ => inferInstanceAs (Decidable (_ ∧ _))
  | .endTrim _ _ => inferInstanceAs (Decidable (_ = _))
  | .opened _ _ => inferInstanceAs (Decidable (_ = _))
  | .enter _ _ _ => inferInstanceAs (Decidable (_ ∧ _))
  | .lock _ _ _ => inferInstanceAs (Decidable (_ ∧ _))
  | .unlock _ _ _ _ => inferInstanceAs (Decidable (_ = _))
  | .interrupted _ => inferInstanceAs (Decidable (_ = _))
  | .release _ _ => inferInstanceAs (Decidable (_ ∧ _))

/-- One round of the loop in `scull_w_open`: granted, or at the point `blocked`. -/
def scullWRound (s : AccSys) (p : ℕ) (cred : Cred) (wronly : Bool) (blocked : Point) : AccSys :=
  if scullWAvailable s.w cred then
    { s with w := s.w.grab cred, procs := s.procs.set p (.granted ⟨.wuser, cred⟩ wronly) }
  else { s with procs := s.procs.set p blocked }

def update (s : AccSys) : AccAct → AccSys
  | .scullOpen p i cred wronly =>
      { s with
        procs :=
          s.procs.set p (if wronly then .locking i cred else .granted ⟨.bare i, cred⟩ false) }
  | .scullSOpen p cred wronly =>
      let r := scullSTake s.sAvailable
      { s with
        sAvailable := r.1
        procs := s.procs.set p (if r.2 then .granted ⟨.single, cred⟩ wronly else .failing) }
  | .scullSFail p =>
      { s with sAvailable := s.sAvailable + 1, procs := s.procs.set p (.returned (-EBUSY)) }
  | .scullUOpen p cred wronly =>
      if scullURefuses s.u cred then { s with procs := s.procs.set p (.returned (-EBUSY)) }
      else { s with u := s.u.grab cred, procs := s.procs.set p (.granted ⟨.user, cred⟩ wronly) }
  | .scullWOpen p cred wronly nonblock =>
      scullWRound s p cred wronly (if nonblock then .returned (-EAGAIN) else .sleeping cred wronly)
  | .scullWWake p cred wronly => { s with procs := s.procs.set p (.woken cred wronly) }
  | .scullWRetry p cred wronly => scullWRound s p cred wronly (.sleeping cred wronly)
  | .scullCOpen p tty cred wronly served =>
      match tty with
      | none => { s with procs := s.procs.set p (.returned (-EINVAL)) }
      | some key =>
          -- a clone that exists is opened in the one locked section that found it
          if key ∈ s.cList then
            { s with procs := s.procs.set p (.granted ⟨.priv key, cred⟩ wronly) }
          else if served then
            { s with cLock := some p, procs := s.procs.set p (.creating key cred wronly) }
          else { s with procs := s.procs.set p (.returned (-ENOMEM)) }
  | .scullCCreated p key cred wronly =>
      { s with
        cList := key :: s.cList
        cLock := none
        procs := s.procs.set p (.granted ⟨.priv key, cred⟩ wronly) }
  | .lockTrim p i cred =>
      { s with
        mutex := Function.update s.mutex (.bare i) (some p)
        procs := s.procs.set p (.trimming ⟨.bare i, cred⟩) }
  | .startTrim p file => { s with procs := s.procs.set p (.trimming file) }
  | .endTrim p file =>
      -- the open returns, and scull_open gives the mutex back before
      { s with
        mutex :=
          if locksTrim file.device then Function.update s.mutex file.device none else s.mutex
        files := s.files ++ [some file]
        procs := s.procs.set p (.returned 0) }
  | .opened p file =>
      { s with files := s.files ++ [some file], procs := s.procs.set p (.returned 0) }
  | .enter p f file => { s with procs := s.procs.set p (.calling f file) }
  | .lock p f file =>
      { s with
        mutex := Function.update s.mutex file.device (some p)
        procs := s.procs.set p (.inside f file) }
  | .unlock p _ file ret =>
      { s with
        mutex := Function.update s.mutex file.device none
        procs := s.procs.set p (.returned ret) }
  | .interrupted p => { s with procs := s.procs.set p (.returned (-ERESTARTSYS)) }
  | .release f file =>
      { s with
        files := s.files.set f none
        sAvailable := if file.device = .single then s.sAvailable + 1 else s.sAvailable
        u := if file.device = .user then { s.u with count := s.u.count - 1 } else s.u
        w := if file.device = .wuser then { s.w with count := s.w.count - 1 } else s.w }

def step : AccSys → AccAct → Option AccSys := guarded guard update

/-- The module once it is loaded, and `n` processes. -/
def init (n : ℕ) : AccSys where
  procs := List.replicate n (.returned 0)
  files := []
  mutex := fun _ => none
  sAvailable := 1
  u := ⟨0, 0⟩
  w := ⟨0, 0⟩
  cList := []
  cLock := none

theorem idle_cases {procs : List Point} {p : ℕ} (h : procs[p]?.map Point.idle = some true) :
    ∃ ret, procs[p]? = some (.returned ret) := by
  rcases Option.map_eq_some_iff.mp h with ⟨x, hx, hidle⟩
  cases x with
  | returned ret => exact ⟨ret, hx⟩
  | _ => cases hidle

theorem interruptible_cases {procs : List Point} {p : ℕ}
    (h : procs[p]?.map Point.interruptible = some true) :
    ∃ x, procs[p]? = some x ∧ x.interruptible = true :=
  Option.map_eq_some_iff.mp h

theorem init_procs {n p : ℕ} {x : Point} (h : (init n).procs[p]? = some x) : x = .returned 0 := by
  simp only [init, List.getElem?_replicate] at h
  split at h <;> cases h
  rfl

end Access

end Scull
