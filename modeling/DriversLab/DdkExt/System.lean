import DriversLab.DdkExt.ProcWrite
import DriversLab.Lib.Lts

/-!
# DdkExt.System — the extension as an interleaving of its parties

The parties of `ddk_usb_ext.c` and the points at which they can be interrupted:

* any number of callers of `ddk_ext_on_write_success`: its first section, then
  `mod_timer` or its second section;
* `activity_timer_cb`: started by the timer, its first section, the section that
  reads the interval, `mod_timer`. Any number of callbacks may run at once,
  which covers the kernel, where they are serialised;
* the one `blink_worker`: dequeued, its snapshot section, the LED calls, its
  last section. The work item is never run twice at once;
* any number of users of `ddk_proc_write`: inside the call, then its section.

An action names the party and, where the party carries local variables, their
values; `guard` says when it is enabled and `update` what it does.
-/

namespace DdkExt

/-- A call of `ddk_ext_on_write_success`: after its first section it holds `te`
and `interval`. -/
inductive Caller where
  | idle
  | sampled (te : Bool) (interval : ℤ)
deriving DecidableEq, Repr

/-- A run of `activity_timer_cb`: `fired` has not taken the lock yet, `enabled`
has read `timer_enabled` as true, `rearm` has read the interval. -/
inductive Callback where
  | idle
  | fired
  | enabled
  | rearm (interval : ℤ)
deriving DecidableEq, Repr

/-- The loop of `blink_worker`: `lit` between its two LED calls. -/
structure Blinking where
  i : ℤ
  lit : Bool
  count : ℤ
  delayMs : ℤ
deriving DecidableEq, Repr

/-- The argument of the `msleep` behind each LED call (an `unsigned int`). -/
def Blinking.msleepArg (b : Blinking) : ℤ := CInt.toUInt b.delayMs

/-- The loop after one more `ddk_led_ctrl` call. -/
def Blinking.next (b : Blinking) : Blinking :=
  if b.lit then { b with lit := false, i := b.i + 1 } else { b with lit := true }

/-- `blink_worker`: `dequeued` has not taken its snapshot yet. -/
inductive Worker where
  | idle
  | dequeued
  | blinking (b : Blinking)
deriving DecidableEq, Repr

/-- A call of `ddk_proc_write`; `junk` is what its stack slot of `val` holds. -/
inductive ProcUser where
  | idle
  | entered (ubuf : Option (List UInt8)) (junk : ℤ)
deriving DecidableEq, Repr

structure Sys where
  ext : DdkExtState
  callers : List Caller
  callbacks : List Callback
  worker : Worker
  procs : List ProcUser
deriving DecidableEq, Repr

inductive Act where
  | onWriteSuccess (t : ℕ) (len : ℕ)
  | armTimer (t : ℕ) (interval : ℤ)
  | queueWork (t : ℕ) (interval : ℤ)
  | onWriteFail
  | fire (t : ℕ)
  | cbQueue (t : ℕ)
  | cbInterval (t : ℕ)
  | cbRearm (t : ℕ) (interval : ℤ)
  | dequeue
  | snapshot
  | led (b : Blinking) (ret : ℤ)
  | finishBlink (b : Blinking)
  | procEnter (t : ℕ) (ubuf : Option (List UInt8)) (junk : ℤ)
  | procWrite (t : ℕ) (ubuf : Option (List UInt8)) (junk : ℤ)
deriving DecidableEq, Repr

/-- When an action is enabled. -/
def guard (s : Sys) : Act → Prop
  | .onWriteSuccess t _ => s.callers[t]? = some .idle
  | .armTimer t d => s.callers[t]? = some (.sampled true d)
  | .queueWork t d => s.callers[t]? = some (.sampled false d)
  | .onWriteFail => True
  | .fire t => s.callbacks[t]? = some .idle ∧ s.ext.activityTimer ≠ none
  | .cbQueue t => s.callbacks[t]? = some .fired
  | .cbInterval t => s.callbacks[t]? = some .enabled
  | .cbRearm t d => s.callbacks[t]? = some (.rearm d)
  | .dequeue => s.ext.blinkWork = true ∧ s.worker = .idle
  | .snapshot => s.worker = .dequeued
  | .led b _ => s.worker = .blinking b ∧ b.i < b.count
  | .finishBlink b => s.worker = .blinking b ∧ b.lit = false ∧ b.count ≤ b.i
  | .procEnter t _ _ => s.procs[t]? = some .idle ∧ s.ext.procEntry = true
  | .procWrite t ubuf junk => s.procs[t]? = some (.entered ubuf junk)

instance (s : Sys) : ∀ a : Act, Decidable (guard s a)
  | .onWriteSuccess _ _ => inferInstanceAs (Decidable (_ = _))
  | .armTimer _ _ => inferInstanceAs (Decidable (_ = _))
  | .queueWork _ _ => inferInstanceAs (Decidable (_ = _))
  | .onWriteFail => inferInstanceAs (Decidable True)
  | .fire _ => inferInstanceAs (Decidable (_ ∧ _ ≠ _))
  | .cbQueue _ => inferInstanceAs (Decidable (_ = _))
  | .cbInterval _ => inferInstanceAs (Decidable (_ = _))
  | .cbRearm _ _ => inferInstanceAs (Decidable (_ = _))
  | .dequeue => inferInstanceAs (Decidable (_ ∧ _))
  | .snapshot => inferInstanceAs (Decidable (_ = _))
  | .led _ _ => inferInstanceAs (Decidable (_ ∧ _))
  | .finishBlink _ => inferInstanceAs (Decidable (_ ∧ _))
  | .procEnter _ _ _ => inferInstanceAs (Decidable (_ ∧ _))
  | .procWrite _ _ _ => inferInstanceAs (Decidable (_ = _))

variable (j : Jiffies)

/-- What an enabled action does. -/
def update (s : Sys) : Act → Sys
  | .onWriteSuccess t len =>
      { s with
        ext := s.ext.countSuccess len
        callers := s.callers.set t (.sampled s.ext.timerEnabled (s.ext.interval j)) }
  | .armTimer t d => { s with ext := s.ext.modTimer d, callers := s.callers.set t .idle }
  -- the interval has been read, but is not needed on this branch
  | .queueWork t _ => { s with ext := s.ext.queueBlink, callers := s.callers.set t .idle }
  | .onWriteFail => { s with ext := s.ext.ddkExtOnWriteFail }
  -- a timer that fires is no longer pending
  | .fire t => { s with ext := s.ext.timerDelete, callbacks := s.callbacks.set t .fired }
  | .cbQueue t =>
      { s with
        ext := s.ext.queueBlink
        callbacks := s.callbacks.set t (if s.ext.timerEnabled then .enabled else .idle) }
  | .cbInterval t => { s with callbacks := s.callbacks.set t (.rearm (s.ext.interval j)) }
  | .cbRearm t d => { s with ext := s.ext.modTimer d, callbacks := s.callbacks.set t .idle }
  | .dequeue => { s with ext := { s.ext with blinkWork := false }, worker := .dequeued }
  | .snapshot =>
      { s with
        ext := s.ext.clearPending
        worker := .blinking ⟨0, false, s.ext.blinkCount, s.ext.blinkDelayMs⟩ }
  -- what ddk_led_ctrl returns is ignored
  | .led b _ => { s with worker := .blinking b.next }
  | .finishBlink b => { s with ext := s.ext.addBlinks b.count, worker := .idle }
  | .procEnter t ubuf junk => { s with procs := s.procs.set t (.entered ubuf junk) }
  | .procWrite t ubuf junk =>
      { s with ext := (ddkProcWrite ubuf junk s.ext).2, procs := s.procs.set t .idle }

/-- One step of the system. -/
def step (s : Sys) (a : Act) : Option Sys := if guard s a then some (update j s a) else none

/-- After `ddk_ext_init`: `m` callers, `n` callback slots and `k` proc users,
nobody running. -/
def init (created : Bool) (m n k : ℕ) : Sys where
  ext := ddkExtInit created
  callers := List.replicate m .idle
  callbacks := List.replicate n .idle
  worker := .idle
  procs := List.replicate k .idle

/-- The initial states. -/
def Init (s : Sys) : Prop := ∃ created m n k, s = init created m n k

variable {j}

/-- What a step can do: an enabled action and its update. -/
theorem step_eq_some {s s' : Sys} {a : Act} :
    step j s a = some s' ↔ guard s a ∧ s' = update j s a := by
  unfold step
  split
  · rename_i hg
    simp [hg, eq_comm]
  · rename_i hg
    simp [hg]

/-! ## What an action does to each party -/

/-- Only a write changes the settings. -/
theorem update_settings {s : Sys} {a : Act} (ha : ∀ t ubuf junk, a ≠ .procWrite t ubuf junk) :
    (update j s a).ext.blinkCount = s.ext.blinkCount ∧
      (update j s a).ext.blinkDelayMs = s.ext.blinkDelayMs ∧
      (update j s a).ext.timerIntervalMs = s.ext.timerIntervalMs := by
  cases a with
  | procWrite t ubuf junk => exact absurd rfl (ha t ubuf junk)
  | queueWork t d => simp [update, DdkExtState.queueBlink_eq]
  | cbQueue t => simp [update, DdkExtState.queueBlink_eq]
  | _ => exact ⟨rfl, rfl, rfl⟩

/-- Only a write and the last section of the worker change `total_blinks`. -/
theorem update_totalBlinks {s : Sys} {a : Act} (ha : ∀ t ubuf junk, a ≠ .procWrite t ubuf junk)
    (hb : ∀ b, a ≠ .finishBlink b) : (update j s a).ext.totalBlinks = s.ext.totalBlinks := by
  cases a with
  | procWrite t ubuf junk => exact absurd rfl (ha t ubuf junk)
  | finishBlink b => exact absurd rfl (hb b)
  | queueWork t d => simp [update, DdkExtState.queueBlink_eq]
  | cbQueue t => simp [update, DdkExtState.queueBlink_eq]
  | _ => rfl

end DdkExt
