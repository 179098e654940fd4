import DriversLab.Lib.CInt

/-!
# DdkExt.State — the extension state of the USB driver

`struct ddk_ext_state` of `ddk_ext.h` and the sections of `ddk_usb_ext.c` that
run under `ext->lock`, one function each. The two kernel objects embedded in
the structure keep what the driver can observe of them: whether the timer is
pending (and the delay it was last armed with) and whether the work item is
queued.

The lock itself is left out: a section is one step of the systems built on
this file. `printk` and `pr_info` have no effect here.
-/

namespace DdkExt

/-- `msecs_to_jiffies`, of which the driver only relies on this: a positive
number of milliseconds is rounded up to at least one jiffy. -/
structure Jiffies where
  msecsToJiffies : ℤ → ℤ
  pos : ∀ m, 0 < m → 0 < msecsToJiffies m

/-- A kernel with one jiffy per millisecond. -/
def Jiffies.hz1000 : Jiffies := ⟨id, fun _ h => h⟩

def DDK_TIMER_DEF_MS : ℤ := 1000
def DDK_BLINK_DEF_CNT : ℤ := 3
def DDK_BLINK_DEF_MS : ℤ := 200

/-- `struct ddk_ext_state`. The counters are `unsigned long` (`lastWriteLen` is
`unsigned int`), `timerIntervalMs` is `unsigned long`, the two blink settings
are `int`. -/
structure DdkExtState where
  totalUsbSuccess : ℕ
  totalUsbFail : ℕ
  totalBlinks : ℕ
  lastWriteLen : ℕ
  timerEnabled : Bool
  timerIntervalMs : ℤ
  /-- `activity_timer`: pending with this delay, or not pending. -/
  activityTimer : Option ℤ
  blinkCount : ℤ
  blinkDelayMs : ℤ
  /-- `blink_work`: the kernel's own pending bit of the work item. -/
  blinkWork : Bool
  workPending : Bool
  procEntry : Bool
deriving DecidableEq, Repr

/-- `ddk_ext_init`; `created` says whether `proc_create_data` succeeded. -/
def ddkExtInit (created : Bool) : DdkExtState where
  totalUsbSuccess := 0
  totalUsbFail := 0
  totalBlinks := 0
  lastWriteLen := 0
  timerEnabled := false
  timerIntervalMs := DDK_TIMER_DEF_MS
  activityTimer := none
  blinkCount := DDK_BLINK_DEF_CNT
  blinkDelayMs := DDK_BLINK_DEF_MS
  blinkWork := false
  workPending := false
  procEntry := created

namespace DdkExtState

/-! ## Kernel calls on the embedded objects -/

/-- `schedule_work(&ext->blink_work)`: no effect on an item already queued. -/
def scheduleWork (s : DdkExtState) : DdkExtState := { s with blinkWork := true }

/-- `mod_timer(&ext->activity_timer, jiffies + delay)`. -/
def modTimer (delay : ℤ) (s : DdkExtState) : DdkExtState := { s with activityTimer := some delay }

/-- `timer_delete(&ext->activity_timer)`: a running callback is not waited for. -/
def timerDelete (s : DdkExtState) : DdkExtState := { s with activityTimer := none }

/-! ## Sections under `ext->lock` -/

/-- The section that `activity_timer_cb` and `ddk_ext_on_write_success` share:
queue the work item unless `work_pending` says that it is queued already. -/
def queueBlink (s : DdkExtState) : DdkExtState :=
  if s.workPending then s else scheduleWork { s with workPending := true }

/-- First section of `ddk_ext_on_write_success`: the statistics. -/
def countSuccess (len : ℕ) (s : DdkExtState) : DdkExtState :=
  { s with
    totalUsbSuccess := (s.totalUsbSuccess + 1) % 2 ^ 64
    lastWriteLen := len % 2 ^ 32 }

/-- `ddk_ext_on_write_fail`. -/
def ddkExtOnWriteFail (s : DdkExtState) : DdkExtState :=
  { s with totalUsbFail := (s.totalUsbFail + 1) % 2 ^ 64 }

/-- The delay that both `mod_timer` calls use:
`msecs_to_jiffies(ext->timer_interval_ms)`, whose argument is an
`unsigned int`. -/
def interval (j : Jiffies) (s : DdkExtState) : ℤ :=
  j.msecsToJiffies (CInt.toUInt s.timerIntervalMs)

/-- First section of `blink_worker`: clear `work_pending` (the snapshot of
`blink_count` and `blink_delay_ms` is kept by the worker). -/
def clearPending (s : DdkExtState) : DdkExtState := { s with workPending := false }

/-- Last section of `blink_worker`: `total_blinks += count`, where the `int` is
converted to `unsigned long`. -/
def addBlinks (count : ℤ) (s : DdkExtState) : DdkExtState :=
  { s with totalBlinks := (CInt.toULong (s.totalBlinks + count)).toNat }

/-- What `queueBlink` does, without the case split: only the two pending marks
change. -/
theorem queueBlink_eq (s : DdkExtState) :
    s.queueBlink = { s with
      workPending := true
      blinkWork := s.blinkWork || !s.workPending } := by
  unfold queueBlink scheduleWork
  cases hw : s.workPending with
  | false => simp
  | true =>
      cases s
      simp_all

/-- The interval in jiffies is positive when what `msecs_to_jiffies` gets is. -/
theorem interval_pos (j : Jiffies) {s : DdkExtState} (h : 0 < CInt.toUInt s.timerIntervalMs) :
    0 < s.interval j :=
  j.pos _ h

end DdkExtState

end DdkExt
