import DriversLab.Lib.CInt
import DriversLab.Lib.Lts

/-!
# DdkLed.Led — the LED driver

`ddk_led.c` and the part of the USB core around it. The parties are any number of
boards, each with any number of interfaces; opens and ioctls on any minor; and
`blink_worker`, which calls `ddk_led_ctrl` from another module.

An interface is bound from a probe that returns zero until its disconnect, and its
minor can be opened meanwhile. A file stays open when its board goes.
-/

namespace DdkLed

open CInt Lts

def EFAULT : ℤ := 14
def EINVAL : ℤ := 22

/-- `struct usb_interface`: the `usb_device` that it belongs to, and what `ddk_probe`
looks at. -/
structure Interface where
  board : ℕ
  bInterfaceNumber : ℕ
  bNumEndpoints : ℕ
deriving DecidableEq, Repr

/-- `ddk_dev`, of which only `device` is ever read; NULL at first. -/
structure DdkDevice where
  device : Option ℕ
deriving DecidableEq, Repr

/-! ## Messages -/

inductive Request where
  | setLedStatus (value : ℕ)
  | getLedStatus
deriving DecidableEq, Repr

/-- A control message and the device that it is addressed to. -/
structure Message where
  target : Option ℕ
  request : Request
deriving DecidableEq, Repr

/-- `ddk_led_ctrl`; the `int` is passed on as a `__u16`. -/
def ddkLedCtrl (dev : DdkDevice) (val : ℤ) : Message := ⟨dev.device, .setLedStatus (toU16 val)⟩

inductive LedCmd where
  | get
  | set (arg : ℤ)
  | other
deriving DecidableEq, Repr

/-- What `usb_control_msg` returns, what `buf` holds then, and whether `copy_to_user`
faults. -/
structure Answer where
  ret : ℤ
  byte : UInt8
  fault : Bool
deriving DecidableEq, Repr

/-- What `ddk_ioctl` returns, the message it sends, and the `char` it hands to the user
as an `int`. -/
structure IoctlResult where
  ret : ℤ
  message : Option Message
  put : Option UInt8
deriving DecidableEq, Repr

/-- `ddk_ioctl`, where `kmalloc` serves. -/
def ddkIoctl (dev : DdkDevice) (cmd : LedCmd) (ans : Answer) : IoctlResult :=
  match cmd with
  | .get =>
      let message : Message := ⟨dev.device, .getLedStatus⟩
      if ans.ret < 0 then ⟨ans.ret, some message, none⟩
      else if ans.fault then ⟨-EFAULT, some message, none⟩
      else ⟨0, some message, some ans.byte⟩
  | .set arg =>
      let message : Message := ⟨dev.device, .setLedStatus (toU16 (toInt arg))⟩
      if ans.ret < 0 then ⟨ans.ret, some message, none⟩
      else ⟨0, some message, none⟩
  | .other => ⟨-EINVAL, none, none⟩

/-! ## Probe -/

/-- `ddk_probe`, where `usb_register_dev` answers `reg`: a minor, or an error. -/
def ddkProbe (i : Interface) (reg : Except ℤ ℕ) (dev : DdkDevice) : ℤ × DdkDevice :=
  if i.bNumEndpoints = 0 then
    -- set before usb_register_dev, and not taken back when that fails
    let dev := { dev with device := some i.board }
    match reg with
    | .error retval => (retval, dev)
    | .ok _ => (0, dev)
  else (-EINVAL, dev)

/-! ## The system -/

/-- `ddk_dev`, the table of minors with the interfaces that they have been given to, and
for each open file the board whose minor was opened (`none` once closed). -/
structure LedSys where
  dev : DdkDevice
  minors : List (ℕ × Interface)
  files : List (Option ℕ)

inductive LedAct where
  | probe (i : Interface) (reg : Except ℤ ℕ)
  | disconnect (i : Interface)
  | openFile (minor : ℕ) (i : Interface)
  | close (f board : ℕ)
  | ioctl (f board : ℕ) (cmd : LedCmd) (ans : Answer)
  | ledCtrl (val : ℤ)

/-- The interface is bound to the driver. -/
def LedSys.binds (s : LedSys) (i : Interface) : Bool := s.minors.any fun x => x.2 = i

/-- `usb_register_dev` gives out a minor that is free, or an error. -/
def Offered (s : LedSys) : Except ℤ ℕ → Prop
  | .ok minor => ∀ x ∈ s.minors, x.1 ≠ minor
  | .error retval => retval < 0

instance (s : LedSys) : ∀ reg, Decidable (Offered s reg)
  | .ok _ => inferInstanceAs (Decidable (∀ x ∈ s.minors, _))
  | .error _ => inferInstanceAs (Decidable (_ < _))

def guard (s : LedSys) : LedAct → Prop
  | .probe i reg => s.binds i = false ∧ Offered s reg
  | .disconnect i => s.binds i = true
  | .openFile minor i => (minor, i) ∈ s.minors
  | .close f board | .ioctl f board _ _ => s.files[f]? = some (some board)
  | .ledCtrl _ => True

instance (s : LedSys) : ∀ a : LedAct, Decidable (guard s a)
  | .probe _ _ => inferInstanceAs (Decidable (_ ∧ _))
  | .disconnect _ => inferInstanceAs (Decidable (_ = _))
  | .openFile minor i => inferInstanceAs (Decidable ((minor, i) ∈ s.minors))
  | .close _ _ => inferInstanceAs (Decidable (_ = _))
  | .ioctl _ _ _ _ => inferInstanceAs (Decidable (_ = _))
  | .ledCtrl _ => inferInstanceAs (Decidable True)

/-- The table after a probe: an interface whose probe returned zero has got a minor. -/
def register (i : Interface) (reg : Except ℤ ℕ) (minors : List (ℕ × Interface)) :
    List (ℕ × Interface) :=
  match reg with
  | .ok minor => if i.bNumEndpoints = 0 then (minor, i) :: minors else minors
  | .error _ => minors

def update (s : LedSys) : LedAct → LedSys
  | .probe i reg => { s with dev := (ddkProbe i reg s.dev).2, minors := register i reg s.minors }
  -- ddk_disconnect leaves ddk_dev alone
  | .disconnect i => { s with minors := s.minors.filter fun x => x.2 ≠ i }
  | .openFile _ i => { s with files := s.files ++ [some i.board] }
  | .close f _ => { s with files := s.files.set f none }
  | .ioctl _ _ _ _ | .ledCtrl _ => s

def step : LedSys → LedAct → Option LedSys := guarded guard update

/-- The module once it is loaded. -/
def init : LedSys := ⟨⟨none⟩, [], []⟩

/-- The message that an action sends. -/
def message (s : LedSys) : LedAct → Option Message
  | .ioctl _ _ cmd ans => (ddkIoctl s.dev cmd ans).message
  | .ledCtrl val => some (ddkLedCtrl s.dev val)
  | _ => none

theorem message_target {s : LedSys} {a : LedAct} {msg : Message} (h : message s a = some msg) :
    msg.target = s.dev.device := by
  cases a with
  | ioctl f board cmd ans =>
      cases cmd with
      | get =>
          simp only [message, ddkIoctl] at h
          split at h
          · cases h
            rfl
          · split at h <;> cases h <;> rfl
      | set arg =>
          simp only [message, ddkIoctl] at h
          split at h <;> cases h <;> rfl
      | other => cases h
  | ledCtrl val =>
      cases h
      rfl
  | _ => cases h

end DdkLed
