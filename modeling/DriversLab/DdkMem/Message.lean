import DriversLab.Lib.CInt
import DriversLab.Lib.Prog

/-!
# DdkMem.Message — what `ddk_mem.c` asks of its environment

Every call that leaves `ddk_mem.c` is an operation, and its type of answers is
what the kernel promises of the call: a control reply never has more bytes than
were asked for, `usb_interrupt_msg` never moves more bytes than the buffer has,
`kmalloc` hands out memory of the size asked for, with contents of its own.

The type `β` is that of the bytes in `in_buf`. The driver only moves them, so it
stays a parameter: `UInt8` for what the driver computes, bytes that remember
their address for a statement about where they come from.
-/

namespace DdkMem

open CInt Interact

/-- A negative `retval`. -/
structure Errno where
  val : ℤ
  neg : val < 0
deriving DecidableEq, Repr

def ENOMEM : Errno := ⟨-12, by decide⟩
def EFAULT : Errno := ⟨-14, by decide⟩
def ENODEV : Errno := ⟨-19, by decide⟩
def EINVAL : Errno := ⟨-22, by decide⟩

/-- What a message that the bus loses ends with. -/
def EPROTO : Errno := ⟨-71, by decide⟩

/-- `e_read` and `e_write`. -/
inductive Dir where
  | eRead
  | eWrite
deriving DecidableEq, Repr

inductive Op (β : Type) where
  /-- `CUSTOM_RQ_SET_MEM_RD_OFFSET` or `..._WR_OFFSET`, with this `wValue`. -/
  | setMemOffset (dir : Dir) (wValue : ℕ)
  | getMemOffset (dir : Dir)
  | getMemSize
  /-- What an uninitialised `short` on the stack holds. -/
  | stackShort
  /-- `usb_interrupt_msg` on the IN endpoint, for `len` bytes. -/
  | interruptIn (len : ℕ)
  | interruptOut (data : List UInt8)
  | copyFromUser (len : ℕ)
  | copyToUser (data : List β)
  /-- `copy_to_user` of an `int` (`ddk_ioctl`). -/
  | copyIntToUser (val : ℤ)
  | ddkExtOnWriteSuccess (len : ℕ)
  | ddkExtOnWriteFail
  | usbFindInterface
  | usbGetIntfdata
  | mutexLock
  | mutexUnlock
  /-- `kmalloc` of a `struct ddk_device_file` with `inBufSize` bytes of `in_buf`. -/
  | kmallocFile (inBufSize : ℕ)
  | kfreeFile
  | atomicInc
  | atomicDec
  /-- `kzalloc` of a `struct ddk_device`. -/
  | kzallocDevice
  | kfreeDevice
  | usbRegisterDev
  | usbDeregisterDev
  | usbSetIntfdata (present : Bool)
  | ddkExtInit
  | ddkExtCleanup
  /-- Not a call: the program runs on past the iterations that are modelled. -/
  | runsOn

/-- The answers. A Boolean of a copy is true when the copy faults. -/
@[reducible] def Ans (β : Type) : Op β → Type
  | .setMemOffset _ _ => Except Errno Unit
  | .getMemOffset _ | .getMemSize => Except Errno { reply : List UInt8 // reply.length ≤ 2 }
  | .stackShort => UInt8 × UInt8
  | .interruptIn len => Except Errno { packet : List β // packet.length ≤ len }
  | .interruptOut data => Except Errno { wrote : ℕ // wrote ≤ data.length }
  | .copyFromUser _ | .copyToUser _ | .copyIntToUser _ => Bool
  | .usbFindInterface | .usbGetIntfdata | .kzallocDevice => Bool
  | .kmallocFile inBufSize => Option { inBuf : List β // inBuf.length = inBufSize }
  | .usbRegisterDev => Except Errno Unit
  | .ddkExtOnWriteSuccess _ | .ddkExtOnWriteFail | .mutexLock | .mutexUnlock => Unit
  | .kfreeFile | .atomicInc | .atomicDec | .kfreeDevice | .usbDeregisterDev => Unit
  | .usbSetIntfdata _ | .ddkExtInit | .ddkExtCleanup => Unit
  | .runsOn => Empty

/-- A driver function that returns an `α`. -/
abbrev Driver (β α : Type) := Prog (Ans β) α

variable {β : Type}

/-- One operation, as a driver function. -/
def perform (o : Op β) : Driver β (Ans β o) := Prog.perform o

@[simp] theorem perform_eq (o : Op β) : perform o = Prog.call o Prog.ret := rfl

/-! ## The control messages -/

/-- A `short` of which the reply overwrites the first bytes. -/
def shortOf (reply : List UInt8) (stack : UInt8 × UInt8) : ℤ :=
  toShort ((reply[0]?.getD stack.1).toNat + 256 * (reply[1]?.getD stack.2).toNat)

/-- `get_size`: the size of the memory, or a negative error. -/
def getSize : Driver β ℤ := do
  let stack ← perform .stackShort
  match ← perform .getMemSize with
  | .error e => return e.val
  | .ok reply => return shortOf reply stack

/-- `get_off`. -/
def getOff (dir : Dir) : Driver β ℤ := do
  let stack ← perform .stackShort
  match ← perform (.getMemOffset dir) with
  | .error e => return e.val
  | .ok reply => return shortOf reply stack

/-- `set_off`: the `int` goes through the 16-bit `wValue`. -/
def setOff (dir : Dir) (offset : ℤ) : Driver β (Except Errno Unit) :=
  perform (.setMemOffset dir (toU16 (toInt offset)))

end DdkMem
