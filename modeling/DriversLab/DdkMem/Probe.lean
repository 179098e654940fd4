import DriversLab.DdkMem.FileOps

/-!
# DdkMem.Probe — binding and unbinding the board

`ddk_probe` and `ddk_disconnect`. The record is zeroed by `kzalloc`, so its
mutex is free and its `open_cnt` is zero before `mutex_init` and `atomic_set`
say so, and nobody else sees it before `usb_set_intfdata`.
-/

namespace DdkMem

open Interact

variable {β : Type}

/-- The fields of a `struct usb_endpoint_descriptor` that `ddk_probe` reads. -/
structure Endpoint where
  bEndpointAddress : UInt8
  wMaxPacketSize : ℕ
deriving DecidableEq, Repr

/-- The fields of the interface descriptor that `ddk_probe` reads. -/
structure Interface where
  bInterfaceNumber : UInt8
  endpoint : List Endpoint
deriving DecidableEq, Repr

def MEM_EP_IN : UInt8 := 0x81
def MEM_EP_OUT : UInt8 := 0x01

/-- One iteration of the endpoint loop. -/
def Config.scan (cfg : Config) (ep : Endpoint) : Config :=
  let cfg := if ep.bEndpointAddress = MEM_EP_IN then
    { cfg with inBufSize := ep.wMaxPacketSize } else cfg
  if ep.bEndpointAddress = MEM_EP_OUT then { cfg with outBufSize := ep.wMaxPacketSize } else cfg

/-- The sizes that the endpoint loop leaves in the record. -/
def Interface.config (interface : Interface) : Config := interface.endpoint.foldl Config.scan ⟨0, 0⟩

/-- `ddk_probe`, with `ACQUIRE_SINGLE_INTERFACE`. -/
def ddkProbe (interface : Interface) : Driver β ℤ := do
  if interface.bInterfaceNumber = 0 then
    if !(← perform .kzallocDevice) then
      return ENOMEM.val
    else
      let _ ← perform .mutexLock
      match ← perform .usbRegisterDev with
      | .error e =>
          let _ ← perform .mutexUnlock
          let _ ← perform .kfreeDevice
          return e.val
      | .ok _ =>
          let _ ← perform (.usbSetIntfdata true)
          let _ ← perform .ddkExtInit
          let _ ← perform .mutexUnlock
          return 0
  else
    return EINVAL.val

/-- `ddk_disconnect`, of which nothing is returned. -/
def ddkDisconnect : Driver β ℤ := do
  let _ ← perform .usbGetIntfdata
  let _ ← perform (.usbSetIntfdata false)
  let _ ← perform .usbDeregisterDev
  let _ ← perform .mutexLock
  let _ ← perform .mutexUnlock
  let _ ← perform .ddkExtCleanup
  let _ ← perform .kfreeDevice
  return 0

end DdkMem
