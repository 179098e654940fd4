import DriversLab.DdkExt.State
import DriversLab.DdkMem.Board
import DriversLab.DdkMem.Probe
import DriversLab.Lib.Pool

/-!
# DdkMem.Kernel — the driver as an interleaving of its calls

The kernel objects that `ddk_mem.c` works on, and the system made of them:

* `Kernel`: the record of the board, its mutex, its counters, its extension
  state, the interface data, and the board;
* `Call`: the file operations, any number of which run at once on any number
  of files;
* `Hub`: the one thread of the USB core that calls `ddk_probe` and later
  `ddk_disconnect`;
* `fileCalls`: the service in which they interleave operation by operation.

A call on a file starts with the fields of its `struct ddk_device_file` left
open: calls on one file share them without a lock. Freed memory keeps its
contents here, so that a use of it is a step that can be pointed at.
-/

namespace DdkMem

open Interact

variable {β : Type}

/-- The record of the board, as memory. -/
inductive Life where
  | unborn
  | live
  | freed
deriving DecidableEq, Repr

/-- `ddk_dev->ext`. -/
inductive ExtLife where
  | uninit
  | ready
  | cleaned
deriving DecidableEq, Repr

structure Kernel where
  life : Life
  extLife : ExtLife
  /-- `dev->m` is held. -/
  locked : Bool
  openCnt : ℤ
  /-- The `struct ddk_device_file` buffers allocated and not yet freed. -/
  bufs : ℤ
  /-- The minor is registered. -/
  minor : Bool
  /-- The interface data points to the record. -/
  intfdata : Bool
  ext : DdkExt.DdkExtState
  board : Board

namespace Kernel

/-- An operation that only the board, or the user's memory, answers. -/
def onBoard (view : ℕ → UInt8 → β) (k : Kernel) (o : Op β) (c : Choice β) :
    Option (Ans β o × Kernel) :=
  (k.board.serve view o c).map fun a => (a.1, { k with board := a.2 })

/-- How the kernel answers. A lock that is taken blocks, and nobody unlocks a
mutex that is free. Of the success hook only the first section shows here. -/
def serve (view : ℕ → UInt8 → β) : Handler (Ans β) Kernel (Choice β)
  | k, .setMemOffset dir v, c => k.onBoard view (.setMemOffset dir v) c
  | k, .getMemOffset dir, c => k.onBoard view (.getMemOffset dir) c
  | k, .getMemSize, c => k.onBoard view .getMemSize c
  | k, .stackShort, c => k.onBoard view .stackShort c
  | k, .interruptIn len, c => k.onBoard view (.interruptIn len) c
  | k, .interruptOut data, c => k.onBoard view (.interruptOut data) c
  | k, .copyFromUser len, c => k.onBoard view (.copyFromUser len) c
  | k, .copyToUser data, c => k.onBoard view (.copyToUser data) c
  | k, .copyIntToUser val, c => k.onBoard view (.copyIntToUser val) c
  | k, .ddkExtOnWriteSuccess len, _ => some ((), { k with ext := k.ext.countSuccess len })
  | k, .ddkExtOnWriteFail, _ => some ((), { k with ext := k.ext.ddkExtOnWriteFail })
  | k, .usbFindInterface, _ => some (k.minor, k)
  | k, .usbGetIntfdata, _ => some (k.intfdata, k)
  | k, .mutexLock, _ => if k.locked then none else some ((), { k with locked := true })
  | k, .mutexUnlock, _ => if k.locked then some ((), { k with locked := false }) else none
  | k, .kmallocFile inBufSize, c =>
      match c.heap with
      | none => some (none, k)
      | some l =>
          if h : l.length = inBufSize then some (some ⟨l, h⟩, { k with bufs := k.bufs + 1 })
          else none
  | k, .kfreeFile, _ => some ((), { k with bufs := k.bufs - 1 })
  | k, .atomicInc, _ => some ((), { k with openCnt := k.openCnt + 1 })
  | k, .atomicDec, _ => some ((), { k with openCnt := k.openCnt - 1 })
  | k, .kzallocDevice, c =>
      if c.fail.isSome then some (false, k)
      else some (true, { k with life := .live, extLife := .uninit, locked := false, openCnt := 0 })
  | k, .kfreeDevice, _ => some ((), { k with life := .freed })
  | k, .usbRegisterDev, c =>
      match c.fail with
      | some e => some (.error e, k)
      | none => some (.ok (), { k with minor := true })
  | k, .usbDeregisterDev, _ => some ((), { k with minor := false })
  | k, .usbSetIntfdata present, _ => some ((), { k with intfdata := present })
  | k, .ddkExtInit, c =>
      some ((), { k with extLife := .ready, ext := DdkExt.ddkExtInit c.fail.isNone })
  | k, .ddkExtCleanup, _ => some ((), { k with extLife := .cleaned })
  | _, .runsOn, _ => none

end Kernel

/-! ## Calls -/

/-- A file operation with its arguments. -/
inductive Call (β : Type) where
  | ddkOpen
  | ddkClose
  | ddkWrite (bound : ℕ) (buf : List UInt8) (off : ℤ)
  | ddkRead (file : File β) (cnt : ℕ) (off : ℤ)
  | ddkLlseek (offset : ℤ) (whence : Whence)
  | ddkIoctl (cmd : IoctlCmd) (arg : ℤ)

/-- The program of a call, of which the VFS sees the return value. -/
def progOf (cfg : Config) : Call β → Driver β ℤ
  | .ddkOpen => do
      match ← ddkOpen cfg with
      | .error e => return e.val
      | .ok _ => return 0
  | .ddkClose => ddkClose
  | .ddkWrite bound buf off => do return (← ddkWrite cfg bound buf off).ret
  | .ddkRead file cnt off => do return (← ddkRead cfg file cnt off).ret
  | .ddkLlseek offset whence => do return (← ddkLlseek offset whence).1
  | .ddkIoctl cmd arg => ddkIoctl cmd arg

/-! ## The hub thread -/

/-- Where the thread of the USB core stands; a call in progress keeps the list
of what it has done. -/
inductive Hub (β : Type) where
  | unbound
  | probing (prog : Driver β ℤ) (hist : List (Event (Ans β)))
  | bound
  | disconnecting (prog : Driver β ℤ) (hist : List (Event (Ans β)))
  | gone

inductive HubAct (β : Type) where
  | probe
  | disconnect
  | advance (c : Choice β)
  | finish

/-- The kernel, the number of files open, and the hub thread. A file is open
from the return of its `ddk_open` to the call of its `ddk_close`. -/
structure World (β : Type) where
  kernel : Kernel
  files : ℕ
  hub : Hub β

variable (view : ℕ → UInt8 → β) (interface : Interface)

/-- A step of the hub thread. `ddk_probe` is called once, and `ddk_disconnect`
once after a probe that returned 0. -/
def hubStep (w : World β) : HubAct β → Option (World β)
  | .probe =>
      match w.hub with
      | .unbound => some { w with hub := .probing (ddkProbe interface) [] }
      | _ => none
  | .disconnect =>
      match w.hub with
      | .bound => some { w with hub := .disconnecting ddkDisconnect [] }
      | _ => none
  | .advance c =>
      match w.hub with
      | .probing (.call o k) hist =>
          (w.kernel.serve view o c).map fun a =>
            { w with kernel := a.2, hub := .probing (k a.1) (hist ++ [⟨o, a.1⟩]) }
      | .disconnecting (.call o k) hist =>
          (w.kernel.serve view o c).map fun a =>
            { w with kernel := a.2, hub := .disconnecting (k a.1) (hist ++ [⟨o, a.1⟩]) }
      | _ => none
  | .finish =>
      match w.hub with
      | .probing (.ret a) _ => some { w with hub := if a = 0 then .bound else .gone }
      | .disconnecting (.ret _) _ => some { w with hub := .gone }
      | _ => none

/-! ## The system -/

/-- The VFS lets `ddk_open` be called at any time and the other operations
while a file is open; `ddk_close` takes its file away. -/
def accept (w : World β) : Call β → Option (World β)
  | .ddkOpen => some w
  | .ddkClose => if 0 < w.files then some { w with files := w.files - 1 } else none
  | _ => if 0 < w.files then some w else none

/-- A `ddk_open` that returns 0 makes a file. -/
def retire (w : World β) : Call β → ℤ → World β
  | .ddkOpen, ret => if ret = 0 then { w with files := w.files + 1 } else w
  | _, _ => w

/-- The driver in its kernel. -/
def fileCalls : Service (Ans β) ℤ (World β) (Choice β) (HubAct β) (Call β) where
  serve w o c := (w.kernel.serve view o c).map fun a => (a.1, { w with kernel := a.2 })
  prog := progOf interface.config
  accept := accept
  retire := retire
  env := hubStep view interface

/-- No call in progress and none returned. -/
def Fresh (w : World β) : Busy (Ans β) ℤ (World β) (Call β) := ⟨w, [], []⟩

/-! ## A board that is up -/

/-- A board with 8-byte packets in both directions. -/
def memBoard : Interface := ⟨0, [⟨MEM_EP_IN, 8⟩, ⟨MEM_EP_OUT, 8⟩]⟩

/-- The kernel after a successful probe, with nothing open. -/
def upKernel : Kernel where
  life := .live
  extLife := .ready
  locked := false
  openCnt := 0
  bufs := 0
  minor := true
  intfdata := true
  ext := DdkExt.ddkExtInit true
  board := ⟨0, 0, 2048, fun _ => 0⟩

def up : World UInt8 := ⟨upKernel, 0, .bound⟩

/-- The choice under which `kmalloc` succeeds. -/
def heap8 : Choice UInt8 := { (Choice.ok 0 : Choice UInt8) with heap := some (List.replicate 8 0) }

/-- The moves of a run on that board. -/
abbrev Moves := List (Move (Choice UInt8) (HubAct UInt8) (Call UInt8))

/-- A call that runs alone, its operations answered under these choices. -/
def alone (t : Call UInt8) (cs : List (Choice UInt8)) : Moves :=
  .start t :: cs.map (Move.advance 0) ++ [.finish 0]

/-- A `ddk_open` that succeeds. -/
def openFile : Moves := alone .ddkOpen [.ok 0, .ok 0, .ok 0, heap8, .ok 0, .ok 0, .ok 0, .ok 0]

/-- The driver on that board, from the state after the probe. -/
def runUp (ms : Moves) : Option (Busy (Ans UInt8) ℤ (World UInt8) (Call UInt8)) :=
  Lts.run (fileCalls (fun _ b => b) memBoard).step (Fresh up) ms

/-! ## What a transfer leaves alone -/

def Call.isWrite : Call β → Bool
  | .ddkWrite _ _ _ => true
  | _ => false

/-- A call on an open file that does not close it. -/
def Call.IsTransfer : Call β → Prop
  | .ddkOpen | .ddkClose => False
  | _ => True

theorem transfer_of_message (o : Op β) (h : o.IsMessage) : o.IsTransfer := by
  cases o <;> trivial

theorem only_message (cfg : Config) {t : Call β} (ht : t.IsTransfer) (hw : t.isWrite = false) :
    (progOf cfg t).Only Op.IsMessage := by
  cases t with
  | ddkOpen => exact ht.elim
  | ddkClose => exact ht.elim
  | ddkWrite bound buf off => cases hw
  | ddkRead file cnt off =>
      exact Prog.only_bind (Prog.only_mono (fun _ => Op.IsQuery.message)
        (only_ddkRead cfg file cnt off)) fun _ => trivial
  | ddkLlseek offset whence =>
      exact Prog.only_bind (Prog.only_mono (fun _ => Op.IsQuery.message)
        (only_ddkLlseek offset whence)) fun _ => trivial
  | ddkIoctl cmd arg => exact Prog.only_mono (fun _ => Op.IsQuery.message) (only_ddkIoctl cmd arg)

theorem only_transfer (cfg : Config) {t : Call β} (ht : t.IsTransfer) :
    (progOf cfg t).Only Op.IsTransfer := by
  cases t with
  | ddkOpen => exact ht.elim
  | ddkClose => exact ht.elim
  | ddkWrite bound buf off =>
      exact Prog.only_bind (only_ddkWrite cfg bound buf off) fun _ => trivial
  | ddkRead file cnt off => exact Prog.only_mono transfer_of_message (only_message cfg ht rfl)
  | ddkLlseek offset whence => exact Prog.only_mono transfer_of_message (only_message cfg ht rfl)
  | ddkIoctl cmd arg => exact Prog.only_mono transfer_of_message (only_message cfg ht rfl)

/-- What `ddk_open` and `ddk_close` do. -/
def Op.IsOpenOp : Op β → Prop
  | .usbFindInterface | .usbGetIntfdata | .mutexLock | .mutexUnlock => True
  | .kmallocFile _ | .kfreeFile | .atomicInc | .atomicDec | .setMemOffset _ _ => True
  | _ => False

theorem only_ddkOpen (cfg : Config) : (ddkOpen cfg : Driver β _).Only Op.IsOpenOp := by
  refine ⟨trivial, ?_⟩
  intro found
  cases found with
  | false => trivial
  | true =>
      refine ⟨trivial, ?_⟩
      intro present
      cases present with
      | false => trivial
      | true =>
          refine ⟨trivial, fun _ => ?_⟩
          show Prog.Only Op.IsOpenOp (ite _ _ _)
          split
          · exact ⟨trivial, fun _ => trivial⟩
          · refine ⟨trivial, ?_⟩
            intro inBuf
            cases inBuf with
            | none => trivial
            | some inBuf =>
                refine ⟨trivial, fun _ => ⟨trivial, fun r => ?_⟩⟩
                cases r with
                | error e => trivial
                | ok _ =>
                    refine ⟨trivial, ?_⟩
                    intro r
                    cases r with
                    | error e => trivial
                    | ok _ => exact ⟨trivial, fun _ => trivial⟩

theorem only_openOp (cfg : Config) {t : Call β} (ht : ¬ t.IsTransfer) :
    (progOf cfg t).Only Op.IsOpenOp := by
  cases t with
  | ddkOpen =>
      refine Prog.only_bind (only_ddkOpen cfg) ?_
      intro r
      cases r <;> trivial
  | ddkClose => exact ⟨trivial, fun _ => ⟨trivial, fun _ => trivial⟩⟩
  | _ => exact absurd trivial ht

/-- Everything but what the hub thread alone does. -/
def Op.IsFileOp : Op β → Prop
  | .kzallocDevice | .kfreeDevice | .usbRegisterDev | .usbDeregisterDev => False
  | .usbSetIntfdata _ | .ddkExtInit | .ddkExtCleanup => False
  | _ => True

/-- No file operation does what only the hub thread does. -/
theorem only_fileOp (cfg : Config) (t : Call β) : (progOf cfg t).Only Op.IsFileOp := by
  by_cases ht : t.IsTransfer
  · refine Prog.only_mono ?_ (only_transfer cfg ht)
    intro o ho
    cases o <;> trivial
  · refine Prog.only_mono ?_ (only_openOp cfg ht)
    intro o ho
    cases o <;> trivial

variable {view}

theorem accept_kernel {w w' : World β} {t : Call β} (h : accept w t = some w') :
    w'.kernel = w.kernel := by
  cases t with
  | ddkOpen => cases h; rfl
  | _ =>
      simp only [accept] at h
      split at h <;> cases h
      rfl

theorem retire_kernel (w : World β) (t : Call β) (ret : ℤ) :
    (retire w t ret).kernel = w.kernel := by
  cases t with
  | ddkOpen =>
      simp only [retire]
      split <;> rfl
  | _ => rfl

theorem onBoard_frame {k k' : Kernel} {o : Op β} {c : Choice β} {r : Ans β o}
    (h : k.onBoard view o c = some (r, k')) : k' = { k with board := k'.board } := by
  rcases Option.map_eq_some_iff.mp h with ⟨b, _, he⟩
  cases he
  rfl

/-- A transfer operation changes the extension state and the board at most. -/
theorem serve_transfer {k k' : Kernel} {o : Op β} {c : Choice β} {r : Ans β o}
    (ho : o.IsTransfer) (h : k.serve view o c = some (r, k')) :
    k' = { k with ext := k'.ext, board := k'.board } := by
  have hboard : k.onBoard view o c = some (r, k') →
      k' = { k with ext := k'.ext, board := k'.board } := by
    intro hb
    have hframe := onBoard_frame hb
    rw [hframe]
  cases o <;> first
    | exact ho.elim
    | exact hboard h
    | (cases h; rfl)

/-- A file operation leaves the record and the interface data as they are, and
only the two mutex calls change the mutex. -/
theorem serve_fileOp {k k' : Kernel} {o : Op β} {c : Choice β} {r : Ans β o} (ho : o.IsFileOp)
    (h : k.serve view o c = some (r, k')) :
    k'.life = k.life ∧ k'.extLife = k.extLife ∧ k'.intfdata = k.intfdata ∧
      (o ≠ .mutexLock → o ≠ .mutexUnlock → k'.locked = k.locked) := by
  by_cases ht : o.IsTransfer
  · rw [serve_transfer ht h]
    exact ⟨rfl, rfl, rfl, fun _ _ => rfl⟩
  · cases o with
    | mutexLock =>
        simp only [Kernel.serve] at h
        split at h <;> cases h
        exact ⟨rfl, rfl, rfl, fun hl => absurd rfl hl⟩
    | mutexUnlock =>
        simp only [Kernel.serve] at h
        split at h <;> cases h
        exact ⟨rfl, rfl, rfl, fun _ hu => absurd rfl hu⟩
    | kmallocFile n =>
        simp only [Kernel.serve] at h
        split at h
        · cases h
          exact ⟨rfl, rfl, rfl, fun _ _ => rfl⟩
        · split at h <;> cases h
          exact ⟨rfl, rfl, rfl, fun _ _ => rfl⟩
    | _ => first
        | exact absurd trivial ht
        | exact ho.elim
        | (cases h; exact ⟨rfl, rfl, rfl, fun _ _ => rfl⟩)

end DdkMem
