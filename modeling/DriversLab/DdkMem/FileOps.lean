import DriversLab.DdkMem.Message

/-!
# DdkMem.FileOps — the file operations of `ddk_mem.c`

One program for each entry of `fops`. `cfg` is what `ddk_probe` left in
`struct ddk_device`, a `File` is a `struct ddk_device_file` (without `out_buf`,
of which every byte that is sent has just been copied in).

`cnt` and the counts made from it are natural numbers: the VFS caps a transfer
at `MAX_RW_COUNT`, below 2^31. The `while` loop of `ddk_write` runs on for ever
when packets move no byte; `bound` is the number of iterations that are
modelled, and every statement is about all of them.
-/

namespace DdkMem

open CInt Interact

variable {β : Type}

/-- The sizes that `ddk_probe` takes from the endpoint descriptors. -/
structure Config where
  inBufSize : ℕ
  outBufSize : ℕ
deriving DecidableEq, Repr

/-- `struct ddk_device_file`. -/
structure File (β : Type) where
  inBuf : List β
  inBufLeftOver : ℕ
deriving DecidableEq, Repr

/-! ## ddk_open, ddk_close -/

/-- `ddk_open`: the error, or the new file. -/
def ddkOpen (cfg : Config) : Driver β (Except Errno (File β)) := do
  if !(← perform .usbFindInterface) then
    return .error ENODEV
  else if !(← perform .usbGetIntfdata) then
    return .error ENODEV
  else
    let _ ← perform .mutexLock
    if cfg.inBufSize = 0 then
      let _ ← perform .mutexUnlock
      return .error ENODEV
    else
      match ← perform (.kmallocFile cfg.inBufSize) with
      -- dev->m stays locked
      | none => return .error ENOMEM
      | some inBuf =>
          let _ ← perform .mutexUnlock
          match ← setOff .eRead 0 with
          -- nobody frees the file, here and below
          | .error e => return .error e
          | .ok _ =>
              match ← setOff .eWrite 0 with
              | .error e => return .error e
              | .ok _ =>
                  let _ ← perform .atomicInc
                  return .ok ⟨inBuf, 0⟩

/-- `ddk_close`. -/
def ddkClose : Driver β ℤ := do
  let _ ← perform .atomicDec
  let _ ← perform .kfreeFile
  return 0

/-! ## ddk_write -/

/-- What a transfer returns, and the position it leaves in `*off`. -/
structure Transfer where
  ret : ℤ
  off : ℤ
deriving DecidableEq, Repr

/-- The `while` loop of `ddk_write`: the error of the packet that failed, or the
bytes written. -/
def writeLoop (cfg : Config) (buf : List UInt8) : ℕ → ℕ → Driver β (Except Errno ℕ)
  | bound, wroteCnt =>
      if wroteCnt < buf.length then
        match bound with
        -- more packets than are modelled
        | 0 => do nomatch ← perform .runsOn
        | bound + 1 => do
            let writeSize := min cfg.outBufSize (buf.length - wroteCnt)
            if ← perform (.copyFromUser writeSize) then
              return .error EFAULT
            else
              match ← perform (.interruptOut ((buf.drop wroteCnt).take writeSize)) with
              | .error e =>
                  let _ ← perform .ddkExtOnWriteFail
                  return .error e
              | .ok wroteSize => writeLoop cfg buf bound (wroteCnt + wroteSize)
      else
        return .ok wroteCnt

/-- `ddk_write` of the user's bytes `buf`. -/
def ddkWrite (cfg : Config) (bound : ℕ) (buf : List UInt8) (off : ℤ) : Driver β Transfer := do
  match ← setOff .eWrite off with
  | .error e => return ⟨e.val, off⟩
  | .ok _ =>
      match ← writeLoop cfg buf bound 0 with
      | .error e => return ⟨e.val, off⟩
      | .ok wroteCnt =>
          let _ ← perform (.ddkExtOnWriteSuccess wroteCnt)
          -- *off has been advanced, also if this message fails
          match ← setOff .eRead (off + wroteCnt) with
          | .error e => return ⟨e.val, off + wroteCnt⟩
          | .ok _ => return ⟨wroteCnt, off + wroteCnt⟩

/-! ## ddk_read -/

/-- What `ddk_read` returns, the position it leaves in `*off`, the file after
it, and the bytes handed over. -/
structure ReadResult (β : Type) where
  ret : ℤ
  off : ℤ
  file : File β
  data : List β
deriving DecidableEq, Repr

/-- The first half of `ddk_read`: take the bytes parked by the last call, or
fetch a packet. `in_buf_left_over` is zero afterwards either way. -/
def fetch (cfg : Config) (file : File β) (off : ℤ) : Driver β (Except Errno ℕ × File β) := do
  if file.inBufLeftOver ≠ 0 then
    return (.ok file.inBufLeftOver, { file with inBufLeftOver := 0 })
  else
    match ← setOff .eRead off with
    | .error e => return (.error e, file)
    | .ok _ =>
        match ← perform (.interruptIn cfg.inBufSize) with
        | .error e => return (.error e, file)
        | .ok packet =>
            -- a short packet leaves the rest of in_buf as it was
            let file := { file with inBuf := packet ++ file.inBuf.drop packet.1.length }
            match ← setOff .eWrite (off + packet.1.length) with
            | .error e => return (.error e, file)
            | .ok _ => return (.ok packet.1.length, file)

/-- The `for` loop of `ddk_read`, from index `i` on for `n` more indices. -/
def shift (cnt : ℕ) : ℕ → ℕ → List β → List β
  | 0, _, inBuf => inBuf
  | n + 1, i, inBuf =>
      shift cnt n (i + 1) (match inBuf[i]? with
        | some x => inBuf.set (i - cnt) x
        | none => inBuf)

/-- The end of `ddk_read` after the copy: the bytes handed over, the rest moved
to the front of `in_buf` and parked. -/
def handOver (cnt : ℕ) (off : ℤ) (readSize : ℕ) (file : File β) : ReadResult β :=
  let readCnt := if readSize ≤ cnt then readSize else cnt
  let leftOver := if cnt < readSize then readSize - cnt else 0
  { ret := readCnt
    off := off + readCnt
    file := ⟨shift cnt (readSize - cnt) cnt file.inBuf, leftOver⟩
    data := file.inBuf.take readCnt }

/-- The second half of `ddk_read`: hand over at most `cnt` of the `readSize`
bytes. -/
def deliver (cnt : ℕ) (off : ℤ) (readSize : ℕ) (file : File β) : Driver β (ReadResult β) := do
  if ← perform (.copyToUser (file.inBuf.take (if readSize ≤ cnt then readSize else cnt))) then
    return ⟨EFAULT.val, off, { file with inBufLeftOver := readSize }, []⟩
  else
    return handOver cnt off readSize file

/-- `ddk_read`. -/
def ddkRead (cfg : Config) (file : File β) (cnt : ℕ) (off : ℤ) : Driver β (ReadResult β) := do
  match ← fetch cfg file off with
  | (.error e, file) => return ⟨e.val, off, file, []⟩
  | (.ok readSize, file) => deliver cnt off readSize file

/-! ## ddk_llseek -/

inductive Whence where
  | seekSet
  | seekCur
  | seekEnd
  | other
deriving DecidableEq, Repr

/-- The `switch` of `ddk_llseek`: the error, or the offset asked for. -/
def seekTarget (size offset : ℤ) : Whence → Driver β (Except ℤ ℤ)
  | .seekSet => return .ok offset
  | .seekCur => do
      let cur ← getOff .eRead
      if cur < 0 then return .error cur else return .ok (toLong (offset + cur))
  | .seekEnd => return .ok (toLong (offset + size))
  | .other => return .error EINVAL.val

/-- The clamp to `0 .. size`. -/
def clamp (size offset : ℤ) : ℤ := if offset < 0 then 0 else if size < offset then size else offset

/-- `ddk_llseek`: what it returns, and the new `f_pos` if it sets one. -/
def ddkLlseek (offset : ℤ) (whence : Whence) : Driver β (ℤ × Option ℤ) := do
  let size ← getSize
  if size < 0 then
    return (size, none)
  else
    match ← seekTarget size offset whence with
    | .error e => return (e, none)
    | .ok offset =>
        match ← setOff .eRead (clamp size offset) with
        | .error e => return (e.val, none)
        | .ok _ =>
            match ← setOff .eWrite (clamp size offset) with
            | .error e => return (e.val, none)
            | .ok _ => return (clamp size offset, some (clamp size offset))

/-! ## ddk_ioctl -/

inductive IoctlCmd where
  | rdOffGet
  | rdOffSet
  | wrOffGet
  | wrOffSet
  | memSizeGet
  | other
deriving DecidableEq, Repr

/-- The three commands that report a number. -/
def ioctlGet (get : Driver β ℤ) : Driver β ℤ := do
  let retval ← get
  if retval < 0 then
    return retval
  else if ← perform (.copyIntToUser retval) then
    return EFAULT.val
  else
    return 0

/-- The two commands that set an offset. -/
def ioctlSet (dir : Dir) (arg : ℤ) : Driver β ℤ := do
  match ← setOff dir arg with
  | .error e => return e.val
  | .ok _ => return 0

/-- `ddk_ioctl`; `arg` is an `unsigned long`. -/
def ddkIoctl (cmd : IoctlCmd) (arg : ℤ) : Driver β ℤ :=
  match cmd with
  | .rdOffGet => ioctlGet (getOff .eRead)
  | .rdOffSet => ioctlSet .eRead arg
  | .wrOffGet => ioctlGet (getOff .eWrite)
  | .wrOffSet => ioctlSet .eWrite arg
  | .memSizeGet => ioctlGet getSize
  | .other => return EINVAL.val

/-! ## What the calls on an open file ask for -/

/-- The messages and the copies. -/
def Op.IsMessage : Op β → Prop
  | .setMemOffset _ _ | .getMemOffset _ | .getMemSize | .stackShort => True
  | .interruptIn _ | .interruptOut _ => True
  | .copyFromUser _ | .copyToUser _ | .copyIntToUser _ => True
  | _ => False

/-- The messages and the copies that store nothing on the board. -/
def Op.IsQuery : Op β → Prop
  | .interruptOut _ => False
  | o => o.IsMessage

theorem Op.IsQuery.message {o : Op β} (h : o.IsQuery) : o.IsMessage := by
  cases o with
  | interruptOut data => exact h.elim
  | _ => exact h

/-- The operations that work on `dev->ext`. -/
def Op.TouchesExt : Op β → Prop
  | .ddkExtOnWriteSuccess _ | .ddkExtOnWriteFail => True
  | _ => False

/-- The messages, the copies and the hooks: what a call on an open file does.
None of it concerns the mutex, the buffers or the open count. -/
def Op.IsTransfer : Op β → Prop
  | .ddkExtOnWriteSuccess _ | .ddkExtOnWriteFail | .runsOn => True
  | o => o.IsMessage

theorem only_getOff (dir : Dir) : (getOff dir : Driver β ℤ).Only Op.IsQuery := by
  refine ⟨trivial, fun stack => ⟨trivial, fun r => ?_⟩⟩
  cases r <;> trivial

theorem only_getSize : (getSize : Driver β ℤ).Only Op.IsQuery := by
  refine ⟨trivial, fun stack => ⟨trivial, fun r => ?_⟩⟩
  cases r <;> trivial

theorem only_writeLoop (cfg : Config) (buf : List UInt8) (bound wroteCnt : ℕ) :
    (writeLoop cfg buf bound wroteCnt : Driver β _).Only Op.IsTransfer := by
  induction bound generalizing wroteCnt with
  | zero =>
      unfold writeLoop
      split
      · exact ⟨trivial, fun r => r.elim⟩
      · trivial
  | succ bound ih =>
      unfold writeLoop
      split
      · refine ⟨trivial, ?_⟩
        intro faults
        cases faults with
        | true => trivial
        | false =>
            refine ⟨trivial, ?_⟩
            intro r
            cases r with
            | error e => exact ⟨trivial, fun _ => trivial⟩
            | ok wrote => exact ih _
      · trivial

theorem only_ddkWrite (cfg : Config) (bound : ℕ) (buf : List UInt8) (off : ℤ) :
    (ddkWrite cfg bound buf off : Driver β Transfer).Only Op.IsTransfer := by
  refine ⟨trivial, ?_⟩
  intro r
  cases r with
  | error e => trivial
  | ok _ =>
      show Prog.Only Op.IsTransfer (Prog.bind (writeLoop cfg buf bound 0) _)
      refine Prog.only_bind (only_writeLoop cfg buf bound 0) ?_
      intro r
      cases r with
      | error e => trivial
      | ok wroteCnt =>
          refine ⟨trivial, fun _ => ⟨trivial, fun r => ?_⟩⟩
          cases r <;> trivial

theorem only_fetch (cfg : Config) (file : File β) (off : ℤ) :
    (fetch cfg file off).Only Op.IsQuery := by
  unfold fetch
  split
  · trivial
  · refine ⟨trivial, ?_⟩
    intro r
    cases r with
    | error e => trivial
    | ok _ =>
        refine ⟨trivial, ?_⟩
        intro r
        cases r with
        | error e => trivial
        | ok packet =>
            refine ⟨trivial, ?_⟩
            intro r
            cases r <;> trivial

theorem only_ddkRead (cfg : Config) (file : File β) (cnt : ℕ) (off : ℤ) :
    (ddkRead cfg file cnt off).Only Op.IsQuery := by
  refine Prog.only_bind (only_fetch cfg file off) ?_
  intro r
  rcases r with ⟨r, file⟩
  cases r with
  | error e => trivial
  | ok readSize =>
      refine ⟨trivial, ?_⟩
      intro faults
      cases faults <;> trivial

theorem only_ddkLlseek (offset : ℤ) (whence : Whence) :
    (ddkLlseek offset whence : Driver β _).Only Op.IsQuery := by
  refine Prog.only_bind only_getSize ?_
  intro size
  split
  · trivial
  · refine Prog.only_bind ?_ fun r => ?_
    · cases whence with
      | seekSet => trivial
      | seekCur =>
          refine Prog.only_bind (only_getOff .eRead) ?_
          intro cur
          split <;> trivial
      | seekEnd => trivial
      | other => trivial
    · cases r with
      | error e => trivial
      | ok offset =>
          refine ⟨trivial, ?_⟩
          intro r
          cases r with
          | error e => trivial
          | ok _ =>
              refine ⟨trivial, ?_⟩
              intro r
              cases r <;> trivial

theorem only_ioctlGet {get : Driver β ℤ} (h : get.Only Op.IsQuery) :
    (ioctlGet get).Only Op.IsQuery := by
  refine Prog.only_bind h ?_
  intro retval
  split
  · trivial
  · refine ⟨trivial, ?_⟩
    intro faults
    cases faults <;> trivial

theorem only_ioctlSet (dir : Dir) (arg : ℤ) :
    (ioctlSet dir arg : Driver β ℤ).Only Op.IsQuery := by
  refine ⟨trivial, ?_⟩
  intro r
  cases r <;> trivial

theorem only_ddkIoctl (cmd : IoctlCmd) (arg : ℤ) :
    (ddkIoctl cmd arg : Driver β ℤ).Only Op.IsQuery := by
  cases cmd with
  | rdOffGet => exact only_ioctlGet (only_getOff .eRead)
  | rdOffSet => exact only_ioctlSet .eRead arg
  | wrOffGet => exact only_ioctlGet (only_getOff .eWrite)
  | wrOffSet => exact only_ioctlSet .eWrite arg
  | memSizeGet => exact only_ioctlGet only_getSize
  | other => trivial

end DdkMem
