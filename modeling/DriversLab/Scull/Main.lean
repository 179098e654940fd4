import DriversLab.Lib.CInt
import DriversLab.Lib.Chunked

/-!
# Scull.Main — the bare scull device

`main.c`: the data structure of a scull device, and what `scull_read`,
`scull_write`, `scull_trim` and `scull_ioctl` do while they hold the device
mutex.

A device is a list of items, an item an array of pointers, a pointer NULL or a
quantum. Memory that `kmalloc` gives out has contents of its own. An access
outside an array or a quantum is undefined in C; here it is a `Trap`, as is a
division by zero.

Counts are natural numbers: the VFS caps a transfer at `MAX_RW_COUNT`, below
2^31, so a position and a count never wrap.
-/

namespace Scull

open CInt

def ENOMEM : ℤ := 12
def EFAULT : ℤ := 14
def EINVAL : ℤ := 22
def ENOTTY : ℤ := 25
def EPERM : ℤ := 1
def EAGAIN : ℤ := 11
def ERESTARTSYS : ℤ := 512

def SCULL_QUANTUM : ℤ := 4000
def SCULL_QSET : ℤ := 1000
def SCULL_P_BUFFER : ℤ := 4000

/-! ## The data structure -/

/-- `struct scull_qset` without its link: NULL or the pointer array. -/
structure ScullQset where
  data : Option (List (Option (List UInt8)))
deriving DecidableEq, Repr

/-- The two sizes that a device is built with. -/
structure Geometry where
  quantum : ℤ
  qset : ℤ
deriving DecidableEq, Repr

/-- `struct scull_dev`; `data` holds the items in the order of their links. -/
structure ScullDev where
  data : List ScullQset
  geometry : Geometry
  size : ℕ
deriving DecidableEq, Repr

/-- The parameters that `scull_ioctl` may change. -/
structure Params where
  scullQuantum : ℤ
  scullQset : ℤ
  scullPBuffer : ℤ
deriving DecidableEq, Repr

/-- The parameters of a module that is loaded without arguments. -/
def Params.default : Params := ⟨SCULL_QUANTUM, SCULL_QSET, SCULL_P_BUFFER⟩

/-- What a trim builds a device with. -/
def Params.geometry (p : Params) : Geometry := ⟨p.scullQuantum, p.scullQset⟩

/-- `scull_trim`. -/
def scullTrim (p : Params) (_ : ScullDev) : ScullDev := ⟨[], p.geometry, 0⟩

/-- `scull_open` once it holds the mutex. -/
def scullOpen (p : Params) (wronly : Bool) (dev : ScullDev) : ScullDev :=
  if wronly then scullTrim p dev else dev

/-! ## scull_follow -/

/-- A list item that has just been cleared. -/
def ScullQset.empty : ScullQset := ⟨none⟩

/-- `scull_follow`: go `n` items down the list, appending what is missing as long
as `kmalloc` serves, which it does `nodes` times. The item reached, if any, and
the list it leaves. -/
def scullFollow : ℕ → ℕ → List ScullQset → Option ScullQset × List ScullQset
  | _, 0, qs :: rest => (some qs, qs :: rest)
  | 0, _, [] => (none, [])
  | _ + 1, 0, [] => (some .empty, [.empty])
  | nodes, n + 1, qs :: rest =>
      ((scullFollow nodes n rest).1, qs :: (scullFollow nodes n rest).2)
  | nodes + 1, n + 1, [] =>
      ((scullFollow nodes n []).1, .empty :: (scullFollow nodes n []).2)

/-! ## Where a position lies -/

/-- `item`, `s_pos` and `q_pos`. -/
structure Place where
  item : ℤ
  sPos : ℤ
  qPos : ℤ
deriving DecidableEq, Repr

/-- The arithmetic that `scull_read` and `scull_write` share; `none` when
`itemsize` is zero. -/
def place (g : Geometry) (fPos : ℤ) : Option Place :=
  let itemsize := toInt (g.quantum * g.qset)
  if itemsize = 0 then none
  else
    let item := toInt (fPos.tdiv itemsize)
    let rest := toInt (fPos.tmod itemsize)
    some ⟨item, rest.tdiv g.quantum, rest.tmod g.quantum⟩

/-- The number of iterations of `while (n--)`. -/
def Place.hops (pos : Place) : ℕ := (toUInt pos.item).toNat

/-- What C leaves undefined. -/
inductive Trap where
  | divide
  | array
  | quantum
deriving DecidableEq, Repr

@[simp] theorem ok_bind {α β : Type} (a : α) (f : α → Except Trap β) :
    (Except.ok a >>= f) = f a := rfl

/-- `arr[i]`. -/
def slot {α : Type} (arr : List α) (i : ℤ) : Except Trap α :=
  if 0 ≤ i then
    match arr[i.toNat]? with
    | some x => .ok x
    | none => .error .array
  else .error .array

/-- The bytes of a quantum from `qPos` on must hold the whole transfer. -/
def inQuantum (q : List UInt8) (qPos : ℤ) (count : ℕ) : Except Trap Unit :=
  if 0 ≤ qPos ∧ qPos + count ≤ q.length then .ok () else .error .quantum

/-- What the environment decides for one call: how many list items can be
allocated, whether a pointer array can be, what a new quantum holds if it can be,
and after how many bytes the copy faults if it does. -/
structure Env where
  nodes : ℕ
  array : Bool
  heap : Option (ℕ → UInt8)
  fault : Option ℕ

/-- What a transfer returns, the position it leaves in `*f_pos`, the bytes that
reach the user, and the device after it. -/
structure Transfer where
  ret : ℤ
  fPos : ℤ
  data : List UInt8
  dev : ScullDev
deriving DecidableEq, Repr

/-- `quantum - q_pos` as a `size_t`: the room up to the end of the quantum. -/
def room (g : Geometry) (pos : Place) : ℕ := (toULong (g.quantum - pos.qPos)).toNat

/-! ## scull_read -/

/-- `scull_read` from the point where it has the pointer array `arr` of the item at
`pos`. -/
def readArray (g : Geometry) (count : ℕ) (fPos : ℤ) (env : Env) (pos : Place)
    (arr : List (Option (List UInt8))) (dev : ScullDev) : Except Trap Transfer := do
  match ← slot arr pos.sPos with
  -- a hole reads as the end of the file
  | none => return ⟨0, fPos, [], dev⟩
  | some q =>
      let count := min count (room g pos)
      let _ ← inQuantum q pos.qPos count
      let data := (q.drop pos.qPos.toNat).take count
      match env.fault with
      | some k => return ⟨-EFAULT, fPos, data.take k, dev⟩
      | none => return ⟨count, fPos + count, data, dev⟩

/-- `scull_read` under the mutex, with the sizes `g` sampled before it. -/
def scullRead (g : Geometry) (count : ℕ) (fPos : ℤ) (env : Env) (dev : ScullDev) :
    Except Trap Transfer :=
  if dev.size ≤ fPos then return ⟨0, fPos, [], dev⟩
  else
    let count := if dev.size < fPos + count then (dev.size - fPos).toNat else count
    match place g fPos with
    | none => .error .divide
    | some pos =>
        let dptr := scullFollow env.nodes pos.hops dev.data
        let dev := { dev with data := dptr.2 }
        match dptr.1.bind ScullQset.data with
        | none => return ⟨0, fPos, [], dev⟩
        | some arr => readArray g count fPos env pos arr dev

/-! ## scull_write -/

/-- `kmalloc(quantum)`; a negative size is a huge `size_t`, which no allocator
serves. -/
def kmallocQuantum (quantum : ℤ) (heap : Option (ℕ → UInt8)) : Option (List UInt8) :=
  if 0 ≤ quantum then heap.map fun h => (List.range quantum.toNat).map h else none

/-- `kmalloc(qset * sizeof(char *))`, cleared. -/
def kmallocArray (qset : ℤ) (served : Bool) : Option (List (Option (List UInt8))) :=
  if 0 ≤ qset ∧ served = true then some (List.replicate qset.toNat none) else none

/-- What `copy_from_user` of the bytes `buf` leaves in its target: where it
faults, it pads with zero bytes. -/
def copied (buf : List UInt8) : Option ℕ → List UInt8
  | none => buf
  | some k => buf.take k ++ List.replicate (buf.length - k) 0

/-- `scull_write` from the point where it has the pointer array `arr` of the item
at `pos`. -/
def writeArray (g : Geometry) (buf : List UInt8) (fPos : ℤ) (env : Env) (pos : Place)
    (arr : List (Option (List UInt8))) (dev : ScullDev) : Except Trap Transfer := do
  -- a new array stays in its item, also when there is no memory for the quantum
  let dev := { dev with data := dev.data.set pos.hops ⟨some arr⟩ }
  match (← slot arr pos.sPos).or (kmallocQuantum g.quantum env.heap) with
  | none => return ⟨-ENOMEM, fPos, [], dev⟩
  | some q =>
      let data := buf.take (room g pos)
      let _ ← inQuantum q pos.qPos data.length
      let q := Chunked.overwrite q pos.qPos.toNat (copied data env.fault)
      let arr := arr.set pos.sPos.toNat (some q)
      let dev := { dev with data := dev.data.set pos.hops ⟨some arr⟩ }
      if env.fault.isSome then
        -- the bytes copied before the fault stay, without a new size
        return ⟨-EFAULT, fPos, [], dev⟩
      else
        let fPos := fPos + data.length
        return ⟨data.length, fPos, [],
          { dev with size := if dev.size < fPos then fPos.toNat else dev.size }⟩

/-- `scull_write` of the user's bytes `buf` under the mutex, with the sizes `g`
sampled before it. -/
def scullWrite (g : Geometry) (buf : List UInt8) (fPos : ℤ) (env : Env) (dev : ScullDev) :
    Except Trap Transfer :=
  match place g fPos with
  | none => .error .divide
  | some pos =>
      let dptr := scullFollow env.nodes pos.hops dev.data
      let dev := { dev with data := dptr.2 }
      match dptr.1 with
      | none => return ⟨-ENOMEM, fPos, [], dev⟩
      | some item =>
          match item.data.or (kmallocArray g.qset env.array) with
          | none => return ⟨-ENOMEM, fPos, [], dev⟩
          | some arr => writeArray g buf fPos env pos arr dev

/-! ## scull_llseek -/

inductive Whence where
  | seekSet
  | seekCur
  | seekEnd
  | other
deriving DecidableEq, Repr

/-- The `switch` of `scull_llseek`. -/
def seekTarget (size : ℕ) (fPos off : ℤ) : Whence → Option ℤ
  | .seekSet => some off
  | .seekCur => some (toLong (fPos + off))
  | .seekEnd => some (toLong (size + off))
  | .other => none

/-- `scull_llseek`: what it returns, and the position it leaves. -/
def scullLlseek (size : ℕ) (fPos off : ℤ) (whence : Whence) : ℤ × ℤ :=
  match seekTarget size fPos off whence with
  | none => (-EINVAL, fPos)
  | some newpos => if newpos < 0 then (-EINVAL, fPos) else (newpos, newpos)

theorem scullLlseek_nonneg (size : ℕ) {fPos : ℤ} (h : 0 ≤ fPos) (off : ℤ) (whence : Whence) :
    0 ≤ (scullLlseek size fPos off whence).2 := by
  unfold scullLlseek
  cases seekTarget size fPos off whence with
  | none => exact h
  | some newpos =>
      simp only
      split
      · exact h
      · rename_i hneg
        exact Int.not_lt.mp hneg

/-! ## scull_ioctl -/

/-- The two parameters that have all six commands. -/
inductive Param where
  | quantum
  | qset
deriving DecidableEq, Repr

def Param.get (p : Params) : Param → ℤ
  | .quantum => p.scullQuantum
  | .qset => p.scullQset

def Param.set (p : Params) (val : ℤ) : Param → Params
  | .quantum => { p with scullQuantum := val }
  | .qset => { p with scullQset := val }

/-- Set, Tell, Get, Query, eXchange and sHift, and the two commands of scullpipe. -/
inductive IoctlCmd where
  | reset
  | set (x : Param)
  | tell (x : Param)
  | get (x : Param)
  | query (x : Param)
  | exchange (x : Param)
  | shift (x : Param)
  | pTsize
  | pQsize
  /-- Another magic, or a number above `SCULL_IOC_MAXNR`. -/
  | foreign
  /-- A number of the list with other direction bits or another size; whether the
  direction bits ask for a pointer. -/
  | unknown (pointer : Bool)
deriving DecidableEq, Repr

/-- The user's side of an ioctl: what `access_ok` and `capable` say, the `int`
that `arg` points to unless reading it faults, and whether writing it faults. -/
structure IoctlUser where
  accessOk : Bool
  capable : Bool
  int : Option ℤ
  putFaults : Bool
deriving DecidableEq, Repr

/-- What `scull_ioctl` returns, and the `int` it writes to the user if any. -/
structure IoctlResult where
  ret : ℤ
  put : Option ℤ
  params : Params
deriving DecidableEq, Repr

/-- Whether the direction bits of a command make `scull_ioctl` test the pointer. -/
def IoctlCmd.usesPointer : IoctlCmd → Bool
  | .set _ | .get _ | .exchange _ => true
  | .unknown pointer => pointer
  | _ => false

/-- Whether a command asks for `CAP_SYS_ADMIN`. -/
def IoctlCmd.privileged : IoctlCmd → Bool
  | .set _ | .tell _ | .exchange _ | .shift _ => true
  | _ => false

/-- `__put_user`: the value returned, and the `int` written. -/
def putUser (user : IoctlUser) (val : ℤ) : ℤ × Option ℤ :=
  if user.putFaults then (-EFAULT, none) else (0, some val)

/-- `scull_ioctl`. `__get_user` stores zero when it faults. -/
def scullIoctl (cmd : IoctlCmd) (arg : ℤ) (user : IoctlUser) (p : Params) : IoctlResult :=
  if cmd.usesPointer && !user.accessOk then ⟨-EFAULT, none, p⟩
  else if cmd.privileged && !user.capable then ⟨-EPERM, none, p⟩
  else
    match cmd with
    | .reset => ⟨0, none, { p with scullQuantum := SCULL_QUANTUM, scullQset := SCULL_QSET }⟩
    | .set x =>
        match user.int with
        | none => ⟨-EFAULT, none, x.set p 0⟩
        | some val => ⟨0, none, x.set p (toInt val)⟩
    | .tell x => ⟨0, none, x.set p (toInt arg)⟩
    | .get x => ⟨(putUser user (x.get p)).1, (putUser user (x.get p)).2, p⟩
    | .query x => ⟨x.get p, none, p⟩
    | .exchange x =>
        match user.int with
        | none => ⟨-EFAULT, none, x.set p 0⟩
        | some val => ⟨(putUser user (x.get p)).1, (putUser user (x.get p)).2, x.set p (toInt val)⟩
    | .shift x => ⟨x.get p, none, x.set p (toInt arg)⟩
    | .pTsize => ⟨0, none, { p with scullPBuffer := toInt arg }⟩
    | .pQsize => ⟨p.scullPBuffer, none, p⟩
    -- decided in front of access_ok, and in the default case
    | .foreign | .unknown _ => ⟨-ENOTTY, none, p⟩

end Scull
