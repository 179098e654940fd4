import DriversLab.Scull.Main

/-!
# ScullFamily.Main — scullc, scullp, scullv and sculld

Four drivers with the data structure of scull and allocators of their own. Their
`main.c` is one text, but for the size of a quantum and where it comes from: scullc
takes objects of a cache, the others `PAGE_SIZE << order` bytes. So there is one model,
with a `Variant` for what differs.

The first item of a list is the device itself, and each item is a whole `struct
scullp_dev`, cleared when it is added. The size that a transfer works with is read from
the first item, the size that is allocated from the item that is filled.

Calls are made one after the other. As in scull an access that C leaves undefined is a
trap; here `memset` can be one too, at NULL or behind the end of its target.
-/

namespace ScullFamily

open CInt Scull

def PAGE_SIZE : ℤ := 4096

def SCULLP_ORDER : ℤ := 0
def SCULLP_QSET : ℤ := 500
def SCULLV_ORDER : ℤ := 4
def SCULLV_QSET : ℤ := 500
def SCULLD_ORDER : ℤ := 0
def SCULLD_QSET : ℤ := 500
def SCULLC_QUANTUM : ℤ := 4000
def SCULLC_QSET : ℤ := 500
def EBUSY : ℤ := 16

/-! ## What differs -/

/-- A module with its allocator. `unit` is the field `order`, or `quantum` in scullc. -/
structure Variant where
  /-- `quantum` of a transfer, from the `unit` of the first item. -/
  quantum : ℤ → ℤ
  /-- The bytes that the allocator is asked for, from the `unit` of the item filled. -/
  alloc : ℤ → ℤ
  /-- The bytes that `memset` clears, from the same and the module parameter. -/
  clear : ℤ → ℤ → ℤ
  defaultUnit : ℤ
  defaultQset : ℤ

/-- `PAGE_SIZE << order`. -/
def pages (order : ℤ) : ℤ := PAGE_SIZE * 2 ^ order.toNat

/-- The page-order variants: `__get_free_pages` or `vmalloc`, cleared as a whole. -/
def byPages (order qset : ℤ) : Variant where
  quantum := fun order => toInt (pages order)
  alloc := pages
  clear := fun order _ => pages order
  defaultUnit := order
  defaultQset := qset

def scullp : Variant := byPages SCULLP_ORDER SCULLP_QSET
def scullv : Variant := byPages SCULLV_ORDER SCULLV_QSET
def sculld : Variant := byPages SCULLD_ORDER SCULLD_QSET

/-- scullc, with a cache of objects of `object` bytes. -/
def scullc (object : ℤ) : Variant where
  quantum := fun quantum => quantum
  alloc := fun _ => object
  clear := fun _ scullcQuantum => scullcQuantum
  defaultUnit := SCULLC_QUANTUM
  defaultQset := SCULLC_QSET

/-! ## The data structure -/

/-- A pointer array: each pointer is NULL or a quantum. -/
abbrev PtrArray := List (Option (List UInt8))

/-- The part of `struct scullp_dev` that list items use. -/
structure Item where
  data : Option PtrArray
  unit : ℤ
deriving DecidableEq, Repr

/-- `struct scullp_dev` of the device: the first item, the ones behind it in the order of
their links, and the fields that only the first one uses. -/
structure Dev where
  head : Item
  next : List Item
  vmas : ℕ
  qset : ℤ
  size : ℕ
deriving DecidableEq, Repr

/-- `scullp_order` and `scullp_qset`, or `scullc_quantum` and `scullc_qset`. -/
structure Params where
  unit : ℤ
  qset : ℤ
deriving DecidableEq, Repr

namespace Dev

def items (dev : Dev) : List Item := dev.head :: dev.next

/-- Give item `n` the pointer array `arr`. -/
def setData (dev : Dev) (arr : PtrArray) : ℕ → Dev
  | 0 => { dev with head := { dev.head with data := some arr } }
  | n + 1 => { dev with next := dev.next.modify n fun item => { item with data := some arr } }

/-- The sizes that a transfer works with. -/
def geometry (v : Variant) (dev : Dev) : Geometry := ⟨v.quantum dev.head.unit, dev.qset⟩

end Dev

/-- A device as the module sets it up. -/
def Params.device (p : Params) : Dev := ⟨⟨none, p.unit⟩, [], 0, p.qset, 0⟩

/-- `scullp_trim`: what it returns, and the device. -/
def trim (p : Params) (dev : Dev) : ℤ × Dev :=
  if dev.vmas ≠ 0 then (-EBUSY, dev) else (0, p.device)

/-- `scullp_open`; errors of the trim are ignored. -/
def openDev (p : Params) (wronly : Bool) (dev : Dev) : Dev :=
  if wronly then (trim p dev).2 else dev

/-! ## Following the list -/

/-- A list item after `memset`. -/
def Item.cleared : Item := ⟨none, 0⟩

/-- `scullp_follow`: the items behind the first one, once `n` of them have been passed.
`none` when a missing one cannot be allocated, of which `nodes` can. -/
def follow : ℕ → ℕ → List Item → Option (List Item)
  | _, 0, next => some next
  | nodes, n + 1, item :: next => (follow nodes n next).map (item :: ·)
  | 0, _ + 1, [] => none
  | nodes + 1, n + 1, [] => (follow nodes n []).map (Item.cleared :: ·)

/-! ## Transfers -/

/-- What C leaves undefined. -/
inductive Oops where
  | trap (t : Trap)
  /-- `memset` at NULL. -/
  | null
  /-- `memset` behind the end of an allocation. -/
  | clear
deriving DecidableEq, Repr

@[simp] theorem ok_bind {α β : Type} (a : α) (f : α → Except Oops β) :
    (Except.ok a >>= f) = f a := rfl

/-- What a transfer returns, the position it leaves, the bytes that reach the user, and
the device after it. -/
structure Result where
  ret : ℤ
  fPos : ℤ
  data : List UInt8
  dev : Dev
deriving DecidableEq, Repr

/-- Where a transfer has arrived: the item at `pos` of the device, which may have got
longer. -/
structure Arrival where
  pos : Place
  item : Item
  dev : Dev
deriving DecidableEq, Repr

/-- The arithmetic and the walk that start a read and a write. -/
def arrive (v : Variant) (fPos : ℤ) (env : Env) (dev : Dev) : Except Oops Arrival :=
  match place (dev.geometry v) fPos with
  | none => .error (.trap .divide)
  | some pos =>
      match follow env.nodes pos.hops dev.next with
      | none => .error .null
      | some next =>
          let dev := { dev with next := next }
          match dev.items[pos.hops]? with
          | none => .error .null
          | some item => .ok ⟨pos, item, dev⟩

/-- The copy of a read, from the pointer array on. -/
def readArray (g : Geometry) (count : ℕ) (fPos : ℤ) (env : Env) (pos : Place) (arr : PtrArray)
    (dev : Dev) : Except Oops Result := do
  match ← (slot arr pos.sPos).mapError .trap with
  -- holes are not filled
  | none => return ⟨0, fPos, [], dev⟩
  | some q =>
      let count := min count (room g pos)
      let _ ← (inQuantum q pos.qPos count).mapError .trap
      let data := (q.drop pos.qPos.toNat).take count
      match env.fault with
      | some k => return ⟨-EFAULT, fPos, data.take k, dev⟩
      | none => return ⟨count, fPos + count, data, dev⟩

/-- `scullp_read`. -/
def read (v : Variant) (count : ℕ) (fPos : ℤ) (env : Env) (dev : Dev) : Except Oops Result :=
  if dev.size < fPos then return ⟨0, fPos, [], dev⟩
  else do
    let count := if dev.size < fPos + count then (dev.size - fPos).toNat else count
    let at' ← arrive v fPos env dev
    match at'.item.data with
    | none => return ⟨0, fPos, [], at'.dev⟩
    | some arr => readArray (dev.geometry v) count fPos env at'.pos arr at'.dev

/-- `memset(p, 0, n)` of an allocation. -/
def memset (q : List UInt8) (n : ℤ) : Except Oops (List UInt8) :=
  if 0 ≤ n ∧ n ≤ q.length then .ok (List.replicate n.toNat 0 ++ q.drop n.toNat) else .error .clear

/-- The allocation of a single quantum; `none` when there is no memory. -/
def allocQuantum (v : Variant) (p : Params) (item : Item) (env : Env) :
    Except Oops (Option (List UInt8)) :=
  match kmallocQuantum (v.alloc item.unit) env.heap with
  | none => .ok none
  | some q => (memset q (v.clear item.unit p.unit)).map some

/-- The copy of a write into the quantum `q`. -/
def writeQuantum (g : Geometry) (buf : List UInt8) (fPos : ℤ) (env : Env) (pos : Place)
    (arr : PtrArray) (q : List UInt8) (dev : Dev) : Except Oops Result := do
  let data := buf.take (room g pos)
  let _ ← (inQuantum q pos.qPos data.length).mapError .trap
  let q := Chunked.overwrite q pos.qPos.toNat (copied data env.fault)
  let dev := dev.setData (arr.set pos.sPos.toNat (some q)) pos.hops
  if env.fault.isSome then return ⟨-EFAULT, fPos, [], dev⟩
  else
    let fPos := fPos + data.length
    return ⟨data.length, fPos, [],
      { dev with size := if dev.size < fPos then fPos.toNat else dev.size }⟩

/-- `scullp_write`. -/
def write (v : Variant) (p : Params) (buf : List UInt8) (fPos : ℤ) (env : Env) (dev : Dev) :
    Except Oops Result := do
  let at' ← arrive v fPos env dev
  match at'.item.data.or (kmallocArray dev.qset env.array) with
  | none => return ⟨-ENOMEM, fPos, [], at'.dev⟩
  | some arr =>
      let dev' := at'.dev.setData arr at'.pos.hops
      match ← (slot arr at'.pos.sPos).mapError .trap with
      | some q => writeQuantum (dev.geometry v) buf fPos env at'.pos arr q dev'
      | none =>
          match ← allocQuantum v p at'.item env with
          | none => return ⟨-ENOMEM, fPos, [], dev'⟩
          | some q => writeQuantum (dev.geometry v) buf fPos env at'.pos arr q dev'

/-! ## Ioctls -/

/-- The two parameters, each with six commands. -/
inductive Field where
  | unit
  | qset
deriving DecidableEq, Repr

def Field.get (p : Params) : Field → ℤ
  | .unit => p.unit
  | .qset => p.qset

def Field.set (p : Params) (val : ℤ) : Field → Params
  | .unit => { p with unit := val }
  | .qset => { p with qset := val }

/-- Set, Tell, Get, Query, eXchange and sHift. -/
inductive Cmd where
  | reset
  | set (x : Field)
  | tell (x : Field)
  | get (x : Field)
  | query (x : Field)
  | exchange (x : Field)
  | shift (x : Field)
  /-- Another magic, or a number that is too large. -/
  | foreign
  /-- A number of the list with other direction bits or another size; whether the
  direction bits ask for a pointer. -/
  | unknown (pointer : Bool)
deriving DecidableEq, Repr

/-- Whether the direction bits of a command make `scullp_ioctl` test the pointer. -/
def Cmd.usesPointer : Cmd → Bool
  | .set _ | .get _ | .exchange _ => true
  | .unknown pointer => pointer
  | _ => false

/-- What an ioctl returns, the `int` it writes to the user if any, and the parameters. -/
structure IoctlOut where
  ret : ℤ
  put : Option ℤ
  params : Params
deriving DecidableEq, Repr

/-- `scullp_ioctl`. Unlike scull's it asks for no capability. `__get_user` stores zero when
it faults. -/
def ioctl (v : Variant) (cmd : Cmd) (arg : ℤ) (user : IoctlUser) (p : Params) : IoctlOut :=
  if cmd.usesPointer && !user.accessOk then ⟨-EFAULT, none, p⟩
  else
    match cmd with
    | .reset => ⟨0, none, ⟨v.defaultUnit, v.defaultQset⟩⟩
    | .set x =>
        match user.int with
        | none => ⟨-EFAULT, none, x.set p 0⟩
        | some val => ⟨0, none, x.set p (toInt val)⟩
    | .tell x => ⟨0, none, x.set p (toInt arg)⟩
    | .get x => ⟨(putUser user (x.get p)).1, (putUser user (x.get p)).2, p⟩
    | .query x => ⟨x.get p, none, p⟩
    | .exchange x =>
        match user.int with
        | none => ⟨-EFAULT, none, x.set p 0⟩
        | some val => ⟨(putUser user (x.get p)).1, (putUser user (x.get p)).2, x.set p (toInt val)⟩
    | .shift x => ⟨x.get p, none, x.set p (toInt arg)⟩
    -- decided in front of access_ok, and in the default case
    | .foreign | .unknown _ => ⟨-ENOTTY, none, p⟩

end ScullFamily
