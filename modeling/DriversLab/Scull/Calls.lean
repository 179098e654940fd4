import DriversLab.Scull.Layout
import DriversLab.Lib.Lts
import Mathlib.Data.Int.Order.Basic

/-!
# Scull.Calls — any order of calls on one scull device

The calls `scull_ioctl`, `scull_open`, `scull_read` and `scull_write`, with whatever
arguments, one after the other. The ioctls put any `int` into the parameters, and the
next trim builds the device with it.

* `Built`: what every reachable state satisfies, sensible parameters or not. A device
  with a size that is not positive holds no byte;
* `write_any`: what a `scull_write` does in such a state;
* `write_refused_iff`: when it finds no memory;
* `read_answer`: what a `scull_read` gives, exactly.
-/

namespace Scull

open CInt Chunked Lts

/-! ## The system -/

/-- The parameters of the module and one of its devices. -/
structure CallSys where
  params : Params
  dev : ScullDev
deriving DecidableEq, Repr

/-- The calls; the VFS passes no negative position. -/
inductive CallAct where
  | ioctl (cmd : IoctlCmd) (arg : ℤ) (user : IoctlUser)
  | openFile (wronly : Bool)
  | read (fPos : ℕ) (count : ℕ) (env : Env)
  | write (fPos : ℕ) (buf : List UInt8) (env : Env)

namespace Calls

/-- The state after a transfer; a trap ends the call there and then. -/
def transferred (s : CallSys) : Except Trap Transfer → CallSys
  | .ok r => { s with dev := r.dev }
  | .error _ => s

def update (s : CallSys) : CallAct → CallSys
  | .ioctl cmd arg user => { s with params := (scullIoctl cmd arg user s.params).params }
  | .openFile wronly => { s with dev := scullOpen s.params wronly s.dev }
  | .read fPos count env => transferred s (scullRead s.dev.geometry count fPos env s.dev)
  | .write fPos buf env => transferred s (scullWrite s.dev.geometry buf fPos env s.dev)

/-- Every call can be made at any time. -/
def step (s : CallSys) (a : CallAct) : Option CallSys := some (update s a)

/-- A device that has just been set up. -/
def init (p : Params) : CallSys := ⟨p, ⟨[], p.geometry, 0⟩⟩

end Calls

/-! ## What the parameters can be -/

/-- Two values of type `int`. -/
structure Geometry.Ints (g : Geometry) : Prop where
  quantum : -2 ^ 31 ≤ g.quantum ∧ g.quantum < 2 ^ 31
  qset : -2 ^ 31 ≤ g.qset ∧ g.qset < 2 ^ 31

theorem Geometry.Ints.valid {g : Geometry} (h : g.Ints) (hq : 0 < g.quantum) (hs : 0 < g.qset) :
    g.Valid :=
  ⟨hq, h.quantum.2, hs, h.qset.2⟩

theorem Params.default_ints : Params.default.geometry.Ints := by
  constructor <;> decide

/-- Storing an `int` in one of the parameters. -/
theorem Params.ints_set {p : Params} (h : p.geometry.Ints) (x : Param) {val : ℤ}
    (hval : -2 ^ 31 ≤ val ∧ val < 2 ^ 31) : (x.set p val).geometry.Ints := by
  cases x with
  | quantum => exact ⟨hval, h.qset⟩
  | qset => exact ⟨h.quantum, hval⟩

/-- An ioctl stores nothing but values of type `int`. -/
theorem scullIoctl_ints {p : Params} (h : p.geometry.Ints) (cmd : IoctlCmd) (arg : ℤ)
    (user : IoctlUser) : (scullIoctl cmd arg user p).params.geometry.Ints := by
  have hzero : -2 ^ 31 ≤ (0 : ℤ) ∧ (0 : ℤ) < 2 ^ 31 := by omega
  unfold scullIoctl
  split
  · exact h
  · split
    · exact h
    · cases cmd with
      | reset => exact Params.default_ints
      | set x =>
          cases user.int with
          | none => exact Params.ints_set h x hzero
          | some val => exact Params.ints_set h x (toInt_range val)
      | tell x => exact Params.ints_set h x (toInt_range arg)
      | get x => exact h
      | query x => exact h
      | exchange x =>
          cases user.int with
          | none => exact Params.ints_set h x hzero
          | some val => exact Params.ints_set h x (toInt_range val)
      | shift x => exact Params.ints_set h x (toInt_range arg)
      | pTsize => exact h
      | pQsize => exact h
      | foreign => exact h
      | unknown pointer => exact h

/-! ## scull_follow -/

/-- `scull_follow` gets to item `n` if enough items can be appended. -/
theorem scullFollow_isSome (nodes n : ℕ) (items : List ScullQset) :
    (scullFollow nodes n items).1.isSome ↔ n < items.length + nodes := by
  induction nodes, n, items using scullFollow.induct with
  | case1 nodes qs rest => simp [scullFollow]
  | case2 n => simp [scullFollow]
  | case3 nodes => simp [scullFollow]
  | case4 nodes n qs rest ih =>
      simp only [scullFollow, ih, List.length_cons]
      omega
  | case5 nodes n ih =>
      simp only [scullFollow, ih, List.length_nil]
      omega

/-! ## A device with sizes that are not positive -/

section Unfit

variable {dev : ScullDev} {fPos : ℤ} {pos : Place}

/-- Sizes of zero leave nothing to divide by. -/
theorem place_ne_zero {g : Geometry} (h : place g fPos = some pos) :
    g.quantum ≠ 0 ∧ g.qset ≠ 0 := by
  constructor
  · intro hq
    simp [place, hq, toInt] at h
  · intro hs
    simp [place, hs, toInt] at h

/-- It cannot hold a quantum. -/
theorem chunks_unfit (hints : dev.geometry.Ints) (hshape : Shape dev) (hbad : ¬ dev.geometry.Valid)
    (hq : dev.geometry.quantum ≠ 0) (c : ℕ) : chunks dev c = none := by
  cases hc : chunks dev c with
  | none => rfl
  | some q =>
      rcases Option.bind_eq_some_iff.mp hc with ⟨arr, harr, hjoin⟩
      have hat := Option.join_eq_some_iff.mp hjoin
      have hlt := (List.getElem?_eq_some_iff.mp hat).1
      rcases hshape _ arr harr with ⟨hlen, hquanta⟩
      have hqlen := hquanta _ q hat
      exact absurd (hints.valid (by omega) (by omega)) hbad

/-- What `arr[i]` yields is entry `i`. -/
theorem slot_eq_ok {α : Type} {arr : List α} {i : ℤ} {x : α} (h : slot arr i = .ok x) :
    0 ≤ i ∧ arr[i.toNat]? = some x := by
  unfold slot at h
  split at h
  · rename_i hi
    cases hat : arr[i.toNat]? with
    | none =>
        rw [hat] at h
        cases h
    | some y =>
        rw [hat] at h
        cases h
        exact ⟨hi, rfl⟩
  · cases h

/-- The array of the item that `scull_follow` reaches has `qset` entries. -/
theorem reached_length {nodes n : ℕ} {served : Bool} {item : ScullQset}
    {arr : List (Option (List UInt8))} (hshape : Shape dev)
    (hptr : (scullFollow nodes n dev.data).1 = some item)
    (harr : item.data.or (kmallocArray dev.geometry.qset served) = some arr) :
    (arr.length : ℤ) = dev.geometry.qset := by
  cases hd : item.data with
  | some a =>
      rw [hd, Option.some_or] at harr
      cases harr
      refine (hshape n arr ?_).1
      rw [← itemData_scullFollow nodes n, itemData, scullFollow_found hptr]
      exact hd
  | none =>
      rw [hd, Option.none_or, kmallocArray] at harr
      split at harr
      · cases harr
        rw [List.length_replicate]
        omega
      · cases harr

/-- A `scull_write` to it fails for want of memory. -/
theorem write_unfit {buf : List UInt8} {env : Env} {r : Transfer} (hints : dev.geometry.Ints)
    (hshape : Shape dev) (hbad : ¬ dev.geometry.Valid)
    (hr : scullWrite dev.geometry buf fPos env dev = .ok r) :
    r.ret = -ENOMEM ∧ r.fPos = fPos ∧ Kept dev r.dev := by
  unfold scullWrite at hr
  cases hplace : place dev.geometry fPos with
  | none =>
      rw [hplace] at hr
      cases hr
  | some pos =>
      have hkept := kept_follow hshape env.nodes pos.hops
      rcases place_ne_zero hplace with ⟨hq, hs⟩
      simp only [hplace] at hr
      cases hptr : (scullFollow env.nodes pos.hops dev.data).1 with
      | none =>
          simp only [hptr] at hr
          cases hr
          exact ⟨rfl, rfl, hkept⟩
      | some item =>
          simp only [hptr] at hr
          have hitem := scullFollow_found hptr
          cases harr : item.data.or (kmallocArray dev.geometry.qset env.array) with
          | none =>
              simp only [harr] at hr
              cases hr
              exact ⟨rfl, rfl, hkept⟩
          | some arr =>
              simp only [harr] at hr
              have harray := isArray_reached hptr harr
              -- an array is there, so it is the quantum that is negative
              have hlen := reached_length hshape hptr harr
              have hneg : dev.geometry.quantum < 0 := by
                by_contra hnn
                exact hbad (hints.valid (by omega) (by omega))
              unfold writeArray at hr
              cases hslot : slot arr pos.sPos with
              | error t =>
                  rw [hslot] at hr
                  cases hr
              | ok entry =>
                  cases entry with
                  | some q =>
                      have hqlen := isArray_quantum hkept.shape harray (slot_eq_ok hslot).2
                      simp only at hqlen
                      omega
                  | none =>
                      rw [hslot, ok_bind, Option.none_or, kmallocQuantum, if_neg (by omega)] at hr
                      cases hr
                      refine ⟨rfl, rfl, ?_, ?_, rfl, rfl⟩
                      · exact shape_item hkept.shape hitem hlen fun _ _ hq =>
                          isArray_quantum hkept.shape harray hq
                      · exact (chunks_array hitem harray).trans hkept.chunks

end Unfit

/-! ## scull_write in any state -/

variable {dev : ScullDev} {fPos : ℤ} {pos : Place} {buf : List UInt8} {env : Env} {r : Transfer}

/-- The memory that a `scull_write` at `pos` may need is there. -/
def Served (dev : ScullDev) (pos : Place) (env : Env) : Prop :=
  pos.hops < dev.data.length + env.nodes ∧
    ((itemData dev.data pos.hops).or (kmallocArray dev.geometry.qset env.array)).isSome ∧
    (kmallocQuantum dev.geometry.quantum env.heap).isSome

/-- Whatever the sizes of the device, a `scull_write` that does not trap is refused for
want of memory or stores. -/
theorem write_any (hints : dev.geometry.Ints) (hshape : Shape dev) (hp : 0 ≤ fPos)
    (hr : scullWrite dev.geometry buf fPos env dev = .ok r) : WriteOut fPos buf env dev r := by
  by_cases hg : dev.geometry.Valid
  · rcases write_cases hg hshape hp with h | ⟨r', hr', hout⟩
    · rw [hr] at h
      cases h
    · cases hr.symm.trans hr'
      exact hout
  · rcases write_unfit hints hshape hg hr with ⟨hret, hpos, hkept⟩
    exact .refused hret hpos hkept

/-- It is refused when it lacks its quantum. -/
theorem writeArray_refused_iff (hg : dev.geometry.Valid) (hshape : Shape dev) (hp : 0 ≤ fPos)
    (hplace : place dev.geometry fPos = some pos) {arr : List (Option (List UInt8))}
    (harr : IsArray dev pos.hops arr)
    (hr : writeArray dev.geometry buf fPos env pos arr dev = .ok r) :
    r.ret = -ENOMEM ↔ chunks dev (pos.chunk dev.geometry) = none ∧
      kmallocQuantum dev.geometry.quantum env.heap = none := by
  have hb := place_bounds hg hp hplace
  unfold writeArray at hr
  rw [slot_chunk hg hshape hb.1 harr, ok_bind] at hr
  rw [← Option.or_eq_none_iff]
  cases hq : (chunks dev (pos.chunk dev.geometry)).or
      (kmallocQuantum dev.geometry.quantum env.heap) with
  | none =>
      simp only [hq] at hr
      cases hr
      simp
  | some q =>
      simp only [hq] at hr
      cases hin : inQuantum q pos.qPos (buf.take (room dev.geometry pos)).length with
      | error t =>
          rw [hin] at hr
          cases hr
      | ok _ =>
          rw [hin, ok_bind] at hr
          have hne : r.ret ≠ -ENOMEM := by
            split at hr
            · cases hr
              show -EFAULT ≠ -ENOMEM
              decide
            · cases hr
              simp only [ENOMEM]
              omega
          simp [hne]

/-- A `scull_write` is refused when its quantum is not there and the memory neither. -/
theorem write_refused_iff (hg : dev.geometry.Valid) (hshape : Shape dev) (hp : 0 ≤ fPos)
    (hplace : place dev.geometry fPos = some pos)
    (hr : scullWrite dev.geometry buf fPos env dev = .ok r) :
    r.ret = -ENOMEM ↔ chunks dev (pos.chunk dev.geometry) = none ∧ ¬ Served dev pos env := by
  have hb := place_bounds hg hp hplace
  have hchunk : chunks dev (pos.chunk dev.geometry) = _ := chunks_at hb.1
  have hkept := kept_follow hshape env.nodes pos.hops
  have hsome := scullFollow_isSome env.nodes pos.hops dev.data
  simp only [scullWrite, hplace] at hr
  cases hptr : (scullFollow env.nodes pos.hops dev.data).1 with
  | none =>
      simp only [hptr] at hr
      cases hr
      rw [hptr] at hsome
      have hlt : ¬ pos.hops < dev.data.length + env.nodes := fun h => by
        cases hsome.mpr h
      rw [itemData, List.getElem?_eq_none (by omega)] at hchunk
      simp [hchunk, Served, hlt]
  | some item =>
      simp only [hptr] at hr
      rw [hptr] at hsome
      have hlt := hsome.mp rfl
      -- the item reached has the array that the device has there
      have hdata : itemData dev.data pos.hops = item.data := by
        rw [← itemData_scullFollow env.nodes pos.hops, itemData, scullFollow_found hptr]
        rfl
      rw [hdata] at hchunk
      cases harr : item.data.or (kmallocArray dev.geometry.qset env.array) with
      | none =>
          simp only [harr] at hr
          cases hr
          rw [(Option.or_eq_none_iff.mp harr).1] at hchunk
          simp [hchunk, Served, hdata, harr]
      | some arr =>
          simp only [harr] at hr
          have harray := isArray_reached hptr harr
          have hiff : r.ret = -ENOMEM ↔
              chunks { dev with data := (scullFollow env.nodes pos.hops dev.data).2 }
                (pos.chunk dev.geometry) = none ∧
              kmallocQuantum dev.geometry.quantum env.heap = none :=
            writeArray_refused_iff hg hkept.shape hp hplace harray hr
          rw [hkept.chunks] at hiff
          simp [hiff, Served, hdata, harr, hlt]

/-- The same whatever the sizes of the device. -/
theorem write_refused_any (hints : dev.geometry.Ints) (hshape : Shape dev) (hp : 0 ≤ fPos)
    (hplace : place dev.geometry fPos = some pos)
    (hr : scullWrite dev.geometry buf fPos env dev = .ok r) :
    r.ret = -ENOMEM ↔ chunks dev (pos.chunk dev.geometry) = none ∧ ¬ Served dev pos env := by
  by_cases hg : dev.geometry.Valid
  · exact write_refused_iff hg hshape hp hplace hr
  · rcases place_ne_zero hplace with ⟨hq, hs⟩
    refine iff_of_true (write_unfit hints hshape hg hr).1 ⟨chunks_unfit hints hshape hg hq _, ?_⟩
    rintro ⟨_, harray, hquantum⟩
    have hqpos : 0 ≤ dev.geometry.quantum := by
      by_contra hneg
      rw [kmallocQuantum, if_neg hneg] at hquantum
      cases hquantum
    -- with a quantum to be had, there is no array
    have hsneg : dev.geometry.qset < 0 := by
      by_contra hpos
      exact hg (hints.valid (by omega) (by omega))
    rw [kmallocArray, if_neg (by omega), Option.or_none] at harray
    rcases Option.isSome_iff_exists.mp harray with ⟨arr, harr⟩
    have hlen := (hshape _ arr harr).1
    omega

/-! ## scull_read, exactly -/

/-- The count and the bytes that a transfer gives to its caller. -/
def answer (t : Except Trap Transfer) : Except Trap (ℤ × List UInt8) :=
  t.map fun r => (r.ret, r.data)

/-- What a `scull_read` gives from the quantum at its position, when the copy faults
after `fault` bytes. -/
def fromQuantum (g : Geometry) (pos : Place) (left count : ℕ) (fault : Option ℕ) :
    Option (List UInt8) → ℤ × List UInt8
  | none => (0, [])
  | some q =>
      let count := min (min count left) (room g pos)
      let data := (q.drop pos.qPos.toNat).take count
      match fault with
      | some k => (-EFAULT, data.take k)
      | none => (count, data)

/-- A position behind the end of the device. -/
theorem read_end {dev : ScullDev} {fPos : ℕ} (h : dev.size ≤ fPos) (g : Geometry) (count : ℕ)
    (env : Env) : scullRead g count fPos env dev = .ok ⟨0, fPos, [], dev⟩ := by
  rw [scullRead, if_pos (by omega)]
  rfl

/-- A position before it. -/
theorem read_answer {dev : ScullDev} {fPos : ℕ} (hg : dev.geometry.Valid) (hshape : Shape dev)
    (hlt : fPos < dev.size) (hplace : place dev.geometry fPos = some pos) (count : ℕ) (env : Env) :
    answer (scullRead dev.geometry count fPos env dev) =
      .ok (fromQuantum dev.geometry pos (dev.size - fPos) count env.fault
        (chunks dev (pos.chunk dev.geometry))) := by
  have hb := place_bounds hg (by omega) hplace
  have hkept := kept_follow hshape env.nodes pos.hops
  have hchunk : chunks dev (pos.chunk dev.geometry) = _ := chunks_at hb.1
  have hcount : (if (dev.size : ℤ) < fPos + count then ((dev.size : ℤ) - fPos).toNat else count) =
      min count (dev.size - fPos) := by
    split <;> omega
  rw [scullRead, if_neg (by omega)]
  simp only [hplace, hcount]
  cases hptr : (scullFollow env.nodes pos.hops dev.data).1.bind ScullQset.data with
  | none =>
      -- no array there, whether the list got that far or not
      have hnone : itemData dev.data pos.hops = none := by
        rw [← itemData_scullFollow env.nodes pos.hops]
        cases hfound : (scullFollow env.nodes pos.hops dev.data).1 with
        | some item =>
            rw [itemData, scullFollow_found hfound]
            rwa [hfound] at hptr
        | none =>
            have hsome := scullFollow_isSome env.nodes pos.hops dev.data
            rw [hfound] at hsome
            rw [itemData_scullFollow, itemData, List.getElem?_eq_none]
            · rfl
            · by_contra hlt
              cases hsome.mpr (by omega)
      rw [hchunk, hnone]
      rfl
  | some arr =>
      have hslot : slot arr pos.sPos = .ok (chunks dev (pos.chunk dev.geometry)) := by
        rw [← congrFun hkept.chunks]
        apply slot_chunk
        · exact hg
        · exact hkept.shape
        · exact hb.1
        · exact Or.inl (itemData_reached hptr)
      show answer (readArray _ _ _ _ _ _ _) = _
      unfold readArray
      rw [hslot, ok_bind]
      cases hq : chunks dev (pos.chunk dev.geometry) with
      | none => rfl
      | some q =>
          have hqlen := sized_chunks hshape _ q hq
          have hroom := room_eq hg hb.2
          have hfit : inQuantum q pos.qPos
              (min (min count (dev.size - fPos)) (room dev.geometry pos)) = .ok () := by
            rw [inQuantum, if_pos]
            constructor <;> omega
          simp only [hfit, ok_bind]
          cases hf : env.fault with
          | some k => rfl
          | none => rfl

/-! ## The states that can be reached -/

/-- Every parameter an `int`, every array and quantum of the size that the device says,
and nothing in a device with a size that is not positive. -/
structure Built (s : CallSys) : Prop where
  params : s.params.geometry.Ints
  dev : s.dev.geometry.Ints
  shape : Shape s.dev
  empty : s.dev.geometry.Valid ∨ s.dev.size = 0

namespace Calls

theorem built_init {p : Params} (hp : p.geometry.Ints) : Built (init p) :=
  ⟨hp, hp, shape_trim p ⟨[], p.geometry, 0⟩, Or.inr rfl⟩

/-- A transfer that keeps the sizes of the device, and its length where they are not
positive. -/
theorem built_transfer {s t : CallSys} (hi : Built s) (hparams : t.params = s.params)
    (hshape : Shape t.dev) (hgeometry : t.dev.geometry = s.dev.geometry)
    (hsize : ¬ s.dev.geometry.Valid → t.dev.size = s.dev.size) : Built t := by
  refine ⟨?_, ?_, hshape, ?_⟩
  · rw [hparams]
    exact hi.params
  · rw [hgeometry]
    exact hi.dev
  · rw [hgeometry]
    by_cases hg : s.dev.geometry.Valid
    · exact Or.inl hg
    · right
      rw [hsize hg]
      exact hi.empty.resolve_left hg

theorem built_kept {s t : CallSys} (hi : Built s) (hparams : t.params = s.params)
    (h : Kept s.dev t.dev) : Built t :=
  built_transfer hi hparams h.shape h.geometry fun _ => h.size

/-- A `scull_read` leaves the quanta alone. -/
theorem kept_read {s : CallSys} (hi : Built s) (fPos count : ℕ) (env : Env) :
    Kept s.dev (update s (.read fPos count env)).dev := by
  have hself : Kept s.dev s.dev := ⟨hi.shape, rfl, rfl, rfl⟩
  rcases hi.empty with hg | hsize
  · rcases read_cases count env hg hi.shape (Int.natCast_nonneg fPos) with h | ⟨r, hr, hout⟩
    · simp only [update, h]
      exact hself
    · simp only [update, hr]
      exact hout.kept
  · simp only [update, read_end (show s.dev.size ≤ fPos by omega)]
    exact hself

/-- The device that a `scull_write` leaves: the same quanta, or the quantum at the
position overwritten, which may be a new one. -/
inductive WriteLeft (dev : ScullDev) (fPos : ℕ) (buf : List UInt8) (env : Env) (dev' : ScullDev) :
    Prop where
  | kept (hkept : Kept dev dev')
  | stored (pos : Place) (q : List UInt8) (hg : dev.geometry.Valid)
      (hplace : place dev.geometry fPos = some pos)
      (hq : (chunks dev (pos.chunk dev.geometry)).or
        (kmallocQuantum dev.geometry.quantum env.heap) = some q)
      (hshape : Shape dev') (hgeometry : dev'.geometry = dev.geometry)
      (hchunks : chunks dev' = replace (chunks dev) (pos.chunk dev.geometry)
        (overwrite q pos.qPos.toNat (copied (buf.take (room dev.geometry pos)) env.fault)))

theorem write_left {s : CallSys} (hi : Built s) (fPos : ℕ) (buf : List UInt8) (env : Env) :
    WriteLeft s.dev fPos buf env (update s (.write fPos buf env)).dev := by
  cases hr : scullWrite s.dev.geometry buf fPos env s.dev with
  | error t =>
      simp only [update, hr]
      exact .kept ⟨hi.shape, rfl, rfl, rfl⟩
  | ok r =>
      simp only [update, hr]
      by_cases hg : s.dev.geometry.Valid
      · cases write_any hi.dev hi.shape (Int.natCast_nonneg fPos) hr with
        | refused hret hpos hkept => exact .kept hkept
        | stored pos q hplace hq hret hpos hshape hgeometry hsize hchunks =>
            exact .stored pos q hg hplace hq hshape hgeometry hchunks
      · exact .kept (write_unfit hi.dev hi.shape hg hr).2.2

@[simp] theorem transferred_params (s : CallSys) (t : Except Trap Transfer) :
    (transferred s t).params = s.params := by
  cases t with
  | error t => rfl
  | ok r => rfl

/-- A `scull_write` leaves the sizes alone. -/
theorem geometry_write {s : CallSys} (hi : Built s) (fPos : ℕ) (buf : List UInt8) (env : Env) :
    (update s (.write fPos buf env)).dev.geometry = s.dev.geometry := by
  cases write_left hi fPos buf env with
  | kept hkept => exact hkept.geometry
  | stored pos q hg hplace hq hshape hgeometry hchunks => exact hgeometry

theorem built_step {s : CallSys} (hi : Built s) (a : CallAct) : Built (update s a) := by
  cases a with
  | ioctl cmd arg user => exact ⟨scullIoctl_ints hi.params cmd arg user, hi.dev, hi.shape, hi.empty⟩
  | openFile wronly =>
      cases wronly with
      | true => exact ⟨hi.params, hi.params, shape_trim s.params s.dev, Or.inr rfl⟩
      | false => exact hi
  | read fPos count env =>
      exact built_kept hi (transferred_params s _) (kept_read hi fPos count env)
  | write fPos buf env =>
      cases write_left hi fPos buf env with
      | kept hkept => exact built_kept hi (transferred_params s _) hkept
      | stored pos q hg hplace hq hshape hgeometry hchunks =>
          apply built_transfer hi (transferred_params s _) hshape hgeometry
          exact absurd hg

theorem built_run {p : Params} (hp : p.geometry.Ints) {as : List CallAct} {s : CallSys}
    (hs : run step (init p) as = some s) : Built s := by
  refine run_invariant ?_ (built_init hp) hs
  intro s a s' hi h
  cases h
  exact built_step hi a

end Calls

end Scull
