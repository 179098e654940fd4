import DriversLab.ScullFamily.Quanta
import Mathlib.Algebra.Order.Group.Unbundled.Int
import Mathlib.Algebra.Order.Ring.Abs

/-!
# ScullFamily.Layout — what a transfer does to the quanta

The device as a table: quantum `s` of item `n`. A transfer extends the list of items up to
the one it goes to; a write may also give that item an array, and the array a quantum.

* `follow_eq_some`: what `scullp_follow` appends, and when it can;
* `ReadOut`, `WriteOut`: everything that `scullp_read` and `scullp_write` can do;
* `Straight`: consecutive positions lead to consecutive bytes;
* `byteAt`: the byte at a position of the device.

Nothing is assumed about the device. A transfer that is here at all has trapped nowhere.
-/

namespace ScullFamily

open CInt Scull Chunked

/-! ## The table of quanta -/

namespace Dev

/-- The pointer array of item `n`, if there is one. -/
def arrayAt (dev : Dev) (n : ℕ) : Option PtrArray := dev.items[n]?.bind Item.data

/-- `dptr->data[s]` of item `n`: NULL or the quantum. -/
def quantumAt (dev : Dev) (n s : ℕ) : Option (List UInt8) :=
  (dev.arrayAt n).bind fun arr => arr[s]?.join

/-- The device once item `n` has been appended, with the items in front of it. -/
def grown (dev : Dev) (n : ℕ) : Dev :=
  { dev with next := dev.next ++ List.replicate (n - dev.next.length) .cleared }

variable (dev : Dev) {n : ℕ}

theorem grown_of_le (h : n ≤ dev.next.length) : dev.grown n = dev := by
  rw [grown, Nat.sub_eq_zero_of_le h, List.replicate_zero, List.append_nil]

@[simp] theorem grown_head : (dev.grown n).head = dev.head := rfl

@[simp] theorem grown_qset : (dev.grown n).qset = dev.qset := rfl

@[simp] theorem grown_size : (dev.grown n).size = dev.size := rfl

@[simp] theorem grown_vmas : (dev.grown n).vmas = dev.vmas := rfl

@[simp] theorem grown_geometry (v : Variant) : (dev.grown n).geometry v = dev.geometry v := rfl

@[simp] theorem grown_length : (dev.grown n).next.length = max dev.next.length n := by
  simp only [grown, List.length_append, List.length_replicate]
  omega

/-- What has been appended is empty. -/
@[simp] theorem grown_arrayAt (m : ℕ) : (dev.grown n).arrayAt m = dev.arrayAt m := by
  have hitems : (dev.grown n).items =
      dev.items ++ List.replicate (n - dev.next.length) .cleared := rfl
  unfold arrayAt
  rw [hitems]
  by_cases hm : m < dev.items.length
  · rw [List.getElem?_append_left hm]
  · rw [List.getElem?_append_right (by omega), List.getElem?_eq_none (by omega : _ ≤ m),
      List.getElem?_replicate]
    split
    · rfl
    · rfl

@[simp] theorem grown_quantumAt (m s : ℕ) : (dev.grown n).quantumAt m s = dev.quantumAt m s := by
  rw [quantumAt, grown_arrayAt, quantumAt]

theorem setData_arrayAt {arr : PtrArray} (h : n < dev.items.length) (m : ℕ) :
    (dev.setData arr n).arrayAt m = if m = n then some arr else dev.arrayAt m := by
  unfold arrayAt
  rw [setData_items, List.getElem?_modify]
  by_cases hm : m = n
  · rw [if_pos hm, hm, List.getElem?_eq_getElem h]
    simp
  · rw [if_neg hm]
    cases dev.items[m]? with
    | none => rfl
    | some item => simp [Ne.symm hm]

theorem setData_length (arr : PtrArray) (n : ℕ) :
    (dev.setData arr n).next.length = dev.next.length := by
  cases n with
  | zero => rfl
  | succ n => exact List.length_modify _ _ _

@[simp] theorem setData_size (arr : PtrArray) (n : ℕ) : (dev.setData arr n).size = dev.size := by
  cases n <;> rfl

/-- An array takes the place of the one before. -/
theorem setData_setData (arr arr' : PtrArray) (n : ℕ) :
    (dev.setData arr n).setData arr' n = dev.setData arr' n := by
  cases n with
  | zero => rfl
  | succ n => simp [setData, List.modify_modify_eq, Function.comp_def]

@[simp] theorem setData_geometry (v : Variant) (arr : PtrArray) (n : ℕ) :
    (dev.setData arr n).geometry v = dev.geometry v := by
  rw [geometry, setData_unit, setData_qset, geometry]

/-- The table once item `n` has been given an array. -/
theorem setData_quantumAt {arr : PtrArray} (h : n < dev.items.length) (m s : ℕ) :
    (dev.setData arr n).quantumAt m s =
      if m = n then arr[s]?.join else dev.quantumAt m s := by
  rw [quantumAt, setData_arrayAt dev h]
  split
  · rfl
  · rfl

/-- An item that had no array has no quantum, nor has the array that it is given. -/
theorem or_kmallocArray_join {qset : ℤ} {served : Bool} {arr : PtrArray}
    (h : (dev.arrayAt n).or (kmallocArray qset served) = some arr) (s : ℕ) :
    arr[s]?.join = dev.quantumAt n s := by
  unfold quantumAt
  rcases Option.or_eq_some_iff.mp h with hold | ⟨hnone, hnew⟩
  · rw [hold]
    rfl
  · rw [hnone]
    unfold kmallocArray at hnew
    split at hnew
    · cases hnew
      rw [List.getElem?_replicate]
      split
      · rfl
      · rfl
    · cases hnew

theorem grown_lt : n < (dev.grown n).items.length := by
  simp only [items, List.length_cons, grown_length]
  omega

/-- An item keeps its quanta if it is given an array. -/
theorem grown_setData_quantumAt {qset : ℤ} {served : Bool} {arr : PtrArray}
    (h : (dev.arrayAt n).or (kmallocArray qset served) = some arr) (m s : ℕ) :
    ((dev.grown n).setData arr n).quantumAt m s = dev.quantumAt m s := by
  rw [setData_quantumAt _ (grown_lt dev), grown_quantumAt]
  split
  · rename_i hm
    rw [hm, or_kmallocArray_join dev h]
  · rfl

/-- What a quantum that is stored changes. -/
theorem grown_set_quantumAt {qset : ℤ} {served : Bool} {arr : PtrArray}
    (h : (dev.arrayAt n).or (kmallocArray qset served) = some arr) {i : ℕ} (hi : i < arr.length)
    (q : List UInt8) (m s : ℕ) :
    ((dev.grown n).setData (arr.set i (some q)) n).quantumAt m s =
      if m = n ∧ s = i then some q else dev.quantumAt m s := by
  rw [setData_quantumAt _ (grown_lt dev), grown_quantumAt]
  by_cases hm : m = n
  · rw [if_pos hm, List.getElem?_set]
    by_cases hs : s = i
    · rw [if_pos hs.symm, if_pos (hs ▸ hi), if_pos ⟨hm, hs⟩]
      rfl
    · rw [if_neg (Ne.symm hs), if_neg (fun hand => hs hand.2), hm, or_kmallocArray_join dev h]
  · rw [if_neg hm, if_neg (fun hand => hm hand.1)]

/-- The items behind the first one have been cleared when they were appended. -/
theorem grown_cleared (h : ∀ item ∈ dev.next, item.unit = 0) :
    ∀ item ∈ (dev.grown n).next, item.unit = 0 := by
  intro item hitem
  rcases List.mem_append.mp hitem with hold | hnew
  · exact h item hold
  · rw [List.eq_of_mem_replicate hnew]
    rfl

theorem setData_cleared (h : ∀ item ∈ dev.next, item.unit = 0) (arr : PtrArray) (n : ℕ) :
    ∀ item ∈ (dev.setData arr n).next, item.unit = 0 := by
  intro item hitem
  obtain ⟨old, hold, hunit⟩ := setData_next dev arr n hitem
  rw [hunit]
  exact h old hold

end Dev

/-! ## The walk -/

/-- `scullp_follow` appends what is missing, and nothing else. -/
theorem follow_eq_some {nodes n : ℕ} {next next' : List Item} :
    follow nodes n next = some next' ↔
      n ≤ next.length + nodes ∧ next' = next ++ List.replicate (n - next.length) .cleared := by
  induction nodes, n, next using follow.induct generalizing next' with
  | case1 nodes next => simp [follow, eq_comm]
  | case2 nodes n item next ih =>
      simp only [follow, Option.map_eq_some_iff, ih, List.length_cons, Nat.succ_eq_add_one,
        Nat.add_sub_add_right]
      constructor
      · rintro ⟨rest, ⟨hle, rfl⟩, rfl⟩
        exact ⟨by omega, rfl⟩
      · rintro ⟨hle, rfl⟩
        exact ⟨_, ⟨by omega, rfl⟩, rfl⟩
  | case3 n => simp [follow]
  | case4 nodes n ih =>
      simp only [follow, Option.map_eq_some_iff, ih, List.length_nil, Nat.sub_zero]
      constructor
      · rintro ⟨rest, ⟨hle, rfl⟩, rfl⟩
        exact ⟨by omega, rfl⟩
      · rintro ⟨hle, rfl⟩
        exact ⟨_, ⟨by omega, rfl⟩, rfl⟩

section Arrive

variable {v : Variant} {fPos : ℤ} {env : Env} {dev : Dev} {pos : Place} {at' : Arrival}

/-- The walk reaches its item if what is missing can be appended. -/
theorem arrive_iff : arrive v fPos env dev = .ok at' ↔
    place (dev.geometry v) fPos = some at'.pos ∧ at'.pos.hops ≤ dev.next.length + env.nodes ∧
      at'.dev = dev.grown at'.pos.hops ∧ at'.dev.items[at'.pos.hops]? = some at'.item := by
  unfold arrive
  cases hplace : place (dev.geometry v) fPos with
  | none => simp
  | some pos =>
      simp only
      cases hfollow : follow env.nodes pos.hops dev.next with
      | none =>
          refine ⟨nofun, ?_⟩
          rintro ⟨hpos, hle, _, _⟩
          cases hpos
          rw [follow_eq_some.mpr ⟨hle, rfl⟩] at hfollow
          cases hfollow
      | some next =>
          obtain ⟨hle, hnext⟩ := follow_eq_some.mp hfollow
          have hgrown : { dev with next := next } = dev.grown pos.hops := by rw [hnext]; rfl
          simp only [hgrown]
          have hlt := dev.grown_lt (n := pos.hops)
          rw [List.getElem?_eq_getElem hlt]
          obtain ⟨pos', item, dev'⟩ := at'
          constructor
          · intro h
            cases h
            exact ⟨rfl, hle, rfl, List.getElem?_eq_getElem hlt⟩
          · rintro ⟨hpos, _, hdev, hitem⟩
            simp only at hpos hdev hitem
            cases hpos
            cases hdev
            rw [List.getElem?_eq_getElem hlt, Option.some.injEq] at hitem
            rw [hitem]

theorem arrive_exists (hplace : place (dev.geometry v) fPos = some pos)
    (hle : pos.hops ≤ dev.next.length + env.nodes) :
    ∃ at', arrive v fPos env dev = .ok at' ∧ at'.pos = pos := by
  have hlt := dev.grown_lt (n := pos.hops)
  exact ⟨⟨pos, _, dev.grown pos.hops⟩,
    arrive_iff.mpr ⟨hplace, hle, rfl, List.getElem?_eq_getElem hlt⟩, rfl⟩

/-- The array of the item that has been reached. -/
theorem arrive_data (h : arrive v fPos env dev = .ok at') :
    at'.item.data = dev.arrayAt at'.pos.hops := by
  obtain ⟨_, _, hdev, hitem⟩ := arrive_iff.mp h
  rw [← Dev.grown_arrayAt dev (n := at'.pos.hops), ← hdev, Dev.arrayAt, hitem]
  rfl

end Arrive

/-! ## Reading -/

section Read

variable {v : Variant} {count : ℕ} {fPos : ℤ} {env : Env} {dev : Dev} {r : Result}

/-- How many bytes a read of `count` bytes at `fPos` asks for, in a quantum of which it has
reached `pos`. -/
def readCount (v : Variant) (dev : Dev) (count : ℕ) (fPos : ℤ) (pos : Place) : ℕ :=
  min (min count (dev.size - fPos).toNat) (room (dev.geometry v) pos)

/-- What a read of the quantum `q` returns. -/
def readResult (env : Env) (fPos : ℤ) (pos : Place) (n : ℕ) (q : List UInt8) (dev : Dev) : Result :=
  match env.fault with
  | some k => ⟨-EFAULT, fPos, ((q.drop pos.qPos.toNat).take n).take k, dev⟩
  | none => ⟨n, fPos + n, (q.drop pos.qPos.toNat).take n, dev⟩

/-- A read is behind the end, or finds no quantum, or copies out of one. -/
inductive ReadOut (v : Variant) (count : ℕ) (fPos : ℤ) (env : Env) (dev : Dev) (r : Result) :
    Prop where
  | beyond (hsize : dev.size < fPos) (hr : r = ⟨0, fPos, [], dev⟩)
  | hole (pos : Place) (hsize : fPos ≤ dev.size) (hplace : place (dev.geometry v) fPos = some pos)
      (hnodes : pos.hops ≤ dev.next.length + env.nodes)
      (hq : dev.quantumAt pos.hops pos.sPos.toNat = none)
      (hr : r = ⟨0, fPos, [], dev.grown pos.hops⟩)
  | copied (pos : Place) (q : List UInt8) (hsize : fPos ≤ dev.size)
      (hplace : place (dev.geometry v) fPos = some pos)
      (hnodes : pos.hops ≤ dev.next.length + env.nodes)
      (hq : dev.quantumAt pos.hops pos.sPos.toNat = some q)
      (hin : 0 ≤ pos.qPos ∧ pos.qPos + readCount v dev count fPos pos ≤ q.length)
      (hr : r = readResult env fPos pos (readCount v dev count fPos pos) q (dev.grown pos.hops))

/-- What `arr[i]` yields is entry `i`. -/
theorem slot_ok {α : Type} {arr : List α} {i : ℤ} {x : α} (h : slot arr i = .ok x) :
    arr[i.toNat]? = some x := by
  unfold slot at h
  split at h
  · cases hat : arr[i.toNat]? with
    | none =>
        rw [hat] at h
        cases h
    | some y =>
        rw [hat] at h
        cases h
        rfl
  · cases h

theorem inQuantum_ok {q : List UInt8} {qPos : ℤ} {n : ℕ} {u : Unit}
    (h : inQuantum q qPos n = .ok u) :
    0 ≤ qPos ∧ qPos + n ≤ q.length := by
  unfold inQuantum at h
  split at h
  · assumption
  · cases h

/-- A step that may trap, and has not. -/
theorem mapError_bind_ok {α β : Type} {x : Except Trap α} {f : α → Except Oops β} {b : β}
    (h : (x.mapError Oops.trap >>= f) = .ok b) : ∃ a, x = .ok a ∧ f a = .ok b := by
  cases x with
  | error e => cases h
  | ok a => exact ⟨a, rfl, h⟩

theorem arrive_bind_ok {β : Type} {f : Arrival → Except Oops β} {b : β}
    (h : (arrive v fPos env dev >>= f) = .ok b) :
    ∃ at', arrive v fPos env dev = .ok at' ∧ f at' = .ok b := by
  cases hat : arrive v fPos env dev with
  | error e =>
      rw [hat] at h
      cases h
  | ok at' =>
      rw [hat] at h
      exact ⟨at', rfl, h⟩

theorem readOut_of_ok (h : read v count fPos env dev = .ok r) : ReadOut v count fPos env dev r := by
  unfold read at h
  split at h
  · rename_i hsize
    cases h
    exact .beyond hsize rfl
  · rename_i hsize
    have hle : fPos ≤ dev.size := not_lt.mp hsize
    obtain ⟨at', hat, h⟩ := arrive_bind_ok h
    obtain ⟨hplace, hnodes, hdev, _⟩ := arrive_iff.mp hat
    have hdata := arrive_data hat
    have hcount : (if (dev.size : ℤ) < fPos + count then (dev.size - fPos).toNat else count) =
        min count (dev.size - fPos).toNat := by
      split
      · omega
      · omega
    cases hnone : at'.item.data with
    | none =>
        simp only [hnone] at h
        cases h
        rw [hdev]
        refine .hole at'.pos hle hplace hnodes ?_ rfl
        rw [Dev.quantumAt, ← hdata, hnone, Option.bind_none]
    | some arr =>
        simp only [hnone, hcount] at h
        unfold readArray at h
        obtain ⟨x, hslot, h⟩ := mapError_bind_ok h
        have hquantum : dev.quantumAt at'.pos.hops at'.pos.sPos.toNat = x := by
          rw [Dev.quantumAt, ← hdata, hnone, Option.bind_some, slot_ok hslot]
          rfl
        cases x with
        | none =>
            cases h
            rw [hdev]
            exact .hole at'.pos hle hplace hnodes hquantum rfl
        | some q =>
            obtain ⟨u, hin, h⟩ := mapError_bind_ok h
            refine .copied at'.pos q hle hplace hnodes hquantum (inQuantum_ok hin) ?_
            unfold readResult readCount
            cases hf : env.fault with
            | none =>
                simp only [hf] at h
                cases h
                rw [hdev]
            | some k =>
                simp only [hf] at h
                cases h
                rw [hdev]

/-- What is in the table is in the list. -/
theorem lt_of_quantumAt {n k : ℕ} {q : List UInt8} (h : dev.quantumAt n k = some q) :
    n ≤ dev.next.length := by
  obtain ⟨arr, harr, _⟩ := Option.bind_eq_some_iff.mp h
  obtain ⟨item, hitem, _⟩ := Option.bind_eq_some_iff.mp harr
  have hlt := (List.getElem?_eq_some_iff.mp hitem).1
  simp only [Dev.items, List.length_cons] at hlt
  omega

/-- A read copies out of the quantum that its place leads to. -/
theorem read_ok {pos : Place} {q : List UInt8} (hsize : fPos ≤ dev.size)
    (hplace : place (dev.geometry v) fPos = some pos) (hrow : 0 ≤ pos.sPos)
    (hq : dev.quantumAt pos.hops pos.sPos.toNat = some q)
    (hin : 0 ≤ pos.qPos ∧ pos.qPos + readCount v dev count fPos pos ≤ q.length) :
    read v count fPos env dev =
      .ok (readResult env fPos pos (readCount v dev count fPos pos) q dev) := by
  have hlt := lt_of_quantumAt hq
  obtain ⟨at', hat, rfl⟩ : ∃ at', arrive v fPos env dev = .ok at' ∧ at'.pos = pos :=
    arrive_exists hplace (by omega)
  have hdev := (arrive_iff.mp hat).2.2.1
  rw [Dev.grown_of_le dev hlt] at hdev
  obtain ⟨arr, harr, hslot⟩ := Option.bind_eq_some_iff.mp hq
  have hslot' : slot arr at'.pos.sPos = .ok (some q) := by
    rw [slot, if_pos hrow, Option.join_eq_some_iff.mp hslot]
  have hcount : (if (dev.size : ℤ) < fPos + count then (dev.size - fPos).toNat else count) =
      min count (dev.size - fPos).toNat := by
    split
    · omega
    · omega
  unfold read
  rw [if_neg (not_lt.mpr hsize), hat, hcount]
  simp only [ok_bind, arrive_data hat, harr, hdev]
  unfold readArray
  have hcopy : inQuantum q at'.pos.qPos (readCount v dev count fPos at'.pos) = .ok () := if_pos hin
  unfold readCount at hcopy ⊢
  simp only [hslot', Except.mapError, ok_bind, hcopy]
  unfold readResult
  cases env.fault with
  | none => rfl
  | some k => rfl

end Read

/-! ## Writing -/

section Write

variable {v : Variant} {p : Params} {buf : List UInt8} {fPos : ℤ} {env : Env} {dev : Dev}
  {r : Result}

/-- What a write into the quantum `q` of the array `arr` returns. -/
def writeResult (v : Variant) (buf : List UInt8) (fPos : ℤ) (env : Env) (pos : Place)
    (arr : PtrArray) (q : List UInt8) (dev : Dev) : Result :=
  let data := buf.take (room (dev.geometry v) pos)
  let q := overwrite q pos.qPos.toNat (copied data env.fault)
  let dev := dev.setData (arr.set pos.sPos.toNat (some q)) pos.hops
  if env.fault.isSome then ⟨-EFAULT, fPos, [], dev⟩
  else
    let fPos := fPos + data.length
    ⟨data.length, fPos, [], { dev with size := if dev.size < fPos then fPos.toNat else dev.size }⟩

/-- A write finds no memory, and may have given its item an array; or it writes into a
quantum, which may be a new one. -/
inductive WriteOut (v : Variant) (p : Params) (buf : List UInt8) (fPos : ℤ) (env : Env) (dev : Dev)
    (r : Result) : Prop where
  | refused (pos : Place) (hplace : place (dev.geometry v) fPos = some pos)
      (hnodes : pos.hops ≤ dev.next.length + env.nodes)
      (hdev : r = ⟨-ENOMEM, fPos, [], dev.grown pos.hops⟩ ∨
        ∃ arr, (dev.arrayAt pos.hops).or (kmallocArray dev.qset env.array) = some arr ∧
          r = ⟨-ENOMEM, fPos, [], (dev.grown pos.hops).setData arr pos.hops⟩)
  | stored (pos : Place) (item : Item) (arr : PtrArray) (q : List UInt8)
      (hplace : place (dev.geometry v) fPos = some pos)
      (hnodes : pos.hops ≤ dev.next.length + env.nodes)
      (hitem : (dev.grown pos.hops).items[pos.hops]? = some item)
      (harr : (dev.arrayAt pos.hops).or (kmallocArray dev.qset env.array) = some arr)
      (hq : arr[pos.sPos.toNat]? = some (some q) ∨
        arr[pos.sPos.toNat]? = some none ∧ allocQuantum v p item env = .ok (some q))
      (hin : 0 ≤ pos.qPos ∧ pos.qPos + (buf.take (room (dev.geometry v) pos)).length ≤ q.length)
      (hr : r = writeResult v buf fPos env pos arr q (dev.grown pos.hops))

/-- The bytes of the quantum that a write leaves. -/
def stored (v : Variant) (dev : Dev) (buf : List UInt8) (env : Env) (pos : Place)
    (q : List UInt8) : List UInt8 :=
  overwrite q pos.qPos.toNat (copied (buf.take (room (dev.geometry v) pos)) env.fault)

theorem stored_length {pos : Place} {q : List UInt8}
    (hin : 0 ≤ pos.qPos ∧ pos.qPos + (buf.take (room (dev.geometry v) pos)).length ≤ q.length) :
    (stored v dev buf env pos q).length = q.length := by
  apply overwrite_length
  rw [copied_length]
  omega

theorem writeResult_quantumAt {pos : Place} {arr : PtrArray}
    (harr : (dev.arrayAt pos.hops).or (kmallocArray dev.qset env.array) = some arr)
    (hlt : pos.sPos.toNat < arr.length) (q : List UInt8) (m s : ℕ) :
    (writeResult v buf fPos env pos arr q (dev.grown pos.hops)).dev.quantumAt m s =
      if m = pos.hops ∧ s = pos.sPos.toNat then some (stored v dev buf env pos q)
      else dev.quantumAt m s := by
  rw [← Dev.grown_set_quantumAt dev harr hlt]
  unfold writeResult
  simp only [Dev.grown_geometry]
  split
  · rfl
  · rfl

theorem writeResult_length (pos : Place) (arr : PtrArray) (q : List UInt8) (dev' : Dev) :
    (writeResult v buf fPos env pos arr q dev').dev.next.length = dev'.next.length := by
  unfold writeResult
  simp only
  split
  · exact Dev.setData_length dev' _ _
  · exact Dev.setData_length dev' _ _

/-- The device ends no further than the bytes that have been written. -/
theorem writeResult_size_le (fPos : ℕ) (pos : Place) (arr : PtrArray) (q : List UInt8)
    (dev' : Dev) :
    (writeResult v buf fPos env pos arr q dev').dev.size ≤
      max dev'.size (fPos + room (dev'.geometry v) pos) := by
  have hcount := List.length_take_le (room (dev'.geometry v) pos) buf
  unfold writeResult
  simp only
  split
  · rw [Dev.setData_size]
    exact le_max_left _ _
  · simp only [Dev.setData_size]
    split
    · omega
    · exact le_max_left _ _

theorem writeQuantum_ok {pos : Place} {arr : PtrArray} {q : List UInt8} {dev' : Dev}
    (hg : dev'.geometry v = dev.geometry v)
    (h : writeQuantum (dev.geometry v) buf fPos env pos arr q (dev'.setData arr pos.hops) = .ok r) :
    (0 ≤ pos.qPos ∧ pos.qPos + (buf.take (room (dev.geometry v) pos)).length ≤ q.length) ∧
      r = writeResult v buf fPos env pos arr q dev' := by
  unfold writeQuantum at h
  obtain ⟨u, hin, h⟩ := mapError_bind_ok h
  refine ⟨inQuantum_ok hin, ?_⟩
  unfold writeResult
  rw [hg]
  simp only [Dev.setData_setData] at h ⊢
  split at h
  · rename_i hf
    cases h
    rw [if_pos hf]
  · rename_i hf
    cases h
    rw [if_neg hf]

theorem writeOut_of_ok (h : write v p buf fPos env dev = .ok r) :
    WriteOut v p buf fPos env dev r := by
  unfold write at h
  obtain ⟨at', hat, h⟩ := arrive_bind_ok h
  obtain ⟨hplace, hnodes, hdev, hitem⟩ := arrive_iff.mp hat
  rw [arrive_data hat] at h
  rw [hdev] at h hitem
  cases harr : (dev.arrayAt at'.pos.hops).or (kmallocArray dev.qset env.array) with
  | none =>
      simp only [harr] at h
      cases h
      exact .refused at'.pos hplace hnodes (Or.inl rfl)
  | some arr =>
      simp only [harr] at h
      obtain ⟨x, hslot, h⟩ := mapError_bind_ok h
      have hat' := slot_ok hslot
      cases x with
      | some q =>
          obtain ⟨hin, hr⟩ := writeQuantum_ok (Dev.grown_geometry dev v) h
          exact .stored at'.pos at'.item arr q hplace hnodes hitem harr (Or.inl hat') hin hr
      | none =>
          simp only at h
          cases halloc : allocQuantum v p at'.item env with
          | error e =>
              rw [halloc] at h
              cases h
          | ok x =>
              rw [halloc, ok_bind] at h
              cases x with
              | none =>
                  cases h
                  exact .refused at'.pos hplace hnodes (Or.inr ⟨arr, harr, rfl⟩)
              | some q =>
                  obtain ⟨hin, hr⟩ := writeQuantum_ok (Dev.grown_geometry dev v) h
                  exact .stored at'.pos at'.item arr q hplace hnodes hitem harr
                    (Or.inr ⟨hat', halloc⟩) hin hr

end Write

/-! ## Positions -/

/-- The size of a quantum divides the size of an item, as far as an `int` holds it. -/
structure Aligned (g : Geometry) : Prop where
  quantumPos : 0 < g.quantum
  dvd : g.quantum ∣ toInt (g.quantum * g.qset)

section Positions

variable {v : Variant} {dev : Dev} {g : Geometry} {fPos : ℤ} {pos : Place}

/-- A remainder and what lies behind it up to the next multiple of `q`. -/
theorem div_mod_add {p m q : ℤ} {i : ℕ} (hm : m ≠ 0) (hq : 0 < q) (hdvd : q ∣ m)
    (hi : p % m % q + i < q) : (p + i) / m = p / m ∧ (p + i) % m = p % m + i := by
  have hrest := Int.emod_nonneg p hm
  have hlt := Int.emod_lt_abs p hm
  have habs : q ∣ |m| := (dvd_abs q m).mpr hdvd
  -- the remainder and `i` do not reach the next multiple of `m`
  have hin : p % m + i < |m| := by
    obtain ⟨c, hc⟩ := habs
    have hsplit := Int.mul_ediv_add_emod (p % m) q
    have hrow : p % m / q < c := by
      apply Int.ediv_lt_of_lt_mul hq
      rw [Int.mul_comm, ← hc]
      exact hlt
    have hnext : q * (p % m / q + 1) ≤ q * c := Int.mul_le_mul_of_nonneg_left (by omega) hq.le
    rw [Int.mul_add, Int.mul_one] at hnext
    omega
  have hp : p + i = p % m + i + m * (p / m) := by
    have := Int.mul_ediv_add_emod p m
    omega
  constructor
  · rw [hp, Int.add_mul_ediv_left _ _ hm, Int.ediv_eq_zero_of_lt_abs (by omega) hin, Int.zero_add]
  · rw [hp, Int.add_mul_emod_self_left, ← Int.emod_abs, Int.emod_eq_of_lt (by omega) hin]

theorem place_lt (hg : Aligned g) (h : place g fPos = some pos) : pos.qPos < g.quantum := by
  unfold place at h
  simp only at h
  split at h
  · cases h
  · cases h
    exact Int.tmod_lt_of_pos _ hg.quantumPos

/-- The place in the quantum is what is left of the position. -/
theorem place_col (hg : Aligned g) (hp : 0 ≤ fPos) (h : place g fPos = some pos) :
    pos.qPos = fPos % g.quantum := by
  obtain ⟨hq, hdvd⟩ := hg
  have hint := toInt_range (g.quantum * g.qset)
  unfold place at h
  simp only at h
  split at h
  · cases h
  · rename_i hzero
    cases h
    generalize toInt (g.quantum * g.qset) = itemsize at hdvd hint hzero
    have hlt := Int.emod_lt_abs fPos hzero
    have hnonneg := Int.emod_nonneg fPos hzero
    have habs : |itemsize| ≤ 2 ^ 31 := abs_le.mpr ⟨hint.1, hint.2.le⟩
    have hrest : toInt (fPos % itemsize) = fPos % itemsize :=
      toInt_of_range (by omega) (by omega)
    simp only [Int.tmod_eq_emod_of_nonneg hp, hrest, Int.tmod_eq_emod_of_nonneg hnonneg]
    exact Int.emod_emod_of_dvd _ hdvd

/-- The position `i` bytes further on in the same quantum. -/
theorem place_advance (hg : Aligned g) (hp : 0 ≤ fPos) (h : place g fPos = some pos) :
    0 ≤ pos.sPos ∧ 0 ≤ pos.qPos ∧ ∀ i : ℕ, pos.qPos + i < g.quantum →
      place g (fPos + i) = some ⟨pos.item, pos.sPos, pos.qPos + i⟩ := by
  obtain ⟨hq, hdvd⟩ := hg
  have hint := toInt_range (g.quantum * g.qset)
  unfold place at h ⊢
  simp only at h ⊢
  split at h
  · cases h
  · rename_i hzero
    cases h
    generalize toInt (g.quantum * g.qset) = itemsize at hdvd hint hzero
    have hlt := Int.emod_lt_abs fPos hzero
    have hnonneg := Int.emod_nonneg fPos hzero
    have habs : |itemsize| ≤ 2 ^ 31 := abs_le.mpr ⟨hint.1, hint.2.le⟩
    have hrest : toInt (fPos % itemsize) = fPos % itemsize :=
      toInt_of_range (by omega) (by omega)
    rw [Int.tmod_eq_emod_of_nonneg hp, hrest, Int.tmod_eq_emod_of_nonneg hnonneg]
    refine ⟨Int.tdiv_nonneg hnonneg hq.le, Int.emod_nonneg _ hq.ne', ?_⟩
    intro i hi
    obtain ⟨hdiv, hmod⟩ := div_mod_add hzero hq hdvd hi
    have hrow : (fPos % itemsize + i) / g.quantum = fPos % itemsize / g.quantum ∧
        (fPos % itemsize + i) % g.quantum = fPos % itemsize % g.quantum + i := by
      have hself : fPos % itemsize % g.quantum % g.quantum + i < g.quantum := by
        rwa [Int.emod_emod_of_dvd _ (dvd_refl g.quantum)]
      exact div_mod_add hq.ne' hq (dvd_refl g.quantum) hself
    have hlt' := Int.emod_lt_abs (fPos + i) hzero
    have hrest' : toInt ((fPos + i) % itemsize) = fPos % itemsize + i := by
      rw [hmod] at hlt' ⊢
      exact toInt_of_range (by omega) (by omega)
    rw [if_neg hzero, Int.tmod_eq_emod_of_nonneg (by omega : 0 ≤ fPos + (i : ℤ)), hrest',
      Int.tdiv_eq_ediv_of_nonneg (by omega : 0 ≤ fPos + (i : ℤ)), hdiv,
      Int.tdiv_eq_ediv_of_nonneg (by omega : 0 ≤ fPos % itemsize + (i : ℤ)), hrow.1,
      Int.tmod_eq_emod_of_nonneg (by omega : 0 ≤ fPos % itemsize + (i : ℤ)), hrow.2,
      Int.tdiv_eq_ediv_of_nonneg hp, Int.tdiv_eq_ediv_of_nonneg hnonneg]

/-- Behind a position come the positions of the other bytes of its quantum, as far as the
quantum goes and holds no more than `limit` bytes. -/
def Straight (g : Geometry) (limit : ℤ) : Prop :=
  ∀ fPos pos, 0 ≤ fPos → place g fPos = some pos → 0 ≤ pos.sPos ∧ 0 ≤ pos.qPos ∧
    ∀ i : ℕ, i < room g pos → pos.qPos + i < limit →
      place g (fPos + i) = some ⟨pos.item, pos.sPos, pos.qPos + i⟩

theorem straight_of_aligned (hg : Aligned g) (hlong : g.quantum < 2 ^ 63) (limit : ℤ) :
    Straight g limit := by
  intro fPos pos hp hplace
  obtain ⟨hrow, hnonneg, hnext⟩ := place_advance hg hp hplace
  refine ⟨hrow, hnonneg, ?_⟩
  intro i hi _
  refine hnext i ?_
  have hlt := place_lt hg hplace
  unfold room toULong at hi
  omega

/-- The walk and the index in the array tell the places apart. -/
theorem place_row {limit : ℤ} (hg : Straight g limit) {x y : ℤ} {a b : Place} (hx : 0 ≤ x)
    (hy : 0 ≤ y) (ha : place g x = some a) (hb : place g y = some b) (hhops : a.hops = b.hops)
    (hslot : a.sPos.toNat = b.sPos.toNat) : a.item = b.item ∧ a.sPos = b.sPos := by
  have hrow := (hg x a hx ha).1
  have hrow' := (hg y b hy hb).1
  have hitem : ∀ {z c}, place g z = some c → ∃ k, c.item = toInt k := by
    intro z c hc
    unfold place at hc
    simp only at hc
    split at hc
    · cases hc
    · cases hc
      exact ⟨_, rfl⟩
  obtain ⟨k, hk⟩ := hitem ha
  obtain ⟨k', hk'⟩ := hitem hb
  have hint := toInt_range k
  have hint' := toInt_range k'
  unfold Place.hops toUInt at hhops
  constructor
  · omega
  · omega

/-- The byte at a position of the device. -/
def byteAt (v : Variant) (dev : Dev) (fPos : ℤ) : Option UInt8 :=
  (place (dev.geometry v) fPos).bind fun pos =>
    (dev.quantumAt pos.hops pos.sPos.toNat).bind fun q => q[pos.qPos.toNat]?

/-- The bytes of a quantum are those of the positions behind the one that leads to it. -/
theorem byteAt_advance {limit : ℤ} (hg : Straight (dev.geometry v) limit) (hp : 0 ≤ fPos)
    (hplace : place (dev.geometry v) fPos = some pos) {q : List UInt8}
    (hq : dev.quantumAt pos.hops pos.sPos.toNat = some q) {i : ℕ}
    (hroom : i < room (dev.geometry v) pos) (hi : pos.qPos + i < limit) :
    byteAt v dev (fPos + i) = (q.drop pos.qPos.toNat)[i]? := by
  obtain ⟨_, hnonneg, hnext⟩ := hg fPos pos hp hplace
  have hhops : (⟨pos.item, pos.sPos, pos.qPos + i⟩ : Place).hops = pos.hops := rfl
  have hcol : (pos.qPos + i).toNat = pos.qPos.toNat + i := by omega
  rw [byteAt, hnext i hroom hi, Option.bind_some, hhops, hq, Option.bind_some, List.getElem?_drop,
    hcol]

end Positions

end ScullFamily
