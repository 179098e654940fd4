import DriversLab.ScullFamily.Main
import DriversLab.Scull.Layout
import DriversLab.Lib.Lts
import DriversLab.Lib.Table

/-!
# ScullFamily.Quanta — how large a quantum has to be

A transfer takes every quantum of its device for `quantum` bytes long, a size that it
reads from the first item. What the allocator was asked for, and what `memset` cleared,
came from elsewhere.

* `Roomy`: every quantum of a device, in whichever item, has that many bytes;
* `Inside`: a transfer leaves no pointer array and no allocation;
* `read_inside`: a read of a roomy device is inside;
* `write_cases`: so is a write, unless it allocates a quantum (`Fills`) that is too small
  for a transfer or for `memset` (`Fits`); that one does harm.
-/

namespace ScullFamily

open CInt Scull Lts

/-- An access outside an array or an allocation. -/
def Oops.outside : Oops → Bool
  | .trap .array | .trap .quantum | .clear => true
  | .trap .divide | .null => false

def Inside (r : Except Oops Result) : Prop := ∀ e, r = .error e → e.outside = false

/-- Every quantum that can be reached from the device is as large as a transfer takes it
for. -/
def Roomy (v : Variant) (dev : Dev) : Prop :=
  ∀ item ∈ dev.items, ∀ arr, item.data = some arr → ∀ q, some q ∈ arr →
    v.quantum dev.head.unit ≤ q.length

/-- A pointer array of the device. -/
def ArrayOk (v : Variant) (dev : Dev) (arr : PtrArray) : Prop :=
  (arr.length : ℤ) = dev.qset ∧ ∀ q, some q ∈ arr → v.quantum dev.head.unit ≤ q.length

structure Shape (v : Variant) (dev : Dev) : Prop where
  geometry : (dev.geometry v).Valid
  arrays : ∀ item ∈ dev.items, ∀ arr, item.data = some arr → ArrayOk v dev arr
  cleared : ∀ item ∈ dev.next, item.unit = 0

theorem Shape.roomy {v : Variant} {dev : Dev} (h : Shape v dev) : Roomy v dev :=
  fun item hitem arr harr => (h.arrays item hitem arr harr).2

theorem shape_device {v : Variant} {p : Params} (hp : (p.device.geometry v).Valid) :
    Shape v p.device := by
  refine ⟨hp, ?_, nofun⟩
  intro item hitem arr harr
  rw [List.mem_singleton.mp hitem] at harr
  cases harr

/-! ## The list of items -/

section Items

variable {v : Variant} {dev : Dev} {arr : PtrArray} {n : ℕ}

/-- The walk adds cleared items only, and gets where it is going. -/
theorem follow_spec {nodes : ℕ} {next next' : List Item} (h : follow nodes n next = some next') :
    n ≤ next'.length ∧ ∀ item ∈ next', item ∈ next ∨ item = .cleared := by
  induction nodes, n, next using follow.induct generalizing next' with
  | case1 nodes next =>
      cases h
      exact ⟨Nat.zero_le _, fun item hitem => Or.inl hitem⟩
  | case2 nodes n item next ih =>
      rcases Option.map_eq_some_iff.mp h with ⟨rest, hrest, rfl⟩
      rcases ih hrest with ⟨hlen, hmem⟩
      refine ⟨Nat.succ_le_succ hlen, ?_⟩
      intro x hx
      rcases List.mem_cons.mp hx with rfl | hx
      · exact Or.inl List.mem_cons_self
      · exact (hmem x hx).imp_left (List.mem_cons_of_mem item)
  | case3 n => cases h
  | case4 nodes n ih =>
      rcases Option.map_eq_some_iff.mp h with ⟨rest, hrest, rfl⟩
      rcases ih hrest with ⟨hlen, hmem⟩
      refine ⟨Nat.succ_le_succ hlen, ?_⟩
      intro x hx
      rcases List.mem_cons.mp hx with rfl | hx
      · exact Or.inr rfl
      · exact hmem x hx

@[simp] theorem setData_unit (dev : Dev) (arr : PtrArray) (n : ℕ) :
    (dev.setData arr n).head.unit = dev.head.unit := by
  cases n <;> rfl

@[simp] theorem setData_qset (dev : Dev) (arr : PtrArray) (n : ℕ) :
    (dev.setData arr n).qset = dev.qset := by
  cases n <;> rfl

theorem setData_items (dev : Dev) (arr : PtrArray) (n : ℕ) : (dev.setData arr n).items =
    dev.items.modify n fun item => { item with data := some arr } := by
  cases n with
  | zero => rfl
  | succ n => rfl

/-- Whether an array is sound is a matter of the sizes of its device. -/
theorem arrayOk_congr {dev' : Dev} (hunit : dev'.head.unit = dev.head.unit)
    (hqset : dev'.qset = dev.qset) : ArrayOk v dev' arr ↔ ArrayOk v dev arr := by
  unfold ArrayOk
  rw [hunit, hqset]

/-- An item is as before, but for the one that got the array. -/
theorem mem_setData {item : Item} (h : item ∈ (dev.setData arr n).items) :
    ∃ old ∈ dev.items, item = old ∨ item = { old with data := some arr } := by
  rw [setData_items] at h
  rcases List.mem_iff_getElem?.mp h with ⟨i, hi⟩
  rw [List.getElem?_modify] at hi
  rcases Option.map_eq_some_iff.mp hi with ⟨old, hold, hitem⟩
  refine ⟨old, List.mem_of_getElem? hold, ?_⟩
  split at hitem
  · exact Or.inr hitem.symm
  · exact Or.inl hitem.symm

theorem setData_next (dev : Dev) (arr : PtrArray) (n : ℕ) {item : Item}
    (h : item ∈ (dev.setData arr n).next) : ∃ old ∈ dev.next, item.unit = old.unit := by
  cases n with
  | zero => exact ⟨item, h, rfl⟩
  | succ n =>
      rcases List.mem_iff_getElem?.mp h with ⟨i, hi⟩
      simp only [Dev.setData, List.getElem?_modify] at hi
      rcases Option.map_eq_some_iff.mp hi with ⟨old, hold, rfl⟩
      refine ⟨old, List.mem_of_getElem? hold, ?_⟩
      split <;> rfl

theorem shape_setData (h : Shape v dev) (harr : ArrayOk v dev arr) (n : ℕ) :
    Shape v (dev.setData arr n) := by
  have hok : ∀ a, ArrayOk v dev a → ArrayOk v (dev.setData arr n) a := fun _ =>
    (arrayOk_congr (setData_unit dev arr n) (setData_qset dev arr n)).mpr
  refine ⟨?_, ?_, ?_⟩
  · have hg : (dev.setData arr n).geometry v = dev.geometry v := by simp [Dev.geometry]
    rw [hg]
    exact h.geometry
  · intro item hitem a ha
    rcases mem_setData hitem with ⟨old, hold, rfl | rfl⟩
    · exact hok a (h.arrays item hold a ha)
    · cases ha
      exact hok arr harr
  · intro item hitem
    rcases setData_next dev arr n hitem with ⟨old, hold, hunit⟩
    rw [hunit]
    exact h.cleared old hold

/-- The item that got the array. -/
theorem setData_reached {item : Item} (h : dev.items[n]? = some item) :
    { item with data := some arr } ∈ (dev.setData arr n).items := by
  refine List.mem_of_getElem? (i := n) ?_
  rw [setData_items, List.getElem?_modify, h]
  simp

end Items

/-! ## Where a transfer arrives -/

section Transfers

variable {v : Variant} {p : Params} {dev : Dev} {fPos : ℤ} {env : Env} {g : Geometry}
  {pos : Place} {arr : PtrArray}

/-- The item is one of the device, which has the sizes and the quanta that it had. -/
structure Arrived (v : Variant) (fPos : ℤ) (dev : Dev) (at' : Arrival) : Prop where
  shape : Shape v at'.dev
  unit : at'.dev.head.unit = dev.head.unit
  qset : at'.dev.qset = dev.qset
  item : at'.dev.items[at'.pos.hops]? = some at'.item
  place : place (dev.geometry v) fPos = some at'.pos

theorem arrive_spec (hshape : Shape v dev) {at' : Arrival} (h : arrive v fPos env dev = .ok at') :
    Arrived v fPos dev at' := by
  unfold arrive at h
  split at h
  · cases h
  · rename_i pos hplace
    split at h
    · cases h
    · rename_i next hnext
      simp only at h
      split at h
      · cases h
      · rename_i item hitem
        cases h
        refine ⟨⟨hshape.geometry, ?_, ?_⟩, rfl, rfl, hitem, hplace⟩
        · intro item' hitem' arr harr
          rcases List.mem_cons.mp hitem' with rfl | hmem
          · exact hshape.arrays _ List.mem_cons_self arr harr
          · rcases (follow_spec hnext).2 item' hmem with hold | rfl
            · exact hshape.arrays item' (List.mem_cons_of_mem _ hold) arr harr
            · cases harr
        · intro item' hmem
          rcases (follow_spec hnext).2 item' hmem with hold | rfl
          · exact hshape.cleared item' hold
          · rfl

theorem arrive_error {e : Oops} (h : arrive v fPos env dev = .error e) : e.outside = false := by
  unfold arrive at h
  split at h
  · cases h
    rfl
  · split at h
    · cases h
      rfl
    · simp only at h
      split at h
      · cases h
        rfl
      · cases h

/-- An entry of a pointer array. -/
theorem slot_of_array (hb : 0 ≤ pos.sPos ∧ pos.sPos < dev.qset) (harr : ArrayOk v dev arr) :
    ∃ x ∈ arr, slot arr pos.sPos = .ok x := by
  have hlen := harr.1
  have hlt : pos.sPos.toNat < arr.length := by omega
  refine ⟨arr[pos.sPos.toNat], List.getElem_mem hlt, ?_⟩
  rw [slot, if_pos hb.1, List.getElem?_eq_getElem hlt]

/-- What a transfer leaves: a device of the same sizes, in shape. -/
structure Kept (v : Variant) (dev : Dev) (r : Result) : Prop where
  shape : Shape v r.dev
  unit : r.dev.head.unit = dev.head.unit
  qset : r.dev.qset = dev.qset
  fPos : 0 ≤ r.fPos

/-! ## Reading -/

/-- With quanta that are large enough the copy to the user stays inside. -/
theorem readArray_spec (hg : (dev.geometry v).Valid) (harr : ArrayOk v dev arr) (hp : 0 ≤ fPos)
    (hplace : place (dev.geometry v) fPos = some pos) (count : ℕ) (env : Env) (dev' : Dev) :
    ∃ r, readArray (dev.geometry v) count fPos env pos arr dev' = .ok r ∧ r.dev = dev' ∧
      0 ≤ r.fPos := by
  have hb := place_bounds hg hp hplace
  have hroom := room_eq hg hb.2
  rcases slot_of_array hb.1 harr with ⟨x, hx, hslot⟩
  unfold readArray
  rw [hslot]
  cases x with
  | none => exact ⟨_, rfl, rfl, hp⟩
  | some q =>
      have hq : (dev.geometry v).quantum ≤ q.length := harr.2 q hx
      have hcopy : inQuantum q pos.qPos (min count (room (dev.geometry v) pos)) = .ok () :=
        if_pos ⟨hb.2.1, by omega⟩
      simp only [Except.mapError, ok_bind, hcopy]
      cases env.fault with
      | none => exact ⟨_, rfl, rfl, by simp only; omega⟩
      | some k => exact ⟨_, rfl, rfl, hp⟩

theorem read_inside (hshape : Shape v dev) (hp : 0 ≤ fPos) (count : ℕ) :
    Inside (read v count fPos env dev) ∧ ∀ r, read v count fPos env dev = .ok r →
      Kept v dev r := by
  unfold read
  split
  · refine ⟨nofun, ?_⟩
    intro r hr
    cases hr
    exact ⟨hshape, rfl, rfl, hp⟩
  · cases hat : arrive v fPos env dev with
    | error e =>
        refine ⟨?_, nofun⟩
        intro e' he
        cases he
        exact arrive_error hat
    | ok at' =>
        have ha := arrive_spec hshape hat
        simp only [ok_bind]
        cases hdata : at'.item.data with
        | none =>
            refine ⟨nofun, ?_⟩
            intro r hr
            cases hr
            exact ⟨ha.shape, ha.unit, ha.qset, hp⟩
        | some arr =>
            have harr : ArrayOk v dev arr := (arrayOk_congr ha.unit ha.qset).mp
              (ha.shape.arrays at'.item (List.mem_of_getElem? ha.item) arr hdata)
            rcases readArray_spec hshape.geometry harr hp ha.place
              (if dev.size < fPos + count then (dev.size - fPos).toNat else count) env at'.dev with
              ⟨r, hr, hdev, hpos⟩
            simp only [hr]
            refine ⟨nofun, ?_⟩
            intro r' hr'
            cases hr'
            exact ⟨hdev ▸ ha.shape, hdev ▸ ha.unit, hdev ▸ ha.qset, hpos⟩

/-! ## Writing -/

/-- The array that the item has, or the one that it is given. -/
theorem writeArray_ok (hshape : Shape v dev) {at' : Arrival} (ha : Arrived v fPos dev at')
    (h : at'.item.data.or (kmallocArray dev.qset env.array) = some arr) : ArrayOk v dev arr := by
  rcases Option.or_eq_some_iff.mp h with hdata | ⟨_, hnew⟩
  · have hold := ha.shape.arrays at'.item (List.mem_of_getElem? ha.item) arr hdata
    exact (arrayOk_congr ha.unit ha.qset).mp hold
  · unfold kmallocArray at hnew
    split at hnew
    · cases hnew
      have := hshape.geometry.qsetPos
      refine ⟨?_, ?_⟩
      · simp only [Dev.geometry] at this
        rw [List.length_replicate]
        omega
      · intro q hq
        cases List.eq_of_mem_replicate hq
    · cases hnew

/-- What a write leaves in the place of the quantum `q`. -/
structure Stored (pos : Place) (arr : PtrArray) (q : List UInt8) (dev dev' : Dev) : Prop where
  device : ∃ q' size, q'.length = q.length ∧
    dev' = { dev.setData (arr.set pos.sPos.toNat (some q')) pos.hops with size := size }

theorem writeQuantum_cases (hg : (dev.geometry v).Valid) (hp : 0 ≤ fPos)
    (hplace : place (dev.geometry v) fPos = some pos) (arr : PtrArray) (buf q : List UInt8)
    (env : Env) (dev' : Dev) :
    writeQuantum (dev.geometry v) buf fPos env pos arr q dev' = .error (.trap .quantum) ∧
        (q.length : ℤ) < v.quantum dev.head.unit ∨
      ∃ r, writeQuantum (dev.geometry v) buf fPos env pos arr q dev' = .ok r ∧
        Stored pos arr q dev' r.dev ∧ 0 ≤ r.fPos := by
  have hb := place_bounds hg hp hplace
  have hroom := room_eq hg hb.2
  have htake : (buf.take (room (dev.geometry v) pos)).length ≤ room (dev.geometry v) pos :=
    List.length_take_le _ _
  have hquantum : (dev.geometry v).quantum = v.quantum dev.head.unit := rfl
  unfold writeQuantum
  by_cases hin : 0 ≤ pos.qPos ∧ pos.qPos + (buf.take (room (dev.geometry v) pos)).length ≤ q.length
  · refine Or.inr ?_
    have hcopy : inQuantum q pos.qPos (buf.take (room (dev.geometry v) pos)).length = .ok () :=
      if_pos hin
    have hlen : (Chunked.overwrite q pos.qPos.toNat
        (copied (buf.take (room (dev.geometry v) pos)) env.fault)).length = q.length :=
      Chunked.overwrite_length (by rw [copied_length]; omega)
    simp only [hcopy, Except.mapError, ok_bind]
    split
    · exact ⟨_, rfl, ⟨_, _, hlen, rfl⟩, hp⟩
    · exact ⟨_, rfl, ⟨_, _, hlen, rfl⟩, by simp only; omega⟩
  · refine Or.inl ⟨?_, by omega⟩
    have hcopy : inQuantum q pos.qPos (buf.take (room (dev.geometry v) pos)).length =
        .error .quantum := if_neg hin
    simp only [hcopy, Except.mapError]
    rfl

theorem arrayOk_set (harr : ArrayOk v dev arr) {q : List UInt8}
    (hq : v.quantum dev.head.unit ≤ q.length) (i : ℕ) : ArrayOk v dev (arr.set i (some q)) := by
  refine ⟨by rw [List.length_set]; exact harr.1, ?_⟩
  intro q' hq'
  rcases List.mem_or_eq_of_mem_set hq' with hold | hnew
  · exact harr.2 q' hold
  · cases hnew
    exact hq

theorem shape_stored {dev' : Dev} (hshape : Shape v dev) (harr : ArrayOk v dev arr)
    {q : List UInt8} (hq : v.quantum dev.head.unit ≤ q.length)
    (hstored : Stored pos arr q dev dev') : Shape v dev' := by
  rcases hstored.device with ⟨q', size, hlen, rfl⟩
  have h := shape_setData hshape (arrayOk_set harr (hlen ▸ hq) pos.sPos.toNat) pos.hops
  exact ⟨h.geometry, h.arrays, h.cleared⟩

theorem stored_sizes {dev' : Dev} {q : List UInt8} (hstored : Stored pos arr q dev dev') :
    dev'.head.unit = dev.head.unit ∧ dev'.qset = dev.qset := by
  rcases hstored.device with ⟨q', size, _, rfl⟩
  exact ⟨setData_unit _ _ _, setData_qset _ _ _⟩

/-- A quantum that is too small is too small for the device. -/
theorem not_roomy_stored {dev' : Dev} {item : Item} (hitem : dev.items[pos.hops]? = some item)
    (hlt : pos.sPos.toNat < arr.length) {q : List UInt8}
    (hq : (q.length : ℤ) < v.quantum dev.head.unit) (hstored : Stored pos arr q dev dev') :
    ¬ Roomy v dev' := by
  rcases hstored.device with ⟨q', size, hlen, rfl⟩
  intro hroomy
  have hle := hroomy _ (setData_reached hitem) _ rfl q'
    (List.mem_of_getElem? (List.getElem?_set_self hlt))
  simp only [setData_unit] at hle
  omega

/-! ## The write that allocates -/

/-- A write at `fPos` allocates a quantum, for the item at which it has arrived. -/
def Fills (v : Variant) (fPos : ℤ) (env : Env) (dev : Dev) (at' : Arrival) : Prop :=
  arrive v fPos env dev = .ok at' ∧
    ∃ arr, at'.item.data.or (kmallocArray dev.qset env.array) = some arr ∧
      slot arr at'.pos.sPos = .ok none ∧
      (kmallocQuantum (v.alloc at'.item.unit) env.heap).isSome = true

/-- A quantum of this item is large enough for a transfer and for `memset`. -/
def Fits (v : Variant) (p : Params) (dev : Dev) (item : Item) : Prop :=
  v.quantum dev.head.unit ≤ v.alloc item.unit ∧ 0 ≤ v.clear item.unit p.unit ∧
    v.clear item.unit p.unit ≤ v.alloc item.unit

/-- What a write has to meet. -/
def WritesWell (v : Variant) (r : Except Oops Result) : Prop :=
  Inside r ∧ ∀ r', r = .ok r' → Roomy v r'.dev

/-- `memset` keeps the size of what it clears. -/
theorem memset_cases (q : List UInt8) (n : ℤ) :
    memset q n = .error .clear ∧ ¬ (0 ≤ n ∧ n ≤ q.length) ∨
      ∃ q', memset q n = .ok q' ∧ q'.length = q.length ∧ 0 ≤ n ∧ n ≤ q.length := by
  unfold memset
  by_cases h : 0 ≤ n ∧ n ≤ q.length
  · refine Or.inr ⟨_, if_pos h, ?_, h⟩
    simp only [List.length_append, List.length_replicate, List.length_drop]
    omega
  · exact Or.inl ⟨if_neg h, h⟩

/-- A write into a quantum that is large enough, of a device `dev'` with the sizes of
`dev`. -/
theorem writeQuantum_inside {dev' : Dev} (hg : (dev.geometry v).Valid) (hp : 0 ≤ fPos)
    (hplace : place (dev.geometry v) fPos = some pos) (hshape : Shape v dev')
    (hunit : dev'.head.unit = dev.head.unit) (hqset : dev'.qset = dev.qset)
    (harr : ArrayOk v dev' arr) {q : List UInt8} (hq : v.quantum dev.head.unit ≤ q.length)
    (buf : List UInt8) : Inside (writeQuantum (dev.geometry v) buf fPos env pos arr q dev') ∧
      ∀ r, writeQuantum (dev.geometry v) buf fPos env pos arr q dev' = .ok r → Kept v dev r := by
  rcases writeQuantum_cases hg hp hplace arr buf q env dev' with
    ⟨_, hlt⟩ | ⟨r, hr, hstored, hpos⟩
  · exact absurd hlt (not_lt.mpr hq)
  · rw [hr]
    refine ⟨nofun, ?_⟩
    intro r' hr'
    cases hr'
    rcases stored_sizes hstored with ⟨hu, hs⟩
    exact ⟨shape_stored hshape harr (hunit ▸ hq) hstored, hu.trans hunit, hs.trans hqset, hpos⟩

/-- A write into a quantum that is too small. -/
theorem writeQuantum_outside {dev' : Dev} (hg : (dev.geometry v).Valid) (hp : 0 ≤ fPos)
    (hplace : place (dev.geometry v) fPos = some pos) (hunit : dev'.head.unit = dev.head.unit)
    (harr : ArrayOk v dev arr) {item : Item} (hitem : dev'.items[pos.hops]? = some item)
    {q : List UInt8} (hq : (q.length : ℤ) < v.quantum dev.head.unit) (buf : List UInt8) :
    ¬ WritesWell v (writeQuantum (dev.geometry v) buf fPos env pos arr q dev') := by
  rintro ⟨hinside, hroomy⟩
  rcases writeQuantum_cases hg hp hplace arr buf q env dev' with
    ⟨herr, _⟩ | ⟨r, hr, hstored, _⟩
  · exact absurd (hinside _ herr) (by decide)
  · have hb := (place_bounds hg hp hplace).1
    have hlen := harr.1
    have hqset : (dev.geometry v).qset = dev.qset := rfl
    exact not_roomy_stored hitem (by omega) (hunit ▸ hq) hstored (hroomy r hr)

/-- A write has come to a slot: `at'` is where it has arrived, and `arr` is now the array
there. -/
structure Reached (v : Variant) (fPos : ℤ) (dev : Dev) (at' : Arrival) (arr : PtrArray) : Prop where
  geometry : (dev.geometry v).Valid
  place : place (dev.geometry v) fPos = some at'.pos
  shape : Shape v (at'.dev.setData arr at'.pos.hops)
  unit : (at'.dev.setData arr at'.pos.hops).head.unit = dev.head.unit
  qset : (at'.dev.setData arr at'.pos.hops).qset = dev.qset
  array : ArrayOk v dev arr
  item : (at'.dev.setData arr at'.pos.hops).items[at'.pos.hops]? =
    some { at'.item with data := some arr }

theorem reached_of_arrive {at' : Arrival} (hshape : Shape v dev)
    (hat : arrive v fPos env dev = .ok at')
    (harr : at'.item.data.or (kmallocArray dev.qset env.array) = some arr) :
    Reached v fPos dev at' arr := by
  have ha := arrive_spec hshape hat
  have hok := writeArray_ok hshape ha harr
  constructor
  · exact hshape.geometry
  · exact ha.place
  · exact shape_setData ha.shape ((arrayOk_congr ha.unit ha.qset).mpr hok) at'.pos.hops
  · rw [setData_unit, ha.unit]
  · rw [setData_qset, ha.qset]
  · exact hok
  · rw [setData_items, List.getElem?_modify, ha.item]
    simp

/-- A write into a quantum that is large enough. -/
theorem Reached.inside {at' : Arrival} (h : Reached v fPos dev at' arr) (hp : 0 ≤ fPos)
    {q : List UInt8} (hq : v.quantum dev.head.unit ≤ q.length) (buf : List UInt8) (env : Env) :
    Inside (writeQuantum (dev.geometry v) buf fPos env at'.pos arr q
        (at'.dev.setData arr at'.pos.hops)) ∧
      ∀ r, writeQuantum (dev.geometry v) buf fPos env at'.pos arr q
        (at'.dev.setData arr at'.pos.hops) = .ok r → Kept v dev r :=
  writeQuantum_inside h.geometry hp h.place h.shape h.unit h.qset
    ((arrayOk_congr h.unit h.qset).mpr h.array) hq buf

/-- How a write goes that has allocated the quantum `q`. -/
theorem fill_cases {at' : Arrival} (h : Reached v fPos dev at' arr) (hp : 0 ≤ fPos) {q : List UInt8}
    (halloc : kmallocQuantum (v.alloc at'.item.unit) env.heap = some q) (p : Params)
    (buf : List UInt8) {r : Except Oops Result}
    (hr : r = do
      let q ← memset q (v.clear at'.item.unit p.unit)
      writeQuantum (dev.geometry v) buf fPos env at'.pos arr q (at'.dev.setData arr at'.pos.hops)) :
    Fits v p dev at'.item ∧ Inside r ∧ (∀ r', r = .ok r' → Kept v dev r') ∨
      ¬ Fits v p dev at'.item ∧ ¬ WritesWell v r := by
  have hlen := kmallocQuantum_length halloc
  rcases memset_cases q (v.clear at'.item.unit p.unit) with
    ⟨hclear, hout⟩ | ⟨q', hclear, hlen', hin⟩
  · -- memset leaves the allocation
    rw [hclear] at hr
    refine Or.inr ⟨?_, ?_⟩
    · intro hf
      exact hout ⟨hf.2.1, hlen ▸ hf.2.2⟩
    · intro hwell
      exact absurd (hwell.1 .clear hr) (by decide)
  · rw [hclear, ok_bind] at hr
    subst hr
    by_cases hq : v.quantum dev.head.unit ≤ v.alloc at'.item.unit
    · exact Or.inl ⟨⟨hq, hin.1, by omega⟩, h.inside hp (by omega) buf env⟩
    · refine Or.inr ⟨fun hf => hq hf.1, ?_⟩
      exact writeQuantum_outside h.geometry hp h.place h.unit h.array h.item (by omega) buf

/-- How a write goes: it allocates no quantum, or one that fits, or one that does not. -/
theorem write_cases (hshape : Shape v dev) (hp : 0 ≤ fPos) (p : Params) (buf : List UInt8)
    (env : Env) :
    (∀ at', Fills v fPos env dev at' → Fits v p dev at'.item) ∧
        Inside (write v p buf fPos env dev) ∧
        (∀ r, write v p buf fPos env dev = .ok r → Kept v dev r) ∨
      (∃ at', Fills v fPos env dev at' ∧ ¬ Fits v p dev at'.item) ∧
        ¬ WritesWell v (write v p buf fPos env dev) := by
  generalize hw : write v p buf fPos env dev = w
  unfold write at hw
  cases hat : arrive v fPos env dev with
  | error e =>
      rw [hat] at hw
      subst hw
      refine Or.inl ⟨fun at' hf => absurd (hat.symm.trans hf.1) nofun, ?_, nofun⟩
      intro e' he
      cases he
      exact arrive_error hat
  | ok at' =>
      have ha := arrive_spec hshape hat
      -- there is one arrival, so what it allocates decides about every `Fills`
      have honly : ∀ at'', Fills v fPos env dev at'' → at'' = at' := by
        rintro at'' ⟨hat', _⟩
        cases hat.symm.trans hat'
        rfl
      simp only [hat, ok_bind] at hw
      cases harr : at'.item.data.or (kmallocArray dev.qset env.array) with
      | none =>
          simp only [harr] at hw
          subst hw
          refine Or.inl ⟨?_, nofun, ?_⟩
          · intro at'' hf
            obtain rfl := honly at'' hf
            obtain ⟨_, arr, harr', _⟩ := hf
            exact absurd (harr.symm.trans harr') nofun
          · intro r hr
            cases hr
            exact ⟨ha.shape, ha.unit, ha.qset, hp⟩
      | some arr =>
          have hreached := reached_of_arrive hshape hat harr
          have hok := hreached.array
          rcases slot_of_array (place_bounds hshape.geometry hp ha.place).1 hok with
            ⟨x, hx, hslot⟩
          simp only [harr, hslot, Except.mapError, ok_bind] at hw
          cases x with
          | some q =>
              subst hw
              refine Or.inl ⟨?_, hreached.inside hp (hok.2 q hx) buf env⟩
              intro at'' hf
              obtain rfl := honly at'' hf
              obtain ⟨_, arr', harr', hslot', _⟩ := hf
              cases harr.symm.trans harr'
              exact absurd (hslot.symm.trans hslot') nofun
          | none =>
              unfold allocQuantum at hw
              cases halloc : kmallocQuantum (v.alloc at'.item.unit) env.heap with
              | none =>
                  rw [halloc] at hw
                  subst hw
                  refine Or.inl ⟨?_, nofun, ?_⟩
                  · intro at'' hf
                    obtain rfl := honly at'' hf
                    obtain ⟨_, arr', _, _, hsome⟩ := hf
                    rw [halloc] at hsome
                    cases hsome
                  · intro r hr
                    cases hr
                    exact ⟨hreached.shape, hreached.unit, hreached.qset, hp⟩
              | some q =>
                  have hfill : Fills v fPos env dev at' :=
                    ⟨hat, arr, harr, hslot, by rw [halloc]; rfl⟩
                  simp only [halloc] at hw
                  have hfilled : w = (do
                      let q ← memset q (v.clear at'.item.unit p.unit)
                      writeQuantum (dev.geometry v) buf fPos env at'.pos arr q
                        (at'.dev.setData arr at'.pos.hops)) := by
                    rw [← hw]
                    cases memset q (v.clear at'.item.unit p.unit) with
                    | error e => rfl
                    | ok q' => rfl
                  rcases fill_cases hreached hp halloc p buf hfilled with
                    ⟨hfits, hinside⟩ | ⟨hunfit, hharm⟩
                  · refine Or.inl ⟨?_, hinside⟩
                    intro at'' hf
                    rw [honly at'' hf]
                    exact hfits
                  · exact Or.inr ⟨⟨at', hfill, hunfit⟩, hharm⟩

end Transfers

end ScullFamily
