import DriversLab.Scull.Main

/-!
# Scull.Layout — the quanta of a device as the chunks of an array

What one critical section of `scull_read` or `scull_write` does when it runs with
the sizes its device was built with.

* `Shape`: every pointer array and every quantum has the size that the device
  says;
* `chunks`: the device as a map from chunk numbers to quanta;
* `read_cases`, `write_cases`: the two critical sections in terms of it; neither leaves
  an array or a quantum.
-/

namespace Scull

open CInt Chunked

/-- Sizes that are positive `int`s. -/
structure Geometry.Valid (g : Geometry) : Prop where
  quantumPos : 0 < g.quantum
  quantumInt : g.quantum < 2 ^ 31
  qsetPos : 0 < g.qset
  qsetInt : g.qset < 2 ^ 31

variable {g : Geometry} {fPos : ℤ} {pos : Place}

/-! ## Where a position lies -/

/-- A product of positive sizes only loses magnitude in an `int`. -/
theorem natAbs_toInt_le {z : ℤ} (h : 0 ≤ z) : ((toInt z).natAbs : ℤ) ≤ z := by
  unfold toInt
  omega

theorem place_bounds (hg : g.Valid) (hp : 0 ≤ fPos) (h : place g fPos = some pos) :
    (0 ≤ pos.sPos ∧ pos.sPos < g.qset) ∧ 0 ≤ pos.qPos ∧ pos.qPos < g.quantum := by
  rcases hg with ⟨hq, _, hs, _⟩
  have hprod : 0 ≤ g.quantum * g.qset := (Int.mul_pos hq hs).le
  have habs := natAbs_toInt_le hprod
  have hint := toInt_range (g.quantum * g.qset)
  unfold place at h
  simp only at h
  split at h
  · cases h
  · rename_i hzero
    cases h
    generalize toInt (g.quantum * g.qset) = itemsize at habs hint hzero
    have hmod := Int.tmod_nonneg itemsize hp
    have hlt : (fPos.tmod itemsize).natAbs < itemsize.natAbs := by
      rw [Int.natAbs_tmod]
      exact Nat.mod_lt _ (by omega)
    have hrest : toInt (fPos.tmod itemsize) = fPos.tmod itemsize :=
      toInt_of_range (by omega) (by omega)
    simp only [hrest]
    refine ⟨⟨Int.tdiv_nonneg hmod hq.le, ?_⟩, Int.tmod_nonneg _ hmod, Int.tmod_lt_of_pos _ hq⟩
    rw [Int.tdiv_eq_ediv_of_nonneg hmod]
    apply Int.ediv_lt_of_lt_mul hq
    calc fPos.tmod itemsize < itemsize.natAbs := by omega
      _ ≤ g.quantum * g.qset := habs
      _ = g.qset * g.quantum := Int.mul_comm _ _

/-- The room up to the end of the quantum. -/
theorem room_eq (hg : g.Valid) (hq : 0 ≤ pos.qPos ∧ pos.qPos < g.quantum) :
    (room g pos : ℤ) = g.quantum - pos.qPos := by
  rcases hg with ⟨_, _, _, _⟩
  unfold room toULong
  omega

/-! ## The list of items -/

/-- The pointer array of item `i`, if there is one. -/
def itemData (items : List ScullQset) (i : ℕ) : Option (List (Option (List UInt8))) :=
  items[i]?.bind ScullQset.data

/-- What `scull_follow` appends is empty. -/
theorem itemData_scullFollow (nodes n : ℕ) (items : List ScullQset) (i : ℕ) :
    itemData (scullFollow nodes n items).2 i = itemData items i := by
  unfold itemData
  induction nodes, n, items using scullFollow.induct generalizing i with
  | case1 nodes qs rest => rfl
  | case2 n => simp [scullFollow]
  | case3 nodes =>
      cases i with
      | zero => rfl
      | succ i => simp [scullFollow]
  | case4 nodes n qs rest ih =>
      cases i with
      | zero => simp [scullFollow]
      | succ i => simpa [scullFollow] using ih i
  | case5 nodes n ih =>
      cases i with
      | zero => rfl
      | succ i => simpa [scullFollow] using ih i

/-- The item reached is item `n` of the list. -/
theorem scullFollow_found {nodes n : ℕ} {items : List ScullQset} {qs : ScullQset}
    (h : (scullFollow nodes n items).1 = some qs) :
    (scullFollow nodes n items).2[n]? = some qs := by
  induction nodes, n, items using scullFollow.induct with
  | case1 nodes qs' rest => simpa [scullFollow] using h
  | case2 n => simp [scullFollow] at h
  | case3 nodes => simpa [scullFollow] using h
  | case4 nodes n qs' rest ih => simpa [scullFollow] using ih (by simpa [scullFollow] using h)
  | case5 nodes n ih => simpa [scullFollow] using ih (by simpa [scullFollow] using h)

/-- `dptr->data` is the array of that item. -/
theorem itemData_reached {nodes n : ℕ} {items : List ScullQset}
    {arr : List (Option (List UInt8))}
    (h : (scullFollow nodes n items).1.bind ScullQset.data = some arr) :
    itemData (scullFollow nodes n items).2 n = some arr := by
  rcases Option.bind_eq_some_iff.mp h with ⟨qs, hqs, hdata⟩
  rw [itemData, scullFollow_found hqs]
  exact hdata

theorem itemData_set {items : List ScullQset} {n : ℕ} {qs : ScullQset}
    (h : items[n]? = some qs) (arr : List (Option (List UInt8))) (i : ℕ) :
    itemData (items.set n ⟨some arr⟩) i = if i = n then some arr else itemData items i := by
  have hlt : n < items.length := (List.getElem?_eq_some_iff.mp h).1
  unfold itemData
  by_cases hi : i = n
  · rw [if_pos hi, hi, List.getElem?_set_self hlt]
    rfl
  · rw [if_neg hi, List.getElem?_set_ne (Ne.symm hi)]

/-! ## The device as a map of chunks -/

/-- Every pointer array has `qset` entries, every quantum `quantum` bytes. -/
def Shape (dev : ScullDev) : Prop :=
  ∀ i arr, itemData dev.data i = some arr → (arr.length : ℤ) = dev.geometry.qset ∧
    ∀ (j : ℕ) (q : List UInt8), arr[j]? = some (some q) → (q.length : ℤ) = dev.geometry.quantum

/-- Quantum number `c`, counted through all items. -/
def chunks (dev : ScullDev) (c : ℕ) : Option (List UInt8) :=
  (itemData dev.data (c / dev.geometry.qset.toNat)).bind fun arr =>
    arr[c % dev.geometry.qset.toNat]?.join

/-- The number of the quantum at a place. -/
def Place.chunk (g : Geometry) (pos : Place) : ℕ := pos.hops * g.qset.toNat + pos.sPos.toNat

theorem shape_trim (p : Params) (dev : ScullDev) : Shape (scullTrim p dev) := by
  intro i arr h
  simp [scullTrim, itemData] at h

/-- What `scull_follow` leaves is the same map. -/
theorem shape_follow {dev : ScullDev} (h : Shape dev) (nodes n : ℕ) :
    Shape { dev with data := (scullFollow nodes n dev.data).2 } := by
  intro i arr hi
  rw [itemData_scullFollow] at hi
  exact h i arr hi

theorem chunks_follow (dev : ScullDev) (nodes n : ℕ) :
    chunks { dev with data := (scullFollow nodes n dev.data).2 } = chunks dev := by
  funext c
  simp only [chunks, itemData_scullFollow]

/-- The chunks all have the size of a quantum. -/
theorem sized_chunks {dev : ScullDev} (h : Shape dev) :
    Sized dev.geometry.quantum.toNat (chunks dev) := by
  intro c q hc
  rcases Option.bind_eq_some_iff.mp hc with ⟨arr, harr, hq⟩
  have hlen := (h _ arr harr).2 _ q (Option.join_eq_some_iff.mp hq)
  omega

/-- The parts of a chunk number. -/
theorem chunk_div (hs : 0 ≤ pos.sPos ∧ pos.sPos < g.qset) :
    pos.chunk g / g.qset.toNat = pos.hops ∧ pos.chunk g % g.qset.toNat = pos.sPos.toNat := by
  have hlt : pos.sPos.toNat < g.qset.toNat := by omega
  unfold Place.chunk
  constructor
  · rw [Nat.mul_comm, Nat.mul_add_div (by omega), Nat.div_eq_of_lt hlt, Nat.add_zero]
  · rw [Nat.mul_comm, Nat.mul_add_mod, Nat.mod_eq_of_lt hlt]

/-- The quantum that a place of the device refers to. -/
theorem chunks_at {dev : ScullDev}
    (hs : 0 ≤ pos.sPos ∧ pos.sPos < dev.geometry.qset) :
    chunks dev (pos.chunk dev.geometry) =
      (itemData dev.data pos.hops).bind fun arr => arr[pos.sPos.toNat]?.join := by
  rcases chunk_div hs with ⟨hdiv, hmod⟩
  rw [chunks, hdiv, hmod]

/-! ## Storing a quantum -/

/-- The device after `dptr->data[s_pos]` of a present item has been set. -/
def setQuantum (dev : ScullDev) (n : ℕ) (arr : List (Option (List UInt8))) (i : ℕ)
    (q : List UInt8) : ScullDev :=
  { dev with data := dev.data.set n ⟨some (arr.set i (some q))⟩ }

/-- The array that a present item has, or the one it is given. -/
def IsArray (dev : ScullDev) (n : ℕ) (arr : List (Option (List UInt8))) : Prop :=
  itemData dev.data n = some arr ∨
    itemData dev.data n = none ∧ arr = List.replicate dev.geometry.qset.toNat none

theorem isArray_length {dev : ScullDev} (hg : dev.geometry.Valid) (hshape : Shape dev) {n : ℕ}
    {arr : List (Option (List UInt8))} (h : IsArray dev n arr) :
    (arr.length : ℤ) = dev.geometry.qset := by
  rcases h with h | ⟨_, rfl⟩
  · exact (hshape n arr h).1
  · have := hg.qsetPos
    rw [List.length_replicate]
    omega

/-- Its entries are those of the device. -/
theorem isArray_join {dev : ScullDev} {n : ℕ} {arr : List (Option (List UInt8))}
    (h : IsArray dev n arr) (i : ℕ) :
    ((itemData dev.data n).bind fun arr => arr[i]?.join) = arr[i]?.join := by
  rcases h with h | ⟨h, rfl⟩
  · rw [h]
    rfl
  · rw [h, List.getElem?_replicate]
    split <;> rfl

/-- Its quanta have the size of a quantum. -/
theorem isArray_quantum {dev : ScullDev} (hshape : Shape dev) {n : ℕ}
    {arr : List (Option (List UInt8))} (h : IsArray dev n arr) {j : ℕ} {q : List UInt8}
    (hq : arr[j]? = some (some q)) : (q.length : ℤ) = dev.geometry.quantum := by
  rcases h with h | ⟨_, rfl⟩
  · exact (hshape n arr h).2 j q hq
  · rw [List.getElem?_replicate] at hq
    split at hq <;> cases hq

/-- The device after an item has been given its array. -/
def setArray (dev : ScullDev) (n : ℕ) (arr : List (Option (List UInt8))) : ScullDev :=
  { dev with data := dev.data.set n ⟨some arr⟩ }

/-- An array of the right size, with quanta of the right size. -/
theorem shape_item {dev : ScullDev} (hshape : Shape dev) {n : ℕ} {qs : ScullQset}
    (hqs : dev.data[n]? = some qs) {arr : List (Option (List UInt8))}
    (hlen : (arr.length : ℤ) = dev.geometry.qset)
    (hquanta : ∀ (j : ℕ) (q : List UInt8), arr[j]? = some (some q) →
      (q.length : ℤ) = dev.geometry.quantum) : Shape (setArray dev n arr) := by
  intro i arr' h
  rw [setArray, itemData_set hqs] at h
  split at h
  · cases h
    exact ⟨hlen, hquanta⟩
  · exact hshape i arr' h

theorem shape_array {dev : ScullDev} (hg : dev.geometry.Valid) (hshape : Shape dev) {n : ℕ}
    {qs : ScullQset} (hqs : dev.data[n]? = some qs) {arr : List (Option (List UInt8))}
    (harr : IsArray dev n arr) : Shape (setArray dev n arr) :=
  shape_item hshape hqs (isArray_length hg hshape harr) fun _ _ hq =>
    isArray_quantum hshape harr hq

theorem shape_set {dev : ScullDev} (hg : dev.geometry.Valid) (hshape : Shape dev) {n i : ℕ}
    {qs : ScullQset} (hqs : dev.data[n]? = some qs) {arr : List (Option (List UInt8))}
    (harr : IsArray dev n arr) {q : List UInt8} (hq : (q.length : ℤ) = dev.geometry.quantum) :
    Shape (setQuantum dev n arr i q) := by
  apply shape_item hshape hqs
  · rw [List.length_set]
    exact isArray_length hg hshape harr
  · intro j q' hj
    rw [List.getElem?_set] at hj
    split at hj
    · -- the entry that is set
      split at hj
      · cases hj
        exact hq
      · cases hj
    · exact isArray_quantum hshape harr hj

theorem chunks_set {dev : ScullDev} (hg : dev.geometry.Valid) (hshape : Shape dev)
    (hs : 0 ≤ pos.sPos ∧ pos.sPos < dev.geometry.qset) {qs : ScullQset}
    (hqs : dev.data[pos.hops]? = some qs) {arr : List (Option (List UInt8))}
    (harr : IsArray dev pos.hops arr) (q : List UInt8) :
    chunks (setQuantum dev pos.hops arr pos.sPos.toNat q) =
      replace (chunks dev) (pos.chunk dev.geometry) q := by
  have hlen := isArray_length hg hshape harr
  rcases chunk_div hs with ⟨hdiv, hmod⟩
  funext c
  simp only [chunks, setQuantum, replace, itemData_set hqs]
  by_cases hitem : c / dev.geometry.qset.toNat = pos.hops
  · rw [if_pos hitem, Option.bind_some]
    by_cases hrow : c % dev.geometry.qset.toNat = pos.sPos.toNat
    · -- the quantum that is stored
      have hc : c = pos.chunk dev.geometry := by
        rw [← Nat.div_add_mod c dev.geometry.qset.toNat, hitem, hrow, Place.chunk, Nat.mul_comm]
      rw [if_pos hc, hrow, List.getElem?_set_self (by omega)]
      rfl
    · have hc : c ≠ pos.chunk dev.geometry := by
        rintro rfl
        exact hrow hmod
      rw [if_neg hc, List.getElem?_set_ne (Ne.symm hrow), hitem, isArray_join harr]
  · have hc : c ≠ pos.chunk dev.geometry := by
      rintro rfl
      exact hitem hdiv
    rw [if_neg hitem, if_neg hc]

theorem chunks_array {dev : ScullDev} {n : ℕ} {qs : ScullQset} (hqs : dev.data[n]? = some qs)
    {arr : List (Option (List UInt8))} (harr : IsArray dev n arr) :
    chunks (setArray dev n arr) = chunks dev := by
  funext c
  simp only [chunks, setArray, itemData_set hqs]
  by_cases hitem : c / dev.geometry.qset.toNat = n
  · rw [if_pos hitem, Option.bind_some, hitem, isArray_join harr]
  · rw [if_neg hitem]

/-- `dptr->data[s_pos]` is the quantum at the position. -/
theorem slot_chunk {dev : ScullDev} (hg : dev.geometry.Valid) (hshape : Shape dev)
    (hs : 0 ≤ pos.sPos ∧ pos.sPos < dev.geometry.qset) {arr : List (Option (List UInt8))}
    (harr : IsArray dev pos.hops arr) :
    slot arr pos.sPos = .ok (chunks dev (pos.chunk dev.geometry)) := by
  have hlen := isArray_length hg hshape harr
  have hlt : pos.sPos.toNat < arr.length := by omega
  have hat : arr[pos.sPos.toNat]? = some arr[pos.sPos.toNat] := List.getElem?_eq_getElem hlt
  rw [slot, if_pos hs.1, chunks_at hs, isArray_join harr, hat]
  rfl

/-! ## The critical section of scull_read -/

/-- The device has the same quanta as before. -/
structure Kept (dev dev' : ScullDev) : Prop where
  shape : Shape dev'
  chunks : chunks dev' = chunks dev
  geometry : dev'.geometry = dev.geometry
  size : dev'.size = dev.size

theorem Kept.trans {dev₁ dev₂ dev₃ : ScullDev} (h : Kept dev₁ dev₂) (h' : Kept dev₂ dev₃) :
    Kept dev₁ dev₃ :=
  ⟨h'.shape, h'.chunks.trans h.chunks, h'.geometry.trans h.geometry, h'.size.trans h.size⟩

theorem kept_follow {dev : ScullDev} (h : Shape dev) (nodes n : ℕ) :
    Kept dev { dev with data := (scullFollow nodes n dev.data).2 } :=
  ⟨shape_follow h nodes n, chunks_follow dev nodes n, rfl, rfl⟩

/-- How `scull_read` goes when it runs with the sizes of its device: what reaches
the user are bytes of the quantum at the position. -/
structure ReadOut (fPos : ℤ) (dev : ScullDev) (r : Transfer) : Prop where
  kept : Kept dev r.dev
  position : r.fPos = fPos + max r.ret 0
  data : r.data = [] ∨ ∃ pos q, place dev.geometry fPos = some pos ∧
    chunks dev (pos.chunk dev.geometry) = some q ∧ r.data <+: q.drop pos.qPos.toNat

theorem readArray_cases {dev : ScullDev} (count : ℕ) (env : Env) (hshape : Shape dev)
    (hg : dev.geometry.Valid) (hp : 0 ≤ fPos) (hplace : place dev.geometry fPos = some pos)
    {arr : List (Option (List UInt8))} (harr : itemData dev.data pos.hops = some arr) :
    ∃ r, readArray dev.geometry count fPos env pos arr dev = .ok r ∧ ReadOut fPos dev r := by
  have hb := place_bounds hg hp hplace
  have hkept : Kept dev dev := ⟨hshape, rfl, rfl, rfl⟩
  unfold readArray
  rw [slot_chunk hg hshape hb.1 (Or.inl harr), ok_bind]
  cases hchunk : chunks dev (pos.chunk dev.geometry) with
  | none => exact ⟨_, rfl, hkept, by simp, Or.inl rfl⟩
  | some q =>
      have hqlen := sized_chunks hshape _ q hchunk
      have hroom := room_eq hg hb.2
      -- the count is cut off at the end of the quantum
      have hfit : inQuantum q pos.qPos (min count (room dev.geometry pos)) = .ok () := by
        rw [inQuantum, if_pos]
        constructor <;> omega
      simp only [hfit, ok_bind]
      cases env.fault with
      | some k =>
          refine ⟨_, rfl, hkept, by simp [EFAULT], Or.inr ⟨pos, q, hplace, hchunk, ?_⟩⟩
          exact (List.take_prefix _ _).trans (List.take_prefix _ _)
      | none =>
          refine ⟨_, rfl, hkept, ?_, Or.inr ⟨pos, q, hplace, hchunk, List.take_prefix _ _⟩⟩
          exact congrArg (fPos + ·) (max_eq_left (Int.natCast_nonneg _)).symm

/-- A device that differs in its list of items alone. -/
theorem ReadOut.of_kept {dev dev' : ScullDev} (hk : Kept dev dev') {r : Transfer}
    (h : ReadOut fPos dev' r) : ReadOut fPos dev r := by
  rcases h with ⟨hkept, hposition, hdata⟩
  refine ⟨hk.trans hkept, hposition, ?_⟩
  rwa [hk.chunks, hk.geometry] at hdata

theorem read_cases {dev : ScullDev} (count : ℕ) (env : Env) (hg : dev.geometry.Valid)
    (hshape : Shape dev) (hp : 0 ≤ fPos) :
    scullRead dev.geometry count fPos env dev = .error .divide ∨
      ∃ r, scullRead dev.geometry count fPos env dev = .ok r ∧ ReadOut fPos dev r := by
  unfold scullRead
  split
  · exact Or.inr ⟨_, rfl, ⟨hshape, rfl, rfl, rfl⟩, by simp, Or.inl rfl⟩
  · cases hplace : place dev.geometry fPos with
    | none => exact Or.inl rfl
    | some pos =>
        have hkept := kept_follow hshape env.nodes pos.hops
        simp only
        cases hptr : (scullFollow env.nodes pos.hops dev.data).1.bind ScullQset.data with
        | none => exact Or.inr ⟨_, rfl, hkept, by simp, Or.inl rfl⟩
        | some arr =>
            have harr := itemData_reached hptr
            rcases readArray_cases
              (if (dev.size : ℤ) < fPos + count then (dev.size - fPos).toNat else count) env
              hkept.shape hg hp hplace harr with ⟨r, hr, hout⟩
            exact Or.inr ⟨r, hr, hout.of_kept hkept⟩

/-! ## The critical section of scull_write -/

/-- How `scull_write` goes when it runs with the sizes of its device: it is refused
for want of memory, or it overwrites bytes of the quantum at the position, which may
be a new one. -/
inductive WriteOut (fPos : ℤ) (buf : List UInt8) (env : Env) (dev : ScullDev) (r : Transfer) :
    Prop where
  | refused (hret : r.ret = -ENOMEM) (hpos : r.fPos = fPos) (hkept : Kept dev r.dev)
  | stored (pos : Place) (q : List UInt8) (hplace : place dev.geometry fPos = some pos)
      (hq : (chunks dev (pos.chunk dev.geometry)).or
        (kmallocQuantum dev.geometry.quantum env.heap) = some q)
      (hret : r.ret = if env.fault.isSome then -EFAULT
        else (buf.take (room dev.geometry pos)).length)
      (hpos : r.fPos = fPos + max r.ret 0) (hshape : Shape r.dev)
      (hgeometry : r.dev.geometry = dev.geometry)
      (hsize : r.dev.size = if env.fault.isSome then dev.size else max dev.size r.fPos.toNat)
      (hchunks : chunks r.dev = replace (chunks dev) (pos.chunk dev.geometry)
        (overwrite q pos.qPos.toNat (copied (buf.take (room dev.geometry pos)) env.fault)))

theorem kmallocQuantum_length {quantum : ℤ} {heap : Option (ℕ → UInt8)} {q : List UInt8}
    (h : kmallocQuantum quantum heap = some q) : (q.length : ℤ) = quantum := by
  unfold kmallocQuantum at h
  split at h
  · rcases Option.map_eq_some_iff.mp h with ⟨f, _, rfl⟩
    rw [List.length_map, List.length_range]
    omega
  · cases h

theorem copied_length (buf : List UInt8) (fault : Option ℕ) :
    (copied buf fault).length = buf.length := by
  cases fault with
  | none => rfl
  | some k =>
      simp only [copied, List.length_append, List.length_take, List.length_replicate]
      omega

/-- The quantum that is written has the size of a quantum, old or new. -/
theorem quantum_length {dev : ScullDev} (hg : dev.geometry.Valid) (hshape : Shape dev) {c : ℕ}
    {heap : Option (ℕ → UInt8)} {q : List UInt8}
    (h : (chunks dev c).or (kmallocQuantum dev.geometry.quantum heap) = some q) :
    (q.length : ℤ) = dev.geometry.quantum := by
  cases hc : chunks dev c with
  | some q' =>
      rw [hc, Option.some_or] at h
      cases h
      have hlen := sized_chunks hshape c q hc
      have hpos := hg.quantumPos
      omega
  | none =>
      rw [hc, Option.none_or] at h
      exact kmallocQuantum_length h

/-- The array of the item that `scull_follow` reaches may have just been allocated. -/
theorem isArray_reached {dev : ScullDev} {nodes n : ℕ} {served : Bool} {item : ScullQset}
    {arr : List (Option (List UInt8))} (hptr : (scullFollow nodes n dev.data).1 = some item)
    (harr : item.data.or (kmallocArray dev.geometry.qset served) = some arr) :
    IsArray { dev with data := (scullFollow nodes n dev.data).2 } n arr := by
  rw [IsArray, itemData, scullFollow_found hptr, Option.bind_some]
  cases hd : item.data with
  | some a =>
      rw [hd, Option.some_or] at harr
      exact Or.inl harr
  | none =>
      rw [hd, Option.none_or, kmallocArray] at harr
      split at harr
      · cases harr
        exact Or.inr ⟨rfl, rfl⟩
      · cases harr

theorem writeArray_cases {dev : ScullDev} (buf : List UInt8) (env : Env)
    (hshape : Shape dev) (hg : dev.geometry.Valid) (hp : 0 ≤ fPos)
    (hplace : place dev.geometry fPos = some pos) {qs : ScullQset}
    (hqs : dev.data[pos.hops]? = some qs) {arr : List (Option (List UInt8))}
    (harr : IsArray dev pos.hops arr) :
    ∃ r, writeArray dev.geometry buf fPos env pos arr dev = .ok r ∧
      WriteOut fPos buf env dev r := by
  have hb := place_bounds hg hp hplace
  unfold writeArray
  rw [slot_chunk hg hshape hb.1 harr, ok_bind]
  cases hq : (chunks dev (pos.chunk dev.geometry)).or
      (kmallocQuantum dev.geometry.quantum env.heap) with
  | none =>
      -- no quantum, but the item may have got its array
      refine ⟨_, rfl, .refused rfl rfl ⟨?_, ?_, rfl, rfl⟩⟩
      · exact shape_array hg hshape hqs harr
      · exact chunks_array hqs harr
  | some q =>
      have hqlen := quantum_length hg hshape hq
      have hroom := room_eq hg hb.2
      have htake : (buf.take (room dev.geometry pos)).length ≤ room dev.geometry pos :=
        List.length_take_le _ _
      have hfit : inQuantum q pos.qPos (buf.take (room dev.geometry pos)).length = .ok () := by
        rw [inQuantum, if_pos]
        constructor <;> omega
      have hq' : ((overwrite q pos.qPos.toNat
          (copied (buf.take (room dev.geometry pos)) env.fault)).length : ℤ) =
            dev.geometry.quantum := by
        rw [overwrite_length, hqlen]
        rw [copied_length]
        omega
      -- the two cases of the fault differ in what is returned only
      have hset := shape_set (i := pos.sPos.toNat) hg hshape hqs harr hq'
      have hchunks := chunks_set hg hshape hb.1 hqs harr
        (overwrite q pos.qPos.toNat (copied (buf.take (room dev.geometry pos)) env.fault))
      simp only [hfit, ok_bind, List.set_set]
      cases hf : env.fault with
      | some k =>
          rw [hf] at hset hchunks
          refine ⟨_, rfl, .stored pos q hplace hq ?_ ?_ hset rfl ?_ ?_⟩
          · simp [hf]
          · simp [EFAULT]
          · simp [hf]
          · rw [hf]
            exact hchunks
      | none =>
          rw [hf] at hset hchunks
          refine ⟨_, rfl, .stored pos q hplace hq ?_ ?_ hset rfl ?_ ?_⟩
          · simp [hf]
          · exact congrArg (fPos + ·) (max_eq_left (Int.natCast_nonneg _)).symm
          · simp only [hf, Option.isSome_none, Bool.false_eq_true, if_false]
            split <;> omega
          · rw [hf]
            exact hchunks

theorem WriteOut.of_kept {dev dev' : ScullDev} (hk : Kept dev dev') {buf : List UInt8} {env : Env}
    {r : Transfer} (h : WriteOut fPos buf env dev' r) : WriteOut fPos buf env dev r := by
  cases h with
  | refused hret hpos hkept => exact .refused hret hpos (hk.trans hkept)
  | stored pos q hplace hq hret hpos hshape hgeometry hsize hchunks =>
      rw [hk.geometry] at hplace hq hret hgeometry hchunks
      rw [hk.chunks] at hq hchunks
      rw [hk.size] at hsize
      exact .stored pos q hplace hq hret hpos hshape hgeometry hsize hchunks

/-- Behind the division, nothing traps. -/
theorem write_at {dev : ScullDev} (buf : List UInt8) (env : Env) (hg : dev.geometry.Valid)
    (hshape : Shape dev) (hp : 0 ≤ fPos) (hplace : place dev.geometry fPos = some pos) :
    ∃ r, scullWrite dev.geometry buf fPos env dev = .ok r ∧ WriteOut fPos buf env dev r := by
  have hkept := kept_follow hshape env.nodes pos.hops
  simp only [scullWrite, hplace]
  cases hptr : (scullFollow env.nodes pos.hops dev.data).1 with
  | none => exact ⟨_, rfl, .refused rfl rfl hkept⟩
  | some item =>
      have hitem := scullFollow_found hptr
      simp only
      cases harr : item.data.or (kmallocArray dev.geometry.qset env.array) with
      | none => exact ⟨_, rfl, .refused rfl rfl hkept⟩
      | some arr =>
          have harr' := isArray_reached hptr harr
          rcases writeArray_cases buf env hkept.shape hg hp hplace hitem harr' with ⟨r, hr, hout⟩
          exact ⟨r, hr, hout.of_kept hkept⟩

theorem write_cases {dev : ScullDev} {buf : List UInt8} {env : Env} (hg : dev.geometry.Valid)
    (hshape : Shape dev) (hp : 0 ≤ fPos) :
    scullWrite dev.geometry buf fPos env dev = .error .divide ∨
      ∃ r, scullWrite dev.geometry buf fPos env dev = .ok r ∧ WriteOut fPos buf env dev r := by
  cases hplace : place dev.geometry fPos with
  | none =>
      left
      rw [scullWrite, hplace]
  | some pos => exact Or.inr (write_at buf env hg hshape hp hplace)

end Scull
