import DriversLab.ScullFamily.Layout

/-!
# ScullFamily.Bytes — which bytes a transfer moves

A read or a write that does not fail moves as many bytes as there are between its position
and the end of the quantum, and a read no more than up to the end of the device.

* `Driver`, `Proper`: the drivers that this is about, and their devices;
* `straight_driver`: behind a position, the next bytes of the quantum are those of the next
  positions, also where the size of an item is no `int`;
* `read_served`, `write_served`: the count, and the bytes at the positions.
-/

namespace ScullFamily

open CInt Scull Chunked

/-! ## The devices -/

/-- The lists and the quanta as their driver keeps them: no quantum is longer than what it
allocates, and the items behind the first one have been cleared. -/
structure Proper (v : Variant) (dev : Dev) : Prop where
  quanta : ∀ n s q, dev.quantumAt n s = some q → (q.length : ℤ) ≤ v.alloc dev.head.unit
  cleared : ∀ item ∈ dev.next, item.unit = 0

/-- scullp and scullv with any order and any `qset`, and scullc with sizes whose product is
a positive `int`. -/
inductive Driver : Variant → Dev → Prop where
  | pages (order qset : ℤ) (dev : Dev) : Driver (byPages order qset) dev
  | cache (object : ℤ) (dev : Dev) (hg : (dev.geometry (scullc object)).Valid)
      (hfits : dev.head.unit * dev.qset < 2 ^ 31) : Driver (scullc object) dev

theorem pages_eq (order : ℤ) : pages order = 2 ^ (12 + order.toNat) := by
  rw [pages, pow_add]
  rfl

/-- A power of two that is a positive `int` divides what is left of its multiples in an
`int`. -/
theorem aligned_pow {k : ℕ} (hk : k < 31) (qset : ℤ) : Aligned ⟨2 ^ k, qset⟩ := by
  constructor
  · exact pow_pos (by decide) k
  · have hhalf : (2 : ℤ) ^ k ∣ 2 ^ 31 := pow_dvd_pow 2 hk.le
    have hfull : (2 : ℤ) ^ k ∣ 2 ^ 32 := pow_dvd_pow 2 (by omega)
    unfold toInt
    rw [Int.emod_def]
    exact dvd_sub (dvd_sub (dvd_add (Dvd.intro _ rfl) hhalf) (hfull.mul_right _)) hhalf

/-- With the order at which the size of a quantum is the sign bit of an `int`, one item is
one quantum of that size. -/
theorem straight_signBit (qset : ℤ) : Straight ⟨-2 ^ 31, qset⟩ (2 ^ 31) := by
  intro fPos pos hp hplace
  unfold place at hplace ⊢
  simp only at hplace ⊢
  have hitem : toInt (-2 ^ 31 * qset) = 0 ∨ toInt (-2 ^ 31 * qset) = -2 ^ 31 := by
    unfold toInt
    omega
  rcases hitem with hzero | hitem
  · rw [hzero] at hplace
    cases hplace
  · rw [hitem] at hplace ⊢
    have hne : ¬ (-2 ^ 31 : ℤ) = 0 := by decide
    rw [if_neg hne] at hplace
    cases hplace
    have hrest : ∀ x : ℤ, 0 ≤ x → toInt (x.tmod (-2 ^ 31)) = x % 2 ^ 31 := by
      intro x hx
      rw [Int.tmod_neg, Int.tmod_eq_emod_of_nonneg hx]
      exact toInt_of_range (by omega) (by omega)
    have hrow : ∀ x : ℤ, (x % 2 ^ 31).tdiv (-2 ^ 31) = 0 := by
      intro x
      rw [Int.tdiv_neg, Int.tdiv_eq_ediv_of_nonneg (by omega)]
      omega
    have hcol : ∀ x : ℤ, (x % 2 ^ 31).tmod (-2 ^ 31) = x % 2 ^ 31 := by
      intro x
      rw [Int.tmod_neg, Int.tmod_eq_emod_of_nonneg (by omega)]
      omega
    simp only [hrest fPos hp, hrow, hcol]
    refine ⟨le_refl _, by omega, ?_⟩
    intro i _ hi
    have hdiv : (fPos + i).tdiv (-2 ^ 31) = fPos.tdiv (-2 ^ 31) := by
      rw [Int.tdiv_neg, Int.tdiv_neg, Int.tdiv_eq_ediv_of_nonneg (by omega),
        Int.tdiv_eq_ediv_of_nonneg hp]
      omega
    rw [if_neg hne, hrest _ (by omega), hrow, hcol, hdiv]
    have hmod : (fPos + i) % 2 ^ 31 = fPos % 2 ^ 31 + i := by omega
    rw [hmod]

theorem straight_pages (order qset : ℤ) (dev : Dev) :
    Straight (dev.geometry (byPages order qset)) ((byPages order qset).alloc dev.head.unit) := by
  have hg : dev.geometry (byPages order qset) = ⟨toInt (pages dev.head.unit), dev.qset⟩ := rfl
  have ha : (byPages order qset).alloc dev.head.unit = pages dev.head.unit := rfl
  rw [hg, ha, pages_eq]
  rcases Nat.lt_trichotomy dev.head.unit.toNat 19 with hlt | heq | hgt
  · have hle : (2 : ℤ) ^ (12 + dev.head.unit.toNat) ≤ 2 ^ 30 :=
      pow_le_pow_right₀ (by decide) (by omega)
    have hpos : (0 : ℤ) < 2 ^ (12 + dev.head.unit.toNat) := pow_pos (by decide) _
    rw [toInt_of_range (by omega) (by omega)]
    refine straight_of_aligned (aligned_pow (by omega) dev.qset) ?_ _
    simp only
    omega
  · rw [heq]
    exact straight_signBit dev.qset
  · -- no bit of the size is left in an `int`, and the division traps
    obtain ⟨k, hk⟩ : ∃ k, dev.head.unit.toNat = k + 20 := ⟨_, (Nat.sub_add_cancel hgt).symm⟩
    have hsplit : (2 : ℤ) ^ (12 + dev.head.unit.toNat) = 2 ^ 32 * 2 ^ k := by
      rw [hk, ← pow_add]
      congr 1
      omega
    have hzero : toInt (2 ^ (12 + dev.head.unit.toNat)) = 0 := by
      rw [hsplit]
      unfold toInt
      omega
    intro fPos pos _ hplace
    unfold place at hplace
    simp only [hzero, Int.zero_mul] at hplace
    cases hplace

theorem straight_driver {v : Variant} {dev : Dev} (h : Driver v dev) :
    Straight (dev.geometry v) (v.alloc dev.head.unit) := by
  cases h with
  | pages order qset => exact straight_pages order qset dev
  | cache object _ hg hfits =>
      have hpos := Int.mul_pos hg.quantumPos hg.qsetPos
      have hint : toInt (dev.head.unit * dev.qset) = dev.head.unit * dev.qset :=
        toInt_of_range (by simp only [Dev.geometry, scullc] at hpos; omega) hfits
      refine straight_of_aligned ⟨hg.quantumPos, ?_⟩ (by have := hg.quantumInt; omega) _
      simp only [Dev.geometry, scullc, hint]
      exact Dvd.intro _ rfl

theorem alloc_cleared {v : Variant} {dev : Dev} (h : Driver v dev) :
    v.alloc 0 ≤ v.alloc dev.head.unit := by
  cases h with
  | pages order qset =>
      simp only [byPages, pages_eq]
      exact pow_le_pow_right₀ (by decide) (by simp)
  | cache object _ hg hfits => exact le_refl _

/-- A device without items is as its driver keeps it. -/
theorem proper_device (v : Variant) (p : Params) : Proper v p.device := by
  constructor
  · intro n s q hq
    cases n with
    | zero => cases hq
    | succ n => cases hq
  · exact fun item hitem => absurd hitem List.not_mem_nil

/-! ## One transfer -/

/-- How many bytes there are at a position, in its quantum: for a write the room, for a
read what is in front of the end of the device. -/
def avail (v : Variant) (write : Bool) (dev : Dev) (fPos : ℤ) : ℕ :=
  match place (dev.geometry v) fPos with
  | none => 0
  | some pos =>
      if write then room (dev.geometry v) pos
      else if (dev.quantumAt pos.hops pos.sPos.toNat).isSome then
        min (dev.size - fPos).toNat (room (dev.geometry v) pos)
      else 0

section Transfer

variable {v : Variant} {p : Params} {fPos : ℤ} {dev dev' : Dev} {r : Result}

/-- What no transfer changes. -/
structure SameSizes (dev dev' : Dev) : Prop where
  unit : dev'.head.unit = dev.head.unit
  qset : dev'.qset = dev.qset

theorem SameSizes.geometry (h : SameSizes dev dev') (v : Variant) :
    dev'.geometry v = dev.geometry v := by
  rw [Dev.geometry, h.unit, h.qset, Dev.geometry]

theorem SameSizes.driver (h : SameSizes dev dev') (hv : Driver v dev) : Driver v dev' := by
  cases hv with
  | pages order qset => exact .pages order qset dev'
  | cache object _ hg hfits =>
      refine .cache object dev' ?_ ?_
      · rw [h.geometry]
        exact hg
      · rw [h.unit, h.qset]
        exact hfits

/-- A read leaves the table of quanta alone. -/
theorem readOut_dev {count : ℕ} {env : Env} (h : ReadOut v count fPos env dev r) :
    r.dev = dev ∨ ∃ n, r.dev = dev.grown n := by
  cases h with
  | beyond _ hr => exact Or.inl (by rw [hr])
  | hole pos _ _ _ _ hr => exact Or.inr ⟨pos.hops, by rw [hr]⟩
  | copied pos q _ _ _ _ _ hr =>
      refine Or.inr ⟨pos.hops, ?_⟩
      rw [hr]
      unfold readResult
      split
      · rfl
      · rfl

/-- What a read leaves of its device. -/
structure Untouched (dev dev' : Dev) : Prop extends SameSizes dev dev' where
  size : dev'.size = dev.size
  quanta : ∀ n s, dev'.quantumAt n s = dev.quantumAt n s

theorem read_untouched {count : ℕ} {env : Env} (h : ReadOut v count fPos env dev r) :
    Untouched dev r.dev := by
  rcases readOut_dev h with hdev | ⟨n, hdev⟩
  · rw [hdev]
    exact ⟨⟨rfl, rfl⟩, rfl, fun _ _ => rfl⟩
  · rw [hdev]
    exact ⟨⟨rfl, rfl⟩, rfl, fun _ _ => by simp⟩

theorem Untouched.byteAt_eq (h : Untouched dev dev') (v : Variant) (x : ℤ) :
    byteAt v dev' x = byteAt v dev x := by
  simp only [byteAt, h.geometry, h.quanta]

/-- How a read goes. -/
theorem read_served {count : ℕ} {env : Env} (hg : Straight (dev.geometry v) (v.alloc dev.head.unit))
    (hdev : Proper v dev) (hp : 0 ≤ fPos) (h : ReadOut v count fPos env dev r) :
    r.ret = -EFAULT ∧ r.fPos = fPos ∨
      r.ret = (min count (avail v false dev fPos) : ℕ) ∧ r.fPos = fPos + r.ret ∧
        r.data.length = r.ret.toNat ∧ ∀ i < r.ret.toNat, r.data[i]? = byteAt v dev (fPos + i) := by
  cases h with
  | beyond hsize hr =>
      have hnone : avail v false dev fPos = 0 := by
        unfold avail
        split
        · rfl
        · rw [if_neg (by decide)]
          split
          · omega
          · rfl
      rw [hr, hnone]
      exact Or.inr ⟨by simp, by simp, rfl, nofun⟩
  | hole pos hsize hplace hnodes hq hr =>
      have hnone : avail v false dev fPos = 0 := by simp [avail, hplace, hq]
      rw [hr, hnone]
      exact Or.inr ⟨by simp, by simp, rfl, nofun⟩
  | copied pos q hsize hplace hnodes hq hin hr =>
      have hcount : readCount v dev count fPos pos = min count (avail v false dev fPos) := by
        simp only [readCount, avail, hplace, hq, Option.isSome_some, if_true, Bool.false_eq_true,
          if_false, Nat.min_assoc]
      have hlong := hdev.quanta _ _ _ hq
      rw [hr]
      unfold readResult
      cases hf : env.fault with
      | some k => exact Or.inl ⟨rfl, rfl⟩
      | none =>
          refine Or.inr ⟨by rw [hcount], rfl, ?_, ?_⟩
          · simp only [List.length_take, List.length_drop, Int.toNat_natCast]
            omega
          · intro i hi
            simp only [Int.toNat_natCast] at hi
            rw [byteAt_advance hg hp hplace hq (by unfold readCount at hi; omega) (by omega)]
            simp only
            rw [List.getElem?_take_of_lt hi]

/-- What a write leaves of the sizes, however it goes. -/
theorem write_sizes {buf : List UInt8} {env : Env} (h : WriteOut v p buf fPos env dev r) :
    SameSizes dev r.dev := by
  cases h with
  | refused pos _ _ hr =>
      rcases hr with hr | ⟨arr, _, hr⟩
      · rw [hr]
        exact ⟨rfl, rfl⟩
      · rw [hr]
        exact ⟨setData_unit _ _ _, setData_qset _ _ _⟩
  | stored pos item arr q _ _ _ _ _ _ hr =>
      rw [hr]
      unfold writeResult
      simp only
      split
      · exact ⟨setData_unit _ _ _, setData_qset _ _ _⟩
      · exact ⟨setData_unit _ _ _, setData_qset _ _ _⟩

/-- A quantum that is allocated has the length that was asked for. -/
theorem allocQuantum_length {item : Item} {env : Env} {q : List UInt8}
    (h : allocQuantum v p item env = .ok (some q)) : (q.length : ℤ) = v.alloc item.unit := by
  unfold allocQuantum at h
  cases hk : kmallocQuantum (v.alloc item.unit) env.heap with
  | none =>
      rw [hk] at h
      cases h
  | some q₀ =>
      simp only [hk] at h
      rcases memset_cases q₀ (v.clear item.unit p.unit) with ⟨herr, _⟩ | ⟨q', hok, hlen, _⟩
      · rw [herr] at h
        cases h
      · rw [hok] at h
        cases h
        rw [hlen]
        exact kmallocQuantum_length hk

/-- The quantum that a write has reached is one that its driver allocates. -/
theorem reached_length {env : Env} {pos : Place} {item : Item} {arr : PtrArray} {q : List UInt8}
    (hv : Driver v dev) (hdev : Proper v dev)
    (hitem : (dev.grown pos.hops).items[pos.hops]? = some item)
    (harr : (dev.arrayAt pos.hops).or (kmallocArray dev.qset env.array) = some arr)
    (hq : arr[pos.sPos.toNat]? = some (some q) ∨
      arr[pos.sPos.toNat]? = some none ∧ allocQuantum v p item env = .ok (some q)) :
    (q.length : ℤ) ≤ v.alloc dev.head.unit := by
  rcases hq with hold | ⟨_, hnew⟩
  · refine hdev.quanta pos.hops pos.sPos.toNat q ?_
    rw [← Dev.or_kmallocArray_join dev harr, hold]
    rfl
  · rw [allocQuantum_length hnew]
    rcases List.mem_cons.mp (List.mem_of_getElem? hitem) with hhead | hnext
    · rw [hhead]
      exact le_refl _
    · rw [Dev.grown_cleared dev hdev.cleared item hnext]
      exact alloc_cleared hv

/-- A slot that a write has reached is one of its array. -/
theorem reached_lt {arr : PtrArray} {i : ℕ} {q : List UInt8} {P : Prop}
    (hq : arr[i]? = some (some q) ∨ arr[i]? = some none ∧ P) : i < arr.length := by
  rcases hq with hold | ⟨hold, _⟩
  · exact (List.getElem?_eq_some_iff.mp hold).1
  · exact (List.getElem?_eq_some_iff.mp hold).1

/-- A write keeps what its driver keeps. -/
theorem write_proper {buf : List UInt8} {env : Env} (hv : Driver v dev) (hdev : Proper v dev)
    (h : WriteOut v p buf fPos env dev r) : Proper v r.dev := by
  have hunit := (write_sizes h).unit
  constructor
  · rw [hunit]
    cases h with
    | refused pos _ _ hr =>
        rcases hr with hr | ⟨arr, harr, hr⟩
        · simp only [hr, Dev.grown_quantumAt]
          exact hdev.quanta
        · simp only [hr, Dev.grown_setData_quantumAt dev harr]
          exact hdev.quanta
    | stored pos item arr q hplace hnodes hitem harr hq hin hr =>
        have hlong := reached_length hv hdev hitem harr hq
        intro m s x hx
        rw [hr, writeResult_quantumAt harr (reached_lt hq)] at hx
        split at hx
        · cases hx
          rw [stored_length hin]
          exact hlong
        · exact hdev.quanta m s x hx
  · cases h with
    | refused pos _ _ hr =>
        rcases hr with hr | ⟨arr, harr, hr⟩
        · rw [hr]
          exact Dev.grown_cleared dev hdev.cleared
        · rw [hr]
          exact Dev.setData_cleared _ (Dev.grown_cleared dev hdev.cleared) arr _
    | stored pos item arr q _ _ _ _ _ _ hr =>
        have hnext := Dev.setData_cleared _ (Dev.grown_cleared dev hdev.cleared (n := pos.hops))
        rw [hr]
        unfold writeResult
        simp only
        split
        · exact hnext _ _
        · exact hnext _ _

/-- The bytes of `src` have gone into the quantum at `pos`, which is new or has been `q`. -/
structure Overwritten (dev dev' : Dev) (pos : Place) (q src : List UInt8) : Prop
    extends SameSizes dev dev' where
  quanta : ∀ m s, dev'.quantumAt m s =
    if m = pos.hops ∧ s = pos.sPos.toNat then some (overwrite q pos.qPos.toNat src)
    else dev.quantumAt m s
  old : ∀ q₀, dev.quantumAt pos.hops pos.sPos.toNat = some q₀ → q₀ = q

section Overwritten

variable {pos : Place} {q src : List UInt8} {limit : ℤ}

/-- They are the bytes at the positions from `fPos` on. -/
theorem Overwritten.byteAt_inside (h : Overwritten dev dev' pos q src)
    (hg : Straight (dev.geometry v) limit) (hp : 0 ≤ fPos)
    (hplace : place (dev.geometry v) fPos = some pos) (hlong : q.length ≤ limit)
    (hin : 0 ≤ pos.qPos ∧ pos.qPos + src.length ≤ q.length)
    (hroom : src.length ≤ room (dev.geometry v) pos) {i : ℕ} (hi : i < src.length) :
    byteAt v dev' (fPos + i) = src[i]? := by
  have hq' : dev'.quantumAt pos.hops pos.sPos.toNat = some (overwrite q pos.qPos.toNat src) := by
    rw [h.quanta, if_pos ⟨rfl, rfl⟩]
  rw [← h.geometry v] at hg hplace hroom
  have hle : pos.qPos.toNat ≤ q.length := by omega
  rw [byteAt_advance hg hp hplace hq' (by omega) (by omega), ← List.getElem?_take_of_lt hi,
    take_drop_overwrite hle]

/-- The bytes at other places are as they were. -/
theorem Overwritten.byteAt_outside (h : Overwritten dev dev' pos q src)
    (hg : Straight (dev.geometry v) limit) (hp : 0 ≤ fPos)
    (hplace : place (dev.geometry v) fPos = some pos) (hlong : q.length ≤ limit)
    (hin : 0 ≤ pos.qPos ∧ pos.qPos + src.length ≤ q.length)
    (hroom : src.length ≤ room (dev.geometry v) pos) {x : ℤ} (hx : 0 ≤ x)
    (hother : ∀ i < src.length, place (dev.geometry v) x ≠ place (dev.geometry v) (fPos + i))
    {b : UInt8} (hold : byteAt v dev x = some b) : byteAt v dev' x = some b := by
  unfold byteAt at hold ⊢
  rw [h.geometry v]
  obtain ⟨px, hpx, hold⟩ := Option.bind_eq_some_iff.mp hold
  obtain ⟨qx, hqx, hold⟩ := Option.bind_eq_some_iff.mp hold
  rw [hpx, Option.bind_some, h.quanta]
  split
  · -- the same quantum, and another byte of it
    rename_i hsame
    have hrow := place_row hg hx hp hpx hplace hsame.1 hsame.2
    have hcol := (hg x px hx hpx).2.1
    rw [hsame.1, hsame.2] at hqx
    rw [h.old qx hqx] at hold
    rw [Option.bind_some, overwrite_getElem? (by omega), patch_of_notMem, hold]
    by_contra hmem
    refine hother (px.qPos - pos.qPos).toNat (by omega) ?_
    have hnext := (hg fPos pos hp hplace).2.2 (px.qPos - pos.qPos).toNat
    have hback : pos.qPos + ((px.qPos - pos.qPos).toNat : ℤ) = px.qPos := by omega
    rw [hpx, hnext (by omega) (by omega), ← hrow.1, ← hrow.2, hback]
  · -- another quantum
    rw [hqx, Option.bind_some]
    exact hold

end Overwritten

/-- A write that comes to its copy, and copies all of it. -/
theorem write_overwritten {buf : List UInt8} {env : Env} {pos : Place} {arr : PtrArray}
    {q : List UInt8} {P : Prop} (hf : env.fault = none)
    (harr : (dev.arrayAt pos.hops).or (kmallocArray dev.qset env.array) = some arr)
    (hq : arr[pos.sPos.toNat]? = some (some q) ∨ arr[pos.sPos.toNat]? = some none ∧ P)
    (hr : r = writeResult v buf fPos env pos arr q (dev.grown pos.hops))
    (hsizes : SameSizes dev r.dev) :
    Overwritten dev r.dev pos q (buf.take (room (dev.geometry v) pos)) := by
  have hdata : stored v dev buf env pos q =
      overwrite q pos.qPos.toNat (buf.take (room (dev.geometry v) pos)) := by
    rw [stored, hf]
    rfl
  refine ⟨hsizes, ?_, ?_⟩
  · intro m s
    rw [hr, ← hdata]
    exact writeResult_quantumAt harr (reached_lt hq) q m s
  · intro q₀ hold
    rw [← Dev.or_kmallocArray_join dev harr] at hold
    rcases hq with hslot | ⟨hslot, _⟩
    · rw [hslot] at hold
      exact (Option.some.inj hold).symm
    · rw [hslot] at hold
      cases hold

/-- How a write goes. -/
theorem write_served {buf : List UInt8} {env : Env} (hv : Driver v dev) (hdev : Proper v dev)
    (hp : 0 ≤ fPos) (h : WriteOut v p buf fPos env dev r) :
    -ENOMEM ≥ r.ret ∧ r.ret ≥ -EFAULT ∧ r.fPos = fPos ∨
      r.ret = (min buf.length (avail v true dev fPos) : ℕ) ∧ r.fPos = fPos + r.ret ∧
        (∀ i < r.ret.toNat, byteAt v r.dev (fPos + i) = buf[i]?) ∧
        ∀ x b, 0 ≤ x → (∀ i < r.ret.toNat,
            place (dev.geometry v) x ≠ place (dev.geometry v) (fPos + i)) →
          byteAt v dev x = some b → byteAt v r.dev x = some b := by
  have hg := straight_driver hv
  have hsizes := write_sizes h
  cases h with
  | refused pos _ _ hr =>
      rcases hr with hr | ⟨arr, _, hr⟩
      · rw [hr]
        exact Or.inl ⟨by simp, by simp [ENOMEM, EFAULT], rfl⟩
      · rw [hr]
        exact Or.inl ⟨by simp, by simp [ENOMEM, EFAULT], rfl⟩
  | stored pos item arr q hplace hnodes hitem harr hq hin hr =>
      cases hf : env.fault with
      | some k =>
          -- a fault: what has been copied is there, and is not counted
          refine Or.inl ?_
          rw [hr]
          simp [writeResult, hf, ENOMEM, EFAULT]
      | none =>
          have hcount : (buf.take (room (dev.geometry v) pos)).length =
              min buf.length (avail v true dev fPos) := by
            simp only [avail, hplace, if_true, List.length_take]
            omega
          have hret : r.ret = ((buf.take (room (dev.geometry v) pos)).length : ℤ) := by
            rw [hr]
            simp [writeResult, hf]
          have hpos : r.fPos = fPos + r.ret := by
            rw [hret, hr]
            simp [writeResult, hf]
          have hlong := reached_length hv hdev hitem harr hq
          have hover := write_overwritten hf harr hq hr hsizes
          have hroom : (buf.take (room (dev.geometry v) pos)).length ≤ room (dev.geometry v) pos :=
            List.length_take_le _ _
          refine Or.inr ⟨by rw [hret, hcount], hpos, ?_, ?_⟩
          · intro i hi
            rw [hret, Int.toNat_natCast] at hi
            rw [hover.byteAt_inside hg hp hplace hlong hin hroom hi]
            exact List.getElem?_take_of_lt (by omega)
          · intro x b hx hother hold
            rw [hret, Int.toNat_natCast] at hother
            exact hover.byteAt_outside hg hp hplace hlong hin hroom hx hother hold

end Transfer

end ScullFamily
