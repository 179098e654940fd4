import DriversLab.Scull.Divisors

/-!
# Scull.Reading — the items that a read finds

`scull_follow` appends what is missing, also for a read. That a read changes nothing is a
matter of how long the list is: as long as no write has wrapped the index of its item, the
list covers the size of the device.

* `place_hops_le`: the walk is never longer than the index of the item;
* `Covers`: every byte below the size lies in an item of the list;
* `Calls.covers_step`: writes keep that;
* `read_unchanged`: a read of a device that is covered appends nothing.
-/

namespace Scull

open CInt Lts

/-! ## How far the walk goes -/

section Walk

variable {g : Geometry} {fPos : ℕ} {pos : Place}

/-- The bytes of an item. -/
def Geometry.itemsize (g : Geometry) : ℕ := g.quantum.toNat * g.qset.toNat

theorem Geometry.Sound.itemsize_pos (h : g.Sound) : 0 < g.itemsize := by
  obtain ⟨hq, hs, _⟩ := sound_iff.mp h
  exact Nat.mul_pos (by omega) (by omega)

/-- The place, with natural numbers. -/
theorem Geometry.Sound.place_eq (h : g.Sound) (fPos : ℕ) :
    place g fPos = some ⟨toInt (fPos / g.itemsize : ℕ), (fPos % g.itemsize / g.quantum.toNat : ℕ),
      (fPos % g.itemsize % g.quantum.toNat : ℕ)⟩ := by
  obtain ⟨hq, hs, hfits⟩ := sound_iff.mp h
  obtain ⟨quantum, qset⟩ := g
  unfold Geometry.Fits at hfits
  simp only at hq hs hfits
  lift quantum to ℕ using hq.le
  lift qset to ℕ using hs.le
  exact place_nat (by omega) (by omega) (by exact_mod_cast hfits) fPos

/-- The walk is never longer than the index of the item. -/
theorem place_hops_le (h : g.Sound) (hplace : place g fPos = some pos) :
    pos.hops ≤ fPos / g.itemsize := by
  rw [h.place_eq] at hplace
  obtain rfl := Option.some.inj hplace
  simp only [Place.hops, toUInt_toInt]
  generalize fPos / g.itemsize = index
  unfold toUInt
  omega

/-- It is as long, where the index is an `unsigned int`. -/
theorem place_hops_eq (h : g.Sound) (hplace : place g fPos = some pos)
    (hreach : fPos / g.itemsize < 2 ^ 32) : pos.hops = fPos / g.itemsize := by
  rw [h.place_eq] at hplace
  obtain rfl := Option.some.inj hplace
  simp only [Place.hops, toUInt_toInt]
  rw [toUInt_of_range (Int.natCast_nonneg _) (by omega), Int.toNat_natCast]

/-- The room in a quantum ends with its item. -/
theorem place_room_le (h : g.Sound) (hplace : place g fPos = some pos) :
    fPos + room g pos ≤ g.itemsize * (fPos / g.itemsize + 1) := by
  obtain ⟨hq, _, hfits⟩ := sound_iff.mp h
  have hpos := h.itemsize_pos
  have hquantum : (g.quantum.toNat : ℤ) = g.quantum := Int.toNat_of_nonneg hq.le
  have hitem : g.itemsize * (fPos / g.itemsize) + fPos % g.itemsize = fPos := Nat.div_add_mod _ _
  have hrest : fPos % g.itemsize < g.quantum.toNat * g.qset.toNat := Nat.mod_lt _ hpos
  rw [h.place_eq] at hplace
  obtain rfl := Option.some.inj hplace
  -- the quantum is one of the `qset` quanta of the item
  have hrow : fPos % g.itemsize / g.quantum.toNat + 1 ≤ g.qset.toNat :=
    Nat.div_lt_of_lt_mul hrest
  have hquanta : g.quantum.toNat * (fPos % g.itemsize / g.quantum.toNat + 1) ≤ g.itemsize :=
    Nat.mul_le_mul_left _ hrow
  have hcol := Nat.div_add_mod (fPos % g.itemsize) g.quantum.toNat
  have hlt := Nat.mod_lt (fPos % g.itemsize) (by omega : 0 < g.quantum.toNat)
  have hroom : room g ⟨toInt (fPos / g.itemsize : ℕ), (fPos % g.itemsize / g.quantum.toNat : ℕ),
      (fPos % g.itemsize % g.quantum.toNat : ℕ)⟩ ≤
        g.quantum.toNat - fPos % g.itemsize % g.quantum.toNat := by
    simp only [room, toULong]
    generalize fPos % g.itemsize % g.quantum.toNat = col at hlt
    omega
  rw [Nat.mul_add, Nat.mul_one] at hquanta ⊢
  omega

end Walk

/-! ## The list -/

theorem scullFollow_length (nodes n : ℕ) (items : List ScullQset) :
    items.length ≤ (scullFollow nodes n items).2.length := by
  induction nodes, n, items using scullFollow.induct with
  | case1 nodes qs rest => simp [scullFollow]
  | case2 n => simp [scullFollow]
  | case3 nodes => simp [scullFollow]
  | case4 nodes n qs rest ih => simpa [scullFollow] using ih
  | case5 nodes n ih => simp [scullFollow]

/-- What is there need not be appended. -/
theorem scullFollow_present {nodes n : ℕ} {items : List ScullQset} (h : n < items.length) :
    (scullFollow nodes n items).2 = items := by
  induction nodes, n, items using scullFollow.induct with
  | case1 nodes qs rest => simp [scullFollow]
  | case2 n => exact absurd h (Nat.not_lt_zero _)
  | case3 nodes => exact absurd h (Nat.not_lt_zero _)
  | case4 nodes n qs rest ih =>
      simp only [scullFollow]
      rw [ih (Nat.lt_of_succ_lt_succ h)]
  | case5 nodes n ih => exact absurd h (Nat.not_lt_zero _)

/-- Every byte below the size lies in an item of the list. -/
def Covers (dev : ScullDev) : Prop := dev.size ≤ dev.geometry.itemsize * dev.data.length

/-- How a write changes the size: it does not, or it has gone to an item of the list. -/
inductive Extent (g : Geometry) (fPos : ℕ) (dev dev' : ScullDev) : Prop where
  | same (hsize : dev'.size = dev.size) (hlen : dev.data.length ≤ dev'.data.length)
  | longer (pos : Place) (n : ℕ) (hplace : place g fPos = some pos) (hn : n ≤ room g pos)
      (hsize : dev'.size ≤ max dev.size (fPos + n)) (hlen : dev.data.length ≤ dev'.data.length)
      (hin : pos.hops < dev'.data.length)

section Transfers

variable {g : Geometry} {fPos : ℕ} {env : Env} {dev : ScullDev} {r : Transfer}

theorem writeArray_extent {buf : List UInt8} {pos : Place} {arr : List (Option (List UInt8))}
    (hplace : place g fPos = some pos) (hin : pos.hops < dev.data.length)
    (h : writeArray g buf fPos env pos arr dev = .ok r) : Extent g fPos dev r.dev := by
  unfold writeArray at h
  cases hslot : slot arr pos.sPos with
  | error e =>
      rw [hslot] at h
      cases h
  | ok x =>
      rw [hslot, ok_bind] at h
      cases hq : x.or (kmallocQuantum g.quantum env.heap) with
      | none =>
          rw [hq] at h
          cases h
          exact .same rfl (by simp)
      | some q =>
          rw [hq] at h
          simp only at h
          cases hcopy : inQuantum q pos.qPos (buf.take (room g pos)).length with
          | error e =>
              rw [hcopy] at h
              cases h
          | ok u =>
              rw [hcopy, ok_bind] at h
              split at h
              · cases h
                exact .same rfl (by simp)
              · cases h
                refine .longer pos (buf.take (room g pos)).length hplace (List.length_take_le _ _)
                  ?_ (by simp) (by simpa using hin)
                simp only
                split
                · omega
                · omega

theorem write_extent {buf : List UInt8} (h : scullWrite g buf fPos env dev = .ok r) :
    Extent g fPos dev r.dev := by
  unfold scullWrite at h
  cases hplace : place g fPos with
  | none =>
      rw [hplace] at h
      cases h
  | some pos =>
      have hlen := scullFollow_length env.nodes pos.hops dev.data
      simp only [hplace] at h
      cases hptr : (scullFollow env.nodes pos.hops dev.data).1 with
      | none =>
          rw [hptr] at h
          cases h
          exact .same rfl hlen
      | some item =>
          rw [hptr] at h
          simp only at h
          cases harr : item.data.or (kmallocArray g.qset env.array) with
          | none =>
              rw [harr] at h
              cases h
              exact .same rfl hlen
          | some arr =>
              rw [harr] at h
              have hin := (List.getElem?_eq_some_iff.mp (scullFollow_found hptr)).1
              cases writeArray_extent hplace hin h with
              | same hsize hlen' => exact .same hsize (hlen.trans hlen')
              | longer pos' n hplace' hn hsize hlen' hin' =>
                  exact .longer pos' n hplace' hn hsize (hlen.trans hlen') hin'

theorem readArray_dev {count : ℕ} {pos : Place} {arr : List (Option (List UInt8))}
    (h : readArray g count fPos env pos arr dev = .ok r) : r.dev = dev := by
  unfold readArray at h
  cases hslot : slot arr pos.sPos with
  | error e =>
      rw [hslot] at h
      cases h
  | ok x =>
      rw [hslot, ok_bind] at h
      cases x with
      | none =>
          cases h
          rfl
      | some q =>
          simp only at h
          cases hcopy : inQuantum q pos.qPos (min count (room g pos)) with
          | error e =>
              rw [hcopy] at h
              cases h
          | ok u =>
              rw [hcopy, ok_bind] at h
              split at h
              · cases h
                rfl
              · cases h
                rfl

/-- A read appends what its walk does not find. -/
theorem read_dev {count : ℕ} (h : scullRead g count fPos env dev = .ok r) : r.dev = dev ∨
    fPos < dev.size ∧ ∃ pos, place g fPos = some pos ∧
      r.dev = { dev with data := (scullFollow env.nodes pos.hops dev.data).2 } := by
  unfold scullRead at h
  split at h
  · cases h
    exact Or.inl rfl
  · rename_i hsize
    cases hplace : place g fPos with
    | none =>
        rw [hplace] at h
        cases h
    | some pos =>
        refine Or.inr ⟨by omega, pos, rfl, ?_⟩
        simp only [hplace] at h
        cases hdata : (scullFollow env.nodes pos.hops dev.data).1.bind ScullQset.data with
        | none =>
            rw [hdata] at h
            cases h
            rfl
        | some arr =>
            rw [hdata] at h
            exact readArray_dev h

/-- A read of a device that is covered finds its item. -/
theorem read_unchanged {count : ℕ} (hg : dev.geometry.Sound) (hc : Covers dev)
    (h : scullRead dev.geometry count fPos env dev = .ok r) : r.dev = dev := by
  rcases read_dev h with hdev | ⟨hlt, pos, hplace, hdev⟩
  · exact hdev
  · have hle := place_hops_le hg hplace
    have hin : fPos / dev.geometry.itemsize < dev.data.length :=
      Nat.div_lt_of_lt_mul (hlt.trans_le hc)
    rw [hdev, scullFollow_present (by omega)]

end Transfers

theorem Geometry.Sound.ints {g : Geometry} (h : g.Sound) : g.Ints := by
  obtain ⟨hq, hs, hfits⟩ := sound_iff.mp h
  unfold Geometry.Fits at hfits
  have hquantum : g.quantum * 1 ≤ g.quantum * g.qset := Int.mul_le_mul_of_nonneg_left hs hq.le
  have hqset : 1 * g.qset ≤ g.quantum * g.qset := Int.mul_le_mul_of_nonneg_right hq hs.le
  constructor
  · omega
  · omega

/-! ## Runs -/

namespace Calls

/-- No call but an ioctl changes the parameters. -/
def FixedSizes : CallAct → Prop
  | .ioctl _ _ _ => False
  | _ => True

/-- A write goes to an item whose index is an `unsigned int`. -/
def InReach (s : CallSys) : CallAct → Prop
  | .write fPos _ _ => fPos / s.dev.geometry.itemsize < 2 ^ 32
  | _ => True

/-- With the parameters `p`, the list covers the device. -/
structure Covered (p : Params) (s : CallSys) : Prop where
  built : Built s
  params : s.params = p
  geometry : s.dev.geometry = p.geometry
  covers : Covers s.dev

variable {p : Params} {s : CallSys}

theorem covers_extent {g : Geometry} {fPos : ℕ} {dev dev' : ScullDev} (hg : g.Sound)
    (hgeometry : dev.geometry = g) (hgeometry' : dev'.geometry = g)
    (hreach : fPos / g.itemsize < 2 ^ 32) (hc : Covers dev) (h : Extent g fPos dev dev') :
    Covers dev' := by
  unfold Covers at hc ⊢
  rw [hgeometry] at hc
  rw [hgeometry']
  cases h with
  | same hsize hlen =>
      rw [hsize]
      exact hc.trans (Nat.mul_le_mul_left _ hlen)
  | longer pos n hplace hn hsize hlen hin =>
      have hroom := place_room_le hg hplace
      have hitem := Nat.mul_le_mul_left g.itemsize hin
      rw [place_hops_eq hg hplace hreach] at hitem
      have hold := Nat.mul_le_mul_left g.itemsize hlen
      refine hsize.trans (max_le (hc.trans hold) ?_)
      calc fPos + n ≤ fPos + room g pos := Nat.add_le_add_left hn _
        _ ≤ g.itemsize * (fPos / g.itemsize + 1) := hroom
        _ ≤ g.itemsize * dev'.data.length := hitem

theorem covers_step (hp : p.geometry.Sound) (hi : Covered p s) {a : CallAct} (hfixed : FixedSizes a)
    (hreach : InReach s a) : Covered p (update s a) := by
  obtain ⟨hbuilt, hparams, hgeometry, hcovers⟩ := hi
  have hnext := built_step hbuilt a
  cases a with
  | ioctl cmd arg user => exact absurd hfixed id
  | openFile wronly =>
      cases wronly with
      | false => exact ⟨hnext, hparams, hgeometry, hcovers⟩
      | true =>
          refine ⟨hnext, hparams, ?_, Nat.zero_le _⟩
          simp only [update, scullOpen, if_true, scullTrim, hparams]
  | read fPos count env =>
      have hkept := kept_read hbuilt fPos count env
      refine ⟨hnext, (transferred_params s _).trans hparams, hkept.geometry.trans hgeometry, ?_⟩
      simp only [update]
      cases hr : scullRead s.dev.geometry count fPos env s.dev with
      | error e => exact hcovers
      | ok r =>
          simp only [transferred]
          rw [read_unchanged (hgeometry ▸ hp) hcovers hr]
          exact hcovers
  | write fPos buf env =>
      have hsame := geometry_write hbuilt fPos buf env
      refine ⟨hnext, (transferred_params s _).trans hparams, hsame.trans hgeometry, ?_⟩
      simp only [update] at hsame ⊢
      cases hr : scullWrite s.dev.geometry buf fPos env s.dev with
      | error e => exact hcovers
      | ok r =>
          rw [hr] at hsame
          simp only [transferred] at hsame ⊢
          exact covers_extent (hgeometry ▸ hp) rfl hsame hreach hcovers (write_extent hr)

theorem covered_init (hp : p.geometry.Sound) : Covered p (init p) :=
  ⟨built_init hp.ints, rfl, rfl, Nat.zero_le _⟩

/-- In a run in which the sizes are fixed, and no write wraps the index of its item, the list
always covers the device. -/
theorem covered_run (hp : p.geometry.Sound) {as : List CallAct} (hfixed : ∀ a ∈ as, FixedSizes a)
    (hreach : Along step InReach (init p) as) (hrun : run step (init p) as = some s) :
    Covered p s := by
  have hsteps := along_and ((along_const hrun).mpr hfixed) hreach
  refine run_invariant_along ?_ (covered_init hp) hsteps hrun
  rintro s a s' hi ⟨hfix, hin⟩ hs
  cases hs
  exact covers_step hp hi hfix hin

end Calls

end Scull
