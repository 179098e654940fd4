import DriversLab.ScullFamily.System

/-!
# ScullFamily.PageOrder — quanta of whole pages

scullp, scullv and sculld keep `order` in the first item. A transfer takes a quantum for
`PAGE_SIZE << dev->order` bytes long; the quantum was allocated with `dptr->order`, the
order of the item that was filled, and `scullp_follow` clears the items that it adds.

* `page_order`: every quantum is large enough, and no copy leaves its allocation, in
  exactly the runs in which no quantum is allocated behind the first item of a device
  whose order is not zero.
-/

namespace ScullFamily

open CInt Scull Lts Sys

/-- An order with which `PAGE_SIZE << order` is an `int`, and a positive `qset`. -/
structure OrderOk (p : Params) : Prop where
  order : 0 ≤ p.unit
  pagesInt : pages p.unit < 2 ^ 31
  qsetPos : 0 < p.qset
  qsetInt : p.qset < 2 ^ 31

/-- A write allocates a quantum in the first item, or the order is zero. -/
def FirstItem (v : Variant) (s : Sys) : Act → Prop
  | .write f d fPos _ env => s.files[f]? = some (d, fPos) → ∀ dev, s.devs[d]? = some dev →
      ∀ at', Fills v fPos env dev at' → at'.pos.hops = 0 ∨ dev.head.unit = 0
  | _ => True

theorem pages_pos (order : ℤ) : 0 < pages order := by
  unfold pages PAGE_SIZE
  have := Int.pow_pos (n := 2) (m := order.toNat) (by decide)
  omega

/-- A single page is as large as `PAGE_SIZE << order` only for the order zero. -/
theorem pages_le_zero_iff {order : ℤ} (h : 0 ≤ order) : pages order ≤ pages 0 ↔ order = 0 := by
  constructor
  · intro hle
    by_contra hne
    have hsucc : order.toNat = (order.toNat - 1) + 1 := by omega
    have hpos := Int.pow_pos (n := 2) (m := order.toNat - 1) (by decide)
    unfold pages PAGE_SIZE at hle
    rw [hsucc, Int.pow_succ, Int.toNat_zero, Int.pow_zero] at hle
    omega
  · rintro rfl
    exact le_refl _

theorem toInt_pages {p : Params} (hp : OrderOk p) : toInt (pages p.unit) = pages p.unit :=
  toInt_of_range (by have := pages_pos p.unit; omega) hp.pagesInt

section

variable {order qset : ℤ}

theorem sizes_byPages : Sizes (byPages order qset) OrderOk := by
  intro p hp
  have hquantum : (p.device.geometry (byPages order qset)).quantum = pages p.unit := toInt_pages hp
  refine ⟨?_, ?_, hp.qsetPos, hp.qsetInt⟩
  · rw [hquantum]
    exact pages_pos p.unit
  · rw [hquantum]
    exact hp.pagesInt

/-- In the first item a quantum has the order of the device, behind it the order zero. -/
theorem fits_iff {dev : Dev} (hshape : Shape (byPages order qset) dev)
    (hok : OrderOk ⟨dev.head.unit, dev.qset⟩) {p : Params} {fPos : ℤ} {env : Env} {at' : Arrival}
    (hat : arrive (byPages order qset) fPos env dev = .ok at') :
    Fits (byPages order qset) p dev at'.item ↔ at'.pos.hops = 0 ∨ dev.head.unit = 0 := by
  have ha := arrive_spec hshape hat
  have hquantum : (byPages order qset).quantum dev.head.unit = pages dev.head.unit := by
    have h := toInt_pages hok
    exact h
  have hpages : Fits (byPages order qset) p dev at'.item ↔
      pages dev.head.unit ≤ pages at'.item.unit := by
    unfold Fits
    rw [hquantum]
    exact ⟨fun h => h.1, fun h => ⟨h, (pages_pos _).le, le_refl _⟩⟩
  rw [hpages]
  have hitem := ha.item
  cases hhops : at'.pos.hops with
  | zero =>
      rw [hhops] at hitem
      have hhead : at'.dev.head = at'.item := Option.some.inj hitem
      rw [← hhead, ha.unit]
      simp
  | succ n =>
      rw [hhops] at hitem
      have hunit : at'.item.unit = 0 := ha.shape.cleared _ (List.mem_of_getElem? hitem)
      rw [hunit, pages_le_zero_iff hok.order]
      simp

/-- For scullp, scullv and sculld, and every run of opens, reads, writes, seeks and ioctls
that set valid parameters: every quantum that can be reached has `PAGE_SIZE << dev->order`
bytes at least, and no copy leaves its allocation, exactly if no write allocates a quantum
behind the first item while the order of the device is above zero. -/
theorem page_order {v : Variant} (hv : v ∈ [scullp, scullv, sculld]) {p : Params} (hp : OrderOk p)
    (n : ℕ) {as : List Act} (has : Along (step v) (IoctlOk v OrderOk) (init p n) as) :
    Along (step v) (Sound v) (init p n) as ↔ Along (step v) (FirstItem v) (init p n) as := by
  have hpages : ∃ order qset, v = byPages order qset := by
    simp only [List.mem_cons, List.not_mem_nil, or_false] at hv
    rcases hv with rfl | rfl | rfl
    · exact ⟨_, _, rfl⟩
    · exact ⟨_, _, rfl⟩
    · exact ⟨_, _, rfl⟩
  rcases hpages with ⟨order, qset, rfl⟩
  refine quanta sizes_byPages ?_ hp n has
  intro s a hi
  cases a with
  | write f d fPos buf env =>
      have hfits : ∀ dev, s.devs[d]? = some dev →
          ∀ at', Fills (byPages order qset) fPos env dev at' →
          (Fits (byPages order qset) s.params dev at'.item ↔
            at'.pos.hops = 0 ∨ dev.head.unit = 0) := by
        intro dev hdev at' hfill
        have hok := hi.devs dev (List.mem_of_getElem? hdev)
        exact fits_iff hok.1 hok.2 hfill.1
      constructor
      · intro h hfile dev hdev at' hfill
        exact (hfits dev hdev at' hfill).mp (h hfile dev hdev at' hfill)
      · intro h hfile dev hdev at' hfill
        exact (hfits dev hdev at' hfill).mpr (h hfile dev hdev at' hfill)
  | _ => exact Iff.rfl

end

/-! ## scullv as it is loaded -/

/-- Everything is served. -/
def allServed : Env := ⟨1, true, some fun _ => 170, none⟩

def scullvLoaded : Params := ⟨SCULLV_ORDER, SCULLV_QSET⟩

theorem scullvLoaded_ok : OrderOk scullvLoaded := by
  constructor <;> decide

/-- A byte is written at the beginning. -/
def firstByte : List Act := [.openFile 0 false, .write 0 0 0 [7] allServed]

theorem page_order_first : Along (step scullv) (Sound scullv) (init scullvLoaded 1) firstByte := by
  refine (page_order (by simp) scullvLoaded_ok 1 ?_).mpr ?_
  · refine along_of_forall ?_
    intro a ha s
    simp only [firstByte, List.mem_cons, List.not_mem_nil, or_false] at ha
    rcases ha with rfl | rfl <;> trivial
  · refine ⟨trivial, ?_⟩
    intro s hs
    refine ⟨?_, fun _ _ => trivial⟩
    intro _ dev hdev at' hfill
    cases hs
    cases hdev
    refine Or.inl ?_
    have hplace := (arrive_spec (shape_device (sizes_byPages _ scullvLoaded_ok)) hfill.1).place
    have hpos : at'.pos = ⟨0, 0, 0⟩ := Option.some.inj (hplace.symm.trans (by decide +kernel))
    rw [hpos]
    decide

/-- A byte is written at the beginning of the second item: its quantum is one page, the
device takes it for sixteen. -/
theorem page_order_second : ∃ s, run (step scullv) (init scullvLoaded 1)
    [.openFile 0 false, .llseek 0 0 0 32768000 .seekSet] = some s ∧
      ¬ Sound scullv s (.write 0 0 32768000 [7] allServed) := by
  refine ⟨_, rfl, ?_⟩
  intro hsound
  have hinv : Inv scullv OrderOk ⟨scullvLoaded, [scullvLoaded.device], [(0, 32768000)]⟩ := by
    refine ⟨scullvLoaded_ok, ?_, by simp⟩
    intro dev hdev
    rw [List.mem_singleton.mp hdev]
    exact ⟨shape_device (sizes_byPages _ scullvLoaded_ok), scullvLoaded_ok⟩
  have hplace : place (scullvLoaded.device.geometry scullv) 32768000 = some ⟨1, 0, 0⟩ := by
    decide +kernel
  have hhops : Place.hops ⟨1, 0, 0⟩ = 1 := by decide
  have hat : arrive scullv 32768000 allServed scullvLoaded.device =
      .ok ⟨⟨1, 0, 0⟩, .cleared, { scullvLoaded.device with next := [.cleared] }⟩ := by
    simp only [arrive, hplace, hhops]
    rfl
  have hfits := (sound_iff sizes_byPages hinv (a := .write 0 0 32768000 [7] allServed) trivial).mp
    hsound rfl scullvLoaded.device rfl _ ⟨hat, _, rfl, rfl, rfl⟩
  exact absurd hfits.1 (by decide)

end ScullFamily
