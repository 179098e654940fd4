import DriversLab.ScullFamily.Reachable
import DriversLab.Scull.Sparse
import Mathlib.Data.Nat.ModEq

/-!
# ScullFamily.Mmap — the pages of a mapping

`scullp_vma_nopage` finds the page of an offset by counting items off the list, where
`scullp_read` divides.

* `vmaNopage`: the fault handler;
* `Agree`: it installs a page exactly where a read returns bytes, with the bytes that the
  read returns, and is `VM_FAULT_SIGBUS` elsewhere;
* `mmap_iff`: so it is below the end of the device, as long as both come to the same page.

Behind the end of the device the handler leaves `ret` at zero, without a page.
-/

namespace ScullFamily

open CInt Scull Lts

def PAGE_SHIFT : ℕ := 12

def VM_FAULT_SIGBUS : ℤ := 2

/-- What the fault handler returns, and the page that it puts into `vmf`. -/
structure Fault where
  ret : ℤ
  page : Option (List UInt8)
deriving DecidableEq, Repr

/-- The walk of the fault handler: the item in which page number `offset` lies, if the
list is that long, and the number of the page there. -/
def walk (qset : ℤ) : List Item → ℤ → Option Item × ℤ
  | [], offset => (none, offset)
  | item :: rest, offset =>
      if toULong qset ≤ offset then walk qset rest (offset - toULong qset)
      else (some item, offset)

/-- `scullp_vma_nopage`. -/
def vmaNopage (offset : ℕ) (dev : Dev) : Except Oops Fault :=
  if dev.size ≤ offset then return ⟨0, none⟩
  else
    match walk dev.qset dev.items (offset >>> PAGE_SHIFT : ℕ) with
    | (none, _) => return ⟨VM_FAULT_SIGBUS, none⟩
    | (some ptr, offset) =>
        match ptr.data with
        | none => return ⟨VM_FAULT_SIGBUS, none⟩
        | some arr => do
            match ← (slot arr offset).mapError .trap with
            -- a hole, or the end of the file
            | none => return ⟨VM_FAULT_SIGBUS, none⟩
            | some page => return ⟨0, some page⟩

/-! ## What is promised, and when it holds -/

/-- The fault handler at `offset` agrees with the reads there that have memory for the list
and whose copy does not fault. -/
structure Agree (dev : Dev) (offset : ℕ) (fault : Fault) : Prop where
  installs : ∀ count env, 1 ≤ count → env.fault = none →
    (fault.page.isSome ↔ ∃ r, read scullp count offset env dev = .ok r ∧ 1 ≤ r.ret)
  bytes : ∀ count env r page, env.fault = none → read scullp count offset env dev = .ok r →
    fault.page = some page → r.data = (page.drop (offset % PAGE_SIZE.toNat)).take r.data.length
  sigbus : fault.page = none → fault.ret = VM_FAULT_SIGBUS

/-- The page of `offset`, counted through the list. -/
def listed (dev : Dev) (offset : ℕ) : ℕ × ℕ :=
  (offset / PAGE_SIZE.toNat / dev.qset.toNat, offset / PAGE_SIZE.toNat % dev.qset.toNat)

/-- The page at which the arithmetic of a read arrives; `none` where it divides by zero. -/
def divided (dev : Dev) (offset : ℕ) : Option (ℕ × ℕ) :=
  (place (dev.geometry scullp) offset).map fun pos => (pos.hops, pos.sPos.toNat)

/-- The bytes of a page from `offset` up to the end of the device. -/
def ahead (dev : Dev) (offset : ℕ) (page : List UInt8) : List UInt8 :=
  (page.drop (offset % PAGE_SIZE.toNat)).take (dev.size - offset)

/-- Both come to the same page, or to two pages that cannot be told apart here: two holes,
or two with the same bytes. -/
def SamePage (dev : Dev) (offset : ℕ) : Prop :=
  ((divided dev offset).bind fun at' => dev.quantumAt at'.1 at'.2).map (ahead dev offset) =
    (dev.quantumAt (listed dev offset).1 (listed dev offset).2).map (ahead dev offset)

/-! ## The walk of the handler -/

/-- Counting items off the list is division. -/
theorem walk_eq {qset : ℤ} (hq : 1 ≤ qset ∧ qset < 2 ^ 31) (items : List Item) (n : ℕ) :
    (walk qset items n).1 = items[n / qset.toNat]? ∧
      (n / qset.toNat < items.length → (walk qset items n).2 = (n % qset.toNat : ℕ)) := by
  have hqset : toULong qset = (qset.toNat : ℤ) := by
    unfold toULong
    omega
  induction items generalizing n with
  | nil => exact ⟨rfl, fun h => absurd h (Nat.not_lt_zero _)⟩
  | cons item rest ih =>
      rw [walk, hqset]
      split
      · rename_i hle
        rw [Int.ofNat_le] at hle
        rw [← Int.ofNat_sub hle, Nat.div_eq_sub_div (by omega) hle, Nat.mod_eq_sub_mod hle]
        obtain ⟨hitem, hrest⟩ := ih (n - qset.toNat)
        refine ⟨hitem, ?_⟩
        intro h
        exact hrest (Nat.lt_of_succ_lt_succ h)
      · rename_i hlt
        have hsmall : n < qset.toNat := by omega
        rw [Nat.div_eq_of_lt hsmall, Nat.mod_eq_of_lt hsmall]
        exact ⟨rfl, fun _ => rfl⟩

section Handler

variable {dev : Dev} {offset : ℕ}

/-- What the handler makes of the entry that it has found. -/
def faultOf : Option (List UInt8) → Fault
  | none => ⟨VM_FAULT_SIGBUS, none⟩
  | some page => ⟨0, some page⟩

/-- In front of the end, the handler finds what the table holds. -/
theorem vmaNopage_eq (hdev : Regular scullp dev) (hq : 1 ≤ dev.qset) (ho : offset < dev.size) :
    vmaNopage offset dev =
      .ok (faultOf (dev.quantumAt (listed dev offset).1 (listed dev offset).2)) := by
  have hshift : offset >>> PAGE_SHIFT = offset / PAGE_SIZE.toNat := Nat.shiftRight_eq_div_pow _ _
  obtain ⟨hitem, hslot⟩ := walk_eq ⟨hq, hdev.qset.2⟩ dev.items (offset / PAGE_SIZE.toNat)
  unfold vmaNopage
  rw [if_neg (not_le.mpr ho), hshift]
  cases hwalk : walk dev.qset dev.items (offset / PAGE_SIZE.toNat : ℕ) with
  | mk ptr rest =>
      rw [hwalk] at hitem hslot
      simp only at hitem hslot
      cases ptr with
      | none =>
          have hnone : dev.arrayAt (listed dev offset).1 = none := by
            rw [Dev.arrayAt, listed, ← hitem]
            rfl
          rw [Dev.quantumAt, hnone]
          rfl
      | some item =>
          have harr : dev.arrayAt (listed dev offset).1 = item.data := by
            rw [Dev.arrayAt, listed, ← hitem]
            rfl
          have hlt := (List.getElem?_eq_some_iff.mp hitem.symm).1
          simp only [Dev.quantumAt, harr]
          cases hdata : item.data with
          | none => rfl
          | some arr =>
              have hlen := hdev.arrays _ arr (harr.trans hdata)
              have hin : (listed dev offset).2 < arr.length := by
                have := Nat.mod_lt (offset / PAGE_SIZE.toNat) (by omega : dev.qset.toNat > 0)
                simp only [listed]
                omega
              have hrest : rest = ((listed dev offset).2 : ℕ) := hslot hlt
              have hentry : slot arr rest = .ok arr[(listed dev offset).2] := by
                rw [hrest, slot, if_pos (Int.natCast_nonneg _), Int.toNat_natCast,
                  List.getElem?_eq_getElem hin]
              simp only [hentry, Except.mapError, ok_bind, Option.bind_some,
                List.getElem?_eq_getElem hin, Option.join_some]
              cases arr[(listed dev offset).2] with
              | none => rfl
              | some page => rfl

/-- The quantum that a read finds. -/
def found (dev : Dev) (offset : ℕ) : Option (List UInt8) :=
  (divided dev offset).bind fun at' => dev.quantumAt at'.1 at'.2

theorem found_eq {pos : Place} (hplace : place (dev.geometry scullp) offset = some pos) :
    found dev offset = dev.quantumAt pos.hops pos.sPos.toNat := by
  rw [found, divided, hplace]
  rfl

/-- A quantum of a device of order 0 is a page. -/
theorem page_length (hdev : Regular scullp dev) (horder : dev.head.unit = 0) {n k : ℕ}
    {page : List UInt8} (h : dev.quantumAt n k = some page) : page.length = 4096 := by
  rcases hdev.quanta n k page h with hlen | hlen
  · rw [horder] at hlen
    exact Int.ofNat_inj.mp hlen
  · exact Int.ofNat_inj.mp hlen

theorem ahead_length (hdev : Regular scullp dev) (horder : dev.head.unit = 0) {n k : ℕ}
    {page : List UInt8} (h : dev.quantumAt n k = some page) :
    (ahead dev offset page).length = min (dev.size - offset) (4096 - offset % 4096) := by
  rw [ahead, List.length_take, List.length_drop, page_length hdev horder h]
  rfl

/-- What a read returns in front of the end of a device of order 0. -/
theorem read_found (hdev : Regular scullp dev) (horder : dev.head.unit = 0) (hq : 1 ≤ dev.qset)
    (ho : offset < dev.size) (count : ℕ) {env : Env} (hf : env.fault = none) :
    (∀ page, found dev offset = some page →
      ∃ r, read scullp count offset env dev = .ok r ∧ r.data = (ahead dev offset page).take count ∧
        r.ret = ((ahead dev offset page).take count).length) ∧
      (found dev offset = none → ∀ r, read scullp count offset env dev = .ok r →
        r.ret = 0) := by
  have hg : dev.geometry scullp = ⟨4096, dev.qset⟩ := by
    rw [Dev.geometry, horder]
    rfl
  have hvalid : (dev.geometry scullp).Valid := by
    rw [hg]
    exact ⟨(by decide : (0 : ℤ) < 4096), (by decide : (4096 : ℤ) < 2 ^ 31), hq, hdev.qset.2⟩
  have hp : (0 : ℤ) ≤ offset := Int.natCast_nonneg _
  constructor
  · intro page hpage
    obtain ⟨at', hat, hpage⟩ := Option.bind_eq_some_iff.mp hpage
    obtain ⟨pos, hplace, rfl⟩ := Option.map_eq_some_iff.mp hat
    have hb := place_bounds hvalid hp hplace
    have hroom := room_eq hvalid hb.2
    have hcol := place_col (aligned_pow (k := 12) (by decide) dev.qset) hp (hg ▸ hplace)
    have hlen := page_length hdev horder hpage
    have hpageSize : PAGE_SIZE.toNat = 4096 := rfl
    have hquantum : (dev.geometry scullp).quantum = 4096 := by rw [hg]
    have hcol' : pos.qPos = (offset % 4096 : ℕ) := by
      simp only at hcol
      omega
    rw [hquantum] at hroom
    refine ⟨_, read_ok (by omega) hplace hb.1.1 hpage ⟨hb.2.1, ?_⟩, ?_, ?_⟩
    · unfold readCount
      omega
    · unfold readResult readCount ahead
      rw [hf, hcol', Int.toNat_natCast, hpageSize, List.take_take]
      simp only [List.take_eq_take_iff, List.length_drop, hlen]
      omega
    · unfold readResult readCount ahead
      rw [hf, hpageSize]
      simp only [List.length_take, List.length_drop, hlen]
      omega
  · intro hnone r hr
    cases readOut_of_ok hr with
    | beyond hsize hr => omega
    | hole pos _ _ _ _ hr => rw [hr]
    | copied pos q _ hplace _ hq _ _ =>
        rw [found_eq hplace, hq] at hnone
        cases hnone

/-- A read that asks for some gets some where there is a quantum. -/
theorem read_some_iff (hdev : Regular scullp dev) (horder : dev.head.unit = 0) (hq : 1 ≤ dev.qset)
    (ho : offset < dev.size) {count : ℕ} (hcount : 1 ≤ count) {env : Env} (hf : env.fault = none) :
    (∃ r, read scullp count offset env dev = .ok r ∧ 1 ≤ r.ret) ↔ (found dev offset).isSome := by
  obtain ⟨hpage, hnone⟩ := read_found hdev horder hq ho count hf
  cases hfound : found dev offset with
  | none =>
      constructor
      · rintro ⟨r, hr, hret⟩
        have hzero := hnone hfound r hr
        omega
      · intro hsome
        cases hsome
  | some page =>
      obtain ⟨r, hr, _, hret⟩ := hpage page hfound
      obtain ⟨at', _, hentry⟩ := Option.bind_eq_some_iff.mp hfound
      refine ⟨fun _ => rfl, fun _ => ⟨r, hr, ?_⟩⟩
      rw [hret, List.length_take, ahead_length hdev horder hentry]
      omega

/-- No copy of this environment faults. -/
def calm : Env := ⟨0, false, none, none⟩

/-- Where both find a page, they agree if the bytes from the offset on are the same. -/
theorem agree_page_iff (hdev : Regular scullp dev) (horder : dev.head.unit = 0)
    (hq : 1 ≤ dev.qset) (ho : offset < dev.size) {page page' : List UInt8}
    (hlisted : dev.quantumAt (listed dev offset).1 (listed dev offset).2 = some page)
    (hf : found dev offset = some page') :
    Agree dev offset ⟨0, some page⟩ ↔ ahead dev offset page' = ahead dev offset page := by
  obtain ⟨at', _, hentry⟩ := Option.bind_eq_some_iff.mp hf
  have hlen : (ahead dev offset page').length = (ahead dev offset page).length := by
    rw [ahead_length hdev horder hlisted, ahead_length hdev horder hentry]
  constructor
  · intro hagree
    -- a read of as many bytes as there are shows all of them
    have hcalm : calm.fault = none := rfl
    obtain ⟨r, hr, hdata, _⟩ := (read_found hdev horder hq ho dev.size hcalm).1 page' hf
    have hall : (ahead dev offset page').take dev.size = ahead dev offset page' := by
      refine List.take_of_length_le ?_
      rw [ahead, List.length_take]
      omega
    rw [hall] at hdata
    have hbytes := hagree.bytes dev.size calm r page rfl hr rfl
    rw [hdata, hlen] at hbytes
    rw [hbytes, ahead, List.take_eq_take_iff]
    simp only [List.length_take]
    omega
  · intro hsame
    constructor
    · intro count env hcount henv
      rw [read_some_iff hdev horder hq ho hcount henv, hf]
      exact Iff.rfl
    · intro count env r q henv hr hq'
      cases hq'
      obtain ⟨r', hr', hdata, _⟩ := (read_found hdev horder hq ho _ henv).1 page' hf
      cases hr.symm.trans hr'
      rw [hdata, hsame, ahead, List.length_take, List.length_take, List.take_take,
        List.take_eq_take_iff]
      omega
    · intro hnone
      cases hnone

/-- In front of the end, the handler and the reads agree if they find the same bytes. -/
theorem agree_iff (hdev : Regular scullp dev) (horder : dev.head.unit = 0) (hq : 1 ≤ dev.qset)
    (ho : offset < dev.size) :
    Agree dev offset (faultOf (dev.quantumAt (listed dev offset).1 (listed dev offset).2)) ↔
      (found dev offset).map (ahead dev offset) =
        (dev.quantumAt (listed dev offset).1 (listed dev offset).2).map (ahead dev offset) := by
  have hsome : ∀ {fault}, Agree dev offset fault →
      (fault.page.isSome ↔ (found dev offset).isSome) := by
    intro fault hagree
    exact (hagree.installs 1 calm (le_refl 1) rfl).trans
      (read_some_iff hdev horder hq ho (le_refl 1) rfl)
  cases hlisted : dev.quantumAt (listed dev offset).1 (listed dev offset).2 with
  | none =>
      cases hf : found dev offset with
      | none =>
          refine ⟨fun _ => rfl, fun _ => ⟨?_, nofun, fun _ => rfl⟩⟩
          intro count env hcount henv
          rw [read_some_iff hdev horder hq ho hcount henv, hf]
          exact Iff.rfl
      | some page' =>
          refine ⟨fun hagree => ?_, nofun⟩
          have hiff := hsome hagree
          simp [faultOf, hf] at hiff
  | some page =>
      cases hf : found dev offset with
      | none =>
          refine ⟨fun hagree => ?_, nofun⟩
          have hiff := hsome hagree
          simp [faultOf, hf] at hiff
      | some page' =>
          simp only [Option.map_some, Option.some.injEq]
          exact agree_page_iff hdev horder hq ho hlisted hf

end Handler

/-- Where an item has an `int` size and its index is one, both come to the same page. -/
theorem samePage_of_small {dev : Dev} {offset : ℕ} (horder : dev.head.unit = 0)
    (hq : 1 ≤ dev.qset) (hfits : 4096 * dev.qset < 2 ^ 31)
    (hreach : offset / PAGE_SIZE.toNat / dev.qset.toNat < 2 ^ 32) : SamePage dev offset := by
  have hpageNat : PAGE_SIZE.toNat = 4096 := rfl
  have hg : dev.geometry scullp = ⟨(4096 : ℕ), (dev.qset.toNat : ℕ)⟩ := by
    rw [Dev.geometry, horder, Int.toNat_of_nonneg (by omega)]
    rfl
  have hplace := @place_nat 4096 dev.qset.toNat (by decide) (by omega) (by omega) offset
  rw [hpageNat, Nat.div_div_eq_div_mul] at hreach
  have hsame : divided dev offset = some (listed dev offset) := by
    rw [divided, hg, hplace, Option.map_some, Option.some.injEq, listed, Prod.mk.injEq, hpageNat]
    constructor
    · simp only [Place.hops, toUInt_toInt]
      rw [toUInt_of_range (Int.natCast_nonneg _) (by omega), Int.toNat_natCast,
        Nat.div_div_eq_div_mul]
    · rw [Int.toNat_natCast, Nat.mod_mul_right_div_self]
  rw [SamePage, hsame, Option.bind_some]

/-- On every device of order 0 of every run, the fault handler and the reads at an offset
agree exactly if it is in front of the end, and both come to the same page. They do so
where an item has an `int` size and its index is one. -/
theorem mmap_iff {p : Params} (hp : -2 ^ 31 ≤ p.qset ∧ p.qset < 2 ^ 31) {n : ℕ}
    {as : List Act} {s : Sys} (hrun : run (Sys.step scullp) (Sys.init p n) as = some s)
    {dev : Dev} (hmem : dev ∈ s.devs) (horder : dev.head.unit = 0) (hq : 1 ≤ dev.qset)
    (offset : ℕ) : ∃ fault, vmaNopage offset dev = .ok fault ∧
      (Agree dev offset fault ↔ offset < dev.size ∧ SamePage dev offset) ∧
      (4096 * dev.qset < 2 ^ 31 → offset / PAGE_SIZE.toNat / dev.qset.toNat < 2 ^ 32 →
        SamePage dev offset) := by
  have hdev := Sys.regular_run (by decide) hp hrun dev hmem
  by_cases ho : offset < dev.size
  · refine ⟨_, vmaNopage_eq hdev hq ho, ?_, samePage_of_small horder hq⟩
    rw [agree_iff hdev horder hq ho]
    exact (and_iff_right ho).symm
  · refine ⟨⟨0, none⟩, if_pos (not_lt.mp ho), ?_, samePage_of_small horder hq⟩
    constructor
    · intro hagree
      exact absurd (hagree.sigbus rfl) (by decide)
    · rintro ⟨hlt, _⟩
      exact absurd hlt ho

/-! ## The end of the device -/

/-- One byte is written into the first page. -/
def oneByte : List Act := [.openFile 0 false, .write 0 0 0 [7] ⟨0, true, some fun _ => 170, none⟩]

/-- It can be read and mapped. -/
theorem mmap_iff_oneByte : ∃ s dev fault,
    run (Sys.step scullp) (Sys.init ⟨SCULLP_ORDER, SCULLP_QSET⟩ 1) oneByte = some s ∧
      dev ∈ s.devs ∧ vmaNopage 0 dev = .ok fault ∧ Agree dev 0 fault := by
  obtain ⟨s, hrun, hdevs⟩ : ∃ s, run (Sys.step scullp) (Sys.init ⟨SCULLP_ORDER, SCULLP_QSET⟩ 1)
      oneByte = some s ∧ (s.devs.map fun dev => (dev.size, dev.head.unit, dev.qset)) =
        [(1, 0, 500)] := by
    apply Option.map_eq_some_iff.mp
    decide +kernel
  obtain ⟨dev, rest, hlist, hfields, _⟩ := List.map_eq_cons_iff.mp hdevs
  rw [Prod.mk.injEq, Prod.mk.injEq] at hfields
  obtain ⟨hsize, horder, hqset⟩ := hfields
  have hmem : dev ∈ s.devs := by
    rw [hlist]
    exact List.mem_cons_self
  obtain ⟨fault, hfault, hiff, hsame⟩ := mmap_iff (by decide) hrun hmem horder (by omega) 0
  refine ⟨s, dev, fault, hrun, hmem, hfault, hiff.mpr ⟨by omega, hsame ?_ (by simp)⟩⟩
  rw [hqset]
  decide

/-- Nothing has been written: the handler returns 0 and no page, where it should be
`VM_FAULT_SIGBUS`. -/
theorem mmap_empty : ∃ s dev,
    run (Sys.step scullp) (Sys.init ⟨SCULLP_ORDER, SCULLP_QSET⟩ 1) [.openFile 0 false] = some s ∧
      dev ∈ s.devs ∧ dev.head.unit = 0 ∧ dev.qset = 500 ∧
      vmaNopage 0 dev = .ok ⟨0, none⟩ ∧ ¬ Agree dev 0 ⟨0, none⟩ := by
  refine ⟨_, Params.device ⟨SCULLP_ORDER, SCULLP_QSET⟩, rfl, by decide, rfl, rfl, rfl, ?_⟩
  intro hagree
  exact absurd (hagree.sigbus rfl) (by decide)

end ScullFamily
