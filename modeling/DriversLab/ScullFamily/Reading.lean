import DriversLab.ScullFamily.Bytes
import DriversLab.ScullFamily.System
import DriversLab.Scull.Reading

/-!
# ScullFamily.Reading — reads that append an item

`scull_read` turns back at the end of the device, `scullc_read` only behind it. At the very
end its walk goes one item too far where the last item is full.

* `Covers`: every byte below the size lies in an item of the list;
* `AtEnd`: a position at the end of a device whose items are all full;
* `read_unchanged_iff`: a read of a device that is covered appends an item there and nowhere
  else;
* `reading_unchanged`: the reads of scull and of scullc, in every state of every run.
-/

namespace ScullFamily

open CInt Scull Lts

/-- Every byte below the size lies in an item of the list. -/
def Covers (v : Variant) (dev : Dev) : Prop :=
  dev.size ≤ (dev.geometry v).itemsize * dev.items.length

/-- The position is the end of the device, and all of its items are full. -/
def AtEnd (v : Variant) (dev : Dev) (fPos : ℕ) : Prop :=
  fPos = dev.size ∧ dev.size = (dev.geometry v).itemsize * dev.items.length ∧
    dev.items.length < 2 ^ 32

section Transfer

variable {v : Variant} {p : Params} {fPos : ℕ} {env : Env} {dev : Dev} {r : Result}

theorem items_length (dev : Dev) : dev.items.length = dev.next.length + 1 := rfl

/-- A read in front of the end, or at it, walks to its item. -/
theorem readOut_grown {count : ℕ} (h : ReadOut v count fPos env dev r) :
    dev.size < fPos ∧ r.dev = dev ∨ fPos ≤ dev.size ∧
      ∃ pos, place (dev.geometry v) fPos = some pos ∧ r.dev = dev.grown pos.hops := by
  cases h with
  | beyond hsize hr => exact Or.inl ⟨by omega, by rw [hr]⟩
  | hole pos hsize hplace _ _ hr => exact Or.inr ⟨by omega, pos, hplace, by rw [hr]⟩
  | copied pos q hsize hplace _ _ _ hr =>
      refine Or.inr ⟨by omega, pos, hplace, ?_⟩
      rw [hr]
      unfold readResult
      split
      · rfl
      · rfl

/-- A read appends an item exactly at the end of a device that is full. -/
theorem read_unchanged_iff {count : ℕ} (hg : (dev.geometry v).Sound) (hc : Covers v dev)
    (h : read v count fPos env dev = .ok r) : r.dev = dev ↔ ¬ AtEnd v dev fPos := by
  have hpos := hg.itemsize_pos
  rcases readOut_grown (readOut_of_ok h) with ⟨hlt, hdev⟩ | ⟨hle, pos, hplace, hdev⟩
  · refine ⟨fun _ hend => ?_, fun _ => hdev⟩
    have := hend.1
    omega
  · have hhops := place_hops_le hg hplace
    rw [hdev]
    constructor
    · rintro hsame ⟨hend, hfull, hsmall⟩
      -- the walk goes one item further than the list
      have hindex : fPos / (dev.geometry v).itemsize = dev.items.length := by
        rw [hend, hfull, Nat.mul_div_cancel_left _ hpos]
      rw [place_hops_eq hg hplace (by omega), hindex] at hsame
      have hlen := congrArg (fun d : Dev => d.next.length) hsame
      simp only [Dev.grown_length, items_length] at hlen
      omega
    · intro hnot
      apply Dev.grown_of_le
      by_contra hlong
      refine hnot ?_
      have hcover : fPos ≤ (dev.geometry v).itemsize * dev.items.length := hle.trans hc
      have hindex := Nat.div_le_of_le_mul hcover
      have hitems := items_length dev
      have hback := Nat.div_mul_le_self fPos (dev.geometry v).itemsize
      have hexact : fPos / (dev.geometry v).itemsize = dev.items.length := by omega
      rw [hexact, Nat.mul_comm] at hback
      have hint : pos.hops < 2 ^ 32 := by
        have := toUInt_range pos.item
        unfold Place.hops
        omega
      unfold Covers at hc
      exact ⟨by omega, by omega, by omega⟩

theorem covers_grown (hc : Covers v dev) (n : ℕ) : Covers v (dev.grown n) := by
  unfold Covers at hc ⊢
  rw [Dev.grown_geometry, Dev.grown_size]
  refine hc.trans (Nat.mul_le_mul_left _ ?_)
  simp only [items_length, Dev.grown_length]
  omega

theorem read_covers {count : ℕ} (hc : Covers v dev) (h : ReadOut v count fPos env dev r) :
    Covers v r.dev := by
  rcases readOut_grown h with ⟨_, hdev⟩ | ⟨_, pos, _, hdev⟩
  · rw [hdev]
    exact hc
  · rw [hdev]
    exact covers_grown hc pos.hops

/-- No transfer moves its position back. -/
theorem read_fPos_le {count : ℕ} (h : ReadOut v count fPos env dev r) : (fPos : ℤ) ≤ r.fPos := by
  cases h with
  | beyond _ hr => rw [hr]
  | hole _ _ _ _ _ hr => rw [hr]
  | copied pos q _ _ _ _ _ hr =>
      rw [hr]
      unfold readResult
      split
      · exact le_refl _
      · simp only
        omega

theorem write_fPos_le {buf : List UInt8} (h : WriteOut v p buf fPos env dev r) :
    (fPos : ℤ) ≤ r.fPos := by
  cases h with
  | refused pos _ _ hr =>
      rcases hr with hr | ⟨arr, _, hr⟩
      · rw [hr]
      · rw [hr]
  | stored pos item arr q _ _ _ _ _ _ hr =>
      rw [hr]
      unfold writeResult
      simp only
      split
      · exact le_refl _
      · simp only
        omega

/-- A write goes to an item of the list before it makes the device longer. -/
theorem write_covers {buf : List UInt8} (hg : (dev.geometry v).Sound)
    (hreach : fPos / (dev.geometry v).itemsize < 2 ^ 32) (hc : Covers v dev)
    (h : WriteOut v p buf fPos env dev r) : Covers v r.dev := by
  unfold Covers at hc ⊢
  rw [(write_sizes h).geometry]
  have hold : ∀ n, dev.size ≤ (dev.geometry v).itemsize * (dev.grown n).items.length :=
    fun n => covers_grown (v := v) hc n
  cases h with
  | refused pos _ _ hr =>
      rcases hr with hr | ⟨arr, _, hr⟩
      · rw [hr]
        exact hold pos.hops
      · rw [hr]
        simp only [Dev.setData_size, Dev.grown_size, items_length, Dev.setData_length]
        exact hold pos.hops
  | stored pos item arr q hplace hnodes hitem harr hq hin hr =>
      have hroom := place_room_le hg hplace
      have hitem := Nat.mul_le_mul_left (dev.geometry v).itemsize (dev.grown_lt (n := pos.hops))
      rw [Nat.succ_eq_add_one, place_hops_eq hg hplace hreach] at hitem
      have hsize : (writeResult v buf fPos env pos arr q (dev.grown pos.hops)).dev.size ≤
          max (dev.grown pos.hops).size (fPos + room ((dev.grown pos.hops).geometry v) pos) :=
        writeResult_size_le fPos pos arr q (dev.grown pos.hops)
      rw [hr, items_length, writeResult_length, ← items_length]
      refine hsize.trans (max_le (hold pos.hops) (hroom.trans ?_))
      rw [← place_hops_eq hg hplace hreach] at hitem ⊢
      exact hitem

end Transfer

/-! ## Runs -/

namespace Sys

/-- No action but an ioctl changes the parameters. -/
def FixedSizes : Act → Prop
  | .ioctl _ _ _ => False
  | _ => True

/-- A write goes to an item whose index is an `unsigned int`. -/
def InReach (v : Variant) (s : Sys) : Act → Prop
  | .write f d fPos _ _ => s.files[f]? = some (d, fPos) → ∀ dev, s.devs[d]? = some dev →
      fPos.toNat / (dev.geometry v).itemsize < 2 ^ 32
  | _ => True

/-- With the parameters `p`, the lists cover the devices. -/
structure Covered (v : Variant) (p : Params) (s : Sys) : Prop where
  params : s.params = p
  devs : ∀ dev ∈ s.devs, dev.geometry v = p.device.geometry v ∧ Covers v dev
  files : ∀ file ∈ s.files, 0 ≤ file.2

variable {v : Variant} {p : Params} {s s' : Sys}

theorem covers_device : Covers v p.device := Nat.zero_le _

/-- A transfer that keeps its device covered. -/
theorem covered_transfer (hi : Covered v p s) {f d : ℕ} {call : Dev → Except Oops Result}
    (hcall : ∀ dev, s.devs[d]? = some dev → ∀ r, call dev = .ok r →
      r.dev.geometry v = dev.geometry v ∧ Covers v r.dev ∧ 0 ≤ r.fPos) :
    Covered v p (s.transfer f d call) := by
  unfold transfer
  split
  · rename_i r hr
    obtain ⟨dev, hdev, hok⟩ := Option.map_eq_some_iff.mp hr
    obtain ⟨hgeometry, hcovers, hpos⟩ := hcall dev hdev r hok
    refine ⟨hi.params, ?_, ?_⟩
    · intro dev' hdev'
      rcases List.mem_or_eq_of_mem_set hdev' with hold | rfl
      · exact hi.devs dev' hold
      · exact ⟨hgeometry.trans (hi.devs dev (List.mem_of_getElem? hdev)).1, hcovers⟩
    · intro file hfile
      rcases List.mem_or_eq_of_mem_set hfile with hold | rfl
      · exact hi.files file hold
      · exact hpos
  · exact hi

theorem covered_step (hp : (p.device.geometry v).Sound) (hi : Covered v p s) {a : Act}
    (hfixed : FixedSizes a) (hreach : InReach v s a) (hs : step v s a = some s') :
    Covered v p s' := by
  obtain ⟨hguard, rfl⟩ := guarded_eq_some.mp hs
  cases a with
  | openFile d wronly =>
      refine ⟨hi.params, mem_modify hi.devs ?_, ?_⟩
      · intro dev hdev
        unfold openDev trim
        split
        · split
          · exact hi.devs dev hdev
          · rw [hi.params]
            exact ⟨rfl, covers_device⟩
        · exact hi.devs dev hdev
      · intro file hfile
        rcases List.mem_append.mp hfile with hold | hnew
        · exact hi.files file hold
        · rw [List.mem_singleton.mp hnew]
  | read f d fPos count env =>
      refine covered_transfer hi ?_
      intro dev hdev r hr
      have hpos : 0 ≤ fPos := hi.files _ (List.mem_of_getElem? hguard)
      lift fPos to ℕ using hpos
      have hout := readOut_of_ok hr
      obtain ⟨_, hcovers⟩ := hi.devs dev (List.mem_of_getElem? hdev)
      refine ⟨(read_untouched hout).geometry v, read_covers hcovers hout, ?_⟩
      exact (Int.natCast_nonneg fPos).trans (read_fPos_le hout)
  | write f d fPos buf env =>
      refine covered_transfer hi ?_
      intro dev hdev r hr
      have hpos : 0 ≤ fPos := hi.files _ (List.mem_of_getElem? hguard)
      have hin := hreach hguard dev hdev
      lift fPos to ℕ using hpos
      have hout := writeOut_of_ok hr
      obtain ⟨hgeometry, hcovers⟩ := hi.devs dev (List.mem_of_getElem? hdev)
      refine ⟨(write_sizes hout).geometry v, write_covers (hgeometry ▸ hp) hin hcovers hout, ?_⟩
      exact (Int.natCast_nonneg fPos).trans (write_fPos_le hout)
  | llseek f d fPos off whence =>
      refine ⟨hi.params, hi.devs, ?_⟩
      intro file hfile
      rcases List.mem_or_eq_of_mem_set hfile with hold | rfl
      · exact hi.files file hold
      · exact scullLlseek_nonneg _ (hi.files _ (List.mem_of_getElem? hguard)) off whence
  | ioctl cmd arg user => exact absurd hfixed id
  | vmaOpen d => exact ⟨hi.params, mem_modify hi.devs hi.devs, hi.files⟩
  | vmaClose d => exact ⟨hi.params, mem_modify hi.devs hi.devs, hi.files⟩

/-- In a run in which the sizes are fixed, and no write wraps the index of its item, the
lists always cover the devices. -/
theorem covered_run (hp : (p.device.geometry v).Sound) {n : ℕ} {as : List Act}
    (hfixed : ∀ a ∈ as, FixedSizes a) (hreach : Along (step v) (InReach v) (init p n) as)
    (hrun : run (step v) (init p n) as = some s) : Covered v p s := by
  have hinit : Covered v p (init p n) := by
    refine ⟨rfl, ?_, ?_⟩
    · intro dev hdev
      rw [List.eq_of_mem_replicate hdev]
      exact ⟨rfl, covers_device⟩
    · exact fun file hfile => absurd hfile List.not_mem_nil
  have hsteps := along_and ((along_const hrun).mpr hfixed) hreach
  exact run_invariant_along (fun _ _ _ hi hc hs => covered_step hp hi hc.1 hc.2 hs) hinit hsteps
    hrun

end Sys

/-- In every run in which the sizes are fixed and no write wraps the index of its item, a read
of scull changes nothing, and a read of scullc nothing but at the end of a device that is
full. -/
theorem reading_unchanged {p : Scull.Params} (hp : p.geometry.Sound) {as : List CallAct}
    (hfixed : ∀ a ∈ as, Calls.FixedSizes a)
    (hreach : Along Calls.step Calls.InReach (Calls.init p) as) {s : CallSys}
    (hrun : run Calls.step (Calls.init p) as = some s)
    {object : ℤ} {p' : Params} (hp' : (p'.device.geometry (scullc object)).Sound) {n : ℕ}
    {as' : List Act} (hfixed' : ∀ a ∈ as', Sys.FixedSizes a)
    (hreach' : Along (Sys.step (scullc object)) (Sys.InReach (scullc object)) (Sys.init p' n) as')
    {s' : Sys} (hrun' : run (Sys.step (scullc object)) (Sys.init p' n) as' = some s') :
    (∀ (fPos count : ℕ) (env : Env) (r : Transfer),
      scullRead s.dev.geometry count fPos env s.dev = .ok r → r.dev = s.dev) ∧
    ∀ dev ∈ s'.devs, ∀ (fPos count : ℕ) (env : Env) (r : Result),
      read (scullc object) count fPos env dev = .ok r →
        (r.dev = dev ↔ ¬ AtEnd (scullc object) dev fPos) := by
  have hcovered := Calls.covered_run hp hfixed hreach hrun
  have hcovered' := Sys.covered_run hp' hfixed' hreach' hrun'
  constructor
  · intro fPos count env r hr
    exact Scull.read_unchanged (hcovered.geometry ▸ hp) hcovered.covers hr
  · intro dev hdev fPos count env r hr
    obtain ⟨hgeometry, hcovers⟩ := hcovered'.devs dev hdev
    exact read_unchanged_iff (hgeometry ▸ hp') hcovers hr

/-! ## A full item -/

/-- Items of two quanta of four bytes. -/
def fourByTwo : Params := ⟨4, 2⟩

def ready : Env := ⟨1, true, some fun _ => 0, none⟩

/-- Two writes fill the first item. -/
def fillItem : List Act :=
  [.openFile 0 false, .write 0 0 0 [1, 2, 3, 4] ready, .write 0 0 4 [5, 6, 7, 8] ready]

theorem fillItem_inReach : Along (Sys.step (scullc 4)) (Sys.InReach (scullc 4))
    (Sys.init fourByTwo 1) fillItem := by
  refine ⟨trivial, ?_⟩
  rintro _ ⟨⟩
  refine ⟨?_, ?_⟩
  · intro _ dev _
    exact (Nat.zero_div _).trans_lt (by decide)
  · intro _ _
    refine ⟨?_, fun _ _ => trivial⟩
    intro _ dev _
    exact (Nat.div_le_self _ _).trans_lt (by decide)

/-- A write to scull. -/
def putFour : List CallAct := [.openFile false, .write 0 [1, 2, 3, 4] ready]

theorem putFour_inReach : Along Calls.step Calls.InReach (Calls.init ⟨4, 2, 0⟩) putFour := by
  refine ⟨trivial, ?_⟩
  intro s _
  refine ⟨?_, fun _ _ => trivial⟩
  exact (Nat.zero_div _).trans_lt (by decide)

/-- The last byte of that item is read, and so are two bytes that were written to scull. -/
theorem reading_unchanged_fillItem : ∃ s dev r s₀ r₀,
    run (Sys.step (scullc 4)) (Sys.init fourByTwo 1) fillItem = some s ∧ dev ∈ s.devs ∧
      read (scullc 4) 1 7 ready dev = .ok r ∧ r.dev = dev ∧
      run Calls.step (Calls.init ⟨4, 2, 0⟩) putFour = some s₀ ∧
      scullRead s₀.dev.geometry 2 1 ready s₀.dev = .ok r₀ ∧ r₀.data = [2, 3] ∧
      r₀.dev = s₀.dev := by
  obtain ⟨s, hrun, hdevs⟩ : ∃ s,
      run (Sys.step (scullc 4)) (Sys.init fourByTwo 1) fillItem = some s ∧
      s.devs.map (fun dev => (dev.size, (read (scullc 4) 1 7 ready dev).toOption.isSome)) =
        [(8, true)] := by
    apply Option.map_eq_some_iff.mp
    decide +kernel
  obtain ⟨dev, rest, hlist, hfields, _⟩ := List.map_eq_cons_iff.mp hdevs
  obtain ⟨hsize, hread⟩ := Prod.mk.inj hfields
  have hmem : dev ∈ s.devs := by
    rw [hlist]
    exact List.mem_cons_self
  have hsound : (⟨4, 2, 0⟩ : Scull.Params).geometry.Sound :=
    sound_iff.mpr ⟨by decide, by decide, by unfold Geometry.Fits; decide⟩
  have hsound' : (fourByTwo.device.geometry (scullc 4)).Sound :=
    sound_iff.mpr ⟨by decide, by decide, by unfold Geometry.Fits; decide⟩
  have hboth := reading_unchanged hsound (by simp [putFour, Calls.FixedSizes]) putFour_inReach
    (show run Calls.step _ putFour = some _ from rfl) hsound'
    (by simp [fillItem, Sys.FixedSizes]) fillItem_inReach hrun
  cases hr : read (scullc 4) 1 7 ready dev with
  | error e =>
      rw [hr] at hread
      cases hread
  | ok r =>
      refine ⟨s, dev, r, _, _, hrun, hmem, hr, ?_, rfl, rfl, rfl, hboth.1 1 2 ready _ rfl⟩
      refine (hboth.2 dev hmem 7 1 ready r hr).mpr ?_
      rintro ⟨hend, _⟩
      omega

/-- A read at the end of the full item appends an empty one. -/
theorem reading_appends : ∃ s dev r,
    run (Sys.step (scullc 4)) (Sys.init fourByTwo 1) fillItem = some s ∧ dev ∈ s.devs ∧
      read (scullc 4) 1 8 ready dev = .ok r ∧ r.ret = 0 ∧ r.dev.next = [.cleared] ∧
        r.dev ≠ dev := by
  obtain ⟨s, hrun, hdevs⟩ : ∃ s,
      run (Sys.step (scullc 4)) (Sys.init fourByTwo 1) fillItem = some s ∧
      s.devs.map (fun dev => (dev.next, (read (scullc 4) 1 8 ready dev).toOption.map
        fun r => (r.ret, r.dev.next))) = [([], some (0, [.cleared]))] := by
    apply Option.map_eq_some_iff.mp
    decide +kernel
  obtain ⟨dev, rest, hlist, hfields, _⟩ := List.map_eq_cons_iff.mp hdevs
  obtain ⟨hnext, hread⟩ := Prod.mk.inj hfields
  have hmem : dev ∈ s.devs := by
    rw [hlist]
    exact List.mem_cons_self
  cases hr : read (scullc 4) 1 8 ready dev with
  | error e =>
      rw [hr] at hread
      cases hread
  | ok r =>
      rw [hr] at hread
      obtain ⟨hret, hlonger⟩ := Prod.mk.inj (Option.some.inj hread)
      refine ⟨s, dev, r, hrun, hmem, hr, hret, hlonger, ?_⟩
      intro hsame
      rw [hsame, hnext] at hlonger
      cases hlonger

end ScullFamily
