import DriversLab.Lib.CInt
import DriversLab.Lib.Ring
import Mathlib.Data.List.Forall2
import Mathlib.Algebra.Order.BigOperators.Group.List
import Mathlib.Algebra.GroupWithZero.Nat
import Mathlib.Algebra.Order.Group.Nat

/-!
# Sbull.Transfer — the request modes of the RAM disk

In the simple mode the block layer hands out a request one segment after the other. The
other two modes take a whole bio, and go over its segments themselves: but for the length
of each they ask for that of the current segment of the bio, which is the first one all
along.

* `simpleRounds`, `xferBioRounds`: the transfers that the two loops make;
* `SameEffect`: two transfers do the same to every memory;
* `AsCurrent`: the segments of a bio are as long as its current one;
* `xferRequest_count`: the full mode ends a request as a whole;
* `modes_equivalent_iff`: each round transfers its segment, and the three modes leave the
  device and the memory alike, exactly if that is so;
* `modes_overrun`: a second segment that is shorter than the first.
-/

namespace Sbull

open CInt Ring

def KERNEL_SECTOR_SIZE : ℕ := 512

/-- The part of `struct sbull_dev` that a transfer looks at. -/
structure SbullDev where
  size : ℕ
  fits : size < 2 ^ 31

/-- What `data` points to, and the memory that buffers are in. -/
structure Memory where
  data : ℤ → UInt8
  mem : ℤ → UInt8

/-- A `struct bio_vec`: where its page is mapped to, at its offset, and its length. -/
structure BioVec where
  buffer : ℤ
  bvLen : ℕ
deriving DecidableEq, Repr

/-- The number of segments is an `unsigned short`. -/
structure Bio where
  biSector : ℕ
  biIdx : ℕ
  biIoVec : List BioVec
  vcnt : biIoVec.length < 2 ^ 16

/-- A request; all its bios go in its direction. -/
structure Request where
  /-- `blk_fs_request`. -/
  fs : Bool
  write : Bool
  sector : ℕ
  bios : List Bio

/-- What `bio_for_each_segment` goes over. -/
def Bio.segments (bio : Bio) : List BioVec := bio.biIoVec.drop bio.biIdx

/-- `bio_cur_sectors`, of the segment at the index of the bio. -/
def bioCurSectors (bio : Bio) : ℕ := bio.biIoVec[bio.biIdx]?.elim 0 fun v => v.bvLen / 512

/-- The sectors of some segments. -/
def sectors (segs : List BioVec) : ℕ := (segs.map fun v => v.bvLen / 512).sum

/-- `bio->bi_size`, what is left of it. -/
def Bio.biSize (bio : Bio) : ℕ := (bio.segments.map BioVec.bvLen).sum

/-- The arguments of a call of `sbull_transfer`. -/
structure Transfer where
  sector : ℕ
  nsect : ℕ
  buffer : ℤ
deriving DecidableEq, Repr

/-- `sbull_transfer`. -/
def sbullTransfer (dev : SbullDev) (write : Bool) (st : Memory) (t : Transfer) : Memory :=
  let offset := t.sector * KERNEL_SECTOR_SIZE % 2 ^ 64
  let nbytes := t.nsect * KERNEL_SECTOR_SIZE % 2 ^ 64
  if (offset + nbytes) % 2 ^ 64 > dev.size then st
  else if write then { st with data := store st.data offset (Ring.segment st.mem t.buffer nbytes) }
  else { st with mem := store st.mem t.buffer (Ring.segment st.data offset nbytes) }

/-- A loop of transfers. -/
def transferAll (dev : SbullDev) (write : Bool) (ts : List Transfer) (st : Memory) : Memory :=
  ts.foldl (sbullTransfer dev write) st

/-! ## The modes -/

/-- The rounds of the loop in `sbull_request` for one request: `end_request` moves it on to
the next of its segments. -/
def simpleRounds : ℕ → List BioVec → List Transfer
  | _, [] => []
  | sector, v :: vs =>
      ⟨sector, v.bvLen / 512, v.buffer⟩ :: simpleRounds (sector + v.bvLen / 512) vs

/-- The loop in `sbull_xfer_bio`, with what `bio_cur_sectors` is in each of its rounds. -/
def xferRounds (curSectors : ℕ) : ℕ → List BioVec → List Transfer
  | _, [] => []
  | sector, v :: vs =>
      ⟨sector, curSectors, v.buffer⟩ :: xferRounds curSectors (sector + curSectors) vs

def xferBioRounds (bio : Bio) : List Transfer :=
  xferRounds (bioCurSectors bio) bio.biSector bio.segments

/-- `sbull_xfer_bio`. -/
def sbullXferBio (dev : SbullDev) (write : Bool) (st : Memory) (bio : Bio) : Memory :=
  transferAll dev write (xferBioRounds bio) st

/-- `sbull_xfer_request`, with the sectors that it counts. -/
def sbullXferRequest (dev : SbullDev) (write : Bool) (bios : List Bio) (st : Memory) :
    Memory × ℕ :=
  bios.foldl (fun r bio => (sbullXferBio dev write r.1 bio, r.2 + bio.biSize / KERNEL_SECTOR_SIZE))
    (st, 0)

/-- The segments of a request. -/
def Request.segments (req : Request) : List BioVec := req.bios.flatMap Bio.segments

/-- `sbull_request`, for the requests of a queue. -/
def sbullRequest (dev : SbullDev) : List Request → Memory → Memory
  | [], st => st
  | req :: reqs, st =>
      sbullRequest dev reqs
        (if req.fs then transferAll dev req.write (simpleRounds req.sector req.segments) st else st)

/-- `sbull_full_request`. The sectors that have been counted are all that a request has, so
`end_that_request_first` leaves nothing of it. -/
def sbullFullRequest (dev : SbullDev) : List Request → Memory → Memory
  | [], st => st
  | req :: reqs, st =>
      sbullFullRequest dev reqs
        (if req.fs then (sbullXferRequest dev req.write req.bios st).1 else st)

/-- `sbull_make_request`, with the bytes and the status that `bio_endio` is called with. -/
def sbullMakeRequest (dev : SbullDev) (write : Bool) (bio : Bio) (st : Memory) : Memory × ℕ × ℤ :=
  (sbullXferBio dev write st bio, bio.biSize, 0)

/-! ## What is promised, and when it holds -/

/-- Two transfers do the same, whatever the device and the memory hold. -/
def SameEffect (dev : SbullDev) (write : Bool) (t u : Transfer) : Prop :=
  ∀ st, sbullTransfer dev write st t = sbullTransfer dev write st u

/-- The segments are whole sectors, and lie within the device. -/
structure OnDevice (dev : SbullDev) (bio : Bio) : Prop where
  whole : ∀ v ∈ bio.segments, 512 ∣ v.bvLen
  inside : 512 * (bio.biSector + sectors bio.segments) ≤ dev.size

/-- Each bio begins where the one before it ends. -/
def Contiguous : ℕ → List Bio → Prop
  | _, [] => True
  | sector, bio :: bios => bio.biSector = sector ∧ Contiguous (sector + sectors bio.segments) bios

/-- A request of the block layer. -/
def Request.Valid (dev : SbullDev) (req : Request) : Prop :=
  Contiguous req.sector req.bios ∧ ∀ bio ∈ req.bios, OnDevice dev bio

/-- Each round of `sbull_xfer_bio` transfers its segment and nothing else, and with it the
modes end alike. -/
structure Equivalent (dev : SbullDev) (reqs : List Request) : Prop where
  rounds : ∀ req ∈ reqs, req.fs = true → ∀ bio ∈ req.bios,
    List.Forall₂ (SameEffect dev req.write) (xferBioRounds bio)
      (simpleRounds bio.biSector bio.segments)
  noqueue : ∀ req ∈ reqs, req.fs = true → ∀ bio ∈ req.bios, ∀ st,
    sbullMakeRequest dev req.write bio st =
      (transferAll dev req.write (simpleRounds bio.biSector bio.segments) st, bio.biSize, 0)
  full : ∀ st, sbullFullRequest dev reqs st = sbullRequest dev reqs st

/-- Each segment is as long as the current one; but an empty one may come where less than
that is left of the device. -/
def AsCurrent (dev : SbullDev) (curSectors sector : ℕ) (segs : List BioVec) : Prop :=
  ∀ k v, segs[k]? = some v → v.bvLen = curSectors * 512 ∨
    v.bvLen = 0 ∧ dev.size < 512 * (sector + (k + 1) * curSectors)

/-! ## One transfer -/

section Effect

variable {dev : SbullDev} {write : Bool} {st : Memory} {t u : Transfer}

/-- The end of a transfer, in bytes. -/
def Transfer.stop (t : Transfer) : ℕ := 512 * (t.sector + t.nsect)

/-- Nothing wraps below `2 ^ 55` sectors. -/
theorem transfer_eq (hroom : t.sector + t.nsect < 2 ^ 55) : sbullTransfer dev write st t =
    if t.stop > dev.size then st
    else if write then { st with
      data := store st.data (t.sector * 512 : ℕ) (Ring.segment st.mem t.buffer (t.nsect * 512)) }
    else { st with
      mem :=
        store st.mem t.buffer (Ring.segment st.data (t.sector * 512 : ℕ) (t.nsect * 512)) } := by
  have hstop : t.stop = t.sector * 512 + t.nsect * 512 := by
    unfold Transfer.stop
    omega
  have hoffset : t.sector * KERNEL_SECTOR_SIZE % 2 ^ 64 = t.sector * 512 := by
    simp only [KERNEL_SECTOR_SIZE]
    omega
  have hnbytes : t.nsect * KERNEL_SECTOR_SIZE % 2 ^ 64 = t.nsect * 512 := by
    simp only [KERNEL_SECTOR_SIZE]
    omega
  have hsum : (t.sector * 512 + t.nsect * 512) % 2 ^ 64 = t.stop := by omega
  simp only [sbullTransfer, hoffset, hnbytes, hsum]

theorem transfer_inside (h : t.stop ≤ dev.size) : sbullTransfer dev write st t =
    if write then { st with
      data := store st.data (t.sector * 512 : ℕ) (Ring.segment st.mem t.buffer (t.nsect * 512)) }
    else { st with
      mem :=
        store st.mem t.buffer (Ring.segment st.data (t.sector * 512 : ℕ) (t.nsect * 512)) } := by
  have hfits := dev.fits
  have hroom : t.sector + t.nsect < 2 ^ 55 := by
    unfold Transfer.stop at h
    omega
  rw [transfer_eq hroom, if_neg (by omega)]

theorem transfer_beyond (h : dev.size < t.stop) (hroom : t.sector + t.nsect < 2 ^ 55) :
    sbullTransfer dev write st t = st := by
  rw [transfer_eq hroom, if_pos h]

/-- What a transfer writes to. -/
def Memory.target (st : Memory) (write : Bool) : ℤ → UInt8 := if write then st.data else st.mem

/-- Where it begins to. -/
def Transfer.place (t : Transfer) (write : Bool) : ℤ :=
  if write then (t.sector * 512 : ℕ) else t.buffer

/-- A memory that shows what has been written: ones come from where there were zeros. -/
def probe (write : Bool) : Memory :=
  if write then ⟨fun _ => 0, fun _ => 1⟩ else ⟨fun _ => 1, fun _ => 0⟩

theorem store_ones (a b : ℤ) (k : ℕ) (x : ℤ) :
    store (fun _ => (0 : UInt8)) a (Ring.segment (fun _ => 1) b k) x =
      if a ≤ x ∧ x < a + k then 1 else 0 := by
  unfold store
  by_cases hle : a ≤ x
  · rw [if_pos hle]
    by_cases hk : (x - a).toNat < k
    · rw [if_pos ⟨hle, by omega⟩, Ring.segment, List.getElem?_map, List.getElem?_range hk]
      rfl
    · rw [if_neg (by omega), List.getElem?_eq_none (by rw [segment_length]; omega)]
      rfl
  · rw [if_neg hle, if_neg (by omega)]

theorem target_probe (write : Bool) (x : ℤ) : (probe write).target write x = 0 := by
  cases write <;> rfl

theorem target_transfer (h : t.stop ≤ dev.size) (x : ℤ) :
    (sbullTransfer dev write (probe write) t).target write x =
      if t.place write ≤ x ∧ x < t.place write + (t.nsect * 512 : ℕ) then 1 else 0 := by
  rw [transfer_inside h]
  cases write with
  | true => exact store_ones _ _ _ x
  | false => exact store_ones _ _ _ x

/-- A transfer of nothing. -/
theorem transfer_nothing (h : t.stop ≤ dev.size) (hnone : t.nsect = 0) :
    sbullTransfer dev write st t = st := by
  have hempty : ∀ (mem : ℤ → UInt8) (a : ℤ), store mem a [] = mem := by
    intro mem a
    funext x
    simp [store]
  rw [transfer_inside h, hnone, Nat.zero_mul, segment_zero, segment_zero, hempty, hempty]
  split <;> rfl

/-- A transfer beyond the end of the device does what one of nothing does. -/
theorem sameEffect_beyond (h : dev.size < t.stop) (hroom : t.sector + t.nsect < 2 ^ 55)
    (hu : u.stop ≤ dev.size) : SameEffect dev write t u ↔ u.nsect = 0 := by
  constructor
  · intro hsame
    by_contra hsome
    -- the first byte of the other one
    have hprobe := congrArg (fun st => Memory.target st write (u.place write)) (hsame (probe write))
    simp only [transfer_beyond h hroom, target_probe, target_transfer hu] at hprobe
    rw [if_pos (by omega)] at hprobe
    exact absurd hprobe (by decide)
  · intro hnone st
    rw [transfer_beyond h hroom, transfer_nothing hu hnone]

/-- Two transfers from one place do the same if they are as long. -/
theorem sameEffect_inside (ht : t.stop ≤ dev.size) (hu : u.stop ≤ dev.size)
    (hsector : t.sector = u.sector) (hbuffer : t.buffer = u.buffer) :
    SameEffect dev write t u ↔ t.nsect = u.nsect := by
  constructor
  · intro hsame
    have hplace : t.place write = u.place write := by
      rw [Transfer.place, Transfer.place, hsector, hbuffer]
    by_contra hne
    -- the first byte behind the shorter one
    have hprobe := congrArg (fun st => Memory.target st write
      (u.place write + (min t.nsect u.nsect * 512 : ℕ))) (hsame (probe write))
    simp only [target_transfer ht, target_transfer hu, hplace] at hprobe
    rcases Nat.lt_or_gt_of_ne hne with hlt | hgt
    · rw [if_neg (by omega), if_pos (by omega)] at hprobe
      exact absurd hprobe (by decide)
    · rw [if_pos (by omega), if_neg (by omega)] at hprobe
      exact absurd hprobe (by decide)
  · intro hnsect st
    have htu : t = u := by
      cases t
      cases u
      simp_all
    rw [htu]

end Effect

/-! ## The rounds of a bio -/

section Rounds

variable {dev : SbullDev} {write : Bool} {st : Memory} {cur s σ : ℕ} {v : BioVec}
  {segs segs' : List BioVec} {bio : Bio} {bios : List Bio}

@[simp] theorem sectors_nil : sectors [] = 0 := rfl

@[simp] theorem sectors_cons (v : BioVec) (segs : List BioVec) :
    sectors (v :: segs) = v.bvLen / 512 + sectors segs := by
  simp [sectors]

theorem sectors_append (segs segs' : List BioVec) :
    sectors (segs ++ segs') = sectors segs + sectors segs' := by
  simp [sectors]

theorem le_sectors (hmem : v ∈ segs) : v.bvLen / 512 ≤ sectors segs :=
  List.single_le_sum (by simp) _ (List.mem_map_of_mem hmem)

theorem asCurrent_cons : AsCurrent dev cur s (v :: segs) ↔
    (v.bvLen = cur * 512 ∨ v.bvLen = 0 ∧ dev.size < 512 * (s + cur)) ∧
      AsCurrent dev cur (s + cur) segs := by
  have hmul : ∀ k, s + cur + (k + 1) * cur = s + (k + 1 + 1) * cur := by
    intro k
    rw [Nat.add_assoc, Nat.add_mul (k + 1) 1, Nat.one_mul, Nat.add_comm cur]
  constructor
  · intro h
    constructor
    · have hhead := h 0 v rfl
      rwa [Nat.zero_add, Nat.one_mul] at hhead
    · intro k w hw
      rw [hmul]
      exact h (k + 1) w hw
  · rintro ⟨hhead, htail⟩ k w hw
    cases k with
    | zero =>
        cases hw
        rwa [Nat.zero_add, Nat.one_mul]
    | succ k =>
        rw [← hmul]
        exact htail k w hw

/-- Where all rounds lie beyond the end of the device, all segments have to be empty. -/
theorem rounds_beyond (hwhole : ∀ v ∈ segs, 512 ∣ v.bvLen) (hbeyond : dev.size < 512 * (σ + cur))
    (hinside : 512 * (s + sectors segs) ≤ dev.size)
    (hroom : σ + segs.length * cur < 2 ^ 55) :
    List.Forall₂ (SameEffect dev write) (xferRounds cur σ segs) (simpleRounds s segs) ↔
      ∀ v ∈ segs, v.bvLen = 0 := by
  induction segs generalizing σ s with
  | nil => simp [xferRounds, simpleRounds]
  | cons v segs ih =>
      have hdvd := hwhole v (List.mem_cons_self ..)
      have hrest : ∀ w ∈ segs, 512 ∣ w.bvLen := fun w hw => hwhole w (List.mem_cons_of_mem v hw)
      rw [sectors_cons] at hinside
      rw [List.length_cons, Nat.succ_mul] at hroom
      have hhead : SameEffect dev write ⟨σ, cur, v.buffer⟩ ⟨s, v.bvLen / 512, v.buffer⟩ ↔
          v.bvLen / 512 = 0 := by
        refine sameEffect_beyond hbeyond ?_ ?_
        · show σ + cur < 2 ^ 55
          omega
        · simp only [Transfer.stop]
          omega
      have htail := ih (σ := σ + cur) (s := s + v.bvLen / 512) hrest (by omega) (by omega)
        (by omega)
      have hzero : v.bvLen / 512 = 0 ↔ v.bvLen = 0 := by omega
      rw [xferRounds, simpleRounds, List.forall₂_cons, hhead, htail, hzero, List.forall_mem_cons]

/-- The condition there. -/
theorem asCurrent_beyond (hbeyond : dev.size < 512 * (s + cur))
    (hinside : 512 * (s + sectors segs) ≤ dev.size) :
    AsCurrent dev cur (s + cur) segs ↔ ∀ v ∈ segs, v.bvLen = 0 := by
  constructor
  · intro h v hv
    obtain ⟨k, hk⟩ := List.mem_iff_getElem?.mp hv
    rcases h k v hk with hcur | ⟨hzero, _⟩
    · -- there is no room for it
      have hle := le_sectors hv
      omega
    · exact hzero
  · intro h k v hv
    refine Or.inr ⟨h v (List.mem_of_getElem? hv), ?_⟩
    exact lt_of_lt_of_le hbeyond (Nat.mul_le_mul_left 512 (Nat.le_add_right _ _))

theorem rounds_iff (hwhole : ∀ v ∈ segs, 512 ∣ v.bvLen)
    (hinside : 512 * (s + sectors segs) ≤ dev.size)
    (hroom : s + segs.length * cur < 2 ^ 55) :
    List.Forall₂ (SameEffect dev write) (xferRounds cur s segs) (simpleRounds s segs) ↔
      AsCurrent dev cur s segs := by
  induction segs generalizing s with
  | nil => simp [xferRounds, simpleRounds, AsCurrent]
  | cons v segs ih =>
      have hdvd := hwhole v (List.mem_cons_self ..)
      have hrest : ∀ w ∈ segs, 512 ∣ w.bvLen := fun w hw => hwhole w (List.mem_cons_of_mem v hw)
      rw [sectors_cons] at hinside
      rw [List.length_cons, Nat.succ_mul] at hroom
      have hu : Transfer.stop ⟨s, v.bvLen / 512, v.buffer⟩ ≤ dev.size := by
        simp only [Transfer.stop]
        omega
      rw [xferRounds, simpleRounds, List.forall₂_cons, asCurrent_cons]
      by_cases hbeyond : dev.size < 512 * (s + cur)
      · -- from here on, nothing is transferred
        have hnear : s + cur < 2 ^ 55 := by omega
        rw [sameEffect_beyond hbeyond hnear hu,
          rounds_beyond hrest (by omega) (by omega) (by omega),
          asCurrent_beyond hbeyond (by omega)]
        have hhead : v.bvLen / 512 = 0 ↔
            v.bvLen = cur * 512 ∨ v.bvLen = 0 ∧ dev.size < 512 * (s + cur) := by omega
        rw [hhead]
      · -- both lie on the device, and have to be as long
        have ht : Transfer.stop ⟨s, cur, v.buffer⟩ ≤ dev.size := by
          simp only [Transfer.stop]
          omega
        rw [sameEffect_inside ht hu rfl rfl]
        have hhead : cur = v.bvLen / 512 ↔
            v.bvLen = cur * 512 ∨ v.bvLen = 0 ∧ dev.size < 512 * (s + cur) := by omega
        rw [← hhead]
        refine and_congr_right ?_
        intro heq
        have hnsect : cur = v.bvLen / 512 := heq
        rw [← hnsect]
        exact ih hrest (by omega) (by omega)

theorem transferAll_congr {ts us : List Transfer}
    (h : List.Forall₂ (SameEffect dev write) ts us) (st : Memory) :
    transferAll dev write ts st = transferAll dev write us st := by
  unfold transferAll
  induction h generalizing st with
  | nil => rfl
  | cons hsame _ ih =>
      rw [List.foldl_cons, List.foldl_cons, hsame st]
      exact ih _

theorem simpleRounds_append (s : ℕ) (segs segs' : List BioVec) :
    simpleRounds s (segs ++ segs') =
      simpleRounds s segs ++ simpleRounds (s + sectors segs) segs' := by
  induction segs generalizing s with
  | nil => rfl
  | cons v segs ih =>
      rw [List.cons_append, simpleRounds, simpleRounds, ih, sectors_cons, Nat.add_assoc]
      rfl

/-! ## The modes -/

/-- The length of the current segment is that of the first one. -/
theorem curSectors_le (bio : Bio) : bioCurSectors bio ≤ sectors bio.segments := by
  cases hv : bio.biIoVec[bio.biIdx]? with
  | none => simp [bioCurSectors, hv]
  | some v =>
      have hmem : v ∈ bio.segments := by
        refine List.mem_iff_getElem?.mpr ⟨0, ?_⟩
        rw [Bio.segments, List.getElem?_drop]
        exact hv
      simpa [bioCurSectors, hv] using le_sectors hmem

/-- The sectors of all rounds fit an `unsigned long`. -/
theorem rounds_room (h : OnDevice dev bio) :
    bio.biSector + bio.segments.length * bioCurSectors bio < 2 ^ 55 := by
  have hfits := dev.fits
  have hinside := h.inside
  have hcur := curSectors_le bio
  have hlen : bio.segments.length ≤ 2 ^ 16 := by
    have hvcnt := bio.vcnt
    rw [Bio.segments, List.length_drop]
    omega
  have hmul : bio.segments.length * bioCurSectors bio ≤ 2 ^ 16 * sectors bio.segments :=
    Nat.mul_le_mul hlen hcur
  omega

theorem bio_rounds_iff (h : OnDevice dev bio) :
    List.Forall₂ (SameEffect dev write) (xferBioRounds bio)
      (simpleRounds bio.biSector bio.segments) ↔
        AsCurrent dev (bioCurSectors bio) bio.biSector bio.segments :=
  rounds_iff h.whole h.inside (rounds_room h)

theorem xferRequest_fst (bios : List Bio) (st : Memory) (n : ℕ) :
    (bios.foldl (fun r bio => (sbullXferBio dev write r.1 bio,
      r.2 + bio.biSize / KERNEL_SECTOR_SIZE)) (st, n)).1 =
        bios.foldl (sbullXferBio dev write) st := by
  induction bios generalizing st n with
  | nil => rfl
  | cons bio bios ih => exact ih _ _

/-- The bios of a request, one after the other, are its segments one after the other. -/
theorem xferBios_eq (hcontiguous : Contiguous s bios)
    (hrounds : ∀ bio ∈ bios, List.Forall₂ (SameEffect dev write) (xferBioRounds bio)
      (simpleRounds bio.biSector bio.segments)) (st : Memory) :
    bios.foldl (sbullXferBio dev write) st =
      transferAll dev write (simpleRounds s (bios.flatMap Bio.segments)) st := by
  induction bios generalizing s st with
  | nil => rfl
  | cons bio bios ih =>
      obtain ⟨hsector, hrest⟩ := hcontiguous
      obtain ⟨hbio, hbios⟩ := List.forall_mem_cons.mp hrounds
      have hfirst : sbullXferBio dev write st bio =
          transferAll dev write (simpleRounds s bio.segments) st := by
        rw [← hsector]
        exact transferAll_congr hbio st
      rw [List.foldl_cons, ih hrest hbios, hfirst, List.flatMap_cons, simpleRounds_append]
      simp only [transferAll, List.foldl_append]

theorem size_div (hwhole : ∀ v ∈ segs, 512 ∣ v.bvLen) :
    (segs.map BioVec.bvLen).sum / 512 = sectors segs := by
  induction segs with
  | nil => rfl
  | cons v segs ih =>
      obtain ⟨hv, hsegs⟩ := List.forall_mem_cons.mp hwhole
      rw [List.map_cons, List.sum_cons, sectors_cons, ← ih hsegs]
      omega

/-- What `sbull_xfer_request` counts is all that the request has. -/
theorem xferRequest_count {req : Request} (h : req.Valid dev) (st : Memory) :
    (sbullXferRequest dev req.write req.bios st).2 = sectors req.segments := by
  have hsize : ∀ bio ∈ req.bios, bio.biSize / KERNEL_SECTOR_SIZE = sectors bio.segments := by
    intro bio hbio
    exact size_div (h.2 bio hbio).whole
  have hfold : ∀ (bios : List Bio) (st : Memory) (n : ℕ),
      (∀ bio ∈ bios, bio.biSize / KERNEL_SECTOR_SIZE = sectors bio.segments) →
      (bios.foldl (fun r bio => (sbullXferBio dev req.write r.1 bio,
        r.2 + bio.biSize / KERNEL_SECTOR_SIZE)) (st, n)).2 =
          n + sectors (bios.flatMap Bio.segments) := by
    intro bios
    induction bios with
    | nil => exact fun _ _ _ => rfl
    | cons bio bios ih =>
        intro st n hall
        obtain ⟨hbio, hbios⟩ := List.forall_mem_cons.mp hall
        rw [List.foldl_cons, ih _ _ hbios, hbio, List.flatMap_cons, sectors_append, Nat.add_assoc]
  rw [sbullXferRequest, hfold _ _ _ hsize, Nat.zero_add]
  rfl

end Rounds

/-- For every queue of requests whose bios lie within the device, in whole sectors: each
round of a bio transfers its segment, and nothing else, and the three modes end alike,
exactly if each segment is as long as the current one of its bio. An empty one may also come
where less than that is left of the device. -/
theorem modes_equivalent_iff (dev : SbullDev) (reqs : List Request)
    (hvalid : ∀ req ∈ reqs, req.fs = true → req.Valid dev) :
    Equivalent dev reqs ↔ ∀ req ∈ reqs, req.fs = true → ∀ bio ∈ req.bios,
      AsCurrent dev (bioCurSectors bio) bio.biSector bio.segments := by
  constructor
  · intro h req hreq hfs bio hbio
    exact (bio_rounds_iff ((hvalid req hreq hfs).2 bio hbio)).mp (h.rounds req hreq hfs bio hbio)
  · intro h
    have hrounds : ∀ req ∈ reqs, req.fs = true → ∀ bio ∈ req.bios,
        List.Forall₂ (SameEffect dev req.write) (xferBioRounds bio)
          (simpleRounds bio.biSector bio.segments) := fun req hreq hfs bio hbio =>
      (bio_rounds_iff ((hvalid req hreq hfs).2 bio hbio)).mpr (h req hreq hfs bio hbio)
    refine ⟨hrounds, ?_, ?_⟩
    · intro req hreq hfs bio hbio st
      rw [sbullMakeRequest, sbullXferBio, transferAll_congr (hrounds req hreq hfs bio hbio)]
    · clear h
      induction reqs with
      | nil => exact fun _ => rfl
      | cons req reqs ih =>
          intro st
          obtain ⟨hreq, hreqs⟩ := List.forall_mem_cons.mp hrounds
          obtain ⟨hv, hvs⟩ := List.forall_mem_cons.mp hvalid
          rw [sbullFullRequest, sbullRequest, ih hvs hreqs]
          congr 1
          by_cases hfs : req.fs = true
          · rw [if_pos hfs, if_pos hfs, sbullXferRequest, xferRequest_fst]
            exact xferBios_eq (hv hfs).1 (hreq hfs) st
          · rw [if_neg hfs, if_neg hfs]

/-! ## Two segments -/

/-- The device with the parameters of the module, 1024 sectors of 512 bytes. -/
def defaultDev : SbullDev := ⟨524288, by decide⟩

/-- A bio at the start of the device, with a segment in each of two pages. -/
def twoSegments (first second : ℕ) : Bio :=
  ⟨0, 0, [⟨0, first⟩, ⟨4096, second⟩], (by decide : 2 < 2 ^ 16)⟩

/-- It is to be read. -/
def readTwo (first second : ℕ) : Request := ⟨true, false, 0, [twoSegments first second]⟩

theorem modes_equivalent_iff_pages : Equivalent defaultDev [readTwo 4096 4096] := by
  refine (modes_equivalent_iff defaultDev [readTwo 4096 4096] ?_).mpr ?_
  · intro req hreq _
    cases List.mem_singleton.mp hreq
    refine ⟨⟨rfl, trivial⟩, ?_⟩
    intro bio hbio
    cases List.mem_singleton.mp hbio
    exact ⟨by decide, by decide⟩
  · intro req hreq _ bio hbio
    cases List.mem_singleton.mp hreq
    cases List.mem_singleton.mp hbio
    refine asCurrent_cons.mpr ⟨Or.inl rfl, asCurrent_cons.mpr ⟨Or.inl rfl, ?_⟩⟩
    intro k v hv
    cases hv

/-- The second round reads two sectors into a segment of one, and so into what lies behind
its buffer. -/
theorem modes_overrun : (readTwo 1024 512).Valid defaultDev ∧
    (sbullXferBio defaultDev false (probe false) (twoSegments 1024 512)).mem 4608 = 1 ∧
    (transferAll defaultDev false (simpleRounds 0 (twoSegments 1024 512).segments)
      (probe false)).mem 4608 = 0 ∧
    ¬ Equivalent defaultDev [readTwo 1024 512] := by
  have hdevice : OnDevice defaultDev (twoSegments 1024 512) := ⟨by decide, by decide⟩
  refine ⟨⟨⟨rfl, trivial⟩, ?_⟩, by decide +kernel, by decide +kernel, ?_⟩
  · intro bio hbio
    cases List.mem_singleton.mp hbio
    exact hdevice
  · intro h
    have hrounds := h.rounds _ (List.mem_singleton_self _) rfl _ (List.mem_singleton_self _)
    rcases (bio_rounds_iff hdevice).mp hrounds 1 ⟨4096, 512⟩ rfl with hcur | ⟨hzero, _⟩
    · exact absurd hcur (by decide)
    · exact absurd hzero (by decide)

end Sbull
