import DriversLab.ScullFamily.System

/-!
# ScullFamily.CacheObject — quanta that are objects of a cache

scullc creates its cache when it is loaded, for objects of `scullc_quantum` bytes. That
parameter can be changed later. A transfer takes an object for `dev->quantum` bytes
long, and `memset` clears as many bytes as `scullc_quantum` says by then.

* `cache_object`: every object is large enough, and neither `memset` nor a copy leaves
  one, in exactly the runs in which each write that allocates an object finds both sizes
  within the one that the cache was created with.
-/

namespace ScullFamily

open Scull Lts Sys

/-- Positive `int`s. -/
structure PositiveOk (p : Params) : Prop where
  unitPos : 0 < p.unit
  unitInt : p.unit < 2 ^ 31
  qsetPos : 0 < p.qset
  qsetInt : p.qset < 2 ^ 31

/-- A write that allocates an object finds `dev->quantum` and `scullc_quantum` no larger
than an object. -/
def ObjectFits (object : ℤ) (s : Sys) : Act → Prop
  | .write f d fPos _ env => s.files[f]? = some (d, fPos) → ∀ dev, s.devs[d]? = some dev →
      ∀ at', Fills (scullc object) fPos env dev at' →
        dev.head.unit ≤ object ∧ s.params.unit ≤ object
  | _ => True

theorem sizes_scullc {object : ℤ} : Sizes (scullc object) PositiveOk :=
  fun _ hp => ⟨hp.unitPos, hp.unitInt, hp.qsetPos, hp.qsetInt⟩

theorem fitsStep_iff_objectFits {object : ℤ} {s : Sys} (hi : Inv (scullc object) PositiveOk s)
    (a : Act) : FitsStep (scullc object) s a ↔ ObjectFits object s a := by
  have hpos := hi.params.unitPos
  cases a with
  | write f d fPos buf env =>
      constructor
      · intro h hfile dev hdev at' hfill
        have hfits := h hfile dev hdev at' hfill
        exact ⟨hfits.1, hfits.2.2⟩
      · intro h hfile dev hdev at' hfill
        have hsmall := h hfile dev hdev at' hfill
        exact ⟨hsmall.1, hpos.le, hsmall.2⟩
  | _ => exact Iff.rfl

/-- For scullc loaded with any positive parameters, and every run of opens, reads, writes,
seeks and ioctls that leave them positive: every object is at least as long as
`dev->quantum` of its device, and neither `memset` nor a copy leaves an object, exactly if
each write that allocates one finds `dev->quantum` and `scullc_quantum` no larger than
`scullc_quantum` was at load time. -/
theorem cache_object {p : Params} (hp : PositiveOk p) (n : ℕ) {as : List Act}
    (has : Along (step (scullc p.unit)) (IoctlOk (scullc p.unit) PositiveOk) (init p n) as) :
    Along (step (scullc p.unit)) (Sound (scullc p.unit)) (init p n) as ↔
      Along (step (scullc p.unit)) (ObjectFits p.unit) (init p n) as :=
  quanta sizes_scullc (fun _ a hi => fitsStep_iff_objectFits hi a) hp n has

/-! ## scullc as it is loaded -/

def scullcLoaded : Params := ⟨SCULLC_QUANTUM, SCULLC_QSET⟩

theorem scullcLoaded_ok : PositiveOk scullcLoaded := by
  constructor <;> decide

def anyUser : IoctlUser := ⟨true, false, none, false⟩

/-- The quantum is made smaller. -/
theorem cache_object_smaller : Along (step (scullc 4000)) (Sound (scullc 4000))
    (init scullcLoaded 1) [.openFile 0 false, .ioctl (.tell .unit) 100 anyUser,
      .write 0 0 0 [7] ⟨1, true, some fun _ => 170, none⟩] := by
  refine (cache_object scullcLoaded_ok 1 ?_).mpr ?_
  · exact ⟨trivial, fun s hs => ⟨by cases hs; constructor <;> decide, fun _ _ =>
      ⟨trivial, fun _ _ => trivial⟩⟩⟩
  · refine ⟨trivial, fun s hs => ⟨trivial, fun s' hs' => ⟨?_, fun _ _ => trivial⟩⟩⟩
    intro _ dev hdev at' _
    cases hs
    cases hs'
    cases hdev
    exact ⟨by decide, by decide⟩

/-- The quantum is made larger: the next write clears 8000 bytes of an object of 4000. -/
theorem cache_object_larger : ∃ s, run (step (scullc 4000)) (init scullcLoaded 1)
    [.openFile 0 false, .ioctl (.tell .unit) 8000 anyUser] = some s ∧ PositiveOk s.params ∧
      ¬ Sound (scullc 4000) s (.write 0 0 0 [7] ⟨1, true, some fun _ => 170, none⟩) := by
  refine ⟨_, rfl, by constructor <;> decide, ?_⟩
  intro hsound
  have hinv : Inv (scullc 4000) PositiveOk
      ⟨⟨8000, SCULLC_QSET⟩, [scullcLoaded.device], [(0, 0)]⟩ := by
    refine ⟨by constructor <;> decide, ?_, by simp⟩
    intro dev hdev
    rw [List.mem_singleton.mp hdev]
    exact ⟨shape_device (sizes_scullc _ scullcLoaded_ok), scullcLoaded_ok⟩
  have hplace : place (scullcLoaded.device.geometry (scullc 4000)) 0 = some ⟨0, 0, 0⟩ := by
    decide +kernel
  have hat : arrive (scullc 4000) 0 ⟨1, true, some fun _ => 170, none⟩ scullcLoaded.device =
      .ok ⟨⟨0, 0, 0⟩, scullcLoaded.device.head, scullcLoaded.device⟩ := by
    simp only [arrive, hplace]
    rfl
  have hfits := (sound_iff sizes_scullc hinv
    (a := .write 0 0 0 [7] ⟨1, true, some fun _ => 170, none⟩) trivial).mp
    hsound rfl scullcLoaded.device rfl _ ⟨hat, _, rfl, rfl, rfl⟩
  exact absurd hfits.2.2 (by decide)

end ScullFamily
