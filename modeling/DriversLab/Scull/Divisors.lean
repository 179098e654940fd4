import DriversLab.Scull.Calls
import DriversLab.Scull.Sparse

/-!
# Scull.Divisors — what the arithmetic of a transfer relies on

The ioctls store any `int` in `scull_quantum` and `scull_qset`. A trim copies both into
the device, and each later transfer divides by them and allocates with them.

* `Geometry.Sound`: the sizes are fit for that;
* `sound_iff`: they are exactly when both are positive and their product is an `int`;
* `divisors_sound`: in every run in which each trim finds such parameters, each transfer
  finds such sizes.
-/

namespace Scull

open CInt Lts

/-- `sizeof(char *)`. -/
def sizeofPtr : ℤ := 8

/-- Both divisors are nonzero, their product does not overflow, and what `kmalloc` is
asked for is positive. -/
structure Geometry.Sound (g : Geometry) : Prop where
  itemsize : toInt (g.quantum * g.qset) ≠ 0
  quantum : g.quantum ≠ 0
  product : -2 ^ 31 ≤ g.quantum * g.qset ∧ g.quantum * g.qset < 2 ^ 31
  arraySize : 0 < g.qset * sizeofPtr
  quantumSize : 0 < g.quantum

theorem sound_iff {g : Geometry} :
    g.Sound ↔ 0 < g.quantum ∧ 0 < g.qset ∧ g.Fits := by
  constructor
  · rintro ⟨_, _, hproduct, harray, hquantum⟩
    refine ⟨hquantum, ?_, hproduct.2⟩
    unfold sizeofPtr at harray
    omega
  · rintro ⟨hq, hs, hfits⟩
    have hprod := Int.mul_pos hq hs
    unfold Geometry.Fits at hfits
    refine ⟨?_, hq.ne', ⟨by omega, hfits⟩, ?_, hq⟩
    · rw [toInt_of_range (by omega) hfits]
      exact hprod.ne'
    · unfold sizeofPtr
      omega

namespace Calls

/-- Each transfer finds sizes that its arithmetic can work with. -/
def SoundTransfer (s : CallSys) : CallAct → Prop
  | .read _ _ _ | .write _ _ _ => s.dev.geometry.Sound
  | _ => True

/-- A write-only open finds positive parameters whose product is an `int`. -/
def SoundTrim (s : CallSys) : CallAct → Prop
  | .openFile true => 0 < s.params.scullQuantum ∧ 0 < s.params.scullQset ∧
      s.params.scullQuantum * s.params.scullQset < 2 ^ 31
  | _ => True

theorem sound_step {s : CallSys} {a : CallAct} (hi : Built s) (hsound : s.dev.geometry.Sound)
    (ha : SoundTrim s a) : (update s a).dev.geometry.Sound := by
  cases a with
  | ioctl cmd arg user => exact hsound
  | openFile wronly =>
      cases wronly with
      | true => exact sound_iff.mpr ha
      | false => exact hsound
  | read fPos count env =>
      rw [(kept_read hi fPos count env).geometry]
      exact hsound
  | write fPos buf env =>
      rw [geometry_write hi fPos buf env]
      exact hsound

/-- In every run of ioctls, opens, reads and writes from the defaults of the module in
which each trim finds positive parameters with a product in range, every transfer divides
by numbers that are not zero, without overflow, and allocates positive sizes. -/
theorem divisors_sound {as : List CallAct} (h : Along step SoundTrim (init .default) as) :
    Along step SoundTransfer (init .default) as := by
  refine along_of_invariant (fun s => Built s ∧ s.dev.geometry.Sound) ?_ ?_ ?_ h
  · rintro s a ⟨_, hsound⟩ _
    cases a with
    | read fPos count env => exact hsound
    | write fPos buf env => exact hsound
    | ioctl cmd arg user => trivial
    | openFile wronly => trivial
  · rintro s a s' ⟨hi, hsound⟩ ha hs
    cases hs
    exact ⟨built_step hi a, sound_step hi hsound ha⟩
  · refine ⟨built_init Params.default_ints, sound_iff.mpr ?_⟩
    unfold Geometry.Fits
    decide

/-! ## A quantum of zero bytes -/

def root : IoctlUser := ⟨true, true, none, false⟩

def clear : Env := ⟨1, true, some fun _ => 0, none⟩

/-- The parameters are changed to eight bytes and two quanta, and the device is used. -/
def eightByTwo : List CallAct :=
  [.ioctl (.tell .quantum) 8 root, .ioctl (.shift .qset) 2 root, .openFile true,
    .write 0 [1, 2] clear, .read 0 2 clear]

theorem divisors_sound_eightByTwo : Along step SoundTransfer (init .default) eightByTwo := by
  apply divisors_sound
  refine ⟨trivial, ?_⟩
  rintro _ ⟨⟩
  refine ⟨trivial, ?_⟩
  rintro _ ⟨⟩
  refine ⟨⟨by decide, by decide, by decide⟩, ?_⟩
  intro _ _
  exact ⟨trivial, fun _ _ => ⟨trivial, fun _ _ => trivial⟩⟩

/-- An ioctl sets the quantum to zero, a write-only open trims the device, and the next
write divides by zero. -/
theorem divisors_zero : ∃ s, run step (init .default)
      [.ioctl (.tell .quantum) 0 root, .openFile true] = some s ∧
    scullWrite s.dev.geometry [1] 0 clear s.dev = .error .divide ∧
    ¬ SoundTransfer s (.write 0 [1] clear) := by
  refine ⟨_, rfl, rfl, ?_⟩
  intro h
  exact absurd h.quantumSize (by decide)

end Calls

end Scull
