import DriversLab.Lib.Kref
import DriversLab.Lib.Lts
import DriversLab.Lib.Table
import DriversLab.Usb.Probe

/-!
# Usb.Skeleton — the life of a `struct usb_skel`

Any number of interfaces come and go while any number of processes open, read, write and
close their nodes; a file stays open after its device is gone. The calls interleave at
the points where one of them can sleep or give up the kernel lock.

`skel_disconnect` takes the kernel lock "to prevent skel_open() from racing": `locked`
says whether `skel_open` is called under that lock, too.

* `Inv`: the counter of each structure is the number of its holders;
* `skels_counted`: so it is in every reachable state, and what has been taken is what
  the structures in use account for;
* `skel_memory_safe_iff`: nothing is used after it has been freed, or freed twice, in any
  run, exactly if `skel_open` is called under the lock.
-/

namespace Usb

open Lts

/-! ## The system -/

/-- `struct usb_interface`: the driver's data, and whether it has a minor. -/
structure Intf where
  intfdata : Option ℕ
  registered : Bool
deriving DecidableEq, Repr

/-- Where a process stands. A structure is named by its place in `skels`, a file by its
place in `files`. -/
inductive Point where
  | user
  /-- `skel_open` has the interface. -/
  | found (i : ℕ)
  /-- `skel_open` has the structure, before `kref_get`. -/
  | opening (d : ℕ)
  /-- `skel_disconnect`, holding the lock. -/
  | disconnecting (i d : ℕ)
  /-- `skel_disconnect` after `unlock_kernel`. -/
  | putting (d : ℕ)
  /-- `skel_read` in `usb_bulk_msg`. -/
  | waiting (f d count : ℕ)
  /-- `skel_read` before `copy_to_user`; `data` is what its transfer has brought. -/
  | copying (f d : ℕ) (data : List UInt8)
  | writing (f d : ℕ)
deriving DecidableEq, Repr

structure SkelSys where
  skels : List (Kref.Obj UsbSkel)
  held : Held
  intfs : List Intf
  procs : List Point
  /-- `private_data` of every file that was ever opened, `none` after its release. -/
  files : List (Option ℕ)
  /-- Who holds the kernel lock. -/
  bkl : Option ℕ
deriving DecidableEq

/-- `n` processes, and `m` interfaces that the driver has not seen yet. -/
def SkelSys.init (n m : ℕ) : SkelSys where
  skels := []
  held := ⟨0, 0⟩
  intfs := List.replicate m ⟨none, false⟩
  procs := List.replicate n .user
  files := []
  bkl := none

inductive Action where
  | skelProbe (i : ℕ) (o : Outcome) (endpoints : List UsbEndpointDescriptor)
  | openFind (p i : ℕ)
  | openData (p i : ℕ)
  | openGet (p d : ℕ)
  | disconnect (p i d : ℕ)
  | deregister (p i d : ℕ)
  | disconnectPut (p d : ℕ)
  | release (p f d : ℕ)
  | readBegin (p f d count : ℕ)
  | readFill (p f d count : ℕ) (data : List UInt8)
  | readFail (p f d count : ℕ)
  | readCopy (p f d : ℕ) (data : List UInt8)
  | writeBegin (p f d : ℕ)
  | writeEnd (p f d : ℕ)

/-- The process is inside of a call on file `f`. -/
def Point.uses (f : ℕ) : Point → Bool
  | .waiting g _ _ | .copying g _ _ | .writing g _ => g == f
  | _ => false

/-- `dev->bulk_in_size`. -/
def bulkInSize (s : SkelSys) (d : ℕ) : ℕ := (s.skels[d]?.map fun o => o.val.bulkInSize).getD 0

/-- `dev->bulk_in_buffer`. -/
def buffer (skels : List (Kref.Obj UsbSkel)) (d : ℕ) : List UInt8 :=
  (skels[d]?.bind fun o => o.val.bulkInBuffer).getD []

section Steps

variable (locked : Bool)

/-- When an action can happen. The VFS releases a file after the last call on it has
returned. -/
def guard (s : SkelSys) : Action → Prop
  | .skelProbe i _ _ => s.intfs[i]? = some ⟨none, false⟩
  | .openFind p _ => s.procs[p]? = some .user ∧ (locked = true → s.bkl = none)
  | .openData p i => s.procs[p]? = some (.found i)
  | .openGet p d => s.procs[p]? = some (.opening d)
  | .disconnect p i d =>
      s.procs[p]? = some .user ∧ s.bkl = none ∧ s.intfs[i]? = some ⟨some d, true⟩
  | .deregister p i d => s.procs[p]? = some (.disconnecting i d)
  | .disconnectPut p d => s.procs[p]? = some (.putting d)
  | .release p f d => s.procs[p]? = some .user ∧ s.files[f]? = some (some d) ∧
      ∀ x ∈ s.procs, x.uses f = false
  | .readBegin p f d _ => s.procs[p]? = some .user ∧ s.files[f]? = some (some d)
  | .readFill p f d count data => s.procs[p]? = some (.waiting f d count) ∧
      data.length ≤ min (bulkInSize s d) count
  | .readFail p f d count => s.procs[p]? = some (.waiting f d count)
  | .readCopy p f d data => s.procs[p]? = some (.copying f d data)
  | .writeBegin p f d => s.procs[p]? = some .user ∧ s.files[f]? = some (some d)
  | .writeEnd p f d => s.procs[p]? = some (.writing f d)

instance (s : SkelSys) (a : Action) : Decidable (guard locked s a) := by
  cases a <;> unfold guard <;> infer_instance

def SkelSys.goto (s : SkelSys) (p : ℕ) (x : Point) : SkelSys :=
  { s with procs := s.procs.set p x }

/-- The caller of `skel_open` gives the lock back. -/
def SkelSys.unlock (s : SkelSys) : SkelSys := { s with bkl := if locked then none else s.bkl }

/-- `kref_put (&dev->kref, skel_delete)`. -/
def SkelSys.krefPut (s : SkelSys) (d : ℕ) : SkelSys :=
  { s with
    skels := Kref.put s.skels d
    held := s.skels[d]?.elim s.held fun o =>
      if o.refcount - 1 = 0 then skelDelete o.val s.held else s.held }

/-- The transfer puts its bytes at the start of the buffer. -/
def UsbSkel.fill (data : List UInt8) (dev : UsbSkel) : UsbSkel :=
  { dev with bulkInBuffer := dev.bulkInBuffer.map fun b => data ++ b.drop data.length }

/-- Until it is registered nobody else sees what `skel_probe` works on, so that it is
one step. -/
def probeStep (s : SkelSys) (i : ℕ) (o : Outcome) (endpoints : List UsbEndpointDescriptor) :
    SkelSys :=
  match skelProbe o endpoints s.held with
  | (_, none, held) => { s with held := held }
  | (_, some dev, held) =>
      { s with
        held := held
        skels := s.skels ++ [Kref.Obj.init dev]
        intfs := s.intfs.set i ⟨some s.skels.length, true⟩ }

def update (s : SkelSys) : Action → SkelSys
  | .skelProbe i o endpoints => probeStep s i o endpoints
  | .openFind p i =>
      if s.intfs[i]?.elim false (·.registered) then
        { s.goto p (.found i) with bkl := if locked then some p else s.bkl }
      else s
  | .openData p i =>
      match s.intfs[i]?.bind (·.intfdata) with
      | none => (s.goto p .user).unlock locked
      | some d => s.goto p (.opening d)
  | .openGet p d =>
      { (s.goto p .user).unlock locked with
        skels := Kref.get s.skels d
        files := s.files ++ [some d] }
  | .disconnect p i d =>
      { s.goto p (.disconnecting i d) with
        intfs := s.intfs.set i ⟨none, true⟩
        bkl := some p }
  | .deregister p i d =>
      { s.goto p (.putting d) with
        intfs := s.intfs.set i ⟨none, false⟩
        bkl := none }
  | .disconnectPut p d => (s.goto p .user).krefPut d
  | .release _ f d => { s with files := s.files.set f none }.krefPut d
  | .readBegin p f d count => s.goto p (.waiting f d count)
  | .readFill p f d _ data =>
      { s.goto p (.copying f d data) with skels := Kref.write s.skels d (UsbSkel.fill data) }
  | .readFail p _ _ _ => s.goto p .user
  | .readCopy p _ _ _ => s.goto p .user
  | .writeBegin p f d => s.goto p (.writing f d)
  | .writeEnd p _ _ => s.goto p .user

def step : SkelSys → Action → Option SkelSys := guarded (guard locked) (update locked)

end Steps

/-! ## Who holds a structure -/

def intfHold (d : ℕ) (x : Intf) : ℤ := if x.intfdata = some d then 1 else 0

def pointHold (d : ℕ) : Point → ℤ
  | .disconnecting _ e | .putting e => if e = d then 1 else 0
  | _ => 0

def fileHold (d : ℕ) (x : Option ℕ) : ℤ := if x = some d then 1 else 0

/-- The holders of a structure: its interface, the `skel_disconnect` that has taken it
from there, and the files. -/
def hold (s : SkelSys) (d : ℕ) : ℤ :=
  (s.intfs.map (intfHold d)).sum + (s.procs.map (pointHold d)).sum +
    (s.files.map (fileHold d)).sum

theorem intfHold_nonneg (d : ℕ) (x : Intf) : 0 ≤ intfHold d x := by
  unfold intfHold
  split <;> decide

theorem pointHold_nonneg (d : ℕ) (x : Point) : 0 ≤ pointHold d x := by
  unfold pointHold
  split
  · split <;> decide
  · split <;> decide
  · exact le_refl _

theorem fileHold_nonneg (d : ℕ) (x : Option ℕ) : 0 ≤ fileHold d x := by
  unfold fileHold
  split <;> decide

section Holders

variable {s s' : SkelSys} {d : ℕ}

theorem hold_pos_of_intf {x : Intf} (hx : x ∈ s.intfs) (hd : 0 < intfHold d x) :
    0 < hold s d := by
  have hle := Table.le_sum_map (intfHold_nonneg d) hx
  have hprocs := Table.sum_map_nonneg s.procs (pointHold_nonneg d)
  have hfiles := Table.sum_map_nonneg s.files (fileHold_nonneg d)
  unfold hold
  omega

theorem hold_pos_of_point {x : Point} (hx : x ∈ s.procs) (hd : 0 < pointHold d x) :
    0 < hold s d := by
  have hle := Table.le_sum_map (pointHold_nonneg d) hx
  have hintfs := Table.sum_map_nonneg s.intfs (intfHold_nonneg d)
  have hfiles := Table.sum_map_nonneg s.files (fileHold_nonneg d)
  unfold hold
  omega

theorem hold_pos_of_file {f : ℕ} (hf : s.files[f]? = some (some d)) : 0 < hold s d := by
  have hone : fileHold d (some d) = 1 := if_pos rfl
  have hle := Table.le_sum_map (fileHold_nonneg d) (List.mem_of_getElem? hf)
  have hintfs := Table.sum_map_nonneg s.intfs (intfHold_nonneg d)
  have hprocs := Table.sum_map_nonneg s.procs (pointHold_nonneg d)
  unfold hold
  omega

/-- A process goes on, and holds what it held. -/
theorem hold_goto {p : ℕ} {x y : Point} (hx : s.procs[p]? = some x)
    (hsame : ∀ e, pointHold e y = pointHold e x) (hprocs : s'.procs = s.procs.set p y)
    (hintfs : s'.intfs = s.intfs) (hfiles : s'.files = s.files) (e : ℕ) :
    hold s' e = hold s e := by
  unfold hold
  rw [hprocs, hintfs, hfiles, Table.sum_map_set (pointHold e) hx
    (d := 0) (by rw [hsame, add_zero]), add_zero]

end Holders

/-! ## The invariant -/

/-- Some interface leads to the structure. -/
def Attached (s : SkelSys) (d : ℕ) : Prop := ∃ x ∈ s.intfs, x.intfdata = some d

/-- The interfaces that have a structure, and those that are being disconnected, stay as
they are. -/
structure SameIntfs (s s' : SkelSys) : Prop where
  attached : ∀ d, Attached s d → Attached s' d
  leaving : ∀ i : ℕ, s.intfs[i]? = some (⟨none, true⟩ : Intf) →
    s'.intfs[i]? = some (⟨none, true⟩ : Intf)

theorem SameIntfs.of_eq {s s' : SkelSys} (h : s'.intfs = s.intfs) : SameIntfs s s' := by
  constructor
  · intro d hd
    rw [Attached, h]
    exact hd
  · intro i hi
    rw [h]
    exact hi

/-- What a process may rely on where it stands. -/
def PointOk (s : SkelSys) (p : ℕ) : Point → Prop
  | .user | .putting _ => True
  | .found _ => s.bkl = some p
  | .disconnecting i _ => s.bkl = some p ∧ s.intfs[i]? = some ⟨none, true⟩
  | .opening d => s.bkl = some p ∧ Attached s d
  | .waiting f d _ | .copying f d _ | .writing f d => s.files[f]? = some (some d)

/-- The invariant of the runs in which `skel_open` is called under the kernel lock. -/
structure Inv (s : SkelSys) : Prop where
  counted : Kref.Counted s.skels (hold s)
  points : ∀ p x, s.procs[p]? = some x → PointOk s p x
  buffers : ∀ o ∈ s.skels, o.val.bulkInBuffer.isSome = true
  held : s.held = ⟨2 * Kref.liveCount s.skels, Kref.liveCount s.skels⟩

/-- Another process than the one that moves. -/
theorem pointOk_frame {s s' : SkelSys} {p : ℕ} {x : Point} (h : PointOk s p x)
    (hbkl : s.bkl = some p → s'.bkl = some p ∧ SameIntfs s s')
    (hfiles : ∀ f d, x.uses f = true → s.files[f]? = some (some d) →
      s'.files[f]? = some (some d)) : PointOk s' p x := by
  cases x with
  | user => trivial
  | putting d => trivial
  | found i => exact (hbkl h).1
  | disconnecting i d => exact ⟨(hbkl h.1).1, (hbkl h.1).2.leaving i h.2⟩
  | opening d => exact ⟨(hbkl h.1).1, (hbkl h.1).2.attached d h.2⟩
  | waiting f d count => exact hfiles f d (by simp [Point.uses]) h
  | copying f d data => exact hfiles f d (by simp [Point.uses]) h
  | writing f d => exact hfiles f d (by simp [Point.uses]) h

theorem inv_init (n m : ℕ) : Inv (SkelSys.init n m) := by
  have hzero : hold (SkelSys.init n m) = fun _ => 0 := by
    funext d
    simp [hold, SkelSys.init, intfHold, pointHold]
  constructor
  · rw [hzero]
    exact Kref.counted_nil
  · intro p x hx
    have hmem := List.mem_of_getElem? hx
    rw [SkelSys.init, List.mem_replicate] at hmem
    rw [hmem.2]
    trivial
  · intro o ho
    simp [SkelSys.init] at ho
  · rfl

section Steps

variable {s : SkelSys}

/-- The process that moves, and nothing else that matters. -/
theorem inv_goto (hi : Inv s) {p : ℕ} {x y : Point} (hx : s.procs[p]? = some x)
    (hsame : ∀ e, pointHold e y = pointHold e x) (hy : PointOk s p y) : Inv (s.goto p y) := by
  constructor
  · exact hi.counted.handOver (hold_goto hx hsame rfl rfl rfl)
  · intro q z hz
    refine Table.forall_set (P := PointOk (s.goto p y)) ?_ ?_ q z hz
    · intro j w _ hw
      exact pointOk_frame (hi.points j w hw) (fun hb => ⟨hb, .of_eq rfl⟩) fun _ _ _ hf => hf
    · exact pointOk_frame hy (fun hb => ⟨hb, .of_eq rfl⟩) fun _ _ _ hf => hf
  · exact hi.buffers
  · exact hi.held

/-- The last step under the lock, which the process `p` holds. -/
theorem inv_unlock (hi : Inv s) {p : ℕ} {x : Point} (hx : s.procs[p]? = some x)
    (hzero : ∀ e, pointHold e x = 0) (hb : s.bkl = some p) :
    Inv ((s.goto p .user).unlock true) := by
  constructor
  · refine hi.counted.handOver (hold_goto hx (y := .user) ?_ rfl rfl rfl)
    intro e
    rw [hzero]
    rfl
  · intro q z hz
    refine Table.forall_set (P := PointOk ((s.goto p .user).unlock true)) ?_ ?_ q z hz
    · intro j w hj hw
      refine pointOk_frame (hi.points j w hw) ?_ fun _ _ _ hf => hf
      intro hbj
      exact absurd (Option.some.inj (hbj.symm.trans hb)) hj
    · trivial
  · exact hi.buffers
  · exact hi.held

/-- `kref_put` by somebody who holds the structure and has let go of it in `t`. -/
theorem inv_krefPut (hi : Inv s) {t : SkelSys} {d : ℕ} (hd : 0 < hold s d)
    (hskels : t.skels = s.skels) (hheld : t.held = s.held)
    (hnew : ∀ e, hold t e = hold s e - if e = d then 1 else 0)
    (hpoints : ∀ p x, t.procs[p]? = some x → PointOk t p x) : Inv (t.krefPut d) := by
  rcases hi.counted.live hd with ⟨o, ho, hcount, hfrees⟩
  have hbuf := hi.buffers o (List.mem_of_getElem? ho)
  have hlive := Kref.liveCount_put ho hfrees
  constructor
  · show Kref.Counted (Kref.put t.skels d) (hold t)
    rw [hskels]
    exact hi.counted.put hd hnew
  · intro p x hx
    exact pointOk_frame (hpoints p x hx) (fun hb => ⟨hb, .of_eq rfl⟩) fun _ _ _ hf => hf
  · intro x hx
    rcases List.mem_iff_getElem?.mp hx with ⟨e, he⟩
    have he' : (Kref.put s.skels d)[e]? = some x := by
      rw [← hskels]
      exact he
    rcases Kref.modify_some he' with ⟨x', hx', rfl⟩
    have hold := hi.buffers x' (List.mem_of_getElem? hx')
    split <;> exact hold
  · show (t.skels[d]?.elim t.held fun o =>
      if o.refcount - 1 = 0 then skelDelete o.val t.held else t.held) = ⟨_, _⟩
    rw [hskels, hheld, ho]
    show (if o.refcount - 1 = 0 then skelDelete o.val s.held else s.held) =
      ⟨2 * (Kref.liveCount (Kref.put t.skels d) : ℤ), Kref.liveCount (Kref.put t.skels d)⟩
    rw [hskels, hlive, hi.held]
    split
    · ext <;> simp [skelDelete, hbuf, Held.kfree, Held.usbPutDev]
      omega
    · simp

/-- What a probe does to the system. -/
theorem probeStep_cases (s : SkelSys) (i : ℕ) (o : Outcome)
    (endpoints : List UsbEndpointDescriptor) :
    probeStep s i o endpoints = s ∨
    ∃ dev : UsbSkel, dev.bulkInBuffer.isSome = true ∧ probeStep s i o endpoints =
      { s with
        held := ⟨s.held.kmallocs + 2, s.held.udevs + 1⟩
        skels := s.skels ++ [Kref.Obj.init dev]
        intfs := s.intfs.set i ⟨some s.skels.length, true⟩ } := by
  rcases skelProbe_spec o endpoints s.held with ⟨-, hsucc, hfail⟩
  unfold probeStep
  rcases hp : skelProbe o endpoints s.held with ⟨ret, dev, held⟩
  rw [hp] at hsucc hfail
  by_cases hret : ret = 0
  · rcases hsucc hret with ⟨ein, -, eout, -, block, -, heq⟩
    cases heq
    exact .inr ⟨_, rfl, rfl⟩
  · cases hfail hret
    exact .inl rfl

/-- An interface that the driver has not seen yet is given a structure. -/
theorem sameIntfs_set {s' : SkelSys} {i : ℕ} {y : Intf} (hi : s.intfs[i]? = some ⟨none, false⟩)
    (hs : s'.intfs = s.intfs.set i y) : SameIntfs s s' := by
  constructor
  · rintro d ⟨z, hz, hd⟩
    rcases List.mem_iff_getElem?.mp hz with ⟨j, hj⟩
    have hne : i ≠ j := by
      rintro rfl
      rw [hi] at hj
      cases hj
      cases hd
    refine ⟨z, ?_, hd⟩
    rw [hs]
    exact List.mem_of_getElem? ((List.getElem?_set_ne hne).trans hj)
  · intro j hj
    have hne : i ≠ j := by
      rintro rfl
      rw [hi] at hj
      cases hj
    rw [hs]
    exact (List.getElem?_set_ne hne).trans hj

theorem inv_probe (hi : Inv s) {i : ℕ} (hx : s.intfs[i]? = some ⟨none, false⟩) (o : Outcome)
    (endpoints : List UsbEndpointDescriptor) : Inv (probeStep s i o endpoints) := by
  rcases probeStep_cases s i o endpoints with heq | ⟨dev, hbuf, heq⟩
  · rw [heq]
    exact hi
  · rw [heq]
    constructor
    · refine hi.counted.alloc dev ?_
      intro e
      have hset := Table.sum_map_set (intfHold e) hx (y := ⟨some s.skels.length, true⟩)
        (d := if e = s.skels.length then 1 else 0) (by simp [intfHold, eq_comm])
      simp only [hold, hset]
      omega
    · intro p x hp
      refine pointOk_frame (hi.points p x hp) ?_ fun _ _ _ hf => hf
      exact fun hb => ⟨hb, sameIntfs_set hx rfl⟩
    · intro x hxmem
      rcases List.mem_append.mp hxmem with hold | hnew
      · exact hi.buffers x hold
      · rw [List.mem_singleton.mp hnew]
        exact hbuf
    · show (⟨s.held.kmallocs + 2, s.held.udevs + 1⟩ : Held) = _
      rw [Kref.liveCount_alloc, hi.held]
      push_cast
      ext
      · exact (mul_add_one _ _).symm
      · rfl

/-- A process enters a locked section. -/
theorem inv_lock (hi : Inv s) {p : ℕ} {y : Point} (hfree : s.bkl = none) {t : SkelSys}
    (hcounted : Kref.Counted s.skels (hold t))
    (hskels : t.skels = s.skels) (hheld : t.held = s.held) (hfiles : t.files = s.files)
    (hprocs : t.procs = s.procs.set p y) (hy : PointOk t p y) : Inv t := by
  constructor
  · rw [hskels]
    exact hcounted
  · rw [hprocs]
    refine Table.forall_set ?_ hy
    intro j w _ hw
    refine pointOk_frame (hi.points j w hw) ?_ ?_
    · intro hb
      rw [hfree] at hb
      cases hb
    · intro f d _ hf
      rw [hfiles]
      exact hf
  · rw [hskels]
    exact hi.buffers
  · rw [hskels, hheld]
    exact hi.held

theorem inv_openFind (hi : Inv s) {p i : ℕ} (hx : s.procs[p]? = some .user)
    (hfree : s.bkl = none) : Inv (update true s (.openFind p i)) := by
  show Inv (if s.intfs[i]?.elim false (·.registered) then
    { s.goto p (.found i) with bkl := some p } else s)
  split
  · exact inv_lock hi hfree (hi.counted.handOver (hold_goto hx (y := .found i) (fun _ => rfl)
      rfl rfl rfl)) rfl rfl rfl rfl rfl
  · exact hi

theorem inv_openData (hi : Inv s) {p i : ℕ} (hx : s.procs[p]? = some (.found i)) :
    Inv (update true s (.openData p i)) := by
  have hb : s.bkl = some p := hi.points p _ hx
  cases hd : s.intfs[i]?.bind (·.intfdata) with
  | none =>
      simp only [update, hd]
      exact inv_unlock hi hx (fun _ => rfl) hb
  | some d =>
      simp only [update, hd]
      rcases Option.bind_eq_some_iff.mp hd with ⟨z, hz, hzd⟩
      exact inv_goto hi hx (fun _ => rfl) ⟨hb, z, List.mem_of_getElem? hz, hzd⟩

theorem inv_openGet (hi : Inv s) {p d : ℕ} (hx : s.procs[p]? = some (.opening d)) :
    Inv (update true s (.openGet p d)) := by
  rcases hi.points p _ hx with ⟨hb, z, hz, hzd⟩
  have hd : 0 < hold s d := hold_pos_of_intf hz (by simp [intfHold, hzd])
  have hu := inv_unlock hi hx (fun _ => rfl) hb
  have hsame : ∀ e, hold ((s.goto p .user).unlock true) e = hold s e :=
    hold_goto hx (y := .user) (fun _ => rfl) rfl rfl rfl
  constructor
  · refine hu.counted.get (by rw [hsame]; exact hd) ?_
    intro e
    have hnew : ((s.files ++ [some d]).map (fileHold e)).sum =
        (s.files.map (fileHold e)).sum + if e = d then 1 else 0 := by
      simp [fileHold, eq_comm]
    simp only [hold, update, SkelSys.goto, SkelSys.unlock, hnew]
    omega
  · intro q x hq
    refine pointOk_frame (hu.points q x hq) (fun hb => ⟨hb, .of_eq rfl⟩) ?_
    intro f e _ hf
    show (s.files ++ [some d])[f]? = _
    have hlt : f < s.files.length := (List.getElem?_eq_some_iff.mp hf).1
    rw [List.getElem?_append_left hlt]
    exact hf
  · intro o ho
    rcases List.mem_iff_getElem?.mp ho with ⟨e, he⟩
    rcases Kref.modify_some he with ⟨o', ho', rfl⟩
    have hbuf := hi.buffers o' (List.mem_of_getElem? ho')
    split <;> exact hbuf
  · show s.held = ⟨2 * Kref.liveCount (Kref.get s.skels d), Kref.liveCount (Kref.get s.skels d)⟩
    rw [Kref.liveCount_get]
    exact hi.held

/-- `skel_disconnect` takes the structure over from the interface. -/
theorem inv_disconnect (hi : Inv s) {p i d : ℕ} (hx : s.procs[p]? = some .user)
    (hfree : s.bkl = none) (hintf : s.intfs[i]? = some ⟨some d, true⟩) :
    Inv (update true s (.disconnect p i d)) := by
  have hlt : i < s.intfs.length := (List.getElem?_eq_some_iff.mp hintf).1
  refine inv_lock hi (y := .disconnecting i d) hfree ?_ rfl rfl rfl rfl
    ⟨rfl, List.getElem?_set_self hlt⟩
  refine hi.counted.handOver ?_
  intro e
  have hprocs := Table.sum_map_set (pointHold e) hx (y := .disconnecting i d)
    (d := if d = e then 1 else 0) (by simp [pointHold])
  have hintfs := Table.sum_map_set (intfHold e) hintf (y := ⟨none, true⟩)
    (d := -if d = e then 1 else 0) (by simp [intfHold])
  simp only [hold, update, SkelSys.goto, hprocs, hintfs]
  omega

theorem inv_deregister (hi : Inv s) {p i d : ℕ} (hx : s.procs[p]? = some (.disconnecting i d)) :
    Inv (update true s (.deregister p i d)) := by
  rcases hi.points p _ hx with ⟨hb, hintf⟩
  constructor
  · refine hi.counted.handOver ?_
    intro e
    have hintfs := Table.sum_map_set (intfHold e) hintf (y := ⟨none, false⟩) (d := 0)
      (by simp [intfHold])
    have hprocs := Table.sum_map_set (pointHold e) hx (y := .putting d) (d := 0)
      (by simp [pointHold])
    simp only [hold, update, SkelSys.goto, hprocs, hintfs, add_zero]
  · refine Table.forall_set ?_ trivial
    intro j w hj hw
    refine pointOk_frame (hi.points j w hw) ?_ fun _ _ _ hf => hf
    intro hbj
    exact absurd (Option.some.inj (hbj.symm.trans hb)) hj
  · exact hi.buffers
  · exact hi.held

theorem inv_disconnectPut (hi : Inv s) {p d : ℕ} (hx : s.procs[p]? = some (.putting d)) :
    Inv (update true s (.disconnectPut p d)) := by
  have hd : 0 < hold s d := hold_pos_of_point (List.mem_of_getElem? hx) (by simp [pointHold])
  refine inv_krefPut hi hd rfl rfl ?_ ?_
  · intro e
    have hprocs := Table.sum_map_set (pointHold e) hx (y := .user)
      (d := -if e = d then 1 else 0) (by simp [pointHold, eq_comm])
    simp only [hold, SkelSys.goto, hprocs]
    omega
  · refine Table.forall_set ?_ trivial
    intro j w _ hw
    exact pointOk_frame (hi.points j w hw) (fun hb => ⟨hb, .of_eq rfl⟩) fun _ _ _ hf => hf

/-- A file is released when no call on it is on its way. -/
theorem inv_release (hi : Inv s) {p f d : ℕ} (hf : s.files[f]? = some (some d))
    (hidle : ∀ x ∈ s.procs, x.uses f = false) : Inv (update true s (.release p f d)) := by
  refine inv_krefPut hi (hold_pos_of_file hf) rfl rfl ?_ ?_
  · intro e
    have hfiles := Table.sum_map_set (fileHold e) hf (y := none)
      (d := -if e = d then 1 else 0) (by simp [fileHold, eq_comm])
    simp only [hold, hfiles]
    omega
  · intro q x hq
    refine pointOk_frame (hi.points q x hq) (fun hb => ⟨hb, .of_eq rfl⟩) ?_
    intro g e huse hg
    have hne : f ≠ g := by
      rintro rfl
      have hno := hidle x (List.mem_of_getElem? hq)
      rw [huse] at hno
      cases hno
    exact (List.getElem?_set_ne hne).trans hg

theorem inv_readFill (hi : Inv s) {p f d count : ℕ} {data : List UInt8}
    (hx : s.procs[p]? = some (.waiting f d count)) :
    Inv (update true s (.readFill p f d count data)) := by
  have hfile : s.files[f]? = some (some d) := hi.points p _ hx
  have hg := inv_goto hi hx (y := .copying f d data) (fun _ => rfl) hfile
  constructor
  · exact hg.counted.write _
  · intro q x hq
    exact pointOk_frame (hg.points q x hq) (fun hb => ⟨hb, .of_eq rfl⟩) fun _ _ _ hf => hf
  · intro o ho
    rcases List.mem_iff_getElem?.mp ho with ⟨e, he⟩
    rcases Kref.modify_some he with ⟨o', ho', rfl⟩
    have hbuf := hi.buffers o' (List.mem_of_getElem? ho')
    split
    · simp only [UsbSkel.fill, Option.isSome_map]
      exact hbuf
    · exact hbuf
  · show s.held = ⟨2 * Kref.liveCount (Kref.write s.skels d (UsbSkel.fill data)),
      Kref.liveCount (Kref.write s.skels d (UsbSkel.fill data))⟩
    rw [Kref.liveCount_write]
    exact hi.held

theorem inv_step {s' : SkelSys} {a : Action} (hi : Inv s) (hs : step true s a = some s') :
    Inv s' := by
  rcases guarded_eq_some.mp hs with ⟨hg, rfl⟩
  cases a with
  | skelProbe i o endpoints => exact inv_probe hi hg o endpoints
  | openFind p i => exact inv_openFind hi hg.1 (hg.2 rfl)
  | openData p i => exact inv_openData hi hg
  | openGet p d => exact inv_openGet hi hg
  | disconnect p i d => exact inv_disconnect hi hg.1 hg.2.1 hg.2.2
  | deregister p i d => exact inv_deregister hi hg
  | disconnectPut p d => exact inv_disconnectPut hi hg
  | release p f d => exact inv_release hi hg.2.1 hg.2.2
  | readBegin p f d count => exact inv_goto hi hg.1 (fun _ => rfl) hg.2
  | readFill p f d count data => exact inv_readFill hi hg.1
  | readFail p f d count => exact inv_goto hi hg (fun _ => rfl) trivial
  | readCopy p f d data => exact inv_goto hi hg (fun _ => rfl) trivial
  | writeBegin p f d => exact inv_goto hi hg.1 (fun _ => rfl) hg.2
  | writeEnd p f d => exact inv_goto hi hg (fun _ => rfl) trivial

end Steps

/-! ## Memory -/

/-- Everything is closed, and every device is gone. -/
structure Idle (s : SkelSys) : Prop where
  intfs : ∀ x ∈ s.intfs, x.intfdata = none
  procs : ∀ x ∈ s.procs, x = .user
  files : ∀ x ∈ s.files, x = none

theorem hold_of_idle {s : SkelSys} (h : Idle s) (d : ℕ) : hold s d = 0 := by
  have hintfs := (Table.sum_map_eq_zero_iff (l := s.intfs) fun x _ => intfHold_nonneg d x).mpr
    fun x hx => by simp [intfHold, h.intfs x hx]
  have hprocs := (Table.sum_map_eq_zero_iff (l := s.procs) fun x _ => pointHold_nonneg d x).mpr
    fun x hx => by simp [pointHold, h.procs x hx]
  have hfiles := (Table.sum_map_eq_zero_iff (l := s.files) fun x _ => fileHold_nonneg d x).mpr
    fun x hx => by simp [fileHold, h.files x hx]
  unfold hold
  omega

/-- Under the lock, in every run: each counter is the number of holders, a structure has
been freed once if it has none and never otherwise, and two blocks and one reference are
held for each structure in use. In the end nothing is left. -/
theorem skels_counted {n m : ℕ} {as : List Action} {s : SkelSys}
    (hr : run (step true) (SkelSys.init n m) as = some s) :
    (∀ d o, s.skels[d]? = some o →
      o.refcount = hold s d ∧ o.frees = if hold s d = 0 then 1 else 0) ∧
    s.held = ⟨2 * Kref.liveCount s.skels, Kref.liveCount s.skels⟩ ∧
    (Idle s → s.held = ⟨0, 0⟩ ∧ ∀ o ∈ s.skels, o.frees = 1) := by
  have hi : Inv s := run_invariant (fun _ _ _ => inv_step) (inv_init n m) hr
  refine ⟨?_, hi.held, ?_⟩
  · intro d o ho
    exact ⟨hi.counted.refcount d o ho, hi.counted.frees d o ho⟩
  · intro hidle
    have hone : ∀ o ∈ s.skels, o.frees = 1 := by
      intro o ho
      rcases List.mem_iff_getElem?.mp ho with ⟨d, hd⟩
      rw [hi.counted.frees d o hd, hold_of_idle hidle, if_pos rfl]
    have hnone : Kref.liveCount s.skels = 0 := by
      rw [Kref.liveCount, List.countP_eq_zero]
      intro o ho
      simp [hone o ho]
    refine ⟨?_, hone⟩
    rw [hi.held, hnone]
    rfl

/-- A device with one endpoint of each kind, everything granted. -/
def plug (i : ℕ) : Action :=
  .skelProbe i ⟨true, some fun _ => 0, 0⟩ [⟨0x81, 2, 4⟩, ⟨0x02, 2, 4⟩]

/-- A file outlives its device. -/
def visit : List Action :=
  [plug 0, .openFind 0 0, .openData 0 0, .openGet 0 0, .disconnect 0 0 0, .deregister 0 0 0,
    .disconnectPut 0 0, .release 0 0 0]

def visited : SkelSys where
  skels := [⟨0, 1, ⟨some [0, 0, 0, 0], 4, 0x81, 0x02⟩⟩]
  held := ⟨0, 0⟩
  intfs := [⟨none, false⟩]
  procs := [.user]
  files := [none]
  bkl := none

theorem visit_run : run (step true) (SkelSys.init 1 1) visit = some visited := by
  decide +kernel

theorem skels_counted_visit : visited.held = ⟨0, 0⟩ ∧ ∀ o ∈ visited.skels, o.frees = 1 :=
  (skels_counted visit_run).2.2 (by constructor <;> decide)

/-- The structure that an action dereferences. -/
def touches : Action → Option ℕ
  | .openGet _ d | .disconnectPut _ d | .release _ _ d | .readBegin _ _ d _
  | .readFill _ _ d _ _ | .readCopy _ _ d _ | .writeBegin _ _ d | .writeEnd _ _ d => some d
  | .skelProbe _ _ _ | .openFind _ _ | .openData _ _ | .disconnect _ _ _ | .deregister _ _ _
  | .readFail _ _ _ _ => none

/-- The action dereferences nothing that has been freed. -/
def Safe (s : SkelSys) (a : Action) : Prop :=
  ∀ d ∈ touches a, ∃ o ∈ s.skels[d]?, o.frees = 0

instance (s : SkelSys) (a : Action) : Decidable (Safe s a) := by
  unfold Safe
  infer_instance

theorem safe_of_hold {s : SkelSys} (hi : Inv s) {d : ℕ} (hd : 0 < hold s d) :
    ∃ o ∈ s.skels[d]?, o.frees = 0 := by
  rcases hi.counted.live hd with ⟨o, ho, -, hfrees⟩
  exact ⟨o, ho, hfrees⟩

theorem safe_of_guard {s : SkelSys} (hi : Inv s) {a : Action} (hg : guard true s a) :
    Safe s a := by
  intro d hd
  refine safe_of_hold hi ?_
  cases a with
  | skelProbe i o endpoints => cases hd
  | openFind p i => cases hd
  | openData p i => cases hd
  | openGet p e =>
      cases hd
      rcases hi.points p _ hg with ⟨-, z, hz, hzd⟩
      exact hold_pos_of_intf hz (by simp [intfHold, hzd])
  | disconnect p i e => cases hd
  | deregister p i e => cases hd
  | disconnectPut p e =>
      cases hd
      exact hold_pos_of_point (List.mem_of_getElem? hg) (by simp [pointHold])
  | release p f e =>
      cases hd
      exact hold_pos_of_file hg.2.1
  | readBegin p f e count =>
      cases hd
      exact hold_pos_of_file hg.2
  | readFill p f e count data =>
      cases hd
      exact hold_pos_of_file (hi.points p _ hg.1)
  | readFail p f e count => cases hd
  | readCopy p f e data =>
      cases hd
      exact hold_pos_of_file (hi.points p _ hg)
  | writeBegin p f e =>
      cases hd
      exact hold_pos_of_file hg.2
  | writeEnd p f e =>
      cases hd
      exact hold_pos_of_file (hi.points p _ hg)

/-- The device is unplugged while `skel_open` has the structure but has not counted
itself yet. -/
def race : List Action :=
  [plug 0, .openFind 0 0, .openData 0 0, .disconnect 1 0 0, .deregister 1 0 0,
    .disconnectPut 1 0, .openGet 0 0]

theorem race_unsafe : (run (step false) (SkelSys.init 2 1) race).isSome = true ∧
    ¬ Along (step false) Safe (SkelSys.init 2 1) race := by
  constructor <;> decide +kernel

/-- The comment in `skel_disconnect` names the condition: in every run of any number of
processes and interfaces all accesses are to structures that have not been freed, if and
only if `skel_open` is called under the kernel lock. -/
theorem skel_memory_safe_iff (locked : Bool) :
    (∀ n m as s, run (step locked) (SkelSys.init n m) as = some s →
      Along (step locked) Safe (SkelSys.init n m) as) ↔ locked = true := by
  constructor
  · intro h
    by_contra hunlocked
    rw [Bool.not_eq_true] at hunlocked
    subst hunlocked
    rcases race_unsafe with ⟨hrun, hbad⟩
    rcases Option.isSome_iff_exists.mp hrun with ⟨s, hs⟩
    exact hbad (h 2 1 race s hs)
  · rintro rfl n m as s hr
    refine along_of_invariant Inv (P := fun s a => (step true s a).isSome = true) ?_ ?_
      (inv_init n m) (along_enabled hr)
    · intro t a hi henabled
      rcases Option.isSome_iff_exists.mp henabled with ⟨t', ht⟩
      exact safe_of_guard hi (guarded_eq_some.mp ht).1
    · intro t a t' hi _ ht
      exact inv_step hi ht

end Usb
