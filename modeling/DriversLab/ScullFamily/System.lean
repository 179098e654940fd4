import DriversLab.ScullFamily.Quanta

/-!
# ScullFamily.System — runs of calls on the devices of a module

Any number of devices share the module parameters. A run is a sequence of opens, reads,
writes, seeks and ioctls; a mapping of a device comes and goes too, because a device that
is mapped is not trimmed.

* `Sound`: the transfer of a step leaves no array and no allocation, and after the step
  every quantum of every device is large enough;
* `FitsStep`: a write that allocates a quantum allocates a large enough one;
* `quanta`: a run is sound exactly when all of its writes meet that.
-/

namespace ScullFamily

open Scull Lts

/-- The parameters, the devices, and the open files with their device and `f_pos`. -/
structure Sys where
  params : Params
  devs : List Dev
  files : List (ℕ × ℤ)
deriving DecidableEq, Repr

inductive Act where
  | openFile (d : ℕ) (wronly : Bool)
  | read (f d : ℕ) (fPos : ℤ) (count : ℕ) (env : Env)
  | write (f d : ℕ) (fPos : ℤ) (buf : List UInt8) (env : Env)
  | llseek (f d : ℕ) (fPos off : ℤ) (whence : Whence)
  | ioctl (cmd : Cmd) (arg : ℤ) (user : IoctlUser)
  | vmaOpen (d : ℕ)
  | vmaClose (d : ℕ)

namespace Sys

def guard (s : Sys) : Act → Prop
  | .openFile d _ | .vmaOpen d => d < s.devs.length
  | .vmaClose d => 0 < (s.devs[d]?.map Dev.vmas).getD 0
  | .read f d fPos _ _ | .write f d fPos _ _ | .llseek f d fPos _ _ => s.files[f]? = some (d, fPos)
  | .ioctl _ _ _ => True

instance (s : Sys) : ∀ a : Act, Decidable (guard s a)
  | .openFile _ _ => inferInstanceAs (Decidable (_ < _))
  | .read _ _ _ _ _ => inferInstanceAs (Decidable (_ = _))
  | .write _ _ _ _ _ => inferInstanceAs (Decidable (_ = _))
  | .llseek _ _ _ _ _ => inferInstanceAs (Decidable (_ = _))
  | .ioctl _ _ _ => inferInstanceAs (Decidable True)
  | .vmaOpen _ => inferInstanceAs (Decidable (_ < _))
  | .vmaClose _ => inferInstanceAs (Decidable (_ < _))

/-- After a transfer of file `f` on device `d`; a trap ends the process that made it. -/
def transfer (s : Sys) (f d : ℕ) (call : Dev → Except Oops Result) : Sys :=
  match s.devs[d]?.map call with
  | some (.ok r) => { s with devs := s.devs.set d r.dev, files := s.files.set f (d, r.fPos) }
  | _ => s

def update (v : Variant) (s : Sys) : Act → Sys
  | .openFile d wronly =>
      { s with devs := s.devs.modify d (openDev s.params wronly), files := s.files ++ [(d, 0)] }
  | .read f d fPos count env => s.transfer f d (read v count fPos env)
  | .write f d fPos buf env => s.transfer f d (write v s.params buf fPos env)
  | .llseek f d fPos off whence =>
      let size := ((s.devs[d]?.map Dev.size).getD 0)
      { s with files := s.files.set f (d, (scullLlseek size fPos off whence).2) }
  | .ioctl cmd arg user => { s with params := (ScullFamily.ioctl v cmd arg user s.params).params }
  | .vmaOpen d => { s with devs := s.devs.modify d fun dev => { dev with vmas := dev.vmas + 1 } }
  | .vmaClose d => { s with devs := s.devs.modify d fun dev => { dev with vmas := dev.vmas - 1 } }

def step (v : Variant) : Sys → Act → Option Sys := guarded guard (update v)

/-- The module once it is loaded, with `n` devices. -/
def init (p : Params) (n : ℕ) : Sys := ⟨p, List.replicate n p.device, []⟩

/-! ## What is promised, and when it holds -/

/-- The transfer of a step is inside. -/
def InsideStep (v : Variant) (s : Sys) : Act → Prop
  | .read f d fPos count env => s.files[f]? = some (d, fPos) → ∀ dev, s.devs[d]? = some dev →
      Inside (read v count fPos env dev)
  | .write f d fPos buf env => s.files[f]? = some (d, fPos) → ∀ dev, s.devs[d]? = some dev →
      Inside (write v s.params buf fPos env dev)
  | _ => True

/-- The step is inside, and leaves every device roomy. -/
def Sound (v : Variant) (s : Sys) (a : Act) : Prop :=
  InsideStep v s a ∧ ∀ s', step v s a = some s' → ∀ dev ∈ s'.devs, Roomy v dev

/-- A write that allocates a quantum allocates one that fits. -/
def FitsStep (v : Variant) (s : Sys) : Act → Prop
  | .write f d fPos _ env => s.files[f]? = some (d, fPos) → ∀ dev, s.devs[d]? = some dev →
      ∀ at', Fills v fPos env dev at' → Fits v s.params dev at'.item
  | _ => True

/-- An ioctl leaves parameters that are `ok`. -/
def IoctlOk (v : Variant) (ok : Params → Prop) (s : Sys) : Act → Prop
  | .ioctl cmd arg user => ok (ScullFamily.ioctl v cmd arg user s.params).params
  | _ => True

/-! ## The invariant -/

/-- Parameters with which a device can be built. -/
def Sizes (v : Variant) (ok : Params → Prop) : Prop := ∀ p, ok p → (p.device.geometry v).Valid

/-- The parameters and the sizes of every device are `ok`, and every quantum is large
enough. -/
structure Inv (v : Variant) (ok : Params → Prop) (s : Sys) : Prop where
  params : ok s.params
  devs : ∀ dev ∈ s.devs, Shape v dev ∧ ok ⟨dev.head.unit, dev.qset⟩
  files : ∀ file ∈ s.files, 0 ≤ file.2

section Runs

variable {v : Variant} {ok : Params → Prop} {s s' : Sys}

theorem inv_init (hsizes : Sizes v ok) {p : Params} (hp : ok p) (n : ℕ) : Inv v ok (init p n) := by
  refine ⟨hp, ?_, nofun⟩
  intro dev hdev
  rw [List.eq_of_mem_replicate hdev]
  exact ⟨shape_device (hsizes p hp), hp⟩

/-- An open that trims builds the device anew, unless it is mapped. -/
theorem openDev_ok (hsizes : Sizes v ok) {p : Params} (hp : ok p) {dev : Dev}
    (hdev : Shape v dev ∧ ok ⟨dev.head.unit, dev.qset⟩) (wronly : Bool) :
    Shape v (openDev p wronly dev) ∧
      ok ⟨(openDev p wronly dev).head.unit, (openDev p wronly dev).qset⟩ := by
  unfold openDev trim
  split
  · split
    · exact hdev
    · exact ⟨shape_device (hsizes p hp), hp⟩
  · exact hdev

theorem mem_modify {τ : Type*} {l : List τ} {i : ℕ} {f : τ → τ} {P : τ → Prop}
    (hold : ∀ x ∈ l, P x) (hnew : ∀ x ∈ l, P (f x)) : ∀ x ∈ l.modify i f, P x := by
  intro x hx
  rcases List.mem_iff_getElem?.mp hx with ⟨j, hj⟩
  rw [List.getElem?_modify] at hj
  rcases Option.map_eq_some_iff.mp hj with ⟨y, hy, rfl⟩
  split
  · exact hnew y (List.mem_of_getElem? hy)
  · exact hold y (List.mem_of_getElem? hy)

/-- A transfer that keeps its device in shape. -/
theorem inv_transfer (hi : Inv v ok s) {f d : ℕ} {call : Dev → Except Oops Result}
    (hcall : ∀ dev, s.devs[d]? = some dev → ∀ r, call dev = .ok r →
      Kept v dev r) :
    Inv v ok (s.transfer f d call) := by
  unfold transfer
  split
  · rename_i r hr
    rcases Option.map_eq_some_iff.mp hr with ⟨dev, hdev, hok⟩
    rcases hcall dev hdev r hok with ⟨hshape, hunit, hqset, hpos⟩
    have hsizes := (hi.devs dev (List.mem_of_getElem? hdev)).2
    refine ⟨hi.params, ?_, ?_⟩
    · intro dev' hdev'
      rcases List.mem_or_eq_of_mem_set hdev' with hold | rfl
      · exact hi.devs dev' hold
      · refine ⟨hshape, ?_⟩
        rw [hunit, hqset]
        exact hsizes
    · intro file hfile
      rcases List.mem_or_eq_of_mem_set hfile with hold | rfl
      · exact hi.files file hold
      · exact hpos
  · exact hi

theorem inv_step (hsizes : Sizes v ok) (hi : Inv v ok s) {a : Act} (ha : IoctlOk v ok s a)
    (hf : FitsStep v s a) (hs : step v s a = some s') : Inv v ok s' := by
  rcases guarded_eq_some.mp hs with ⟨hg, rfl⟩
  cases a with
  | openFile d wronly =>
      refine ⟨hi.params, ?_, ?_⟩
      · exact mem_modify hi.devs fun dev hdev =>
          openDev_ok hsizes hi.params (hi.devs dev hdev) wronly
      · intro file hfile
        rcases List.mem_append.mp hfile with hold | hnew
        · exact hi.files file hold
        · rw [List.mem_singleton.mp hnew]
  | read f d fPos count env =>
      refine inv_transfer hi ?_
      intro dev hdev
      have hshape := (hi.devs dev (List.mem_of_getElem? hdev)).1
      exact (read_inside hshape (hi.files _ (List.mem_of_getElem? hg)) count).2
  | write f d fPos buf env =>
      refine inv_transfer hi ?_
      intro dev hdev
      have hshape := (hi.devs dev (List.mem_of_getElem? hdev)).1
      have hp := hi.files _ (List.mem_of_getElem? hg)
      rcases write_cases hshape hp s.params buf env with h | ⟨⟨at', hfill, hbad⟩, _⟩
      · exact h.2.2
      · exact absurd (hf hg dev hdev at' hfill) hbad
  | llseek f d fPos off whence =>
      refine ⟨hi.params, hi.devs, ?_⟩
      intro file hfile
      rcases List.mem_or_eq_of_mem_set hfile with hold | rfl
      · exact hi.files file hold
      · exact scullLlseek_nonneg _ (hi.files _ (List.mem_of_getElem? hg)) off whence
  | ioctl cmd arg user => exact ⟨ha, hi.devs, hi.files⟩
  | vmaOpen d =>
      exact ⟨hi.params, mem_modify hi.devs fun dev hdev =>
        ⟨⟨(hi.devs dev hdev).1.geometry, (hi.devs dev hdev).1.arrays, (hi.devs dev hdev).1.cleared⟩,
          (hi.devs dev hdev).2⟩, hi.files⟩
  | vmaClose d =>
      exact ⟨hi.params, mem_modify hi.devs fun dev hdev =>
        ⟨⟨(hi.devs dev hdev).1.geometry, (hi.devs dev hdev).1.arrays, (hi.devs dev hdev).1.cleared⟩,
          (hi.devs dev hdev).2⟩, hi.files⟩

/-- In the states of the invariant a step is sound exactly when its write allocates no
quantum that is too small. -/
theorem sound_iff (hsizes : Sizes v ok) (hi : Inv v ok s) {a : Act} (ha : IoctlOk v ok s a) :
    Sound v s a ↔ FitsStep v s a := by
  constructor
  · rintro ⟨hinside, hroomy⟩
    cases a with
    | write f d fPos buf env =>
        intro hfile dev hdev at' hfill
        by_contra hbad
        have hshape := (hi.devs dev (List.mem_of_getElem? hdev)).1
        have hp := hi.files _ (List.mem_of_getElem? hfile)
        rcases write_cases hshape hp s.params buf env with ⟨hfits, _⟩ | ⟨_, hharm⟩
        · exact hbad (hfits at' hfill)
        · refine hharm ⟨hinside hfile dev hdev, ?_⟩
          intro r hr
          refine hroomy _ (guarded_eq_some.mpr ⟨hfile, rfl⟩) r.dev ?_
          have hlt : d < s.devs.length := (List.getElem?_eq_some_iff.mp hdev).1
          have hnew : update v s (.write f d fPos buf env) =
              { s with devs := s.devs.set d r.dev, files := s.files.set f (d, r.fPos) } := by
            simp only [update, transfer, hdev, Option.map_some, hr]
          rw [hnew]
          exact List.mem_set hlt r.dev
    | _ => trivial
  · intro hf
    refine ⟨?_, fun s' hs dev hdev => ((inv_step hsizes hi ha hf hs).devs dev hdev).1.roomy⟩
    cases a with
    | read f d fPos count env =>
        intro hfile dev hdev
        have hshape := (hi.devs dev (List.mem_of_getElem? hdev)).1
        exact (read_inside hshape (hi.files _ (List.mem_of_getElem? hfile)) count).1
    | write f d fPos buf env =>
        intro hfile dev hdev
        have hshape := (hi.devs dev (List.mem_of_getElem? hdev)).1
        have hp := hi.files _ (List.mem_of_getElem? hfile)
        rcases write_cases hshape hp s.params buf env with h | ⟨⟨at', hfill, hbad⟩, _⟩
        · exact h.2.1
        · exact absurd (hf hfile dev hdev at' hfill) hbad
    | _ => trivial

/-- Runs in which `Q` says of each write whether what it allocates fits. -/
theorem quanta (hsizes : Sizes v ok) {Q : Sys → Act → Prop}
    (hQ : ∀ s a, Inv v ok s → (FitsStep v s a ↔ Q s a)) {p : Params} (hp : ok p) (n : ℕ)
    {as : List Act} (has : Along (step v) (IoctlOk v ok) (init p n) as) :
    Along (step v) (Sound v) (init p n) as ↔ Along (step v) Q (init p n) as := by
  have hiff : ∀ s a, Inv v ok s → IoctlOk v ok s a → (Sound v s a ↔ Q s a) := by
    intro s a hi ha
    exact (sound_iff hsizes hi ha).trans (hQ s a hi)
  refine along_iff hiff ?_ (inv_init hsizes hp n) has
  intro s a s' hi ha hq hs
  exact inv_step hsizes hi ha ((hQ s a hi).mpr hq) hs

end Runs

end Sys

end ScullFamily
