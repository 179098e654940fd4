import DriversLab.Scull.AccessSteps

/-!
# Scull.TrimLock — trims beside reads and writes

`scull_trim` must be called with the device mutex held, says its comment. `scull_open`
holds it; the opens of `access.c` do not.

* `Lone`: a process that is about to trim a device, or trims it, has it to itself;
* `clashes_of_not_exclusive`: after a write-only open that does not, the run may go on to
  a trim beside a critical section;
* `trim_excludes`: the bare devices by their mutex and the single-open one by its
  counter keep trims away from reads and writes; the other three do so as long as their
  write-only opens are admitted only while no other open of the device is outstanding.
-/

namespace Scull

open Lts

namespace Access

/-! ## Who is on an unguarded device -/

/-- The file that a write-only open is about to return. -/
def writing : Point → Option AccFile
  | .granted file true | .trimming file => some file
  | _ => none

/-- A file of the device is open, or an open of it is in progress. -/
def InUse (s : AccSys) (d : Device) : Prop :=
  (∃ x ∈ s.files, ∃ file ∈ x, file.device = d) ∨
    ∃ x ∈ s.procs, ∃ file ∈ opening x, file.device = d

/-- A write-only open of the device is in progress. -/
def InTrim (s : AccSys) (d : Device) : Prop := ∃ x ∈ s.procs, ∃ file ∈ writing x, file.device = d

/-- An unguarded device that is opened write-only is not in use, and one that is opened
is not in a write-only open. -/
def Exclusive (s : AccSys) (a : AccAct) : Prop :=
  ∀ e ∈ admits s a, (e.2 = true → ¬ InUse s e.1) ∧ ¬ InTrim s e.1

instance (s : AccSys) (d : Device) : Decidable (InUse s d) :=
  inferInstanceAs (Decidable ((∃ x ∈ s.files, ∃ file ∈ x, file.device = d) ∨
    ∃ x ∈ s.procs, ∃ file ∈ opening x, file.device = d))

instance (s : AccSys) (d : Device) : Decidable (InTrim s d) :=
  inferInstanceAs (Decidable (∃ x ∈ s.procs, ∃ file ∈ writing x, file.device = d))

instance (s : AccSys) (a : AccAct) : Decidable (Exclusive s a) :=
  inferInstanceAs (Decidable (∀ e ∈ admits s a, _ ∧ _))

/-- Whoever opens an unguarded device write-only has it to himself: there is no file of
it, and nobody else opens it. -/
def Lone (s : AccSys) : Prop :=
  ∀ (p : ℕ) x, s.procs[p]? = some x → ∀ file ∈ writing x, unguarded file.device = true →
    (∀ g, some g ∈ s.files → g.device ≠ file.device) ∧
      ∀ q y, q ≠ p → s.procs[q]? = some y → ∀ g ∈ opening y, g.device ≠ file.device

section Alone

variable {s s' : AccSys} {a : AccAct} {p : ℕ} {y : Point}

theorem opening_of_writing {x : Point} {file : AccFile} (h : file ∈ writing x) :
    file ∈ opening x := by
  cases x with
  | granted g wronly =>
      cases wronly with
      | true => exact h
      | false => cases h
  | trimming g => exact h
  | _ => cases h

/-- One process goes on. What has to be shown is that a file it makes was its own to open,
that it writes what it wrote or has to itself, and opens what it opened or disturbs nobody. -/
theorem lone_set (hl : Lone s) (hprocs : s'.procs = s.procs.set p y)
    (hfiles : ∀ g, some g ∈ s'.files →
      some g ∈ s.files ∨ ∃ x, s.procs[p]? = some x ∧ g ∈ opening x ∧ writing y = none)
    (hself : ∀ file ∈ writing y, unguarded file.device = true →
      (∃ x, s.procs[p]? = some x ∧ file ∈ writing x) ∨
        (∀ g, some g ∈ s.files → g.device ≠ file.device) ∧
          ∀ q z, q ≠ p → s.procs[q]? = some z → ∀ g ∈ opening z, g.device ≠ file.device)
    (hothers : ∀ g ∈ opening y, (∃ x, s.procs[p]? = some x ∧ g ∈ opening x) ∨
      ∀ q z, q ≠ p → s.procs[q]? = some z → ∀ file ∈ writing z, unguarded file.device = true →
        g.device ≠ file.device) : Lone s' := by
  unfold Lone
  rw [hprocs]
  apply Table.forall_set
  · -- another process that writes
    intro q x hne hx file hfile hd
    obtain ⟨halone, hnobody⟩ := hl q x hx file hfile hd
    constructor
    · intro g hg
      rcases hfiles g hg with hold | ⟨z, hz, hgz, -⟩
      · exact halone g hold
      · exact hnobody p z hne.symm hz g hgz
    · intro r z hr hz g hg
      rcases eq_or_ne r p with rfl | hrp
      · -- beside the process that goes on
        have hlt : r < s.procs.length := by
          simpa using (List.getElem?_eq_some_iff.mp hz).1
        rw [List.getElem?_set_self hlt, Option.some.injEq] at hz
        subst hz
        rcases hothers g hg with ⟨z', hz', hgz'⟩ | hno
        · exact hnobody r z' hr hz' g hgz'
        · exact hno q x hne hx file hfile hd
      · rw [List.getElem?_set_ne hrp.symm] at hz
        exact hnobody r z hr hz g hg
  · -- the process itself
    intro file hfile hd
    have halone : (∀ g, some g ∈ s.files → g.device ≠ file.device) ∧
        ∀ q z, q ≠ p → s.procs[q]? = some z → ∀ g ∈ opening z, g.device ≠ file.device := by
      rcases hself file hfile hd with ⟨x, hx, hold⟩ | hnew
      · exact hl p x hx file hold hd
      · exact hnew
    constructor
    · intro g hg
      rcases hfiles g hg with hold | ⟨-, -, -, hnone⟩
      · exact halone.1 g hold
      · rw [hnone] at hfile
        cases hfile
    · intro r z hr hz g hg
      rw [List.getElem?_set_ne hr.symm] at hz
      exact halone.2 r z hr hz g hg

/-- A process that opens nothing afterwards. -/
theorem lone_closed (hl : Lone s) (hprocs : s'.procs = s.procs.set p y)
    (hfiles : ∀ g, some g ∈ s'.files →
      some g ∈ s.files ∨ ∃ x, s.procs[p]? = some x ∧ g ∈ opening x)
    (hopening : opening y = none) : Lone s' := by
  have hwriting : writing y = none := by
    cases hw : writing y with
    | none => rfl
    | some file =>
        have hmem : file ∈ opening y := opening_of_writing hw
        rw [hopening] at hmem
        cases hmem
  refine lone_set hl hprocs ?_ (by simp [hwriting]) (by simp [hopening])
  intro g hg
  rcases hfiles g hg with hold | ⟨x, hx, hgx⟩
  · exact Or.inl hold
  · exact Or.inr ⟨x, hx, hgx, hwriting⟩

/-- The file of an open that returns. -/
theorem lone_append (hl : Lone s) {x : Point} {file : AccFile} (hx : s.procs[p]? = some x)
    (hopening : opening x = some file) (hprocs : s'.procs = s.procs.set p (.returned 0))
    (hfiles : s'.files = s.files ++ [some file]) : Lone s' := by
  refine lone_closed hl hprocs ?_ rfl
  intro g hg
  rw [hfiles] at hg
  rcases List.mem_append.mp hg with hold | hnew
  · exact Or.inl hold
  · cases List.mem_singleton.mp hnew
    exact Or.inr ⟨x, hx, hopening⟩

/-- An open that has been admitted meets nobody's trim, and nobody at all if it is to
trim itself. -/
theorem lone_granted (hl : Lone s) {file : AccFile} {wronly : Bool}
    (h : Moves s s' p (.granted file wronly))
    (hadmits : unguarded file.device = true → admits s a = some (file.device, wronly))
    (hex : Exclusive s a) : Lone s' := by
  refine lone_set hl h.procs (by simp +contextual [h.files]) ?_ ?_
  · intro g hg hd
    right
    cases wronly with
    | false => cases hg
    | true =>
        cases hg
        have hfree : ¬ InUse s file.device := (hex _ (hadmits hd)).1 rfl
        constructor
        · intro g hg heq
          exact hfree (Or.inl ⟨_, hg, g, rfl, heq⟩)
        · intro q z _ hz g hg heq
          exact hfree (Or.inr ⟨z, List.mem_of_getElem? hz, g, hg, heq⟩)
  · intro g hg
    right
    intro q z _ hz f hf hd heq
    cases hg
    rw [← heq] at hd
    exact (hex _ (hadmits hd)).2 ⟨z, List.mem_of_getElem? hz, f, hf, heq.symm⟩

/-- Nobody has a clone that is not on the list yet. -/
theorem lone_created (hl : Lone s) (hc : Cloned s) {key : ℕ} {cred : Cred} {wronly : Bool}
    (hx : s.procs[p]? = some (.creating key cred wronly)) :
    Lone (update s (.scullCCreated p key cred wronly)) := by
  have hnew : key ∉ s.cList := (hc.creating p _ hx key cred wronly rfl).2
  refine lone_set hl rfl (fun _ h => Or.inl h) ?_ ?_
  · intro g hg _
    right
    have hdev : g.device = .priv key := by
      cases wronly with
      | false => cases hg
      | true =>
          cases hg
          rfl
    rw [hdev]
    exact ⟨fun f hf heq => hnew (hc.files f hf key heq),
      fun q z _ hz f hf heq => hnew (hc.opening q z hz f hf key heq)⟩
  · intro g hg
    right
    intro q z _ hz f hf _ heq
    cases hg
    exact hnew (hc.opening q z hz f (opening_of_writing hf) key heq.symm)

theorem lone_step (hl : Lone s) (hc : Cloned s) (hex : Exclusive s a) (he : Effect s a s') :
    Lone s' := by
  cases he with
  | light h hy =>
      exact lone_closed hl h.procs (by simp +contextual [h.files])
        (light_holds_nothing hy).2.2.1
  | granted h hknown hadmits => exact lone_granted hl h hadmits hex
  | creating hfree hnew => exact lone_closed hl rfl (fun _ h => Or.inl h) rfl
  | created hx => exact lone_created hl hc hx
  | lockTrim hfree =>
      -- a bare device is guarded
      refine lone_set hl rfl (fun _ h => Or.inl h) ?_ ?_
      · intro g hg hd
        cases hg
        cases hd
      · intro g hg
        right
        intro q z _ hz f _ hd heq
        cases hg
        rw [← heq] at hd
        cases hd
  | startTrim hx hlocks =>
      -- it has been about to trim since it was admitted
      exact lone_set hl rfl (fun _ h => Or.inl h) (fun _ hg _ => Or.inl ⟨_, hx, hg⟩)
        fun _ hg => Or.inl ⟨_, hx, hg⟩
  | endTrim hx => exact lone_append hl hx rfl rfl rfl
  | opened hx => exact lone_append hl hx rfl rfl rfl
  | enter hf => exact lone_closed hl rfl (fun _ h => Or.inl h) rfl
  | lock hx hfree => exact lone_closed hl rfl (fun _ h => Or.inl h) rfl
  | unlock hx => exact lone_closed hl rfl (fun _ h => Or.inl h) rfl
  | @release f file hidle =>
      intro q x hx g hg hd
      obtain ⟨halone, hnobody⟩ := hl q x hx g hg hd
      refine ⟨?_, hnobody⟩
      intro k hk
      rcases List.mem_or_eq_of_mem_set hk with hold | heq
      · exact halone k hold
      · cases heq

end Alone

/-! ## Trims beside critical sections -/

/-- No device is trimmed while another process is in a critical section of its. -/
def Excluded (s : AccSys) : Prop :=
  ∀ (p : ℕ) x, s.procs[p]? = some x → ∀ (q : ℕ) y, s.procs[q]? = some y →
    ∀ d, x.trims = some d → y.within ≠ some d

section Exclusion

variable {s s' : AccSys} {a : AccAct} {p q : ℕ} {x y : Point} {d : Device}

theorem within_cases (h : y.within = some d) : ∃ f file, y = .inside f file ∧ file.device = d := by
  cases y with
  | inside f file =>
      cases h
      exact ⟨f, file, rfl, rfl⟩
  | _ => cases h

theorem trims_cases (h : x.trims = some d) :
    (∃ file, x = .trimming file ∧ file.device = d) ∨
      ∃ key cred wronly, x = .creating key cred wronly ∧ d = .priv key := by
  cases x with
  | trimming file =>
      cases h
      exact Or.inl ⟨file, rfl, rfl⟩
  | creating key cred wronly =>
      cases h
      exact Or.inr ⟨key, cred, wronly, rfl, rfl⟩
  | _ => cases h

/-- Nobody is in a critical section of a device whose mutex is free. -/
theorem outside_of_free (hi : Sane s) (hfree : s.mutex d = none) (hy : s.procs[q]? = some y) :
    y.within ≠ some d := by
  intro hd
  rcases within_cases hd with ⟨f, file, rfl, rfl⟩
  have hown := hi.owned q _ hy _ rfl
  rw [hfree] at hown
  cases hown

/-- While an open of the single-open device is outstanding there is no file of it. -/
theorem alone (hi : Sane s) (hx : s.procs[p]? = some x) (hopens : opens x = 1) {f : ℕ}
    {file : AccFile} (hf : s.files[f]? = some (some file)) : file.device ≠ .single := by
  intro hsingle
  have hone := hi.booked.one
  have hproc := Table.le_sum_map opens_nonneg (List.mem_of_getElem? hx)
  have hfile := Table.le_sum_map holds_nonneg (List.mem_of_getElem? hf)
  have hholds : holds (some file) = 1 := by simp [holds, hsingle]
  unfold outstanding at hone
  omega

/-- Another point of a process, checked against all the others. -/
theorem excluded_set (he : Excluded s) (hprocs : s'.procs = s.procs.set p y)
    (hself : ∀ d, y.trims = some d → y.within ≠ some d)
    (htrims : ∀ d, y.trims = some d → ∀ (q : ℕ) x, s.procs[q]? = some x → x.within ≠ some d)
    (hwithin : ∀ d, y.within = some d → ∀ (q : ℕ) x, s.procs[q]? = some x → x.trims ≠ some d) :
    Excluded s' := by
  unfold Excluded
  rw [hprocs]
  apply Table.forall_set
  · intro q x _ hx
    apply Table.forall_set
    · intro r z _ hz
      exact he q x hx r z hz
    · intro d hd hw
      exact hwithin d hw q x hx hd
  · apply Table.forall_set
    · intro r z _ hz d hd
      exact htrims d hd r z hz
    · exact hself

/-- A point that neither trims nor is in a critical section. -/
theorem excluded_outside (he : Excluded s) (hprocs : s'.procs = s.procs.set p y)
    (htrims : y.trims = none) (hwithin : y.within = none) : Excluded s' := by
  refine excluded_set he hprocs ?_ ?_ ?_
  · simp [hwithin]
  · simp [htrims]
  · simp [hwithin]

/-- A trim that begins, after nobody has been found inside. -/
theorem excluded_trim (he : Excluded s) (hprocs : s'.procs = s.procs.set p y)
    (hd : y.trims = some d) (hw : y.within = none)
    (hnone : ∀ (q : ℕ) x, s.procs[q]? = some x → x.within ≠ some d) : Excluded s' := by
  refine excluded_set he hprocs ?_ ?_ ?_
  · simp [hw]
  · intro e hey
    cases hd.symm.trans hey
    exact hnone
  · simp [hw]

/-- The unlocked trims. -/
theorem outside_of_granted (hi : Sane s) (hl : Lone s) {file : AccFile}
    (hx : s.procs[p]? = some (.granted file true)) (hlocks : locksTrim file.device = false) :
    ∀ (q : ℕ) y, s.procs[q]? = some y → y.within ≠ some file.device := by
  intro q y hy hd
  rcases within_cases hd with ⟨f, g, rfl, hg⟩
  have hf := hi.opened q _ hy f g rfl
  cases hguard : unguarded file.device with
  | true => exact (hl p _ hx file rfl hguard).1 g (List.mem_of_getElem? hf) hg
  | false =>
      cases hdev : file.device with
      | single => exact alone hi hx (by simp [opens, hdev]) hf (hg.trans hdev)
      | bare i =>
          rw [hdev] at hlocks
          cases hlocks
      | _ =>
          rw [hdev] at hguard
          cases hguard

/-- The critical sections that begin. -/
theorem untrimmed_of_lock (hi : Sane s) (hl : Lone s) {f : ℕ} {file : AccFile}
    (hx : s.procs[p]? = some (.calling f file)) (hfree : s.mutex file.device = none) :
    ∀ (q : ℕ) y, s.procs[q]? = some y → y.trims ≠ some file.device := by
  intro q y hy hd
  have hf := hi.opened p _ hx f file rfl
  rcases trims_cases hd with ⟨g, rfl, hg⟩ | ⟨key, cred, wronly, rfl, hkey⟩
  · cases hguard : unguarded g.device with
    | true =>
        -- the open that trims has the device to itself
        exact (hl q _ hy g rfl hguard).1 file (List.mem_of_getElem? hf) hg.symm
    | false =>
        cases hdev : g.device with
        | single => exact alone hi hy (by simp [opens, hdev]) hf (hg.symm.trans hdev)
        | bare i =>
            -- the mutex would be held for the trim
            have hown := hi.owned q _ hy file.device (by simp [locks, ← hg, hdev, locksTrim])
            rw [hfree] at hown
            cases hown
        | _ =>
            rw [hdev] at hguard
            cases hguard
  · -- a file of a clone that is being created would have put it on the list
    exact (hi.cloned.creating q _ hy key cred wronly rfl).2
      (hi.cloned.files file (List.mem_of_getElem? hf) key hkey)

theorem excluded_step (hi : Sane s) (hl : Lone s) (he : Excluded s) (hs : step s a = some s') :
    Excluded s' := by
  cases effect_of_step hs with
  | light h hy =>
      have hnothing := light_holds_nothing hy
      exact excluded_outside he h.procs hnothing.2.2.2.1 hnothing.2.2.2.2
  | granted h hknown hadmits => exact excluded_outside he h.procs rfl rfl
  | @creating _ p key cred wronly hfree hnew =>
      refine excluded_trim he rfl rfl rfl ?_
      intro q x hx hd
      -- a file of the new clone would have put it on the list
      rcases within_cases hd with ⟨f, file, rfl, hfile⟩
      have hf := hi.opened q _ hx f file rfl
      exact hnew (hi.cloned.files file (List.mem_of_getElem? hf) key hfile)
  | created hx => exact excluded_outside he rfl rfl rfl
  | lockTrim hfree => exact excluded_trim he rfl rfl rfl fun _ _ hy => outside_of_free hi hfree hy
  | startTrim hx hlocks =>
      exact excluded_trim he rfl rfl rfl (outside_of_granted hi hl hx hlocks)
  | endTrim hx => exact excluded_outside he rfl rfl rfl
  | opened hx => exact excluded_outside he rfl rfl rfl
  | enter hf => exact excluded_outside he rfl rfl rfl
  | lock hx hfree =>
      refine excluded_set he rfl ?_ ?_ ?_
      · simp [Point.trims]
      · simp [Point.trims]
      · intro d hd
        cases hd
        exact untrimmed_of_lock hi hl hx hfree
  | unlock hx => exact excluded_outside he rfl rfl rfl
  | release hidle => exact he

end Exclusion

/-! ## Opens that are not exclusive -/

/-- A step of an open that has been admitted, or of a read or a write. -/
def goesOn : AccAct → Bool
  | .startTrim _ _ | .endTrim _ _ | .opened _ _ | .enter _ _ _ | .lock _ _ _ => true
  | _ => false

/-- Without another open the run may go on to a trim beside a critical section. -/
def Clashes (s : AccSys) : Prop :=
  ∃ as t, as.all goesOn = true ∧ run step s as = some t ∧ ¬ Excluded t

section Sharp

variable {s s' : AccSys} {a : AccAct} {p q f : ℕ} {x y : Point} {file g : AccFile} {ret : ℤ}

theorem clashes_of_run {as : List AccAct} (has : as.all goesOn = true)
    (hr : run step s as = some s') (h : Clashes s') : Clashes s := by
  obtain ⟨bs, t, hbs, ht, hnot⟩ := h
  exact ⟨as ++ bs, t, by rw [List.all_append, has, hbs, Bool.and_self],
    run_append.mpr ⟨s', hr, ht⟩, hnot⟩

theorem clashes_of_step (ha : goesOn a = true) (hs : step s a = some s') (h : Clashes s') :
    Clashes s :=
  clashes_of_run (by simp [ha]) (run_singleton.mpr hs) h

theorem clashes_of_trims {d : Device} (hx : s.procs[p]? = some x) (hd : x.trims = some d)
    (hy : s.procs[q]? = some y) (hw : y.within = some d) : Clashes s :=
  ⟨[], s, rfl, rfl, fun he => he p x hx q y hy d hd hw⟩

theorem locksTrim_of_unguarded {d : Device} (h : unguarded d = true) : locksTrim d = false := by
  cases d with
  | bare i => cases h
  | _ => rfl

/-- Whoever is outside a call and has a file of the device that is being trimmed may read it. -/
theorem clashes_of_trimming (hh : Held s) (hx : s.procs[p]? = some (.trimming file))
    (hguard : unguarded file.device = true) (hf : s.files[f]? = some (some g))
    (hg : g.device = file.device) (hy : s.procs[q]? = some (.returned ret)) : Clashes s := by
  cases hm : s.mutex g.device with
  | some r =>
      -- somebody is inside already
      obtain ⟨z, hz, hlocks⟩ := hh _ _ hm
      refine clashes_of_trims hx rfl hz ?_
      cases z with
      | inside k file' =>
          rw [← hg]
          exact hlocks
      | trimming file' =>
          simp only [locks] at hlocks
          split at hlocks
          · rename_i hlock
            rw [Option.some.inj hlocks, hg, locksTrim_of_unguarded hguard] at hlock
            cases hlock
          · cases hlocks
      | _ => cases hlocks
  | none =>
      have hne : q ≠ p := by
        rintro rfl
        cases hx.symm.trans hy
      -- the mutex is free: the process enters and takes it
      have hlt : q < s.procs.length := (List.getElem?_eq_some_iff.mp hy).1
      have hidle : s.procs[q]?.map Point.idle = some true := by rw [hy]; rfl
      refine clashes_of_step (a := .enter q f g) rfl
        (guarded_eq_some.mpr ⟨⟨hidle, hf⟩, rfl⟩) ?_
      refine clashes_of_step (a := .lock q f g) rfl (guarded_eq_some.mpr ⟨⟨?_, hm⟩, rfl⟩) ?_
      · simp [update, hlt]
      · refine clashes_of_trims (p := p) (q := q) (x := .trimming file) (y := .inside f g) ?_ rfl ?_
          (congrArg some hg)
        · simp [update, List.getElem?_set_ne hne, hx]
        · simp [update, hlt]

theorem clashes_of_writing (hh : Held s) (hx : s.procs[p]? = some x) (hw : file ∈ writing x)
    (hguard : unguarded file.device = true) (hf : s.files[f]? = some (some g))
    (hg : g.device = file.device) (hy : s.procs[q]? = some (.returned ret)) : Clashes s := by
  cases x with
  | granted file' wronly =>
      cases wronly with
      | true =>
          -- its trim begins, which takes no mutex
          cases hw
          have hs : step s (.startTrim p file) = some (update s (.startTrim p file)) :=
            guarded_eq_some.mpr ⟨⟨hx, locksTrim_of_unguarded hguard⟩, rfl⟩
          have hlt : p < s.procs.length := (List.getElem?_eq_some_iff.mp hx).1
          have hne : p ≠ q := by
            rintro rfl
            cases hx.symm.trans hy
          have hp : (update s (.startTrim p file)).procs[p]? = some (.trimming file) := by
            simp [update, hlt]
          have hq : (update s (.startTrim p file)).procs[q]? = some (.returned ret) := by
            simp [update, List.getElem?_set_ne hne, hy]
          exact clashes_of_step rfl hs
            (clashes_of_trimming (held_step hh hs) hp hguard hf hg hq)
      | false => cases hw
  | trimming file' =>
      cases hw
      exact clashes_of_trimming hh hx hguard hf hg hy
  | _ => cases hw

/-- An open of an unguarded device can return at once. -/
theorem opening_returns (hx : s.procs[p]? = some x) (ho : file ∈ opening x)
    (hguard : unguarded file.device = true) :
    ∃ as t, as.all goesOn = true ∧ run step s as = some t ∧
      t.procs = s.procs.set p (.returned 0) ∧ t.files = s.files ++ [some file] := by
  have hlt : p < s.procs.length := (List.getElem?_eq_some_iff.mp hx).1
  cases x with
  | granted file' wronly =>
      cases ho
      cases wronly with
      | true =>
          -- it trims first
          have htrim : (update s (.startTrim p file)).procs[p]? = some (.trimming file) := by
            simp [update, hlt]
          refine ⟨[.startTrim p file, .endTrim p file],
            update (update s (.startTrim p file)) (.endTrim p file), rfl, ?_, List.set_set .., rfl⟩
          have hlocks := locksTrim_of_unguarded hguard
          exact run_cons.mpr ⟨_, guarded_eq_some.mpr ⟨⟨hx, hlocks⟩, rfl⟩,
            run_singleton.mpr (guarded_eq_some.mpr ⟨htrim, rfl⟩)⟩
      | false =>
          exact ⟨[.opened p file], _, rfl,
            run_singleton.mpr (guarded_eq_some.mpr ⟨hx, rfl⟩), rfl, rfl⟩
  | trimming file' =>
      cases ho
      exact ⟨[.endTrim p file], _, rfl,
        run_singleton.mpr (guarded_eq_some.mpr ⟨hx, rfl⟩), rfl, rfl⟩
  | _ => cases ho

/-- Beside an open that trims, another one may return, and its caller read. -/
theorem clashes_of_opening (hh : Held s) (hx : s.procs[p]? = some x) (hw : file ∈ writing x)
    (hguard : unguarded file.device = true) (hne : q ≠ p) (hy : s.procs[q]? = some y)
    (ho : g ∈ opening y) (hg : g.device = file.device) : Clashes s := by
  have hlt : q < s.procs.length := (List.getElem?_eq_some_iff.mp hy).1
  obtain ⟨as, t, has, hr, hprocs, hfiles⟩ := opening_returns hy ho (by rw [hg, hguard])
  have hp : t.procs[p]? = some x := by rw [hprocs, List.getElem?_set_ne hne, hx]
  have hq : t.procs[q]? = some (.returned 0) := by rw [hprocs, List.getElem?_set_self hlt]
  have hf : t.files[s.files.length]? = some (some g) := by
    rw [hfiles, List.getElem?_concat_length]
  exact clashes_of_run has hr (clashes_of_writing (held_run hh hr) hp hw hguard hf hg hq)

/-- The step that admits an open. -/
theorem moves_of_admits {e : Device × Bool} (hadm : e ∈ admits s a) (hs : step s a = some s') :
    ∃ p x file, s.procs[p]? = some x ∧ opening x = none ∧ file.device = e.1 ∧
      unguarded e.1 = true ∧ Moves s s' p (.granted file e.2) := by
  rcases guarded_eq_some.mp hs with ⟨hg, rfl⟩
  cases a with
  | scullUOpen p cred w =>
      obtain ⟨ret, hx⟩ := idle_cases hg
      simp only [admits] at hadm
      split at hadm
      · cases hadm
      · rename_i hgrant
        cases hadm
        refine ⟨p, _, ⟨.user, cred⟩, hx, rfl, rfl, rfl, ?_⟩
        simp only [update]
        rw [if_neg hgrant]
        exact ⟨rfl, rfl, rfl, rfl, rfl⟩
  | scullWOpen p cred w nonblock =>
      obtain ⟨ret, hx⟩ := idle_cases hg
      simp only [admits] at hadm
      split at hadm
      · rename_i hgrant
        cases hadm
        exact ⟨p, _, ⟨.wuser, cred⟩, hx, rfl, rfl, rfl, moves_round hgrant⟩
      · cases hadm
  | scullWRetry p cred w =>
      simp only [admits] at hadm
      split at hadm
      · rename_i hgrant
        cases hadm
        exact ⟨p, _, ⟨.wuser, cred⟩, hg, rfl, rfl, rfl, moves_round hgrant⟩
      · cases hadm
  | scullCOpen p tty cred w served =>
      obtain ⟨ret, hx⟩ := idle_cases hg.1
      cases tty with
      | none => cases hadm
      | some key =>
          simp only [admits] at hadm
          split at hadm
          · rename_i hmem
            cases hadm
            refine ⟨p, _, ⟨.priv key, cred⟩, hx, rfl, rfl, rfl, ?_⟩
            simp only [update]
            rw [if_pos hmem]
            exact ⟨rfl, rfl, rfl, rfl, rfl⟩
          · cases hadm
  | _ => cases hadm

/-- After an open that is not exclusive a trim may meet a critical section, if a process
is there to read or to write. -/
theorem clashes_of_not_exclusive (hh : Held s) (hs : step s a = some s') (hex : ¬ Exclusive s a)
    (hidle : ∃ r : ℕ, s'.procs[r]?.map Point.idle = some true) : Clashes s' := by
  have hh' := held_step hh hs
  obtain ⟨⟨d, wronly⟩, hadm, hbad⟩ : ∃ e ∈ admits s a,
      ¬ ((e.2 = true → ¬ InUse s e.1) ∧ ¬ InTrim s e.1) := by
    by_contra hnone
    exact hex fun e he => by_contra fun hbad => hnone ⟨e, he, hbad⟩
  obtain ⟨p, x, file, hx, hnone, rfl, hguard, hmoves⟩ := moves_of_admits hadm hs
  have hlt : p < s.procs.length := (List.getElem?_eq_some_iff.mp hx).1
  have hp : s'.procs[p]? = some (.granted file wronly) := by
    rw [hmoves.procs, List.getElem?_set_self hlt]
  -- others that have the device open or are opening it are where they were
  have hother {z : Point} {g : AccFile} (hz : z ∈ s.procs) (hg : g ∈ opening z) :
      ∃ q, q ≠ p ∧ s'.procs[q]? = some z := by
    obtain ⟨q, hq⟩ := List.getElem?_of_mem hz
    have hne : q ≠ p := by
      rintro rfl
      cases hx.symm.trans hq
      rw [hnone] at hg
      cases hg
    exact ⟨q, hne, by rw [hmoves.procs, List.getElem?_set_ne hne.symm, hq]⟩
  cases wronly with
  | true =>
      have huse : InUse s file.device := by
        by_contra hfree
        refine hbad ⟨fun _ => hfree, ?_⟩
        rintro ⟨z, hz, g, hg, hd⟩
        exact hfree (Or.inr ⟨z, hz, g, opening_of_writing hg, hd⟩)
      rcases huse with ⟨z, hz, g, hg, hd⟩ | ⟨z, hz, g, hg, hd⟩
      · -- a file of the device is open, and the process that is outside a call reads it
        obtain ⟨f, hf⟩ := List.getElem?_of_mem hz
        obtain ⟨r, hr⟩ := hidle
        obtain ⟨ret, hr⟩ := idle_cases hr
        cases hg
        exact clashes_of_writing hh' hp rfl hguard (by rw [hmoves.files, hf]) hd hr
      · -- another open is in progress: it returns, and its caller reads
        obtain ⟨q, hne, hq⟩ := hother hz hg
        exact clashes_of_opening hh' hp rfl hguard hne hq hg hd
  | false =>
      have htrim : InTrim s file.device := by
        by_contra hfree
        exact hbad ⟨nofun, hfree⟩
      -- the other one trims, and this one returns and reads
      obtain ⟨z, hz, g, hg, hd⟩ := htrim
      obtain ⟨q, hne, hq⟩ := hother hz (opening_of_writing hg)
      exact clashes_of_opening hh' hq hg (by rw [hd, hguard]) hne.symm hp rfl hd.symm

end Sharp

theorem lone_init (n : ℕ) : Lone (init n) := by
  intro p x hx file hfile
  rw [init_procs hx] at hfile
  cases hfile

theorem excluded_init (n : ℕ) : Excluded (init n) := by
  intro p x hx q y _ d hd
  rw [init_procs hx] at hd
  cases hd

/-- In a run from the loading of the module no device is ever trimmed while another
process is in a critical section of `scull_read` or `scull_write` on it, if the opens of
`scull_u_open`, `scull_w_open` and `scull_c_open` are exclusive: a write-only one is
admitted only while no file of its device is open and no other open of it in progress,
and no open at all while a write-only one is. After an open that is not, a trim may meet
a critical section without another one, if a process is outside a call. -/
theorem trim_excludes (n : ℕ) (as : List AccAct) :
    (Along step Exclusive (init n) as →
      Along step (fun s a => ∀ s', step s a = some s' → Excluded s') (init n) as) ∧
    ∀ s a s', run step (init n) as = some s → step s a = some s' →
      (∃ r : ℕ, s'.procs[r]?.map Point.idle = some true) → ¬ Exclusive s a →
      ∃ bs t, bs.all goesOn = true ∧ run step s' bs = some t ∧ ¬ Excluded t := by
  constructor
  · refine along_of_invariant (fun s => Sane s ∧ Lone s ∧ Excluded s) ?_ ?_
      ⟨sane_init n, lone_init n, excluded_init n⟩
    · rintro s a ⟨hi, hl, he⟩ _ s' hs
      exact excluded_step hi hl he hs
    · rintro s a s' ⟨hi, hl, he⟩ hex hs
      exact ⟨sane_step hi hs, lone_step hl hi.cloned hex (effect_of_step hs),
        excluded_step hi hl he hs⟩
  · intro s a s' hr hs hidle hex
    exact clashes_of_not_exclusive (held_run (held_init n) hr) hs hex hidle

/-- A process opens the per-user device write-only, writes and releases it; then two
others of the same user open it, and one is inside while the first trims a bare device. -/
def tookTurns : List AccAct :=
  [.scullUOpen 0 alice true, .startTrim 0 ⟨.user, alice⟩, .endTrim 0 ⟨.user, alice⟩,
    .enter 0 0 ⟨.user, alice⟩, .lock 0 0 ⟨.user, alice⟩, .unlock 0 0 ⟨.user, alice⟩ 4,
    .release 0 ⟨.user, alice⟩, .scullUOpen 1 alice false, .scullUOpen 2 alice false,
    .opened 1 ⟨.user, alice⟩, .enter 1 1 ⟨.user, alice⟩, .lock 1 1 ⟨.user, alice⟩,
    .opened 2 ⟨.user, alice⟩, .scullOpen 0 3 alice true, .lockTrim 0 3 alice]

/-- Then the third one opens the per-user device write-only. -/
theorem trim_excludes_turns :
    Along step (fun s a => ∀ s', step s a = some s' → Excluded s') (init 4) tookTurns ∧
      ∃ s s', run step (init 4) tookTurns = some s ∧
        step s (.scullUOpen 2 alice true) = some s' ∧
        ∃ bs t, bs.all goesOn = true ∧ run step s' bs = some t ∧ ¬ Excluded t := by
  refine ⟨(trim_excludes 4 tookTurns).1 (by decide), _, _, rfl, rfl, ?_⟩
  exact (trim_excludes 4 tookTurns).2 _ (.scullUOpen 2 alice true) _ rfl rfl ⟨3, rfl⟩ (by decide)

/-- A process reads the per-user device; another one of the same user opens it
write-only. -/
def trimmed : List AccAct :=
  [.scullUOpen 0 alice false, .opened 0 ⟨.user, alice⟩, .enter 0 0 ⟨.user, alice⟩,
    .lock 0 0 ⟨.user, alice⟩, .scullUOpen 1 alice true, .startTrim 1 ⟨.user, alice⟩]

theorem trim_excludes_reader : ∃ s, run step (init 2) trimmed = some s ∧
    s.procs[0]? = some (.inside 0 ⟨.user, alice⟩) ∧ s.procs[1]? = some (.trimming ⟨.user, alice⟩) ∧
    s.mutex .user = some 0 ∧ ¬ Excluded s := by
  refine ⟨_, rfl, rfl, rfl, rfl, ?_⟩
  intro he
  exact he 1 _ rfl 0 _ rfl .user rfl rfl

end Access

end Scull
