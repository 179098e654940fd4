import DriversLab.Scull.SingleOpen

/-!
# Scull.AccessSteps — files, mutexes and clones of the access devices

* `Effect`: what a step can do, as far as files, mutexes and clones are concerned;
* `Sane`: a call is on an open file, a mutex has one owner, and a device that is being
  created is on no list and in no file;
* `Held`: whoever has a mutex is at a point for which it is held.
-/

namespace Scull

open Lts

namespace Access

/-! ## What a step can do -/

/-- A point at which a process holds and uses nothing. -/
def light : Point → Bool
  | .returned _ | .locking _ _ | .failing | .sleeping _ _ | .woken _ _ => true
  | _ => false

/-- A device whose opens trim it with nothing to keep others away. -/
def unguarded : Device → Bool
  | .user | .wuser | .priv _ => true
  | _ => false

/-- The open of such a device that an action admits, and whether it is write-only. A
private device is on the list: one that is created is trimmed before anybody knows it. -/
def admits (s : AccSys) : AccAct → Option (Device × Bool)
  | .scullUOpen _ cred wronly => if scullURefuses s.u cred then none else some (.user, wronly)
  | .scullWOpen _ cred wronly _ | .scullWRetry _ cred wronly =>
      if scullWAvailable s.w cred then some (.wuser, wronly) else none
  | .scullCOpen _ (some key) _ wronly _ =>
      if key ∈ s.cList then some (.priv key, wronly) else none
  | _ => none

/-- A private device is on the list. -/
def Known (cList : List ℕ) (d : Device) : Prop := ∀ key, d = .priv key → key ∈ cList

/-- A step of one process that changes neither files nor mutexes nor clones. -/
structure Moves (s s' : AccSys) (p : ℕ) (y : Point) : Prop where
  procs : s'.procs = s.procs.set p y
  files : s'.files = s.files
  mutex : s'.mutex = s.mutex
  cList : s'.cList = s.cList
  cLock : s'.cLock = s.cLock

inductive Effect (s : AccSys) : AccAct → AccSys → Prop
  | light {a : AccAct} {s' : AccSys} {p : ℕ} {y : Point} (h : Moves s s' p y)
      (hy : light y = true) : Effect s a s'
  | granted {a : AccAct} {s' : AccSys} {p : ℕ} {file : AccFile} {wronly : Bool}
      (h : Moves s s' p (.granted file wronly)) (hknown : Known s.cList file.device)
      (hadmits : unguarded file.device = true → admits s a = some (file.device, wronly)) :
      Effect s a s'
  | creating {a : AccAct} {p key : ℕ} {cred : Cred} {wronly : Bool} (hfree : s.cLock = none)
      (hnew : key ∉ s.cList) :
      Effect s a { s with cLock := some p, procs := s.procs.set p (.creating key cred wronly) }
  | created {p key : ℕ} {cred : Cred} {wronly : Bool}
      (hx : s.procs[p]? = some (.creating key cred wronly)) :
      Effect s (.scullCCreated p key cred wronly) (update s (.scullCCreated p key cred wronly))
  | lockTrim {p i : ℕ} {cred : Cred} (hfree : s.mutex (.bare i) = none) :
      Effect s (.lockTrim p i cred) (update s (.lockTrim p i cred))
  | startTrim {p : ℕ} {file : AccFile} (hx : s.procs[p]? = some (.granted file true))
      (hlocks : locksTrim file.device = false) :
      Effect s (.startTrim p file) (update s (.startTrim p file))
  | endTrim {p : ℕ} {file : AccFile} (hx : s.procs[p]? = some (.trimming file)) :
      Effect s (.endTrim p file) (update s (.endTrim p file))
  | opened {p : ℕ} {file : AccFile} (hx : s.procs[p]? = some (.granted file false)) :
      Effect s (.opened p file) (update s (.opened p file))
  | enter {p f : ℕ} {file : AccFile} (hf : s.files[f]? = some (some file)) :
      Effect s (.enter p f file) (update s (.enter p f file))
  | lock {p f : ℕ} {file : AccFile} (hx : s.procs[p]? = some (.calling f file))
      (hfree : s.mutex file.device = none) :
      Effect s (.lock p f file) (update s (.lock p f file))
  | unlock {p f : ℕ} {file : AccFile} {ret : ℤ} (hx : s.procs[p]? = some (.inside f file)) :
      Effect s (.unlock p f file ret) (update s (.unlock p f file ret))
  | release {f : ℕ} {file : AccFile} (hidle : ∀ x ∈ s.procs, x.call.map Prod.fst ≠ some f) :
      Effect s (.release f file) (update s (.release f file))

section Inversion

variable {s s' : AccSys}

theorem known_of_ne {cList : List ℕ} {d : Device} (h : ∀ key, d ≠ .priv key) : Known cList d :=
  fun key hkey => absurd hkey (h key)

theorem moves_round {p : ℕ} {cred : Cred} {wronly : Bool} {y : Point}
    (h : scullWAvailable s.w cred = true) :
    Moves s (scullWRound s p cred wronly y) p (.granted ⟨.wuser, cred⟩ wronly) := by
  unfold scullWRound
  rw [if_pos h]
  exact ⟨rfl, rfl, rfl, rfl, rfl⟩

theorem effect_round {a : AccAct} {p : ℕ} {cred : Cred} {wronly : Bool} {y : Point}
    (hy : light y = true)
    (hadmits : admits s a = if scullWAvailable s.w cred then some (.wuser, wronly) else none) :
    Effect s a (scullWRound s p cred wronly y) := by
  by_cases hgrant : scullWAvailable s.w cred = true
  · exact .granted (moves_round hgrant) (known_of_ne (by simp))
      fun _ => hadmits.trans (if_pos hgrant)
  · unfold scullWRound
    rw [if_neg hgrant]
    exact .light ⟨rfl, rfl, rfl, rfl, rfl⟩ hy

theorem effect_of_step {a : AccAct} (hs : step s a = some s') : Effect s a s' := by
  rcases guarded_eq_some.mp hs with ⟨hg, rfl⟩
  cases a with
  | scullOpen p i cred wronly =>
      cases wronly with
      | true => exact .light ⟨rfl, rfl, rfl, rfl, rfl⟩ rfl
      | false => exact .granted ⟨rfl, rfl, rfl, rfl, rfl⟩ (known_of_ne (by simp)) nofun
  | scullSOpen p cred wronly =>
      unfold update
      simp only
      split
      · exact .granted ⟨rfl, rfl, rfl, rfl, rfl⟩ (known_of_ne (by simp)) nofun
      · exact .light ⟨rfl, rfl, rfl, rfl, rfl⟩ rfl
  | scullSFail p => exact .light ⟨rfl, rfl, rfl, rfl, rfl⟩ rfl
  | scullUOpen p cred wronly =>
      unfold update
      simp only
      split
      · exact .light ⟨rfl, rfl, rfl, rfl, rfl⟩ rfl
      · rename_i hgrant
        exact .granted ⟨rfl, rfl, rfl, rfl, rfl⟩ (known_of_ne (by simp)) fun _ => if_neg hgrant
  | scullWOpen p cred wronly nonblock =>
      refine effect_round ?_ rfl
      cases nonblock <;> rfl
  | scullWWake p cred wronly => exact .light ⟨rfl, rfl, rfl, rfl, rfl⟩ rfl
  | scullWRetry p cred wronly => exact effect_round rfl rfl
  | scullCOpen p tty cred wronly served =>
      unfold update
      cases tty with
      | none => exact .light ⟨rfl, rfl, rfl, rfl, rfl⟩ rfl
      | some key =>
          simp only
          split
          · rename_i hmem
            refine .granted ⟨rfl, rfl, rfl, rfl, rfl⟩ ?_ fun _ => if_pos hmem
            intro k hk
            cases hk
            exact hmem
          · rename_i hmem
            split
            · refine .creating ?_ hmem
              rcases hg.2 with htty | hfree
              · cases htty
              · exact hfree
            · exact .light ⟨rfl, rfl, rfl, rfl, rfl⟩ rfl
  | scullCCreated p key cred wronly => exact .created hg
  | lockTrim p i cred => exact .lockTrim hg.2
  | startTrim p file => exact .startTrim hg.1 hg.2
  | endTrim p file => exact .endTrim hg
  | opened p file => exact .opened hg
  | enter p f file => exact .enter hg.2
  | lock p f file => exact .lock hg.1 hg.2
  | unlock p f file ret => exact .unlock hg
  | interrupted p => exact .light ⟨rfl, rfl, rfl, rfl, rfl⟩ rfl
  | release f file => exact .release hg.2

end Inversion

/-! ## The invariants -/

/-- A read or a write is on an open file. -/
def Opened (s : AccSys) : Prop :=
  ∀ (p : ℕ) x, s.procs[p]? = some x → ∀ f file, x.call = some (f, file) →
    s.files[f]? = some (some file)

/-- The device whose mutex a process holds. -/
def locks : Point → Option Device
  | .trimming file => if locksTrim file.device then some file.device else none
  | .inside _ file => some file.device
  | _ => none

/-- A mutex that is held is held by its owner. -/
def Owned (s : AccSys) : Prop :=
  ∀ (p : ℕ) x, s.procs[p]? = some x → ∀ d, locks x = some d → s.mutex d = some p

/-- A mutex that is held is held for a trim or for a critical section. -/
def Held (s : AccSys) : Prop :=
  ∀ d p, s.mutex d = some p → ∃ x, s.procs[p]? = some x ∧ locks x = some d

/-- The file that an open is about to return. -/
def opening : Point → Option AccFile
  | .granted file _ | .trimming file => some file
  | _ => none

/-- A clone that is being created is not on the list, and the lock is held for it; those
that files are for are on the list. -/
structure Cloned (s : AccSys) : Prop where
  creating : ∀ (p : ℕ) x, s.procs[p]? = some x → ∀ key cred wronly, x = .creating key cred wronly →
    s.cLock = some p ∧ key ∉ s.cList
  opening : ∀ (p : ℕ) x, s.procs[p]? = some x → ∀ file, opening x = some file →
    Known s.cList file.device
  files : ∀ file, some file ∈ s.files → Known s.cList file.device

/-- All that a process at a light point leaves alone. -/
theorem light_holds_nothing {y : Point} (h : light y = true) :
    y.call = none ∧ locks y = none ∧ opening y = none ∧ y.trims = none ∧ y.within = none := by
  cases y with
  | returned ret => exact ⟨rfl, rfl, rfl, rfl, rfl⟩
  | locking i cred => exact ⟨rfl, rfl, rfl, rfl, rfl⟩
  | failing => exact ⟨rfl, rfl, rfl, rfl, rfl⟩
  | sleeping cred wronly => exact ⟨rfl, rfl, rfl, rfl, rfl⟩
  | woken cred wronly => exact ⟨rfl, rfl, rfl, rfl, rfl⟩
  | _ => cases h

structure Sane (s : AccSys) : Prop where
  booked : Booked s
  opened : Opened s
  owned : Owned s
  cloned : Cloned s

section Steps

variable {s s' : AccSys} {a : AccAct} {p : ℕ} {x y : Point}

/-! ### Files -/

theorem opened_set (ho : Opened s) (hprocs : s'.procs = s.procs.set p y)
    (hfiles : ∀ (f : ℕ) file, s.files[f]? = some (some file) → s'.files[f]? = some (some file))
    (hy : ∀ (f : ℕ) file, y.call = some (f, file) → s'.files[f]? = some (some file)) :
    Opened s' := by
  unfold Opened
  rw [hprocs]
  apply Table.forall_set
  · intro q x _ hx f file hcall
    exact hfiles f file (ho q x hx f file hcall)
  · exact hy

theorem files_append {l : List (Option AccFile)} {f : ℕ} {x y : Option AccFile}
    (h : l[f]? = some x) : (l ++ [y])[f]? = some x := by
  have hlt : f < l.length := (List.getElem?_eq_some_iff.mp h).1
  rw [List.getElem?_append_left hlt, h]

theorem opened_step (ho : Opened s) (he : Effect s a s') : Opened s' := by
  cases he with
  | light h hy =>
      refine opened_set ho h.procs (by simp [h.files]) ?_
      simp [(light_holds_nothing hy).1]
  | granted h hknown hadmits =>
      exact opened_set ho h.procs (by simp [h.files]) (by simp [Point.call])
  | creating hfree hnew => exact opened_set ho rfl (fun _ _ h => h) (by simp [Point.call])
  | created hx => exact opened_set ho rfl (fun _ _ h => h) (by simp [Point.call])
  | lockTrim hfree => exact opened_set ho rfl (fun _ _ h => h) (by simp [Point.call])
  | startTrim hx hlocks => exact opened_set ho rfl (fun _ _ h => h) (by simp [Point.call])
  | endTrim hx => exact opened_set ho rfl (fun _ _ h => files_append h) (by simp [Point.call])
  | opened hx => exact opened_set ho rfl (fun _ _ h => files_append h) (by simp [Point.call])
  | enter hf =>
      refine opened_set ho rfl (fun _ _ h => h) ?_
      intro g file hcall
      cases hcall
      exact hf
  | lock hx hfree =>
      -- the call has been on this file since it was entered
      refine opened_set ho rfl (fun _ _ h => h) ?_
      intro g file hcall
      cases hcall
      exact ho _ _ hx _ _ rfl
  | unlock hx => exact opened_set ho rfl (fun _ _ h => h) (by simp [Point.call])
  | release hidle =>
      -- no call is on the file that goes
      intro q x hx g file hcall
      have hne := hidle x (List.mem_of_getElem? hx)
      rw [hcall] at hne
      have hfile := ho q x hx g file hcall
      simp only [update]
      rw [List.getElem?_set_ne (fun h => hne (congrArg some h.symm)), hfile]

/-! ### Mutexes -/

theorem owned_set (ho : Owned s) (hprocs : s'.procs = s.procs.set p y)
    (hmutex : ∀ d q, q ≠ p → s.mutex d = some q → s'.mutex d = some q)
    (hy : ∀ d, locks y = some d → s'.mutex d = some p) : Owned s' := by
  unfold Owned
  rw [hprocs]
  apply Table.forall_set
  · intro q x hne hx d hlock
    exact hmutex d q hne (ho q x hx d hlock)
  · exact hy

/-- Taking a mutex that is free leaves the others alone. -/
theorem mutex_take {mutex : Device → Option ℕ} {d : Device} (hfree : mutex d = none) (p : ℕ)
    {e : Device} {q : ℕ} (h : mutex e = some q) : Function.update mutex d (some p) e = some q := by
  rw [Function.update_of_ne, h]
  rintro rfl
  rw [hfree] at h
  cases h

/-- So does giving up one's own. -/
theorem mutex_drop {mutex : Device → Option ℕ} {d : Device} {p : ℕ} (hown : mutex d = some p)
    {e : Device} {q : ℕ} (hne : q ≠ p) (h : mutex e = some q) :
    Function.update mutex d none e = some q := by
  rw [Function.update_of_ne, h]
  rintro rfl
  rw [hown] at h
  cases h
  exact hne rfl

theorem owned_step (ho : Owned s) (he : Effect s a s') : Owned s' := by
  cases he with
  | light h hy =>
      refine owned_set ho h.procs (by simp [h.mutex]) ?_
      simp [(light_holds_nothing hy).2.1]
  | granted h hknown hadmits => exact owned_set ho h.procs (by simp [h.mutex]) (by simp [locks])
  | creating hfree hnew => exact owned_set ho rfl (fun _ _ _ h => h) (by simp [locks])
  | created hx => exact owned_set ho rfl (fun _ _ _ h => h) (by simp [locks])
  | lockTrim hfree =>
      refine owned_set ho rfl (fun _ _ _ h => mutex_take hfree _ h) ?_
      intro d hd
      simp only [locks, locksTrim, if_true, Option.some.injEq] at hd
      subst hd
      exact Function.update_self _ _ _
  | startTrim hx hlocks =>
      -- a trim that takes no mutex owns none
      refine owned_set ho rfl (fun _ _ _ h => h) ?_
      simp [locks, hlocks]
  | @endTrim p file hx =>
      refine owned_set ho rfl ?_ (by simp [locks])
      intro d q hne h
      simp only [update]
      split
      · rename_i hlocks
        exact mutex_drop (ho p _ hx _ (by simp [locks, hlocks])) hne h
      · exact h
  | opened hx => exact owned_set ho rfl (fun _ _ _ h => h) (by simp [locks])
  | enter hf => exact owned_set ho rfl (fun _ _ _ h => h) (by simp [locks])
  | lock hx hfree =>
      refine owned_set ho rfl (fun _ _ _ h => mutex_take hfree _ h) ?_
      intro d hd
      cases hd
      exact Function.update_self _ _ _
  | unlock hx =>
      exact owned_set ho rfl (fun _ _ hne h => mutex_drop (ho _ _ hx _ rfl) hne h) (by simp [locks])
  | release hidle => exact ho

/-- One process goes on. The mutexes that are held afterwards were held before, and not
for what it did, or are held for what it does now. -/
theorem held_set (hh : Held s) (hx : s.procs[p]? = some x) (hprocs : s'.procs = s.procs.set p y)
    (hmutex : ∀ d q, s'.mutex d = some q →
      s.mutex d = some q ∧ locks x ≠ some d ∨ q = p ∧ locks y = some d) : Held s' := by
  intro d q hd
  rw [hprocs]
  rcases hmutex d q hd with ⟨hold, hnot⟩ | ⟨rfl, hlocks⟩
  · obtain ⟨z, hz, hlocks⟩ := hh d q hold
    -- the process that goes on had not locked `d`
    have hne : p ≠ q := by
      rintro rfl
      cases hx.symm.trans hz
      exact hnot hlocks
    exact ⟨z, by rw [List.getElem?_set_ne hne, hz], hlocks⟩
  · have hlt : q < s.procs.length := (List.getElem?_eq_some_iff.mp hx).1
    exact ⟨y, List.getElem?_set_self hlt, hlocks⟩

theorem held_move (hh : Held s) (hx : s.procs[p]? = some x) (hnone : locks x = none)
    (hprocs : s'.procs = s.procs.set p y) (hmutex : s'.mutex = s.mutex) : Held s' := by
  refine held_set hh hx hprocs ?_
  intro d q hd
  rw [hmutex] at hd
  exact Or.inl ⟨hd, by simp [hnone]⟩

theorem held_take (hh : Held s) (hx : s.procs[p]? = some x) (hnone : locks x = none) {d : Device}
    (hprocs : s'.procs = s.procs.set p y)
    (hmutex : s'.mutex = Function.update s.mutex d (some p)) (hlocks : locks y = some d) :
    Held s' := by
  refine held_set hh hx hprocs ?_
  intro e q he
  rw [hmutex] at he
  rcases eq_or_ne e d with rfl | hne
  · rw [Function.update_self] at he
    cases he
    exact Or.inr ⟨rfl, hlocks⟩
  · rw [Function.update_of_ne hne] at he
    exact Or.inl ⟨he, by simp [hnone]⟩

theorem held_drop (hh : Held s) (hx : s.procs[p]? = some x) {d : Device} (hlocks : locks x = some d)
    (hprocs : s'.procs = s.procs.set p y) (hmutex : s'.mutex = Function.update s.mutex d none) :
    Held s' := by
  refine held_set hh hx hprocs ?_
  intro e q he
  rw [hmutex] at he
  rcases eq_or_ne e d with rfl | hne
  · rw [Function.update_self] at he
    cases he
  · rw [Function.update_of_ne hne] at he
    refine Or.inl ⟨he, ?_⟩
    rw [hlocks]
    exact fun heq => hne (Option.some.inj heq).symm

theorem held_round (hh : Held s) (hx : s.procs[p]? = some x) (hnone : locks x = none) {cred : Cred}
    {wronly : Bool} : Held (scullWRound s p cred wronly y) := by
  unfold scullWRound
  split <;> exact held_move hh hx hnone rfl rfl

theorem locks_of_interruptible (h : x.interruptible = true) : locks x = none := by
  cases x with
  | inside f file => cases h
  | trimming file => cases h
  | _ => rfl

theorem held_step (hh : Held s) (hs : step s a = some s') : Held s' := by
  rcases guarded_eq_some.mp hs with ⟨hg, rfl⟩
  cases a with
  | scullOpen p i cred wronly =>
      obtain ⟨ret, hx⟩ := idle_cases hg
      exact held_move hh hx rfl rfl rfl
  | scullSOpen p cred wronly =>
      obtain ⟨ret, hx⟩ := idle_cases hg
      exact held_move hh hx rfl rfl rfl
  | scullSFail p => exact held_move hh hg rfl rfl rfl
  | scullUOpen p cred wronly =>
      obtain ⟨ret, hx⟩ := idle_cases hg
      unfold update
      simp only
      split <;> exact held_move hh hx rfl rfl rfl
  | scullWOpen p cred wronly nonblock =>
      obtain ⟨ret, hx⟩ := idle_cases hg
      exact held_round hh hx rfl
  | scullWWake p cred wronly => exact held_move hh hg.1 rfl rfl rfl
  | scullWRetry p cred wronly => exact held_round hh hg rfl
  | scullCOpen p tty cred wronly served =>
      obtain ⟨ret, hx⟩ := idle_cases hg.1
      unfold update
      cases tty with
      | none => exact held_move hh hx rfl rfl rfl
      | some key =>
          simp only
          split
          · exact held_move hh hx rfl rfl rfl
          · split <;> exact held_move hh hx rfl rfl rfl
  | scullCCreated p key cred wronly => exact held_move hh hg rfl rfl rfl
  | lockTrim p i cred => exact held_take hh hg.1 rfl rfl rfl rfl
  | startTrim p file => exact held_move hh hg.1 rfl rfl rfl
  | endTrim p file =>
      -- only `scull_open` has a mutex to give back
      cases hlocks : locksTrim file.device with
      | true =>
          refine held_drop hh hg (d := file.device) (by simp [locks, hlocks]) rfl ?_
          simp [update, hlocks]
      | false => exact held_move hh hg (by simp [locks, hlocks]) rfl (by simp [update, hlocks])
  | opened p file => exact held_move hh hg rfl rfl rfl
  | enter p f file =>
      obtain ⟨ret, hx⟩ := idle_cases hg.1
      exact held_move hh hx rfl rfl rfl
  | lock p f file => exact held_take hh hg.1 rfl rfl rfl rfl
  | unlock p f file ret => exact held_drop hh hg rfl rfl rfl
  | interrupted p =>
      -- a signal ends waits only
      obtain ⟨x, hx, hcan⟩ := interruptible_cases hg
      exact held_move hh hx (locks_of_interruptible hcan) rfl rfl
  | release f file => exact hh

theorem held_init (n : ℕ) : Held (init n) := by
  intro d p hd
  cases hd

theorem held_run {as : List AccAct} (hh : Held s) (hr : run step s as = some s') : Held s' :=
  run_invariant (fun _ _ _ hh hs => held_step hh hs) hh hr

/-! ### Clones -/

theorem known_cons {cList : List ℕ} {d : Device} (h : Known cList d) (key : ℕ) :
    Known (key :: cList) d :=
  fun k hk => List.mem_cons_of_mem key (h k hk)

theorem cloned_set (hc : Cloned s) (hprocs : s'.procs = s.procs.set p y)
    (hlist : s'.cList = s.cList) (hlock : s'.cLock = s.cLock)
    (hfiles : ∀ file, some file ∈ s'.files → some file ∈ s.files ∨ Known s.cList file.device)
    (hy : ∀ key cred wronly, y ≠ .creating key cred wronly)
    (hopening : ∀ file, opening y = some file → Known s.cList file.device) : Cloned s' := by
  refine ⟨?_, ?_, ?_⟩
  · rw [hprocs, hlist, hlock]
    apply Table.forall_set
    · intro q x _ hx
      exact hc.creating q x hx
    · intro key cred wronly heq
      exact absurd heq (hy key cred wronly)
  · rw [hprocs, hlist]
    apply Table.forall_set
    · intro q x _ hx
      exact hc.opening q x hx
    · exact hopening
  · rw [hlist]
    intro file hfile
    rcases hfiles file hfile with hold | hnew
    · exact hc.files file hold
    · exact hnew

theorem cloned_append (hc : Cloned s) {x : Point} {file : AccFile} (hx : s.procs[p]? = some x)
    (hopening : opening x = some file) :
    ∀ g, some g ∈ s.files ++ [some file] → some g ∈ s.files ∨ Known s.cList g.device := by
  intro g hg
  rcases List.mem_append.mp hg with hold | hnew
  · exact Or.inl hold
  · cases List.mem_singleton.mp hnew
    exact Or.inr (hc.opening p x hx file hopening)

theorem cloned_step (hc : Cloned s) (he : Effect s a s') : Cloned s' := by
  cases he with
  | light h hy =>
      refine cloned_set hc h.procs h.cList h.cLock (by simp +contextual [h.files]) ?_ ?_
      · rintro key cred wronly rfl
        cases hy
      · simp [(light_holds_nothing hy).2.2.1]
  | granted h hknown hadmits =>
      refine cloned_set hc h.procs h.cList h.cLock (by simp +contextual [h.files]) (by simp) ?_
      intro file hfile
      cases hfile
      exact hknown
  | @creating _ p key cred wronly hfree hnew =>
      refine ⟨?_, ?_, hc.files⟩
      · apply Table.forall_set
        · intro q x _ hx k c w heq
          -- the lock was free, so nobody else was at it
          have hlock := (hc.creating q x hx k c w heq).1
          rw [hfree] at hlock
          cases hlock
        · intro k c w heq
          cases heq
          exact ⟨rfl, hnew⟩
      · apply Table.forall_set
        · intro q x _ hx
          exact hc.opening q x hx
        · intro file hfile
          cases hfile
  | @created p key cred wronly hx =>
      -- nobody else is creating: the lock is ours
      have hmine := (hc.creating p _ hx key cred wronly rfl).1
      refine ⟨?_, ?_, fun file hfile => known_cons (hc.files file hfile) key⟩
      · apply Table.forall_set
        · intro q x hne hx' k c w heq
          have htheirs := (hc.creating q x hx' k c w heq).1
          rw [hmine] at htheirs
          cases htheirs
          exact absurd rfl hne
        · intro k c w heq
          cases heq
      · apply Table.forall_set
        · intro q x _ hx' file hfile
          exact known_cons (hc.opening q x hx' file hfile) key
        · intro file hfile k hk
          cases hfile
          cases hk
          exact List.mem_cons_self
  | lockTrim hfree =>
      refine cloned_set hc rfl rfl rfl (fun _ h => Or.inl h) (by simp) ?_
      intro file hfile
      cases hfile
      exact known_of_ne (by simp)
  | startTrim hx hlocks =>
      refine cloned_set hc rfl rfl rfl (fun _ h => Or.inl h) (by simp) ?_
      intro file hfile
      cases hfile
      exact hc.opening _ _ hx _ rfl
  | endTrim hx =>
      exact cloned_set hc rfl rfl rfl (cloned_append hc hx rfl) (by simp) (by simp [opening])
  | opened hx =>
      exact cloned_set hc rfl rfl rfl (cloned_append hc hx rfl) (by simp) (by simp [opening])
  | enter hf =>
      exact cloned_set hc rfl rfl rfl (fun _ h => Or.inl h) (by simp) (by simp [opening])
  | lock hx hfree =>
      exact cloned_set hc rfl rfl rfl (fun _ h => Or.inl h) (by simp) (by simp [opening])
  | unlock hx =>
      exact cloned_set hc rfl rfl rfl (fun _ h => Or.inl h) (by simp) (by simp [opening])
  | release hidle =>
      refine ⟨hc.creating, hc.opening, ?_⟩
      intro file hfile
      rcases List.mem_or_eq_of_mem_set hfile with hold | heq
      · exact hc.files file hold
      · cases heq

theorem sane_step (hi : Sane s) (hs : step s a = some s') : Sane s' :=
  have he := effect_of_step hs
  ⟨booked_step hi.booked hs, opened_step hi.opened he, owned_step hi.owned he,
    cloned_step hi.cloned he⟩

theorem sane_init (n : ℕ) : Sane (init n) := by
  refine ⟨booked_init n, ?_, ?_, ?_, ?_, ?_⟩
  · intro p x hx f file hcall
    rw [init_procs hx] at hcall
    cases hcall
  · intro p x hx d hlock
    rw [init_procs hx] at hlock
    cases hlock
  · intro p x hx key cred wronly heq
    rw [init_procs hx] at heq
    cases heq
  · intro p x hx file hopening
    rw [init_procs hx] at hopening
    cases hopening
  · intro file hfile
    cases hfile

end Steps

end Access

end Scull
