import DriversLab.Scull.Access

/-!
# Scull.OwnerLaw — the devices that one user may open

`scull_u_open` and `scull_w_open` let a process in when the count is zero, when it has
the owner's uid or euid, or when it may override access control; the one that finds the
count zero becomes the owner. The blocking device tests this a second time, without the
lock, before a sleeping process goes back to it.

* `share`: the outstanding opens that a process and a file make up;
* `Accounted`: the count is the number of outstanding opens, the owner is the uid of the
  opener that found the count zero, and every outstanding open may be there;
* `owner_law`: so it is in every reachable state, and no step changes the owner while
  the count is positive.
-/

namespace Scull

open Lts

/-- The file that a granted open is about to return. -/
def Point.grant : Point → Option AccFile
  | .granted file _ | .trimming file => some file
  | _ => none

namespace Access

/-- The two per-user devices. -/
inductive PerUser where
  | u
  | w
deriving DecidableEq, Repr

namespace PerUser

def device : PerUser → Device
  | u => .user
  | w => .wuser

/-- The count and the owner of the device. -/
def state (s : AccSys) : PerUser → Owner
  | u => s.u
  | w => s.w

end PerUser

/-- The opener of a file on the device `d`. -/
def share (d : Device) (file : Option AccFile) : Option Cred :=
  file.bind fun file => if file.device = d then some file.opener else none

def one (c : Option Cred) : ℤ := if c.isSome then 1 else 0

/-- The number of successful opens of `d` that have not been released. -/
def outstandingOpens (d : Device) (s : AccSys) : ℤ :=
  (s.procs.map fun x : Point => one (share d x.grant)).sum +
    (s.files.map fun x => one (share d x)).sum

/-- A process with these credentials has an outstanding open of `d`. -/
def HasOpen (d : Device) (s : AccSys) (cred : Cred) : Prop :=
  (∃ (p : ℕ) (x : Point), s.procs[p]? = some x ∧ share d x.grant = some cred) ∨
    ∃ (f : ℕ) (x : Option AccFile), s.files[f]? = some x ∧ share d x = some cred

/-- The owner, whoever did su from it, and root. -/
def Allowed (owner : ℕ) (cred : Cred) : Prop :=
  owner = cred.uid ∨ owner = cred.euid ∨ cred.dacOverride = true

/-- The process that an action lets in. -/
def entrant (v : PerUser) (s : AccSys) : AccAct → Option Cred
  | .scullUOpen _ cred _ => if v = .u ∧ scullURefuses s.u cred = false then some cred else none
  | .scullWOpen _ cred _ _ | .scullWRetry _ cred _ =>
      if v = .w ∧ scullWAvailable s.w cred = true then some cred else none
  | _ => none

/-- The history: the last opener that found the count zero. -/
def founder (v : PerUser) (s : AccSys) (a : AccAct) (h : Option Cred) : Option Cred :=
  match entrant v s a with
  | some cred => if (v.state s).count = 0 then some cred else h
  | none => h

/-- The system with that history. -/
def foundedStep (v : PerUser) : AccSys × Option Cred → AccAct → Option (AccSys × Option Cred) :=
  recorded step (founder v)

structure Accounted (v : PerUser) (s : AccSys) (h : Option Cred) : Prop where
  count : (v.state s).count = outstandingOpens v.device s
  founded : 0 < (v.state s).count → ∃ cred, h = some cred ∧ (v.state s).owner = cred.uid
  allowed : ∀ cred, HasOpen v.device s cred → Allowed (v.state s).owner cred

/-! ## The admission rules -/

/-- Both tests let in whom they should. -/
theorem scullURefuses_eq_false {o : Owner} {cred : Cred} :
    scullURefuses o cred = false ↔ o.count = 0 ∨ Allowed o.owner cred := by
  simp only [scullURefuses, Allowed, ne_eq, decide_not, Bool.and_eq_false_iff, Bool.not_eq_false',
    decide_eq_true_eq, or_assoc]

theorem scullWAvailable_eq_true {o : Owner} {cred : Cred} :
    scullWAvailable o cred = true ↔ o.count = 0 ∨ Allowed o.owner cred := by
  simp only [scullWAvailable, Allowed, Bool.or_eq_true, decide_eq_true_eq, or_assoc]

/-! ## What a step does to the books -/

section Books

variable {v : PerUser} {s s' : AccSys} {h : Option Cred} {p : ℕ} {x y : Point} {d : Device}

theorem one_nonneg (c : Option Cred) : 0 ≤ one c := by
  unfold one
  split <;> decide

theorem share_of_ne {file : AccFile} (hne : file.device ≠ d) : share d (some file) = none :=
  if_neg hne

theorem outstandingOpens_nonneg (d : Device) (s : AccSys) : 0 ≤ outstandingOpens d s :=
  add_nonneg (Table.sum_map_nonneg _ fun _ => one_nonneg _)
    (Table.sum_map_nonneg _ fun _ => one_nonneg _)

/-- Nobody has the device open when nobody is counted. -/
theorem not_hasOpen (hzero : outstandingOpens d s = 0) (cred : Cred) : ¬ HasOpen d s cred := by
  have hprocs := Table.sum_map_nonneg s.procs fun x => one_nonneg (share d x.grant)
  have hfiles := Table.sum_map_nonneg s.files fun x => one_nonneg (share d x)
  unfold outstandingOpens at hzero
  rintro (⟨q, x, hx, hcred⟩ | ⟨f, x, hx, hcred⟩)
  · have hle := Table.le_sum_map (fun x => one_nonneg (share d x.grant)) (List.mem_of_getElem? hx)
    simp only [one, hcred, Option.isSome_some, if_true] at hle hprocs hfiles hzero
    omega
  · have hle := Table.le_sum_map (fun x => one_nonneg (share d x)) (List.mem_of_getElem? hx)
    simp only [one, hcred, Option.isSome_some, if_true] at hle hprocs hfiles hzero
    omega

/-- What holds of the openers before a process goes on holds of them afterwards, if it
holds of the one that this process has become. -/
theorem hasOpen_set (hprocs : s'.procs = s.procs.set p y) (hfiles : s'.files = s.files)
    {P : Cred → Prop} (hold : ∀ cred, HasOpen d s cred → P cred)
    (hnew : ∀ cred, share d y.grant = some cred → P cred) : ∀ cred, HasOpen d s' cred → P cred := by
  rintro cred (⟨q, z, hz, hcred⟩ | ⟨f, z, hz, hcred⟩)
  · rw [hprocs] at hz
    refine Table.forall_set (P := fun _ z => ∀ cred, share d z.grant = some cred → P cred)
      ?_ hnew q z hz cred hcred
    intro q' z' _ hz' cred' hcred'
    exact hold cred' (Or.inl ⟨q', z', hz', hcred'⟩)
  · rw [hfiles] at hz
    exact hold cred (Or.inr ⟨f, z, hz, hcred⟩)

theorem outstandingOpens_set (hx : s.procs[p]? = some x) (hprocs : s'.procs = s.procs.set p y)
    (hfiles : s'.files = s.files) : outstandingOpens d s' =
      outstandingOpens d s + (one (share d y.grant) - one (share d x.grant)) := by
  have hsum := Table.sum_map_set (fun x : Point => one (share d x.grant)) hx (y := y)
    (d := one (share d y.grant) - one (share d x.grant)) (add_sub_cancel _ _).symm
  unfold outstandingOpens
  rw [hprocs, hfiles, hsum]
  omega

theorem state_congr (hu : s'.u = s.u) (hw : s'.w = s.w) : v.state s' = v.state s := by
  cases v with
  | u => exact hu
  | w => exact hw

/-- A step that lets nobody in and takes nobody out. -/
theorem accounted_move (ho : Accounted v s h) (hx : s.procs[p]? = some x)
    (hprocs : s'.procs = s.procs.set p y) (hfiles : s'.files = s.files)
    (hshare : share v.device y.grant = share v.device x.grant) (hstate : v.state s' = v.state s) :
    Accounted v s' h := by
  constructor
  · rw [hstate, ho.count, outstandingOpens_set hx hprocs hfiles, hshare, sub_self, add_zero]
  · rw [hstate]
    exact ho.founded
  · rw [hstate]
    refine hasOpen_set hprocs hfiles ho.allowed ?_
    intro cred hcred
    exact ho.allowed cred (Or.inl ⟨p, x, hx, hshare ▸ hcred⟩)

/-- The end of the locked section: `cred` has passed the test. -/
theorem accounted_grab (ho : Accounted v s h) (hx : s.procs[p]? = some x) (hnone : x.grant = none)
    {cred : Cred} (htest : (v.state s).count = 0 ∨ Allowed (v.state s).owner cred)
    (hprocs : s'.procs = s.procs.set p y) (hfiles : s'.files = s.files)
    (hshare : share v.device y.grant = some cred) (hstate : v.state s' = (v.state s).grab cred) :
    Accounted v s' (if (v.state s).count = 0 then some cred else h) := by
  have hsum : outstandingOpens v.device s' = outstandingOpens v.device s + 1 := by
    rw [outstandingOpens_set hx hprocs hfiles, hshare, hnone]
    rfl
  have hcount : (v.state s').count = (v.state s).count + 1 := by
    rw [hstate]
    rfl
  have howner : (v.state s').owner =
      if (v.state s).count = 0 then cred.uid else (v.state s).owner := by
    rw [hstate]
    rfl
  have hnonneg := outstandingOpens_nonneg v.device s
  refine ⟨by rw [hcount, hsum, ho.count], ?_, ?_⟩
  · intro _
    by_cases hzero : (v.state s).count = 0
    · exact ⟨cred, if_pos hzero, by rw [howner, if_pos hzero]⟩
    · rw [if_neg hzero, howner, if_neg hzero]
      exact ho.founded (by have := ho.count; omega)
  · by_cases hzero : (v.state s).count = 0
    · -- the device was free: the opener is its owner
      rw [howner, if_pos hzero]
      refine hasOpen_set hprocs hfiles ?_ ?_
      · intro c hc
        exact absurd hc (not_hasOpen (ho.count.symm.trans hzero) c)
      · intro c hc
        cases hshare.symm.trans hc
        exact Or.inl rfl
    · rw [howner, if_neg hzero]
      refine hasOpen_set hprocs hfiles ho.allowed ?_
      intro c hc
      cases hshare.symm.trans hc
      exact htest.resolve_left hzero

/-- An open returns: the file takes the place of the process. -/
theorem accounted_opened (ho : Accounted v s h) {file : AccFile} (hx : s.procs[p]? = some x)
    (hgrant : x.grant = some file) (hprocs : s'.procs = s.procs.set p (.returned 0))
    (hfiles : s'.files = s.files ++ [some file]) (hstate : v.state s' = v.state s) :
    Accounted v s' h := by
  have hsum := Table.sum_map_set (fun x : Point => one (share v.device x.grant)) hx
    (y := .returned 0) (d := -one (share v.device (some file)))
    (by rw [hgrant, add_neg_cancel]; rfl)
  constructor
  · rw [hstate, ho.count]
    unfold outstandingOpens
    rw [hprocs, hfiles, hsum, List.map_append, List.sum_append, List.map_singleton,
      List.sum_singleton]
    omega
  · rw [hstate]
    exact ho.founded
  · rw [hstate]
    rintro cred (⟨q, z, hz, hcred⟩ | ⟨f, z, hz, hcred⟩)
    · rw [hprocs] at hz
      refine Table.forall_set
        (P := fun _ z => ∀ cred, share v.device z.grant = some cred →
          Allowed (v.state s).owner cred) ?_ ?_ q z hz cred hcred
      · intro q' z' _ hz' cred' hcred'
        exact ho.allowed cred' (Or.inl ⟨q', z', hz', hcred'⟩)
      · intro cred' hcred'
        cases hcred'
    · rw [hfiles] at hz
      rcases List.mem_append.mp (List.mem_of_getElem? hz) with hold | hnew
      · rcases List.mem_iff_getElem?.mp hold with ⟨f', hf'⟩
        exact ho.allowed cred (Or.inr ⟨f', z, hf', hcred⟩)
      · rw [List.mem_singleton.mp hnew] at hcred
        exact ho.allowed cred (Or.inl ⟨p, x, hx, hgrant ▸ hcred⟩)

theorem accounted_release (ho : Accounted v s h) {f : ℕ} {file : AccFile}
    (hf : s.files[f]? = some (some file)) : Accounted v (update s (.release f file)) h := by
  have hsum := Table.sum_map_set (fun x => one (share v.device x)) hf (y := none)
    (d := -one (share v.device (some file))) (add_neg_cancel _).symm
  have hpos : 0 ≤ one (share v.device (some file)) := one_nonneg _
  have hcount : (v.state (update s (.release f file))).count =
      (v.state s).count - one (share v.device (some file)) := by
    cases v with
    | u =>
        by_cases hd : file.device = .user <;>
          simp [update, PerUser.state, PerUser.device, one, share, hd]
    | w =>
        by_cases hd : file.device = .wuser <;>
          simp [update, PerUser.state, PerUser.device, one, share, hd]
  have howner : (v.state (update s (.release f file))).owner = (v.state s).owner := by
    cases v <;> simp only [update, PerUser.state] <;> split <;> rfl
  refine ⟨?_, ?_, ?_⟩
  · rw [hcount, ho.count]
    unfold outstandingOpens
    simp only [update, hsum]
    omega
  · rw [hcount, howner]
    intro hlt
    exact ho.founded (by omega)
  · rw [howner]
    rintro cred (⟨q, z, hz, hcred⟩ | ⟨g, z, hz, hcred⟩)
    · exact ho.allowed cred (Or.inl ⟨q, z, hz, hcred⟩)
    · refine Table.forall_set
        (P := fun _ z => ∀ cred, share v.device z = some cred → Allowed (v.state s).owner cred)
        ?_ ?_ g z hz cred hcred
      · intro g' z' _ hz' cred' hcred'
        exact ho.allowed cred' (Or.inr ⟨g', z', hz', hcred'⟩)
      · intro cred' hcred'
        cases hcred'

theorem founder_stays {a : AccAct} (hnone : entrant v s a = none) : founder v s a h = h := by
  unfold founder
  rw [hnone]

theorem founder_enters {a : AccAct} {cred : Cred} (hsome : entrant v s a = some cred) :
    founder v s a h = if (v.state s).count = 0 then some cred else h := by
  unfold founder
  rw [hsome]

/-- One round of the loop in `scull_w_open`. -/
theorem accounted_round (ho : Accounted v s h) (hx : s.procs[p]? = some x) (hnone : x.grant = none)
    {cred : Cred} {wronly : Bool} (hblocked : y.grant = none) {a : AccAct}
    (ha : entrant v s a = if v = .w ∧ scullWAvailable s.w cred = true then some cred else none) :
    Accounted v (scullWRound s p cred wronly y) (founder v s a h) := by
  unfold scullWRound
  split
  · rename_i htest
    cases v with
    | u =>
        rw [founder_stays (ha.trans (if_neg nofun))]
        refine accounted_move ho hx rfl rfl ?_ rfl
        rw [hnone]
        exact share_of_ne nofun
    | w =>
        rw [founder_enters (ha.trans (if_pos ⟨rfl, htest⟩))]
        exact accounted_grab ho hx hnone (scullWAvailable_eq_true.mp htest) rfl rfl rfl rfl
  · rename_i htest
    rw [founder_stays (ha.trans (if_neg fun hc => htest hc.2))]
    exact accounted_move ho hx rfl rfl (by rw [hblocked, hnone]) (state_congr rfl rfl)

/-- The locked section of `scull_u_open`. -/
theorem accounted_uOpen (ho : Accounted v s h) {ret : ℤ} (hx : s.procs[p]? = some (.returned ret))
    (cred : Cred) (wronly : Bool) : Accounted v (update s (.scullUOpen p cred wronly))
      (founder v s (.scullUOpen p cred wronly) h) := by
  have ha : entrant v s (.scullUOpen p cred wronly) =
      if v = .u ∧ scullURefuses s.u cred = false then some cred else none := rfl
  by_cases htest : scullURefuses s.u cred = false
  · have hnew : update s (.scullUOpen p cred wronly) =
        { s with u := s.u.grab cred, procs := s.procs.set p (.granted ⟨.user, cred⟩ wronly) } :=
      if_neg (by simp [htest])
    rw [hnew]
    cases v with
    | u =>
        rw [founder_enters (ha.trans (if_pos ⟨rfl, htest⟩))]
        exact accounted_grab ho hx rfl (scullURefuses_eq_false.mp htest) rfl rfl rfl rfl
    | w =>
        rw [founder_stays (ha.trans (if_neg nofun))]
        exact accounted_move ho hx rfl rfl (share_of_ne nofun) rfl
  · have hnew : update s (.scullUOpen p cred wronly) =
        { s with procs := s.procs.set p (.returned (-EBUSY)) } := if_pos (by simpa using htest)
    rw [hnew, founder_stays (ha.trans (if_neg fun hc => htest hc.2))]
    exact accounted_move ho hx rfl rfl rfl (state_congr rfl rfl)

theorem accounted_step {a : AccAct} (ho : Accounted v s h) (hs : step s a = some s') :
    Accounted v s' (founder v s a h) := by
  rcases guarded_eq_some.mp hs with ⟨hg, rfl⟩
  cases a with
  | scullOpen p i cred wronly =>
      rcases idle_cases hg with ⟨ret, hx⟩
      refine accounted_move ho hx rfl rfl ?_ (state_congr rfl rfl)
      cases wronly with
      | true => rfl
      | false => exact share_of_ne (by cases v <;> nofun)
  | scullSOpen p cred wronly =>
      rcases idle_cases hg with ⟨ret, hx⟩
      refine accounted_move ho hx rfl rfl ?_ (state_congr rfl rfl)
      split
      · exact share_of_ne (by cases v <;> nofun)
      · rfl
  | scullSFail p => exact accounted_move ho hg rfl rfl rfl (state_congr rfl rfl)
  | scullUOpen p cred wronly =>
      rcases idle_cases hg with ⟨ret, hx⟩
      exact accounted_uOpen ho hx cred wronly
  | scullWOpen p cred wronly nonblock =>
      rcases idle_cases hg with ⟨ret, hx⟩
      refine accounted_round ho hx rfl ?_ rfl
      cases nonblock <;> rfl
  | scullWWake p cred wronly => exact accounted_move ho hg.1 rfl rfl rfl (state_congr rfl rfl)
  | scullWRetry p cred wronly => exact accounted_round ho hg rfl rfl rfl
  | scullCOpen p tty cred wronly served =>
      rcases idle_cases hg.1 with ⟨ret, hx⟩
      unfold update
      simp only
      split
      · exact accounted_move ho hx rfl rfl rfl (state_congr rfl rfl)
      · split
        · exact accounted_move ho hx rfl rfl (share_of_ne (by cases v <;> nofun))
            (state_congr rfl rfl)
        · split <;> exact accounted_move ho hx rfl rfl rfl (state_congr rfl rfl)
  | scullCCreated p key cred wronly =>
      exact accounted_move ho hg rfl rfl (share_of_ne (by cases v <;> nofun)) (state_congr rfl rfl)
  | lockTrim p i cred =>
      exact accounted_move ho hg.1 rfl rfl (share_of_ne (by cases v <;> nofun))
        (state_congr rfl rfl)
  | startTrim p file => exact accounted_move ho hg.1 rfl rfl rfl (state_congr rfl rfl)
  | endTrim p file => exact accounted_opened ho hg rfl rfl rfl (state_congr rfl rfl)
  | opened p file => exact accounted_opened ho hg rfl rfl rfl (state_congr rfl rfl)
  | enter p f file =>
      rcases idle_cases hg.1 with ⟨ret, hx⟩
      exact accounted_move ho hx rfl rfl rfl (state_congr rfl rfl)
  | lock p f file => exact accounted_move ho hg.1 rfl rfl rfl (state_congr rfl rfl)
  | unlock p f file ret => exact accounted_move ho hg rfl rfl rfl (state_congr rfl rfl)
  | interrupted p =>
      rcases interruptible_cases hg with ⟨x, hx, hint⟩
      refine accounted_move ho hx rfl rfl ?_ (state_congr rfl rfl)
      cases x with
      | locking i cred => rfl
      | sleeping cred wronly => rfl
      | calling f file => rfl
      | _ => cases hint
  | release f file => exact accounted_release ho hg.1

theorem accounted_init (v : PerUser) (n : ℕ) (h : Option Cred) : Accounted v (init n) h := by
  have hstate : v.state (init n) = ⟨0, 0⟩ := by cases v <;> rfl
  have hzero : outstandingOpens v.device (init n) = 0 := by
    unfold outstandingOpens
    simp [init, Point.grant, share, one]
  constructor
  · rw [hstate, hzero]
  · rw [hstate]
    intro hlt
    exact absurd hlt (lt_irrefl 0)
  · intro cred hcred
    exact absurd hcred (not_hasOpen hzero cred)

theorem grab_allowed {o : Owner} {cred : Cred} (htest : o.count = 0 ∨ Allowed o.owner cred) :
    Allowed (o.grab cred).owner cred := by
  by_cases hzero : o.count = 0
  · exact Or.inl (if_pos hzero)
  · have howner : (o.grab cred).owner = o.owner := if_neg hzero
    rw [howner]
    exact htest.resolve_left hzero

/-- Whoever is let in has the owner's uid or euid, or may override access control. -/
theorem entrant_allowed {a : AccAct} {cred : Cred} (hs : step s a = some s')
    (ha : entrant v s a = some cred) : Allowed (v.state s').owner cred := by
  rcases guarded_eq_some.mp hs with ⟨hg, rfl⟩
  cases a with
  | scullUOpen p c wronly =>
      simp only [entrant, Option.ite_none_right_eq_some, Option.some.injEq] at ha
      rcases ha with ⟨⟨rfl, htest⟩, rfl⟩
      simp only [update, PerUser.state, htest, Bool.false_eq_true, if_false]
      exact grab_allowed (scullURefuses_eq_false.mp htest)
  | scullWOpen p c wronly nonblock =>
      simp only [entrant, Option.ite_none_right_eq_some, Option.some.injEq] at ha
      rcases ha with ⟨⟨rfl, htest⟩, rfl⟩
      simp only [update, scullWRound, PerUser.state, htest, if_true]
      exact grab_allowed (scullWAvailable_eq_true.mp htest)
  | scullWRetry p c wronly =>
      simp only [entrant, Option.ite_none_right_eq_some, Option.some.injEq] at ha
      rcases ha with ⟨⟨rfl, htest⟩, rfl⟩
      simp only [update, scullWRound, PerUser.state, htest, if_true]
      exact grab_allowed (scullWAvailable_eq_true.mp htest)
  | _ => cases ha

/-- The only step that changes the owner is an open that finds the count zero. -/
theorem owner_stays {a : AccAct} (hs : step s a = some s') (hpos : (v.state s).count ≠ 0) :
    (v.state s').owner = (v.state s).owner := by
  rcases guarded_eq_some.mp hs with ⟨hg, rfl⟩
  have hgrab : ∀ {o : Owner} (cred : Cred), o.count ≠ 0 → (o.grab cred).owner = o.owner :=
    fun cred h => if_neg h
  cases a with
  | scullUOpen p cred wronly =>
      unfold update
      simp only
      split
      · cases v <;> rfl
      · cases v with
        | u => exact hgrab cred hpos
        | w => rfl
  | scullWOpen p cred wronly nonblock =>
      unfold update scullWRound
      simp only
      split
      · cases v with
        | u => rfl
        | w => exact hgrab cred hpos
      · cases v <;> rfl
  | scullWRetry p cred wronly =>
      unfold update scullWRound
      simp only
      split
      · cases v with
        | u => rfl
        | w => exact hgrab cred hpos
      · cases v <;> rfl
  | scullCOpen p tty cred wronly served =>
      unfold update
      simp only
      split
      · cases v <;> rfl
      · split
        · cases v <;> rfl
        · split <;> cases v <;> rfl
  | release f file =>
      cases v <;> simp only [update, PerUser.state] <;> split <;> rfl
  | _ => cases v <;> rfl

end Books

/-- The states right after the module has been loaded, with any number of processes. -/
def FoundedInit (c : AccSys × Option Cred) : Prop := ∃ n, c = (init n, none)

theorem accounted_reachable {v : PerUser} {s : AccSys} {h : Option Cred}
    (hr : Reachable (foundedStep v) FoundedInit (s, h)) : Accounted v s h := by
  have hstep : ∀ c a c', Accounted v c.1 c.2 → foundedStep v c a = some c' →
      Accounted v c'.1 c'.2 := by
    intro c a c' ho hs
    rcases recorded_eq_some.mp hs with ⟨hs, hnext⟩
    rw [hnext]
    exact accounted_step ho hs
  refine reachable_invariant ?_ hstep hr
  rintro _ ⟨n, rfl⟩
  exact accounted_init v n none

/-- In every reachable state, for both devices: the count is the number of outstanding
opens; while it is positive the owner is the uid of the opener that found it zero, and
no step changes the owner; whoever is let in is allowed by the owner at that moment, and
every outstanding open is by a process that the owner allows. -/
theorem owner_law {v : PerUser} {s : AccSys} {h : Option Cred}
    (hr : Reachable (foundedStep v) FoundedInit (s, h)) :
    (v.state s).count = outstandingOpens v.device s ∧
      (0 < (v.state s).count → (∃ cred, h = some cred ∧ (v.state s).owner = cred.uid) ∧
        ∀ a s', step s a = some s' → (v.state s').owner = (v.state s).owner) ∧
      (∀ a s' cred, step s a = some s' → entrant v s a = some cred →
        Allowed (v.state s').owner cred) ∧
      ∀ cred, HasOpen v.device s cred → Allowed (v.state s).owner cred := by
  have ho := accounted_reachable hr
  refine ⟨ho.count, ?_, fun a s' cred => entrant_allowed, ho.allowed⟩
  intro hpos
  exact ⟨ho.founded hpos, fun a s' hs => owner_stays hs (ne_of_gt hpos)⟩

def bob : Cred := ⟨2, 2, false⟩

def rootUser : Cred := ⟨0, 0, true⟩

/-- One user opens the blocking device, root opens it too; a second user sleeps, and is
woken when both have left. -/
def waiting : List AccAct :=
  [.scullWOpen 0 ⟨1, 1, false⟩ false false, .opened 0 ⟨.wuser, ⟨1, 1, false⟩⟩,
    .scullWOpen 1 rootUser false false, .opened 1 ⟨.wuser, rootUser⟩,
    .scullWOpen 2 bob false false, .release 0 ⟨.wuser, ⟨1, 1, false⟩⟩,
    .release 1 ⟨.wuser, rootUser⟩, .scullWWake 2 bob false, .scullWRetry 2 bob false]

theorem owner_law_waiting : ∃ s, run (foundedStep .w) (init 3, none) waiting = some (s, some bob) ∧
    s.w = ⟨1, 2⟩ ∧ (1 : ℤ) = outstandingOpens .wuser s ∧ Allowed 2 bob := by
  refine ⟨_, rfl, rfl, ?_⟩
  have hlaw := owner_law (v := .w) ⟨(init 3, none), waiting, ⟨3, rfl⟩, rfl⟩
  exact ⟨hlaw.1, hlaw.2.2.2 bob (Or.inl ⟨2, _, rfl, rfl⟩)⟩

end Access

end Scull
