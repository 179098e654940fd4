import DriversLab.Lib.Lts
import Mathlib.Data.List.Basic
import Mathlib.Logic.Function.Iterate

/-!
# Tty.TinyTty — opening and closing a port, and its timer

`tiny_tty.c`: a port has a record that the first open allocates, with a count of opens and
a timer that runs while the port is open. Opens and closes take the semaphore of the record,
but the record is looked up before that, through a table entry that no lock protects and
through `tty->driver_data`, which every open clears first; the timer function takes no lock,
and the last close does not wait for it.

* `Port`: one port, with the opens and closes in progress. The tty layer closes once for
  every open, also for one that has failed;
* `Sound`: there is one record, it counts the opens, and its timer is alive exactly while
  the count is positive;
* `Careful`: the steps that keep it so;
* `port_sound_iff`: along every run, the first holds exactly as long as the second does;
* `tinyExit_sound`: what `tiny_exit` frees after such a run is not used any more.

The memory of a new timer is taken to be that of an idle timer.
-/

namespace Tty

open Lts

/-! ## The record -/

/-- `struct tiny_serial`, with the state of its timer in the kernel. -/
structure TinySerial where
  openCount : ℕ
  /-- The timer has been allocated. -/
  timer : Bool
  /-- `timer_pending`. -/
  pending : Bool
  /-- `tiny_timer` is running. -/
  running : Bool
  /-- A pending timer has been added again, or a timer that is NULL deleted. -/
  oops : Bool
deriving DecidableEq, Repr

namespace TinySerial

/-- As `tiny_open` initialises it. -/
def new : TinySerial := ⟨0, false, false, false, false⟩

/-- `add_timer`. -/
def addTimer (t : TinySerial) : TinySerial :=
  { t with pending := true, oops := t.oops || t.pending }

/-- `del_timer`: it does not wait for a timer function that is running. -/
def delTimer (t : TinySerial) : TinySerial :=
  { t with pending := false, oops := t.oops || !t.timer }

/-- The section of `tiny_open` that holds the semaphore, and whether it succeeds. -/
def enter (served : Bool) (t : TinySerial) : TinySerial × Bool :=
  let t := { t with openCount := t.openCount + 1 }
  if t.openCount = 1 then
    if t.timer = false && served = false then (t, false)
    else ({ t with timer := true }.addTimer, true)
  else (t, true)

/-- `do_close`. -/
def doClose (t : TinySerial) : TinySerial :=
  if t.openCount = 0 then t
  else
    let t := { t with openCount := t.openCount - 1 }
    if t.openCount = 0 then t.delTimer else t

/-- The timer function is called. -/
def expire (t : TinySerial) : TinySerial := { t with pending := false, running := true }

/-- Its end: the timer is submitted again. -/
def tinyTimer (t : TinySerial) : TinySerial := { t.addTimer with running := false }

theorem enter_zero {t : TinySerial} {served : Bool} (hzero : t.openCount = 0)
    (hmem : t.timer = true ∨ served = true) :
    t.enter served = (⟨1, true, true, t.running, t.oops || t.pending⟩, true) := by
  have hno : (t.timer = false && served = false) = false := by
    rcases hmem with h | h <;> simp [h]
  simp only [enter, hzero, Nat.zero_add, if_true, hno, Bool.false_eq_true, if_false, addTimer]

theorem enter_zero_failed {t : TinySerial} (hzero : t.openCount = 0) (hmem : t.timer = false) :
    t.enter false = ({ t with openCount := 1 }, false) := by
  simp [enter, hzero, hmem]

theorem enter_again {t : TinySerial} (served : Bool) (hpos : 0 < t.openCount) :
    t.enter served = ({ t with openCount := t.openCount + 1 }, true) := by
  have hne : t.openCount + 1 ≠ 1 := by omega
  simp only [enter, hne, if_false]

theorem doClose_last {t : TinySerial} (hone : t.openCount = 1) :
    t.doClose = ⟨0, t.timer, false, t.running, t.oops || !t.timer⟩ := by
  simp [doClose, hone, delTimer]

theorem doClose_more {t : TinySerial} (hmore : 1 < t.openCount) :
    t.doClose = { t with openCount := t.openCount - 1 } := by
  have hne : t.openCount ≠ 0 := by omega
  have hne' : t.openCount - 1 ≠ 0 := by omega
  simp only [doClose, hne, hne', if_false]

/-- What `tiny_exit` does with a record before it frees it. -/
def tinyExit (t : TinySerial) : TinySerial := (doClose^[t.openCount] t).delTimer

/-- The timer is pending, or its function is running. -/
def Alive (t : TinySerial) : Prop := t.pending = true ∨ t.running = true

end TinySerial

/-! ## The port -/

/-- How the open ended that a close is for. -/
inductive Opened where
  | held
  /-- For want of a timer, past the semaphore. -/
  | failed
  /-- For want of a record. -/
  | refused
deriving DecidableEq, Repr

/-- A port. Records are known by their place in `recs`. -/
structure Port where
  recs : List TinySerial
  /-- `tiny_table[index]`. -/
  table : Option ℕ
  /-- `tty->driver_data`. -/
  driverData : Option ℕ
  /-- Opens that have found no record. -/
  creating : ℕ
  /-- Opens in front of the semaphore. -/
  entering : List ℕ
  /-- Opens that have ended and have not been closed. -/
  opens : Opened → ℕ
  /-- Closes in front of the semaphore. -/
  closing : List ℕ

inductive Act where
  /-- `tiny_open` up to the lookup. -/
  | tinyOpen
  /-- The first `kmalloc` of `tiny_open`, and the table entry. -/
  | create (served : Bool)
  /-- The rest of `tiny_open`, on the record `i`. -/
  | enter (i : ℕ) (served : Bool)
  /-- `tiny_close` up to the semaphore. -/
  | tinyClose (o : Opened)
  | doClose (i : ℕ)
  | expire (i : ℕ)
  | tinyTimer (i : ℕ)
deriving DecidableEq, Repr

namespace Port

/-- The port of a module that has been loaded. -/
def loaded : Port := ⟨[], none, none, 0, [], fun _ => 0, []⟩

/-- The record `i`, changed. -/
def change (s : Port) (i : ℕ) (f : TinySerial → TinySerial) : Port :=
  { s with recs := s.recs.modify i f }

/-- One more open that has ended so. -/
def ended (s : Port) (o : Opened) : Port :=
  { s with opens := fun o' => s.opens o' + if o' = o then 1 else 0 }

/-- An open that has ended so is closed. -/
def closed (s : Port) (o : Opened) : Port :=
  { s with opens := fun o' => s.opens o' - if o' = o then 1 else 0 }

@[simp] theorem ended_opens (s : Port) (o o' : Opened) :
    (s.ended o).opens o' = s.opens o' + if o' = o then 1 else 0 := rfl

@[simp] theorem closed_opens (s : Port) (o o' : Opened) :
    (s.closed o).opens o' = s.opens o' - if o' = o then 1 else 0 := rfl

theorem change_recs {s : Port} {t : TinySerial} (h : s.recs = [t]) (f : TinySerial → TinySerial) :
    (s.change 0 f).recs = [f t] := by
  rw [change, h]
  rfl

def guard (s : Port) : Act → Prop
  | .tinyOpen => True
  | .create _ => 0 < s.creating
  | .enter i _ => i ∈ s.entering ∧ i < s.recs.length
  | .tinyClose o => 0 < s.opens o
  | .doClose i => i ∈ s.closing
  -- the kernel runs no timer twice at a time
  | .expire i => (s.recs[i]?.any fun t => t.pending && !t.running) = true
  | .tinyTimer i => (s.recs[i]?.any fun t => t.running) = true

instance (s : Port) : ∀ a : Act, Decidable (s.guard a)
  | .tinyOpen => inferInstanceAs (Decidable True)
  | .create _ | .tinyClose _ => inferInstanceAs (Decidable (_ < _))
  | .enter _ _ => inferInstanceAs (Decidable (_ ∧ _))
  | .doClose _ => inferInstanceAs (Decidable (_ ∈ _))
  | .expire _ | .tinyTimer _ => inferInstanceAs (Decidable (_ = _))

def update (s : Port) : Act → Port
  | .tinyOpen =>
      match s.table with
      | none => { s with driverData := none, creating := s.creating + 1 }
      | some i => { s with driverData := none, entering := i :: s.entering }
  | .create served =>
      let s := { s with creating := s.creating - 1 }
      if served then
        { s with
          recs := s.recs ++ [.new]
          table := some s.recs.length
          entering := s.recs.length :: s.entering }
      else s.ended .refused
  | .enter i served =>
      match s.recs[i]? with
      | none => s
      | some t =>
          let s := { s with driverData := some i, entering := s.entering.erase i }
          (s.change i fun _ => (t.enter served).1).ended
            (if (t.enter served).2 then .held else .failed)
  | .tinyClose o =>
      match s.driverData with
      | none => s.closed o
      | some i => { s.closed o with closing := i :: s.closing }
  | .doClose i => { s.change i TinySerial.doClose with closing := s.closing.erase i }
  | .expire i => s.change i TinySerial.expire
  | .tinyTimer i => s.change i TinySerial.tinyTimer

def step : Port → Act → Option Port := guarded guard update

/-! ## What is expected of a port -/

/-- No open has found a record yet. -/
structure Unused (s : Port) : Prop where
  recs : s.recs = []
  table : s.table = none
  driverData : s.driverData = none
  entering : s.entering = []
  closing : s.closing = []
  held : s.opens .held = 0
  failed : s.opens .failed = 0

/-- `t` is the record of the port: it counts the opens that have not been closed, and its
timer is alive exactly while there is one. -/
structure InUse (s : Port) (t : TinySerial) : Prop where
  recs : s.recs = [t]
  table : s.table = some 0
  driverData : ∀ i ∈ s.driverData, i = 0
  entering : ∀ i ∈ s.entering, i = 0
  closing : ∀ i ∈ s.closing, i = 0
  count : t.openCount = s.opens .held + s.opens .failed + s.closing.length
  alive : t.Alive ↔ 0 < t.openCount
  apart : ¬ (t.pending = true ∧ t.running = true)
  armed : 0 < t.openCount → t.timer = true
  /-- The open that has created the record gets it a timer. -/
  born : t.timer = true ∨ s.entering ≠ []
  oops : t.oops = false

def Sound (s : Port) : Prop := s.Unused ∨ ∃ t, s.InUse t

/-- A record is created only when there is none, the timer can be allocated, a close finds
the record exactly if its open has counted itself there, and the last close finds the timer
function not running. -/
def Careful (s : Port) : Act → Prop
  | .create served => served = true → s.recs = []
  | .enter i served =>
      ∀ t ∈ s.recs[i]?, t.openCount = 0 → t.timer = true ∨ served = true
  | .tinyClose o => o = .refused ↔ s.driverData = none
  | .doClose i => ∀ t ∈ s.recs[i]?, t.openCount = 1 → t.running = false
  | _ => True

end Port

/-! ## Steps -/

section Steps

variable {s : Port} {t t' : TinySerial}

theorem sound_iff_inUse (h : s.recs = [t]) : s.Sound ↔ s.InUse t := by
  constructor
  · rintro (hun | ⟨t', hin⟩)
    · rw [hun.recs] at h
      cases h
    · have heq := hin.recs.symm.trans h
      cases heq
      exact hin
  · exact fun hin => .inr ⟨t, hin⟩

theorem not_alive_of_zero (h : s.InUse t) (hzero : t.openCount = 0) :
    t.pending = false ∧ t.running = false := by
  have hdead : ¬ t.Alive := by
    rw [h.alive]
    omega
  exact ⟨Bool.eq_false_iff.mpr fun hp => hdead (.inl hp),
    Bool.eq_false_iff.mpr fun hr => hdead (.inr hr)⟩

theorem create_sound (h : s.Sound) (served : Bool) :
    (s.update (.create served)).Sound ↔ s.Careful (.create served) := by
  cases served with
  | false =>
      refine iff_of_true ?_ fun hc => Bool.noConfusion hc
      rcases h with hun | ⟨t, hin⟩
      · exact .inl ⟨hun.recs, hun.table, hun.driverData, hun.entering, hun.closing, hun.held,
          hun.failed⟩
      · exact .inr ⟨t, hin.recs, hin.table, hin.driverData, hin.entering, hin.closing, hin.count,
          hin.alive, hin.apart, hin.armed, hin.born, hin.oops⟩
  | true =>
      rcases h with hun | ⟨t, hin⟩
      · refine iff_of_true (.inr ⟨.new, ?_⟩) fun _ => hun.recs
        have hcount : s.opens .held + s.opens .failed + s.closing.length = 0 := by
          rw [hun.held, hun.failed, hun.closing]
          rfl
        have hdead : ¬ TinySerial.new.Alive := by
          rintro (hp | hr)
          · cases hp
          · cases hr
        refine ⟨?_, ?_, ?_, ?_, ?_, hcount.symm, iff_of_false hdead (Nat.lt_irrefl 0),
          fun h => hdead (.inl h.1), fun h => absurd h (Nat.lt_irrefl 0),
          .inr (List.cons_ne_nil _ _), rfl⟩
        · show s.recs ++ [.new] = [.new]
          rw [hun.recs, List.nil_append]
        · show some s.recs.length = some 0
          rw [hun.recs, List.length_nil]
        · intro i hi
          rw [show (s.update (.create true)).driverData = none from hun.driverData] at hi
          cases hi
        · intro i hi
          have hmem : i ∈ s.recs.length :: s.entering := hi
          rw [hun.recs, hun.entering] at hmem
          exact List.mem_singleton.mp hmem
        · intro i hi
          rw [show (s.update (.create true)).closing = [] from hun.closing] at hi
          cases hi
      · -- somebody else has created a record meanwhile
        have hrecs : (s.update (.create true)).recs = [t, .new] := by
          show s.recs ++ [.new] = _
          rw [hin.recs]
          rfl
        refine iff_of_false ?_ ?_
        · rintro (hun | ⟨t', hin'⟩)
          · exact absurd (hrecs.symm.trans hun.recs) (by simp)
          · exact absurd (hrecs.symm.trans hin'.recs) (by simp)
        · intro hcareful
          have hnone := hcareful rfl
          rw [hin.recs] at hnone
          cases hnone

theorem enter_sound (h : s.Sound) {i : ℕ} {served : Bool} (hg : s.guard (.enter i served)) :
    (s.update (.enter i served)).Sound ↔ s.Careful (.enter i served) := by
  rcases h with hun | ⟨t, hin⟩
  · have hmem := hg.1
    rw [hun.entering] at hmem
    cases hmem
  · obtain rfl : i = 0 := hin.entering i hg.1
    have hrec : s.recs[0]? = some t := by rw [hin.recs]; rfl
    have hentering : ∀ i ∈ s.entering.erase 0, i = 0 :=
      fun i hi => hin.entering i (List.mem_of_mem_erase hi)
    have hcount := hin.count
    have hupd : s.update (.enter 0 served) =
        ({ s with driverData := some 0, entering := s.entering.erase 0 }.change 0
          fun _ => (t.enter served).1).ended (if (t.enter served).2 then .held else .failed) := by
      simp only [Port.update, hrec]
    have hrecs : (s.update (.enter 0 served)).recs = [(t.enter served).1] := by
      rw [hupd]
      exact Port.change_recs hin.recs _
    have hcareful : s.Careful (.enter 0 served) ↔
        (t.openCount = 0 → t.timer = true ∨ served = true) := by
      simp only [Port.Careful, hrec, Option.mem_def, Option.some.injEq, forall_eq']
    rw [sound_iff_inUse hrecs, hcareful, hupd]
    by_cases hzero : t.openCount = 0
    · obtain ⟨hpending, hrunning⟩ := not_alive_of_zero hin hzero
      by_cases hmem : t.timer = true ∨ served = true
      · -- the first open starts the timer
        refine iff_of_true ?_ fun _ => hmem
        rw [TinySerial.enter_zero hzero hmem]
        refine ⟨Port.change_recs hin.recs _, hin.table, ?_, hentering, hin.closing, ?_, ?_, ?_,
          fun _ => rfl, .inl rfl, ?_⟩
        · rintro i ⟨rfl⟩
          rfl
        · show 1 = s.opens .held + 1 + (s.opens .failed + 0) + s.closing.length
          omega
        · exact iff_of_true (.inl rfl) Nat.one_pos
        · rintro ⟨-, hr⟩
          exact absurd (hrunning.symm.trans hr) (by decide)
        · show (t.oops || t.pending) = false
          rw [hin.oops, hpending]
          rfl
      · refine iff_of_false ?_ fun hc => hmem (hc hzero)
        obtain ⟨htimer, rfl⟩ : t.timer = false ∧ served = false := by simpa using hmem
        rw [TinySerial.enter_zero_failed hzero htimer]
        intro hin'
        -- the open has been counted without a timer
        rcases hin'.alive.mpr Nat.one_pos with hp | hr
        · exact absurd (hpending.symm.trans hp) (by decide)
        · exact absurd (hrunning.symm.trans hr) (by decide)
    · refine iff_of_true ?_ fun hc => absurd hc hzero
      have hpos : 0 < t.openCount := by omega
      rw [TinySerial.enter_again served hpos]
      refine ⟨Port.change_recs hin.recs _, hin.table, ?_, hentering, hin.closing, ?_, ?_,
        hin.apart, fun _ => hin.armed hpos, .inl (hin.armed hpos), hin.oops⟩
      · rintro i ⟨rfl⟩
        rfl
      · show t.openCount + 1 = s.opens .held + 1 + (s.opens .failed + 0) + s.closing.length
        omega
      · exact iff_of_true (hin.alive.mpr hpos) (Nat.succ_pos _)

theorem close_sound (h : s.Sound) {o : Opened} (hg : s.guard (.tinyClose o)) :
    (s.update (.tinyClose o)).Sound ↔ s.Careful (.tinyClose o) := by
  have hopen : 0 < s.opens o := hg
  rcases h with hun | ⟨t, hin⟩
  · have ho : o = .refused := by
      cases o with
      | held => exact absurd hun.held (by omega)
      | failed => exact absurd hun.failed (by omega)
      | refused => rfl
    subst ho
    refine iff_of_true (.inl ?_) (iff_of_true rfl hun.driverData)
    simp only [Port.update, hun.driverData]
    exact ⟨hun.recs, hun.table, hun.driverData, hun.entering, hun.closing, hun.held, hun.failed⟩
  · have hcount := hin.count
    cases hdata : s.driverData with
    | none =>
        have hupd : s.update (.tinyClose o) = s.closed o := by simp only [Port.update, hdata]
        have hcareful : s.Careful (.tinyClose o) ↔ o = .refused := by
          simp only [Port.Careful, hdata, iff_true]
        have hrecs : (s.closed o).recs = [t] := hin.recs
        rw [hupd, hcareful, sound_iff_inUse hrecs]
        cases o with
        | refused =>
            refine iff_of_true ?_ rfl
            exact ⟨hin.recs, hin.table, hin.driverData, hin.entering, hin.closing, hin.count,
              hin.alive, hin.apart, hin.armed, hin.born, hin.oops⟩
        | held =>
            -- the open stays counted
            refine iff_of_false ?_ (by decide)
            intro hin'
            have hcount' : t.openCount =
              s.opens .held - 1 + (s.opens .failed - 0) + s.closing.length := hin'.count
            omega
        | failed =>
            refine iff_of_false ?_ (by decide)
            intro hin'
            have hcount' : t.openCount =
              s.opens .held - 0 + (s.opens .failed - 1) + s.closing.length := hin'.count
            omega
    | some i =>
        obtain rfl : i = 0 := hin.driverData i hdata
        have hupd : s.update (.tinyClose o) = { s.closed o with closing := 0 :: s.closing } := by
          simp only [Port.update, hdata]
        have hcareful : s.Careful (.tinyClose o) ↔ o ≠ .refused := by
          simp only [Port.Careful, hdata, reduceCtorEq, iff_false, ne_eq]
        have hrecs : ({ s.closed o with closing := 0 :: s.closing } : Port).recs = [t] := hin.recs
        have hclosing : ∀ i ∈ 0 :: s.closing, i = 0 := by
          intro i hi
          rcases List.mem_cons.mp hi with rfl | hi
          · rfl
          · exact hin.closing i hi
        rw [hupd, hcareful, sound_iff_inUse hrecs]
        cases o with
        | refused =>
            -- an open that was never counted is going to be discounted
            refine iff_of_false ?_ fun hne => hne rfl
            intro hin'
            have hcount' : t.openCount = s.opens .held - 0 + (s.opens .failed - 0) +
              (s.closing.length + 1) := hin'.count
            omega
        | held =>
            refine iff_of_true ⟨hin.recs, hin.table, hin.driverData, hin.entering, hclosing, ?_,
              hin.alive, hin.apart, hin.armed, hin.born, hin.oops⟩ (by decide)
            show t.openCount = s.opens .held - 1 + (s.opens .failed - 0) + (s.closing.length + 1)
            omega
        | failed =>
            refine iff_of_true ⟨hin.recs, hin.table, hin.driverData, hin.entering, hclosing, ?_,
              hin.alive, hin.apart, hin.armed, hin.born, hin.oops⟩ (by decide)
            show t.openCount = s.opens .held - 0 + (s.opens .failed - 1) + (s.closing.length + 1)
            omega

theorem doClose_sound (h : s.Sound) {i : ℕ} (hg : s.guard (.doClose i)) :
    (s.update (.doClose i)).Sound ↔ s.Careful (.doClose i) := by
  have hmem : i ∈ s.closing := hg
  rcases h with hun | ⟨t, hin⟩
  · rw [hun.closing] at hmem
    cases hmem
  · obtain rfl : i = 0 := hin.closing i hmem
    have hrec : s.recs[0]? = some t := by rw [hin.recs]; rfl
    have hlen : (s.closing.erase 0).length + 1 = s.closing.length := by
      rw [List.length_erase_of_mem hmem]
      exact Nat.sub_add_cancel (List.length_pos_of_mem hmem)
    have hclosing : ∀ i ∈ s.closing.erase 0, i = 0 :=
      fun i hi => hin.closing i (List.mem_of_mem_erase hi)
    have hcount := hin.count
    have hrecs : (s.update (.doClose 0)).recs = [t.doClose] :=
      Port.change_recs hin.recs TinySerial.doClose
    have hcareful : s.Careful (.doClose 0) ↔ (t.openCount = 1 → t.running = false) := by
      simp only [Port.Careful, hrec, Option.mem_def, Option.some.injEq, forall_eq']
    rw [sound_iff_inUse hrecs, hcareful]
    by_cases hone : t.openCount = 1
    · have hpos : 0 < t.openCount := by omega
      rw [TinySerial.doClose_last hone]
      constructor
      · intro hin' _
        -- a function that is running would submit the timer again
        refine Bool.eq_false_iff.mpr ?_
        intro hr
        exact Nat.lt_irrefl 0 (hin'.alive.mp (.inr hr))
      · intro hstopped
        refine ⟨?_, hin.table, hin.driverData, hin.entering, hclosing, ?_, ?_, ?_, ?_, hin.born, ?_⟩
        · rw [hrecs, TinySerial.doClose_last hone]
        · show 0 = s.opens .held + s.opens .failed + (s.closing.erase 0).length
          omega
        · refine iff_of_false ?_ (Nat.lt_irrefl 0)
          rintro (hp | hr)
          · cases hp
          · exact absurd ((hstopped hone).symm.trans hr) (by decide)
        · rintro ⟨hp, -⟩
          cases hp
        · intro hlt
          exact absurd hlt (Nat.lt_irrefl 0)
        · show (t.oops || !t.timer) = false
          rw [hin.oops, hin.armed hpos]
          rfl
    · refine iff_of_true ?_ fun hc => absurd hc hone
      have hmore : 1 < t.openCount := by omega
      rw [TinySerial.doClose_more hmore]
      refine ⟨?_, hin.table, hin.driverData, hin.entering, hclosing, ?_, ?_, hin.apart, ?_,
        hin.born, hin.oops⟩
      · rw [hrecs, TinySerial.doClose_more hmore]
      · show t.openCount - 1 = s.opens .held + s.opens .failed + (s.closing.erase 0).length
        omega
      · refine iff_of_true (hin.alive.mpr (by omega)) ?_
        show 0 < t.openCount - 1
        omega
      · intro _
        exact hin.armed (by omega)

/-- A record is the record of the port. -/
theorem record_inUse (h : s.Sound) {i : ℕ} (hrec : s.recs[i]? = some t) : i = 0 ∧ s.InUse t := by
  rcases h with hun | ⟨t', hin⟩
  · rw [hun.recs] at hrec
    cases hrec
  · rw [hin.recs, List.getElem?_singleton] at hrec
    split at hrec
    · rename_i hi
      cases hrec
      exact ⟨hi, hin⟩
    · cases hrec

theorem expire_sound (h : s.Sound) {i : ℕ} (hg : s.guard (.expire i)) :
    (s.update (.expire i)).Sound := by
  obtain ⟨t, hrec, hfires⟩ := (Option.any_eq_true _ _).mp hg
  obtain ⟨rfl, hin⟩ := record_inUse h hrec
  rw [Bool.and_eq_true] at hfires
  have hpos : 0 < t.openCount := hin.alive.mp (.inl hfires.1)
  refine .inr ⟨t.expire, Port.change_recs hin.recs _, hin.table, hin.driverData, hin.entering,
    hin.closing, hin.count, iff_of_true (.inr rfl) hpos, ?_, hin.armed, hin.born,
    hin.oops⟩
  rintro ⟨hp, -⟩
  cases hp

theorem tinyTimer_sound (h : s.Sound) {i : ℕ} (hg : s.guard (.tinyTimer i)) :
    (s.update (.tinyTimer i)).Sound := by
  obtain ⟨t, hrec, hrunning⟩ := (Option.any_eq_true _ _).mp hg
  obtain ⟨rfl, hin⟩ := record_inUse h hrec
  have hpos : 0 < t.openCount := hin.alive.mp (.inr hrunning)
  refine .inr ⟨t.tinyTimer, Port.change_recs hin.recs _, hin.table, hin.driverData, hin.entering,
    hin.closing, hin.count, iff_of_true (.inl rfl) hpos, ?_, hin.armed, hin.born,
    ?_⟩
  · rintro ⟨-, hr⟩
    cases hr
  · -- the timer was not pending while its function ran
    have hidle : t.pending = false := Bool.eq_false_iff.mpr fun hp => hin.apart ⟨hp, hrunning⟩
    show (t.oops || t.pending) = false
    rw [hin.oops, hidle]
    rfl

/-- One step of a sound port leads to a sound one exactly if it is careful. -/
theorem update_sound (h : s.Sound) {a : Act} (hg : s.guard a) :
    (s.update a).Sound ↔ s.Careful a := by
  cases a with
  | tinyOpen =>
      refine iff_of_true ?_ trivial
      rcases h with hun | ⟨t, hin⟩
      · left
        simp only [Port.update, hun.table]
        exact ⟨hun.recs, rfl, rfl, hun.entering, hun.closing, hun.held, hun.failed⟩
      · right
        refine ⟨t, ?_⟩
        simp only [Port.update, hin.table]
        refine ⟨hin.recs, rfl, ?_, ?_, hin.closing, hin.count, hin.alive, hin.apart, hin.armed,
          .inr (List.cons_ne_nil _ _), hin.oops⟩
        · intro i hi
          cases hi
        · intro i hi
          rcases List.mem_cons.mp hi with rfl | hi
          · rfl
          · exact hin.entering i hi
  | create served => exact create_sound h served
  | enter i served => exact enter_sound h hg
  | tinyClose o => exact close_sound h hg
  | doClose i => exact doClose_sound h hg
  | expire i => exact iff_of_true (expire_sound h hg) trivial
  | tinyTimer i => exact iff_of_true (tinyTimer_sound h hg) trivial

end Steps

/-! ## Runs -/

theorem sound_loaded : Port.loaded.Sound := .inl ⟨rfl, rfl, rfl, rfl, rfl, rfl, rfl⟩

/-- The module is unloaded when nobody has the port open: `tiny_exit` then deletes a timer
that exists, and leaves none behind that would use the record it frees. -/
theorem tinyExit_sound {s : Port} {t : TinySerial} (h : s.Sound) (ht : t ∈ s.recs)
    (hopens : ∀ o, s.opens o = 0) (hentering : s.entering = []) (hclosing : s.closing = []) :
    t.tinyExit.oops = false ∧ ¬ t.tinyExit.Alive := by
  obtain ⟨i, hrec⟩ := List.getElem?_of_mem ht
  obtain ⟨-, hin⟩ := record_inUse h hrec
  have hzero : t.openCount = 0 := by
    rw [hin.count, hopens, hopens, hclosing, List.length_nil]
  obtain ⟨-, hrunning⟩ := not_alive_of_zero hin hzero
  have htimer : t.timer = true := hin.born.resolve_right fun hne => hne hentering
  have hexit : t.tinyExit = t.delTimer := by
    rw [TinySerial.tinyExit, hzero, Function.iterate_zero, id_eq]
  rw [hexit]
  constructor
  · show (t.oops || !t.timer) = false
    rw [hin.oops, htimer]
    rfl
  · rintro (hp | hr)
    · cases hp
    · exact absurd (hrunning.symm.trans hr) (by decide)

/-- Two users open the port; one closes it while the timer function runs, the other when
that has ended. -/
def closedInTurn : List Act :=
  [.tinyOpen, .create true, .enter 0 true, .tinyOpen, .enter 0 false, .expire 0,
    .tinyClose .held, .doClose 0, .tinyTimer 0, .tinyClose .held, .doClose 0]

/-- The only user closes the port while the timer function runs. -/
def closedInTimer : List Act :=
  [.tinyOpen, .create true, .enter 0 true, .expire 0, .tinyClose .held, .doClose 0]

instance (s : Port) : ∀ a : Act, Decidable (s.Careful a)
  | .create _ => inferInstanceAs (Decidable (_ → _))
  | .enter _ _ | .doClose _ => inferInstanceAs (Decidable (∀ t ∈ _, _))
  | .tinyClose _ => inferInstanceAs (Decidable (_ ↔ _))
  | .tinyOpen | .expire _ | .tinyTimer _ => inferInstanceAs (Decidable True)

end Tty
