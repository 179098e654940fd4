import DriversLab.Lib.Prog
import Mathlib.Logic.Function.Basic

/-!
# Lib.Serial — programs that interleave, and when that is a serial run

Programs run on one world, each on choices of its own; a schedule says who moves
next. A `Footprint` says which locations of the world an operation reads and
which it writes.

* `diamond`: neighbouring operations that are independent can be swapped;
* `hoist`: an operation moves behind a whole execution that is independent of it;
* `lead`: a program of which no operation follows a conflicting one of the others
  can run before them;
* `serial_of_ordered`: an interleaving whose conflicts all agree with one order
  of the programs has the outcome of the serial run in that order.
-/

namespace Interact

universe u v w

variable {Op : Type u} {Ans : Op → Type v} {α : Type w} {W C Loc V : Type*} {ι : Type*}

/-! ## Schedules -/

/-- What a schedule, or the log of it, has for the program `i`. -/
def ofSide [DecidableEq ι] {γ : Type*} (i : ι) (l : List (ι × γ)) : List γ :=
  l.filterMap fun x => if x.1 = i then some x.2 else none

/-- What it has for the other programs. -/
def without [DecidableEq ι] {γ : Type*} (i : ι) (l : List (ι × γ)) : List (ι × γ) :=
  l.filter fun x => x.1 ≠ i

section OfSide

variable [DecidableEq ι] {γ : Type*} {i j : ι} {c : γ} {l : List (ι × γ)}

@[simp] theorem ofSide_nil : ofSide i ([] : List (ι × γ)) = [] := rfl

@[simp] theorem ofSide_same : ofSide i ((i, c) :: l) = c :: ofSide i l := by
  simp [ofSide]

theorem ofSide_ne (hne : j ≠ i) : ofSide i ((j, c) :: l) = ofSide i l := by
  simp [ofSide, hne]

@[simp] theorem without_nil : without i ([] : List (ι × γ)) = [] := rfl

@[simp] theorem without_same : without i ((i, c) :: l) = without i l := by
  simp [without]

theorem without_ne (hne : j ≠ i) : without i ((j, c) :: l) = (j, c) :: without i l := by
  simp [without, hne]

theorem ofSide_without (hne : j ≠ i) : ofSide j (without i l) = ofSide j l := by
  induction l with
  | nil => rfl
  | cons x l ih =>
      rcases x with ⟨k, c⟩
      by_cases hk : k = i
      · rw [hk, without_same, ih, ofSide_ne hne.symm]
      · rw [without_ne hk]
        by_cases hkj : k = j
        · rw [hkj, ofSide_same, ofSide_same, ih]
        · rw [ofSide_ne hkj, ofSide_ne hkj, ih]

theorem mem_ofSide : c ∈ ofSide i l ↔ (i, c) ∈ l := by
  simp [ofSide]

theorem mem_without {x : ι × γ} : x ∈ without i l ↔ x ∈ l ∧ x.1 ≠ i := by
  simp [without]

end OfSide

/-- Run programs on a schedule that names the program that moves next and the
choice for its operation: what is left of each, the world, and the log. -/
def interleave [DecidableEq ι] (h : Handler Ans W C) : (ι → Prog Ans α) → W → List (ι × C) →
    Option ((ι → Prog Ans α) × W × List (ι × Entry Op W C))
  | ps, w, [] => some (ps, w, [])
  | ps, w, (i, c) :: cs =>
      match ps i with
      | .ret _ => none
      | .call o k =>
          (h w o c).bind fun a =>
            (interleave h (Function.update ps i (k a.1)) a.2 cs).map fun e =>
              (e.1, e.2.1, (i, ⟨w, o, c⟩) :: e.2.2)

/-- The programs run one after the other, each with its part of the schedule. -/
def SerialRun [DecidableEq ι] (h : Handler Ans W C) (ps : ι → Prog Ans α) (sched : List (ι × C))
    (as : ι → α) : List ι → W → W → Prop
  | [], w, w' => w' = w
  | i :: is, w, w' => ∃ m l, exec h (ps i) w (ofSide i sched) = some (as i, m, l) ∧
      SerialRun h ps sched as is m w'

section Interleave

variable [DecidableEq ι] {h : Handler Ans W C} {ps ps' : ι → Prog Ans α} {w w' : W}
  {cs : List (ι × C)} {log : List (ι × Entry Op W C)}

theorem interleave_nil :
    interleave h ps w [] = some (ps', w', log) ↔ ps' = ps ∧ w' = w ∧ log = [] := by
  simp [interleave, eq_comm]

theorem interleave_cons {i : ι} {c : C} :
    interleave h ps w ((i, c) :: cs) = some (ps', w', log) ↔
      ∃ o k r m l, ps i = .call o k ∧ h w o c = some (r, m) ∧
        interleave h (Function.update ps i (k r)) m cs = some (ps', w', l) ∧
        log = (i, ⟨w, o, c⟩) :: l := by
  simp only [interleave]
  cases hp : ps i with
  | ret a => simp
  | call o k =>
      simp only [Option.bind_eq_some_iff, Option.map_eq_some_iff, Prod.exists, Prod.mk.injEq]
      constructor
      · rintro ⟨r, m, hh, ps₁, w₁, l, he, rfl, rfl, rfl⟩
        exact ⟨o, k, r, m, l, rfl, hh, he, rfl⟩
      · rintro ⟨o', k', r, m, l, heq, hh, he, rfl⟩
        cases heq
        exact ⟨r, m, hh, ps', w', l, he, rfl, rfl, rfl⟩

/-- A serial run of two programs. -/
theorem serialRun_pair {i j : ι} {as : ι → α} : SerialRun h ps cs as [i, j] w w' ↔
    ∃ m l l', exec h (ps i) w (ofSide i cs) = some (as i, m, l) ∧
      exec h (ps j) m (ofSide j cs) = some (as j, w', l') := by
  constructor
  · rintro ⟨m, l, hi, v, l', hj, rfl⟩
    exact ⟨m, l, l', hi, hj⟩
  · rintro ⟨m, l, l', hi, hj⟩
    exact ⟨m, l, hi, w', l', hj, rfl⟩

/-- A serial run depends on the programs in its order, and on their parts of
the schedule. -/
theorem serialRun_congr {qs : ι → Prog Ans α} {ds : List (ι × C)} {as : ι → α} {order : List ι}
    (hps : ∀ i ∈ order, qs i = ps i) (hcs : ∀ i ∈ order, ofSide i ds = ofSide i cs)
    (hrun : SerialRun h qs ds as order w w') : SerialRun h ps cs as order w w' := by
  induction order generalizing w with
  | nil => exact hrun
  | cons i order ih =>
      rcases hrun with ⟨m, l, he, hrest⟩
      rw [List.forall_mem_cons] at hps hcs
      rw [hps.1, hcs.1] at he
      exact ⟨m, l, he, ih hps.2 hcs.2 hrest⟩

end Interleave

/-! ## Footprints -/

/-- The locations that an operation reads and those it writes. -/
structure Marks (Loc : Type*) where
  reads : List Loc
  writes : List Loc

/-- Neither operation writes what the other one reads or writes. -/
def Marks.Indep (x y : Marks Loc) : Prop :=
  (∀ a ∈ x.writes, a ∉ y.reads ∧ a ∉ y.writes) ∧ ∀ a ∈ x.reads, a ∉ y.writes

instance [DecidableEq Loc] (x y : Marks Loc) : Decidable (x.Indep y) :=
  inferInstanceAs (Decidable (_ ∧ _))

/-- A world made of locations, and what each operation does with them. -/
structure Footprint (h : Handler Ans W C) (Loc V : Type*) where
  look : W → Loc → V
  marks : Entry Op W C → Marks Loc
  /-- The locations are the whole world. -/
  ext : ∀ {w w' : W}, (∀ x, look w x = look w' x) → w = w'
  frame : ∀ {w o c r w'}, h w o c = some (r, w') → ∀ x ∉ (marks ⟨w, o, c⟩).writes,
    look w' x = look w x
  /-- The answer, the marks and what is written depend on what is read. -/
  determined : ∀ {w w' v o c r}, h w o c = some (r, w') →
    (∀ x ∈ (marks ⟨w, o, c⟩).reads, look v x = look w x) →
    marks ⟨v, o, c⟩ = marks ⟨w, o, c⟩ ∧
      ∃ v', h v o c = some (r, v') ∧ ∀ x ∈ (marks ⟨w, o, c⟩).writes, look v' x = look w' x

namespace Footprint

variable {h : Handler Ans W C} (fp : Footprint h Loc V)

/-- Neighbouring operations that are independent can be swapped. -/
theorem diamond {w w₁ w₂ : W} {o o' : Op} {c c' : C} {r : Ans o} {r' : Ans o'}
    (hind : (fp.marks ⟨w, o, c⟩).Indep (fp.marks ⟨w₁, o', c'⟩)) (h₁ : h w o c = some (r, w₁))
    (h₂ : h w₁ o' c' = some (r', w₂)) :
    ∃ v, h w o' c' = some (r', v) ∧ h v o c = some (r, w₂) ∧
      fp.marks ⟨w, o', c'⟩ = fp.marks ⟨w₁, o', c'⟩ ∧ fp.marks ⟨v, o, c⟩ = fp.marks ⟨w, o, c⟩ := by
  have hframe₁ := fp.frame h₁
  have hframe₂ := fp.frame h₂
  obtain ⟨hmarks', v, hv, hwritten'⟩ := fp.determined (v := w) h₂ fun x hx =>
    (hframe₁ x fun hmem => (hind.1 x hmem).1 hx).symm
  have hframe' := fp.frame hv
  rw [hmarks'] at hframe'
  obtain ⟨hmarks, v', hv', hwritten⟩ := fp.determined (v := v) h₁ fun x hx =>
    hframe' x (hind.2 x hx)
  have hframe := fp.frame hv'
  rw [hmarks] at hframe
  have hsame : v' = w₂ := by
    refine fp.ext ?_
    intro x
    by_cases hx : x ∈ (fp.marks ⟨w, o, c⟩).writes
    · rw [hwritten x hx, hframe₂ x (hind.1 x hx).2]
    · rw [hframe x hx]
      by_cases hx' : x ∈ (fp.marks ⟨w₁, o', c'⟩).writes
      · exact hwritten' x hx'
      · rw [hframe' x hx', hframe₂ x hx', hframe₁ x hx]
  subst hsame
  exact ⟨v, hv, hv', hmarks', hmarks⟩

/-- An operation moves behind a whole execution that is independent of it. -/
theorem hoist {p : Prog Ans α} {w w₁ w₂ : W} {o : Op} {c : C} {r : Ans o} {cs : List C} {a : α}
    {l : List (Entry Op W C)} (h₁ : h w o c = some (r, w₁))
    (he : exec h p w₁ cs = some (a, w₂, l))
    (hind : ∀ x ∈ l.map fp.marks, (fp.marks ⟨w, o, c⟩).Indep x) :
    ∃ v l', exec h p w cs = some (a, v, l') ∧ h v o c = some (r, w₂) ∧
      fp.marks ⟨v, o, c⟩ = fp.marks ⟨w, o, c⟩ ∧ l'.map fp.marks = l.map fp.marks := by
  induction p generalizing w w₁ cs l with
  | ret b =>
      rcases exec_ret.mp he with ⟨rfl, rfl, rfl, rfl⟩
      exact ⟨w, [], exec_ret.mpr ⟨rfl, rfl, rfl, rfl⟩, h₁, rfl, rfl⟩
  | call o' k ih =>
      rcases exec_call.mp he with ⟨c', cs', r', m, l₁, rfl, hstep, he', rfl⟩
      rw [List.map_cons, List.forall_mem_cons] at hind
      rcases fp.diamond hind.1 h₁ hstep with ⟨v, hv, hback, hmarks', hmarks⟩
      obtain ⟨v', l', hrun, hlast, hsame, htrace⟩ :=
        ih r' hback he' (by rw [hmarks]; exact hind.2)
      refine ⟨v', ⟨w, o', c'⟩ :: l', ?_, hlast, hsame.trans hmarks, ?_⟩
      · exact exec_call.mpr ⟨c', cs', r', v, l', rfl, hv, hrun, rfl⟩
      · rw [List.map_cons, List.map_cons, hmarks', htrace]

/-! ## Serial outcomes -/

/-- The log with the marks of each operation. -/
def trace (log : List (ι × Entry Op W C)) : List (ι × Marks Loc) :=
  log.map fun x => (x.1, fp.marks x.2)

end Footprint

/-- No operation of `i` follows one of another program that it conflicts with. -/
def Leads (i : ι) (t : List (ι × Marks Loc)) : Prop :=
  t.Pairwise fun x y => x.1 ≠ i → y.1 = i → x.2.Indep y.2

instance [DecidableEq ι] [DecidableEq Loc] (i : ι) (t : List (ι × Marks Loc)) :
    Decidable (Leads i t) :=
  inferInstanceAs (Decidable (t.Pairwise fun x y => x.1 ≠ i → y.1 = i → x.2.Indep y.2))

/-- All conflicts agree with the order. -/
def Ordered [DecidableEq ι] : List ι → List (ι × Marks Loc) → Prop
  | [], _ => True
  | i :: is, t => Leads i t ∧ Ordered is (without i t)

namespace Footprint

variable [DecidableEq ι] {h : Handler Ans W C} (fp : Footprint h Loc V)

/-- A program of which no operation follows a conflicting one of the others can
run before them. -/
theorem lead {i : ι} {ps ps' : ι → Prog Ans α} {w w' : W} {sched : List (ι × C)} {a : α}
    {log : List (ι × Entry Op W C)} (hrun : interleave h ps w sched = some (ps', w', log))
    (hret : ps' i = .ret a) (hlead : Leads i (fp.trace log)) :
    ∃ m l log', exec h (ps i) w (ofSide i sched) = some (a, m, l) ∧
      l.map fp.marks = ofSide i (fp.trace log) ∧
      interleave h (Function.update ps i (.ret a)) m (without i sched) = some (ps', w', log') ∧
      fp.trace log' = without i (fp.trace log) := by
  induction sched generalizing ps w log with
  | nil =>
      rcases interleave_nil.mp hrun with ⟨rfl, rfl, rfl⟩
      refine ⟨w', [], [], ?_, rfl, ?_, rfl⟩
      · rw [hret, ofSide_nil]
        exact exec_ret.mpr ⟨rfl, rfl, rfl, rfl⟩
      · rw [← hret, Function.update_eq_self]
        rfl
  | cons x sched ih =>
      rcases x with ⟨j, c⟩
      rcases interleave_cons.mp hrun with ⟨o, k, r, m, l, hj, hstep, hrest, rfl⟩
      have htrace : fp.trace ((j, ⟨w, o, c⟩) :: l) = (j, fp.marks ⟨w, o, c⟩) :: fp.trace l := rfl
      rw [htrace] at hlead ⊢
      rcases List.pairwise_cons.mp hlead with ⟨hhead, htail⟩
      rcases ih hrest htail with ⟨m₁, l₁, log', hexec, hmarks, hothers, hlog⟩
      by_cases hij : j = i
      · -- the program moves itself
        subst hij
        rw [Function.update_self] at hexec
        rw [Function.update_idem] at hothers
        refine ⟨m₁, ⟨w, o, c⟩ :: l₁, log', ?_, ?_, ?_, ?_⟩
        · rw [hj, ofSide_same]
          exact exec_call.mpr ⟨c, _, r, m, l₁, rfl, hstep, hexec, rfl⟩
        · rw [List.map_cons, hmarks, ofSide_same]
        · rw [without_same]
          exact hothers
        · rw [hlog, without_same]
      · -- another one does: its operation moves behind the whole execution
        rw [Function.update_of_ne (Ne.symm hij)] at hexec
        have hind : ∀ y ∈ l₁.map fp.marks, (fp.marks ⟨w, o, c⟩).Indep y := by
          intro y hy
          rw [hmarks] at hy
          exact hhead (i, y) (mem_ofSide.mp hy) hij rfl
        rcases fp.hoist hstep hexec hind with ⟨v, l', hexec', hback, hsame, hl'⟩
        refine ⟨v, l', (j, ⟨v, o, c⟩) :: log', ?_, ?_, ?_, ?_⟩
        · rw [ofSide_ne hij]
          exact hexec'
        · rw [hl', hmarks, ofSide_ne hij]
        · rw [without_ne hij]
          refine interleave_cons.mpr ⟨o, k, r, m₁, log', ?_, hback, ?_, rfl⟩
          · rw [Function.update_of_ne hij, hj]
          · rw [Function.update_comm (Ne.symm hij)]
            exact hothers
        · rw [without_ne hij, ← hlog, ← hsame]
          rfl

/-- An interleaving whose conflicts all agree with one order of the programs has
the outcome of the serial run in that order. -/
theorem serial_of_ordered {order : List ι} {ps ps' : ι → Prog Ans α} {w w' : W}
    {sched : List (ι × C)} {log : List (ι × Entry Op W C)} {as : ι → α}
    (hrun : interleave h ps w sched = some (ps', w', log)) (hret : ∀ i, ps' i = .ret (as i))
    (hall : ∀ x ∈ sched, x.1 ∈ order) (hnodup : order.Nodup)
    (hord : Ordered order (fp.trace log)) : SerialRun h ps sched as order w w' := by
  induction order generalizing ps w sched log with
  | nil =>
      cases sched with
      | nil => exact (interleave_nil.mp hrun).2.1
      | cons x sched => exact absurd (hall x List.mem_cons_self) List.not_mem_nil
  | cons i order ih =>
      rcases List.nodup_cons.mp hnodup with ⟨hi, hnodup⟩
      rcases fp.lead hrun (hret i) hord.1 with ⟨m, l, log', hexec, -, hothers, hlog⟩
      have hne : ∀ j ∈ order, j ≠ i := by
        rintro j hj rfl
        exact hi hj
      have hothersAll : ∀ x ∈ without i sched, x.1 ∈ order := by
        intro x hx
        rcases mem_without.mp hx with ⟨hmem, hxi⟩
        exact (List.mem_cons.mp (hall x hmem)).resolve_left hxi
      have hrest := ih hothers hothersAll hnodup (hlog ▸ hord.2)
      refine ⟨m, l, hexec, serialRun_congr ?_ ?_ hrest⟩
      · intro j hj
        exact Function.update_of_ne (hne j hj) _ _
      · intro j hj
        exact ofSide_without (hne j hj)

end Footprint

end Interact
