import Mathlib.Tactic.Common
import Mathlib.Data.List.Basic

/-!
# Lib.Lts — runs of a guarded step function

A system is a partial step function `σ → α → Option σ`: `none` says that the
action is not enabled. This file has the runs over lists of actions and the
rules that every invariant of the development goes through:

* `run_invariant`: a state predicate that every step keeps holds after a run;
* `run_invariant_along`: the same for a run whose steps all meet a side
  condition, spelled `Along`;
* `along_iff`: two step conditions that agree under an invariant agree along
  every run;
* `along_keeps_iff`: the steps that keep the invariant, described by a condition.
-/

namespace Lts

universe u v

variable {σ : Type u} {α : Type v} (step : σ → α → Option σ)

/-- Perform the actions in order; `none` as soon as one is not enabled. -/
def run : σ → List α → Option σ
  | s, [] => some s
  | s, a :: as => (step s a).bind fun s' => run s' as

/-- Every step of the run from `s`, as far as it gets, meets `P`. -/
def Along (P : σ → α → Prop) : σ → List α → Prop
  | _, [] => True
  | s, a :: as => P s a ∧ ∀ s', step s a = some s' → Along P s' as

/-- A condition that can be decided step by step can be decided along a run. -/
instance decidableAlong {P : σ → α → Prop} [∀ s a, Decidable (P s a)] :
    ∀ s as, Decidable (Along step P s as)
  | _, [] => inferInstanceAs (Decidable True)
  | s, a :: as =>
      match h : step s a with
      | some s' =>
          let _ : Decidable (Along step P s' as) := decidableAlong s' as
          decidable_of_iff (P s a ∧ Along step P s' as) (by simp [Along, h])
      | none => decidable_of_iff (P s a) (by simp [Along, h])

/-- Reachable from a state of `init` by some run. -/
def Reachable (init : σ → Prop) (s : σ) : Prop :=
  ∃ s₀ as, init s₀ ∧ run step s₀ as = some s

/-- The step function of a system that is given by when an action is enabled and
by what it does then. -/
def guarded (guard : σ → α → Prop) [∀ s a, Decidable (guard s a)] (update : σ → α → σ)
    (s : σ) (a : α) : Option σ :=
  if guard s a then some (update s a) else none

theorem guarded_eq_some {guard : σ → α → Prop} [∀ s a, Decidable (guard s a)]
    {update : σ → α → σ} {s s' : σ} {a : α} :
    guarded guard update s a = some s' ↔ guard s a ∧ s' = update s a := by
  unfold guarded
  split
  · rename_i hg
    simp only [Option.some.injEq, hg, true_and, eq_comm]
  · rename_i hg
    simp [hg]

/-- The system with a history: `next` says what an action adds to it. The history is
read by statements only, no action depends on it. -/
def recorded {η : Type*} (next : σ → α → η → η) (c : σ × η) (a : α) : Option (σ × η) :=
  (step c.1 a).map fun s' => (s', next c.1 a c.2)

variable {step}

theorem recorded_eq_some {η : Type*} {next : σ → α → η → η} {c c' : σ × η} {a : α} :
    recorded step next c a = some c' ↔ step c.1 a = some c'.1 ∧ c'.2 = next c.1 a c.2 := by
  unfold recorded
  rw [Option.map_eq_some_iff]
  constructor
  · rintro ⟨s', hs, rfl⟩
    exact ⟨hs, rfl⟩
  · rintro ⟨hs, hnext⟩
    exact ⟨c'.1, hs, by rw [← hnext]⟩

@[simp] theorem run_nil (s : σ) : run step s [] = some s := rfl

theorem run_cons {s s' : σ} {a : α} {as : List α} :
    run step s (a :: as) = some s' ↔ ∃ m, step s a = some m ∧ run step m as = some s' := by
  simp only [run, Option.bind_eq_some_iff]

theorem run_append {s s' : σ} {as bs : List α} :
    run step s (as ++ bs) = some s' ↔ ∃ m, run step s as = some m ∧ run step m bs = some s' := by
  induction as generalizing s with
  | nil => simp
  | cons a as ih =>
      simp only [List.cons_append, run_cons, ih]
      constructor
      · rintro ⟨m, hm, k, hk, hs⟩
        exact ⟨k, ⟨m, hm, hk⟩, hs⟩
      · rintro ⟨k, ⟨m, hm, hk⟩, hs⟩
        exact ⟨m, hm, k, hk, hs⟩

theorem run_singleton {s s' : σ} {a : α} : run step s [a] = some s' ↔ step s a = some s' := by
  simp [run_cons]

theorem along_and {P Q : σ → α → Prop} {s : σ} {as : List α} (hp : Along step P s as)
    (hq : Along step Q s as) : Along step (fun s a => P s a ∧ Q s a) s as := by
  induction as generalizing s with
  | nil => trivial
  | cons a as ih =>
      exact ⟨⟨hp.1, hq.1⟩, fun s' hs => ih (hp.2 s' hs) (hq.2 s' hs)⟩

theorem along_of_forall {P : σ → α → Prop} {s : σ} {as : List α} (h : ∀ a ∈ as, ∀ s, P s a) :
    Along step P s as := by
  induction as generalizing s with
  | nil => trivial
  | cons a as ih =>
      rcases List.forall_mem_cons.mp h with ⟨ha, has⟩
      exact ⟨ha s, fun s' _ => ih has⟩

/-- A run that reaches its end enables each of its actions. -/
theorem along_enabled {s s' : σ} {as : List α} (hr : run step s as = some s') :
    Along step (fun s a => (step s a).isSome = true) s as := by
  induction as generalizing s with
  | nil => trivial
  | cons a as ih =>
      rcases run_cons.mp hr with ⟨m, hm, hr'⟩
      refine ⟨by simp [hm], ?_⟩
      intro k hk
      cases hm.symm.trans hk
      exact ih hr'

/-- A condition on the actions alone holds along a run that reaches its end
exactly when every action meets it. -/
theorem along_const {P : α → Prop} {s s' : σ} {as : List α} (hr : run step s as = some s') :
    Along step (fun _ a => P a) s as ↔ ∀ a ∈ as, P a := by
  induction as generalizing s with
  | nil => simp [Along]
  | cons a as ih =>
      rcases run_cons.mp hr with ⟨m, hm, hr'⟩
      simp only [Along, hm, Option.some.injEq, forall_eq', ih hr', List.forall_mem_cons]

/-- Invariant rule for a run whose steps all meet `P`. -/
theorem run_invariant_along {Inv : σ → Prop} {P : σ → α → Prop}
    (hstep : ∀ s a s', Inv s → P s a → step s a = some s' → Inv s')
    {s s' : σ} {as : List α} (hi : Inv s) (hp : Along step P s as)
    (hr : run step s as = some s') : Inv s' := by
  induction as generalizing s with
  | nil =>
      cases hr
      exact hi
  | cons a as ih =>
      rcases run_cons.mp hr with ⟨m, hm, hr'⟩
      exact ih (hstep s a m hi hp.1 hm) (hp.2 m hm) hr'

/-- Invariant rule for every run. -/
theorem run_invariant {Inv : σ → Prop}
    (hstep : ∀ s a s', Inv s → step s a = some s' → Inv s')
    {s s' : σ} {as : List α} (hi : Inv s) (hr : run step s as = some s') : Inv s' := by
  induction as generalizing s with
  | nil =>
      cases hr
      exact hi
  | cons a as ih =>
      rcases run_cons.mp hr with ⟨m, hm, hr'⟩
      exact ih (hstep s a m hi hm) hr'

/-- What holds initially and is kept by every step holds of every reachable
state. -/
theorem reachable_invariant {init Inv : σ → Prop} (hinit : ∀ s, init s → Inv s)
    (hstep : ∀ s a s', Inv s → step s a = some s' → Inv s')
    {s : σ} (h : Reachable step init s) : Inv s := by
  rcases h with ⟨s₀, as, h₀, hr⟩
  exact run_invariant hstep (hinit s₀ h₀) hr

/-- What every step that meets `P` satisfies under an invariant that such steps keep,
all steps of a run that meets `P` satisfy. -/
theorem along_of_invariant (Inv : σ → Prop) {P Q : σ → α → Prop}
    (hq : ∀ s a, Inv s → P s a → Q s a)
    (hstep : ∀ s a s', Inv s → P s a → step s a = some s' → Inv s')
    {s : σ} {as : List α} (hi : Inv s) (hp : Along step P s as) : Along step Q s as := by
  induction as generalizing s with
  | nil => trivial
  | cons a as ih =>
      refine ⟨hq s a hi hp.1, ?_⟩
      intro s' hs
      exact ih (hstep s a s' hi hp.1 hs) (hp.2 s' hs)

/-- A run that ends outside of `Bad` meets `Q` at every step, when a step that does not
leads into `Bad` and no step leads out of it. `P` is what the whole run is known to meet. -/
theorem along_of_avoids {Inv Bad : σ → Prop} {P Q : σ → α → Prop}
    (hstep : ∀ s a s', Inv s → P s a → step s a = some s' → Inv s')
    (hbad : ∀ s a s', Inv s → P s a → ¬ Q s a → step s a = some s' → Bad s')
    (hkeep : ∀ s a s', Inv s → P s a → Bad s → step s a = some s' → Bad s')
    {s s' : σ} {as : List α} (hi : Inv s) (hp : Along step P s as) (hr : run step s as = some s')
    (h : ¬ Bad s') : Along step Q s as := by
  induction as generalizing s with
  | nil => trivial
  | cons a as ih =>
      rcases run_cons.mp hr with ⟨m, hm, hr'⟩
      refine ⟨?_, ?_⟩
      · by_contra hq
        have hboth : ∀ s a s', Inv s ∧ Bad s → P s a → step s a = some s' →
            Inv s' ∧ Bad s' := by
          rintro s a s' ⟨hi, hb⟩ hp hs
          exact ⟨hstep s a s' hi hp hs, hkeep s a s' hi hp hb hs⟩
        have hnow : Inv m ∧ Bad m := ⟨hstep s a m hi hp.1 hm, hbad s a m hi hp.1 hq hm⟩
        exact h (run_invariant_along hboth hnow (hp.2 m hm) hr').2
      · intro k hk
        cases hm.symm.trans hk
        exact ih (hstep s a m hi hp.1 hm) (hp.2 m hm) hr'

/-- Two step conditions that agree in the states of an invariant, which steps
meeting them keep, agree along every run. `R` is what the whole run is already
known to meet. -/
theorem along_iff {Inv : σ → Prop} {P Q R : σ → α → Prop}
    (hiff : ∀ s a, Inv s → R s a → (P s a ↔ Q s a))
    (hstep : ∀ s a s', Inv s → R s a → Q s a → step s a = some s' → Inv s')
    {s : σ} {as : List α} (hi : Inv s) (hr : Along step R s as) :
    Along step P s as ↔ Along step Q s as := by
  induction as generalizing s with
  | nil => exact Iff.rfl
  | cons a as ih =>
      have hhead := hiff s a hi hr.1
      constructor
      · rintro ⟨hp, hps⟩
        have hq := hhead.mp hp
        exact ⟨hq, fun s' hs =>
          (ih (hstep s a s' hi hr.1 hq hs) (hr.2 s' hs)).mp (hps s' hs)⟩
      · rintro ⟨hq, hqs⟩
        exact ⟨hhead.mpr hq, fun s' hs =>
          (ih (hstep s a s' hi hr.1 hq hs) (hr.2 s' hs)).mpr (hqs s' hs)⟩

/-- Every step of a run leads to a state of the invariant exactly if every step meets `Q`, when
this is so of one step from such a state. -/
theorem along_keeps_iff {guard : σ → α → Prop} [∀ s a, Decidable (guard s a)] {update : σ → α → σ}
    {Inv : σ → Prop} {Q : σ → α → Prop}
    (hupdate : ∀ s a, Inv s → guard s a → (Inv (update s a) ↔ Q s a))
    {s s' : σ} {as : List α} (hi : Inv s) (hr : run (guarded guard update) s as = some s') :
    Along (guarded guard update) (fun s a => ∀ s', guarded guard update s a = some s' → Inv s')
        s as ↔
      Along (guarded guard update) Q s as := by
  refine along_iff ?_ ?_ hi (along_enabled hr)
  · intro s a hi henabled
    rcases Option.isSome_iff_exists.mp henabled with ⟨s', hs⟩
    rcases guarded_eq_some.mp hs with ⟨hg, rfl⟩
    rw [← hupdate s a hi hg]
    constructor
    · exact fun h => h _ hs
    · intro h t ht
      rcases guarded_eq_some.mp ht with ⟨-, rfl⟩
      exact h
  · intro s a s' hi _ hq hs
    rcases guarded_eq_some.mp hs with ⟨hg, rfl⟩
    exact (hupdate s a hi hg).mpr hq

end Lts
