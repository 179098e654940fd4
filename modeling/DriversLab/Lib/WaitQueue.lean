import Mathlib.Data.List.Basic
import Mathlib.Tactic.Common

/-!
# Lib.WaitQueue — sleepers and those who will wake them

Processes sleep on queues until a condition holds. Whoever makes a condition true wakes its
queue, but in a later step. No sleeper is forgotten as long as for each queue that has a
sleeper, and whose condition holds, somebody is still to wake it.

* `Attended`: this invariant, over processes of any kind that say where they sleep and
  which queue they will wake;
* `attended_set`: one process goes on, and the conditions may change;
* `attended_wake`: a process wakes a queue.
-/

namespace WaitQueue

universe u v

variable {τ : Type u} {κ : Type v} (asleepOn willWake : τ → Option κ)

/-- Whoever sleeps on a queue whose condition holds will be woken. -/
def Attended (ready : κ → Prop) (l : List τ) : Prop :=
  ∀ k, ready k → (∃ x ∈ l, asleepOn x = some k) → ∃ x ∈ l, willWake x = some k

variable {asleepOn willWake} {ready ready' : κ → Prop} {l : List τ} {i : ℕ} {x y : τ}

/-- A process that had nobody to wake goes on. It does not fall asleep on a queue whose
condition holds, and will wake the queues whose condition it has made true. -/
theorem attended_set (h : Attended asleepOn willWake ready l) (hx : l[i]? = some x)
    (hidle : willWake x = none) (hsleep : ∀ k, asleepOn y = some k → ¬ ready' k)
    (hready : ∀ k, ready' k → ready k ∨ willWake y = some k) :
    Attended asleepOn willWake ready' (l.set i y) := by
  have hlt : i < l.length := (List.getElem?_eq_some_iff.mp hx).1
  intro k hk hsleeper
  rcases hready k hk with hbefore | hwake
  · rcases hsleeper with ⟨z, hz, hzk⟩
    -- the sleeper has been asleep before
    have hold : z ∈ l := by
      rcases List.mem_or_eq_of_mem_set hz with hmem | rfl
      · exact hmem
      · exact absurd hk (hsleep k hzk)
    rcases h k hbefore ⟨z, hold, hzk⟩ with ⟨w, hw, hwk⟩
    rcases List.mem_iff_getElem?.mp hw with ⟨j, hj⟩
    have hne : i ≠ j := by
      rintro rfl
      cases hx.symm.trans hj
      rw [hidle] at hwk
      cases hwk
    exact ⟨w, List.mem_of_getElem? ((List.getElem?_set_ne hne).trans hj), hwk⟩
  · exact ⟨y, List.mem_of_getElem? (List.getElem?_set_self hlt), hwake⟩

/-- A process wakes the queue `k`, and is done with it. -/
theorem attended_wake (h : Attended asleepOn willWake ready l) (hx : l[i]? = some x) {k : κ}
    (hwake : willWake x = some k) {f : τ → τ} (hy : asleepOn y = none)
    (hawake : ∀ z, asleepOn (f z) ≠ some k)
    (hother : ∀ z m, asleepOn (f z) = some m → asleepOn z = some m)
    (hkeep : ∀ z, willWake (f z) = willWake z) :
    Attended asleepOn willWake ready ((l.map f).set i y) := by
  intro m hm hsleeper
  rcases hsleeper with ⟨z, hz, hzm⟩
  rcases List.mem_or_eq_of_mem_set hz with hmem | rfl
  · rcases List.mem_map.mp hmem with ⟨z', hz', rfl⟩
    have hmk : m ≠ k := by
      rintro rfl
      exact hawake z' hzm
    rcases h m hm ⟨z', hz', hother z' m hzm⟩ with ⟨w, hw, hwm⟩
    rcases List.mem_iff_getElem?.mp hw with ⟨j, hj⟩
    have hne : i ≠ j := by
      rintro rfl
      cases hx.symm.trans hj
      exact hmk (Option.some.inj (hwm.symm.trans hwake))
    refine ⟨f w, ?_, (hkeep w).trans hwm⟩
    refine List.mem_of_getElem? ((List.getElem?_set_ne hne).trans ?_)
    rw [List.getElem?_map, hj, Option.map_some]
  · rw [hy] at hzm
    cases hzm

end WaitQueue
