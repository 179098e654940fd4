import Mathlib.Tactic.Common
import Mathlib.Data.List.Basic

/-!
# Lib.Indist — states that no later observation tells apart

A system with a total step function in which some steps show something and the rest
of the world decides a part of each step. `key` is what the caller decides about an
action; two runs are the same for the caller when the keys of their actions are.

* `outs`: what a run shows;
* `Covers`: whatever a run from the second state shows, a run from the first may
  show as well;
* `covers_of_sim`: a relation that matches single steps gives it.
-/

namespace Indist

universe u v w x

variable {σ : Type u} {α : Type v} {ο : Type w} {κ : Type x}
variable (next : σ → α → σ) (obs : σ → α → Option ο) (key : α → κ)

/-- What the actions show, performed in order. -/
def outs : σ → List α → List ο
  | _, [] => []
  | s, a :: as => (obs s a).toList ++ outs (next s a) as

/-- For the same calls, `s` may show all that `s'` may show. -/
def Covers (s s' : σ) : Prop :=
  ∀ as', ∃ as : List α, as.map key = as'.map key ∧ outs next obs s as = outs next obs s' as'

variable {next obs key}

/-- The rule of simulation. -/
theorem covers_of_sim {R : σ → σ → Prop}
    (hsim : ∀ s s' a', R s s' → ∃ a, key a = key a' ∧ obs s a = obs s' a' ∧
      R (next s a) (next s' a')) {s s' : σ} (h : R s s') : Covers next obs key s s' := by
  intro as'
  induction as' generalizing s s' with
  | nil => exact ⟨[], rfl, rfl⟩
  | cons a' as' ih =>
      rcases hsim s s' a' h with ⟨a, hkey, hobs, hnext⟩
      rcases ih hnext with ⟨as, hkeys, houts⟩
      refine ⟨a :: as, ?_, ?_⟩
      · rw [List.map_cons, List.map_cons, hkey, hkeys]
      · rw [outs, outs, hobs, houts]

/-- A call that shows from `s'` what the same call never shows from `s`. -/
theorem not_covers_of_one {s s' : σ} (a' : α)
    (h : ∀ a, key a = key a' → obs s a ≠ obs s' a') : ¬ Covers next obs key s s' := by
  intro hc
  rcases hc [a'] with ⟨as, hkeys, houts⟩
  rcases List.map_eq_cons_iff.mp hkeys with ⟨a, rest, rfl, ha, hnil⟩
  rw [List.map_nil, List.map_eq_nil_iff] at hnil
  subst hnil
  simp only [outs, List.append_nil] at houts
  have hhead := congrArg List.head? houts
  rw [Option.head?_toList, Option.head?_toList] at hhead
  exact h a ha hhead

/-- Two calls that show from `s'` what no run of the same two calls shows from `s`. -/
theorem not_covers_of_pair {s s' : σ} (a' b' : α)
    (h : ∀ a b, key a = key a' → key b = key b' →
      outs next obs s [a, b] ≠ outs next obs s' [a', b']) : ¬ Covers next obs key s s' := by
  intro hc
  rcases hc [a', b'] with ⟨as, hkeys, houts⟩
  rcases List.map_eq_cons_iff.mp hkeys with ⟨a, _, rfl, ha, htail⟩
  rcases List.map_eq_cons_iff.mp htail with ⟨b, rest, rfl, hb, hnil⟩
  rw [List.map_nil, List.map_eq_nil_iff] at hnil
  subst hnil
  exact h a b ha hb houts

end Indist
