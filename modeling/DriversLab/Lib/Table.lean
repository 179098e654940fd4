import Mathlib.Algebra.BigOperators.Group.List.Lemmas
import Mathlib.Algebra.Order.BigOperators.Group.List
import Mathlib.Algebra.Order.Group.Int
import Mathlib.Data.List.Forall2
import Mathlib.Tactic.Abel

/-!
# Lib.Table — a table of slots

A table is a list whose slots are overwritten one at a time. A quantity that is
summed over the slots changes by what the overwritten slot changes by, and what holds
of every slot has to be shown of that slot only.
-/

namespace Table

/-! ## What holds of every slot -/

/-- What held of the other slots, and holds of the one that is overwritten. -/
theorem forall_set {τ : Type*} {P : ℕ → τ → Prop} {l : List τ} {i : ℕ} {y : τ}
    (h : ∀ j x, j ≠ i → l[j]? = some x → P j x) (hy : P i y) :
    ∀ j x, (l.set i y)[j]? = some x → P j x := by
  intro j x hj
  rw [List.getElem?_set] at hj
  split at hj
  · rename_i heq
    subst heq
    split at hj
    · cases hj
      exact hy
    · cases hj
  · rename_i hne
    exact h j x (fun heq => hne heq.symm) hj

/-- A record is kept of every slot, and the two are overwritten together. -/
theorem forall_set_update {τ γ : Type*} {P : γ → τ → Prop} {l : List τ} {g : ℕ → γ} {i : ℕ}
    {y : τ} {v : γ} (h : ∀ j x, l[j]? = some x → P (g j) x) (hy : P v y) :
    ∀ j x, (l.set i y)[j]? = some x → P (Function.update g i v j) x := by
  apply forall_set
  · intro j x hne hx
    rw [Function.update_of_ne hne]
    exact h j x hx
  · rw [Function.update_self]
    exact hy

/-! ## Tables that are alike -/

section Alike

variable {τ τ' : Type*} {R : τ → τ' → Prop} {l : List τ} {l' : List τ'}

theorem rel_lookup (h : List.Forall₂ R l l') (i : ℕ) : Option.Rel R l[i]? l'[i]? := by
  induction h generalizing i with
  | nil => exact .none
  | cons hhead _ ih =>
      cases i with
      | zero => exact .some hhead
      | succ i => exact ih i

theorem rel_set (h : List.Forall₂ R l l') {x : τ} {x' : τ'} (hx : R x x') (i : ℕ) :
    List.Forall₂ R (l.set i x) (l'.set i x') := by
  induction h generalizing i with
  | nil => exact .nil
  | cons hhead htail ih =>
      cases i with
      | zero => exact .cons hx htail
      | succ i => exact .cons hhead (ih i)

end Alike

/-! ## Sums -/

variable {τ : Type*} {M : Type*} [AddCommMonoid M] (f : τ → M)

theorem sum_map_split {l : List τ} {i : ℕ} {x : τ} (hx : l[i]? = some x) :
    (l.map f).sum = f x + ((l.eraseIdx i).map f).sum := by
  induction l generalizing i with
  | nil => simp at hx
  | cons y l ih =>
      cases i with
      | zero =>
          have hy : y = x := by simpa using hx
          simp [hy]
      | succ i =>
          have hl := ih (i := i) (by simpa using hx)
          simp only [List.eraseIdx_cons_succ, List.map_cons, List.sum_cons, hl]
          abel

theorem eraseIdx_set (l : List τ) (i : ℕ) (y : τ) : (l.set i y).eraseIdx i = l.eraseIdx i := by
  induction l generalizing i with
  | nil => rfl
  | cons z l ih => cases i <;> simp [ih]

/-- Replacing `x` by `y` where `f y` is `d` more than `f x` adds `d` to the
sum. -/
theorem sum_map_set {l : List τ} {i : ℕ} {x y : τ} {d : M} (hx : l[i]? = some x)
    (hd : f y = f x + d) : ((l.set i y).map f).sum = (l.map f).sum + d := by
  have hlt : i < l.length := (List.getElem?_eq_some_iff.mp hx).1
  have hy : (l.set i y)[i]? = some y := by simp [hlt]
  rw [sum_map_split f hx, sum_map_split f hy, eraseIdx_set, hd]
  abel

/-- A sum of nonnegative contributions vanishes when each of them does. -/
theorem sum_map_eq_zero_iff {τ : Type*} {l : List τ} {f : τ → ℤ} (h : ∀ x ∈ l, 0 ≤ f x) :
    (l.map f).sum = 0 ↔ ∀ x ∈ l, f x = 0 := by
  have hnonneg : ∀ y ∈ l.map f, 0 ≤ y := by
    intro y hy
    rcases List.mem_map.mp hy with ⟨x, hx, rfl⟩
    exact h x hx
  constructor
  · intro hsum x hx
    exact List.all_zero_of_le_zero_le_of_sum_eq_zero hnonneg hsum (List.mem_map_of_mem hx)
  · intro hall
    refine List.sum_eq_zero ?_
    intro y hy
    rcases List.mem_map.mp hy with ⟨x, hx, rfl⟩
    exact hall x hx

theorem sum_map_indicator {τ : Type*} (l : List τ) (p : τ → Bool) :
    (l.map fun x => if p x then (1 : ℤ) else 0).sum = l.countP p := by
  induction l with
  | nil => rfl
  | cons x l ih =>
      simp only [List.map_cons, List.sum_cons, ih, List.countP_cons]
      split <;> push_cast <;> omega

/-- One contribution is at most the sum of nonnegative ones. -/
theorem le_sum_map {τ : Type*} {l : List τ} {f : τ → ℤ} (h : ∀ x, 0 ≤ f x) {x : τ} (hx : x ∈ l) :
    f x ≤ (l.map f).sum := by
  refine List.single_le_sum ?_ _ (List.mem_map_of_mem hx)
  intro y hy
  rcases List.mem_map.mp hy with ⟨z, _, rfl⟩
  exact h z

theorem sum_map_nonneg {τ : Type*} (l : List τ) {f : τ → ℤ} (h : ∀ x, 0 ≤ f x) :
    0 ≤ (l.map f).sum := by
  refine List.sum_nonneg ?_
  intro y hy
  rcases List.mem_map.mp hy with ⟨z, _, rfl⟩
  exact h z

end Table
