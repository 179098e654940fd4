import Mathlib.Tactic.Common
import Mathlib.Data.List.Nodup
import Mathlib.Logic.Function.Basic

/-!
# Lib.Chain — singly linked lists in a memory of links

The cells link to one another through one `next` each, so a cell is in one list at a
time. `Chain next head l` says that the list that begins at `head` is `l`.

* `chain_cons`: a list is its head and the list after it;
* `chain_update`: a write to a cell of no list leaves it alone;
* `chain_push`: a cell in front of a list;
* `chains_pop`, `chains_push`: the same in a family of lists with a head each.
-/

namespace Linked

universe u v

variable {α : Type u} {next : α → Option α} {head : Option α} {a : α} {l : List α}

/-- The cells from `head` on are those of `l`. -/
def Chain (next : α → Option α) : Option α → List α → Prop
  | head, [] => head = none
  | head, a :: l => head = some a ∧ Chain next (next a) l

theorem chain_cons (h : Chain next (some a) l) : ∃ l', l = a :: l' ∧ Chain next (next a) l' := by
  cases l with
  | nil => simp [Chain] at h
  | cons b l =>
      obtain ⟨hhead, hrest⟩ := h
      cases hhead
      exact ⟨l, rfl, hrest⟩

theorem chain_unique {l' : List α} (h : Chain next head l) (h' : Chain next head l') : l = l' := by
  induction l generalizing head l' with
  | nil =>
      cases l' with
      | nil => rfl
      | cons a l' => cases h.symm.trans h'.1
  | cons a l ih =>
      obtain ⟨hhead, hrest⟩ := h
      subst hhead
      obtain ⟨t, rfl, ht⟩ := chain_cons h'
      rw [ih hrest ht]

theorem chain_update [DecidableEq α] (h : Chain next head l) (ha : a ∉ l) (v : Option α) :
    Chain (Function.update next a v) head l := by
  induction l generalizing head with
  | nil => exact h
  | cons b l ih =>
      obtain ⟨hab, hal⟩ := List.ne_and_not_mem_of_not_mem_cons ha
      obtain ⟨hhead, hrest⟩ := h
      refine ⟨hhead, ?_⟩
      rw [Function.update_of_ne hab.symm]
      exact ih hrest hal

theorem chain_push [DecidableEq α] (h : Chain next head l) (ha : a ∉ l) :
    Chain (Function.update next a head) (some a) (a :: l) := by
  refine ⟨rfl, ?_⟩
  rw [Function.update_self]
  exact chain_update h ha head

/-! ## Families of lists -/

section Family

variable {ι : Type v} {heads : ι → Option α} {ls : ι → List α} {i : ι}

/-- The list of `i` loses its first cell. -/
theorem chains_pop [DecidableEq ι] (h : ∀ j, Chain next (heads j) (ls j))
    (hi : heads i = some a) : ∃ l, ls i = a :: l ∧
      ∀ j, Chain next (Function.update heads i (next a) j) (Function.update ls i l j) := by
  obtain ⟨l, hl, hrest⟩ := chain_cons (hi ▸ h i)
  refine ⟨l, hl, ?_⟩
  intro j
  by_cases hj : j = i
  · subst hj
    rw [Function.update_self, Function.update_self]
    exact hrest
  · rw [Function.update_of_ne hj, Function.update_of_ne hj]
    exact h j

/-- A cell of no list is put in front of the list of `i`. -/
theorem chains_push [DecidableEq α] [DecidableEq ι] (h : ∀ j, Chain next (heads j) (ls j))
    (ha : ∀ j, a ∉ ls j) (i : ι) (j : ι) :
    Chain (Function.update next a (heads i)) (Function.update heads i (some a) j)
      (Function.update ls i (a :: ls i) j) := by
  by_cases hj : j = i
  · subst hj
    rw [Function.update_self, Function.update_self]
    exact chain_push (h j) (ha j)
  · rw [Function.update_of_ne hj, Function.update_of_ne hj]
    exact chain_update (h j) (ha j) (heads i)

end Family

end Linked
