import Mathlib.Data.List.Nodup
import Mathlib.Data.List.Sublists

/-!
# Lib.Lifo — what comes out of a stack

Entries go in one after the other and come out at the end they went in. The line is what
has come out, followed by what is in, from the top. Taking an entry out leaves the line as
it is; an entry that goes in is put into its middle, in front of those that are in.

* `Swapped`: two entries are the other way round;
* `swapped_of_push`: an entry goes in on top of another;
* `swapped_push`: nothing that comes later puts two entries right again;
* `not_swapped_self`: a list of different entries is not swapped against itself.
-/

namespace Lifo

universe u

variable {α : Type u} {sent front rest : List α} {a : α}

/-- Two entries of `line` stand the other way round than in `sent`. -/
def Swapped (sent line : List α) : Prop :=
  ∃ x y, List.Sublist [x, y] sent ∧ List.Sublist [y, x] line

theorem swapped_of_push (hrest : rest ≠ []) (hsent : ∀ x ∈ rest, x ∈ sent) :
    Swapped (sent ++ [a]) (front ++ a :: rest) := by
  obtain ⟨x, hx⟩ := List.exists_mem_of_ne_nil rest hrest
  refine ⟨x, a, ?_, ?_⟩
  · have hone : List.Sublist [x] sent := List.singleton_sublist.mpr (hsent x hx)
    exact hone.append (List.Sublist.refl [a])
  · have htwo : List.Sublist [a, x] (a :: rest) := (List.singleton_sublist.mpr hx).cons_cons a
    exact htwo.trans (List.sublist_append_right front (a :: rest))

theorem swapped_push (h : Swapped sent (front ++ rest)) :
    Swapped (sent ++ [a]) (front ++ a :: rest) := by
  obtain ⟨x, y, hsent, hline⟩ := h
  refine ⟨x, y, ?_, ?_⟩
  · exact hsent.trans (List.sublist_append_left sent [a])
  · exact hline.trans ((List.Sublist.refl front).append (List.sublist_cons_self a rest))

/-- Of two different entries, only one is in front of the other. -/
theorem not_swapped_self (h : sent.Nodup) : ¬ Swapped sent sent := by
  rintro ⟨x, y, hxy, hyx⟩
  induction sent with
  | nil => cases hxy
  | cons b l ih =>
      obtain ⟨hb, hl⟩ := List.nodup_cons.mp h
      cases hxy with
      | cons _ hxy =>
          cases hyx with
          | cons _ hyx => exact ih hl hxy hyx
          | cons_cons _ _ =>
              -- `y` is the first entry and in the rest
              exact hb (hxy.subset (by simp))
      | cons_cons _ hy =>
          have hyl : y ∈ l := List.singleton_sublist.mp hy
          cases hyx with
          | cons _ hyx => exact hb (hyx.subset (by simp))
          | cons_cons _ _ => exact hb hyl

end Lifo
