import Mathlib.Tactic.Common
import Mathlib.Data.List.Basic
import Mathlib.Algebra.BigOperators.Group.List.Basic
import Mathlib.Algebra.GroupWithZero.Nat
import Mathlib.Data.Int.Basic

/-!
# Lib.Vectored — segments that are transferred one after the other

A transfer moves the elements of a list of segments to consecutive positions. Each segment
may be cut short; the next one then goes on at the position reached, with its own first
element.

* `moves`: which element of the concatenated segments went to which position;
* `moves_eq_run_iff`: these are the first elements, in order, exactly if no segment behind
  a short one moves anything;
* `counts`, `Fits`: the same for segments that are cut short by how much can be moved at
  the position reached, `avail`.
-/

namespace Vectored

/-- `c` elements from number `o` on, at the positions from `q` on. -/
def run (o : ℕ) (q : ℤ) (c : ℕ) : List (ℕ × ℤ) := (List.range c).map fun i : ℕ => (o + i, q + i)

@[simp] theorem run_zero (o : ℕ) (q : ℤ) : run o q 0 = [] := rfl

@[simp] theorem run_length (o : ℕ) (q : ℤ) (c : ℕ) : (run o q c).length = c := by
  rw [run, List.length_map, List.length_range]

theorem run_append (o : ℕ) (q : ℤ) (c d : ℕ) :
    run o q (c + d) = run o q c ++ run (o + c) (q + c) d := by
  unfold run
  rw [List.range_add, List.map_append, List.map_map]
  congr 1
  apply List.map_congr_left
  intro i _
  simp only [Function.comp_apply, Int.natCast_add, Prod.mk.injEq]
  constructor <;> omega

theorem mem_run {o : ℕ} {q : ℤ} {c : ℕ} {x : ℕ × ℤ} (h : x ∈ run o q c) : o ≤ x.1 := by
  obtain ⟨i, _, rfl⟩ := List.mem_map.mp h
  exact Nat.le_add_right o i

/-! ## Segments of which a part is moved -/

/-- What is moved of segments, given by their lengths and by how much of each is moved. -/
def moves : ℕ → ℤ → List (ℕ × ℕ) → List (ℕ × ℤ)
  | _, _, [] => []
  | o, q, (n, c) :: segs => run o q c ++ moves (o + n) (q + c) segs

/-- How much is moved in all. -/
def total (segs : List (ℕ × ℕ)) : ℕ := (segs.map Prod.snd).sum

@[simp] theorem total_nil : total [] = 0 := rfl

@[simp] theorem total_cons (s : ℕ × ℕ) (segs : List (ℕ × ℕ)) :
    total (s :: segs) = s.2 + total segs := rfl

/-- Behind a segment that is cut short nothing is moved. -/
def Whole : List (ℕ × ℕ) → Prop
  | [] => True
  | (n, c) :: segs => if c = n then Whole segs else total segs = 0

theorem moves_length (o : ℕ) (q : ℤ) (segs : List (ℕ × ℕ)) :
    (moves o q segs).length = total segs := by
  induction segs generalizing o q with
  | nil => rfl
  | cons s segs ih => rw [moves, List.length_append, run_length, ih, total_cons]

theorem mem_moves {o : ℕ} {q : ℤ} {segs : List (ℕ × ℕ)} {x : ℕ × ℤ} (h : x ∈ moves o q segs) :
    o ≤ x.1 := by
  induction segs generalizing o q with
  | nil => cases h
  | cons s segs ih =>
      rcases List.mem_append.mp h with h | h
      · exact mem_run h
      · have := ih h
        omega

/-- What is moved is a prefix of the concatenated segments, at consecutive positions,
exactly if nothing is moved behind a segment that is cut short. -/
theorem moves_eq_run_iff {o : ℕ} {q : ℤ} {segs : List (ℕ × ℕ)} (h : ∀ s ∈ segs, s.2 ≤ s.1) (r : ℕ) :
    moves o q segs = run o q r ↔ r = total segs ∧ Whole segs := by
  have hlength : moves o q segs = run o q r → r = total segs := by
    intro heq
    rw [← moves_length o q segs, heq, run_length]
  suffices hwhole : moves o q segs = run o q (total segs) ↔ Whole segs by
    constructor
    · intro heq
      have hr := hlength heq
      exact ⟨hr, hwhole.mp (hr ▸ heq)⟩
    · rintro ⟨rfl, hw⟩
      exact hwhole.mpr hw
  clear hlength
  induction segs generalizing o q with
  | nil => simp [moves, Whole]
  | cons s segs ih =>
      obtain ⟨n, c⟩ := s
      have hle : c ≤ n := h (n, c) List.mem_cons_self
      have hrest : ∀ s ∈ segs, s.2 ≤ s.1 := fun s hs => h s (List.mem_cons_of_mem _ hs)
      rw [moves, total_cons, run_append, List.append_cancel_left_eq, Whole]
      split
      · rename_i heq
        subst heq
        exact ih hrest
      · rename_i hne
        constructor
        · intro heq
          -- the element behind the short segment has not been moved
          by_contra hpos
          have hmem : (o + c, q + (c : ℤ)) ∈ run (o + c) (q + c) (total segs) := by
            refine List.mem_map.mpr ⟨0, List.mem_range.mpr (Nat.pos_of_ne_zero hpos), ?_⟩
            simp
          rw [← heq] at hmem
          have := mem_moves hmem
          simp only at this
          omega
        · intro hzero
          have hnil : moves (o + n) (q + c) segs = [] := by
            rw [← List.length_eq_zero_iff, moves_length, hzero]
          rw [hnil, hzero, run_zero]

/-! ## Segments cut short by what there is -/

variable (avail : ℤ → ℕ)

/-- How much of each segment is moved, if at each position no more than `avail` can be. -/
def counts : ℤ → List ℕ → List ℕ
  | _, [] => []
  | q, n :: lens => min n (avail q) :: counts (q + (min n (avail q) : ℕ)) lens

/-- No segment that goes beyond what there is comes in front of one that moves something. -/
def Fits : ℤ → List ℕ → Prop
  | _, [] => True
  | q, n :: lens =>
      if n ≤ avail q then Fits (q + n) lens
      else ∀ m ∈ lens, min m (avail (q + avail q)) = 0

variable {avail}

theorem counts_length (q : ℤ) (lens : List ℕ) : (counts avail q lens).length = lens.length := by
  induction lens generalizing q with
  | nil => rfl
  | cons n lens ih => rw [counts, List.length_cons, ih, List.length_cons]

theorem counts_le {q : ℤ} {lens : List ℕ} : ∀ s ∈ lens.zip (counts avail q lens), s.2 ≤ s.1 := by
  induction lens generalizing q with
  | nil => exact fun s hs => absurd hs List.not_mem_nil
  | cons n lens ih =>
      rw [counts, List.zip_cons_cons]
      exact List.forall_mem_cons.mpr ⟨Nat.min_le_left n _, ih⟩

theorem counts_sum_eq_zero_iff {q : ℤ} {lens : List ℕ} :
    (counts avail q lens).sum = 0 ↔ ∀ m ∈ lens, min m (avail q) = 0 := by
  induction lens with
  | nil => simp [counts]
  | cons n lens ih =>
      rw [counts, List.sum_cons, Nat.add_eq_zero_iff, List.forall_mem_cons]
      constructor
      · rintro ⟨hzero, hrest⟩
        rw [hzero, Int.natCast_zero, Int.add_zero] at hrest
        exact ⟨hzero, ih.mp hrest⟩
      · rintro ⟨hzero, hrest⟩
        rw [hzero, Int.natCast_zero, Int.add_zero]
        exact ⟨rfl, ih.mpr hrest⟩

theorem total_zip {lens cs : List ℕ} (h : cs.length = lens.length) :
    total (lens.zip cs) = cs.sum := by
  rw [total, List.map_snd_zip (le_of_eq h)]

/-- Whether what is moved is a prefix can be read off the lengths. -/
theorem whole_iff_fits (q : ℤ) (lens : List ℕ) :
    Whole (lens.zip (counts avail q lens)) ↔ Fits avail q lens := by
  induction lens generalizing q with
  | nil => exact Iff.rfl
  | cons n lens ih =>
      rw [counts, List.zip_cons_cons, Whole, Fits]
      by_cases hle : n ≤ avail q
      · rw [Nat.min_eq_left hle, if_pos rfl, if_pos hle]
        exact ih _
      · have hmin : min n (avail q) = avail q := Nat.min_eq_right (by omega)
        rw [hmin, if_neg (by omega), if_neg hle, total_zip (counts_length _ _),
          counts_sum_eq_zero_iff]

end Vectored
