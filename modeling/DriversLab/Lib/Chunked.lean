import Mathlib.Tactic.Common
import Mathlib.Data.List.Basic
import Mathlib.Data.List.TakeDrop
import Mathlib.Algebra.Order.Group.Nat

/-!
# Lib.Chunked — a sparse array kept in chunks

A sparse array is a partial map from positions to elements. Kept in chunks of
`n` elements, position `p` is element `p % n` of chunk `p / n`; a chunk that is
not there is a hole.

* `patch`, `overwrite`: writing a run of elements into a sparse array and into
  one chunk;
* `view`: the sparse array that a map of chunks stands for;
* `view_overwrite`: overwriting inside one chunk patches the array;
* `view_replace_other`: a new chunk leaves the positions of the others alone.
-/

namespace Chunked

universe u

variable {α : Type u}

/-! ## Runs of elements -/

/-- The sparse array `f` with the elements `xs` from `p` on. -/
def patch (f : ℕ → Option α) (p : ℕ) (xs : List α) (x : ℕ) : Option α :=
  if p ≤ x then xs[x - p]?.or (f x) else f x

/-- The chunk `q` with the elements `xs` from `i` on. -/
def overwrite (q : List α) (i : ℕ) (xs : List α) : List α :=
  q.take i ++ xs ++ q.drop (i + xs.length)

@[simp] theorem patch_nil (f : ℕ → Option α) (p : ℕ) : patch f p [] = f := by
  funext x
  simp [patch]

@[simp] theorem overwrite_nil (q : List α) (i : ℕ) : overwrite q i [] = q := by
  simp [overwrite]

/-- The elements that have been written. -/
theorem take_drop_overwrite {q xs : List α} {i : ℕ} (h : i ≤ q.length) :
    ((overwrite q i xs).drop i).take xs.length = xs := by
  have htake : (q.take i).length = i := by
    rw [List.length_take]
    omega
  rw [overwrite, List.append_assoc, List.drop_left' htake, List.take_left]

/-- Writing the elements that are there. -/
theorem overwrite_self {q xs : List α} {i : ℕ} (h : xs = (q.drop i).take xs.length) :
    overwrite q i xs = q := by
  rw [overwrite, List.append_assoc, ← List.drop_drop]
  nth_rewrite 1 [h]
  rw [List.take_append_drop, List.take_append_drop]

theorem patch_of_mem {f : ℕ → Option α} {p x : ℕ} {xs : List α} (hl : p ≤ x)
    (hu : x < p + xs.length) : patch f p xs x = xs[x - p]? := by
  rw [patch, if_pos hl, List.getElem?_eq_getElem (by omega), Option.some_or]

theorem patch_of_notMem {f : ℕ → Option α} {p x : ℕ} {xs : List α}
    (h : x < p ∨ p + xs.length ≤ x) : patch f p xs x = f x := by
  unfold patch
  split
  · rw [List.getElem?_eq_none (by omega), Option.none_or]
  · rfl

theorem overwrite_length {q xs : List α} {i : ℕ} (h : i + xs.length ≤ q.length) :
    (overwrite q i xs).length = q.length := by
  simp only [overwrite, List.length_append, List.length_take, List.length_drop]
  omega

/-- Inside a chunk, overwriting is patching. -/
theorem overwrite_getElem? {q xs : List α} {i : ℕ} (h : i + xs.length ≤ q.length) (j : ℕ) :
    (overwrite q i xs)[j]? = patch (fun k => q[k]?) i xs j := by
  have htake : (q.take i).length = i := by
    rw [List.length_take]
    omega
  rw [overwrite, List.append_assoc]
  by_cases hi : i ≤ j
  · rw [List.getElem?_append_right (by omega), htake]
    by_cases hj : j < i + xs.length
    · rw [patch_of_mem hi hj, List.getElem?_append_left (by omega)]
    · rw [patch_of_notMem (by omega), List.getElem?_append_right (by omega), List.getElem?_drop]
      congr 1
      omega
  · rw [patch_of_notMem (by omega), List.getElem?_append_left (by omega),
      List.getElem?_take_of_lt (by omega)]

/-! ## The array that a map of chunks stands for -/

/-- Element `p` of the array kept in `chunks` of `n` elements. -/
def view (n : ℕ) (chunks : ℕ → Option (List α)) (p : ℕ) : Option α :=
  (chunks (p / n)).bind fun q => q[p % n]?

variable {n c i : ℕ} {chunks : ℕ → Option (List α)}

/-- Every chunk that is there has `n` elements. -/
def Sized (n : ℕ) (chunks : ℕ → Option (List α)) : Prop := ∀ c q, chunks c = some q → q.length = n

/-- The map of chunks with chunk `c` replaced. -/
def replace (chunks : ℕ → Option (List α)) (c : ℕ) (q : List α) (d : ℕ) : Option (List α) :=
  if d = c then some q else chunks d

/-- A position in terms of its chunk and its place there. -/
theorem div_eq_iff_within (hn : 0 < n) {p : ℕ} : p / n = c ↔ c * n ≤ p ∧ p < c * n + n := by
  rw [Nat.div_eq_iff hn]
  constructor <;> (rintro ⟨_, _⟩; constructor <;> omega)

theorem view_replace_self {q : List α} {p : ℕ} (h : p / n = c) :
    view n (replace chunks c q) p = q[p % n]? := by
  simp [view, replace, h]

theorem view_replace_other {q : List α} {p : ℕ} (h : p / n ≠ c) :
    view n (replace chunks c q) p = view n chunks p := by
  simp [view, replace, h]

theorem replace_self {q : List α} (h : chunks c = some q) : replace chunks c q = chunks := by
  funext d
  unfold replace
  split
  · rename_i hd
    rw [hd, h]
  · rfl

/-- The elements behind `p` in its chunk. -/
theorem view_of_chunk {q : List α} {p : ℕ} {x : α} (h : chunks (p / n) = some q)
    (hq : q.length = n) (hx : q[p % n + i]? = some x) : view n chunks (p + i) = some x := by
  have hlt := (List.getElem?_eq_some_iff.mp hx).1
  have hat : p + i = p / n * n + (p % n + i) := by
    rw [← Nat.add_assoc, Nat.mul_comm, Nat.div_add_mod]
  have hdiv : (p + i) / n = p / n := by
    rw [div_eq_iff_within (by omega)]
    omega
  have hmod : (p + i) % n = p % n + i := by
    have := Nat.div_add_mod (p + i) n
    rw [hdiv, Nat.mul_comm] at this
    omega
  rw [view, hdiv, h, Option.bind_some, hmod, hx]

/-- Overwriting a run inside one chunk patches the array. -/
theorem view_overwrite {q xs : List α} (hn : 0 < n) (hq : q.length = n)
    (hfit : i + xs.length ≤ n) :
    view n (replace chunks c (overwrite q i xs)) =
      patch (view n (replace chunks c q)) (c * n + i) xs := by
  funext p
  by_cases hp : p / n = c
  · have hat : p = c * n + p % n := by
      rw [← hp, Nat.mul_comm]
      exact (Nat.div_add_mod p n).symm
    rw [view_replace_self hp, overwrite_getElem? (by omega)]
    by_cases hmem : i ≤ p % n ∧ p % n < i + xs.length
    · rw [patch_of_mem hmem.1 hmem.2, patch_of_mem (by omega) (by omega)]
      congr 1
      omega
    · rw [patch_of_notMem (by omega), patch_of_notMem (by omega), view_replace_self hp]
  · rw [view_replace_other hp, patch_of_notMem, view_replace_other hp]
    rw [div_eq_iff_within hn] at hp
    omega

end Chunked
