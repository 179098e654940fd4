import Mathlib.Tactic.Common
import Mathlib.Data.List.Basic
import Mathlib.Data.Int.Basic

/-!
# Lib.Ring — the bytes between two positions of a ring

A memory is a function from positions; a ring is its part `0 .. n`. The elements
held between a read and a write position are one run of cells, or two when the
write position has wrapped. Nothing here counts them: empty and full are told
apart by the positions alone, so one cell always stays free.

* `segment`, `store`: a run of cells, and the memory after one is overwritten;
* `content`, `free`: what is held, and how many cells may still be written;
* `content_take`: reading from the front, up to the wrap;
* `content_store`: writing behind the back, up to the wrap;
* `content_extend`: moving the write position over cells that have been written;
* `Occupied`: the cells that are held, which a run that fits does not touch.
-/

namespace Ring

universe u

variable {α : Type u} (mem : ℤ → α) {n rp wp a b : ℤ} {k l : ℕ}

/-! ## Runs of cells -/

/-- The `k` cells from `a` on. -/
def segment (a : ℤ) (k : ℕ) : List α := (List.range k).map fun i : ℕ => mem (a + i)

/-- The memory after `xs` has been written from `a` on. -/
def store (a : ℤ) (xs : List α) (x : ℤ) : α :=
  if a ≤ x then xs[(x - a).toNat]?.getD (mem x) else mem x

@[simp] theorem segment_one (a : ℤ) : segment mem a 1 = [mem a] := by
  simp [segment]

@[simp] theorem segment_length (a : ℤ) (k : ℕ) : (segment mem a k).length = k := by
  simp [segment]

@[simp] theorem segment_zero (a : ℤ) : segment mem a 0 = [] := rfl

theorem segment_add (a : ℤ) (k l : ℕ) :
    segment mem a (k + l) = segment mem a k ++ segment mem (a + k) l := by
  unfold segment
  rw [List.range_add, List.map_append, List.map_map]
  congr 1
  apply List.map_congr_left
  intro i _
  rw [Function.comp_apply, Int.natCast_add, Int.add_assoc]

/-- Cells that are not written keep their value. -/
theorem segment_store_of_disjoint {xs : List α}
    (h : b + k ≤ a ∨ a + xs.length ≤ b) : segment (store mem a xs) b k = segment mem b k := by
  unfold segment
  apply List.map_congr_left
  intro i hi
  have hik : i < k := List.mem_range.mp hi
  unfold store
  split
  · rename_i hle
    rw [List.getElem?_eq_none (by omega)]
    rfl
  · rfl

/-- The cells that are written hold what was written. -/
theorem segment_store_self (a : ℤ) (xs : List α) :
    segment (store mem a xs) a xs.length = xs := by
  apply List.ext_getElem
  · simp
  · intro i h₁ h₂
    have hi : (a + (i : ℤ) - a).toNat = i := by omega
    simp only [segment, store, List.getElem_map, List.getElem_range]
    rw [if_pos (by omega), hi, List.getElem?_eq_getElem h₂, Option.getD_some]

/-! ## What the ring holds -/

/-- The elements between the read and the write position, oldest first. -/
def content (n rp wp : ℤ) : List α :=
  if rp ≤ wp then segment mem rp (wp - rp).toNat
  else segment mem rp (n - rp).toNat ++ segment mem 0 wp.toNat

/-- The number of cells that may still be written. -/
def free (n rp wp : ℤ) : ℤ := if rp ≤ wp then n - 1 - (wp - rp) else rp - wp - 1

/-- A position after `k` more cells: the end of the ring is its beginning. -/
def advance (n p : ℤ) (k : ℕ) : ℤ := if p + k = n then 0 else p + k

/-- Both positions lie in the ring. -/
structure Within (n rp wp : ℤ) : Prop where
  rpNonneg : 0 ≤ rp
  rpLt : rp < n
  wpNonneg : 0 ≤ wp
  wpLt : wp < n

variable {mem}

@[simp] theorem content_empty : content mem n rp rp = [] := by
  simp [content]

/-- What is held and what is free make up the ring but for one cell. -/
theorem length_add_free (mem : ℤ → α) (h : Within n rp wp) :
    ((content mem n rp wp).length : ℤ) + free n rp wp = n - 1 := by
  rcases h with ⟨_, _, _, _⟩
  unfold content free
  split
  · simp only [segment_length]
    omega
  · simp only [List.length_append, segment_length]
    omega

theorem free_nonneg (h : Within n rp wp) : 0 ≤ free n rp wp := by
  rcases h with ⟨_, _, _, _⟩
  unfold free
  split <;> omega

/-- Only equal positions hold nothing. -/
theorem content_length_eq_zero_iff (h : Within n rp wp) :
    (content mem n rp wp).length = 0 ↔ rp = wp := by
  rcases h with ⟨_, _, _, _⟩
  unfold content
  split
  · simp only [segment_length]
    omega
  · simp only [List.length_append, segment_length]
    omega

/-- The number of elements that can be read in one run. -/
def readable (n rp wp : ℤ) : ℤ := if rp < wp then wp - rp else n - rp

/-- The number of elements that can be written in one run. -/
def writable (n rp wp : ℤ) : ℤ := if rp ≤ wp then n - wp else rp - wp - 1

/-- One run that is read ends at the end of the ring at the latest. -/
theorem Within.read (h : Within n rp wp) (hk : (k : ℤ) ≤ readable n rp wp) :
    Within n (advance n rp k) wp := by
  unfold readable at hk
  unfold advance
  rcases h with ⟨_, _, hnonneg, hlt⟩
  refine ⟨?_, ?_, hnonneg, hlt⟩
  · split <;> omega
  · split at hk <;> split <;> omega

/-- So does one that is written. -/
theorem Within.write (h : Within n rp wp) (hk : (k : ℤ) ≤ writable n rp wp) :
    Within n rp (advance n wp k) := by
  unfold writable at hk
  unfold advance
  rcases h with ⟨hnonneg, hlt, _, _⟩
  refine ⟨hnonneg, hlt, ?_, ?_⟩
  · split <;> omega
  · split at hk <;> split <;> omega

theorem one_le_readable (h : Within n rp wp) : 1 ≤ readable n rp wp := by
  rcases h with ⟨_, _, _, _⟩
  unfold readable
  split <;> omega

theorem one_le_writable (h : Within n rp wp) (hfree : 1 ≤ free n rp wp) :
    1 ≤ writable n rp wp := by
  rcases h with ⟨_, _, _, _⟩
  unfold free at hfree
  unfold writable
  split at hfree <;> split <;> omega

/-- Reading one run from the front leaves the rest. -/
theorem content_take (h : Within n rp wp) (hne : rp ≠ wp) (hk : (k : ℤ) ≤ readable n rp wp) :
    content mem n rp wp = segment mem rp k ++ content mem n (advance n rp k) wp := by
  rcases h with ⟨_, _, _, _⟩
  by_cases hlt : rp < wp
  · -- one run, which does not reach the end of the ring
    rw [readable, if_pos hlt] at hk
    have hadv : advance n rp k = rp + k := if_neg (by omega)
    rw [hadv, content, if_pos (by omega), content, if_pos (by omega), ← segment_add]
    congr 1
    omega
  · rw [readable, if_neg hlt] at hk
    have hsplit : (n - rp).toNat = k + (n - rp - k).toNat := by omega
    rw [content, if_neg (by omega), hsplit, segment_add, List.append_assoc]
    by_cases hend : rp + k = n
    · -- the first run is used up: the read position wraps
      have hadv : advance n rp k = 0 := if_pos hend
      have hrest : (n - rp - k).toNat = 0 := by omega
      rw [hadv, hrest, segment_zero, List.nil_append, content, if_pos (by omega), Int.sub_zero]
    · have hadv : advance n rp k = rp + k := if_neg hend
      have hrest : (n - (rp + k)).toNat = (n - rp - k).toNat := by omega
      rw [hadv, content, if_neg (by omega), hrest]

/-- Writing one run behind the back appends it. -/
theorem content_store (h : Within n rp wp) {xs : List α}
    (hfree : (xs.length : ℤ) ≤ free n rp wp) (hrun : (xs.length : ℤ) ≤ writable n rp wp) :
    content (store mem wp xs) n rp (advance n wp xs.length) = content mem n rp wp ++ xs := by
  rcases h with ⟨_, _, _, _⟩
  by_cases hle : rp ≤ wp
  · rw [free, if_pos hle] at hfree
    rw [writable, if_pos hle] at hrun
    -- the cells already held lie before the ones that are written
    have hheld : segment (store mem wp xs) rp (wp - rp).toNat = segment mem rp (wp - rp).toNat :=
      segment_store_of_disjoint mem (Or.inl (by omega))
    have hjoin : ∀ l, l = (wp - rp).toNat + xs.length → segment (store mem wp xs) rp l =
        segment mem rp (wp - rp).toNat ++ xs := by
      rintro l rfl
      have hat : rp + ((wp - rp).toNat : ℤ) = wp := by omega
      rw [segment_add, hheld, hat, segment_store_self]
    rw [content.eq_def mem, if_pos hle]
    by_cases hend : wp + xs.length = n
    · -- the write position wraps; the free cell keeps it off the read position
      have hadv : advance n wp xs.length = 0 := if_pos hend
      rw [hadv, content, if_neg (by omega), Int.toNat_zero, segment_zero, List.append_nil]
      exact hjoin _ (by omega)
    · have hadv : advance n wp xs.length = wp + xs.length := if_neg hend
      rw [hadv, content, if_pos (by omega)]
      exact hjoin _ (by omega)
  · rw [writable, if_neg hle] at hrun
    have hadv : advance n wp xs.length = wp + xs.length := if_neg (by omega)
    have hfront : segment (store mem wp xs) rp (n - rp).toNat = segment mem rp (n - rp).toNat :=
      segment_store_of_disjoint mem (Or.inr (by omega))
    have hback : segment (store mem wp xs) 0 wp.toNat = segment mem 0 wp.toNat :=
      segment_store_of_disjoint mem (Or.inl (by omega))
    have hlen : (wp + xs.length).toNat = wp.toNat + xs.length := by omega
    have hat : 0 + (wp.toNat : ℤ) = wp := by omega
    rw [hadv, content, if_neg (by omega), content, if_neg hle, hfront, hlen, segment_add, hback,
      hat, segment_store_self, List.append_assoc]

/-- A write into free cells leaves what is held alone while the write position
stays. -/
theorem content_store_stay (h : Within n rp wp) {xs : List α}
    (hrun : (xs.length : ℤ) ≤ writable n rp wp) :
    content (store mem wp xs) n rp wp = content mem n rp wp := by
  rcases h with ⟨_, _, _, _⟩
  by_cases hle : rp ≤ wp
  · rw [content, if_pos hle, content, if_pos hle]
    exact segment_store_of_disjoint mem (Or.inl (by omega))
  · rw [writable, if_neg hle] at hrun
    rw [content, if_neg hle, content, if_neg hle,
      segment_store_of_disjoint mem (Or.inr (by omega)),
      segment_store_of_disjoint mem (Or.inl (by omega))]

/-- What a memory holds may be written back. -/
theorem store_segment_self (mem : ℤ → α) (a : ℤ) (k : ℕ) : store mem a (segment mem a k) = mem := by
  funext x
  unfold store
  split
  · rename_i hle
    by_cases hk : (x - a).toNat < k
    · have hx : a + ((x - a).toNat : ℤ) = x := by omega
      rw [segment, List.getElem?_map, List.getElem?_range hk, Option.map_some, Option.getD_some, hx]
    · rw [List.getElem?_eq_none (by rw [segment_length]; omega)]
      rfl
  · rfl

/-- Moving the write position over cells that have been written appends what they hold. -/
theorem content_extend (h : Within n rp wp) (hfree : (k : ℤ) ≤ free n rp wp)
    (hrun : (k : ℤ) ≤ writable n rp wp) :
    content mem n rp (advance n wp k) = content mem n rp wp ++ segment mem wp k := by
  have hlen : (segment mem wp k).length = k := segment_length mem wp k
  have hstore : content (store mem wp (segment mem wp k)) n rp
      (advance n wp (segment mem wp k).length) = content mem n rp wp ++ segment mem wp k :=
    content_store h (by rwa [hlen]) (by rwa [hlen])
  rwa [store_segment_self, hlen] at hstore

/-- The cells between the read and the write position. -/
def Occupied (n rp wp x : ℤ) : Prop :=
  if rp ≤ wp then rp ≤ x ∧ x < wp else rp ≤ x ∧ x < n ∨ 0 ≤ x ∧ x < wp

/-- A run that fits lies in the ring, and touches no cell that is held. -/
theorem run_free (h : Within n rp wp) (hrun : (k : ℤ) ≤ writable n rp wp) :
    wp + k ≤ n ∧ ∀ x, wp ≤ x → x < wp + k → ¬ Occupied n rp wp x := by
  rcases h with ⟨_, _, _, _⟩
  unfold writable at hrun
  unfold Occupied
  constructor
  · split at hrun <;> omega
  · intro x hl hu
    split
    · rename_i hle
      rw [if_pos hle] at hrun
      omega
    · rename_i hle
      rw [if_neg hle] at hrun
      omega

theorem Occupied.bounds (h : Within n rp wp) {x : ℤ} (hx : Occupied n rp wp x) :
    0 ≤ x ∧ x < n := by
  rcases h with ⟨_, _, _, _⟩
  unfold Occupied at hx
  split at hx <;> omega

/-- What is held depends on the cells that are held. -/
theorem content_congr {mem mem' : ℤ → α} (h : Within n rp wp)
    (hsame : ∀ x, Occupied n rp wp x → mem' x = mem x) :
    content mem' n rp wp = content mem n rp wp := by
  rcases h with ⟨_, _, _, _⟩
  have hseg : ∀ a : ℤ, ∀ k : ℕ, (∀ i : ℕ, i < k → Occupied n rp wp (a + i)) →
      segment mem' a k = segment mem a k := by
    intro a k hin
    apply List.map_congr_left
    intro i hi
    exact hsame _ (hin i (List.mem_range.mp hi))
  unfold content
  split
  · rename_i hle
    apply hseg
    intro i hi
    rw [Occupied, if_pos hle]
    omega
  · rename_i hle
    rw [hseg rp (n - rp).toNat ?_, hseg 0 wp.toNat ?_]
    · intro i hi
      rw [Occupied, if_neg hle]
      omega
    · intro i hi
      rw [Occupied, if_neg hle]
      omega

end Ring
