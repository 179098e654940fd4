import DriversLab.Lib.Chunked

/-!
# Lib.Buffer — arrays with checked accesses

An access that does not lie in the array it is made to has no result but an `Overrun`. A
program of such accesses is in `Except`, and comes to its end exactly if every access
lies inside.

* `load`, `read`: one entry, and a range of them;
* `write`: a range, as `Chunked.overwrite` puts it there;
* `load_overwrite_of_lt`: what lies in front of a range that is written stays.
-/

namespace Buffer

open Chunked

universe u

variable {α : Type u} {b b' src : List α} {off n i : ℕ} {a : α}

/-- The range that has been asked for, and the size of the array. -/
structure Overrun where
  offset : ℕ
  length : ℕ
  size : ℕ
deriving DecidableEq, Repr

def load (b : List α) (i : ℕ) : Except Overrun α :=
  if h : i < b.length then .ok b[i] else .error ⟨i, 1, b.length⟩

def read (b : List α) (off n : ℕ) : Except Overrun (List α) :=
  if off + n ≤ b.length then .ok ((b.drop off).take n) else .error ⟨off, n, b.length⟩

def write (b : List α) (off : ℕ) (src : List α) : Except Overrun (List α) :=
  if off + src.length ≤ b.length then .ok (overwrite b off src)
  else .error ⟨off, src.length, b.length⟩

theorem load_ok (h : i < b.length) : load b i = .ok b[i] := dif_pos h

theorem read_ok (h : off + n ≤ b.length) : read b off n = .ok ((b.drop off).take n) := if_pos h

theorem write_ok (h : off + src.length ≤ b.length) : write b off src = .ok (overwrite b off src) :=
  if_pos h

theorem read_isOk_iff : (∃ v, read b off n = .ok v) ↔ off + n ≤ b.length := by
  constructor
  · rintro ⟨v, hv⟩
    unfold read at hv
    split at hv
    · assumption
    · cases hv
  · exact fun h => ⟨_, read_ok h⟩

theorem write_eq_ok :
    write b off src = .ok b' ↔ off + src.length ≤ b.length ∧ b' = overwrite b off src := by
  constructor
  · intro h
    unfold write at h
    split at h
    · rename_i hroom
      cases h
      exact ⟨hroom, rfl⟩
    · cases h
  · rintro ⟨hroom, rfl⟩
    exact write_ok hroom

theorem load_overwrite_of_lt (h : i < off) (hroom : off + src.length ≤ b.length) :
    load (overwrite b off src) i = load b i := by
  have hlen := overwrite_length hroom
  have hi : i < b.length := by omega
  have hget := overwrite_getElem? hroom i
  rw [patch_of_notMem (Or.inl h), List.getElem?_eq_getElem hi,
    List.getElem?_eq_getElem (hlen ▸ hi)] at hget
  rw [load_ok hi, load_ok (hlen ▸ hi), Option.some.inj hget]

/-! ## Programs -/

section Programs

variable {ε β γ : Type u} {x : Except ε β} {f : β → Except ε γ} {c : γ}

theorem bind_eq_ok : (x >>= f) = .ok c ↔ ∃ v, x = .ok v ∧ f v = .ok c := by
  cases x with
  | error e =>
      constructor
      · intro h
        cases h
      · rintro ⟨v, hv, _⟩
        cases hv
  | ok v =>
      constructor
      · exact fun h => ⟨v, rfl, h⟩
      · rintro ⟨w, hw, hc⟩
        cases hw
        exact hc

@[simp] theorem ok_bind (v : β) : (Except.ok v >>= f) = f v := rfl

end Programs

end Buffer
