import Mathlib.Algebra.Group.Nat.Defs
import Mathlib.Algebra.GroupWithZero.Nat
import Mathlib.Algebra.BigOperators.Group.List.Basic
import Mathlib.Tactic.Common

/-!
# Lib.Checksum — the Internet checksum

Bytes are read as 16-bit words and added with end-around carry; the checksum is the
complement of the sum. A block that carries its checksum in one of its words adds up to
all ones, which is how a receiver verifies it.

* `add`, `sum`: addition of 16-bit words with end-around carry;
* `sum_le`, `sum_mod`, `sum_eq_zero_iff`: what determines a sum;
* `setWord`, `words_setWord`: a word put in its place;
* `valid_setWord`: a block verifies once its checksum has been put into it.
-/

namespace Checksum

/-- Addition of 16-bit words, the carry added in again. -/
def add (a b : ℕ) : ℕ := if a + b < 65536 then a + b else a + b - 65535

/-- The words of a block, in network order. An odd last byte is padded with a zero. -/
def words : List UInt8 → List ℕ
  | [] => []
  | [a] => [256 * a.toNat]
  | a :: b :: l => (256 * a.toNat + b.toNat) :: words l

def sum (ws : List ℕ) : ℕ := ws.foldr add 0

/-- The checksum of a block. -/
def csum (l : List UInt8) : ℕ := 65535 - sum (words l)

/-- The two bytes of a word as they lie in the block. -/
def bytes (w : ℕ) : UInt8 × UInt8 := (UInt8.ofNat (w / 256), UInt8.ofNat w)

/-- The checksum as it is stored. -/
def inet (l : List UInt8) : UInt8 × UInt8 := bytes (csum l)

/-- The test that a receiver makes. -/
def Valid (l : List UInt8) : Prop := csum l = 0

instance (l : List UInt8) : Decidable (Valid l) := inferInstanceAs (Decidable (_ = _))

/-- Put a word in place `k`. -/
def setWord (l : List UInt8) (k : ℕ) (w : UInt8 × UInt8) : List UInt8 :=
  (l.set (2 * k) w.1).set (2 * k + 1) w.2

/-! ## Sums -/

theorem add_le {a b : ℕ} (ha : a ≤ 65535) (hb : b ≤ 65535) : add a b ≤ 65535 := by
  unfold add
  split <;> omega

theorem add_mod (a b : ℕ) : add a b % 65535 = (a + b) % 65535 := by
  unfold add
  split <;> omega

theorem add_eq_zero_iff (a b : ℕ) : add a b = 0 ↔ a = 0 ∧ b = 0 := by
  unfold add
  split <;> omega

theorem word_le (a b : UInt8) : 256 * a.toNat + b.toNat ≤ 65535 := by
  have ha := a.toNat_lt
  have hb := b.toNat_lt
  omega

theorem words_le {l : List UInt8} {w : ℕ} (hw : w ∈ words l) : w ≤ 65535 := by
  induction l using words.induct with
  | case1 => simp [words] at hw
  | case2 a =>
      have ha := a.toNat_lt
      have heq : w = 256 * a.toNat := by simpa [words] using hw
      omega
  | case3 a b l ih =>
      rcases List.mem_cons.mp hw with rfl | hw
      · exact word_le a b
      · exact ih hw

section Sums

variable {ws : List ℕ}

theorem sum_le (h : ∀ w ∈ ws, w ≤ 65535) : sum ws ≤ 65535 := by
  induction ws with
  | nil => decide
  | cons w ws ih =>
      rcases List.forall_mem_cons.mp h with ⟨hw, hws⟩
      exact add_le hw (ih hws)

theorem sum_mod (ws : List ℕ) : sum ws % 65535 = ws.sum % 65535 := by
  induction ws with
  | nil => rfl
  | cons w ws ih =>
      show add w (sum ws) % 65535 = (w :: ws).sum % 65535
      rw [add_mod, List.sum_cons, Nat.add_mod, ih, ← Nat.add_mod]

theorem sum_eq_zero_iff (ws : List ℕ) : sum ws = 0 ↔ ws.sum = 0 := by
  induction ws with
  | nil => simp [sum]
  | cons w ws ih =>
      show add w (sum ws) = 0 ↔ (w :: ws).sum = 0
      rw [add_eq_zero_iff, ih, List.sum_cons]
      omega

theorem sum_set {k : ℕ} (hk : k < ws.length) (w : ℕ) :
    (ws.set k w).sum = (ws.set k 0).sum + w := by
  induction ws generalizing k with
  | nil => simp at hk
  | cons x ws ih =>
      cases k with
      | zero =>
          simp only [List.set_cons_zero, List.sum_cons]
          omega
      | succ k =>
          have hrest := ih (k := k) (by simpa using hk)
          simp only [List.set_cons_succ, List.sum_cons]
          omega

end Sums

/-! ## A word in its place -/

theorem bytes_word {w : ℕ} (h : w ≤ 65535) : 256 * (bytes w).1.toNat + (bytes w).2.toNat = w := by
  simp only [bytes, UInt8.toNat_ofNat']
  omega

theorem words_length_le {l : List UInt8} {k : ℕ} (h : 2 * k + 1 < l.length) :
    k < (words l).length := by
  induction l using words.induct generalizing k with
  | case1 => simp at h
  | case2 a =>
      simp only [List.length_singleton] at h
      omega
  | case3 a b l ih =>
      simp only [words, List.length_cons] at h ⊢
      cases k with
      | zero => omega
      | succ k =>
          have hk := ih (k := k) (by omega)
          omega

theorem words_setWord {l : List UInt8} {k : ℕ} (h : 2 * k + 1 < l.length) (w : UInt8 × UInt8) :
    words (setWord l k w) = (words l).set k (256 * w.1.toNat + w.2.toNat) := by
  induction l using words.induct generalizing k with
  | case1 => simp at h
  | case2 a =>
      simp only [List.length_singleton] at h
      omega
  | case3 a b l ih =>
      simp only [List.length_cons] at h
      cases k with
      | zero => rfl
      | succ k =>
          have hk := ih (k := k) (by omega)
          have htail : setWord (a :: b :: l) (k + 1) w = a :: b :: setWord l k w := rfl
          rw [htail]
          simp only [words, List.set_cons_succ, hk]

/-- A block into which the checksum of the rest has been put verifies. -/
theorem valid_setWord {l : List UInt8} {k : ℕ} (h : 2 * k + 1 < l.length) :
    Valid (setWord l k (inet (setWord l k (0, 0)))) := by
  have hk := words_length_le h
  have hzero : words (setWord l k (0, 0)) = (words l).set k 0 := by
    rw [words_setWord h]
    rfl
  have hle : sum ((words l).set k 0) ≤ 65535 := by
    rw [← hzero]
    exact sum_le fun _ hw => words_le hw
  have hword : words (setWord l k (inet (setWord l k (0, 0)))) =
      (words l).set k (65535 - sum ((words l).set k 0)) := by
    rw [words_setWord h, inet, bytes_word (by unfold csum; omega), csum, hzero]
  have hall : sum (words (setWord l k (inet (setWord l k (0, 0))))) ≤ 65535 :=
    sum_le fun _ hw => words_le hw
  rw [hword] at hall
  have hmod := sum_mod ((words l).set k (65535 - sum ((words l).set k 0)))
  have hrest := sum_mod ((words l).set k 0)
  have hnone := sum_eq_zero_iff ((words l).set k (65535 - sum ((words l).set k 0)))
  have hnone' := sum_eq_zero_iff ((words l).set k 0)
  rw [sum_set hk] at hmod hnone
  unfold Valid csum
  rw [hword]
  omega

end Checksum
