import DriversLab.Scull.Calls
import DriversLab.Scull.Sparse
import Mathlib.Tactic.Ring

/-!
# Scull.Alias — where the positions of a scull device lead

`*f_pos / itemsize` is computed with 64 bits and stored in an `int`, and the `int`
counts the steps down the list.

* `Addressed`: the law of a position, which is that its item, entry and offset give the
  position back and that the list is followed to that item;
* `sameByte_iff`: two positions lead to one byte exactly when they differ by a multiple of
  2^32 items;
* `addressed_iff`: the law holds exactly of the positions whose item has an index below
  2^31.
-/

namespace Scull

open CInt Lts

/-- Item, entry and offset of a position are in range and give the position back, and
`while (n--)` ends after as many iterations as the item says. -/
def Addressed (g : Geometry) (p : ℤ) : Prop :=
  ∃ pos, place g p = some pos ∧ (pos.item * g.qset + pos.sPos) * g.quantum + pos.qPos = p ∧
    0 ≤ pos.item ∧ (0 ≤ pos.sPos ∧ pos.sPos < g.qset) ∧ (0 ≤ pos.qPos ∧ pos.qPos < g.quantum) ∧
    (pos.hops : ℤ) = pos.item

/-- The same byte of the same entry of the item that `scull_follow` reaches. -/
def SameByte (g : Geometry) (p p' : ℤ) : Prop :=
  ∃ pos pos', place g p = some pos ∧ place g p' = some pos' ∧ pos.hops = pos'.hops ∧
    pos.sPos = pos'.sPos ∧ pos.qPos = pos'.qPos

section Positions

variable {quantum qset : ℕ}

/-- The number of iterations is the index of the item, with 32 bits. -/
theorem hops_toInt (n : ℕ) (sPos qPos : ℤ) :
    Place.hops ⟨toInt n, sPos, qPos⟩ = n % 2 ^ 32 := by
  rw [Place.hops, toUInt_toInt]
  unfold toUInt
  omega

/-- A remainder determines the quotient and the remainder by a factor, and they it. -/
theorem mod_mul_eq_iff {n m a b : ℕ} :
    a % (n * m) = b % (n * m) ↔ a / n % m = b / n % m ∧ a % n = b % n := by
  constructor
  · intro h
    rw [← Nat.mod_mul_right_div_self, ← Nat.mod_mul_right_div_self, h]
    refine ⟨rfl, ?_⟩
    rw [← Nat.mod_mul_right_mod a n m, h, Nat.mod_mul_right_mod]
  · rintro ⟨hdiv, hmod⟩
    rw [Nat.mod_mul, Nat.mod_mul, hdiv, hmod]

theorem sameByte_nat (hq : 0 < quantum) (hs : 0 < qset) (hfits : quantum * qset < 2 ^ 31)
    (p p' : ℕ) : SameByte ⟨quantum, qset⟩ p p' ↔
      p % (quantum * qset * 2 ^ 32) = p' % (quantum * qset * 2 ^ 32) := by
  have hplace := place_nat hq hs hfits p
  have hplace' := place_nat hq hs hfits p'
  rw [mod_mul_eq_iff]
  constructor
  · rintro ⟨pos, pos', h, h', hhops, hsPos, hqPos⟩
    rw [h, Option.some.injEq] at hplace
    rw [h', Option.some.injEq] at hplace'
    subst hplace hplace'
    rw [hops_toInt, hops_toInt] at hhops
    rw [Int.natCast_inj] at hsPos hqPos
    refine ⟨hhops, ?_⟩
    calc p % (quantum * qset)
        = quantum * (p % (quantum * qset) / quantum) + p % (quantum * qset) % quantum :=
          (Nat.div_add_mod _ _).symm
      _ = quantum * (p' % (quantum * qset) / quantum) + p' % (quantum * qset) % quantum := by
          rw [hsPos, hqPos]
      _ = p' % (quantum * qset) := Nat.div_add_mod _ _
  · rintro ⟨hhops, hmod⟩
    refine ⟨_, _, hplace, hplace', ?_, ?_, ?_⟩
    · rw [hops_toInt, hops_toInt, hhops]
    · rw [hmod]
    · rw [hmod]

/-- What item, entry and offset give back, when the list is followed to `item`. -/
theorem give_back (item : ℤ) (p : ℕ) :
    (item * qset + (p % (quantum * qset) / quantum : ℕ)) * quantum +
      (p % (quantum * qset) % quantum : ℕ) =
        item * (quantum * qset : ℕ) + (p % (quantum * qset) : ℕ) := by
  have h := Nat.div_add_mod (p % (quantum * qset)) quantum
  calc (item * qset + (p % (quantum * qset) / quantum : ℕ)) * quantum +
          ((p % (quantum * qset) % quantum : ℕ) : ℤ)
      = item * (quantum * qset : ℕ) + (quantum * (p % (quantum * qset) / quantum) +
          p % (quantum * qset) % quantum : ℕ) := by push_cast; ring
    _ = item * (quantum * qset : ℕ) + (p % (quantum * qset) : ℕ) := by rw [h]

theorem addressed_nat (hq : 0 < quantum) (hs : 0 < qset) (hfits : quantum * qset < 2 ^ 31)
    (p : ℕ) : Addressed ⟨quantum, qset⟩ p ↔ p / (quantum * qset) < 2 ^ 31 := by
  have hplace := place_nat hq hs hfits p
  have hprod : 0 < quantum * qset := Nat.mul_pos hq hs
  have hp := Nat.div_add_mod p (quantum * qset)
  constructor
  · rintro ⟨pos, h, hback, _⟩
    rw [h, Option.some.injEq] at hplace
    subst hplace
    simp only [give_back] at hback
    -- the int is the quotient itself
    have hitem : toInt (p / (quantum * qset) : ℕ) = (p / (quantum * qset) : ℕ) := by
      apply Int.eq_of_mul_eq_mul_right (a := ((quantum * qset : ℕ) : ℤ)) (by omega)
      have hp' : ((p / (quantum * qset) * (quantum * qset) : ℕ) : ℤ) + (p % (quantum * qset) : ℕ) =
          p := by
        rw [← Int.natCast_add, Nat.mul_comm, hp]
      rw [← Int.natCast_mul]
      exact add_right_cancel (hback.trans hp'.symm)
    have hrange := (toInt_range (p / (quantum * qset) : ℕ)).2
    rw [hitem] at hrange
    generalize p / (quantum * qset) = item at hrange
    omega
  · intro hlt
    have hitem : toInt (p / (quantum * qset) : ℕ) = (p / (quantum * qset) : ℕ) := by
      generalize p / (quantum * qset) = item at hlt
      exact toInt_of_range (by omega) (by omega)
    refine ⟨_, hplace, ?_, ?_, ?_, ?_, ?_⟩
    · simp only [give_back, hitem]
      rw [← Int.natCast_mul, ← Int.natCast_add, Nat.mul_comm, hp]
    · show 0 ≤ toInt (p / (quantum * qset) : ℕ)
      rw [hitem]
      exact Int.natCast_nonneg _
    · refine ⟨Int.natCast_nonneg _, Int.ofNat_lt.mpr ?_⟩
      exact Nat.div_lt_of_lt_mul (Nat.mod_lt _ hprod)
    · exact ⟨Int.natCast_nonneg _, Int.ofNat_lt.mpr (Nat.mod_lt _ hq)⟩
    · rw [hops_toInt]
      show _ = toInt (p / (quantum * qset) : ℕ)
      rw [hitem, Nat.mod_eq_of_lt (by omega)]

end Positions

/-- For all positive sizes whose product fits in an `int` and all positions that
`scull_llseek` takes: two positions lead where they should, and to two bytes unless they
are one, exactly when the index of the item of each is below 2^31. Two positions lead to
one byte exactly when they differ by a multiple of 2^32 items. -/
theorem positions_iff {g : Geometry} (hg : g.Valid) (hfits : g.Fits) {p p' : ℤ}
    (hp : 0 ≤ p ∧ p < 2 ^ 63) (hp' : 0 ≤ p' ∧ p' < 2 ^ 63) :
    ((Addressed g p ∧ Addressed g p' ∧ (SameByte g p p' → p = p')) ↔
      g.Reaches p ∧ g.Reaches p') ∧
    (SameByte g p p' ↔
      p % (g.quantum * g.qset * 2 ^ 32) = p' % (g.quantum * g.qset * 2 ^ 32)) := by
  rcases hg with ⟨hq, _, hs, _⟩
  rcases g with ⟨quantum, qset⟩
  unfold Geometry.Fits at hfits
  unfold Geometry.Reaches
  simp only at hq hs hfits ⊢
  rcases hp with ⟨hp, _⟩
  rcases hp' with ⟨hp', _⟩
  lift quantum to ℕ using hq.le
  lift qset to ℕ using hs.le
  lift p to ℕ using hp
  lift p' to ℕ using hp'
  have hq : 0 < quantum := by omega
  have hs : 0 < qset := by omega
  have hfits : quantum * qset < 2 ^ 31 := by
    rw [← Int.natCast_mul] at hfits
    omega
  have hreach : ∀ p : ℕ, (p : ℤ) / ((quantum : ℤ) * qset) < 2 ^ 31 ↔
      p / (quantum * qset) < 2 ^ 31 := by
    intro p
    rw [← Int.natCast_mul, ← Int.natCast_ediv]
    generalize p / (quantum * qset) = item
    omega
  rw [hreach, hreach, addressed_nat hq hs hfits, addressed_nat hq hs hfits,
    sameByte_nat hq hs hfits]
  constructor
  · constructor
    · rintro ⟨h, h', _⟩
      exact ⟨h, h'⟩
    · rintro ⟨h, h'⟩
      refine ⟨h, h', ?_⟩
      intro hmod
      -- both are below 2^32 items
      have hsmall : ∀ p : ℕ, p / (quantum * qset) < 2 ^ 31 → p < quantum * qset * 2 ^ 32 := by
        intro p hlt
        rw [Nat.div_lt_iff_lt_mul (Nat.mul_pos hq hs)] at hlt
        omega
      rw [Nat.mod_eq_of_lt (hsmall p h), Nat.mod_eq_of_lt (hsmall p' h')] at hmod
      rw [hmod]
  · have hcast : (quantum : ℤ) * qset * 2 ^ 32 = (quantum * qset * 2 ^ 32 : ℕ) := by push_cast; ring
    rw [hcast, ← Int.natCast_emod, ← Int.natCast_emod, Int.natCast_inj]

/-- The first position behind 2^32 items, and the position in front of all. -/
theorem positions_iff_far : (Addressed ⟨4, 2⟩ (2 ^ 35) ∧ Addressed ⟨4, 2⟩ 0 ∧
      (SameByte ⟨4, 2⟩ (2 ^ 35) 0 → (2 ^ 35 : ℤ) = 0) ↔
    Geometry.Reaches ⟨4, 2⟩ (2 ^ 35) ∧ Geometry.Reaches ⟨4, 2⟩ 0) ∧
    (SameByte ⟨4, 2⟩ (2 ^ 35) 0 ↔ (2 ^ 35 : ℤ) % (4 * 2 * 2 ^ 32) = 0 % (4 * 2 * 2 ^ 32)) :=
  positions_iff (by constructor <;> decide) (by unfold Geometry.Fits; decide) (by omega) (by omega)

/-- `scull_llseek` takes the position, and a byte written there overwrites the first byte
of the device. With the sizes that the module is loaded with, it is the same. -/
theorem positions_alias :
    scullLlseek 1 1 (2 ^ 35) .seekSet = (2 ^ 35, 2 ^ 35) ∧
    (∃ s, run Calls.step (Calls.init ⟨4, 2, 0⟩)
        [.write 0 [1] ⟨1, true, some fun _ => 0, none⟩,
          .write (2 ^ 35) [2] ⟨0, false, none, none⟩] = some s ∧
      answer (scullRead s.dev.geometry 1 0 ⟨0, false, none, none⟩ s.dev) = .ok (1, [2])) ∧
    ¬ Addressed ⟨4, 2⟩ (2 ^ 35) ∧
    SameByte Params.default.geometry (4000000 * 2 ^ 32) 0 := by
  have hzero : place ⟨4, 2⟩ (2 ^ 35) = some ⟨0, 0, 0⟩ := by decide
  refine ⟨by decide, ⟨_, rfl, rfl⟩, ?_, ⟨0, 0, 0⟩, ⟨0, 0, 0⟩, by decide, by decide, rfl, rfl, rfl⟩
  rintro ⟨pos, hplace, hback, _⟩
  rw [hzero, Option.some.injEq] at hplace
  subst hplace
  exact absurd hback (by decide)

end Scull
