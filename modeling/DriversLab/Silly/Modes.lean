import DriversLab.Lib.Lts
import Mathlib.Data.Nat.Bitwise

/-!
# Silly.Modes — the memory from 640k to 1M, in four widths

`silly.c`: the minor number of the device says whether `silly_read` and `silly_write`
access the memory by bytes, by 16 or by 32 bits, or with `memcpy`. A transfer that is
not aligned is done in a smaller width.

1. **Words**: bytes as a little-endian word, and back.
2. **The calls**, with one loop for the three widths: `readLoop` stores the words it
   reads, `writeLoop` hands every word to `iowrite8`.
3. **Reads**: `stream_iff`, what a run of reads in any widths hands over.
4. **Writes**: `read_write_iff`, when what has been written can be read back.

The memory has no other user. A size from 2^63 on is one that `kmalloc` does not serve.
-/

namespace Silly

open Lts

/-! ## Words -/

/-- The bytes of a little-endian word. -/
def word : List UInt8 → ℕ
  | [] => 0
  | b :: bs => b.toNat + 256 * word bs

/-- The `w` low bytes of a number. -/
def bytes : ℕ → ℕ → List UInt8
  | 0, _ => []
  | w + 1, v => UInt8.ofNat v :: bytes w (v / 256)

@[simp] theorem bytes_word (l : List UInt8) : bytes l.length (word l) = l := by
  induction l with
  | nil => rfl
  | cons b bs ih =>
      have hb := b.toNat_lt
      have hlow : UInt8.ofNat (b.toNat + 256 * word bs) = b := by
        apply UInt8.toNat.inj
        rw [UInt8.toNat_ofNat']
        omega
      have hhigh : (b.toNat + 256 * word bs) / 256 = word bs := by omega
      rw [List.length_cons, word, bytes, hlow, hhigh, ih]

/-- The low byte of a word is its first one. -/
theorem ofNat_word (b : UInt8) (bs : List UInt8) : UInt8.ofNat (word (b :: bs)) = b := by
  have h := bytes_word (b :: bs)
  rw [List.length_cons, bytes] at h
  exact List.head_eq_of_cons_eq h

/-! ## The memory -/

/-- The memory, by the distance from `io_base`. -/
abbrev Isa := ℕ → UInt8

/-- The `n` bytes from `a` on. -/
def peek (mem : Isa) (a n : ℕ) : List UInt8 := (List.range' a n).map mem

@[simp] theorem peek_length (mem : Isa) (a n : ℕ) : (peek mem a n).length = n := by
  rw [peek, List.length_map, List.length_range']

theorem peek_append (mem : Isa) (a m n : ℕ) :
    peek mem a m ++ peek mem (a + m) n = peek mem a (m + n) := by
  rw [peek, peek, peek, ← List.map_append, List.range'_append_1]

theorem peek_eq_iff {mem : Isa} {a : ℕ} {l : List UInt8} :
    peek mem a l.length = l ↔ ∀ i (hi : i < l.length), mem (a + i) = l[i] := by
  rw [List.ext_getElem_iff]
  simp only [peek_length, true_and]
  constructor
  · intro h i hi
    have hi' := h i hi hi
    simpa only [peek, List.getElem_map, List.getElem_range', Nat.one_mul] using hi'
  · intro h i _ hi
    simpa only [peek, List.getElem_map, List.getElem_range', Nat.one_mul] using h i hi

/-! ## The source -/

def ISA_BASE : ℕ := 0xA0000
def ISA_MAX : ℕ := 0x100000

def EPERM : ℤ := 1
def ENOMEM : ℤ := 12
def EFAULT : ℤ := 14
def EINVAL : ℤ := 22

/-- `enum silly_modes`, and the minor numbers that it has no name for. -/
inductive Mode where
  | m8
  | m16
  | m32
  | memcpy
  | other
deriving DecidableEq, Repr

/-- `count` after the range check, as a `size_t`. -/
def clipped (count fPos : ℕ) : ℕ :=
  if ISA_MAX < ISA_BASE + fPos + count then
    (((ISA_MAX : ℤ) - (ISA_BASE + fPos : ℕ)) % 2 ^ 64).toNat
  else count

def kmalloc (count : ℕ) (served : Bool) : Bool := served && count < 2 ^ 63

/-- The two tests that downgrade the mode. -/
def downgrade (isaAddr count : ℕ) (mode : Mode) : Mode :=
  let mode := if mode = .m32 ∧ (isaAddr ||| count) &&& 3 ≠ 0 then .m16 else mode
  if mode = .m16 ∧ (isaAddr ||| count) &&& 1 ≠ 0 then .m8 else mode

/-- The loop of `silly_read` that moves words of `w` bytes: read a word, store it at
`ptr`, go on. -/
def readLoop (w : ℕ) (mem : Isa) : ℕ → ℕ → ℕ → List UInt8
  | 0, _, _ => []
  | fuel + 1, add, count =>
      if w ≤ count then
        bytes w (word (peek mem add w)) ++ readLoop w mem fuel (add + w) (count - w)
      else []

/-- `iowrite8`. -/
def iowrite8 (v : ℕ) (add : ℕ) (mem : Isa) : Isa :=
  fun x => if x = add then UInt8.ofNat v else mem x

/-- The loop of `silly_write` that takes words of `w` bytes from `ptr`: each of them goes
to `iowrite8`. -/
def writeLoop (w : ℕ) : ℕ → List UInt8 → ℕ → Isa → Isa
  | 0, _, _, mem => mem
  | fuel + 1, ptr, add, mem =>
      if w ≤ ptr.length then
        writeLoop w fuel (ptr.drop w) (add + w) (iowrite8 (word (ptr.take w)) add mem)
      else mem

/-- `memcpy_toio`. -/
def memcpyToio (add : ℕ) (l : List UInt8) (mem : Isa) : Isa :=
  fun x => if add ≤ x then l[x - add]?.getD (mem x) else mem x

/-- What a call returns, the position in `*f_pos`, the bytes handed over. -/
structure Result where
  ret : ℤ
  fPos : ℤ
  data : List UInt8
deriving DecidableEq, Repr

/-- The `switch` of `silly_read`; `none` for a mode that it does not know. -/
def readMode (mem : Isa) (add count : ℕ) : Mode → Option (List UInt8)
  | .m32 => some (readLoop 4 mem count add count)
  | .m16 => some (readLoop 2 mem count add count)
  | .m8 => some (readLoop 1 mem count add count)
  | .memcpy => some (peek mem add count)
  | .other => none

/-- `silly_read`. -/
def sillyRead (mem : Isa) (mode : Mode) (count fPos : ℕ) (served fault : Bool) : Result :=
  let n := clipped count fPos
  if kmalloc n served = false then ⟨-ENOMEM, fPos, []⟩
  else
    match readMode mem fPos n (downgrade (ISA_BASE + fPos) n mode) with
    -- the buffer is not freed
    | none => ⟨-EINVAL, fPos, []⟩
    | some kbuf =>
        -- a copy that faults moves the position as well
        if 0 < n ∧ fault = true then ⟨-EFAULT, fPos - EFAULT, []⟩
        else ⟨n, fPos + n, kbuf⟩

/-- The `switch` of `silly_write`. -/
def writeMode (l : List UInt8) (add : ℕ) (mem : Isa) : Mode → Option Isa
  | .m32 => some (writeLoop 4 l.length l add mem)
  | .m16 => some (writeLoop 2 l.length l add mem)
  | .m8 => some (writeLoop 1 l.length l add mem)
  | .memcpy => some (memcpyToio add l mem)
  | .other => none

/-- `silly_write` of the user's bytes `buf`: the result, and the memory after it. -/
def sillyWrite (mem : Isa) (mode : Mode) (buf : List UInt8) (fPos : ℕ)
    (capable served fault : Bool) : Result × Isa :=
  if capable = false then (⟨-EPERM, fPos, []⟩, mem)
  else
    let n := clipped buf.length fPos
    if kmalloc n served = false then (⟨-ENOMEM, fPos, []⟩, mem)
    else if 0 < n ∧ fault = true then (⟨-EFAULT, fPos, []⟩, mem)
    else
      match writeMode (buf.take n) fPos mem (downgrade (ISA_BASE + fPos) n mode) with
      | none => (⟨-EINVAL, fPos, []⟩, mem)
      | some mem' => (⟨n, fPos + n, []⟩, mem')

/-! ## Alignment -/

/-- The number of bytes that a mode moves at a time. -/
def Mode.width : Mode → ℕ
  | .m16 => 2
  | .m32 => 4
  | _ => 1

/-- The two tests, by the mode asked for. -/
theorem downgrade_m16 (isaAddr count : ℕ) :
    downgrade isaAddr count .m16 = if (isaAddr ||| count) &&& 1 = 0 then .m16 else .m8 := by
  simp only [downgrade, reduceCtorEq, false_and, if_false, true_and, ne_eq, ite_not]

theorem downgrade_m32 (isaAddr count : ℕ) :
    downgrade isaAddr count .m32 =
      if (isaAddr ||| count) &&& 3 = 0 then .m32 else downgrade isaAddr count .m16 := by
  by_cases h : (isaAddr ||| count) &&& 3 = 0
  · simp only [downgrade, h, ne_eq, not_true_eq_false, and_false, if_false, reduceCtorEq, false_and,
      if_true]
  · simp only [downgrade, h, ne_eq, not_false_eq_true, and_true, if_true, reduceCtorEq, if_false]

theorem downgrade_other {isaAddr count : ℕ} {mode : Mode} :
    downgrade isaAddr count mode = .other ↔ mode = .other := by
  have h16 : downgrade isaAddr count .m16 ≠ .other := by
    rw [downgrade_m16]
    split <;> exact Mode.noConfusion
  cases mode with
  | m16 => exact ⟨fun h => absurd h h16, Mode.noConfusion⟩
  | m32 =>
      rw [downgrade_m32]
      split
      · exact Iff.rfl
      · exact ⟨fun h => absurd h h16, Mode.noConfusion⟩
  | _ => exact Iff.rfl

/-- After the downgrade the transfer is a number of whole words. -/
theorem width_dvd (isaAddr count : ℕ) (mode : Mode) :
    (downgrade isaAddr count mode).width ∣ count := by
  have hmask (k : ℕ) (h : (isaAddr ||| count) &&& 2 ^ k - 1 = 0) : 2 ^ k ∣ count := by
    rw [Nat.and_two_pow_sub_one_eq_mod, Nat.or_mod_two_pow, Nat.or_eq_zero_iff] at h
    exact Nat.dvd_of_mod_eq_zero h.2
  have h16 : (downgrade isaAddr count .m16).width ∣ count := by
    rw [downgrade_m16]
    split
    · rename_i h
      exact hmask 1 h
    · exact Nat.one_dvd _
  cases mode with
  | m16 => exact h16
  | m32 =>
      rw [downgrade_m32]
      split
      · rename_i h
        exact hmask 2 h
      · exact h16
  | _ => exact Nat.one_dvd _

/-- The range check, for a position in the window. -/
theorem clipped_eq {fPos : ℕ} (count : ℕ) (h : fPos ≤ ISA_MAX - ISA_BASE) :
    clipped count fPos = min count (ISA_MAX - ISA_BASE - fPos) := by
  have hwindow : ISA_MAX - ISA_BASE = 393216 := rfl
  have hbase : ISA_BASE = 655360 := rfl
  have hmax : ISA_MAX = 1048576 := rfl
  unfold clipped
  split
  · omega
  · omega

/-! ## Reads -/

/-- The loop reads the bytes one after the other, whatever its width. -/
theorem readLoop_eq {w : ℕ} (hw : 0 < w) (mem : Isa) {fuel add count : ℕ} (hdvd : w ∣ count)
    (hfuel : count ≤ fuel) : readLoop w mem fuel add count = peek mem add count := by
  induction fuel generalizing add count with
  | zero =>
      obtain rfl : count = 0 := by omega
      rfl
  | succ fuel ih =>
      unfold readLoop
      split
      · rename_i hle
        have hword : bytes w (word (peek mem add w)) = peek mem add w := by
          have h := bytes_word (peek mem add w)
          rwa [peek_length] at h
        rw [hword, ih (Nat.dvd_sub hdvd (Nat.dvd_refl w)) (by omega), peek_append,
          Nat.add_sub_cancel' hle]
      · rename_i hlt
        obtain rfl : count = 0 := Nat.eq_zero_of_dvd_of_lt hdvd (by omega)
        rfl

/-- All modes read the same. -/
theorem readMode_eq (mem : Isa) (isaAddr add count : ℕ) {mode : Mode} (hmode : mode ≠ .other) :
    readMode mem add count (downgrade isaAddr count mode) = some (peek mem add count) := by
  have hdvd := width_dvd isaAddr count mode
  cases hm : downgrade isaAddr count mode with
  | m8 => exact congrArg some (readLoop_eq (by decide) mem (Nat.one_dvd _) (Nat.le_refl _))
  | m16 =>
      rw [hm] at hdvd
      exact congrArg some (readLoop_eq (by decide) mem hdvd (Nat.le_refl _))
  | m32 =>
      rw [hm] at hdvd
      exact congrArg some (readLoop_eq (by decide) mem hdvd (Nat.le_refl _))
  | memcpy => rfl
  | other => exact absurd (downgrade_other.mp hm) hmode

/-- `silly_read` by cases: an error that hands over nothing, or the bytes from the
position on. -/
theorem sillyRead_cases (mem : Isa) (mode : Mode) (count : ℕ) (served fault : Bool) {fPos : ℕ}
    (hpos : fPos ≤ ISA_MAX - ISA_BASE) :
    let n := min count (ISA_MAX - ISA_BASE - fPos)
    (0 < n ∧ fault = true ∧ served = true ∧ mode ≠ .other ∧
        sillyRead mem mode count fPos served fault = ⟨-EFAULT, fPos - EFAULT, []⟩) ∨
      (¬ (0 < n ∧ fault = true ∧ served = true ∧ mode ≠ .other) ∧
        ∃ ret, ∃ k ≤ n, sillyRead mem mode count fPos served fault =
          ⟨ret, fPos + k, peek mem fPos k⟩) := by
  have hn := clipped_eq count hpos
  have hwindow : ISA_MAX - ISA_BASE = 393216 := rfl
  unfold sillyRead
  rw [hn]
  have hsmall : decide (min count (ISA_MAX - ISA_BASE - fPos) < 2 ^ 63) = true := by
    rw [decide_eq_true_eq]
    omega
  cases served with
  | false => exact .inr ⟨by simp, -ENOMEM, 0, Nat.zero_le _, by simp [kmalloc, peek]⟩
  | true =>
      have hserved : kmalloc (min count (ISA_MAX - ISA_BASE - fPos)) true = true := by
        rw [kmalloc, Bool.true_and, hsmall]
      simp only [hserved, Bool.true_eq_false, if_false]
      by_cases hmode : mode = .other
      · subst hmode
        rw [downgrade_other.mpr rfl]
        exact .inr ⟨by simp, -EINVAL, 0, Nat.zero_le _, by simp [readMode, peek]⟩
      · rw [readMode_eq mem _ _ _ hmode]
        by_cases hfault : 0 < min count (ISA_MAX - ISA_BASE - fPos) ∧ fault = true
        · exact .inl ⟨hfault.1, hfault.2, trivial, hmode, if_pos hfault⟩
        · refine .inr ⟨fun h => hfault ⟨h.1, h.2.1⟩, _, _, Nat.le_refl _, if_neg hfault⟩

/-! ## A run of reads -/

/-- A read: the mode of the device, the count, and what the kernel does. -/
structure ReadAct where
  mode : Mode
  count : ℕ
  served : Bool
  fault : Bool
deriving DecidableEq, Repr

/-- A file that is read, and the bytes it has handed over. -/
structure Reader where
  fPos : ℤ
  handed : List UInt8
deriving DecidableEq, Repr

namespace Reader

variable (mem : Isa)

/-- The VFS lets nobody read at a negative position. -/
def step (s : Reader) (a : ReadAct) : Option Reader :=
  if 0 ≤ s.fPos then
    let r := sillyRead mem a.mode a.count s.fPos.toNat a.served a.fault
    some ⟨r.fPos, s.handed ++ r.data⟩
  else none

/-- The copy of at least one byte faults. -/
def Faults (s : Reader) (a : ReadAct) : Prop :=
  0 < min a.count (ISA_MAX - ISA_BASE - s.fPos.toNat) ∧ a.fault = true ∧ a.served = true ∧
    a.mode ≠ .other

instance (s : Reader) (a : ReadAct) : Decidable (s.Faults a) :=
  inferInstanceAs (Decidable (_ ∧ _))

/-- The bytes handed over are those from `start` on, and the position is behind them. -/
structure InOrder (start : ℕ) (s : Reader) : Prop where
  position : s.fPos = start + s.handed.length
  bytes : s.handed = peek mem start s.handed.length

end Reader

section Runs

variable {mem : Isa} {s s' : Reader} {a : ReadAct} {start : ℕ}

/-- What one read does to the position and to what has been handed over. -/
theorem read_step (hpos : s.fPos ≤ (ISA_MAX - ISA_BASE : ℕ)) (h : s.step mem a = some s') :
    s'.fPos ≤ (ISA_MAX - ISA_BASE : ℕ) ∧
      ((s.Faults a ∧ s' = ⟨s.fPos - EFAULT, s.handed⟩) ∨
        (¬ s.Faults a ∧ ∃ k : ℕ, s' = ⟨s.fPos + k, s.handed ++ peek mem s.fPos.toNat k⟩)) := by
  unfold Reader.step at h
  split at h
  · rename_i hnonneg
    have hnat : (s.fPos.toNat : ℤ) = s.fPos := Int.toNat_of_nonneg hnonneg
    have hle : s.fPos.toNat ≤ ISA_MAX - ISA_BASE := by omega
    rcases sillyRead_cases mem a.mode a.count a.served a.fault hle with
      ⟨hn, hf, hs, hm, hr⟩ | ⟨hno, ret, k, hk, hr⟩
    · rw [hr, hnat] at h
      cases h
      refine ⟨?_, .inl ⟨⟨hn, hf, hs, hm⟩, by rw [List.append_nil]⟩⟩
      have hfault : EFAULT = 14 := rfl
      show s.fPos - EFAULT ≤ _
      omega
    · rw [hr, hnat] at h
      cases h
      refine ⟨?_, .inr ⟨hno, k, rfl⟩⟩
      show s.fPos + k ≤ _
      omega
  · cases h

/-- The position is never ahead of what has been handed over. -/
def Reader.Behind (start : ℕ) (s : Reader) : Prop :=
  s.fPos ≤ (ISA_MAX - ISA_BASE : ℕ) ∧ s.fPos ≤ start + s.handed.length

theorem behind_step (hi : s.Behind start) (h : s.step mem a = some s') : s'.Behind start := by
  obtain ⟨hwindow, hcase⟩ := read_step hi.1 h
  refine ⟨hwindow, ?_⟩
  have hpos := hi.2
  rcases hcase with ⟨-, rfl⟩ | ⟨-, k, rfl⟩
  · have hfault : EFAULT = 14 := rfl
    show s.fPos - EFAULT ≤ start + s.handed.length
    omega
  · show s.fPos + k ≤ start + (s.handed ++ peek mem s.fPos.toNat k).length
    rw [List.length_append, peek_length]
    omega

theorem inOrder_step (hi : s.fPos ≤ (ISA_MAX - ISA_BASE : ℕ) ∧ s.InOrder mem start)
    (hfault : ¬ s.Faults a) (h : s.step mem a = some s') :
    s'.fPos ≤ (ISA_MAX - ISA_BASE : ℕ) ∧ s'.InOrder mem start := by
  obtain ⟨hwindow, hcase⟩ := read_step hi.1 h
  refine ⟨hwindow, ?_⟩
  rcases hcase with ⟨hf, -⟩ | ⟨-, k, rfl⟩
  · exact absurd hf hfault
  · have hpos := hi.2.position
    have hnext : s.fPos.toNat = start + s.handed.length := by omega
    have hlen : (s.handed ++ peek mem s.fPos.toNat k).length = s.handed.length + k := by
      rw [List.length_append, peek_length]
    constructor
    · show s.fPos + k = start + (s.handed ++ peek mem s.fPos.toNat k).length
      rw [hlen]
      omega
    · show s.handed ++ peek mem s.fPos.toNat k =
        peek mem start (s.handed ++ peek mem s.fPos.toNat k).length
      rw [hlen, ← peek_append, ← hi.2.bytes, hnext]

/-- Reads in any widths and of any lengths, one after the other, hand over the memory
byte by byte from the first position on, and leave the position behind it, exactly if no
copy to the user faults: a fault moves the position 14 bytes back. -/
theorem stream_iff {as : List ReadAct} (hstart : start ≤ ISA_MAX - ISA_BASE)
    (hrun : run (Reader.step mem) ⟨start, []⟩ as = some s') :
    s'.InOrder mem start ↔
      Along (Reader.step mem) (fun s a => ¬ s.Faults a) ⟨start, []⟩ as := by
  have hwindow : (start : ℤ) ≤ (ISA_MAX - ISA_BASE : ℕ) := by omega
  constructor
  · intro hgood
    have hinit : Reader.Behind start ⟨start, []⟩ := ⟨hwindow, Int.le_add_of_nonneg_right (by simp)⟩
    -- once the position is behind the bytes handed over it stays there
    have hbad : ∀ (s : Reader) a s', s.Behind start → True → ¬ ¬ s.Faults a →
        s.step mem a = some s' → s'.fPos < start + s'.handed.length := by
      intro s a s' hi _ hfault h
      rcases (read_step hi.1 h).2 with ⟨-, rfl⟩ | ⟨hno, -⟩
      · have hpos := hi.2
        have hval : EFAULT = 14 := rfl
        show s.fPos - EFAULT < start + s.handed.length
        omega
      · exact absurd hno hfault
    have hkeep : ∀ (s : Reader) a s', s.Behind start → True → s.fPos < start + s.handed.length →
        s.step mem a = some s' → s'.fPos < start + s'.handed.length := by
      intro s a s' hi _ hbehind h
      rcases (read_step hi.1 h).2 with ⟨-, rfl⟩ | ⟨-, k, rfl⟩
      · have hval : EFAULT = 14 := rfl
        show s.fPos - EFAULT < start + s.handed.length
        omega
      · show s.fPos + k < start + (s.handed ++ peek mem s.fPos.toNat k).length
        rw [List.length_append, peek_length]
        omega
    have hpos := hgood.position
    exact along_of_avoids (fun s a s' hi _ h => behind_step hi h) hbad hkeep hinit
      (along_of_forall fun _ _ _ => trivial) hrun (by omega)
  · intro halong
    have hinit : (⟨start, []⟩ : Reader).InOrder mem start := ⟨by simp, rfl⟩
    have hkeep := run_invariant_along (fun s a s' hi hf h => inOrder_step hi hf h)
      ⟨hwindow, hinit⟩ halong hrun
    exact hkeep.2

end Runs

/-- Four bytes from 2 on in words of 16 bits, and a `memcpy` that faults. -/
def readsWithFault : List ReadAct := [⟨.m32, 4, true, false⟩, ⟨.memcpy, 2, true, true⟩]

theorem stream_iff_fault : ∃ s', run (Reader.step fun x => UInt8.ofNat x) ⟨2, []⟩ readsWithFault =
    some s' ∧ ¬ s'.InOrder (fun x => UInt8.ofNat x) 2 := by
  have hrun : run (Reader.step fun x => UInt8.ofNat x) ⟨(2 : ℕ), []⟩ readsWithFault =
      some ⟨-8, [2, 3, 4, 5]⟩ := by decide
  refine ⟨_, hrun, ?_⟩
  rw [stream_iff (by decide) hrun]
  decide

/-! ## Writes -/

/-- Of `l` every `w`-th byte is stored, each in its place. -/
def every (w : ℕ) (l : List UInt8) (add : ℕ) (mem : Isa) : Isa := fun x =>
  if add ≤ x ∧ x < add + l.length ∧ (x - add) % w = 0 then l[x - add]?.getD (mem x) else mem x

theorem every_of_mem {w : ℕ} {l : List UInt8} {add x : ℕ} {mem : Isa}
    (h : add ≤ x ∧ x < add + l.length ∧ (x - add) % w = 0) :
    every w l add mem x = l[x - add]?.getD (mem x) :=
  if_pos h

theorem every_of_notMem {w : ℕ} {l : List UInt8} {add x : ℕ} {mem : Isa}
    (h : ¬ (add ≤ x ∧ x < add + l.length ∧ (x - add) % w = 0)) : every w l add mem x = mem x :=
  if_neg h

theorem every_nil (w add : ℕ) (mem : Isa) : every w [] add mem = mem := by
  funext x
  apply every_of_notMem
  rw [List.length_nil]
  omega

/-- A word at the front, of which one byte is stored, and the words behind it. -/
theorem every_word {w : ℕ} (hw : 0 < w) {l : List UInt8} (hle : w ≤ l.length) (add : ℕ)
    (mem : Isa) :
    every w (l.drop w) (add + w) (iowrite8 (word (l.take w)) add mem) = every w l add mem := by
  have hlen : (l.drop w).length = l.length - w := List.length_drop
  funext x
  by_cases hbehind : add + w ≤ x
  · have hmod : (x - add) % w = (x - (add + w)) % w := by
      rw [show x - add = x - (add + w) + w by omega, Nat.add_mod_right]
    have hkept : iowrite8 (word (l.take w)) add mem x = mem x := if_neg (by omega)
    by_cases hin : x < add + l.length ∧ (x - add) % w = 0
    · rw [every_of_mem ⟨by omega, hin⟩, every_of_mem (by rw [hlen, ← hmod]; omega), hkept,
        List.getElem?_drop, show w + (x - (add + w)) = x - add by omega]
    · rw [every_of_notMem fun h => hin h.2, every_of_notMem (by rw [hlen, ← hmod]; omega), hkept]
  · rw [every_of_notMem fun h => hbehind h.1]
    by_cases hfirst : x = add
    · subst hfirst
      rw [every_of_mem (by rw [Nat.sub_self, Nat.zero_mod]; omega), Nat.sub_self]
      obtain ⟨b, bs, rfl⟩ := List.exists_cons_of_length_pos (show 0 < l.length by omega)
      obtain ⟨v, rfl⟩ : ∃ v, w = v + 1 := ⟨w - 1, by omega⟩
      rw [List.take_succ_cons]
      exact (if_pos rfl).trans (ofNat_word b _)
    · -- a byte of the word that is not its first
      have hkept : iowrite8 (word (l.take w)) add mem x = mem x := if_neg hfirst
      rw [hkept, every_of_notMem]
      rintro ⟨hge, -, hmod⟩
      rw [Nat.mod_eq_of_lt (by omega)] at hmod
      omega

/-- Every word goes to `iowrite8`, so that only its first byte is stored. -/
theorem writeLoop_eq {w : ℕ} (hw : 0 < w) {fuel add : ℕ} {l : List UInt8} {mem : Isa}
    (hdvd : w ∣ l.length) (hfuel : l.length ≤ fuel) :
    writeLoop w fuel l add mem = every w l add mem := by
  induction fuel generalizing l add mem with
  | zero =>
      obtain rfl : l = [] := List.length_eq_zero_iff.mp (by omega)
      exact (every_nil w add mem).symm
  | succ fuel ih =>
      unfold writeLoop
      split
      · rename_i hle
        have hlen : (l.drop w).length = l.length - w := List.length_drop
        have hrest : w ∣ (l.drop w).length := by
          rw [hlen]
          exact Nat.dvd_sub hdvd (Nat.dvd_refl w)
        rw [ih hrest (by omega), every_word hw hle]
      · obtain rfl : l = [] :=
          List.length_eq_zero_iff.mp (Nat.eq_zero_of_dvd_of_lt hdvd (by omega))
        exact (every_nil w add mem).symm

/-- `memcpy_toio` stores every byte. -/
theorem memcpyToio_eq (add : ℕ) (l : List UInt8) (mem : Isa) :
    memcpyToio add l mem = every 1 l add mem := by
  funext x
  unfold memcpyToio
  split
  · rename_i hge
    by_cases hlt : x < add + l.length
    · rw [every_of_mem ⟨hge, hlt, Nat.mod_one _⟩]
    · rw [every_of_notMem fun h => hlt h.2.1, List.getElem?_eq_none (by omega), Option.getD_none]
  · rename_i hlt
    rw [every_of_notMem fun h => hlt h.1]

/-- What a write of `n` bytes does, by its mode after the downgrade. -/
theorem writeMode_eq (isaAddr add : ℕ) (l : List UInt8) (mem : Isa) {mode : Mode}
    (hmode : mode ≠ .other) :
    writeMode l add mem (downgrade isaAddr l.length mode) =
      some (every (downgrade isaAddr l.length mode).width l add mem) := by
  have hdvd := width_dvd isaAddr l.length mode
  cases hm : downgrade isaAddr l.length mode with
  | m8 => exact congrArg some (writeLoop_eq (by decide) (Nat.one_dvd _) (Nat.le_refl _))
  | m16 =>
      rw [hm] at hdvd
      exact congrArg some (writeLoop_eq (by decide) hdvd (Nat.le_refl _))
  | m32 =>
      rw [hm] at hdvd
      exact congrArg some (writeLoop_eq (by decide) hdvd (Nat.le_refl _))
  | memcpy => exact congrArg some (memcpyToio_eq add l mem)
  | other => exact absurd (downgrade_other.mp hm) hmode

/-- A write in one mode, then a read of as many bytes at the same place in any mode,
both without a failure: the read hands over what the write was given exactly if the
write moved single bytes, or the memory already held the bytes that are not the first of
their word. -/
theorem read_write_iff (mem : Isa) {mode mode' : Mode} {buf : List UInt8} {fPos : ℕ}
    (hmode : mode ≠ .other) (hmode' : mode' ≠ .other)
    (hfits : fPos + buf.length ≤ ISA_MAX - ISA_BASE) :
    (sillyRead (sillyWrite mem mode buf fPos true true false).2 mode' buf.length fPos
        true false).data = buf ↔
      ∀ i (hi : i < buf.length),
        i % (downgrade (ISA_BASE + fPos) buf.length mode).width = 0 ∨ mem (fPos + i) = buf[i] := by
  have hpos : fPos ≤ ISA_MAX - ISA_BASE := by omega
  have hclip : clipped buf.length fPos = buf.length := by
    rw [clipped_eq _ hpos]
    omega
  have hserved : kmalloc buf.length true = true := by
    have hwindow : ISA_MAX - ISA_BASE = 393216 := rfl
    rw [kmalloc, Bool.true_and, decide_eq_true_eq]
    omega
  have hwrite : (sillyWrite mem mode buf fPos true true false).2 =
      every (downgrade (ISA_BASE + fPos) buf.length mode).width buf fPos mem := by
    simp only [sillyWrite, hclip, hserved, Bool.true_eq_false, Bool.false_eq_true, and_false,
      if_false, List.take_length, writeMode_eq _ _ _ _ hmode]
  have hread (mem : Isa) :
      (sillyRead mem mode' buf.length fPos true false).data = peek mem fPos buf.length := by
    simp only [sillyRead, hclip, hserved, Bool.true_eq_false, Bool.false_eq_true, and_false,
      if_false, readMode_eq _ _ _ _ hmode']
  rw [hread, hwrite, peek_eq_iff]
  apply forall₂_congr
  intro i hi
  by_cases hmod : i % (downgrade (ISA_BASE + fPos) buf.length mode).width = 0
  · rw [every_of_mem ⟨by omega, by omega, by rw [Nat.add_sub_cancel_left, hmod]⟩,
      Nat.add_sub_cancel_left, List.getElem?_eq_getElem hi, Option.getD_some]
    exact ⟨fun _ => .inl hmod, fun _ => rfl⟩
  · rw [every_of_notMem fun h => hmod (by rw [← h.2.2, Nat.add_sub_cancel_left])]
    exact ⟨.inr, fun h => h.resolve_left hmod⟩

/-- Four aligned bytes in the width of 32 bits, on a memory of zeros: they cannot be read
back. -/
theorem read_write_iff_aligned :
    (sillyRead (sillyWrite (fun _ => 0) .m32 [1, 2, 3, 4] 8 true true false).2 .m8 4 8
      true false).data ≠ [1, 2, 3, 4] := by
  have hiff : (sillyRead (sillyWrite (fun _ => 0) .m32 [1, 2, 3, 4] 8 true true false).2 .m8 4 8
      true false).data = [1, 2, 3, 4] ↔ _ :=
    read_write_iff (fun _ => 0) (by decide) (by decide) (by decide)
  intro h
  exact absurd (hiff.mp h 1 (by decide)) (by decide)

end Silly
