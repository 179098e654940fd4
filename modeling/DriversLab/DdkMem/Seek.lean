import DriversLab.DdkMem.Firmware

/-!
# DdkMem.Seek — `ddk_llseek`

1. **Position**: when every message succeeds and every reply is whole, a seek
   computes the clamped position exactly when the numbers fit the types they go
   through and the read offset of the board, which stands for the current position,
   does not lead elsewhere than `f_pos`.
2. **Failure**: a seek that fails cannot be told from no seek exactly when it does
   not fail between the two SET messages, or the first of them changes nothing.
-/

namespace DdkMem

open CInt Interact

variable {β : Type} {view : ℕ → UInt8 → β} {cfg : Config} {b : Board} {s s' : Use β}

/-! ## Reachable files -/

/-- A program leaves offsets of 16 bits. -/
theorem wp_short {α : Type} {allowed : Choice β → Prop} (p : Driver β α) (hb : b.Short) :
    Wp (Board.serve16 view) allowed p b fun _ m => m.Short := by
  induction p generalizing b with
  | ret a => exact hb
  | call o k ih =>
      intro c r m _ hs
      rcases Option.map_eq_some_iff.mp hs with ⟨⟨r', m'⟩, _, heq⟩
      rcases Prod.mk.inj heq with ⟨rfl, rfl⟩
      exact ih _ (Board.short_wrap m')

/-- A transfer never moves its position back. -/
theorem returns_ddkWrite (bound : ℕ) (buf : List UInt8) (off : ℤ) :
    (ddkWrite cfg bound buf off : Driver β _).Returns fun r => off ≤ r.off := by
  intro set
  cases set with
  | error e => exact Int.le_refl off
  | ok _ =>
      show Prog.Returns _ (Prog.bind (writeLoop cfg buf bound 0) _)
      refine Prog.returns_bind (Prog.returns_true _) ?_
      rintro r -
      cases r with
      | error e => exact Int.le_refl off
      | ok wroteCnt =>
          have hle : off ≤ off + wroteCnt := by omega
          intro _ set
          cases set <;> exact hle

theorem returns_ddkRead (file : File β) (cnt : ℕ) (off : ℤ) :
    (ddkRead cfg file cnt off).Returns fun r => off ≤ r.off := by
  refine Prog.returns_bind (Prog.returns_true _) ?_
  rintro ⟨r, file⟩ -
  cases r with
  | error e => exact Int.le_refl off
  | ok readSize =>
      intro faults
      cases faults with
      | true => exact Int.le_refl off
      | false =>
          show off ≤ off + ((if readSize ≤ cnt then readSize else cnt : ℕ) : ℤ)
          omega

theorem clamp_range {size : ℤ} (h : 0 ≤ size) (offset : ℤ) :
    0 ≤ clamp size offset ∧ clamp size offset ≤ size := by
  unfold clamp
  split
  · omega
  · split <;> omega

theorem returns_ddkLlseek (offset : ℤ) (whence : Whence) :
    (ddkLlseek offset whence : Driver β _).Returns fun r => ∀ p, r.2 = some p → 0 ≤ p := by
  refine Prog.returns_bind (Prog.returns_true _) ?_
  rintro size -
  split
  · exact nofun
  · rename_i hsize
    refine Prog.returns_bind (Prog.returns_true _) ?_
    rintro r -
    cases r with
    | error e => exact nofun
    | ok offset =>
        intro rd
        cases rd with
        | error e => exact nofun
        | ok _ =>
            intro wr
            cases wr with
            | error e => exact nofun
            | ok _ =>
                rintro p ⟨rfl⟩
                exact (clamp_range (by omega) offset).1

/-- What holds of every file in use. -/
structure UseInv (s : Use β) : Prop where
  short : s.board.Short
  fPos : 0 ≤ s.fPos

theorem useInv_step {a : FileCall × List (Choice β)} (hi : UseInv s)
    (h : Use.step view cfg s a = some s') : UseInv s' := by
  rcases a with ⟨call, cs⟩
  rcases Option.map_eq_some_iff.mp h with ⟨⟨x, m, l⟩, he, rfl⟩
  have hwp : Wp (Board.serve16 view) (fun _ => True) (s.prog cfg call) s.board
      fun _ m => m.Short := wp_short _ hi.short
  refine ⟨wp_exec hwp (fun _ _ => trivial) he, ?_⟩
  have hret : (s.prog cfg call).Returns fun x => 0 ≤ x.2.2 := by
    have hmoved (pos : Option ℤ) (ret off : ℤ) (hle : s.off pos ≤ off) :
        0 ≤ s.moved pos ret off := by
      have hpos := hi.fPos
      unfold Use.moved
      split
      · rename_i hcase
        rw [Use.off, Option.isNone_iff_eq_none.mp hcase.1] at hle
        exact Int.le_trans hpos hle
      · exact hpos
    cases call with
    | read cnt pos => exact Prog.returns_bind (returns_ddkRead _ _ _) fun r hr => hmoved _ _ _ hr
    | write bound buf pos =>
        exact Prog.returns_bind (returns_ddkWrite _ _ _) fun r hr => hmoved _ _ _ hr
    | llseek offset whence =>
        refine Prog.returns_bind (returns_ddkLlseek offset whence) ?_
        intro r hr
        show 0 ≤ r.2.getD s.fPos
        cases hp : r.2 with
        | none => exact hi.fPos
        | some p => exact hr p hp
  exact hret.exec he

/-- Every state of a file that a `ddk_open` has opened. -/
theorem useInv_run {k k' : Kernel} {cs : List (Choice β)} {file : File β}
    {l : List (Entry (Op β) Kernel (Choice β))} {as : List (FileCall × List (Choice β))}
    (hopen : exec (Kernel.serve view) (ddkOpen cfg) k cs = some (.ok file, k', l))
    (hrun : Lts.run (Use.step view cfg) (opened k' file) as = some s) : UseInv s :=
  Lts.run_invariant (fun _ _ _ hi h => useInv_step hi h)
    ⟨(opened_offsets hopen).1, Int.le_refl 0⟩ hrun

/-! ## When every message succeeds -/

/-- The message succeeds, and a reply is whole. -/
structure Choice.Full (c : Choice β) : Prop where
  message : c.fail = none
  reply : 2 ≤ c.len

/-- A number of 16 bits, in a whole reply, is read as a `short`. -/
theorem shortOf_reply {n len : ℕ} (hn : n < 2 ^ 16) (hlen : 2 ≤ len) (stack : UInt8 × UInt8) :
    shortOf (Board.reply n len).1 stack = toShort n := by
  have htake : (Board.reply n len).1 = [UInt8.ofNat n, UInt8.ofNat (n / 256)] :=
    List.take_of_length_le hlen
  rw [htake]
  show toShort ((UInt8.ofNat n).toNat + 256 * (UInt8.ofNat (n / 256)).toNat) = toShort n
  rw [UInt8.toNat_ofNat', UInt8.toNat_ofNat']
  congr 1
  omega

section Full

variable {α : Type} {Q : α → Board → Prop}

theorem wp_set_full {dir : Dir} {offset : ℤ} {f : Except Errno Unit → Driver β α} (hb : b.Short)
    (hok : Wp (Board.serve16 view) Choice.Full (f (.ok ())) (b.setOff dir (toU16 offset)) Q) :
    Wp (Board.serve16 view) Choice.Full ((setOff dir offset).bind f) b Q := by
  intro c r m hc hs
  rw [serve16_set_ok hb hc.message] at hs
  cases hs
  exact hok

theorem wp_getOff_full (dir : Dir) (hb : b.Short) :
    Wp (Board.serve16 view) Choice.Full (getOff dir : Driver β ℤ) b fun r m =>
      r = toShort (b.off dir) ∧ m = b := by
  have hoff : b.off dir < 2 ^ 16 := by
    cases dir with
    | eRead => exact hb.rd
    | eWrite => exact hb.wr
  refine wp_idle hb trivial ?_
  intro stack c r m hc hs
  simp only [Board.serve16, Board.serve, hc.message, Option.map_some, Option.some.injEq,
    Prod.mk.injEq, Board.wrap_of_short hb] at hs
  rcases hs with ⟨rfl, rfl⟩
  exact ⟨shortOf_reply hoff hc.reply stack, rfl⟩

theorem wp_getSize_full (hb : b.Short) (hsize : b.size < 2 ^ 16) :
    Wp (Board.serve16 view) Choice.Full (getSize : Driver β ℤ) b fun r m =>
      r = toShort b.size ∧ m = b := by
  refine wp_idle hb trivial ?_
  intro stack c r m hc hs
  simp only [Board.serve16, Board.serve, hc.message, Option.map_some, Option.some.injEq,
    Prod.mk.injEq, Board.wrap_of_short hb] at hs
  rcases hs with ⟨rfl, rfl⟩
  exact ⟨shortOf_reply hsize hc.reply stack, rfl⟩

/-- The offset that is asked for, as `ddk_llseek` computes it. -/
def sought (b : Board) (d : ℤ) : Whence → ℤ
  | .seekCur => toLong (d + toShort b.rd)
  | .seekEnd => toLong (d + toShort b.size)
  | _ => d

/-- How a seek to a known `whence` can end. -/
inductive Sought (b : Board) (d : ℤ) (whence : Whence) (r : ℤ × Option ℤ) (m : Board) : Prop where
  | noSize (hsize : toShort b.size < 0) (hr : r.1 < 0)
  | noCur (hsize : 0 ≤ toShort b.size) (hwhence : whence = .seekCur) (hcur : toShort b.rd < 0)
      (hr : r.1 < 0)
  | done (hsize : 0 ≤ toShort b.size) (hcur : whence = .seekCur → 0 ≤ toShort b.rd)
      (hret : r.1 = clamp (toShort b.size) (sought b d whence)) (hpos : r.2 = some r.1)
      (hrd : m.rd = toU16 r.1) (hwr : m.wr = toU16 r.1)

/-- The offset asked for, or the error that a negative current offset is taken for. -/
theorem wp_seekTarget_full {d : ℤ} {whence : Whence} (hb : b.Short) (hwhence : whence ≠ .other) :
    Wp (Board.serve16 view) Choice.Full (seekTarget (toShort b.size) d whence : Driver β _) b
      fun r m => m = b ∧
        ((∃ e, r = .error e ∧ e < 0 ∧ whence = .seekCur ∧ toShort b.rd < 0) ∨
          (r = .ok (sought b d whence) ∧ (whence = .seekCur → 0 ≤ toShort b.rd))) := by
  cases whence with
  | seekSet => exact ⟨rfl, Or.inr ⟨rfl, nofun⟩⟩
  | seekEnd => exact ⟨rfl, Or.inr ⟨rfl, nofun⟩⟩
  | other => exact absurd rfl hwhence
  | seekCur =>
      refine wp_seq (wp_getOff_full .eRead hb) ?_
      rintro cur m ⟨hcur, hm⟩
      have hrd : cur = toShort b.rd := hcur
      split
      · rename_i hneg
        exact ⟨hm, Or.inl ⟨cur, rfl, hneg, rfl, hrd ▸ hneg⟩⟩
      · rename_i hpos
        refine ⟨hm, Or.inr ⟨?_, fun _ => by omega⟩⟩
        rw [sought, hrd]

theorem wp_seek_full {d : ℤ} {whence : Whence} (hb : b.Short) (hsize : b.size < 2 ^ 16)
    (hwhence : whence ≠ .other) :
    Wp (Board.serve16 view) Choice.Full (ddkLlseek d whence : Driver β _) b
      (Sought b d whence) := by
  refine wp_seq (wp_getSize_full hb hsize) ?_
  rintro size m ⟨hread, hm⟩
  rw [hm]
  split
  · rename_i hneg
    exact .noSize (hread ▸ hneg) hneg
  · rename_i hpos
    rw [hread] at hpos ⊢
    refine wp_seq (wp_seekTarget_full hb hwhence) ?_
    rintro r m' ⟨hm', hr⟩
    rw [hm']
    rcases hr with ⟨e, rfl, he, hcur, hneg⟩ | ⟨rfl, hcur⟩
    · exact .noCur (by omega) hcur hneg he
    · refine wp_set_full hb (wp_set_full (hb.setOff .eRead (toU16_lt _)) ?_)
      exact .done (by omega) hcur rfl rfl rfl rfl

end Full

/-! ## The position law -/

/-- The position that an offset is relative to. -/
def Use.base (s : Use β) : Whence → ℤ
  | .seekCur => s.fPos
  | .seekEnd => s.board.size
  | _ => 0

/-- The position that a seek should get to, in unbounded integers. -/
def Use.target (s : Use β) (d : ℤ) (whence : Whence) : ℤ :=
  min (max (s.base whence + d) 0) s.board.size

/-- The seek returns that position and leaves it in `f_pos` and in both offsets of the
board; asking for the current position leaves `f_pos` alone. -/
structure SeekLaw (s : Use β) (d : ℤ) (whence : Whence) (ret : ℤ) (s' : Use β) : Prop where
  ret : ret = s.target d whence
  fPos : s'.fPos = s.target d whence
  rd : (s'.board.rd : ℤ) = s.target d whence
  wr : (s'.board.wr : ℤ) = s.target d whence
  stays : whence = .seekCur → d = 0 → s'.fPos = s.fPos

/-- When the law holds. The size is read as a `short`. The sum of an offset and the size
is a `loff_t`. The current position is what the board has as its read offset, again read
as a `short`: either it is `f_pos`, or both lead to the same end of the memory; and a
position behind the end cannot be asked for. -/
def SeekCond (s : Use β) (d : ℤ) (whence : Whence) : Prop :=
  s.board.size < 2 ^ 15 ∧
    match whence with
    | .seekCur =>
        s.board.rd < 2 ^ 15 ∧ (d = 0 → s.fPos ≤ s.board.size) ∧
          (s.board.size = 0 ∨ d + s.board.rd < 2 ^ 63 ∧
            (s.fPos = s.board.rd ∨ (d + s.board.rd ≤ 0 ∧ d + s.fPos ≤ 0) ∨
              (s.board.size ≤ d + s.board.rd ∧ s.board.size ≤ d + s.fPos)))
    | .seekEnd => s.board.size = 0 ∨ d + s.board.size < 2 ^ 63
    | _ => True

theorem toShort_of_small {n : ℕ} (h : n < 2 ^ 15) : toShort n = n := by
  unfold toShort
  omega

theorem toShort_neg_iff {n : ℕ} (h : n < 2 ^ 16) : toShort n < 0 ↔ 2 ^ 15 ≤ n := by
  unfold toShort
  omega

theorem target_range (s : Use β) (d : ℤ) (whence : Whence) :
    0 ≤ s.target d whence ∧ s.target d whence ≤ s.board.size := by
  unfold Use.target
  omega

/-- The clamp of the code, in one expression. -/
theorem clamp_eq {size : ℤ} (h : 0 ≤ size) (x : ℤ) : clamp size x = min (max x 0) size := by
  unfold clamp
  by_cases hneg : x < 0
  · rw [if_pos hneg]
    omega
  · rw [if_neg hneg]
    by_cases hlt : size < x
    · rw [if_pos hlt]
      omega
    · rw [if_neg hlt]
      omega

/-- Where the size and the read offset fit a `short`, the clamped sum is the target exactly
when the condition holds. -/
theorem clamp_sought_iff {d : ℤ} {whence : Whence} (hi : UseInv s) (hd : -2 ^ 63 ≤ d ∧ d < 2 ^ 63)
    (hsize : s.board.size < 2 ^ 15) (hcur : whence = .seekCur → s.board.rd < 2 ^ 15)
    (hwhence : whence ≠ .other) :
    clamp s.board.size (sought s.board d whence) = s.target d whence ∧
        (whence = .seekCur → d = 0 → s.target d whence = s.fPos) ↔ SeekCond s d whence := by
  have hpos := hi.fPos
  rw [clamp_eq (Int.natCast_nonneg _)]
  cases whence with
  | other => exact absurd rfl hwhence
  | seekSet =>
      refine iff_of_true ⟨?_, nofun⟩ ⟨hsize, trivial⟩
      simp only [sought, Use.target, Use.base]
      omega
  | seekEnd =>
      simp only [sought, Use.target, Use.base, SeekCond, toShort_of_small hsize, hsize, toLong,
        true_and]
      constructor
      · rintro ⟨h, -⟩
        omega
      · intro h
        exact ⟨by omega, nofun⟩
  | seekCur =>
      have hrd := hcur rfl
      simp only [sought, Use.target, Use.base, SeekCond, toShort_of_small hrd, hsize, hrd,
        true_and, forall_const]
      -- a sum of 2^63 and more comes out negative
      by_cases hlong : d + (s.board.rd : ℤ) < 2 ^ 63
      · rw [toLong_of_range (by omega) hlong]
        constructor
        · rintro ⟨h, hstay⟩
          omega
        · rintro ⟨hzero, h⟩
          omega
      · have hneg : toLong (d + s.board.rd) < 0 := by
          unfold toLong
          omega
        generalize toLong (d + s.board.rd) = sum at hneg ⊢
        constructor
        · rintro ⟨h, hstay⟩
          omega
        · rintro ⟨hzero, h⟩
          omega

/-- The program of a seek as a call on the file in use. -/
theorem wp_prog_seek {d : ℤ} {whence : Whence} (hb : s.board.Short) (hsize : s.board.size < 2 ^ 16)
    (hwhence : whence ≠ .other) :
    Wp (Board.serve16 view) Choice.Full (s.prog cfg (.llseek d whence)) s.board fun x m =>
      ∃ r, Sought s.board d whence r m ∧ x = (⟨r.1, []⟩, s.file, r.2.getD s.fPos) :=
  wp_seq (wp_seek_full hb hsize hwhence) fun r _ hr => ⟨r, hr, rfl⟩

variable {k k' : Kernel} {cs : List (Choice β)} {file : File β}
  {l : List (Entry (Op β) Kernel (Choice β))} {as : List (FileCall × List (Choice β))}

/-- In every state of a file, and for every offset and the three known values of `whence`:
a seek whose messages all succeed with whole replies computes the clamped position if and
only if the condition holds. -/
theorem seek_iff (hopen : exec (Kernel.serve view) (ddkOpen cfg) k cs = some (.ok file, k', l))
    (hrun : Lts.run (Use.step view cfg) (opened k' file) as = some s)
    {d : ℤ} (hd : -2 ^ 63 ≤ d ∧ d < 2 ^ 63) {whence : Whence} (hwhence : whence ≠ .other)
    (hsize : s.board.size < 2 ^ 16) {ds : List (Choice β)} (hfull : ∀ c ∈ ds, c.Full)
    {x : (Reply β × File β × ℤ) × Board × List (BoardEntry β)}
    (hx : s.exec view cfg (.llseek d whence, ds) = some x) :
    SeekLaw s d whence x.1.1.ret (Use.ended x) ↔ SeekCond s d whence := by
  have hi := useInv_run hopen hrun
  rcases x with ⟨x, m, log⟩
  have hwp := @wp_prog_seek β view cfg s d whence hi.short hsize hwhence
  obtain ⟨r, hr, rfl⟩ := wp_exec hwp hfull hx
  have hrange := target_range s d whence
  cases hr with
  | noSize hneg hr =>
      refine iff_of_false ?_ ?_
      · intro hlaw
        have hret : r.1 = s.target d whence := hlaw.ret
        omega
      · rintro ⟨hsmall, -⟩
        rw [toShort_neg_iff hsize] at hneg
        omega
  | noCur hpos hcur hneg hr =>
      refine iff_of_false ?_ ?_
      · intro hlaw
        have hret : r.1 = s.target d whence := hlaw.ret
        omega
      · subst hcur
        rintro ⟨-, hsmall, -⟩
        rw [toShort_neg_iff hi.short.rd] at hneg
        omega
  | done hpos hcur hret hset hrd hwr =>
      have hsmall : s.board.size < 2 ^ 15 := by
        have hnot := (not_congr (toShort_neg_iff hsize)).mp (by omega)
        omega
      have hcur' : whence = .seekCur → s.board.rd < 2 ^ 15 := by
        intro hw
        have hle := hcur hw
        have hnot := (not_congr (toShort_neg_iff hi.short.rd)).mp (by omega)
        omega
      rw [toShort_of_small hsmall] at hret
      have hclamp := clamp_range (Int.natCast_nonneg s.board.size) (sought s.board d whence)
      have hfit : (toU16 r.1 : ℤ) = r.1 := (toU16_eq_self_iff (by omega)).mpr (by omega)
      have hpos' : r.2.getD s.fPos = r.1 := by
        rw [hset]
        rfl
      rw [← clamp_sought_iff hi hd hsmall hcur' hwhence, ← hret]
      constructor
      · intro hlaw
        exact ⟨hlaw.ret, fun hw hd => hlaw.fPos.symm.trans (hlaw.stays hw hd)⟩
      · rintro ⟨htarget, hstays⟩
        refine ⟨htarget, hpos'.trans htarget, ?_, ?_, ?_⟩
        · show (m.rd : ℤ) = _
          rw [hrd, hfit, htarget]
        · show (m.wr : ℤ) = _
          rw [hwr, hfit, htarget]
        · intro hw hd
          exact (hpos'.trans htarget).trans (hstays hw hd)

/-! ## A seek after one byte of a packet -/

def bytes : ℕ → UInt8 → UInt8 := fun _ byte => byte

/-- One byte of a packet of four. -/
def readOneByte : FileCall × List (Choice UInt8) := (.read 1 none, [.ok 0, .ok 4, .ok 0, .ok 0])

/-- The choices of a seek from the current position, all messages succeeding. -/
def wholeReplies : List (Choice UInt8) := List.replicate 6 (.ok 2)

/-- A seek by `d` after it: the state before, the call, and the numbers around it. -/
theorem seekAfterRead (d : ℤ) {v : ℤ × ℕ × ℕ × ℤ × ℤ × ℤ}
    (h : ((Lts.run (Use.step bytes ⟨8, 8⟩) smallUse [readOneByte]).bind fun s =>
      (s.exec bytes ⟨8, 8⟩ (.llseek d .seekCur, wholeReplies)).map fun x =>
        (s.fPos, s.board.rd, s.board.size, s.target d .seekCur, x.1.1.ret, (Use.ended x).fPos)) =
      some v) :
    ∃ s x, Lts.run (Use.step bytes ⟨8, 8⟩) smallUse [readOneByte] = some s ∧
      s.exec bytes ⟨8, 8⟩ (.llseek d .seekCur, wholeReplies) = some x ∧
      v = (s.fPos, s.board.rd, s.board.size, s.target d .seekCur, x.1.1.ret,
        (Use.ended x).fPos) := by
  rcases Option.bind_eq_some_iff.mp h with ⟨s, hs, h⟩
  rcases Option.map_eq_some_iff.mp h with ⟨x, hx, h⟩
  exact ⟨s, x, hs, hx, h.symm⟩

/-- Nine back from the current position is the beginning either way. -/
theorem seek_iff_back : ∃ s x, Lts.run (Use.step bytes ⟨8, 8⟩) smallUse [readOneByte] = some s ∧
    s.exec bytes ⟨8, 8⟩ (.llseek (-9) .seekCur, wholeReplies) = some x ∧
    SeekLaw s (-9) .seekCur x.1.1.ret (Use.ended x) := by
  obtain ⟨k', l, hopen, hstart⟩ := smallOpen_eq
  obtain ⟨s, x, hs, hx, hv⟩ := seekAfterRead (-9) (show _ = some (1, 4, 40, 0, 0, 0) by decide)
  simp only [Prod.mk.injEq] at hv
  obtain ⟨hfPos, hrd, hsize, -, -, -⟩ := hv
  have hrun := hs
  rw [← hstart] at hrun
  have hwhence : Whence.seekCur ≠ .other := nofun
  refine ⟨s, x, hs, hx, (seek_iff hopen hrun (by decide) hwhence (by omega) ?_ hx).mpr ?_⟩
  · intro c hc
    rw [List.eq_of_mem_replicate hc]
    exact ⟨rfl, Nat.le_refl 2⟩
  · refine ⟨by omega, by omega, nofun, Or.inr ⟨by omega, Or.inr (Or.inl ?_)⟩⟩
    omega

/-- The current position is 1, and asking for it returns 4 and leaves it there. -/
theorem seek_astray : ∃ s x, Lts.run (Use.step bytes ⟨8, 8⟩) smallUse [readOneByte] = some s ∧
    s.exec bytes ⟨8, 8⟩ (.llseek 0 .seekCur, wholeReplies) = some x ∧
    s.fPos = 1 ∧ x.1.1.ret = 4 ∧ ¬ SeekLaw s 0 .seekCur x.1.1.ret (Use.ended x) := by
  obtain ⟨s, x, hs, hx, hv⟩ := seekAfterRead 0 (show _ = some (1, 4, 40, 1, 4, 4) by decide)
  simp only [Prod.mk.injEq] at hv
  obtain ⟨hfPos, -, -, htarget, hret, -⟩ := hv
  refine ⟨s, x, hs, hx, hfPos.symm, hret.symm, ?_⟩
  intro hlaw
  have heq := hlaw.ret
  omega

/-! ## A seek that fails -/

/-- A message to set the write offset. -/
def SetsWrite (e : BoardEntry β) : Prop := ∃ v, e.op = .setMemOffset .eWrite v

/-- No message to set the write offset fails, or it would have set the offset that the
board has as its read offset. -/
def Harmless (b : Board) (log : List (BoardEntry β)) : Prop :=
  ∀ e ∈ log, ∀ v, e.op = .setMemOffset .eWrite v → Fails e = true → v = b.rd

/-- A SET message at the head of an execution. -/
theorem exec16_setOff {α : Type} {dir : Dir} {offset : ℤ} {f : Except Errno Unit → Driver β α}
    {a : α} {b' : Board} {ds : List (Choice β)} {log : List (BoardEntry β)} (hb : b.Short)
    (h : exec (Board.serve16 view) ((setOff dir offset).bind f) b ds = some (a, b', log)) :
    ∃ ds' log' e, log = e :: log' ∧ e.op = .setMemOffset dir (toU16 offset) ∧
      ((∃ err, Fails e = true ∧
          exec (Board.serve16 view) (f (.error err)) b ds' = some (a, b', log')) ∨
        (Fails e = false ∧
          exec (Board.serve16 view) (f (.ok ())) (b.setOff dir (toU16 offset)) ds' =
            some (a, b', log'))) := by
  rcases exec_call.mp h with ⟨c, ds', r, m, log', -, hs, he, rfl⟩
  refine ⟨ds', log', _, rfl, by simp only [toU16_toInt], ?_⟩
  cases hf : c.fail with
  | some err =>
      rw [serve16_set_error hb hf] at hs
      cases hs
      exact Or.inl ⟨err, by simp [Fails, hf], he⟩
  | none =>
      rw [serve16_set_ok hb hf] at hs
      cases hs
      exact Or.inr ⟨by simp [Fails, hf], he⟩

/-- A program of operations that the board does not notice. -/
theorem exec16_idles {α : Type} {p : Driver β α} {a : α} {b' : Board} {ds : List (Choice β)}
    {log : List (BoardEntry β)} (hb : b.Short) (hp : p.Only Op.Idle)
    (h : exec (Board.serve16 view) p b ds = some (a, b', log)) :
    b' = b ∧ ∀ e ∈ log, ¬ SetsWrite e := by
  have hwp : Wp (Board.serve16 view) (fun _ => True) p b fun _ m => m = b := wp_idles hb hp
  have hm := wp_exec hwp (fun _ _ => trivial) h
  refine ⟨hm, ?_⟩
  rintro e he ⟨v, hv⟩
  have hidle := hp.exec h e he
  rw [hv] at hidle
  exact hidle

/-- How a seek that returns an error has gone: nothing has happened to the board, or the
read offset has been set and the message for the write offset has failed. -/
inductive SeekFailed (b b' : Board) (log : List (BoardEntry β)) : Prop where
  | before (hb : b' = b) (hlog : ∀ e ∈ log, ¬ SetsWrite e)
  | between (v : ℕ) (e : BoardEntry β) (hv : v < 2 ^ 16) (hb : b' = b.setOff .eRead v)
      (he : e ∈ log) (hop : e.op = .setMemOffset .eWrite v) (hfail : Fails e = true)
      (hlog : ∀ e' ∈ log, SetsWrite e' → e' = e)

theorem llseek_failed {d : ℤ} {whence : Whence} {r : ℤ × Option ℤ} {b' : Board}
    {ds : List (Choice β)} {log : List (BoardEntry β)} (hb : b.Short)
    (h : exec (Board.serve16 view) (ddkLlseek d whence) b ds = some (r, b', log)) (hret : r.1 < 0) :
    r.2 = none ∧ SeekFailed b b' log := by
  rcases exec_bind.mp h with ⟨size, m₁, ds₁, ds₂, log₁, log₂, rfl, hsize, hrest, rfl⟩
  rcases exec16_idles hb idle_getSize hsize with ⟨rfl, hlog₁⟩
  split at hrest
  · rcases exec_ret.mp hrest with ⟨-, rfl, rfl, rfl⟩
    exact ⟨rfl, .before rfl (by rwa [List.append_nil])⟩
  · rename_i hpos
    rcases exec_bind.mp hrest with ⟨target, m₂, ds₃, ds₄, log₃, log₄, rfl, hseek, hset, rfl⟩
    rcases exec16_idles hb (idle_seekTarget size d whence) hseek with ⟨rfl, hlog₃⟩
    have hidle : ∀ e ∈ log₁ ++ log₃, ¬ SetsWrite e := by
      intro e he
      rcases List.mem_append.mp he with he | he
      · exact hlog₁ e he
      · exact hlog₃ e he
    rw [← List.append_assoc]
    cases target with
    | error e =>
        rcases exec_ret.mp hset with ⟨-, rfl, rfl, rfl⟩
        exact ⟨rfl, .before rfl (by rwa [List.append_nil])⟩
    | ok offset =>
        rcases exec16_setOff hb hset with ⟨ds₅, log₅, e₁, rfl, hop₁, hsets⟩
        have hnot₁ : ¬ SetsWrite e₁ := by
          rintro ⟨v, hv⟩
          exact absurd (hop₁.symm.trans hv) nofun
        rcases hsets with ⟨err, hf₁, hend⟩ | ⟨hf₁, hend⟩
        · rcases exec_ret.mp hend with ⟨-, rfl, rfl, rfl⟩
          refine ⟨rfl, .before rfl ?_⟩
          intro e he
          rcases List.mem_append.mp he with he | he
          · exact hidle e he
          · rw [List.mem_singleton.mp he]
            exact hnot₁
        · have hset₁ := hb.setOff .eRead (toU16_lt (clamp size offset))
          rcases exec16_setOff hset₁ hend with ⟨ds₆, log₆, e₂, rfl, hop₂, hlast⟩
          rcases hlast with ⟨err, hf₂, hend⟩ | ⟨hf₂, hend⟩
          · -- the read offset is set, the write offset is not
            rcases exec_ret.mp hend with ⟨-, rfl, rfl, rfl⟩
            refine ⟨rfl,
              .between (toU16 (clamp size offset)) e₂ (toU16_lt _) rfl (by simp) hop₂ hf₂ ?_⟩
            intro e' he' hsets
            rcases List.mem_append.mp he' with he' | he'
            · exact absurd hsets (hidle e' he')
            · rcases List.mem_cons.mp he' with rfl | he'
              · exact absurd hsets hnot₁
              · exact List.mem_singleton.mp he'
          · rcases exec_ret.mp hend with ⟨-, rfl, rfl, rfl⟩
            have hclamp := (clamp_range (by omega : 0 ≤ size) offset).1
            exact absurd hret (by omega)

/-- The failure is harmless exactly when the read offset is as it was. -/
theorem harmless_iff {b' : Board} {log : List (BoardEntry β)} (h : SeekFailed b b' log) :
    Harmless b log ↔ b'.rd = b.rd := by
  cases h with
  | before hb hlog =>
      refine iff_of_true ?_ (congrArg Board.rd hb)
      intro e he v hop _
      exact absurd ⟨v, hop⟩ (hlog e he)
  | between v e hv hb he hop hfail hlog =>
      subst hb
      constructor
      · intro hharm
        exact hharm e he v hop hfail
      · intro heq e' he' v' hop' _
        rw [hlog e' he' ⟨v', hop'⟩, hop] at hop'
        cases hop'
        exact heq

/-- Nothing else of the board has changed. -/
theorem board_of_rd {b' : Board} {log : List (BoardEntry β)} (h : SeekFailed b b' log)
    (hrd : b'.rd = b.rd) : b' = b := by
  cases h with
  | before hb hlog => exact hb
  | between v e hv hb he hop hfail hlog =>
      subst hb
      have hv' : v = b.rd := hrd
      rw [hv']
      rfl

/-! ## What later calls can tell -/

/-- A call, with as many choices as it may need. -/
abbrev LaterCall (β : Type) := FileCall × (ℕ → Choice β)

namespace Use

variable (view : ℕ → UInt8 → β) (cfg : Config)

/-- The reply to a call, and the file after it. -/
def later (s : Use β) (a : LaterCall β) : Option (Reply β × Use β) :=
  (play (Board.serve16 view) (s.prog cfg a.1) s.board a.2).map fun x => (x.1.1, ended x)

/-- The replies to a sequence of calls, up to the first that does not return. -/
def replies : Use β → List (LaterCall β) → List (Reply β)
  | _, [] => []
  | s, a :: as =>
      match s.later view cfg a with
      | none => []
      | some (reply, s') => reply :: s'.replies as

/-- No sequence of calls gets other replies on one file than on the other. -/
def Indistinguishable (s s' : Use β) : Prop := ∀ as, s.replies view cfg as = s'.replies view cfg as

end Use

/-- The choices under which a board is taken to have 32767 bytes, its reply to the size
being lost, and reports its read offset. -/
def revealing (i : ℕ) : Choice β :=
  if i = 0 then { (Choice.ok 0 : Choice β) with stack := (255, 127) }
  else if i = 3 then .ok 2 else .ok 0

/-- Asking for the current position. -/
def askPosition : LaterCall β := (.llseek 0 .seekCur, revealing)

/-- An answer that leaves the board as it is. -/
theorem serve16_of (hb : b.Short) {o : Op β} {c : Choice β} {r : Ans β o}
    (h : Board.serve view b o c = some (r, b)) : Board.serve16 view b o c = some (r, b) := by
  rw [Board.serve16, h, Option.map_some, Board.wrap_of_short hb]

theorem plays_getSize (hb : b.Short) :
    Plays (Board.serve16 view) (getSize : Driver β ℤ) b revealing 32767 b 2 := by
  have hs0 : Board.serve16 view b .stackShort (revealing 0) = some ((255, 127), b) :=
    serve16_of hb rfl
  have hs1 : Board.serve16 view b .getMemSize (revealing 1) =
      some (.ok (Board.reply b.size 0), b) :=
    serve16_of hb rfl
  have hlost : shortOf (Board.reply b.size 0).1 (255, 127) = 32767 := by
    show shortOf [] (255, 127) = 32767
    decide
  rw [← hlost]
  exact plays_call hs0 (plays_call hs1 (plays_ret _))

theorem plays_getOff (hb : b.Short) :
    Plays (Board.serve16 view) (getOff .eRead : Driver β ℤ) b (fun i => revealing (i + 2))
      (toShort b.rd) b 2 := by
  have hs0 : Board.serve16 view b .stackShort (revealing 2) = some ((0, 0), b) :=
    serve16_of hb rfl
  have hs1 : Board.serve16 view b (.getMemOffset .eRead) (revealing 3) =
      some (.ok (Board.reply b.rd 2), b) :=
    serve16_of hb rfl
  rw [← shortOf_reply hb.rd (Nat.le_refl 2) (0, 0)]
  exact plays_call hs0 (plays_call hs1 (plays_ret _))

theorem plays_set {α : Type} {dir : Dir} {offset : ℤ} {f : Except Errno Unit → Driver β α}
    {ds : ℕ → Choice β} {a : α} {b' : Board} {n : ℕ} (hb : b.Short) (hc : (ds 0).fail = none)
    (hf : Plays (Board.serve16 view) (f (.ok ())) (b.setOff dir (toU16 offset))
      (fun i => ds (i + 1)) a b' n) :
    Plays (Board.serve16 view) ((setOff dir offset).bind f) b ds a b' (n + 1) := by
  exact plays_call (serve16_set_ok hb hc) hf

/-- What it returns is the read offset of the board, as a `short`. -/
theorem plays_askPosition (hb : b.Short) : ∃ r m n,
    Plays (Board.serve16 view) (ddkLlseek 0 .seekCur : Driver β _) b revealing r m n ∧
      r.1 = toShort b.rd := by
  by_cases hneg : toShort b.rd < 0
  · have htarget : Plays (Board.serve16 view) (seekTarget 32767 0 .seekCur : Driver β _) b
        (fun i => revealing (i + 2)) (.error (toShort b.rd)) b (2 + 0) := by
      refine plays_bind (plays_getOff hb) ?_
      rw [if_pos hneg]
      exact plays_ret _
    exact ⟨_, _, _, plays_bind (plays_getSize hb) (plays_bind htarget (plays_ret _)), rfl⟩
  · have hlong : toLong (0 + toShort b.rd) = toShort b.rd := by
      unfold toLong toShort
      omega
    have htarget : Plays (Board.serve16 view) (seekTarget 32767 0 .seekCur : Driver β _) b
        (fun i => revealing (i + 2)) (.ok (toShort b.rd)) b (2 + 0) := by
      refine plays_bind (plays_getOff hb) ?_
      rw [if_neg hneg, hlong]
      exact plays_ret _
    have hclamp : clamp 32767 (toShort b.rd) = toShort b.rd := by
      rw [clamp_eq (by decide)]
      unfold toShort
      unfold toShort at hneg
      omega
    have hset := hb.setOff .eRead (toU16_lt (clamp 32767 (toShort b.rd)))
    have hok (i : ℕ) (hi : 4 ≤ i) : (revealing i : Choice β).fail = none := by
      unfold revealing
      rw [if_neg (by omega), if_neg (by omega)]
      rfl
    have hseek : Plays (Board.serve16 view) (ddkLlseek 0 .seekCur : Driver β _) b revealing
        (clamp 32767 (toShort b.rd), some (clamp 32767 (toShort b.rd)))
        ((b.setOff .eRead (toU16 (clamp 32767 (toShort b.rd)))).setOff .eWrite
          (toU16 (clamp 32767 (toShort b.rd)))) (2 + (2 + 0 + (0 + 1 + 1))) := by
      refine plays_bind (plays_getSize hb) (plays_bind htarget ?_)
      refine plays_set hb (hok 4 (Nat.le_refl 4)) ?_
      refine plays_set hset (hok 5 (Nat.le_succ 4)) ?_
      exact plays_ret _
    refine ⟨_, _, _, hseek, ?_⟩
    rw [hclamp]

/-- One call that returns. -/
theorem replies_one {a : LaterCall β} {reply : Reply β}
    (h : s.later view cfg a = some (reply, s')) : s.replies view cfg [a] = [reply] := by
  simp only [Use.replies, h]

/-- The reply to that question on a file in use. -/
theorem replies_askPosition (hb : s.board.Short) :
    (s.replies view cfg [askPosition]).map Reply.ret = [toShort s.board.rd] := by
  rcases @plays_askPosition β view s.board hb with ⟨r, m, n, hplays, hret⟩
  have hprog : Plays (Board.serve16 view) (s.prog cfg (.llseek 0 .seekCur)) s.board revealing
      (⟨r.1, []⟩, s.file, r.2.getD s.fPos) m (n + 0) := plays_bind hplays (plays_ret _)
  rcases hprog.play with ⟨log, hplay⟩
  have hlater : s.later view cfg askPosition = some (⟨r.1, []⟩, ⟨m, s.file, r.2.getD s.fPos⟩) := by
    rw [Use.later, askPosition, hplay]
    rfl
  rw [replies_one hlater, List.map_cons, List.map_nil, hret]

theorem toShort_inj {a c : ℕ} (ha : a < 2 ^ 16) (hc : c < 2 ^ 16) (h : toShort a = toShort c) :
    a = c := by
  unfold toShort at h
  omega

/-- In every state of a file, and for every `ddk_llseek` that returns an error: no later
`ddk_read`, `ddk_write` and `ddk_llseek` calls can tell the file from one on which that
call was not made, if and only if the message that failed is not the one for the write
offset, or the read offset that was set before it is the one that the board had. -/
theorem failed_seek_iff
    (hopen : exec (Kernel.serve view) (ddkOpen cfg) k cs = some (.ok file, k', l))
    (hrun : Lts.run (Use.step view cfg) (opened k' file) as = some s) {d : ℤ} {whence : Whence}
    {ds : List (Choice β)} {x : (Reply β × File β × ℤ) × Board × List (BoardEntry β)}
    (hx : s.exec view cfg (.llseek d whence, ds) = some x) (hret : x.1.1.ret < 0) :
    Use.Indistinguishable view cfg (Use.ended x) s ↔ Harmless s.board x.2.2 := by
  have hi := useInv_run hopen hrun
  have hafter : (Use.ended x).board.Short :=
    (useInv_step hi (show Use.step view cfg s (.llseek d whence, ds) = some (Use.ended x) by
      rw [Use.step, hx]
      rfl)).short
  rcases x with ⟨y, b', log⟩
  rcases exec_bind.mp hx with ⟨r, m, ds₁, ds₂, log₁, log₂, rfl, hseek, hend, rfl⟩
  rcases exec_ret.mp hend with ⟨rfl, rfl, rfl, rfl⟩
  rcases llseek_failed hi.short hseek hret with ⟨hpos, hfailed⟩
  rw [List.append_nil] at hafter ⊢
  rw [harmless_iff hfailed]
  constructor
  · intro hsame
    have hreplies := congrArg (List.map Reply.ret) (hsame [askPosition])
    rw [replies_askPosition hafter, replies_askPosition hi.short] at hreplies
    exact toShort_inj hafter.rd hi.short.rd (List.cons.inj hreplies).1
  · intro hrd as
    have hfile :
        Use.ended (((⟨r.1, []⟩, s.file, r.2.getD s.fPos) : Reply β × File β × ℤ), b', log₁) =
          s := by
      rw [Use.ended, board_of_rd hfailed hrd, hpos]
      rfl
    exact congrArg (fun t => Use.replies view cfg t as) hfile

/-- A seek to 5 in which the message for the read offset fails. -/
def seekUnset : FileCall × List (Choice UInt8) :=
  (.llseek 5 .seekSet, [.ok 0, .ok 2, .err EPROTO])

/-- A seek to 5 in which the message for the write offset fails. -/
def seekHalf : FileCall × List (Choice UInt8) :=
  (.llseek 5 .seekSet, [.ok 0, .ok 2, .ok 0, .err EPROTO])

/-- The operations that set the write offset. -/
def setsWrite (e : BoardEntry β) : Bool :=
  match e.op with
  | .setMemOffset .eWrite _ => true
  | _ => false

theorem failed_seek_iff_unset : ∃ x, smallUse.exec bytes ⟨8, 8⟩ seekUnset = some x ∧
    x.1.1.ret = -71 ∧ Use.Indistinguishable bytes ⟨8, 8⟩ (Use.ended x) smallUse := by
  obtain ⟨k', l, hopen, hstart⟩ := smallOpen_eq
  have hcall : (smallUse.exec bytes ⟨8, 8⟩ seekUnset).map
      (fun x => (x.1.1.ret, x.2.2.map setsWrite)) = some (-71, [false, false, false]) := by decide
  rcases Option.map_eq_some_iff.mp hcall with ⟨x, hx, hv⟩
  rcases Prod.mk.inj hv with ⟨hret, hlog⟩
  have hrun : Lts.run (Use.step bytes ⟨8, 8⟩) (opened k' smallUse.file) [] = some smallUse := by
    rw [hstart]
    rfl
  refine ⟨x, hx, hret, (failed_seek_iff hopen hrun hx (by omega)).mpr ?_⟩
  intro e he v hop _
  have hmem := List.mem_map_of_mem (f := setsWrite) he
  have htrue : setsWrite e = true := by simp only [setsWrite, hop]
  rw [hlog, htrue] at hmem
  exact absurd hmem (by decide)

/-- After it the current position is 5 for a seek, and was 0 before. -/
theorem failed_seek_half : ∃ x, smallUse.exec bytes ⟨8, 8⟩ seekHalf = some x ∧ x.1.1.ret = -71 ∧
    ¬ Use.Indistinguishable bytes ⟨8, 8⟩ (Use.ended x) smallUse := by
  have hcall : (smallUse.exec bytes ⟨8, 8⟩ seekHalf).map (fun x => (x.1.1.ret,
      ((Use.ended x).replies bytes ⟨8, 8⟩ [(.llseek 0 .seekCur, fun _ => .ok 2)]).map Reply.ret,
      (smallUse.replies bytes ⟨8, 8⟩ [(.llseek 0 .seekCur, fun _ => .ok 2)]).map Reply.ret)) =
    some (-71, [5], [0]) := by decide
  rcases Option.map_eq_some_iff.mp hcall with ⟨x, hx, hv⟩
  simp only [Prod.mk.injEq] at hv
  obtain ⟨hret, hafter, hbefore⟩ := hv
  refine ⟨x, hx, hret, ?_⟩
  intro hsame
  rw [hsame, hbefore] at hafter
  exact absurd hafter (by decide)

end DdkMem
