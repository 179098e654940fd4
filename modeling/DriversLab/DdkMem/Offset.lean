import DriversLab.DdkMem.Board

/-!
# DdkMem.Offset — where a transfer lands

A position is a `loff_t`; it reaches the board through an `int` and the 16-bit
`wValue` of a control message.

* `ReadCase`, `WriteCase`: how one `ddk_read` or `ddk_write` can go, with the
  place of its first data packet;
* `lands_iff`: a transfer that succeeds starts at the position asked for exactly
  when the position is below 2^16, or no packet moves.
-/

namespace DdkMem

open CInt Interact

variable {β : Type} {view : ℕ → UInt8 → β} {cfg : Config} {b b' : Board}
  {cs : List (Choice β)} {l : List (BoardEntry β)}

/-- The offset of the board at which the first data packet moves. -/
def firstPacket : List (BoardEntry β) → Option ℕ
  | [] => none
  | e :: l =>
      match e.op with
      | .interruptIn _ => some e.before.rd
      | .interruptOut _ => some e.before.wr
      | _ => firstPacket l

/-- No message fails and no copy faults. -/
def Smooth (l : List (BoardEntry β)) : Prop := ∀ e ∈ l, Fails e = false

@[simp] theorem smooth_nil : Smooth ([] : List (BoardEntry β)) := by
  intro e he
  cases he

@[simp] theorem smooth_cons {e : BoardEntry β} :
    Smooth (e :: l) ↔ Fails e = false ∧ Smooth l := List.forall_mem_cons

@[simp] theorem smooth_append {l₁ l₂ : List (BoardEntry β)} :
    Smooth (l₁ ++ l₂) ↔ Smooth l₁ ∧ Smooth l₂ := List.forall_mem_append

/-! ## ddk_read -/

/-- How a `ddk_read` at `off` can go. -/
inductive ReadCase (view : ℕ → UInt8 → β) (cfg : Config) (file : File β) (cnt : ℕ) (off : ℤ)
    (b : Board) (r : ReadResult β) (l : List (BoardEntry β)) : Prop where
  | failed (hret : r.ret < 0) (hl : ¬ Smooth l)
  | parked (hleft : file.inBufLeftOver ≠ 0)
      (hr : r = handOver cnt off file.inBufLeftOver { file with inBufLeftOver := 0 })
      (hl : Smooth l) (hpacket : firstPacket l = none)
  | fetched (n : ℕ) (hn : n ≤ cfg.inBufSize) (hleft : file.inBufLeftOver = 0)
      (hr : r = handOver cnt off n
        ⟨(b.setOff .eRead (toU16 off)).packet view n ++ file.inBuf.drop n, 0⟩)
      (hl : Smooth l) (hpacket : firstPacket l = some (toU16 off))

/-- The second half of a `ddk_read`. -/
theorem deliver_cases {cnt : ℕ} {off : ℤ} {readSize : ℕ} {file : File β} {r : ReadResult β}
    (h : exec (Board.serve view) (deliver cnt off readSize file) b cs = some (r, b', l)) :
    firstPacket l = none ∧
      ((r.ret < 0 ∧ ¬ Smooth l) ∨ (r = handOver cnt off readSize file ∧ Smooth l)) := by
  rcases exec_copyToUser h with ⟨cs', l', e, rfl, hop, h⟩
  cases hf : Fails e with
  | true =>
      rw [hf] at h
      rcases exec_done h with ⟨rfl, _, rfl⟩
      exact ⟨by simp [firstPacket, hop], Or.inl ⟨EFAULT.neg, by simp [hf]⟩⟩
  | false =>
      rw [hf] at h
      rcases exec_done h with ⟨rfl, _, rfl⟩
      exact ⟨by simp [firstPacket, hop], Or.inr ⟨rfl, by simp [hf]⟩⟩

theorem read_cases {file : File β} {cnt : ℕ} {off : ℤ} {r : ReadResult β}
    (h : exec (Board.serve view) (ddkRead cfg file cnt off) b cs = some (r, b', l)) :
    ReadCase view cfg file cnt off b r l := by
  unfold ddkRead fetch at h
  by_cases hleft : file.inBufLeftOver ≠ 0
  · rw [if_pos hleft] at h
    rcases deliver_cases h with ⟨hp, ⟨hret, hl⟩ | ⟨hr, hl⟩⟩
    · exact .failed hret hl
    · exact .parked hleft hr hl hp
  · rw [if_neg hleft] at h
    have hzero : file.inBufLeftOver = 0 := by simpa using hleft
    simp only [Prog.bind_eq, Prog.bind_assoc] at h
    rcases exec_setOff h with ⟨cs₁, l₁, e₁, rfl, hop₁, ⟨err, hf₁, h⟩ | ⟨hf₁, h⟩⟩
    · rcases exec_done h with ⟨rfl, _, rfl⟩
      exact .failed err.neg (by simp [hf₁])
    · rcases exec_interruptIn h with ⟨cs₂, l₂, e₂, rfl, hop₂, hb₂, ⟨err, hf₂, h⟩ | ⟨hf₂, n, hn, h⟩⟩
      · rcases exec_done h with ⟨rfl, _, rfl⟩
        exact .failed err.neg (by simp [hf₂])
      · rcases exec_setOff h with ⟨cs₃, l₃, e₃, rfl, hop₃, ⟨err, hf₃, h⟩ | ⟨hf₃, h⟩⟩
        · rcases exec_done h with ⟨rfl, _, rfl⟩
          exact .failed err.neg (by simp [hf₃])
        · rcases deliver_cases h with ⟨hp, ⟨hret, hl⟩ | ⟨hr, hl⟩⟩
          · exact .failed hret (by simp [hl])
          · refine .fetched n (by simpa using hn) hzero ?_ (by simp [hf₁, hf₂, hf₃, hl]) ?_
            · simpa [hzero] using hr
            · simp [firstPacket, hop₁, hop₂, hb₂, Board.setOff]

/-! ## ddk_write -/

/-- How a `ddk_write` at `off` can go. -/
inductive WriteCase (buf : List UInt8) (off : ℤ) (r : Transfer) (l : List (BoardEntry β)) :
    Prop where
  | failed (hret : r.ret < 0) (hl : ¬ Smooth l)
  | done (hret : 0 ≤ r.ret) (hl : Smooth l)
      (hpacket : firstPacket l = if buf = [] then none else some (toU16 off))

theorem firstPacket_append {l₁ l₂ : List (BoardEntry β)} :
    firstPacket (l₁ ++ l₂) = (firstPacket l₁).or (firstPacket l₂) := by
  induction l₁ with
  | nil => simp [firstPacket]
  | cons e l₁ ih =>
      simp only [List.cons_append, firstPacket]
      cases e.op <;> first
        | exact ih
        | rfl

/-- The loop of `ddk_write`, from `wroteCnt` on. -/
theorem writeLoop_cases {buf : List UInt8} {bound wroteCnt : ℕ} {r : Except Errno ℕ}
    (h : exec (Board.serve view) (writeLoop cfg buf bound wroteCnt) b cs = some (r, b', l)) :
    (∃ err, r = .error err ∧ ¬ Smooth l) ∨
      (∃ n, r = .ok n ∧ Smooth l ∧
        firstPacket l = if wroteCnt < buf.length then some b.wr else none) := by
  induction bound generalizing wroteCnt b cs l with
  | zero =>
      unfold writeLoop at h
      split at h
      · rcases exec_perform h with ⟨c, cs', r', m, l', hs, _, _⟩
        cases hs
      · rename_i hdone
        rcases exec_done h with ⟨rfl, _, rfl⟩
        exact Or.inr ⟨wroteCnt, rfl, smooth_nil, by simp [firstPacket, hdone]⟩
  | succ bound ih =>
      unfold writeLoop at h
      split at h
      · rename_i hmore
        rcases exec_copyFromUser h with ⟨cs₁, l₁, e₁, rfl, hop₁, h⟩
        cases hf₁ : Fails e₁ with
        | true =>
            rw [hf₁] at h
            rcases exec_done h with ⟨rfl, _, rfl⟩
            exact Or.inl ⟨EFAULT, rfl, by simp [hf₁]⟩
        | false =>
            rw [hf₁] at h
            rcases exec_interruptOut h with ⟨cs₂, l₂, e₂, m, r₂, rfl, hop₂, hb₂, hr₂, h⟩
            rcases hr₂ with ⟨err, rfl, hf₂⟩ | ⟨n, rfl, hf₂⟩
            · rcases exec_hook h trivial with ⟨cs₃, l₃, e₃, r₃, rfl, hop₃, hf₃, h⟩
              rcases exec_done h with ⟨rfl, _, rfl⟩
              exact Or.inl ⟨err, rfl, by simp [hf₂]⟩
            · rcases ih h with ⟨err, hr, hl⟩ | ⟨k, hr, hl, _⟩
              · exact Or.inl ⟨err, hr, by simp [hl]⟩
              · refine Or.inr ⟨k, hr, by simp [hf₁, hf₂, hl], ?_⟩
                rw [if_pos hmore]
                simp [firstPacket, hop₁, hop₂, hb₂]
      · rename_i hdone
        rcases exec_done h with ⟨rfl, _, rfl⟩
        exact Or.inr ⟨wroteCnt, rfl, smooth_nil, by simp [firstPacket, hdone]⟩

theorem write_cases {buf : List UInt8} {bound : ℕ} {off : ℤ} {r : Transfer}
    (h : exec (Board.serve view) (ddkWrite cfg bound buf off) b cs = some (r, b', l)) :
    WriteCase buf off r l := by
  unfold ddkWrite at h
  rcases exec_setOff h with ⟨cs₁, l₁, e₁, rfl, hop₁, ⟨err, hf₁, h⟩ | ⟨hf₁, h⟩⟩
  · rcases exec_done h with ⟨rfl, _, rfl⟩
    exact .failed err.neg (by simp [hf₁])
  · rcases exec_bind.mp h with ⟨res, m, cs₂, cs₃, l₂, l₃, rfl, hloop, h, rfl⟩
    rcases writeLoop_cases hloop with ⟨err, rfl, hl⟩ | ⟨n, rfl, hl, hp⟩
    · rcases exec_done h with ⟨rfl, _, rfl⟩
      exact .failed err.neg (by simp [hl])
    · rcases exec_hook h trivial with ⟨cs₄, l₄, e₄, r₄, rfl, hop₄, hf₄, h⟩
      rcases exec_setOff h with ⟨cs₅, l₅, e₅, rfl, hop₅, ⟨err, hf₅, h⟩ | ⟨hf₅, h⟩⟩
      · rcases exec_done h with ⟨rfl, _, rfl⟩
        exact .failed err.neg (by simp [hf₅])
      · rcases exec_done h with ⟨rfl, _, rfl⟩
        refine .done (Int.natCast_nonneg n) (by simp [hf₁, hl, hf₄, hf₅]) ?_
        simp only [firstPacket, hop₁, firstPacket_append, hp, hop₄, hop₅, Board.setOff]
        cases buf <;> simp

/-! ## The exact condition -/

/-- A call at `p` fails, or its first data packet moves at the offset `p`. -/
def Lands (p ret : ℤ) (l : List (BoardEntry β)) : Prop :=
  ret < 0 ∨ ∀ a, firstPacket l = some a → (a : ℤ) = p

/-- The offset that a command of `ddk_ioctl` sets. -/
def IoctlCmd.sets : IoctlCmd → Option Dir
  | .rdOffSet => some .eRead
  | .wrOffSet => some .eWrite
  | _ => none

/-- A SET ioctl fails, or leaves the board at the offset asked for. -/
def Sets (dir : Dir) (arg ret : ℤ) (b' : Board) : Prop := ret < 0 ∨ (b'.off dir : ℤ) = arg

theorem lands_of_none {p ret : ℤ} (h : firstPacket l = none) : Lands p ret l := by
  refine Or.inr ?_
  intro a ha
  rw [h] at ha
  cases ha

theorem lands_of_some {p ret : ℤ} (hp : 0 ≤ p) (hret : 0 ≤ ret)
    (h : firstPacket l = some (toU16 p)) : Lands p ret l ↔ p < 2 ^ 16 := by
  rw [← toU16_eq_self_iff hp]
  constructor
  · rintro (hneg | hall)
    · omega
    · exact hall _ h
  · intro heq
    refine Or.inr ?_
    intro a ha
    cases h.symm.trans ha
    exact heq

/-- A `ddk_read`, a `ddk_write` or a SET ioctl fails or works at the position
asked for if and only if the position is below 2^16, no packet moves, or some
message or copy of the call fails. -/
theorem lands_iff {p : ℤ} (hp : 0 ≤ p) :
    (∀ (file : File β) (cnt : ℕ) r, exec (Board.serve view) (ddkRead cfg file cnt p) b cs =
        some (r, b', l) →
      (Lands p r.ret l ↔ p < 2 ^ 16 ∨ file.inBufLeftOver ≠ 0 ∨ ¬ Smooth l)) ∧
    (∀ (buf : List UInt8) (bound : ℕ) r,
      exec (Board.serve view) (ddkWrite cfg bound buf p) b cs = some (r, b', l) →
      (Lands p r.ret l ↔ p < 2 ^ 16 ∨ buf = [] ∨ ¬ Smooth l)) ∧
    (∀ (cmd : IoctlCmd) (dir : Dir) ret, cmd.sets = some dir →
      exec (Board.serve view) (ddkIoctl cmd p) b cs = some (ret, b', l) →
      (Sets dir p ret b' ↔ p < 2 ^ 16 ∨ ¬ Smooth l)) := by
  refine ⟨?_, ?_, ?_⟩
  · intro file cnt r h
    cases read_cases h with
    | failed hret hl => exact ⟨fun _ => Or.inr (Or.inr hl), fun _ => Or.inl hret⟩
    | parked hleft hr hl hpacket =>
        exact ⟨fun _ => Or.inr (Or.inl hleft), fun _ => lands_of_none hpacket⟩
    | fetched n hn hleft hr hl hpacket =>
        have hret : 0 ≤ r.ret := by
          rw [hr]
          exact Int.natCast_nonneg _
        rw [lands_of_some hp hret hpacket]
        simp [hleft, hl]
  · intro buf bound r h
    cases write_cases h with
    | failed hret hl => exact ⟨fun _ => Or.inr (Or.inr hl), fun _ => Or.inl hret⟩
    | done hret hl hpacket =>
        by_cases hbuf : buf = []
        · rw [if_pos hbuf] at hpacket
          exact ⟨fun _ => Or.inr (Or.inl hbuf), fun _ => lands_of_none hpacket⟩
        · rw [if_neg hbuf] at hpacket
          rw [lands_of_some hp hret hpacket]
          simp [hbuf, hl]
  · intro cmd dir ret hcmd hioctl
    have h : exec (Board.serve view) (ioctlSet dir p) b cs = some (ret, b', l) := by
      cases cmd <;> cases hcmd <;> exact hioctl
    rcases exec_setOff h with ⟨cs₁, l₁, e₁, rfl, hop₁, ⟨err, hf₁, h⟩ | ⟨hf₁, h⟩⟩
    · rcases exec_done h with ⟨rfl, _, rfl⟩
      exact ⟨fun _ => Or.inr (by simp [hf₁]), fun _ => Or.inl err.neg⟩
    · rcases exec_done h with ⟨rfl, rfl, rfl⟩
      have hoff : (b.setOff dir (toU16 p)).off dir = toU16 p := by cases dir <;> rfl
      rw [Sets, hoff, toU16_eq_self_iff hp]
      simp [hf₁]

/-! ## Both sides on a read of four bytes -/

def zeroBoard : Board := ⟨0, 0, 2048, fun _ => 0⟩

/-- A `ddk_read` of four bytes at `p`, all messages succeeding. -/
def readFour (p : ℤ) : Option (ReadResult UInt8 × Board × List (BoardEntry UInt8)) :=
  exec (Board.serve fun _ byte => byte) (ddkRead ⟨8, 8⟩ ⟨List.replicate 8 0, 0⟩ 4 p) zeroBoard
    [.ok 0, .ok 4, .ok 0, .ok 0]

theorem lands_iff_five : ∃ r b' l, readFour 5 = some (r, b', l) ∧ r.ret = 4 ∧ Lands 5 r.ret l := by
  obtain ⟨⟨r, b', l⟩, h⟩ := Option.isSome_iff_exists.mp (show (readFour 5).isSome = true by decide)
  have hret : (readFour 5).map (fun x => x.1.ret) = some 4 := by decide
  rw [h] at hret
  refine ⟨r, b', l, h, by simpa using hret, ?_⟩
  exact ((lands_iff (by decide)).1 _ _ r h).mpr (Or.inl (by decide))

/-- At position 65536 the packet is fetched from address 0, and the call reports
four bytes. -/
theorem lands_wrapped : (readFour 65536).map (fun x => (x.1.ret, firstPacket x.2.2)) =
      some (4, some 0) ∧
    ∃ r b' l, readFour 65536 = some (r, b', l) ∧ ¬ Lands 65536 r.ret l := by
  have hnums : (readFour 65536).map (fun x => (x.1.ret, firstPacket x.2.2)) =
      some (4, some 0) := by decide
  refine ⟨hnums, ?_⟩
  obtain ⟨⟨r, b', l⟩, h⟩ :=
    Option.isSome_iff_exists.mp (show (readFour 65536).isSome = true by decide)
  refine ⟨r, b', l, h, ?_⟩
  rw [h] at hnums
  simp only [Option.map_some, Option.some.injEq, Prod.mk.injEq] at hnums
  rintro (hneg | hall)
  · rw [hnums.1] at hneg
    exact absurd hneg (by decide)
  · exact absurd (hall 0 hnums.2) (by decide)

end DdkMem
