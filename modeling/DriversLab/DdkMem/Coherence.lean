import DriversLab.DdkMem.Offset
import DriversLab.Lib.Lts

/-!
# DdkMem.Coherence — reads, writes and seeks on one file

The bytes of `in_buf` remember the address of the board they were fetched from,
so that what a `ddk_read` hands over says where it comes from.

* `shift_getElem?`: what the shift loop of `ddk_read` leaves in `in_buf`;
* `CoherenceInv`: the parked bytes are consecutive bytes of the board from the
  position `park` on, and still the same there as long as no call has moved the
  position;
* `coherence_iff`: in a run of successful calls every `ddk_read` hands over the
  bytes of its own position, and none that were parked before the position was
  moved, exactly when every `ddk_read` that finds parked bytes and asks for some is
  called at `park` and before any such call.
-/

namespace DdkMem

open CInt Interact

/-! ## The shift loop -/

section Shift

variable {β : Type}

/-- `n` rounds from index `i` on move the bytes `i .. i + n` down by `cnt`. -/
theorem shift_getElem? {cnt n i : ℕ} {inBuf : List β} (hi : cnt ≤ i)
    (hlen : i + n ≤ inBuf.length) (j : ℕ) :
    (shift cnt n i inBuf)[j]? =
      if i - cnt ≤ j ∧ j < i - cnt + n then inBuf[j + cnt]? else inBuf[j]? := by
  induction n generalizing i inBuf with
  | zero =>
      have hnone : ¬ (i - cnt ≤ j ∧ j < i - cnt + 0) := by omega
      rw [if_neg hnone]
      rfl
  | succ n ih =>
      have hlt : i < inBuf.length := by omega
      have hget : inBuf[i]? = some inBuf[i] := List.getElem?_eq_getElem hlt
      have hround : shift cnt (n + 1) i inBuf =
          shift cnt n (i + 1) (inBuf.set (i - cnt) inBuf[i]) := by
        simp only [shift, hget]
      rw [hround, ih (by omega) (by rw [List.length_set]; omega)]
      by_cases hhere : j = i - cnt
      · -- the byte that this round has moved
        have hout : ¬ (i + 1 - cnt ≤ j ∧ j < i + 1 - cnt + n) := by omega
        have hin : i - cnt ≤ j ∧ j < i - cnt + (n + 1) := by omega
        rw [if_neg hout, if_pos hin, hhere, List.getElem?_set_self (by omega),
          show i - cnt + cnt = i by omega, hget]
      · have hsame : (inBuf.set (i - cnt) inBuf[i])[j]? = inBuf[j]? :=
          List.getElem?_set_ne (by omega)
        by_cases hlater : i + 1 - cnt ≤ j ∧ j < i + 1 - cnt + n
        · have hin : i - cnt ≤ j ∧ j < i - cnt + (n + 1) := by omega
          rw [if_pos hlater, if_pos hin, List.getElem?_set_ne (by omega)]
        · have hout : ¬ (i - cnt ≤ j ∧ j < i - cnt + (n + 1)) := by omega
          rw [if_neg hlater, if_neg hout, hsame]

theorem shift_length (cnt n i : ℕ) (inBuf : List β) :
    (shift cnt n i inBuf).length = inBuf.length := by
  induction n generalizing i inBuf with
  | zero => rfl
  | succ n ih =>
      simp only [shift]
      rw [ih]
      split
      · exact List.length_set
      · rfl

/-- After the loop the bytes from `cnt` on are at the front. -/
theorem shift_take {cnt readSize : ℕ} {inBuf : List β} (hlen : readSize ≤ inBuf.length) :
    (shift cnt (readSize - cnt) cnt inBuf).take (readSize - cnt) =
      (inBuf.take readSize).drop cnt := by
  by_cases hcnt : readSize ≤ cnt
  · have hzero : readSize - cnt = 0 := by omega
    have hdrop : (inBuf.take readSize).drop cnt = [] :=
      List.drop_eq_nil_of_le (by rw [List.length_take]; omega)
    rw [hzero, hdrop]
    rfl
  · apply List.ext_getElem?
    intro j
    rw [List.getElem?_take, List.getElem?_drop, List.getElem?_take,
      shift_getElem? (le_refl cnt) (by omega)]
    by_cases hj : j < readSize - cnt
    · have hin : cnt - cnt ≤ j ∧ j < cnt - cnt + (readSize - cnt) := by omega
      rw [if_pos hj, if_pos hin, if_pos (by omega), Nat.add_comm]
    · rw [if_neg hj, if_neg (by omega)]

/-- What becomes of `readSize` fetched bytes: the first `cnt` are handed over, the
others are parked. -/
theorem handOver_parts (cnt : ℕ) (off : ℤ) {readSize : ℕ} {file : File β}
    (hlen : readSize ≤ file.inBuf.length) :
    let r := handOver cnt off readSize file
    r.data = (file.inBuf.take readSize).take (min readSize cnt) ∧ r.data.length = min readSize cnt ∧
      r.ret = (min readSize cnt : ℕ) ∧ r.off = off + (min readSize cnt : ℕ) ∧
      r.file.inBufLeftOver = readSize - cnt ∧ r.file.inBuf.length = file.inBuf.length ∧
      r.file.inBuf.take (readSize - cnt) = (file.inBuf.take readSize).drop cnt := by
  have hcnt : (if readSize ≤ cnt then readSize else cnt) = min readSize cnt := by
    split <;> omega
  have hleft : (if cnt < readSize then readSize - cnt else 0) = readSize - cnt := by
    split <;> omega
  simp only [handOver, hcnt, hleft]
  refine ⟨?_, ?_, trivial, trivial, trivial, shift_length _ _ _ _, shift_take hlen⟩
  · rw [List.take_take, Nat.min_eq_left (Nat.min_le_left _ _)]
  · rw [List.length_take]
    omega

end Shift

/-! ## One file in use -/

/-- A byte with the address it was fetched from. -/
structure Cell where
  addr : ℕ
  byte : UInt8
deriving DecidableEq, Repr

/-- A call on the file: `pos` is the position of a `pread` or `pwrite`, absent
for a call at `f_pos`. -/
inductive FileCall where
  | read (cnt : ℕ) (pos : Option ℤ)
  | write (bound : ℕ) (buf : List UInt8) (pos : Option ℤ)
  | llseek (offset : ℤ) (whence : Whence)

/-- A file that nobody else uses, and its board. -/
structure Session where
  board : Board
  file : File Cell
  fPos : ℤ
  /-- A record of the model: where the last `ddk_read` ended that fetched a
  packet or handed over parked bytes. -/
  park : ℤ
  /-- A record of the model: since the last packet was fetched, a `ddk_write` or a
  `ddk_llseek` has moved the position. -/
  stale : Bool

/-- `*off` as a call gets it. -/
def Session.off (s : Session) (pos : Option ℤ) : ℤ := pos.getD s.fPos

/-- `f_pos` after a call that has left `off` in `*off`. -/
def Session.moved (s : Session) (pos : Option ℤ) (off : ℤ) : ℤ :=
  if pos.isSome then s.fPos else off

variable (cfg : Config)

/-- One successful call, its messages answered under the given choices. -/
def Session.step (s : Session) : FileCall × List (Choice Cell) → Option Session
  | (.read cnt pos, cs) =>
      (exec (Board.serve Cell.mk) (ddkRead cfg s.file cnt (s.off pos)) s.board cs).bind fun x =>
        if 0 ≤ x.1.ret then
          some
            { board := x.2.1
              file := x.1.file
              fPos := s.moved pos x.1.off
              park := if s.file.inBufLeftOver ≠ 0 ∧ cnt = 0 then s.park else x.1.off
              -- a packet that has just been fetched is not stale
              stale := s.stale && decide (s.file.inBufLeftOver ≠ 0) }
        else none
  | (.write bound buf pos, cs) =>
      (exec (Board.serve Cell.mk) (ddkWrite cfg bound buf (s.off pos)) s.board cs).bind fun x =>
        if 0 ≤ x.1.ret then
          some
            { s with
              board := x.2.1
              fPos := s.moved pos x.1.off
              stale := s.stale || decide (x.1.off ≠ s.off pos) }
        else none
  | (.llseek offset whence, cs) =>
      (exec (Board.serve Cell.mk) (ddkLlseek offset whence) s.board cs).bind fun x =>
        if 0 ≤ x.1.1 then
          some
            { s with
              board := x.2.1
              fPos := x.1.2.getD s.fPos
              stale := s.stale || decide (x.1.2.getD s.fPos ≠ s.fPos) }
        else none

/-- The file as a successful `ddk_open` leaves it. -/
structure Opened (s : Session) : Prop where
  size : s.file.inBuf.length = cfg.inBufSize
  leftOver : s.file.inBufLeftOver = 0

/-- The bytes handed over are those of the addresses from `p` on. -/
def Coherent (p : ℤ) (r : ReadResult Cell) : Prop :=
  r.ret = r.data.length ∧ r.data.map Cell.addr = List.range' p.toNat r.data.length

/-- The bytes are those that the board has at their addresses. -/
def Current (b : Board) (cells : List Cell) : Prop := ∀ c ∈ cells, c.byte = b.mem c.addr

/-- What a `ddk_read` at `p` has to hand over: the bytes of the board from `p` on, and
parked ones only if no `ddk_write` and no `ddk_llseek` has moved the position since
they were fetched. -/
def GoodRead (s : Session) (p : ℤ) (r : ReadResult Cell) : Prop :=
  Coherent p r ∧ Current s.board r.data ∧
    (s.file.inBufLeftOver ≠ 0 → r.data ≠ [] → s.stale = false)

/-- What the step has to show: a `ddk_read` hands over what it should. -/
def ReadOk (s : Session) : FileCall × List (Choice Cell) → Prop
  | (.read cnt pos, cs) => ∀ x,
      exec (Board.serve Cell.mk) (ddkRead cfg s.file cnt (s.off pos)) s.board cs = some x →
      0 ≤ x.1.ret → GoodRead s (s.off pos) x.1
  | _ => True

/-- The condition on a step: a `ddk_read` that finds parked bytes and asks for some is
called at `park`, and no call has moved the position meanwhile. -/
def AtPark (s : Session) : FileCall × List (Choice Cell) → Prop
  | (.read cnt pos, _) =>
      s.file.inBufLeftOver ≠ 0 → cnt = 0 ∨ s.off pos = s.park ∧ s.stale = false
  | _ => True

/-- The positions that the firmware can be sent. -/
def InRange (s : Session) : FileCall × List (Choice Cell) → Prop
  | (.read _ pos, _) => 0 ≤ s.off pos ∧ s.off pos < 2 ^ 15
  | _ => True

/-- The invariant: the parked bytes are consecutive, from `park` on, and unless the
position has been moved they are what the board has there. -/
structure CoherenceInv (s : Session) : Prop where
  size : s.file.inBuf.length = cfg.inBufSize
  leftOver : s.file.inBufLeftOver ≤ cfg.inBufSize
  park : s.file.inBufLeftOver ≠ 0 → 0 ≤ s.park
  tags : (s.file.inBuf.take s.file.inBufLeftOver).map Cell.addr =
    List.range' s.park.toNat s.file.inBufLeftOver
  bytes : s.stale = false → Current s.board (s.file.inBuf.take s.file.inBufLeftOver)

variable {cfg}

/-! ## One read -/

/-- What a `ddk_read` makes of `readSize` bytes that lie at `q` and beyond. -/
theorem handOver_spec (cnt : ℕ) (off : ℤ) {readSize q : ℕ} {file : File Cell}
    (hlen : readSize ≤ file.inBuf.length)
    (htags : (file.inBuf.take readSize).map Cell.addr = List.range' q readSize) :
    let r := handOver cnt off readSize file
    r.ret = r.data.length ∧ r.data.length = min readSize cnt ∧
      r.data.map Cell.addr = List.range' q (min readSize cnt) ∧
      r.off = off + (min readSize cnt : ℕ) ∧ r.file.inBufLeftOver = readSize - cnt ∧
      r.file.inBuf.length = file.inBuf.length ∧
      (r.file.inBuf.take (readSize - cnt)).map Cell.addr =
        List.range' (q + cnt) (readSize - cnt) := by
  obtain ⟨hdata, hcount, hret, hoff, hleft, hsize, hrest⟩ := handOver_parts cnt off hlen
  refine ⟨?_, hcount, ?_, hoff, hleft, hsize, ?_⟩
  · rw [hret, hcount]
  · rw [hdata, List.map_take, htags, List.take_range'_of_length_ge (Nat.min_le_left _ _)]
  · rw [hrest, List.map_drop, htags, List.drop_range', Nat.mul_one]

/-- Bytes that lie at `q` and beyond are coherent at `p` if none is handed over,
or if `p` is `q`. -/
theorem coherent_handOver {cnt readSize q : ℕ} {off p : ℤ} {file : File Cell}
    (hlen : readSize ≤ file.inBuf.length)
    (htags : (file.inBuf.take readSize).map Cell.addr = List.range' q readSize) :
    Coherent p (handOver cnt off readSize file) ↔ min readSize cnt = 0 ∨ q = p.toNat := by
  rcases handOver_spec cnt off hlen htags with ⟨hret, hcount, hdata, -⟩
  rw [Coherent, hdata, hcount, List.range'_inj, hret, hcount]
  simp

/-- What a `ddk_read` hands over and what it parks lay in `in_buf`. -/
theorem current_handOver {cnt readSize : ℕ} {off : ℤ} {file : File Cell} {b : Board}
    (hlen : readSize ≤ file.inBuf.length) (h : Current b (file.inBuf.take readSize)) :
    Current b (handOver cnt off readSize file).data ∧
      Current b ((handOver cnt off readSize file).file.inBuf.take (readSize - cnt)) := by
  obtain ⟨hdata, -, -, -, -, -, hrest⟩ := handOver_parts cnt off hlen
  constructor
  · rw [hdata]
    exact fun c hc => h c (List.mem_of_mem_take hc)
  · rw [hrest]
    exact fun c hc => h c (List.mem_of_mem_drop hc)

theorem inv_handOver {cnt readSize q : ℕ} {off fPos park : ℤ} {file : File Cell} {board : Board}
    {stale : Bool} (hsize : file.inBuf.length = cfg.inBufSize) (hread : readSize ≤ cfg.inBufSize)
    (htags : (file.inBuf.take readSize).map Cell.addr = List.range' q readSize)
    (hpark : cnt < readSize → park = q + cnt)
    (hbytes : stale = false → Current board (file.inBuf.take readSize)) :
    CoherenceInv cfg ⟨board, (handOver cnt off readSize file).file, fPos, park, stale⟩ := by
  have hfits : readSize ≤ file.inBuf.length := by
    rw [hsize]
    exact hread
  obtain ⟨-, -, -, -, hleft, hlen, hrest⟩ := handOver_spec cnt off hfits htags
  refine ⟨hlen.trans hsize, ?_, ?_, ?_, ?_⟩
  · show (handOver cnt off readSize file).file.inBufLeftOver ≤ cfg.inBufSize
    omega
  · intro hne
    have hlt : cnt < readSize := by
      by_contra hge
      exact hne (by show (handOver cnt off readSize file).file.inBufLeftOver = 0; omega)
    show 0 ≤ park
    have := hpark hlt
    omega
  · show ((handOver cnt off readSize file).file.inBuf.take _).map Cell.addr = _
    rw [hleft, hrest]
    by_cases hlt : cnt < readSize
    · have hsame : park.toNat = q + cnt := by
        have := hpark hlt
        omega
      rw [hsame]
    · have hzero : readSize - cnt = 0 := by omega
      rw [hzero]
      rfl
  · intro hstale
    show Current board ((handOver cnt off readSize file).file.inBuf.take _)
    rw [hleft]
    exact (current_handOver hfits (hbytes hstale)).2

/-- The front of `in_buf` after a packet of `n` bytes. -/
theorem packet_take (b : Board) (n : ℕ) (rest : List Cell) :
    (b.packet Cell.mk n ++ rest).take n = b.packet Cell.mk n :=
  List.take_left' (Board.packet_length _ _ _)

/-- A packet fetched from address `a` on is tagged so. -/
theorem packet_tags (b : Board) (a n : ℕ) (rest : List Cell) :
    ((((b.setOff .eRead a).packet Cell.mk n) ++ rest).take n).map Cell.addr =
      List.range' a n := by
  rw [packet_take, List.range'_eq_map_range, Board.packet, List.map_map]
  rfl

theorem packet_current (b : Board) (a n : ℕ) (rest : List Cell) :
    Current b ((((b.setOff .eRead a).packet Cell.mk n) ++ rest).take n) := by
  rw [packet_take]
  intro c hc
  rcases List.mem_map.mp hc with ⟨i, -, rfl⟩
  rfl

theorem toU16_of_range {off : ℤ} (h : 0 ≤ off ∧ off < 2 ^ 15) : toU16 off = off.toNat := by
  unfold toU16
  omega

/-- A successful `ddk_read` under the invariant, with where its bytes lie. -/
theorem read_bytes {s : Session} {cnt : ℕ} {off : ℤ} {cs : List (Choice Cell)}
    {r : ReadResult Cell} {b' : Board} {l : List (BoardEntry Cell)} (hi : CoherenceInv cfg s)
    (hrange : 0 ≤ off ∧ off < 2 ^ 15)
    (h : exec (Board.serve Cell.mk) (ddkRead cfg s.file cnt off) s.board cs = some (r, b', l))
    (hret : 0 ≤ r.ret) :
    ∃ readSize q file, r = handOver cnt off readSize file ∧
      file.inBuf.length = cfg.inBufSize ∧ readSize ≤ cfg.inBufSize ∧
      (file.inBuf.take readSize).map Cell.addr = List.range' q readSize ∧
      ((s.file.inBufLeftOver ≠ 0 ∧ readSize = s.file.inBufLeftOver ∧ q = s.park.toNat ∧
          (s.stale = false → Current s.board (file.inBuf.take readSize))) ∨
        (s.file.inBufLeftOver = 0 ∧ q = off.toNat ∧
          Current s.board (file.inBuf.take readSize))) := by
  cases read_cases h with
  | failed hneg hl => omega
  | parked hleft hr hl hp =>
      exact ⟨_, _, _, hr, hi.size, hi.leftOver, hi.tags, Or.inl ⟨hleft, rfl, rfl, hi.bytes⟩⟩
  | fetched n hn hleft hr hl hp =>
      have hsize := hi.size
      refine ⟨_, _, _, hr, ?_, hn, packet_tags _ _ _ _,
        Or.inr ⟨hleft, toU16_of_range hrange, packet_current _ _ _ _⟩⟩
      rw [List.length_append, Board.packet_length, List.length_drop]
      omega

/-! ## One write -/

/-- The loop ends behind the last byte. -/
theorem writeLoop_ends (buf : List UInt8) (bound wroteCnt : ℕ) :
    (writeLoop cfg buf bound wroteCnt : Driver Cell _).Returns fun r =>
      ∀ n, r = .ok n → buf.length ≤ n := by
  induction bound generalizing wroteCnt with
  | zero =>
      unfold writeLoop
      split
      · exact fun r => r.elim
      · rename_i hdone
        intro n hn
        cases hn
        omega
  | succ bound ih =>
      unfold writeLoop
      split
      · intro faults
        cases faults with
        | true =>
            intro n hn
            cases hn
        | false =>
            intro r
            cases r with
            | error e =>
                -- `ddk_ext_on_write_fail` is called first
                intro _ n hn
                cases hn
            | ok wrote => exact ih _
      · rename_i hdone
        intro n hn
        cases hn
        omega

/-- A `ddk_write` that succeeds moves `*off` past its bytes. -/
theorem ddkWrite_ends (bound : ℕ) (buf : List UInt8) (off : ℤ) :
    (ddkWrite cfg bound buf off : Driver Cell _).Returns fun r =>
      0 ≤ r.ret → off + buf.length ≤ r.off := by
  have hfailed (e : Errno) (p : ℤ) : 0 ≤ (Transfer.mk e.val p).ret → off + buf.length ≤ p := by
    intro hret
    have hneg := e.neg
    have hret' : 0 ≤ e.val := hret
    omega
  intro r
  cases r with
  | error e => exact hfailed e off
  | ok _ =>
      show Prog.Returns _ (Prog.bind (writeLoop cfg buf bound 0) _)
      refine Prog.returns_bind (writeLoop_ends buf bound 0) ?_
      intro r hr
      cases r with
      | error e => exact hfailed e off
      | ok n =>
          intro _ r
          cases r with
          | error e => exact hfailed e (off + n)
          | ok _ =>
              intro _
              have hlen := hr n rfl
              show off + buf.length ≤ off + n
              omega

/-- A `ddk_write` of nothing stores nothing. -/
theorem write_nil {bound : ℕ} {off : ℤ} {b b' : Board} {cs : List (Choice Cell)} {r : Transfer}
    {l : List (BoardEntry Cell)}
    (h : exec (Board.serve Cell.mk) (ddkWrite cfg bound [] off) b cs = some (r, b', l)) :
    b'.mem = b.mem := by
  have hloop : (writeLoop cfg [] bound 0 : Driver Cell _) = .ret (.ok 0) := by
    cases bound <;> rfl
  unfold ddkWrite at h
  rcases exec_setOff h with ⟨cs₁, l₁, e₁, -, -, ⟨err, -, h⟩ | ⟨-, h⟩⟩
  · rcases exec_done h with ⟨-, rfl, -⟩
    rfl
  · simp only [hloop] at h
    rcases exec_hook h trivial with ⟨cs₂, l₂, e₂, r₂, -, -, -, h⟩
    rcases exec_setOff h with ⟨cs₃, l₃, e₃, -, -, ⟨err, -, h⟩ | ⟨-, h⟩⟩
    · rcases exec_done h with ⟨-, rfl, -⟩
      exact Board.setOff_mem _ _ _
    · rcases exec_done h with ⟨-, rfl, -⟩
      rw [Board.setOff_mem, Board.setOff_mem]

/-! ## One step -/

theorem step_read {s s' : Session} {cnt : ℕ} {pos : Option ℤ} {cs : List (Choice Cell)}
    (h : Session.step cfg s (.read cnt pos, cs) = some s') :
    ∃ r b' l, exec (Board.serve Cell.mk) (ddkRead cfg s.file cnt (s.off pos)) s.board cs =
        some (r, b', l) ∧ 0 ≤ r.ret ∧
      s' = ⟨b', r.file, s.moved pos r.off,
        if s.file.inBufLeftOver ≠ 0 ∧ cnt = 0 then s.park else r.off,
        s.stale && decide (s.file.inBufLeftOver ≠ 0)⟩ := by
  simp only [Session.step] at h
  rcases Option.bind_eq_some_iff.mp h with ⟨⟨r, b', l⟩, he, h⟩
  by_cases hret : 0 ≤ r.ret
  · rw [if_pos hret] at h
    exact ⟨r, b', l, he, hret, (Option.some.inj h).symm⟩
  · rw [if_neg hret] at h
    cases h

/-- A `ddk_write` or a `ddk_llseek` leaves the file alone, and the memory of the board
unless it moves the position. -/
theorem step_frame {s s' : Session} {a : FileCall × List (Choice Cell)}
    (h : Session.step cfg s a = some s') (ha : ∀ cnt pos cs, a ≠ (.read cnt pos, cs)) :
    s'.file = s.file ∧ s'.park = s.park ∧
      (s'.stale = false → s.stale = false ∧ s'.board.mem = s.board.mem) := by
  rcases a with ⟨call, cs⟩
  cases call with
  | read cnt pos => exact absurd rfl (ha cnt pos cs)
  | write bound buf pos =>
      simp only [Session.step] at h
      rcases Option.bind_eq_some_iff.mp h with ⟨⟨r, b', l⟩, he, h⟩
      split at h
      · rename_i hret
        cases h
        refine ⟨rfl, rfl, ?_⟩
        intro hstale
        simp only [Bool.or_eq_false_iff, decide_eq_false_iff_not, not_not] at hstale
        refine ⟨hstale.1, ?_⟩
        -- bytes that are stored move the position
        have hends := (ddkWrite_ends bound buf (s.off pos)).exec he hret
        rw [hstale.2] at hends
        cases buf with
        | nil => exact write_nil he
        | cons x buf =>
            rw [List.length_cons] at hends
            omega
      · cases h
  | llseek offset whence =>
      simp only [Session.step] at h
      rcases Option.bind_eq_some_iff.mp h with ⟨⟨r, b', l⟩, he, h⟩
      split at h
      · cases h
        refine ⟨rfl, rfl, ?_⟩
        intro hstale
        exact ⟨(Bool.or_eq_false_iff.mp hstale).1, exec_query (only_ddkLlseek offset whence) he⟩
      · cases h

/-- A `ddk_read` that succeeds hands over what it should exactly when it is called at
`park` before the position has been moved, finds nothing parked or asks for nothing. -/
theorem readOk_iff {s : Session} {a : FileCall × List (Choice Cell)} (hi : CoherenceInv cfg s)
    (ha : InRange s a ∧ (Session.step cfg s a).isSome = true) :
    ReadOk cfg s a ↔ AtPark s a := by
  rcases ha with ⟨hrange, hsome⟩
  rcases Option.isSome_iff_exists.mp hsome with ⟨s', hs⟩
  rcases a with ⟨call, cs⟩
  cases call with
  | write bound buf pos => exact Iff.rfl
  | llseek offset whence => exact Iff.rfl
  | read cnt pos =>
      rcases step_read hs with ⟨r, b', l, he, hret, -⟩
      have hone : ReadOk cfg s (.read cnt pos, cs) ↔ GoodRead s (s.off pos) r := by
        constructor
        · intro hok
          exact hok _ he hret
        · intro hc x hx _
          cases he.symm.trans hx
          exact hc
      obtain ⟨readSize, q, file, rfl, hsize, hread, htags, hwhere⟩ :=
        read_bytes hi hrange he hret
      have hfits : readSize ≤ file.inBuf.length := by omega
      obtain ⟨-, hcount, -⟩ := handOver_spec cnt (s.off pos) hfits htags
      rw [hone, GoodRead, coherent_handOver hfits htags]
      have hoff : 0 ≤ s.off pos := hrange.1
      rcases hwhere with ⟨hleft, rfl, rfl, hbytes⟩ | ⟨hleft, rfl, hbytes⟩
      · have hpark := hi.park hleft
        by_cases hcnt : cnt = 0
        · -- nothing is handed over
          have hnone : (handOver cnt (s.off pos) s.file.inBufLeftOver file).data = [] :=
            List.eq_nil_of_length_eq_zero (by omega)
          rw [hnone]
          simp [AtPark, Current, hcnt]
        · have hsome : (handOver cnt (s.off pos) s.file.inBufLeftOver file).data ≠ [] := by
            intro hnone
            rw [hnone, List.length_nil] at hcount
            omega
          simp only [AtPark]
          constructor
          · rintro ⟨hat, -, hstale⟩ -
            exact .inr ⟨by omega, hstale hleft hsome⟩
          · intro h
            obtain ⟨hat, hstale⟩ := (h hleft).resolve_left hcnt
            exact ⟨.inr (by omega), (current_handOver hfits (hbytes hstale)).1, fun _ _ => hstale⟩
      · simp [AtPark, hleft, (current_handOver hfits hbytes).1]

/-- A step that meets the condition keeps the invariant. -/
theorem coherenceInv_step {s s' : Session} {a : FileCall × List (Choice Cell)}
    (hi : CoherenceInv cfg s) (hrange : InRange s a) (hpark : AtPark s a)
    (h : Session.step cfg s a = some s') : CoherenceInv cfg s' := by
  by_cases hread : ∃ cnt pos cs, a = (.read cnt pos, cs)
  · rcases hread with ⟨cnt, pos, cs, rfl⟩
    rcases step_read h with ⟨r, b', l, he, hret, rfl⟩
    have hmem : b'.mem = s.board.mem := exec_query (only_ddkRead cfg s.file cnt (s.off pos)) he
    have hkept {cells : List Cell} (hcells : Current s.board cells) : Current b' cells := by
      intro c hc
      rw [hmem]
      exact hcells c hc
    rcases read_bytes hi hrange he hret with ⟨readSize, q, file, rfl, hsize, hle, htags, hwhere⟩
    -- the call moves its position by what it has handed over
    obtain ⟨-, -, -, hoff, -⟩ :=
      handOver_spec cnt (s.off pos) (by omega) htags
    have hnonneg : 0 ≤ s.off pos := hrange.1
    rcases hwhere with ⟨hleft, rfl, rfl, hbytes⟩ | ⟨hleft, rfl, hbytes⟩
    · -- parked bytes: the read asks for none, or is at `park`
      refine inv_handOver hsize hle htags ?_ ?_
      · intro hlt
        rw [hoff]
        have hp := hi.park hleft
        by_cases hcnt : cnt = 0
        · rw [if_pos ⟨hleft, hcnt⟩]
          omega
        · rw [if_neg fun hand => hcnt hand.2]
          have hat : s.off pos = s.park := ((hpark hleft).resolve_left hcnt).1
          omega
      · intro hstale
        rw [decide_eq_true hleft, Bool.and_true] at hstale
        exact hkept (hbytes hstale)
    · -- a packet from the position of the call on
      refine inv_handOver hsize hle htags ?_ fun _ => hkept hbytes
      intro hlt
      rw [hoff, if_neg fun hand => hand.1 hleft]
      omega
  · obtain ⟨hfile, hpark', hmoved⟩ :=
      step_frame h fun cnt pos cs heq => hread ⟨cnt, pos, cs, heq⟩
    refine ⟨by rw [hfile]; exact hi.size, by rw [hfile]; exact hi.leftOver,
      by rw [hfile, hpark']; exact hi.park, by rw [hfile, hpark']; exact hi.tags, ?_⟩
    -- a call that has moved nothing has stored nothing either
    intro hstale
    obtain ⟨hfresh, hmem⟩ := hmoved hstale
    rw [hfile]
    intro c hc
    rw [hmem]
    exact hi.bytes hfresh c hc

theorem Opened.inv {s : Session} (h : Opened cfg s) : CoherenceInv cfg s := by
  refine ⟨h.size, ?_, ?_, ?_, ?_⟩
  · rw [h.leftOver]
    exact Nat.zero_le _
  · intro hne
    exact absurd h.leftOver hne
  · rw [h.leftOver]
    rfl
  · rw [h.leftOver]
    intro _ c hc
    cases hc

/-- Whatever the environment does, the file of a successful `ddk_open` has the
size asked for and nothing parked. -/
theorem returns_ddkOpen : (ddkOpen cfg : Driver Cell _).Returns fun r =>
    ∀ file, r = .ok file → file.inBuf.length = cfg.inBufSize ∧ file.inBufLeftOver = 0 := by
  have herror (e : Errno) (file : File Cell) : (.error e : Except Errno (File Cell)) = .ok file →
      file.inBuf.length = cfg.inBufSize ∧ file.inBufLeftOver = 0 := nofun
  intro found
  cases found with
  | false => exact herror _
  | true =>
      intro present
      cases present with
      | false => exact herror _
      | true =>
          intro _
          by_cases hzero : cfg.inBufSize = 0
          · simp only [hzero]
            exact fun _ => nofun
          · simp only [if_neg hzero]
            intro block
            cases block with
            | none => exact herror _
            | some inBuf =>
                intro _ rd
                cases rd with
                | error e => exact herror _
                | ok _ =>
                    intro wr
                    cases wr with
                    | error e => exact herror _
                    | ok _ =>
                        intro _ file hfile
                        cases hfile
                        exact ⟨inBuf.2, rfl⟩

theorem opened_of_ddkOpen {W C : Type} {h : Handler (Ans Cell) W C} {w w' : W} {cs : List C}
    {l : List (Entry (Op Cell) W C)} {s : Session}
    (he : exec h (ddkOpen cfg) w cs = some (.ok s.file, w', l)) : Opened cfg s := by
  rcases returns_ddkOpen.exec he s.file rfl with ⟨hsize, hleft⟩
  exact ⟨hsize, hleft⟩

/-! ## The exact condition -/

/-- In a run of successful calls after a `ddk_open` every `ddk_read` hands over
the bytes that the board has from its own position on, and none that were parked
before a `ddk_write` or a `ddk_llseek` moved the position, if and only if every
`ddk_read` that finds parked bytes and asks for some is called where the last one
ended, with no such call since the packet was fetched. -/
theorem coherence_iff {s s' : Session} {as : List (FileCall × List (Choice Cell))}
    (hopen : Opened cfg s) (hrun : Lts.run (Session.step cfg) s as = some s')
    (hrange : Lts.Along (Session.step cfg) InRange s as) :
    Lts.Along (Session.step cfg) (ReadOk cfg) s as ↔ Lts.Along (Session.step cfg) AtPark s as := by
  have hmeets := Lts.along_and hrange (Lts.along_enabled hrun)
  refine Lts.along_iff ?_ ?_ hopen.inv hmeets
  · intro s a hi ha
    exact readOk_iff hi ha
  · intro s a s' hi ha hpark hs
    exact coherenceInv_step hi ha.1 hpark hs

instance (p : ℤ) (r : ReadResult Cell) : Decidable (Coherent p r) :=
  inferInstanceAs (Decidable (_ ∧ _))

instance (b : Board) (cells : List Cell) : Decidable (Current b cells) :=
  inferInstanceAs (Decidable (∀ c ∈ cells, _))

instance (s : Session) (p : ℤ) (r : ReadResult Cell) : Decidable (GoodRead s p r) :=
  inferInstanceAs (Decidable (_ ∧ _ ∧ _))

instance (s : Session) : (a : FileCall × List (Choice Cell)) → Decidable (ReadOk cfg s a)
  | (.read cnt pos, cs) =>
      inferInstanceAs (Decidable
        (∀ x ∈ exec (Board.serve Cell.mk) (ddkRead cfg s.file cnt (s.off pos)) s.board cs,
          0 ≤ x.1.ret → GoodRead s (s.off pos) x.1))
  | (.write _ _ _, _) | (.llseek _ _, _) => inferInstanceAs (Decidable True)

instance (s : Session) : (a : FileCall × List (Choice Cell)) → Decidable (AtPark s a)
  | (.read cnt pos, _) =>
      inferInstanceAs (Decidable
        (s.file.inBufLeftOver ≠ 0 → cnt = 0 ∨ s.off pos = s.park ∧ s.stale = false))
  | (.write _ _ _, _) | (.llseek _ _, _) => inferInstanceAs (Decidable True)

instance (s : Session) : (a : FileCall × List (Choice Cell)) → Decidable (InRange s a)
  | (.read _ pos, _) => inferInstanceAs (Decidable (0 ≤ s.off pos ∧ s.off pos < 2 ^ 15))
  | (.write _ _ _, _) | (.llseek _ _, _) => inferInstanceAs (Decidable True)

/-! ## Both sides on small runs -/

/-- A file just opened on a board whose byte at `a` is `a`. -/
def fresh : Session :=
  ⟨⟨0, 0, 2048, fun a => UInt8.ofNat a⟩, ⟨List.replicate 4 ⟨0, 0⟩, 0⟩, 0, 0, false⟩

/-- One byte of a packet of four. -/
def readOne : FileCall × List (Choice Cell) := (.read 1 none, [.ok 0, .ok 4, .ok 0, .ok 0])

/-- The next `cnt` parked bytes. -/
def readOn (cnt : ℕ) : FileCall × List (Choice Cell) := (.read cnt none, [.ok 0])

def seekTen : FileCall × List (Choice Cell) :=
  (.llseek 10 .seekSet, [.ok 0, .ok 2, .ok 0, .ok 0])

def readThenSeek : List (FileCall × List (Choice Cell)) := [readOne, readOn 3, seekTen, readOne]

theorem coherence_iff_readThenSeek :
    Lts.Along (Session.step ⟨4, 4⟩) (ReadOk ⟨4, 4⟩) fresh readThenSeek := by
  obtain ⟨s', hs⟩ := Option.isSome_iff_exists.mp
    (show (Lts.run (Session.step ⟨4, 4⟩) fresh readThenSeek).isSome = true by decide)
  exact (coherence_iff ⟨by decide, by decide⟩ hs (by decide)).mpr (by decide)

/-- Four bytes, written as one packet. -/
def writeFour : FileCall × List (Choice Cell) :=
  (.write 1 [9, 9, 9, 9] none, [.ok 0, .ok 0, .ok 4, .ok 0, .ok 0])

def seekOne : FileCall × List (Choice Cell) := (.llseek 1 .seekSet, [.ok 0, .ok 2, .ok 0, .ok 0])

def seekThenRead : List (FileCall × List (Choice Cell)) := [readOne, seekTen, readOn 1]

/-- After one byte of a packet and a seek to 10, the next byte read is that of
address 1. After a write there and a seek back, it is the byte that was there before. -/
theorem coherence_stale :
    Opened ⟨4, 4⟩ fresh ∧ (Lts.run (Session.step ⟨4, 4⟩) fresh seekThenRead).isSome = true ∧
      Lts.Along (Session.step ⟨4, 4⟩) InRange fresh seekThenRead ∧
      ((Lts.run (Session.step ⟨4, 4⟩) fresh [readOne, seekTen]).bind fun s =>
        (exec (Board.serve Cell.mk) (ddkRead ⟨4, 4⟩ s.file 1 s.fPos) s.board [.ok 0]).map
          fun x => (s.fPos, x.1.ret, x.1.data)) = some (10, 1, [⟨1, 1⟩]) ∧
      ¬ Lts.Along (Session.step ⟨4, 4⟩) (ReadOk ⟨4, 4⟩) fresh seekThenRead ∧
      ((Lts.run (Session.step ⟨4, 4⟩) fresh [readOne, writeFour, seekOne]).bind fun s =>
        (exec (Board.serve Cell.mk) (ddkRead ⟨4, 4⟩ s.file 1 s.fPos) s.board [.ok 0]).map
          fun x => (s.fPos, x.1.data, s.board.mem 1)) = some (1, [⟨1, 1⟩], 9) :=
  ⟨⟨by decide, by decide⟩, by decide, by decide, by decide, by decide, by decide⟩

end DdkMem
