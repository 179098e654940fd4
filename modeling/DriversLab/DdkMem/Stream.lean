import DriversLab.DdkMem.Coherence

/-!
# DdkMem.Stream — a run of `ddk_read` calls

Reads on one file and nothing in between, with packets of any length and with any
pattern of failures. The bytes parked in `in_buf` are always the next ones of the
board, and the calls that succeed hand over the bytes of the board from the first
position on, one after the other.
-/

namespace DdkMem

open CInt Interact

variable {β : Type} {view : ℕ → UInt8 → β} {cfg : Config} {b b' : Board} {cs : List (Choice β)}
  {l : List (BoardEntry β)} {mem : ℕ → UInt8}

/-! ## Segments of the memory -/

/-- The `n` bytes of the memory from address `a` on. -/
def segment (view : ℕ → UInt8 → β) (mem : ℕ → UInt8) (a n : ℕ) : List β :=
  (List.range' a n).map fun x => view x (mem x)

@[simp] theorem segment_length (a n : ℕ) : (segment view mem a n).length = n := by
  rw [segment, List.length_map, List.length_range']

@[simp] theorem segment_zero (a : ℕ) : segment view mem a 0 = [] := rfl

theorem segment_append (a m n : ℕ) :
    segment view mem a m ++ segment view mem (a + m) n = segment view mem a (m + n) := by
  rw [segment, segment, segment, ← List.map_append, List.range'_append_1]

theorem segment_take {a n k : ℕ} (h : k ≤ n) :
    (segment view mem a n).take k = segment view mem a k := by
  rw [segment, segment, ← List.map_take, List.take_range'_of_length_ge h]

theorem segment_drop (a n k : ℕ) :
    (segment view mem a n).drop k = segment view mem (a + k) (n - k) := by
  rw [segment, segment, ← List.map_drop, List.drop_range', Nat.mul_one]

/-- An IN packet is a segment, from the read offset on. -/
theorem packet_eq_segment (b : Board) (n : ℕ) : b.packet view n = segment view b.mem b.rd n := by
  rw [segment, List.range'_eq_map_range, List.map_map]
  rfl

/-! ## One read -/

/-- The next `n` bytes of the stream, of which `p` is the position, are at the front of
`in_buf`. -/
structure Holds (view : ℕ → UInt8 → β) (cfg : Config) (mem : ℕ → UInt8) (p : ℤ) (n : ℕ)
    (file : File β) : Prop where
  size : file.inBuf.length = cfg.inBufSize
  bound : n ≤ cfg.inBufSize
  bytes : file.inBuf.take n = segment view mem p.toNat n

/-- Nothing is at the front of any `in_buf`. -/
theorem holds_zero {p : ℤ} {file : File β} (h : file.inBuf.length = cfg.inBufSize) :
    Holds view cfg mem p 0 file :=
  ⟨h, Nat.zero_le _, rfl⟩

/-- What a call does to the stream: it hands over the next bytes and moves the position
past them, or neither, and parks only the bytes that come next. -/
structure Streams (view : ℕ → UInt8 → β) (cfg : Config) (mem : ℕ → UInt8) (p : ℤ)
    (r : ReadResult β) : Prop where
  failed : r.ret < 0 → r.off = p
  count : 0 ≤ r.ret → r.ret = r.data.length ∧ r.off = p + r.data.length ∧
    r.data = segment view mem p.toNat r.data.length
  parked : Holds view cfg mem r.off r.file.inBufLeftOver r.file

theorem streams_failed {p : ℤ} {e : Errno} {n : ℕ} {file : File β}
    (h : Holds view cfg mem p n file) (hn : file.inBufLeftOver = n) :
    Streams view cfg mem p ⟨e.val, p, file, []⟩ := by
  have hneg := e.neg
  refine ⟨fun _ => rfl, ?_, ?_⟩
  · intro hret
    have hret' : 0 ≤ e.val := hret
    omega
  · rw [hn]
    exact h

theorem streams_handOver {p : ℤ} {n : ℕ} {file : File β} (cnt : ℕ) (hp : 0 ≤ p)
    (h : Holds view cfg mem p n file) : Streams view cfg mem p (handOver cnt p n file) := by
  obtain ⟨hdata, hcount, hret, hoff, hleft, hsize, hrest⟩ :=
    handOver_parts cnt p (show n ≤ file.inBuf.length by rw [h.size]; exact h.bound)
  have hbytes : (handOver cnt p n file).data = segment view mem p.toNat (min n cnt) := by
    rw [hdata, h.bytes, segment_take (Nat.min_le_left _ _)]
  refine ⟨?_, ?_, ?_⟩
  · intro hneg
    rw [hret] at hneg
    omega
  · intro _
    rw [hret, hoff, hcount]
    exact ⟨rfl, rfl, hbytes⟩
  · rw [hleft]
    have hbound := h.bound
    refine ⟨hsize.trans h.size, by omega, ?_⟩
    rw [hrest, h.bytes, segment_drop, hoff]
    by_cases hcnt : cnt ≤ n
    · congr 1
      omega
    · -- everything has been handed over
      rw [show n - cnt = 0 by omega]
      rfl

theorem deliver_streams {p : ℤ} {n cnt : ℕ} {file : File β} {r : ReadResult β} (hp : 0 ≤ p)
    (hf : Holds view cfg mem p n file)
    (h : exec (Board.serve view) (deliver cnt p n file) b cs = some (r, b', l)) :
    Streams view cfg mem p r ∧ b' = b := by
  rcases exec_copyToUser h with ⟨cs', l', e, rfl, hop, h⟩
  cases hfail : Fails e with
  | true =>
      rw [hfail] at h
      rcases exec_done h with ⟨rfl, rfl, rfl⟩
      -- the bytes stay in in_buf, all parked again
      exact ⟨streams_failed (e := EFAULT) (n := n) ⟨hf.size, hf.bound, hf.bytes⟩ rfl, rfl⟩
  | false =>
      rw [hfail] at h
      rcases exec_done h with ⟨rfl, rfl, rfl⟩
      exact ⟨streams_handOver cnt hp hf, rfl⟩

theorem read_streams {p : ℤ} {cnt : ℕ} {file : File β} {r : ReadResult β}
    (hrange : 0 ≤ p ∧ p < 2 ^ 15) (hf : Holds view cfg b.mem p file.inBufLeftOver file)
    (h : exec (Board.serve view) (ddkRead cfg file cnt p) b cs = some (r, b', l)) :
    Streams view cfg b.mem p r ∧ b'.mem = b.mem := by
  unfold ddkRead fetch at h
  by_cases hleft : file.inBufLeftOver ≠ 0
  · rw [if_pos hleft] at h
    rcases deliver_streams hrange.1 ⟨hf.size, hf.bound, hf.bytes⟩ h with ⟨hr, rfl⟩
    exact ⟨hr, rfl⟩
  · rw [if_neg hleft] at h
    have hzero : file.inBufLeftOver = 0 := by simpa using hleft
    simp only [Prog.bind_eq, Prog.bind_assoc] at h
    rcases exec_setOff h with ⟨cs₁, l₁, e₁, rfl, hop₁, ⟨err, hf₁, h⟩ | ⟨hf₁, h⟩⟩
    · rcases exec_done h with ⟨rfl, rfl, rfl⟩
      exact ⟨streams_failed hf rfl, rfl⟩
    · rcases exec_interruptIn h with ⟨cs₂, l₂, e₂, rfl, hop₂, hb₂, ⟨err, hf₂, h⟩ | ⟨hf₂, n, hn, h⟩⟩
      · rcases exec_done h with ⟨rfl, rfl, rfl⟩
        exact ⟨streams_failed hf rfl, rfl⟩
      · have hn' : n ≤ cfg.inBufSize := by simpa using hn
        have hnew (packet : List β) (hp : packet = segment view b.mem p.toNat n) (left : ℕ) :
            Holds view cfg b.mem p packet.length
              ⟨packet ++ file.inBuf.drop packet.length, left⟩ := by
          subst hp
          have hsize := hf.size
          refine ⟨?_, by rw [segment_length]; exact hn', ?_⟩
          · simp only [List.length_append, segment_length, List.length_drop]
            omega
          · rw [List.take_left, segment_length]
        have hpacket :
            (b.setOff .eRead (toU16 p)).packet view n = segment view b.mem p.toNat n := by
          rw [packet_eq_segment, ← toU16_of_range hrange]
          rfl
        rcases exec_setOff h with ⟨cs₃, l₃, e₃, rfl, hop₃, ⟨err, hf₃, h⟩ | ⟨hf₃, h⟩⟩
        · rcases exec_done h with ⟨rfl, rfl, rfl⟩
          -- the packet is lost, the next call fetches it again
          exact ⟨streams_failed (holds_zero (hnew _ hpacket _).size) hzero, rfl⟩
        · rcases deliver_streams hrange.1 (hnew _ hpacket _) h with ⟨hr, rfl⟩
          exact ⟨hr, rfl⟩

/-! ## A run of reads -/

/-- A file that is only read, its board, and the bytes handed over so far. -/
structure Reader (β : Type) where
  board : Board
  file : File β
  off : ℤ
  handed : List β

/-- The bytes of a call that returns a count. -/
def ReadResult.given (r : ReadResult β) : List β := if 0 ≤ r.ret then r.data else []

/-- One `ddk_read` of `cnt` bytes, whatever it returns. -/
def Reader.step (view : ℕ → UInt8 → β) (cfg : Config) (s : Reader β) :
    ℕ × List (Choice β) → Option (Reader β)
  | (cnt, cs) => (exec (Board.serve view) (ddkRead cfg s.file cnt s.off) s.board cs).map fun x =>
      { board := x.2.1, file := x.1.file, off := x.1.off, handed := s.handed ++ x.1.given }

/-- What holds of a stream that started at `start`: the bytes handed over are those of
the memory from there on, the position is behind them, and the parked bytes are the
next ones. -/
structure StreamInv (view : ℕ → UInt8 → β) (cfg : Config) (mem : ℕ → UInt8) (start : ℤ)
    (s : Reader β) : Prop where
  memory : s.board.mem = mem
  off : s.off = start + s.handed.length
  handed : s.handed = segment view mem start.toNat s.handed.length
  parked : Holds view cfg mem s.off s.file.inBufLeftOver s.file

/-- The positions that the firmware can be sent. -/
def Reader.InRange (s : Reader β) (_ : ℕ × List (Choice β)) : Prop := s.off < 2 ^ 15

instance (s : Reader β) (a : ℕ × List (Choice β)) : Decidable (s.InRange a) :=
  inferInstanceAs (Decidable (s.off < 2 ^ 15))

theorem Streams.given {p : ℤ} {r : ReadResult β} (h : Streams view cfg mem p r) :
    r.off = p + r.given.length ∧ r.given = segment view mem p.toNat r.given.length := by
  by_cases hret : 0 ≤ r.ret
  · rw [ReadResult.given, if_pos hret]
    exact (h.count hret).2
  · rw [ReadResult.given, if_neg hret]
    refine ⟨?_, rfl⟩
    rw [h.failed (by omega), List.length_nil, Int.natCast_zero, Int.add_zero]

theorem streamInv_step {start : ℤ} {s s' : Reader β} {a : ℕ × List (Choice β)} (hstart : 0 ≤ start)
    (hi : StreamInv view cfg mem start s) (hrange : s.InRange a)
    (h : s.step view cfg a = some s') : StreamInv view cfg mem start s' := by
  rcases a with ⟨cnt, cs⟩
  rcases Option.map_eq_some_iff.mp h with ⟨⟨r, b', l⟩, he, rfl⟩
  have hoff := hi.off
  have hmem := hi.memory
  subst hmem
  rcases read_streams ⟨by omega, hrange⟩ hi.parked he with ⟨hr, hmem'⟩
  rcases hr.given with ⟨hmoved, hbytes⟩
  refine ⟨hmem', ?_, ?_, hr.parked⟩
  · show r.off = start + (s.handed ++ r.given).length
    rw [hmoved, hoff, List.length_append]
    omega
  · show s.handed ++ r.given = segment view s.board.mem start.toNat (s.handed ++ r.given).length
    have hnext : s.off.toNat = start.toNat + s.handed.length := by omega
    rw [List.length_append, ← segment_append, ← hnext, ← hi.handed, ← hbytes]

/-- The read stream law. Start with nothing parked and nothing handed over, and perform
any `ddk_read` calls with any packets and failures at positions below 2^15: what the
calls have handed over are the bytes of the board from the first position on, the
position is behind them, and the parked bytes, at most a packet of them, come next. -/
theorem stream_law {s s' : Reader β} {as : List (ℕ × List (Choice β))}
    (hsize : s.file.inBuf.length = cfg.inBufSize) (hleft : s.file.inBufLeftOver = 0)
    (hhanded : s.handed = []) (hoff : 0 ≤ s.off)
    (hrange : Lts.Along (Reader.step view cfg) Reader.InRange s as)
    (hrun : Lts.run (Reader.step view cfg) s as = some s') :
    StreamInv view cfg s.board.mem s.off s' := by
  have hinit : StreamInv view cfg s.board.mem s.off s := by
    refine ⟨rfl, ?_, ?_, ?_⟩
    · rw [hhanded, List.length_nil, Int.natCast_zero, Int.add_zero]
    · rw [hhanded]
      rfl
    · rw [hleft]
      exact holds_zero hsize
  refine Lts.run_invariant_along ?_ hinit hrange hrun
  intro t a t' hi hr hs
  exact streamInv_step hoff hi hr hs

/-! ## A run with a fault -/

/-- One byte of a packet of four, a fault, the three parked bytes, and a packet that is
lost because the message for the write offset fails. -/
def faultyReads : List (ℕ × List (Choice Cell)) :=
  [(1, [.ok 0, .ok 4, .ok 0, .ok 0]), (2, [{ (Choice.ok 0 : Choice Cell) with fault := true }]),
    (5, [.ok 0]), (5, [.ok 0, .ok 2, .err EPROTO])]

/-- A file at position 3 of a board whose byte at `a` is `a`. -/
def readerAtThree : Reader Cell :=
  ⟨⟨0, 0, 2048, fun a => UInt8.ofNat a⟩, ⟨List.replicate 4 ⟨0, 0⟩, 0⟩, 3, []⟩

theorem stream_law_faulty :
    ∃ s', Lts.run (Reader.step Cell.mk ⟨4, 4⟩) readerAtThree faultyReads = some s' ∧
      s'.handed = [⟨3, 3⟩, ⟨4, 4⟩, ⟨5, 5⟩, ⟨6, 6⟩] ∧
      StreamInv Cell.mk ⟨4, 4⟩ readerAtThree.board.mem 3 s' := by
  obtain ⟨s', hs⟩ := Option.isSome_iff_exists.mp (show (Lts.run (Reader.step Cell.mk ⟨4, 4⟩)
    readerAtThree faultyReads).isSome = true by decide)
  have hhanded : (Lts.run (Reader.step Cell.mk ⟨4, 4⟩) readerAtThree faultyReads).map
      Reader.handed = some [⟨3, 3⟩, ⟨4, 4⟩, ⟨5, 5⟩, ⟨6, 6⟩] := by decide
  rw [hs, Option.map_some, Option.some.injEq] at hhanded
  refine ⟨s', hs, hhanded, ?_⟩
  exact stream_law (s := readerAtThree) rfl rfl rfl (by decide) (by decide) hs

end DdkMem
