import DriversLab.DdkMem.Board
import DriversLab.Lib.Serial

/-!
# DdkMem.Serial — two transfers at the same time

Two files are open on one board, and a `ddk_read` or a `ddk_write` is under way
on each; no mutex is held, so their messages interleave in any order.

* `boardFootprint`: the locations of the board that each message reads and
  writes;
* `serial_of_leads`: when no message of one call follows a conflicting message of
  the other, the outcome is that of the serial run, that call first.
-/

namespace DdkMem

open Interact

variable {β : Type}

/-! ## What a message touches -/

inductive Loc where
  | rd
  | wr
  | size
  | cell (a : ℕ)
deriving DecidableEq, Repr

namespace Loc

def off : Dir → Loc
  | .eRead => .rd
  | .eWrite => .wr

/-- The `n` cells from address `a` on. -/
def cells (a n : ℕ) : List Loc := (List.range' a n).map cell

theorem cell_mem_cells {a n x : ℕ} : cell x ∈ cells a n ↔ a ≤ x ∧ x < a + n := by
  simp [cells]

end Loc

/-- What a location holds. -/
def Board.look (b : Board) : Loc → ℕ
  | .rd => b.rd
  | .wr => b.wr
  | .size => b.size
  | .cell a => (b.mem a).toNat

theorem Board.look_ext {b b' : Board} (h : ∀ x, b.look x = b'.look x) : b = b' := by
  have hmem : b.mem = b'.mem := funext fun a => UInt8.toNat.inj (h (.cell a))
  have hrd : b.rd = b'.rd := h .rd
  have hwr : b.wr = b'.wr := h .wr
  have hsize : b.size = b'.size := h .size
  cases b
  cases b'
  simp_all

/-- The number of bytes that a packet moves. -/
def Choice.span (c : Choice β) (len : ℕ) : ℕ := if c.fail.isSome then 0 else min c.len len

/-- The locations that one operation reads and writes. A message that fails and
a packet without bytes touch nothing. -/
def boardMarks (e : BoardEntry β) : Marks Loc :=
  match e.op with
  | .setMemOffset dir _ => ⟨[], if e.choice.fail.isSome then [] else [.off dir]⟩
  | .getMemOffset dir => ⟨[.off dir], []⟩
  | .getMemSize => ⟨[.size], []⟩
  | .interruptIn len =>
      if e.choice.span len = 0 then ⟨[], []⟩
      else ⟨.rd :: Loc.cells e.before.rd (e.choice.span len), [.rd]⟩
  | .interruptOut data =>
      if e.choice.span data.length = 0 then ⟨[], []⟩
      else ⟨[.wr], .wr :: Loc.cells e.before.wr (e.choice.span data.length)⟩
  | _ => ⟨[], []⟩

section Footprint

variable {view : ℕ → UInt8 → β} {b b' v : Board} {c : Choice β}

theorem packet_congr {n : ℕ} (hrd : v.rd = b.rd)
    (hmem : ∀ a, b.rd ≤ a → a < b.rd + n → v.mem a = b.mem a) :
    v.packet view n = b.packet view n := by
  refine List.map_congr_left ?_
  intro i hi
  have hlt : i < n := List.mem_range.mp hi
  rw [hrd, hmem (b.rd + i) (by omega) (by omega)]

theorem store_of_notMem {mem : ℕ → UInt8} {a x : ℕ} {data : List UInt8}
    (hx : ¬ (a ≤ x ∧ x < a + data.length)) : Board.store mem a data x = mem x := by
  unfold Board.store
  split
  · have hnone : data[x - a]? = none := List.getElem?_eq_none (by omega)
    rw [hnone]
    rfl
  · rfl

theorem store_of_mem {mem mem' : ℕ → UInt8} {a x : ℕ} {data : List UInt8}
    (hx : a ≤ x ∧ x < a + data.length) :
    Board.store mem a data x = Board.store mem' a data x := by
  unfold Board.store
  have hget : data[x - a]? = some data[x - a] := List.getElem?_eq_getElem (by omega)
  rw [if_pos hx.1, if_pos hx.1, hget]
  rfl

theorem store_nil (mem : ℕ → UInt8) (a : ℕ) : Board.store mem a [] = mem := by
  funext x
  exact store_of_notMem (by rw [List.length_nil]; omega)

/-! Each message that changes the board, by itself. -/

theorem setOff_frame {dir : Dir} {n : ℕ} {x : Loc} (hx : x ≠ Loc.off dir) :
    (b.setOff dir n).look x = b.look x := by
  cases dir <;> cases x <;> first
    | rfl
    | exact absurd rfl hx

theorem setOff_determined {dir : Dir} {n : ℕ} :
    (v.setOff dir n).look (Loc.off dir) = (b.setOff dir n).look (Loc.off dir) := by
  cases dir <;> rfl

/-- What a new offset does. -/
theorem serve_setOff {dir : Dir} {n : ℕ} {r : Ans β (.setMemOffset dir n)}
    (h : Board.serve view b (.setMemOffset dir n) c = some (r, b')) (v : Board) :
    Board.serve view v (.setMemOffset dir n) c =
      some (r, if c.fail.isSome then v else v.setOff dir n) := by
  simp only [Board.serve] at h ⊢
  cases hf : c.fail with
  | some e =>
      rw [hf] at h
      rcases Prod.mk.inj (Option.some.inj h) with ⟨rfl, rfl⟩
      rfl
  | none =>
      rw [hf] at h
      rcases Prod.mk.inj (Option.some.inj h) with ⟨rfl, rfl⟩
      rfl

/-- What an IN packet does. -/
theorem serve_in {len : ℕ} {r : Ans β (.interruptIn len)}
    (h : Board.serve view b (.interruptIn len) c = some (r, b')) (v : Board) :
    b' = { b with rd := b.rd + c.span len } ∧
      (v.packet view (c.span len) = b.packet view (c.span len) →
        Board.serve view v (.interruptIn len) c =
          some (r, { v with rd := v.rd + c.span len })) := by
  simp only [Board.serve] at h ⊢
  cases hf : c.fail with
  | some e =>
      rw [hf] at h
      rcases Prod.mk.inj (Option.some.inj h) with ⟨rfl, rfl⟩
      simp [Choice.span, hf]
  | none =>
      rw [hf] at h
      rcases Prod.mk.inj (Option.some.inj h) with ⟨rfl, rfl⟩
      simp only [Choice.span, hf, Option.isSome_none, Bool.false_eq_true, if_false, true_and]
      intro hp
      simp only [hp]

/-- What an OUT packet does. -/
theorem serve_out {data : List UInt8} {r : Ans β (.interruptOut data)}
    (h : Board.serve view b (.interruptOut data) c = some (r, b')) (v : Board) :
    Board.serve view v (.interruptOut data) c = some (r,
      { v with
        wr := v.wr + c.span data.length
        mem := Board.store v.mem v.wr (data.take (c.span data.length)) }) := by
  simp only [Board.serve] at h ⊢
  cases hf : c.fail with
  | some e =>
      rw [hf] at h
      rcases Prod.mk.inj (Option.some.inj h) with ⟨rfl, rfl⟩
      simp [Choice.span, hf, store_nil]
  | none =>
      rw [hf] at h
      rcases Prod.mk.inj (Option.some.inj h) with ⟨rfl, rfl⟩
      simp [Choice.span, hf, List.take_eq_take_min]

theorem serve_frame {o : Op β} {r : Ans β o} (h : Board.serve view b o c = some (r, b')) (x : Loc)
    (hx : x ∉ (boardMarks ⟨b, o, c⟩).writes) : b'.look x = b.look x := by
  cases o with
  | setMemOffset dir n =>
      rcases Prod.mk.inj (Option.some.inj (h.symm.trans (serve_setOff h b))) with ⟨-, rfl⟩
      split
      · rfl
      · rename_i hf
        exact setOff_frame fun heq => hx (by simp [boardMarks, hf, heq])
  | interruptIn len =>
      rw [(serve_in h b).1]
      by_cases hn : c.span len = 0
      · rw [hn]
        rfl
      · simp only [boardMarks, if_neg hn, List.mem_singleton] at hx
        cases x <;> first
          | rfl
          | exact absurd rfl hx
  | interruptOut data =>
      rcases Prod.mk.inj (Option.some.inj (h.symm.trans (serve_out h b))) with ⟨-, rfl⟩
      by_cases hn : c.span data.length = 0
      · rw [hn, List.take_zero, store_nil]
        rfl
      · simp only [boardMarks, if_neg hn, List.mem_cons, not_or] at hx
        cases x with
        | wr => exact absurd rfl hx.1
        | cell a =>
            rw [Loc.cell_mem_cells] at hx
            refine congrArg UInt8.toNat (store_of_notMem ?_)
            rw [List.length_take]
            omega
        | rd => rfl
        | size => rfl
  | getMemOffset dir | getMemSize =>
      simp only [Board.serve] at h
      split at h
      · rw [(Prod.mk.inj (Option.some.inj h)).2]
      · rw [(Prod.mk.inj (Option.some.inj h)).2]
  | _ =>
      -- a copy or a hook leaves the board alone, the board answers nothing else
      first
        | cases h; done
        | rw [(Prod.mk.inj (Option.some.inj h)).2]

theorem serve_determined {o : Op β} {r : Ans β o} (h : Board.serve view b o c = some (r, b'))
    (hv : ∀ x ∈ (boardMarks ⟨b, o, c⟩).reads, v.look x = b.look x) :
    boardMarks ⟨v, o, c⟩ = boardMarks ⟨b, o, c⟩ ∧
      ∃ v', Board.serve view v o c = some (r, v') ∧
        ∀ x ∈ (boardMarks ⟨b, o, c⟩).writes, v'.look x = b'.look x := by
  cases o with
  | setMemOffset dir n =>
      refine ⟨rfl, _, serve_setOff h v, ?_⟩
      rcases Prod.mk.inj (Option.some.inj (h.symm.trans (serve_setOff h b))) with ⟨-, rfl⟩
      by_cases hf : c.fail.isSome = true
      · simp [boardMarks, hf]
      · simp only [boardMarks, hf, Bool.false_eq_true, if_false, List.mem_singleton, forall_eq]
        exact setOff_determined
  | interruptIn len =>
      rcases serve_in h v with ⟨rfl, hv'⟩
      by_cases hn : c.span len = 0
      · refine ⟨by simp only [boardMarks, hn, if_true], _, hv' ?_, by simp [boardMarks, hn]⟩
        rw [hn]
        rfl
      · simp only [boardMarks, if_neg hn, List.mem_cons, forall_eq_or_imp] at hv
        have hrd : v.rd = b.rd := hv.1
        have hmem (a : ℕ) (hlo : b.rd ≤ a) (hhi : a < b.rd + c.span len) : v.mem a = b.mem a :=
          UInt8.toNat.inj (hv.2 (.cell a) (Loc.cell_mem_cells.mpr ⟨hlo, hhi⟩))
        refine ⟨by simp only [boardMarks, hrd], _, hv' (packet_congr hrd hmem), ?_⟩
        simp only [boardMarks, if_neg hn, List.mem_singleton, forall_eq]
        exact congrArg (· + c.span len) hrd
  | interruptOut data =>
      rcases Prod.mk.inj (Option.some.inj (h.symm.trans (serve_out h b))) with ⟨-, rfl⟩
      by_cases hn : c.span data.length = 0
      · exact ⟨by simp only [boardMarks, hn, if_true], _, serve_out h v, by simp [boardMarks, hn]⟩
      · simp only [boardMarks, if_neg hn, List.mem_singleton, forall_eq] at hv
        have hwr : v.wr = b.wr := hv
        refine ⟨by simp only [boardMarks, hwr], _, serve_out h v, ?_⟩
        simp only [boardMarks, if_neg hn, List.forall_mem_cons]
        refine ⟨congrArg (· + c.span data.length) hwr, ?_⟩
        intro x hx
        rcases List.mem_map.mp hx with ⟨a, ha, rfl⟩
        have hlen : (data.take (c.span data.length)).length = c.span data.length := by
          rw [List.length_take, Choice.span]
          split <;> omega
        have hin : b.wr ≤ a ∧ a < b.wr + (data.take (c.span data.length)).length := by
          rw [hlen]
          simpa using ha
        show (Board.store v.mem v.wr _ a).toNat = (Board.store b.mem b.wr _ a).toNat
        rw [hwr, store_of_mem hin]
  | getMemOffset dir =>
      have hoff : v.off dir = b.off dir := by
        cases dir with
        | eRead => exact hv .rd (by simp [boardMarks, Loc.off])
        | eWrite => exact hv .wr (by simp [boardMarks, Loc.off])
      refine ⟨rfl, v, ?_, by simp [boardMarks]⟩
      simp only [Board.serve] at h ⊢
      cases hf : c.fail with
      | some e =>
          rw [hf] at h
          rcases Prod.mk.inj (Option.some.inj h) with ⟨rfl, rfl⟩
          rfl
      | none =>
          rw [hf] at h
          rcases Prod.mk.inj (Option.some.inj h) with ⟨rfl, rfl⟩
          simp only [hoff]
  | getMemSize =>
      have hsize : v.size = b.size := hv .size (by simp [boardMarks])
      refine ⟨rfl, v, ?_, by simp [boardMarks]⟩
      simp only [Board.serve] at h ⊢
      cases hf : c.fail with
      | some e =>
          rw [hf] at h
          rcases Prod.mk.inj (Option.some.inj h) with ⟨rfl, rfl⟩
          rfl
      | none =>
          rw [hf] at h
          rcases Prod.mk.inj (Option.some.inj h) with ⟨rfl, rfl⟩
          simp only [hsize]
  | _ =>
      first
        | cases h; done
        | exact ⟨rfl, v, by cases h; rfl, by simp [boardMarks]⟩

end Footprint

/-- The board is made of its two offsets, its size and its cells. -/
def boardFootprint (view : ℕ → UInt8 → β) : Footprint (Board.serve view) Loc ℕ where
  look := Board.look
  marks := boardMarks
  ext := Board.look_ext
  frame := serve_frame
  determined := serve_determined

/-! ## Two calls -/

/-- A `ddk_read` or a `ddk_write`, with the file and the position it is given. -/
inductive TransferCall (β : Type) where
  | read (file : File β) (cnt : ℕ) (off : ℤ)
  | write (bound : ℕ) (buf : List UInt8) (off : ℤ)

inductive Outcome (β : Type) where
  | read (r : ReadResult β)
  | write (r : Transfer)
deriving DecidableEq, Repr

/-- What the call runs. -/
def TransferCall.prog (cfg : Config) : TransferCall β → Driver β (Outcome β)
  | .read file cnt off => (ddkRead cfg file cnt off).bind fun r => .ret (.read r)
  | .write bound buf off => (ddkWrite cfg bound buf off).bind fun r => .ret (.write r)

inductive Side where
  | first
  | second
deriving DecidableEq, Repr

def Side.other : Side → Side
  | .first => .second
  | .second => .first

theorem Side.eq_other {i j : Side} (h : j ≠ i) : j = i.other := by
  cases i <;> cases j <;> first
    | rfl
    | exact absurd rfl h

section Calls

variable (cfg : Config) (view : ℕ → UInt8 → β) (calls : Side → TransferCall β)

/-- The two calls run to their ends, in the order of the schedule. -/
def Overlap (b : Board) (sched : List (Side × Choice β)) (out : Side → Outcome β) (b' : Board)
    (log : List (Side × BoardEntry β)) : Prop :=
  ∃ ps, interleave (Board.serve view) (fun i => (calls i).prog cfg) b sched = some (ps, b', log) ∧
    ∀ i, (ps i).result? = some (out i)

/-- Results and board are those of one call after the other. -/
def Serial (b : Board) (sched : List (Side × Choice β)) (out : Side → Outcome β)
    (b' : Board) : Prop :=
  ∃ i : Side, SerialRun (Board.serve view) (fun i => (calls i).prog cfg) sched out [i, i.other] b b'

variable {cfg view calls} {b b' : Board} {sched : List (Side × Choice β)} {out : Side → Outcome β}
  {log : List (Side × BoardEntry β)}

/-- Two calls of which one sends no message after a conflicting message of the
other have the outcome of a serial run. -/
theorem serial_of_leads (hover : Overlap cfg view calls b sched out b' log)
    (hlead : ∃ i, Leads i ((boardFootprint view).trace log)) :
    Serial cfg view calls b sched out b' := by
  rcases hover with ⟨ps, hrun, hret⟩
  rcases hlead with ⟨i, hi⟩
  have hord : Ordered [i, i.other] ((boardFootprint view).trace log) := by
    refine ⟨hi, ?_, trivial⟩
    -- what is left is the other call alone
    refine List.pairwise_of_forall_mem_list ?_
    intro x hx y _ hne _
    exact absurd (Side.eq_other (mem_without.mp hx).2) hne
  refine ⟨i, (boardFootprint view).serial_of_ordered hrun ?_ ?_ ?_ hord⟩
  · intro j
    exact Prog.result?_eq_some.mp (hret j)
  · intro x _
    by_cases hx : x.1 = i
    · rw [hx]
      exact List.mem_cons_self
    · rw [Side.eq_other hx]
      exact List.mem_cons_of_mem _ List.mem_cons_self
  · cases i <;> simp [Side.other]

end Calls

/-! ## Both sides on two short writes -/

/-- Both calls write one byte, at 0 and at 10. -/
def twoWrites : Side → TransferCall UInt8
  | .first => .write 1 [1] 0
  | .second => .write 1 [2] 10

/-- Both report one byte written. -/
def twoWritten : Side → Outcome UInt8
  | .first => .write ⟨1, 1⟩
  | .second => .write ⟨1, 11⟩

def blank : Board := ⟨0, 0, 2048, fun _ => 0⟩

/-- The second call starts while the first one sleeps. -/
def staggered : List (Side × Choice UInt8) :=
  [(.first, .ok 0), (.first, .ok 0), (.first, .ok 1), (.first, .ok 0), (.second, .ok 0),
    (.first, .ok 0), (.second, .ok 0), (.second, .ok 1), (.second, .ok 0), (.second, .ok 0)]

/-- The second call sets the write offset before the first one sends its packet. -/
def tangled : List (Side × Choice UInt8) :=
  [(.first, .ok 0), (.second, .ok 0), (.first, .ok 0), (.first, .ok 1), (.second, .ok 0),
    (.second, .ok 1), (.first, .ok 0), (.first, .ok 0), (.second, .ok 0), (.second, .ok 0)]

/-- The results, the board and the log of the two calls. -/
def runTwo (sched : List (Side × Choice UInt8)) :
    Option ((Side → Option (Outcome UInt8)) × Board × List (Side × BoardEntry UInt8)) :=
  (interleave (Board.serve fun _ byte => byte) (fun i => (twoWrites i).prog ⟨8, 8⟩) blank sched).map
    fun x => (fun i => (x.1 i).result?, x.2)

/-- The board after the calls one after the other, `i` first. -/
def serialTwo (sched : List (Side × Choice UInt8)) (i : Side) : Option Board :=
  (exec (Board.serve fun _ byte => byte) ((twoWrites i).prog ⟨8, 8⟩) blank (ofSide i sched)).bind
    fun x => (exec (Board.serve fun _ byte => byte) ((twoWrites i.other).prog ⟨8, 8⟩) x.2.1
      (ofSide i.other sched)).map fun y => y.2.1

theorem overlap_runTwo {sched : List (Side × Choice UInt8)} {b' : Board}
    {log : List (Side × BoardEntry UInt8)} {res : Side → Option (Outcome UInt8)}
    (h : runTwo sched = some (res, b', log)) (hres : ∀ i, res i = some (twoWritten i)) :
    Overlap ⟨8, 8⟩ (fun _ byte => byte) twoWrites blank sched twoWritten b' log := by
  rcases Option.map_eq_some_iff.mp h with ⟨⟨ps, v, l⟩, hrun, hx⟩
  simp only [Prod.mk.injEq] at hx
  rcases hx with ⟨rfl, rfl, rfl⟩
  exact ⟨ps, hrun, hres⟩

theorem serial_of_leads_staggered : ∃ b' log,
    Overlap ⟨8, 8⟩ (fun _ byte => byte) twoWrites blank staggered twoWritten b' log ∧
      Serial ⟨8, 8⟩ (fun _ byte => byte) twoWrites blank staggered twoWritten b' := by
  obtain ⟨⟨res, b', log⟩, h⟩ := Option.isSome_iff_exists.mp
    (show (runTwo staggered).isSome = true by decide)
  have hres (i : Side) : (runTwo staggered).map (fun x => x.1 i) = some (some (twoWritten i)) := by
    cases i <;> decide
  have hlead : (runTwo staggered).map (fun x => decide
      (Leads .first ((boardFootprint fun _ byte => byte).trace x.2.2))) = some true := by decide
  simp only [h, Option.map_some, Option.some.injEq, decide_eq_true_eq] at hres hlead
  have hover := overlap_runTwo h hres
  exact ⟨b', log, hover, serial_of_leads hover ⟨.first, hlead⟩⟩

/-- The byte meant for address 0 is stored at 10, and the one for 10 at 11. -/
theorem serial_tangled : ∃ b' log,
    Overlap ⟨8, 8⟩ (fun _ byte => byte) twoWrites blank tangled twoWritten b' log ∧
      (b'.mem 0, b'.mem 10, b'.mem 11) = (0, 1, 2) ∧
      ¬ Serial ⟨8, 8⟩ (fun _ byte => byte) twoWrites blank tangled twoWritten b' := by
  obtain ⟨⟨res, b', log⟩, h⟩ := Option.isSome_iff_exists.mp
    (show (runTwo tangled).isSome = true by decide)
  have hres (i : Side) : (runTwo tangled).map (fun x => x.1 i) = some (some (twoWritten i)) := by
    cases i <;> decide
  have hmem : (runTwo tangled).map (fun x => (x.2.1.mem 0, x.2.1.mem 10, x.2.1.mem 11)) =
      some (0, 1, 2) := by decide
  have hserial (i : Side) : (serialTwo tangled i).map (fun b => b.mem 0) = some 1 := by
    cases i <;> decide
  simp only [h, Option.map_some, Option.some.injEq] at hres hmem
  refine ⟨b', log, overlap_runTwo h hres, hmem, ?_⟩
  rintro ⟨i, hrun⟩
  rcases serialRun_pair.mp hrun with ⟨m, l, l', hi, hj⟩
  have hone := hserial i
  simp only [serialTwo, hi, hj, Option.bind_some, Option.map_some, Option.some.injEq] at hone
  have hzero : b'.mem 0 = 0 := (Prod.mk.inj hmem).1
  rw [hone] at hzero
  exact absurd hzero (by decide)

end DdkMem
