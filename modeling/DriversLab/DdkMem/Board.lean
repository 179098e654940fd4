import DriversLab.DdkMem.FileOps

/-!
# DdkMem.Board — the firmware as the driver knows it

The board has a read offset, a write offset and a memory. What is assumed of
it: a successful SET message sets that offset; an IN packet has at most the
bytes asked for, from the read offset on, and moves that offset past them; an
OUT packet stores the bytes it accepts from the write offset on and moves that
offset past them. A message that fails leaves the board alone.

`view` is what a byte of `in_buf` remembers of the address and the byte it was
fetched from.
-/

namespace DdkMem

open Interact

variable {β : Type}

structure Board where
  rd : ℕ
  wr : ℕ
  size : ℕ
  mem : ℕ → UInt8

/-- What the environment decides for one operation: whether a message fails,
whether a copy faults, how many bytes move, what the stack and the heap hold. -/
structure Choice (β : Type) where
  fail : Option Errno
  fault : Bool
  len : ℕ
  stack : UInt8 × UInt8
  heap : Option (List β)

/-- Everything succeeds and `len` bytes move. -/
def Choice.ok (len : ℕ) : Choice β := ⟨none, false, len, (0, 0), none⟩

/-- The message fails. -/
def Choice.err (e : Errno) : Choice β := ⟨some e, false, 0, (0, 0), none⟩

namespace Board

def off (b : Board) : Dir → ℕ
  | .eRead => b.rd
  | .eWrite => b.wr

def setOff (b : Board) (dir : Dir) (v : ℕ) : Board :=
  match dir with
  | .eRead => { b with rd := v }
  | .eWrite => { b with wr := v }

@[simp] theorem setOff_mem (b : Board) (dir : Dir) (v : ℕ) : (b.setOff dir v).mem = b.mem := by
  cases dir <;> rfl

/-- The reply to a request for a `short`, little-endian, cut to `len` bytes. -/
def reply (n len : ℕ) : { reply : List UInt8 // reply.length ≤ 2 } :=
  ⟨[UInt8.ofNat n, UInt8.ofNat (n / 256)].take len, by
    rw [List.length_take]
    exact Nat.min_le_right _ _⟩

/-- The bytes of an IN packet of `len` bytes. -/
def packet (view : ℕ → UInt8 → β) (b : Board) (len : ℕ) : List β :=
  (List.range len).map fun i => view (b.rd + i) (b.mem (b.rd + i))

@[simp] theorem packet_length (view : ℕ → UInt8 → β) (b : Board) (len : ℕ) :
    (b.packet view len).length = len := by
  simp [packet]

/-- Memory after the bytes `data` have been stored from address `a` on. -/
def store (mem : ℕ → UInt8) (a : ℕ) (data : List UInt8) (x : ℕ) : UInt8 :=
  if a ≤ x then data[x - a]?.getD (mem x) else mem x

/-- How the board, and the copies to and from the user, answer. -/
def serve (view : ℕ → UInt8 → β) : Handler (Ans β) Board (Choice β)
  | b, .setMemOffset dir v, c =>
      match c.fail with
      | some e => some (.error e, b)
      | none => some (.ok (), b.setOff dir v)
  | b, .getMemOffset dir, c =>
      match c.fail with
      | some e => some (.error e, b)
      | none => some (.ok (reply (b.off dir) c.len), b)
  | b, .getMemSize, c =>
      match c.fail with
      | some e => some (.error e, b)
      | none => some (.ok (reply b.size c.len), b)
  | b, .stackShort, c => some (c.stack, b)
  | b, .interruptIn len, c =>
      match c.fail with
      | some e => some (.error e, b)
      | none => some
          (.ok ⟨b.packet view (min c.len len), by
              rw [packet_length]
              exact Nat.min_le_right _ _⟩,
            { b with rd := b.rd + min c.len len })
  | b, .interruptOut data, c =>
      match c.fail with
      | some e => some (.error e, b)
      | none => some
          (.ok ⟨min c.len data.length, Nat.min_le_right _ _⟩,
            { b with
              wr := b.wr + min c.len data.length
              mem := store b.mem b.wr (data.take c.len) })
  | b, .copyFromUser _, c => some (c.fault, b)
  | b, .copyToUser _, c => some (c.fault, b)
  | b, .copyIntToUser _, c => some (c.fault, b)
  | b, .ddkExtOnWriteSuccess _, _ => some ((), b)
  | b, .ddkExtOnWriteFail, _ => some ((), b)
  | _, _, _ => none

end Board

/-! ## One operation of an execution -/

/-- An entry of an execution on the board. -/
abbrev BoardEntry (β : Type) := Entry (Op β) Board (Choice β)

/-- The message of the entry fails, or its copy faults. -/
def Fails (e : BoardEntry β) : Bool :=
  match e.op with
  | .copyFromUser _ | .copyToUser _ | .copyIntToUser _ => e.choice.fault
  | .ddkExtOnWriteSuccess _ | .ddkExtOnWriteFail | .stackShort => false
  | _ => e.choice.fail.isSome

section Exec

variable {view : ℕ → UInt8 → β} {α : Type} {b b' : Board} {a : α} {cs : List (Choice β)}
  {l : List (BoardEntry β)}

/-- What the board does on an operation that a program starts with. -/
theorem exec_perform {o : Op β} {f : Ans β o → Driver β α}
    (h : exec (Board.serve view) (Prog.call o f) b cs = some (a, b', l)) :
    ∃ c cs' r m l', Board.serve view b o c = some (r, m) ∧
      exec (Board.serve view) (f r) m cs' = some (a, b', l') ∧ l = ⟨b, o, c⟩ :: l' := by
  rcases exec_call.mp h with ⟨c, cs', r, m, l', _, hs, he, hl⟩
  exact ⟨c, cs', r, m, l', hs, he, hl⟩

theorem exec_setOff {dir : Dir} {offset : ℤ} {f : Except Errno Unit → Driver β α}
    (h : exec (Board.serve view) ((setOff dir offset).bind f) b cs = some (a, b', l)) :
    ∃ cs' l' e, l = e :: l' ∧ e.op = .setMemOffset dir (CInt.toU16 offset) ∧
      ((∃ err, Fails e = true ∧ exec (Board.serve view) (f (.error err)) b cs' = some (a, b', l')) ∨
        (Fails e = false ∧ exec (Board.serve view) (f (.ok ()))
          (b.setOff dir (CInt.toU16 offset)) cs' = some (a, b', l'))) := by
  rcases exec_perform h with ⟨c, cs', r, m, l', hs, he, rfl⟩
  refine ⟨cs', l', _, rfl, by simp only [CInt.toU16_toInt], ?_⟩
  cases hf : c.fail with
  | some err =>
      simp only [Board.serve, hf, Option.some.injEq, Prod.mk.injEq] at hs
      rcases hs with ⟨rfl, rfl⟩
      exact Or.inl ⟨err, by simp [Fails, hf], he⟩
  | none =>
      simp only [Board.serve, hf, Option.some.injEq, Prod.mk.injEq, CInt.toU16_toInt] at hs
      rcases hs with ⟨rfl, rfl⟩
      exact Or.inr ⟨by simp [Fails, hf], he⟩

theorem exec_interruptIn {len : ℕ}
    {f : Except Errno { packet : List β // packet.length ≤ len } → Driver β α}
    (h : exec (Board.serve view) (Prog.call (.interruptIn len) f) b cs = some (a, b', l)) :
    ∃ cs' l' e, l = e :: l' ∧ e.op = .interruptIn len ∧ e.before = b ∧
      ((∃ err, Fails e = true ∧ exec (Board.serve view) (f (.error err)) b cs' = some (a, b', l')) ∨
        (Fails e = false ∧ ∃ n hn, exec (Board.serve view) (f (.ok ⟨b.packet view n, hn⟩))
          { b with rd := b.rd + n } cs' = some (a, b', l'))) := by
  rcases exec_perform h with ⟨c, cs', r, m, l', hs, he, rfl⟩
  refine ⟨cs', l', _, rfl, rfl, rfl, ?_⟩
  cases hf : c.fail with
  | some err =>
      simp only [Board.serve, hf, Option.some.injEq, Prod.mk.injEq] at hs
      rcases hs with ⟨rfl, rfl⟩
      exact Or.inl ⟨err, by simp [Fails, hf], he⟩
  | none =>
      simp only [Board.serve, hf, Option.some.injEq, Prod.mk.injEq] at hs
      rcases hs with ⟨rfl, rfl⟩
      exact Or.inr ⟨by simp [Fails, hf], _, _, he⟩

theorem exec_interruptOut {data : List UInt8}
    {f : Except Errno { wrote : ℕ // wrote ≤ data.length } → Driver β α}
    (h : exec (Board.serve view) (Prog.call (.interruptOut data) f) b cs = some (a, b', l)) :
    ∃ cs' l' e m r, l = e :: l' ∧ e.op = .interruptOut data ∧ e.before = b ∧
      ((∃ err, r = .error err ∧ Fails e = true) ∨ (∃ n, r = .ok n ∧ Fails e = false)) ∧
      exec (Board.serve view) (f r) m cs' = some (a, b', l') := by
  rcases exec_perform h with ⟨c, cs', r, m, l', hs, he, rfl⟩
  refine ⟨cs', l', _, m, r, rfl, rfl, rfl, ?_, he⟩
  cases hf : c.fail with
  | some err =>
      simp only [Board.serve, hf, Option.some.injEq, Prod.mk.injEq] at hs
      exact Or.inl ⟨err, hs.1.symm, by simp [Fails, hf]⟩
  | none =>
      simp only [Board.serve, hf, Option.some.injEq, Prod.mk.injEq] at hs
      exact Or.inr ⟨_, hs.1.symm, by simp [Fails, hf]⟩

theorem exec_copyFromUser {len : ℕ} {f : Bool → Driver β α}
    (h : exec (Board.serve view) (Prog.call (.copyFromUser len) f) b cs = some (a, b', l)) :
    ∃ cs' l' e, l = e :: l' ∧ e.op = .copyFromUser len ∧
      exec (Board.serve view) (f (Fails e)) b cs' = some (a, b', l') := by
  rcases exec_perform h with ⟨c, cs', r, m, l', hs, he, rfl⟩
  cases hs
  exact ⟨cs', l', _, rfl, rfl, he⟩

theorem exec_copyToUser {data : List β} {f : Bool → Driver β α}
    (h : exec (Board.serve view) (Prog.call (.copyToUser data) f) b cs = some (a, b', l)) :
    ∃ cs' l' e, l = e :: l' ∧ e.op = .copyToUser data ∧
      exec (Board.serve view) (f (Fails e)) b cs' = some (a, b', l') := by
  rcases exec_perform h with ⟨c, cs', r, m, l', hs, he, rfl⟩
  cases hs
  exact ⟨cs', l', _, rfl, rfl, he⟩

/-- The hooks do not concern the board. -/
theorem exec_hook {o : Op β} {f : Ans β o → Driver β α}
    (h : exec (Board.serve view) (Prog.call o f) b cs = some (a, b', l)) (ho : o.TouchesExt) :
    ∃ cs' l' e r, l = e :: l' ∧ e.op = o ∧ Fails e = false ∧
      exec (Board.serve view) (f r) b cs' = some (a, b', l') := by
  rcases exec_perform h with ⟨c, cs', r, m, l', hs, he, rfl⟩
  cases o <;> first
    | exact ho.elim
    | (cases hs; exact ⟨cs', l', _, _, rfl, rfl, rfl, he⟩)

/-- A program that sends no OUT packet leaves the memory as it is. -/
theorem exec_query {p : Driver β α} (hp : p.Only Op.IsQuery)
    (h : exec (Board.serve view) p b cs = some (a, b', l)) : b'.mem = b.mem := by
  induction p generalizing b cs l with
  | ret r =>
      rcases exec_ret.mp h with ⟨-, -, rfl, -⟩
      rfl
  | call o k ih =>
      rcases exec_perform h with ⟨c, cs', r, m, l', hs, he, -⟩
      rw [ih r (hp.2 r) he]
      have ho := hp.1
      cases o with
      | setMemOffset dir v =>
          simp only [Board.serve] at hs
          split at hs <;> cases hs
          · rfl
          · exact Board.setOff_mem b dir v
      | getMemOffset dir =>
          simp only [Board.serve] at hs
          split at hs <;> cases hs <;> rfl
      | getMemSize =>
          simp only [Board.serve] at hs
          split at hs <;> cases hs <;> rfl
      | interruptIn len =>
          simp only [Board.serve] at hs
          split at hs <;> cases hs <;> rfl
      | stackShort | copyFromUser _ | copyToUser _ | copyIntToUser _ =>
          cases hs
          rfl
      | _ => exact ho.elim

/-- A program that returns does nothing more. -/
theorem exec_done {r : α}
    (h : exec (Board.serve view) (Prog.ret r : Driver β α) b cs = some (a, b', l)) :
    a = r ∧ b' = b ∧ l = [] :=
  (exec_ret.mp h).2

end Exec

end DdkMem
