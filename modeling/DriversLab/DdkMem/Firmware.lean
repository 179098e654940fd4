import DriversLab.DdkMem.Coherence
import DriversLab.DdkMem.Kernel
import DriversLab.Lib.Wp

/-!
# DdkMem.Firmware — a board with offsets of 16 bits, and one file on it

The board of `DdkMem.Board` with its two offsets kept modulo 2^16, and the runs of
calls on one file that nobody else disturbs. A call at `f_pos` stores the position
back when it succeeds; a `pread` or a `pwrite` brings its own.

* `serve16`: how that board answers, with a rule for each operation;
* `Use`: the file in use, with the program and the reply of each call;
* `offsets_in_step`: after a successful `ddk_open` and any successful calls the two
  offsets are equal.
-/

namespace DdkMem

open CInt Interact

variable {β : Type}

/-! ## The board -/

namespace Board

/-- The offsets as the firmware keeps them. -/
def wrap (b : Board) : Board := { b with rd := b.rd % 2 ^ 16, wr := b.wr % 2 ^ 16 }

/-- How a board with 16-bit offsets answers. -/
def serve16 (view : ℕ → UInt8 → β) : Handler (Ans β) Board (Choice β) := fun b o c =>
  (b.serve view o c).map fun a => (a.1, a.2.wrap)

/-- The offsets have 16 bits. -/
structure Short (b : Board) : Prop where
  rd : b.rd < 2 ^ 16
  wr : b.wr < 2 ^ 16

theorem short_wrap (b : Board) : b.wrap.Short :=
  ⟨Nat.mod_lt _ (by decide), Nat.mod_lt _ (by decide)⟩

theorem wrap_of_short {b : Board} (h : b.Short) : b.wrap = b := by
  rw [wrap, Nat.mod_eq_of_lt h.rd, Nat.mod_eq_of_lt h.wr]

theorem Short.setOff {b : Board} (h : b.Short) (dir : Dir) {v : ℕ} (hv : v < 2 ^ 16) :
    (b.setOff dir v).Short := by
  cases dir with
  | eRead => exact ⟨hv, h.wr⟩
  | eWrite => exact ⟨h.rd, hv⟩

end Board

theorem toU16_lt (z : ℤ) : toU16 z < 2 ^ 16 := by
  unfold toU16
  omega

/-! ## Rules for the operations -/

section Rules

variable {view : ℕ → UInt8 → β} {allowed : Choice β → Prop} {α : Type} {b : Board}
  {Q : α → Board → Prop}

/-- The board answers a SET message that fails, and stays as it is. -/
theorem serve16_set_error {dir : Dir} {offset : ℤ} {c : Choice β} {e : Errno} (hb : b.Short)
    (hf : c.fail = some e) :
    Board.serve16 view b (.setMemOffset dir (toU16 (toInt offset))) c = some (.error e, b) := by
  simp only [Board.serve16, Board.serve, hf, Option.map_some, Board.wrap_of_short hb]

/-- It answers a SET message that succeeds, and has the offset. -/
theorem serve16_set_ok {dir : Dir} {offset : ℤ} {c : Choice β} (hb : b.Short)
    (hf : c.fail = none) :
    Board.serve16 view b (.setMemOffset dir (toU16 (toInt offset))) c =
      some (.ok (), b.setOff dir (toU16 offset)) := by
  simp only [Board.serve16, Board.serve, hf, Option.map_some, toU16_toInt,
    Board.wrap_of_short (hb.setOff dir (toU16_lt offset))]

/-- A SET message fails and changes nothing, or sets the offset. -/
theorem wp_setOff {dir : Dir} {offset : ℤ} {f : Except Errno Unit → Driver β α} (hb : b.Short)
    (herror : ∀ e, Wp (Board.serve16 view) allowed (f (.error e)) b Q)
    (hok : Wp (Board.serve16 view) allowed (f (.ok ())) (b.setOff dir (toU16 offset)) Q) :
    Wp (Board.serve16 view) allowed ((setOff dir offset).bind f) b Q := by
  intro c r m _ hs
  cases hf : c.fail with
  | some e =>
      rw [serve16_set_error hb hf] at hs
      cases hs
      exact herror e
  | none =>
      rw [serve16_set_ok hb hf] at hs
      cases hs
      exact hok

/-- An IN packet fails, or moves the read offset past its bytes. -/
theorem wp_interruptIn {len : ℕ}
    {f : Except Errno { packet : List β // packet.length ≤ len } → Driver β α} (hb : b.Short)
    (herror : ∀ e, Wp (Board.serve16 view) allowed (f (.error e)) b Q)
    (hok : ∀ packet, Wp (Board.serve16 view) allowed (f (.ok packet))
      { b with rd := (b.rd + packet.1.length) % 2 ^ 16 } Q) :
    Wp (Board.serve16 view) allowed (.call (.interruptIn len) f) b Q := by
  intro c r m _ hs
  simp only [Board.serve16, Board.serve] at hs
  cases hf : c.fail with
  | some e =>
      simp only [hf, Option.map_some, Option.some.injEq, Prod.mk.injEq,
        Board.wrap_of_short hb] at hs
      rcases hs with ⟨rfl, rfl⟩
      exact herror e
  | none =>
      simp only [hf, Option.map_some, Option.some.injEq, Prod.mk.injEq, Board.wrap,
        Nat.mod_eq_of_lt hb.wr] at hs
      rcases hs with ⟨rfl, rfl⟩
      have hpacket := hok ⟨b.packet view (min c.len len), by
        rw [Board.packet_length]
        exact Nat.min_le_right _ _⟩
      simp only [Board.packet_length] at hpacket
      exact hpacket

/-- An OUT packet fails, or moves the write offset past the bytes it accepts. -/
theorem wp_interruptOut {data : List UInt8}
    {f : Except Errno { wrote : ℕ // wrote ≤ data.length } → Driver β α} (hb : b.Short)
    (herror : ∀ e, Wp (Board.serve16 view) allowed (f (.error e)) b Q)
    (hok : ∀ wrote mem, Wp (Board.serve16 view) allowed (f (.ok wrote))
      { b with wr := (b.wr + wrote.1) % 2 ^ 16, mem := mem } Q) :
    Wp (Board.serve16 view) allowed (.call (.interruptOut data) f) b Q := by
  intro c r m _ hs
  simp only [Board.serve16, Board.serve] at hs
  cases hf : c.fail with
  | some e =>
      simp only [hf, Option.map_some, Option.some.injEq, Prod.mk.injEq,
        Board.wrap_of_short hb] at hs
      rcases hs with ⟨rfl, rfl⟩
      exact herror e
  | none =>
      simp only [hf, Option.map_some, Option.some.injEq, Prod.mk.injEq, Board.wrap,
        Nat.mod_eq_of_lt hb.rd] at hs
      rcases hs with ⟨rfl, rfl⟩
      exact hok _ _

/-- The operations that the board does not notice. -/
def Op.Idle : Op β → Prop
  | .getMemOffset _ | .getMemSize | .stackShort => True
  | .copyFromUser _ | .copyToUser _ | .copyIntToUser _ => True
  | .ddkExtOnWriteSuccess _ | .ddkExtOnWriteFail => True
  | _ => False

theorem serve_idle {o : Op β} {c : Choice β} {r : Ans β o} {m : Board} (ho : o.Idle)
    (hs : Board.serve view b o c = some (r, m)) : m = b := by
  cases o with
  | getMemOffset dir =>
      simp only [Board.serve] at hs
      split at hs <;> cases hs <;> rfl
  | getMemSize =>
      simp only [Board.serve] at hs
      split at hs <;> cases hs <;> rfl
  | _ => first
      | exact ho.elim
      | (cases hs; rfl)

theorem serve16_idle {o : Op β} {c : Choice β} {r : Ans β o} {m : Board} (hb : b.Short)
    (ho : o.Idle) (hs : Board.serve16 view b o c = some (r, m)) : m = b := by
  rcases Option.map_eq_some_iff.mp hs with ⟨⟨r', m'⟩, hserve, heq⟩
  rcases Prod.mk.inj heq with ⟨-, rfl⟩
  rw [serve_idle ho hserve, Board.wrap_of_short hb]

/-- An operation that the board does not notice, whatever the answer. -/
theorem wp_idle {o : Op β} {f : Ans β o → Driver β α} (hb : b.Short) (ho : o.Idle)
    (h : ∀ r, Wp (Board.serve16 view) allowed (f r) b Q) :
    Wp (Board.serve16 view) allowed (.call o f) b Q := by
  intro c r m _ hs
  rw [serve16_idle hb ho hs]
  exact h r

/-- A program of such operations ends on the same board. -/
theorem wp_idles {p : Driver β α} (hb : b.Short) (hp : p.Only Op.Idle) :
    Wp (Board.serve16 view) allowed p b fun _ m => m = b := by
  induction p with
  | ret a => rfl
  | call o k ih => exact wp_idle hb hp.1 fun r => ih r (hp.2 r)

end Rules

/-! ## What the calls do to the offsets -/

section Calls

variable {view : ℕ → UInt8 → β} {allowed : Choice β → Prop} {cfg : Config} {b : Board}

/-- The offsets have 16 bits, and are equal if the call that returns `ret` succeeds. -/
def Synced (ret : ℤ) (b : Board) : Prop := b.Short ∧ (0 ≤ ret → b.rd = b.wr)

theorem synced_error {e : Errno} (hb : b.Short) : Synced e.val b := by
  have hneg := e.neg
  refine ⟨hb, ?_⟩
  intro hret
  omega

/-- One SET message to `p` after the other offset has got there. -/
theorem synced_setOff {dir : Dir} {p ret : ℤ} (hb : b.Short)
    (hother : ∀ d, d ≠ dir → b.off d = toU16 p) : Synced ret (b.setOff dir (toU16 p)) := by
  refine ⟨hb.setOff dir (toU16_lt p), fun _ => ?_⟩
  cases dir with
  | eRead => exact (hother .eWrite nofun).symm
  | eWrite => exact hother .eRead nofun

/-- The packet loop keeps the write offset at the position that has been reached. -/
theorem wp_writeLoop {buf : List UInt8} {bound wrote : ℕ} {off : ℤ} (hb : b.Short)
    (hwr : b.wr = toU16 (off + wrote)) :
    Wp (Board.serve16 view) allowed (writeLoop cfg buf bound wrote) b fun r m =>
      m.Short ∧ ∀ n, r = .ok n → m.wr = toU16 (off + n) := by
  have hdone {m : Board} (hm : m.Short) {wrote : ℕ} (h : m.wr = toU16 (off + wrote)) :
      m.Short ∧ ∀ n, (Except.ok wrote : Except Errno ℕ) = .ok n → m.wr = toU16 (off + n) := by
    refine ⟨hm, ?_⟩
    rintro n ⟨rfl⟩
    exact h
  induction bound generalizing wrote b with
  | zero =>
      unfold writeLoop
      split
      · exact fun _ r => r.elim
      · exact hdone hb hwr
  | succ bound ih =>
      unfold writeLoop
      split
      · refine wp_idle hb trivial ?_
        intro faults
        cases faults with
        | true => exact ⟨hb, by simp⟩
        | false =>
            refine wp_interruptOut hb ?_ ?_
            · intro e
              exact wp_idle hb trivial fun _ => ⟨hb, by simp⟩
            · intro n mem
              refine ih ⟨hb.rd, Nat.mod_lt _ (by decide)⟩ ?_
              show (b.wr + n.1) % 2 ^ 16 = _
              rw [hwr]
              unfold toU16
              omega
      · exact hdone hb hwr

theorem wp_ddkWrite {buf : List UInt8} {bound : ℕ} {off : ℤ} (hb : b.Short) :
    Wp (Board.serve16 view) allowed (ddkWrite cfg bound buf off) b fun r m => Synced r.ret m := by
  refine wp_setOff hb (fun e => synced_error hb) ?_
  have hset := hb.setOff .eWrite (toU16_lt off)
  have hstart : (b.setOff .eWrite (toU16 off)).wr = toU16 (off + (0 : ℕ)) := by
    rw [Int.natCast_zero, Int.add_zero]
    rfl
  refine wp_seq (wp_writeLoop hset hstart) ?_
  rintro r m ⟨hm, hwr⟩
  cases r with
  | error e => exact synced_error hm
  | ok n =>
      refine wp_idle hm trivial fun _ => wp_setOff hm (fun e => synced_error hm) ?_
      refine synced_setOff hm ?_
      intro d hd
      cases d with
      | eRead => exact absurd rfl hd
      | eWrite => exact hwr n rfl

theorem wp_fetch {file : File β} {off : ℤ} (hb : b.Short) (heq : b.rd = b.wr) :
    Wp (Board.serve16 view) allowed (fetch cfg file off) b fun r m =>
      m.Short ∧ ∀ n, r.1 = .ok n → m.rd = m.wr := by
  unfold fetch
  split
  · exact ⟨hb, fun _ _ => heq⟩
  · refine wp_setOff hb (fun e => ⟨hb, nofun⟩) ?_
    have hset := hb.setOff .eRead (toU16_lt off)
    refine wp_interruptIn hset (fun e => ⟨hset, nofun⟩) ?_
    intro packet
    have hmoved : (Board.mk ((toU16 off + packet.1.length) % 2 ^ 16) b.wr b.size b.mem).Short :=
      ⟨Nat.mod_lt _ (by decide), hb.wr⟩
    refine wp_setOff hmoved (fun e => ⟨hmoved, nofun⟩) ?_
    refine ⟨hmoved.setOff .eWrite (toU16_lt _), fun _ _ => ?_⟩
    show (toU16 off + packet.1.length) % 2 ^ 16 = toU16 (off + packet.1.length)
    unfold toU16
    omega

theorem wp_ddkRead {file : File β} {cnt : ℕ} {off : ℤ} (hb : b.Short) (heq : b.rd = b.wr) :
    Wp (Board.serve16 view) allowed (ddkRead cfg file cnt off) b fun r m => Synced r.ret m := by
  refine wp_seq (wp_fetch hb heq) ?_
  rintro ⟨r, file⟩ m ⟨hm, hrd⟩
  cases r with
  | error e => exact synced_error hm
  | ok readSize =>
      refine wp_idle hm trivial ?_
      intro faults
      cases faults with
      | true => exact synced_error (e := EFAULT) hm
      | false => exact ⟨hm, fun _ => hrd readSize rfl⟩

theorem idle_getSize : (getSize : Driver β ℤ).Only Op.Idle := by
  refine ⟨trivial, fun stack => ⟨trivial, fun r => ?_⟩⟩
  cases r <;> trivial

theorem idle_getOff (dir : Dir) : (getOff dir : Driver β ℤ).Only Op.Idle := by
  refine ⟨trivial, fun stack => ⟨trivial, fun r => ?_⟩⟩
  cases r <;> trivial

theorem idle_seekTarget (size offset : ℤ) (whence : Whence) :
    (seekTarget size offset whence : Driver β _).Only Op.Idle := by
  cases whence with
  | seekCur =>
      refine Prog.only_bind (idle_getOff .eRead) ?_
      intro cur
      split <;> trivial
  | _ => trivial

theorem wp_ddkLlseek {offset : ℤ} {whence : Whence} (hb : b.Short) (heq : b.rd = b.wr) :
    Wp (Board.serve16 view) allowed (ddkLlseek offset whence) b fun r m => Synced r.1 m := by
  refine wp_seq (wp_idles hb idle_getSize) ?_
  rintro size m rfl
  split
  · exact ⟨hb, fun _ => heq⟩
  · refine wp_seq (wp_idles hb (idle_seekTarget size offset whence)) ?_
    rintro r m rfl
    cases r with
    | error e => exact ⟨hb, fun _ => heq⟩
    | ok offset =>
        refine wp_setOff hb (fun e => synced_error hb) ?_
        have hset := hb.setOff .eRead (toU16_lt (clamp size offset))
        refine wp_setOff hset (fun e => synced_error hset) (synced_setOff hset ?_)
        intro d hd
        cases d with
        | eRead => rfl
        | eWrite => exact absurd rfl hd

end Calls

/-! ## One file in use -/

/-- What a call returns, and the bytes that a `ddk_read` hands over. -/
structure Reply (β : Type) where
  ret : ℤ
  data : List β

/-- A file that nobody else uses, and its board. -/
structure Use (β : Type) where
  board : Board
  file : File β
  fPos : ℤ

namespace Use

variable (view : ℕ → UInt8 → β) (cfg : Config) (s : Use β)

/-- `*off` as a call gets it. -/
def off (pos : Option ℤ) : ℤ := pos.getD s.fPos

/-- `f_pos` after a transfer that returns `ret` with `off` in `*off`. -/
def moved (pos : Option ℤ) (ret off : ℤ) : ℤ := if pos.isNone ∧ 0 ≤ ret then off else s.fPos

/-- The program of a call, with the reply, the file and `f_pos` after it. -/
def prog : FileCall → Driver β (Reply β × File β × ℤ)
  | .read cnt pos => do
      let r ← ddkRead cfg s.file cnt (s.off pos)
      return (⟨r.ret, r.data⟩, r.file, s.moved pos r.ret r.off)
  | .write bound buf pos => do
      let r ← ddkWrite cfg bound buf (s.off pos)
      return (⟨r.ret, []⟩, s.file, s.moved pos r.ret r.off)
  | .llseek offset whence => do
      let r ← ddkLlseek offset whence
      return (⟨r.1, []⟩, s.file, r.2.getD s.fPos)

/-- A call, its operations answered under the given choices. -/
def exec (a : FileCall × List (Choice β)) :
    Option ((Reply β × File β × ℤ) × Board × List (BoardEntry β)) :=
  Interact.exec (Board.serve16 view) (s.prog cfg a.1) s.board a.2

/-- The file at the end of an execution. -/
def ended (x : (Reply β × File β × ℤ) × Board × List (BoardEntry β)) : Use β :=
  ⟨x.2.1, x.1.2.1, x.1.2.2⟩

/-- The file after a call, whatever the call returns. -/
def step (a : FileCall × List (Choice β)) : Option (Use β) := (s.exec view cfg a).map ended

/-- The call returns no error. -/
def Succeeds (a : FileCall × List (Choice β)) : Prop := ∀ x ∈ s.exec view cfg a, 0 ≤ x.1.1.ret

end Use

section Runs

variable {view : ℕ → UInt8 → β} {allowed : Choice β → Prop} {cfg : Config} {s s' : Use β}
  {as : List (FileCall × List (Choice β))}

theorem wp_prog (call : FileCall) (hb : s.board.Short) (heq : s.board.rd = s.board.wr) :
    Wp (Board.serve16 view) allowed (s.prog cfg call) s.board fun x m => Synced x.1.ret m := by
  cases call with
  | read cnt pos => exact wp_seq (wp_ddkRead hb heq) fun r m hr => hr
  | write bound buf pos => exact wp_seq (wp_ddkWrite hb) fun r m hr => hr
  | llseek offset whence => exact wp_seq (wp_ddkLlseek hb heq) fun r m hr => hr

/-- A successful call on a file whose offsets are equal leaves them equal. -/
theorem step_synced {a : FileCall × List (Choice β)} (hb : s.board.Short)
    (heq : s.board.rd = s.board.wr) (hok : s.Succeeds view cfg a)
    (h : Use.step view cfg s a = some s') : s'.board.Short ∧ s'.board.rd = s'.board.wr := by
  rcases Option.map_eq_some_iff.mp h with ⟨⟨x, m, l⟩, he, rfl⟩
  have hwp : Wp (Board.serve16 view) (fun _ => True) (s.prog cfg a.1) s.board
      fun x m => Synced x.1.ret m := wp_prog a.1 hb heq
  have hsync := wp_exec hwp (fun _ _ => trivial) he
  exact ⟨hsync.1, hsync.2 (hok _ he)⟩

/-- A SET message that succeeds, in the kernel. -/
theorem serve_set {k k' : Kernel} {dir : Dir} {v : ℕ} {c : Choice β} {u : Unit}
    (h : k.serve view (.setMemOffset dir v) c = some (.ok u, k')) :
    k'.board = k.board.setOff dir v := by
  rcases Option.map_eq_some_iff.mp h with ⟨⟨r, m⟩, hs, heq⟩
  rcases Prod.mk.inj heq with ⟨rfl, rfl⟩
  simp only [Board.serve] at hs
  split at hs <;> cases hs
  rfl

/-- Both offsets of the board are zero after a successful `ddk_open`. -/
theorem wp_ddkOpen (k : Kernel) :
    Wp (Kernel.serve view) (fun _ => True) (ddkOpen cfg) k fun r k' =>
      ∀ file, r = .ok file → k'.board.rd = 0 ∧ k'.board.wr = 0 := by
  intro _ found k₁ _ _
  cases found with
  | false => exact nofun
  | true =>
      intro _ present k₂ _ _
      cases present with
      | false => exact nofun
      | true =>
          intro _ _ k₃ _ _
          show Wp _ _ (ite _ _ _) _ _
          split
          · exact fun _ _ _ _ _ => nofun
          · intro _ inBuf k₄ _ _
            cases inBuf with
            | none => exact nofun
            | some inBuf =>
                intro _ _ k₅ _ _ _ rd k₆ _ hrd
                cases rd with
                | error e => exact nofun
                | ok _ =>
                    intro _ wr k₇ _ hwr
                    cases wr with
                    | error e => exact nofun
                    | ok _ =>
                        intro _ _ k₈ _ hinc file _
                        cases hinc
                        show k₇.board.rd = 0 ∧ k₇.board.wr = 0
                        rw [serve_set hwr, serve_set hrd]
                        exact ⟨rfl, rfl⟩

/-- The file of a successful `ddk_open`, in a kernel `k'`. -/
def opened (k' : Kernel) (file : File β) : Use β := ⟨k'.board, file, 0⟩

theorem opened_offsets {k k' : Kernel} {cs : List (Choice β)} {file : File β}
    {l : List (Entry (Op β) Kernel (Choice β))}
    (h : exec (Kernel.serve view) (ddkOpen cfg) k cs = some (.ok file, k', l)) :
    (opened k' file).board.Short ∧ (opened k' file).board.rd = (opened k' file).board.wr := by
  rcases wp_exec (wp_ddkOpen k) (fun _ _ => trivial) h file rfl with ⟨hrd, hwr⟩
  refine ⟨⟨?_, ?_⟩, hrd.trans hwr.symm⟩
  · show k'.board.rd < 2 ^ 16
    omega
  · show k'.board.wr < 2 ^ 16
    omega

/-- After a successful `ddk_open` and any successful `ddk_read`, `ddk_write` and
`ddk_llseek` calls, with any lengths, positions and packets, the read offset and the
write offset of the board are equal. -/
theorem offsets_in_step {k k' : Kernel} {cs : List (Choice β)} {file : File β}
    {l : List (Entry (Op β) Kernel (Choice β))}
    (hopen : exec (Kernel.serve view) (ddkOpen cfg) k cs = some (.ok file, k', l))
    (hok : Lts.Along (Use.step view cfg) (Use.Succeeds view cfg) (opened k' file) as)
    (hrun : Lts.run (Use.step view cfg) (opened k' file) as = some s) :
    s.board.rd = s.board.wr := by
  have hkeep : ∀ (t : Use β) a t', (t.board.Short ∧ t.board.rd = t.board.wr) →
      t.Succeeds view cfg a → Use.step view cfg t a = some t' →
      t'.board.Short ∧ t'.board.rd = t'.board.wr := by
    rintro t a t' ⟨hb, heq⟩ hs h
    exact step_synced hb heq hs h
  exact (Lts.run_invariant_along hkeep (opened_offsets hopen) hok hrun).2

end Runs

/-! ## A run near the end of the 16 bits -/

/-- A seek to the end of a small memory, a write of three bytes in two packets, a read
of one byte of a packet of four at 65534, and the three parked bytes at `f_pos`. -/
def aroundTheEnd : List (FileCall × List (Choice UInt8)) :=
  [(.llseek 0 .seekEnd, [.ok 0, .ok 2, .ok 0, .ok 0]),
    (.write 4 [1, 2, 3] none, [.ok 0, .ok 0, .ok 2, .ok 0, .ok 1, .ok 0, .ok 0]),
    (.read 1 (some 65534), [.ok 0, .ok 4, .ok 0, .ok 0]), (.read 8 none, [.ok 0])]

instance (view : ℕ → UInt8 → β) (cfg : Config) (s : Use β) (a : FileCall × List (Choice β)) :
    Decidable (s.Succeeds view cfg a) :=
  inferInstanceAs (Decidable (∀ x ∈ s.exec view cfg a, 0 ≤ x.1.1.ret))

/-- A kernel with a board of 40 bytes, whose offsets are anywhere. -/
def smallKernel : Kernel := { upKernel with board := ⟨7, 9, 40, fun _ => 0⟩ }

/-- What a `ddk_open` makes of it. -/
def smallOpen : Option (Except Errno (File UInt8) × Kernel ×
    List (Entry (Op UInt8) Kernel (Choice UInt8))) :=
  exec (Kernel.serve fun _ byte => byte) (ddkOpen ⟨8, 8⟩) smallKernel
    [.ok 0, .ok 0, .ok 0, heap8, .ok 0, .ok 0, .ok 0, .ok 0]

/-- The file that it opens. -/
def smallUse : Use UInt8 := ⟨⟨0, 0, 40, fun _ => 0⟩, ⟨List.replicate 8 0, 0⟩, 0⟩

theorem smallOpen_eq : ∃ k' l, smallOpen = some (.ok smallUse.file, k', l) ∧
    opened k' smallUse.file = smallUse :=
  ⟨_, _, rfl, rfl⟩

theorem offsets_in_step_aroundTheEnd : ∃ s,
    Lts.run (Use.step (fun _ byte => byte) ⟨8, 8⟩) smallUse aroundTheEnd = some s ∧
      s.board.rd = s.board.wr := by
  obtain ⟨k', l, hopen, hstart⟩ := smallOpen_eq
  obtain ⟨s, hs⟩ := Option.isSome_iff_exists.mp (show (Lts.run
    (Use.step (fun _ byte => byte) ⟨8, 8⟩) smallUse aroundTheEnd).isSome = true by decide)
  refine ⟨s, hs, ?_⟩
  have hok : Lts.Along (Use.step (fun _ byte => byte) ⟨8, 8⟩)
      (Use.Succeeds (fun _ byte => byte) ⟨8, 8⟩) smallUse aroundTheEnd := by decide
  rw [← hstart] at hs hok
  exact offsets_in_step hopen hok hs

end DdkMem
