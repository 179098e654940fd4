import DriversLab.DdkMem.Firmware
import DriversLab.DdkMem.Serial
import DriversLab.DdkMem.Stream
import Mathlib.Logic.Function.Basic

/-!
# DdkMem.Extended — the variant of the driver in `ddk_mem_extended.c`

In this variant two globals of the module, `read_off` and `write_off`, say where a
transfer starts; `DDK_RD_OFF_SET` and `DDK_WR_OFF_SET` set them, and the position of
the file decides nothing but what the other offset of the board is left at.

1. **The file operations** that differ from those of `ddk_mem.c`. The packet loop is
   the same up to its error hook, and `packetLoop` has the hook as a parameter.
2. **The module**: any number of files, opened and closed, on one board.
3. **Positions**: `positioned`, where the bytes of every call of every run go to or
   come from.

Not here: the two LED commands of `ddk_ioctl`, which touch neither memory nor offsets.
-/

namespace DdkMem

open CInt Interact

variable {β : Type}

/-! ## The packet loop -/

/-- The `while` loop of `ddk_write`, with what is done when a packet fails. -/
def packetLoop (onFail : Driver β Unit) (cfg : Config) (buf : List UInt8) :
    ℕ → ℕ → Driver β (Except Errno ℕ)
  | bound, wroteCnt =>
      if wroteCnt < buf.length then
        match bound with
        | 0 => do nomatch ← perform .runsOn
        | bound + 1 => do
            let writeSize := min cfg.outBufSize (buf.length - wroteCnt)
            if ← perform (.copyFromUser writeSize) then
              return .error EFAULT
            else
              match ← perform (.interruptOut ((buf.drop wroteCnt).take writeSize)) with
              | .error e =>
                  let _ ← onFail
                  return .error e
              | .ok wroteSize => packetLoop onFail cfg buf bound (wroteCnt + wroteSize)
      else
        return .ok wroteCnt

/-- The loop of `ddk_mem.c` is the one with `ddk_ext_on_write_fail`. -/
theorem writeLoop_eq (cfg : Config) (buf : List UInt8) (bound wroteCnt : ℕ) :
    (writeLoop cfg buf bound wroteCnt : Driver β _) =
      packetLoop (perform .ddkExtOnWriteFail) cfg buf bound wroteCnt := by
  induction bound generalizing wroteCnt with
  | zero =>
      unfold writeLoop packetLoop
      rfl
  | succ bound ih =>
      unfold writeLoop packetLoop
      simp only [ih]
      try rfl

namespace Extended

/-! ## The globals -/

/-- `read_off` and `write_off`. -/
structure Offs where
  readOff : ℤ
  writeOff : ℤ
deriving DecidableEq, Repr

/-- The global of a direction. -/
def Offs.at (offs : Offs) : Dir → ℤ
  | .eRead => offs.readOff
  | .eWrite => offs.writeOff

def Offs.set (offs : Offs) (dir : Dir) (v : ℤ) : Offs :=
  match dir with
  | .eRead => { offs with readOff := v }
  | .eWrite => { offs with writeOff := v }

/-! ## The file operations -/

/-- A `char` that the reply overwrites, if it has a byte; `heap` is what `kmalloc`
left there. -/
def charOf (reply : List UInt8) (heap : UInt8) : ℤ :=
  ((reply[0]?.getD heap).toNat + 2 ^ 7) % 2 ^ 8 - 2 ^ 7

/-- `get_off` asks for one byte. -/
def getOff (dir : Dir) : Driver β ℤ := do
  let heap ← perform .stackShort
  match ← perform (.getMemOffset dir) with
  | .error e => return e.val
  | .ok reply => return charOf reply heap.1

/-- `ddk_write`. -/
def ddkWrite (cfg : Config) (offs : Offs) (bound : ℕ) (buf : List UInt8) (off : ℤ) :
    Driver β Transfer := do
  match ← setOff .eWrite offs.writeOff with
  | .error e => return ⟨e.val, off⟩
  | .ok _ =>
      match ← packetLoop (pure ()) cfg buf bound 0 with
      | .error e => return ⟨e.val, off⟩
      | .ok wroteCnt =>
          -- the read offset follows the position of the file
          match ← setOff .eRead (off + wroteCnt) with
          | .error e => return ⟨e.val, off + wroteCnt⟩
          | .ok _ => return ⟨wroteCnt, off + wroteCnt⟩

/-- The first half of `ddk_read`. -/
def fetch (cfg : Config) (offs : Offs) (file : File β) (off : ℤ) :
    Driver β (Except Errno ℕ × File β) := do
  if file.inBufLeftOver ≠ 0 then
    return (.ok file.inBufLeftOver, { file with inBufLeftOver := 0 })
  else
    match ← setOff .eRead offs.readOff with
    | .error e => return (.error e, file)
    | .ok _ =>
        match ← perform (.interruptIn cfg.inBufSize) with
        | .error e => return (.error e, file)
        | .ok packet =>
            let file := { file with inBuf := packet ++ file.inBuf.drop packet.1.length }
            match ← setOff .eWrite (off + packet.1.length) with
            | .error e => return (.error e, file)
            | .ok _ => return (.ok packet.1.length, file)

/-- `ddk_read`. -/
def ddkRead (cfg : Config) (offs : Offs) (file : File β) (cnt : ℕ) (off : ℤ) :
    Driver β (ReadResult β) := do
  match ← fetch cfg offs file off with
  | (.error e, file) => return ⟨e.val, off, file, []⟩
  | (.ok readSize, file) => deliver cnt off readSize file

/-- The `switch` of `ddk_llseek`. -/
def seekTarget (size offset : ℤ) : Whence → Driver β (Except ℤ ℤ)
  | .seekSet => return .ok offset
  | .seekCur => do
      let cur ← getOff .eRead
      if cur < 0 then return .error cur else return .ok (toLong (offset + cur))
  | .seekEnd => return .ok (toLong (offset + size))
  | .other => return .error EINVAL.val

/-- `ddk_llseek`: the globals stay as they are. -/
def ddkLlseek (offset : ℤ) (whence : Whence) : Driver β (ℤ × Option ℤ) := do
  let size ← getSize
  if size < 0 then
    return (size, none)
  else
    match ← seekTarget size offset whence with
    | .error e => return (e, none)
    | .ok offset =>
        match ← setOff .eRead (clamp size offset) with
        | .error e => return (e.val, none)
        | .ok _ =>
            match ← setOff .eWrite (clamp size offset) with
            | .error e => return (e.val, none)
            | .ok _ => return (clamp size offset, some (clamp size offset))

/-- The globals after `ddk_ioctl`; they are set before the message is sent. -/
def Offs.ioctl (offs : Offs) (arg : ℤ) : IoctlCmd → Offs
  | .wrOffSet => offs.set .eWrite (toInt arg)
  | .rdOffSet => offs.set .eRead (toInt arg)
  | _ => offs

/-- `ddk_ioctl`, but for `DDK_LED_GET` and `DDK_LED_SET`: they send a message of their own,
which has nothing to do with the memory. -/
def ddkIoctl (cmd : IoctlCmd) (arg : ℤ) : Driver β ℤ :=
  match cmd with
  | .wrOffSet => ioctlSet .eWrite arg
  | .rdOffSet => ioctlSet .eRead arg
  | .rdOffGet => ioctlGet (getOff .eRead)
  | .wrOffGet => ioctlGet (getOff .eWrite)
  | .memSizeGet => ioctlGet getSize
  | .other => return EINVAL.val

/-! ## The module -/

/-- A file descriptor that is open. -/
structure Handle (β : Type) where
  file : File β
  fPos : ℤ

/-- The calls on a descriptor; a `pread` or a `pwrite` brings its position. -/
inductive Act where
  | open
  | close
  | read (cnt : ℕ) (pos : Option ℤ)
  | write (bound : ℕ) (buf : List UInt8) (pos : Option ℤ)
  | llseek (offset : ℤ) (whence : Whence)
  | ioctl (cmd : IoctlCmd) (arg : ℤ)
deriving DecidableEq, Repr

namespace Handle

variable (f : Handle β)

/-- `*off` as a call gets it. -/
def off (pos : Option ℤ) : ℤ := pos.getD f.fPos

/-- `f_pos` after a transfer that returns `ret` with `off` in `*off`. -/
def moved (pos : Option ℤ) (ret off : ℤ) : ℤ := if pos.isNone ∧ 0 ≤ ret then off else f.fPos

end Handle

/-- The kernel with the module loaded, its globals, and the open descriptors. -/
structure Sys (β : Type) where
  kernel : Kernel
  offs : Offs
  fds : ℕ → Option (Handle β)

/-- The module as it is loaded. -/
def loaded (k : Kernel) : Sys β := ⟨k, ⟨0, 0⟩, fun _ => none⟩

/-- The globals after a call. -/
def Offs.after (offs : Offs) : Act → Offs
  | .ioctl cmd arg => offs.ioctl arg cmd
  | _ => offs

/-- The program of a call, with the reply and the descriptor after it. -/
def prog (cfg : Config) (offs : Offs) : Act → Option (Handle β) →
    Option (Driver β (Reply β × Option (Handle β)))
  | .open, none => some do
      match ← ddkOpen cfg with
      | .error e => return (⟨e.val, []⟩, none)
      | .ok file => return (⟨0, []⟩, some ⟨file, 0⟩)
  | .close, some _ => some do
      let ret ← ddkClose
      return (⟨ret, []⟩, none)
  | .read cnt pos, some f => some do
      let r ← ddkRead cfg offs f.file cnt (f.off pos)
      return (⟨r.ret, r.data⟩, some ⟨r.file, f.moved pos r.ret r.off⟩)
  | .write bound buf pos, some f => some do
      let r ← ddkWrite cfg offs bound buf (f.off pos)
      return (⟨r.ret, []⟩, some ⟨f.file, f.moved pos r.ret r.off⟩)
  | .llseek offset whence, some f => some do
      let r ← ddkLlseek offset whence
      return (⟨r.1, []⟩, some ⟨f.file, r.2.getD f.fPos⟩)
  | .ioctl cmd arg, some f => some do
      let ret ← ddkIoctl cmd arg
      return (⟨ret, []⟩, some f)
  | _, _ => none

/-- A call on the descriptor `fd`, its operations answered under the given choices. -/
structure Invocation (β : Type) where
  fd : ℕ
  act : Act
  choices : List (Choice β)

namespace Sys

variable (view : ℕ → UInt8 → β) (cfg : Config) (s : Sys β)

/-- The execution of a call. -/
def exec (a : Invocation β) :
    Option ((Reply β × Option (Handle β)) × Kernel × List (Entry (Op β) Kernel (Choice β))) :=
  (prog cfg s.offs a.act (s.fds a.fd)).bind fun p =>
    Interact.exec (Kernel.serve view) p s.kernel a.choices

/-- The module after it. -/
def step (a : Invocation β) : Option (Sys β) :=
  (s.exec view cfg a).map fun x =>
    ⟨x.2.1, s.offs.after a.act, Function.update s.fds a.fd x.1.2⟩

end Sys

/-- The position that a call sets for a direction. -/
def Act.sets (dir : Dir) : Act → Option ℤ
  | .ioctl .wrOffSet arg => if dir = .eWrite then some (toInt arg) else none
  | .ioctl .rdOffSet arg => if dir = .eRead then some (toInt arg) else none
  | _ => none

/-- The position that the last call to set one has set, on whatever descriptor. -/
def lastSet (dir : Dir) (as : List (Invocation β)) : ℤ :=
  as.foldl (fun v a => (a.act.sets dir).getD v) 0

/-- What a call on the descriptor `f` does to the memory, and what it hands over: a write
stores the bytes it accepts at the write position, a read that fetches a packet hands
over the bytes at the read position, and no other call touches the memory. -/
def Does (view : ℕ → UInt8 → β) (offs : Offs) (f : Option (Handle β)) (act : Act)
    (reply : Reply β) (mem mem' : ℕ → UInt8) : Prop :=
  match act with
  | .write _ buf _ =>
      ∃ n ≤ buf.length, mem' = Board.store mem (toU16 offs.writeOff) (buf.take n) ∧
        (0 ≤ reply.ret → reply.ret = n ∧ n = buf.length)
  | .read cnt _ =>
      mem' = mem ∧ ∀ g, f = some g → g.file.inBufLeftOver = 0 → 0 ≤ reply.ret →
        ∃ n ≤ cnt, reply.ret = n ∧ reply.data = segment view mem (toU16 offs.readOff) n
  | _ => mem' = mem

end Extended

/-! ## Rules for the kernel -/

/-- The operations that leave the record of the board as it is. -/
def Op.Quiet : Op β → Prop
  | .setMemOffset _ _ | .interruptIn _ | .interruptOut _ => False
  | _ => True

/-- The operations that leave its memory as it is. -/
def Op.KeepsMem : Op β → Prop
  | .interruptOut _ => False
  | _ => True

section Rules

variable {view : ℕ → UInt8 → β} {allowed : Choice β → Prop} {α : Type} {k k' : Kernel}
  {Q : α → Kernel → Prop} {mem : ℕ → UInt8}

theorem onBoard_eq_some {o : Op β} {c : Choice β} {r : Ans β o} :
    k.onBoard view o c = some (r, k') ↔
      ∃ b, Board.serve view k.board o c = some (r, b) ∧ k' = { k with board := b } := by
  unfold Kernel.onBoard
  rw [Option.map_eq_some_iff]
  constructor
  · rintro ⟨⟨r', b⟩, hs, heq⟩
    rcases Prod.mk.inj heq with ⟨rfl, rfl⟩
    exact ⟨b, hs, rfl⟩
  · rintro ⟨b, hs, rfl⟩
    exact ⟨(r, b), hs, rfl⟩

theorem serve_quiet {o : Op β} {c : Choice β} {r : Ans β o}
    (hs : Kernel.serve view k o c = some (r, k')) (ho : o.Quiet) : k'.board = k.board := by
  have hidle (hi : o.Idle) (hb : k.onBoard view o c = some (r, k')) : k'.board = k.board := by
    rcases onBoard_eq_some.mp hb with ⟨b, hserve, rfl⟩
    exact serve_idle hi hserve
  cases o with
  | setMemOffset dir v => exact ho.elim
  | interruptIn len => exact ho.elim
  | interruptOut data => exact ho.elim
  | getMemOffset dir => exact hidle trivial hs
  | getMemSize => exact hidle trivial hs
  | stackShort => exact hidle trivial hs
  | copyFromUser len => exact hidle trivial hs
  | copyToUser data => exact hidle trivial hs
  | copyIntToUser val => exact hidle trivial hs
  | mutexLock =>
      simp only [Kernel.serve] at hs
      split at hs <;> cases hs
      rfl
  | mutexUnlock =>
      simp only [Kernel.serve] at hs
      split at hs <;> cases hs
      rfl
  | kmallocFile inBufSize =>
      simp only [Kernel.serve] at hs
      split at hs
      · cases hs
        rfl
      · split at hs <;> cases hs
        rfl
  | kzallocDevice =>
      simp only [Kernel.serve] at hs
      split at hs <;> cases hs <;> rfl
  | usbRegisterDev =>
      simp only [Kernel.serve] at hs
      split at hs <;> cases hs <;> rfl
  | runsOn => cases hs
  | _ =>
      cases hs
      rfl

/-- A SET message, as the kernel answers it. -/
theorem kernel_set {dir : Dir} {v : ℕ} {c : Choice β} {r : Ans β (.setMemOffset dir v)}
    (hs : Kernel.serve view k (.setMemOffset dir v) c = some (r, k')) :
    (∃ e, r = .error e ∧ k' = k) ∨
      (r = .ok () ∧ k' = { k with board := k.board.setOff dir v }) := by
  rcases onBoard_eq_some.mp hs with ⟨b, hserve, rfl⟩
  simp only [Board.serve] at hserve
  cases hf : c.fail with
  | some e =>
      rw [hf] at hserve
      cases hserve
      exact .inl ⟨e, rfl, rfl⟩
  | none =>
      rw [hf] at hserve
      cases hserve
      exact .inr ⟨rfl, rfl⟩

theorem serve_keepsMem {o : Op β} {c : Choice β} {r : Ans β o} (ho : o.KeepsMem)
    (hs : Kernel.serve view k o c = some (r, k')) : k'.board.mem = k.board.mem := by
  cases o with
  | interruptOut data => exact ho.elim
  | setMemOffset dir v =>
      rcases kernel_set hs with ⟨e, -, rfl⟩ | ⟨-, rfl⟩
      · rfl
      · cases dir <;> rfl
  | interruptIn len =>
      rcases onBoard_eq_some.mp hs with ⟨b, hserve, rfl⟩
      rw [(serve_in hserve b).1]
  | _ => rw [serve_quiet hs trivial]

/-- A program of such operations keeps the memory. -/
theorem wp_keepsMem {p : Driver β α} (hp : p.Only Op.KeepsMem) :
    Wp (Kernel.serve view) allowed p k fun _ m => m.board.mem = k.board.mem := by
  induction p generalizing k with
  | ret a => rfl
  | call o f ih =>
      intro c r m _ hs
      refine wp_mono ?_ (ih r (hp.2 r))
      intro a m' hm'
      exact hm'.trans (serve_keepsMem hp.1 hs)

theorem wp_query {p : Driver β α} (hp : p.Only Op.IsQuery) :
    Wp (Kernel.serve view) allowed p k fun _ m => m.board.mem = k.board.mem := by
  refine wp_keepsMem (Prog.only_mono ?_ hp)
  intro o ho
  cases o with
  | interruptOut data => exact ho
  | _ => trivial

theorem wp_quiet {o : Op β} {f : Ans β o → Driver β α} (ho : o.Quiet)
    (h : ∀ r m, m.board = k.board → Wp (Kernel.serve view) allowed (f r) m Q) :
    Wp (Kernel.serve view) allowed (.call o f) k Q := by
  intro c r m _ hs
  exact h r m (serve_quiet hs ho)

theorem wp_set {dir : Dir} {offset : ℤ} {f : Except Errno Unit → Driver β α}
    (herror : ∀ e, Wp (Kernel.serve view) allowed (f (.error e)) k Q)
    (hok : Wp (Kernel.serve view) allowed (f (.ok ()))
      { k with board := k.board.setOff dir (toU16 offset) } Q) :
    Wp (Kernel.serve view) allowed ((setOff dir offset).bind f) k Q := by
  intro c r m _ hs
  rcases kernel_set hs with ⟨e, rfl, rfl⟩ | ⟨rfl, rfl⟩
  · exact herror e
  · rw [toU16_toInt]
    exact hok

/-- An OUT packet fails, or stores the bytes it accepts. -/
theorem wp_out {data : List UInt8}
    {f : Except Errno { wrote : ℕ // wrote ≤ data.length } → Driver β α}
    (herror : ∀ e, Wp (Kernel.serve view) allowed (f (.error e)) k Q)
    (hok : ∀ wrote m, m.board = { k.board with
        wr := k.board.wr + wrote.1
        mem := Board.store k.board.mem k.board.wr (data.take wrote.1) } →
      Wp (Kernel.serve view) allowed (f (.ok wrote)) m Q) :
    Wp (Kernel.serve view) allowed (.call (.interruptOut data) f) k Q := by
  intro c r m _ hs
  rcases onBoard_eq_some.mp hs with ⟨b, hserve, rfl⟩
  simp only [Board.serve] at hserve
  cases hf : c.fail with
  | some e =>
      rw [hf] at hserve
      cases hserve
      exact herror e
  | none =>
      rw [hf] at hserve
      cases hserve
      refine hok ⟨min c.len data.length, Nat.min_le_right _ _⟩ _ ?_
      rw [← List.take_eq_take_min]

/-- An IN packet fails, or is what stands at the read offset. -/
theorem wp_in {len : ℕ}
    {f : Except Errno { packet : List β // packet.length ≤ len } → Driver β α}
    (herror : ∀ e, Wp (Kernel.serve view) allowed (f (.error e)) k Q)
    (hok : ∀ packet m, m.board.mem = k.board.mem →
      packet.1 = segment view k.board.mem k.board.rd packet.1.length →
      Wp (Kernel.serve view) allowed (f (.ok packet)) m Q) :
    Wp (Kernel.serve view) allowed (.call (.interruptIn len) f) k Q := by
  intro c r m _ hs
  rcases onBoard_eq_some.mp hs with ⟨b, hserve, rfl⟩
  simp only [Board.serve] at hserve
  cases hf : c.fail with
  | some e =>
      rw [hf] at hserve
      cases hserve
      exact herror e
  | none =>
      rw [hf] at hserve
      cases hserve
      refine hok _ _ rfl ?_
      show k.board.packet view _ = segment _ _ _ (k.board.packet view _).length
      rw [Board.packet_length, packet_eq_segment]

/-- Two stores, the second right behind the first. -/
theorem store_append (a : ℕ) (xs ys : List UInt8) :
    Board.store (Board.store mem a xs) (a + xs.length) ys = Board.store mem a (xs ++ ys) := by
  funext x
  by_cases hx : a ≤ x
  · by_cases hlt : x < a + xs.length
    · rw [store_of_notMem (by omega)]
      simp only [Board.store, if_pos hx]
      rw [List.getElem?_append_left (by omega)]
    · simp only [Board.store, if_pos hx, if_pos (show a + xs.length ≤ x by omega)]
      rw [List.getElem?_append_right (by omega), Nat.sub_sub,
        List.getElem?_eq_none (show xs.length ≤ x - a by omega), Option.getD_none]
  · rw [store_of_notMem (by omega), store_of_notMem (by omega), store_of_notMem (by omega)]

/-- The bytes of a buffer stored part by part. -/
theorem store_next (a : ℕ) {buf : List UInt8} {m n : ℕ} (hm : m ≤ buf.length) :
    Board.store (Board.store mem a (buf.take m)) (a + m) ((buf.drop m).take n) =
      Board.store mem a (buf.take (m + n)) := by
  have hlen : (buf.take m).length = m := by
    rw [List.length_take, Nat.min_eq_left hm]
  rw [List.take_add, ← store_append, hlen]

/-- The packet loop stores what it has sent, and has sent everything when it returns a
count. -/
theorem wp_packetLoop {onFail : Driver β Unit} {cfg : Config} {buf : List UInt8} {a : ℕ}
    (hfail : onFail.Only Op.KeepsMem) (bound : ℕ) {wrote : ℕ} (hle : wrote ≤ buf.length)
    (hwr : k.board.wr = a + wrote) (hmem : k.board.mem = Board.store mem a (buf.take wrote)) :
    Wp (Kernel.serve view) allowed (packetLoop onFail cfg buf bound wrote) k fun r m =>
      ∃ n ≤ buf.length, m.board.mem = Board.store mem a (buf.take n) ∧
        ∀ c, r = .ok c → c = n ∧ n = buf.length := by
  have hdone (m : Kernel) (e : Errno) {wrote : ℕ} (hle : wrote ≤ buf.length)
      (hm : m.board.mem = Board.store mem a (buf.take wrote)) :
      ∃ n ≤ buf.length, m.board.mem = Board.store mem a (buf.take n) ∧
        ∀ c, (Except.error e : Except Errno ℕ) = .ok c → c = n ∧ n = buf.length := by
    refine ⟨wrote, hle, hm, ?_⟩
    intro c hc
    cases hc
  induction bound generalizing wrote k with
  | zero =>
      unfold packetLoop
      split
      · exact fun _ r => r.elim
      · refine ⟨wrote, hle, hmem, ?_⟩
        rintro c ⟨rfl⟩
        exact ⟨rfl, by omega⟩
  | succ bound ih =>
      unfold packetLoop
      split
      · apply wp_quiet (by trivial)
        intro faults m hm
        cases faults with
        | true => exact hdone m EFAULT hle (by rw [hm, hmem])
        | false =>
            apply wp_out
            · -- the packet is refused, and so is the call
              intro e
              show Wp _ _ (onFail.bind fun _ => _) _ _
              refine wp_seq (wp_keepsMem hfail) ?_
              intro _ m' hm'
              exact hdone m' e hle (by rw [hm', hm, hmem])
            · intro sent m' hm'
              have hsent : sent.1 ≤ min (min cfg.outBufSize (buf.length - wrote))
                  (buf.length - wrote) := by
                simpa only [List.length_take, List.length_drop] using sent.2
              apply ih
              · omega
              · rw [hm', hm]
                show k.board.wr + sent.1 = _
                omega
              · rw [hm', hm]
                show Board.store k.board.mem k.board.wr _ = _
                rw [hwr, hmem, List.take_take, Nat.min_eq_left (by omega)]
                exact store_next a hle
      · refine ⟨wrote, hle, hmem, ?_⟩
        rintro c ⟨rfl⟩
        exact ⟨rfl, by omega⟩

end Rules

namespace Extended

/-! ## What the calls do -/

section Calls

variable {view : ℕ → UInt8 → β} {allowed : Choice β → Prop} {cfg : Config} {offs : Offs}
  {k : Kernel}

theorem wp_ddkWrite (bound : ℕ) (buf : List UInt8) (off : ℤ) :
    Wp (Kernel.serve view) allowed (ddkWrite cfg offs bound buf off) k fun r m =>
      ∃ n ≤ buf.length,
        m.board.mem = Board.store k.board.mem (toU16 offs.writeOff) (buf.take n) ∧
        (0 ≤ r.ret → r.ret = n ∧ n = buf.length) := by
  have hfailed (m : Kernel) (e : Errno) (p : ℤ) {n : ℕ} (hn : n ≤ buf.length)
      (hm : m.board.mem = Board.store k.board.mem (toU16 offs.writeOff) (buf.take n)) :
      ∃ n ≤ buf.length,
        m.board.mem = Board.store k.board.mem (toU16 offs.writeOff) (buf.take n) ∧
        (0 ≤ (Transfer.mk e.val p).ret → (Transfer.mk e.val p).ret = n ∧ n = buf.length) := by
    refine ⟨n, hn, hm, ?_⟩
    intro hret
    have hneg := e.neg
    have hret' : 0 ≤ e.val := hret
    omega
  apply wp_set
  · intro e
    exact hfailed k e off (Nat.zero_le _) (store_nil _ _).symm
  · have hpure : (pure () : Driver β Unit).Only Op.KeepsMem := trivial
    refine wp_seq (wp_packetLoop hpure bound (Nat.zero_le _) rfl (store_nil _ _).symm) ?_
    rintro r m ⟨n, hn, hm, hr⟩
    cases r with
    | error e => exact hfailed m e off hn hm
    | ok c =>
        obtain ⟨rfl, hall⟩ := hr c rfl
        apply wp_set
        · -- everything is stored, and the call fails
          intro e
          exact hfailed m e _ hn hm
        · exact ⟨c, hn, hm, fun _ => ⟨rfl, hall⟩⟩

/-- The fetch of a packet from the read position. -/
theorem wp_fetch {file : File β} (off : ℤ) (hfresh : file.inBufLeftOver = 0) :
    Wp (Kernel.serve view) allowed (fetch cfg offs file off) k fun r m =>
      m.board.mem = k.board.mem ∧
        ∀ n, r.1 = .ok n → n ≤ r.2.inBuf.length ∧
          r.2.inBuf.take n = segment view k.board.mem (toU16 offs.readOff) n := by
  unfold fetch
  rw [if_neg (by simpa using hfresh)]
  apply wp_set
  · exact fun e => ⟨rfl, fun n hn => by cases hn⟩
  · apply wp_in
    · exact fun e => ⟨rfl, fun n hn => by cases hn⟩
    · intro packet m hm hpacket
      apply wp_set
      · exact fun e => ⟨hm, fun n hn => by cases hn⟩
      · refine ⟨hm, ?_⟩
        rintro n ⟨rfl⟩
        constructor
        · rw [List.length_append]
          omega
        · rw [List.take_left]
          exact hpacket

theorem wp_deliver (cnt : ℕ) (off : ℤ) {n : ℕ} {file : File β} (hn : n ≤ file.inBuf.length) :
    Wp (Kernel.serve view) allowed (deliver cnt off n file) k fun r m =>
      m.board.mem = k.board.mem ∧ (0 ≤ r.ret → r.ret = (min n cnt : ℕ) ∧
        r.data = (file.inBuf.take n).take (min n cnt)) := by
  apply wp_quiet (by trivial)
  intro faults m hm
  cases faults with
  | true =>
      refine ⟨by rw [hm], ?_⟩
      intro hret
      exact absurd hret (show ¬ 0 ≤ EFAULT.val by decide)
  | false =>
      obtain ⟨hdata, -, hret, -⟩ := handOver_parts cnt off hn
      exact ⟨by rw [hm], fun _ => ⟨hret, hdata⟩⟩

theorem wp_ddkRead (file : File β) (cnt : ℕ) (off : ℤ) (hfresh : file.inBufLeftOver = 0) :
    Wp (Kernel.serve view) allowed (ddkRead cfg offs file cnt off) k fun r m =>
      m.board.mem = k.board.mem ∧ (0 ≤ r.ret → ∃ n ≤ cnt, r.ret = n ∧
        r.data = segment view k.board.mem (toU16 offs.readOff) n) := by
  refine wp_seq (wp_fetch off hfresh) ?_
  rintro ⟨r, file⟩ m ⟨hm, hr⟩
  cases r with
  | error e =>
      refine ⟨hm, ?_⟩
      intro hret
      have hneg := e.neg
      have hret' : 0 ≤ e.val := hret
      omega
  | ok n =>
      obtain ⟨hlen, hbytes⟩ := hr n rfl
      refine wp_mono ?_ (wp_deliver cnt off hlen)
      rintro r m' ⟨hm', hgiven⟩
      refine ⟨hm'.trans hm, ?_⟩
      intro hret
      obtain ⟨hcount, hdata⟩ := hgiven hret
      refine ⟨min n cnt, Nat.min_le_right _ _, hcount, ?_⟩
      rw [hdata, hbytes, segment_take (Nat.min_le_left _ _)]

end Calls

/-! The calls that send no OUT packet. -/

theorem keepsMem_ddkOpen (cfg : Config) : (ddkOpen cfg : Driver β _).Only Op.KeepsMem := by
  refine Prog.only_mono ?_ (only_ddkOpen cfg)
  intro o ho
  cases o <;> trivial

theorem query_fetch (cfg : Config) (offs : Offs) (file : File β) (off : ℤ) :
    (fetch cfg offs file off).Only Op.IsQuery := by
  unfold fetch
  split
  · trivial
  · refine ⟨trivial, ?_⟩
    intro r
    cases r with
    | error e => trivial
    | ok _ =>
        refine ⟨trivial, ?_⟩
        intro r
        cases r with
        | error e => trivial
        | ok packet =>
            refine ⟨trivial, ?_⟩
            intro r
            cases r <;> trivial

theorem query_ddkRead (cfg : Config) (offs : Offs) (file : File β) (cnt : ℕ) (off : ℤ) :
    (ddkRead cfg offs file cnt off).Only Op.IsQuery := by
  apply Prog.only_bind (query_fetch cfg offs file off)
  rintro ⟨r, file⟩
  cases r with
  | error e => trivial
  | ok readSize =>
      refine ⟨trivial, ?_⟩
      intro faults
      cases faults <;> trivial

theorem query_getOff (dir : Dir) : (getOff dir : Driver β ℤ).Only Op.IsQuery := by
  refine ⟨trivial, fun _ => ⟨trivial, fun r => ?_⟩⟩
  cases r <;> trivial

theorem query_seekTarget (size offset : ℤ) (whence : Whence) :
    (seekTarget size offset whence : Driver β _).Only Op.IsQuery := by
  cases whence with
  | seekCur =>
      apply Prog.only_bind (query_getOff .eRead)
      intro cur
      split <;> trivial
  | _ => trivial

theorem query_ddkLlseek (offset : ℤ) (whence : Whence) :
    (ddkLlseek offset whence : Driver β _).Only Op.IsQuery := by
  apply Prog.only_bind only_getSize
  intro size
  split
  · trivial
  · apply Prog.only_bind (query_seekTarget size offset whence)
    intro r
    cases r with
    | error e => trivial
    | ok offset =>
        refine ⟨trivial, ?_⟩
        intro r
        cases r with
        | error e => trivial
        | ok _ =>
            refine ⟨trivial, ?_⟩
            intro r
            cases r <;> trivial

theorem query_ddkIoctl (cmd : IoctlCmd) (arg : ℤ) :
    (ddkIoctl cmd arg : Driver β ℤ).Only Op.IsQuery := by
  cases cmd with
  | wrOffSet => exact only_ioctlSet .eWrite arg
  | rdOffSet => exact only_ioctlSet .eRead arg
  | rdOffGet => exact only_ioctlGet (query_getOff .eRead)
  | wrOffGet => exact only_ioctlGet (query_getOff .eWrite)
  | memSizeGet => exact only_ioctlGet only_getSize
  | other => trivial

/-! ## Runs -/

section Runs

variable {view : ℕ → UInt8 → β} {allowed : Choice β → Prop} {cfg : Config} {offs : Offs}
  {k : Kernel} {s s' : Sys β} {as : List (Invocation β)}

/-- What one call does. -/
theorem wp_prog {act : Act} {f : Option (Handle β)} {p : Driver β (Reply β × Option (Handle β))}
    (hp : prog cfg offs act f = some p) :
    Wp (Kernel.serve view) allowed p k fun x m =>
      Does view offs f act x.1 k.board.mem m.board.mem := by
  cases act with
  | read cnt pos =>
      cases f with
      | none => cases hp
      | some f =>
          cases hp
          by_cases hfresh : f.file.inBufLeftOver = 0
          · refine wp_seq (wp_ddkRead f.file cnt (f.off pos) hfresh) ?_
            rintro r m ⟨hm, hr⟩
            exact ⟨hm, fun _ _ _ => hr⟩
          · -- parked bytes: only the memory is spoken of
            refine wp_seq (wp_query (query_ddkRead cfg offs f.file cnt (f.off pos))) ?_
            intro r m hm
            refine ⟨hm, ?_⟩
            rintro g ⟨rfl⟩ hg
            exact absurd hg hfresh
  | write bound buf pos =>
      cases f with
      | none => cases hp
      | some f =>
          cases hp
          exact wp_seq (wp_ddkWrite bound buf (f.off pos)) fun r m hr => hr
  | «open» =>
      cases f with
      | some f => cases hp
      | none =>
          cases hp
          refine wp_seq (wp_keepsMem (keepsMem_ddkOpen cfg)) ?_
          intro r m hm
          cases r <;> exact hm
  | close =>
      cases f with
      | none => cases hp
      | some f =>
          cases hp
          have hclose : (ddkClose : Driver β ℤ).Only Op.KeepsMem :=
            ⟨trivial, fun _ => ⟨trivial, fun _ => trivial⟩⟩
          exact wp_seq (wp_keepsMem hclose) fun r m hm => hm
  | llseek offset whence =>
      cases f with
      | none => cases hp
      | some f =>
          cases hp
          exact wp_seq (wp_query (query_ddkLlseek offset whence)) fun r m hm => hm
  | ioctl cmd arg =>
      cases f with
      | none => cases hp
      | some f =>
          cases hp
          exact wp_seq (wp_query (query_ddkIoctl cmd arg)) fun r m hm => hm

theorem after_at (offs : Offs) (act : Act) (dir : Dir) :
    (offs.after act).at dir = (act.sets dir).getD (offs.at dir) := by
  cases act with
  | ioctl cmd arg => cases cmd <;> cases dir <;> rfl
  | _ => rfl

/-- The globals follow the calls that set them. -/
theorem run_at (hrun : Lts.run (Sys.step view cfg) s as = some s') (dir : Dir) :
    s'.offs.at dir = as.foldl (fun v a => (a.act.sets dir).getD v) (s.offs.at dir) := by
  induction as generalizing s with
  | nil =>
      cases hrun
      rfl
  | cons a as ih =>
      rcases Lts.run_cons.mp hrun with ⟨m, hstep, hrest⟩
      rcases Option.map_eq_some_iff.mp hstep with ⟨x, -, rfl⟩
      rw [ih hrest, List.foldl_cons, ← after_at]

end Runs

/-- One file sets the write position to 3, is closed, and a second one is opened and
seeks to 9. -/
def leftByTheFirst : List (Invocation UInt8) :=
  [⟨0, .open, [.ok 0, .ok 0, .ok 0, heap8, .ok 0, .ok 0, .ok 0, .ok 0]⟩,
    ⟨0, .ioctl .wrOffSet 3, [.ok 0]⟩, ⟨0, .close, [.ok 0, .ok 0]⟩,
    ⟨1, .open, [.ok 0, .ok 0, .ok 0, heap8, .ok 0, .ok 0, .ok 0, .ok 0]⟩,
    ⟨1, .llseek 9 .seekSet, [.ok 0, .ok 2, .ok 0, .ok 0]⟩]

/-- A write of two bytes in two packets by the second file. -/
def secondWrites : Invocation UInt8 :=
  ⟨1, .write 4 [7, 8] none, [.ok 0, .ok 0, .ok 1, .ok 0, .ok 1, .ok 0]⟩

end Extended

end DdkMem
