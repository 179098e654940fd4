import DriversLab.DdkMem.Coherence
import DriversLab.DdkMem.Kernel
import DriversLab.Lib.Table
import DriversLab.Lib.TwoRun

/-!
# DdkMem.Secrecy — memory that nobody has written

`ddk_open` does not clear `in_buf`, and `get_size` and `get_off` take a reply of any
length for a full one. A session is a list of calls, each with the environment that it
meets; two runs of a session differ in what `kmalloc` and the stack hold.

* `SamePrefix`, `Similar`: two files hold the same bytes as far as they have been filled;
* `related_ddkOpen`, `related_ddkRead`: opens and reads show the same in both runs;
* `perform_query`: what a GET ioctl shows, which after a short reply is the stack;
* `secrecy`: all runs of a session show the same exactly when no GET ioctl gets a short
  reply.
-/

namespace DdkMem

open CInt Interact

/-! ## Environments and what they leave to memory -/

/-- Every operation has an answer, except that of a loop which runs on. -/
def Op.Returns {β : Type} : Op β → Prop
  | .runsOn => False
  | _ => True

/-- The answers of an environment. Within one call no operation is performed twice. -/
abbrev Env := (o : Op UInt8) → o.Returns → Ans UInt8 o

/-- What memory holds that nobody has written. -/
structure Memory where
  heap : ℕ → UInt8
  stack : UInt8 × UInt8

/-- The environment with these contents of the stack, and of the memory that `kmalloc`
hands out if it does. -/
def Memory.fill (mem : Memory) (env : Env) : Env
  | .stackShort, _ => mem.stack
  | .kmallocFile inBufSize, h =>
      (env (.kmallocFile inBufSize) h).map fun _ =>
        ⟨(List.range inBufSize).map mem.heap, by simp⟩
  | o, h => env o h

/-- What `copy_to_user` is given. -/
inductive Copied where
  | bytes (data : List UInt8)
  | int (val : ℤ)
deriving DecidableEq, Repr

def copied : Op UInt8 → Option Copied
  | .copyToUser data => some (.bytes data)
  | .copyIntToUser val => some (.int val)
  | _ => none

section Returns

variable {β : Type}

theorem returns_of_isMessage (o : Op β) (h : o.IsMessage) : o.Returns := by
  cases o <;> trivial

theorem ddkOpen_returns (cfg : Config) : (ddkOpen cfg : Driver β _).Only Op.Returns := by
  refine Prog.only_mono ?_ (only_ddkOpen cfg)
  intro o h
  cases o <;> trivial

theorem ddkRead_returns (cfg : Config) (file : File β) (cnt : ℕ) (off : ℤ) :
    (ddkRead cfg file cnt off).Only Op.Returns :=
  Prog.only_mono (fun o ho => returns_of_isMessage o ho.message) (only_ddkRead cfg file cnt off)

theorem ddkIoctl_returns (cmd : IoctlCmd) (arg : ℤ) :
    (ddkIoctl cmd arg : Driver β ℤ).Only Op.Returns :=
  Prog.only_mono (fun o ho => returns_of_isMessage o ho.message) (only_ddkIoctl cmd arg)

end Returns

/-! ## Sessions -/

/-- The ioctls that report a number. -/
inductive Query where
  | rdOffGet
  | wrOffGet
  | memSizeGet
deriving DecidableEq, Repr

def Query.cmd : Query → IoctlCmd
  | .rdOffGet => .rdOffGet
  | .wrOffGet => .wrOffGet
  | .memSizeGet => .memSizeGet

def Query.get : Query → Driver UInt8 ℤ
  | .rdOffGet => getOff .eRead
  | .wrOffGet => getOff .eWrite
  | .memSizeGet => getSize

/-- The reply that the board gives to the message of the ioctl. -/
def Query.reply (env : Env) : Query → Except Errno { reply : List UInt8 // reply.length ≤ 2 }
  | .rdOffGet => env (.getMemOffset .eRead) trivial
  | .wrOffGet => env (.getMemOffset .eWrite) trivial
  | .memSizeGet => env .getMemSize trivial

/-- A call. Its file only leads an ioctl to the device. -/
inductive Request where
  | ddkOpen
  | ddkRead (f cnt : ℕ) (off : ℤ)
  | ddkIoctl (q : Query)
deriving DecidableEq, Repr

/-- What the user sees of a call: what it returns, the position that a read leaves, and
what has been copied. -/
structure Seen where
  ret : ℤ
  off : Option ℤ
  copies : List Copied
deriving DecidableEq, Repr

/-- One call, on the files that are open: what is seen of it, and the files after it.
There is no call on a file that is not open. -/
def Request.perform (cfg : Config) (env : Env) (files : List (File UInt8)) :
    Request → Option Seen × List (File UInt8)
  | .ddkOpen =>
      let copies := ((DdkMem.ddkOpen cfg).trace env (ddkOpen_returns cfg)).filterMap copied
      match (DdkMem.ddkOpen cfg).eval env (ddkOpen_returns cfg) with
      | .error e => (some ⟨e.val, none, copies⟩, files)
      | .ok file => (some ⟨0, none, copies⟩, files ++ [file])
  | .ddkRead f cnt off =>
      match files[f]? with
      | none => (none, files)
      | some file =>
          let h := ddkRead_returns cfg file cnt off
          let copies := ((DdkMem.ddkRead cfg file cnt off).trace env h).filterMap copied
          let r := (DdkMem.ddkRead cfg file cnt off).eval env h
          (some ⟨r.ret, some r.off, copies⟩, files.set f r.file)
  | .ddkIoctl q =>
      let h := ddkIoctl_returns q.cmd 0
      let copies := ((DdkMem.ddkIoctl q.cmd 0).trace env h).filterMap copied
      (some ⟨(DdkMem.ddkIoctl q.cmd 0).eval env h, none, copies⟩, files)

/-- A session: the `n`-th call finds the memory `mem n`. -/
def session (cfg : Config) :
    List (Request × Env) → (ℕ → Memory) → List (File UInt8) → List (Option Seen)
  | [], _, _ => []
  | (x, env) :: xs, mem, files =>
      let r := x.perform cfg ((mem 0).fill env) files
      r.1 :: session cfg xs (fun n => mem (n + 1)) r.2

/-- No GET ioctl gets a reply of fewer than two bytes. -/
def FullReply (env : Env) : Request → Prop
  | .ddkIoctl q => ∀ r, q.reply env = .ok r → r.1.length = 2
  | _ => True

/-! ## Files that hold the same -/

/-- The first `n` bytes of both buffers are the same. -/
structure SamePrefix (cfg : Config) (n : ℕ) (file file' : File UInt8) : Prop where
  length : file.inBuf.length = cfg.inBufSize
  length' : file'.inBuf.length = cfg.inBufSize
  le : n ≤ cfg.inBufSize
  take : file.inBuf.take n = file'.inBuf.take n

/-- The same bytes are parked. -/
structure Similar (cfg : Config) (file file' : File UInt8) : Prop where
  leftOver : file.inBufLeftOver = file'.inBufLeftOver
  agree : SamePrefix cfg file.inBufLeftOver file file'

section Files

variable {cfg : Config} {file file' : File UInt8} {n : ℕ}

theorem take_of_take {α : Type} {l l' : List α} {m n : ℕ} (h : l.take n = l'.take n) (hm : m ≤ n) :
    l.take m = l'.take m := by
  have hl := congrArg (List.take m) h
  rwa [List.take_take, List.take_take, Nat.min_eq_left hm] at hl

/-- A packet overwrites the same bytes of both buffers. -/
theorem samePrefix_packet (hl : file.inBuf.length = cfg.inBufSize)
    (hl' : file'.inBuf.length = cfg.inBufSize) {packet : List UInt8}
    (hp : packet.length ≤ cfg.inBufSize) :
    SamePrefix cfg packet.length { file with inBuf := packet ++ file.inBuf.drop packet.length }
      { file' with inBuf := packet ++ file'.inBuf.drop packet.length } := by
  refine ⟨?_, ?_, hp, ?_⟩
  · simp only [List.length_append, List.length_drop]
    omega
  · simp only [List.length_append, List.length_drop]
    omega
  · rw [List.take_left, List.take_left]

/-- What the shift loop parks is the same. -/
theorem similar_handOver (h : SamePrefix cfg n file file') (cnt : ℕ) (off : ℤ) :
    Similar cfg (handOver cnt off n file).file (handOver cnt off n file').file := by
  rcases h with ⟨hl, hl', hle, htake⟩
  have hshift : (shift cnt (n - cnt) cnt file.inBuf).take (n - cnt) =
      (shift cnt (n - cnt) cnt file'.inBuf).take (n - cnt) := by
    rw [shift_take (by omega), shift_take (by omega), htake]
  -- what lies behind the parked bytes may differ, and is never read
  refine ⟨rfl, ?_, ?_, ?_, ?_⟩
  · simp only [handOver, shift_length, hl]
  · simp only [handOver, shift_length, hl']
  · simp only [handOver]
    split <;> omega
  · simp only [handOver]
    exact take_of_take hshift (by split <;> omega)

end Files

/-! ## Opens and reads -/

section Calls

variable {cfg : Config} (env : Env) (mem mem' : Memory)

/-- How two opens go. -/
def OpenSame (cfg : Config) : Except Errno (File UInt8) → Except Errno (File UInt8) → Prop
  | .error e, .error e' => e = e'
  | .ok file, .ok file' => Similar cfg file file'
  | _, _ => False

theorem related_ddkOpen :
    Related copied (mem.fill env) (mem'.fill env) (OpenSame cfg) (ddkOpen cfg)
      (ddkOpen_returns cfg) (ddkOpen cfg) (ddkOpen_returns cfg) := by
  refine related_same rfl fun found => ?_
  cases found with
  | false => exact related_ret rfl
  | true =>
      refine related_same rfl fun present => ?_
      cases present with
      | false => exact related_ret rfl
      | true =>
          refine related_same rfl fun _ => ?_
          simp only [Prog.ret_bind]
          split
          · exact related_same rfl fun _ => related_ret rfl
          · -- the new buffers differ, and nothing is parked in them
            refine related_call (fun r r' => r.isSome = r'.isSome) rfl ?_ fun r r' h => ?_
            · simp only [Memory.fill, Option.isSome_map]
            · cases r with
              | none =>
                  cases r' with
                  | none => exact related_ret rfl
                  | some _ => cases h
              | some inBuf =>
                  cases r' with
                  | none => cases h
                  | some inBuf' =>
                      refine related_same rfl fun _ => related_same rfl fun r => ?_
                      cases r with
                      | error e => exact related_ret rfl
                      | ok _ =>
                          refine related_same rfl fun r => ?_
                          cases r with
                          | error e => exact related_ret rfl
                          | ok _ =>
                              refine related_same rfl fun _ => related_ret ?_
                              exact ⟨rfl, inBuf.2, inBuf'.2, Nat.zero_le _, rfl⟩

/-- How two fetches go: a failing one leaves similar files, a successful one as many
bytes, which are the same. -/
def FetchSame (cfg : Config) (r r' : Except Errno ℕ × File UInt8) : Prop :=
  match r.1, r'.1 with
  | .error e, .error e' => e = e' ∧ Similar cfg r.2 r'.2
  | .ok n, .ok n' => n = n' ∧ SamePrefix cfg n r.2 r'.2
  | _, _ => False

theorem related_fetch {file file' : File UInt8} (h : Similar cfg file file') (off : ℤ) {hp hq} :
    Related copied (mem.fill env) (mem'.fill env) (FetchSame cfg) (fetch cfg file off) hp
      (fetch cfg file' off) hq := by
  rcases file with ⟨inBuf, left⟩
  rcases file' with ⟨inBuf', left'⟩
  rcases h with ⟨hleft, hagree⟩
  simp only at hleft hagree
  subst hleft
  unfold fetch
  by_cases hzero : left = 0
  · -- nothing is parked, so a packet is fetched
    subst hzero
    have hsimilar : Similar cfg ⟨inBuf, 0⟩ ⟨inBuf', 0⟩ := ⟨rfl, hagree⟩
    simp only [ne_eq, not_true_eq_false, if_false]
    refine related_same rfl fun r => ?_
    cases r with
    | error e => exact related_ret ⟨rfl, hsimilar⟩
    | ok _ =>
        refine related_same rfl fun r => ?_
        cases r with
        | error e => exact related_ret ⟨rfl, hsimilar⟩
        | ok packet =>
            have hpacket := samePrefix_packet hagree.length hagree.length' packet.2
            refine related_same rfl fun r => ?_
            cases r with
            | error e =>
                refine related_ret ⟨rfl, rfl, hpacket.length, hpacket.length', ?_, rfl⟩
                exact Nat.zero_le _
            | ok _ => exact related_ret ⟨rfl, hpacket⟩
  · simp only [ne_eq, hzero, not_false_eq_true, if_true]
    exact related_ret ⟨rfl, hagree.length, hagree.length', hagree.le, hagree.take⟩

/-- How two reads go. -/
structure ReadSame (cfg : Config) (r r' : ReadResult UInt8) : Prop where
  ret : r.ret = r'.ret
  off : r.off = r'.off
  file : Similar cfg r.file r'.file

theorem related_deliver {file file' : File UInt8} {n : ℕ} (h : SamePrefix cfg n file file')
    (cnt : ℕ) (off : ℤ) {hp hq} :
    Related copied (mem.fill env) (mem'.fill env) (ReadSame cfg) (deliver cnt off n file) hp
      (deliver cnt off n file') hq := by
  have hdata : file.inBuf.take (if n ≤ cnt then n else cnt) =
      file'.inBuf.take (if n ≤ cnt then n else cnt) :=
    take_of_take h.take (by split <;> omega)
  unfold deliver
  rw [hdata]
  refine related_same rfl fun faults => ?_
  cases faults with
  -- all of the packet is parked
  | true => exact related_ret ⟨rfl, rfl, rfl, h.length, h.length', h.le, h.take⟩
  | false => exact related_ret ⟨rfl, rfl, similar_handOver h cnt off⟩

theorem related_ddkRead {file file' : File UInt8} (h : Similar cfg file file') (cnt : ℕ) (off : ℤ) :
    Related copied (mem.fill env) (mem'.fill env) (ReadSame cfg) (ddkRead cfg file cnt off)
      (ddkRead_returns cfg file cnt off) (ddkRead cfg file' cnt off)
      (ddkRead_returns cfg file' cnt off) := by
  refine related_bind (related_fetch env mem mem' h off) ?_
  rintro ⟨r, file⟩ ⟨r', file'⟩ hr ha hb
  cases r with
  | error e =>
      cases r' with
      | error e' =>
          rcases hr with ⟨heq, hfile⟩
          subst heq
          exact related_ret ⟨rfl, rfl, hfile⟩
      | ok n' => exact hr.elim
  | ok n =>
      cases r' with
      | error e' => exact hr.elim
      | ok n' =>
          rcases hr with ⟨heq, hfile⟩
          subst heq
          exact related_deliver env mem mem' hfile cnt off

end Calls

/-! ## The ioctls that report a number -/

section Queries

/-- What a GET message returns. -/
def numberOf (stack : UInt8 × UInt8) :
    Except Errno { reply : List UInt8 // reply.length ≤ 2 } → ℤ
  | .error e => e.val
  | .ok reply => shortOf reply stack

/-- What the driver takes for the number that the board reports. -/
def Query.value (env : Env) (q : Query) : ℤ :=
  numberOf (env .stackShort trivial) (q.reply env)

/-- What is seen of an ioctl that reports this number. -/
def seenOf (env : Env) (val : ℤ) : Seen :=
  if val < 0 then ⟨val, none, []⟩
  else if env (.copyIntToUser val) trivial then ⟨EFAULT.val, none, [.int val]⟩
  else ⟨0, none, [.int val]⟩

/-- How an ioctl goes on with the number. -/
def afterGet (retval : ℤ) : Driver UInt8 ℤ := do
  if retval < 0 then
    return retval
  else if ← perform (.copyIntToUser retval) then
    return EFAULT.val
  else
    return 0

theorem seen_afterGet (env : Env) (val : ℤ) {h : (afterGet val).Only Op.Returns} :
    (⟨(afterGet val).eval env h, none, ((afterGet val).trace env h).filterMap copied⟩ : Seen) =
      seenOf env val := by
  unfold afterGet seenOf
  split
  · rfl
  · simp only [perform_eq, Prog.bind_eq, Prog.call_bind, Prog.ret_bind, Prog.eval_call,
      Prog.trace_call]
    split <;> rfl

theorem getOff_eq (dir : Dir) : (getOff dir : Driver UInt8 ℤ) =
    .call .stackShort fun stack => .call (.getMemOffset dir) fun r => .ret (numberOf stack r) := by
  unfold getOff
  simp only [perform_eq, Prog.bind_eq, Prog.call_bind, Prog.ret_bind]
  congr 1
  funext stack
  congr 1
  funext r
  cases r <;> rfl

theorem getSize_eq : (getSize : Driver UInt8 ℤ) =
    .call .stackShort fun stack => .call .getMemSize fun r => .ret (numberOf stack r) := by
  unfold getSize
  simp only [perform_eq, Prog.bind_eq, Prog.call_bind, Prog.ret_bind]
  congr 1
  funext stack
  congr 1
  funext r
  cases r <;> rfl

theorem eval_get (env : Env) (q : Query) {h : q.get.Only Op.Returns} :
    q.get.eval env h = q.value env := by
  cases q with
  | rdOffGet => simp only [Query.get, getOff_eq, Prog.eval_call, Prog.eval_ret]; rfl
  | wrOffGet => simp only [Query.get, getOff_eq, Prog.eval_call, Prog.eval_ret]; rfl
  | memSizeGet => simp only [Query.get, getSize_eq, Prog.eval_call, Prog.eval_ret]; rfl

theorem copied_get (env : Env) (q : Query) {h : q.get.Only Op.Returns} :
    (q.get.trace env h).filterMap copied = [] := by
  cases q with
  | rdOffGet => simp only [Query.get, getOff_eq, Prog.trace_call, Prog.trace_ret]; rfl
  | wrOffGet => simp only [Query.get, getOff_eq, Prog.trace_call, Prog.trace_ret]; rfl
  | memSizeGet => simp only [Query.get, getSize_eq, Prog.trace_call, Prog.trace_ret]; rfl

/-- An ioctl shows the number, and nothing else. -/
theorem perform_query (cfg : Config) (env : Env) (files : List (File UInt8)) (q : Query) :
    (Request.ddkIoctl q).perform cfg env files = (some (seenOf env (q.value env)), files) := by
  have heq : (ddkIoctl q.cmd 0 : Driver UInt8 ℤ) = q.get.bind afterGet := by cases q <;> rfl
  have hseen : ∀ h, (⟨(ddkIoctl q.cmd 0).eval env h, none,
      ((ddkIoctl q.cmd 0).trace env h).filterMap copied⟩ : Seen) = seenOf env (q.value env) := by
    rw [heq]
    intro h
    simp only [Prog.eval_bind, Prog.trace_bind, List.filterMap_append, copied_get, eval_get,
      List.nil_append, seen_afterGet]
  simp only [Request.perform, hseen]

variable {env : Env} {q : Query}

/-- A full reply overwrites the stack. -/
theorem value_full (hfull : ∀ r, q.reply env = .ok r → r.1.length = 2) (mem mem' : Memory) :
    q.value (mem.fill env) = q.value (mem'.fill env) := by
  have hreply : ∀ m : Memory, q.reply (m.fill env) = q.reply env := fun m => by cases q <;> rfl
  unfold Query.value
  rw [hreply, hreply]
  cases hr : q.reply env with
  | error e => rfl
  | ok r =>
      rcases List.length_eq_two.mp (hfull r hr) with ⟨x, y, hxy⟩
      simp only [numberOf, shortOf, hxy]
      rfl

/-- Two stacks that a short reply lets through, with the sign of an error. -/
def dark : Memory := ⟨fun _ => 0, (0, 0x80)⟩

def bright : Memory := ⟨fun _ => 0, (0, 0xFF)⟩

theorem value_short {r : { reply : List UInt8 // reply.length ≤ 2 }} (hr : q.reply env = .ok r)
    (hshort : r.1.length ≠ 2) :
    q.value (dark.fill env) < 0 ∧ q.value (bright.fill env) < 0 ∧
      q.value (dark.fill env) ≠ q.value (bright.fill env) := by
  have hvalue : ∀ m : Memory, q.value (m.fill env) = shortOf r m.stack := by
    intro m
    have hreply : q.reply (m.fill env) = .ok r := by
      rw [← hr]
      cases q <;> rfl
    unfold Query.value
    rw [hreply]
    rfl
  have hnone : r.1[1]? = none := by
    have hle := r.2
    rw [List.getElem?_eq_none]
    omega
  rw [hvalue, hvalue]
  -- the high byte is the one on the stack, and both have the top bit set
  simp only [shortOf, hnone, Option.getD_none, dark, bright, toShort]
  have hlow := (r.1[0]?.getD 0).toNat_lt
  have hdark : ((0x80 : UInt8).toNat : ℤ) = 128 := rfl
  have hbright : ((0xFF : UInt8).toNat : ℤ) = 255 := rfl
  omega

end Queries

/-! ## Whole sessions -/

section Sessions

variable {cfg : Config}

/-- Two runs of one call: the same is seen, and the files stay similar. -/
theorem perform_same {env : Env} {x : Request} (hfull : FullReply env x) (mem mem' : Memory)
    {files files' : List (File UInt8)} (h : List.Forall₂ (Similar cfg) files files') :
    (x.perform cfg (mem.fill env) files).1 = (x.perform cfg (mem'.fill env) files').1 ∧
      List.Forall₂ (Similar cfg) (x.perform cfg (mem.fill env) files).2
        (x.perform cfg (mem'.fill env) files').2 := by
  cases x with
  | ddkOpen =>
      rcases @related_ddkOpen cfg env mem mem' with ⟨hseen, hresult⟩
      simp only [Request.perform, hseen]
      revert hresult
      cases (ddkOpen cfg).eval (mem.fill env) (ddkOpen_returns cfg) with
      | error e =>
          cases (ddkOpen cfg).eval (mem'.fill env) (ddkOpen_returns cfg) with
          | error e' =>
              intro heq
              exact ⟨by rw [show e = e' from heq], h⟩
          | ok file' => exact fun hfalse => hfalse.elim
      | ok file =>
          cases (ddkOpen cfg).eval (mem'.fill env) (ddkOpen_returns cfg) with
          | error e' => exact fun hfalse => hfalse.elim
          | ok file' =>
              intro hfile
              exact ⟨rfl, List.rel_append h (.cons hfile .nil)⟩
  | ddkRead f cnt off =>
      have hlookup := Table.rel_lookup h f
      simp only [Request.perform]
      cases hf : files[f]? with
      | none =>
          cases hf' : files'[f]? with
          | none => exact ⟨rfl, h⟩
          | some file' =>
              rw [hf, hf'] at hlookup
              cases hlookup
      | some file =>
          cases hf' : files'[f]? with
          | none =>
              rw [hf, hf'] at hlookup
              cases hlookup
          | some file' =>
              rw [hf, hf'] at hlookup
              cases hlookup with
              | some hfile =>
                  rcases related_ddkRead env mem mem' hfile cnt off with ⟨hseen, hresult⟩
                  refine ⟨?_, Table.rel_set h hresult.file f⟩
                  simp only [hseen, hresult.ret, hresult.off]
  | ddkIoctl q =>
      have hvalue : q.value (mem.fill env) = q.value (mem'.fill env) :=
        value_full hfull mem mem'
      simp only [perform_query, hvalue]
      exact ⟨rfl, h⟩

/-- All calls together, by induction on the session. -/
theorem session_same {calls : List (Request × Env)} (hfull : ∀ x ∈ calls, FullReply x.2 x.1)
    (mem mem' : ℕ → Memory) {files files' : List (File UInt8)}
    (h : List.Forall₂ (Similar cfg) files files') :
    session cfg calls mem files = session cfg calls mem' files' := by
  induction calls generalizing mem mem' files files' with
  | nil => rfl
  | cons x calls ih =>
      have hhead := perform_same (hfull x List.mem_cons_self) (mem 0) (mem' 0) h
      have htail := ih (fun y hy => hfull y (List.mem_cons_of_mem x hy)) (fun n => mem (n + 1))
        (fun n => mem' (n + 1)) hhead.2
      simp only [session, hhead.1, htail]

/-- A short reply shows the stack. -/
theorem fullReply_of_same {env : Env} {x : Request} {files : List (File UInt8)}
    (h : (x.perform cfg (dark.fill env) files).1 = (x.perform cfg (bright.fill env) files).1) :
    FullReply env x := by
  cases x with
  | ddkOpen => trivial
  | ddkRead f cnt off => trivial
  | ddkIoctl q =>
      intro r hr
      by_contra hshort
      rcases value_short hr hshort with ⟨hdark, hbright, hne⟩
      simp only [perform_query, seenOf, hdark, hbright, if_true, Option.some.injEq,
        Seen.mk.injEq, and_true] at h
      exact hne h

/-- The calls after the first meet the same files in all runs in which the first one met
the same memory. -/
theorem fullReply_of_session {calls : List (Request × Env)} {files : List (File UInt8)}
    (h : ∀ mem mem' : ℕ → Memory, session cfg calls mem files = session cfg calls mem' files) :
    ∀ x ∈ calls, FullReply x.2 x.1 := by
  induction calls generalizing files with
  | nil => exact fun x hx => absurd hx List.not_mem_nil
  | cons x calls ih =>
      intro y hy
      rcases List.mem_cons.mp hy with rfl | hy
      · -- the first call meets two stacks
        have hhead := h (fun _ => dark) (fun _ => bright)
        simp only [session, List.cons.injEq] at hhead
        exact fullReply_of_same hhead.1
      · -- the others: the first call meets the same memory in both runs
        have hrest : ∀ mem mem' : ℕ → Memory,
            session cfg calls mem (x.1.perform cfg (dark.fill x.2) files).2 =
              session cfg calls mem' (x.1.perform cfg (dark.fill x.2) files).2 := by
          intro mem mem'
          have htail := h (fun n => n.casesOn dark mem) (fun n => n.casesOn dark mem')
          simp only [session, List.cons.injEq] at htail
          exact htail.2
        exact ih hrest y hy

/-- What a session shows depends on memory that nobody has written exactly when a GET
ioctl of it gets a short reply. Opens and reads never show any. -/
theorem secrecy (cfg : Config) (calls : List (Request × Env)) :
    (∀ mem mem' : ℕ → Memory, session cfg calls mem [] = session cfg calls mem' []) ↔
      ∀ x ∈ calls, FullReply x.2 x.1 :=
  ⟨fullReply_of_session, fun h mem mem' => session_same h mem mem' .nil⟩

/-- A board that answers every control request with one byte. -/
def terse : Env
  | .setMemOffset _ _, _ => .ok ()
  | .getMemOffset _, _ => .ok ⟨[5], by decide⟩
  | .getMemSize, _ => .ok ⟨[5], by decide⟩
  | .stackShort, _ => (0, 0)
  | .interruptIn _, _ => .ok ⟨[], Nat.zero_le _⟩
  | .interruptOut data, _ => .ok ⟨data.length, le_rfl⟩
  | .copyFromUser _, _ => false
  | .copyToUser _, _ => false
  | .copyIntToUser _, _ => false
  | .ddkExtOnWriteSuccess _, _ => ()
  | .ddkExtOnWriteFail, _ => ()
  | .usbFindInterface, _ => true
  | .usbGetIntfdata, _ => true
  | .mutexLock, _ => ()
  | .mutexUnlock, _ => ()
  | .kmallocFile inBufSize, _ => some ⟨List.replicate inBufSize 0, List.length_replicate⟩
  | .kfreeFile, _ => ()
  | .atomicInc, _ => ()
  | .atomicDec, _ => ()
  | .kzallocDevice, _ => true
  | .kfreeDevice, _ => ()
  | .usbRegisterDev, _ => .ok ()
  | .usbDeregisterDev, _ => ()
  | .usbSetIntfdata _, _ => ()
  | .ddkExtInit, _ => ()
  | .ddkExtCleanup, _ => ()
  | .runsOn, h => h.elim

/-- An open and a `DDK_MEM_SIZE_GET` with a reply of one byte: the other byte of the size
that is copied out is the one on the stack. -/
theorem secrecy_short :
    let calls := [(Request.ddkOpen, terse), (Request.ddkIoctl .memSizeGet, terse)]
    let run := fun stack => session ⟨8, 8⟩ calls (fun _ => ⟨fun _ => 0, stack⟩) []
    run (0, 0) = [some ⟨0, none, []⟩, some ⟨0, none, [.int 5]⟩] ∧
      run (0, 1) = [some ⟨0, none, []⟩, some ⟨0, none, [.int 261]⟩] ∧
      ¬ ∀ mem mem' : ℕ → Memory, session ⟨8, 8⟩ calls mem [] = session ⟨8, 8⟩ calls mem' [] := by
  refine ⟨by decide +kernel, by decide +kernel, ?_⟩
  intro h
  have hrun := h (fun _ => ⟨fun _ => 0, (0, 0)⟩) (fun _ => ⟨fun _ => 0, (0, 1)⟩)
  revert hrun
  decide

end Sessions

end DdkMem
