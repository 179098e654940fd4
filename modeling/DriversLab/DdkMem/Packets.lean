import DriversLab.DdkMem.Kernel
import DriversLab.DdkMem.Offset
import DriversLab.Lib.Wp

/-!
# DdkMem.Packets — the packet loop of `ddk_write`

1. **Chunking**: a packet is the next part of the user's bytes, as long as the
   endpoint and the rest of the bytes allow, and the board accepts a beginning
   of it. What the board has accepted so far is a beginning of the user's bytes.
2. **Accounting**: the return value and `*off` say what the board has accepted
   exactly when nothing fails any more once a byte has been accepted.
3. **Termination**: the loop ends exactly when the endpoint has a packet size,
   or there is nothing to write. `ddk_open` looks at the size of the other
   endpoint.
-/

namespace DdkMem

open CInt Interact

variable {β : Type} {view : ℕ → UInt8 → β} {cfg : Config} {b b' : Board} {buf : List UInt8}
  {bound : ℕ} {off : ℤ} {cs : List (Choice β)} {l : List (BoardEntry β)}

/-- The largest `cnt` that the VFS lets through: `INT_MAX`, rounded down to whole
pages. -/
def MAX_RW_COUNT : ℕ := 0x7ffff000

/-! ## What the board accepts -/

/-- The bytes that the board accepts in one operation. -/
def took (e : BoardEntry β) : List UInt8 :=
  match e.op with
  | .interruptOut data => if e.choice.fail.isSome then [] else data.take e.choice.len
  | _ => []

/-- The accepted parts of the packets, one after the other. -/
def accepted (l : List (BoardEntry β)) : List UInt8 := l.flatMap took

@[simp] theorem accepted_nil : accepted ([] : List (BoardEntry β)) = [] := rfl

@[simp] theorem accepted_cons (e : BoardEntry β) : accepted (e :: l) = took e ++ accepted l :=
  List.flatMap_cons

@[simp] theorem accepted_append (l₁ l₂ : List (BoardEntry β)) :
    accepted (l₁ ++ l₂) = accepted l₁ ++ accepted l₂ := List.flatMap_append

theorem accepted_eq_nil : accepted l = [] ↔ ∀ e ∈ l, took e = [] := List.flatMap_eq_nil_iff

/-- Only packets are accepted. -/
theorem took_of_op {e : BoardEntry β} {o : Op β} (h : e.op = o)
    (ho : ∀ data, o ≠ .interruptOut data) : took e = [] := by
  unfold took
  split
  · rename_i data hdata
    exact absurd (h.symm.trans hdata) (ho data)
  · rfl

/-- The bytes that `ddk_write` hands to the board next, after `wrote` of them. -/
def nextPacket (cfg : Config) (buf : List UInt8) (wrote : ℕ) : List UInt8 :=
  (buf.drop wrote).take (min cfg.outBufSize (buf.length - wrote))

theorem nextPacket_length (cfg : Config) (buf : List UInt8) (wrote : ℕ) :
    (nextPacket cfg buf wrote).length = min cfg.outBufSize (buf.length - wrote) := by
  rw [nextPacket, List.length_take, List.length_drop]
  omega

/-- Every packet is the next part of the user's bytes, from `wrote` on. -/
def Packets (cfg : Config) (buf : List UInt8) : ℕ → List (BoardEntry β) → Prop
  | _, [] => True
  | wrote, e :: l =>
      (∀ data, e.op = .interruptOut data → data = nextPacket cfg buf wrote) ∧
        Packets cfg buf (wrote + (took e).length) l

theorem packets_append {wrote : ℕ} {l₁ l₂ : List (BoardEntry β)} :
    Packets cfg buf wrote (l₁ ++ l₂) ↔
      Packets cfg buf wrote l₁ ∧ Packets cfg buf (wrote + (accepted l₁).length) l₂ := by
  induction l₁ generalizing wrote with
  | nil => simp [Packets]
  | cons e l₁ ih => simp only [List.cons_append, Packets, ih, accepted_cons, List.length_append,
      and_assoc, Nat.add_assoc]

theorem packets_of_op {wrote : ℕ} {e : BoardEntry β} {o : Op β} (h : e.op = o)
    (ho : ∀ data, o ≠ .interruptOut data) :
    Packets cfg buf wrote (e :: l) ↔ Packets cfg buf wrote l := by
  have hnone : ∀ data, e.op = .interruptOut data → data = nextPacket cfg buf wrote := by
    intro data hdata
    exact absurd (h.symm.trans hdata) (ho data)
  rw [Packets, took_of_op h ho, List.length_nil, Nat.add_zero, and_iff_right hnone]

/-- A packet that the board answers, with what it accepts of it. -/
theorem exec_packet {α : Type} {a : α} {data : List UInt8}
    {f : Except Errno { wrote : ℕ // wrote ≤ data.length } → Driver β α}
    (h : exec (Board.serve view) (Prog.call (.interruptOut data) f) b cs = some (a, b', l)) :
    ∃ cs' l' e m r, l = e :: l' ∧ e.op = .interruptOut data ∧
      ((∃ err, r = .error err ∧ Fails e = true ∧ took e = []) ∨
        (∃ n hn, r = .ok ⟨n, hn⟩ ∧ Fails e = false ∧ took e = data.take n)) ∧
      exec (Board.serve view) (f r) m cs' = some (a, b', l') := by
  rcases exec_perform h with ⟨c, cs', r, m, l', hs, he, rfl⟩
  refine ⟨cs', l', _, m, r, rfl, rfl, ?_, he⟩
  cases hf : c.fail with
  | some err =>
      simp only [Board.serve, hf, Option.some.injEq, Prod.mk.injEq] at hs
      exact Or.inl ⟨err, hs.1.symm, by simp [Fails, hf], by simp [took, hf]⟩
  | none =>
      simp only [Board.serve, hf, Option.some.injEq, Prod.mk.injEq] at hs
      refine Or.inr ⟨_, _, hs.1.symm, by simp [Fails, hf], ?_⟩
      simp only [took, hf]
      exact (List.take_eq_take_iff).mpr (by simp)

/-- Nothing fails once the board has accepted a byte. -/
def Quiet (l : List (BoardEntry β)) : Prop :=
  l.Pairwise fun e e' => took e ≠ [] → Fails e' = false

theorem Smooth.quiet (h : Smooth l) : Quiet l :=
  List.pairwise_of_forall_mem_list fun _ _ e' he' _ => h e' he'

/-- Where nothing has been accepted, anything may fail. -/
theorem quiet_of_none (h : accepted l = []) : Quiet l :=
  List.pairwise_of_forall_mem_list fun e he _ _ htook => absurd (accepted_eq_nil.mp h e he) htook

/-- Nothing fails but the message for the read offset, the last one of a call. -/
def Delivers (l : List (BoardEntry β)) : Prop :=
  ∀ e ∈ l, Fails e = true → ∃ v, e.op = .setMemOffset .eRead v

theorem Smooth.delivers (h : Smooth l) : Delivers l := by
  intro e he hf
  rw [h e he] at hf
  cases hf

theorem not_delivers_of_mem {e : BoardEntry β} (he : e ∈ l) (hf : Fails e = true)
    (hop : ∀ v, e.op ≠ .setMemOffset .eRead v) : ¬ Delivers l := by
  intro hl
  rcases hl e he hf with ⟨v, hv⟩
  exact hop v hv

/-! ## The loop -/

/-- What the loop of `ddk_write` has done when it ends, from `wrote` bytes on. -/
structure LoopOut (cfg : Config) (buf : List UInt8) (wrote : ℕ) (r : Except Errno ℕ)
    (l : List (BoardEntry β)) : Prop where
  packets : Packets cfg buf wrote l
  order : accepted l <+: buf.drop wrote
  done : ∀ n, r = .ok n → Smooth l ∧ accepted l = buf.drop wrote ∧ n = wrote + (accepted l).length
  failed : ∀ err, r = .error err → ¬ Delivers l ∧ (Quiet l ↔ accepted l = [])

/-- The loop ends at once. -/
theorem loopOut_nil {wrote : ℕ} (h : buf.length ≤ wrote) :
    LoopOut cfg buf wrote (.ok wrote) ([] : List (BoardEntry β)) := by
  have hdrop : buf.drop wrote = [] := List.drop_eq_nil_of_le h
  refine ⟨trivial, List.nil_prefix, ?_, nofun⟩
  rintro n ⟨rfl⟩
  exact ⟨smooth_nil, hdrop.symm, rfl⟩

/-- Nothing was accepted and something failed. -/
theorem loopOut_fail {wrote : ℕ} {err : Errno} (hpackets : Packets cfg buf wrote l)
    (hl : accepted l = []) (hfail : ¬ Delivers l) : LoopOut cfg buf wrote (.error err) l := by
  refine ⟨hpackets, by rw [hl]; exact List.nil_prefix, nofun, ?_⟩
  rintro _ -
  exact ⟨hfail, iff_of_true (quiet_of_none hl) hl⟩

/-- One packet, of which the board takes `n` bytes, and the rest of the loop. -/
theorem loopOut_packet {wrote n k : ℕ} {r : Except Errno ℕ} {e₁ e₂ : BoardEntry β}
    (hop₁ : e₁.op = .copyFromUser k) (hf₁ : Fails e₁ = false)
    (hop₂ : e₂.op = .interruptOut (nextPacket cfg buf wrote))
    (hn : n ≤ (nextPacket cfg buf wrote).length)
    (htook₂ : took e₂ = (nextPacket cfg buf wrote).take n) (hf₂ : Fails e₂ = false)
    (hl : LoopOut cfg buf (wrote + n) r l) : LoopOut cfg buf wrote r (e₁ :: e₂ :: l) := by
  have htook₁ : took e₁ = [] := took_of_op hop₁ nofun
  have hpart : took e₂ = (buf.drop wrote).take n := by
    rw [nextPacket_length] at hn
    rw [htook₂, nextPacket, List.take_take, Nat.min_eq_left hn]
  have hlen : (took e₂).length = n := by
    rw [htook₂, List.length_take, Nat.min_eq_left hn]
  have hall : accepted (e₁ :: e₂ :: l) = (buf.drop wrote).take n ++ accepted l := by
    rw [accepted_cons, accepted_cons, htook₁, hpart, List.nil_append]
  have hsplit : (buf.drop wrote).take n ++ buf.drop (wrote + n) = buf.drop wrote := by
    rw [← List.drop_drop, List.take_append_drop]
  refine ⟨?_, ?_, ?_, ?_⟩
  · rw [packets_of_op hop₁ nofun, Packets, hlen]
    refine ⟨?_, hl.packets⟩
    intro data hdata
    exact (Op.interruptOut.inj (hop₂.symm.trans hdata)).symm
  · have horder := (List.prefix_append_right_inj ((buf.drop wrote).take n)).mpr hl.order
    rwa [hsplit, ← hall] at horder
  · intro m hm
    rcases hl.done m hm with ⟨hsmooth, hrest, rfl⟩
    refine ⟨by simp [hf₁, hf₂, hsmooth], by rw [hall, hrest, hsplit], ?_⟩
    rw [hall, ← hpart, List.length_append, hlen, Nat.add_assoc]
  · intro err herr
    rcases hl.failed err herr with ⟨hfail, hquiet⟩
    refine ⟨?_, ?_, quiet_of_none⟩
    · intro hdeliver
      exact hfail fun e he => hdeliver e (List.mem_cons_of_mem _ (List.mem_cons_of_mem _ he))
    intro hq
    rcases List.pairwise_cons.mp hq with ⟨-, hq⟩
    rcases List.pairwise_cons.mp hq with ⟨hafter, hq⟩
    have hnothing : took e₂ = [] := by
      by_contra htook
      have hsmooth : Smooth l := fun e he => hafter e he htook
      exact hfail hsmooth.delivers
    rw [hall, ← hpart, hnothing, List.nil_append]
    exact hquiet.mp hq

theorem writeLoop_out {wrote : ℕ} {r : Except Errno ℕ}
    (h : exec (Board.serve view) (writeLoop cfg buf bound wrote) b cs = some (r, b', l)) :
    LoopOut cfg buf wrote r l := by
  induction bound generalizing wrote b cs l with
  | zero =>
      unfold writeLoop at h
      split at h
      · rcases exec_perform h with ⟨c, cs', r', m, l', hs, _, _⟩
        cases hs
      · rcases exec_done h with ⟨rfl, _, rfl⟩
        exact loopOut_nil (by omega)
  | succ bound ih =>
      unfold writeLoop at h
      split at h
      · rcases exec_copyFromUser h with ⟨cs₁, l₁, e₁, rfl, hop₁, h⟩
        have htook₁ : took e₁ = [] := took_of_op hop₁ (by simp)
        cases hf₁ : Fails e₁ with
        | true =>
            rw [hf₁] at h
            rcases exec_done h with ⟨rfl, _, rfl⟩
            have hfail : ¬ Delivers [e₁] :=
              not_delivers_of_mem List.mem_cons_self hf₁ (by simp [hop₁])
            exact loopOut_fail ((packets_of_op hop₁ (by simp)).mpr trivial) (by simp [htook₁]) hfail
        | false =>
            rw [hf₁] at h
            rcases exec_packet h with ⟨cs₂, l₂, e₂, m, r₂, rfl, hop₂, hr₂, h⟩
            rcases hr₂ with ⟨err, rfl, hf₂, htook₂⟩ | ⟨n, hn, rfl, hf₂, htook₂⟩
            · rcases exec_hook h trivial with ⟨cs₃, l₃, e₃, r₃, rfl, hop₃, hf₃, h⟩
              rcases exec_done h with ⟨rfl, _, rfl⟩
              have htook₃ : took e₃ = [] := took_of_op hop₃ (by simp)
              have hfail : ¬ Delivers [e₁, e₂, e₃] :=
                not_delivers_of_mem (by simp : e₂ ∈ [e₁, e₂, e₃]) hf₂ (by simp [hop₂])
              refine loopOut_fail ?_ (by simp [htook₁, htook₂, htook₃]) hfail
              rw [packets_of_op hop₁ (by simp)]
              refine ⟨?_, (packets_of_op hop₃ (by simp)).mpr trivial⟩
              intro data hdata
              exact (Op.interruptOut.inj (hop₂.symm.trans hdata)).symm
            · exact loopOut_packet hop₁ hf₁ hop₂ hn htook₂ hf₂ (ih h)
      · rcases exec_done h with ⟨rfl, _, rfl⟩
        exact loopOut_nil (by omega)

/-! ## The call -/

/-- How a `ddk_write` at `off` can end: before all bytes are accepted, at the
message for the read offset, or well. -/
inductive WriteEnd (buf : List UInt8) (off : ℤ) (r : Transfer) (l : List (BoardEntry β)) :
    Prop where
  | early (hret : r.ret < 0) (hoff : r.off = off) (hfail : ¬ Delivers l)
      (hquiet : Quiet l ↔ accepted l = [])
  | late (hret : r.ret < 0) (hoff : r.off = off + buf.length) (hall : accepted l = buf)
      (hquiet : Quiet l ↔ buf = [])
  | done (hret : r.ret = buf.length) (hoff : r.off = off + buf.length) (hall : accepted l = buf)
      (hl : Smooth l)

/-- A first operation that moves nothing and does not fail makes no difference. -/
theorem quiet_cons_of_none {e : BoardEntry β} (h : took e = []) : Quiet (e :: l) ↔ Quiet l := by
  rw [Quiet, List.pairwise_cons, and_iff_right]
  · exact Iff.rfl
  · intro e' _ htook
    exact absurd h htook

/-- A last operation that fails is noticed exactly when a byte has been accepted. -/
theorem quiet_append_fail {l₁ l₂ : List (BoardEntry β)} (h₂ : accepted l₂ = [])
    (hfail : ¬ Smooth l₂) : Quiet (l₁ ++ l₂) ↔ accepted l₁ = [] := by
  constructor
  · intro hq
    rcases List.pairwise_append.mp hq with ⟨-, -, hcross⟩
    rw [accepted_eq_nil]
    intro e he
    by_contra htook
    exact hfail fun e' he' => hcross e he e' he' htook
  · intro hnone
    exact quiet_of_none (by rw [accepted_append, hnone, h₂, List.nil_append])

theorem write_end {r : Transfer}
    (h : exec (Board.serve view) (ddkWrite cfg bound buf off) b cs = some (r, b', l)) :
    Packets cfg buf 0 l ∧ accepted l <+: buf ∧ WriteEnd buf off r l := by
  unfold ddkWrite at h
  rcases exec_setOff h with ⟨cs₁, l₁, e₁, rfl, hop₁, ⟨err, hf₁, h⟩ | ⟨hf₁, h⟩⟩
  · rcases exec_done h with ⟨rfl, _, rfl⟩
    have htook₁ : took e₁ = [] := took_of_op hop₁ nofun
    have hnone : accepted [e₁] = [] := by simp [htook₁]
    refine ⟨(packets_of_op hop₁ nofun).mpr trivial, by rw [hnone]; exact List.nil_prefix, ?_⟩
    refine .early err.neg rfl ?_ (iff_of_true (quiet_of_none hnone) hnone)
    exact not_delivers_of_mem List.mem_cons_self hf₁ (by rw [hop₁]; exact nofun)
  · have htook₁ : took e₁ = [] := took_of_op hop₁ nofun
    rcases exec_bind.mp h with ⟨res, m, cs₂, cs₃, l₂, l₃, rfl, hloop, h, rfl⟩
    have hout := writeLoop_out hloop
    cases res with
    | error err =>
        rcases exec_done h with ⟨rfl, _, rfl⟩
        rcases hout.failed err rfl with ⟨hfail, hquiet⟩
        rw [List.append_nil, packets_of_op hop₁ nofun, accepted_cons, htook₁, List.nil_append]
        refine ⟨hout.packets, hout.order, .early err.neg rfl ?_ ?_⟩
        · intro hdeliver
          exact hfail fun e he => hdeliver e (List.mem_cons_of_mem _ he)
        · rw [quiet_cons_of_none htook₁, accepted_cons, htook₁, List.nil_append]
          exact hquiet
    | ok n =>
        rcases hout.done n rfl with ⟨hsmooth, hall, rfl⟩
        rw [List.drop_zero] at hall
        rcases exec_hook h trivial with ⟨cs₄, l₄, e₄, r₄, rfl, hop₄, hf₄, h⟩
        rcases exec_setOff h with ⟨cs₅, l₅, e₅, rfl, hop₅, hset⟩
        have htook₄ : took e₄ = [] := took_of_op hop₄ nofun
        have htook₅ : took e₅ = [] := took_of_op hop₅ nofun
        have hl₅ : l₅ = [] := by
          rcases hset with ⟨_, _, h⟩ | ⟨_, h⟩
          · exact (exec_done h).2.2
          · exact (exec_done h).2.2
        subst hl₅
        have htotal : accepted (e₁ :: (l₂ ++ e₄ :: [e₅])) = buf := by
          simp [htook₁, htook₄, htook₅, hall]
        have hpackets : Packets cfg buf 0 (e₁ :: (l₂ ++ e₄ :: [e₅])) := by
          rw [packets_of_op hop₁ nofun, packets_append]
          refine ⟨hout.packets, ?_⟩
          rw [packets_of_op hop₄ nofun, packets_of_op hop₅ nofun]
          trivial
        refine ⟨hpackets, ⟨[], by rw [htotal, List.append_nil]⟩, ?_⟩
        have hcount : ((0 + (accepted l₂).length : ℕ) : ℤ) = buf.length := by
          rw [hall, Nat.zero_add]
        rcases hset with ⟨err, hf₅, h⟩ | ⟨hf₅, h⟩
        · rcases exec_done h with ⟨rfl, _, _⟩
          refine .late err.neg (congrArg (off + ·) hcount) htotal ?_
          rw [quiet_cons_of_none htook₁,
            quiet_append_fail (by simp [htook₄, htook₅]) (by simp [hf₅]), hall]
        · rcases exec_done h with ⟨rfl, _, _⟩
          refine .done hcount (congrArg (off + ·) hcount) htotal ?_
          simp [hf₁, hsmooth, hf₄, hf₅]

/-- The packets one by one. -/
theorem packets_split {wrote : ℕ} {l₁ l₂ : List (BoardEntry β)} {e : BoardEntry β}
    {data : List UInt8} (h : Packets cfg buf wrote (l₁ ++ e :: l₂))
    (hop : e.op = .interruptOut data) :
    data = nextPacket cfg buf (wrote + (accepted l₁).length) :=
  (packets_append.mp h).2.1 data hop

/-! ## The C expressions of the loop -/

/-- `MIN(x, y)` when one side is a `size_t`: an `int` on the other side is compared
as an `unsigned long`. -/
def minULong (x y : ℤ) : ℤ := if toULong x < toULong y then toULong x else toULong y

/-- The value that is assigned to `write_size`, an `int`. -/
def writeSizeOf (outBufSize cnt wroteCnt : ℤ) : ℤ :=
  toInt (minULong outBufSize (cnt - toULong wroteCnt))

/-- The test of the `while` loop, of an `int` against a `size_t`. -/
def goesOn (cnt wroteCnt : ℤ) : Prop := toULong wroteCnt < toULong cnt

theorem toULong_of_range {z : ℤ} (hl : 0 ≤ z) (hu : z < 2 ^ 64) : toULong z = z := by
  unfold toULong
  omega

/-- Up to the limit of the VFS the conversions change nothing. -/
theorem writeSizeOf_eq {out cnt wrote : ℕ} (hout : out < 2 ^ 31) (hcnt : cnt ≤ MAX_RW_COUNT)
    (hwrote : wrote ≤ cnt) : writeSizeOf out cnt wrote = (min out (cnt - wrote) : ℕ) := by
  unfold MAX_RW_COUNT at hcnt
  have hrest : toULong ((cnt : ℤ) - toULong wrote) = (cnt - wrote : ℕ) := by
    rw [toULong_of_range (z := wrote) (by omega) (by omega), toULong_of_range] <;> omega
  have hmin : minULong out (cnt - toULong wrote) = (min out (cnt - wrote) : ℕ) := by
    rw [minULong, hrest, toULong_of_range (by omega) (by omega)]
    split <;> omega
  rw [writeSizeOf, hmin, toInt_of_range] <;> omega

theorem goesOn_iff {cnt wrote : ℕ} (hcnt : cnt ≤ MAX_RW_COUNT) (hwrote : wrote ≤ cnt) :
    goesOn cnt wrote ↔ wrote < cnt := by
  unfold MAX_RW_COUNT at hcnt
  rw [goesOn, toULong_of_range (by omega) (by omega), toULong_of_range (by omega) (by omega)]
  omega

/-! ## Termination -/

/-- What is assumed of the USB core: a message of at least one byte that succeeds
moves at least one byte. -/
def Obliging (ds : ℕ → Choice β) : Prop := ∀ i, 1 ≤ (ds i).len

/-- With a packet size, one iteration for each byte that remains is enough. -/
theorem writeLoop_returns (hout : buf ≠ [] → 1 ≤ cfg.outBufSize) {wrote : ℕ} {ds : ℕ → Choice β}
    (hds : Obliging ds) (hbound : buf.length ≤ wrote + bound) :
    (play (Board.serve view) (writeLoop cfg buf bound wrote) b ds).isSome = true := by
  induction bound generalizing wrote b ds with
  | zero =>
      unfold writeLoop
      rw [if_neg (by omega)]
      rfl
  | succ bound ih =>
      unfold writeLoop
      split
      · rename_i hmore
        refine play_call_isSome.mpr ⟨_, b, rfl, ?_⟩
        cases (ds 0).fault with
        | true => rfl
        | false =>
            cases hf : (ds 1).fail with
            | some err =>
                refine play_call_isSome.mpr ⟨.error err, b, by simp only [Board.serve, hf], ?_⟩
                exact play_call_isSome.mpr ⟨(), b, rfl, rfl⟩
            | none =>
                refine play_call_isSome.mpr ⟨_, _, by simp only [Board.serve, hf]; rfl, ?_⟩
                refine ih (fun i => hds (i + 2)) ?_
                -- the packet is not empty, so the board takes a byte of it
                have hsome := hds 1
                have hsize := hout (List.ne_nil_of_length_pos (by omega))
                have hlen := nextPacket_length cfg buf wrote
                show buf.length ≤ wrote + min (ds 1).len (nextPacket cfg buf wrote).length + bound
                omega
      · rfl

theorem ddkWrite_returns (hout : buf ≠ [] → 1 ≤ cfg.outBufSize) {ds : ℕ → Choice β}
    (hds : Obliging ds) :
    (play (Board.serve view) (ddkWrite cfg buf.length buf off) b ds).isSome = true := by
  unfold ddkWrite
  cases hf : (ds 0).fail with
  | some err => exact play_call_isSome.mpr ⟨.error err, b, by simp only [Board.serve, hf], rfl⟩
  | none =>
      refine play_call_isSome.mpr ⟨.ok (), _, by simp only [Board.serve, hf]; rfl, ?_⟩
      show (play _ ((writeLoop cfg buf buf.length 0).bind _) _ _).isSome = true
      refine play_bind_isSome (P := fun c => 1 ≤ c.len) (fun i => hds (i + 1)) ?_ ?_
      · exact writeLoop_returns hout (fun i => hds (i + 1)) (by omega)
      · intro r m es hes
        cases r with
        | error err => rfl
        | ok wroteCnt =>
            show (play _ (Prog.call (Op.ddkExtOnWriteSuccess wroteCnt) _) m es).isSome = true
            refine play_call_isSome.mpr ⟨(), m, rfl, ?_⟩
            cases hf₂ : (es 1).fail with
            | some err =>
                exact play_call_isSome.mpr ⟨.error err, m, by simp only [Board.serve, hf₂], rfl⟩
            | none =>
                exact play_call_isSome.mpr ⟨.ok (), _, by simp only [Board.serve, hf₂]; rfl, rfl⟩

/-- Without a packet size every iteration sends an empty packet, and the next one
finds as many bytes to write. -/
theorem writeLoop_endless (hout : cfg.outBufSize = 0) {wrote : ℕ} (hmore : wrote < buf.length) :
    ¬ (play (Board.serve view) (writeLoop cfg buf bound wrote) b fun _ => .ok 1).isSome = true := by
  induction bound generalizing b with
  | zero =>
      unfold writeLoop
      rw [if_pos hmore]
      exact Bool.false_ne_true
  | succ bound ih =>
      intro hs
      unfold writeLoop at hs
      rw [if_pos hmore] at hs
      rcases play_call_isSome.mp hs with ⟨r₁, m₁, hr₁, hs⟩
      cases hr₁
      rcases play_call_isSome.mp hs with ⟨r₂, m₂, hr₂, hs⟩
      cases hr₂
      have hnone : min 1 (nextPacket cfg buf wrote).length = 0 := by
        have hlen := nextPacket_length cfg buf wrote
        omega
      have hstay : wrote + min 1 (nextPacket cfg buf wrote).length = wrote := by omega
      have hgo : (play (Board.serve view)
          (writeLoop cfg buf bound (wrote + min 1 (nextPacket cfg buf wrote).length)) _
          fun _ => .ok 1).isSome = true := hs
      rw [hstay] at hgo
      exact ih hgo

/-! ## Chunking -/

/-- A packet that the loop sends after the board has accepted `wrote` bytes: its size
is what the C expression says, it fits the endpoint and the bytes that remain, and it
is the next part of them. -/
structure NextPart (cfg : Config) (buf : List UInt8) (wrote : ℕ) (data : List UInt8) : Prop where
  size : (data.length : ℤ) = writeSizeOf cfg.outBufSize buf.length wrote
  fits : data.length ≤ cfg.outBufSize
  within : wrote + data.length ≤ buf.length
  part : data = (buf.drop wrote).take data.length

theorem nextPart_nextPacket (hint : cfg.outBufSize < 2 ^ 31) (hcnt : buf.length ≤ MAX_RW_COUNT)
    {wrote : ℕ} (hwrote : wrote ≤ buf.length) :
    NextPart cfg buf wrote (nextPacket cfg buf wrote) := by
  have hlen := nextPacket_length cfg buf wrote
  refine ⟨?_, by omega, by omega, by rw [hlen]; rfl⟩
  rw [writeSizeOf_eq hint hcnt hwrote, hlen]

/-- The write law, for every length up to the limit of the VFS and every packet size
that is positive: the call returns when each successful packet moves a byte; the
packets are the next parts of the user's bytes, what the board accepts of them is in
order and without gaps or repetitions, all of it once nothing fails, and a call that
succeeds has written all and moved the position by as much. -/
theorem write_chunks (hout : 1 ≤ cfg.outBufSize) (hint : cfg.outBufSize < 2 ^ 31)
    (hcnt : buf.length ≤ MAX_RW_COUNT) :
    (∀ wrote ≤ buf.length, goesOn buf.length wrote ↔ wrote < buf.length) ∧
    (∀ (b : Board) (off : ℤ) (ds : ℕ → Choice β), Obliging ds →
      (play (Board.serve view) (ddkWrite cfg buf.length buf off) b ds).isSome = true) ∧
    ∀ (bound : ℕ) (b : Board) (off : ℤ) (cs : List (Choice β)) (r : Transfer) (b' : Board)
      (l : List (BoardEntry β)),
      exec (Board.serve view) (ddkWrite cfg bound buf off) b cs = some (r, b', l) →
      (∀ l₁ e l₂ data, l = l₁ ++ e :: l₂ → e.op = .interruptOut data →
        NextPart cfg buf (accepted l₁).length data) ∧
      accepted l <+: buf ∧ (Delivers l → accepted l = buf) ∧
      (0 ≤ r.ret → accepted l = buf ∧ r.ret = buf.length ∧ r.off = off + buf.length) := by
  refine ⟨fun wrote hwrote => goesOn_iff hcnt hwrote,
    fun b off ds hds => ddkWrite_returns (fun _ => hout) hds, ?_⟩
  intro bound b off cs r b' l h
  rcases write_end h with ⟨hpackets, horder, hend⟩
  refine ⟨?_, horder, ?_, ?_⟩
  · rintro l₁ e l₂ data rfl hop
    have hwrote : (accepted l₁).length ≤ buf.length := by
      have hle := horder.length_le
      rw [accepted_append, List.length_append] at hle
      omega
    have hdata := packets_split hpackets hop
    rw [Nat.zero_add] at hdata
    rw [hdata]
    exact nextPart_nextPacket hint hcnt hwrote
  · intro hdeliver
    cases hend with
    | early hret hoff hfail hquiet => exact absurd hdeliver hfail
    | late hret hoff hall hquiet => exact hall
    | done hret hoff hall hl => exact hall
  · intro hret
    cases hend with
    | early hneg hoff hfail hquiet => omega
    | late hneg hoff hall hquiet => omega
    | done hret' hoff hall hl => exact ⟨hall, hret', hoff⟩

/-- Six bytes in packets of four, of which the first is accepted by half. -/
def shortPackets : List (Choice UInt8) :=
  [.ok 0, .ok 0, .ok 2, .ok 0, .ok 4, .ok 0, .ok 0]

def sixBytes : List UInt8 := [1, 2, 3, 4, 5, 6]

/-- A `ddk_write` at 7 with packets of four bytes. -/
def writeAtSeven (buf : List UInt8) (cs : List (Choice UInt8)) :
    Option (Transfer × Board × List (BoardEntry UInt8)) :=
  exec (Board.serve fun _ byte => byte) (ddkWrite ⟨4, 4⟩ 8 buf 7) zeroBoard cs

theorem write_chunks_six : ∃ r b' l, writeAtSeven sixBytes shortPackets = some (r, b', l) ∧
    accepted l = sixBytes ∧ r.ret = 6 ∧ r.off = 13 := by
  obtain ⟨⟨r, b', l⟩, h⟩ := Option.isSome_iff_exists.mp
    (show (writeAtSeven sixBytes shortPackets).isSome = true by decide)
  have hret : (writeAtSeven sixBytes shortPackets).map (fun x => x.1.ret) = some 6 := by decide
  rw [h, Option.map_some, Option.some.injEq] at hret
  obtain ⟨-, -, hlaw⟩ := @write_chunks UInt8 (fun _ byte => byte) ⟨4, 4⟩ sixBytes
    (by decide) (by decide) (by decide)
  obtain ⟨-, -, -, hdone⟩ := hlaw 8 zeroBoard 7 shortPackets r b' l h
  obtain ⟨hall, -, hoff⟩ := hdone (by rw [hret]; decide)
  exact ⟨r, b', l, h, hall, hret, hoff⟩

/-! ## Accounting -/

/-- The board has accepted as many bytes as the return value says, none for an error,
and the position has moved by as many. -/
def Exact (off : ℤ) (r : Transfer) (l : List (BoardEntry β)) : Prop :=
  ((accepted l).length : ℤ) = max r.ret 0 ∧
    r.off = if 0 ≤ r.ret then off + (accepted l).length else off

instance (off : ℤ) (r : Transfer) (l : List (BoardEntry β)) : Decidable (Exact off r l) :=
  inferInstanceAs (Decidable (_ ∧ _))

/-- A `ddk_write` reports exactly what the board took if and only if no copy, no packet
and no offset message fails once the board has accepted a byte. -/
theorem exact_iff {r : Transfer}
    (h : exec (Board.serve view) (ddkWrite cfg bound buf off) b cs = some (r, b', l)) :
    Exact off r l ↔ Quiet l := by
  rcases write_end h with ⟨-, -, hend⟩
  cases hend with
  | early hret hoff hfail hquiet =>
      have hneg : ¬ 0 ≤ r.ret := by omega
      have hmax : max r.ret 0 = 0 := by omega
      rw [hquiet, Exact, if_neg hneg, hmax, ← List.length_eq_zero_iff]
      constructor
      · rintro ⟨hcount, -⟩
        omega
      · intro hnone
        exact ⟨by omega, hoff⟩
  | late hret hoff hall hquiet =>
      have hneg : ¬ 0 ≤ r.ret := by omega
      have hmax : max r.ret 0 = 0 := by omega
      rw [hquiet, Exact, if_neg hneg, hmax, hall, ← List.length_eq_zero_iff]
      constructor
      · rintro ⟨hcount, -⟩
        omega
      · intro hnone
        exact ⟨by omega, by omega⟩
  | done hret hoff hall hl =>
      have hpos : 0 ≤ r.ret := by omega
      have hmax : max r.ret 0 = r.ret := by omega
      refine iff_of_true ?_ hl.quiet
      rw [Exact, if_pos hpos, hall, hmax]
      exact ⟨hret.symm, hoff⟩

theorem exact_iff_six : ∃ r b' l, writeAtSeven sixBytes shortPackets = some (r, b', l) ∧
    Exact 7 r l := by
  obtain ⟨⟨r, b', l⟩, h⟩ := Option.isSome_iff_exists.mp
    (show (writeAtSeven sixBytes shortPackets).isSome = true by decide)
  have hsmooth : (writeAtSeven sixBytes shortPackets).map (fun x => x.2.2.map Fails) =
      some [false, false, false, false, false, false, false] := by decide
  rw [h, Option.map_some, Option.some.injEq] at hsmooth
  have hquiet : Smooth l := by
    intro e he
    have hmem := List.mem_map_of_mem (f := Fails) he
    rw [hsmooth] at hmem
    simpa using hmem
  exact ⟨r, b', l, h, (exact_iff h).mpr hquiet.quiet⟩

/-- The second of two packets fails: the call returns an error and the position stays
at 7, and the board has four new bytes. With the message for the read offset failing,
all six bytes are there, and the position is 13. -/
theorem exact_lost :
    ((writeAtSeven sixBytes [.ok 0, .ok 0, .ok 4, .ok 0, .err EPROTO, .ok 0]).map
        fun x => (x.1, (accepted x.2.2).length, decide (Exact 7 x.1 x.2.2))) =
      some (⟨-71, 7⟩, 4, false) ∧
    ((writeAtSeven sixBytes (shortPackets.take 6 ++ [.err EPROTO])).map
        fun x => (x.1, (accepted x.2.2).length, decide (Exact 7 x.1 x.2.2))) =
      some (⟨-71, 13⟩, 6, false) :=
  ⟨by decide, by decide⟩

/-! ## The packet size that `ddk_open` does not check -/

/-- `wMaxPacketSize` of the last OUT descriptor, 0 if there is none. -/
def Interface.outSize (interface : Interface) : ℕ :=
  ((interface.endpoint.filter fun ep => ep.bEndpointAddress = MEM_EP_OUT).getLast?.map
    Endpoint.wMaxPacketSize).getD 0

/-- The endpoint loop keeps the size of the last OUT descriptor. -/
theorem outBufSize_scan (eps : List Endpoint) (cfg : Config) :
    (eps.foldl Config.scan cfg).outBufSize =
      ((eps.filter fun ep => ep.bEndpointAddress = MEM_EP_OUT).getLast?.map
        Endpoint.wMaxPacketSize).getD cfg.outBufSize := by
  induction eps generalizing cfg with
  | nil => rfl
  | cons ep eps ih =>
      rw [List.foldl_cons, ih, List.filter_cons]
      by_cases hout : ep.bEndpointAddress = MEM_EP_OUT
      · rw [if_pos (decide_eq_true hout), List.getLast?_cons]
        have hscan : (cfg.scan ep).outBufSize = ep.wMaxPacketSize := by
          simp only [Config.scan, if_pos hout]
        rw [hscan]
        cases (eps.filter fun ep => ep.bEndpointAddress = MEM_EP_OUT).getLast? <;> rfl
      · have hno : ¬ decide (ep.bEndpointAddress = MEM_EP_OUT) = true := by
          rw [decide_eq_true_eq]
          exact hout
        have hscan : (cfg.scan ep).outBufSize = cfg.outBufSize := by
          simp only [Config.scan, if_neg hout]
          split <;> rfl
        rw [if_neg hno, hscan]

theorem outBufSize_config (interface : Interface) :
    interface.config.outBufSize = interface.outSize :=
  outBufSize_scan interface.endpoint ⟨0, 0⟩

/-- The packet loop ends: some number of iterations is enough, whatever the board, the
position and the answers are that the USB core is allowed. -/
def Ends (cfg : Config) (buf : List UInt8) : Prop :=
  ∃ bound, ∀ (b : Board) (off : ℤ) (ds : ℕ → Choice UInt8), Obliging ds →
    (play (Board.serve fun _ byte => byte) (ddkWrite cfg bound buf off) b ds).isSome = true

theorem not_ends (hout : cfg.outBufSize = 0) (hbuf : buf ≠ []) : ¬ Ends cfg buf := by
  rintro ⟨bound, hall⟩
  have hobliging : Obliging fun _ => (Choice.ok 1 : Choice UInt8) := fun _ => Nat.le_refl 1
  have hs := hall zeroBoard 0 _ hobliging
  rcases play_call_isSome.mp hs with ⟨r, m, hr, hs⟩
  cases hr
  have hloop := play_bind_isSome_left
    (show (play _ ((writeLoop cfg buf bound 0).bind _) _ _).isSome = true from hs)
  exact writeLoop_endless hout (List.length_pos_iff.mpr hbuf) hloop

/-- The packet loop of `ddk_write` ends for the bytes `buf` if and only if there are
none, or the last OUT descriptor that `ddk_probe` sees has a packet size. -/
theorem ends_iff (interface : Interface) (buf : List UInt8) :
    Ends interface.config buf ↔ buf = [] ∨ interface.outSize ≠ 0 := by
  rw [← outBufSize_config]
  constructor
  · intro hends
    by_cases hbuf : buf = []
    · exact Or.inl hbuf
    · exact Or.inr fun hout => not_ends hout hbuf hends
  · intro hor
    refine ⟨buf.length, fun b off ds hds => ddkWrite_returns ?_ hds⟩
    intro hbuf
    have hout := hor.resolve_left hbuf
    omega

/-- A board without an OUT endpoint. -/
def inOnly : Interface := ⟨0, [⟨MEM_EP_IN, 8⟩]⟩

/-- `ddk_open` accepts it, and a `ddk_write` of one byte does not end. -/
theorem ends_inOnly :
    ((exec (Kernel.serve fun _ byte => byte) (ddkOpen inOnly.config) upKernel
        [.ok 0, .ok 0, .ok 0, heap8, .ok 0, .ok 0, .ok 0, .ok 0]).bind fun x =>
      match x.1 with
      | .ok file => some file.inBufLeftOver
      | .error _ => none) = some 0 ∧
    ¬ Ends inOnly.config [1] :=
  ⟨by decide, not_ends (by decide) (by decide)⟩

end DdkMem
