import DriversLab.DdkMem.Extended

/-!
# DdkMem.Sending — option 10 of `use_ops_extended.c`

The menu sends a message: it resets the write offset to 0, writes the message, and
confirms it when `write` has returned its length. Here the menu runs over `ddk_mem.c`,
on a descriptor that nobody else uses, for one message after the other.

* `wp_ddkWrite`: what a `ddk_write` of `ddk_mem.c` stores, and where;
* `sends_append`: the reset has no effect, the confirmed messages are stored one behind
  the other from the position of the file on.

What the menu prints and the blinking of the LED are left out.
-/

namespace DdkMem

open CInt Interact

variable {β : Type}

/-! ## The program -/

/-- Option 10: whether the message is confirmed, and the position of the file. -/
def sendUsb (cfg : Config) (bound : ℕ) (data : List UInt8) (fPos : ℤ) : Driver β (Bool × ℤ) := do
  if (← ddkIoctl .wrOffSet 0) < 0 then
    return (false, fPos)
  else
    let nWr ← ddkWrite cfg bound data fPos
    if nWr.ret < 0 then
      return (false, fPos)
    else
      return (nWr.ret = data.length, nWr.off)

/-- The menu, asked for option 10 again and again: the messages that it confirms. -/
def sendAll (cfg : Config) (bound : ℕ) :
    List (List UInt8) → ℤ → Driver β (List (List UInt8) × ℤ)
  | [], fPos => return ([], fPos)
  | data :: rest, fPos => do
      let sent ← sendUsb cfg bound data fPos
      let others ← sendAll cfg bound rest sent.2
      return (if sent.1 then data :: others.1 else others.1, others.2)

/-! ## What is stored -/

section Stored

variable {view : ℕ → UInt8 → β} {allowed : Choice β → Prop} {cfg : Config} {k : Kernel}

/-- A `ddk_write` of `ddk_mem.c` stores at the position of the file. -/
theorem wp_ddkWrite_stored (bound : ℕ) (buf : List UInt8) (off : ℤ) :
    Wp (Kernel.serve view) allowed (ddkWrite cfg bound buf off) k fun r m =>
      ∃ n ≤ buf.length, m.board.mem = Board.store k.board.mem (toU16 off) (buf.take n) ∧
        (0 ≤ r.ret → r.ret = n ∧ n = buf.length ∧ r.off = off + n) := by
  have hfailed (m : Kernel) (e : Errno) (p : ℤ) {n : ℕ} (hn : n ≤ buf.length)
      (hm : m.board.mem = Board.store k.board.mem (toU16 off) (buf.take n)) :
      ∃ n ≤ buf.length, m.board.mem = Board.store k.board.mem (toU16 off) (buf.take n) ∧
        (0 ≤ (Transfer.mk e.val p).ret → (Transfer.mk e.val p).ret = n ∧ n = buf.length ∧
          (Transfer.mk e.val p).off = off + n) := by
    refine ⟨n, hn, hm, ?_⟩
    intro hret
    have hneg := e.neg
    have hret' : 0 ≤ e.val := hret
    omega
  unfold ddkWrite
  simp only [writeLoop_eq]
  apply wp_set
  · intro e
    exact hfailed k e off (Nat.zero_le _) (store_nil _ _).symm
  · have hhook : (perform .ddkExtOnWriteFail : Driver β Unit).Only Op.KeepsMem :=
      ⟨trivial, fun _ => trivial⟩
    refine wp_seq (wp_packetLoop hhook bound (Nat.zero_le _) rfl (store_nil _ _).symm) ?_
    rintro r m ⟨n, hn, hm, hr⟩
    cases r with
    | error e => exact hfailed m e off hn hm
    | ok c =>
        obtain ⟨rfl, hall⟩ := hr c rfl
        apply wp_quiet (by trivial)
        intro _ m' hm'
        rw [← hm'] at hm
        apply wp_set
        · -- everything is stored, but the message for the read offset fails
          intro e
          exact hfailed m' e _ hn hm
        · exact ⟨c, hn, hm, fun _ => ⟨rfl, hall, rfl⟩⟩

/-- One message at the position `p`: a part of it is stored there, and all of it when it
is confirmed; only then does the position move. -/
theorem wp_sendUsb (bound : ℕ) (data : List UInt8) {p : ℤ} (hp : 0 ≤ p ∧ p < 2 ^ 16) :
    Wp (Kernel.serve view) allowed (sendUsb cfg bound data p) k fun r m =>
      ∃ n ≤ data.length, m.board.mem = Board.store k.board.mem p.toNat (data.take n) ∧
        (r = (true, p + data.length) ∧ n = data.length ∨ r = (false, p)) := by
  refine wp_seq (wp_query (only_ioctlSet .eWrite 0)) ?_
  intro ret m hm
  split
  · exact ⟨0, Nat.zero_le _, hm.trans (store_nil _ _).symm, .inr rfl⟩
  · refine wp_seq (wp_ddkWrite_stored bound data p) ?_
    rintro ⟨ret, off⟩ m' ⟨n, hn, hm', hret⟩
    rw [hm, show toU16 p = p.toNat by unfold toU16; omega] at hm'
    show Wp _ _ (ite _ _ _) _ _
    split
    · exact ⟨n, hn, hm', .inr rfl⟩
    · rename_i hpos
      have hcount : 0 ≤ ret := by
        have hnot : ¬ ret < 0 := hpos
        omega
      obtain ⟨rfl, rfl, rfl⟩ := hret hcount
      exact ⟨_, hn, hm', .inl ⟨by simp, rfl⟩⟩

end Stored

/-! ## Message after message -/

section Messages

variable {mem mem' : ℕ → UInt8} {a n : ℕ}

/-- The bytes of the memory themselves. -/
def bytesAt (mem : ℕ → UInt8) (a n : ℕ) : List UInt8 := segment (fun _ byte => byte) mem a n

theorem bytesAt_congr (h : ∀ x, a ≤ x → x < a + n → mem' x = mem x) :
    bytesAt mem' a n = bytesAt mem a n := by
  apply List.map_congr_left
  intro x hx
  obtain ⟨hge, hlt⟩ := List.mem_range'_1.mp hx
  exact h x hge hlt

theorem bytesAt_store (mem : ℕ → UInt8) (a : ℕ) (data : List UInt8) :
    bytesAt (Board.store mem a data) a data.length = data := by
  apply List.ext_getElem
  · exact segment_length _ _
  · intro i h₁ h₂
    have hi : a ≤ a + i := Nat.le_add_right _ _
    simp only [bytesAt, segment, List.getElem_map, List.getElem_range', Nat.one_mul, Board.store,
      if_pos hi, Nat.add_sub_cancel_left, List.getElem?_eq_getElem h₂, Option.getD_some]

/-- `msgs` stand one behind the other from `p` on, and below `p` nothing has changed. -/
structure Appended (mem mem' : ℕ → UInt8) (p : ℕ) (msgs : List (List UInt8)) : Prop where
  placed : bytesAt mem' p msgs.flatten.length = msgs.flatten
  below : ∀ x < p, mem' x = mem x

theorem appended_nil (mem : ℕ → UInt8) (p : ℕ) : Appended mem mem p [] := ⟨rfl, fun _ _ => rfl⟩

/-- A message that fails leaves its bytes above `p` only, where the later ones go. -/
theorem Appended.failed {p : ℕ} {part : List UInt8} {msgs : List (List UInt8)}
    (h : Appended (Board.store mem p part) mem' p msgs) : Appended mem mem' p msgs := by
  refine ⟨h.placed, ?_⟩
  intro x hx
  rw [h.below x hx, store_of_notMem (by omega)]

theorem Appended.cons {p : ℕ} {data : List UInt8} {msgs : List (List UInt8)}
    (h : Appended (Board.store mem p data) mem' (p + data.length) msgs) :
    Appended mem mem' p (data :: msgs) := by
  have hdata : bytesAt mem' p data.length = data := by
    rw [bytesAt_congr fun x _ hx => h.below x hx, bytesAt_store]
  constructor
  · rw [List.flatten_cons, List.length_append]
    show segment _ _ _ _ = _
    rw [← segment_append]
    exact congrArg₂ (· ++ ·) hdata h.placed
  · intro x hx
    rw [h.below x (by omega), store_of_notMem (by omega)]

variable {view : ℕ → UInt8 → β} {allowed : Choice β → Prop} {cfg : Config} {k : Kernel}

theorem wp_sendAll (bound : ℕ) {msgs : List (List UInt8)} {p : ℤ} (hp : 0 ≤ p)
    (hfits : p + msgs.flatten.length < 2 ^ 16) :
    Wp (Kernel.serve view) allowed (sendAll cfg bound msgs p) k fun r m =>
      r.2 = p + r.1.flatten.length ∧ Appended k.board.mem m.board.mem p.toNat r.1 := by
  induction msgs generalizing k p with
  | nil => exact ⟨by simp, appended_nil _ _⟩
  | cons data rest ih =>
      rw [List.flatten_cons, List.length_append] at hfits
      refine wp_seq (wp_sendUsb bound data ⟨hp, by omega⟩) ?_
      rintro sent m ⟨n, hn, hm, ⟨rfl, rfl⟩ | rfl⟩
      · -- confirmed: the next message goes behind it
        refine wp_seq (ih (p := p + data.length) (by omega) (by omega)) ?_
        rintro ⟨others, p'⟩ m' ⟨hpos, happ⟩
        have hnext : (p + data.length).toNat = p.toNat + data.length := by omega
        rw [hnext, hm, List.take_length] at happ
        refine ⟨?_, happ.cons⟩
        show p' = p + ((data :: others).flatten.length : ℤ)
        have hpos' : p' = p + data.length + others.flatten.length := hpos
        rw [List.flatten_cons, List.length_append]
        omega
      · -- not confirmed: the next one starts at the same place
        refine wp_seq (ih hp (by omega)) ?_
        rintro ⟨others, p'⟩ m' ⟨hpos, happ⟩
        rw [hm] at happ
        exact ⟨hpos, happ.failed⟩

/-- Over `ddk_mem.c` the reset of the menu has no effect. Send messages one after the
other, on a descriptor at `p` that nobody else uses, with any lengths, packets and
failures: the messages that the menu confirms stand one behind the other from `p` on,
the position is behind the last of them, and below `p` the memory is as it was. -/
theorem sends_append {bound : ℕ} {msgs : List (List UInt8)} {p p' : ℤ} {k' : Kernel}
    {cs : List (Choice β)} {sent : List (List UInt8)} {l : List (Entry (Op β) Kernel (Choice β))}
    (hp : 0 ≤ p) (hfits : p + msgs.flatten.length < 2 ^ 16)
    (hrun : exec (Kernel.serve view) (sendAll cfg bound msgs p) k cs = some ((sent, p'), k', l)) :
    p' = p + sent.flatten.length ∧ Appended k.board.mem k'.board.mem p.toNat sent := by
  have hwp : Wp (Kernel.serve view) (fun _ => True) (sendAll cfg bound msgs p) k fun r m =>
      r.2 = p + r.1.flatten.length ∧ Appended k.board.mem m.board.mem p.toNat r.1 :=
    wp_sendAll bound hp hfits
  have hsent := wp_exec hwp (fun _ _ => trivial) hrun
  exact hsent

end Messages

/-- Three messages, of which the second loses its second packet. -/
def threeSends : Option ((List (List UInt8) × ℤ) × Kernel ×
    List (Entry (Op UInt8) Kernel (Choice UInt8))) :=
  exec (Kernel.serve fun _ byte => byte) (sendAll ⟨8, 2⟩ 4 [[1, 2], [3, 4, 5], [6]] 5) smallKernel
    [.ok 0, .ok 0, .ok 0, .ok 2, .ok 0, .ok 0,
      .ok 0, .ok 0, .ok 0, .ok 2, .ok 0, .err EPROTO, .ok 0,
      .ok 0, .ok 0, .ok 0, .ok 1, .ok 0, .ok 0]

/-- The first and the third are stored from 5 on. -/
theorem sends_append_three : ∃ x, threeSends = some x ∧ x.1.1 = [[1, 2], [6]] ∧
    x.1.2 = 8 ∧ Appended (fun _ => 0) x.2.1.board.mem 5 [[1, 2], [6]] := by
  obtain ⟨⟨⟨sent, p'⟩, k', l⟩, hx⟩ := Option.isSome_iff_exists.mp
    (show threeSends.isSome = true by decide)
  have hsent : threeSends.map (fun x => x.1.1) = some [[1, 2], [6]] := by decide
  rw [hx, Option.map_some, Option.some.injEq] at hsent
  have hsent' : sent = [[1, 2], [6]] := hsent
  subst hsent'
  obtain ⟨hpos, happ⟩ := sends_append (by decide) (by decide) hx
  exact ⟨_, hx, rfl, hpos, happ⟩

end DdkMem
