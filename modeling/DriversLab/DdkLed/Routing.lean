import DriversLab.DdkLed.Led

/-!
# DdkLed.Routing — which board an LED message reaches

`ddk_dev.device` is overwritten by every probe of an interface without endpoints, also
by one that fails in the end, and never cleared.

* `lastProbed`, `boundIn`: what the history of a run says about the boards;
* `kept_step`: the driver's state is what the history says;
* `routing`: the messages reach the right, bound boards exactly when the board that is
  meant was the last one probed and is still bound.
-/

namespace DdkLed

open Lts

/-! ## The history, latest action first -/

/-- The board whose LED interface was probed last, with or without success. -/
def lastProbed : List LedAct → Option ℕ
  | [] => none
  | .probe i _ :: past => if i.bNumEndpoints = 0 then some i.board else lastProbed past
  | _ :: past => lastProbed past

/-- The last thing that happened to the interface was a successful probe. -/
def boundIn : List LedAct → Interface → Bool
  | [], _ => false
  | .probe k (.ok _) :: past, i => (k = i && k.bNumEndpoints = 0) || boundIn past i
  | .disconnect k :: past, i => k ≠ i && boundIn past i
  | _ :: past, i => boundIn past i

/-- The board was the last one probed, and one of its interfaces is still bound. -/
def Current (past : List LedAct) (board : ℕ) : Prop :=
  lastProbed past = some board ∧ ∃ i, i.board = board ∧ boundIn past i = true

/-- The system with its history. -/
def logged : LedSys × List LedAct → LedAct → Option (LedSys × List LedAct) :=
  recorded step fun _ a past => a :: past

/-! ## What is promised, and when it holds -/

/-- A `usb_device` is bound when one of its interfaces is. -/
def Bound (s : LedSys) (board : ℕ) : Prop := ∃ x ∈ s.minors, x.2.board = board

/-- A message goes to a board that is bound: that of an ioctl to the board whose minor
was opened, and `blink_worker` sends none while no interface is bound. -/
structure Addressed (s : LedSys) (a : LedAct) (msg : Message) : Prop where
  bound : ∃ board, msg.target = some board ∧ Bound s board
  opened : ∀ f board cmd ans, a = .ioctl f board cmd ans → msg.target = some board
  attached : ∀ val, a = .ledCtrl val → s.minors ≠ []

/-- The board that is meant is current: the one whose minor was opened, or any for
`blink_worker`. -/
def Timely (past : List LedAct) : LedAct → Prop
  | .ioctl _ board cmd _ => cmd ≠ .other → Current past board
  | .ledCtrl _ => ∃ board, Current past board
  | _ => True

/-! ## The state is what the history says -/

structure Kept (c : LedSys × List LedAct) : Prop where
  device : c.1.dev.device = lastProbed c.2
  bound : ∀ i, (∃ x ∈ c.1.minors, x.2 = i) ↔ boundIn c.2 i = true

section Kept

variable {s : LedSys} {past : List LedAct}

theorem kept_probe (hk : Kept (s, past)) (i : Interface) (reg : Except ℤ ℕ) :
    Kept (update s (.probe i reg), .probe i reg :: past) := by
  rcases hk with ⟨hdevice, hbound⟩
  constructor
  · simp only [update, ddkProbe, lastProbed]
    split
    · cases reg <;> rfl
    · exact hdevice
  · intro k
    have hk := hbound k
    cases reg with
    | error retval => exact hk
    | ok minor =>
        -- usb_register_dev is reached only by an interface without endpoints
        simp only [update, register, boundIn, Bool.or_eq_true, ← hk]
        by_cases hzero : i.bNumEndpoints = 0
        · simp [hzero]
        · simp [hzero]

theorem kept_disconnect (hk : Kept (s, past)) (i : Interface) :
    Kept (update s (.disconnect i), .disconnect i :: past) := by
  rcases hk with ⟨hdevice, hbound⟩
  refine ⟨hdevice, ?_⟩
  intro k
  simp only [update, boundIn, Bool.and_eq_true, ← hbound k, List.mem_filter, decide_eq_true_eq]
  constructor
  · rintro ⟨x, ⟨hx, hne⟩, rfl⟩
    exact ⟨fun h => hne h.symm, x, hx, rfl⟩
  · rintro ⟨hne, x, hx, rfl⟩
    exact ⟨x, ⟨hx, fun h => hne h.symm⟩, rfl⟩

theorem kept_step {c c' : LedSys × List LedAct} {a : LedAct} (hk : Kept c)
    (hs : logged c a = some c') : Kept c' := by
  rcases recorded_eq_some.mp hs with ⟨hstep, hpast⟩
  rcases guarded_eq_some.mp hstep with ⟨_, hu⟩
  rcases c with ⟨s, past⟩
  rcases c' with ⟨s', past'⟩
  simp only at hu hpast
  subst hu hpast
  cases a with
  | probe i reg => exact kept_probe hk i reg
  | disconnect i => exact kept_disconnect hk i
  | openFile minor i => exact ⟨hk.device, hk.bound⟩
  | close f board => exact ⟨hk.device, hk.bound⟩
  | ioctl f board cmd ans => exact ⟨hk.device, hk.bound⟩
  | ledCtrl val => exact ⟨hk.device, hk.bound⟩

theorem kept_init : Kept (init, []) := by
  refine ⟨rfl, ?_⟩
  intro i
  simp [init, boundIn]

/-- A board is current when the pointer is to it and it is bound. -/
theorem current_iff (hk : Kept (s, past)) (board : ℕ) :
    Current past board ↔ s.dev.device = some board ∧ Bound s board := by
  have hbound : (∃ i, i.board = board ∧ boundIn past i = true) ↔ Bound s board := by
    constructor
    · rintro ⟨i, rfl, hi⟩
      rcases (hk.bound i).mpr hi with ⟨x, hx, rfl⟩
      exact ⟨x, hx, rfl⟩
    · rintro ⟨x, hx, rfl⟩
      exact ⟨x.2, rfl, (hk.bound x.2).mp ⟨x, hx, rfl⟩⟩
  unfold Current
  rw [hbound, ← hk.device]

end Kept

/-! ## The law -/

/-- In a state of the history, the message of an action reaches the right board exactly
when that board is current. -/
theorem addressed_iff {s : LedSys} {past : List LedAct} (hk : Kept (s, past)) (a : LedAct) :
    (∀ msg, message s a = some msg → Addressed s a msg) ↔ Timely past a := by
  cases a with
  | ioctl f board cmd ans =>
      constructor
      · intro h hcmd
        -- both commands send a message, whatever the board answers
        have hsends : ∃ msg, message s (.ioctl f board cmd ans) = some msg := by
          cases cmd with
          | other => exact absurd rfl hcmd
          | get => simp only [message, ddkIoctl]; split <;> [skip; split] <;> exact ⟨_, rfl⟩
          | set arg => simp only [message, ddkIoctl]; split <;> exact ⟨_, rfl⟩
        rcases hsends with ⟨msg, hmsg⟩
        have haddr := h msg hmsg
        rcases haddr.bound with ⟨b, hb, hbound⟩
        have hmine := haddr.opened f board cmd ans rfl
        -- the bound board that the message goes to is the one that was opened
        cases hb.symm.trans hmine
        rw [current_iff hk, ← message_target hmsg]
        exact ⟨hmine, hbound⟩
      · intro h msg hmsg
        have hcmd : cmd ≠ .other := by
          rintro rfl
          cases hmsg
        rcases (current_iff hk board).mp (h hcmd) with ⟨hdevice, hbound⟩
        have htarget := (message_target hmsg).trans hdevice
        refine ⟨⟨board, htarget, hbound⟩, ?_, ?_⟩
        · intro f' b' cmd' ans' heq
          cases heq
          exact htarget
        · intro val heq
          cases heq
  | ledCtrl val =>
      constructor
      · intro h
        rcases (h _ rfl).bound with ⟨b, hb, hbound⟩
        exact ⟨b, (current_iff hk b).mpr ⟨hb, hbound⟩⟩
      · rintro ⟨b, hb⟩ msg hmsg
        rcases (current_iff hk b).mp hb with ⟨hdevice, hbound⟩
        refine ⟨⟨b, (message_target hmsg).trans hdevice, hbound⟩, ?_, ?_⟩
        · intro f' b' cmd' ans' heq
          cases heq
        · intro _ _
          rcases hbound with ⟨x, hx, _⟩
          exact List.ne_nil_of_mem hx
  | _ => exact ⟨fun _ => trivial, fun _ _ h => by cases h⟩

/-- In a run from the loading of the module every LED message is addressed to the board
it is meant for, and that is bound, exactly when at each ioctl the board whose minor was
opened, and at each call of `blink_worker` some board, was the last one whose LED
interface was probed and has not been disconnected since. -/
theorem routing (as : List LedAct) :
    Along logged (fun c a => ∀ c', logged c a = some c' →
        ∀ msg, message c.1 a = some msg → Addressed c.1 a msg) (init, []) as ↔
      Along logged (fun c a => ∀ c', logged c a = some c' → Timely c.2 a) (init, []) as := by
  have hiff : ∀ c a, Kept c → True →
      ((∀ c', logged c a = some c' → ∀ msg, message c.1 a = some msg → Addressed c.1 a msg) ↔
        ∀ c', logged c a = some c' → Timely c.2 a) := by
    intro c a hk _
    have haddr := addressed_iff hk a
    constructor
    · intro h c' hs
      exact haddr.mp (h c' hs)
    · intro h c' hs
      exact haddr.mpr (h c' hs)
  exact along_iff hiff (fun _ _ _ hk _ _ hs => kept_step hk hs) kept_init
    (along_of_forall fun _ _ _ => trivial)

/-- The LED interface of a board. -/
def led (board : ℕ) : Interface := ⟨board, 0, 0⟩

/-- Two boards are plugged in, the first one's minor is opened, the second one is
unplugged. -/
def twoBoards : List LedAct :=
  [.probe (led 0) (.ok 0), .probe (led 1) (.ok 1), .openFile 0 (led 0), .disconnect (led 1)]

/-- An ioctl on the first board, and a call of `blink_worker`, go to the second one, which
is gone. -/
theorem routing_stale : ∃ s past, run logged (init, []) twoBoards = some (s, past) ∧
    s.files[0]? = some (some 0) ∧ s.minors = [(0, led 0)] ∧
    message s (.ioctl 0 0 (.set 1) ⟨0, 0, false⟩) = some ⟨some 1, .setLedStatus 1⟩ ∧
    ¬ Addressed s (.ioctl 0 0 (.set 1) ⟨0, 0, false⟩) ⟨some 1, .setLedStatus 1⟩ ∧
    message s (.ledCtrl 1) = some ⟨some 1, .setLedStatus 1⟩ := by
  refine ⟨_, _, rfl, rfl, rfl, rfl, ?_, rfl⟩
  intro h
  cases h.opened 0 0 _ _ rfl

end DdkLed
