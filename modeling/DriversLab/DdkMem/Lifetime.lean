import DriversLab.DdkMem.Kernel

/-!
# DdkMem.Lifetime — the board record against hot-unplug

Two typestates, and an invariant that ties them to the kernel:

* `refs`: how a file operation comes to the record and is done with it:
  `ddk_open` finds it in the interface data, waits for the mutex, and is through
  unless it fails; every other call has it from its file;
* `hubOrder`: where `ddk_probe` and `ddk_disconnect` stand;
* `Secure`: what holds at each stage of the hub thread;
* `lifetime`: if nobody uses the board when `ddk_disconnect` reaches
  `ddk_ext_cleanup`, nothing freed, uninitialised or cleaned up is ever used.

`ddk_disconnect` does not see to that condition: `open_cnt` is never tested.
-/

namespace DdkMem

open Interact

variable {β : Type}

/-! ## What a call holds -/

/-- How far a file operation has come to the record. -/
inductive Ref where
  /-- It has not found the record, or is done with it. -/
  | none
  /-- A `ddk_open` that has the pointer, but is not past `mutex_lock`. -/
  | found
  | inside
  /-- Inside, with the memory for its file. -/
  | stocked
  /-- A `ddk_open` past `mutex_unlock`. -/
  | opening
  /-- Any other call, which has the record from its file. -/
  | passed
deriving DecidableEq, Repr

/-- Through the mutex, or given the record by its file. -/
def Ref.Past : Ref → Prop
  | .none | .found => False
  | .inside | .stocked | .opening | .passed => True

/-- The operations that dereference the record. `kmalloc` and `copy_from_user` are
given sizes that are read from it. -/
def Op.TouchesDevice : Op β → Prop
  | .setMemOffset _ _ | .getMemOffset _ | .getMemSize | .interruptIn _ | .interruptOut _ => True
  | .mutexLock | .mutexUnlock | .atomicInc | .atomicDec => True
  | .kmallocFile _ | .copyFromUser _ => True
  | .ddkExtOnWriteSuccess _ | .ddkExtOnWriteFail => True
  | _ => False

def refs : Typestate (Ans β) Ref where
  pre g
    | .usbGetIntfdata => g = .none
    | .mutexLock => g = .found
    | .kmallocFile _ => g = .inside
    | .mutexUnlock => g = .inside ∨ g = .stocked
    | .kzallocDevice | .kfreeDevice | .usbRegisterDev | .usbDeregisterDev => False
    | .usbSetIntfdata _ | .ddkExtInit | .ddkExtCleanup => False
    | o => o.TouchesDevice → g = .opening ∨ g = .passed
  next
    | _, .usbGetIntfdata, present => if present then .found else .none
    | _, .mutexLock, _ => .inside
    | _, .kmallocFile _, inBuf => if inBuf.isSome then .stocked else .none
    | g, .mutexUnlock, _ => if g = .stocked then .opening else .none
    | g, .setMemOffset _ _, .error _ => if g = .opening then .none else g
    | _, .atomicDec, _ => .none
    | g, _, _ => g

/-- `ddk_open` starts without the record, every other call with it. -/
def Call.ref : Call β → Ref
  | .ddkOpen => .none
  | _ => .passed

/-- A `ddk_open` that returns 0 has been through the mutex. -/
def RefPost : Call β → Ref → ℤ → Prop
  | .ddkOpen, g, ret => ret = 0 → g = .opening
  | _, _, _ => True

theorem refs_ddkOpen (cfg : Config) :
    refs.Conforms (RefPost (.ddkOpen : Call β)) (progOf cfg (.ddkOpen : Call β)) .none := by
  have herr : ∀ (e : Errno) (g : Ref), RefPost (.ddkOpen : Call β) g e.val := by
    intro e g h
    exact absurd h (ne_of_lt e.neg)
  refine ⟨fun h => h.elim, ?_⟩
  intro found
  cases found with
  | false => exact herr ENODEV _
  | true =>
      refine ⟨rfl, ?_⟩
      intro present
      cases present with
      | false => exact herr ENODEV _
      | true =>
          refine ⟨rfl, fun _ => ?_⟩
          show Typestate.Conforms refs _ (Prog.bind (ite _ _ _) _) _
          by_cases hsize : cfg.inBufSize = 0
          · rw [if_pos hsize]
            exact ⟨Or.inl rfl, fun _ => herr ENODEV _⟩
          · rw [if_neg hsize]
            refine ⟨rfl, ?_⟩
            intro inBuf
            cases inBuf with
            | none => exact herr ENOMEM _
            | some inBuf =>
                refine ⟨Or.inr rfl, fun _ => ⟨fun _ => Or.inl rfl, fun r => ?_⟩⟩
                cases r with
                | error e => exact herr e _
                | ok _ =>
                    refine ⟨fun _ => Or.inl rfl, ?_⟩
                    intro r
                    cases r with
                    | error e => exact herr e _
                    | ok _ => exact ⟨fun _ => Or.inl rfl, fun _ _ => rfl⟩

theorem refs_progOf (cfg : Config) (t : Call β) :
    refs.Conforms (RefPost t) (progOf cfg t) t.ref := by
  by_cases ht : t.IsTransfer
  · -- a transfer has the record all along
    have hkeep : ∀ (g : Ref) (o : Op β), g = .passed → o.IsTransfer →
        refs.pre g o ∧ ∀ r, refs.next g o r = .passed := by
      intro g o hg ho
      subst hg
      cases o with
      | setMemOffset dir n =>
          refine ⟨fun _ => Or.inr rfl, ?_⟩
          intro r
          cases r <;> rfl
      | _ => first
          | exact ho.elim
          | exact ⟨fun _ => Or.inr rfl, fun _ => rfl⟩
    have hconf := Typestate.conforms_of_only hkeep (only_transfer cfg ht) rfl
    cases t with
    | ddkOpen => exact ht.elim
    | ddkClose => exact ht.elim
    | _ => exact Typestate.conforms_mono (fun _ _ _ => trivial) hconf
  · cases t with
    | ddkOpen => exact refs_ddkOpen cfg
    | ddkClose => exact ⟨fun _ => Or.inr rfl, fun _ => ⟨fun h => h.elim, fun _ => trivial⟩⟩
    | _ => exact absurd trivial ht

/-! ## Where the hub thread stands -/

inductive Stage where
  | start
  | allocated
  | locked
  | registered
  | published
  | inited
  /-- `usb_register_dev` has failed. -/
  | refused
  | refusedFree
  | up
  | leaving
  | unpublished
  | deregistered
  | relocked
  | reunlocked
  | cleaned
  | gone
deriving DecidableEq, Repr

/-- The next call of the hub thread. -/
def Stage.op : Stage → Option (Op β)
  | .start => some .kzallocDevice
  | .allocated => some .mutexLock
  | .locked => some .usbRegisterDev
  | .registered => some (.usbSetIntfdata true)
  | .published => some .ddkExtInit
  | .inited => some .mutexUnlock
  | .refused => some .mutexUnlock
  | .refusedFree => some .kfreeDevice
  | .up => some .usbGetIntfdata
  | .leaving => some (.usbSetIntfdata false)
  | .unpublished => some .usbDeregisterDev
  | .deregistered => some .mutexLock
  | .relocked => some .mutexUnlock
  | .reunlocked => some .ddkExtCleanup
  | .cleaned => some .kfreeDevice
  | .gone => none

/-- The stage after it, when it does not fail. -/
def Stage.succ : Stage → Stage
  | .start => .allocated
  | .allocated => .locked
  | .locked => .registered
  | .registered => .published
  | .published => .inited
  | .inited => .up
  | .refused => .refusedFree
  | .refusedFree => .gone
  | .up => .leaving
  | .leaving => .unpublished
  | .unpublished => .deregistered
  | .deregistered => .relocked
  | .relocked => .reunlocked
  | .reunlocked => .cleaned
  | .cleaned => .gone
  | .gone => .gone

def hubOrder : Typestate (Ans β) Stage where
  pre g o := g.op = some o
  next
    | _, .kzallocDevice, false => .gone
    | _, .usbRegisterDev, .error _ => .refused
    | g, _, _ => g.succ

/-- Where `ddk_probe` may end. -/
def ProbePost (g : Stage) (ret : ℤ) : Prop :=
  if ret = 0 then g = .up else g = .start ∨ g = .gone

theorem hubOrder_ddkProbe (interface : Interface) :
    hubOrder.Conforms ProbePost (ddkProbe interface : Driver β ℤ) .start := by
  have herr : ∀ (e : Errno) (g : Stage), g = .start ∨ g = .gone → ProbePost g e.val := by
    intro e g hg
    rw [ProbePost, if_neg (ne_of_lt e.neg)]
    exact hg
  unfold ddkProbe
  split
  · refine ⟨rfl, ?_⟩
    intro allocated
    cases allocated with
    | false => exact herr ENOMEM _ (Or.inr rfl)
    | true =>
        refine ⟨rfl, fun _ => ⟨rfl, fun r => ?_⟩⟩
        cases r with
        | error e => exact ⟨rfl, fun _ => ⟨rfl, fun _ => herr e _ (Or.inr rfl)⟩⟩
        | ok _ => exact ⟨rfl, fun _ => ⟨rfl, fun _ => ⟨rfl, fun _ => rfl⟩⟩⟩
  · exact herr EINVAL _ (Or.inl rfl)

theorem hubOrder_ddkDisconnect :
    hubOrder.Conforms (fun g _ => g = .gone) (ddkDisconnect : Driver β ℤ) .up :=
  ⟨rfl, fun _ => ⟨rfl, fun _ => ⟨rfl, fun _ => ⟨rfl, fun _ => ⟨rfl, fun _ => ⟨rfl, fun _ =>
    ⟨rfl, fun _ => rfl⟩⟩⟩⟩⟩⟩⟩

/-! ## What holds at each stage -/

/-- Nobody has the record. -/
def Stage.Quiet : Stage → Prop
  | .start | .allocated | .locked | .registered | .refused | .refusedFree | .cleaned | .gone => True
  | _ => False

/-- The interface data does not point to it. -/
def Stage.Hidden : Stage → Prop
  | .unpublished | .deregistered | .relocked | .reunlocked => True
  | g => g.Quiet

/-- The record is there and its `ext` is usable. -/
def Stage.Ready : Stage → Prop
  | .inited | .up | .leaving | .unpublished | .deregistered | .relocked | .reunlocked => True
  | _ => False

/-- The record is there, but not ready yet. -/
def Stage.Unready : Stage → Prop
  | .allocated | .locked | .registered | .published => True
  | _ => False

/-- `ddk_probe` holds the mutex of a record that is not ready yet. -/
def Stage.Building : Stage → Prop
  | .locked | .registered | .published => True
  | _ => False

/-- The kernel at stage `g`, where `Held` says that somebody has the record and
`Past` that somebody is past the mutex. -/
structure Secure (g : Stage) (k : Kernel) (Held Past : Prop) : Prop where
  quiet : g.Quiet → ¬ Held
  hidden : g.Hidden → k.intfdata = false
  ready : g.Ready → k.life = .live ∧ k.extLife = .ready
  unready : g.Unready → k.life = .live
  building : g.Building → k.locked = true ∧ ¬ Past

/-- Who has the record in a state: a file, or a call in progress that is not done
with it. -/
def Held (s : Busy (Ans β) ℤ (World β) (Call β)) : Prop :=
  0 < s.world.files ∨ ∃ t ∈ s.pool, refs.after t.tag.ref t.hist ≠ .none

def Past (s : Busy (Ans β) ℤ (World β) (Call β)) : Prop :=
  0 < s.world.files ∨ ∃ t ∈ s.pool, (refs.after t.tag.ref t.hist).Past

def Hub.stage : Hub β → Stage
  | .unbound => .start
  | .probing _ hist => hubOrder.after .start hist
  | .bound => .up
  | .disconnecting _ hist => hubOrder.after .up hist
  | .gone => .gone

/-- The hub thread keeps to its order. -/
def Hub.Ok : Hub β → Prop
  | .probing prog hist => hubOrder.Conforms ProbePost prog (hubOrder.after .start hist)
  | .disconnecting prog hist =>
      hubOrder.Conforms (fun g _ => g = .gone) prog (hubOrder.after .up hist)
  | _ => True

/-- The invariant. -/
structure LifeInv (s : Busy (Ans β) ℤ (World β) (Call β)) : Prop where
  orderly : Orderly refs Call.ref RefPost s
  hub : s.world.hub.Ok
  secure : Secure s.world.hub.stage s.world.kernel (Held s) (Past s)

theorem Ref.Past.ne_none {g : Ref} (h : g.Past) : g ≠ .none := by
  rintro rfl
  exact h

theorem Past.held {s : Busy (Ans β) ℤ (World β) (Call β)} (h : Past s) : Held s := by
  rcases h with hf | ⟨t, ht, hp⟩
  · exact Or.inl hf
  · exact Or.inr ⟨t, ht, hp.ne_none⟩

theorem Secure.mono {g : Stage} {k : Kernel} {H H' P P' : Prop} (h : Secure g k H P)
    (hh : H' → H) (hp : P' → P) : Secure g k H' P' :=
  ⟨fun hq h' => h.quiet hq (hh h'), h.hidden, h.ready, h.unready,
    fun hb => ⟨(h.building hb).1, fun h' => (h.building hb).2 (hp h')⟩⟩

/-- Whoever has the record has it alive. -/
theorem Secure.live {g : Stage} {k : Kernel} {H P : Prop} (h : Secure g k H P) (hh : H) :
    k.life = .live := by
  by_cases hr : g.Ready
  · exact (h.ready hr).1
  · by_cases hu : g.Unready
    · exact h.unready hu
    · have hq : g.Quiet := by
        cases g <;> simp_all [Stage.Quiet, Stage.Ready, Stage.Unready]
      exact absurd hh (h.quiet hq)

/-- Whoever is past the mutex has its `ext` ready. -/
theorem Secure.ext_ready {g : Stage} {k : Kernel} {H P : Prop} (h : Secure g k H P) (hh : H)
    (hp : P) : k.life = .live ∧ k.extLife = .ready := by
  by_cases hr : g.Ready
  · exact h.ready hr
  · by_cases hb : g.Building
    · exact absurd hp (h.building hb).2
    · have hq : g.Quiet := by
        cases g <;> simp_all [Stage.Quiet, Stage.Ready, Stage.Building]
      exact absurd hh (h.quiet hq)

/-! ## One step of a file operation -/

variable {view : ℕ → UInt8 → β} {interface : Interface}

theorem fileOp_of_pre {g : Ref} {o : Op β} (h : refs.pre g o) : o.IsFileOp := by
  cases o <;> trivial

/-- An operation allowed by `refs` keeps every stage secure, also for what the
caller has after it. -/
theorem secure_serve {g : Stage} {k k' : Kernel} {H P : Prop} {ref : Ref} {o : Op β} {c : Choice β}
    {r : Ans β o} (h : Secure g k H P) (hpre : refs.pre ref o) (hH : ref ≠ .none → H)
    (hP : ref.Past → P) (hs : k.serve view o c = some (r, k')) :
    Secure g k' (H ∨ refs.next ref o r ≠ .none) (P ∨ (refs.next ref o r).Past) := by
  rcases serve_fileOp (fileOp_of_pre hpre) hs with ⟨hlife, hext, hdata, hlock⟩
  have hready : g.Ready → k'.life = .live ∧ k'.extLife = .ready := by
    rw [hlife, hext]
    exact h.ready
  have hhidden : g.Hidden → k'.intfdata = false := by
    rw [hdata]
    exact h.hidden
  have hunready : g.Unready → k'.life = .live := by
    rw [hlife]
    exact h.unready
  -- the caller has no more than before, and the mutex is not locked
  have hless : (refs.next ref o r ≠ .none → ref ≠ .none) →
      ((refs.next ref o r).Past → ref.Past) → (g.Building → k'.locked = true) →
      Secure g k' (H ∨ refs.next ref o r ≠ .none) (P ∨ (refs.next ref o r).Past) := by
    intro hnone hpast hlocked
    refine ⟨?_, hhidden, hready, hunready, ?_⟩
    · intro hq
      rintro (hh | hh)
      · exact h.quiet hq hh
      · exact h.quiet hq (hH (hnone hh))
    · intro hb
      refine ⟨hlocked hb, ?_⟩
      rintro (hp | hp)
      · exact (h.building hb).2 hp
      · exact (h.building hb).2 (hP (hpast hp))
  have hkept : o ≠ .mutexLock → o ≠ .mutexUnlock → g.Building → k'.locked = true := by
    intro hl hu hb
    rw [hlock hl hu]
    exact (h.building hb).1
  cases o with
  | usbGetIntfdata =>
      -- the record is found only at a stage that shows it
      cases hs
      refine ⟨?_, hhidden, hready, hunready, ?_⟩
      · intro hq
        have hd : k.intfdata = false := h.hidden (by cases g <;> first | exact hq | exact hq.elim)
        rintro (hh | hh)
        · exact h.quiet hq hh
        · simp [refs, hd] at hh
      · intro hb
        refine ⟨(h.building hb).1, ?_⟩
        rintro (hp | hp)
        · exact (h.building hb).2 hp
        · cases hd : k.intfdata <;> simp [refs, hd, Ref.Past] at hp
  | mutexLock =>
      -- the caller has the record, and nobody has the mutex
      have hfound : ref ≠ .none := by
        rw [show ref = .found from hpre]
        decide
      have hfree : k.locked = false := by
        simp only [Kernel.serve] at hs
        split at hs
        · cases hs
        · simpa using ‹¬ k.locked = true›
      refine ⟨fun hq => absurd (hH hfound) (h.quiet hq), hhidden, hready, hunready, ?_⟩
      intro hb
      have hheld := (h.building hb).1
      rw [hfree] at hheld
      cases hheld
  | mutexUnlock =>
      have hpast : ref.Past := by
        rcases hpre with rfl | rfl <;> trivial
      exact hless (fun _ => hpast.ne_none) (fun _ => hpast) fun hb =>
        absurd (hP hpast) (h.building hb).2
  | kmallocFile n =>
      have hpast : ref.Past := by
        rw [show ref = .inside from hpre]
        trivial
      exact hless (fun _ => hpast.ne_none) (fun _ => hpast) (hkept (by simp) (by simp))
  | setMemOffset dir n =>
      have hpast : ref.Past := by
        rcases hpre trivial with rfl | rfl <;> trivial
      exact hless (fun _ => hpast.ne_none) (fun _ => hpast) (hkept (by simp) (by simp))
  | atomicDec =>
      have hnone : refs.next ref (.atomicDec : Op β) r = .none := rfl
      exact hless (fun hn => absurd hnone hn) (fun hp => absurd hnone hp.ne_none)
        (hkept (by simp) (by simp))
  | _ => exact hless id id (hkept (by simp) (by simp))

/-! ## One step of the hub thread -/

/-- A step of the hub thread goes from a secure stage to a secure stage, provided
that nobody has the record when it reaches `ddk_ext_cleanup`. -/
theorem secure_hub {g : Stage} {k k' : Kernel} {H P : Prop} {o : Op β} {c : Choice β}
    {r : Ans β o} (h : Secure g k H P) (hPH : P → H) (hpre : hubOrder.pre g o)
    (hs : k.serve view o c = some (r, k')) (hclean : o = .ddkExtCleanup → ¬ H) :
    Secure (hubOrder.next g o r) k' H P := by
  rcases h with ⟨hq, hd, hr, hu, hb⟩
  cases g with
  | gone => cases hpre
  | start =>
      cases hpre
      simp only [Kernel.serve] at hs
      split at hs <;> cases hs
      · exact ⟨hq, hd, False.elim, False.elim, False.elim⟩
      · exact ⟨hq, hd, False.elim, fun _ => rfl, False.elim⟩
  | allocated =>
      -- the mutex of a record that nobody else has
      cases hpre
      simp only [Kernel.serve] at hs
      split at hs <;> cases hs
      exact ⟨hq, hd, False.elim, hu, fun _ => ⟨rfl, fun hp => hq trivial (hPH hp)⟩⟩
  | locked =>
      cases hpre
      simp only [Kernel.serve] at hs
      split at hs <;> cases hs
      · exact ⟨hq, hd, False.elim, False.elim, False.elim⟩
      · exact ⟨hq, hd, False.elim, hu, hb⟩
  | registered =>
      -- from here on a `ddk_open` finds the record, and waits for the mutex
      cases hpre
      cases hs
      exact ⟨False.elim, False.elim, False.elim, hu, hb⟩
  | published =>
      cases hpre
      cases hs
      exact ⟨False.elim, False.elim, fun _ => ⟨hu trivial, rfl⟩, False.elim, False.elim⟩
  | inited =>
      cases hpre
      simp only [Kernel.serve] at hs
      split at hs <;> cases hs
      exact ⟨False.elim, False.elim, hr, False.elim, False.elim⟩
  | refused =>
      cases hpre
      simp only [Kernel.serve] at hs
      split at hs <;> cases hs
      exact ⟨hq, hd, False.elim, False.elim, False.elim⟩
  | refusedFree =>
      cases hpre
      cases hs
      exact ⟨hq, hd, False.elim, False.elim, False.elim⟩
  | up =>
      cases hpre
      cases hs
      exact ⟨False.elim, False.elim, hr, False.elim, False.elim⟩
  | leaving =>
      -- no further `ddk_open` finds the record
      cases hpre
      cases hs
      exact ⟨False.elim, fun _ => rfl, hr, False.elim, False.elim⟩
  | unpublished =>
      cases hpre
      cases hs
      exact ⟨False.elim, hd, hr, False.elim, False.elim⟩
  | deregistered =>
      cases hpre
      simp only [Kernel.serve] at hs
      split at hs <;> cases hs
      exact ⟨False.elim, hd, hr, False.elim, False.elim⟩
  | relocked =>
      cases hpre
      simp only [Kernel.serve] at hs
      split at hs <;> cases hs
      exact ⟨False.elim, hd, hr, False.elim, False.elim⟩
  | reunlocked =>
      -- the one stage that does not see to it by itself
      cases hpre
      cases hs
      exact ⟨fun _ => hclean rfl, hd, False.elim, False.elim, False.elim⟩
  | cleaned =>
      cases hpre
      cases hs
      exact ⟨hq, hd, False.elim, False.elim, False.elim⟩

/-- The next call of the hub thread is `ddk_ext_cleanup`. -/
def atCleanup : Hub β → Bool
  | .probing (.call .ddkExtCleanup _) _ | .disconnecting (.call .ddkExtCleanup _) _ => true
  | _ => false

/-- The condition on a step: when `ddk_disconnect` performs `ddk_ext_cleanup`,
no file is open and no call in progress has the record. -/
def Unused (s : Busy (Ans β) ℤ (World β) (Call β)) : Move (Choice β) (HubAct β) (Call β) → Prop
  | .env (.advance _) => atCleanup s.world.hub = true → ¬ Held s
  | _ => True

/-- What a step of the hub thread does to the rest, and where it takes it. -/
theorem hub_step {w w' : World β} {a : HubAct β} {H P : Prop} (hok : w.hub.Ok)
    (h : Secure w.hub.stage w.kernel H P) (hPH : P → H)
    (hclean : ∀ c, a = .advance c → atCleanup w.hub = true → ¬ H)
    (hs : hubStep view interface w a = some w') :
    w'.files = w.files ∧ w'.hub.Ok ∧ Secure w'.hub.stage w'.kernel H P := by
  cases a with
  | probe =>
      simp only [hubStep] at hs
      split at hs
      · rename_i hh
        cases hs
        rw [hh] at h
        exact ⟨rfl, hubOrder_ddkProbe interface, h⟩
      · cases hs
  | disconnect =>
      simp only [hubStep] at hs
      split at hs
      · rename_i hh
        cases hs
        rw [hh] at h
        exact ⟨rfl, hubOrder_ddkDisconnect, h⟩
      · cases hs
  | advance c =>
      simp only [hubStep] at hs
      split at hs
      · rename_i o k hist hh
        rcases Option.map_eq_some_iff.mp hs with ⟨⟨r, k'⟩, hserve, he⟩
        cases he
        rw [hh] at h hok hclean
        refine ⟨rfl, ?_, ?_⟩
        · simpa [Hub.Ok] using hok.2 r
        · have hnext := secure_hub h hPH hok.1 hserve fun ho => hclean c rfl (by subst ho; rfl)
          simpa [Hub.stage] using hnext
      · rename_i o k hist hh
        rcases Option.map_eq_some_iff.mp hs with ⟨⟨r, k'⟩, hserve, he⟩
        cases he
        rw [hh] at h hok hclean
        refine ⟨rfl, ?_, ?_⟩
        · simpa [Hub.Ok] using hok.2 r
        · have hnext := secure_hub h hPH hok.1 hserve fun ho => hclean c rfl (by subst ho; rfl)
          simpa [Hub.stage] using hnext
      · cases hs
  | finish =>
      simp only [hubStep] at hs
      split at hs
      · rename_i ret hist hh
        cases hs
        rw [hh] at h hok
        have hpost : ProbePost (hubOrder.after .start hist) ret := hok
        have hsec : Secure (hubOrder.after .start hist) w.kernel H P := h
        by_cases hret : ret = 0
        · -- the probe has succeeded, the record is up
          rw [ProbePost, if_pos hret] at hpost
          rw [hpost] at hsec
          simp only [if_pos hret]
          exact ⟨trivial, trivial, hsec⟩
        · -- it has failed before the allocation, or has freed the record
          rw [ProbePost, if_neg hret] at hpost
          simp only [if_neg hret]
          refine ⟨trivial, trivial, ?_⟩
          rcases hpost with hstart | hgone
          · rw [hstart] at hsec
            exact ⟨hsec.quiet, hsec.hidden, False.elim, False.elim, False.elim⟩
          · rw [hgone] at hsec
            exact hsec
      · rename_i ret hist hh
        cases hs
        rw [hh] at h hok
        have hgone : hubOrder.after .up hist = .gone := hok
        have hsec : Secure (hubOrder.after .up hist) w.kernel H P := h
        rw [hgone] at hsec
        exact ⟨rfl, trivial, hsec⟩
      · cases hs

/-! ## Every run -/

variable {w : World β} {s s' : Busy (Ans β) ℤ (World β) (Call β)}
  {m : Move (Choice β) (HubAct β) (Call β)} {ms : List (Move (Choice β) (HubAct β) (Call β))}

/-- Before the probe: nothing is allocated, registered or open. -/
structure Unplugged (w : World β) : Prop where
  life : w.kernel.life = .unborn
  intfdata : w.kernel.intfdata = false
  files : w.files = 0
  hub : w.hub = .unbound

theorem lifeInv_start (hw : Unplugged w) : LifeInv (Fresh w) := by
  have hheld : ¬ Held (Fresh w) := by
    rintro (hf | ⟨t, ht, _⟩)
    · exact absurd hf (by rw [show (Fresh w).world.files = 0 from hw.files]; decide)
    · cases ht
  refine ⟨⟨by simp [Fresh], by simp [Fresh]⟩, ?_, ?_⟩
  · show w.hub.Ok
    rw [hw.hub]
    trivial
  · show Secure w.hub.stage w.kernel _ _
    rw [hw.hub]
    exact ⟨fun _ => hheld, fun _ => hw.intfdata, False.elim, False.elim, False.elim⟩

/-- A call starts with the record only while a file is open. -/
theorem accept_ref {w' : World β} {t : Call β} (h : accept w t = some w') :
    w'.hub = w.hub ∧ w'.files ≤ w.files ∧ (t.ref ≠ .none → 0 < w.files) := by
  cases t with
  | ddkOpen =>
      cases h
      exact ⟨rfl, le_refl _, fun hn => absurd rfl hn⟩
  | ddkClose =>
      simp only [accept] at h
      split at h <;> cases h
      rename_i hf
      exact ⟨rfl, Nat.sub_le _ _, fun _ => hf⟩
  | _ =>
      simp only [accept] at h
      split at h <;> cases h
      rename_i hf
      exact ⟨rfl, le_refl _, fun _ => hf⟩

/-- A file comes from a `ddk_open` that has been through the mutex. -/
theorem retire_ref {t : Call β} {g : Ref} {ret : ℤ} (h : RefPost t g ret) :
    (retire w t ret).hub = w.hub ∧ ((retire w t ret).files = w.files ∨ g.Past) := by
  cases t with
  | ddkOpen =>
      simp only [retire]
      by_cases hret : ret = 0
      · rw [if_pos hret]
        refine ⟨rfl, Or.inr ?_⟩
        rw [h hret]
        trivial
      · rw [if_neg hret]
        exact ⟨rfl, Or.inl rfl⟩
  | _ => exact ⟨rfl, Or.inl rfl⟩

theorem lifeInv_start_call {t : Call β} {w' : World β} (h : LifeInv s)
    (hw : accept s.world t = some w') {s' : Busy (Ans β) ℤ (World β) (Call β)}
    (hs' : s' = { s with world := w', pool := s.pool ++ [⟨t, progOf interface.config t, []⟩] })
    (hord : Orderly refs Call.ref RefPost s') : LifeInv s' := by
  subst hs'
  rcases accept_ref hw with ⟨hhub, hfiles, href⟩
  refine ⟨hord, ?_, ?_⟩
  · rw [hhub]
    exact h.hub
  · rw [hhub, accept_kernel hw]
    refine h.secure.mono ?_ ?_
    · rintro (hf | ⟨x, hx, hn⟩)
      · exact Or.inl (lt_of_lt_of_le hf hfiles)
      · rcases List.mem_append.mp hx with hx | hx
        · exact Or.inr ⟨x, hx, hn⟩
        · cases List.mem_singleton.mp hx
          exact Or.inl (href hn)
    · rintro (hf | ⟨x, hx, hp⟩)
      · exact Or.inl (lt_of_lt_of_le hf hfiles)
      · rcases List.mem_append.mp hx with hx | hx
        · exact Or.inr ⟨x, hx, hp⟩
        · cases List.mem_singleton.mp hx
          exact Or.inl (href hp.ne_none)

theorem lifeInv_step (h : LifeInv s) (hu : Unused s m)
    (hs : (fileCalls view interface).step s m = some s') : LifeInv s' := by
  have hord : Orderly refs Call.ref RefPost s' :=
    h.orderly.step (fun t => refs_progOf interface.config t) hs
  cases Service.step_cases hs with
  | start t w hw => exact lifeInv_start_call h hw rfl hord
  | advance i c tag o k hist r w hi hw =>
      rcases Option.map_eq_some_iff.mp hw with ⟨⟨r', k'⟩, hserve, he⟩
      cases he
      -- what the caller has after the operation is not more than before, or safe
      have hmem := List.mem_of_getElem? hi
      have hsec := secure_serve h.secure (h.orderly.pre hi)
        (fun hn => Or.inr ⟨_, hmem, hn⟩) (fun hp => Or.inr ⟨_, hmem, hp⟩) hserve
      refine ⟨hord, h.hub, hsec.mono ?_ ?_⟩
      · rintro (hf | ⟨x, hx, hn⟩)
        · exact Or.inl (Or.inl hf)
        · rcases List.mem_or_eq_of_mem_set hx with hx | rfl
          · exact Or.inl (Or.inr ⟨x, hx, hn⟩)
          · exact Or.inr (by simpa using hn)
      · rintro (hf | ⟨x, hx, hp⟩)
        · exact Or.inl (Or.inl hf)
        · rcases List.mem_or_eq_of_mem_set hx with hx | rfl
          · exact Or.inl (Or.inr ⟨x, hx, hp⟩)
          · exact Or.inr (by simpa using hp)
  | finish i tag a hist hi =>
      -- a new file inherits the record of the `ddk_open` that made it
      have hmem := List.mem_of_getElem? hi
      rcases retire_ref (w := s.world) (h.orderly.ret hi) with ⟨hhub, hfiles⟩
      have hpast : 0 < (retire s.world tag a).files → Past s := by
        intro hf
        rcases hfiles with hsame | hpassed
        · exact Or.inl (hsame ▸ hf)
        · exact Or.inr ⟨_, hmem, hpassed⟩
      refine ⟨hord, ?_, ?_⟩
      · show (retire s.world tag a).hub.Ok
        rw [hhub]
        exact h.hub
      · show Secure (retire s.world tag a).hub.stage (retire s.world tag a).kernel _ _
        rw [hhub, retire_kernel]
        refine h.secure.mono ?_ ?_
        · rintro (hf | ⟨x, hx, hn⟩)
          · exact (hpast hf).held
          · exact Or.inr ⟨x, List.mem_of_mem_eraseIdx hx, hn⟩
        · rintro (hf | ⟨x, hx, hp⟩)
          · exact hpast hf
          · exact Or.inr ⟨x, List.mem_of_mem_eraseIdx hx, hp⟩
  | env e w hw =>
      have hclean : ∀ c, e = .advance c → atCleanup s.world.hub = true → ¬ Held s := by
        intro c hc
        subst hc
        exact hu
      rcases hub_step h.hub h.secure Past.held hclean hw with ⟨hfiles, hok, hsec⟩
      refine ⟨hord, hok, hsec.mono ?_ ?_⟩
      · rintro (hf | hp)
        · exact Or.inl (hfiles ▸ hf)
        · exact Or.inr hp
      · rintro (hf | hp)
        · exact Or.inl (hfiles ▸ hf)
        · exact Or.inr hp

/-- Nothing dead is in use: an open file has a live record with a usable `ext`,
and the next operation of every call in progress finds what it dereferences. -/
structure Alive (s : Busy (Ans β) ℤ (World β) (Call β)) : Prop where
  files : 0 < s.world.files → s.world.kernel.life = .live ∧ s.world.kernel.extLife = .ready
  device : ∀ (i : ℕ) tag (o : Op β) k hist, s.pool[i]? = some ⟨tag, .call o k, hist⟩ →
    o.TouchesDevice → s.world.kernel.life = .live
  ext : ∀ (i : ℕ) tag (o : Op β) k hist, s.pool[i]? = some ⟨tag, .call o k, hist⟩ →
    o.TouchesExt → s.world.kernel.extLife = .ready

/-- What dereferences the record is allowed only to who has it. -/
theorem ne_none_of_touches {g : Ref} {o : Op β} (hpre : refs.pre g o) (ho : o.TouchesDevice) :
    g ≠ .none := by
  rintro rfl
  cases o with
  | mutexLock => cases hpre
  | kmallocFile n => cases hpre
  | mutexUnlock => rcases hpre with h | h <;> cases h
  | _ => first
      | exact ho.elim
      | (rcases hpre ho with h | h <;> cases h)

theorem alive_of_lifeInv (h : LifeInv s) : Alive s := by
  refine ⟨?_, ?_, ?_⟩
  · intro hf
    exact h.secure.ext_ready (Or.inl hf) (Or.inl hf)
  · intro i tag o k hist hi ho
    have hn := ne_none_of_touches (h.orderly.pre hi) ho
    exact h.secure.live (Or.inr ⟨_, List.mem_of_getElem? hi, hn⟩)
  · intro i tag o k hist hi ho
    have hmem := List.mem_of_getElem? hi
    have hpre := h.orderly.pre hi
    have hcall : (refs.after tag.ref hist).Past := by
      cases o <;> first
        | exact ho.elim
        | (rcases hpre trivial with h | h <;> (rw [h]; trivial))
    have hpast : Past s := Or.inr ⟨_, hmem, hcall⟩
    exact (h.secure.ext_ready hpast.held hpast).2

/-- If the board is unused whenever `ddk_disconnect` reaches `ddk_ext_cleanup`,
then in every state of every interleaving nothing freed, uninitialised or cleaned
up is in use. -/
theorem lifetime (hw : Unplugged w)
    (hr : Lts.run (fileCalls view interface).step (Fresh w) ms = some s)
    (hu : Lts.Along (fileCalls view interface).step Unused (Fresh w) ms) : Alive s := by
  refine alive_of_lifeInv ?_
  exact Lts.run_invariant_along (fun _ _ _ hi hu hs => lifeInv_step hi hu hs) (lifeInv_start hw)
    hu hr

/-! ## Both sides on one board -/

instance (s : Busy (Ans β) ℤ (World β) (Call β)) : Decidable (Held s) :=
  inferInstanceAs (Decidable (_ ∨ ∃ t ∈ s.pool, refs.after t.tag.ref t.hist ≠ .none))

instance (s : Busy (Ans β) ℤ (World β) (Call β)) : DecidablePred (Unused s)
  | .env (.advance _) => inferInstanceAs (Decidable (_ → _))
  | .env .probe | .env .disconnect | .env .finish => isTrue trivial
  | .start _ | .advance _ _ | .finish _ => isTrue trivial

def unplugged : World UInt8 :=
  { kernel :=
      { upKernel with life := .unborn, extLife := .uninit, minor := false, intfdata := false }
    files := 0
    hub := .unbound }

/-- A call of the hub thread that runs alone, all its `n` operations succeeding. -/
def hubAlone (a : HubAct UInt8) (n : ℕ) : Moves :=
  .env a :: List.replicate n (.env (.advance (.ok 0))) ++ [.env .finish]

def runPlugged (ms : Moves) : Option (Busy (Ans UInt8) ℤ (World UInt8) (Call UInt8)) :=
  Lts.run (fileCalls (fun _ b => b) memBoard).step (Fresh unplugged) ms

/-- Probe, open, close, unplug. -/
def cleanUnplug : Moves :=
  hubAlone .probe 6 ++ openFile ++ alone .ddkClose [.ok 0, .ok 0] ++ hubAlone .disconnect 7

/-- Probe, open, unplug. -/
def rudeUnplug : Moves := hubAlone .probe 6 ++ openFile ++ hubAlone .disconnect 7

theorem lifetime_cleanUnplug : ∃ s, runPlugged cleanUnplug = some s ∧
    s.world.kernel.life = .freed ∧ Alive s := by
  obtain ⟨s, hs⟩ :=
    Option.isSome_iff_exists.mp (show (runPlugged cleanUnplug).isSome = true by decide)
  have hlife : (runPlugged cleanUnplug).map (fun s => s.world.kernel.life) = some .freed := by
    decide
  rw [hs] at hlife
  refine ⟨s, hs, by simpa using hlife, ?_⟩
  exact lifetime (w := unplugged) ⟨rfl, rfl, rfl, rfl⟩ hs (by decide)

/-- The board is unplugged while a file is open: the file refers to a freed
record, and its `ddk_close` is about to decrement a counter in it. -/
theorem lifetime_rudeUnplug :
    (runPlugged rudeUnplug).map (fun s => (s.world.files, s.world.kernel.life)) =
        some (1, .freed) ∧
      ∃ s tag k hist, runPlugged (rudeUnplug ++ [.start .ddkClose]) = some s ∧
        s.pool[0]? = some ⟨tag, .call .atomicDec k, hist⟩ ∧ s.world.kernel.life = .freed ∧
        ¬ Alive s := by
  refine ⟨by decide, ?_⟩
  obtain ⟨s, hs⟩ := Option.isSome_iff_exists.mp
    (show (runPlugged (rudeUnplug ++ [.start .ddkClose])).isSome = true by decide)
  have hlife : (runPlugged (rudeUnplug ++ [.start .ddkClose])).map
      (fun s => s.world.kernel.life) = some .freed := by decide
  have hpool : (runPlugged (rudeUnplug ++ [.start .ddkClose])).map (fun s => s.pool) =
      some [⟨.ddkClose, progOf memBoard.config .ddkClose, []⟩] := rfl
  rw [hs] at hlife hpool
  simp only [Option.map_some, Option.some.injEq] at hlife hpool
  have hi : s.pool[0]? = some ⟨.ddkClose, progOf memBoard.config .ddkClose, []⟩ := by
    rw [hpool]
    rfl
  refine ⟨s, _, _, _, hs, hi, hlife, ?_⟩
  intro halive
  have hlive := halive.device 0 _ _ _ _ hi trivial
  rw [hlife] at hlive
  cases hlive

end DdkMem
