import DriversLab.DdkMem.Kernel
import Mathlib.Tactic.FinCases
import Mathlib.Tactic.Ring

/-!
# DdkMem.OpenClose — the books of `ddk_open` and `ddk_close`

Three quantities are booked for every call: whether it holds the mutex, the
`struct ddk_device_file` buffers it has allocated and not freed, and its part of
`open_cnt`.

* `post_ddkOpen`: what `ddk_open` leaves booked, exit by exit;
* `settled_iff`: after a run of calls that ends with none in progress, the mutex
  is free and buffers, `open_cnt` and files agree exactly when no `ddk_open`
  that has returned met a failing `kmalloc` or SET message.
-/

namespace DdkMem

open Interact

variable {β : Type}

/-! ## The books -/

/-- What an operation does to the mutex. -/
def held : Event (Ans β) → ℤ
  | ⟨.mutexLock, _⟩ => 1
  | ⟨.mutexUnlock, _⟩ => -1
  | _ => 0

/-- What it does to the number of allocated buffers. -/
def allocated : Event (Ans β) → ℤ
  | ⟨.kmallocFile _, some _⟩ => 1
  | ⟨.kfreeFile, _⟩ => -1
  | _ => 0

/-- What it does to `open_cnt`. -/
def counted : Event (Ans β) → ℤ
  | ⟨.atomicInc, _⟩ => 1
  | ⟨.atomicDec, _⟩ => -1
  | _ => 0

/-- A failing `kmalloc` or SET message. -/
def refused : Event (Ans β) → Bool
  | ⟨.kmallocFile _, none⟩ => true
  | ⟨.setMemOffset _ _, .error _⟩ => true
  | _ => false

/-- A `ddk_close` takes its buffer and its part of the count over from the
file. -/
def enter : Call β → ℤ
  | .ddkClose => 1
  | _ => 0

/-- A `ddk_open` that succeeds leaves them to the file. -/
def leave : Call β → ℤ → ℤ
  | .ddkOpen, ret => if ret = 0 then -1 else 0
  | _, _ => 0

/-- The books of one call. -/
structure Books where
  held : ℤ
  allocated : ℤ
  counted : ℤ
  refused : Prop

def Books.empty : Books := ⟨0, 0, 0, False⟩

/-- The typestate that keeps the books. -/
def booking : Typestate (Ans β) Books where
  pre _ _ := True
  next g o r :=
    { held := g.held + held ⟨o, r⟩
      allocated := g.allocated + allocated ⟨o, r⟩
      counted := g.counted + counted ⟨o, r⟩
      refused := g.refused ∨ refused ⟨o, r⟩ }

/-- What a call may leave booked: nothing is ever owed, the count is settled,
and something is lost only by a `ddk_open` that was refused. -/
structure Post (t : Call β) (g : Books) (ret : ℤ) : Prop where
  held : 0 ≤ g.held
  allocated : 0 ≤ enter t + g.allocated + leave t ret
  counted : enter t + g.counted + leave t ret = 0
  lost : 0 < g.held + (enter t + g.allocated + leave t ret) ↔ t = .ddkOpen ∧ g.refused

/-! What one operation books. -/

/-- A transfer moves none of the three quantities. -/
theorem transfer_books {o : Op β} (ho : o.IsTransfer) (r : Ans β o) :
    held ⟨o, r⟩ = 0 ∧ allocated ⟨o, r⟩ = 0 ∧ counted ⟨o, r⟩ = 0 := by
  cases o <;> first
    | exact ho.elim
    | exact ⟨rfl, rfl, rfl⟩

section Next

variable {g : Books} {n : ℕ} {dir : Dir}

/-- The books after an operation, of which each amount is known. -/
theorem next_of {o : Op β} {r : Ans β o} (h a c : ℤ) (b : Bool) (hh : held ⟨o, r⟩ = h)
    (ha : allocated ⟨o, r⟩ = a) (hc : counted ⟨o, r⟩ = c) (hb : refused ⟨o, r⟩ = b) :
    booking.next g o r = ⟨g.held + h, g.allocated + a, g.counted + c, g.refused ∨ b⟩ := by
  subst hh ha hc hb
  rfl

@[simp] theorem next_usbFindInterface (found : Bool) :
    booking.next g (.usbFindInterface : Op β) found = g := by
  rw [next_of 0 0 0 false rfl rfl rfl rfl]
  simp

@[simp] theorem next_usbGetIntfdata (present : Bool) :
    booking.next g (.usbGetIntfdata : Op β) present = g := by
  rw [next_of 0 0 0 false rfl rfl rfl rfl]
  simp

@[simp] theorem next_mutexLock (u : Unit) :
    booking.next g (.mutexLock : Op β) u = { g with held := g.held + 1 } := by
  rw [next_of 1 0 0 false rfl rfl rfl rfl]
  simp

@[simp] theorem next_mutexUnlock (u : Unit) :
    booking.next g (.mutexUnlock : Op β) u = { g with held := g.held - 1 } := by
  rw [next_of (-1) 0 0 false rfl rfl rfl rfl]
  simp [sub_eq_add_neg]

@[simp] theorem next_kmallocFile_none :
    booking.next g (.kmallocFile n : Op β) none = { g with refused := True } := by
  rw [next_of 0 0 0 true rfl rfl rfl rfl]
  simp

@[simp] theorem next_kmallocFile_some (inBuf : { inBuf : List β // inBuf.length = n }) :
    booking.next g (.kmallocFile n) (some inBuf) = { g with allocated := g.allocated + 1 } := by
  rw [next_of 0 1 0 false rfl rfl rfl rfl]
  simp

@[simp] theorem next_setMemOffset_error (e : Errno) :
    booking.next g (.setMemOffset dir n : Op β) (.error e) = { g with refused := True } := by
  rw [next_of 0 0 0 true rfl rfl rfl rfl]
  simp

@[simp] theorem next_setMemOffset_ok (u : Unit) :
    booking.next g (.setMemOffset dir n : Op β) (.ok u) = g := by
  rw [next_of 0 0 0 false rfl rfl rfl rfl]
  simp

@[simp] theorem next_atomicInc (u : Unit) :
    booking.next g (.atomicInc : Op β) u = { g with counted := g.counted + 1 } := by
  rw [next_of 0 0 1 false rfl rfl rfl rfl]
  simp

@[simp] theorem next_atomicDec (u : Unit) :
    booking.next g (.atomicDec : Op β) u = { g with counted := g.counted - 1 } := by
  rw [next_of 0 0 (-1) false rfl rfl rfl rfl]
  simp [sub_eq_add_neg]

@[simp] theorem next_kfreeFile (u : Unit) :
    booking.next g (.kfreeFile : Op β) u = { g with allocated := g.allocated - 1 } := by
  rw [next_of 0 (-1) 0 false rfl rfl rfl rfl]
  simp [sub_eq_add_neg]

end Next

/-! ## One call -/

/-- An exit with an error settles nothing by itself. -/
theorem post_error {g : Books} {e : Errno} (hh : 0 ≤ g.held) (ha : 0 ≤ g.allocated)
    (hc : g.counted = 0) (hl : 0 < g.held + g.allocated ↔ g.refused) :
    Post (.ddkOpen : Call β) g e.val := by
  have hne : e.val ≠ 0 := ne_of_lt e.neg
  constructor
  · exact hh
  · simpa [enter, leave, hne] using ha
  · simpa [enter, leave, hne] using hc
  · simpa [enter, leave, hne] using hl

/-- `ddk_open`, exit by exit: the exit on a failing `kmalloc` keeps the mutex,
the two exits on a failing SET message keep the buffer. -/
theorem post_ddkOpen (cfg : Config) :
    booking.Conforms (Post (.ddkOpen : Call β)) (progOf cfg (.ddkOpen : Call β)) Books.empty := by
  refine ⟨trivial, ?_⟩
  intro found
  cases found with
  | false => apply post_error <;> simp [Books.empty]
  | true =>
      refine ⟨trivial, ?_⟩
      intro present
      cases present with
      | false => apply post_error <;> simp [Books.empty]
      | true =>
          refine ⟨trivial, fun _ => ?_⟩
          show Typestate.Conforms booking _ (Prog.bind (ite _ _ _) _) _
          by_cases hsize : cfg.inBufSize = 0
          · rw [if_pos hsize]
            refine ⟨trivial, fun _ => ?_⟩
            apply post_error <;> simp [Books.empty]
          · rw [if_neg hsize]
            refine ⟨trivial, ?_⟩
            intro inBuf
            cases inBuf with
            | none =>
                -- dev->m stays locked
                apply post_error <;> simp [Books.empty]
            | some inBuf =>
                refine ⟨trivial, fun _ => ⟨trivial, fun r => ?_⟩⟩
                cases r with
                | error e =>
                    -- the buffer of the file that is not made
                    apply post_error <;> simp [Books.empty]
                | ok _ =>
                    refine ⟨trivial, ?_⟩
                    intro r
                    cases r with
                    | error e => apply post_error <;> simp [Books.empty]
                    | ok _ =>
                        refine ⟨trivial, fun _ => ?_⟩
                        constructor <;> simp [Books.empty, enter, leave]

/-- `ddk_close` gives back what it took over. -/
theorem post_ddkClose (cfg : Config) :
    booking.Conforms (Post (.ddkClose : Call β)) (progOf cfg (.ddkClose : Call β)) Books.empty := by
  refine ⟨trivial, fun _ => ⟨trivial, fun _ => ?_⟩⟩
  constructor <;> simp [Books.empty, enter, leave]

/-- A transfer books nothing. -/
theorem post_transfer (cfg : Config) {t : Call β} (ht : t.IsTransfer) :
    booking.Conforms (Post t) (progOf cfg t) Books.empty := by
  have hkeep : ∀ (g : Books) (o : Op β), (g.held = 0 ∧ g.allocated = 0 ∧ g.counted = 0) →
      o.IsTransfer → booking.pre g o ∧ ∀ r, (booking.next g o r).held = 0 ∧
        (booking.next g o r).allocated = 0 ∧ (booking.next g o r).counted = 0 := by
    intro g o hg ho
    refine ⟨trivial, ?_⟩
    intro r
    rcases transfer_books ho r with ⟨hh, ha, hc⟩
    rw [next_of 0 0 0 _ hh ha hc rfl]
    simpa using hg
  have hconf := Typestate.conforms_of_only hkeep (only_transfer cfg ht) (g := Books.empty)
    ⟨rfl, rfl, rfl⟩
  refine Typestate.conforms_mono ?_ hconf
  intro g ret hg
  rcases hg with ⟨hh, ha, hc⟩
  cases t with
  | ddkOpen => exact ht.elim
  | ddkClose => exact ht.elim
  | _ => constructor <;> simp [enter, leave, hh, ha, hc]

theorem post_progOf (cfg : Config) (t : Call β) :
    booking.Conforms (Post t) (progOf cfg t) Books.empty := by
  cases t with
  | ddkOpen => exact post_ddkOpen cfg
  | ddkClose => exact post_ddkClose cfg
  | ddkWrite bound buf off => exact post_transfer cfg trivial
  | ddkRead file cnt off => exact post_transfer cfg trivial
  | ddkLlseek offset whence => exact post_transfer cfg trivial
  | ddkIoctl cmd arg => exact post_transfer cfg trivial

/-! ## All calls -/

variable {view : ℕ → UInt8 → β} {interface : Interface}

/-- The mutex is free, and the buffers and `open_cnt` agree with the files. -/
structure Settled (w : World β) : Prop where
  locked : w.kernel.locked = false
  bufs : w.kernel.bufs = w.files
  openCnt : w.kernel.openCnt = w.files

variable {w : World β} {s : Busy (Ans β) ℤ (World β) (Call β)}
  {ms : List (Move (Choice β) (HubAct β) (Call β))}

/-- What a file operation does to the three quantities. -/
theorem serve_books {k k' : Kernel} {o : Op β} {c : Choice β} {r : Ans β o} (ho : o.IsFileOp)
    (h : k.serve view o c = some (r, k')) :
    (if k'.locked then (1 : ℤ) else 0) = (if k.locked then 1 else 0) + held ⟨o, r⟩ ∧
      k'.bufs = k.bufs + allocated ⟨o, r⟩ ∧ k'.openCnt = k.openCnt + counted ⟨o, r⟩ := by
  by_cases ht : o.IsTransfer
  · rcases transfer_books ht r with ⟨hh, ha, hc⟩
    rw [serve_transfer ht h, hh, ha, hc]
    simp
  · cases o <;> first
      | exact (ht trivial).elim
      | exact ho.elim
      | skip
    case usbFindInterface => cases h; simp [held, allocated, counted]
    case usbGetIntfdata => cases h; simp [held, allocated, counted]
    case mutexLock =>
      simp only [Kernel.serve] at h
      split at h
      · cases h
      · rename_i hl
        cases h
        simp [held, allocated, counted, hl]
    case mutexUnlock =>
      simp only [Kernel.serve] at h
      split at h
      · rename_i hl
        cases h
        simp [held, allocated, counted, hl]
      · cases h
    case kmallocFile n =>
      simp only [Kernel.serve] at h
      split at h
      · cases h
        simp [held, allocated, counted]
      · split at h
        · cases h
          simp [held, allocated, counted]
        · cases h
    case kfreeFile => cases h; simp [held, allocated, counted, sub_eq_add_neg]
    case atomicInc => cases h; simp [held, allocated, counted]
    case atomicDec => cases h; simp [held, allocated, counted, sub_eq_add_neg]

/-- Opening and closing files moves the count of files. -/
theorem accept_files {w w' : World β} {t : Call β} (h : accept w t = some w') :
    (w'.files : ℤ) = w.files - enter t := by
  cases t with
  | ddkOpen => cases h; simp [enter]
  | ddkClose =>
      simp only [accept] at h
      split at h <;> cases h
      simp only [enter]
      omega
  | _ =>
      simp only [accept] at h
      split at h <;> cases h
      simp [enter]

theorem retire_files (w : World β) (t : Call β) (ret : ℤ) :
    ((retire w t ret).files : ℤ) = w.files - leave t ret := by
  cases t with
  | ddkOpen =>
      simp only [retire, leave]
      split
      · push_cast
        omega
      · omega
  | _ => simp [retire, leave]

/-- What a call that has returned lost of the mutex and of the buffers. -/
def Done.lostMutex (d : Done (Ans β) ℤ (Call β)) : ℤ := tally held d.hist

def Done.lostBufs (d : Done (Ans β) ℤ (Call β)) : ℤ :=
  enter d.tag + tally allocated d.hist + leave d.tag d.val

/-- A call that has returned ended as its post says, in terms of its tallies. -/
theorem done_books (hr : Lts.run (fileCalls view interface).step (Fresh w) ms = some s)
    {d : Done (Ans β) ℤ (Call β)} (hd : d ∈ s.returned) :
    0 ≤ Done.lostMutex d ∧ 0 ≤ Done.lostBufs d ∧
      enter d.tag + tally counted d.hist + leave d.tag d.val = 0 ∧
      (0 < Done.lostMutex d + Done.lostBufs d ↔ d.tag = .ddkOpen ∧ ∃ e ∈ d.hist, refused e) := by
  have hord : Orderly booking (fun _ => Books.empty) Post s := by
    refine Lts.run_invariant (fun _ _ _ ho hs => ho.step ?_ hs) ?_ hr
    · exact ⟨by simp [Fresh], by simp [Fresh]⟩
    · exact fun t => post_progOf interface.config t
  have hp := hord.returned d hd
  have hheld : (booking.after Books.empty d.hist).held = tally held d.hist := by
    rw [Typestate.after_tally (π := Books.held) (δ := held) (fun _ _ _ => rfl)]
    simp [Books.empty]
  have halloc : (booking.after Books.empty d.hist).allocated = tally allocated d.hist := by
    rw [Typestate.after_tally (π := Books.allocated) (δ := allocated) (fun _ _ _ => rfl)]
    simp [Books.empty]
  have hcount : (booking.after Books.empty d.hist).counted = tally counted d.hist := by
    rw [Typestate.after_tally (π := Books.counted) (δ := counted) (fun _ _ _ => rfl)]
    simp [Books.empty]
  have href : (booking.after Books.empty d.hist).refused ↔ ∃ e ∈ d.hist, refused e := by
    rw [Typestate.after_exists (π := Books.refused) (P := fun e => refused e)
      (fun _ _ _ => Iff.rfl)]
    simp [Books.empty]
  have hl := hp.lost
  rw [hheld, halloc, href] at hl
  refine ⟨?_, ?_, ?_, hl⟩
  · rw [Done.lostMutex, ← hheld]
    exact hp.held
  · rw [Done.lostBufs, ← halloc]
    exact hp.allocated
  · rw [← hcount]
    exact hp.counted

/-- A quantity of the kernel of which every file owns `f`, and that operations
move by `δ`: after a run it differs from what the files own by what the calls
that have returned lost. -/
theorem quantity_run {q : Kernel → ℤ} {δ : Event (Ans β) → ℤ} (f : ℤ)
    (hq : ∀ k o c r k', o.IsFileOp → Kernel.serve view k o c = some (r, k') →
      q k' = q k + δ ⟨o, r⟩)
    (hw : q w.kernel = f * w.files) (hms : ∀ m ∈ ms, m.IsCall)
    (hr : Lts.run (fileCalls view interface).step (Fresh w) ms = some s) (hs : s.pool = []) :
    q s.world.kernel - f * s.world.files =
      (s.returned.map fun d => f * enter d.tag + tally δ d.hist + f * leave d.tag d.val).sum := by
  have hprog : ∀ t, ((fileCalls view interface).prog t).Only Op.IsFileOp :=
    only_fileOp interface.config
  have hserve : ∀ (w : World β) o c r w' m, o.IsFileOp → q w.kernel - f * w.files = m →
      (fileCalls view interface).serve w o c = some (r, w') →
      q w'.kernel - f * w'.files = m + δ ⟨o, r⟩ := by
    intro w o c r w' m ho hm h
    rcases Option.map_eq_some_iff.mp h with ⟨a, ha, he⟩
    cases he
    rw [hq _ _ _ _ _ ho ha, ← hm]
    ring
  have haccept : ∀ (w : World β) t w' m, q w.kernel - f * w.files = m →
      (fileCalls view interface).accept w t = some w' →
      q w'.kernel - f * w'.files = m + f * enter t := by
    intro w t w' m hm h
    rw [accept_kernel h, accept_files h, ← hm]
    ring
  have hretire : ∀ (w : World β) t ret m, q w.kernel - f * w.files = m →
      q ((fileCalls view interface).retire w t ret).kernel -
        f * ((fileCalls view interface).retire w t ret).files = m + f * leave t ret := by
    intro w t ret m hm
    simp only [fileCalls, retire_kernel, retire_files, ← hm]
    ring
  have hsum := balance_run hserve haccept hretire hprog hms (sub_eq_zero.mpr hw) hr hs
  rw [zero_add] at hsum
  exact hsum

/-! ## The exact condition -/

/-- From a settled world, a run of file operations that ends with none in
progress ends settled if and only if no `ddk_open` that has returned met a
failing `kmalloc` or SET message. -/
theorem settled_iff (hw : Settled w) (hms : ∀ m ∈ ms, m.IsCall)
    (hr : Lts.run (fileCalls view interface).step (Fresh w) ms = some s) (hs : s.pool = []) :
    Settled s.world ↔ ∀ d ∈ s.returned, d.tag = .ddkOpen → ∀ e ∈ d.hist, ¬ refused e := by
  have hmutex := quantity_run (q := fun k => if k.locked then (1 : ℤ) else 0) 0
    (fun _ _ _ _ _ ho h => (serve_books ho h).1) (by simp [hw.locked]) hms hr hs
  have hbufs := quantity_run 1 (fun _ _ _ _ _ ho h => (serve_books ho h).2.1)
    (by simp [hw.bufs]) hms hr hs
  have hcnt := quantity_run 1 (fun _ _ _ _ _ ho h => (serve_books ho h).2.2)
    (by simp [hw.openCnt]) hms hr hs
  simp only [zero_mul, zero_add, add_zero, sub_zero, one_mul] at hmutex hbufs hcnt
  have hdone := fun d (hd : d ∈ s.returned) => done_books hr hd
  have hcnt0 : (s.returned.map fun d =>
      enter d.tag + tally counted d.hist + leave d.tag d.val).sum = 0 := by
    refine List.sum_eq_zero ?_
    intro x hx
    rcases List.mem_map.mp hx with ⟨d, hd, rfl⟩
    exact (hdone d hd).2.2.1
  have hmutex0 := Table.sum_map_eq_zero_iff (f := Done.lostMutex) fun d hd => (hdone d hd).1
  have hbufs0 := Table.sum_map_eq_zero_iff (f := Done.lostBufs) fun d hd => (hdone d hd).2.1
  constructor
  · intro hset d hd hopen e he href
    have hm : Done.lostMutex d = 0 := by
      refine hmutex0.mp ?_ d hd
      rw [show (s.returned.map Done.lostMutex).sum = _ from hmutex.symm, hset.locked]
      simp
    have hb : Done.lostBufs d = 0 := by
      refine hbufs0.mp ?_ d hd
      rw [show (s.returned.map Done.lostBufs).sum = _ from hbufs.symm, hset.bufs, sub_self]
    have hlost := (hdone d hd).2.2.2.mpr ⟨hopen, e, he, href⟩
    rw [hm, hb] at hlost
    exact absurd hlost (by decide)
  · intro hnone
    have hzero : ∀ d ∈ s.returned, Done.lostMutex d = 0 ∧ Done.lostBufs d = 0 := by
      intro d hd
      rcases hdone d hd with ⟨hm, hb, _, hl⟩
      have hnot : ¬ 0 < Done.lostMutex d + Done.lostBufs d := by
        intro hpos
        rcases hl.mp hpos with ⟨hopen, e, he, href⟩
        exact hnone d hd hopen e he href
      omega
    rw [show (s.returned.map fun d => tally held d.hist).sum = 0 from
      hmutex0.mpr fun d hd => (hzero d hd).1] at hmutex
    rw [show (s.returned.map fun d =>
      enter d.tag + tally allocated d.hist + leave d.tag d.val).sum = 0 from
      hbufs0.mpr fun d hd => (hzero d hd).2] at hbufs
    rw [hcnt0] at hcnt
    constructor
    · by_contra hl
      simp [hl] at hmutex
    · omega
    · omega

/-! ## Both sides on a board that is up -/

def openAndClose : Moves := openFile ++ alone .ddkClose [.ok 0, .ok 0]

/-- A file is opened and closed again. -/
theorem settled_iff_opened :
    ∃ s, runUp openAndClose = some s ∧ s.returned.map Done.val = [0, 0] ∧ Settled s.world := by
  obtain ⟨s, hs⟩ := Option.isSome_iff_exists.mp (show (runUp openAndClose).isSome = true by decide)
  have hpool : (runUp openAndClose).map (fun s => s.pool.length) = some 0 := by decide
  have hvals : (runUp openAndClose).map (fun s => s.returned.map Done.val) = some [0, 0] := by
    decide
  have hrefused : (runUp openAndClose).map
      (fun s => s.returned.all fun d => d.hist.all fun e => !refused e) = some true := by
    decide
  rw [hs] at hpool hvals hrefused
  simp only [Option.map_some, Option.some.injEq] at hpool hvals hrefused
  refine ⟨s, hs, hvals, ?_⟩
  refine (settled_iff (w := up) ⟨rfl, rfl, rfl⟩ ?_ hs (List.length_eq_zero_iff.mp hpool)).mpr ?_
  · decide
  · intro d hd _ e he
    have hall := List.all_eq_true.mp (List.all_eq_true.mp hrefused d hd) e he
    simpa using hall

def openOutOfMemory : Moves := alone .ddkOpen [.ok 0, .ok 0, .ok 0, .ok 0]

def openUnset : Moves := alone .ddkOpen [.ok 0, .ok 0, .ok 0, heap8, .ok 0, .err ENODEV]

/-- A failing `kmalloc` leaves the mutex locked: the next `ddk_open` does not get
past its `mutex_lock`. A failing SET message leaves a buffer that no file
owns. -/
theorem settled_refused :
    (runUp openOutOfMemory).map (fun s => (s.pool.length, s.world.kernel.locked)) =
        some (0, true) ∧
      (runUp (openOutOfMemory ++ [.start .ddkOpen, .advance 0 (.ok 0), .advance 0 (.ok 0)])).isSome
        = true ∧
      (∀ c, runUp (openOutOfMemory ++
        [.start .ddkOpen, .advance 0 (.ok 0), .advance 0 (.ok 0), .advance 0 c]) = none) ∧
      (runUp openUnset).map
        (fun s => (s.pool.length, s.world.files, s.world.kernel.bufs)) = some (0, 0, 1) ∧
      ¬ ∀ s, runUp openUnset = some s → s.pool = [] → Settled s.world := by
  refine ⟨by decide, by decide, fun c => rfl, by decide, ?_⟩
  intro hall
  rcases Option.isSome_iff_exists.mp (show (runUp openUnset).isSome = true by decide) with ⟨s, hs⟩
  have hbooks : (runUp openUnset).map
      (fun s => (s.pool.length, s.world.files, s.world.kernel.bufs)) = some (0, 0, 1) := by decide
  rw [hs] at hbooks
  simp only [Option.map_some, Option.some.injEq, Prod.mk.injEq] at hbooks
  have hset := hall s hs (List.length_eq_zero_iff.mp hbooks.1)
  have hb := hset.bufs
  rw [hbooks.2.1, hbooks.2.2] at hb
  exact absurd hb (by decide)

end DdkMem
