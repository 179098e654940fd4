import DriversLab.DdkMem.Kernel

/-!
# DdkMem.Stats — the write statistics against the return values

`ddk_write` has five exits: before the loop, in it on a failing copy or packet,
after it when the read offset cannot be set, and the good one.

* `writePost_ddkWrite`: which hook each exit has called;
* `stats_iff`: after a run that ends with no call in progress, the counters are
  the numbers of returned calls, with one count for each call, exactly when no
  `ddk_write` that has returned met a failing SET message or a failing copy.
-/

namespace DdkMem

open Interact

variable {β : Type}

/-! ## One call -/

/-- Calls of `ddk_ext_on_write_success`. -/
def succeeded : Event (Ans β) → ℤ
  | ⟨.ddkExtOnWriteSuccess _, _⟩ => 1
  | _ => 0

/-- Calls of `ddk_ext_on_write_fail`. -/
def failed : Event (Ans β) → ℤ
  | ⟨.ddkExtOnWriteFail, _⟩ => 1
  | _ => 0

/-- A failing SET message or copy from the user. -/
def skipped : Event (Ans β) → Bool
  | ⟨.setMemOffset _ _, .error _⟩ => true
  | ⟨.copyFromUser _, true⟩ => true
  | _ => false

/-- The hooks that a call has called, and whether it has met a `skipped`
failure. -/
structure Hooks where
  succeeded : ℤ
  failed : ℤ
  skipped : Prop

def Hooks.none : Hooks := ⟨0, 0, False⟩

def hooking : Typestate (Ans β) Hooks where
  pre _ _ := True
  next g o r :=
    { succeeded := g.succeeded + succeeded ⟨o, r⟩
      failed := g.failed + failed ⟨o, r⟩
      skipped := g.skipped ∨ skipped ⟨o, r⟩ }

/-- What a call has done to the statistics when it returns. -/
structure WritePost (t : Call β) (g : Hooks) (ret : ℤ) : Prop where
  other : t.isWrite = false → g.succeeded = 0 ∧ g.failed = 0
  good : t.isWrite = true → 0 ≤ ret → g.succeeded = 1 ∧ g.failed = 0 ∧ ¬ g.skipped
  bad : t.isWrite = true → ret < 0 → ¬ g.skipped → g.succeeded = 0 ∧ g.failed = 1
  missed : t.isWrite = true → ret < 0 → g.skipped →
    g.failed = 0 ∧ 0 ≤ g.succeeded ∧ g.succeeded ≤ 1

/-- Nothing has happened yet that the statistics are about. -/
def Clean (g : Hooks) : Prop := g.succeeded = 0 ∧ g.failed = 0 ∧ ¬ g.skipped

theorem clean_next {g : Hooks} {o : Op β} {r : Ans β o} (hg : Clean g)
    (hs : succeeded ⟨o, r⟩ = 0) (hf : failed ⟨o, r⟩ = 0) (hk : skipped ⟨o, r⟩ = false) :
    Clean (hooking.next g o r) := by
  rcases hg with ⟨hgs, hgf, hgk⟩
  refine ⟨?_, ?_, ?_⟩
  · show g.succeeded + _ = 0
    rw [hgs, hs, add_zero]
  · show g.failed + _ = 0
    rw [hgf, hf, add_zero]
  · show ¬ (g.skipped ∨ _)
    simp [hgk, hk]

/-- The loop of `ddk_write` is clean when it gets through; otherwise either the
copy failed and no hook was called, or a packet failed and the fail hook was. -/
theorem hooks_writeLoop (cfg : Config) (buf : List UInt8) (bound wroteCnt : ℕ) {g : Hooks}
    (hg : Clean g) :
    hooking.Conforms
      (fun g r => match r with
        | .ok _ => Clean g
        | .error _ => g.succeeded = 0 ∧ ((g.failed = 0 ∧ g.skipped) ∨ (g.failed = 1 ∧ ¬ g.skipped)))
      (writeLoop cfg buf bound wroteCnt : Driver β _) g := by
  induction bound generalizing wroteCnt g with
  | zero =>
      unfold writeLoop
      split
      · exact ⟨trivial, fun r => r.elim⟩
      · exact hg
  | succ bound ih =>
      unfold writeLoop
      split
      · refine ⟨trivial, ?_⟩
        intro faults
        cases faults with
        | true =>
            -- the copy faulted: no hook is called
            simp [hooking, succeeded, failed, skipped, hg.1, hg.2.1]
        | false =>
            refine ⟨trivial, ?_⟩
            intro r
            cases r with
            | error e =>
                -- the packet failed: the one exit with the fail hook
                refine ⟨trivial, fun _ => ?_⟩
                simp [hooking, succeeded, failed, skipped, hg.1, hg.2.1, hg.2.2]
            | ok wrote =>
                refine ih _ ?_
                exact clean_next (clean_next hg rfl rfl rfl) rfl rfl rfl
      · exact hg

/-- An exit of `ddk_write` with an error. -/
theorem writePost_error {bound : ℕ} {buf : List UInt8} {off : ℤ} {g : Hooks} (e : Errno)
    (hb : ¬ g.skipped → g.succeeded = 0 ∧ g.failed = 1)
    (hm : g.skipped → g.failed = 0 ∧ 0 ≤ g.succeeded ∧ g.succeeded ≤ 1) :
    WritePost (.ddkWrite bound buf off : Call β) g e.val := by
  have he := e.neg
  refine ⟨?_, ?_, fun _ _ => hb, fun _ _ => hm⟩
  · intro h
    cases h
  · intro _ h
    omega

/-- `ddk_write`, exit by exit. -/
theorem writePost_ddkWrite (cfg : Config) (bound : ℕ) (buf : List UInt8) (off : ℤ) :
    hooking.Conforms (fun g r => WritePost (.ddkWrite bound buf off : Call β) g r.ret)
      (ddkWrite cfg bound buf off : Driver β _) Hooks.none := by
  have hnone : Clean Hooks.none := ⟨rfl, rfl, fun h => h⟩
  refine ⟨trivial, ?_⟩
  intro r
  cases r with
  | error e =>
      -- the first SET message failed: no hook is called
      refine writePost_error e ?_ ?_ <;> simp [hooking, Hooks.none, succeeded, failed, skipped]
  | ok _ =>
      show Typestate.Conforms hooking _ (Prog.bind (writeLoop cfg buf bound 0) _) _
      refine Typestate.conforms_bind
        (hooks_writeLoop cfg buf bound 0 (clean_next hnone rfl rfl rfl)) ?_
      intro g r hg
      cases r with
      | error e =>
          refine writePost_error e ?_ ?_
          · intro hk
            simpa [hk] using hg
          · intro hk
            simp only [hk, not_true_eq_false, and_false, or_false, and_true] at hg
            omega
      | ok wroteCnt =>
          rcases hg with ⟨hs, hf, hk⟩
          refine ⟨trivial, fun _ => ⟨trivial, fun r => ?_⟩⟩
          cases r with
          | error e =>
              -- the success hook has been called, and the call still fails
              refine writePost_error e ?_ ?_ <;>
                simp [hooking, succeeded, failed, skipped, hs, hf]
          | ok _ =>
              refine ⟨fun h => (by cases h), fun _ _ => ?_, fun _ h => ?_, fun _ h => ?_⟩
              · simp [hooking, succeeded, failed, skipped, hs, hf, hk]
              · exact absurd h (by simp)
              · exact absurd h (by simp)

/-- A call that is no `ddk_write` calls no hook. -/
theorem writePost_other (cfg : Config) {t : Call β} (ht : t.isWrite = false) :
    hooking.Conforms (WritePost t) (progOf cfg t) Hooks.none := by
  have hpost : ∀ (g : Hooks) (ret : ℤ), g.succeeded = 0 ∧ g.failed = 0 → WritePost t g ret := by
    intro g ret hg
    refine ⟨fun _ => hg, ?_, ?_, ?_⟩ <;>
      · intro hw
        rw [ht] at hw
        cases hw
  have hkeep : ∀ (g : Hooks) (o : Op β), g.succeeded = 0 ∧ g.failed = 0 →
      (o.IsMessage ∨ o.IsOpenOp) → hooking.pre g o ∧ ∀ r, (hooking.next g o r).succeeded = 0 ∧
        (hooking.next g o r).failed = 0 := by
    intro g o hg ho
    refine ⟨trivial, ?_⟩
    intro r
    have hzero : succeeded ⟨o, r⟩ = 0 ∧ failed ⟨o, r⟩ = 0 := by
      cases o <;> first
        | exact ⟨rfl, rfl⟩
        | exact absurd ho (by simp [Op.IsMessage, Op.IsOpenOp])
    show g.succeeded + _ = 0 ∧ g.failed + _ = 0
    rw [hg.1, hg.2, hzero.1, hzero.2]
    exact ⟨rfl, rfl⟩
  have honly : (progOf cfg t).Only fun o => o.IsMessage ∨ o.IsOpenOp := by
    by_cases htr : t.IsTransfer
    · exact Prog.only_mono (fun o => Or.inl) (only_message cfg htr ht)
    · exact Prog.only_mono (fun o => Or.inr) (only_openOp cfg htr)
  exact Typestate.conforms_mono hpost
    (Typestate.conforms_of_only hkeep honly (g := Hooks.none) ⟨rfl, rfl⟩)

theorem writePost_progOf (cfg : Config) (t : Call β) :
    hooking.Conforms (WritePost t) (progOf cfg t) Hooks.none := by
  cases t with
  | ddkWrite bound buf off =>
      exact Typestate.conforms_bind (writePost_ddkWrite cfg bound buf off) fun _ _ h => h
  | _ => exact writePost_other cfg rfl

/-! ## The counters -/

variable {view : ℕ → UInt8 → β} {interface : Interface} {w : World β}
  {s : Busy (Ans β) ℤ (World β) (Call β)} {ms : List (Move (Choice β) (HubAct β) (Call β))}

/-- A file operation counts what it reports, modulo 2^64. -/
theorem serve_counters {k k' : Kernel} {o : Op β} {c : Choice β} {r : Ans β o} (ho : o.IsFileOp)
    (h : k.serve view o c = some (r, k')) :
    (∀ m : ℤ, k.ext.totalUsbSuccess = m % 2 ^ 64 →
      k'.ext.totalUsbSuccess = (m + succeeded ⟨o, r⟩) % 2 ^ 64) ∧
    ∀ m : ℤ, k.ext.totalUsbFail = m % 2 ^ 64 →
      k'.ext.totalUsbFail = (m + failed ⟨o, r⟩) % 2 ^ 64 := by
  have hsame : k'.ext = k.ext → succeeded ⟨o, r⟩ = 0 → failed ⟨o, r⟩ = 0 →
      (∀ m : ℤ, k.ext.totalUsbSuccess = m % 2 ^ 64 →
        k'.ext.totalUsbSuccess = (m + succeeded ⟨o, r⟩) % 2 ^ 64) ∧
      ∀ m : ℤ, k.ext.totalUsbFail = m % 2 ^ 64 →
        k'.ext.totalUsbFail = (m + failed ⟨o, r⟩) % 2 ^ 64 := by
    intro he hs hf
    rw [he, hs, hf]
    simp only [add_zero, imp_self, implies_true, and_self]
  have hboard : k.onBoard view o c = some (r, k') → k'.ext = k.ext := by
    intro hb
    rw [onBoard_frame hb]
  cases o with
  | ddkExtOnWriteSuccess len =>
      cases h
      simp only [DdkExt.DdkExtState.countSuccess, succeeded, failed]
      exact ⟨fun m hm => by omega, fun m hm => by omega⟩
  | ddkExtOnWriteFail =>
      cases h
      simp only [DdkExt.DdkExtState.ddkExtOnWriteFail, succeeded, failed]
      exact ⟨fun m hm => by omega, fun m hm => by omega⟩
  | setMemOffset dir v => exact hsame (hboard h) rfl rfl
  | getMemOffset dir => exact hsame (hboard h) rfl rfl
  | getMemSize => exact hsame (hboard h) rfl rfl
  | stackShort => exact hsame (hboard h) rfl rfl
  | interruptIn len => exact hsame (hboard h) rfl rfl
  | interruptOut data => exact hsame (hboard h) rfl rfl
  | copyFromUser len => exact hsame (hboard h) rfl rfl
  | copyToUser data => exact hsame (hboard h) rfl rfl
  | copyIntToUser val => exact hsame (hboard h) rfl rfl
  | mutexLock =>
      simp only [Kernel.serve] at h
      split at h <;> cases h
      exact hsame rfl rfl rfl
  | mutexUnlock =>
      simp only [Kernel.serve] at h
      split at h <;> cases h
      exact hsame rfl rfl rfl
  | kmallocFile n =>
      simp only [Kernel.serve] at h
      split at h
      · cases h
        exact hsame rfl rfl rfl
      · split at h <;> cases h
        exact hsame rfl rfl rfl
  | runsOn => cases h
  | kzallocDevice => exact ho.elim
  | kfreeDevice => exact ho.elim
  | usbRegisterDev => exact ho.elim
  | usbDeregisterDev => exact ho.elim
  | usbSetIntfdata present => exact ho.elim
  | ddkExtInit => exact ho.elim
  | ddkExtCleanup => exact ho.elim
  | _ =>
      cases h
      exact hsame rfl rfl rfl

/-- A counter that operations move by `δ`, after a run that starts it at zero. -/
theorem counter_run {q : Kernel → ℕ} {δ : Event (Ans β) → ℤ}
    (hq : ∀ k o c r k', o.IsFileOp → Kernel.serve view k o c = some (r, k') →
      ∀ m : ℤ, q k = m % 2 ^ 64 → q k' = (m + δ ⟨o, r⟩) % 2 ^ 64)
    (hw : q w.kernel = 0) (hms : ∀ m ∈ ms, m.IsCall)
    (hr : Lts.run (fileCalls view interface).step (Fresh w) ms = some s) (hs : s.pool = []) :
    q s.world.kernel = (s.returned.map fun d => tally δ d.hist).sum % 2 ^ 64 := by
  have hprog : ∀ t, ((fileCalls view interface).prog t).Only Op.IsFileOp :=
    only_fileOp interface.config
  have hserve : ∀ (w : World β) o c r w' m, o.IsFileOp → (q w.kernel : ℤ) = m % 2 ^ 64 →
      (fileCalls view interface).serve w o c = some (r, w') →
      (q w'.kernel : ℤ) = (m + δ ⟨o, r⟩) % 2 ^ 64 := by
    intro w o c r w' m ho hm h
    rcases Option.map_eq_some_iff.mp h with ⟨a, ha, he⟩
    cases he
    exact hq _ _ _ _ _ ho ha m hm
  have haccept : ∀ (w : World β) t w' m, (q w.kernel : ℤ) = m % 2 ^ 64 →
      (fileCalls view interface).accept w t = some w' →
      (q w'.kernel : ℤ) = (m + 0) % 2 ^ 64 := by
    intro w t w' m hm h
    rw [accept_kernel h, add_zero]
    exact hm
  have hretire : ∀ (w : World β) t ret m, (q w.kernel : ℤ) = m % 2 ^ 64 →
      (q ((fileCalls view interface).retire w t ret).kernel : ℤ) = (m + 0) % 2 ^ 64 := by
    intro w t ret m hm
    simp only [fileCalls, retire_kernel, add_zero]
    exact hm
  have hzero : (q w.kernel : ℤ) = 0 % 2 ^ 64 := by
    rw [hw]
    rfl
  have hsum := balance_run hserve haccept hretire hprog hms hzero hr hs
  simpa only [zero_add, add_zero] using hsum

/-! ## The exact condition -/

/-- The returned `ddk_write` calls that a test on the return value selects. -/
def writes (p : ℤ → Bool) (s : Busy (Ans β) ℤ (World β) (Call β)) : ℕ :=
  s.returned.countP fun d => d.tag.isWrite && p d.val

/-- The counters agree with what user space has seen, with one count for each
call. -/
structure Agree (s : Busy (Ans β) ℤ (World β) (Call β)) : Prop where
  success : s.world.kernel.ext.totalUsbSuccess = writes (fun ret => decide (0 ≤ ret)) s
  fail : s.world.kernel.ext.totalUsbFail = writes (fun ret => decide (ret < 0)) s
  once : ∀ d ∈ s.returned, d.tag.isWrite = true →
    tally succeeded d.hist + tally failed d.hist = 1

/-- A call that has returned ended as its post says, in terms of its tallies. -/
theorem done_hooks (hr : Lts.run (fileCalls view interface).step (Fresh w) ms = some s)
    {d : Done (Ans β) ℤ (Call β)} (hd : d ∈ s.returned) :
    WritePost d.tag ⟨tally succeeded d.hist, tally failed d.hist, ∃ e ∈ d.hist, skipped e⟩
      d.val := by
  have hord : Orderly hooking (fun _ => Hooks.none) WritePost s := by
    refine Lts.run_invariant (fun _ _ _ ho hs => ho.step ?_ hs) ?_ hr
    · exact ⟨by simp [Fresh], by simp [Fresh]⟩
    · exact fun t => writePost_progOf interface.config t
  have hs : (hooking.after Hooks.none d.hist).succeeded = tally succeeded d.hist := by
    rw [Typestate.after_tally (π := Hooks.succeeded) (δ := succeeded) (fun _ _ _ => rfl)]
    simp [Hooks.none]
  have hf : (hooking.after Hooks.none d.hist).failed = tally failed d.hist := by
    rw [Typestate.after_tally (π := Hooks.failed) (δ := failed) (fun _ _ _ => rfl)]
    simp [Hooks.none]
  have hk : (hooking.after Hooks.none d.hist).skipped = ∃ e ∈ d.hist, skipped e := by
    rw [Typestate.after_exists (π := Hooks.skipped) (P := fun e => skipped e)
      (fun _ _ _ => Iff.rfl)]
    simp [Hooks.none]
  have hp := hord.returned d hd
  rw [← hs, ← hf, ← hk]
  exact hp

/-- Whether a call is a returned `ddk_write` that a test selects, as a number. -/
def one (p : ℤ → Bool) (d : Done (Ans β) ℤ (Call β)) : ℤ :=
  if d.tag.isWrite && p d.val then 1 else 0

theorem writes_eq_sum (p : ℤ → Bool) (s : Busy (Ans β) ℤ (World β) (Call β)) :
    (writes p s : ℤ) = (s.returned.map (one p)).sum := by
  rw [writes, ← Table.sum_map_indicator]
  rfl

/-- The calls whose tallies are what the return value says. -/
theorem tallies_of_not_skipped {d : Done (Ans β) ℤ (Call β)}
    (hp : WritePost d.tag ⟨tally succeeded d.hist, tally failed d.hist, ∃ e ∈ d.hist, skipped e⟩
      d.val)
    (hk : d.tag.isWrite = true → ∀ e ∈ d.hist, ¬ skipped e) :
    tally succeeded d.hist = one (fun ret => decide (0 ≤ ret)) d ∧
      tally failed d.hist = one (fun ret => decide (ret < 0)) d := by
  cases hw : d.tag.isWrite with
  | false =>
      have ho := hp.other hw
      simpa [one, hw] using ho
  | true =>
      have hnot : ¬ ∃ e ∈ d.hist, skipped e := by
        rintro ⟨e, he, hs⟩
        exact hk hw e he hs
      by_cases hv : 0 ≤ d.val
      · have hg := hp.good hw hv
        have hv' : ¬ d.val < 0 := by omega
        simpa [one, hw, hv, hv', hnot] using hg
      · have hb := hp.bad hw (by omega) hnot
        have hv' : d.val < 0 := by omega
        simpa [one, hw, hv, hv'] using hb

/-- A call never counts more failures than it reports, and one that has met a
`skipped` failure counts fewer. -/
theorem failed_le {d : Done (Ans β) ℤ (Call β)}
    (hp : WritePost d.tag ⟨tally succeeded d.hist, tally failed d.hist, ∃ e ∈ d.hist, skipped e⟩
      d.val) :
    0 ≤ tally failed d.hist ∧ tally failed d.hist ≤ one (fun ret => decide (ret < 0)) d ∧
      (d.tag.isWrite = true → (∃ e ∈ d.hist, skipped e) →
        tally failed d.hist < one (fun ret => decide (ret < 0)) d) := by
  by_cases hk : d.tag.isWrite = true ∧ ∃ e ∈ d.hist, skipped e
  · have hv : d.val < 0 := by
      by_contra hv
      exact (hp.good hk.1 (by omega)).2.2 hk.2
    have hm := hp.missed hk.1 hv hk.2
    simp only [one, hk.1, hv, decide_true, Bool.and_true, if_true]
    simp only at hm
    omega
  · have ht := tallies_of_not_skipped hp fun hw e he hs => hk ⟨hw, e, he, hs⟩
    refine ⟨?_, le_of_eq ht.2, fun hw hs => absurd ⟨hw, hs⟩ hk⟩
    rw [ht.2, one]
    split <;> decide

/-- From zero counters, a run of fewer than 2^64 returned `ddk_write` calls that
ends with no call in progress ends with the counters in agreement if and only
if no `ddk_write` that has returned met a failing SET message or a failing copy
from the user. -/
theorem stats_iff (hzero : w.kernel.ext.totalUsbSuccess = 0 ∧ w.kernel.ext.totalUsbFail = 0)
    (hms : ∀ m ∈ ms, m.IsCall)
    (hr : Lts.run (fileCalls view interface).step (Fresh w) ms = some s) (hs : s.pool = [])
    (hlen : writes (fun _ => true) s < 2 ^ 64) :
    Agree s ↔ ∀ d ∈ s.returned, d.tag.isWrite = true → ∀ e ∈ d.hist, ¬ skipped e := by
  have hsucc := counter_run (fun _ _ _ _ _ ho h => (serve_counters ho h).1) hzero.1 hms hr hs
  have hfail := counter_run (fun _ _ _ _ _ ho h => (serve_counters ho h).2) hzero.2 hms hr hs
  have hpost := fun d (hd : d ∈ s.returned) => done_hooks hr hd
  have hbound : ∀ p, (s.returned.map (one p)).sum ≤ writes (fun _ => true) s := by
    intro p
    rw [writes_eq_sum]
    refine List.sum_le_sum ?_
    intro d _
    unfold one
    cases d.tag.isWrite <;> cases p d.val <;> simp
  constructor
  · intro hagree d hd hw e he hk
    -- the fail counter is the sum of the tallies, none of which exceeds its call
    have hle : (s.returned.map fun d => tally failed d.hist).sum ≤
        (s.returned.map (one fun ret => decide (ret < 0))).sum :=
      List.sum_le_sum fun d hd => (failed_le (hpost d hd)).2.1
    have h0 : 0 ≤ (s.returned.map fun d => tally failed d.hist).sum := by
      refine List.sum_nonneg ?_
      intro x hx
      rcases List.mem_map.mp hx with ⟨d, hd, rfl⟩
      exact (failed_le (hpost d hd)).1
    have heq : (s.returned.map fun d => tally failed d.hist).sum =
        (s.returned.map (one fun ret => decide (ret < 0))).sum := by
      have hb := hbound fun ret => decide (ret < 0)
      have ha := hagree.fail
      rw [← writes_eq_sum] at hb hle ⊢
      omega
    have hlt := List.sum_lt_sum _ _ (fun d hd => (failed_le (hpost d hd)).2.1)
      ⟨d, hd, (failed_le (hpost d hd)).2.2 hw ⟨e, he, hk⟩⟩
    exact absurd heq (ne_of_lt hlt)
  · intro hnone
    have ht := fun d hd => tallies_of_not_skipped (hpost d hd) (hnone d hd)
    rw [List.map_congr_left fun d hd => (ht d hd).1] at hsucc
    rw [List.map_congr_left fun d hd => (ht d hd).2] at hfail
    refine ⟨?_, ?_, ?_⟩
    · have hb := hbound fun ret => decide (0 ≤ ret)
      rw [← writes_eq_sum] at hb hsucc
      omega
    · have hb := hbound fun ret => decide (ret < 0)
      rw [← writes_eq_sum] at hb hfail
      omega
    · intro d hd hw
      rw [(ht d hd).1, (ht d hd).2]
      by_cases hv : 0 ≤ d.val
      · have hv' : ¬ d.val < 0 := by omega
        simp [one, hw, hv, hv']
      · have hv' : d.val < 0 := by omega
        simp [one, hw, hv, hv']

/-! ## Both sides on a file that is open -/

/-- Three bytes in one packet. -/
def write3 : Call UInt8 := .ddkWrite 1 [1, 2, 3] 0

def goodWrite : Moves := openFile ++ alone write3 [.ok 0, .ok 0, .ok 3, .ok 0, .ok 0]

/-- The last SET message fails. -/
def lateWrite : Moves := openFile ++ alone write3 [.ok 0, .ok 0, .ok 3, .ok 0, .err ENODEV]

/-- The first SET message fails. -/
def earlyWrite : Moves := openFile ++ alone write3 [.err ENODEV]

/-- A write that succeeds is counted once. -/
theorem stats_iff_good : ∃ s, runUp goodWrite = some s ∧ s.returned.map Done.val = [0, 3] ∧
    Agree s := by
  rcases Option.isSome_iff_exists.mp (show (runUp goodWrite).isSome = true by decide) with ⟨s, hs⟩
  have hpool : (runUp goodWrite).map (fun s => s.pool.length) = some 0 := by decide
  have hvals : (runUp goodWrite).map (fun s => s.returned.map Done.val) = some [0, 3] := by decide
  have hwrites : (runUp goodWrite).map (writes fun _ => true) = some 1 := by decide
  have hskipped : (runUp goodWrite).map
      (fun s => s.returned.all fun d => d.hist.all fun e => !skipped e) = some true := by
    decide
  rw [hs] at hpool hvals hwrites hskipped
  simp only [Option.map_some, Option.some.injEq] at hpool hvals hwrites hskipped
  refine ⟨s, hs, hvals, ?_⟩
  refine (stats_iff (w := up) ⟨rfl, rfl⟩ ?_ hs (List.length_eq_zero_iff.mp hpool) ?_).mpr ?_
  · decide
  · rw [hwrites]
    decide
  · intro d hd _ e he
    have hall := List.all_eq_true.mp (List.all_eq_true.mp hskipped d hd) e he
    simpa using hall

/-- The call whose last SET message fails returns an error and is counted as a
success; the call whose first one fails is not counted. -/
theorem stats_missed :
    (runUp lateWrite).map (fun s => (s.returned.map Done.val,
        s.world.kernel.ext.totalUsbSuccess, s.world.kernel.ext.totalUsbFail)) =
      some ([0, -19], 1, 0) ∧
    (runUp earlyWrite).map (fun s => (s.returned.map Done.val,
        s.world.kernel.ext.totalUsbSuccess, s.world.kernel.ext.totalUsbFail)) =
      some ([0, -19], 0, 0) ∧
    ¬ ∀ s, runUp lateWrite = some s → s.pool = [] → Agree s := by
  refine ⟨by decide, by decide, ?_⟩
  intro hall
  rcases Option.isSome_iff_exists.mp (show (runUp lateWrite).isSome = true by decide) with ⟨s, hs⟩
  have hnums : (runUp lateWrite).map (fun s => (s.pool.length,
      s.world.kernel.ext.totalUsbSuccess, writes (fun ret => decide (0 ≤ ret)) s)) =
      some (0, 1, 0) := by
    decide
  rw [hs] at hnums
  simp only [Option.map_some, Option.some.injEq, Prod.mk.injEq] at hnums
  have hagree := hall s hs (List.length_eq_zero_iff.mp hnums.1)
  have hsucc := hagree.success
  rw [hnums.2.1, hnums.2.2] at hsucc
  exact absurd hsucc (by decide)

end DdkMem
