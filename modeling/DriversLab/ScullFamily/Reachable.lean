import DriversLab.ScullFamily.Bytes
import DriversLab.ScullFamily.System

/-!
# ScullFamily.Reachable — what every run leaves of a device

Opens, reads, writes, seeks, mappings and ioctls with whatever arguments, in whatever
order. Whether the sizes make sense or not, the arrays and quanta of a device are those
that the driver allocates.

* `Regular`: an array has `qset` slots, a quantum as many bytes as its item's allocation;
* `Sys.regular_run`: so it is for every device of every run.
-/

namespace ScullFamily

open CInt Scull Lts

/-- The arrays and quanta of a device are those that the driver allocates. -/
structure Regular (v : Variant) (dev : Dev) : Prop where
  arrays : ∀ n arr, dev.arrayAt n = some arr → (arr.length : ℤ) = dev.qset
  quanta : ∀ n s q, dev.quantumAt n s = some q →
    (q.length : ℤ) = v.alloc dev.head.unit ∨ (q.length : ℤ) = v.alloc 0
  cleared : ∀ item ∈ dev.next, item.unit = 0
  qset : -2 ^ 31 ≤ dev.qset ∧ dev.qset < 2 ^ 31

theorem Regular.proper {v : Variant} {dev : Dev} (h : Regular v dev) (hv : Driver v dev) :
    Proper v dev := by
  constructor
  · intro n s q hq
    rcases h.quanta n s q hq with hlen | hlen
    · exact hlen.le
    · rw [hlen]
      exact alloc_cleared hv
  · exact h.cleared

section Transfer

variable {v : Variant} {p : Params} {fPos : ℤ} {env : Env} {dev : Dev} {r : Result}

theorem regular_device (hint : -2 ^ 31 ≤ p.qset ∧ p.qset < 2 ^ 31) : Regular v p.device := by
  have hnone : ∀ n, p.device.arrayAt n = none := by
    intro n
    cases n with
    | zero => rfl
    | succ n => rfl
  constructor
  · intro n arr harr
    rw [hnone] at harr
    cases harr
  · intro n s q hq
    rw [Dev.quantumAt, hnone] at hq
    cases hq
  · exact fun item hitem => absurd hitem List.not_mem_nil
  · exact hint

theorem regular_grown (h : Regular v dev) (n : ℕ) : Regular v (dev.grown n) := by
  constructor
  · simp only [Dev.grown_arrayAt, Dev.grown_qset]
    exact h.arrays
  · simp only [Dev.grown_quantumAt, Dev.grown_head]
    exact h.quanta
  · exact Dev.grown_cleared dev h.cleared
  · exact h.qset

theorem regular_read {count : ℕ} (h : Regular v dev) (hr : read v count fPos env dev = .ok r) :
    Regular v r.dev := by
  rcases readOut_dev (readOut_of_ok hr) with hdev | ⟨n, hdev⟩
  · rw [hdev]
    exact h
  · rw [hdev]
    exact regular_grown h n

/-- The array that an item has or is given. -/
theorem or_kmallocArray_length (h : Regular v dev) {n : ℕ} {arr : PtrArray}
    (harr : (dev.arrayAt n).or (kmallocArray dev.qset env.array) = some arr) :
    (arr.length : ℤ) = dev.qset := by
  rcases Option.or_eq_some_iff.mp harr with hold | ⟨_, hnew⟩
  · exact h.arrays n arr hold
  · unfold kmallocArray at hnew
    split at hnew
    · cases hnew
      rw [List.length_replicate]
      omega
    · cases hnew

/-- A device whose item `n` has been given an array of its `qset` slots. -/
theorem regular_setData (h : Regular v dev) {n : ℕ} {arr : PtrArray}
    (hlen : (arr.length : ℤ) = dev.qset) (hn : n < dev.items.length)
    (hquanta : ∀ (s : ℕ) (q : List UInt8), arr[s]?.join = some q →
      (q.length : ℤ) = v.alloc dev.head.unit ∨ (q.length : ℤ) = v.alloc 0) :
    Regular v (dev.setData arr n) := by
  constructor
  · intro m arr' harr'
    rw [Dev.setData_arrayAt dev hn] at harr'
    rw [setData_qset]
    split at harr'
    · cases harr'
      exact hlen
    · exact h.arrays m arr' harr'
  · intro m s q hq
    rw [Dev.setData_quantumAt dev hn] at hq
    rw [setData_unit]
    split at hq
    · exact hquanta s q hq
    · exact h.quanta m s q hq
  · exact Dev.setData_cleared dev h.cleared arr n
  · rw [setData_qset]
    exact h.qset

theorem regular_write {buf : List UInt8} (h : Regular v dev)
    (hr : write v p buf fPos env dev = .ok r) : Regular v r.dev := by
  cases writeOut_of_ok hr with
  | refused pos _ _ hr =>
      rcases hr with hr | ⟨arr, harr, hr⟩
      · rw [hr]
        exact regular_grown h pos.hops
      · rw [hr]
        refine regular_setData (regular_grown h pos.hops) (or_kmallocArray_length h harr)
          (Dev.grown_lt dev) ?_
        intro s q hq
        rw [Dev.or_kmallocArray_join dev harr] at hq
        exact h.quanta pos.hops s q hq
  | stored pos item arr q _ _ hitem harr hq hin hr =>
      have hgrown := regular_grown h pos.hops
      have hset : ∀ data : List UInt8, data.length = q.length → Regular v
          ((dev.grown pos.hops).setData (arr.set pos.sPos.toNat (some data)) pos.hops) := by
        intro data hdata
        refine regular_setData hgrown ?_ (Dev.grown_lt dev) ?_
        · rw [List.length_set]
          exact or_kmallocArray_length h harr
        · intro s x hx
          rw [List.getElem?_set] at hx
          split at hx
          · split at hx
            · -- the quantum that has been written to
              cases hx
              rw [hdata]
              rcases hq with hold | ⟨_, hnew⟩
              · refine h.quanta pos.hops pos.sPos.toNat q ?_
                rw [← Dev.or_kmallocArray_join dev harr, hold]
                rfl
              · rw [allocQuantum_length hnew]
                rcases List.mem_cons.mp (List.mem_of_getElem? hitem) with hhead | hnext
                · rw [hhead]
                  exact Or.inl rfl
                · rw [hgrown.cleared item hnext]
                  exact Or.inr rfl
            · cases hx
          · rw [Dev.or_kmallocArray_join dev harr] at hx
            exact h.quanta pos.hops s x hx
      have hlen : (stored v dev buf env pos q).length = q.length := stored_length hin
      rw [hr]
      unfold writeResult
      simp only [Dev.grown_geometry]
      split
      · exact hset _ hlen
      · obtain ⟨harrays, hquanta, hcleared, hqset⟩ := hset _ hlen
        exact ⟨harrays, hquanta, hcleared, hqset⟩

end Transfer

/-! ## Runs -/

namespace Sys

/-- The parameters are `int`s, and every device is regular. -/
structure Sane (v : Variant) (s : Sys) : Prop where
  params : -2 ^ 31 ≤ s.params.qset ∧ s.params.qset < 2 ^ 31
  devs : ∀ dev ∈ s.devs, Regular v dev

variable {v : Variant} {s s' : Sys}

/-- An ioctl stores nothing but values of type `int`. -/
theorem ioctl_int {p : Params} (h : -2 ^ 31 ≤ p.qset ∧ p.qset < 2 ^ 31) (cmd : Cmd) (arg : ℤ)
    (user : IoctlUser) (hdefault : -2 ^ 31 ≤ v.defaultQset ∧ v.defaultQset < 2 ^ 31) :
    -2 ^ 31 ≤ (ScullFamily.ioctl v cmd arg user p).params.qset ∧
      (ScullFamily.ioctl v cmd arg user p).params.qset < 2 ^ 31 := by
  have hset : ∀ (x : Field) (val : ℤ), -2 ^ 31 ≤ val ∧ val < 2 ^ 31 →
      -2 ^ 31 ≤ (x.set p val).qset ∧ (x.set p val).qset < 2 ^ 31 := by
    intro x val hval
    cases x with
    | unit => exact h
    | qset => exact hval
  unfold ScullFamily.ioctl
  split
  · exact h
  · cases cmd with
    | reset => exact hdefault
    | set x =>
        cases user.int with
        | none => exact hset x 0 (by omega)
        | some val => exact hset x _ (toInt_range val)
    | tell x => exact hset x _ (toInt_range arg)
    | get x => exact h
    | query x => exact h
    | exchange x =>
        cases user.int with
        | none => exact hset x 0 (by omega)
        | some val => exact hset x _ (toInt_range val)
    | shift x => exact hset x _ (toInt_range arg)
    | foreign => exact h
    | unknown pointer => exact h

theorem sane_transfer (hs : Sane v s) {f d : ℕ} {call : Dev → Except Oops Result}
    (hcall : ∀ dev r, Regular v dev → call dev = .ok r → Regular v r.dev) :
    Sane v (s.transfer f d call) := by
  unfold transfer
  split
  · rename_i r hr
    obtain ⟨dev, hdev, hok⟩ := Option.map_eq_some_iff.mp hr
    refine ⟨hs.params, ?_⟩
    intro dev' hdev'
    rcases List.mem_or_eq_of_mem_set hdev' with hold | rfl
    · exact hs.devs dev' hold
    · exact hcall dev r (hs.devs dev (List.mem_of_getElem? hdev)) hok
  · exact hs

theorem regular_openDev {p : Params} (hint : -2 ^ 31 ≤ p.qset ∧ p.qset < 2 ^ 31) {dev : Dev}
    (hdev : Regular v dev) (wronly : Bool) : Regular v (openDev p wronly dev) := by
  unfold openDev trim
  split
  · split
    · exact hdev
    · exact regular_device hint
  · exact hdev

theorem sane_step (hdefault : -2 ^ 31 ≤ v.defaultQset ∧ v.defaultQset < 2 ^ 31) (hs : Sane v s)
    {a : Act} (hstep : step v s a = some s') : Sane v s' := by
  obtain ⟨_, rfl⟩ := guarded_eq_some.mp hstep
  cases a with
  | openFile d wronly =>
      exact ⟨hs.params, mem_modify hs.devs fun dev hdev =>
        regular_openDev hs.params (hs.devs dev hdev) wronly⟩
  | read f d fPos count env =>
      exact sane_transfer hs fun dev r hdev hr => regular_read hdev hr
  | write f d fPos buf env =>
      exact sane_transfer hs fun dev r hdev hr => regular_write hdev hr
  | llseek f d fPos off whence => exact ⟨hs.params, hs.devs⟩
  | ioctl cmd arg user => exact ⟨ioctl_int hs.params cmd arg user hdefault, hs.devs⟩
  | vmaOpen d =>
      refine ⟨hs.params, mem_modify hs.devs ?_⟩
      intro dev hdev
      obtain ⟨harrays, hquanta, hcleared, hqset⟩ := hs.devs dev hdev
      exact ⟨harrays, hquanta, hcleared, hqset⟩
  | vmaClose d =>
      refine ⟨hs.params, mem_modify hs.devs ?_⟩
      intro dev hdev
      obtain ⟨harrays, hquanta, hcleared, hqset⟩ := hs.devs dev hdev
      exact ⟨harrays, hquanta, hcleared, hqset⟩

/-- Every device of every run is regular. -/
theorem regular_run (hdefault : -2 ^ 31 ≤ v.defaultQset ∧ v.defaultQset < 2 ^ 31) {p : Params}
    (hint : -2 ^ 31 ≤ p.qset ∧ p.qset < 2 ^ 31) {n : ℕ} {as : List Act}
    (hrun : run (step v) (init p n) as = some s) : ∀ dev ∈ s.devs, Regular v dev := by
  have hinit : Sane v (init p n) := by
    refine ⟨hint, ?_⟩
    intro dev hdev
    rw [List.eq_of_mem_replicate hdev]
    exact regular_device hint
  exact (run_invariant (fun _ _ _ hi hs => sane_step hdefault hi hs) hinit hrun).devs

end Sys

end ScullFamily
