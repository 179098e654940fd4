import DriversLab.Scull.Pipe

/-!
# Scull.PipeFifo — the buffer of a scullpipe between two opens

* `Ringed`: the pointers form a ring;
* `read_spec`, `write_spec`: a transfer takes bytes from the front of what the ring
  holds, or appends to it, and accesses only cells of the ring;
* `fifo`: what readers have got is a prefix of what writers have handed in, and the
  pointers and `spacefree` account for the rest.
-/

namespace Scull

open CInt Lts

namespace Pipe

/-- `buffer`, `end`, `rp` and `wp` form a ring of `buffersize` bytes. A ring of no
bytes can be allocated too: then all four are equal. -/
structure Ringed (dev : ScullPipe) : Prop where
  ends : dev.bufEnd = dev.buffersize
  nonneg : 0 ≤ dev.buffersize
  int : dev.buffersize < 2 ^ 31
  within : Ring.Within dev.buffersize dev.rp dev.wp ∨
    dev.buffersize = 0 ∧ dev.rp = 0 ∧ dev.wp = 0

/-- The bytes in flight. -/
def content (dev : ScullPipe) : List UInt8 :=
  Ring.content dev.mem dev.buffersize dev.rp dev.wp

variable {dev : ScullPipe}

theorem ring_of_ne (h : Ringed dev) (hne : dev.rp ≠ dev.wp) :
    Ring.Within dev.buffersize dev.rp dev.wp := by
  rcases h.within with hw | ⟨_, hr, hw⟩
  · exact hw
  · exact absurd (hr.trans hw.symm) hne

theorem toULong_of_int {z : ℤ} (hl : 0 ≤ z) (hu : z < 2 ^ 31) : ((toULong z).toNat : ℤ) = z := by
  unfold toULong
  omega

/-- `spacefree` counts the cells that may still be written. -/
theorem spacefree_eq (h : Ringed dev) (hw : Ring.Within dev.buffersize dev.rp dev.wp) :
    dev.spacefree = Ring.free dev.buffersize dev.rp dev.wp := by
  rcases h with ⟨_, _, hint, _⟩
  rcases hw with ⟨_, _, _, _⟩
  unfold ScullPipe.spacefree Ring.free
  by_cases heq : dev.rp = dev.wp
  · rw [if_pos heq, if_pos heq.le, toInt_of_range (by omega) (by omega)]
    omega
  · rw [if_neg heq, Int.tmod_eq_emod_of_nonneg (by omega)]
    by_cases hle : dev.rp ≤ dev.wp
    · rw [if_pos hle, Int.emod_eq_of_lt (by omega) (by omega),
        toInt_of_range (by omega) (by omega)]
      omega
    · -- the write pointer has wrapped
      have hsplit : dev.rp + dev.buffersize - dev.wp = dev.rp - dev.wp + dev.buffersize := by omega
      rw [if_neg hle, hsplit, Int.add_emod_right, Int.emod_eq_of_lt (by omega) (by omega),
        toInt_of_range (by omega) (by omega)]

/-! ## Reading -/

/-- A read copies as many bytes as can be read in one run. -/
theorem readCount_eq (h : Ringed dev) (hne : dev.rp ≠ dev.wp) (count : ℕ) :
    (dev.readCount count : ℤ) = min (count : ℤ) (Ring.readable dev.buffersize dev.rp dev.wp) := by
  have hw := ring_of_ne h hne
  rcases h with ⟨hends, _, _, _⟩
  rcases hw with ⟨_, _, _, _⟩
  unfold ScullPipe.readCount Ring.readable
  split
  · have := toULong_of_int (z := dev.wp - dev.rp) (by omega) (by omega)
    omega
  · rw [hends]
    have := toULong_of_int (z := dev.buffersize - dev.rp) (by omega) (by omega)
    omega

/-- What a transfer does to everything but the pointers and the memory. -/
structure Frame (dev dev' : ScullPipe) : Prop where
  buffer : dev'.buffer = dev.buffer
  bufEnd : dev'.bufEnd = dev.bufEnd
  buffersize : dev'.buffersize = dev.buffersize
  nreaders : dev'.nreaders = dev.nreaders
  nwriters : dev'.nwriters = dev.nwriters

theorem frame_read (dev : ScullPipe) (count : ℕ) (fault : Bool) :
    Frame dev (dev.scullPRead count fault).2.2 := by
  unfold ScullPipe.scullPRead
  cases fault <;> exact ⟨rfl, rfl, rfl, rfl, rfl⟩

theorem frame_write (dev : ScullPipe) (buf : List UInt8) (fault : Option ℕ) :
    Frame dev (dev.scullPWrite buf fault).2.2 := by
  unfold ScullPipe.scullPWrite
  cases fault <;> exact ⟨rfl, rfl, rfl, rfl, rfl⟩

/-- `scull_p_read` takes bytes from the front. -/
theorem read_spec (h : Ringed dev) (hne : dev.rp ≠ dev.wp) (count : ℕ) (fault : Bool) :
    Ringed (dev.scullPRead count fault).2.2 ∧
      content dev =
        (dev.scullPRead count fault).2.1 ++ content (dev.scullPRead count fault).2.2 := by
  have hw := ring_of_ne h hne
  have hcount := readCount_eq h hne count
  unfold ScullPipe.scullPRead
  cases fault with
  | true => exact ⟨h, rfl⟩
  | false =>
      have hle : (dev.readCount count : ℤ) ≤ Ring.readable dev.buffersize dev.rp dev.wp := by omega
      refine ⟨⟨h.ends, h.nonneg, h.int, Or.inl ?_⟩, ?_⟩
      · simp only [h.ends]
        exact hw.read hle
      · simp only [content, h.ends]
        exact Ring.content_take hw hne hle

/-! ## Writing -/

/-- A write copies as many bytes as are free and can be written in one run. -/
theorem writeCount_eq (h : Ringed dev) (hw : Ring.Within dev.buffersize dev.rp dev.wp) (count : ℕ) :
    (dev.writeCount count : ℤ) = min (min (count : ℤ) (Ring.free dev.buffersize dev.rp dev.wp))
      (Ring.writable dev.buffersize dev.rp dev.wp) := by
  have hfree := spacefree_eq h hw
  have hnonneg := Ring.free_nonneg hw
  have hsmall : Ring.free dev.buffersize dev.rp dev.wp < 2 ^ 31 := by
    rcases hw with ⟨_, _, _, _⟩
    have := h.int
    unfold Ring.free
    split <;> omega
  have hcast := toULong_of_int hnonneg hsmall
  rcases h with ⟨hends, _, _, _⟩
  rcases hw with ⟨_, _, _, _⟩
  unfold ScullPipe.writeCount Ring.writable
  simp only [hfree]
  split
  · rw [hends]
    have := toULong_of_int (z := dev.buffersize - dev.wp) (by omega) (by omega)
    omega
  · have := toULong_of_int (z := dev.rp - dev.wp - 1) (by omega) (by omega)
    omega

/-- A ring of no bytes takes none. -/
theorem writeCount_zero (hends : dev.bufEnd = 0) (hr : dev.rp = 0) (hw : dev.wp = 0) (count : ℕ) :
    dev.writeCount count = 0 := by
  simp [ScullPipe.writeCount, hends, hr, hw, toULong]

/-- `scull_p_write` appends the bytes it accepts. -/
theorem write_spec (h : Ringed dev) (buf : List UInt8) (fault : Option ℕ) :
    Ringed (dev.scullPWrite buf fault).2.2 ∧
      content (dev.scullPWrite buf fault).2.2 = content dev ++ (dev.scullPWrite buf fault).2.1 := by
  rcases h.within with hw | ⟨hzero, hr, hwp⟩
  · have hcount := writeCount_eq h hw buf.length
    have hlen : (buf.take (dev.writeCount buf.length)).length = dev.writeCount buf.length := by
      rw [List.length_take]
      omega
    have hrun : (dev.writeCount buf.length : ℤ) ≤ Ring.writable dev.buffersize dev.rp dev.wp := by
      omega
    have hfree : (dev.writeCount buf.length : ℤ) ≤ Ring.free dev.buffersize dev.rp dev.wp := by
      omega
    unfold ScullPipe.scullPWrite
    cases fault with
    | some k =>
        -- the bytes that were copied lie in free cells
        refine ⟨⟨h.ends, h.nonneg, h.int, Or.inl hw⟩, ?_⟩
        simp only [Option.isSome_some, if_true, content, List.append_nil]
        refine Ring.content_store_stay hw ?_
        rw [copied, List.length_append, List.length_take, List.length_replicate]
        omega
    | none =>
        refine ⟨⟨h.ends, h.nonneg, h.int, Or.inl ?_⟩, ?_⟩
        · simp only [Option.isSome_none, Bool.false_eq_true, if_false, hlen, h.ends]
          exact hw.write hrun
        · simp only [Option.isSome_none, Bool.false_eq_true, if_false, content, h.ends, copied]
          exact Ring.content_store hw (by omega) (by omega)
  · -- the ring of no bytes
    have hends : dev.bufEnd = 0 := h.ends.trans hzero
    have hcount := writeCount_zero hends hr hwp buf.length
    unfold ScullPipe.scullPWrite
    cases fault with
    | some k =>
        refine ⟨⟨h.ends, h.nonneg, h.int, h.within⟩, ?_⟩
        simp [content, hr, hwp]
    | none =>
        refine ⟨⟨h.ends, h.nonneg, h.int, Or.inr ⟨hzero, hr, ?_⟩⟩, ?_⟩
        · simp [hcount, hends, hwp]
        · simp [content, hcount, hends, hwp, hr]

/-! ## What a transfer moves -/

/-- The cells that a call accesses once it passes its test: the first one and their
number. -/
def span (dev : ScullPipe) : PipeCall → ℤ × ℕ
  | .read count => (dev.rp, dev.readCount count)
  | .write buf => (dev.wp, dev.writeCount buf.length)

/-- A transfer stays inside the ring. -/
theorem span_within (h : Ringed dev) {call : PipeCall} (hpass : passes dev call = true) :
    0 ≤ (span dev call).1 ∧ (span dev call).1 + (span dev call).2 ≤ dev.buffersize := by
  cases call with
  | read count =>
      have hne : dev.rp ≠ dev.wp := by simpa [passes] using hpass
      have hw := ring_of_ne h hne
      have hcount := readCount_eq h hne count
      rcases hw with ⟨_, _, _, _⟩
      unfold Ring.readable at hcount
      simp only [span]
      split at hcount <;> omega
  | write buf =>
      rcases h.within with hw | ⟨hzero, hr, hwp⟩
      · have hcount := writeCount_eq h hw buf.length
        rcases hw with ⟨_, _, _, _⟩
        unfold Ring.writable at hcount
        simp only [span]
        split at hcount <;> omega
      · have hcount := writeCount_zero (h.ends.trans hzero) hr hwp buf.length
        simp only [span, hcount, hwp, hzero]
        decide

/-- A call that asks for a byte and passes its test moves one. -/
theorem span_pos (h : Ringed dev) (hw : Ring.Within dev.buffersize dev.rp dev.wp)
    {call : PipeCall} (hpass : passes dev call = true) (hcount : 1 ≤ call.count) :
    1 ≤ (span dev call).2 := by
  cases call with
  | read count =>
      have hne : dev.rp ≠ dev.wp := by simpa [passes] using hpass
      have heq := readCount_eq h hne count
      rcases hw with ⟨_, _, _, _⟩
      unfold Ring.readable at heq
      simp only [span, PipeCall.count] at hcount ⊢
      split at heq <;> omega
  | write buf =>
      have hfree : dev.spacefree ≠ 0 := by simpa [passes] using hpass
      have heq := writeCount_eq h hw buf.length
      rw [spacefree_eq h hw] at hfree
      have hnonneg := Ring.free_nonneg hw
      rcases hw with ⟨_, _, _, _⟩
      simp only [span, PipeCall.count] at hcount ⊢
      generalize hf : Ring.free dev.buffersize dev.rp dev.wp = free at hfree heq hnonneg
      unfold Ring.writable at heq
      split at heq
      · omega
      · -- all that is free lies in one run
        rename_i hle
        rw [Ring.free, if_neg hle] at hf
        omega

theorem writeCount_le (dev : ScullPipe) (count : ℕ) : dev.writeCount count ≤ count := by
  unfold ScullPipe.writeCount
  simp only
  split <;> omega

/-- A critical section whose copy does not fault moves the whole span and returns its
length. -/
theorem critical_moves {s : PipeSys} {t : ℕ} (ht : t < s.threads.length) (f : ℕ)
    {call : PipeCall} (hpass : passes s.dev call = true) :
    (critical s t f call none).threads[t]? = some (.returned (span s.dev call).2) ∧
      (critical s t f call none).accepted.length + (critical s t f call none).returned.length =
        s.accepted.length + s.returned.length + (span s.dev call).2 := by
  cases call with
  | read count =>
      rw [critical_read hpass]
      constructor
      · simp [ht, ScullPipe.scullPRead, span]
      · simp [ScullPipe.scullPRead, span]
        omega
  | write buf =>
      have hle := writeCount_le s.dev buf.length
      rw [critical_write hpass]
      constructor
      · simp [ht, ScullPipe.scullPWrite, span, hle]
      · simp [ScullPipe.scullPWrite, span, hle]
        omega

/-- What goes into the pipe and what comes out of it between two states. -/
def Conveys (s s' : PipeSys) : Prop :=
  ∃ written, s'.accepted = s.accepted ++ written ∧
    ∃ read, s'.returned = s.returned ++ read ∧ content s.dev ++ written = read ++ content s'.dev

/-- A critical section changes the pointers and the memory only. -/
theorem critical_frame (s : PipeSys) (t f : ℕ) (call : PipeCall) (fault : Option ℕ) :
    Frame s.dev (critical s t f call fault).dev := by
  cases hpass : passes s.dev call with
  | false =>
      rw [critical_blocked hpass]
      exact ⟨rfl, rfl, rfl, rfl, rfl⟩
  | true =>
      cases call with
      | read count =>
          rw [critical_read hpass]
          exact frame_read s.dev count fault.isSome
      | write buf =>
          rw [critical_write hpass]
          exact frame_write s.dev buf fault

/-- A critical section keeps the ring, and conveys bytes through it. -/
theorem critical_ringed {s : PipeSys} (hring : Ringed s.dev) (t f : ℕ) (call : PipeCall)
    (fault : Option ℕ) :
    Ringed (critical s t f call fault).dev ∧ Conveys s (critical s t f call fault) := by
  cases hpass : passes s.dev call with
  | false =>
      rw [critical_blocked hpass]
      exact ⟨hring, [], (List.append_nil _).symm, [], (List.append_nil _).symm, by simp⟩
  | true =>
      cases call with
      | read count =>
          have hne : s.dev.rp ≠ s.dev.wp := by simpa [passes] using hpass
          rcases read_spec hring hne count fault.isSome with ⟨hring', hcontent⟩
          rw [critical_read hpass]
          refine ⟨hring', [], ?_, _, rfl, ?_⟩
          · exact (List.append_nil _).symm
          · simpa using hcontent
      | write buf =>
          rcases write_spec hring buf fault with ⟨hring', hcontent⟩
          rw [critical_write hpass]
          refine ⟨hring', _, rfl, [], ?_, ?_⟩
          · exact (List.append_nil _).symm
          · simpa using hcontent.symm

/-! ## Runs without an open -/

/-- The ring lies in what `kmalloc` gave out. -/
def Roomy (dev : ScullPipe) : Prop := ∀ k : ℕ, dev.buffer = some k → dev.buffersize ≤ k

/-- Since `s₀`, the bytes accepted are the bytes returned and those in flight. -/
structure Since (s₀ s : PipeSys) : Prop where
  ringed : Ringed s.dev
  roomy : Roomy s.dev
  buffersize : s.dev.buffersize = s₀.dev.buffersize
  logs : ∃ written, s.accepted = s₀.accepted ++ written ∧
    ∃ read, s.returned = s₀.returned ++ read ∧ written = read ++ content s.dev

/-! A release and other code leave the ring alone. -/

theorem ringed_release (h : Ringed dev) (mode : FMode) : Ringed (dev.scullPRelease mode) :=
  ⟨h.ends, h.nonneg, h.int, h.within⟩

theorem ringed_foreign (h : Ringed dev) (mem : ℤ → UInt8) : Ringed { dev with mem := mem } :=
  ⟨h.ends, h.nonneg, h.int, h.within⟩

theorem roomy_release (h : Roomy dev) (mode : FMode) : Roomy (dev.scullPRelease mode) := by
  intro k hk
  simp only [ScullPipe.scullPRelease] at hk
  split at hk
  · cases hk
  · exact h k hk

theorem roomy_critical {s : PipeSys} (h : Roomy s.dev) (t f : ℕ) (call : PipeCall)
    (fault : Option ℕ) : Roomy (critical s t f call fault).dev := by
  have hframe := critical_frame s t f call fault
  unfold Roomy
  rw [hframe.buffer, hframe.buffersize]
  exact h

/-- What other code does with its memory does not concern a ring that lies in the buffer. -/
theorem content_foreign (h : Ringed dev) (hroom : Roomy dev) {a : ℤ}
    (hout : ∃ n ∈ dev.buffer, a < 0 ∨ (n : ℤ) ≤ a) (val : UInt8) :
    content { dev with mem := Function.update dev.mem a val } = content dev := by
  rcases hout with ⟨n, hn, hout⟩
  have hle := hroom n hn
  rcases h.within with hw | ⟨-, hr, hw⟩
  · apply Ring.content_congr hw
    intro x hx
    have hbounds := hx.bounds hw
    exact Function.update_of_ne (by omega) _ _
  · simp only [content, hr, hw, Ring.content_empty]

/-- A critical section moves bytes from writers to the ring, or from the ring to
readers. -/
theorem since_critical {s₀ s : PipeSys} (hi : Since s₀ s) (t f : ℕ) (call : PipeCall)
    (fault : Option ℕ) : Since s₀ (critical s t f call fault) := by
  rcases hi with ⟨hring, hroom, hsize, written, hacc, read, hret, hlog⟩
  rcases critical_ringed hring t f call fault with ⟨hring', more, hacc', got, hret', hmove⟩
  have hsize' := (critical_frame s t f call fault).buffersize
  refine ⟨hring', roomy_critical hroom t f call fault, hsize'.trans hsize, written ++ more, ?_,
    read ++ got, ?_, ?_⟩
  · rw [hacc', hacc, List.append_assoc]
  · rw [hret', hret, List.append_assoc]
  · rw [hlog, List.append_assoc, hmove, List.append_assoc]

theorem since_step {s₀ s s' : PipeSys} {a : PipeAct} (hi : Since s₀ s) (ha : ¬ a.IsOpen)
    (hs : step s a = some s') : Since s₀ s' := by
  rcases guarded_eq_some.mp hs with ⟨hg, rfl⟩
  cases a with
  | openFile file heap => exact absurd trivial ha
  | release f file =>
      exact ⟨ringed_release hi.ringed file.mode, roomy_release hi.roomy file.mode, hi.buffersize,
        hi.logs⟩
  | ioctl cmd arg user => exact ⟨hi.ringed, hi.roomy, hi.buffersize, hi.logs⟩
  | enter t f file call => exact ⟨hi.ringed, hi.roomy, hi.buffersize, hi.logs⟩
  | locked t f call fault => exact since_critical hi t f call fault
  | wake t f call => exact ⟨hi.ringed, hi.roomy, hi.buffersize, hi.logs⟩
  | interrupted t f call => exact ⟨hi.ringed, hi.roomy, hi.buffersize, hi.logs⟩
  | foreign a val =>
      rcases hi with ⟨hring, hroom, hsize, written, hacc, read, hret, hlog⟩
      refine ⟨ringed_foreign hring _, hroom, hsize, written, hacc, read, hret, ?_⟩
      -- the byte is stored outside the buffer, and the ring lies inside
      rw [hlog]
      exact congrArg (read ++ ·) (content_foreign hring hroom hg val).symm

/-! ## What an open leaves -/

/-- `scull_p_buffer` is an `int`. -/
def IntParam (s : PipeSys) : Prop :=
  -2 ^ 31 ≤ s.params.scullPBuffer ∧ s.params.scullPBuffer < 2 ^ 31

theorem scullIoctl_scullPBuffer (cmd : IoctlCmd) (arg : ℤ) (user : IoctlUser) (p : Params) :
    (scullIoctl cmd arg user p).params.scullPBuffer = p.scullPBuffer ∨
      (scullIoctl cmd arg user p).params.scullPBuffer = toInt arg := by
  have hset : ∀ (x : Param) val, (x.set p val).scullPBuffer = p.scullPBuffer := by
    intro x val
    cases x <;> rfl
  unfold scullIoctl
  split
  · exact Or.inl rfl
  · split
    · exact Or.inl rfl
    · cases cmd with
      | set x => cases user.int <;> exact Or.inl (hset x _)
      | tell x => exact Or.inl (hset x _)
      | exchange x => cases user.int <;> exact Or.inl (hset x _)
      | shift x => exact Or.inl (hset x _)
      | pTsize => exact Or.inr rfl
      | _ => exact Or.inl rfl

theorem critical_params (s : PipeSys) (t f : ℕ) (call : PipeCall) (fault : Option ℕ) :
    (critical s t f call fault).params = s.params := by
  unfold critical
  split
  · cases call <;> rfl
  · rfl

theorem intParam_step {s s' : PipeSys} {a : PipeAct} (hi : IntParam s)
    (hs : step s a = some s') : IntParam s' := by
  rcases guarded_eq_some.mp hs with ⟨_, rfl⟩
  cases a with
  | openFile file heap =>
      unfold update
      simp only
      split <;> exact hi
  | ioctl cmd arg user =>
      have hrange := toInt_range arg
      unfold IntParam at hi ⊢
      simp only [update]
      rcases scullIoctl_scullPBuffer cmd arg user s.params with h | h <;> rw [h]
      · exact hi
      · exact hrange
  | locked t f call fault =>
      show IntParam (critical s t f call fault)
      unfold IntParam at hi ⊢
      rw [critical_params]
      exact hi
  | release f file => exact hi
  | enter t f file call => exact hi
  | wake t f call => exact hi
  | interrupted t f call => exact hi
  | foreign a val => exact hi

/-- The states right after `scull_p_init`. -/
def Loaded (s : PipeSys) : Prop := ∃ scullPBuffer n, s = init scullPBuffer n

theorem intParam_reachable {s : PipeSys} (h : Reachable step Loaded s) : IntParam s := by
  refine reachable_invariant ?_ (fun _ _ _ hi hs => intParam_step hi hs) h
  rintro _ ⟨scullPBuffer, n, rfl⟩
  exact toInt_range scullPBuffer

/-- An open that leaves a buffer sets up an empty ring. -/
theorem opened {s s' : PipeSys} {file : PipeFile} {heap : Option (ℤ → UInt8)} {n : ℕ}
    (hi : IntParam s) (hs : step s (.openFile file heap) = some s')
    (hbuf : s'.dev.buffer = some n) (hsize : 0 < s'.dev.buffersize) :
    Ringed s'.dev ∧ s'.dev.rp = 0 ∧ s'.dev.wp = 0 := by
  rcases guarded_eq_some.mp hs with ⟨_, rfl⟩
  rcases open_cases s file heap with ⟨h, hnone⟩ | ⟨m, mem, _, h⟩
  · -- -ENOMEM leaves no buffer
    rw [h, hnone] at hbuf
    cases hbuf
  · rw [h] at hsize ⊢
    exact ⟨⟨rfl, hsize.le, hi.2, Or.inl ⟨le_refl _, hsize, le_refl _, hsize⟩⟩, rfl, rfl⟩

/-! ## The law -/

/-- After any run of reads, writes, releases and ioctls that follows an open which
left a ring of `n ≥ 2` bytes in a buffer of `k ≥ n`:

* the bytes that reads have returned since are a prefix of those that writes have
  accepted, and `u` bytes, at most `n - 1`, are still to come;
* `rp` and `wp` are equal exactly when `u` is zero, `spacefree` is `n - 1 - u`, and
  both pointers lie in the buffer;
* the next critical section that passes its test, is asked for a byte and whose copy
  does not fault moves a byte and returns how many it has moved. -/
theorem fifo {s₁ s₀ s : PipeSys} {file : PipeFile} {heap : Option (ℤ → UInt8)} {n k : ℕ}
    {as : List PipeAct} (h₁ : Reachable step Loaded s₁)
    (hopen : step s₁ (.openFile file heap) = some s₀) (hbuf : s₀.dev.buffer = some k)
    (hsize : s₀.dev.buffersize = n) (hn : 2 ≤ n) (hk : n ≤ k) (hr : run step s₀ as = some s)
    (has : ∀ a ∈ as, ¬ a.IsOpen) :
    ∃ written read : List UInt8, ∃ u : ℕ,
      s.accepted = s₀.accepted ++ written ∧ s.returned = s₀.returned ++ read ∧
      read <+: written ∧ written.length = read.length + u ∧ u ≤ n - 1 ∧
      (s.dev.rp = s.dev.wp ↔ u = 0) ∧ s.dev.spacefree = n - 1 - u ∧
      (0 ≤ s.dev.rp ∧ s.dev.rp < s.dev.bufEnd) ∧ (0 ≤ s.dev.wp ∧ s.dev.wp < s.dev.bufEnd) ∧
      ∀ t f call s', passes s.dev call = true → 1 ≤ call.count →
        step s (.locked t f call none) = some s' →
        ∃ m : ℕ, 1 ≤ m ∧ s'.threads[t]? = some (.returned m) ∧
          s'.accepted.length + s'.returned.length = s.accepted.length + s.returned.length + m := by
  rcases opened (intParam_reachable h₁) hopen hbuf (by omega) with ⟨hring₀, hrp, hwp⟩
  have hstart : Since s₀ s₀ := by
    refine ⟨hring₀, ?_, rfl, [], by simp, [], by simp, ?_⟩
    · intro m hm
      cases hbuf.symm.trans hm
      omega
    · simp [content, hrp, hwp]
  have hi : Since s₀ s := run_invariant_along (fun _ _ _ hi ha hs => since_step hi ha hs) hstart
    ((along_const hr).mpr has) hr
  rcases hi with ⟨hring, -, hsame, written, hacc, read, hret, hlog⟩
  have hlen : s.dev.buffersize = n := hsame.trans hsize
  have hw : Ring.Within s.dev.buffersize s.dev.rp s.dev.wp := by
    rcases hring.within with hw | ⟨hzero, _⟩
    · exact hw
    · -- `n` is not zero
      omega
  have hsum := Ring.length_add_free s.dev.mem hw
  have hnonneg := Ring.free_nonneg hw
  have hends := hring.ends
  refine ⟨written, read, (content s.dev).length, hacc, hret, ⟨_, hlog.symm⟩, ?_, ?_, ?_, ?_, ?_, ?_,
    ?_⟩
  · rw [hlog, List.length_append]
  · unfold content
    omega
  · exact (Ring.content_length_eq_zero_iff hw).symm
  · rw [spacefree_eq hring hw]
    unfold content
    omega
  · exact ⟨hw.rpNonneg, hends ▸ hw.rpLt⟩
  · exact ⟨hw.wpNonneg, hends ▸ hw.wpLt⟩
  · intro t f call s' hpass hcount hs
    -- the test says that the ring has a byte, or room for one
    rcases guarded_eq_some.mp hs with ⟨hgd, rfl⟩
    have hlt : t < s.threads.length := (List.getElem?_eq_some_iff.mp hgd).1
    exact ⟨_, span_pos hring hw hpass hcount, critical_moves hlt f hpass⟩

/-! ## A pipe of four bytes -/

/-- A file that is open for reading and writing. -/
def both : PipeFile := ⟨⟨true, true⟩, true⟩

/-- The open of a pipe of four bytes that has just been set up. -/
def openFour : PipeAct := .openFile both (some fun _ => 0)

/-- Two bytes go in. -/
def putTwo : List PipeAct := [.enter 0 0 both (.write [1, 2]), .locked 0 0 (.write [1, 2]) none]

/-- Two bytes go in, one comes out. -/
def putTwoTakeOne : List PipeAct :=
  putTwo ++ [.enter 0 0 both (.read 1), .locked 0 0 (.read 1) none]

/-- A smaller `scull_p_buffer`, by an ioctl. -/
def shrink : PipeAct := .ioctl .pTsize 3 ⟨true, false, none, false⟩

/-- The second open of a pipe makes a ring of three bytes in the four that are there. -/
theorem fifo_shrunk : ∃ s₁ s₀ s, run step (init 4 1) [openFour, shrink] = some s₁ ∧
    step s₁ openFour = some s₀ ∧ run step s₀ (.foreign 4 7 :: putTwoTakeOne) = some s ∧
    s.returned = [1] ∧
    ∃ written read : List UInt8, ∃ u : ℕ, s.accepted = s₀.accepted ++ written ∧
      s.returned = s₀.returned ++ read ∧ read <+: written ∧ written.length = read.length + u ∧
      s.dev.spacefree = 3 - 1 - u := by
  refine ⟨_, _, _, rfl, rfl, rfl, rfl, ?_⟩
  have hlaw := fifo (n := 3) (k := 4)
    ⟨init 4 1, [openFour, shrink], ⟨4, 1, rfl⟩, rfl⟩ (show step _ openFour = some _ from rfl)
    rfl rfl (by decide) (by decide)
    (show run step _ (.foreign 4 7 :: putTwoTakeOne) = some _ from rfl) ?_
  · rcases hlaw with ⟨written, read, u, hacc, hret, hprefix, hlen, _, _, hspace, _⟩
    exact ⟨written, read, u, hacc, hret, hprefix, hlen, hspace⟩
  · intro a ha
    simp only [putTwoTakeOne, putTwo, List.cons_append, List.nil_append, List.mem_cons,
      List.not_mem_nil, or_false] at ha
    rcases ha with rfl | rfl | rfl | rfl | rfl <;> exact id

/-- A read that has passed its test, with a user buffer that faults: it moves
nothing. -/
theorem fifo_fault : ∃ s₀ s s', step (init 4 1) openFour = some s₀ ∧
    run step s₀ (putTwo ++ [.enter 0 0 both (.read 1)]) = some s ∧
    passes s.dev (.read 1) = true ∧ step s (.locked 0 0 (.read 1) (some 0)) = some s' ∧
    s'.threads[0]? = some (.returned (-EFAULT)) ∧ s'.returned = s.returned ∧
    s'.accepted = s.accepted :=
  ⟨_, _, _, rfl, rfl, rfl, rfl, rfl, rfl, rfl⟩

end Pipe

end Scull
