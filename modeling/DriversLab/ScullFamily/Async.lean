import DriversLab.ScullFamily.Bytes
import DriversLab.Lib.Vectored

/-!
# ScullFamily.Async — the loop over an iovec

`scullp_defer_op` hands the segments of a vectored request to `scullp_read` or
`scullp_write`, one after the other, and adds up what they return.

* `deferOp`: the loop, with a record of the transfers that it made;
* `Exact`: what is transferred is a prefix of the segments, and the result says how long it
  is or which error ended it;
* `failures`: which transfers fail;
* `Clean`: the requests for which it is;
* `vectored_iff`: no others.

`count` is a `size_t`. The test `count < 0` never succeeds, an error code is added to the
counts in front of it, and the loop goes on. It goes on behind a short transfer too, with
the next segment.
-/

namespace ScullFamily

open CInt Scull Chunked Vectored

/-! ## The loop -/

/-- One `struct iovec`, with what the user has there, and what its transfer meets: whether
a signal ends the wait for the mutex, and the environment behind it. -/
structure Segment where
  base : List UInt8
  interrupted : Bool
  env : Env

/-- `scullp_write` or `scullp_read` of one segment. -/
def transfer (v : Variant) (p : Params) (write : Bool) (seg : Segment) (pos : ℤ) (dev : Dev) :
    Except Oops Result :=
  if seg.interrupted then return ⟨-ERESTARTSYS, pos, [], dev⟩
  else if write then ScullFamily.write v p seg.base pos seg.env dev
  else ScullFamily.read v seg.base.length pos seg.env dev

/-- A transfer that the loop has made. -/
structure Call where
  seg : Segment
  pos : ℤ
  dev : Dev
  out : Result

/-- What the loop returns, the transfers that it made, what it added up, and the device. -/
structure Looped where
  ret : ℤ
  calls : List Call
  added : List ℤ
  dev : Dev

/-- The loop of `scullp_defer_op`. -/
def deferLoop (v : Variant) (p : Params) (write : Bool) :
    List Segment → ℤ → Dev → ℤ → Except Oops Looped
  | [], _, dev, result => return ⟨result, [], [], dev⟩
  | seg :: segs, pos, dev, result => do
      let r ← transfer v p write seg pos dev
      let count := toULong r.ret
      if count < 0 then return ⟨count, [⟨seg, pos, dev, r⟩], [], r.dev⟩
      else
        let out ← deferLoop v p write segs r.fPos r.dev (toULong (result + count))
        return ⟨out.ret, ⟨seg, pos, dev, r⟩ :: out.calls, r.ret :: out.added, out.dev⟩

/-- The type that the result is returned in: `int`, in scullc a `size_t` that
`scullc_aio_read` passes on as a `ssize_t`. -/
inductive Width where
  | int
  | long
deriving DecidableEq, Repr

def Width.conv : Width → ℤ → ℤ
  | int => toInt
  | long => toLong

/-- What does not fit any more. -/
def Width.limit : Width → ℕ
  | int => 2 ^ 31
  | long => 2 ^ 63

/-- What is returned, what `aio_complete` reports later if the completion is deferred, and
the loop behind it. -/
structure Outcome where
  ret : ℤ
  stored : Option ℤ
  loop : Looped

def EIOCBQUEUED : ℤ := 529

/-- `scullp_defer_op`, with a result of type `w`. A synchronous `iocb` is completed at once,
and so is one for which `kmalloc` has no `struct async_work`; its field `result` is an
`int`. -/
def deferOp (v : Variant) (w : Width) (p : Params) (write sync memory : Bool)
    (segs : List Segment) (pos : ℤ) (dev : Dev) : Except Oops Outcome := do
  let out ← deferLoop v p write segs pos dev 0
  if sync || !memory then return ⟨w.conv out.ret, none, out⟩
  else return ⟨-EIOCBQUEUED, some (toInt out.ret), out⟩

/-- The result of the request: what is returned, or reported later. -/
def Outcome.result (o : Outcome) : ℤ := o.stored.getD o.ret

/-- The type of that result. -/
def resultWidth (w : Width) (sync memory : Bool) : Width :=
  if sync || !memory then w else .int

/-! ## What is promised, and when it holds -/

/-- Which byte of the concatenated segments went to or came from which position. -/
def moved : ℕ → List Call → List (ℕ × ℤ)
  | _, [] => []
  | o, c :: calls => run o c.pos c.out.ret.toNat ++ moved (o + c.seg.base.length) calls

/-- The bytes of a transfer are those of its positions. A read changes none, a write no
other; a hole may have been filled. -/
def Call.Carried (v : Variant) (write : Bool) (c : Call) : Prop :=
  if write then
    (∀ i < c.out.ret.toNat, byteAt v c.out.dev (c.pos + i) = c.seg.base[i]?) ∧
      ∀ x b, 0 ≤ x → (∀ i < c.out.ret.toNat,
          place (c.dev.geometry v) x ≠ place (c.dev.geometry v) (c.pos + i)) →
        byteAt v c.dev x = some b → byteAt v c.out.dev x = some b
  else
    c.out.data.length = c.out.ret.toNat ∧
      (∀ i < c.out.ret.toNat, c.out.data[i]? = byteAt v c.dev (c.pos + i)) ∧
      ∀ x, byteAt v c.out.dev x = byteAt v c.dev x

/-- The transfer is that of a prefix. -/
structure Exact (v : Variant) (write : Bool) (pos : ℤ) (o : Outcome) : Prop where
  counted : 0 ≤ o.result → moved 0 o.loop.calls = run 0 pos o.result.toNat ∧
    ∀ c ∈ o.loop.calls, c.Carried v write
  failed : ∀ pre c post, o.loop.calls = pre ++ c :: post → c.out.ret < 0 →
    o.result = c.out.ret ∨ o.result = (pre.map fun d : Call => d.out.ret.toNat).sum
  notSum : ∀ e ∈ o.loop.added, e < 0 → o.loop.added.filter (· ≠ 0) = [e]

/-- The pattern of failures: whether each transfer fails, by an interrupted wait, for want
of memory or by a fault, where those in front of it have left the position and the
device. -/
def failures (v : Variant) (p : Params) (write : Bool) : List Segment → ℤ → Dev → List Bool
  | [], _, _ => []
  | seg :: segs, pos, dev =>
      match transfer v p write seg pos dev with
      | .error _ => []
      | .ok r => decide (r.ret < 0) :: failures v p write segs r.fPos r.dev

/-- Either no transfer fails, none that is cut short is followed by one that finds bytes,
and the counts fit the result; or none fails, and so much is transferred that the result is
negative, of which nothing is said; or one fails, and the others find no byte. -/
inductive Clean (v : Variant) (w : Width) (p : Params) (write : Bool) (pos : ℤ) (dev : Dev)
    (segs : List Segment) : Prop where
  | whole (hserved : true ∉ failures v p write segs pos dev)
      (hfits : Vectored.Fits (avail v write dev) pos (segs.map fun seg => seg.base.length))
      (hsum : (counts (avail v write dev) pos (segs.map fun seg => seg.base.length)).sum < w.limit)
  | wrapped (hserved : true ∉ failures v p write segs pos dev)
      (hwraps : w.limit ≤ (counts (avail v write dev) pos
        (segs.map fun seg => seg.base.length)).sum % (2 * w.limit))
  | alone (pre post : List Segment) (seg : Segment) (hsegs : segs = pre ++ seg :: post)
      (hfails : failures v p write segs pos dev =
        pre.map (fun _ => false) ++ true :: post.map fun _ => false)
      (hrest : ∀ d ∈ pre ++ post, min d.base.length (avail v write dev pos) = 0)

/-! ## All transfers of the loop -/

section Loop

variable {v : Variant} {p : Params} {write : Bool} {seg : Segment} {fPos : ℤ} {dev : Dev}
  {r : Result}

/-- How a transfer goes: it fails and leaves the position, or moves what there is. -/
theorem transfer_cases (hv : Driver v dev) (hdev : Proper v dev) (hp : 0 ≤ fPos)
    (h : transfer v p write seg fPos dev = .ok r) :
    -ERESTARTSYS ≤ r.ret ∧ r.ret < 0 ∧ r.fPos = fPos ∨
      r.ret = (min seg.base.length (avail v write dev fPos) : ℕ) ∧ r.fPos = fPos + r.ret ∧
        Call.Carried v write ⟨seg, fPos, dev, r⟩ := by
  unfold transfer at h
  split at h
  · -- the wait is interrupted
    cases h
    exact Or.inl ⟨le_refl _, (by decide : -ERESTARTSYS < 0), rfl⟩
  · split at h
    · rename_i hwrite
      rw [hwrite]
      rcases write_served hv hdev hp (writeOut_of_ok h) with
        ⟨hupper, hlower, hpos⟩ | ⟨hret, hpos, hbytes, hframe⟩
      · refine Or.inl ⟨?_, ?_, hpos⟩
        · unfold ERESTARTSYS
          unfold EFAULT at hlower
          omega
        · unfold ENOMEM at hupper
          omega
      · exact Or.inr ⟨hret, hpos, by rw [Call.Carried, if_pos rfl]; exact ⟨hbytes, hframe⟩⟩
    · rename_i hread
      rw [Bool.not_eq_true] at hread
      rw [hread]
      have hout := readOut_of_ok h
      rcases read_served (straight_driver hv) hdev hp hout with
        ⟨hret, hpos⟩ | ⟨hret, hpos, hlen, hbytes⟩
      · rw [hret]
        exact Or.inl ⟨by decide, by decide, hpos⟩
      · refine Or.inr ⟨hret, hpos, ?_⟩
        rw [Call.Carried, if_neg (by decide)]
        exact ⟨hlen, hbytes, (read_untouched hout).byteAt_eq v⟩

/-- What a transfer leaves for the next one. -/
structure Next (v : Variant) (write : Bool) (dev dev' : Dev) : Prop where
  driver : Driver v dev'
  proper : Proper v dev'
  avail : avail v write dev' = avail v write dev

theorem transfer_next (hv : Driver v dev) (hdev : Proper v dev)
    (h : transfer v p write seg fPos dev = .ok r) : Next v write dev r.dev := by
  unfold transfer at h
  split at h
  · cases h
    exact ⟨hv, hdev, rfl⟩
  · split at h
    · rename_i hwrite
      have hout := writeOut_of_ok h
      have hsizes := write_sizes hout
      refine ⟨hsizes.driver hv, write_proper hv hdev hout, ?_⟩
      funext x
      simp only [avail, hsizes.geometry, hwrite, if_true]
    · rename_i hread
      have hsame := read_untouched (readOut_of_ok h)
      refine ⟨hsame.driver hv, ?_, ?_⟩
      · constructor
        · simp only [hsame.quanta, hsame.unit]
          exact hdev.quanta
        · rcases readOut_dev (readOut_of_ok h) with hsam | ⟨n, hgrown⟩
          · rw [hsam]
            exact hdev.cleared
          · rw [hgrown]
            exact Dev.grown_cleared dev hdev.cleared
      · funext x
        simp only [avail, hsame.geometry, hsame.quanta, hsame.size]

/-- The transfers of a list of segments, one after the other. -/
inductive Ran (v : Variant) (p : Params) (write : Bool) : ℤ → Dev → List Segment → List Call → Prop
  | nil (pos : ℤ) (dev : Dev) : Ran v p write pos dev [] []
  | cons (pos : ℤ) (dev : Dev) (seg : Segment) (segs : List Segment) (r : Result)
      (calls : List Call) (hr : transfer v p write seg pos dev = .ok r)
      (hrest : Ran v p write r.fPos r.dev segs calls) :
      Ran v p write pos dev (seg :: segs) (⟨seg, pos, dev, r⟩ :: calls)

/-- `count` is unsigned, so the loop makes every transfer and adds up what they return. -/
theorem deferLoop_ran {segs : List Segment} {pos result : ℤ} {out : Looped}
    (hresult : result = toULong result) (h : deferLoop v p write segs pos dev result = .ok out) :
    Ran v p write pos dev segs out.calls ∧ out.added = out.calls.map (fun c => c.out.ret) ∧
      out.ret = toULong (result + (out.calls.map fun c => c.out.ret).sum) := by
  induction segs generalizing pos dev result out with
  | nil =>
      cases h
      refine ⟨.nil pos dev, rfl, ?_⟩
      rw [List.map_nil, List.sum_nil, Int.add_zero]
      exact hresult
  | cons seg segs ih =>
      unfold deferLoop at h
      cases hr : transfer v p write seg pos dev with
      | error e =>
          rw [hr] at h
          cases h
      | ok r =>
          rw [hr] at h
          -- the test for an error
          have hunsigned : ¬ toULong r.ret < 0 := by
            unfold toULong
            omega
          simp only [ok_bind, if_neg hunsigned] at h
          cases hloop : deferLoop v p write segs r.fPos r.dev
              (toULong (result + toULong r.ret)) with
          | error e =>
              rw [hloop] at h
              cases h
          | ok out' =>
              rw [hloop] at h
              cases h
              obtain ⟨hran, hadded, hret⟩ := ih (by unfold toULong; omega) hloop
              refine ⟨.cons pos dev seg segs r out'.calls hr hran, ?_, ?_⟩
              · simp only [hadded, List.map_cons]
              · simp only [hret, List.map_cons, List.sum_cons]
                unfold toULong
                omega

theorem ran_segs {segs : List Segment} {pos : ℤ} {calls : List Call}
    (hran : Ran v p write pos dev segs calls) : calls.map Call.seg = segs := by
  induction hran with
  | nil => rfl
  | cons pos dev seg segs r calls _ _ ih => rw [List.map_cons, ih]

/-- The record of the loop shows the pattern of failures. -/
theorem ran_failures {segs : List Segment} {pos : ℤ} {calls : List Call}
    (hran : Ran v p write pos dev segs calls) :
    failures v p write segs pos dev = calls.map fun c => decide (c.out.ret < 0) := by
  induction hran with
  | nil => rfl
  | cons pos dev seg segs r calls hr _ ih =>
      rw [failures, hr, List.map_cons, ← ih]

theorem served_iff {segs : List Segment} {pos : ℤ} {calls : List Call}
    (hran : Ran v p write pos dev segs calls) :
    true ∉ failures v p write segs pos dev ↔ ∀ c ∈ calls, 0 ≤ c.out.ret := by
  simp [ran_failures hran]

/-- One failure among transfers that find nothing, in the record and in the pattern. -/
theorem alone_iff {segs : List Segment} {pos : ℤ} {calls : List Call} {n : ℕ}
    (hran : Ran v p write pos dev segs calls) :
    (∃ pre post c, calls = pre ++ c :: post ∧ c.out.ret < 0 ∧
        ∀ d ∈ pre ++ post, 0 ≤ d.out.ret ∧ min d.seg.base.length n = 0) ↔
      ∃ pre post seg, segs = pre ++ seg :: post ∧
        failures v p write segs pos dev =
          pre.map (fun _ => false) ++ true :: (post.map fun _ => false) ∧
        ∀ d ∈ pre ++ post, min d.base.length n = 0 := by
  have hserved : ∀ calls : List Call,
      (calls.map fun c => decide (c.out.ret < 0)) = (calls.map Call.seg).map (fun _ => false) ↔
        ∀ c ∈ calls, 0 ≤ c.out.ret := by
    intro calls
    rw [List.map_map, List.map_inj_left]
    simp
  rw [ran_failures hran, ← ran_segs hran]
  constructor
  · rintro ⟨pre, post, c, rfl, hneg, hrest⟩
    obtain ⟨hpre, hpost⟩ := List.forall_mem_append.mp hrest
    refine ⟨pre.map Call.seg, post.map Call.seg, c.seg, by simp, ?_, ?_⟩
    · rw [← (hserved pre).mpr fun d hd => (hpre d hd).1,
        ← (hserved post).mpr fun d hd => (hpost d hd).1]
      simp [hneg]
    · rw [← List.map_append]
      exact List.forall_mem_map.mpr fun d hd => (hrest d hd).2
  · rintro ⟨pre, post, seg, hsegs, hfails, hrest⟩
    obtain ⟨calls₁, tail, rfl, rfl, htail⟩ := List.map_eq_append_iff.mp hsegs
    obtain ⟨c, calls₂, rfl, rfl, rfl⟩ := List.map_eq_cons_iff.mp htail
    rw [List.map_append, List.map_cons] at hfails
    obtain ⟨hpre, htrue⟩ := List.append_inj hfails (by simp)
    obtain ⟨hneg, hpost⟩ := List.cons.inj htrue
    rw [← List.map_append] at hrest
    have hzero := List.forall_mem_map.mp hrest
    have hnonneg := List.forall_mem_append.mpr ⟨(hserved _).mp hpre, (hserved _).mp hpost⟩
    refine ⟨calls₁, calls₂, c, rfl, of_decide_eq_true hneg, ?_⟩
    intro d hd
    exact ⟨hnonneg d hd, hzero d hd⟩

/-- If no transfer fails, each one moves what there is at the position reached. -/
theorem ran_served {segs : List Segment} {pos : ℤ} {calls : List Call}
    (hran : Ran v p write pos dev segs calls) (hv : Driver v dev) (hdev : Proper v dev)
    (hp : 0 ≤ pos) (hserved : ∀ c ∈ calls, 0 ≤ c.out.ret) :
    (calls.map fun c => c.out.ret.toNat) =
        counts (avail v write dev) pos (segs.map fun seg => seg.base.length) ∧
      (∀ o, moved o calls = moves o pos ((segs.map fun seg => seg.base.length).zip
        (calls.map fun c => c.out.ret.toNat))) ∧
      ∀ c ∈ calls, c.Carried v write := by
  induction hran with
  | nil pos dev => exact ⟨rfl, fun _ => rfl, fun c hc => absurd hc List.not_mem_nil⟩
  | cons pos dev seg segs r calls hr _ ih =>
      obtain ⟨hhead, hrest⟩ := List.forall_mem_cons.mp hserved
      simp only at hhead
      rcases transfer_cases hv hdev hp hr with ⟨_, hneg, _⟩ | ⟨hret, hpos, hcarried⟩
      · omega
      · obtain ⟨hv', hdev', havail⟩ := transfer_next hv hdev hr
        obtain ⟨hcounts, hmoved, hall⟩ := ih hv' hdev' (by omega) hrest
        have hnat : (r.ret.toNat : ℤ) = r.ret := Int.toNat_of_nonneg hhead
        have hmin : r.ret.toNat = min seg.base.length (avail v write dev pos) := by omega
        refine ⟨?_, ?_, List.forall_mem_cons.mpr ⟨hcarried, hall⟩⟩
        · rw [List.map_cons, List.map_cons, counts, hcounts, havail, hpos, ← hmin, hnat]
        · intro o
          rw [moved, hmoved, List.map_cons, List.map_cons, List.zip_cons_cons, moves, hpos, hnat]

/-- Transfers that move nothing leave the position to the next one. -/
theorem ran_still {segs : List Segment} {pos : ℤ} {calls : List Call}
    (hran : Ran v p write pos dev segs calls) (hv : Driver v dev) (hdev : Proper v dev)
    (hp : 0 ≤ pos)
    (h : ∀ c ∈ calls, c.out.ret ≤ 0 ∨ min c.seg.base.length (avail v write dev pos) = 0) :
    ∀ c ∈ calls, -ERESTARTSYS ≤ c.out.ret ∧ c.out.ret ≤ 0 ∧
      (0 ≤ c.out.ret → min c.seg.base.length (avail v write dev pos) = 0) := by
  induction hran with
  | nil pos dev => exact fun c hc => absurd hc List.not_mem_nil
  | cons pos dev seg segs r calls hr _ ih =>
      obtain ⟨hhead, hrest⟩ := List.forall_mem_cons.mp h
      simp only at hhead
      have hnext := transfer_next hv hdev hr
      have hsame : -ERESTARTSYS ≤ r.ret ∧ r.ret ≤ 0 ∧
          (0 ≤ r.ret → min seg.base.length (avail v write dev pos) = 0) ∧ r.fPos = pos := by
        unfold ERESTARTSYS
        rcases transfer_cases hv hdev hp hr with ⟨hlow, hneg, hpos⟩ | ⟨hret, hpos, _⟩
        · unfold ERESTARTSYS at hlow
          exact ⟨hlow, hneg.le, fun hle => absurd hle (not_le.mpr hneg), hpos⟩
        · refine ⟨by omega, by omega, ?_, by omega⟩
          intro _
          omega
      obtain ⟨hlow, hle, hzero, hpos⟩ := hsame
      rw [hpos, hnext.avail] at ih
      exact List.forall_mem_cons.mpr ⟨⟨hlow, hle, hzero⟩, ih hnext.driver hnext.proper hp hrest⟩

end Loop

/-! ## The result -/

section Result

variable {w : Width} {z : ℤ}

theorem conv_lt (w : Width) (z : ℤ) : w.conv z < w.limit := by
  cases w with
  | int => exact (toInt_range z).2
  | long => exact (toLong_range z).2

/-- A sum of counts that fits, and an error code that nothing has been added to. -/
theorem conv_toULong (hl : -ERESTARTSYS ≤ z) (hu : z < w.limit) : w.conv (toULong z) = z := by
  unfold ERESTARTSYS at hl
  cases w with
  | int =>
      have hlimit : ((Width.int.limit : ℕ) : ℤ) = 2 ^ 31 := rfl
      simp only [Width.conv, toInt, toULong]
      omega
  | long =>
      have hlimit : ((Width.long.limit : ℕ) : ℤ) = 2 ^ 63 := rfl
      simp only [Width.conv, toLong, toULong]
      omega

/-- A sum that is too large may turn out negative. -/
theorem conv_toULong_nonneg (w : Width) (n : ℕ) :
    0 ≤ w.conv (toULong n) ↔ n % (2 * w.limit) < w.limit := by
  cases w with
  | int =>
      have hlimit : Width.int.limit = 2 ^ 31 := rfl
      simp only [Width.conv, toInt, toULong, hlimit]
      omega
  | long =>
      have hlimit : Width.long.limit = 2 ^ 63 := rfl
      simp only [Width.conv, toLong, toULong, hlimit]
      omega

/-- Counts are natural numbers. -/
theorem sum_toNat {calls : List Call} (h : ∀ c ∈ calls, 0 ≤ c.out.ret) :
    (calls.map fun c => c.out.ret).sum = ((calls.map fun c => c.out.ret.toNat).sum : ℕ) := by
  induction calls with
  | nil => rfl
  | cons c calls ih =>
      obtain ⟨hhead, hrest⟩ := List.forall_mem_cons.mp h
      rw [List.map_cons, List.sum_cons, ih hrest, List.map_cons, List.sum_cons, Int.natCast_add,
        Int.toNat_of_nonneg hhead]

theorem forall_mem_middle {P : Call → Prop} {pre post : List Call} {c : Call} :
    (∀ d ∈ pre ++ c :: post, P d) ↔ P c ∧ ∀ d ∈ pre ++ post, P d := by
  simp only [List.perm_middle.mem_iff, List.forall_mem_cons]

/-- What is added up has one entry that is not zero, exactly if the others are zero. -/
theorem filter_middle {pre post : List Call} {c : Call} (hc : c.out.ret ≠ 0) :
    ((pre ++ c :: post).map fun d => d.out.ret).filter (· ≠ 0) = [c.out.ret] ↔
      ∀ d ∈ pre ++ post, d.out.ret = 0 := by
  rw [List.map_append, List.map_cons, List.filter_append,
    List.filter_cons_of_pos (by simpa using hc)]
  have hnil : ∀ calls : List Call, (calls.map fun d => d.out.ret).filter (· ≠ 0) = [] ↔
      ∀ d ∈ calls, d.out.ret = 0 := by
    intro calls
    simp [List.filter_eq_nil_iff]
  constructor
  · intro hfilter
    have hlen := congrArg List.length hfilter
    simp only [List.length_append, List.length_cons, List.length_nil] at hlen
    have hpre := (hnil pre).mp (List.length_eq_zero_iff.mp (by omega))
    have hpost := (hnil post).mp (List.length_eq_zero_iff.mp (by omega))
    exact List.forall_mem_append.mpr ⟨hpre, hpost⟩
  · intro hzero
    obtain ⟨hpre, hpost⟩ := List.forall_mem_append.mp hzero
    rw [(hnil pre).mpr hpre, (hnil post).mpr hpost, List.nil_append]

theorem sum_middle {pre post : List Call} {c : Call} (h : ∀ d ∈ pre ++ post, d.out.ret = 0) :
    ((pre ++ c :: post).map fun d => d.out.ret).sum = c.out.ret := by
  have hzero : ∀ calls : List Call, (∀ d ∈ calls, d.out.ret = 0) →
      (calls.map fun d => d.out.ret).sum = 0 := by
    intro calls hcalls
    apply List.sum_eq_zero
    intro x hx
    obtain ⟨d, hd, rfl⟩ := List.mem_map.mp hx
    exact hcalls d hd
  obtain ⟨hpre, hpost⟩ := List.forall_mem_append.mp h
  rw [List.map_append, List.map_cons, List.sum_append, List.sum_cons, hzero pre hpre,
    hzero post hpost, Int.zero_add, Int.add_zero]

variable {v : Variant} {p : Params} {write sync memory : Bool} {segs : List Segment} {pos : ℤ}
  {dev : Dev} {o : Outcome}

theorem deferOp_ran (h : deferOp v w p write sync memory segs pos dev = .ok o) :
    Ran v p write pos dev segs o.loop.calls ∧
      o.loop.added = o.loop.calls.map (fun c => c.out.ret) ∧
      o.result = (resultWidth w sync memory).conv
        (toULong (o.loop.calls.map fun c => c.out.ret).sum) := by
  unfold deferOp at h
  cases hloop : deferLoop v p write segs pos dev 0 with
  | error e =>
      rw [hloop] at h
      cases h
  | ok out =>
      obtain ⟨hran, hadded, hret⟩ := deferLoop_ran rfl hloop
      rw [Int.zero_add] at hret
      rw [hloop, ok_bind] at h
      unfold resultWidth
      split at h
      · rename_i hnow
        cases h
        rw [if_pos hnow]
        exact ⟨hran, hadded, by rw [← hret]; rfl⟩
      · rename_i hlater
        cases h
        rw [if_neg hlater]
        exact ⟨hran, hadded, by rw [← hret]; rfl⟩

/-- No transfer fails: the counts tell. -/
theorem exact_iff_of_served (hv : Driver v dev) (hdev : Proper v dev) (hp : 0 ≤ pos)
    (h : deferOp v w p write sync memory segs pos dev = .ok o)
    (hserved : ∀ c ∈ o.loop.calls, 0 ≤ c.out.ret) :
    Exact v write pos o ↔
      Vectored.Fits (avail v write dev) pos (segs.map fun seg => seg.base.length) ∧
          (counts (avail v write dev) pos (segs.map fun seg => seg.base.length)).sum <
            (resultWidth w sync memory).limit ∨
        (resultWidth w sync memory).limit ≤
          (counts (avail v write dev) pos (segs.map fun seg => seg.base.length)).sum %
            (2 * (resultWidth w sync memory).limit) := by
  obtain ⟨hran, hadded, hresult⟩ := deferOp_ran h
  obtain ⟨hcounts, hmoved, hcarried⟩ := ran_served hran hv hdev hp hserved
  rw [sum_toNat hserved] at hresult
  set lens := segs.map fun seg => seg.base.length
  have htotal : total (lens.zip (o.loop.calls.map fun c => c.out.ret.toNat)) =
      (o.loop.calls.map fun c => c.out.ret.toNat).sum :=
    total_zip (by rw [hcounts, counts_length])
  have hresults : ∀ r, moved 0 o.loop.calls = run 0 pos r ↔
      r = (o.loop.calls.map fun c => c.out.ret.toNat).sum ∧
        Vectored.Fits (avail v write dev) pos lens := by
    intro r
    rw [hmoved, moves_eq_run_iff, htotal, hcounts, whole_iff_fits]
    rw [hcounts]
    exact counts_le
  have hsign := conv_toULong_nonneg (resultWidth w sync memory)
    (o.loop.calls.map fun c => c.out.ret.toNat).sum
  rw [← hresult] at hsign
  rw [← hcounts, ← not_lt, ← hsign]
  constructor
  · intro hexact
    by_cases hnonneg : 0 ≤ o.result
    · obtain ⟨hsum, hfits⟩ := (hresults _).mp (hexact.counted hnonneg).1
      have hlt : o.result < (resultWidth w sync memory).limit := by
        rw [hresult]
        exact conv_lt _ _
      exact Or.inl ⟨hfits, by omega⟩
    · exact Or.inr hnonneg
  · intro hclean
    constructor
    · intro hnonneg
      rcases hclean with ⟨hfits, hlt⟩ | hneg
      · rw [conv_toULong (by unfold ERESTARTSYS; omega) (by omega)] at hresult
        exact ⟨(hresults _).mpr ⟨by omega, hfits⟩, hcarried⟩
      · -- it has wrapped
        exact absurd hnonneg hneg
    · intro pre c post hcalls hneg
      have := hserved c (by rw [hcalls]; simp)
      omega
    · intro e he hneg
      rw [hadded] at he
      obtain ⟨c, hc, rfl⟩ := List.mem_map.mp he
      have := hserved c hc
      omega

/-- A transfer fails: nothing else may have been added to its error. -/
theorem exact_iff_of_failed (hv : Driver v dev) (hdev : Proper v dev) (hp : 0 ≤ pos)
    (h : deferOp v w p write sync memory segs pos dev = .ok o)
    (hfailed : ∃ c ∈ o.loop.calls, c.out.ret < 0) :
    Exact v write pos o ↔ ∃ pre post c, o.loop.calls = pre ++ c :: post ∧ c.out.ret < 0 ∧
      ∀ d ∈ pre ++ post, 0 ≤ d.out.ret ∧ min d.seg.base.length (avail v write dev pos) = 0 := by
  obtain ⟨hran, hadded, hresult⟩ := deferOp_ran h
  constructor
  · intro hexact
    obtain ⟨c, hc, hneg⟩ := hfailed
    have hmem : c.out.ret ∈ o.loop.added := by
      rw [hadded]
      exact List.mem_map.mpr ⟨c, hc, rfl⟩
    have hfilter := hexact.notSum _ hmem hneg
    obtain ⟨pre, post, hcalls⟩ := List.append_of_mem hc
    rw [hadded, hcalls, filter_middle hneg.ne] at hfilter
    refine ⟨pre, post, c, hcalls, hneg, ?_⟩
    -- nothing has moved the position on
    have hstill := ran_still hran hv hdev hp (by
      rw [hcalls, forall_mem_middle]
      exact ⟨Or.inl hneg.le, fun d hd => Or.inl (hfilter d hd).le⟩)
    rw [hcalls, forall_mem_middle] at hstill
    intro d hd
    have hzero := hfilter d hd
    exact ⟨hzero.ge, (hstill.2 d hd).2.2 hzero.ge⟩
  · rintro ⟨pre, post, c, hcalls, hneg, hrest⟩
    have hstill := ran_still hran hv hdev hp (by
      rw [hcalls, forall_mem_middle]
      exact ⟨Or.inl hneg.le, fun d hd => Or.inr (hrest d hd).2⟩)
    rw [hcalls, forall_mem_middle] at hstill
    have hzero : ∀ d ∈ pre ++ post, d.out.ret = 0 := fun d hd =>
      le_antisymm (hstill.2 d hd).2.1 (hrest d hd).1
    have hret : o.result = c.out.ret := by
      rw [hresult, hcalls, sum_middle hzero]
      refine conv_toULong hstill.1.1 ?_
      omega
    -- the one that fails is the only one whose value is negative
    have honly : ∀ d ∈ o.loop.calls, d.out.ret < 0 → d.out.ret = c.out.ret := by
      rw [hcalls, forall_mem_middle]
      constructor
      · intro _
        rfl
      · intro d hd hlt
        have := hzero d hd
        omega
    constructor
    · intro hnonneg
      omega
    · intro pre' d post' hcalls' hlt
      refine Or.inl ?_
      rw [hret, honly d (by rw [hcalls']; simp) hlt]
    · intro e he hlt
      rw [hadded] at he ⊢
      obtain ⟨d, hd, rfl⟩ := List.mem_map.mp he
      rw [honly d hd hlt, hcalls, filter_middle hneg.ne]
      exact hzero

end Result

/-- What is computed of an outcome. -/
theorem exists_of_map {ε α β : Type} {x : Except ε α} {f : α → β} {b : β}
    (h : x.toOption.map f = some b) : ∃ a, x = .ok a ∧ f a = b := by
  cases x with
  | error e => cases h
  | ok a => exact ⟨a, rfl, Option.some.inj h⟩

/-- Nothing fails: every allocation is served. -/
def noFaults : Env := ⟨1, true, some fun _ => 170, none⟩

def scullpLoaded : Params := ⟨SCULLP_ORDER, SCULLP_QSET⟩

/-- Two bytes and a third one. -/
def threeBytes : List Segment := [⟨[1, 2], false, noFaults⟩, ⟨[3], false, noFaults⟩]

end ScullFamily
