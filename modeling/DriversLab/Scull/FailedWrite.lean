import DriversLab.Scull.Calls
import DriversLab.Lib.Indist

/-!
# Scull.FailedWrite — what a failed scull_write leaves behind

`scull_write` extends the list, then the pointer array, then the quantum, then copies,
and goes out at any of these stages without undoing the earlier ones. Memory may be
there or not in every later call, so the question is whether later reads can give
anything that they could not give without the failed call.

* `Alike`: two states with the same quanta; no later read tells them apart
  (`covers_of_alike`);
* `Harmless`: there was no memory, or the copy left the quantum as it was;
* `failed_write_iff`: exactly then the failed call is invisible. A quantum that has just
  been allocated stays, and so do the bytes copied before the fault.
-/

namespace Scull

open CInt Chunked Lts Indist

/-- An environment without what `kmalloc` decides. -/
def Env.user (env : Env) : Env := ⟨0, false, none, env.fault⟩

namespace Calls

/-! ## What later reads can give -/

/-- What a call gives to a reader. -/
def shown (s : CallSys) : CallAct → Option (Except Trap (ℤ × List UInt8))
  | .read fPos count env => some (answer (scullRead s.dev.geometry count fPos env s.dev))
  | _ => none

/-- What the callers decide about a call. -/
def request : CallAct → CallAct
  | .read fPos count env => .read fPos count env.user
  | .write fPos buf env => .write fPos buf env.user
  | .ioctl cmd arg user => .ioctl cmd arg user
  | .openFile wronly => .openFile wronly

/-- Every later read gives what it may give without the call that left the device
`dev`: for any later calls and any memory they find, there is memory with which the same
calls show the same from `s`. -/
def Invisible (s : CallSys) (dev : ScullDev) : Prop :=
  Covers update shown request s { s with dev := dev }

/-- The copy leaves the quantum as it is, or there is no quantum and no memory. -/
def Harmless (dev : ScullDev) (fPos : ℕ) (buf : List UInt8) (env : Env) : Prop :=
  ∀ pos, place dev.geometry fPos = some pos →
    match chunks dev (pos.chunk dev.geometry) with
    | some q => overwrite q pos.qPos.toNat (copied (buf.take (room dev.geometry pos)) env.fault) = q
    | none => ¬ Served dev pos env

/-- `scull_write` with its wait for the mutex, which a signal may end. -/
def writeCall (signal : Bool) (buf : List UInt8) (fPos : ℕ) (env : Env) (dev : ScullDev) :
    Except Trap Transfer :=
  if signal then .ok ⟨-ERESTARTSYS, fPos, [], dev⟩
  else scullWrite dev.geometry buf fPos env dev

/-! ## States with the same quanta -/

/-- The same parameters, and devices with the same quanta. -/
structure Alike (s s' : CallSys) : Prop where
  built : Built s
  params : s'.params = s.params
  kept : Kept s.dev s'.dev

theorem Alike.built' {s s' : CallSys} (h : Alike s s') : Built s' :=
  built_kept h.built h.params h.kept

variable {s s' : CallSys} {fPos count : ℕ} {buf : List UInt8} {env env' : Env} {pos : Place}

/-- A read gives the same in both. -/
theorem alike_answer (h : Alike s s') (hfault : env.fault = env'.fault) :
    answer (scullRead s.dev.geometry count fPos env s.dev) =
      answer (scullRead s'.dev.geometry count fPos env' s'.dev) := by
  have hi' := h.built'
  by_cases hend : s.dev.size ≤ fPos
  · rw [read_end hend, read_end (by rw [h.kept.size]; exact hend)]
    rfl
  · have hg := h.built.empty.resolve_right (by omega)
    have hg' : s'.dev.geometry.Valid := by
      rw [h.kept.geometry]
      exact hg
    cases hplace : place s.dev.geometry fPos with
    | none =>
        have hplace' : place s'.dev.geometry fPos = none := by
          rw [h.kept.geometry]
          exact hplace
        have hsize := h.kept.size
        simp only [scullRead, hplace, hplace', if_neg (show ¬ (s.dev.size : ℤ) ≤ fPos by omega),
          if_neg (show ¬ (s'.dev.size : ℤ) ≤ fPos by omega)]
    | some pos =>
        have hplace' : place s'.dev.geometry fPos = some pos := by
          rw [h.kept.geometry]
          exact hplace
        have hsize := h.kept.size
        rw [read_answer hg h.built.shape (by omega) hplace,
          read_answer hg' h.kept.shape (by omega) hplace', h.kept.geometry, h.kept.chunks,
          h.kept.size, hfault]

/-- Where both sides keep their quanta, they stay alike. -/
theorem alike_of_kept (h : Alike s s') {t t' : CallSys} (ht : Kept s.dev t.dev)
    (ht' : Kept s'.dev t'.dev) (hparams : t.params = s.params) (hparams' : t'.params = s'.params) :
    Alike t t' := by
  refine ⟨built_kept h.built hparams ht, ?_, ht'.shape, ?_, ?_, ?_⟩
  · rw [hparams', h.params, hparams]
  · exact (ht'.chunks.trans h.kept.chunks).trans ht.chunks.symm
  · exact (ht'.geometry.trans h.kept.geometry).trans ht.geometry.symm
  · exact (ht'.size.trans h.kept.size).trans ht.size.symm

/-! ## One call on both sides -/

/-- A write that finds no memory, where no memory is asked for in vain. -/
theorem kept_write_unserved (hi : Built s) (hheap : env.heap = none)
    (hnone : ∀ pos, place s.dev.geometry fPos = some pos →
      chunks s.dev (pos.chunk s.dev.geometry) = none) :
    Kept s.dev (update s (.write fPos buf env)).dev := by
  cases write_left hi fPos buf env with
  | kept hkept => exact hkept
  | stored pos q hg hplace hq hshape hgeometry hchunks =>
      rw [hnone pos hplace, hheap, Option.none_or, kmallocQuantum] at hq
      split at hq <;> cases hq

/-- There is no quantum where a write does not store. -/
theorem chunks_of_unstored (hi : Built s)
    (h : ∀ r, scullWrite s.dev.geometry buf fPos env s.dev = .ok r → r.ret = -ENOMEM)
    (hplace : place s.dev.geometry fPos = some pos) :
    chunks s.dev (pos.chunk s.dev.geometry) = none := by
  have hp := Int.natCast_nonneg fPos
  by_cases hg : s.dev.geometry.Valid
  · rcases write_at buf env hg hi.shape hp hplace with ⟨r, hr, _⟩
    exact ((write_refused_iff hg hi.shape hp hplace hr).mp (h r hr)).1
  · exact chunks_unfit hi.dev hi.shape hg (place_ne_zero hplace).1 _

/-- Memory for everything that a write at `pos` may need. -/
def plenty (pos : Place) (heap : Option (ℕ → UInt8)) (fault : Option ℕ) : Env :=
  ⟨pos.hops + 1, true, heap, fault⟩

/-- All of it is served, and clear. -/
def allServed (pos : Place) : Env := plenty pos (some fun _ => 0) none

/-- With it, a write stores unless it needs a quantum and there is none. -/
theorem write_plenty (buf : List UInt8) (fault : Option ℕ) (hi : Built s)
    (hg : s.dev.geometry.Valid) (hplace : place s.dev.geometry fPos = some pos)
    {heap : Option (ℕ → UInt8)} {q : List UInt8}
    (hq : (chunks s.dev (pos.chunk s.dev.geometry)).or
      (kmallocQuantum s.dev.geometry.quantum heap) = some q) :
    ∃ r, scullWrite s.dev.geometry buf fPos (plenty pos heap fault) s.dev = .ok r ∧
      r.ret ≠ -ENOMEM := by
  have hp := Int.natCast_nonneg fPos
  rcases write_at buf (plenty pos heap fault) hg hi.shape hp hplace with ⟨r, hr, _⟩
  refine ⟨r, hr, ?_⟩
  intro hret
  rcases (write_refused_iff hg hi.shape hp hplace hr).mp hret with ⟨hnone, hserved⟩
  rw [hnone, Option.none_or] at hq
  apply hserved
  refine ⟨?_, ?_, ?_⟩
  · simp only [plenty]
    omega
  · have hs := hg.qsetPos
    rw [kmallocArray, if_pos ⟨hs.le, rfl⟩, Option.isSome_or]
    simp
  · simp only [plenty, hq, Option.isSome_some]

/-- A write that stores nothing leaves the quanta alone. -/
theorem kept_write_unstored (hi : Built s)
    (h : ∀ r, scullWrite s.dev.geometry buf fPos env s.dev = .ok r → r.ret = -ENOMEM) :
    Kept s.dev (update s (.write fPos buf env)).dev := by
  cases hr : scullWrite s.dev.geometry buf fPos env s.dev with
  | error t =>
      simp only [update, hr]
      exact ⟨hi.shape, rfl, rfl, rfl⟩
  | ok r =>
      simp only [update, hr]
      cases write_any hi.dev hi.shape (Int.natCast_nonneg fPos) hr with
      | refused hret hpos hkept => exact hkept
      | stored pos q hplace hq hret hpos hshape hgeometry hsize hchunks =>
          rw [h r hr] at hret
          split at hret <;> simp only [EFAULT, ENOMEM] at hret <;> omega

/-- Each write to one of two devices that are alike is possible on the other. -/
theorem alike_write (h : Alike s s') (fPos : ℕ) (buf : List UInt8) (env' : Env) :
    ∃ env : Env, env.fault = env'.fault ∧
      Alike (update s (.write fPos buf env)) (update s' (.write fPos buf env')) := by
  have hi' := h.built'
  have hp := Int.natCast_nonneg fPos
  have hgeometry := h.kept.geometry
  by_cases hun : ∀ r, scullWrite s'.dev.geometry buf fPos env' s'.dev = .ok r → r.ret = -ENOMEM
  · -- nothing is stored: neither is it on the other side when there is no memory
    refine ⟨{ env' with heap := none }, rfl, ?_⟩
    have hnone : ∀ pos, place s.dev.geometry fPos = some pos →
        chunks s.dev (pos.chunk s.dev.geometry) = none := by
      intro pos hplace
      have hnone' := chunks_of_unstored hi' hun (by rw [hgeometry]; exact hplace)
      rwa [h.kept.chunks, hgeometry] at hnone'
    apply alike_of_kept h
    · exact kept_write_unserved h.built rfl hnone
    · exact kept_write_unstored hi' hun
    · exact transferred_params s _
    · exact transferred_params s' _
  · -- a quantum is stored: it is on the other side when there is plenty of memory
    simp only [not_forall] at hun
    rcases hun with ⟨r', hr', hne'⟩
    have hg' : s'.dev.geometry.Valid := by
      by_contra hbad
      exact hne' (write_unfit hi'.dev hi'.shape hbad hr').1
    cases write_any hi'.dev hi'.shape hp hr' with
    | refused hret' hpos' hkept' => exact absurd hret' hne'
    | stored pos q hplace' hq' hret' hpos' hshape' hgeometry' hsize' hchunks' =>
        rw [hgeometry] at hplace' hq' hret' hchunks' hg'
        rw [h.kept.chunks] at hq' hchunks'
        rw [h.kept.size] at hsize'
        refine ⟨plenty pos env'.heap env'.fault, rfl, ?_⟩
        rcases write_plenty buf env'.fault h.built hg' hplace' hq' with ⟨r, hr, hne⟩
        cases write_any h.built.dev h.built.shape hp hr with
        | refused hret hpos hkept => exact absurd hret hne
        | stored pos₂ q₂ hplace hq hret hpos hshape hgeometry₂ hsize hchunks =>
            cases hplace.symm.trans hplace'
            cases hq.symm.trans hq'
            refine ⟨built_step h.built _, ?_, ?_⟩
            · simp only [update, transferred_params]
              exact h.params
            · simp only [update, hr, hr']
              refine ⟨hshape', hchunks'.trans hchunks.symm, ?_, ?_⟩
              · exact (hgeometry'.trans hgeometry).trans hgeometry₂.symm
              · rw [hpos', hret'.trans hret.symm, ← hpos] at hsize'
                exact hsize'.trans hsize.symm

/-- No later call tells two such states apart. -/
theorem covers_of_alike (h : Alike s s') : Covers update shown request s s' := by
  refine covers_of_sim ?_ h
  intro s s' a' h
  cases a' with
  | ioctl cmd arg user =>
      refine ⟨.ioctl cmd arg user, rfl, rfl, ?_⟩
      have hi := built_step h.built (.ioctl cmd arg user)
      refine ⟨hi, ?_, h.kept⟩
      simp only [update, h.params]
  | openFile wronly =>
      refine ⟨.openFile wronly, rfl, rfl, ?_⟩
      have hi := built_step h.built (.openFile wronly)
      cases wronly with
      | true =>
          refine ⟨hi, h.params, ?_⟩
          simp only [update, scullOpen, if_true, scullTrim, h.params]
          exact ⟨hi.shape, rfl, rfl, rfl⟩
      | false => exact h
  | read fPos count env =>
      refine ⟨.read fPos count env, rfl, ?_, ?_⟩
      · exact congrArg some (alike_answer h rfl)
      · apply alike_of_kept h
        · exact kept_read h.built fPos count env
        · exact kept_read h.built' fPos count env
        · exact transferred_params s _
        · exact transferred_params s' _
  | write fPos buf env' =>
      rcases alike_write h fPos buf env' with ⟨env, hfault, halike⟩
      refine ⟨.write fPos buf env, ?_, rfl, halike⟩
      simp only [request, Env.user, hfault]

/-! ## How a leftover is seen -/

/-- A truncated division, one divisor further on. -/
theorem tdiv_step (n : ℕ) {z : ℤ} (hz : z ≠ 0) :
    ((n + z.natAbs : ℕ) : ℤ).tmod z = (n : ℤ).tmod z ∧
      (((n + z.natAbs : ℕ) : ℤ).tdiv z = (n : ℤ).tdiv z + 1 ∨
        ((n + z.natAbs : ℕ) : ℤ).tdiv z = (n : ℤ).tdiv z - 1) := by
  have hpos : 0 < z.natAbs := Int.natAbs_pos.mpr hz
  have hdiv := Nat.add_div_right n hpos
  have hmod := Nat.add_mod_right n z.natAbs
  rcases Int.natAbs_eq z with h | h
  · rw [h, Int.natAbs_natCast]
    generalize z.natAbs = w at hdiv hmod
    rw [← Int.ofNat_tmod, ← Int.ofNat_tmod, ← Int.ofNat_tdiv, ← Int.ofNat_tdiv, hmod, hdiv]
    exact ⟨rfl, Or.inl (by omega)⟩
  · rw [h, Int.natAbs_neg, Int.natAbs_natCast]
    generalize z.natAbs = w at hdiv hmod
    rw [Int.tmod_neg, Int.tmod_neg, Int.tdiv_neg, Int.tdiv_neg, ← Int.ofNat_tmod,
      ← Int.ofNat_tmod, ← Int.ofNat_tdiv, ← Int.ofNat_tdiv, hmod, hdiv]
    exact ⟨rfl, Or.inr (by omega)⟩

/-- The place one item further on: the quantum there is another one. -/
theorem place_next {g : Geometry} {fPos : ℕ} (hs : 0 < g.qset) (h : place g fPos = some pos) :
    ∃ step pos₂, 0 < step ∧ place g ((fPos + step : ℕ) : ℤ) = some pos₂ ∧
      pos₂.chunk g ≠ pos.chunk g := by
  have hother : ∀ x y sPos qPos : ℤ, x = y + 1 ∨ x = y - 1 →
      Place.chunk g ⟨toInt x, sPos, qPos⟩ ≠ Place.chunk g ⟨toInt y, sPos, qPos⟩ := by
    intro x y sPos qPos hxy heq
    simp only [Place.chunk, Place.hops, toUInt_toInt, Nat.add_right_cancel_iff] at heq
    have hhops := Nat.eq_of_mul_eq_mul_right (by omega) heq
    unfold toUInt at hhops
    omega
  simp only [place] at h
  split at h
  · cases h
  · rename_i hzero
    cases h
    generalize hz : toInt (g.quantum * g.qset) = z at hzero ⊢
    rcases tdiv_step fPos hzero with ⟨hmod, hdiv⟩
    refine ⟨z.natAbs, ⟨toInt (((fPos + z.natAbs : ℕ) : ℤ).tdiv z),
      (toInt ((fPos : ℤ).tmod z)).tdiv g.quantum, (toInt ((fPos : ℤ).tmod z)).tmod g.quantum⟩,
      Int.natAbs_pos.mpr hzero, ?_, hother _ _ _ _ hdiv⟩
    simp only [place, hz, if_neg hzero, hmod]

/-- A write leaves the other quanta alone. -/
theorem write_other (hi : Built s) (buf : List UInt8) (env : Env)
    (hplace : place s.dev.geometry fPos = some pos) {c : ℕ} (hne : pos.chunk s.dev.geometry ≠ c) :
    chunks (update s (.write fPos buf env)).dev c = chunks s.dev c := by
  cases write_left hi fPos buf env with
  | kept hkept => rw [hkept.chunks]
  | stored pos' q hg hplace' hq hshape hgeometry hchunks =>
      cases hplace'.symm.trans hplace
      rw [hchunks, replace, if_neg (Ne.symm hne)]

/-- A write of no byte leaves every quantum as it is. -/
theorem write_nil (hi : Built s) (fPos : ℕ) (hfault : env.fault = none) {c : ℕ} {q : List UInt8}
    (hc : chunks s.dev c = some q) : chunks (update s (.write fPos [] env)).dev c = some q := by
  cases write_left hi fPos [] env with
  | kept hkept => rw [hkept.chunks, hc]
  | stored pos q' hg hplace hq hshape hgeometry hchunks =>
      rw [hchunks, replace]
      split
      · rename_i hat
        rw [← hat, hc, Option.some_or] at hq
        cases hq
        simp only [List.take_nil, hfault, copied, overwrite_nil]
      · exact hc

/-- With plenty of memory, it moves the end of the device to its position. -/
theorem write_nil_size (hi : Built s) (hg : s.dev.geometry.Valid)
    (hplace : place s.dev.geometry fPos = some pos) :
    fPos ≤ (update s (.write fPos [] (allServed pos))).dev.size := by
  have hp := Int.natCast_nonneg fPos
  have hq : ∃ q, (chunks s.dev (pos.chunk s.dev.geometry)).or
      (kmallocQuantum s.dev.geometry.quantum (some fun _ => 0)) = some q := by
    rw [← Option.isSome_iff_exists, Option.isSome_or, kmallocQuantum, if_pos hg.quantumPos.le]
    simp
  rcases hq with ⟨q, hq⟩
  have hplenty : ∃ r, scullWrite s.dev.geometry [] fPos (allServed pos) s.dev = .ok r ∧
      r.ret ≠ -ENOMEM := write_plenty [] none hi hg hplace hq
  rcases hplenty with ⟨r, hr, hne⟩
  cases write_any hi.dev hi.shape hp hr with
  | refused hret hpos hkept => exact absurd hret hne
  | stored pos' q' hplace' hq' hret hpos hshape hgeometry hsize hchunks =>
      simp only [update, hr]
      refine le_of_le_of_eq ?_ hsize.symm
      simp only [allServed, plenty, Option.isSome_none, Bool.false_eq_true, if_false]
      omega

/-- What a read gives from a quantum that is there. -/
theorem read_known (hi : Built s) (hplace : place s.dev.geometry fPos = some pos)
    {q : List UInt8} (hq : chunks s.dev (pos.chunk s.dev.geometry) = some q)
    (hfault : env.fault = none) (hpos : 0 < count) {xs : List UInt8}
    (h : answer (scullRead s.dev.geometry count fPos env s.dev) = .ok (count, xs)) :
    xs = (q.drop pos.qPos.toNat).take count := by
  by_cases hend : s.dev.size ≤ fPos
  · rw [read_end hend] at h
    simp only [answer, Except.map, Except.ok.injEq, Prod.mk.injEq] at h
    omega
  · have hg := hi.empty.resolve_right (by omega)
    rw [read_answer hg hi.shape (by omega) hplace, hq, hfault] at h
    simp only [fromQuantum, Except.ok.injEq, Prod.mk.injEq, Int.natCast_inj] at h
    rw [← h.2, h.1]

/-- Nothing comes out of a hole. -/
theorem read_hole (hi : Built s) (hplace : place s.dev.geometry fPos = some pos)
    (hq : chunks s.dev (pos.chunk s.dev.geometry) = none) :
    answer (scullRead s.dev.geometry count fPos env s.dev) = .ok (0, []) := by
  by_cases hend : s.dev.size ≤ fPos
  · rw [read_end hend]
    rfl
  · have hg := hi.empty.resolve_right (by omega)
    rw [read_answer hg hi.shape (by omega) hplace, hq]
    rfl

/-- Bytes of a quantum before the end of the device. -/
theorem read_all (hi : Built s) (hg : s.dev.geometry.Valid)
    (hplace : place s.dev.geometry fPos = some pos) {q : List UInt8}
    (hq : chunks s.dev (pos.chunk s.dev.geometry) = some q) (hfault : env.fault = none)
    (hpos : 0 < count) (hend : fPos + count ≤ s.dev.size)
    (hroom : count ≤ room s.dev.geometry pos) :
    answer (scullRead s.dev.geometry count fPos env s.dev) =
      .ok (count, (q.drop pos.qPos.toNat).take count) := by
  have hcount : min (min count (s.dev.size - fPos)) (room s.dev.geometry pos) = count := by omega
  rw [read_answer hg hi.shape (by omega) hplace, hq, hfault]
  simp only [fromQuantum, hcount]

/-- The two requests of a pair of calls that a reader uses. -/
theorem outs_pair {a b : CallAct} {fPos₂ : ℕ}
    (ha : request a = request (.write fPos₂ [] ⟨0, false, none, none⟩))
    (hb : request b = request (.read fPos count ⟨0, false, none, none⟩)) :
    ∃ env₁ env₂ : Env, a = .write fPos₂ [] env₁ ∧ env₁.fault = none ∧ env₂.fault = none ∧
      outs update shown s [a, b] =
        let t := update s (.write fPos₂ [] env₁)
        [answer (scullRead t.dev.geometry count fPos env₂ t.dev)] := by
  cases a with
  | write fPos₁ buf₁ env₁ =>
      cases b with
      | read fPos' count' env₂ =>
          simp only [request, Env.user, CallAct.write.injEq, CallAct.read.injEq, Env.mk.injEq,
            true_and] at ha hb
          rcases ha with ⟨rfl, rfl, hfault₁⟩
          rcases hb with ⟨rfl, rfl, hfault₂⟩
          exact ⟨env₁, env₂, rfl, hfault₁, hfault₂, rfl⟩
      | ioctl cmd arg user => cases hb
      | openFile wronly => cases hb
      | write fPos' buf' env' => cases hb
  | ioctl cmd arg user => cases ha
  | openFile wronly => cases ha
  | read fPos' count' env' => cases ha

/-- Where one position has a place, each has. -/
theorem place_some {g : Geometry} {p : ℤ} (h : place g p = some pos) (p' : ℤ) :
    ∃ pos', place g p' = some pos' := by
  unfold place at h ⊢
  simp only at h ⊢
  split at h
  · cases h
  · rename_i hzero
    rw [if_neg hzero]
    exact ⟨_, rfl⟩

/-- The end of the device is moved behind some bytes of a quantum by a write of no byte,
and the bytes are read. -/
theorem look {fPos₂ : ℕ} {pos₂ : Place} {q : List UInt8} (hi : Built s)
    (hg : s.dev.geometry.Valid) (hplace : place s.dev.geometry fPos = some pos)
    (hq : chunks s.dev (pos.chunk s.dev.geometry) = some q) (hpos : 0 < count)
    (hroom : count ≤ room s.dev.geometry pos) (hplace₂ : place s.dev.geometry fPos₂ = some pos₂)
    (hend : fPos + count ≤ fPos₂) :
    outs update shown s [.write fPos₂ [] (allServed pos₂),
      .read fPos count ⟨0, false, none, none⟩] =
        [.ok (count, (q.drop pos.qPos.toNat).take count)] := by
  have hsize := write_nil_size hi hg hplace₂
  have hnil : chunks (update s (.write fPos₂ [] (allServed pos₂))).dev _ =
      some q := write_nil hi fPos₂ rfl hq
  have hgeometry := geometry_write hi fPos₂ [] (allServed pos₂)
  have hbuilt := built_step hi (.write fPos₂ [] (allServed pos₂))
  simp only [outs, shown, Option.toList_none, Option.toList_some, List.nil_append, List.append_nil]
  generalize update s (.write fPos₂ [] (allServed pos₂)) = t at *
  rw [← hgeometry] at hg hplace hnil hroom
  rw [read_all hbuilt hg hplace hnil rfl hpos (by omega) hroom]

variable {q₁ : List UInt8}

/-- Other bytes in a quantum are seen as soon as the device reaches that far. -/
theorem visible_bytes {q : List UInt8} (hi : Built s) (hi' : Built s')
    (hg : s.dev.geometry.Valid) (hgeometry : s'.dev.geometry = s.dev.geometry)
    (hplace : place s.dev.geometry fPos = some pos)
    (hq : chunks s.dev (pos.chunk s.dev.geometry) = some q)
    (hq₁ : chunks s'.dev (pos.chunk s.dev.geometry) = some q₁)
    (hpos : 0 < count) (hroom : count ≤ room s.dev.geometry pos)
    (hne : (q₁.drop pos.qPos.toNat).take count ≠ (q.drop pos.qPos.toNat).take count) :
    ¬ Covers update shown request s s' := by
  rcases place_some hplace ((fPos + count : ℕ) : ℤ) with ⟨pos₂, hplace₂⟩
  apply not_covers_of_pair (.write (fPos + count) [] (allServed pos₂))
    (.read fPos count ⟨0, false, none, none⟩)
  intro a b ha hb houts
  rcases outs_pair (s := s) ha hb with ⟨env₁, env₂, rfl, hfault₁, hfault₂, hpair⟩
  have hnil := write_nil hi (fPos + count) hfault₁ hq
  have hgeo := geometry_write hi (fPos + count) [] env₁
  rw [← hgeo] at hplace hnil
  rw [← hgeometry] at hg hq₁ hroom hplace₂
  rw [hpair, look hi' hg (by rw [hgeometry, ← hgeo]; exact hplace) hq₁ hpos hroom hplace₂ le_rfl]
    at houts
  -- the same read finds the old bytes, if they are before the end
  exact hne (read_known (built_step hi _) hplace hnil hfault₂ hpos (List.cons.inj houts).1)

/-- A quantum in a hole is seen as soon as the device reaches further. -/
theorem visible_quantum (hi : Built s) (hi' : Built s') (hg : s.dev.geometry.Valid)
    (hgeometry : s'.dev.geometry = s.dev.geometry)
    (hplace : place s.dev.geometry fPos = some pos)
    (hq : chunks s.dev (pos.chunk s.dev.geometry) = none)
    (hq₁ : chunks s'.dev (pos.chunk s.dev.geometry) = some q₁) :
    ¬ Covers update shown request s s' := by
  rcases place_next hg.qsetPos hplace with ⟨step, pos₂, hstep, hplace₂, hother⟩
  have hb := place_bounds hg (Int.natCast_nonneg fPos) hplace
  have hone : 1 ≤ room s.dev.geometry pos := by
    have hroom := room_eq hg hb.2
    omega
  apply not_covers_of_pair (.write (fPos + step) [] (allServed pos₂))
    (.read fPos 1 ⟨0, false, none, none⟩)
  intro a b ha hb houts
  rcases outs_pair (s := s) ha hb with ⟨env₁, env₂, rfl, hfault₁, hfault₂, hpair⟩
  have hgeo := geometry_write hi (fPos + step) [] env₁
  have hhole := (write_other hi [] env₁ hplace₂ hother).trans hq
  rw [← hgeo] at hplace hhole
  rw [← hgeometry] at hg hq₁ hone hplace₂
  rw [hpair, look hi' hg (by rw [hgeometry, ← hgeo]; exact hplace) hq₁ Nat.one_pos hone hplace₂
    (by omega)] at houts
  have hanswer := (read_hole (built_step hi _) hplace hhole).symm.trans (List.cons.inj houts).1
  simp at hanswer

/-! ## When a failed write is invisible -/

/-- Bytes written to a quantum that was there. -/
theorem overwritten_iff {dev : ScullDev} {q xs : List UInt8} (hi : Built s)
    (hi' : Built { s with dev := dev }) (hg : s.dev.geometry.Valid)
    (hgeometry : dev.geometry = s.dev.geometry) (hplace : place s.dev.geometry fPos = some pos)
    (hq : chunks s.dev (pos.chunk s.dev.geometry) = some q) (hsize : dev.size = s.dev.size)
    (hchunks : chunks dev =
      replace (chunks s.dev) (pos.chunk s.dev.geometry) (overwrite q pos.qPos.toNat xs))
    (hroom : xs.length ≤ room s.dev.geometry pos) :
    Invisible s dev ↔ overwrite q pos.qPos.toNat xs = q := by
  have hb := place_bounds hg (Int.natCast_nonneg fPos) hplace
  have hqlen := sized_chunks hi.shape _ q hq
  constructor
  · intro hinvisible
    apply overwrite_self
    by_contra hne
    have hpos : 0 < xs.length := by
      rw [List.length_pos_iff]
      rintro rfl
      exact hne rfl
    have hat : chunks dev (pos.chunk s.dev.geometry) = _ := congrFun hchunks _
    rw [replace, if_pos rfl] at hat
    refine visible_bytes hi hi' hg hgeometry hplace hq hat hpos hroom ?_ hinvisible
    rw [take_drop_overwrite (by omega)]
    exact hne
  · intro heq
    rw [heq, replace_self hq] at hchunks
    exact covers_of_alike ⟨hi, rfl, hi'.shape, hchunks, hgeometry, hsize⟩

/-- For every reachable device, and every `scull_write` that returns a negative value:
the size of the device and the position of the file stay, and later reads give what they
may give without the call exactly when the wait was interrupted, or the copy left the
quantum as it was, or there was no quantum and no memory. -/
theorem failed_write_iff {p : Params} (hp : p.geometry.Ints) {as : List CallAct}
    (hs : run step (init p) as = some s) {signal : Bool} {r : Transfer}
    (hr : writeCall signal buf fPos env s.dev = .ok r) (hneg : r.ret < 0) :
    r.dev.size = s.dev.size ∧ r.fPos = fPos ∧
      (Invisible s r.dev ↔ signal = true ∨ Harmless s.dev fPos buf env) := by
  have hi := built_run hp hs
  have hfp := Int.natCast_nonneg fPos
  cases signal with
  | true =>
      simp only [writeCall, if_true] at hr
      cases hr
      refine ⟨rfl, rfl, ?_⟩
      simp only [true_or, iff_true]
      exact covers_of_alike ⟨hi, rfl, hi.shape, rfl, rfl, rfl⟩
  | false =>
      simp only [writeCall, Bool.false_eq_true, if_false, false_or] at hr ⊢
      cases write_any hi.dev hi.shape hfp hr with
      | refused hret hpos hkept =>
          refine ⟨hkept.size, hpos, iff_of_true (covers_of_alike ⟨hi, rfl, hkept⟩) ?_⟩
          intro pos hplace
          rcases (write_refused_any hi.dev hi.shape hfp hplace hr).mp hret with ⟨hnone, hserved⟩
          rw [hnone]
          exact hserved
      | stored pos q hplace hq hret hpos hshape hgeometry hsize hchunks =>
          have hfault : env.fault.isSome = true := by
            by_contra hnone
            rw [if_neg hnone] at hret
            omega
          rw [if_pos hfault] at hret hsize
          have hne : r.ret ≠ -ENOMEM := by
            rw [hret]
            decide
          have hstored := mt (write_refused_any hi.dev hi.shape hfp hplace hr).mpr hne
          have hg : s.dev.geometry.Valid := by
            by_contra hbad
            exact hne (write_unfit hi.dev hi.shape hbad hr).1
          have hb := place_bounds hg hfp hplace
          refine ⟨hsize, by omega, ?_⟩
          have hi' : Built { s with dev := r.dev } :=
            built_transfer hi rfl hshape hgeometry (absurd hg)
          have hat : chunks r.dev (pos.chunk s.dev.geometry) = _ := congrFun hchunks _
          rw [replace, if_pos rfl] at hat
          have hiff : Harmless s.dev fPos buf env ↔
              match chunks s.dev (pos.chunk s.dev.geometry) with
              | some q => overwrite q pos.qPos.toNat
                  (copied (buf.take (room s.dev.geometry pos)) env.fault) = q
              | none => ¬ Served s.dev pos env := by
            simp only [Harmless, hplace, Option.some.injEq, forall_eq']
          rw [hiff]
          cases hold : chunks s.dev (pos.chunk s.dev.geometry) with
          | none =>
              refine iff_of_false (visible_quantum hi hi' hg hgeometry hplace hold hat) ?_
              intro hserved
              exact hstored ⟨hold, hserved⟩
          | some q₀ =>
              rw [hold, Option.some_or] at hq
              cases hq
              apply overwritten_iff hi hi' hg hgeometry hplace hold hsize hchunks
              rw [copied_length]
              exact List.length_take_le _ _

/-! ## A buffer that faults after one byte -/

/-- Quanta of four bytes, two to an item. -/
def tiny : Params := ⟨4, 2, 0⟩

theorem tiny_ints : tiny.geometry.Ints := by
  constructor <;> decide

/-- Every allocation is served, with memory that is clear. -/
def served : Env := ⟨1, true, some fun _ => 0, none⟩

/-- The same, with a buffer that faults after one byte. -/
def faulting : Env := ⟨1, true, some fun _ => 0, some 1⟩

/-- Two bytes are in the device. -/
def twoBytes : List CallAct := [.write 0 [1, 2] served]

theorem failed_write_iff_fault : ∃ s r, run step (init tiny) twoBytes = some s ∧
    writeCall false [7, 8] 0 faulting s.dev = .ok r ∧ r.dev.size = s.dev.size ∧
      r.fPos = (0 : ℕ) ∧
      (Invisible s r.dev ↔ false = true ∨ Harmless s.dev 0 [7, 8] faulting) :=
  ⟨_, _, rfl, rfl, failed_write_iff tiny_ints (show run step (init tiny) twoBytes = some _ from rfl)
    rfl (by decide)⟩

/-- The write of two bytes fails, and the first byte is another one from then on. -/
theorem failed_write_seen : ∃ s r, run step (init tiny) twoBytes = some s ∧
    writeCall false [7, 8] 0 faulting s.dev = .ok r ∧ r.ret = -EFAULT ∧
      answer (scullRead s.dev.geometry 2 0 served s.dev) = .ok (2, [1, 2]) ∧
      answer (scullRead r.dev.geometry 2 0 served r.dev) = .ok (2, [7, 0]) ∧
      ¬ Invisible s r.dev := by
  refine ⟨_, _, rfl, rfl, rfl, rfl, rfl, ?_⟩
  have hi := built_run tiny_ints (show run step (init tiny) twoBytes = some _ from rfl)
  apply not_covers_of_one (.read 0 2 served)
  intro a ha
  cases a with
  | read fPos count env =>
      simp only [request, Env.user, CallAct.read.injEq, Env.mk.injEq, true_and] at ha
      rcases ha with ⟨rfl, rfl, hfault⟩
      intro heq
      -- reads of the old device give the old bytes, with whatever memory
      have hsame := (alike_answer ⟨hi, rfl, hi.shape, rfl, rfl, rfl⟩ hfault).symm.trans
        (Option.some.inj heq)
      revert hsame
      decide
  | write fPos' buf' env' => cases ha
  | ioctl cmd arg user => cases ha
  | openFile wronly => cases ha

end Calls

end Scull
