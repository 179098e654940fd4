import DriversLab.Scull.Layout
import DriversLab.Lib.Lts
import DriversLab.Lib.Table
import Mathlib.Tactic.Lift

/-!
# Scull.Sparse — a scull device as a sparse byte array

Any number of files on one device, with the calls `scull_open`, `scull_read`,
`scull_write` and `scull_llseek`, and next to the device what the array should
hold: the byte last stored at each position since the device was last trimmed.

* `place_chunk`: a small position is byte `p % quantum` of quantum `p / quantum`;
* `Sim`: every byte stored is in memory;
* `sparse_array`: every byte handed over is the byte stored, or zero where none
  was, in each run in which `kmalloc` gives a new quantum zero bytes wherever the
  write that asked for it stores none.
-/

namespace Scull

open CInt Chunked Lts

/-! ## Small positions -/

/-- The size of an item fits in an `int`. -/
def Geometry.Fits (g : Geometry) : Prop := g.quantum * g.qset < 2 ^ 31

/-- The index of the item at `p` fits in an `int`. -/
def Geometry.Reaches (g : Geometry) (p : ℤ) : Prop := p / (g.quantum * g.qset) < 2 ^ 31

/-- The place of a position, with natural numbers. -/
theorem place_nat {quantum qset : ℕ} (hq : 0 < quantum) (hs : 0 < qset)
    (hfits : quantum * qset < 2 ^ 31) (fPos : ℕ) :
    place ⟨quantum, qset⟩ fPos = some ⟨toInt (fPos / (quantum * qset) : ℕ),
      (fPos % (quantum * qset) / quantum : ℕ), (fPos % (quantum * qset) % quantum : ℕ)⟩ := by
  have hprod : 0 < quantum * qset := Nat.mul_pos hq hs
  have hrange : ∀ n : ℕ, n < 2 ^ 31 → toInt n = n :=
    fun n hn => toInt_of_range (by omega) (by omega)
  have hsize : toInt ((quantum : ℤ) * qset) = ((quantum * qset : ℕ) : ℤ) := by
    rw [← Int.natCast_mul]
    exact hrange _ hfits
  have hmod : fPos % (quantum * qset) < 2 ^ 31 := (Nat.mod_lt _ hprod).trans hfits
  have hrest : toInt ((fPos : ℤ).tmod ((quantum * qset : ℕ) : ℤ)) =
      ((fPos % (quantum * qset) : ℕ) : ℤ) := by
    rw [← Int.ofNat_tmod]
    exact hrange _ hmod
  have hne : ((quantum * qset : ℕ) : ℤ) ≠ 0 := by omega
  simp only [place, hsize, hrest, if_neg hne, Int.ofNat_tdiv, Int.ofNat_tmod]

theorem place_chunk {g : Geometry} (hg : g.Valid) (hfits : g.Fits) {fPos : ℤ} (hp : 0 ≤ fPos)
    (hreach : g.Reaches fPos) : ∃ pos, place g fPos = some pos ∧
      pos.chunk g = fPos.toNat / g.quantum.toNat ∧
      pos.qPos.toNat = fPos.toNat % g.quantum.toNat := by
  rcases hg with ⟨hq, _, hs, _⟩
  rcases g with ⟨quantum, qset⟩
  unfold Geometry.Fits at hfits
  unfold Geometry.Reaches at hreach
  simp only at hq hs hfits hreach
  -- from here on the numbers are natural
  lift quantum to ℕ using hq.le
  lift qset to ℕ using hs.le
  lift fPos to ℕ using hp
  rw [← Int.natCast_mul] at hfits hreach
  rw [← Int.natCast_ediv] at hreach
  refine ⟨_, place_nat (by omega) (by omega) (by omega) fPos, ?_, ?_⟩
  · have hhops : ∀ m : ℕ, (m : ℤ) < 2 ^ 31 → (toUInt m).toNat = m := by
      intro m hm
      unfold toUInt
      omega
    simp only [Place.chunk, Place.hops, toUInt_toInt, hhops _ hreach, Int.toNat_natCast]
    rw [← Nat.div_div_eq_div_mul, Nat.mod_mul_right_div_self, Nat.mul_comm, Nat.div_add_mod]
  · simp only [Int.toNat_natCast]
    exact Nat.mod_mul_right_mod _ _ _

/-! ## The system -/

/-- The device, the position of each open file, and the byte that was last stored at
each position since the device was last trimmed. -/
structure SparseSys where
  dev : ScullDev
  files : List ℤ
  stored : ℕ → Option UInt8

inductive SparseAct where
  | openFile (wronly : Bool)
  | read (f : ℕ) (fPos : ℤ) (count : ℕ) (env : Env)
  | write (f : ℕ) (fPos : ℤ) (buf : List UInt8) (env : Env)
  | llseek (f : ℕ) (fPos : ℤ) (off : ℤ) (whence : Whence)

namespace Sparse

def guard (s : SparseSys) : SparseAct → Prop
  | .openFile _ => True
  | .read f fPos _ _ | .write f fPos _ _ | .llseek f fPos _ _ => s.files[f]? = some fPos

instance (s : SparseSys) : ∀ a : SparseAct, Decidable (guard s a)
  | .openFile _ => inferInstanceAs (Decidable True)
  | .read _ _ _ _ | .write _ _ _ _ | .llseek _ _ _ _ => inferInstanceAs (Decidable (_ = _))

/-- The bytes that a `scull_write` stores: all those that `copy_from_user` is asked
for, once the write has its quantum. -/
def landed (g : Geometry) (buf : List UInt8) (fPos : ℤ) (env : Env) (r : Transfer) : List UInt8 :=
  match place g fPos with
  | none => []
  | some pos => if r.ret = -ENOMEM then [] else copied (buf.take (room g pos)) env.fault

variable (p : Params)

def update (s : SparseSys) : SparseAct → SparseSys
  | .openFile wronly =>
      { dev := scullOpen p wronly s.dev
        files := s.files ++ [0]
        stored := if wronly then fun _ => none else s.stored }
  | .read f fPos count env =>
      match scullRead s.dev.geometry count fPos env s.dev with
      | .error _ => s
      | .ok r => { s with dev := r.dev, files := s.files.set f r.fPos }
  | .write f fPos buf env =>
      match scullWrite s.dev.geometry buf fPos env s.dev with
      | .error _ => s
      | .ok r =>
          { dev := r.dev
            files := s.files.set f r.fPos
            stored := patch s.stored fPos.toNat (landed s.dev.geometry buf fPos env r) }
  | .llseek f fPos off whence =>
      { s with files := s.files.set f (scullLlseek s.dev.size fPos off whence).2 }

def step : SparseSys → SparseAct → Option SparseSys := guarded guard (update p)

/-- A device that has just been set up, with no file open. -/
def init : SparseSys := ⟨⟨[], p.geometry, 0⟩, [], fun _ => none⟩

/-! ## What is promised, and when it holds -/

/-- Reads and writes are at small positions. -/
def Small (_ : SparseSys) : SparseAct → Prop
  | .read _ fPos _ _ | .write _ fPos _ _ => p.geometry.Reaches fPos
  | _ => True

/-- Every byte that a `scull_read` hands over is the byte last stored at its
position, or zero where none was. -/
def ReadsRight (s : SparseSys) : SparseAct → Prop
  | .read f fPos count env => s.files[f]? = some fPos →
      ∀ r, scullRead s.dev.geometry count fPos env s.dev = .ok r →
      ∀ (i : ℕ) x, r.data[i]? = some x → x = (s.stored (fPos.toNat + i)).getD 0
  | _ => True

/-- A `scull_write` whose quantum is missing gets zero bytes from `kmalloc` wherever
it stores none. -/
def CleanAlloc (s : SparseSys) : SparseAct → Prop
  | .write _ fPos buf env => ∀ pos heap, place s.dev.geometry fPos = some pos →
      chunks s.dev (pos.chunk s.dev.geometry) = none → env.heap = some heap →
      ∀ b : ℕ, b < s.dev.geometry.quantum.toNat →
        b < pos.qPos.toNat ∨
          pos.qPos.toNat + (buf.take (room s.dev.geometry pos)).length ≤ b → heap b = 0
  | _ => True

/-! ## The simulation -/

/-- The bytes that are in memory. -/
def bytes (dev : ScullDev) : ℕ → Option UInt8 := view dev.geometry.quantum.toNat (chunks dev)

/-- Every byte stored is in memory. -/
structure Sim (s : SparseSys) : Prop where
  geometry : s.dev.geometry = p.geometry
  shape : Shape s.dev
  nonneg : ∀ (f : ℕ) fPos, s.files[f]? = some fPos → 0 ≤ fPos
  stored : ∀ x b, s.stored x = some b → bytes s.dev x = some b

/-- Bytes in memory that were never stored are zero. -/
def Zeroed (s : SparseSys) : Prop := ∀ x b, s.stored x = none → bytes s.dev x = some b → b = 0

/-- `after` is the memory `dev` with the quantum at `fPos` in place: the one that
was there, or a new one with the contents of `heap`. -/
structure InPlace (dev : ScullDev) (fPos : ℤ) (env : Env) (after : ℕ → Option UInt8) : Prop where
  old : ∀ x b, bytes dev x = some b → after x = some b
  new : ∀ x b, after x = some b → bytes dev x = some b ∨
    x / dev.geometry.quantum.toNat = fPos.toNat / dev.geometry.quantum.toNat ∧
      chunks dev (x / dev.geometry.quantum.toNat) = none ∧
      ∃ heap, env.heap = some heap ∧ b = heap (x % dev.geometry.quantum.toNat)

theorem inPlace_self (dev : ScullDev) (fPos : ℤ) (env : Env) : InPlace dev fPos env (bytes dev) :=
  ⟨fun _ _ h => h, fun _ _ h => Or.inl h⟩

/-- Putting the quantum `q` in place. -/
theorem inPlace_replace {dev : ScullDev} {fPos : ℤ} {env : Env} {c : ℕ} {q : List UInt8}
    (hc : c = fPos.toNat / dev.geometry.quantum.toNat)
    (hq : (chunks dev c).or (kmallocQuantum dev.geometry.quantum env.heap) = some q) :
    InPlace dev fPos env (view dev.geometry.quantum.toNat (replace (chunks dev) c q)) := by
  cases hold : chunks dev c with
  | some q' =>
      rw [hold, Option.some_or] at hq
      cases hq
      rw [replace_self hold]
      exact inPlace_self dev fPos env
  | none =>
      rw [hold, Option.none_or, kmallocQuantum] at hq
      split at hq
      · rcases Option.map_eq_some_iff.mp hq with ⟨heap, hheap, rfl⟩
        constructor
        · intro x b hx
          rw [view_replace_other]
          · exact hx
          · -- a byte in memory lies in a quantum that is there
            rintro rfl
            rw [bytes, view, hold] at hx
            cases hx
        · intro x b hx
          by_cases hxc : x / dev.geometry.quantum.toNat = c
          · rw [view_replace_self hxc, List.getElem?_map] at hx
            rcases Option.map_eq_some_iff.mp hx with ⟨k, hk, rfl⟩
            refine Or.inr ⟨hxc.trans hc, by rw [hxc, hold], heap, hheap, ?_⟩
            rw [List.getElem?_range (by
              have := (List.getElem?_eq_some_iff.mp hk).1
              rwa [List.length_range] at this)] at hk
            cases hk
            rfl
          · rw [view_replace_other hxc] at hx
            exact Or.inl hx
      · cases hq

variable {p}

/-- What a `scull_write` at a small position does to the bytes in memory. -/
theorem bytes_write {dev : ScullDev} {fPos : ℤ} {buf : List UInt8} {env : Env} {r : Transfer}
    (hg : dev.geometry.Valid) (hfits : dev.geometry.Fits) (hshape : Shape dev) (hp : 0 ≤ fPos)
    (hreach : dev.geometry.Reaches fPos)
    (hr : scullWrite dev.geometry buf fPos env dev = .ok r) :
    Shape r.dev ∧ r.dev.geometry = dev.geometry ∧ 0 ≤ r.fPos ∧
      ∃ after, InPlace dev fPos env after ∧
        bytes r.dev = patch after fPos.toNat (landed dev.geometry buf fPos env r) ∧
        (after = bytes dev ∨ ∃ pos, place dev.geometry fPos = some pos ∧
          (landed dev.geometry buf fPos env r).length =
            (buf.take (room dev.geometry pos)).length) := by
  rcases place_chunk hg hfits hp hreach with ⟨pos, hplace, hchunk, hoff⟩
  rcases write_cases hg hshape hp with h | ⟨r', hr', hout⟩
  · rw [hr] at h
    cases h
  · cases hr.symm.trans hr'
    cases hout with
    | refused hret hpos hkept =>
        refine ⟨hkept.shape, hkept.geometry, by omega, bytes dev, inPlace_self dev fPos env, ?_,
          Or.inl rfl⟩
        simp only [landed, hplace, if_pos hret, patch_nil, bytes, hkept.geometry, hkept.chunks]
    | stored pos' q hplace' hq hret hpos hshape' hgeometry hsize hchunks =>
        cases hplace.symm.trans hplace'
        have hne : r.ret ≠ -ENOMEM := by
          rw [hret]
          split <;> simp only [EFAULT, ENOMEM] <;> omega
        have hlanded : landed dev.geometry buf fPos env r =
            copied (buf.take (room dev.geometry pos)) env.fault := by
          simp only [landed, hplace, if_neg hne]
        refine ⟨hshape', hgeometry, by omega, _, inPlace_replace hchunk hq, ?_, Or.inr ?_⟩
        · have hb := place_bounds hg hp hplace
          have hroom := room_eq hg hb.2
          have hqlen := quantum_length hg hshape hq
          have htake : (buf.take (room dev.geometry pos)).length ≤ room dev.geometry pos :=
            List.length_take_le _ _
          rw [hlanded, bytes, hgeometry, hchunks, view_overwrite (by omega) (by omega)
            (by rw [copied_length]; omega), hchunk, hoff, Nat.mul_comm, Nat.div_add_mod]
        · exact ⟨pos, hplace, by rw [hlanded, copied_length]⟩

theorem sim_step (hg : p.geometry.Valid) (hfits : p.geometry.Fits) {s s' : SparseSys}
    {a : SparseAct} (hi : Sim p s) (ha : Small p s a) (hs : step p s a = some s') : Sim p s' := by
  rcases guarded_eq_some.mp hs with ⟨hgd, rfl⟩
  have hg' : s.dev.geometry.Valid := by rw [hi.geometry]; exact hg
  have hset : ∀ (f : ℕ) v, 0 ≤ v → ∀ (f' : ℕ) fPos, (s.files.set f v)[f']? = some fPos →
      0 ≤ fPos :=
    fun f v hv => Table.forall_set (fun f' fPos _ h => hi.nonneg f' fPos h) hv
  cases a with
  | openFile wronly =>
      have hnew : ∀ (f : ℕ) fPos, (s.files ++ [0])[f]? = some fPos → 0 ≤ fPos := by
        intro f fPos h
        rcases List.mem_append.mp (List.mem_of_getElem? h) with h | h
        · rcases List.mem_iff_getElem?.mp h with ⟨f', hf'⟩
          exact hi.nonneg f' fPos hf'
        · rw [List.mem_singleton.mp h]
      cases wronly with
      | true =>
          -- the trim empties the device and the array
          refine ⟨rfl, shape_trim p s.dev, hnew, ?_⟩
          intro x b hx
          cases hx
      | false => exact ⟨hi.geometry, hi.shape, hnew, hi.stored⟩
  | read f fPos count env =>
      have hp := hi.nonneg f fPos hgd
      rcases read_cases count env hg' hi.shape hp with h | ⟨r, hr, hout⟩
      · simp only [update, h]
        exact hi
      · simp only [update, hr]
        rcases hout with ⟨⟨hshape, hchunks, hgeometry, _⟩, hposition, _⟩
        refine ⟨hgeometry.trans hi.geometry, hshape, hset f r.fPos (by omega), ?_⟩
        intro x b hx
        simp only [bytes, hgeometry, hchunks]
        exact hi.stored x b hx
  | write f fPos buf env =>
      have hp := hi.nonneg f fPos hgd
      cases hr : scullWrite s.dev.geometry buf fPos env s.dev with
      | error t =>
          simp only [update, hr]
          exact hi
      | ok r =>
          simp only [update, hr]
          have hw := bytes_write hg' (by rw [hi.geometry]; exact hfits) hi.shape hp
            (by rw [hi.geometry]; exact ha) hr
          rcases hw with ⟨hshape, hgeometry, hnonneg, after, hin, hbytes, _⟩
          refine ⟨hgeometry.trans hi.geometry, hshape, hset f r.fPos hnonneg, ?_⟩
          intro x b hx
          rw [hbytes]
          simp only [patch] at hx ⊢
          split
          · -- a byte of this write, or one stored before behind its end
            rename_i hle
            rw [if_pos hle] at hx
            rcases Option.or_eq_some_iff.mp hx with hx | ⟨hnone, hx⟩
            · rw [hx, Option.some_or]
            · rw [hnone, Option.none_or]
              exact hin.old x b (hi.stored x b hx)
          · rename_i hle
            rw [if_neg hle] at hx
            exact hin.old x b (hi.stored x b hx)
  | llseek f fPos off whence =>
      have hpos := scullLlseek_nonneg s.dev.size (hi.nonneg f fPos hgd) off whence
      exact ⟨hi.geometry, hi.shape, hset f _ hpos, hi.stored⟩

theorem zeroed_step (hg : p.geometry.Valid) (hfits : p.geometry.Fits) {s s' : SparseSys}
    {a : SparseAct} (hi : Sim p s) (hz : Zeroed s) (ha : Small p s a) (hc : CleanAlloc s a)
    (hs : step p s a = some s') : Zeroed s' := by
  rcases guarded_eq_some.mp hs with ⟨hgd, rfl⟩
  have hg' : s.dev.geometry.Valid := by rw [hi.geometry]; exact hg
  have hfits' : s.dev.geometry.Fits := by rw [hi.geometry]; exact hfits
  cases a with
  | openFile wronly =>
      cases wronly with
      | true =>
          intro x b _ hx
          simp [update, scullOpen, scullTrim, bytes, view, chunks, itemData] at hx
      | false => exact hz
  | read f fPos count env =>
      have hp := hi.nonneg f fPos hgd
      rcases read_cases count env hg' hi.shape hp with h | ⟨r, hr, hout⟩
      · simp only [update, h]
        exact hz
      · simp only [update, hr]
        rcases hout with ⟨⟨_, hchunks, hgeometry, _⟩, _, _⟩
        intro x b hx hb
        simp only [bytes, hgeometry, hchunks] at hb
        exact hz x b hx hb
  | write f fPos buf env =>
      have hp := hi.nonneg f fPos hgd
      have hreach : s.dev.geometry.Reaches fPos := by rw [hi.geometry]; exact ha
      cases hr : scullWrite s.dev.geometry buf fPos env s.dev with
      | error t =>
          simp only [update, hr]
          exact hz
      | ok r =>
          simp only [update, hr]
          rcases bytes_write hg' hfits' hi.shape hp hreach hr with
            ⟨_, _, _, after, hin, hbytes, hcase⟩
          intro x b hx hb
          change patch s.stored _ _ x = none at hx
          rw [hbytes] at hb
          -- a position that is still not stored lies outside the bytes that landed
          have hout : x < fPos.toNat ∨
              fPos.toNat + (landed s.dev.geometry buf fPos env r).length ≤ x := by
            by_contra hmem
            rw [not_or, Nat.not_lt, Nat.not_le] at hmem
            rw [patch_of_mem hmem.1 hmem.2, List.getElem?_eq_none_iff] at hx
            omega
          rw [patch_of_notMem hout] at hx hb
          rcases hin.new x b hb with hold | ⟨hquantum, hfresh, heap, hheap, rfl⟩
          · -- it was in memory before
            exact hz x b hx hold
          · rcases hcase with rfl | ⟨pos, hplace, hlen⟩
            · exact hz x _ hx hb
            · -- the byte comes from kmalloc
              rcases place_chunk hg' hfits' hp hreach with ⟨pos', hplace', hchunk, hoff⟩
              cases hplace.symm.trans hplace'
              refine hc pos heap hplace ?_ hheap _ (Nat.mod_lt _ ?_) ?_
              · rw [hchunk, ← hquantum]
                exact hfresh
              · have := hg'.quantumPos
                omega
              · have hx := Nat.div_add_mod x s.dev.geometry.quantum.toNat
                have hf := Nat.div_add_mod fPos.toNat s.dev.geometry.quantum.toNat
                rw [hquantum] at hx
                omega
  | llseek f fPos off whence => exact hz

/-- What a `scull_read` hands over is in memory at the positions asked for. -/
theorem bytes_read {s : SparseSys} (hg : p.geometry.Valid) (hfits : p.geometry.Fits)
    (hi : Sim p s) {fPos : ℤ} (hp : 0 ≤ fPos) (hreach : p.geometry.Reaches fPos) {count : ℕ}
    {env : Env} {r : Transfer} (hr : scullRead s.dev.geometry count fPos env s.dev = .ok r)
    {i : ℕ} {x : UInt8} (hx : r.data[i]? = some x) : bytes s.dev (fPos.toNat + i) = some x := by
  have hg' : s.dev.geometry.Valid := by rw [hi.geometry]; exact hg
  have hfits' : s.dev.geometry.Fits := by rw [hi.geometry]; exact hfits
  have hreach' : s.dev.geometry.Reaches fPos := by rw [hi.geometry]; exact hreach
  rcases place_chunk hg' hfits' hp hreach' with ⟨pos, hplace, hchunk, hoff⟩
  rcases read_cases count env hg' hi.shape hp with h | ⟨r', hr', hout⟩
  · rw [hr] at h
    cases h
  · cases hr.symm.trans hr'
    rcases hout.data with hnil | ⟨pos', q, hplace', hq, hprefix⟩
    · rw [hnil] at hx
      cases hx
    · cases hplace.symm.trans hplace'
      rw [hchunk] at hq
      have hlen := sized_chunks hi.shape _ q hq
      refine view_of_chunk hq hlen ?_
      rw [← hoff, ← List.getElem?_drop]
      rcases hprefix with ⟨t, ht⟩
      rw [← ht, List.getElem?_append_left (List.getElem?_eq_some_iff.mp hx).1]
      exact hx

/-- A read in a state in which bytes never stored are zero. -/
theorem readsRight_of_zeroed (hg : p.geometry.Valid) (hfits : p.geometry.Fits) {s : SparseSys}
    {a : SparseAct} (hi : Sim p s) (hz : Zeroed s) (ha : Small p s a) : ReadsRight s a := by
  cases a with
  | read f fPos count env =>
      intro hgd r hr i x hx
      have hmem := bytes_read hg hfits hi (hi.nonneg f fPos hgd) ha hr hx
      cases hst : s.stored (fPos.toNat + i) with
      | some b =>
          cases (hi.stored _ b hst).symm.trans hmem
          rfl
      | none => exact hz _ x hst hmem
  | openFile wronly => trivial
  | write f fPos buf env => trivial
  | llseek f fPos off whence => trivial

theorem sim_init (p : Params) : Sim p (init p) := by
  refine ⟨rfl, shape_trim p ⟨[], p.geometry, 0⟩, ?_, ?_⟩
  · intro f fPos h
    simp [init] at h
  · intro x b h
    cases h

theorem zeroed_init (p : Params) : Zeroed (init p) := by
  intro x b _ hb
  simp [init, bytes, view, chunks, itemData] at hb

/-- In every run of opens, reads, writes and seeks at small positions in which each
write that allocates a quantum gets zero bytes from `kmalloc` wherever it stores
none, every byte handed over is the byte last stored at its position since the last
trim, or zero where none was. -/
theorem sparse_array (hg : p.geometry.Valid) (hfits : p.geometry.Fits) {as : List SparseAct}
    (hsmall : Along (step p) (Small p) (init p) as)
    (hclean : Along (step p) CleanAlloc (init p) as) :
    Along (step p) ReadsRight (init p) as := by
  refine along_of_invariant (fun s => Sim p s ∧ Zeroed s) ?_ ?_ ⟨sim_init p, zeroed_init p⟩
    (along_and hsmall hclean)
  · rintro s a ⟨hi, hz⟩ ⟨ha, _⟩
    exact readsRight_of_zeroed hg hfits hi hz ha
  · rintro s a s' ⟨hi, hz⟩ ⟨ha, hc⟩ hs
    exact ⟨sim_step hg hfits hi ha hs, zeroed_step hg hfits hi hz ha hc hs⟩

/-! ## A hole in front of the first byte -/

/-- Quanta of four bytes, two to an item. -/
def tiny : Params := ⟨4, 2, 0⟩

/-- Every allocation is served, and new memory holds `x` everywhere. -/
def filled (x : UInt8) : Env := ⟨5, true, some fun _ => x, none⟩

/-- One byte is written at position 2 of a device that has just been set up, and
the device is read from the beginning. -/
def writeAtTwo (x : UInt8) : List SparseAct :=
  [.openFile false, .llseek 0 0 2 .seekSet, .write 0 2 [7] (filled x), .llseek 0 3 0 .seekSet,
    .read 0 0 3 (filled x)]

theorem tiny_valid : tiny.geometry.Valid := by
  constructor <;> decide

/-- With memory that happens to be clear, the hole reads as zero bytes. -/
theorem sparse_array_cleared : Along (step tiny) ReadsRight (init tiny) (writeAtTwo 0) := by
  refine sparse_array tiny_valid (by unfold Geometry.Fits; decide) ?_ ?_
  · apply along_of_forall
    intro a ha s
    simp only [writeAtTwo, List.mem_cons, List.not_mem_nil, or_false] at ha
    rcases ha with rfl | rfl | rfl | rfl | rfl
    · trivial
    · trivial
    · show Geometry.Reaches _ _
      unfold Geometry.Reaches
      decide
    · trivial
    · show Geometry.Reaches _ _
      unfold Geometry.Reaches
      decide
  · apply along_of_forall
    intro a ha s
    simp only [writeAtTwo, List.mem_cons, List.not_mem_nil, or_false] at ha
    rcases ha with rfl | rfl | rfl | rfl | rfl
    · trivial
    · trivial
    · intro pos heap _ _ hheap b _ _
      cases hheap
      rfl
    · trivial
    · trivial

/-- With any other memory, it reads as what the memory held before. -/
theorem sparse_array_leak : ∃ s, run (step tiny) (init tiny) ((writeAtTwo 170).take 4) = some s ∧
    ¬ ReadsRight s (.read 0 0 3 (filled 170)) := by
  refine ⟨_, rfl, ?_⟩
  intro h
  have hbyte := h rfl _ rfl 0 170 rfl
  exact absurd hbyte (by decide)

end Sparse

end Scull
