import DriversLab.Scull.Calls
import DriversLab.Lib.View
import Mathlib.Data.List.Nodup
import Mathlib.Data.List.Range

/-!
# Scull.Private — the devices that are cloned for each terminal

The last part of `access.c`: `scull_c_open` looks in `scull_c_list` for the device of the
terminal that controls the process, and makes one if there is none. An open file holds the
address of the device in `private_data`; from then on it is a bare scull device.

* `PrivSys`: the list, the items that `kmalloc` has given out, and the open files;
* `Clones`: an item for each terminal, each of them once in the list;
* `unwinds`, `private_alone`: whatever the other terminals do, the calls of a terminal are
  answered as by a scull device that nobody else has. It shares only the parameters.

A call is one step here; what calls on one device do to each other is in `TrimLock`.
-/

namespace Scull

open Lts

/-! ## The list -/

/-- `struct scull_listitem` without its link. -/
structure ScullListitem where
  device : ScullDev
  key : ℕ
deriving DecidableEq, Repr

/-- A device after `memset`. -/
def ScullDev.zeroed : ScullDev := ⟨[], ⟨0, 0⟩, 0⟩

/-- The private devices of the module. -/
structure PrivSys where
  params : Params
  /-- The items that `kmalloc` has given out, by address. -/
  heap : List ScullListitem
  /-- `scull_c_list` from its head on. -/
  cList : List ℕ
  /-- The address in `private_data` of each file that has been opened. -/
  files : List ℕ
deriving DecidableEq, Repr

/-- What a call gives to its caller. -/
inductive Reply where
  | returned (ret : ℤ) (put : Option ℤ)
  /-- What a transfer returns, the position it leaves, and the bytes that reach the user. -/
  | moved (t : Except Trap (ℤ × ℤ × List UInt8))

inductive PrivAct where
  | ioctl (cmd : IoctlCmd) (arg : ℤ) (user : IoctlUser)
  | scullCOpen (tty : Option ℕ) (wronly served : Bool)
  | read (f fPos count : ℕ) (env : Env)
  | write (f fPos : ℕ) (buf : List UInt8) (env : Env)

namespace Private

/-- Whether the item at an address has the key. -/
def hasKey (s : PrivSys) (key lptr : ℕ) : Bool :=
  s.heap[lptr]?.any fun item => item.key = key

/-- The loop of `scull_c_lookfor_device`. -/
def find (s : PrivSys) (key : ℕ) : Option ℕ := s.cList.find? (hasKey s key)

/-- `scull_c_lookfor_device`. -/
def scullCLookforDevice (key : ℕ) (served : Bool) (s : PrivSys) : Option ℕ × PrivSys :=
  match find s key with
  | some lptr => (some lptr, s)
  | none =>
      if served then
        (some s.heap.length,
          { s with
            heap := s.heap ++ [⟨scullTrim s.params .zeroed, key⟩]
            cList := s.heap.length :: s.cList })
      else (none, s)

/-- The device at an address, changed. -/
def change (s : PrivSys) (lptr : ℕ) (f : ScullDev → ScullDev) : PrivSys :=
  { s with heap := s.heap.modify lptr fun item => { item with device := f item.device } }

/-- `scull_c_open`. -/
def scullCOpen (tty : Option ℕ) (wronly served : Bool) (s : PrivSys) : ℤ × PrivSys :=
  match tty with
  | none => (-EINVAL, s)
  | some key =>
      match scullCLookforDevice key served s with
      | (none, s) => (-ENOMEM, s)
      | (some lptr, s) =>
          (0, { change s lptr (scullOpen s.params wronly) with files := s.files ++ [lptr] })

/-- The item that a file is open on. -/
def item (s : PrivSys) (f : ℕ) : Option ScullListitem := s.files[f]?.bind fun lptr => s.heap[lptr]?

/-- The state after a transfer on a file. -/
def transferred (s : PrivSys) (f : ℕ) : Except Trap Transfer → PrivSys
  | .ok r => s.files[f]?.elim s fun lptr => change s lptr fun _ => r.dev
  | .error _ => s

/-- A transfer is made on a file that has been opened. -/
def guard (s : PrivSys) : PrivAct → Prop
  | .read f _ _ _ | .write f _ _ _ => f < s.files.length
  | _ => True

instance (s : PrivSys) : ∀ a : PrivAct, Decidable (guard s a)
  | .read _ _ _ _ | .write _ _ _ _ => inferInstanceAs (Decidable (_ < _))
  | .ioctl _ _ _ | .scullCOpen _ _ _ => inferInstanceAs (Decidable True)

/-- The device that a file is open on. -/
def device (s : PrivSys) (f : ℕ) : ScullDev := (item s f).elim .zeroed ScullListitem.device

def update (s : PrivSys) : PrivAct → PrivSys
  | .ioctl cmd arg user => { s with params := (scullIoctl cmd arg user s.params).params }
  | .scullCOpen tty wronly served => (scullCOpen tty wronly served s).2
  | .read f fPos count env =>
      transferred s f (scullRead (device s f).geometry count fPos env (device s f))
  | .write f fPos buf env =>
      transferred s f (scullWrite (device s f).geometry buf fPos env (device s f))

def step : PrivSys → PrivAct → Option PrivSys := guarded guard update

def init (p : Params) : PrivSys := ⟨p, [], [], []⟩

/-- What a transfer tells its caller. -/
def moved (t : Except Trap Transfer) : Reply := .moved (t.map fun r => (r.ret, r.fPos, r.data))

def ioctlReply (r : IoctlResult) : Reply := .returned r.ret r.put

def reply (s : PrivSys) : PrivAct → Reply
  | .ioctl cmd arg user => ioctlReply (scullIoctl cmd arg user s.params)
  | .scullCOpen tty wronly served => .returned (scullCOpen tty wronly served s).1 none
  | .read f fPos count env =>
      moved (scullRead (device s f).geometry count fPos env (device s f))
  | .write f fPos buf env =>
      moved (scullWrite (device s f).geometry buf fPos env (device s f))

/-! ## One terminal -/

/-- The answers of the bare device. -/
def bareReply (s : CallSys) : CallAct → Reply
  | .ioctl cmd arg user => ioctlReply (scullIoctl cmd arg user s.params)
  | .openFile _ => .returned 0 none
  | .read fPos count env => moved (scullRead s.dev.geometry count fPos env s.dev)
  | .write fPos buf env => moved (scullWrite s.dev.geometry buf fPos env s.dev)

/-- Whether a file is open on the device of the terminal. -/
def belongs (s : PrivSys) (key f : ℕ) : Bool := (item s f).any fun i => i.key = key

/-- What a call is for a terminal, as a call on a device of its own. The open that makes
the device is the open that empties it. -/
def view (key : ℕ) (s : PrivSys) : PrivAct → Option CallAct
  | .ioctl cmd arg user => some (.ioctl cmd arg user)
  | .scullCOpen tty wronly served =>
      if tty = some key then
        if (find s key).isSome then some (.openFile wronly)
        else if served then some (.openFile true) else none
      else none
  | .read f fPos count env => if belongs s key f then some (.read fPos count env) else none
  | .write f fPos buf env => if belongs s key f then some (.write fPos buf env) else none

/-- Each terminal has one item at most, and each item is in the list once. -/
structure Clones (s : PrivSys) : Prop where
  keys : (s.heap.map ScullListitem.key).Nodup
  listed : s.cList.Perm (List.range s.heap.length)
  files : ∀ lptr ∈ s.files, lptr < s.heap.length

/-- `t` is the device of the terminal, if it has one. -/
structure Shown (key : ℕ) (s : PrivSys) (t : CallSys) : Prop where
  clones : Clones s
  params : t.params = s.params
  device : ∀ (lptr : ℕ) i, s.heap[lptr]? = some i → i.key = key → t.dev = i.device

/-! ## The list and the items -/

section List

variable {s : PrivSys} {key lptr lptr' : ℕ} {i i' : ScullListitem}

theorem hasKey_iff : hasKey s key lptr = true ↔ ∃ i, s.heap[lptr]? = some i ∧ i.key = key := by
  simp [hasKey, Option.any_eq_true]

/-- The key says which item it is. -/
theorem eq_of_key (h : Clones s) (hi : s.heap[lptr]? = some i) (hi' : s.heap[lptr']? = some i')
    (hkey : i.key = i'.key) : lptr = lptr' := by
  have hlt : lptr < (s.heap.map ScullListitem.key).length := by
    rw [List.length_map]
    exact (List.getElem?_eq_some_iff.mp hi).1
  apply (List.getElem?_inj hlt h.keys).mp
  rw [List.getElem?_map, List.getElem?_map, hi, hi', Option.map_some, Option.map_some, hkey]

/-- The loop finds the item that has the key. -/
theorem find_eq_some (h : Clones s) :
    find s key = some lptr ↔ ∃ i, s.heap[lptr]? = some i ∧ i.key = key := by
  constructor
  · exact fun hfind => hasKey_iff.mp (List.find?_some hfind)
  · rintro ⟨i, hi, hkey⟩
    have hlt : lptr < s.heap.length := (List.getElem?_eq_some_iff.mp hi).1
    have hmem : lptr ∈ s.cList := h.listed.mem_iff.mpr (List.mem_range.mpr hlt)
    have hsome : (find s key).isSome = true :=
      List.find?_isSome.mpr ⟨lptr, hmem, hasKey_iff.mpr ⟨i, hi, hkey⟩⟩
    obtain ⟨lptr', hfind⟩ := Option.isSome_iff_exists.mp hsome
    obtain ⟨i', hi', hkey'⟩ := hasKey_iff.mp (List.find?_some hfind)
    rw [hfind, eq_of_key h hi' hi (hkey'.trans hkey.symm)]

theorem find_eq_none (h : Clones s) : find s key = none ↔ key ∉ s.heap.map ScullListitem.key := by
  rw [← not_iff_not, not_not, ← ne_eq, ← Option.isSome_iff_ne_none, Option.isSome_iff_exists,
    List.mem_map]
  constructor
  · rintro ⟨lptr, hfind⟩
    obtain ⟨i, hi, hkey⟩ := (find_eq_some h).mp hfind
    exact ⟨i, List.mem_of_getElem? hi, hkey⟩
  · rintro ⟨i, hmem, hkey⟩
    obtain ⟨lptr, hi⟩ := List.getElem?_of_mem hmem
    exact ⟨lptr, (find_eq_some h).mpr ⟨i, hi, hkey⟩⟩

theorem change_heap (s : PrivSys) (lptr lptr' : ℕ) (f : ScullDev → ScullDev) :
    (change s lptr f).heap[lptr']? = (s.heap[lptr']?).map fun i =>
      if lptr = lptr' then { i with device := f i.device } else i := List.getElem?_modify _ _ _ _

theorem change_keys (s : PrivSys) (lptr : ℕ) (f : ScullDev → ScullDev) :
    (change s lptr f).heap.map ScullListitem.key = s.heap.map ScullListitem.key := by
  apply List.ext_getElem?
  intro n
  rw [List.getElem?_map, List.getElem?_map, change_heap, Option.map_map]
  congr 1
  funext i
  show ScullListitem.key (if lptr = n then _ else i) = i.key
  split <;> rfl

theorem change_length (s : PrivSys) (lptr : ℕ) (f : ScullDev → ScullDev) :
    (change s lptr f).heap.length = s.heap.length := List.length_modify _ _ _

theorem change_clones (h : Clones s) (lptr : ℕ) (f : ScullDev → ScullDev) :
    Clones (change s lptr f) := by
  refine ⟨?_, ?_, ?_⟩
  · rw [change_keys]
    exact h.keys
  · rw [change_length]
    exact h.listed
  · rw [change_length]
    exact h.files

/-- A file that has been opened has an item. -/
theorem item_of_lt (h : Clones s) {f : ℕ} (hf : f < s.files.length) :
    ∃ lptr i, s.files[f]? = some lptr ∧ s.heap[lptr]? = some i ∧ item s f = some i := by
  have hfile : s.files[f]? = some s.files[f] := List.getElem?_eq_getElem hf
  have hlt : s.files[f] < s.heap.length := h.files _ (List.getElem_mem hf)
  have hi : s.heap[s.files[f]]? = some s.heap[s.files[f]] := List.getElem?_eq_getElem hlt
  refine ⟨s.files[f], s.heap[s.files[f]], hfile, hi, ?_⟩
  rw [item, hfile, Option.bind_some, hi]

end List

/-! ## What one terminal sees of a call -/

section View

variable {s : PrivSys} {t : CallSys} {key lptr : ℕ} {i : ScullListitem}

theorem shown_init (key : ℕ) (p : Params) : Shown key (init p) (Calls.init p) := by
  refine ⟨⟨List.nodup_nil, .refl _, ?_⟩, rfl, ?_⟩
  · intro lptr hmem
    cases hmem
  · intro lptr i hi
    cases hi

/-- A change to the device of the terminal. -/
theorem shown_change (h : Shown key s t) (hi : s.heap[lptr]? = some i) (hkey : i.key = key)
    (f : ScullDev → ScullDev) : Shown key (change s lptr f) { t with dev := f t.dev } := by
  refine ⟨change_clones h.clones lptr f, h.params, ?_⟩
  intro lptr' i' hi' hkey'
  rw [change_heap] at hi'
  obtain ⟨j, hj, rfl⟩ := Option.map_eq_some_iff.mp hi'
  have hjkey : j.key = key := by
    split at hkey' <;> exact hkey'
  have heq : lptr = lptr' := eq_of_key h.clones hi hj (hkey.trans hjkey.symm)
  rw [if_pos heq]
  show f t.dev = f j.device
  rw [h.device lptr' j hj hjkey]

/-- A change to another one. -/
theorem shown_change_other (h : Shown key s t) (hi : s.heap[lptr]? = some i) (hkey : i.key ≠ key)
    (f : ScullDev → ScullDev) : Shown key (change s lptr f) t := by
  refine ⟨change_clones h.clones lptr f, h.params, ?_⟩
  intro lptr' i' hi' hkey'
  rw [change_heap] at hi'
  obtain ⟨j, hj, rfl⟩ := Option.map_eq_some_iff.mp hi'
  split at hkey'
  · rename_i heq
    subst heq
    cases hi.symm.trans hj
    exact absurd hkey' hkey
  · rename_i hne
    rw [if_neg hne]
    exact h.device lptr' j hj hkey'

/-- One more file. -/
theorem shown_opened (h : Shown key s t) (hlt : lptr < s.heap.length) :
    Shown key { s with files := s.files ++ [lptr] } t := by
  refine ⟨⟨h.clones.keys, h.clones.listed, ?_⟩, h.params, h.device⟩
  intro lptr' hmem
  rcases List.mem_append.mp hmem with hmem | hmem
  · exact h.clones.files lptr' hmem
  · rw [List.mem_singleton.mp hmem]
    exact hlt

/-- The state with a new item. -/
def created (s : PrivSys) (key : ℕ) : PrivSys :=
  { s with
    heap := s.heap ++ [⟨scullTrim s.params .zeroed, key⟩]
    cList := s.heap.length :: s.cList }

theorem created_clones (h : Clones s) (hnone : find s key = none) : Clones (created s key) := by
  refine ⟨?_, ?_, ?_⟩
  · show ((s.heap ++ [_]).map ScullListitem.key).Nodup
    rw [List.map_append, List.map_singleton, List.nodup_append]
    refine ⟨h.keys, List.nodup_singleton _, ?_⟩
    intro k hk k' hk' heq
    rw [List.mem_singleton.mp hk'] at heq
    have hkey : k = key := heq
    exact (find_eq_none h).mp hnone (hkey ▸ hk)
  · show (s.heap.length :: s.cList).Perm (List.range (s.heap ++ [_]).length)
    rw [List.length_append, List.length_singleton, List.range_succ]
    exact (h.listed.cons _).trans (List.perm_append_singleton _ _).symm
  · intro lptr hmem
    show lptr < (s.heap ++ [_]).length
    rw [List.length_append]
    exact Nat.lt_add_right _ (h.files lptr hmem)

theorem created_heap {i' : ScullListitem} (hi' : (created s key).heap[lptr]? = some i') :
    s.heap[lptr]? = some i' ∨ i' = ⟨scullTrim s.params .zeroed, key⟩ := by
  have hcases : (s.heap ++ [⟨scullTrim s.params .zeroed, key⟩])[lptr]? = some i' := hi'
  rw [List.getElem?_append] at hcases
  split at hcases
  · exact .inl hcases
  · right
    rw [List.getElem?_singleton] at hcases
    split at hcases
    · exact (Option.some.inj hcases).symm
    · cases hcases

/-- The new item is that of the terminal. -/
theorem shown_created (h : Shown key s t) (hnone : find s key = none) :
    Shown key (created s key) { t with dev := scullTrim t.params t.dev } := by
  refine ⟨created_clones h.clones hnone, h.params, ?_⟩
  intro lptr i hi hkey
  rcases created_heap hi with hold | rfl
  · exact absurd (hkey ▸ List.mem_map_of_mem (List.mem_of_getElem? hold))
      ((find_eq_none h.clones).mp hnone)
  · show scullTrim t.params t.dev = scullTrim s.params .zeroed
    rw [h.params]
    rfl

/-- It is that of another one. -/
theorem shown_created_other {key' : ℕ} (h : Shown key s t) (hnone : find s key' = none)
    (hne : key' ≠ key) : Shown key (created s key') t := by
  refine ⟨created_clones h.clones hnone, h.params, ?_⟩
  intro lptr i hi hkey
  rcases created_heap hi with hold | rfl
  · exact h.device lptr i hold hkey
  · exact absurd hkey hne

/-! ## Calls -/

theorem open_found {wronly served : Bool} (hfind : find s key = some lptr) :
    scullCOpen (some key) wronly served s =
      (0, { change s lptr (scullOpen s.params wronly) with files := s.files ++ [lptr] }) := by
  simp only [scullCOpen, scullCLookforDevice, hfind]

theorem open_created {wronly : Bool} (hfind : find s key = none) :
    scullCOpen (some key) wronly true s =
      (0, { change (created s key) s.heap.length (scullOpen s.params wronly) with
        files := s.files ++ [s.heap.length] }) := by
  simp only [scullCOpen, scullCLookforDevice, hfind, if_true]
  rfl

theorem open_refused {wronly : Bool} (hfind : find s key = none) :
    scullCOpen (some key) wronly false s = (-ENOMEM, s) := by
  simp only [scullCOpen, scullCLookforDevice, hfind, Bool.false_eq_true, if_false]

/-- A device that has just been made is opened as if for writing only. -/
theorem scullOpen_created (p : Params) (wronly : Bool) (dev : ScullDev) :
    scullOpen p wronly (scullTrim p dev) = scullOpen p true dev := by
  cases wronly <;> rfl

theorem created_new (s : PrivSys) (key : ℕ) :
    (created s key).heap[s.heap.length]? = some ⟨scullTrim s.params .zeroed, key⟩ := by
  show (s.heap ++ [_])[s.heap.length]? = _
  rw [List.getElem?_append_right (Nat.le_refl _), Nat.sub_self]
  rfl

/-- An open from the terminal that succeeds. -/
theorem open_seen {wronly served : Bool} {b : CallAct} (h : Shown key s t)
    (hview : view key s (.scullCOpen (some key) wronly served) = some b) :
    (scullCOpen (some key) wronly served s).1 = 0 ∧ (∃ wronly', b = .openFile wronly') ∧
      Shown key (scullCOpen (some key) wronly served s).2 (Calls.update t b) := by
  simp only [view, if_true] at hview
  cases hfind : find s key with
  | some lptr =>
      obtain ⟨i, hi, hkey⟩ := (find_eq_some h.clones).mp hfind
      simp only [hfind, Option.isSome_some, if_true, Option.some.injEq] at hview
      subst hview
      rw [open_found hfind]
      refine ⟨rfl, ⟨wronly, rfl⟩, ?_⟩
      have hchange := shown_change h hi hkey (scullOpen s.params wronly)
      rw [← h.params] at hchange ⊢
      refine shown_opened hchange ?_
      rw [change_length]
      exact (List.getElem?_eq_some_iff.mp hi).1
  | none =>
      cases served with
      | false => simp [hfind] at hview
      | true =>
          simp only [hfind, Option.isSome_none, Bool.false_eq_true, if_false, if_true,
            Option.some.injEq] at hview
          subst hview
          rw [open_created hfind]
          refine ⟨rfl, ⟨true, rfl⟩, ?_⟩
          have hchange := shown_change (shown_created h hfind) (created_new s key) rfl
            (scullOpen s.params wronly)
          simp only [← h.params, scullOpen_created] at hchange ⊢
          refine shown_opened hchange ?_
          rw [change_length]
          exact (List.getElem?_eq_some_iff.mp (created_new s key)).1

/-- An open from another terminal, or one that fails. -/
theorem open_unseen {tty : Option ℕ} {wronly served : Bool} (h : Shown key s t)
    (hview : view key s (.scullCOpen tty wronly served) = none) :
    Shown key (scullCOpen tty wronly served s).2 t := by
  cases tty with
  | none => exact h
  | some key' =>
      by_cases hkey : key' = key
      · subst hkey
        cases hfind : find s key' with
        | some lptr => simp [view, hfind] at hview
        | none =>
            cases served with
            | true => simp [view, hfind] at hview
            | false =>
                rw [open_refused hfind]
                exact h
      · cases hfind : find s key' with
        | some lptr =>
            obtain ⟨i, hi, hikey⟩ := (find_eq_some h.clones).mp hfind
            rw [open_found hfind]
            refine shown_opened (shown_change_other h hi (hikey ▸ hkey) _) ?_
            rw [change_length]
            exact (List.getElem?_eq_some_iff.mp hi).1
        | none =>
            cases served with
            | true =>
                rw [open_created hfind]
                have hnew := shown_created_other h hfind hkey
                refine shown_opened (shown_change_other hnew (created_new s key') hkey _) ?_
                rw [change_length]
                exact (List.getElem?_eq_some_iff.mp (created_new s key')).1
            | false =>
                rw [open_refused hfind]
                exact h

/-- A transfer on a file of the terminal. -/
theorem transfer_seen {f : ℕ} (h : Shown key s t) (hf : f < s.files.length)
    (hbelongs : belongs s key f = true) (transfer : ScullDev → Except Trap Transfer) :
    moved (transfer (device s f)) = moved (transfer t.dev) ∧
      Shown key (transferred s f (transfer (device s f)))
        (Calls.transferred t (transfer t.dev)) := by
  obtain ⟨lptr, i, hfile, hi, hitem⟩ := item_of_lt h.clones hf
  have hkey : i.key = key := by
    simpa [belongs, hitem] using hbelongs
  have hdev : device s f = t.dev := by
    rw [device, hitem, Option.elim_some]
    exact (h.device lptr i hi hkey).symm
  rw [hdev]
  refine ⟨rfl, ?_⟩
  cases transfer t.dev with
  | error e => exact h
  | ok r =>
      show Shown key (s.files[f]?.elim s fun lptr => change s lptr fun _ => r.dev) _
      rw [hfile, Option.elim_some]
      exact shown_change h hi hkey fun _ => r.dev

/-- A transfer on another file. -/
theorem transfer_unseen {f : ℕ} (h : Shown key s t) (hf : f < s.files.length)
    (hbelongs : belongs s key f = false) (r : Except Trap Transfer) :
    Shown key (transferred s f r) t := by
  obtain ⟨lptr, i, hfile, hi, hitem⟩ := item_of_lt h.clones hf
  have hkey : i.key ≠ key := by
    simpa [belongs, hitem] using hbelongs
  cases r with
  | error e => exact h
  | ok r =>
      show Shown key (s.files[f]?.elim s fun lptr => change s lptr fun _ => r.dev) _
      rw [hfile, Option.elim_some]
      exact shown_change_other h hi hkey fun _ => r.dev

/-- A terminal sees of a call what a device of its own would do, or nothing. -/
theorem unwinds (key : ℕ) :
    Unwinds step Calls.step (view key) reply bareReply (Shown key) := by
  constructor
  · intro s t a b s' h hview hstep
    obtain ⟨hg, rfl⟩ := guarded_eq_some.mp hstep
    refine ⟨Calls.update t b, rfl, ?_⟩
    cases a with
    | ioctl cmd arg user =>
        cases hview
        refine ⟨?_, ⟨h.clones.keys, h.clones.listed, h.clones.files⟩, ?_, h.device⟩
        · show ioctlReply (scullIoctl cmd arg user s.params) =
            ioctlReply (scullIoctl cmd arg user t.params)
          rw [h.params]
        · show (scullIoctl cmd arg user t.params).params = (scullIoctl cmd arg user s.params).params
          rw [h.params]
    | scullCOpen tty wronly served =>
        have htty : tty = some key := by
          by_contra hne
          rw [view, if_neg hne] at hview
          cases hview
        subst htty
        obtain ⟨hret, ⟨wronly', rfl⟩, hshown⟩ := open_seen h hview
        refine ⟨?_, hshown⟩
        show Reply.returned (scullCOpen (some key) wronly served s).1 none = .returned 0 none
        rw [hret]
    | read f fPos count env =>
        obtain ⟨hbelongs, hb⟩ := Option.ite_none_right_eq_some.mp hview
        cases hb
        exact transfer_seen h hg hbelongs fun dev => scullRead dev.geometry count fPos env dev
    | write f fPos buf env =>
        obtain ⟨hbelongs, hb⟩ := Option.ite_none_right_eq_some.mp hview
        cases hb
        exact transfer_seen h hg hbelongs fun dev => scullWrite dev.geometry buf fPos env dev
  · intro s t a s' h hview hstep
    obtain ⟨hg, rfl⟩ := guarded_eq_some.mp hstep
    cases a with
    | ioctl cmd arg user => cases hview
    | scullCOpen tty wronly served => exact open_unseen h hview
    | read f fPos count env =>
        refine transfer_unseen h hg ?_ _
        by_contra hbelongs
        rw [view, if_pos (Bool.not_eq_false _ ▸ hbelongs)] at hview
        cases hview
    | write f fPos buf env =>
        refine transfer_unseen h hg ?_ _
        by_contra hbelongs
        rw [view, if_pos (Bool.not_eq_false _ ▸ hbelongs)] at hview
        cases hview

end View

/-- Any number of terminals open their devices, and read and write them, in any order, with
ioctls in between: the calls on the device of one terminal are answered as on a scull device
that nobody else has, and leave that device in the same state. -/
theorem private_alone {p : Params} {as : List PrivAct} {s : PrivSys}
    (hr : run step (init p) as = some s) (key : ℕ) :
    ∃ t, run Calls.step (Calls.init p) (viewed step (view key) (init p) as) = some t ∧
      Shown key s t ∧
      heard step (view key) reply (init p) as =
        answers Calls.step bareReply (Calls.init p) (viewed step (view key) (init p) as) :=
  (unwinds key).run (shown_init key p) hr

/-- All the memory that is asked for, and no fault. -/
def ample : Env := ⟨3, true, some fun _ => 0, none⟩

/-- The terminals 1 and 2 write to their devices, and 1 reads what it has written. -/
def twoTerminals : List PrivAct :=
  [.scullCOpen (some 1) true true, .scullCOpen (some 2) true true, .write 0 0 [10, 11] ample,
    .write 1 0 [20, 21] ample, .scullCOpen (some 1) false true, .read 2 0 2 ample]

theorem private_alone_two : ∃ s t, run step (init ⟨4, 2, 0⟩) twoTerminals = some s ∧
    run Calls.step (Calls.init ⟨4, 2, 0⟩)
      [.openFile true, .write 0 [10, 11] ample, .openFile false, .read 0 2 ample] = some t ∧
    Shown 1 s t := by
  obtain ⟨s, hs⟩ := Option.isSome_iff_exists.mp
    (show (run step (init ⟨4, 2, 0⟩) twoTerminals).isSome = true by decide)
  obtain ⟨t, ht, hshown, -⟩ := private_alone hs 1
  exact ⟨s, t, hs, ht, hshown⟩

end Private

end Scull
