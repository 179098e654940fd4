import Mathlib.Algebra.Order.Group.Int
import Mathlib.Data.List.Basic
import Mathlib.Data.List.Induction
import Mathlib.Tactic.Common

/-!
# Usb.Probe — `skel_probe`

The function takes a structure, a reference on the USB device and, while it goes through
the endpoints, a buffer; whatever goes wrong, it leaves through one label. `Held` is the
account of what has been taken and not given back.

* `scan_eq`: the loop finds the first bulk-in endpoint and the first bulk-out endpoint
  whose address is not zero, whatever else lies around them;
* `skelProbe_spec`: when the probe succeeds, and that a probe that fails has given
  everything back while one that succeeds holds the structure, the reference and one
  buffer.
-/

namespace Usb

def usbDirIn : UInt8 := 0x80
def usbEndpointXfertypeMask : UInt8 := 0x03
def usbEndpointXferBulk : UInt8 := 2

def enomem : ℤ := 12
def efault : ℤ := 14

/-- The fields of `struct usb_endpoint_descriptor` that are read. -/
structure UsbEndpointDescriptor where
  bEndpointAddress : UInt8
  bmAttributes : UInt8
  wMaxPacketSize : UInt16
deriving DecidableEq, Repr

/-- `struct usb_skel` less its counter and its two pointers into the USB core. A buffer
is its bytes, `none` is `NULL`. -/
structure UsbSkel where
  bulkInBuffer : Option (List UInt8)
  bulkInSize : ℕ
  bulkInEndpointAddr : UInt8
  bulkOutEndpointAddr : UInt8
deriving DecidableEq, Repr

/-- The structure after `memset`. -/
def UsbSkel.zero : UsbSkel := ⟨none, 0, 0, 0⟩

/-- What is held: blocks of `kmalloc`, and references on USB devices. -/
@[ext] structure Held where
  kmallocs : ℤ
  udevs : ℤ
deriving DecidableEq, Repr

def Held.kmalloc (h : Held) : Held := { h with kmallocs := h.kmallocs + 1 }
def Held.kfree (h : Held) : Held := { h with kmallocs := h.kmallocs - 1 }
def Held.usbGetDev (h : Held) : Held := { h with udevs := h.udevs + 1 }
def Held.usbPutDev (h : Held) : Held := { h with udevs := h.udevs - 1 }

/-- `skel_delete`. `kfree` of `NULL` does nothing. -/
def skelDelete (dev : UsbSkel) (h : Held) : Held :=
  let h := h.usbPutDev
  let h := if dev.bulkInBuffer.isSome then h.kfree else h
  h.kfree

/-! ## The endpoints -/

def isBulk (endpoint : UsbEndpointDescriptor) : Bool :=
  endpoint.bmAttributes &&& usbEndpointXfertypeMask == usbEndpointXferBulk

def isBulkIn (endpoint : UsbEndpointDescriptor) : Bool :=
  endpoint.bEndpointAddress &&& usbDirIn != 0 && isBulk endpoint

def isBulkOut (endpoint : UsbEndpointDescriptor) : Bool :=
  endpoint.bEndpointAddress &&& usbDirIn == 0 && isBulk endpoint

/-- What `kmalloc` returns: `NULL`, or a block with whatever bytes it had. -/
abbrev Kmalloc := Option (ℕ → UInt8)

/-- The first `if` of the loop. An error is the jump to `error`. -/
def takeBulkIn (alloc : Kmalloc) (dev : UsbSkel) (h : Held) (endpoint : UsbEndpointDescriptor) :
    Except (UsbSkel × Held) (UsbSkel × Held) :=
  if dev.bulkInEndpointAddr == 0 && isBulkIn endpoint then
    let bufferSize := endpoint.wMaxPacketSize.toNat
    let dev := { dev with
      bulkInSize := bufferSize
      bulkInEndpointAddr := endpoint.bEndpointAddress
      bulkInBuffer := alloc.map fun junk => (List.range bufferSize).map junk }
    if dev.bulkInBuffer.isNone then .error (dev, h) else .ok (dev, h.kmalloc)
  else .ok (dev, h)

/-- The second `if` of the loop. -/
def takeBulkOut (dev : UsbSkel) (endpoint : UsbEndpointDescriptor) : UsbSkel :=
  if dev.bulkOutEndpointAddr == 0 && isBulkOut endpoint then
    { dev with bulkOutEndpointAddr := endpoint.bEndpointAddress }
  else dev

/-- One round of the loop over the endpoints. -/
def scanStep (alloc : Kmalloc) (c : UsbSkel × Held) (endpoint : UsbEndpointDescriptor) :
    Except (UsbSkel × Held) (UsbSkel × Held) :=
  (takeBulkIn alloc c.1 c.2 endpoint).map fun c => (takeBulkOut c.1 endpoint, c.2)

/-- What the calls that `skel_probe` makes return. -/
structure Outcome where
  /-- `kmalloc` of the structure succeeds. -/
  dev : Bool
  buffer : Kmalloc
  /-- `usb_register_dev`. -/
  register : ℤ

/-- `skel_probe`: the value returned, the structure the interface is given, and the
account. -/
def skelProbe (o : Outcome) (endpoints : List UsbEndpointDescriptor) (h : Held) :
    ℤ × Option UsbSkel × Held :=
  if !o.dev then (-enomem, none, h)
  else
    let h := h.kmalloc.usbGetDev
    match endpoints.foldlM (scanStep o.buffer) (UsbSkel.zero, h) with
    | .error (dev, h) => (-enomem, none, skelDelete dev h)
    | .ok (dev, h) =>
        if dev.bulkInEndpointAddr == 0 || dev.bulkOutEndpointAddr == 0 then
          -- `retval` is still what it was set to at the start
          (-enomem, none, skelDelete dev h)
        else if o.register ≠ 0 then (o.register, none, skelDelete dev h)
        else (0, some dev, h)

/-! ## The loop -/

/-- The endpoint that ends up as the bulk-out endpoint. -/
def isBulkOutNonzero (endpoint : UsbEndpointDescriptor) : Bool :=
  isBulkOut endpoint && endpoint.bEndpointAddress != 0

/-- What the loop has made of the endpoints so far. -/
def found (alloc : Kmalloc) (endpoints : List UsbEndpointDescriptor) : UsbSkel where
  bulkInBuffer := (endpoints.find? isBulkIn).bind fun endpoint =>
    alloc.map fun junk => (List.range endpoint.wMaxPacketSize.toNat).map junk
  bulkInSize := ((endpoints.find? isBulkIn).map fun e => e.wMaxPacketSize.toNat).getD 0
  bulkInEndpointAddr := ((endpoints.find? isBulkIn).map (·.bEndpointAddress)).getD 0
  bulkOutEndpointAddr := ((endpoints.find? isBulkOutNonzero).map (·.bEndpointAddress)).getD 0

theorem isBulkIn_ne_zero {endpoint : UsbEndpointDescriptor} (h : isBulkIn endpoint = true) :
    endpoint.bEndpointAddress ≠ 0 := by
  intro hzero
  simp [isBulkIn, hzero] at h

theorem found_in_eq_zero (alloc : Kmalloc) (endpoints : List UsbEndpointDescriptor) :
    (found alloc endpoints).bulkInEndpointAddr = 0 ↔ endpoints.find? isBulkIn = none := by
  unfold found
  cases hf : endpoints.find? isBulkIn with
  | none => simp
  | some endpoint =>
      have hin : isBulkIn endpoint = true := List.find?_some hf
      simp [isBulkIn_ne_zero hin]

theorem found_out_eq_zero (alloc : Kmalloc) (endpoints : List UsbEndpointDescriptor) :
    (found alloc endpoints).bulkOutEndpointAddr = 0 ↔
      endpoints.find? isBulkOutNonzero = none := by
  unfold found
  cases hf : endpoints.find? isBulkOutNonzero with
  | none => simp
  | some endpoint =>
      have hout : isBulkOutNonzero endpoint = true := List.find?_some hf
      have hne : endpoint.bEndpointAddress ≠ 0 := by
        simp only [isBulkOutNonzero, Bool.and_eq_true, bne_iff_ne] at hout
        exact hout.2
      simp [hne]

/-- The account after these endpoints. -/
def heldAfter (endpoints : List UsbEndpointDescriptor) (h : Held) : Held :=
  if (endpoints.find? isBulkIn).isSome then h.kmalloc else h

section Scan

variable {alloc : Kmalloc} {pre : List UsbEndpointDescriptor} {h : Held}

theorem takeBulkOut_eq (dev : UsbSkel) (endpoint : UsbEndpointDescriptor) :
    takeBulkOut dev endpoint =
      { dev with bulkOutEndpointAddr := (takeBulkOut dev endpoint).bulkOutEndpointAddr } := by
  unfold takeBulkOut
  split <;> rfl

/-- The part of a round that is about the bulk-out endpoint. -/
theorem found_concat_out {dev : UsbSkel} (endpoint : UsbEndpointDescriptor)
    (hdev : dev.bulkOutEndpointAddr = (found alloc pre).bulkOutEndpointAddr) :
    (takeBulkOut dev endpoint).bulkOutEndpointAddr =
      (found alloc (pre ++ [endpoint])).bulkOutEndpointAddr := by
  have hzero := found_out_eq_zero alloc pre
  unfold takeBulkOut
  rw [hdev]
  cases hf : pre.find? isBulkOutNonzero with
  | some e =>
      -- the address that was found stays
      have hne : (found alloc pre).bulkOutEndpointAddr ≠ 0 := by
        rw [Ne, hzero, hf]
        exact Option.some_ne_none e
      rw [if_neg (by simp [hne]), hdev]
      simp [found, List.find?_append, hf]
  | none =>
      have heq : (found alloc pre).bulkOutEndpointAddr = 0 := hzero.mpr hf
      cases hout : isBulkOut endpoint with
      | false => simp [hdev, found, List.find?_append, hf, isBulkOutNonzero, hout]
      | true =>
          -- an address of zero leaves the field as it was
          by_cases haddr : endpoint.bEndpointAddress = 0
          · simp [found, List.find?_append, hf, isBulkOutNonzero, hout, haddr]
          · simp [found, List.find?_append, hf, isBulkOutNonzero, hout, haddr]

/-- The part that is about the bulk-in endpoint, when the buffer can be had or is not
asked for. -/
theorem takeBulkIn_found {endpoint : UsbEndpointDescriptor}
    (halloc : (pre ++ [endpoint]).find? isBulkIn = none ∨ alloc.isSome = true) :
    takeBulkIn alloc (found alloc pre) (heldAfter pre h) endpoint =
      .ok ({ found alloc (pre ++ [endpoint]) with
              bulkOutEndpointAddr := (found alloc pre).bulkOutEndpointAddr },
        heldAfter (pre ++ [endpoint]) h) := by
  have hzero := found_in_eq_zero alloc pre
  unfold takeBulkIn
  cases hf : pre.find? isBulkIn with
  | some e =>
      have hne : (found alloc pre).bulkInEndpointAddr ≠ 0 := by
        rw [Ne, hzero, hf]
        exact Option.some_ne_none e
      rw [if_neg (by simp [hne])]
      simp [found, heldAfter, List.find?_append, hf]
  | none =>
      have heq : (found alloc pre).bulkInEndpointAddr = 0 := hzero.mpr hf
      cases hin : isBulkIn endpoint with
      | false => simp [found, heldAfter, List.find?_append, hf, hin]
      | true =>
          have hsome : alloc.isSome = true := by
            rcases halloc with hnone | hsome
            · simp [List.find?_append, hf, hin] at hnone
            · exact hsome
          rcases Option.isSome_iff_exists.mp hsome with ⟨junk, rfl⟩
          rw [heq]
          simp [found, heldAfter, List.find?_append, hf, hin]

theorem scanStep_found {endpoint : UsbEndpointDescriptor}
    (halloc : (pre ++ [endpoint]).find? isBulkIn = none ∨ alloc.isSome = true) :
    scanStep alloc (found alloc pre, heldAfter pre h) endpoint =
      .ok (found alloc (pre ++ [endpoint]), heldAfter (pre ++ [endpoint]) h) := by
  have hkeep : ({ found alloc (pre ++ [endpoint]) with
      bulkOutEndpointAddr := (found alloc pre).bulkOutEndpointAddr } :
        UsbSkel).bulkOutEndpointAddr = (found alloc pre).bulkOutEndpointAddr := rfl
  unfold scanStep
  rw [takeBulkIn_found halloc]
  simp only [Except.map, Except.ok.injEq, Prod.mk.injEq, and_true]
  rw [takeBulkOut_eq, found_concat_out endpoint hkeep]

/-- The buffer cannot be had: the loop is left at the bulk-in endpoint. -/
theorem scanStep_nomem {endpoint : UsbEndpointDescriptor} (hin : isBulkIn endpoint = true)
    (hf : pre.find? isBulkIn = none) :
    ∃ dev, scanStep none (found none pre, heldAfter pre h) endpoint = .error (dev, h) ∧
      dev.bulkInBuffer = none := by
  have heq : (found none pre).bulkInEndpointAddr = 0 := (found_in_eq_zero none pre).mpr hf
  have hheld : heldAfter pre h = h := by simp [heldAfter, hf]
  rw [hheld]
  simp [scanStep, takeBulkIn, heq, hin, Except.map]

/-- The whole loop, when the buffer can be had or is not asked for. -/
theorem scan_eq {endpoints : List UsbEndpointDescriptor}
    (halloc : endpoints.find? isBulkIn = none ∨ alloc.isSome = true) :
    endpoints.foldlM (scanStep alloc) (UsbSkel.zero, h) =
      .ok (found alloc endpoints, heldAfter endpoints h) := by
  induction endpoints using List.reverseRecOn with
  | nil => rfl
  | append_singleton pre endpoint ih =>
      have hpre : pre.find? isBulkIn = none ∨ alloc.isSome = true := by
        refine halloc.imp_left ?_
        intro hnone
        rw [List.find?_append, Option.or_eq_none_iff] at hnone
        exact hnone.1
      rw [List.foldlM_append, ih hpre]
      show (scanStep alloc (found alloc pre, heldAfter pre h) endpoint).bind pure = _
      rw [scanStep_found halloc]
      rfl

theorem scan_nomem {endpoints : List UsbEndpointDescriptor} {endpoint : UsbEndpointDescriptor}
    (hin : endpoints.find? isBulkIn = some endpoint) :
    ∃ dev, endpoints.foldlM (scanStep none) (UsbSkel.zero, h) = .error (dev, h) ∧
      dev.bulkInBuffer = none := by
  rcases List.find?_eq_some_iff_append.mp hin with ⟨hbulk, pre, post, rfl, hpre⟩
  have hnone : pre.find? isBulkIn = none := by
    rw [List.find?_eq_none]
    intro e he
    simpa using hpre e he
  rcases scanStep_nomem (h := h) hbulk hnone with ⟨dev, hstep, hdev⟩
  refine ⟨dev, ?_, hdev⟩
  rw [List.foldlM_append, scan_eq (.inl hnone)]
  show (scanStep none (found none pre, heldAfter pre h) endpoint).bind _ = _
  rw [hstep]
  rfl

end Scan

/-! ## The probe -/

section Probe

variable {o : Outcome} {endpoints : List UsbEndpointDescriptor} {h : Held}

/-- Everything that the probe needs is there. -/
structure Ready (o : Outcome) (endpoints : List UsbEndpointDescriptor) : Prop where
  dev : o.dev = true
  bulkIn : (endpoints.find? isBulkIn).isSome = true
  buffer : o.buffer.isSome = true
  bulkOut : (endpoints.find? isBulkOutNonzero).isSome = true
  register : o.register = 0

theorem skelDelete_empty {dev : UsbSkel} (hbuf : dev.bulkInBuffer = none) :
    skelDelete dev h.kmalloc.usbGetDev = h := by
  simp [skelDelete, hbuf, Held.kmalloc, Held.usbGetDev, Held.kfree, Held.usbPutDev]

/-- `skel_delete` undoes what the probe has taken up to here. -/
theorem skelDelete_found (halloc : endpoints.find? isBulkIn = none ∨ o.buffer.isSome = true) :
    skelDelete (found o.buffer endpoints) (heldAfter endpoints h.kmalloc.usbGetDev) = h := by
  cases hf : endpoints.find? isBulkIn with
  | none =>
      rw [heldAfter, hf]
      exact skelDelete_empty (by simp [found, hf])
  | some endpoint =>
      have hsome : o.buffer.isSome = true := by
        rcases halloc with hnone | hsome
        · rw [hf] at hnone
          cases hnone
        · exact hsome
      rcases Option.isSome_iff_exists.mp hsome with ⟨junk, hjunk⟩
      simp [skelDelete, found, heldAfter, hf, hjunk, Held.kmalloc, Held.usbGetDev, Held.kfree,
        Held.usbPutDev]

variable (o endpoints h) in
/-- What the probe comes to, by what goes wrong. -/
theorem skelProbe_cases :
    (Ready o endpoints ∧ skelProbe o endpoints h =
      (0, some (found o.buffer endpoints), heldAfter endpoints h.kmalloc.usbGetDev)) ∨
    (¬ Ready o endpoints ∧ ∃ ret, ret ≠ 0 ∧ (ret = -enomem ∨ ret = o.register) ∧
      skelProbe o endpoints h = (ret, none, h)) := by
  by_cases hdev : o.dev = true
  · by_cases halloc : endpoints.find? isBulkIn = none ∨ o.buffer.isSome = true
    · have hscan := scan_eq (h := h.kmalloc.usbGetDev) halloc
      have hundo := skelDelete_found (h := h) halloc
      by_cases hboth : (found o.buffer endpoints).bulkInEndpointAddr = 0 ∨
          (found o.buffer endpoints).bulkOutEndpointAddr = 0
      · -- one of the endpoints is missing
        refine .inr ⟨?_, -enomem, by decide, .inl rfl, ?_⟩
        · intro hready
          rw [found_in_eq_zero, found_out_eq_zero] at hboth
          rcases hboth with hnone | hnone
          · simpa [hnone] using hready.bulkIn
          · simpa [hnone] using hready.bulkOut
        · simp [skelProbe, hdev, hscan, hboth, hundo]
      · have hin := (found_in_eq_zero o.buffer endpoints).not.mp (fun hz => hboth (.inl hz))
        have hout := (found_out_eq_zero o.buffer endpoints).not.mp (fun hz => hboth (.inr hz))
        have hbuf : o.buffer.isSome = true := halloc.resolve_left hin
        by_cases hreg : o.register = 0
        · refine .inl ⟨⟨hdev, Option.isSome_iff_ne_none.mpr hin, hbuf,
            Option.isSome_iff_ne_none.mpr hout, hreg⟩, ?_⟩
          simp [skelProbe, hdev, hscan, hboth, hreg]
        · refine .inr ⟨fun hready => hreg hready.register, o.register, hreg, .inr rfl, ?_⟩
          simp [skelProbe, hdev, hscan, hboth, hreg, hundo]
    · -- the buffer cannot be had
      rw [not_or] at halloc
      rcases Option.ne_none_iff_exists'.mp halloc.1 with ⟨endpoint, hin⟩
      have hnone : o.buffer = none := by simpa using halloc.2
      rcases scan_nomem (h := h.kmalloc.usbGetDev) hin with ⟨dev, hscan, hbuf⟩
      refine .inr ⟨fun hready => halloc.2 hready.buffer, -enomem, by decide, .inl rfl, ?_⟩
      simp [skelProbe, hdev, hnone, hscan, skelDelete_empty hbuf]
  · refine .inr ⟨fun hready => hdev hready.dev, -enomem, by decide, .inl rfl, ?_⟩
    simp [skelProbe, hdev]

/-- `skel_probe` succeeds exactly when the memory can be had, both endpoints are there
and the minor is granted. It has then taken the first endpoint of each kind, passing over
a bulk-out endpoint of address zero, and holds two blocks and a reference; if it fails it
holds nothing, and the interface is given nothing. -/
theorem skelProbe_spec (o : Outcome) (endpoints : List UsbEndpointDescriptor) (h : Held) :
    ((skelProbe o endpoints h).1 = 0 ↔ Ready o endpoints) ∧
    ((skelProbe o endpoints h).1 = 0 → ∃ ein ∈ endpoints.find? isBulkIn,
      ∃ eout ∈ endpoints.find? isBulkOutNonzero, ∃ block : List UInt8,
        block.length = ein.wMaxPacketSize.toNat ∧
        (skelProbe o endpoints h).2 =
          (some ⟨some block, block.length, ein.bEndpointAddress, eout.bEndpointAddress⟩,
            ⟨h.kmallocs + 2, h.udevs + 1⟩)) ∧
    ((skelProbe o endpoints h).1 ≠ 0 → (skelProbe o endpoints h).2 = (none, h)) := by
  rcases skelProbe_cases o endpoints h with
    ⟨hready, heq⟩ | ⟨hnot, ret, hret, -, heq⟩
  · rw [heq]
    rcases Option.isSome_iff_exists.mp hready.bulkIn with ⟨ein, hin⟩
    rcases Option.isSome_iff_exists.mp hready.bulkOut with ⟨eout, hout⟩
    rcases Option.isSome_iff_exists.mp hready.buffer with ⟨junk, hjunk⟩
    refine ⟨by simp [hready], ?_, by simp⟩
    intro _
    refine ⟨ein, hin, eout, hout, (List.range ein.wMaxPacketSize.toNat).map junk, by simp, ?_⟩
    simp [found, heldAfter, hin, hout, hjunk, Held.kmalloc, Held.usbGetDev, add_assoc]
  · rw [heq]
    refine ⟨by simp [hret, hnot], ?_, by simp⟩
    intro hzero
    exact absurd hzero hret

end Probe

end Usb
