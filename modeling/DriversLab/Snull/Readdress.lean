import DriversLab.Lib.Checksum
import DriversLab.Snull.Transmit

/-!
# Snull.Readdress — what arrives at the twin

`snull_hw_tx` changes the networks in both addresses of the IP header, by a bit of the third
octet, and rebuilds the checksum of the header. `ip_fast_csum` belongs to the kernel and is
a parameter; that it computes the Internet checksum is needed for one result only.

* `readdress_eq_withCheck`: the frame that is left, in one expression;
* `delivered_valid`: the packet carries the frame with the two bits flipped and a header
  that verifies, and nothing else has changed;
* `twin_returns_frame`: sent back by the twin, the frame is what it was, exactly if its
  checksum was right;
* `header_reaches_iff`: to which addresses a frame of `snull_header` is taken in by the twin.
-/

namespace Snull

open Buffer Chunked Checksum

/-! ## The frame in one expression -/

/-- The third octets of both addresses. -/
def flips (buf : Frame) : Frame := (buf.modify 28 (· ^^^ 1)).modify 32 (· ^^^ 1)

/-- `ih->check`. -/
def withCheck (buf : Frame) (c : UInt8 × UInt8) : Frame := (buf.set 24 c.1).set 25 c.2

/-- The header, as long as its first byte says. -/
def header (buf : Frame) : List UInt8 := (buf.drop 14).take (4 * ihl (buf.getD 14 0))

section Frames

variable {buf buf' : Frame} {c e : UInt8 × UInt8}

theorem length_flips (buf : Frame) : (flips buf).length = buf.length := by
  simp [flips]

theorem length_withCheck (buf : Frame) (c : UInt8 × UInt8) :
    (withCheck buf c).length = buf.length := by
  simp [withCheck]

/-- A bit that is flipped twice. -/
theorem modify_flip_flip (l : List UInt8) (i : ℕ) :
    (l.modify i (· ^^^ 1)).modify i (· ^^^ 1) = l := by
  have hid : (fun x : UInt8 => x ^^^ 1) ∘ (fun x => x ^^^ 1) = id := by
    funext x
    rw [Function.comp_apply, UInt8.xor_assoc, UInt8.xor_self, UInt8.xor_zero, id]
  rw [List.modify_modify_eq, hid, List.modify_id]

theorem flips_flips (buf : Frame) : flips (flips buf) = buf := by
  unfold flips
  rw [List.modify_modify_ne _ _ (buf.modify 28 _) (show 32 ≠ 28 by decide), modify_flip_flip,
    modify_flip_flip]

theorem flips_withCheck (buf : Frame) (c : UInt8 × UInt8) :
    flips (withCheck buf c) = withCheck (flips buf) c := by
  apply List.ext_getElem?
  intro i
  simp only [flips, withCheck, List.getElem?_modify, List.getElem?_set, List.length_set,
    List.length_modify]
  by_cases h24 : 24 = i
  · subst h24
    by_cases hlt : 24 < buf.length <;> simp [hlt]
  · by_cases h25 : 25 = i
    · subst h25
      by_cases hlt : 25 < buf.length <;> simp [hlt]
    · simp [h24, h25]

theorem withCheck_withCheck (buf : Frame) (c e : UInt8 × UInt8) :
    withCheck (withCheck buf c) e = withCheck buf e := by
  apply List.ext_getElem?
  intro i
  simp only [withCheck, List.getElem?_set, List.length_set]
  by_cases h24 : 24 = i
  · simp [h24]
  · by_cases h25 : 25 = i
    · simp [h25]
    · simp [h24, h25]

theorem getD_frame (buf : Frame) (c : UInt8 × UInt8) :
    (withCheck (flips buf) c).getD 14 0 = buf.getD 14 0 := by
  simp [withCheck, flips, List.getD_eq_getElem?_getD]

theorem overwrite_one {i : ℕ} (h : i < buf.length) (f : UInt8 → UInt8) :
    overwrite buf i [f buf[i]] = buf.modify i f := by
  apply List.ext_getElem?
  intro j
  rw [overwrite_getElem? h, List.getElem?_modify]
  by_cases hij : i = j
  · subst hij
    rw [patch_of_mem (le_refl i) (by simp)]
    simp [h]
  · rw [patch_of_notMem (by simp only [List.length_singleton]; omega)]
    simp [hij]

theorem overwrite_check (h : 26 ≤ buf.length) (c : UInt8 × UInt8) :
    overwrite buf 24 [c.1, c.2] = withCheck buf c := by
  apply List.ext_getElem?
  intro j
  rw [overwrite_getElem? h]
  simp only [withCheck, List.getElem?_set, List.length_set]
  by_cases h24 : 24 = j
  · subst h24
    have hlt : 24 < buf.length := by omega
    simp [patch, hlt]
  · by_cases h25 : 25 = j
    · subst h25
      have hlt : 25 < buf.length := by omega
      simp [patch, hlt]
    · rw [patch_of_notMem (by simp only [List.length_cons, List.length_nil]; omega)]
      simp [h24, h25]

theorem flipThird_modify {addr : ℕ} (h : addr + 3 ≤ buf.length) :
    flipThird buf addr = .ok (buf.modify (addr + 2) (· ^^^ 1)) := by
  have hlt : addr + 2 < buf.length := by omega
  have hroom : addr + 2 + [buf[addr + 2] ^^^ 1].length ≤ buf.length := h
  unfold flipThird
  rw [load_ok hlt, ok_bind, write_ok hroom]
  exact congrArg _ (overwrite_one hlt (· ^^^ 1))

/-- The whole function: two bits, and a checksum of what is there then. -/
theorem readdress_eq_withCheck {ipFastCsum : List UInt8 → UInt8 × UInt8} (h : 34 ≤ buf.length) :
    readdress ipFastCsum buf = .ok buf' ↔ HeaderFits buf ∧
      buf' = withCheck (flips buf) (ipFastCsum (header (withCheck (flips buf) (0, 0)))) := by
  have hlen := length_flips buf
  have hcheck := length_withCheck (flips buf) (0, 0)
  have hfirst := getD_frame buf (0, 0)
  have hlt : 14 < (withCheck (flips buf) (0, 0)).length := by omega
  have hload : load (withCheck (flips buf) (0, 0)) 14 = .ok (buf.getD 14 0) := by
    rw [load_ok hlt, ← hfirst, List.getD_eq_getElem?_getD, List.getElem?_eq_getElem hlt,
      Option.getD_some]
  have hflip₁ : flipThird buf (ETH_HLEN + 12) = .ok (buf.modify 28 (· ^^^ 1)) :=
    flipThird_modify (by simp only [ETH_HLEN]; omega)
  have hflip₂ : flipThird (buf.modify 28 (· ^^^ 1)) (ETH_HLEN + 16) = .ok (flips buf) :=
    flipThird_modify (by simp only [ETH_HLEN, List.length_modify]; omega)
  have hzero : write (flips buf) (ETH_HLEN + 10) [0, 0] = .ok (withCheck (flips buf) (0, 0)) := by
    rw [write_ok (by simp only [ETH_HLEN, List.length_cons, List.length_nil]; omega)]
    exact congrArg _ (overwrite_check (by omega) (0, 0))
  have hput : ∀ e : UInt8 × UInt8,
      write (withCheck (flips buf) (0, 0)) (ETH_HLEN + 10) [e.1, e.2] =
        .ok (withCheck (flips buf) e) := by
    intro e
    rw [write_ok (by simp only [ETH_HLEN, List.length_cons, List.length_nil]; omega)]
    refine congrArg _ ((overwrite_check (by omega) e).trans ?_)
    exact withCheck_withCheck _ _ _
  simp only [readdress, hflip₁, hflip₂, hzero, ok_bind, hput]
  have hbyte : load (withCheck (flips buf) (0, 0)) ETH_HLEN = .ok (buf.getD 14 0) := hload
  rw [hbyte, ok_bind]
  constructor
  · intro hr
    rcases bind_eq_ok.mp hr with ⟨hdr, hread, hr⟩
    have hroom := read_isOk_iff.mp ⟨hdr, hread⟩
    rw [read_ok hroom] at hread
    cases hread
    cases hr
    rw [hcheck, hlen] at hroom
    refine ⟨hroom, ?_⟩
    rw [header, hfirst]
    rfl
  · rintro ⟨hfits, rfl⟩
    have hroom : ETH_HLEN + 4 * ihl (buf.getD 14 0) ≤ (withCheck (flips buf) (0, 0)).length := by
      rw [hcheck, hlen]
      exact hfits
    rw [read_ok hroom, ok_bind, header, hfirst]
    rfl

/-- In the header the checksum is the sixth word. -/
theorem header_withCheck (h : 34 ≤ buf.length) (c : UInt8 × UInt8) :
    header (withCheck (flips buf) c) = setWord (header (flips buf)) 5 c := by
  have hfirst : (flips buf).getD 14 0 = buf.getD 14 0 := by
    simp [flips, List.getD_eq_getElem?_getD]
  unfold header setWord
  rw [getD_frame, hfirst]
  apply List.ext_getElem?
  intro j
  simp only [withCheck, List.getElem?_set, List.getElem?_take, List.getElem?_drop, List.length_set,
    List.length_take, List.length_drop, length_flips]
  by_cases h10 : 2 * 5 = j
  · subst h10
    have hlt : 24 < buf.length := by omega
    have hin' : 10 < buf.length - 14 := by omega
    simp [hlt, hin']
  · by_cases h11 : 2 * 5 + 1 = j
    · subst h11
      have hlt : 25 < buf.length := by omega
      have hin' : 11 < buf.length - 14 := by omega
      simp [hlt, hin']
    · have h24 : 24 ≠ 14 + j := by omega
      have h25 : 25 ≠ 14 + j := by omega
      simp [h10, h11, h24, h25]

end Frames

/-! ## Through the packet -/

section Delivery

variable {ipFastCsum : List UInt8 → UInt8 × UInt8} {frame : Frame} {pkt pkt' : PacketBody}
  {buf' : Frame}

theorem padded_size (frame : Frame) : 34 ≤ (padded frame).length := by
  rw [length_padded]
  exact le_trans (by decide) (le_max_right _ _)

/-- What the packet holds. -/
theorem delivered_eq (hlen : frame.length < 2 ^ 31)
    (hr : snullTx ipFastCsum frame pkt = .ok (buf', some pkt')) :
    HeaderFits (padded frame) ∧ pkt'.frame =
      withCheck (flips (padded frame))
        (ipFastCsum (header (withCheck (flips (padded frame)) (0, 0)))) := by
  rcases delivered_frame hlen hr with ⟨hbuf, hpkt, -⟩
  rw [hpkt]
  exact (readdress_eq_withCheck (padded_size frame)).mp hbuf

/-- What `ip_fast_csum` computes of a header of five words or more. -/
def IsInet (ipFastCsum : List UInt8 → UInt8 × UInt8) : Prop :=
  ∀ hdr : List UInt8, 20 ≤ hdr.length → ipFastCsum hdr = inet hdr

/-- The checksum that the header should carry. -/
def RightChecksum (ipFastCsum : List UInt8 → UInt8 × UInt8) (buf : Frame) : Prop :=
  (buf.getD 24 0, buf.getD 25 0) = ipFastCsum (header (withCheck buf (0, 0)))

instance (ipFastCsum : List UInt8 → UInt8 × UInt8) (buf : Frame) :
    Decidable (RightChecksum ipFastCsum buf) := inferInstanceAs (Decidable (_ = _))

theorem withCheck_eq_self_iff {buf : Frame} (h : 26 ≤ buf.length) (c : UInt8 × UInt8) :
    withCheck buf c = buf ↔ (buf.getD 24 0, buf.getD 25 0) = c := by
  have h24 : 24 < buf.length := by omega
  have h25 : 25 < buf.length := by omega
  constructor
  · intro heq
    have hhi : (withCheck buf c).getD 24 0 = c.1 := by
      simp [withCheck, List.getD_eq_getElem?_getD, h24]
    have hlo : (withCheck buf c).getD 25 0 = c.2 := by
      simp [withCheck, List.getD_eq_getElem?_getD, h25]
    rw [heq] at hhi hlo
    rw [hhi, hlo]
  · rintro rfl
    simp [withCheck, List.getD_eq_getElem?_getD, h24, h25]

/-- A transmission that comes to its end has filled a packet. -/
theorem snullTx_some {r : Frame × Option PacketBody} (hlen : frame.length < 2 ^ 31)
    (hr : snullTx ipFastCsum frame pkt = .ok r) : ∃ buf' pkt', r = (buf', some pkt') := by
  have hmax : (padded frame).length < 2 ^ 31 := by
    rw [length_padded]
    exact max_lt hlen (by decide)
  have hsize := padded_size frame
  have hlong : ¬ ((padded frame).length : ℤ) < 14 + 20 := by omega
  rw [snullTx_eq hlen] at hr
  simp only [snullHwTx, toULong_length hmax, if_neg hlong, Int.toNat_natCast] at hr
  rcases bind_eq_ok.mp hr with ⟨buf₁, -, hr⟩
  rcases bind_eq_ok.mp hr with ⟨src, -, hr⟩
  rcases bind_eq_ok.mp hr with ⟨pkt₁, -, hr⟩
  cases hr
  exact ⟨_, _, rfl⟩

/-- What has arrived is long enough, and its header as long as it was. -/
theorem padded_delivered (hlen : frame.length < 2 ^ 31)
    (hr : snullTx ipFastCsum frame pkt = .ok (buf', some pkt')) :
    pkt'.frame.length = (padded frame).length ∧ padded pkt'.frame = pkt'.frame ∧
      HeaderFits pkt'.frame := by
  rcases delivered_eq hlen hr with ⟨hfits, heq⟩
  have hlength : pkt'.frame.length = (padded frame).length := by
    rw [heq, length_withCheck, length_flips]
  refine ⟨hlength, ?_, ?_⟩
  · have hzero : ETH_ZLEN - pkt'.frame.length = 0 := by
      rw [hlength, length_padded]
      omega
    simp [padded, hzero]
  · unfold HeaderFits at hfits ⊢
    rw [hlength, heq]
    have hfirst := getD_frame (padded frame)
      (ipFastCsum (header (withCheck (flips (padded frame)) (0, 0))))
    exact hfirst ▸ hfits

/-- The twin can send the frame back that has come to it: the network changes twice, and the
frame is the one that was sent, padded, exactly if its checksum was right. -/
theorem twin_returns_frame (hlen : frame.length < 2 ^ 31) (pkt₂ : PacketBody)
    (hr : snullTx ipFastCsum frame pkt = .ok (buf', some pkt')) :
    ∃ buf₂ pkt₂', snullTx ipFastCsum pkt'.frame pkt₂ = .ok (buf₂, some pkt₂') ∧
      (pkt₂'.frame = padded frame ↔ RightChecksum ipFastCsum (padded frame)) := by
  have hsize := padded_size frame
  rcases padded_delivered hlen hr with ⟨hlength, hpad, hfits⟩
  have hlen' : pkt'.frame.length < 2 ^ 31 := by
    rw [hlength, length_padded]
    exact max_lt hlen (by decide)
  have hdata : pkt'.frame.length ≤ ETH_DATA_LEN := by
    rw [hlength, length_padded]
    exact max_le ((tx_isOk_iff hlen).mp ⟨_, hr⟩).2 (by decide)
  have hsent : ∃ r, snullTx ipFastCsum pkt'.frame pkt₂ = .ok r := by
    rw [tx_isOk_iff hlen', hpad]
    exact ⟨hfits, hdata⟩
  rcases hsent with ⟨r, hback⟩
  rcases snullTx_some hlen' hback with ⟨buf₂, pkt₂', rfl⟩
  refine ⟨buf₂, pkt₂', hback, ?_⟩
  rcases delivered_eq hlen hr with ⟨-, heq⟩
  rcases delivered_eq hlen' hback with ⟨-, heq₂⟩
  have hflip : flips pkt'.frame =
      withCheck (padded frame)
        (ipFastCsum (header (withCheck (flips (padded frame)) (0, 0)))) := by
    rw [heq, flips_withCheck, flips_flips]
  rw [hpad, hflip, withCheck_withCheck, withCheck_withCheck] at heq₂
  rw [heq₂, withCheck_eq_self_iff (by omega), RightChecksum]

/-- An empty datagram from 192.168.0.1 to 192.168.0.2. -/
def greeting : Frame :=
  List.replicate 12 0 ++ [0x08, 0x00] ++
    [0x45, 0x00, 0x00, 0x14, 0x00, 0x00, 0x00, 0x00, 0x40, 0x11, 0xf9, 0x85,
      192, 168, 0, 1, 192, 168, 0, 2]

theorem greeting_sent : ∃ buf' pkt', snullTx inet greeting freshPacket = .ok (buf', some pkt') := by
  have hsent : ∃ r, snullTx inet greeting freshPacket = .ok r :=
    (snullTx_inside_iff [] (by decide)).mpr (by decide)
  rcases hsent with ⟨r, hr⟩
  rcases snullTx_some (by decide) hr with ⟨buf', pkt', rfl⟩
  exact ⟨buf', pkt', hr⟩

theorem twin_returns_greeting : ∃ buf' pkt' buf₂ pkt₂',
    snullTx inet greeting freshPacket = .ok (buf', some pkt') ∧
      snullTx inet pkt'.frame freshPacket = .ok (buf₂, some pkt₂') ∧
      pkt₂'.frame = padded greeting := by
  rcases greeting_sent with ⟨buf', pkt', hr⟩
  rcases twin_returns_frame (by decide) freshPacket hr with ⟨buf₂, pkt₂', hback, hiff⟩
  exact ⟨buf', pkt', buf₂, pkt₂', hr, hback, hiff.mpr (by decide +kernel)⟩

end Delivery

/-! ## The Ethernet header -/

/-- The hardware addresses that `snull_open` gives: `"\0SNUL0"`, the last byte one more for
the second device. -/
def devAddr : NetDev → List UInt8
  | .sn0 => [0x00, 0x53, 0x4e, 0x55, 0x4c, 0x30]
  | .sn1 => [0x00, 0x53, 0x4e, 0x55, 0x4c, 0x30].modify 5 (· + 1)

/-- `h_dest[ETH_ALEN-1] ^= 0x01`. -/
def xorLast (addr : List UInt8) : List UInt8 := addr.modify 5 (· ^^^ 1)

/-- `snull_header`, with the payload behind the header. -/
def snullHeader (d : NetDev) (type : UInt16) (daddr saddr : Option (List UInt8))
    (payload : List UInt8) : Frame :=
  xorLast (daddr.getD (devAddr d)) ++ saddr.getD (devAddr d) ++
    [UInt8.ofNat (type.toNat / 256), UInt8.ofNat type.toNat] ++ payload

/-- `snull_rebuild_header`. -/
def snullRebuildHeader (d : NetDev) (frame : Frame) : Frame :=
  xorLast (devAddr d) ++ devAddr d ++ frame.drop 12

/-- The destination in an Ethernet header. -/
def hDest (frame : Frame) : List UInt8 := frame.take 6

theorem devAddr_peer (d : NetDev) : devAddr d.peer = xorLast (devAddr d) := by
  cases d <;> decide

theorem devAddr_length (d : NetDev) : (devAddr d).length = 6 := by
  cases d <;> rfl

theorem xorLast_xorLast (addr : List UInt8) : xorLast (xorLast addr) = addr :=
  modify_flip_flip addr 5

theorem hDest_snullHeader (d : NetDev) (type : UInt16) {daddr : Option (List UInt8)}
    (hdaddr : ∀ a ∈ daddr, a.length = 6) (saddr : Option (List UInt8)) (payload : List UInt8) :
    hDest (snullHeader d type daddr saddr payload) = xorLast (daddr.getD (devAddr d)) := by
  have hlen : (daddr.getD (devAddr d)).length = 6 := by
    cases daddr with
    | none => exact devAddr_length d
    | some a => exact hdaddr a rfl
  have hlast : (xorLast (daddr.getD (devAddr d))).length = 6 := by
    rw [xorLast, List.length_modify, hlen]
  unfold hDest snullHeader
  rw [List.append_assoc, List.append_assoc, List.take_left' hlast]

theorem hDest_rebuild (d : NetDev) (frame : Frame) :
    hDest (snullRebuildHeader d frame) = devAddr d.peer := by
  have hlast : (xorLast (devAddr d)).length = 6 := by
    rw [xorLast, List.length_modify, devAddr_length]
  unfold hDest snullRebuildHeader
  rw [devAddr_peer, List.append_assoc, List.take_left' hlast]

/-- The transmission leaves the Ethernet header alone. -/
theorem hDest_delivered {ipFastCsum : List UInt8 → UInt8 × UInt8} {frame buf' : Frame}
    {pkt pkt' : PacketBody} (hlen : frame.length < 2 ^ 31) (hsix : 6 ≤ frame.length)
    (hr : snullTx ipFastCsum frame pkt = .ok (buf', some pkt')) :
    hDest pkt'.frame = hDest frame := by
  rcases delivered_eq hlen hr with ⟨-, heq⟩
  rw [heq]
  apply List.ext_getElem?
  intro i
  simp only [hDest, List.getElem?_take]
  split
  · rename_i hi
    have h24 : 24 ≠ i := by omega
    have h25 : 25 ≠ i := by omega
    have h28 : 28 ≠ i := by omega
    have h32 : 32 ≠ i := by omega
    simp only [withCheck, flips, List.getElem?_set, List.getElem?_modify, h24, h25, h28, h32,
      if_false]
    rw [padded, List.getElem?_append_left (by omega)]
    simp
  · rfl

/-- A frame whose header was rebuilt is addressed to the twin when it arrives there. -/
theorem rebuilt_reaches {ipFastCsum : List UInt8 → UInt8 × UInt8} {d : NetDev}
    {frame buf' : Frame} {pkt pkt' : PacketBody}
    (hlen : (snullRebuildHeader d frame).length < 2 ^ 31)
    (hr : snullTx ipFastCsum (snullRebuildHeader d frame) pkt = .ok (buf', some pkt')) :
    hDest pkt'.frame = devAddr d.peer := by
  have hsix : 6 ≤ (snullRebuildHeader d frame).length := by
    have htake := congrArg List.length (hDest_rebuild d frame)
    rw [devAddr_length, hDest, List.length_take] at htake
    omega
  rw [hDest_delivered hlen hsix hr, hDest_rebuild]

/-- A frame with a header of `snull_header` is addressed to the twin when it arrives there,
exactly if the stack gave no destination or the address of the sender itself: the address
of the twin is turned into that of the sender. -/
theorem header_reaches_iff {ipFastCsum : List UInt8 → UInt8 × UInt8} {d : NetDev}
    {type : UInt16} {daddr saddr : Option (List UInt8)} {payload : List UInt8} {buf' : Frame}
    {pkt pkt' : PacketBody}
    (hdaddr : ∀ a ∈ daddr, a.length = 6)
    (hlen : (snullHeader d type daddr saddr payload).length < 2 ^ 31)
    (hr : snullTx ipFastCsum (snullHeader d type daddr saddr payload) pkt = .ok (buf', some pkt')) :
    hDest pkt'.frame = devAddr d.peer ↔ daddr = none ∨ daddr = some (devAddr d) := by
  have hsix : 6 ≤ (snullHeader d type daddr saddr payload).length := by
    have htake := congrArg List.length (hDest_snullHeader d type hdaddr saddr payload)
    have hlast : (xorLast (daddr.getD (devAddr d))).length = 6 := by
      rw [xorLast, List.length_modify]
      cases daddr with
      | none => exact devAddr_length d
      | some a => exact hdaddr a rfl
    rw [hlast, hDest, List.length_take] at htake
    omega
  rw [hDest_delivered hlen hsix hr, hDest_snullHeader d type hdaddr, devAddr_peer]
  constructor
  · intro heq
    have hown : daddr.getD (devAddr d) = devAddr d := by
      rw [← xorLast_xorLast (daddr.getD (devAddr d)), heq, xorLast_xorLast]
    cases daddr with
    | none => exact .inl rfl
    | some a => exact .inr (congrArg some hown)
  · rintro (rfl | rfl) <;> rfl

theorem header_reaches_own : ∃ buf' pkt',
    snullTx inet (snullHeader .sn1 0x0800 none none (greeting.drop 14)) freshPacket =
        .ok (buf', some pkt') ∧ hDest pkt'.frame = devAddr .sn0 := by
  have hsent : ∃ r,
      snullTx inet (snullHeader .sn1 0x0800 none none (greeting.drop 14)) freshPacket = .ok r :=
    (snullTx_inside_iff [] (by decide)).mpr (by decide)
  rcases hsent with ⟨r, hr⟩
  rcases snullTx_some (by decide) hr with ⟨buf', pkt', rfl⟩
  exact ⟨buf', pkt', hr, (header_reaches_iff (by simp) (by decide) hr).mpr (.inl rfl)⟩

end Snull
