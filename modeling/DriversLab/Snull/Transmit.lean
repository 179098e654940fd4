import DriversLab.Snull.Driver
import DriversLab.Lib.Buffer
import DriversLab.Lib.Checksum

/-!
# Snull.Transmit — the buffers of a transmission

`snull_tx` pads a short frame in a buffer of its own, `snull_hw_tx` readdresses the frame in
place and copies it into a packet. Three lengths play together: the MTU, which is that of
the payload; the frame, with the Ethernet header in front of it; and the length of the IP
header, which the frame itself gives. A packet has room for a payload.

* `mtuAfter`: what `snull_change_mtu` lets the MTU become;
* `snullTx`, `snullHwTx`: with every access to the frame and to the packet checked;
* `delivered_frame`: the packet that goes out holds the frame that has been readdressed;
* `snullTx_inside_iff`: when all accesses lie inside.
-/

namespace Snull

open CInt Buffer Chunked

def ETH_HLEN : ℕ := 14

def ETH_ZLEN : ℕ := 60

def ETH_DATA_LEN : ℕ := 1500

/-! ## The MTU -/

/-- `snull_change_mtu`: what it returns, and `dev->mtu` then. -/
def snullChangeMtu (mtu newMtu : ℤ) : ℤ × ℤ :=
  if newMtu < 68 ∨ newMtu > 1500 then (-22, mtu) else (0, newMtu)

/-- `dev->mtu` after some calls, from the value that `ether_setup` has given it. -/
def mtuAfter (calls : List ℤ) : ℤ :=
  calls.foldl (fun mtu newMtu => (snullChangeMtu mtu newMtu).2) 1500

theorem changeMtu_range {mtu : ℤ} (h : 68 ≤ mtu ∧ mtu ≤ 1500) (newMtu : ℤ) :
    68 ≤ (snullChangeMtu mtu newMtu).2 ∧ (snullChangeMtu mtu newMtu).2 ≤ 1500 := by
  unfold snullChangeMtu
  split
  · exact h
  · dsimp only
    omega

theorem mtu_range (calls : List ℤ) : 68 ≤ mtuAfter calls ∧ mtuAfter calls ≤ 1500 := by
  unfold mtuAfter
  have hstep : ∀ (l : List ℤ) (mtu : ℤ), 68 ≤ mtu ∧ mtu ≤ 1500 →
      68 ≤ l.foldl (fun mtu newMtu => (snullChangeMtu mtu newMtu).2) mtu ∧
        l.foldl (fun mtu newMtu => (snullChangeMtu mtu newMtu).2) mtu ≤ 1500 := by
    intro l
    induction l with
    | nil => exact fun _ h => h
    | cons newMtu l ih => exact fun mtu h => ih _ (changeMtu_range h newMtu)
  exact hstep calls 1500 (by decide)

/-! ## The transmission -/

/-- What a `struct snull_packet` holds. -/
structure PacketBody where
  datalen : ℤ
  data : List UInt8
  size : data.length = ETH_DATA_LEN

/-- The frame that a receiver finds in it. -/
def PacketBody.frame (pkt : PacketBody) : Frame := pkt.data.take pkt.datalen.toNat

/-- `memcpy` to the start of `tx_buffer->data`, after the store of the length. -/
def PacketBody.fill (pkt : PacketBody) (datalen : ℤ) (src : List UInt8) :
    Except Overrun PacketBody :=
  if h : 0 + src.length ≤ pkt.data.length then
    .ok ⟨datalen, overwrite pkt.data 0 src, (overwrite_length h).trans pkt.size⟩
  else .error ⟨0, src.length, pkt.data.length⟩

/-- The bit field `ih->ihl` of the first byte of the header. -/
def ihl (byte : UInt8) : ℕ := (byte &&& 0x0f).toNat

section Code

-- `ip_fast_csum`: the two bytes of the checksum of a header, as they lie in memory
variable (ipFastCsum : List UInt8 → UInt8 × UInt8)

/-- `((u8 *)addr)[2] ^= 1`. -/
def flipThird (buf : Frame) (addr : ℕ) : Except Overrun Frame := do
  let octet ← load buf (addr + 2)
  write buf (addr + 2) [octet ^^^ 1]

/-- The frame with other addresses and a new checksum. -/
def readdress (buf : Frame) : Except Overrun Frame := do
  let ih := ETH_HLEN
  let buf ← flipThird buf (ih + 12)
  let buf ← flipThird buf (ih + 16)
  let buf ← write buf (ih + 10) [0, 0]
  let first ← load buf ih
  let header ← read buf ih (4 * ihl first)
  let check := ipFastCsum header
  write buf (ih + 10) [check.1, check.2]

/-- `snull_hw_tx`, up to `snull_enqueue_buf`, with the packet that `snull_get_tx_buffer` has
found: the frame as it is left, and the packet. There is none if the frame is too short. -/
def snullHwTx (buf : Frame) (len : ℤ) (txBuffer : PacketBody) :
    Except Overrun (Frame × Option PacketBody) :=
  if toULong len < 14 + 20 then .ok (buf, none)
  else do
    let buf ← readdress ipFastCsum buf
    let src ← read buf 0 (toULong len).toNat
    let pkt ← txBuffer.fill len src
    return (buf, some pkt)

/-- `snull_tx`. -/
def snullTx (frame : Frame) (txBuffer : PacketBody) : Except Overrun (Frame × Option PacketBody) :=
  let len := toInt frame.length
  if len < ETH_ZLEN then do
    let src ← read frame 0 frame.length
    let shortpkt ← write (List.replicate ETH_ZLEN 0) 0 src
    snullHwTx ipFastCsum shortpkt ETH_ZLEN txBuffer
  else snullHwTx ipFastCsum frame len txBuffer

/-! ## The accesses -/

variable {ipFastCsum} {buf buf' frame : Frame} {addr : ℕ} {len : ℤ} {pkt : PacketBody}
  {r : Frame × Option PacketBody}

theorem fill_isOk_iff {src : List UInt8} :
    (∃ pkt', pkt.fill len src = .ok pkt') ↔ src.length ≤ ETH_DATA_LEN := by
  have hroom : 0 + src.length ≤ pkt.data.length ↔ src.length ≤ ETH_DATA_LEN := by
    rw [Nat.zero_add, pkt.size]
  rw [← hroom]
  unfold PacketBody.fill
  split
  · rename_i h
    exact ⟨fun _ => h, fun _ => ⟨_, rfl⟩⟩
  · rename_i h
    refine ⟨?_, fun hle => absurd hle h⟩
    rintro ⟨pkt', hpkt'⟩
    cases hpkt'

/-- The length of a frame and the first byte of its header are as they were. -/
def SameHeader (buf buf' : Frame) : Prop :=
  buf'.length = buf.length ∧ load buf' ETH_HLEN = load buf ETH_HLEN

theorem sameHeader_trans {buf'' : Frame} (h : SameHeader buf buf') (h' : SameHeader buf' buf'') :
    SameHeader buf buf'' :=
  ⟨h'.1.trans h.1, h'.2.trans h.2⟩

theorem sameHeader_overwrite {off : ℕ} {src : List UInt8} (hoff : ETH_HLEN < off)
    (hroom : off + src.length ≤ buf.length) : SameHeader buf (overwrite buf off src) :=
  ⟨overwrite_length hroom, load_overwrite_of_lt hoff hroom⟩

theorem flipThird_ok (haddr : ETH_HLEN ≤ addr) (h : addr + 3 ≤ buf.length) :
    ∃ buf', flipThird buf addr = .ok buf' ∧ SameHeader buf buf' := by
  have hroom : addr + 2 + [buf[addr + 2] ^^^ 1].length ≤ buf.length := h
  refine ⟨overwrite buf (addr + 2) [buf[addr + 2] ^^^ 1], ?_, ?_⟩
  · unfold flipThird
    rw [load_ok (by omega), ok_bind, write_ok hroom]
  · exact sameHeader_overwrite (by omega) hroom

/-- The accesses to the fixed part of the header lie inside, and leave the length of the
header alone. -/
theorem readdress_eq (h : 34 ≤ buf.length) : ∃ buf₀, SameHeader buf buf₀ ∧
    readdress ipFastCsum buf = (do
      let first ← load buf₀ ETH_HLEN
      let header ← read buf₀ ETH_HLEN (4 * ihl first)
      write buf₀ (ETH_HLEN + 10) [(ipFastCsum header).1, (ipFastCsum header).2]) := by
  have hsize : ETH_HLEN + 20 ≤ buf.length := h
  obtain ⟨buf₁, h₁, hsame₁⟩ : ∃ buf₁, flipThird buf (ETH_HLEN + 12) = .ok buf₁ ∧
    SameHeader buf buf₁ := flipThird_ok (by omega) (by omega)
  have hlen₁ := hsame₁.1
  obtain ⟨buf₂, h₂, hsame₂⟩ : ∃ buf₂, flipThird buf₁ (ETH_HLEN + 16) = .ok buf₂ ∧
    SameHeader buf₁ buf₂ := flipThird_ok (by omega) (by omega)
  have hlen₂ := hsame₂.1
  have hroom : ETH_HLEN + 10 + [(0 : UInt8), 0].length ≤ buf₂.length := by
    rw [hlen₂, hlen₁]
    exact le_trans (by decide) hsize
  refine ⟨overwrite buf₂ (ETH_HLEN + 10) [0, 0], ?_, ?_⟩
  · refine sameHeader_trans (sameHeader_trans hsame₁ hsame₂) (sameHeader_overwrite ?_ hroom)
    omega
  · simp only [readdress, h₁, h₂, ok_bind, write_ok hroom]

/-- The words that the checksum covers lie in the frame. -/
def HeaderFits (buf : Frame) : Prop := ETH_HLEN + 4 * ihl (buf.getD ETH_HLEN 0) ≤ buf.length

theorem readdress_isOk_iff (h : 34 ≤ buf.length) :
    (∃ buf', readdress ipFastCsum buf = .ok buf') ↔ HeaderFits buf := by
  obtain ⟨buf₀, ⟨hlen, hload⟩, heq⟩ := @readdress_eq ipFastCsum buf h
  have hfirst : ETH_HLEN < buf.length := lt_of_lt_of_le (by decide) h
  have hbyte : buf.getD ETH_HLEN 0 = buf[ETH_HLEN] := by
    simp [List.getD_eq_getElem?_getD, List.getElem?_eq_getElem hfirst]
  have hroom : ∀ c : UInt8 × UInt8, ETH_HLEN + 10 + [c.1, c.2].length ≤ buf₀.length := by
    intro c
    rw [hlen]
    exact le_trans (by decide : ETH_HLEN + 10 + 2 ≤ 34) h
  -- only the words that the checksum covers can lie outside
  rw [heq, hload, load_ok hfirst, ok_bind, HeaderFits, hbyte, ← hlen, ← read_isOk_iff]
  constructor
  · rintro ⟨buf', hbuf'⟩
    obtain ⟨header, hread, _⟩ := bind_eq_ok.mp hbuf'
    exact ⟨header, hread⟩
  · rintro ⟨header, hread⟩
    exact ⟨_, by rw [hread, ok_bind, write_ok (hroom _)]⟩

theorem readdress_length (h : 34 ≤ buf.length) (hr : readdress ipFastCsum buf = .ok buf') :
    buf'.length = buf.length := by
  obtain ⟨buf₀, hsame, heq⟩ := @readdress_eq ipFastCsum buf h
  rw [heq] at hr
  obtain ⟨first, _, hr⟩ := bind_eq_ok.mp hr
  obtain ⟨header, _, hr⟩ := bind_eq_ok.mp hr
  obtain ⟨hroom, rfl⟩ := write_eq_ok.mp hr
  exact (overwrite_length hroom).trans hsame.1

/-- The `int` that the length of a frame of the stack fits. -/
theorem toULong_length (h : buf.length < 2 ^ 31) : toULong buf.length = buf.length := by
  unfold toULong
  omega

theorem hwTx_isOk_iff (hmin : ETH_ZLEN ≤ buf.length) (hmax : buf.length < 2 ^ 31) :
    (∃ r, snullHwTx ipFastCsum buf buf.length pkt = .ok r) ↔
      HeaderFits buf ∧ buf.length ≤ ETH_DATA_LEN := by
  have hsize : 34 ≤ buf.length := le_trans (by decide) hmin
  have hlong : ¬ (buf.length : ℤ) < 14 + 20 := by omega
  simp only [snullHwTx, toULong_length hmax, if_neg hlong, Int.toNat_natCast]
  rw [← @readdress_isOk_iff ipFastCsum buf hsize]
  constructor
  · rintro ⟨r, hr⟩
    obtain ⟨buf', hbuf', hr⟩ := bind_eq_ok.mp hr
    obtain ⟨src, hsrc, hr⟩ := bind_eq_ok.mp hr
    obtain ⟨pkt', hpkt', _⟩ := bind_eq_ok.mp hr
    refine ⟨⟨buf', hbuf'⟩, ?_⟩
    have hlen := readdress_length hsize hbuf'
    rw [read_ok (by omega)] at hsrc
    cases hsrc
    have hfits := fill_isOk_iff.mp ⟨pkt', hpkt'⟩
    simpa [hlen] using hfits
  · rintro ⟨⟨buf', hbuf'⟩, hle⟩
    have hlen := readdress_length hsize hbuf'
    have hread : read buf' 0 buf.length = .ok ((buf'.drop 0).take buf.length) :=
      read_ok (by omega)
    have hsrc : ((buf'.drop 0).take buf.length).length ≤ ETH_DATA_LEN := by simpa [hlen] using hle
    obtain ⟨pkt', hpkt'⟩ : ∃ pkt', pkt.fill buf.length ((buf'.drop 0).take buf.length) =
      .ok pkt' := fill_isOk_iff.mpr hsrc
    refine ⟨(buf', some pkt'), ?_⟩
    rw [hbuf', ok_bind, hread, ok_bind, hpkt']
    rfl

/-- What `snull_tx` hands to the hardware: the frame, padded. -/
def padded (frame : Frame) : Frame := frame ++ List.replicate (ETH_ZLEN - frame.length) 0

theorem length_padded (frame : Frame) : (padded frame).length = max frame.length ETH_ZLEN := by
  simp only [padded, List.length_append, List.length_replicate]
  omega

/-- The padding is of zeros. -/
theorem padded_getD (frame : Frame) (i : ℕ) : (padded frame).getD i 0 = frame.getD i 0 := by
  simp only [padded, List.getD_eq_getElem?_getD, List.getElem?_append, List.getElem?_replicate]
  split
  · rfl
  · rename_i hi
    rw [List.getElem?_eq_none (by omega)]
    split <;> rfl

theorem snullTx_eq (h : frame.length < 2 ^ 31) :
    snullTx ipFastCsum frame pkt =
      snullHwTx ipFastCsum (padded frame) (padded frame).length pkt := by
  have hlen : toInt frame.length = frame.length := toInt_of_range (by omega) (by omega)
  simp only [snullTx, hlen]
  split
  · rename_i hshort
    -- the short frame, with zeros behind it
    have hlt : frame.length < ETH_ZLEN := by exact_mod_cast hshort
    have hread : read frame 0 frame.length = .ok frame := by
      rw [read_ok (by omega), List.drop_zero, List.take_length]
    have hroom : 0 + frame.length ≤ (List.replicate ETH_ZLEN (0 : UInt8)).length := by
      rw [List.length_replicate]
      omega
    have hpad : overwrite (List.replicate ETH_ZLEN 0) 0 frame = padded frame := by
      simp [overwrite, padded]
    have hmax : max frame.length ETH_ZLEN = ETH_ZLEN := by omega
    simp only [hread, ok_bind, write_ok hroom, hpad, length_padded, hmax]
  · rename_i hlong
    have hpad : padded frame = frame := by
      have hzero : ETH_ZLEN - frame.length = 0 := by omega
      simp [padded, hzero]
    rw [hpad]

theorem tx_isOk_iff (h : frame.length < 2 ^ 31) :
    (∃ r, snullTx ipFastCsum frame pkt = .ok r) ↔
      HeaderFits (padded frame) ∧ frame.length ≤ ETH_DATA_LEN := by
  have hlen := length_padded frame
  have hmin : ETH_ZLEN ≤ (padded frame).length := by omega
  have hmax : (padded frame).length < 2 ^ 31 := by
    rw [hlen]
    exact max_lt h (by decide)
  rw [snullTx_eq h, hwTx_isOk_iff hmin hmax, hlen]
  have hdata : max frame.length ETH_ZLEN ≤ ETH_DATA_LEN ↔ frame.length ≤ ETH_DATA_LEN :=
    ⟨fun hle => le_trans (le_max_left _ _) hle, fun hle => max_le hle (by decide)⟩
  rw [hdata]

/-- The packet holds the frame as it has been readdressed, padded to the least length. -/
theorem delivered_frame (h : frame.length < 2 ^ 31) {buf' : Frame} {pkt' : PacketBody}
    (hr : snullTx ipFastCsum frame pkt = .ok (buf', some pkt')) :
    readdress ipFastCsum (padded frame) = .ok buf' ∧ pkt'.frame = buf' ∧
      buf'.length = max frame.length ETH_ZLEN := by
  have hlen := length_padded frame
  have hsize : 34 ≤ (padded frame).length := by
    rw [hlen]
    exact le_trans (by decide) (le_max_right _ _)
  have hmax : (padded frame).length < 2 ^ 31 := by
    rw [hlen]
    exact max_lt h (by decide)
  have hlong : ¬ ((padded frame).length : ℤ) < 14 + 20 := by omega
  rw [snullTx_eq h] at hr
  simp only [snullHwTx, toULong_length hmax, if_neg hlong, Int.toNat_natCast] at hr
  obtain ⟨buf₁, hbuf, hr⟩ := bind_eq_ok.mp hr
  obtain ⟨src, hsrc, hr⟩ := bind_eq_ok.mp hr
  obtain ⟨pkt₁, hpkt, hr⟩ := bind_eq_ok.mp hr
  cases hr
  have hlen' := readdress_length hsize hbuf
  rw [read_ok (by omega), List.drop_zero, ← hlen', List.take_length] at hsrc
  cases hsrc
  refine ⟨hbuf, ?_, by rw [hlen', hlen]⟩
  unfold PacketBody.fill at hpkt
  split at hpkt
  · cases hpkt
    have hcopied : ((overwrite pkt.data 0 buf').drop 0).take buf'.length = buf' :=
      take_drop_overwrite (Nat.zero_le _)
    simpa [PacketBody.frame, ← hlen'] using hcopied
  · cases hpkt

/-! ## Frames of the stack -/

/-- For every MTU that can be set, and every frame whose payload fits it: the accesses of a
transmission all lie in the frame and in the packet, exactly if the whole frame is no
longer than a payload may be, and the header is no longer than the rest of it. -/
theorem snullTx_inside_iff (calls : List ℤ)
    (hmtu : (frame.length : ℤ) ≤ mtuAfter calls + ETH_HLEN) :
    (∃ r, snullTx ipFastCsum frame pkt = .ok r) ↔
      frame.length ≤ ETH_DATA_LEN ∧
        ETH_HLEN + 4 * ihl (frame.getD ETH_HLEN 0) ≤ max frame.length ETH_ZLEN := by
  have hrange := (mtu_range calls).2
  have hhlen : (ETH_HLEN : ℤ) = 14 := rfl
  rw [tx_isOk_iff (by omega), HeaderFits, length_padded, and_comm]
  rw [padded_getD]

end Code

/-- A packet of the pool. -/
def freshPacket : PacketBody := ⟨0, List.replicate ETH_DATA_LEN 0, by simp⟩

/-- A datagram from 192.168.0.1 to 192.168.0.2, in a frame of 1500 bytes. -/
def large : Frame :=
  List.replicate 12 0 ++ [0x08, 0x00] ++
    [0x45, 0x00, 0x05, 0xce, 0x00, 0x00, 0x00, 0x00, 0x40, 0x11, 0xf3, 0xcb,
      192, 168, 0, 1, 192, 168, 0, 2] ++ List.replicate 1466 7

theorem snullTx_inside_iff_large : large.length = ETH_DATA_LEN ∧
    ∃ r, snullTx Checksum.inet large freshPacket = .ok r := by
  have hlen : large.length = 1500 := by
    simp only [large, List.length_append, List.length_replicate, List.length_cons, List.length_nil]
  have hfirst : large.getD ETH_HLEN 0 = 0x45 := rfl
  refine ⟨hlen, (snullTx_inside_iff [1490] ?_).mpr ?_⟩
  · rw [hlen]
    decide
  · rw [hlen, hfirst]
    decide

/-- A frame with a full payload does not fit the packet; and a frame of the least length can
have a header that is longer. -/
theorem snullTx_outside :
    (((List.replicate 1514 0x45 : Frame).length : ℤ) ≤ mtuAfter [] + ETH_HLEN ∧
      ¬ ∃ r, snullTx (fun _ => (0, 0)) (List.replicate 1514 0x45) freshPacket = .ok r) ∧
    (((List.replicate 60 0x4f : Frame).length : ℤ) ≤ mtuAfter [] + ETH_HLEN ∧
      ¬ ∃ r, snullTx (fun _ => (0, 0)) (List.replicate 60 0x4f) freshPacket = .ok r) := by
  refine ⟨⟨?_, ?_⟩, ?_, ?_⟩
  · rw [List.length_replicate]
    decide
  · rw [tx_isOk_iff (by rw [List.length_replicate]; decide), List.length_replicate]
    rintro ⟨_, hle⟩
    exact absurd hle (by decide)
  · rw [List.length_replicate]
    decide
  · rw [tx_isOk_iff (by rw [List.length_replicate]; decide), HeaderFits, length_padded,
      padded_getD]
    rintro ⟨hfits, _⟩
    exact absurd hfits (by decide)

end Snull
