import Mathlib.Data.List.GetD
import MqttServer.Codec.Pkt

/-!
# `Codec.Length` — `write_remain_length` against `remain_length`

The encoder writes base-128 digits, the lowest first. The decoder shifts each further digit by seven, and not by
seven more than the one before, so the digits from the third on fall onto the second: whatever it decodes is below
`2 ^ 14` (`remainLength_lt`). For one and two digits the two agree, and then no proper prefix of a packet is taken for
a packet; from three digits on they never agree (`codecAgrees_iff`).
-/

namespace MqttServer

variable {mem mem' : Nat → UInt8} {len value bytes length : Nat}

/-! ## What the decoder can answer -/

/-- Two digits at most are kept. -/
theorem scanLength_lt (mem : Nat → UInt8) (fuel : Nat) :
    ∀ offset value, value < 2 ^ 14 → (scanLength mem fuel offset value).1 < 2 ^ 14 := by
  induction fuel with
  | zero => exact fun _ _ h => h
  | succ fuel ih =>
      intro offset value h
      have hdigit : (mem (offset + 1)).toNat % 128 < 128 := Nat.mod_lt _ (by decide)
      have hvalue : (if offset = 0 then (mem (offset + 1)).toNat % 128
          else ((mem (offset + 1)).toNat % 128) <<< 7 ||| value) < 2 ^ 14 := by
        split
        · omega
        · refine Nat.or_lt_two_pow ?_ h
          rw [Nat.shiftLeft_eq]
          omega
      unfold scanLength
      simp only
      split
      · exact hvalue
      · exact ih _ _ hvalue

/-- **No length from `2 ^ 14` on is ever decoded.** -/
theorem remainLength_lt (h : remainLength mem len = .length value bytes) : value < 16384 := by
  unfold remainLength at h
  have hlt := scanLength_lt mem maxRemainLengthBytes 0 0 (by decide)
  split at h
  · cases h
  · rename_i v offset hscan
    rw [hscan] at hlt
    simp only at h
    split at h
    · cases h
    · cases h
      exact hlt

/-! ## One and two digits -/

namespace Pkt

theorem lengthDigits_one (h : length < 128) : lengthDigits 5 length = [UInt8.ofNat length] := by
  have hdiv : ¬ length / 128 > 0 := by omega
  simp only [lengthDigits, if_neg hdiv, Nat.mod_eq_of_lt h]

theorem lengthDigits_two (h : 128 ≤ length) (h' : length < 16384) :
    lengthDigits 5 length = [UInt8.ofNat (length % 128 + 128), UInt8.ofNat (length / 128)] := by
  have hdiv : length / 128 > 0 := by omega
  have hdiv' : ¬ length / 128 / 128 > 0 := by omega
  have hlow : length / 128 < 128 := by omega
  simp only [lengthDigits, if_pos hdiv, if_neg hdiv', Nat.mod_eq_of_lt hlow]

end Pkt

/-- **One and two digits are read back**, wherever they stand behind the first byte. -/
theorem remainLength_digits (h : length < 16384)
    (hmem : ∀ i < (Pkt.lengthDigits 5 length).length, mem (i + 1) = (Pkt.lengthDigits 5 length).getD i 0)
    (hlen : length + (Pkt.lengthDigits 5 length).length + 1 ≤ len) :
    remainLength mem len = .length length (Pkt.lengthDigits 5 length).length := by
  rw [remainLength_eq]
  by_cases hone : length < 128
  · rw [Pkt.lengthDigits_one hone] at hmem hlen ⊢
    have h₁ : (mem 1).toNat = length := by
      rw [hmem 0 Nat.zero_lt_one]
      show (UInt8.ofNat length).toNat = length
      rw [UInt8.toNat_ofNat']
      omega
    simp only [List.length_singleton] at hlen ⊢
    rw [h₁, if_pos hone, Nat.mod_eq_of_lt hone, if_neg (by omega)]
  · rw [Pkt.lengthDigits_two (by omega) h] at hmem hlen ⊢
    have h₁ : (mem 1).toNat = length % 128 + 128 := by
      rw [hmem 0 Nat.zero_lt_two]
      show (UInt8.ofNat (length % 128 + 128)).toNat = _
      rw [UInt8.toNat_ofNat']
      omega
    have h₂ : (mem 2).toNat = length / 128 := by
      rw [hmem 1 Nat.one_lt_two]
      show (UInt8.ofNat (length / 128)).toNat = _
      rw [UInt8.toNat_ofNat']
      omega
    have hor : (length / 128 % 128) <<< 7 ||| (length % 128 + 128) % 128 = length := by
      have hlt : (length % 128 + 128) % 128 < 2 ^ 7 := Nat.mod_lt _ (by decide)
      rw [Nat.shiftLeft_eq, Nat.mul_comm, ← Nat.two_pow_add_eq_or_of_lt hlt]
      omega
    simp only [List.length_cons, List.length_nil] at hlen ⊢
    rw [h₁, h₂, if_neg (by omega), if_pos (by omega), hor, if_neg (by omega)]

/-! ## More digits -/

namespace Pkt

theorem lengthDigits_three (h : 16384 ≤ length) (h' : length < 2097152) : lengthDigits 5 length =
    [UInt8.ofNat (length % 128 + 128), UInt8.ofNat (length / 128 % 128 + 128), UInt8.ofNat (length / 16384)] := by
  have h₁ : length / 128 > 0 := by omega
  have h₂ : length / 128 / 128 > 0 := by omega
  have h₃ : ¬ length / 128 / 128 / 128 > 0 := by omega
  have hlow : length / 128 / 128 % 128 = length / 16384 := by omega
  simp only [lengthDigits, if_pos h₁, if_pos h₂, if_neg h₃, hlow]

theorem lengthDigits_four (h : 2097152 ≤ length) (h' : length < 268435456) : lengthDigits 5 length =
    [UInt8.ofNat (length % 128 + 128), UInt8.ofNat (length / 128 % 128 + 128),
      UInt8.ofNat (length / 16384 % 128 + 128), UInt8.ofNat (length / 2097152)] := by
  have h₁ : length / 128 > 0 := by omega
  have h₂ : length / 128 / 128 > 0 := by omega
  have h₃ : length / 128 / 128 / 128 > 0 := by omega
  have h₄ : ¬ length / 128 / 128 / 128 / 128 > 0 := by omega
  have hmid : length / 128 / 128 % 128 = length / 16384 % 128 := by omega
  have hlow : length / 128 / 128 / 128 % 128 = length / 2097152 := by omega
  simp only [lengthDigits, if_pos h₁, if_pos h₂, if_pos h₃, if_neg h₄, hmid, hlow]

end Pkt

theorem toNat_digit {n : Nat} (h : n < 128) : (UInt8.ofNat (n + 128)).toNat = n + 128 := by
  rw [UInt8.toNat_ofNat']
  omega

theorem toNat_last {n : Nat} (h : n < 128) : (UInt8.ofNat n).toNat = n := by
  rw [UInt8.toNat_ofNat']
  omega

/-- **Any length MQTT allows** is found to end where it ends; from three digits on with another value, which is
    smaller. -/
theorem remainLength_framed (h : length < 268435456)
    (hmem : ∀ i < (Pkt.lengthDigits 5 length).length, mem (i + 1) = (Pkt.lengthDigits 5 length).getD i 0)
    (hlen : length + (Pkt.lengthDigits 5 length).length + 1 ≤ len) :
    ∃ v, remainLength mem len = .length v (Pkt.lengthDigits 5 length).length := by
  by_cases htwo : length < 16384
  · exact ⟨length, remainLength_digits htwo hmem hlen⟩
  · have hlt := scanLength_lt mem maxRemainLengthBytes 0 0 (by decide)
    have hfits : ∀ n, (scanLength mem maxRemainLengthBytes 0 0).2 = some n →
        n + 1 = (Pkt.lengthDigits 5 length).length →
        ∃ v, remainLength mem len = .length v (Pkt.lengthDigits 5 length).length := by
      intro n hend hn
      refine ⟨(scanLength mem maxRemainLengthBytes 0 0).1, ?_⟩
      have hscan : scanLength mem maxRemainLengthBytes 0 0 =
          ((scanLength mem maxRemainLengthBytes 0 0).1, some n) := Prod.ext rfl hend
      unfold remainLength
      rw [hscan]
      simp only
      rw [hn, if_neg (by omega)]
    by_cases hthree : length < 2097152
    · rw [Pkt.lengthDigits_three (by omega) hthree] at hmem
      have h₁ := congrArg UInt8.toNat (hmem 0 (by simp))
      have h₂ := congrArg UInt8.toNat (hmem 1 (by simp))
      have h₃ := congrArg UInt8.toNat (hmem 2 (by simp))
      simp only [List.getD_cons_zero, List.getD_cons_succ] at h₁ h₂ h₃
      rw [toNat_digit (Nat.mod_lt _ (by decide))] at h₁ h₂
      rw [toNat_last (by omega)] at h₃
      refine hfits 2 ?_ (by rw [Pkt.lengthDigits_three (by omega) hthree]; rfl)
      simp only [maxRemainLengthBytes, scanLength, h₁, h₂, h₃]
      rw [if_neg (by omega), if_neg (by omega), if_pos (by omega)]
    · rw [Pkt.lengthDigits_four (by omega) h] at hmem
      have h₁ := congrArg UInt8.toNat (hmem 0 (by simp))
      have h₂ := congrArg UInt8.toNat (hmem 1 (by simp))
      have h₃ := congrArg UInt8.toNat (hmem 2 (by simp))
      have h₄ := congrArg UInt8.toNat (hmem 3 (by simp))
      simp only [List.getD_cons_zero, List.getD_cons_succ] at h₁ h₂ h₃ h₄
      rw [toNat_digit (Nat.mod_lt _ (by decide))] at h₁ h₂ h₃
      rw [toNat_last (by omega)] at h₄
      refine hfits 3 ?_ (by rw [Pkt.lengthDigits_four (by omega) h]; rfl)
      simp only [maxRemainLengthBytes, scanLength, h₁, h₂, h₃, h₄]
      rw [if_neg (by omega), if_neg (by omega), if_neg (by omega), if_pos (by omega)]

/-! ## The codec -/

/-- The number of bytes `write_remain_length(length)` writes at a cursor. -/
def Pkt.written (p : Pkt) (length : Nat) : Nat := (p.writeRemainLength length).offset - p.offset

/-- **The codec agrees** on a length: the packet that has it behind its first byte is decoded with this length and
    with the number of bytes that were written, and no proper prefix of the packet is decoded as a packet, whatever the
    memory behind it holds. -/
structure CodecAgrees (length : Nat) : Prop where
  decoded : ∀ p : Pkt, p.offset = 1 → 1 + p.written length + length ≤ p.buf.length →
    remainLength (p.writeRemainLength length).byteAt (1 + p.written length + length) =
      .length length (p.written length)
  incomplete : ∀ p : Pkt, p.offset = 1 → 1 + p.written length + length ≤ p.buf.length →
    ∀ n < 1 + p.written length + length, ∀ mem : Nat → UInt8,
      (∀ i < n, mem i = (p.writeRemainLength length).byteAt i) →
      ∀ value bytes, remainLength mem n ≠ .length value bytes

theorem Pkt.written_eq (p : Pkt) (length : Nat) : p.written length = (Pkt.lengthDigits 5 length).length := by
  show p.offset + (Pkt.lengthDigits 5 length).length - p.offset = _
  omega

/-- The digits as the buffer has them. -/
theorem Pkt.writeRemainLength_byteAt {p : Pkt} (hp : p.offset = 1) (hroom : 1 ≤ p.buf.length) {i : Nat}
    (hi : i < (Pkt.lengthDigits 5 length).length) :
    (p.writeRemainLength length).byteAt (i + 1) = (Pkt.lengthDigits 5 length).getD i 0 := by
  have htake : (p.buf.take 1).length = 1 := by
    rw [List.length_take]
    omega
  show (Pkt.store p.buf p.offset (Pkt.lengthDigits 5 length)).getD (i + 1) 0 = _
  rw [hp]
  unfold Pkt.store
  rw [List.append_assoc, List.getD_append_right _ _ _ _ (by omega), htake, Nat.add_sub_cancel,
    List.getD_append _ _ _ _ hi]

/-- **The codec agrees exactly on** the lengths of one or two digits. -/
theorem codecAgrees_iff (length : Nat) : CodecAgrees length ↔ length < 16384 := by
  constructor
  · intro h
    let p : Pkt := { buf := List.replicate (1 + (Pkt.lengthDigits 5 length).length + length) 0, offset := 1 }
    refine remainLength_lt (h.decoded p rfl ?_)
    rw [p.written_eq, List.length_replicate]
  · intro h
    have hdecoded : ∀ p : Pkt, p.offset = 1 → 1 + p.written length + length ≤ p.buf.length →
        remainLength (p.writeRemainLength length).byteAt (1 + p.written length + length) =
          .length length (p.written length) := by
      intro p hp hroom
      rw [p.written_eq] at hroom ⊢
      refine remainLength_digits h (fun i hi => ?_) (by omega)
      exact Pkt.writeRemainLength_byteAt hp (by omega) hi
    refine ⟨hdecoded, ?_⟩
    -- a prefix that is decoded would be the whole packet
    intro p hp hroom n hn mem hmem value bytes hprefix
    have hwhole := remainLength_agree_length hprefix (fun i hi => (hmem i hi).symm) (Nat.le_of_lt hn)
    rw [hdecoded p hp hroom] at hwhole
    cases hwhole
    have hfits := (remainLength_length hprefix).2
    omega

/-- **Three digits.** The packet with 16384 bytes behind its length is decoded with the length 128, and so are its
    first 132 bytes. -/
theorem codec_disagrees : ∃ p : Pkt, p.offset = 1 ∧ 1 + p.written 16384 + 16384 ≤ p.buf.length ∧
    remainLength (p.writeRemainLength 16384).byteAt (1 + p.written 16384 + 16384) = .length 128 3 ∧
    remainLength (p.writeRemainLength 16384).byteAt 132 = .length 128 3 ∧ ¬ CodecAgrees 16384 := by
  let p : Pkt := { buf := List.replicate 16388 0, offset := 1 }
  have hroom : 1 + p.written 16384 + 16384 ≤ p.buf.length := by
    rw [p.written_eq, List.length_replicate]
    decide
  refine ⟨p, rfl, hroom, by decide +kernel, by decide +kernel, fun h => ?_⟩
  exact absurd (h.decoded p rfl hroom) (by decide +kernel)

end MqttServer
