import Mathlib

/-!
# Numbers and their encodings

Constants are compared by their encodings, but a number is also compared as a number. The two
comparisons part at the zeros, which are equal numbers with two encodings, and at the encodings that
stand for no number, which are not even equal to themselves. Everywhere else a number has one
encoding, because an encoding is put together again from the number that it stands for, as the
library proves for its floating point numbers.

## Main results

* `ofBits_beq_iff32`, `ofBits_beq_iff64`: which encodings stand for a number other than zero.
-/

namespace ClassEdit

open Float.Model (Format UnpackedFloat)
open Float.Model.UnpackedFloat (Sign isNaNBits)

section Encodings

variable {spec : Format} {b b' : BitVec spec.numBits}

theorem unpack_of_isNaNBits (h : isNaNBits b) : UnpackedFloat.unpack spec b = .notANumber := by
  obtain ⟨hexponent, hmantissa⟩ := of_decide_eq_true h
  unfold UnpackedFloat.unpack
  dsimp only
  rw [if_pos hexponent, if_neg hmantissa]

/-- A number is encoded as the encoding that it was read from. -/
theorem pack_unpack_of_number (hwide : 1 < spec.exponentBits)
    (h : UnpackedFloat.unpack spec b ≠ .notANumber) :
    UnpackedFloat.pack spec (UnpackedFloat.unpack spec b) = b := by
  rw [UnpackedFloat.pack_unpack b hwide, if_neg fun hnan => h (unpack_of_isNaNBits hnan)]

/-- An encoding stands for the same after it was read and written. -/
theorem unpack_pack_unpack (hwide : 1 < spec.exponentBits) :
    UnpackedFloat.unpack spec (UnpackedFloat.pack spec (UnpackedFloat.unpack spec b)) =
      UnpackedFloat.unpack spec b := by
  rw [UnpackedFloat.pack_unpack b hwide]
  split
  · rename_i hnan
    rw [UnpackedFloat.unpack_packedNaN, unpack_of_isNaNBits hnan]
  · rfl

/-- A finite number other than zero is equal to the numbers with its encoding only. -/
theorem beq_unpack_iff {sign : Sign} {mantissa : Nat} {exponent : Int} {hpos : 0 < mantissa}
    (hwide : 1 < spec.exponentBits)
    (hb' : UnpackedFloat.unpack spec b' = .finite sign mantissa exponent hpos) :
    (UnpackedFloat.unpack spec b).beq (UnpackedFloat.unpack spec b') = true ↔ b = b' := by
  have hnumber : UnpackedFloat.unpack spec b' ≠ .notANumber := by simp [hb']
  rw [UnpackedFloat.beq_iff_ne_notANumber_and_eq]
  constructor
  · rintro ⟨h, -, hsame | ⟨-, hzero⟩ | ⟨-, hzero⟩⟩
    · calc b = UnpackedFloat.pack spec (UnpackedFloat.unpack spec b) :=
            (pack_unpack_of_number hwide h).symm
        _ = UnpackedFloat.pack spec (UnpackedFloat.unpack spec b') := by rw [hsame]
        _ = b' := pack_unpack_of_number hwide hnumber
    · simp [hb'] at hzero
    · simp [hb'] at hzero
  · rintro rfl
    exact ⟨hnumber, hnumber, .inl rfl⟩

end Encodings

section Equal

variable {sign : Sign} {mantissa : Nat} {exponent : Int} {hpos : 0 < mantissa}

/-- A finite number of single precision other than zero has one encoding. -/
theorem ofBits_beq_iff32 (bits bits' : UInt32)
    (h : UnpackedFloat.unpack .binary32 bits'.toBitVec = .finite sign mantissa exponent hpos) :
    (Float32.ofBits bits == Float32.ofBits bits') = true ↔ bits = bits' := by
  show (UnpackedFloat.unpack .binary32 (UnpackedFloat.pack .binary32
      (UnpackedFloat.unpack .binary32 bits.toBitVec))).beq
    (UnpackedFloat.unpack .binary32 (UnpackedFloat.pack .binary32
      (UnpackedFloat.unpack .binary32 bits'.toBitVec))) = true ↔ _
  rw [unpack_pack_unpack (by decide), unpack_pack_unpack (by decide),
    beq_unpack_iff (by decide) h, UInt32.toBitVec_inj]

/-- A finite number of double precision other than zero has one encoding. -/
theorem ofBits_beq_iff64 (bits bits' : UInt64)
    (h : UnpackedFloat.unpack .binary64 bits'.toBitVec = .finite sign mantissa exponent hpos) :
    (Float.ofBits bits == Float.ofBits bits') = true ↔ bits = bits' := by
  show (UnpackedFloat.unpack .binary64 (UnpackedFloat.pack .binary64
      (UnpackedFloat.unpack .binary64 bits.toBitVec))).beq
    (UnpackedFloat.unpack .binary64 (UnpackedFloat.pack .binary64
      (UnpackedFloat.unpack .binary64 bits'.toBitVec))) = true ↔ _
  rw [unpack_pack_unpack (by decide), unpack_pack_unpack (by decide),
    beq_unpack_iff (by decide) h, UInt64.toBitVec_inj]

end Equal

end ClassEdit
