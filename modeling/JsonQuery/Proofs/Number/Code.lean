import JsonQuery.Number.Binary
import Mathlib

/-! Numbers as signs and codes. Nothing else is in a number, so putting the two together again gives
the number back, zeros with their signs included. A number that is made from a sign and a finite
code has these again. The lemmas on how floats are packed come with no smaller part of Mathlib than
the whole, so what needs them stands here. -/
namespace JsonQuery.Number

open Float.Model UnpackedFloat

theorem ofCode_code (x : Float) : ofCode (isNegative x) (code x) = x := by
  have bound : x.toBits.toNat < 2 ^ 64 := x.toBits.toNat_lt
  have bits : (if isNegative x then Nat.pow 2 63 + code x else code x) = x.toBits.toNat := by
    have place : Nat.pow 2 63 = 9223372036854775808 := rfl
    simp only [isNegative, code, place, decide_eq_true_eq]
    split <;> omega
  rw [ofCode, bits, UInt64.ofNat_toNat, Float.ofBits_toBits]

/-- The bits of a finite number are what it is made from. -/
theorem toBits_ofBits {bits : UInt64} (finite : bits.toNat % 2 ^ 63 < infinityCode) :
    (Float.ofBits bits).toBits = bits := by
  have exponent : (@unpackExponent .binary64 bits.toBitVec).toNat =
      bits.toNat / 2 ^ 52 % 2 ^ 11 := by
    rw [unpackExponent_def, BitVec.extractLsb'_toNat, Nat.shiftRight_eq_div_pow]
    rfl
  have number : @isNaNBits .binary64 bits.toBitVec = false := by
    apply decide_eq_false
    rintro ⟨full, -⟩
    have largest : bits.toNat / 2 ^ 52 % 2 ^ 11 = 2047 := by
      rw [← exponent, full]
      rfl
    have limit : infinityCode = 2047 * 2 ^ 52 := rfl
    omega
  have kept := @pack_unpack .binary64 bits.toBitVec (by decide)
  rw [number, if_neg (by decide)] at kept
  exact UInt64.toBitVec_inj.mp kept

variable {negative : Bool} {c : Nat}

theorem toNat_toBits_ofCode (negative : Bool) (finite : c < infinityCode) :
    (ofCode negative c).toBits.toNat = if negative then Nat.pow 2 63 + c else c := by
  have limit : infinityCode < 2 ^ 63 := by decide
  have place : Nat.pow 2 63 = 2 ^ 63 := rfl
  have small : (if negative then Nat.pow 2 63 + c else c) < 2 ^ 64 := by
    rw [place]
    split <;> omega
  have bits : (UInt64.ofNat (if negative then Nat.pow 2 63 + c else c)).toNat =
      if negative then Nat.pow 2 63 + c else c := by
    rw [UInt64.toNat_ofNat', Nat.mod_eq_of_lt small]
  rw [ofCode, toBits_ofBits, bits]
  rw [bits, place]
  split <;> omega

theorem code_ofCode (negative : Bool) (finite : c < infinityCode) :
    code (ofCode negative c) = c := by
  have limit : infinityCode < 2 ^ 63 := by decide
  have place : Nat.pow 2 63 = 2 ^ 63 := rfl
  rw [code, toNat_toBits_ofCode negative finite, place]
  split <;> omega

theorem isNegative_ofCode (negative : Bool) (finite : c < infinityCode) :
    isNegative (ofCode negative c) = negative := by
  have limit : infinityCode < 2 ^ 63 := by decide
  have place : Nat.pow 2 63 = 2 ^ 63 := rfl
  rw [isNegative, toNat_toBits_ofCode negative finite, place]
  cases negative <;> simp
  omega

/-- Whatever is a number equals itself. -/
theorem beq_self_of_isNaN {x : Float} (number : isNaN x = false) : (x == x) = true := by
  rw [Float.beq_self_iff]
  rintro rfl
  exact absurd number (by decide)

theorem beq_self_of_isFinite {x : Float} (finite : isFinite x = true) : (x == x) = true := by
  have bounded : code x < infinityCode := of_decide_eq_true finite
  exact beq_self_of_isNaN (decide_eq_false (Nat.lt_asymm bounded))

end JsonQuery.Number
