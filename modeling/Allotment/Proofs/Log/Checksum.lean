/-
**Bytes that differ in one place have different checksums.**

Nothing is lost on the way of the register.  A step moves its bits down by one and exchanges the
polynomial into them if a one has fallen out.  The polynomial has its highest bit set, and this
place is free after the move; so the highest bit after a step is the bit that has fallen out, and
the step can be undone.  Two registers that differ thus differ after any number of bytes.  Up to the
place where two byte sequences differ, their registers are the same, and behind it they never meet
again.

Main results:

* `Allotment.Log.Checksum.step_injective` — **a step can be undone**;
* `Allotment.Log.Checksum.foldl_feed_injective` — so can the bytes that follow;
* `Allotment.Log.checksum_ne_of_ne` — **the checksum tells two sequences apart that differ in one
  byte**.
-/

import Allotment.Log.Frame
import Mathlib.Logic.Function.Basic

set_option relaxedAutoImplicit false
set_option autoImplicit false

namespace Allotment.Log

namespace Checksum

/-! ### One step -/

/-- The lowest bit of a register. -/
theorem and_one_eq_one_iff (register : UInt32) :
    register &&& 1 = 1 ↔ register.toBitVec.getLsbD 0 = true := by
  have hand : (register &&& 1).toBitVec =
      BitVec.setWidth 32 (BitVec.ofBool (register.toBitVec.getLsbD 0)) := by
    rw [UInt32.toBitVec_and]
    exact BitVec.and_one_eq_setWidth_ofBool_getLsbD
  rw [← UInt32.toBitVec_inj, hand]
  cases register.toBitVec.getLsbD 0 <;> decide

/-- What a step does to the bits of the register. -/
theorem toBitVec_step (register : UInt32) :
    (step register).toBitVec = (register.toBitVec >>> 1) ^^^
      (if register.toBitVec.getLsbD 0 then polynomial.toBitVec else 0#32) := by
  unfold step
  by_cases h : register.toBitVec.getLsbD 0 = true
  · rw [if_pos ((and_one_eq_one_iff register).2 h), if_pos h]
    simp
  · rw [if_neg (fun hand => h ((and_one_eq_one_iff register).1 hand)), if_neg h]
    simp

/-- The bit that falls out of the register is the highest one of the next register. -/
theorem getLsbD_step (register : UInt32) :
    (step register).toBitVec.getLsbD 31 = register.toBitVec.getLsbD 0 := by
  have hpoly : polynomial.toBitVec.getLsbD 31 = true := by decide
  have htop : (register.toBitVec >>> 1).getLsbD 31 = false := by
    rw [BitVec.getLsbD_ushiftRight]
    exact BitVec.getLsbD_of_ge _ _ (by decide)
  rw [toBitVec_step, BitVec.getLsbD_xor, htop]
  cases register.toBitVec.getLsbD 0 with
  | false => simp
  | true => simp [hpoly]

/-- **A step can be undone.** -/
theorem step_injective : Function.Injective step := by
  intro register register' h
  have hlow : register.toBitVec.getLsbD 0 = register'.toBitVec.getLsbD 0 := by
    rw [← getLsbD_step, h, getLsbD_step]
  have hhigh : register.toBitVec >>> 1 = register'.toBitVec >>> 1 := by
    have hbits := congrArg UInt32.toBitVec h
    rw [toBitVec_step, toBitVec_step, hlow] at hbits
    exact (BitVec.xor_left_inj _).1 hbits
  apply UInt32.toBitVec_inj.1
  apply BitVec.eq_of_getLsbD_eq
  intro i _
  cases i with
  | zero => exact hlow
  | succ i =>
      have hbit := congrArg (fun v : BitVec 32 => v.getLsbD i) hhigh
      simpa only [BitVec.getLsbD_ushiftRight, Nat.add_comm 1 i] using hbit

/-! ### Bytes -/

theorem steps_injective (n : Nat) : Function.Injective (steps n) := by
  induction n with
  | zero => exact Function.injective_id
  | succ n ih => exact ih.comp step_injective

/-- A byte moves different registers to different ones. -/
theorem feed_injective (b : UInt8) : Function.Injective (feed · b) := by
  intro register register' h
  exact (UInt32.xor_left_inj _).1 (steps_injective 8 h)

/-- Different bytes move a register to different ones. -/
theorem feed_right_injective (register : UInt32) : Function.Injective (feed register) := by
  intro b b' h
  exact UInt8.toUInt32_inj.1 ((UInt32.xor_right_inj _).1 (steps_injective 8 h))

/-- Different registers stay different, whatever bytes follow. -/
theorem foldl_feed_injective (bs : Bytes) : Function.Injective (bs.foldl feed ·) := by
  induction bs with
  | nil => exact Function.injective_id
  | cons b bs ih => exact ih.comp (feed_injective b)

end Checksum

/-- **The checksum tells two sequences apart that differ in one byte.** -/
theorem checksum_ne_of_ne {b b' : UInt8} (h : b ≠ b') (front rest : Bytes) :
    checksum (front ++ b :: rest) ≠ checksum (front ++ b' :: rest) := by
  intro heq
  have hfold := (UInt32.xor_left_inj _).1 heq
  rw [List.foldl_append, List.foldl_append, List.foldl_cons, List.foldl_cons] at hfold
  exact h (Checksum.feed_right_injective _ (Checksum.foldl_feed_injective rest hfold))

end Allotment.Log
