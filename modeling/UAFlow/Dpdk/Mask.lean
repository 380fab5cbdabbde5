import UAFlow.Dpdk.Queues

/-!
# The mask that spreads packets over the queues

The loop counts down to a power of two and leaves through a label with the
counter in hand.  From 0 it leaves below 0, and the 1 meant for that case is
overwritten at once.
-/

namespace UAFlow.Dpdk

open Forward

/-- Ones up to some place, and with queues as many of them as every byte of a
packet can be masked with. -/
def MaskFits (mask : Int32) (txnum : Nat) : Prop :=
  0 ≤ mask.toInt ∧ (∃ k : Nat, mask.toInt = 2 ^ k - 1) ∧
    (1 ≤ txnum → ∃ k : Nat, mask.toInt + 1 = 2 ^ k ∧ 2 ^ k ≤ txnum ∧
      (∀ other : Nat, 2 ^ other ≤ txnum → 2 ^ other ≤ 2 ^ k) ∧
      ∀ mbuf, 0 ≤ defsendQueueid mask mbuf ∧ defsendQueueid mask mbuf < txnum)

theorem toInt_ofNat {value : Nat} (small : value < 2 ^ 31) : (Int32.ofNat value).toInt = value := by
  have bound : value < 2 ^ 32 := small.trans (by decide)
  change (BitVec.ofNat 32 value).toInt = _
  rw [BitVec.toInt_ofNat', Int.bmod_eq_of_le] <;> omega

theorem maskFits_of_queues (powerOfTwo : PowerOfTwoTest) {txnum : Nat} (positive : txnum ≠ 0)
    (small : txnum < 2 ^ 31) : MaskFits (flowDpdkModuleGetaliq powerOfTwo.test txnum) txnum := by
  have exponent : txnum.log2 < 31 := (Nat.log2_lt positive).mpr small
  have ones : 2 ^ txnum.log2 ≤ txnum := Nat.log2_self_le positive
  have one : 1 ≤ 2 ^ txnum.log2 := Nat.one_le_two_pow
  have mask : (flowDpdkModuleGetaliq powerOfTwo.test txnum).toInt = (2 : Int) ^ txnum.log2 - 1 := by
    rw [getaliq_eq powerOfTwo positive (small.trans (by decide)), toInt_ofNat (by omega)]
    push_cast [one]
    rfl
  refine ⟨by rw [mask]; exact Int.sub_nonneg_of_le (by exact_mod_cast one), ⟨_, mask⟩, fun _ => ?_⟩
  refine ⟨txnum.log2, by rw [mask, Int.sub_add_cancel], ones, ?_, ?_⟩
  · intro other below
    exact Nat.pow_le_pow_right (by decide) ((Nat.le_log2 positive).mpr below)
  · intro mbuf
    rw [getaliq_eq powerOfTwo positive (small.trans (by decide)),
      defsendQueueid_ones mbuf (exponent.trans (by decide))]
    refine ⟨Int.natCast_nonneg _, Int.ofNat_lt.mpr ?_⟩
    exact (Nat.mod_lt _ (Nat.two_pow_pos _)).trans_le ones

/-- Without a queue the mask is negative, whatever the test says of 0. -/
theorem not_maskFits_zero (test : UInt32 → Bool) : ¬ MaskFits (flowDpdkModuleGetaliq test 0) 0 := by
  rintro ⟨nonnegative, _⟩
  rw [flowDpdkModuleGetaliq] at nonnegative
  split at nonnegative
  next => exact absurd nonnegative (by decide)
  next => exact absurd nonnegative (by decide)

theorem setconf_queueNum {nbLcores : Nat} {ports : List RteEthDevInfo} {state : FlowDpdkState}
    (returned : flowDpdkModuleSetconf nbLcores ports = some state) :
    state.tx.queueNum < 2 ^ 31 := by
  have remembered := (setconfLoop_configured returned).2.queueNum
  rw [remembered]
  cases (ports.take Config.rteMaxEthports).getLast? with
  | none => exact Nat.two_pow_pos 31
  | some devInfo =>
      have offered := devInfo.maxTxQueues.toNat_lt
      simp only [Option.map_some, Option.getD_some, nbTxQueue, queueCount]
      split <;> omega

/-- The mask is as meant exactly when setting up the ports has left a count of
queues other than 0. -/
theorem mask_fits_iff_queues (powerOfTwo : PowerOfTwoTest) {nbLcores : Nat}
    {ports : List RteEthDevInfo} {state : FlowDpdkState}
    (returned : flowDpdkModuleSetconf nbLcores ports = some state) :
    MaskFits (flowDpdkModuleGetaliq powerOfTwo.test state.tx.queueNum) state.tx.queueNum ↔
      state.tx.queueNum ≠ 0 := by
  constructor
  · intro fits none
    rw [none] at fits
    exact not_maskFits_zero _ fits
  · exact fun positive => maskFits_of_queues powerOfTwo positive (setconf_queueNum returned)

/-- Four lcores and a port that offers eight queues. -/
theorem mask_fits_iff_queues_three :
    MaskFits (flowDpdkModuleGetaliq rteIsPowerOf2.test 3) 3 ↔ 3 ≠ 0 := by
  have three := mask_fits_iff_queues rteIsPowerOf2
    (show flowDpdkModuleSetconf 4 [⟨8, 8, true⟩] =
      some (setconfPort 4 0 FlowDpdkState.zero ⟨8, 8, true⟩) from rfl)
  exact three

/-- A port that offers no queue for sending. -/
theorem not_mask_fits_without_queues :
    ¬ ∀ (powerOfTwo : PowerOfTwoTest) (nbLcores : Nat) (ports : List RteEthDevInfo)
        (state : FlowDpdkState), flowDpdkModuleSetconf nbLcores ports = some state →
          MaskFits (flowDpdkModuleGetaliq powerOfTwo.test state.tx.queueNum) state.tx.queueNum := by
  intro fits
  exact not_maskFits_zero _ (fits rteIsPowerOf2 4 [⟨8, 0, true⟩]
    (setconfPort 4 0 FlowDpdkState.zero ⟨8, 0, true⟩) rfl)

end UAFlow.Dpdk
