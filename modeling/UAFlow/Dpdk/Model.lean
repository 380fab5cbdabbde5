import UAFlow.Config.Model
import UAFlow.Forward.Workers

/-!
# The queues of `flow_dpdk.c`

`flow_dpdk_module_setconf` sets up the queues of one port after the other, each
with its own counts; what it remembers of them is one mask and one count for
all ports.  The workers, the HTTP handler and the default sender choose queues by
what is remembered.
-/

namespace UAFlow.Dpdk

open Config Forward UserAgent

/-- What `rte_eth_dev_info_get` says of a port, and whether configuring and
starting it goes well. -/
structure RteEthDevInfo where
  maxRxQueues : UInt16
  maxTxQueues : UInt16
  starts : Bool

/-- `max > (nb_lcores - 1) ? (nb_lcores - 1) : max`. -/
def queueCount (nbLcores : Nat) (max : UInt16) : Nat :=
  if max.toNat > nbLcores - 1 then nbLcores - 1 else max.toNat

def nbRxQueue (nbLcores : Nat) (devInfo : RteEthDevInfo) : Nat :=
  queueCount nbLcores devInfo.maxRxQueues

def nbTxQueue (nbLcores : Nat) (devInfo : RteEthDevInfo) : Nat :=
  queueCount nbLcores devInfo.maxTxQueues

/-- For one direction the statics of the module, and the pairs of port and queue
that were set up.  At most 31 lcores are started, so an index stays inside the
mask. -/
structure Queues where
  queueMask : Nat → Bool
  queueNum : Nat
  setUp : List (Nat × Nat)

structure FlowDpdkState where
  rx : Queues
  tx : Queues

def FlowDpdkState.zero : FlowDpdkState :=
  ⟨⟨fun _ => false, 0, []⟩, ⟨fun _ => false, 0, []⟩⟩

/-- `rte_eth_rx_queue_setup` or `rte_eth_tx_queue_setup`, and the entry of the
mask. -/
def queueSetup (i : Nat) (queues : Queues) (queueid : Nat) : Queues :=
  { queues with
    queueMask := Function.update queues.queueMask queueid true
    setUp := queues.setUp ++ [(i, queueid)] }

def setupQueues (i nbQueue : Nat) (queues : Queues) : Queues :=
  (List.range nbQueue).foldl (queueSetup i) { queues with queueNum := nbQueue }

def setconfPort (nbLcores i : Nat) (state : FlowDpdkState) (devInfo : RteEthDevInfo) :
    FlowDpdkState where
  rx := setupQueues i (nbRxQueue nbLcores devInfo) state.rx
  tx := setupQueues i (nbTxQueue nbLcores devInfo) state.tx

/-- The ports from the `i`-th on; none when `rte_exit` is called. -/
def setconfLoop (nbLcores : Nat) : Nat → List RteEthDevInfo → FlowDpdkState → Option FlowDpdkState
  | _, [], state => some state
  | i, devInfo :: ports, state =>
      if devInfo.starts then setconfLoop nbLcores (i + 1) ports (setconfPort nbLcores i state devInfo)
      else none

def flowDpdkModuleSetconf (nbLcores : Nat) (ports : List RteEthDevInfo) : Option FlowDpdkState :=
  setconfLoop nbLcores 0 (ports.take rteMaxEthports) FlowDpdkState.zero

/-- `while(txnum--)` ends the loop at 0 with -1 in `txnum`; the 1 then put into
`ret` is overwritten behind the label. -/
def flowDpdkModuleGetaliq (rteIsPowerOf2 : UInt32 → Bool) : Nat → Int32
  | 0 => if rteIsPowerOf2 0 then -1 else -2
  | txnum + 1 =>
      if rteIsPowerOf2 (UInt32.ofNat (txnum + 1)) then Int32.ofNat txnum
      else flowDpdkModuleGetaliq rteIsPowerOf2 txnum

/-- `rte_is_power_of_2`, which releases of the library answer differently for 0. -/
structure PowerOfTwoTest where
  test : UInt32 → Bool
  exact : ∀ n, n ≠ 0 → (test n = true ↔ n.toNat.isPowerOfTwo)

def rteIsPowerOf2 : PowerOfTwoTest where
  test n := n != 0 && (n &&& (n - 1)) == 0
  exact n positive := by
    have positiveNat : n.toNat ≠ 0 := fun zero => positive (UInt32.toNat_inj.mp zero)
    have one : (1 : UInt32) ≤ n := by
      rw [UInt32.le_iff_toNat_le]
      exact Nat.one_le_iff_ne_zero.mpr positiveNat
    rw [← Nat.and_sub_one_eq_zero_iff_isPowerOfTwo positiveNat]
    simp [positive, ← UInt32.toNat_inj, UInt32.toNat_sub_of_le _ _ one]

end UAFlow.Dpdk
