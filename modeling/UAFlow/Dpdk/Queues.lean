import UAFlow.Dpdk.Model
import UAFlow.UserAgent.Parsing

/-!
# Queues that are used and queues that were set up

A port is used with queues up to the largest count of any port, although it may
have fewer itself.  The theorem says when that does no harm.
-/

namespace UAFlow.Dpdk

open Config Forward UserAgent

/-! ## What is set up -/

theorem foldl_queueSetup (i nbQueue : Nat) (queues : Queues) :
    (List.range nbQueue).foldl (queueSetup i) queues =
      { queues with
        queueMask := fun queueid => decide (queueid < nbQueue) || queues.queueMask queueid
        setUp := queues.setUp ++ (List.range nbQueue).map (Prod.mk i) } := by
  induction nbQueue with
  | zero => simp
  | succ count inductionHypothesis =>
      have mask : Function.update (fun queueid =>
          decide (queueid < count) || queues.queueMask queueid) count true =
            fun queueid => decide (queueid < count + 1) || queues.queueMask queueid := by
        funext queueid
        by_cases here : queueid = count
        · subst here
          simp
        · have same : queueid < count + 1 ↔ queueid < count := by omega
          simp [Function.update_of_ne here, same]
      rw [List.range_succ, List.foldl_append, inductionHypothesis, List.map_append]
      simp [queueSetup, mask]

/-- The number a port of these has, or 0 when there is no such port. -/
def ofPort (count : RteEthDevInfo → Nat) (ports : List RteEthDevInfo) (port : Nat) : Nat :=
  (ports[port]?.map count).getD 0

structure Configured (count : RteEthDevInfo → Nat) (i : Nat) (ports : List RteEthDevInfo)
    (before after : Queues) : Prop where
  setUp : ∀ port queueid, (port, queueid) ∈ after.setUp ↔
    (port, queueid) ∈ before.setUp ∨ i ≤ port ∧ queueid < ofPort count ports (port - i)
  queueMask : ∀ queueid, after.queueMask queueid = true ↔
    before.queueMask queueid = true ∨ ∃ devInfo ∈ ports, queueid < count devInfo
  queueNum : after.queueNum = (ports.getLast?.map count).getD before.queueNum

theorem configured_nil (count : RteEthDevInfo → Nat) (i : Nat) (queues : Queues) :
    Configured count i [] queues queues := by
  constructor <;> simp [ofPort]

theorem Configured.cons {count : RteEthDevInfo → Nat} {i : Nat} {devInfo : RteEthDevInfo}
    {ports : List RteEthDevInfo} {before after : Queues}
    (others : Configured count (i + 1) ports (setupQueues i (count devInfo) before) after) :
    Configured count i (devInfo :: ports) before after := by
  have first := foldl_queueSetup i (count devInfo) { before with queueNum := count devInfo }
  unfold setupQueues at others
  rw [first] at others
  constructor
  · intro port queueid
    have here : (port, queueid) ∈ (List.range (count devInfo)).map (Prod.mk i) ↔
        port = i ∧ queueid < count devInfo := by
      simp [and_comm, eq_comm]
    rw [others.setUp, List.mem_append, here, or_assoc]
    apply or_congr_right
    rcases Nat.lt_trichotomy port i with below | rfl | above
    · omega
    · simp [ofPort]
    · obtain ⟨distance, rfl⟩ : ∃ distance, port = i + 1 + distance := ⟨port - (i + 1), by omega⟩
      have next : i + 1 + distance - i = distance + 1 := by omega
      have same : ofPort count (devInfo :: ports) (distance + 1) = ofPort count ports distance :=
        rfl
      rw [next, Nat.add_sub_cancel_left, same]
      omega
  · intro queueid
    rw [others.queueMask]
    simp only [Bool.or_eq_true, decide_eq_true_eq, List.mem_cons]
    constructor
    · rintro ((inside | old) | ⟨other, membership, inside⟩)
      · exact Or.inr ⟨devInfo, Or.inl rfl, inside⟩
      · exact Or.inl old
      · exact Or.inr ⟨other, Or.inr membership, inside⟩
    · rintro (old | ⟨other, rfl | membership, inside⟩)
      · exact Or.inl (Or.inr old)
      · exact Or.inl (Or.inl inside)
      · exact Or.inr ⟨other, membership, inside⟩
  · rw [others.queueNum]
    cases ports with
    | nil => rfl
    | cons => simp [List.getLast?_cons]

theorem setconfLoop_configured {nbLcores i : Nat} {ports : List RteEthDevInfo}
    {before after : FlowDpdkState}
    (returned : setconfLoop nbLcores i ports before = some after) :
    Configured (nbRxQueue nbLcores) i ports before.rx after.rx ∧
      Configured (nbTxQueue nbLcores) i ports before.tx after.tx := by
  induction ports generalizing i before with
  | nil =>
      obtain rfl := Option.some.inj returned
      exact ⟨configured_nil _ i _, configured_nil _ i _⟩
  | cons devInfo ports inductionHypothesis =>
      rw [setconfLoop] at returned
      split at returned
      next =>
        obtain ⟨rx, tx⟩ := inductionHypothesis returned
        exact ⟨rx.cons, tx.cons⟩
      next => simp at returned

/-! ## The ports in use -/

/-- Ports, lcores and devices of the configuration, after a call of
`flow_dpdk_module_setconf` that returned.  `search` answers with a device of a
sending item or with no more than 0. -/
structure Deployment where
  ports : List RteEthDevInfo
  nbLcores : Nat
  rxIdxList : List UInt8
  txIdxList : List UInt8
  search : List UInt8 → Int
  powerOfTwo : PowerOfTwoTest
  state : FlowDpdkState
  few : ports.length ≤ rteMaxEthports
  rxConfigured : rxIdxList ≠ []
  txConfigured : txIdxList ≠ []
  attached : ∀ idx ∈ rxIdxList ++ txIdxList, idx = 0 ∨ idx.toNat < ports.length
  answers : ∀ str, search str ≤ 0 ∨ ∃ idx ∈ txIdxList, search str = idx.toNat
  returned : flowDpdkModuleSetconf nbLcores ports = some state

namespace Deployment

variable (deployment : Deployment)

/-- `prxidx[0]->idx`, which the loop over the devices never changes. -/
def polled : Nat := (deployment.rxIdxList.head deployment.rxConfigured).toNat

def defaultidx : Nat := (deployment.txIdxList.head deployment.txConfigured).toNat

/-- A worker that passes the check of `flow_dpdk_module_cores_loop`. -/
def Runs (lcoreId : Nat) : Prop :=
  1 ≤ lcoreId ∧ lcoreId < deployment.nbLcores ∧
    deployment.state.rx.queueMask (lcoreId - 1) = true

/-- The HTTP handler sends a packet to this port, for the callbacks its parser makes of
the payload. -/
def Dispatches (portid : Int) : Prop :=
  ∃ payload : Payload, payload.text.length < 2 ^ 16 ∧
    flowUaCommonModuleHttphandle deployment.search
      ((callbacksOf embedded payload.text).map (Event.callback payload.memory)) = .send portid

/-- The pairs `flow_forward_module_forward` passes to `rte_eth_rx_burst`. -/
inductive RxBurst : Int → Int → Prop where
  | forward (lcoreId : Nat) (runs : deployment.Runs lcoreId) :
      RxBurst deployment.polled (lcoreId - 1)

/-- The pairs passed to `rte_eth_tx_burst`; the ring is filled by workers. -/
inductive TxBurst : Int → Int → Prop where
  | httphandle (lcoreId : Nat) (runs : deployment.Runs lcoreId) (portid : Int)
      (dispatches : deployment.Dispatches portid) : TxBurst portid (lcoreId - 1)
  | defsend (lcoreId : Nat) (runs : deployment.Runs lcoreId) (mbuf : RteMbuf) :
      TxBurst deployment.defaultidx
        (defsendQueueid
          (flowDpdkModuleGetaliq deployment.powerOfTwo.test deployment.state.tx.queueNum) mbuf)

end Deployment

def IsSetUp (queues : Queues) (port queueid : Int) : Prop :=
  ∃ pair ∈ queues.setUp, port = (pair.1 : Int) ∧ queueid = (pair.2 : Int)

/-- A text that the handler searches for when it is given some payload. -/
def Captured (text : List UInt8) : Prop :=
  ∃ payload : List UInt8, payload.length < 2 ^ 16 ∧ capturedText embedded payload = some text

/-- Every pair that is used was set up. -/
def UsesSetUp (deployment : Deployment) : Prop :=
  (∀ port queueid, deployment.RxBurst port queueid →
      IsSetUp deployment.state.rx port queueid) ∧
    ∀ port queueid, deployment.TxBurst port queueid →
      IsSetUp deployment.state.tx port queueid

/-! ## The mask of the default sender -/

theorem log2_succ {txnum : Nat} (positive : txnum ≠ 0)
    (notPower : ¬ (txnum + 1).isPowerOfTwo) : (txnum + 1).log2 = txnum.log2 := by
  apply (Nat.log2_eq_iff (Nat.succ_ne_zero txnum)).mpr
  obtain ⟨lower, upper⟩ := (Nat.log2_eq_iff positive).mp rfl
  refine ⟨lower.trans (Nat.le_succ txnum), lt_of_le_of_ne (Nat.succ_le_of_lt upper) ?_⟩
  intro same
  exact notPower ⟨_, same⟩

theorem getaliq_eq (powerOfTwo : PowerOfTwoTest) {txnum : Nat} (positive : txnum ≠ 0)
    (small : txnum < 2 ^ 32) :
    flowDpdkModuleGetaliq powerOfTwo.test txnum = Int32.ofNat (2 ^ txnum.log2 - 1) := by
  induction txnum with
  | zero => exact absurd rfl positive
  | succ txnum inductionHypothesis =>
      have value : (UInt32.ofNat (txnum + 1)).toNat = txnum + 1 :=
        UInt32.toNat_ofNat_of_lt' small
      have nonzero : UInt32.ofNat (txnum + 1) ≠ 0 := by
        intro zero
        rw [zero] at value
        exact Nat.succ_ne_zero txnum value.symm
      have decides := powerOfTwo.exact _ nonzero
      rw [value] at decides
      rw [flowDpdkModuleGetaliq]
      split
      next power =>
        obtain ⟨k, same⟩ := decides.mp power
        rw [same, Nat.log2_two_pow, ← same, Nat.add_sub_cancel]
      next notPower =>
        have before : txnum ≠ 0 := by
          rintro rfl
          exact notPower (decides.mpr Nat.isPowerOfTwo_one)
        rw [inductionHypothesis before (Nat.lt_of_succ_lt small),
          log2_succ before (mt decides.mpr notPower)]

theorem defsendQueueid_ones (mbuf : RteMbuf) {k : Nat} (small : k < 32) :
    defsendQueueid (Int32.ofNat (2 ^ k - 1)) mbuf = ((mbuf.byte 17).toNat % 2 ^ k : Nat) := by
  have bound : 2 ^ k - 1 < 2 ^ 32 :=
    (Nat.sub_le _ _).trans_lt (Nat.pow_lt_pow_right (by decide) small)
  have value : ((mbuf.byte 17).toUInt32 &&& UInt32.ofNat (2 ^ k - 1)).toNat =
      (mbuf.byte 17).toNat % 2 ^ k := by
    rw [UInt32.toNat_and, UInt8.toNat_toUInt32, UInt32.toNat_ofNat_of_lt' bound,
      Nat.and_two_pow_sub_one_eq_mod]
  have below : (mbuf.byte 17).toNat % 2 ^ k < 256 :=
    (Nat.mod_le _ _).trans_lt (mbuf.byte 17).toNat_lt
  change ((mbuf.byte 17).toUInt32 &&& UInt32.ofNat (2 ^ k - 1)).toBitVec.toInt = _
  rw [BitVec.toInt_eq_toNat_of_lt]
  · exact congrArg Nat.cast value
  · change 2 * ((mbuf.byte 17).toUInt32 &&& UInt32.ofNat (2 ^ k - 1)).toNat < _
    omega

theorem defsendQueueid_negative (mbuf : RteMbuf) :
    defsendQueueid (-1) mbuf = (mbuf.byte 17).toNat ∧
      defsendQueueid (-2) mbuf = ((mbuf.byte 17).toNat / 2 * 2 : Nat) := by
  have all : ∀ value : Fin 256,
      ((UInt8.ofFin value).toUInt32.toInt32 &&& -1).toInt = value.val ∧
        ((UInt8.ofFin value).toUInt32.toInt32 &&& -2).toInt = (value.val / 2 * 2 : Nat) := by
    decide +kernel
  exact all (mbuf.byte 17).toFin

/-- How many queues the bytes of packets can select. -/
def defsendQueues (test : UInt32 → Bool) (txnum : Nat) : Nat :=
  if txnum = 0 then
    if test 0 then 256 else 255
  else
    min (2 ^ txnum.log2) 256

def uniform (byte : UInt8) : RteMbuf := ⟨fun _ => byte, 0, 0⟩

/-- What the queue is in terms of the byte, and a byte for the last queue. -/
theorem defsendQueueid_spec (powerOfTwo : PowerOfTwoTest) {txnum : Nat}
    (small : txnum < 2 ^ 32) :
    (∀ mbuf, ∃ queueid : Nat, defsendQueueid
        (flowDpdkModuleGetaliq powerOfTwo.test txnum) mbuf = queueid ∧
          queueid < defsendQueues powerOfTwo.test txnum) ∧
      ∃ mbuf, ∃ queueid : Nat, defsendQueueid
        (flowDpdkModuleGetaliq powerOfTwo.test txnum) mbuf = queueid ∧
          queueid + 1 = defsendQueues powerOfTwo.test txnum := by
  unfold defsendQueues
  split
  next none =>
    rw [none, flowDpdkModuleGetaliq]
    split
    next =>
      refine ⟨fun mbuf => ⟨_, (defsendQueueid_negative mbuf).1, (mbuf.byte 17).toNat_lt⟩, ?_⟩
      exact ⟨uniform 255, _, (defsendQueueid_negative _).1, rfl⟩
    next =>
      refine ⟨fun mbuf => ⟨_, (defsendQueueid_negative mbuf).2, ?_⟩, ?_⟩
      · have below := (mbuf.byte 17).toNat_lt
        omega
      · exact ⟨uniform 254, _, (defsendQueueid_negative _).2, rfl⟩
  next positive =>
    have exponent : txnum.log2 < 32 := (Nat.log2_lt positive).mpr small
    have ones : 0 < 2 ^ txnum.log2 := Nat.two_pow_pos _
    rw [getaliq_eq powerOfTwo positive small]
    constructor
    · intro mbuf
      refine ⟨_, defsendQueueid_ones mbuf exponent, lt_min (Nat.mod_lt _ ones) ?_⟩
      exact (Nat.mod_le _ _).trans_lt (mbuf.byte 17).toNat_lt
    · refine ⟨uniform (UInt8.ofNat (min (2 ^ txnum.log2) 256 - 1)), _,
        defsendQueueid_ones _ exponent, ?_⟩
      have byte : ((uniform (UInt8.ofNat (min (2 ^ txnum.log2) 256 - 1))).byte 17).toNat =
          min (2 ^ txnum.log2) 256 - 1 := by
        apply UInt8.toNat_ofNat_of_lt'
        change min (2 ^ txnum.log2) 256 - 1 < 256
        omega
      rw [byte, Nat.mod_eq_of_lt (by omega)]
      omega

/-- As many queues as bytes can select are necessary, and enough, for every byte. -/
theorem defsendQueueid_within (powerOfTwo : PowerOfTwoTest) {txnum : Nat}
    (small : txnum < 2 ^ 32) (count : Nat) :
    (∀ mbuf, ∃ queueid : Nat, defsendQueueid
        (flowDpdkModuleGetaliq powerOfTwo.test txnum) mbuf = queueid ∧ queueid < count) ↔
      defsendQueues powerOfTwo.test txnum ≤ count := by
  obtain ⟨within, mbuf, last, isLast, same⟩ := defsendQueueid_spec powerOfTwo small
  constructor
  · intro all
    obtain ⟨queueid, isQueue, below⟩ := all mbuf
    rw [isLast, Int.natCast_inj] at isQueue
    omega
  · intro enough mbuf
    obtain ⟨queueid, isQueue, below⟩ := within mbuf
    exact ⟨queueid, isQueue, below.trans_le enough⟩

/-! ## When every queue in use is set up -/

theorem queueCount_le (nbLcores : Nat) (max : UInt16) :
    queueCount nbLcores max ≤ nbLcores - 1 ∧ queueCount nbLcores max < 2 ^ 32 := by
  have small := max.toNat_lt
  unfold queueCount
  split <;> omega

theorem Configured.isSetUp_iff {count : RteEthDevInfo → Nat} {ports : List RteEthDevInfo}
    {before after : Queues} (configured : Configured count 0 ports before after)
    (fresh : before.setUp = []) (port : Nat) (queueid : Int) :
    IsSetUp after port queueid ↔ ∃ number : Nat, queueid = number ∧
      number < ofPort count ports port := by
  have pairs := configured.setUp port
  simp only [fresh, Nat.sub_zero] at pairs
  constructor
  · rintro ⟨⟨_, number⟩, membership, samePort, sameQueue⟩
    obtain rfl := Int.natCast_inj.mp samePort
    exact ⟨number, sameQueue, (((pairs number).mp membership).resolve_left List.not_mem_nil).2⟩
  · rintro ⟨number, sameQueue, below⟩
    exact ⟨_, (pairs number).mpr (Or.inr ⟨Nat.zero_le port, below⟩), rfl, sameQueue⟩

namespace Deployment

variable (deployment : Deployment)

def rxQueuesOf (port : Nat) : Nat :=
  ofPort (nbRxQueue deployment.nbLcores) deployment.ports port

def txQueuesOf (port : Nat) : Nat :=
  ofPort (nbTxQueue deployment.nbLcores) deployment.ports port

theorem configured :
    Configured (nbRxQueue deployment.nbLcores) 0 deployment.ports FlowDpdkState.zero.rx
        deployment.state.rx ∧
      Configured (nbTxQueue deployment.nbLcores) 0 deployment.ports FlowDpdkState.zero.tx
        deployment.state.tx := by
  have returned := deployment.returned
  rw [flowDpdkModuleSetconf, List.take_of_length_le deployment.few] at returned
  exact setconfLoop_configured returned

theorem queueNum_eq :
    deployment.state.tx.queueNum = deployment.txQueuesOf (deployment.ports.length - 1) := by
  rw [deployment.configured.2.queueNum, List.getLast?_eq_getElem?]
  rfl

theorem queueNum_lt : deployment.state.tx.queueNum < 2 ^ 32 := by
  rw [queueNum_eq, txQueuesOf, ofPort]
  cases deployment.ports[deployment.ports.length - 1]? with
  | none => exact Nat.two_pow_pos 32
  | some devInfo => exact (queueCount_le _ _).2

theorem runs_iff (lcoreId : Nat) :
    deployment.Runs lcoreId ↔ 1 ≤ lcoreId ∧
      ∃ devInfo ∈ deployment.ports, lcoreId - 1 < nbRxQueue deployment.nbLcores devInfo := by
  have mask := deployment.configured.1.queueMask (lcoreId - 1)
  have zero : FlowDpdkState.zero.rx.queueMask (lcoreId - 1) ≠ true := Bool.false_ne_true
  constructor
  · rintro ⟨positive, _, set⟩
    exact ⟨positive, (mask.mp set).resolve_left zero⟩
  · rintro ⟨positive, devInfo, membership, below⟩
    have bound := (queueCount_le deployment.nbLcores devInfo.maxRxQueues).1
    refine ⟨positive, ?_, mask.mpr (Or.inr ⟨devInfo, membership, below⟩)⟩
    unfold nbRxQueue at below
    omega

/-- The workers' queues stay below `count` when the receive queues of every port
do. -/
theorem workers_within (count : Nat) :
    (∀ lcoreId, deployment.Runs lcoreId → lcoreId - 1 < count) ↔
      ∀ devInfo ∈ deployment.ports, nbRxQueue deployment.nbLcores devInfo ≤ count := by
  constructor
  · intro all devInfo membership
    by_contra more
    have runs : deployment.Runs (count + 1) := by
      apply (deployment.runs_iff _).mpr
      exact ⟨Nat.le_add_left 1 count, devInfo, membership, Nat.lt_of_not_le more⟩
    exact Nat.lt_irrefl count (all _ runs)
  · intro all lcoreId runs
    obtain ⟨_, devInfo, membership, below⟩ := (deployment.runs_iff lcoreId).mp runs
    exact below.trans_le (all devInfo membership)

theorem queueid_eq {lcoreId : Nat} (runs : deployment.Runs lcoreId) :
    (lcoreId : Int) - 1 = (lcoreId - 1 : Nat) := by
  have positive := runs.1
  omega

theorem isSetUp_rx (port : Nat) {lcoreId : Nat} (runs : deployment.Runs lcoreId) :
    IsSetUp deployment.state.rx port (lcoreId - 1) ↔ lcoreId - 1 < deployment.rxQueuesOf port := by
  rw [deployment.queueid_eq runs, deployment.configured.1.isSetUp_iff rfl]
  simp [rxQueuesOf]

theorem isSetUp_tx (port : Nat) {lcoreId : Nat} (runs : deployment.Runs lcoreId) :
    IsSetUp deployment.state.tx port (lcoreId - 1) ↔ lcoreId - 1 < deployment.txQueuesOf port := by
  rw [deployment.queueid_eq runs, deployment.configured.2.isSetUp_iff rfl]
  simp [txQueuesOf]

variable {deployment}

theorem dispatches_iff (portid : Int) : deployment.Dispatches portid ↔
    ∃ text, Captured text ∧ 0 < deployment.search text ∧ deployment.search text = portid := by
  unfold Dispatches flowUaCommonModuleHttphandle
  dsimp only
  simp only [searchedText_memory]
  constructor
  · rintro ⟨payload, short, sends⟩
    cases captured : capturedText embedded payload.text with
    | none => simp [captured] at sends
    | some text =>
        simp only [captured] at sends
        split_ifs at sends with refused
        exact ⟨text, ⟨payload.text, short, captured⟩, Int.not_le.mp refused,
          Sender.send.inj sends⟩
  · rintro ⟨text, ⟨payload, short, captured⟩, positive, rfl⟩
    refine ⟨⟨payload, fun _ => 0, 0⟩, short, ?_⟩
    simp only [captured]
    rw [if_neg (Int.not_le.mpr positive)]

end Deployment

/-- What the code relies on.  The polled port has as many receive queues as any
port; each port the HTTP handler sends to has as many transmit queues as any port
has receive queues; and where there is a worker, the default port has as many
transmit queues as the mask, taken from the last port, can select. -/
structure Matched (deployment : Deployment) : Prop where
  polled : ∀ devInfo ∈ deployment.ports,
    nbRxQueue deployment.nbLcores devInfo ≤ deployment.rxQueuesOf deployment.polled
  dispatched : ∀ text, Captured text → 0 < deployment.search text →
    ∀ devInfo ∈ deployment.ports, nbRxQueue deployment.nbLcores devInfo ≤
      deployment.txQueuesOf (deployment.search text).toNat
  default : (∃ devInfo ∈ deployment.ports, 0 < nbRxQueue deployment.nbLcores devInfo) →
    defsendQueues deployment.powerOfTwo.test
        (deployment.txQueuesOf (deployment.ports.length - 1)) ≤
      deployment.txQueuesOf deployment.defaultidx

theorem rxBurst_iff (deployment : Deployment) :
    (∀ port queueid, deployment.RxBurst port queueid →
        IsSetUp deployment.state.rx port queueid) ↔
      ∀ devInfo ∈ deployment.ports, nbRxQueue deployment.nbLcores devInfo ≤
        deployment.rxQueuesOf deployment.polled := by
  rw [← deployment.workers_within]
  constructor
  · intro all lcoreId runs
    exact (deployment.isSetUp_rx _ runs).mp (all _ _ (.forward lcoreId runs))
  · rintro within _ _ ⟨lcoreId, runs⟩
    exact (deployment.isSetUp_rx _ runs).mpr (within lcoreId runs)

theorem httphandle_iff (deployment : Deployment) {portid : Int} (positive : 0 < portid) :
    (∀ lcoreId, deployment.Runs lcoreId →
        IsSetUp deployment.state.tx portid (lcoreId - 1)) ↔
      ∀ devInfo ∈ deployment.ports, nbRxQueue deployment.nbLcores devInfo ≤
        deployment.txQueuesOf portid.toNat := by
  rw [← deployment.workers_within]
  have port : ((portid.toNat : Nat) : Int) = portid := Int.toNat_of_nonneg positive.le
  conv_lhs => rw [← port]
  exact forall_congr' fun lcoreId => imp_congr_right fun runs => deployment.isSetUp_tx _ runs

theorem defsend_iff (deployment : Deployment) :
    (∀ mbuf, IsSetUp deployment.state.tx deployment.defaultidx
        (defsendQueueid
          (flowDpdkModuleGetaliq deployment.powerOfTwo.test deployment.state.tx.queueNum) mbuf)) ↔
      defsendQueues deployment.powerOfTwo.test
          (deployment.txQueuesOf (deployment.ports.length - 1)) ≤
        deployment.txQueuesOf deployment.defaultidx := by
  rw [← deployment.queueNum_eq, ← defsendQueueid_within _ deployment.queueNum_lt]
  exact forall_congr' fun mbuf => deployment.configured.2.isSetUp_iff rfl _ _

/-- Every queue in use was set up on its port exactly when the ports match. -/
theorem usesSetUp_iff_matched (deployment : Deployment) :
    UsesSetUp deployment ↔ Matched deployment := by
  constructor
  · rintro ⟨receives, sends⟩
    refine ⟨(rxBurst_iff deployment).mp receives, ?_, ?_⟩
    · intro text captured positive
      have dispatches : deployment.Dispatches (deployment.search text) :=
        (Deployment.dispatches_iff _).mpr ⟨text, captured, positive, rfl⟩
      apply (httphandle_iff deployment positive).mp
      exact fun lcoreId runs => sends _ _ (.httphandle lcoreId runs _ dispatches)
    · rintro ⟨devInfo, membership, positive⟩
      have runs : deployment.Runs 1 :=
        (deployment.runs_iff 1).mpr ⟨le_rfl, devInfo, membership, positive⟩
      exact (defsend_iff deployment).mp fun mbuf => sends _ _ (.defsend 1 runs mbuf)
  · intro matched
    refine ⟨(rxBurst_iff deployment).mpr matched.polled, ?_⟩
    rintro _ _ (⟨lcoreId, runs, _, dispatches⟩ | ⟨lcoreId, runs, mbuf⟩)
    · obtain ⟨text, captured, positive, rfl⟩ := (Deployment.dispatches_iff _).mp dispatches
      apply (httphandle_iff deployment positive).mpr (matched.dispatched text captured positive)
      exact runs
    · obtain ⟨_, devInfo, membership, below⟩ := (deployment.runs_iff lcoreId).mp runs
      have workers : ∃ devInfo ∈ deployment.ports, 0 < nbRxQueue deployment.nbLcores devInfo :=
        ⟨devInfo, membership, Nat.zero_lt_of_lt below⟩
      exact (defsend_iff deployment).mpr (matched.default workers) mbuf

/-- Two ports with one and two queues, three lcores; the first port is polled. -/
def unequal : Deployment where
  ports := [⟨1, 1, true⟩, ⟨2, 2, true⟩]
  nbLcores := 3
  rxIdxList := [0]
  txIdxList := [0]
  search := fun _ => -1
  powerOfTwo := rteIsPowerOf2
  state := (setconfPort 3 1 (setconfPort 3 0 FlowDpdkState.zero ⟨1, 1, true⟩) ⟨2, 2, true⟩)
  few := by decide
  rxConfigured := by decide
  txConfigured := by decide
  attached := by simp
  answers := fun _ => Or.inl (by decide)
  returned := rfl

/-- The second worker polls queue 1 of the first port, which has only queue 0. -/
theorem not_usesSetUp : ¬ ∀ deployment, UsesSetUp deployment := by
  intro all
  have runs : unequal.Runs 2 := ⟨by decide, by decide, rfl⟩
  obtain ⟨⟨port, queueid⟩, membership, samePort, sameQueue⟩ :=
    (all unequal).1 _ _ (.forward 2 runs)
  have pairs : unequal.state.rx.setUp = [(0, 0), (1, 0), (1, 1)] := rfl
  obtain rfl : 0 = port := Int.natCast_inj.mp samePort
  obtain rfl : 1 = queueid := by omega
  rw [pairs] at membership
  exact absurd membership (by decide)

end UAFlow.Dpdk
