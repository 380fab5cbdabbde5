import Mathlib.Data.Nat.Bits
import Mathlib.Data.Nat.Bitwise
import Mathlib.Logic.Function.Basic
import UAFlow.Library.Runs

/-!
# The scan detector of `flow_ddos.c`

A node of the pool carries its `head` field in the pointer maps `next` and
`prev` of the state, at the cell `.node n`; the other fields are its record in
`node`.  Nodes are numbered in the order `rte_mempool_get` hands them out, so
the next one handed out is always `used`; none is ever put back.  What the pool
memory holds before a node is handed out is arbitrary.
-/

namespace UAFlow.Ddos

open Library

abbrev flowLcoreMaxSlot : Nat := 32
abbrev flowDdosNodeListMaxSz : Nat := 10240
def flowDdosNodeListMask : Nat := flowDdosNodeListMaxSz - 1
abbrev flowDdosEverynodeEntryMaxSz : Nat := 1024

/-- The address union: `addrv4` is the first four of the sixteen bytes of
`addrv6`. -/
structure FlowDdosAddr where
  addrv4 : UInt32
  rest : BitVec 96
  deriving DecidableEq

structure FlowDdosEntry where
  port : UInt16
  addr : FlowDdosAddr
  deriving DecidableEq

structure FlowDdosNode where
  addr : FlowDdosAddr
  modtime : UInt32
  nPackets : UInt32
  entry : Nat → FlowDdosEntry

inductive Family where
  | v4
  | v6
  deriving DecidableEq

/-- One row of `flow_ddos_v4_list` or `flow_ddos_v6_list`. -/
structure Table where
  family : Family
  core : Fin flowLcoreMaxSlot
  deriving DecidableEq

structure Bucket where
  table : Table
  slot : Fin flowDdosNodeListMaxSz
  deriving DecidableEq

/-- What a `struct list_head *` can name here. -/
inductive Cell where
  | null
  | head (bucket : Bucket)
  | node (item : Nat)
  deriving DecidableEq

structure FlowDdosState where
  next : Cell → Cell
  prev : Cell → Cell
  node : Nat → FlowDdosNode
  used : Nat

/-- The module's statics after `init`, with the two hash functions of
`rte_jhash.h`. -/
structure FlowDdosConfig where
  jhash1word : UInt32 → UInt32 → UInt32
  jhash : FlowDdosAddr → UInt32 → UInt32
  initval : Fin flowLcoreMaxSlot → UInt32
  scanNumber : UInt32
  scanMillisecond : UInt32

/-- Ways a call can fail to return: the bucket walk has not ended within the
steps allowed, the walk meets a pointer to no node of the bucket's type, the
eviction works on a null `old`, or `entry` is written past its last element. -/
inductive Fault where
  | walkUnfinished
  | badLink
  | nullVictim
  | entryOverflow
  deriving DecidableEq

/-- A source address as the packet carries it. -/
inductive Source where
  | v4 (srcAddr : UInt32)
  | v6 (srcAddr : FlowDdosAddr)
  deriving DecidableEq

namespace Source

def family : Source → Family
  | .v4 _ => .v4
  | .v6 _ => .v6

/-- The comparison with a stored union: `==` on `addrv4`, `memcmp` of sixteen
bytes for `addrv6`. -/
def heldIn (source : Source) (addr : FlowDdosAddr) : Bool :=
  match source with
  | .v4 srcAddr => addr.addrv4 == srcAddr
  | .v6 srcAddr => addr == srcAddr

/-- The assignment to a stored union; an IPv4 address leaves the other twelve
bytes alone. -/
def store (source : Source) (addr : FlowDdosAddr) : FlowDdosAddr :=
  match source with
  | .v4 srcAddr => { addr with addrv4 := srcAddr }
  | .v6 srcAddr => srcAddr

end Source

/-- The values successive `flow_current_module.get()` calls return during one
detection; the clock may advance between them. -/
structure Clock where
  evicted : UInt32
  created : UInt32
  tested : UInt32
  stamped : UInt32

def Clock.still (now : UInt32) : Clock := ⟨now, now, now, now⟩

/-- One call: the core it runs on, the two packet fields it reads, the clock,
and whether `rte_mempool_get` yields a node. -/
structure Call where
  source : Source
  core : Fin flowLcoreMaxSlot
  srcPort : UInt16
  clock : Clock
  granted : Bool

def Call.table (call : Call) : Table := ⟨call.source.family, call.core⟩

def flowDdosSlot (hash : UInt32) : Fin flowDdosNodeListMaxSz :=
  ⟨hash.toNat &&& flowDdosNodeListMask,
    Nat.lt_of_le_of_lt Nat.and_le_right (by decide)⟩

def FlowDdosConfig.slotOf (config : FlowDdosConfig) (table : Table)
    (source : Source) : Fin flowDdosNodeListMaxSz :=
  match source with
  | .v4 srcAddr => flowDdosSlot (config.jhash1word srcAddr (config.initval table.core))
  | .v6 srcAddr => flowDdosSlot (config.jhash srcAddr (config.initval table.core))

def Call.bucket (config : FlowDdosConfig) (call : Call) : Bucket :=
  ⟨call.table, config.slotOf call.table call.source⟩

namespace FlowDdosState

def initListHead (state : FlowDdosState) (list : Cell) : FlowDdosState :=
  { state with
    next := Function.update state.next list list
    prev := Function.update state.prev list list }

/-- `__list_add`, its four writes in their order. -/
def listAdd (state : FlowDdosState) (new prev next : Cell) : FlowDdosState :=
  let state := { state with prev := Function.update state.prev next new }
  let state := { state with next := Function.update state.next new next }
  let state := { state with prev := Function.update state.prev new prev }
  { state with next := Function.update state.next prev new }

def listAddTail (state : FlowDdosState) (new head : Cell) : FlowDdosState :=
  state.listAdd new (state.prev head) head

def setNode (state : FlowDdosState) (item : Nat) (value : FlowDdosNode) : FlowDdosState :=
  { state with node := Function.update state.node item value }

/-- `memset(item, 0x0, sizeof(struct flow_ddos_node))`, the embedded
`list_head` included. -/
def memset (state : FlowDdosState) (item : Nat) : FlowDdosState :=
  { state with
    next := Function.update state.next (.node item) .null
    prev := Function.update state.prev (.node item) .null
    node := Function.update state.node item
      ⟨⟨0, 0⟩, 0, 0, fun _ => ⟨0, ⟨0, 0⟩⟩⟩ }

def stampNew (state : FlowDdosState) (item : Nat) (source : Source)
    (now : UInt32) : FlowDdosState :=
  let node := state.node item
  state.setNode item
    { node with modtime := now, nPackets := 0, addr := source.store node.addr }

end FlowDdosState

/-- The loop variables of `list_for_each_entry`. -/
structure Scan where
  cnt : Nat
  mtime : UInt32
  old : Option Nat

def Scan.start : Scan := ⟨0, 3000000000, none⟩

def Scan.visit (scan : Scan) (item : Nat) (modtime : UInt32) : Scan :=
  if modtime < scan.mtime then
    ⟨scan.cnt + 1, modtime, some item⟩
  else
    { scan with cnt := scan.cnt + 1 }

/-- `list_for_each_entry` from `pos` on: the node with the searched address,
or `none` once `pos` is the list head. -/
def scanBucket (state : FlowDdosState) (head : Cell) (source : Source) :
    Nat → Cell → Scan → Except Fault (Option Nat × Scan)
  | 0, _, _ => .error .walkUnfinished
  | fuel + 1, pos, scan =>
      if pos = head then
        .ok (none, scan)
      else
        match pos with
        | .node item =>
            if source.heldIn (state.node item).addr then
              .ok (some item, scan)
            else
              scanBucket state head source fuel (state.next pos)
                (scan.visit item (state.node item).modtime)
        | _ => .error .badLink

def flowDdosScan (state : FlowDdosState) (bucket : Bucket) (source : Source)
    (fuel : Nat) : Except Fault (Option Nat × Scan) :=
  scanBucket state (.head bucket) source fuel (state.next (.head bucket)) Scan.start

def elapsedFires (config : FlowDdosConfig) (modtime now : UInt32) : Bool :=
  (modtime - now) * 1000 > config.scanMillisecond

def recorded (node : FlowDdosNode) (source : Source) (srcPort : UInt16) : Bool :=
  (List.range node.nPackets.toNat).any fun i =>
    (node.entry i).port == srcPort && source.heldIn (node.entry i).addr

/-- `item->n_packets = 0` under the elapsed-time test, then `item->modtime`. -/
def refresh (config : FlowDdosConfig) (node : FlowDdosNode) (clock : Clock) : FlowDdosNode :=
  { node with
    nPackets := if elapsedFires config node.modtime clock.tested then 0 else node.nPackets
    modtime := clock.stamped }

/-- The new entry at index `n_packets`, and the increment. -/
def addEntry (node : FlowDdosNode) (source : Source) (srcPort : UInt16) : FlowDdosNode :=
  let index := node.nPackets.toNat
  { node with
    entry := Function.update node.entry index
      ⟨srcPort, source.store (node.entry index).addr⟩
    nPackets := node.nPackets + 1 }

/-- Both detectors from `/*item is not null*/` on. -/
def flowDdosRecord (config : FlowDdosConfig) (state : FlowDdosState) (call : Call)
    (item : Nat) : Except Fault (FlowDdosState × Int) :=
  let node := refresh config (state.node item) call.clock
  if recorded node call.source call.srcPort then
    .ok (state.setNode item node, 0)
  else if node.nPackets.toNat ≥ flowDdosEverynodeEntryMaxSz then
    .error .entryOverflow
  else
    let node := addEntry node call.source call.srcPort
    if node.nPackets > config.scanNumber then
      .ok (state.setNode item { node with nPackets := 0 }, 1)
    else
      .ok (state.setNode item node, 0)

/-- The eviction branch before the two paths join; the same in both detectors. -/
def evictOld (state : FlowDdosState) (call : Call) (old : Nat) : FlowDdosState :=
  (state.memset old).stampNew old call.source call.clock.evicted

def mempoolGet (state : FlowDdosState) : FlowDdosState :=
  { state with used := state.used + 1 }

/-- What the two detectors share: the walk, then the found node, the evicted
node, a node from the pool, or no node at all. -/
def detectWith
    (insert : FlowDdosConfig → FlowDdosState → Call → Nat → FlowDdosState)
    (config : FlowDdosConfig) (fuel : Nat) (state : FlowDdosState) (call : Call) :
    Except Fault (FlowDdosState × Int) :=
  match flowDdosScan state (call.bucket config) call.source fuel with
  | .error fault => .error fault
  | .ok (some item, _) => flowDdosRecord config state call item
  | .ok (none, scan) =>
      if scan.cnt = 10 then
        match scan.old with
        | none => .error .nullVictim
        | some old =>
            flowDdosRecord config (insert config (evictOld state call old) call old) call old
      else if call.granted then
        let item := state.used
        flowDdosRecord config (insert config (mempoolGet state) call item) call item
      else
        .ok (state, 0)

def v4Insert (config : FlowDdosConfig) (state : FlowDdosState) (call : Call)
    (item : Nat) : FlowDdosState :=
  (((state.memset item).initListHead (.node item)).stampNew item call.source
    call.clock.created).listAddTail (.node item) (.head (call.bucket config))

def flowDdosModuleV4detect := detectWith v4Insert

/-- Unlike `v4Insert` this does not clear the node first. -/
def v6Insert (config : FlowDdosConfig) (state : FlowDdosState) (call : Call)
    (item : Nat) : FlowDdosState :=
  ((state.stampNew item call.source call.clock.created).initListHead (.node item)).listAddTail
    (.node item) (.head (call.bucket config))

def flowDdosModuleV6detect := detectWith v6Insert

/-- The detector a packet of the source's family is given to. -/
def detect (config : FlowDdosConfig) (fuel : Nat) (state : FlowDdosState)
    (call : Call) : Except Fault (FlowDdosState × Int) :=
  match call.source with
  | .v4 _ => flowDdosModuleV4detect config fuel state call
  | .v6 _ => flowDdosModuleV6detect config fuel state call

/-- Every list head names itself; the pool memory is whatever it was. -/
def flowDdosModuleInit (memory : Nat → FlowDdosNode) : FlowDdosState where
  next := fun
    | .head bucket => .head bucket
    | _ => .null
  prev := fun
    | .head bucket => .head bucket
    | _ => .null
  node := memory
  used := 0

/-- A call that returns, with the state it leaves and its verdict. -/
def Returns (config : FlowDdosConfig) (state : FlowDdosState) (call : Call)
    (after : FlowDdosState) (verdict : Int) : Prop :=
  ∃ fuel, detect config fuel state call = .ok (after, verdict)

def Step (config : FlowDdosConfig) (state : FlowDdosState) (call : Call)
    (after : FlowDdosState) : Prop :=
  ∃ verdict, Returns config state call after verdict

/-- The state after a sequence of returning calls from `init`. -/
def Reaches (config : FlowDdosConfig) (memory : Nat → FlowDdosNode)
    (calls : List Call) (state : FlowDdosState) : Prop :=
  Run (Step config) (flowDdosModuleInit memory) calls state

def runCalls (config : FlowDdosConfig) (fuel : Nat) :
    FlowDdosState → List Call → Except Fault FlowDdosState
  | state, [] => .ok state
  | state, call :: calls =>
      match detect config fuel state call with
      | .error fault => .error fault
      | .ok (after, _) => runCalls config fuel after calls

theorem run_of_runCalls {config : FlowDdosConfig} (fuel : Nat) {calls : List Call}
    {start finish : FlowDdosState} (computed : runCalls config fuel start calls = .ok finish) :
    Run (Step config) start calls finish := by
  induction calls generalizing start with
  | nil => exact Except.ok.inj computed
  | cons call calls inductionHypothesis =>
      rw [runCalls] at computed
      split at computed
      next fault failed => simp at computed
      next after verdict returned =>
        exact ⟨after, ⟨verdict, fuel, returned⟩, inductionHypothesis computed⟩

def stateAfter (config : FlowDdosConfig) (fuel : Nat) (start : FlowDdosState)
    (calls : List Call) : FlowDdosState :=
  match runCalls config fuel start calls with
  | .ok finish => finish
  | .error _ => start

theorem run_stateAfter (config : FlowDdosConfig) (fuel : Nat) (start : FlowDdosState)
    (calls : List Call) (returned : (runCalls config fuel start calls).isOk = true) :
    Run (Step config) start calls (stateAfter config fuel start calls) := by
  apply run_of_runCalls fuel
  unfold stateAfter
  cases computed : runCalls config fuel start calls with
  | ok finish => rfl
  | error fault => simp [computed, Except.isOk, Except.toBool] at returned

end UAFlow.Ddos
