import UAFlow.AhoCorasick.Model
import UAFlow.Library.CString

/-!
# The configuration of `flow_config_parser.c`

Loading reads the `Item`, `UAKey` and `DDOS` elements of the document into two
hashed tables and two lists of devices; building puts the keys of the sending
items into one trie for each lcore; searching asks the trie of an lcore for its
first match.
-/

namespace UAFlow.Config

open Library AhoCorasick

abbrev flowConfigSlotSize : Nat := 4096
def flowConfigSlotMask : Nat := flowConfigSlotSize - 1
abbrev flowLcoreMaxSlot : Nat := 32
def rteMaxEthports : Nat := 32
def flowConfigDdosScanNumberDefault : UInt32 := 1000
def flowConfigDdosScanMillisecondDefault : UInt32 := 5000

/-! ## The document -/

/-- A node of the document; text and comments are nodes of their own name
without attributes. -/
inductive XmlNode where
  | mk (name : String) (attributes : List (String × List UInt8)) (children : List XmlNode)

namespace XmlNode

def name : XmlNode → String
  | .mk name _ _ => name

def children : XmlNode → List XmlNode
  | .mk _ _ children => children

def searchAttrValue : XmlNode → String → Option (List UInt8)
  | .mk _ attributes _, name => attributes.lookup name

end XmlNode

/-- The siblings from the first one of that name on. -/
def configSearchList (siblings : List XmlNode) (name : String) : List XmlNode :=
  siblings.dropWhile fun node => node.name ≠ name

def configSearchChildren (node : XmlNode) (name : String) : List XmlNode :=
  configSearchList node.children name

def configSearch3 (root : XmlNode) (first second third : String) : List XmlNode :=
  if root.name ≠ first then
    []
  else
    match configSearchChildren root second with
    | [] => []
    | node :: _ => configSearchChildren node third

def configSearchLoop (root : XmlNode) (first second third : String) : List XmlNode :=
  (configSearch3 root first second third).filter fun node => node.name = third

/-! ## Loading -/

inductive FlowPmdMode where
  | rx
  | tx
  deriving DecidableEq

structure FlowConfigItem where
  name : List UInt8
  type : FlowPmdMode
  itemid : UInt32
  deriving DecidableEq

/-- The text is `key_length` bytes long; an attribute value is far shorter than
an `int` can count. -/
structure FlowConfigKey where
  itemid : UInt32
  key : List UInt8
  deriving DecidableEq

structure FlowConfigIdx where
  toBit : Bool
  idx : UInt8
  itemid : UInt32
  deriving DecidableEq

/-- The statics of the module; a hashed list is the list of its elements. -/
structure FlowConfigState where
  itemHead : Fin flowConfigSlotSize → List FlowConfigItem
  keyHead : Fin flowConfigSlotSize → List FlowConfigKey
  rxIdxList : List FlowConfigIdx
  txIdxList : List FlowConfigIdx
  actrie : Fin flowLcoreMaxSlot → AcTrie
  scanNumber : UInt32
  scanMillisecond : UInt32

/-- Ways loading and building can go wrong: a device list is written past its
end, its new element was not allocated and is cleared all the same, the slot of a
key is computed from a null `item`, or a trie faults. -/
inductive Fault where
  | idxListOverflow
  | nullIdx
  | nullItem
  | trie (fault : AhoCorasick.Fault)
  deriving DecidableEq

def flowConfigModuleInit : FlowConfigState where
  itemHead := fun _ => []
  keyHead := fun _ => []
  rxIdxList := []
  txIdxList := []
  actrie := fun _ => acTrieCreate
  scanNumber := 0
  scanMillisecond := 0

def slotOf (itemid : UInt32) : Fin flowConfigSlotSize :=
  ⟨itemid.toNat &&& flowConfigSlotMask, Nat.lt_of_le_of_lt Nat.and_le_right (by decide)⟩

def addTail {Element : Type} (head : Fin flowConfigSlotSize → List Element)
    (slot : Fin flowConfigSlotSize) (element : Element) :
    Fin flowConfigSlotSize → List Element :=
  Function.update head slot (head slot ++ [element])

/-- Which calls of `rte_zmalloc` succeed while a document is read, by the place of
the XML element in its loop: for an item, for its element of a device list, for a
key. -/
structure Grants where
  item : Nat → Bool
  idx : Nat → Bool
  key : Nat → Bool

def Grants.all : Grants := ⟨fun _ => true, fun _ => true, fun _ => true⟩

def pushIdx (granted : Bool) (list : List FlowConfigIdx) (itemid : UInt32) :
    Except Fault (List FlowConfigIdx) :=
  if list.length < rteMaxEthports then
    if granted then .ok (list ++ [⟨false, 0, itemid⟩]) else .error .nullIdx
  else
    .error .idxListOverflow

/-- `bind dpdk devices`: the first element of that item that is not bound yet is
marked, and `curptr`, the last element, is given the device. -/
def bindDevice (device : UInt8) (list : List FlowConfigIdx) : List FlowConfigIdx :=
  match list.getLast? with
  | none => list
  | some curptr =>
      match list.findIdx? fun element => element.itemid == curptr.itemid && !element.toBit with
      | none => list
      | some i =>
          (list.modify i fun element => { element with toBit := true }).modify (list.length - 1)
            fun element => { element with idx := device }

def modeOf (stype : List UInt8) : FlowPmdMode :=
  if strncasecmp (literal stype) (literal [114, 120]) 2 = 0 then .rx else .tx

/-- `strncpy(item->name, name, sizeof(item->name) - 1)`. -/
def itemName (name : List UInt8) : List UInt8 := name.take 255

/-- One `Item` element and its place in the loop.  `attach` is the device index
that `rte_eth_dev_attach_self` finds for a name, and `item` is the variable that
is left for the loop over the keys, null after a failed allocation. -/
def parseItem (grants : Grants) (attach : List UInt8 → UInt8)
    (place : FlowConfigState × Option FlowConfigItem) (element : XmlNode × Nat) :
    Except Fault (FlowConfigState × Option FlowConfigItem) :=
  match element.1.searchAttrValue "name", element.1.searchAttrValue "type",
    element.1.searchAttrValue "ID" with
  | some name, some stype, some sid =>
      let state := place.1
      if grants.item element.2 then
        let item : FlowConfigItem := ⟨itemName name, modeOf stype, UInt32.ofInt (atoi sid)⟩
        let state := { state with itemHead := addTail state.itemHead (slotOf item.itemid) item }
        match item.type with
        | .rx =>
            match pushIdx (grants.idx element.2) state.rxIdxList item.itemid with
            | .error fault => .error fault
            | .ok list => .ok ({ state with rxIdxList := bindDevice (attach name) list }, some item)
        | .tx =>
            match pushIdx (grants.idx element.2) state.txIdxList item.itemid with
            | .error fault => .error fault
            | .ok list => .ok ({ state with txIdxList := bindDevice (attach name) list }, some item)
      else
        .ok (state, none)
  | _, _, _ => .ok place

/-- One `UAKey` element and its place in the loop.  The slot comes from `item`, the
variable left by the loop over the items, and not from the key. -/
def parseKey (grants : Grants) (item : Option FlowConfigItem) (state : FlowConfigState)
    (element : XmlNode × Nat) : Except Fault FlowConfigState :=
  match element.1.searchAttrValue "ItemID", element.1.searchAttrValue "key" with
  | some sid, some skey =>
      if grants.key element.2 then
        match item with
        | none => .error .nullItem
        | some item =>
            let key : FlowConfigKey := ⟨UInt32.ofInt (atoi sid), skey⟩
            .ok { state with keyHead := addTail state.keyHead (slotOf item.itemid) key }
      else
        .ok state
  | _, _ => .ok state

def parseDdos (state : FlowConfigState) (nodes : List XmlNode) : FlowConfigState :=
  match nodes with
  | [] => state
  | node :: _ =>
      match node.searchAttrValue "CKNumber", node.searchAttrValue "CKTime" with
      | some number, some time =>
          { state with
            scanMillisecond := UInt32.ofInt (atoi time)
            scanNumber := UInt32.ofInt (atoi number) }
      | _, _ =>
          { state with
            scanMillisecond := flowConfigDdosScanMillisecondDefault
            scanNumber := flowConfigDdosScanNumberDefault }

/-- `flow_config_module_load_inside_parse`, when the allocations go as in `grants`. -/
def flowConfigModuleLoadInsideParseUnder (grants : Grants) (attach : List UInt8 → UInt8)
    (state : FlowConfigState) (root : XmlNode) : Except Fault FlowConfigState :=
  match (configSearchLoop root "UAFlow" "Capmode" "Item").zipIdx.foldlM (parseItem grants attach)
      (state, none) with
  | .error fault => .error fault
  | .ok (state, item) =>
      match (configSearchLoop root "UAFlow" "Flow" "UAKey").zipIdx.foldlM (parseKey grants item)
          state with
      | .error fault => .error fault
      | .ok state => .ok (parseDdos state (configSearch3 root "UAFlow" "Scan" "DDOS"))

/-- `flow_config_module_load_inside_parse`, when every allocation succeeds. -/
def flowConfigModuleLoadInsideParse (attach : List UInt8 → UInt8) (state : FlowConfigState)
    (root : XmlNode) : Except Fault FlowConfigState :=
  flowConfigModuleLoadInsideParseUnder .all attach state root

/-! ## Building -/

def findItem (state : FlowConfigState) (key : FlowConfigKey) : Option FlowConfigItem :=
  (state.itemHead (slotOf key.itemid)).find? fun item => item.itemid == key.itemid

/-- The device of the first sending element bound for the key's item, else 0. -/
def findIdx (state : FlowConfigState) (key : FlowConfigKey) : UInt8 :=
  match state.txIdxList.find? fun idx => idx.itemid == key.itemid && idx.toBit with
  | some idx => idx.idx
  | none => 0

def buildKey (state : FlowConfigState)
    (place : Nat × (Fin flowLcoreMaxSlot → AcTrie)) (key : FlowConfigKey) :
    Nat × (Fin flowLcoreMaxSlot → AcTrie) :=
  if key.key.length ≤ 0 then
    place
  else
    match findItem state key with
    | none => place
    | some item =>
        if item.type = .rx then
          place
        else
          let j := place.1 + 1
          let patt : AcPattern :=
            { ptext := key.key
              rtext := none
              id := .number j
              itemid := key.itemid
              idx := findIdx state key
              name := item.name }
          (j, fun s => (acTrieAdd (place.2 s) patt false).1)

/-- The keys in the order of the slots. -/
def buildOrder (state : FlowConfigState) : List FlowConfigKey :=
  (List.finRange flowConfigSlotSize).flatMap state.keyHead

def finalizeSlot (actrie : Fin flowLcoreMaxSlot → AcTrie) (s : Fin flowLcoreMaxSlot) :
    Except Fault (Fin flowLcoreMaxSlot → AcTrie) :=
  match acTrieFinalize (actrie s) with
  | .error fault => .error (.trie fault)
  | .ok thiz => .ok (Function.update actrie s thiz)

def flowConfigModuleBuild (state : FlowConfigState) : Except Fault FlowConfigState :=
  let (_, actrie) := (buildOrder state).foldl (buildKey state) (0, state.actrie)
  match (List.finRange flowLcoreMaxSlot).foldlM finalizeSlot actrie with
  | .error fault => .error fault
  | .ok actrie => .ok { state with actrie := actrie }

/-! ## Searching -/

/-- `flow_config_module_search` on the trie of an lcore; `str` is the text
before its terminator. -/
def searchActrie (thiz : AcTrie) (str : List UInt8) :
    Except AhoCorasick.Fault (AcTrie × Int) :=
  match acTrieFindnext (acTrieSettext thiz str false) with
  | .error fault => .error fault
  | .ok (thiz, found) =>
      match found.patterns with
      | [] => .ok (thiz, -1)
      | pattern :: _ => .ok (thiz, pattern.idx.toNat)

def flowConfigModuleSearch (state : FlowConfigState) (str : List UInt8)
    (lcoreId : Fin flowLcoreMaxSlot) : Except AhoCorasick.Fault (FlowConfigState × Int) :=
  match searchActrie (state.actrie lcoreId) str with
  | .error fault => .error fault
  | .ok (thiz, ret) =>
      .ok ({ state with actrie := Function.update state.actrie lcoreId thiz }, ret)

end UAFlow.Config
