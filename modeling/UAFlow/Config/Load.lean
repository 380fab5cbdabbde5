import Mathlib.Data.List.ReduceOption
import UAFlow.Config.Model
import UAFlow.AhoCorasick.Finalized

/-!
# What loading leaves

The hashed tables and the device lists after the document has been read, in
terms of the items and keys the document declares, in its order.
-/

namespace UAFlow.Config

open Library AhoCorasick

/-! ## The declarations of a document -/

/-- An `Item` element that has all its attributes. -/
structure ItemDecl where
  name : List UInt8
  type : FlowPmdMode
  itemid : UInt32

def ItemDecl.item (decl : ItemDecl) : FlowConfigItem :=
  ⟨itemName decl.name, decl.type, decl.itemid⟩

/-- The element of the device list for an item, once it is bound. -/
def ItemDecl.bound (attach : List UInt8 → UInt8) (decl : ItemDecl) : FlowConfigIdx :=
  ⟨true, attach decl.name, decl.itemid⟩

def itemDecl (node : XmlNode) : Option ItemDecl :=
  match node.searchAttrValue "name", node.searchAttrValue "type", node.searchAttrValue "ID" with
  | some name, some stype, some sid => some ⟨name, modeOf stype, UInt32.ofInt (atoi sid)⟩
  | _, _, _ => none

def keyDecl (node : XmlNode) : Option FlowConfigKey :=
  match node.searchAttrValue "ItemID", node.searchAttrValue "key" with
  | some sid, some skey => some ⟨UInt32.ofInt (atoi sid), skey⟩
  | _, _ => none

def itemNodes (root : XmlNode) : List XmlNode := configSearchLoop root "UAFlow" "Capmode" "Item"

def keyNodes (root : XmlNode) : List XmlNode := configSearchLoop root "UAFlow" "Flow" "UAKey"

/-- An `Item` element that has all its attributes, with what became of it: its item,
or nothing when the allocation failed. -/
def outcome (grants : Grants) (element : XmlNode × Nat) : Option (Option ItemDecl) :=
  (itemDecl element.1).map fun decl => if grants.item element.2 then some decl else none

def itemOutcomes (grants : Grants) (root : XmlNode) : List (Option ItemDecl) :=
  (itemNodes root).zipIdx.filterMap (outcome grants)

/-- The items that are allocated, in document order. -/
def itemsUnder (grants : Grants) (root : XmlNode) : List ItemDecl :=
  (itemOutcomes grants root).reduceOption

/-- What the variable `item` holds behind the loop over the items. -/
def lastItem (grants : Grants) (root : XmlNode) : Option ItemDecl :=
  (itemOutcomes grants root).getLast?.join

/-- Each item that is allocated is given its element of a device list. -/
def IdxGranted (grants : Grants) (elements : List (XmlNode × Nat)) : Prop :=
  ∀ element ∈ elements, ∀ decl, outcome grants element = some (some decl) →
    grants.idx element.2 = true

def keyOutcome (grants : Grants) (element : XmlNode × Nat) : Option FlowConfigKey :=
  if grants.key element.2 then keyDecl element.1 else none

/-- The keys that are allocated, in document order. -/
def keysUnder (grants : Grants) (root : XmlNode) : List FlowConfigKey :=
  (keyNodes root).zipIdx.filterMap (keyOutcome grants)

def items (root : XmlNode) : List ItemDecl := (itemNodes root).filterMap itemDecl

def keys (root : XmlNode) : List FlowConfigKey := (keyNodes root).filterMap keyDecl

def ofType (decls : List ItemDecl) (type : FlowPmdMode) : List ItemDecl :=
  decls.filter fun decl => decl.type = type

/-- A document that the module can be configured with: it has an item, and no
more items of a type than there are places. -/
structure Configuration where
  root : XmlNode
  attach : List UInt8 → UInt8
  someItem : items root ≠ []
  fits : ∀ type, (ofType (items root) type).length ≤ rteMaxEthports

/-! ## Items -/

theorem ofType_concat (decls : List ItemDecl) (decl : ItemDecl) (type : FlowPmdMode) :
    ofType (decls ++ [decl]) type =
      ofType decls type ++ if decl.type = type then [decl] else [] := by
  unfold ofType
  rw [List.filter_append]
  by_cases same : decl.type = type <;> simp [same]

theorem reduceOption_concat_some {Element : Type} (before : List (Option Element))
    (element : Element) :
    (before ++ [some element]).reduceOption = before.reduceOption ++ [element] := by
  rw [List.reduceOption_append, List.reduceOption_cons_of_some, List.reduceOption_nil]

theorem reduceOption_concat_none {Element : Type} (before : List (Option Element)) :
    (before ++ [none]).reduceOption = before.reduceOption := by
  rw [List.reduceOption_append, List.reduceOption_cons_of_none, List.reduceOption_nil,
    List.append_nil]

def itemsLoaded (attach : List UInt8 → UInt8) (decls : List ItemDecl) : FlowConfigState :=
  { flowConfigModuleInit with
    itemHead := fun slot =>
      (decls.filter fun decl => slotOf decl.itemid = slot).map ItemDecl.item
    rxIdxList := (ofType decls .rx).map (ItemDecl.bound attach)
    txIdxList := (ofType decls .tx).map (ItemDecl.bound attach) }

/-- The statics and the variable `item` after elements with these outcomes. -/
def itemsPlace (attach : List UInt8 → UInt8) (outcomes : List (Option ItemDecl)) :
    FlowConfigState × Option FlowConfigItem :=
  (itemsLoaded attach outcomes.reduceOption, outcomes.getLast?.join.map ItemDecl.item)

theorem bindDevice_new (device : UInt8) {list : List FlowConfigIdx}
    (bound : ∀ element ∈ list, element.toBit = true) (itemid : UInt32) :
    bindDevice device (list ++ [⟨false, 0, itemid⟩]) = list ++ [⟨true, device, itemid⟩] := by
  have none : (list.findIdx? fun element => element.itemid == itemid && !element.toBit) =
      none := by
    apply List.findIdx?_eq_none_iff.mpr
    intro element membership
    simp [bound element membership]
  simp [bindDevice, List.findIdx?_append, none, List.modify_eq_take_drop]

theorem addTail_filter {Decl Element : Type} (slot : Decl → Fin flowConfigSlotSize)
    (element : Decl → Element) (decls : List Decl) (decl : Decl) :
    addTail (fun index => (decls.filter fun other => slot other = index).map element) (slot decl)
        (element decl) =
      fun index => ((decls ++ [decl]).filter fun other => slot other = index).map element := by
  funext index
  by_cases here : slot decl = index
  · subst here
    simp [addTail]
  · simp [addTail, here, Function.update_of_ne (Ne.symm here)]

theorem bindDevice_pushIdx (attach : List UInt8 → UInt8) {decls : List ItemDecl}
    (room : decls.length < rteMaxEthports) (decl : ItemDecl) :
    ∃ list, pushIdx true (decls.map (ItemDecl.bound attach)) decl.itemid = .ok list ∧
      bindDevice (attach decl.name) list = (decls ++ [decl]).map (ItemDecl.bound attach) := by
  have length : (decls.map (ItemDecl.bound attach)).length < rteMaxEthports :=
    (List.length_map _).trans_lt room
  have bound : ∀ element ∈ decls.map (ItemDecl.bound attach), element.toBit = true := by
    intro element membership
    obtain ⟨other, _, rfl⟩ := List.mem_map.mp membership
    rfl
  refine ⟨_, if_pos length, ?_⟩
  rw [bindDevice_new _ bound, List.map_append]
  rfl

theorem attributes_of_itemDecl {node : XmlNode} {decl : ItemDecl}
    (declares : itemDecl node = some decl) :
    ∃ name stype sid, node.searchAttrValue "name" = some name ∧
      node.searchAttrValue "type" = some stype ∧ node.searchAttrValue "ID" = some sid ∧
      decl = ⟨name, modeOf stype, UInt32.ofInt (atoi sid)⟩ := by
  unfold itemDecl at declares
  split at declares
  next name stype sid hasName hasType hasId =>
    exact ⟨name, stype, sid, hasName, hasType, hasId, (Option.some.inj declares).symm⟩
  next => cases declares

theorem attributes_of_outcome {grants : Grants} {element : XmlNode × Nat} {decl : ItemDecl}
    (becomes : outcome grants element = some (some decl)) :
    ∃ name stype sid, element.1.searchAttrValue "name" = some name ∧
      element.1.searchAttrValue "type" = some stype ∧
      element.1.searchAttrValue "ID" = some sid ∧ grants.item element.2 = true ∧
      decl = ⟨name, modeOf stype, UInt32.ofInt (atoi sid)⟩ := by
  obtain ⟨declared, declares, granted⟩ := Option.map_eq_some_iff.mp becomes
  obtain ⟨name, stype, sid, hasName, hasType, hasId, same⟩ := attributes_of_itemDecl declares
  split at granted
  next allocated =>
    exact ⟨name, stype, sid, hasName, hasType, hasId, allocated,
      (Option.some.inj granted).symm.trans same⟩
  next => cases granted

theorem parseItem_some {grants : Grants} (attach : List UInt8 → UInt8)
    {outcomes : List (Option ItemDecl)} {element : XmlNode × Nat} {decl : ItemDecl}
    (becomes : outcome grants element = some (some decl))
    (granted : grants.idx element.2 = true)
    (room : (ofType outcomes.reduceOption decl.type).length < rteMaxEthports) :
    parseItem grants attach (itemsPlace attach outcomes) element =
      .ok (itemsPlace attach (outcomes ++ [some decl])) := by
  obtain ⟨name, stype, sid, hasName, hasType, hasId, allocated, rfl⟩ :=
    attributes_of_outcome becomes
  obtain ⟨list, pushed, bound⟩ := bindDevice_pushIdx attach room
    ⟨name, modeOf stype, UInt32.ofInt (atoi sid)⟩
  have tailed := addTail_filter (fun other => slotOf other.itemid) ItemDecl.item
    outcomes.reduceOption ⟨name, modeOf stype, UInt32.ofInt (atoi sid)⟩
  simp only [parseItem, hasName, hasType, hasId, allocated, granted, if_true]
  cases mode : modeOf stype with
  | rx =>
      simp only [mode, ItemDecl.item] at pushed bound tailed ⊢
      simp [itemsPlace, itemsLoaded, pushed, bound, tailed, ofType_concat, ItemDecl.item,
        reduceOption_concat_some]
  | tx =>
      simp only [mode, ItemDecl.item] at pushed bound tailed ⊢
      simp [itemsPlace, itemsLoaded, pushed, bound, tailed, ofType_concat, ItemDecl.item,
        reduceOption_concat_some]

/-- A failed allocation leaves a null `item`, and nothing else. -/
theorem parseItem_denied {grants : Grants} (attach : List UInt8 → UInt8)
    (outcomes : List (Option ItemDecl)) {element : XmlNode × Nat}
    (becomes : outcome grants element = some none) :
    parseItem grants attach (itemsPlace attach outcomes) element =
      .ok (itemsPlace attach (outcomes ++ [none])) := by
  obtain ⟨decl, declares, denied⟩ := Option.map_eq_some_iff.mp becomes
  have refused : ¬ grants.item element.2 = true := fun allocated => by
    rw [if_pos allocated] at denied
    cases denied
  obtain ⟨name, stype, sid, hasName, hasType, hasId, -⟩ := attributes_of_itemDecl declares
  simp only [parseItem, hasName, hasType, hasId, if_neg refused]
  simp [itemsPlace, reduceOption_concat_none]

theorem parseItem_none (grants : Grants) (attach : List UInt8 → UInt8) {element : XmlNode × Nat}
    (becomes : outcome grants element = none) (place : FlowConfigState × Option FlowConfigItem) :
    parseItem grants attach place element = .ok place := by
  have incomplete := Option.map_eq_none_iff.mp becomes
  unfold parseItem
  split
  next name stype sid hasName hasType hasId =>
    simp [itemDecl, hasName, hasType, hasId] at incomplete
  next => rfl

def Fits (decls : List ItemDecl) : Prop :=
  ∀ type, (ofType decls type).length ≤ rteMaxEthports

theorem fits_nil : Fits [] := fun _ => Nat.zero_le _

theorem Fits.of_append {before after : List ItemDecl} (fits : Fits (before ++ after)) :
    Fits before := by
  intro type
  have sum := fits type
  rw [ofType, List.filter_append, List.length_append] at sum
  exact (Nat.le_add_right _ _).trans sum

theorem fits_concat {before : List ItemDecl} (fits : Fits before) (decl : ItemDecl) :
    Fits (before ++ [decl]) ↔ (ofType before decl.type).length < rteMaxEthports := by
  constructor
  · intro all
    have here := all decl.type
    rwa [ofType_concat, if_pos rfl, List.length_append] at here
  · intro room type
    rw [ofType_concat]
    split
    next same =>
      rw [List.length_append, ← same]
      exact room
    next => rw [List.append_nil]; exact fits type

theorem parseItem_fails {grants : Grants} (attach : List UInt8 → UInt8)
    {outcomes : List (Option ItemDecl)} {element : XmlNode × Nat} {decl : ItemDecl}
    (becomes : outcome grants element = some (some decl))
    (fails : (ofType outcomes.reduceOption decl.type).length < rteMaxEthports →
      grants.idx element.2 = false) :
    parseItem grants attach (itemsPlace attach outcomes) element =
      .error (if (ofType outcomes.reduceOption decl.type).length < rteMaxEthports then .nullIdx
        else .idxListOverflow) := by
  have pushed : pushIdx (grants.idx element.2)
      ((ofType outcomes.reduceOption decl.type).map (ItemDecl.bound attach)) decl.itemid =
        .error (if (ofType outcomes.reduceOption decl.type).length < rteMaxEthports then .nullIdx
          else .idxListOverflow) := by
    unfold pushIdx
    rw [List.length_map]
    split
    next room => rw [fails room]; rfl
    next => rfl
  obtain ⟨name, stype, sid, hasName, hasType, hasId, allocated, rfl⟩ :=
    attributes_of_outcome becomes
  simp only [parseItem, hasName, hasType, hasId, allocated, if_true]
  cases mode : modeOf stype with
  | rx =>
      simp only [mode] at pushed
      simp only [itemsPlace, itemsLoaded, pushed]
  | tx =>
      simp only [mode] at pushed
      simp only [itemsPlace, itemsLoaded, pushed]

theorem idxGranted_cons {grants : Grants} {element : XmlNode × Nat}
    {elements : List (XmlNode × Nat)} :
    IdxGranted grants (element :: elements) ↔
      (∀ decl, outcome grants element = some (some decl) → grants.idx element.2 = true) ∧
        IdxGranted grants elements :=
  List.forall_mem_cons

section Items

variable {grants : Grants} (attach : List UInt8 → UInt8) {before : List (Option ItemDecl)}

theorem foldlM_parseItem_ok {elements : List (XmlNode × Nat)}
    (fits : Fits (before ++ elements.filterMap (outcome grants)).reduceOption)
    (granted : IdxGranted grants elements) :
    elements.foldlM (parseItem grants attach) (itemsPlace attach before) =
      .ok (itemsPlace attach (before ++ elements.filterMap (outcome grants))) := by
  induction elements generalizing before with
  | nil =>
      rw [List.filterMap_nil, List.append_nil]
      rfl
  | cons element elements inductionHypothesis =>
      obtain ⟨first, granted⟩ := idxGranted_cons.mp granted
      rw [List.foldlM_cons]
      cases becomes : outcome grants element with
      | none =>
          rw [List.filterMap_cons_none becomes] at fits ⊢
          rw [parseItem_none grants attach becomes]
          exact inductionHypothesis fits granted
      | some allocated =>
          rw [List.filterMap_cons_some becomes, List.append_cons] at fits ⊢
          cases allocated with
          | none =>
              rw [parseItem_denied attach before becomes]
              exact inductionHypothesis fits granted
          | some decl =>
              have room : (ofType before.reduceOption decl.type).length < rteMaxEthports := by
                rw [List.reduceOption_append, reduceOption_concat_some] at fits
                exact (fits_concat fits.of_append.of_append decl).mp fits.of_append
              rw [parseItem_some attach becomes (first decl becomes) room]
              exact inductionHypothesis fits granted

theorem foldlM_parseItem_fails {elements : List (XmlNode × Nat)}
    (fits : Fits before.reduceOption)
    (fails : IdxGranted grants elements →
      ¬ Fits (before ++ elements.filterMap (outcome grants)).reduceOption) :
    ∃ fault, elements.foldlM (parseItem grants attach) (itemsPlace attach before) =
      .error fault ∧ (IdxGranted grants elements → fault = .idxListOverflow) := by
  induction elements generalizing before with
  | nil =>
      rw [List.filterMap_nil, List.append_nil] at fails
      exact absurd fits (fails fun element membership => absurd membership List.not_mem_nil)
  | cons element elements inductionHypothesis =>
      rw [idxGranted_cons] at fails
      rw [List.foldlM_cons]
      cases becomes : outcome grants element with
      | none =>
          rw [List.filterMap_cons_none becomes] at fails
          rw [parseItem_none grants attach becomes]
          obtain ⟨fault, failed, overflows⟩ := inductionHypothesis fits
            fun granted => fails ⟨fun _ allocated => (nomatch becomes.symm.trans allocated), granted⟩
          exact ⟨fault, failed, fun granted => overflows (idxGranted_cons.mp granted).2⟩
      | some allocated =>
          rw [List.filterMap_cons_some becomes, List.append_cons] at fails
          cases allocated with
          | none =>
              rw [parseItem_denied attach before becomes]
              obtain ⟨fault, failed, overflows⟩ := inductionHypothesis
                (reduceOption_concat_none before ▸ fits)
                fun granted => fails ⟨fun _ allocated => (nomatch becomes.symm.trans allocated), granted⟩
              exact ⟨fault, failed, fun granted => overflows (idxGranted_cons.mp granted).2⟩
          | some decl =>
              by_cases room : (ofType before.reduceOption decl.type).length < rteMaxEthports
              · cases idx : grants.idx element.2 with
                | false =>
                    rw [parseItem_fails attach becomes fun _ => idx, if_pos room]
                    refine ⟨_, rfl, fun granted => ?_⟩
                    cases ((idxGranted_cons.mp granted).1 decl becomes).symm.trans idx
                | true =>
                    rw [parseItem_some attach becomes idx room]
                    have more : Fits (before ++ [some decl]).reduceOption := by
                      rw [reduceOption_concat_some]
                      exact (fits_concat fits decl).mpr room
                    obtain ⟨fault, failed, overflows⟩ := inductionHypothesis more
                      fun granted => fails ⟨fun _ _ => idx, granted⟩
                    exact ⟨fault, failed, fun granted => overflows (idxGranted_cons.mp granted).2⟩
              · rw [parseItem_fails attach becomes fun inside => absurd inside room, if_neg room]
                exact ⟨_, rfl, fun _ => rfl⟩

end Items

theorem items_ok {grants : Grants} (attach : List UInt8 → UInt8) {root : XmlNode}
    (fits : Fits (itemsUnder grants root)) (granted : IdxGranted grants (itemNodes root).zipIdx) :
    (itemNodes root).zipIdx.foldlM (parseItem grants attach) (flowConfigModuleInit, none) =
      .ok (itemsPlace attach (itemOutcomes grants root)) :=
  @foldlM_parseItem_ok grants attach [] _ fits granted

/-! ## Keys -/

/-- The keys all go to the slot of the last item. -/
def keysLoaded (state : FlowConfigState) (slot : Fin flowConfigSlotSize)
    (found : List FlowConfigKey) : FlowConfigState :=
  { state with keyHead := Function.update (fun _ => []) slot found }

theorem keyOutcome_eq_some {grants : Grants} {element : XmlNode × Nat} {key : FlowConfigKey}
    (becomes : keyOutcome grants element = some key) :
    ∃ sid skey, element.1.searchAttrValue "ItemID" = some sid ∧
      element.1.searchAttrValue "key" = some skey ∧ grants.key element.2 = true ∧
      key = ⟨UInt32.ofInt (atoi sid), skey⟩ := by
  unfold keyOutcome keyDecl at becomes
  split at becomes
  next allocated =>
    split at becomes
    next sid skey hasId hasKey =>
      exact ⟨sid, skey, hasId, hasKey, allocated, (Option.some.inj becomes).symm⟩
    next => cases becomes
  next => cases becomes

theorem parseKey_some {grants : Grants} {item : FlowConfigItem} {element : XmlNode × Nat}
    {key : FlowConfigKey} (becomes : keyOutcome grants element = some key)
    (state : FlowConfigState) (found : List FlowConfigKey) :
    parseKey grants (some item) (keysLoaded state (slotOf item.itemid) found) element =
      .ok (keysLoaded state (slotOf item.itemid) (found ++ [key])) := by
  obtain ⟨sid, skey, hasId, hasKey, allocated, rfl⟩ := keyOutcome_eq_some becomes
  simp [parseKey, hasId, hasKey, allocated, keysLoaded, addTail]

theorem parseKey_none {grants : Grants} {item : Option FlowConfigItem} {element : XmlNode × Nat}
    (becomes : keyOutcome grants element = none) (state : FlowConfigState) :
    parseKey grants item state element = .ok state := by
  unfold parseKey
  split
  next sid skey hasId hasKey =>
    split
    next allocated => simp [keyOutcome, keyDecl, allocated, hasId, hasKey] at becomes
    next => rfl
  next => rfl

theorem parseKey_null {grants : Grants} {element : XmlNode × Nat} {key : FlowConfigKey}
    (becomes : keyOutcome grants element = some key) (state : FlowConfigState) :
    parseKey grants none state element = .error .nullItem := by
  obtain ⟨sid, skey, hasId, hasKey, allocated, -⟩ := keyOutcome_eq_some becomes
  simp only [parseKey, hasId, hasKey, allocated, if_true]

theorem keys_ok (grants : Grants) (item : FlowConfigItem) {state : FlowConfigState}
    (noKeys : state.keyHead = fun _ => []) (elements : List (XmlNode × Nat)) :
    elements.foldlM (parseKey grants (some item)) state =
      .ok (keysLoaded state (slotOf item.itemid) (elements.filterMap (keyOutcome grants))) := by
  have begins : state = keysLoaded state (slotOf item.itemid) [] := by
    have same := Function.update_eq_self (slotOf item.itemid) (fun _ : Fin flowConfigSlotSize =>
      ([] : List FlowConfigKey))
    rw [keysLoaded, same, ← noKeys]
  conv_lhs => rw [begins]
  apply foldlM_filterMap _ (keyOutcome grants) (keysLoaded state (slotOf item.itemid))
  · exact fun element becomes => parseKey_none becomes
  · exact fun before element key after _ becomes => parseKey_some becomes state before

theorem flatMap_update {Index Element : Type} [DecidableEq Index] {indices : List Index}
    (distinct : indices.Nodup) {index : Index} (inside : index ∈ indices)
    (elements : List Element) :
    indices.flatMap (Function.update (fun _ => []) index elements) = elements := by
  induction indices with
  | nil => simp at inside
  | cons first indices inductionHypothesis =>
      obtain ⟨fresh, distinct⟩ := List.nodup_cons.mp distinct
      rw [List.flatMap_cons]
      by_cases here : first = index
      · subst here
        have others : indices.flatMap (Function.update (fun _ => []) first elements) = [] := by
          apply List.flatMap_eq_nil_iff.mpr
          intro other membership
          exact Function.update_of_ne (ne_of_mem_of_not_mem membership fresh) _ _
        rw [others, Function.update_self, List.append_nil]
      · rcases List.mem_cons.mp inside with same | later
        · exact absurd same.symm here
        · rw [Function.update_of_ne here, List.nil_append]
          exact inductionHypothesis distinct later

/-! ## The statics after loading -/

structure Loaded (configuration : Configuration) (state : FlowConfigState) : Prop where
  itemHead : state.itemHead = fun slot =>
    ((items configuration.root).filter fun decl => slotOf decl.itemid = slot).map ItemDecl.item
  txIdxList : state.txIdxList =
    (ofType (items configuration.root) .tx).map (ItemDecl.bound configuration.attach)
  order : buildOrder state = keys configuration.root
  actrie : state.actrie = fun _ => acTrieCreate

theorem parseDdos_frame (state : FlowConfigState) (nodes : List XmlNode) :
    (parseDdos state nodes).itemHead = state.itemHead ∧
      (parseDdos state nodes).keyHead = state.keyHead ∧
      (parseDdos state nodes).txIdxList = state.txIdxList ∧
      (parseDdos state nodes).actrie = state.actrie := by
  unfold parseDdos
  repeat' split
  all_goals exact ⟨rfl, rfl, rfl, rfl⟩

theorem buildOrder_eq {state : FlowConfigState} {slot : Fin flowConfigSlotSize}
    {found : List FlowConfigKey}
    (all : state.keyHead = Function.update (fun _ => []) slot found) :
    buildOrder state = found := by
  rw [buildOrder, all]
  exact flatMap_update (List.nodup_finRange _) (List.mem_finRange slot) found

/-- The slot of the last item, which all keys are put into. -/
def keySlot (last : Option ItemDecl) : Fin flowConfigSlotSize :=
  (last.map fun last => slotOf last.itemid).getD (slotOf 0)

/-- Without an item the loop over the keys ends well only when it stores no key. -/
theorem foldlM_parseKey_none {grants : Grants} {elements : List (XmlNode × Nat)}
    (state : FlowConfigState) :
    elements.foldlM (parseKey grants none) state =
      if elements.filterMap (keyOutcome grants) = [] then .ok state else .error .nullItem := by
  induction elements with
  | nil => rfl
  | cons element elements inductionHypothesis =>
      rw [List.foldlM_cons]
      cases becomes : keyOutcome grants element with
      | none =>
          rw [List.filterMap_cons_none becomes, parseKey_none becomes]
          exact inductionHypothesis
      | some key =>
          rw [List.filterMap_cons_some becomes, parseKey_null becomes, if_neg (List.cons_ne_nil _ _)]
          rfl

section Load

variable {grants : Grants} (attach : List UInt8 → UInt8) {root : XmlNode}

theorem loadUnder_of_items (fits : Fits (itemsUnder grants root))
    (granted : IdxGranted grants (itemNodes root).zipIdx) :
    flowConfigModuleLoadInsideParseUnder grants attach flowConfigModuleInit root =
      if lastItem grants root = none → keysUnder grants root = [] then
        .ok (parseDdos (keysLoaded (itemsLoaded attach (itemsUnder grants root))
          (keySlot (lastItem grants root)) (keysUnder grants root))
          (configSearch3 root "UAFlow" "Scan" "DDOS"))
      else .error .nullItem := by
  have itemsOk := items_ok attach fits granted
  have keysOk : (keyNodes root).zipIdx.foldlM
      (parseKey grants ((lastItem grants root).map ItemDecl.item))
      (itemsLoaded attach (itemsUnder grants root)) =
        if lastItem grants root = none → keysUnder grants root = [] then
          .ok (keysLoaded (itemsLoaded attach (itemsUnder grants root))
            (keySlot (lastItem grants root)) (keysUnder grants root))
        else .error .nullItem := by
    cases lastItem grants root with
    | some last =>
        rw [if_pos fun none => nomatch none]
        exact keys_ok grants last.item
          (show (itemsLoaded attach (itemsUnder grants root)).keyHead = _ from rfl) _
    | none =>
        rw [Option.map_none, foldlM_parseKey_none]
        by_cases keyless : keysUnder grants root = []
        · have empty : Function.update (fun _ => []) (slotOf 0) ([] : List FlowConfigKey) =
              fun _ => [] := Function.update_eq_self (slotOf 0) fun _ => []
          rw [if_pos fun _ => keyless, keysLoaded, keyless, keySlot, Option.map_none,
            Option.getD_none, empty]
          exact if_pos keyless
        · have lost : ¬ (none = (none : Option ItemDecl) → keysUnder grants root = []) :=
            fun placed => keyless (placed rfl)
          rw [if_neg lost]
          exact if_neg keyless
  unfold itemNodes at itemsOk
  unfold keyNodes at keysOk
  unfold flowConfigModuleLoadInsideParseUnder
  simp only [itemsOk, itemsPlace]
  rw [show (itemOutcomes grants root).getLast?.join = lastItem grants root from rfl,
    show (itemOutcomes grants root).reduceOption = itemsUnder grants root from rfl, keysOk]
  by_cases keyless : lastItem grants root = none → keysUnder grants root = []
  · simp only [if_pos keyless]
  · simp only [if_neg keyless]

/-- One item too many is written past the end of its list, and an element that was not
allocated is written all the same. -/
theorem loadUnder_fails (fails : IdxGranted grants (itemNodes root).zipIdx →
      ¬ Fits (itemsUnder grants root)) :
    ∃ fault, flowConfigModuleLoadInsideParseUnder grants attach flowConfigModuleInit root =
      .error fault ∧ (IdxGranted grants (itemNodes root).zipIdx → fault = .idxListOverflow) := by
  obtain ⟨fault, failed, overflows⟩ :=
    @foldlM_parseItem_fails grants attach [] _ fits_nil fails
  refine ⟨fault, ?_, overflows⟩
  have itemsFail : (itemNodes root).zipIdx.foldlM (parseItem grants attach)
      (flowConfigModuleInit, none) = .error fault := failed
  unfold itemNodes at itemsFail
  unfold flowConfigModuleLoadInsideParseUnder
  simp only [itemsFail]

theorem loadUnder_accepted {attach} {loaded : FlowConfigState}
    (accepted : flowConfigModuleLoadInsideParseUnder grants attach flowConfigModuleInit root =
      .ok loaded) :
    Fits (itemsUnder grants root) ∧ IdxGranted grants (itemNodes root).zipIdx ∧
      (lastItem grants root = none → keysUnder grants root = []) ∧
      loaded = parseDdos (keysLoaded (itemsLoaded attach (itemsUnder grants root))
        (keySlot (lastItem grants root)) (keysUnder grants root))
        (configSearch3 root "UAFlow" "Scan" "DDOS") := by
  by_cases good : IdxGranted grants (itemNodes root).zipIdx ∧ Fits (itemsUnder grants root)
  · rw [loadUnder_of_items attach good.2 good.1] at accepted
    split at accepted
    next keyless => exact ⟨good.2, good.1, keyless, (Except.ok.inj accepted).symm⟩
    next => cases accepted
  · obtain ⟨fault, failed, -⟩ := loadUnder_fails attach (not_and.mp good)
    rw [failed] at accepted
    cases accepted

end Load

/-! ## Every allocation granted -/

theorem itemOutcomes_all (root : XmlNode) :
    itemOutcomes .all root = (items root).map some := by
  have outcomes : outcome .all = (Option.map some ∘ itemDecl) ∘ Prod.fst := rfl
  unfold itemOutcomes items
  rw [outcomes, ← List.filterMap_map, List.zipIdx_map_fst, List.map_filterMap]
  rfl

theorem itemsUnder_all (root : XmlNode) : itemsUnder .all root = items root := by
  unfold itemsUnder
  rw [itemOutcomes_all, List.reduceOption, List.filterMap_map]
  exact List.filterMap_some

theorem lastItem_all (root : XmlNode) : lastItem .all root = (items root).getLast? := by
  unfold lastItem
  rw [itemOutcomes_all, List.getLast?_map]
  cases (items root).getLast? <;> rfl

theorem keysUnder_all (root : XmlNode) : keysUnder .all root = keys root := by
  have outcomes : keyOutcome .all = keyDecl ∘ Prod.fst := rfl
  unfold keysUnder keys
  rw [outcomes, ← List.filterMap_map, List.zipIdx_map_fst]

theorem idxGranted_all (elements : List (XmlNode × Nat)) : IdxGranted .all elements :=
  fun _ _ _ _ => rfl

section Granted

variable (attach : List UInt8 → UInt8) {root : XmlNode}

theorem load_placed (fits : Fits (items root)) (keyless : items root = [] → keys root = []) :
    flowConfigModuleLoadInsideParse attach flowConfigModuleInit root =
      .ok (parseDdos (keysLoaded (itemsLoaded attach (items root))
        (keySlot (items root).getLast?) (keys root))
        (configSearch3 root "UAFlow" "Scan" "DDOS")) := by
  have placed := loadUnder_of_items attach ((itemsUnder_all root).symm ▸ fits) (idxGranted_all _)
  simp only [itemsUnder_all, lastItem_all, keysUnder_all, List.getLast?_eq_none_iff,
    if_pos keyless] at placed
  exact placed

theorem load_overflow (many : ¬ Fits (items root)) :
    flowConfigModuleLoadInsideParse attach flowConfigModuleInit root =
      .error .idxListOverflow := by
  obtain ⟨fault, failed, overflows⟩ := loadUnder_fails attach
    fun _ => (itemsUnder_all root).symm ▸ many
  rw [← overflows (idxGranted_all _)]
  exact failed

theorem load_nullItem (bare : items root = []) (someKey : keys root ≠ []) :
    flowConfigModuleLoadInsideParse attach flowConfigModuleInit root = .error .nullItem := by
  have fits : Fits (itemsUnder .all root) := by
    rw [itemsUnder_all, bare]
    exact fits_nil
  have failed := loadUnder_of_items attach fits (idxGranted_all _)
  rwa [if_neg] at failed
  rw [lastItem_all, List.getLast?_eq_none_iff, keysUnder_all]
  exact fun keyless => someKey (keyless bare)

theorem load_accepted {attach} {loaded : FlowConfigState}
    (accepted : flowConfigModuleLoadInsideParse attach flowConfigModuleInit root = .ok loaded) :
    Fits (items root) ∧ (items root = [] → keys root = []) ∧
      loaded = parseDdos (keysLoaded (itemsLoaded attach (items root))
        (keySlot (items root).getLast?) (keys root))
        (configSearch3 root "UAFlow" "Scan" "DDOS") := by
  obtain ⟨fits, -, keyless, same⟩ := loadUnder_accepted accepted
  simp only [itemsUnder_all, lastItem_all, keysUnder_all, List.getLast?_eq_none_iff]
    at fits keyless same
  exact ⟨fits, keyless, same⟩

end Granted

theorem load_ok (configuration : Configuration) :
    ∃ state, flowConfigModuleLoadInsideParse configuration.attach flowConfigModuleInit
        configuration.root = .ok state ∧ Loaded configuration state := by
  obtain ⟨itemHead, keyHead, txIdxList, actrie⟩ := parseDdos_frame
    (keysLoaded (itemsLoaded configuration.attach (items configuration.root))
      (keySlot (items configuration.root).getLast?) (keys configuration.root))
    (configSearch3 configuration.root "UAFlow" "Scan" "DDOS")
  refine ⟨_, load_placed configuration.attach configuration.fits
    (fun bare => absurd bare configuration.someItem), ?_⟩
  exact ⟨itemHead, txIdxList, buildOrder_eq keyHead, actrie⟩

def ckNumber (root : XmlNode) : UInt32 :=
  match configSearch3 root "UAFlow" "Scan" "DDOS" with
  | [] => 0
  | node :: _ =>
      match node.searchAttrValue "CKNumber", node.searchAttrValue "CKTime" with
      | some number, some _ => UInt32.ofInt (atoi number)
      | _, _ => flowConfigDdosScanNumberDefault

theorem parseDdos_scanNumber (root : XmlNode) {state : FlowConfigState}
    (unset : state.scanNumber = 0) :
    (parseDdos state (configSearch3 root "UAFlow" "Scan" "DDOS")).scanNumber = ckNumber root := by
  unfold ckNumber
  cases configSearch3 root "UAFlow" "Scan" "DDOS" with
  | nil => exact unset
  | cons node rest =>
      simp only [parseDdos]
      cases node.searchAttrValue "CKNumber" with
      | none => rfl
      | some number =>
          cases node.searchAttrValue "CKTime" with
          | none => rfl
          | some time => rfl

theorem loadUnder_frame {grants : Grants} {attach : List UInt8 → UInt8} {root : XmlNode}
    {loaded : FlowConfigState}
    (accepted : flowConfigModuleLoadInsideParseUnder grants attach flowConfigModuleInit root =
      .ok loaded) :
    (loaded.actrie = fun _ => acTrieCreate) ∧ loaded.scanNumber = ckNumber root := by
  obtain ⟨_, _, _, rfl⟩ := loadUnder_accepted accepted
  exact ⟨(parseDdos_frame _ _).2.2.2, parseDdos_scanNumber root rfl⟩

end UAFlow.Config
