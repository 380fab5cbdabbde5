import UAFlow.Config.Load

/-!
# Where items and keys are placed

An item goes to the slot of its id.  A key goes to the slot that is left over
from the last item, or nowhere when there is none; an item or a key whose
allocation fails is skipped.
-/

namespace UAFlow.Config

/-- Each slot has the items and the keys of that slot, once each and in the order
of the document. -/
structure WellPlaced (grants : Grants) (root : XmlNode) (state : FlowConfigState) : Prop where
  itemHead : ∀ slot, state.itemHead slot =
    ((itemsUnder grants root).filter fun decl => slotOf decl.itemid = slot).map ItemDecl.item
  keyHead : ∀ slot, state.keyHead slot =
    (keysUnder grants root).filter fun key => slotOf key.itemid = slot

def LoadsPlaced (grants : Grants) (attach : List UInt8 → UInt8) (root : XmlNode) : Prop :=
  ∃ state, flowConfigModuleLoadInsideParseUnder grants attach flowConfigModuleInit root =
    .ok state ∧ WellPlaced grants root state

/-- The last complete `Item` element was allocated, and has the slot of every key. -/
def KeysAtLast (grants : Grants) (root : XmlNode) : Prop :=
  ∀ key ∈ keysUnder grants root, ∃ last, lastItem grants root = some last ∧
    slotOf last.itemid = slotOf key.itemid

theorem update_eq_filter_iff {Index Element : Type} [DecidableEq Index] (index : Index)
    (indexOf : Element → Index) (elements : List Element) :
    (∀ other, Function.update (fun _ => []) index elements other =
        elements.filter fun element => indexOf element = other) ↔
      ∀ element ∈ elements, indexOf element = index := by
  constructor
  · intro sorted element membership
    have here := sorted index
    rw [Function.update_self] at here
    rw [here] at membership
    exact of_decide_eq_true (List.mem_filter.mp membership).2
  · intro all other
    by_cases here : other = index
    · subst here
      rw [Function.update_self, List.filter_eq_self.mpr]
      exact fun element membership => decide_eq_true (all element membership)
    · rw [Function.update_of_ne here, eq_comm, List.filter_eq_nil_iff]
      intro element membership
      simpa [all element membership] using Ne.symm here

section Placed

variable {grants : Grants} {attach : List UInt8 → UInt8} {root : XmlNode}

theorem wellPlaced_iff {loaded : FlowConfigState}
    (accepted : flowConfigModuleLoadInsideParseUnder grants attach flowConfigModuleInit root =
      .ok loaded) :
    WellPlaced grants root loaded ↔
      ∀ key ∈ keysUnder grants root, slotOf key.itemid = keySlot (lastItem grants root) := by
  obtain ⟨_, _, _, rfl⟩ := loadUnder_accepted accepted
  obtain ⟨itemHead, keyHead, _, _⟩ := parseDdos_frame
    (keysLoaded (itemsLoaded attach (itemsUnder grants root)) (keySlot (lastItem grants root))
      (keysUnder grants root))
    (configSearch3 root "UAFlow" "Scan" "DDOS")
  rw [← update_eq_filter_iff]
  constructor
  · intro placed slot
    rw [← placed.keyHead slot, keyHead]
    rfl
  · intro sorted
    exact ⟨fun slot => by rw [itemHead]; rfl, fun slot => by rw [keyHead]; exact sorted slot⟩

theorem keysAtLast_iff :
    KeysAtLast grants root ↔ (lastItem grants root = none → keysUnder grants root = []) ∧
      ∀ key ∈ keysUnder grants root, slotOf key.itemid = keySlot (lastItem grants root) := by
  unfold KeysAtLast keySlot
  cases lastItem grants root with
  | none =>
      constructor
      · intro atLast
        have keyless : ∀ key, key ∉ keysUnder grants root := fun key membership => by
          obtain ⟨_, none, _⟩ := atLast key membership
          cases none
        exact ⟨fun _ => List.eq_nil_iff_forall_not_mem.mpr keyless,
          fun key membership => absurd membership (keyless key)⟩
      · rintro ⟨keyless, _⟩ key membership
        rw [keyless rfl] at membership
        exact absurd membership List.not_mem_nil
  | some last =>
      constructor
      · intro atLast
        refine ⟨fun absent => (nomatch absent), fun key membership => ?_⟩
        obtain ⟨_, ⟨⟩, same⟩ := atLast key membership
        exact same.symm
      · exact fun same key membership => ⟨last, rfl, (same.2 key membership).symm⟩

end Placed

/-- A document is loaded with everything in its slot exactly when its items fit, each
has its element of a device list, and the keys belong to the slot of the last
item. -/
theorem loadsPlaced_iff_keysAtLast (grants : Grants) (attach : List UInt8 → UInt8)
    (root : XmlNode) :
    LoadsPlaced grants attach root ↔
      Fits (itemsUnder grants root) ∧ IdxGranted grants (itemNodes root).zipIdx ∧
        KeysAtLast grants root := by
  rw [keysAtLast_iff]
  constructor
  · rintro ⟨state, accepted, placed⟩
    obtain ⟨fits, granted, keyless, _⟩ := loadUnder_accepted accepted
    exact ⟨fits, granted, keyless, (wellPlaced_iff accepted).mp placed⟩
  · rintro ⟨fits, granted, keyless, same⟩
    have accepted := loadUnder_of_items attach fits granted
    rw [if_pos keyless] at accepted
    exact ⟨_, accepted, (wellPlaced_iff accepted).mpr same⟩

def keyOfFirstItem : XmlNode :=
  .mk "UAFlow" []
    [.mk "Capmode" []
      [.mk "Item" [("name", [97]), ("type", [116, 120]), ("ID", [49])] [],
        .mk "Item" [("name", [98]), ("type", [116, 120]), ("ID", [50])] []],
      .mk "Flow" [] [.mk "UAKey" [("ItemID", [49]), ("key", [97, 98])] []]]

/-- The key is put into the slot of the second item. -/
theorem not_loadsPlaced_keyOfFirstItem : ¬ LoadsPlaced .all (fun _ => 0) keyOfFirstItem := by
  rintro ⟨state, accepted, placed⟩
  have same := (wellPlaced_iff accepted).mp placed ⟨1, [97, 98]⟩
  exact absurd same (by decide)

end UAFlow.Config
