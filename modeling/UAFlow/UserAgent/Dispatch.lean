import UAFlow.UserAgent.Handler

/-!
# Where the handler sends a packet

The search answers with a device or with -1, and the handler starts with 0 for
the packets it does not search for.  Whatever is not above 0 goes to the default
ring, and so do the packets of the keys that are bound to device 0.
-/

namespace UAFlow.UserAgent

open Library AhoCorasick Config

/-- The text captured from a payload selects a key whose item this is. -/
def SelectsItem (execute : HttpParserExecute) (configured : Configured) (text : List UInt8)
    (item : ItemDecl) : Prop :=
  ∃ str key position, capturedText execute text = some str ∧
    Selected configured.root str key position ∧
    firstTxItem configured.root key.itemid = some item

/-- A packet is transmitted on the device of the item selected for it, and put on
the default ring only when there is nothing to search for or nothing is found. -/
structure Dispatches (execute : HttpParserExecute) (configured : Configured) (text : List UInt8)
    (decision : Decision) : Prop where
  transmits : ∀ item, SelectsItem execute configured text item →
    decision.sender = .send (configured.attach item.name).toNat
  defaults : decision.sender = .push → ∀ str, capturedText execute text = some str →
    ∀ key ∈ activeKeys configured.root, ¬ key.key <:+: str

theorem SelectsItem.unique {execute : HttpParserExecute} {configured : Configured}
    {text : List UInt8} {item other : ItemDecl} (selects : SelectsItem execute configured text item)
    (alike : SelectsItem execute configured text other) : item = other := by
  obtain ⟨str, key, position, captured, selected, first⟩ := selects
  obtain ⟨_, _, _, again, selectedAgain, firstAgain⟩ := alike
  obtain rfl := Option.some.inj (captured.symm.trans again)
  obtain rfl := selected.unique selectedAgain
  exact Option.some.inj (first.symm.trans firstAgain)

theorem Configured.reached_answers (configured : Configured) (execute : HttpParserExecute) :
    ∃ path entry, (∀ reached : Reached execute configured,
        Ready path entry reached.state.config) ∧
      ∀ str, Reported configured.attach configured.root str
        (reportedDevice (reports entry [] str 0)) := by
  obtain ⟨built, path, entry, builds, ready, answers⟩ := build_answers configured.accepted
  obtain rfl : built = configured.built := Except.ok.inj (builds.symm.trans configured.builds)
  exact ⟨path, entry, Reached.ready ready, answers⟩

theorem senderTo_ne_zero (portid : Int) : senderTo portid ≠ .send 0 := by
  unfold senderTo
  split
  next => exact nofun
  next positive =>
    rintro ⟨⟩
    exact positive le_rfl

theorem httphandle_ne_zero {execute : HttpParserExecute} {state after : HandlerState}
    {lcoreId : Fin flowLcoreMaxSlot} {payload : Payload} {decision : Decision}
    (returned : state.httphandle execute lcoreId payload = .ok (after, decision)) :
    decision.sender ≠ .send 0 := by
  unfold HandlerState.httphandle at returned
  dsimp only at returned
  split at returned
  next =>
    cases returned
    exact senderTo_ne_zero 0
  next text searched =>
    split at returned
    next => cases returned
    next config portid found =>
      cases returned
      exact senderTo_ne_zero portid

section Decided

variable {execute : HttpParserExecute} {configured : Configured}
  {entry : List UInt8 → Option AcPattern}

theorem decided_of_captured {text str : List UInt8} (captured : capturedText execute text = some str)
    (lcoreId : Fin flowLcoreMaxSlot) :
    (decided execute entry lcoreId text).sender =
      senderTo (reportedDevice (reports entry [] str 0)) := by
  unfold decided
  rw [captured]
  rfl

theorem decided_of_selectsItem
    (answers : ∀ str, Reported configured.attach configured.root str
      (reportedDevice (reports entry [] str 0)))
    {text : List UInt8} {item : ItemDecl} (selects : SelectsItem execute configured text item)
    (lcoreId : Fin flowLcoreMaxSlot) :
    (decided execute entry lcoreId text).sender =
      senderTo (configured.attach item.name).toNat := by
  have same := fun other (alike : SelectsItem execute configured text other) =>
    selects.unique alike
  obtain ⟨str, key, position, captured, selected, _⟩ := selects
  rw [decided_of_captured captured]
  rcases answers str with ⟨absent, _⟩ | ⟨found, place, item', selectedFound, first, answer⟩
  · exact absurd selected.occurs (absent key selected.mem)
  · obtain rfl := same item' ⟨str, found, place, captured, selectedFound, first⟩
    rw [answer]

theorem senderTo_device {device : UInt8} (sending : device ≠ 0) :
    senderTo device.toNat = .send device.toNat := by
  have positive : 0 < device.toNat :=
    Nat.pos_of_ne_zero fun zero => sending (UInt8.toNat_inj.mp zero)
  exact if_neg (Int.not_le.mpr (Int.natCast_pos.mpr positive))

theorem dispatches_decided_iff
    (answers : ∀ str, Reported configured.attach configured.root str
      (reportedDevice (reports entry [] str 0)))
    (lcoreId : Fin flowLcoreMaxSlot) (text : List UInt8) :
    Dispatches execute configured text (decided execute entry lcoreId text) ↔
      ∀ item, SelectsItem execute configured text item → configured.attach item.name ≠ 0 := by
  constructor
  · intro dispatches item selects zero
    have sends := dispatches.transmits item selects
    rw [zero] at sends
    exact senderTo_ne_zero _ sends
  · intro sending
    constructor
    · intro item selects
      rw [decided_of_selectsItem answers selects]
      exact senderTo_device (sending item selects)
    · intro pushed str captured
      rcases answers str with ⟨absent, _⟩ | ⟨key, position, item, selected, first, _⟩
      · exact absent
      · have selects : SelectsItem execute configured text item :=
          ⟨str, key, position, captured, selected, first⟩
        rw [decided_of_selectsItem answers selects, senderTo_device (sending item selects)] at pushed
        cases pushed

end Decided

/-- The handler decides for every packet, and dispatches it exactly when it does
not select an item that is bound to device 0. -/
theorem dispatches_iff_device (execute : HttpParserExecute) (configured : Configured)
    (reached : Reached execute configured) (lcoreId : Fin flowLcoreMaxSlot) (payload : Payload) :
    (∃ after decision, reached.state.httphandle execute lcoreId payload = .ok (after, decision) ∧
        Dispatches execute configured payload.text decision) ↔
      ∀ item, SelectsItem execute configured payload.text item →
        configured.attach item.name ≠ 0 := by
  obtain ⟨path, entry, ready, answers⟩ := configured.reached_answers execute
  obtain ⟨after, _, handled⟩ := httphandle_eq execute (ready reached) lcoreId payload
  rw [← dispatches_decided_iff answers lcoreId, handled]
  constructor
  · rintro ⟨_, _, ⟨⟩, dispatches⟩
    exact dispatches
  · exact fun dispatches => ⟨after, _, rfl, dispatches⟩

/-- One sending device, which is device 0, and the key `"ab"`. -/
def zeroConfiguration : Configuration := { halfConfiguration with attach := fun _ => 0 }

theorem selectsItem_half {configured : Configured} (same : configured.root = zeroConfiguration.root) :
    SelectsItem halfRequestExecute configured halfRequest ⟨[48], .tx, 1⟩ := by
  have active : activeKeys zeroConfiguration.root = [⟨1, [97, 98]⟩] := by decide +kernel
  refine ⟨[97, 98], ⟨1, [97, 98]⟩, 2, by decide +kernel, ?_, by rw [same]; rfl⟩
  rw [same]
  constructor
  · exact ⟨le_rfl, List.suffix_rfl⟩
  · intro other membership later ends
    rw [active, List.mem_singleton] at membership
    have length := ends.2.length_le
    rw [membership, List.length_take] at length
    exact length.trans (min_le_left _ _)
  · intro other membership _
    rw [active, List.mem_singleton] at membership
    rw [membership]
  · rw [active]
    rfl

/-- The packet of the key goes to the default ring. -/
theorem not_dispatches_device_zero :
    ¬ ∀ (execute : HttpParserExecute) (configured : Configured)
        (reached : Reached execute configured) (lcoreId : Fin flowLcoreMaxSlot)
        (payload : Payload), ∃ after decision,
      reached.state.httphandle execute lcoreId payload = .ok (after, decision) ∧
        Dispatches execute configured payload.text decision := by
  intro all
  obtain ⟨loaded, accepted, _⟩ := load_ok zeroConfiguration
  obtain ⟨built, _, _, builds, _⟩ := build_ready accepted
  let configured : Configured := ⟨_, _, loaded, built, accepted, builds⟩
  let reached : Reached halfRequestExecute configured := ⟨[], _, rfl⟩
  obtain ⟨after, decision, handled, dispatches⟩ :=
    all halfRequestExecute configured reached 1 ⟨halfRequest, fun _ => 0, 4096⟩
  have sends := dispatches.transmits _ (selectsItem_half rfl)
  exact httphandle_ne_zero handled sends

end UAFlow.UserAgent
