import UAFlow.Config.Load

/-!
# The limits of the scan

Only the first `DDOS` element is read, and only when it has both attributes.
-/

namespace UAFlow.Config

open Library

def ddosNodes (root : XmlNode) : List XmlNode := configSearchLoop root "UAFlow" "Scan" "DDOS"

def firstValue (nodes : List XmlNode) (name : String) : Option UInt32 :=
  nodes.findSome? fun node =>
    (node.searchAttrValue name).map fun value => UInt32.ofInt (atoi value)

/-- Window and threshold are what the elements say, each on its own. -/
structure Scans (root : XmlNode) (state : FlowConfigState) : Prop where
  millisecond : state.scanMillisecond =
    (firstValue (ddosNodes root) "CKTime").getD flowConfigDdosScanMillisecondDefault
  number : state.scanNumber =
    (firstValue (ddosNodes root) "CKNumber").getD flowConfigDdosScanNumberDefault

/-- There is an element, and it has both attributes, or nothing differs from the
defaults. -/
def FirstDecides (root : XmlNode) : Prop :=
  ∃ first rest, ddosNodes root = first :: rest ∧
    ((first.searchAttrValue "CKTime").isSome ∧ (first.searchAttrValue "CKNumber").isSome ∨
      (firstValue (ddosNodes root) "CKTime").getD flowConfigDdosScanMillisecondDefault =
          flowConfigDdosScanMillisecondDefault ∧
        (firstValue (ddosNodes root) "CKNumber").getD flowConfigDdosScanNumberDefault =
          flowConfigDdosScanNumberDefault)

theorem name_of_configSearchList {siblings : List XmlNode} {name : String} {first : XmlNode}
    {rest : List XmlNode} (found : configSearchList siblings name = first :: rest) :
    first.name = name := by
  have stopped := List.head?_dropWhile_not (fun node : XmlNode => decide (node.name ≠ name))
    siblings
  unfold configSearchList at found
  rw [found] at stopped
  simpa using stopped

theorem name_of_configSearch3 {root first : XmlNode} {one two three : String}
    {rest : List XmlNode} (found : configSearch3 root one two three = first :: rest) :
    first.name = three := by
  unfold configSearch3 at found
  split at found
  next => cases found
  next =>
    split at found
    next => cases found
    next => exact name_of_configSearchList found

/-- The element that is read is the first one. -/
theorem ddosNodes_eq {root first : XmlNode} {rest : List XmlNode}
    (found : configSearch3 root "UAFlow" "Scan" "DDOS" = first :: rest) :
    ddosNodes root = first :: rest.filter fun node => node.name = "DDOS" := by
  unfold ddosNodes configSearchLoop
  rw [found]
  exact List.filter_cons_of_pos (decide_eq_true (name_of_configSearch3 found))

theorem firstValue_cons (node : XmlNode) (nodes : List XmlNode) (name : String) :
    firstValue (node :: nodes) name =
      ((node.searchAttrValue name).map fun value => UInt32.ofInt (atoi value)).or
        (firstValue nodes name) := by
  unfold firstValue
  rw [List.findSome?_cons]
  cases node.searchAttrValue name <;> rfl

theorem parseDdos_values (state : FlowConfigState) {first : XmlNode} (rest : List XmlNode)
    {number time : List UInt8} (hasNumber : first.searchAttrValue "CKNumber" = some number)
    (hasTime : first.searchAttrValue "CKTime" = some time) :
    parseDdos state (first :: rest) =
      { state with
        scanMillisecond := UInt32.ofInt (atoi time)
        scanNumber := UInt32.ofInt (atoi number) } := by
  simp only [parseDdos, hasNumber, hasTime]

theorem parseDdos_defaults (state : FlowConfigState) {first : XmlNode} (rest : List XmlNode)
    (missing : ¬ ((first.searchAttrValue "CKTime").isSome ∧
      (first.searchAttrValue "CKNumber").isSome)) :
    parseDdos state (first :: rest) =
      { state with
        scanMillisecond := flowConfigDdosScanMillisecondDefault
        scanNumber := flowConfigDdosScanNumberDefault } := by
  cases hasNumber : first.searchAttrValue "CKNumber" with
  | none => simp only [parseDdos, hasNumber]
  | some number =>
      cases hasTime : first.searchAttrValue "CKTime" with
      | none => simp only [parseDdos, hasNumber, hasTime]
      | some time =>
          rw [hasNumber, hasTime] at missing
          exact absurd ⟨rfl, rfl⟩ missing

/-- What is loaded are the values of the elements exactly when the first one
decides. -/
theorem scans_iff_firstDecides {grants : Grants} {attach : List UInt8 → UInt8} {root : XmlNode}
    {loaded : FlowConfigState}
    (accepted : flowConfigModuleLoadInsideParseUnder grants attach flowConfigModuleInit root =
      .ok loaded) :
    Scans root loaded ↔ FirstDecides root := by
  obtain ⟨_, _, _, rfl⟩ := loadUnder_accepted accepted
  cases found : configSearch3 root "UAFlow" "Scan" "DDOS" with
  | nil =>
      have none : ddosNodes root = [] := by
        unfold ddosNodes configSearchLoop
        rw [found, List.filter_nil]
      constructor
      · intro scans
        have zero : (0 : UInt32) = flowConfigDdosScanMillisecondDefault := by
          have window := scans.millisecond
          rwa [none] at window
        exact absurd zero (by decide)
      · rintro ⟨first, rest, one, _⟩
        rw [none] at one
        cases one
  | cons first rest =>
      have nodes := ddosNodes_eq found
      by_cases both : (first.searchAttrValue "CKTime").isSome ∧
          (first.searchAttrValue "CKNumber").isSome
      · obtain ⟨time, hasTime⟩ := Option.isSome_iff_exists.mp both.1
        obtain ⟨number, hasNumber⟩ := Option.isSome_iff_exists.mp both.2
        rw [parseDdos_values _ rest hasNumber hasTime]
        refine ⟨fun _ => ⟨first, _, nodes, .inl both⟩, fun _ => ⟨?_, ?_⟩⟩
        · rw [nodes, firstValue_cons, hasTime]
          rfl
        · rw [nodes, firstValue_cons, hasNumber]
          rfl
      · rw [parseDdos_defaults _ rest both]
        constructor
        · rintro ⟨millisecond, number⟩
          exact ⟨first, _, nodes, .inr ⟨millisecond.symm, number.symm⟩⟩
        · rintro ⟨other, others, same, decides⟩
          obtain ⟨rfl, _⟩ := List.cons.inj (nodes.symm.trans same)
          obtain ⟨millisecond, number⟩ := decides.resolve_left both
          exact ⟨millisecond.symm, number.symm⟩

def splitLimits (time number : List UInt8) : XmlNode :=
  .mk "UAFlow" []
    [.mk "Scan" [] [.mk "DDOS" [("CKTime", time)] [], .mk "DDOS" [("CKNumber", number)] []]]

theorem splitLimits_loaded (time number : List UInt8) :
    flowConfigModuleLoadInsideParse (fun _ => 0) flowConfigModuleInit (splitLimits time number) =
      .ok (parseDdos flowConfigModuleInit
        (configSearch3 (splitLimits time number) "UAFlow" "Scan" "DDOS")) :=
  rfl

/-- The values of the configuration that is delivered, `5000` and `1000`. -/
theorem scans_iff_firstDecides_delivered :
    Scans (splitLimits [53, 48, 48, 48] [49, 48, 48, 48])
        (parseDdos flowConfigModuleInit (configSearch3
          (splitLimits [53, 48, 48, 48] [49, 48, 48, 48]) "UAFlow" "Scan" "DDOS")) ↔
      FirstDecides (splitLimits [53, 48, 48, 48] [49, 48, 48, 48]) :=
  scans_iff_firstDecides (splitLimits_loaded [53, 48, 48, 48] [49, 48, 48, 48])

/-- A window of `3000` and a threshold of `50` are passed over. -/
theorem not_scans_splitLimits :
    ¬ ∀ (grants : Grants) (attach : List UInt8 → UInt8) (root : XmlNode)
        (loaded : FlowConfigState),
      flowConfigModuleLoadInsideParseUnder grants attach flowConfigModuleInit root = .ok loaded →
        Scans root loaded := by
  intro scans
  have window := (scans .all _ _ _ (splitLimits_loaded [51, 48, 48, 48] [53, 48])).millisecond
  exact absurd window (by decide)

end UAFlow.Config
