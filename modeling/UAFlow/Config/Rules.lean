import UAFlow.Config.Attach
import UAFlow.Library.Runs

/-!
# The port of a name

A line decides as soon as its rule is for the address of the port and what stands
behind the name's quotation mark begins like the configured name.  The port found is
the first one with such a line; the closing quotation mark is not looked at.
-/

namespace UAFlow.Config

open Library

namespace Rule

theorem bytes_address (rule : Rule) : rule.bytes = rule.before ++
    (attrAddress ++ quote :: (rule.mac ++ quote :: (rule.middle ++ nameText ++ quote :: rule.behind))) := by
  simp [RuleText.bytes, RuleText.front]

theorem bytes_name (rule : Rule) :
    rule.bytes = rule.front ++ (nameText ++ quote :: rule.behind) :=
  List.append_assoc ..

theorem strstr_address (rule : Rule) :
    strstr rule.bytes attrAddress = some rule.before.length := by
  apply strstr_eq_some (List.cons_ne_nil _ _)
  refine ⟨?_, rule.addressFirst⟩
  rw [rule.bytes_address, List.drop_left]
  exact List.prefix_append _ _

theorem strstr_name (rule : Rule) : strstr rule.bytes nameText = some rule.front.length := by
  apply strstr_eq_some (List.cons_ne_nil _ _)
  refine ⟨?_, rule.nameFirst⟩
  rw [rule.bytes_name, List.drop_left]
  exact List.prefix_append _ _

theorem drop_address (rule : Rule) :
    rule.bytes.drop (rule.before.length + (attrAddress.length + 1)) =
      rule.mac ++ quote :: (rule.middle ++ nameText ++ quote :: rule.behind) := by
  rw [rule.bytes_address, ← List.drop_drop, List.drop_left, ← List.drop_drop, List.drop_left]
  rfl

theorem drop_name (rule : Rule) :
    rule.bytes.drop (rule.front.length + (nameText.length + 1)) = rule.behind := by
  rw [rule.bytes_name, ← List.drop_drop, List.drop_left, ← List.drop_drop, List.drop_left]
  rfl

/-- The address of a rule ends where a formatted address ends. -/
theorem hasMac_iff (rule : Rule) {smac : List UInt8} (length : smac.length = 17) :
    smac.map tolower <+:
        (rule.mac ++ quote :: (rule.middle ++ nameText ++ quote :: rule.behind)).map tolower ↔
      rule.HasMac smac := by
  have same : (smac.map tolower).length = (rule.mac.map tolower).length := by
    rw [List.length_map, List.length_map, length, rule.macLength]
  rw [List.map_append]
  constructor
  · intro starts
    have starts := List.prefix_of_prefix_length_le starts (List.prefix_append _ _) same.le
    exact (starts.eq_of_length same).symm
  · intro hasMac
    rw [← hasMac]
    exact List.prefix_append _ _

theorem begins_of_ifname {rule : Rule} {device : List UInt8} (named : rule.ifname = device) :
    rule.Begins device := by
  rw [RuleText.Begins, RuleText.behind, named, List.map_append]
  exact List.prefix_append _ _

theorem checkmacTest_iff (rule : Rule) (short : rule.bytes.length < sizeofBuff)
    (nulFree : ∀ char ∈ rule.bytes, char ≠ 0) {device smac : List UInt8}
    (deviceFree : ∀ char ∈ device, char ≠ 0) (smacFree : ∀ char ∈ smac, char ≠ 0)
    (length : smac.length = 17) (buff : Nat → UInt8) :
    checkmacTest device smac (storedIn buff rule.bytes) = true ↔
      rule.HasMac smac ∧ rule.Begins device := by
  have address : rule.before.length + (attrAddress.length + 1) ≤ rule.bytes.length := by
    rw [rule.bytes_address]
    simp
  have name : rule.front.length + (nameText.length + 1) ≤ rule.bytes.length := by
    rw [rule.bytes_name]
    simp
  unfold checkmacTest
  rw [textIn_storedIn nulFree short, rule.strstr_address, rule.strstr_name]
  simp only [decide_eq_true_eq]
  apply and_congr
  · rw [strncasecmp_storedIn_eq_zero_iff address smacFree, rule.drop_address, rule.hasMac_iff length]
  · rw [strncasecmp_storedIn_eq_zero_iff name deviceFree, rule.drop_name]
    rfl

theorem ifname_unique {rule other : Rule} (same : rule.bytes = other.bytes) :
    rule.ifname = other.ifname := by
  have place : rule.front.length = other.front.length := by
    have first := rule.strstr_name
    rw [same, other.strstr_name] at first
    exact (Option.some.inj first).symm
  have behind : rule.behind = other.behind := by
    rw [← rule.drop_name, ← other.drop_name, same, place]
  have cut : ∀ known : Rule, known.behind.takeWhile (· ≠ quote) = known.ifname := by
    intro known
    rw [RuleText.behind, List.takeWhile_append_of_pos, List.takeWhile_cons_of_neg]
    · exact List.append_nil _
    · simp
    · intro char membership
      exact decide_eq_true (ne_of_mem_of_not_mem membership known.quoteFree)
  rw [← cut rule, behind, cut other]

end Rule

namespace RulesLine

instance (line : RulesLine) (smac device : List UInt8) : Decidable (line.Takes smac device) :=
  inferInstanceAs (Decidable (∃ rule ∈ line.rule, rule.HasMac smac ∧ rule.Begins device))

theorem Names.takes {line : RulesLine} {smac device : List UInt8} (names : line.Names smac device) :
    line.Takes smac device := by
  obtain ⟨rule, known, hasMac, named⟩ := names
  exact ⟨rule, known, hasMac, Rule.begins_of_ifname named⟩

theorem checkmacTest_eq (line : RulesLine) {device smac : List UInt8}
    (deviceFree : ∀ char ∈ device, char ≠ 0) (smacFree : ∀ char ∈ smac, char ≠ 0)
    (length : smac.length = 17) (buff : Nat → UInt8) :
    checkmacTest device smac (storedIn buff line.bytes) = decide (line.Takes smac device) := by
  cases known : line.rule with
  | none =>
      have fails : ¬ line.Takes smac device := by
        rintro ⟨rule, membership, _⟩
        rw [known] at membership
        exact absurd membership (Option.not_mem_none _)
      unfold checkmacTest
      rw [textIn_storedIn line.nulFree line.isLine.short, decide_eq_false fails]
      rcases line.other known with address | name
      · rw [strstr_eq_none address]
      · rw [strstr_eq_none name]
        cases strstr line.bytes attrAddress <;> rfl
  | some rule =>
      have isRule := line.isRule rule known
      have takes : line.Takes smac device ↔ rule.HasMac smac ∧ rule.Begins device := by
        unfold Takes
        rw [known]
        simp
      rw [Bool.eq_iff_iff, decide_eq_true_iff, takes, ← isRule]
      apply rule.checkmacTest_iff _ _ deviceFree smacFree length
      · rw [isRule]
        exact line.isLine.short
      · rw [isRule]
        exact line.nulFree

end RulesLine

/-! ## All lines, all ports -/

theorem checkmacTest_zero (device smac : List UInt8) :
    checkmacTest device smac (fun _ => 0) = false := by
  have empty : textIn sizeofBuff (fun _ => 0) = [] :=
    textIn_eq (Nat.zero_lt_succ _) (fun _ below => absurd below (Nat.not_lt_zero _)) rfl
  have absent : ¬ attrAddress <:+: [] :=
    fun contained => List.cons_ne_nil _ _ (List.eq_nil_of_infix_nil contained)
  unfold checkmacTest
  rw [empty, strstr_eq_none absent]

namespace Lookup

def file (lookup : Lookup) : List UInt8 := (lookup.lines.map RulesLine.bytes).flatten

def taken (lookup : Lookup) (ethAddr : EtherAddr) : Option RulesLine :=
  lookup.lines.find? fun line => line.Takes (lookup.ether.format ethAddr) lookup.device

def Taken (lookup : Lookup) (ethAddr : EtherAddr) : Prop :=
  ∃ line ∈ lookup.lines, line.Takes (lookup.ether.format ethAddr) lookup.device

def Named (lookup : Lookup) (ethAddr : EtherAddr) : Prop :=
  ∃ line ∈ lookup.lines, line.Names (lookup.ether.format ethAddr) lookup.device

theorem Named.taken {lookup : Lookup} {ethAddr : EtherAddr} (named : lookup.Named ethAddr) :
    lookup.Taken ethAddr := by
  obtain ⟨line, membership, names⟩ := named
  exact ⟨line, membership, names.takes⟩

theorem taken_eq_none_iff {lookup : Lookup} {ethAddr : EtherAddr} :
    lookup.taken ethAddr = none ↔ ¬ lookup.Taken ethAddr := by
  simp [taken, Taken]

theorem taken_of_eq_some {lookup : Lookup} {ethAddr : EtherAddr} {line : RulesLine}
    (found : lookup.taken ethAddr = some line) : lookup.Taken ethAddr := by
  have takes := List.find?_some found
  exact ⟨line, List.mem_of_find?_eq_some found, of_decide_eq_true takes⟩

theorem checkmac_eq (lookup : Lookup) (ethAddr : EtherAddr) :
    ∃ stale, checkmac (some lookup.file) lookup.device (lookup.ether.format ethAddr) =
      some ((lookup.taken ethAddr).map fun line => storedIn stale line.bytes) := by
  have test := fun (line : RulesLine) (buff : Nat → UInt8) =>
    line.checkmacTest_eq lookup.nulFree (lookup.ether.nulFree ethAddr) (lookup.ether.length ethAddr) buff
  have judges : ∀ bytes ∈ lookup.lines.map RulesLine.bytes, ∀ buff,
      checkmacTest lookup.device (lookup.ether.format ethAddr) (storedIn buff bytes) =
        checkmacTest lookup.device (lookup.ether.format ethAddr) (storedIn (fun _ => 0) bytes) := by
    intro bytes membership buff
    obtain ⟨line, _, rfl⟩ := List.mem_map.mp membership
    rw [test, test]
  obtain ⟨stale, ends⟩ := readLoop_lines (by decide) lookup.areLines judges
    (checkmacTest_zero lookup.device (lookup.ether.format ethAddr))
    (Nat.add_le_add_right lookup.areLines.length_le 2)
  refine ⟨stale, ?_⟩
  have found : (lookup.lines.map RulesLine.bytes).find? (fun bytes =>
      checkmacTest lookup.device (lookup.ether.format ethAddr) (storedIn (fun _ => 0) bytes)) =
        (lookup.taken ethAddr).map RulesLine.bytes := by
    simp only [List.find?_map, Function.comp_def, test, taken]
  rw [found, Option.map_map] at ends
  exact ends

theorem attachLoop_taken {lookup : Lookup} {ethAddr : EtherAddr} {line : RulesLine}
    (found : lookup.taken ethAddr = some line) (ports : List EtherAddr) (i : Nat) :
    attachLoop lookup.ether (some lookup.file) lookup.device i (ethAddr :: ports) =
      some (UInt8.ofNat i, some line.bytes) := by
  obtain ⟨stale, checked⟩ := lookup.checkmac_eq ethAddr
  rw [attachLoop, checked, found, Option.map_some]
  simp only [textIn_storedIn line.nulFree line.isLine.short]

theorem attachLoop_skipped {lookup : Lookup} {ethAddr : EtherAddr}
    (missed : lookup.taken ethAddr = none) (ports : List EtherAddr) (i : Nat) :
    attachLoop lookup.ether (some lookup.file) lookup.device i (ethAddr :: ports) =
      attachLoop lookup.ether (some lookup.file) lookup.device (i + 1) ports := by
  obtain ⟨stale, checked⟩ := lookup.checkmac_eq ethAddr
  rw [attachLoop, checked, missed, Option.map_none]

theorem attachLoop_cases (lookup : Lookup) (ports : List EtherAddr) (i : Nat) :
    (∀ ethAddr ∈ ports, ¬ lookup.Taken ethAddr) ∧
        attachLoop lookup.ether (some lookup.file) lookup.device i ports = some (0, none) ∨
      ∃ index ethAddr line, FirstWith lookup.Taken ports index ethAddr ∧
        lookup.taken ethAddr = some line ∧
        attachLoop lookup.ether (some lookup.file) lookup.device i ports =
          some (UInt8.ofNat (i + index), some line.bytes) := by
  induction ports generalizing i with
  | nil => exact Or.inl ⟨fun _ membership => absurd membership List.not_mem_nil, rfl⟩
  | cons ethAddr ports inductionHypothesis =>
      cases found : lookup.taken ethAddr with
      | some line =>
          right
          exact ⟨0, ethAddr, line, FirstWith.head (taken_of_eq_some found) ports, found,
            attachLoop_taken found ports i⟩
      | none =>
          have skipped := taken_eq_none_iff.mp found
          rw [attachLoop_skipped found]
          rcases inductionHypothesis (i + 1) with ⟨untaken, ends⟩ | ⟨index, port, line, first, decides, ends⟩
          · left
            refine ⟨?_, ends⟩
            rintro other membership
            rcases List.mem_cons.mp membership with rfl | behind
            · exact skipped
            · exact untaken other behind
          · right
            refine ⟨index + 1, port, line, first.cons skipped, decides, ?_⟩
            rw [← Nat.add_assoc, Nat.add_right_comm]
            exact ends

/-! ## The result -/

/-- The index is that of the first port whose address stands in a rule with exactly
the configured name, and 0 when there is no such port. -/
structure Resolves (lookup : Lookup) (idx : UInt8) : Prop where
  found : ∀ i ethAddr, FirstWith lookup.Named lookup.ports i ethAddr → idx.toNat = i
  missing : (∀ ethAddr ∈ lookup.ports, ¬ lookup.Named ethAddr) → idx = 0

/-- The line that decided carries exactly the configured name. -/
def Through (lookup : Lookup) (through : Option (List UInt8)) : Prop :=
  ∀ bytes, through = some bytes → ∃ rule : Rule, rule.bytes = bytes ∧ rule.ifname = lookup.device

/-- The first port for which a line is taken has a rule with exactly the name, or it
is port 0 and no port has one. -/
def PortNamed (lookup : Lookup) : Prop :=
  ∀ i ethAddr, FirstWith lookup.Taken lookup.ports i ethAddr →
    lookup.Named ethAddr ∨ i = 0 ∧ ∀ other ∈ lookup.ports, ¬ lookup.Named other

/-- The first line taken for that port is such a rule. -/
def LineNamed (lookup : Lookup) : Prop :=
  ∀ i ethAddr, FirstWith lookup.Taken lookup.ports i ethAddr → ∀ line, lookup.taken ethAddr = some line →
    line.Names (lookup.ether.format ethAddr) lookup.device

def attachSelf (lookup : Lookup) : Option (UInt8 × Option (List UInt8)) :=
  rteEthDevAttachSelf lookup.ether (some lookup.file) lookup.ports lookup.device

theorem attachSelf_taken {lookup : Lookup} {ethAddr : EtherAddr} {ports : List EtherAddr}
    {line : RulesLine} (start : lookup.ports = ethAddr :: ports)
    (found : lookup.taken ethAddr = some line) : lookup.attachSelf = some (0, some line.bytes) := by
  rw [attachSelf, rteEthDevAttachSelf, start, attachLoop_taken found]
  rfl

theorem attachSelf_cases (lookup : Lookup) :
    (∀ ethAddr ∈ lookup.ports, ¬ lookup.Taken ethAddr) ∧ lookup.attachSelf = some (0, none) ∨
      ∃ idx ethAddr line, FirstWith lookup.Taken lookup.ports (UInt8.toNat idx) ethAddr ∧
        lookup.taken ethAddr = some line ∧ lookup.attachSelf = some (idx, some line.bytes) := by
  rcases lookup.attachLoop_cases lookup.ports 0 with untaken | ⟨i, ethAddr, line, first, found, ends⟩
  · exact Or.inl untaken
  · right
    obtain ⟨inside, _⟩ := List.getElem?_eq_some_iff.mp first.here
    have whole : (UInt8.ofNat i).toNat = i :=
      UInt8.toNat_ofNat_of_lt' (inside.trans lookup.countable)
    rw [Nat.zero_add] at ends
    refine ⟨UInt8.ofNat i, ethAddr, line, ?_, found, ends⟩
    rw [whole]
    exact first

/-- A first port with the exact name is the first one with a line that is taken, once
that one has the name as well. -/
theorem resolves_iff {lookup : Lookup} {idx : UInt8} {ethAddr : EtherAddr}
    (first : FirstWith lookup.Taken lookup.ports idx.toNat ethAddr) :
    lookup.Resolves idx ↔
      lookup.Named ethAddr ∨ idx.toNat = 0 ∧ ∀ other ∈ lookup.ports, ¬ lookup.Named other := by
  have before : ∀ earlier < idx.toNat, ∀ other, lookup.ports[earlier]? = some other →
      ¬ lookup.Named other :=
    fun earlier below other there named => first.before earlier below other there named.taken
  constructor
  · intro resolves
    by_cases named : lookup.Named ethAddr
    · exact Or.inl named
    · right
      have nowhere : ∀ other ∈ lookup.ports, ¬ lookup.Named other := by
        by_contra somewhere
        push Not at somewhere
        obtain ⟨i, port, firstNamed⟩ := exists_firstWith somewhere
        have here := first.here
        rw [resolves.found i port firstNamed, firstNamed.here] at here
        obtain rfl := Option.some.inj here
        exact named firstNamed.holds
      refine ⟨?_, nowhere⟩
      rw [resolves.missing nowhere]
      rfl
  · rintro (named | ⟨zero, nowhere⟩)
    · constructor
      · intro i port firstNamed
        exact FirstWith.unique ⟨first.here, named, before⟩ firstNamed
      · intro nowhere
        exact absurd named (nowhere ethAddr (List.mem_of_getElem? first.here))
    · constructor
      · intro i port firstNamed
        exact absurd firstNamed.holds (nowhere port (List.mem_of_getElem? firstNamed.here))
      · intro _
        exact UInt8.toNat_inj.mp zero

theorem resolves_zero {lookup : Lookup}
    (untaken : ∀ ethAddr ∈ lookup.ports, ¬ lookup.Taken ethAddr) : lookup.Resolves 0 := by
  refine ⟨?_, fun _ => rfl⟩
  intro i ethAddr first
  exact absurd first.holds.taken (untaken ethAddr (List.mem_of_getElem? first.here))

theorem portNamed_of_lineNamed {lookup : Lookup} (lineNamed : lookup.LineNamed) :
    lookup.PortNamed := by
  intro i ethAddr first
  left
  cases found : lookup.taken ethAddr with
  | none => exact absurd first.holds (taken_eq_none_iff.mp found)
  | some line => exact ⟨line, List.mem_of_find?_eq_some found, lineNamed i ethAddr first line found⟩

theorem through_iff {lookup : Lookup} {ethAddr : EtherAddr} {line : RulesLine}
    (found : lookup.taken ethAddr = some line) :
    lookup.Through (some line.bytes) ↔ line.Names (lookup.ether.format ethAddr) lookup.device := by
  have takes := List.find?_some found
  obtain ⟨rule, known, hasMac, _⟩ := of_decide_eq_true takes
  have isRule := line.isRule rule known
  constructor
  · intro through
    obtain ⟨other, same, named⟩ := through line.bytes rfl
    refine ⟨rule, known, hasMac, ?_⟩
    rw [← named]
    exact Rule.ifname_unique (isRule.trans same.symm)
  · rintro ⟨other, same, _, named⟩ bytes decided
    obtain rfl := Option.some.inj decided
    exact ⟨other, line.isRule other same, named⟩

theorem through_unique {lookup other : Lookup} {bytes : List UInt8}
    (through : lookup.Through (some bytes)) (again : other.Through (some bytes)) :
    lookup.device = other.device := by
  obtain ⟨rule, isRule, named⟩ := through bytes rfl
  obtain ⟨second, isSecond, namedSecond⟩ := again bytes rfl
  rw [← named, ← namedSecond]
  exact Rule.ifname_unique (isRule.trans isSecond.symm)

theorem attachSelf_spec (lookup : Lookup) :
    ∃ idx through, lookup.attachSelf = some (idx, through) ∧
      (lookup.Resolves idx ↔ lookup.PortNamed) ∧ (lookup.Through through ↔ lookup.LineNamed) := by
  rcases lookup.attachSelf_cases with ⟨untaken, ends⟩ | ⟨idx, ethAddr, line, first, found, ends⟩
  · have nowhere : ∀ i ethAddr, ¬ FirstWith lookup.Taken lookup.ports i ethAddr :=
      fun i ethAddr first => untaken ethAddr (List.mem_of_getElem? first.here) first.holds
    refine ⟨0, none, ends, ?_, ?_⟩
    · apply iff_of_true (resolves_zero untaken)
      intro i ethAddr first
      exact absurd first (nowhere i ethAddr)
    · apply iff_of_true
      · intro bytes decided
        exact absurd decided (Option.some_ne_none bytes).symm
      · intro i ethAddr first
        exact absurd first (nowhere i ethAddr)
  · have only : ∀ i port, FirstWith lookup.Taken lookup.ports i port → i = idx.toNat ∧ port = ethAddr := by
      intro i port again
      obtain rfl := again.unique first
      exact ⟨rfl, Option.some.inj (again.here.symm.trans first.here)⟩
    refine ⟨idx, some line.bytes, ends, ?_, ?_⟩
    · rw [resolves_iff first]
      constructor
      · intro decides i port again
        obtain ⟨rfl, rfl⟩ := only i port again
        exact decides
      · intro portNamed
        exact portNamed idx.toNat ethAddr first
    · rw [through_iff found]
      constructor
      · intro names i port again other chosen
        obtain ⟨rfl, rfl⟩ := only i port again
        obtain rfl := Option.some.inj (found.symm.trans chosen)
        exact names
      · intro lineNamed
        exact lineNamed idx.toNat ethAddr first line found

end Lookup

/-- `*idx` is the port of the configured name exactly when the first port with a line
that begins like the name has a line with exactly the name.  The line it is found
through then carries that name, and no other name, exactly when it is the first such
line of the port. -/
theorem rteEthDevAttachSelf_resolves_iff (lookup : Lookup) :
    ∃ idx through, rteEthDevAttachSelf lookup.ether (some lookup.file) lookup.ports lookup.device =
        some (idx, through) ∧
      (lookup.Resolves idx ↔ lookup.PortNamed) ∧
      (lookup.Resolves idx ∧ lookup.Through through ↔ lookup.LineNamed) ∧
      (lookup.LineNamed → ∀ other : Lookup, other.LineNamed → other.device ≠ lookup.device →
        ∀ line, through = some line →
          ∀ otherIdx, rteEthDevAttachSelf other.ether (some other.file) other.ports other.device ≠
            some (otherIdx, some line)) := by
  obtain ⟨idx, through, ends, resolves, named⟩ := lookup.attachSelf_spec
  refine ⟨idx, through, ends, resolves, ?_, ?_⟩
  · rw [named, resolves]
    exact and_iff_right_of_imp Lookup.portNamed_of_lineNamed
  · rintro lineNamed other otherNamed different line rfl otherIdx otherEnds
    obtain ⟨_, _, again, _, otherThrough⟩ := other.attachSelf_spec
    rw [Lookup.attachSelf, otherEnds] at again
    obtain ⟨-, rfl⟩ := Prod.mk.inj (Option.some.inj again)
    exact different (Lookup.through_unique (otherThrough.mpr otherNamed) (named.mpr lineNamed))

/-! ### Two names, one the beginning of the other -/

def hexDigit (value : Nat) : UInt8 :=
  if value % 16 < 10 then UInt8.ofNat (48 + value % 16) else UInt8.ofNat (55 + value % 16)

theorem hexDigit_ne_zero (value : Nat) : hexDigit value ≠ 0 := by
  have bound := Nat.mod_lt value (show 0 < 16 by decide)
  unfold hexDigit
  intro zero
  have image := congrArg UInt8.toNat zero
  split at image <;> simp only [UInt8.toNat_ofNat', UInt8.toNat_zero] at image <;> omega

def hexByte (byte : UInt8) : List UInt8 := [hexDigit (byte.toNat / 16), hexDigit byte.toNat]

theorem ne_zero_of_mem_hexByte {byte char : UInt8} (membership : char ∈ hexByte byte) : char ≠ 0 := by
  unfold hexByte at membership
  rcases List.mem_pair.mp membership with rfl | rfl
  · exact hexDigit_ne_zero _
  · exact hexDigit_ne_zero _

def etherFormatAddr : EtherFormat where
  format addr := hexByte (addr.addrBytes 0) ++
    ([1, 2, 3, 4, 5] : List (Fin 6)).flatMap fun place => 58 :: hexByte (addr.addrBytes place)
  length addr := rfl
  nulFree addr := by
    intro char membership
    rcases List.mem_append.mp membership with first | behind
    · exact ne_zero_of_mem_hexByte first
    · obtain ⟨place, _, here⟩ := List.mem_flatMap.mp behind
      rcases List.mem_cons.mp here with rfl | digit
      · decide
      · exact ne_zero_of_mem_hexByte digit

def eth1 : List UInt8 := [101, 116, 104, 49]

def eth10 : List UInt8 := [101, 116, 104, 49, 48]

def portOf (byte : UInt8) : EtherAddr := ⟨fun _ => byte⟩

def ruleText (ethAddr : EtherAddr) (ifname : List UInt8) : RuleText where
  before := []
  mac := etherFormatAddr.format ethAddr
  middle := [44, 32]
  ifname := ifname
  after := [newline]

def eth10Rule : Rule where
  toRuleText := ruleText (portOf 2) eth10
  macLength := rfl
  quoteFree := by decide
  addressFirst _ below := absurd below (Nat.not_lt_zero _)
  nameFirst := by decide

def eth1Rule : Rule where
  toRuleText := ruleText (portOf 6) eth1
  macLength := rfl
  quoteFree := by decide
  addressFirst _ below := absurd below (Nat.not_lt_zero _)
  nameFirst := by decide

def Rule.line (rule : Rule) (isLine : IsLine sizeofBuff rule.bytes)
    (nulFree : ∀ char ∈ rule.bytes, char ≠ 0) : RulesLine where
  bytes := rule.bytes
  isLine := isLine
  nulFree := nulFree
  rule := some rule
  isRule _ known := congrArg (fun known : Rule => known.bytes) (Option.some.inj known.symm)
  other unknown := absurd unknown (Option.some_ne_none _)

def eth10Line : RulesLine := eth10Rule.line ⟨by decide, by decide, by decide⟩ (ne_zero_of_all rfl)

def eth1Line : RulesLine := eth1Rule.line ⟨by decide, by decide, by decide⟩ (ne_zero_of_all rfl)

def lookupOf (device : List UInt8) (nulFree : ∀ char ∈ device, char ≠ 0) : Lookup where
  ether := etherFormatAddr
  ports := [portOf 2, portOf 6]
  countable := by decide
  lines := [eth10Line, eth1Line]
  areLines := by
    refine ⟨?_, by decide⟩
    intro bytes membership
    rcases List.mem_pair.mp membership with rfl | rfl
    · exact eth10Line.isLine
    · exact eth1Line.isLine
  device := device
  nulFree := nulFree

def eth10Lookup : Lookup := lookupOf eth10 (ne_zero_of_all rfl)

def eth1Lookup : Lookup := lookupOf eth1 (ne_zero_of_all rfl)

/-- The name `eth1` is bound to the port of `eth10`, through the line of `eth10`. -/
theorem rteEthDevAttachSelf_prefix :
    eth10Lookup.attachSelf = some (0, some eth10Line.bytes) ∧
      eth1Lookup.attachSelf = some (0, some eth10Line.bytes) ∧
      FirstWith eth1Lookup.Named [portOf 2, portOf 6] 1 (portOf 6) ∧
      ¬ eth1Lookup.Resolves 0 := by
  have unnamed : ¬ eth1Lookup.Named (portOf 2) := by
    rintro ⟨line, membership, rule, known, hasMac, named⟩
    rcases List.mem_pair.mp membership with rfl | rfl
    · obtain rfl := Option.some.inj known
      exact absurd named (by decide)
    · obtain rfl := Option.some.inj known
      exact absurd hasMac (by decide)
  have named : eth1Lookup.Named (portOf 6) :=
    ⟨eth1Line, List.mem_pair.mpr (Or.inr rfl), eth1Rule, rfl, rfl, rfl⟩
  have second : FirstWith eth1Lookup.Named [portOf 2, portOf 6] 1 (portOf 6) :=
    FirstWith.cons (FirstWith.head named []) unnamed
  refine ⟨?_, ?_, second, ?_⟩
  · exact Lookup.attachSelf_taken rfl (List.find?_cons_of_pos (by decide))
  · exact Lookup.attachSelf_taken rfl (List.find?_cons_of_pos (by decide))
  · intro resolves
    exact absurd (resolves.found 1 _ second) (by decide)

end UAFlow.Config
