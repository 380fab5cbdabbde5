import UAFlow.Library.Stdio

/-!
# Binding a name to a device

`rte_eth_dev_attach_self` looks in the rules of the device manager for a line with
the address of a port and the configured name.  Behind each keyword it steps over
one character more, the quotation mark, and compares as far as the text that it
looks for reaches.
-/

namespace UAFlow.Config

open Library

def attrAddress : List UInt8 := [65, 84, 84, 82, 123, 97, 100, 100, 114, 101, 115, 115, 125, 61, 61]

def nameText : List UInt8 := [78, 65, 77, 69, 61]

def sizeofBuff : Nat := 2048

structure EtherAddr where
  addrBytes : Fin 6 → UInt8

/-- `ether_format_addr` with room for `ETHER_ADDR_FMT_SIZE` characters. -/
structure EtherFormat where
  format : EtherAddr → List UInt8
  length : ∀ addr, (format addr).length = 17
  nulFree : ∀ addr, ∀ char ∈ format addr, char ≠ 0

/-- The condition under which a line is accepted; `sizeof` counts the terminator of
a keyword. -/
def checkmacTest (device smac : List UInt8) (buff : Nat → UInt8) : Bool :=
  match strstr (textIn sizeofBuff buff) attrAddress, strstr (textIn sizeofBuff buff) nameText with
  | some p1, some p2 =>
      let p1 := p1 + (attrAddress.length + 1)
      let p2 := p2 + (nameText.length + 1)
      strncasecmp (fun offset => buff (p1 + offset)) (literal smac) smac.length = 0 ∧
        strncasecmp (fun offset => buff (p2 + offset)) (literal device) device.length = 0
  | _, _ => false

/-- `rte_eth_dev_attach_self_inside_checkmac`: what is in the buffer when it returns
0, nothing when it returns -1.  There is no file when it cannot be opened. -/
def checkmac (file : Option (List UInt8)) (device smac : List UInt8) :
    Option (Option (Nat → UInt8)) :=
  match file with
  | none => some none
  | some file =>
      readLoop (checkmacTest device smac) sizeofBuff (file.length + 2) (fun _ => 0) ⟨file, false⟩

def attachLoop (ether : EtherFormat) (file : Option (List UInt8)) (device : List UInt8) :
    Nat → List EtherAddr → Option (UInt8 × Option (List UInt8))
  | _, [] => some (0, none)
  | i, ethAddr :: ports =>
      match checkmac file device (ether.format ethAddr) with
      | none => none
      | some (some buff) => some (UInt8.ofNat i, some (textIn sizeofBuff buff))
      | some none => attachLoop ether file device (i + 1) ports

def rteEthDevAttachSelf (ether : EtherFormat) (file : Option (List UInt8))
    (ports : List EtherAddr) (device : List UInt8) : Option (UInt8 × Option (List UInt8)) :=
  attachLoop ether file device 0 ports

/-! ## The rules -/

def quote : UInt8 := 34

/-- The parts of a line, `ATTR{address}=="mac"` and then `NAME="ifname"`. -/
structure RuleText where
  before : List UInt8
  mac : List UInt8
  middle : List UInt8
  ifname : List UInt8
  after : List UInt8

namespace RuleText

def front (rule : RuleText) : List UInt8 :=
  rule.before ++ attrAddress ++ quote :: (rule.mac ++ quote :: rule.middle)

def behind (rule : RuleText) : List UInt8 := rule.ifname ++ quote :: rule.after

def bytes (rule : RuleText) : List UInt8 := rule.front ++ nameText ++ quote :: rule.behind

/-- The rule is for this address; the case of its digits does not matter. -/
def HasMac (rule : RuleText) (smac : List UInt8) : Prop :=
  rule.mac.map tolower = smac.map tolower

def Begins (rule : RuleText) (device : List UInt8) : Prop :=
  device.map tolower <+: rule.behind.map tolower

instance (rule : RuleText) (smac : List UInt8) : Decidable (rule.HasMac smac) :=
  inferInstanceAs (Decidable (_ = _))

instance (rule : RuleText) (device : List UInt8) : Decidable (rule.Begins device) :=
  inferInstanceAs (Decidable (_ <+: _))

end RuleText

/-- A rule whose keywords are the first ones of the line. -/
structure Rule extends RuleText where
  macLength : mac.length = 17
  quoteFree : quote ∉ ifname
  addressFirst : ∀ earlier < before.length, ¬ attrAddress <+: toRuleText.bytes.drop earlier
  nameFirst : ∀ earlier < toRuleText.front.length, ¬ nameText <+: toRuleText.bytes.drop earlier

/-- A line of the file with its newline: a rule, or a line without one of the
keywords. -/
structure RulesLine where
  bytes : List UInt8
  isLine : IsLine sizeofBuff bytes
  nulFree : ∀ char ∈ bytes, char ≠ 0
  rule : Option Rule
  isRule : ∀ known, rule = some known → known.bytes = bytes
  other : rule = none → ¬ attrAddress <:+: bytes ∨ ¬ nameText <:+: bytes

/-- What a name is looked up in; `rte_eth_dev_count` returns a `uint8_t`. -/
structure Lookup where
  ether : EtherFormat
  ports : List EtherAddr
  countable : ports.length < 256
  lines : List RulesLine
  areLines : AreLines sizeofBuff (lines.map RulesLine.bytes)
  device : List UInt8
  nulFree : ∀ char ∈ device, char ≠ 0

def RulesLine.Takes (line : RulesLine) (smac device : List UInt8) : Prop :=
  ∃ rule ∈ line.rule, rule.HasMac smac ∧ rule.Begins device

def RulesLine.Names (line : RulesLine) (smac device : List UInt8) : Prop :=
  ∃ rule ∈ line.rule, rule.HasMac smac ∧ rule.ifname = device

end UAFlow.Config
