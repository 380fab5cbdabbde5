import Mathlib.Data.List.Sort
import Mathlib.Logic.Function.Basic
import UAFlow.Library.Runs

/-!
# The multi-pattern search of `flow_core_ahocorasick.c` and `flow_core_node.c`

The nodes of a trie come from its memory pool one after another and never go
back, so a node is named by the number of nodes handed out before it.  A letter
is a `char`: a byte, compared by its value as a signed number.
-/

namespace UAFlow.AhoCorasick

open Library

def acPattrnMaxLength : Nat := 1024

/-- The value a `char` is promoted to in a comparison. -/
def charValue (alpha : UInt8) : Int := alpha.toInt8.toInt

inductive AcPattid where
  | default (number : Int)
  | number (number : Int)
  | string (stringy : List UInt8)
  deriving DecidableEq

/-- A pattern with its private data; `rtext` has a null pointer when it is
`none`, and `name` is the `name_length` bytes in use. -/
structure AcPattern where
  ptext : List UInt8
  rtext : Option (List UInt8)
  id : AcPattid
  itemid : UInt32
  idx : UInt8
  name : List UInt8
  deriving DecidableEq

structure ActEdge where
  alpha : UInt8
  next : Nat
  deriving DecidableEq

structure ActNode where
  final : Bool
  depth : Nat
  failureNode : Option Nat
  outgoing : List ActEdge
  matched : List AcPattern

def ActNode.init : ActNode := ⟨false, 0, none, [], []⟩

structure Pool where
  node : Nat → ActNode
  used : Nat

inductive ActWorkingMode where
  | search
  | findnext
  deriving DecidableEq

structure AcTrie where
  pool : Pool
  patternsCount : Nat
  trieOpen : Bool
  lastNode : Nat
  basePosition : Nat
  text : Option (List UInt8)
  position : Nat
  wm : ActWorkingMode

def root : Nat := 0

inductive AcStatus where
  | success
  | duplicatePattern
  | longPattern
  | zeroPattern
  | trieClosed
  deriving DecidableEq

/-- Ways a call can go wrong: `prefix` is written past its end, a loop or a
recursion has not ended within the steps allowed, or a null text is searched. -/
inductive Fault where
  | prefixOverflow
  | unfinished
  | nullText
  deriving DecidableEq

/-! ## Nodes -/

namespace Pool

def setNode (pool : Pool) (nod : Nat) (value : ActNode) : Pool :=
  { pool with node := Function.update pool.node nod value }

def create (pool : Pool) : Pool :=
  { node := Function.update pool.node pool.used ActNode.init, used := pool.used + 1 }

end Pool

def nodeFindNext (pool : Pool) (nod : Nat) (alpha : UInt8) : Option Nat :=
  ((pool.node nod).outgoing.find? fun edge => edge.alpha == alpha).map ActEdge.next

def findNextBsLoop (outgoing : List ActEdge) (alpha : UInt8) : Nat → Int → Int → Option Nat
  | 0, _, _ => none
  | fuel + 1, min, max =>
      if min ≤ max then
        let mid := (min + max) / 2
        match outgoing[mid.toNat]? with
        | none => none
        | some edge =>
            if charValue alpha > charValue edge.alpha then
              findNextBsLoop outgoing alpha fuel (mid + 1) max
            else if charValue alpha < charValue edge.alpha then
              findNextBsLoop outgoing alpha fuel min (mid - 1)
            else
              some edge.next
      else
        none

def nodeFindNextBs (pool : Pool) (nod : Nat) (alpha : UInt8) : Option Nat :=
  let outgoing := (pool.node nod).outgoing
  findNextBsLoop outgoing alpha (outgoing.length + 1) 0 (outgoing.length - 1)

def nodeHasPattern (node : ActNode) (patt : AcPattern) : Bool :=
  node.matched.any fun known => known.ptext == patt.ptext

/-- `mpool_strndup`: `strncpy` stops at a terminator and fills up with zeros. -/
def mpoolStrndup (str : List UInt8) : List UInt8 :=
  let text := str.takeWhile fun char => char ≠ 0
  text ++ List.replicate (str.length - text.length) 0

def nodeCopyPattern (patt : AcPattern) : AcPattern where
  ptext := mpoolStrndup patt.ptext
  rtext := patt.rtext.map mpoolStrndup
  id := patt.id
  itemid := patt.itemid
  idx := patt.idx
  name := mpoolStrndup patt.name

def nodeAcceptPattern (node : ActNode) (newPatt : AcPattern) (copy : Bool) : ActNode :=
  if nodeHasPattern node newPatt then
    node
  else
    { node with matched := node.matched ++ [if copy then nodeCopyPattern newPatt else newPatt] }

def nodeAddEdge (pool : Pool) (nod next : Nat) (alpha : UInt8) : Pool :=
  let node := pool.node nod
  pool.setNode nod { node with outgoing := node.outgoing ++ [⟨alpha, next⟩] }

def nodeCreateNext (pool : Pool) (nod : Nat) (alpha : UInt8) : Pool × Option Nat :=
  match nodeFindNext pool nod alpha with
  | some _ => (pool, none)
  | none => (nodeAddEdge pool.create nod pool.used alpha, some pool.used)

def nodeSortEdges (node : ActNode) : ActNode :=
  { node with
    outgoing := node.outgoing.mergeSort fun left right =>
      charValue left.alpha ≤ charValue right.alpha }

def collectMatchesLoop (nod : Nat) : Nat → Pool → Nat → Except Fault Pool
  | 0, _, _ => .error .unfinished
  | fuel + 1, pool, n =>
      match (pool.node n).failureNode with
      | none => .ok pool
      | some n =>
          let node := (pool.node n).matched.foldl
            (fun node patt => nodeAcceptPattern node patt false) (pool.node nod)
          let node := if (pool.node n).final then { node with final := true } else node
          collectMatchesLoop nod fuel (pool.setNode nod node) n

def nodeCollectMatches (pool : Pool) (nod : Nat) : Except Fault Pool :=
  match collectMatchesLoop nod ((pool.node nod).depth + 1) pool nod with
  | .error fault => .error fault
  | .ok pool => .ok (pool.setNode nod (nodeSortEdges (pool.node nod)))

/-! ## Building a trie -/

def acTrieCreate : AcTrie where
  pool := { node := fun _ => ActNode.init, used := 1 }
  patternsCount := 0
  trieOpen := true
  lastNode := root
  basePosition := 0
  text := none
  position := 0
  wm := .search

def addLetter (pool : Pool) (n : Nat) (alpha : UInt8) : Pool × Nat :=
  match nodeFindNext pool n alpha with
  | some next => (pool, next)
  | none =>
      match nodeCreateNext pool n alpha with
      | (pool, some next) =>
          (pool.setNode next { pool.node next with depth := (pool.node n).depth + 1 }, next)
      -- not reached: `nodeFindNext` has just found no edge
      | (pool, none) => (pool, n)

def addLetters (pool : Pool) (n : Nat) (letters : List UInt8) : Pool × Nat :=
  letters.foldl (fun place alpha => addLetter place.1 place.2 alpha) (pool, n)

def acTrieAdd (thiz : AcTrie) (patt : AcPattern) (copy : Bool) : AcTrie × AcStatus :=
  if ¬ thiz.trieOpen then
    (thiz, .trieClosed)
  else if patt.ptext.length = 0 then
    (thiz, .zeroPattern)
  else if patt.ptext.length > acPattrnMaxLength then
    (thiz, .longPattern)
  else
    let (pool, n) := addLetters thiz.pool root patt.ptext
    if (pool.node n).final then
      ({ thiz with pool := pool }, .duplicatePattern)
    else
      let node := nodeAcceptPattern { pool.node n with final := true } patt copy
      ({ thiz with
          pool := pool.setNode n node
          patternsCount := thiz.patternsCount + 1 }, .success)

def follow (pool : Pool) : Nat → List UInt8 → Option Nat
  | n, [] => some n
  | n, alpha :: letters =>
      match nodeFindNext pool n alpha with
      | none => none
      | some n => follow pool n letters

/-- The letters `prefix[i] .. prefix[depth - 1]`. -/
def lettersFrom (pref : Nat → UInt8) (i depth : Nat) : List UInt8 :=
  (List.range' i (depth - i)).map pref

def acTrieSetFailure (pool : Pool) (nod : Nat) (pref : Nat → UInt8) : Pool :=
  if nod = root then
    pool
  else
    let node := pool.node nod
    let found := (List.range' 1 (node.depth - 1)).findSome? fun i =>
      follow pool root (lettersFrom pref i node.depth)
    match found with
    | some n => pool.setNode nod { node with failureNode := some n }
    | none =>
        if node.failureNode.isNone then
          pool.setNode nod { node with failureNode := some root }
        else
          pool

/-- `ac_trie_traverse_setfailure`, with the recursion as deep as `fuel` allows;
`prefix` is left as the calls below have written it. -/
def acTrieTraverseSetfailure : Nat → Pool → Nat → (Nat → UInt8) →
    Except Fault (Pool × (Nat → UInt8))
  | 0, _, _, _ => .error .unfinished
  | fuel + 1, pool, nod, pref =>
      let pool := acTrieSetFailure pool nod pref
      let depth := (pool.node nod).depth
      (pool.node nod).outgoing.foldlM
        (fun (place : Pool × (Nat → UInt8)) edge =>
          if depth < acPattrnMaxLength then
            acTrieTraverseSetfailure fuel place.1 edge.next
              (Function.update place.2 depth edge.alpha)
          else
            .error .prefixOverflow)
        (pool, pref)

def acTrieTraverseAction (func : Pool → Nat → Except Fault Pool) :
    Nat → Pool → Nat → Except Fault Pool
  | 0, _, _ => .error .unfinished
  | fuel + 1, pool, nod =>
      match func pool nod with
      | .error fault => .error fault
      | .ok pool =>
          (pool.node nod).outgoing.foldlM
            (fun pool edge => acTrieTraverseAction func fuel pool edge.next) pool

/-- The recursions go down once for each letter of a pattern. -/
def acTrieFinalize (thiz : AcTrie) : Except Fault AcTrie :=
  match acTrieTraverseSetfailure (acPattrnMaxLength + 1) thiz.pool root (fun _ => 0) with
  | .error fault => .error fault
  | .ok (pool, _) =>
      match acTrieTraverseAction nodeCollectMatches (acPattrnMaxLength + 1) pool root with
      | .error fault => .error fault
      | .ok pool => .ok { thiz with pool := pool, trieOpen := false }

/-! ## Searching -/

structure AcMatch where
  patterns : List AcPattern
  position : Nat
  deriving DecidableEq

def AcMatch.size (found : AcMatch) : Nat := found.patterns.length

abbrev AcMatchCallback (User : Type) := AcMatch → User → User × Int

/-- How the search loop ends: at the end of the text, or at a match where the
callback stops it, with `position`, `current` and the user's data. -/
inductive SearchEnd (User : Type) where
  | finished (position current : Nat) (user : User)
  | stopped (position current : Nat) (user : User)

def searchLoop {User : Type} (pool : Pool) (text : List UInt8) (basePosition : Nat)
    (callback : AcMatchCallback User) :
    Nat → Nat → Nat → User → Except Fault (SearchEnd User)
  | 0, _, _, _ => .error .unfinished
  | fuel + 1, position, current, user =>
      match text[position]? with
      | none => .ok (.finished position current user)
      | some alpha =>
          match nodeFindNextBs pool current alpha with
          | none =>
              match (pool.node current).failureNode with
              | some failure => searchLoop pool text basePosition callback fuel position failure user
              | none =>
                  searchLoop pool text basePosition callback fuel (position + 1) current user
          | some next =>
              if (pool.node next).final then
                let found := ⟨(pool.node next).matched, position + 1 + basePosition⟩
                let (user, answer) := callback found user
                if answer ≠ 0 then
                  .ok (.stopped (position + 1) next user)
                else
                  searchLoop pool text basePosition callback fuel (position + 1) next user
              else
                searchLoop pool text basePosition callback fuel (position + 1) next user

def acTrieReset (thiz : AcTrie) : AcTrie :=
  { thiz with lastNode := root, basePosition := 0 }

/-- The trie left behind, the user's data and the return value. -/
def acTrieSearch {User : Type} (thiz : AcTrie) (text : List UInt8) (keep : Bool)
    (callback : AcMatchCallback User) (user : User) : Except Fault (AcTrie × User × Int) :=
  if thiz.trieOpen then
    .ok (thiz, user, -1)
  else
    let position := if thiz.wm = .findnext then thiz.position else 0
    let current := thiz.lastNode
    let thiz := if keep then thiz else acTrieReset thiz
    let fuel := 2 * (text.length - position) + (thiz.pool.node current).depth + 1
    match searchLoop thiz.pool text thiz.basePosition callback fuel position current user with
    | .error fault => .error fault
    | .ok (.stopped position current user) =>
        if thiz.wm = .findnext then
          .ok ({ thiz with position := position, lastNode := current }, user, 1)
        else
          .ok (thiz, user, 1)
    | .ok (.finished position current user) =>
        .ok ({ thiz with
                lastNode := current
                basePosition := thiz.basePosition + position }, user, 0)

def acTrieSettext (thiz : AcTrie) (text : List UInt8) (keep : Bool) : AcTrie :=
  let thiz := if keep then thiz else acTrieReset thiz
  { thiz with text := some text, position := 0 }

def acTrieMatchHandler : AcMatchCallback AcMatch := fun matchp _ => (matchp, 1)

def acTrieFindnext (thiz : AcTrie) : Except Fault (AcTrie × AcMatch) :=
  match thiz.text with
  | none =>
      -- the search returns before it looks at the text of an open trie
      if thiz.trieOpen then .ok ({ thiz with wm := .search }, ⟨[], 0⟩) else .error .nullText
  | some text =>
      match acTrieSearch { thiz with wm := .findnext } text true acTrieMatchHandler ⟨[], 0⟩ with
      | .error fault => .error fault
      | .ok (thiz, found, _) => .ok ({ thiz with wm := .search }, found)

/-! ## Histories -/

def acTrieAddAll (thiz : AcTrie) (adds : List (AcPattern × Bool)) : AcTrie :=
  adds.foldl (fun thiz add => (acTrieAdd thiz add.1 add.2).1) thiz

inductive Use : Type 1 where
  | search {User : Type} (text : List UInt8) (keep : Bool) (callback : AcMatchCallback User)
      (user : User)
  | settext (text : List UInt8) (keep : Bool)
  | findnext

def UseStep (thiz : AcTrie) (call : Use) (after : AcTrie) : Prop :=
  match call with
  | .search text keep callback user =>
      ∃ userAfter answer,
        acTrieSearch thiz text keep callback user = .ok (after, userAfter, answer)
  | .settext text keep => after = acTrieSettext thiz text keep
  | .findnext => ∃ found, acTrieFindnext thiz = .ok (after, found)

end UAFlow.AhoCorasick
