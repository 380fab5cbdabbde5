import Mathlib.Data.List.Basic
import Mathlib.Logic.Function.Basic

/-!
# Paths in the documents of `flow_config_xml.c`

A document is the nodes in memory with the links between them.  Searching compares
names only, so a text node is found by the name `text` that libxml2 gives to it.
`xmlNewChild` is a parameter: it belongs to libxml2.
-/

namespace UAFlow.ConfigXml

/-- The types of the nodes below a root element. -/
inductive XmlElementType where
  | elementNode
  | textNode
  | cdataSectionNode
  | entityRefNode
  | entityDecl
  | piNode
  | commentNode
  deriving DecidableEq

/-- `children` are the addresses of the siblings linked from the first child on; a
name that is `none` is a null pointer. -/
structure XmlNode where
  type : XmlElementType
  name : Option String
  children : List Nat
  deriving DecidableEq

/-- The nodes of a document by their addresses. -/
structure XmlDoc where
  node : Nat → XmlNode
  allocated : List Nat
  root : Option Nat
  rootAllocated : ∀ proot, root = some proot → proot ∈ allocated
  closed : ∀ pnode ∈ allocated, ∀ child ∈ (node pnode).children, child ∈ allocated

inductive Fault where
  | nullPointer
  deriving DecidableEq

namespace XmlDoc

def appendChild (doc : XmlDoc) (parent new : Nat) (name : String)
    (inside : parent ∈ doc.allocated) (fresh : new ∉ doc.allocated) : XmlDoc where
  node := Function.update
    (Function.update doc.node parent
      { doc.node parent with children := (doc.node parent).children ++ [new] })
    new ⟨.elementNode, some name, []⟩
  allocated := new :: doc.allocated
  root := doc.root
  rootAllocated proot isRoot := List.mem_cons_of_mem _ (doc.rootAllocated proot isRoot)
  closed pnode membership child isChild := by
    by_cases isNew : pnode = new
    · subst isNew
      rw [Function.update_self] at isChild
      exact absurd isChild List.not_mem_nil
    · rw [Function.update_of_ne isNew] at isChild
      have old := (List.mem_cons.mp membership).resolve_left isNew
      by_cases isParent : pnode = parent
      · subst isParent
        rw [Function.update_self] at isChild
        rcases List.mem_append.mp isChild with before | last
        · exact List.mem_cons_of_mem _ (doc.closed pnode old child before)
        · rw [List.mem_singleton.mp last]
          exact List.mem_cons_self
      · rw [Function.update_of_ne isParent] at isChild
        exact List.mem_cons_of_mem _ (doc.closed pnode old child isChild)

end XmlDoc

/-- `xmlNewChild`, without a namespace and content: an element gets a new element as
its last child, any other node gets nothing. -/
structure XmlNewChild where
  call : XmlDoc → Option Nat → Option String → XmlDoc × Option Nat
  onElement : ∀ (doc : XmlDoc) (parent : Nat) (name : String)
    (inside : parent ∈ doc.allocated), (doc.node parent).type = .elementNode →
    ∃ (new : Nat) (fresh : new ∉ doc.allocated),
      call doc (some parent) (some name) =
        (doc.appendChild parent new name inside fresh, some new)
  onOther : ∀ (doc : XmlDoc) (parent : Nat) (name : Option String), parent ∈ doc.allocated →
    (doc.node parent).type ≠ .elementNode → call doc (some parent) name = (doc, none)

/-- From the first of the siblings on; `xmlStrcmp` takes two null pointers for equal. -/
def configSearchList (doc : XmlDoc) (siblings : List Nat) (v : Option String) : Option Nat :=
  siblings.find? fun pnode => (doc.node pnode).name = v

def configSearchChildren (doc : XmlDoc) (pnode : Option Nat) (v : Option String) :
    Except Fault (Option Nat) :=
  match pnode with
  | none => .error .nullPointer
  | some pnode => .ok (configSearchList doc (doc.node pnode).children v)

def configSearch4 (doc : XmlDoc) (f1 f2 f3 f4 : Option String) : Except Fault (Option Nat) :=
  match doc.root with
  | none => .ok none
  | some proot =>
      if (doc.node proot).name ≠ f1 then
        .ok none
      else do
        let pnode ← configSearchChildren doc (some proot) f2
        if pnode = none ∨ f3 = none then
          return pnode
        let pnode ← configSearchChildren doc pnode f3
        if pnode = none ∨ f4 = none then
          return pnode
        configSearchChildren doc pnode f4

section

variable (xmlNewChild : XmlNewChild)

def configAddChildrenNode (doc : XmlDoc) (pnode : Option Nat) (v : Option String) :
    XmlDoc × Option Nat :=
  xmlNewChild.call doc pnode v

/-- One level of `config_add_node4`. -/
def configAddLevel (doc : XmlDoc) (pnode : Option Nat) (v : Option String) :
    Except Fault (XmlDoc × Option Nat) :=
  match configSearchChildren doc pnode v with
  | .error fault => .error fault
  | .ok (some ptmp) => .ok (doc, some ptmp)
  | .ok none => .ok (configAddChildrenNode xmlNewChild doc pnode v)

def configAddNode4 (doc : XmlDoc) (f1 f2 f3 f4 : Option String) :
    Except Fault (XmlDoc × Option Nat) :=
  match doc.root with
  | none => .error .nullPointer
  | some proot =>
      if (doc.node proot).name ≠ f1 then
        .ok (doc, none)
      else do
        let (doc, pnode) ← configAddLevel xmlNewChild doc (some proot) f2
        if f3 = none then
          return (doc, pnode)
        let (doc, pnode) ← configAddLevel xmlNewChild doc pnode f3
        if f4 = none then
          return (doc, pnode)
        configAddLevel xmlNewChild doc pnode f4

end

end UAFlow.ConfigXml
