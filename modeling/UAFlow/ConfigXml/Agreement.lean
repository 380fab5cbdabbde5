import UAFlow.ConfigXml.Adding

/-!
# Adding and searching agree

What `config_add_node4` returns is what `config_search4` finds afterwards, and adding
the same path again changes nothing, as long as the names of the path do not lead to
a node that is no element: a text node has a name but takes no children.
-/

namespace UAFlow.ConfigXml

/-- Adding the path gives a node that the search then finds; new elements are made only
for the levels the search did not reach, and adding the path again makes none. -/
def AddsNode (xmlNewChild : XmlNewChild) (doc : XmlDoc) (proot : Nat) (f1 f2 : String)
    (f3 f4 : Option String) : Prop :=
  ∃ after news pnode,
    configAddNode4 xmlNewChild doc (some f1) (some f2) f3 f4 = .ok (after, some pnode) ∧
    configSearch4 after (some f1) (some f2) f3 f4 = .ok (some pnode) ∧
    Grown doc after (lastReached doc proot (levels f2 f3 f4))
      (unreached doc proot (levels f2 f3 f4)) news ∧
    configAddNode4 xmlNewChild after (some f1) (some f2) f3 f4 = .ok (after, some pnode)

/-- For every document and path below its root, this is so exactly when the search
reaches the whole path or ends at an element. -/
theorem addsNode_iff_addable (xmlNewChild : XmlNewChild) (doc : XmlDoc) {proot : Nat} {f1 : String}
    (rooted : doc.root = some proot) (named : (doc.node proot).name = some f1) (f2 : String)
    (f3 f4 : Option String) :
    AddsNode xmlNewChild doc proot f1 f2 f3 f4 ↔
      unreached doc proot (levels f2 f3 f4) = [] ∨
        (doc.node (lastReached doc proot (levels f2 f3 f4))).type = .elementNode := by
  have inside := doc.rootAllocated proot rooted
  constructor
  · rintro ⟨after, news, pnode, added, _⟩
    rw [configAddNode4_eq rooted named] at added
    by_contra barred
    exact addPath_barred _ inside barred after pnode added
  · intro addable
    obtain ⟨after, news, pnode, added, grown, searched⟩ :=
      addPath_grown xmlNewChild (levels f2 f3 f4) inside addable
    have rootedAfter := grown.root.trans rooted
    have namedAfter := (grown.name_eq inside).trans named
    refine ⟨after, news, pnode, ?_, ?_, grown, ?_⟩
    · rw [configAddNode4_eq rooted named, added]
    · rw [configSearch4_eq rootedAfter namedAfter, searched]
    · rw [configAddNode4_eq rootedAfter namedAfter]
      exact addPath_of_searchPath _ searched

/-! ## A document with a text -/

def nextAddress (doc : XmlDoc) : Nat := doc.allocated.foldr max 0 + 1

theorem nextAddress_fresh (doc : XmlDoc) : nextAddress doc ∉ doc.allocated := by
  have below : ∀ addresses : List Nat, ∀ pnode ∈ addresses, pnode ≤ addresses.foldr max 0 := by
    intro addresses
    induction addresses with
    | nil => exact nofun
    | cons first addresses inductionHypothesis =>
        intro pnode membership
        rw [List.foldr_cons]
        rcases List.mem_cons.mp membership with rfl | later
        · exact Nat.le_max_left _ _
        · exact (inductionHypothesis pnode later).trans (Nat.le_max_right _ _)
  intro membership
  exact absurd (below _ _ membership) (Nat.not_succ_le_self _)

def newChildNext : XmlNewChild where
  call doc pnode name :=
    match pnode, name with
    | some parent, some name =>
        if takes : parent ∈ doc.allocated ∧ (doc.node parent).type = .elementNode then
          (doc.appendChild parent (nextAddress doc) name takes.1 (nextAddress_fresh doc),
            some (nextAddress doc))
        else
          (doc, none)
    | _, _ => (doc, none)
  onElement doc parent name inside isElement :=
    ⟨nextAddress doc, nextAddress_fresh doc, dif_pos ⟨inside, isElement⟩⟩
  onOther doc parent name inside notElement := by
    cases name with
    | none => rfl
    | some name => exact dif_neg fun takes => notElement takes.2

/-- `<UAFlow>abc</UAFlow>` -/
def docAbc : XmlDoc where
  node pnode :=
    if pnode = 0 then
      ⟨.elementNode, some "UAFlow", [1]⟩
    else
      ⟨.textNode, some "text", []⟩
  allocated := [0, 1]
  root := some 0
  rootAllocated := by simp
  closed := by simp

/-- Beside the text a path is added. -/
theorem addsNode_beside_text : AddsNode newChildNext docAbc 0 "UAFlow" "DDOS" (some "Scan") none :=
  (addsNode_iff_addable newChildNext docAbc rfl rfl "DDOS" (some "Scan") none).mpr
    (Or.inr (by decide))

/-- Under the text `config_add_node4` reads through a null pointer. -/
theorem adding_below_text :
    ¬ ∀ (xmlNewChild : XmlNewChild) (doc : XmlDoc) (proot : Nat) (f1 f2 : String)
        (f3 f4 : Option String), doc.root = some proot → (doc.node proot).name = some f1 →
        AddsNode xmlNewChild doc proot f1 f2 f3 f4 := by
  intro adds
  obtain ⟨after, _, pnode, added, _⟩ :=
    adds newChildNext docAbc 0 "UAFlow" "text" (some "x") (some "y") rfl rfl
  have crashes : configAddNode4 newChildNext docAbc (some "UAFlow") (some "text") (some "x")
      (some "y") = .error .nullPointer := rfl
  rw [crashes] at added
  simp at added

end UAFlow.ConfigXml
