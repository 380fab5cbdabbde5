import Mathlib.Data.List.Find
import UAFlow.ConfigXml.Model

/-!
# Adding a path

`config_add_node4` goes down as `config_search4` does, to the first node of a name on
each level, and makes an element wherever there is none.  It comes to a node unless
the search has led it to one that cannot have children.
-/

namespace UAFlow.ConfigXml

variable {xmlNewChild : XmlNewChild} {doc after : XmlDoc} {parent : Nat} {name : String}
  {names : List String} {news : List Nat}

/-- The names of a path below the root; a null pointer ends it. -/
def levels (f2 : String) (f3 f4 : Option String) : List String :=
  match f3 with
  | none => [f2]
  | some f3 => f2 :: f3 :: f4.toList

/-- The nodes to which the search leads from `parent`, level by level. -/
def reached (doc : XmlDoc) : Nat → List String → List Nat
  | _, [] => []
  | parent, name :: names =>
      match configSearchList doc (doc.node parent).children (some name) with
      | none => []
      | some found => found :: reached doc found names

def lastReached (doc : XmlDoc) (parent : Nat) (names : List String) : Nat :=
  (reached doc parent names).getLastD parent

def unreached (doc : XmlDoc) (parent : Nat) (names : List String) : List String :=
  names.drop (reached doc parent names).length

/-- `after` has the new elements `news` with these names, the first as last child of
`parent`, each other as only child of the one before; other nodes are as in `doc`. -/
structure Grown (doc after : XmlDoc) (parent : Nat) (names : List String) (news : List Nat) :
    Prop where
  length : news.length = names.length
  distinct : news.Nodup
  fresh : ∀ new ∈ news, new ∉ doc.allocated
  allocated : after.allocated = news.reverse ++ doc.allocated
  root : after.root = doc.root
  others : ∀ pnode ∈ doc.allocated, pnode ≠ parent → after.node pnode = doc.node pnode
  lastChild : after.node parent =
    { doc.node parent with children := (doc.node parent).children ++ news.head?.toList }
  chain : ∀ (level : Nat) (inside : level < news.length) (named : level < names.length),
    after.node news[level] = ⟨.elementNode, some names[level], news[level + 1]?.toList⟩

/-! ## Level by level -/

/-- `config_search4` below the root. -/
def searchPath (doc : XmlDoc) : Option Nat → List String → Except Fault (Option Nat)
  | pnode, [] => .ok pnode
  | pnode, name :: names =>
      match configSearchChildren doc pnode (some name) with
      | .error fault => .error fault
      | .ok none => .ok none
      | .ok (some found) => searchPath doc (some found) names

/-- `config_add_node4` below the root. -/
def addPath (xmlNewChild : XmlNewChild) :
    XmlDoc → Option Nat → List String → Except Fault (XmlDoc × Option Nat)
  | doc, pnode, [] => .ok (doc, pnode)
  | doc, pnode, name :: names =>
      match configAddLevel xmlNewChild doc pnode (some name) with
      | .error fault => .error fault
      | .ok (doc, pnode) => addPath xmlNewChild doc pnode names

theorem searchPath_single (doc : XmlDoc) (pnode : Option Nat) (name : String) :
    searchPath doc pnode [name] = configSearchChildren doc pnode (some name) := by
  rw [searchPath]
  rcases configSearchChildren doc pnode (some name) with fault | _ | found <;> rfl

theorem addPath_single (doc : XmlDoc) (pnode : Option Nat) (name : String) :
    addPath xmlNewChild doc pnode [name] = configAddLevel xmlNewChild doc pnode (some name) := by
  rw [addPath]
  cases configAddLevel xmlNewChild doc pnode (some name) <;> rfl

theorem configSearch4_eq {proot : Nat} {f1 : Option String} (rooted : doc.root = some proot)
    (named : (doc.node proot).name = f1) (f2 : String) (f3 f4 : Option String) :
    configSearch4 doc f1 (some f2) f3 f4 = searchPath doc (some proot) (levels f2 f3 f4) := by
  have root : ¬ (doc.node proot).name ≠ f1 := not_not_intro named
  simp only [configSearch4, rooted, if_neg root, bind, Except.bind, pure, Except.pure]
  cases f3 with
  | none =>
      rw [levels, searchPath_single]
      rcases configSearchChildren doc (some proot) (some f2) with fault | _ | first <;> rfl
  | some f3 =>
      rw [levels, searchPath]
      rcases configSearchChildren doc (some proot) (some f2) with fault | _ | first
      · rfl
      · rfl
      · simp only [reduceCtorEq, or_self, if_false]
        cases f4 with
        | none =>
            rw [Option.toList_none, searchPath_single]
            rcases configSearchChildren doc (some first) (some f3) with fault | _ | second <;> rfl
        | some f4 =>
            rw [Option.toList_some, searchPath]
            rcases configSearchChildren doc (some first) (some f3) with fault | _ | second
            · rfl
            · rfl
            · exact (searchPath_single doc (some second) f4).symm

theorem configAddNode4_eq {proot : Nat} {f1 : Option String} (rooted : doc.root = some proot)
    (named : (doc.node proot).name = f1) (f2 : String) (f3 f4 : Option String) :
    configAddNode4 xmlNewChild doc f1 (some f2) f3 f4 =
      addPath xmlNewChild doc (some proot) (levels f2 f3 f4) := by
  have root : ¬ (doc.node proot).name ≠ f1 := not_not_intro named
  simp only [configAddNode4, rooted, if_neg root, bind, Except.bind, pure, Except.pure]
  cases f3 with
  | none =>
      rw [levels, addPath_single]
      rcases configAddLevel xmlNewChild doc (some proot) (some f2) with fault | ⟨doc, pnode⟩ <;> rfl
  | some f3 =>
      rw [levels, addPath]
      rcases configAddLevel xmlNewChild doc (some proot) (some f2) with fault | ⟨doc, first⟩
      · rfl
      · simp only [reduceCtorEq, if_false]
        cases f4 with
        | none =>
            rw [Option.toList_none, addPath_single]
            rcases configAddLevel xmlNewChild doc first (some f3) with fault | ⟨doc, second⟩ <;> rfl
        | some f4 =>
            rw [Option.toList_some, addPath]
            rcases configAddLevel xmlNewChild doc first (some f3) with fault | ⟨doc, second⟩
            · rfl
            · exact (addPath_single doc second f4).symm

/-! ## Siblings -/

theorem configSearchList_mem {siblings : List Nat} {v : Option String} {found : Nat}
    (isFound : configSearchList doc siblings v = some found) : found ∈ siblings :=
  List.mem_of_find?_eq_some isFound

theorem configSearchList_congr {siblings : List Nat}
    (same : ∀ pnode ∈ siblings, (after.node pnode).name = (doc.node pnode).name)
    (v : Option String) : configSearchList after siblings v = configSearchList doc siblings v := by
  apply List.find?_congr
  intro pnode membership
  rw [same pnode membership]

theorem reached_cons_of_some {found : Nat}
    (isFound : configSearchList doc (doc.node parent).children (some name) = some found) :
    reached doc parent (name :: names) = found :: reached doc found names := by
  simp only [reached, isFound]

theorem reached_cons_of_none
    (absent : configSearchList doc (doc.node parent).children (some name) = none) :
    reached doc parent (name :: names) = [] := by
  simp only [reached, absent]

theorem lastReached_cons_of_some {found : Nat}
    (isFound : configSearchList doc (doc.node parent).children (some name) = some found) :
    lastReached doc parent (name :: names) = lastReached doc found names := by
  rw [lastReached, reached_cons_of_some isFound, List.getLastD_cons, lastReached]

theorem unreached_cons_of_some {found : Nat}
    (isFound : configSearchList doc (doc.node parent).children (some name) = some found) :
    unreached doc parent (name :: names) = unreached doc found names := by
  rw [unreached, reached_cons_of_some isFound, List.length_cons, List.drop_succ_cons, unreached]

theorem lastReached_of_childless (childless : (doc.node parent).children = [])
    (names : List String) :
    lastReached doc parent names = parent ∧ unreached doc parent names = names := by
  cases names with
  | nil => exact ⟨rfl, rfl⟩
  | cons name names =>
      have absent : configSearchList doc (doc.node parent).children (some name) = none := by
        rw [childless]
        rfl
      rw [lastReached, unreached, reached_cons_of_none absent]
      exact ⟨rfl, rfl⟩

/-- The search finds the last node when it reaches all levels, and nothing otherwise. -/
theorem searchPath_eq (doc : XmlDoc) (parent : Nat) (names : List String) :
    searchPath doc (some parent) names =
      .ok (if unreached doc parent names = [] then
        some (lastReached doc parent names)
      else
        none) := by
  induction names generalizing parent with
  | nil => rfl
  | cons name names inductionHypothesis =>
      simp only [searchPath, configSearchChildren]
      cases isFound : configSearchList doc (doc.node parent).children (some name) with
      | some found =>
          rw [unreached_cons_of_some isFound, lastReached_cons_of_some isFound]
          exact inductionHypothesis found
      | none =>
          rw [unreached, reached_cons_of_none isFound]
          rfl

theorem configSearch4_reached {proot : Nat} {f1 : Option String} (rooted : doc.root = some proot)
    (named : (doc.node proot).name = f1) (f2 : String) (f3 f4 : Option String) :
    configSearch4 doc f1 (some f2) f3 f4 =
      .ok (if unreached doc proot (levels f2 f3 f4) = [] then
        some (lastReached doc proot (levels f2 f3 f4))
      else
        none) := by
  rw [configSearch4_eq rooted named, searchPath_eq]

/-! ## One new element -/

section AppendChild

variable {new : Nat} (name : String) (inside : parent ∈ doc.allocated)
  (fresh : new ∉ doc.allocated)

theorem appendChild_new :
    (doc.appendChild parent new name inside fresh).node new = ⟨.elementNode, some name, []⟩ :=
  Function.update_self ..

theorem appendChild_old {pnode : Nat} (old : pnode ∈ doc.allocated) :
    (doc.appendChild parent new name inside fresh).node pnode =
      Function.update doc.node parent
        { doc.node parent with children := (doc.node parent).children ++ [new] } pnode := by
  apply Function.update_of_ne
  rintro rfl
  exact fresh old

theorem appendChild_parent :
    (doc.appendChild parent new name inside fresh).node parent =
      { doc.node parent with children := (doc.node parent).children ++ [new] } := by
  rw [appendChild_old name inside fresh inside, Function.update_self]

theorem appendChild_other {pnode : Nat} (old : pnode ∈ doc.allocated) (other : pnode ≠ parent) :
    (doc.appendChild parent new name inside fresh).node pnode = doc.node pnode := by
  rw [appendChild_old name inside fresh old, Function.update_of_ne other]

end AppendChild

namespace Grown

theorem refl (doc : XmlDoc) (parent : Nat) : Grown doc doc parent [] [] where
  length := rfl
  distinct := List.nodup_nil
  fresh := nofun
  allocated := rfl
  root := rfl
  others _ _ _ := rfl
  lastChild := by simp
  chain _ inside := absurd inside (Nat.not_lt_zero _)

theorem cons {new : Nat} {inside : parent ∈ doc.allocated} {fresh : new ∉ doc.allocated}
    (grown : Grown (doc.appendChild parent new name inside fresh) after new names news) :
    Grown doc after parent (name :: names) (new :: news) where
  length := congrArg (· + 1) grown.length
  distinct := by
    refine List.nodup_cons.mpr ⟨?_, grown.distinct⟩
    intro again
    exact grown.fresh new again List.mem_cons_self
  fresh other membership := by
    rcases List.mem_cons.mp membership with rfl | later
    · exact fresh
    · exact fun old => grown.fresh other later (List.mem_cons_of_mem _ old)
  allocated := by
    rw [grown.allocated, List.reverse_cons, List.append_assoc]
    rfl
  root := grown.root
  others pnode old other := by
    have notNew : pnode ≠ new := by
      rintro rfl
      exact fresh old
    rw [grown.others pnode (List.mem_cons_of_mem _ old) notNew,
      appendChild_other name _ fresh old other]
  lastChild := by
    have notNew : parent ≠ new := by
      rintro rfl
      exact fresh inside
    rw [grown.others parent (List.mem_cons_of_mem _ inside) notNew, appendChild_parent]
    rfl
  chain level inside named := by
    cases level with
    | zero =>
        simp only [List.getElem_cons_zero, grown.lastChild, appendChild_new, List.nil_append,
          Nat.zero_add, List.getElem?_cons_succ, List.head?_eq_getElem?]
    | succ level =>
        simp only [List.getElem_cons_succ, List.getElem?_cons_succ]
        exact grown.chain level _ _

theorem name_eq (grown : Grown doc after parent names news) {pnode : Nat}
    (old : pnode ∈ doc.allocated) : (after.node pnode).name = (doc.node pnode).name := by
  by_cases isParent : pnode = parent
  · rw [isParent, grown.lastChild]
  · rw [grown.others pnode old isParent]

theorem children_eq (grown : Grown doc after parent names news) {pnode : Nat}
    (old : pnode ∈ doc.allocated) :
    ∃ more, (after.node pnode).children = (doc.node pnode).children ++ more := by
  by_cases isParent : pnode = parent
  · rw [isParent, grown.lastChild]
    exact ⟨_, rfl⟩
  · rw [grown.others pnode old isParent]
    exact ⟨[], (List.append_nil _).symm⟩

theorem configSearchList_old (grown : Grown doc after parent names news) {pnode : Nat}
    (old : pnode ∈ doc.allocated) (v : Option String) :
    configSearchList after (doc.node pnode).children v =
      configSearchList doc (doc.node pnode).children v :=
  configSearchList_congr (fun child isChild => grown.name_eq (doc.closed pnode old child isChild)) v

theorem configSearchList_found (grown : Grown doc after parent names news) {pnode found : Nat}
    (old : pnode ∈ doc.allocated) {v : Option String}
    (isFound : configSearchList doc (doc.node pnode).children v = some found) :
    configSearchList after (after.node pnode).children v = some found := by
  obtain ⟨more, children⟩ := grown.children_eq old
  rw [children, configSearchList, List.find?_append, ← configSearchList,
    grown.configSearchList_old old, isFound]
  rfl

end Grown

/-! ## The path -/

/-- The way is not barred: what is missing is missing below an element. -/
def Addable (doc : XmlDoc) (parent : Nat) (names : List String) : Prop :=
  unreached doc parent names = [] ∨
    (doc.node (lastReached doc parent names)).type = .elementNode

theorem addPath_grown (xmlNewChild : XmlNewChild) (names : List String)
    (inside : parent ∈ doc.allocated)
    (addable : Addable doc parent names) :
    ∃ after news pnode, addPath xmlNewChild doc (some parent) names = .ok (after, some pnode) ∧
      Grown doc after (lastReached doc parent names) (unreached doc parent names) news ∧
      searchPath after (some parent) names = .ok (some pnode) := by
  induction names generalizing doc parent with
  | nil => exact ⟨doc, [], parent, rfl, Grown.refl doc parent, rfl⟩
  | cons name names inductionHypothesis =>
      cases isFound : configSearchList doc (doc.node parent).children (some name) with
      | some found =>
          unfold Addable at addable
          rw [lastReached_cons_of_some isFound, unreached_cons_of_some isFound] at addable ⊢
          have foundInside := doc.closed parent inside found (configSearchList_mem isFound)
          obtain ⟨after, news, pnode, added, grown, searched⟩ :=
            inductionHypothesis foundInside addable
          refine ⟨after, news, pnode, ?_, grown, ?_⟩
          · simp only [addPath, configAddLevel, configSearchChildren, isFound, added]
          · have stillFound := grown.configSearchList_found inside isFound
            simp only [searchPath, configSearchChildren, stillFound, searched]
      | none =>
          unfold Addable at addable
          rw [lastReached, unreached, reached_cons_of_none isFound] at addable ⊢
          have isElement : (doc.node parent).type = .elementNode :=
            addable.resolve_left (List.cons_ne_nil name names)
          obtain ⟨new, fresh, called⟩ := xmlNewChild.onElement doc parent name inside isElement
          -- the new element is where the search goes on, and it has nothing below it
          have isNew := appendChild_new name inside fresh
          obtain ⟨last, rest⟩ := lastReached_of_childless (congrArg XmlNode.children isNew) names
          have further : Addable (doc.appendChild parent new name inside fresh) new names := by
            unfold Addable
            rw [last, isNew]
            exact Or.inr rfl
          obtain ⟨after, news, pnode, added, grown, searched⟩ :=
            inductionHypothesis List.mem_cons_self further
          rw [last, rest] at grown
          have whole := grown.cons
          refine ⟨after, new :: news, pnode, ?_, whole, ?_⟩
          · simp only [addPath, configAddLevel, configSearchChildren, isFound,
              configAddChildrenNode, called, added]
          · have found : configSearchList after (after.node parent).children (some name) =
                some new := by
              rw [whole.lastChild, configSearchList, List.find?_append, ← configSearchList,
                whole.configSearchList_old inside, isFound]
              simp [grown.lastChild, isNew]
            simp only [searchPath, configSearchChildren, found, searched]

theorem addPath_of_searchPath (names : List String) {pnode : Nat}
    (searched : searchPath doc (some parent) names = .ok (some pnode)) :
    addPath xmlNewChild doc (some parent) names = .ok (doc, some pnode) := by
  induction names generalizing parent with
  | nil =>
      obtain rfl := Option.some.inj (Except.ok.inj searched)
      rfl
  | cons name names inductionHypothesis =>
      simp only [searchPath, addPath, configAddLevel, configSearchChildren] at searched ⊢
      cases isFound : configSearchList doc (doc.node parent).children (some name) with
      | none => simp [isFound] at searched
      | some found =>
          simp only [isFound] at searched ⊢
          exact inductionHypothesis searched

/-- Below a node that is no element nothing can be added. -/
theorem addPath_barred (names : List String) (inside : parent ∈ doc.allocated)
    (barred : ¬ Addable doc parent names) (after : XmlDoc) (pnode : Nat) :
    addPath xmlNewChild doc (some parent) names ≠ .ok (after, some pnode) := by
  induction names generalizing parent with
  | nil => exact absurd (Or.inl rfl) barred
  | cons name names inductionHypothesis =>
      simp only [addPath, configAddLevel, configSearchChildren]
      cases isFound : configSearchList doc (doc.node parent).children (some name) with
      | some found =>
          unfold Addable at barred
          rw [lastReached_cons_of_some isFound, unreached_cons_of_some isFound] at barred
          exact inductionHypothesis
            (doc.closed parent inside found (configSearchList_mem isFound)) barred
      | none =>
          have notElement : (doc.node parent).type ≠ .elementNode := by
            intro isElement
            apply barred
            rw [Addable, lastReached, reached_cons_of_none isFound]
            exact Or.inr isElement
          simp only [configAddChildrenNode, xmlNewChild.onOther doc parent _ inside notElement]
          cases names with
          | nil => simp [addPath]
          | cons name names => simp [addPath, configAddLevel, configSearchChildren]

end UAFlow.ConfigXml
