import UAFlow.Config.Load
import UAFlow.AhoCorasick.FindNext

/-!
# What a search answers

Every trie is built from the keys of sending items in document order and is
finalized the same way, so all of them have one dictionary; the first report of
a search decides the device.
-/

namespace UAFlow.Config

open Library AhoCorasick

/-! ## The keys that count -/

def firstItem (root : XmlNode) (itemid : UInt32) : Option ItemDecl :=
  (items root).find? fun decl => decl.itemid == itemid

def firstTxItem (root : XmlNode) (itemid : UInt32) : Option ItemDecl :=
  (ofType (items root) .tx).find? fun decl => decl.itemid == itemid

/-- The key is given to `ac_trie_add`. -/
def Sends (root : XmlNode) (key : FlowConfigKey) : Prop :=
  key.key ≠ [] ∧ (firstItem root key.itemid).map ItemDecl.type = some .tx

/-- The key is in the trie unless an earlier one has its text. -/
def Active (root : XmlNode) (key : FlowConfigKey) : Prop :=
  Sends root key ∧ key.key.length ≤ acPattrnMaxLength

instance (root : XmlNode) (key : FlowConfigKey) : Decidable (Sends root key) :=
  inferInstanceAs (Decidable (_ ∧ _))

instance (root : XmlNode) (key : FlowConfigKey) : Decidable (Active root key) :=
  inferInstanceAs (Decidable (_ ∧ _))

def activeKeys (root : XmlNode) : List FlowConfigKey :=
  (keys root).filter fun key => Active root key

/-- The key ends behind so many letters of the text. -/
def EndsAt (key : FlowConfigKey) (str : List UInt8) (position : Nat) : Prop :=
  position ≤ str.length ∧ key.key <:+ str.take position

/-- The key whose occurrence ends first; of those the longest; of equal texts
the first in the document. -/
structure Selected (root : XmlNode) (str : List UInt8) (key : FlowConfigKey)
    (position : Nat) : Prop where
  ends : EndsAt key str position
  earliest : ∀ other ∈ activeKeys root, ∀ later, EndsAt other str later → position ≤ later
  longest : ∀ other ∈ activeKeys root, EndsAt other str position →
    other.key.length ≤ key.key.length
  first : ((activeKeys root).find? fun other => other.key = key.key) = some key

def Answers (configuration : Configuration) (str : List UInt8) (answer : Int) : Prop :=
  if ∀ key ∈ activeKeys configuration.root, ¬ key.key <:+: str then
    answer = -1
  else
    ∃ key position item, Selected configuration.root str key position ∧
      firstTxItem configuration.root key.itemid = some item ∧
      answer = (configuration.attach item.name).toNat

/-! ## Building -/

section Build

variable {configuration : Configuration} {state : FlowConfigState}

theorem findItem_eq (loaded : Loaded configuration state) (key : FlowConfigKey) :
    findItem state key = (firstItem configuration.root key.itemid).map ItemDecl.item := by
  have same : (fun decl : ItemDecl => decide (slotOf decl.itemid = slotOf key.itemid) &&
      ((fun item : FlowConfigItem => item.itemid == key.itemid) ∘ ItemDecl.item) decl) =
        fun decl => decl.itemid == key.itemid := by
    funext decl
    by_cases here : decl.itemid = key.itemid <;> simp [ItemDecl.item, here]
  rw [findItem, loaded.itemHead, firstItem, List.find?_map, List.find?_filter]
  simp only [Bool.decide_and, Bool.decide_eq_true, same]

def deviceOf (configuration : Configuration) (itemid : UInt32) : UInt8 :=
  ((firstTxItem configuration.root itemid).map fun decl =>
    configuration.attach decl.name).getD 0

theorem findIdx_eq (loaded : Loaded configuration state) (key : FlowConfigKey) :
    findIdx state key = deviceOf configuration key.itemid := by
  have same : ((fun idx : FlowConfigIdx => idx.itemid == key.itemid && idx.toBit) ∘
      ItemDecl.bound configuration.attach) = fun decl => decl.itemid == key.itemid := by
    funext decl
    simp [ItemDecl.bound]
  rw [findIdx, loaded.txIdxList, List.find?_map, same, deviceOf, firstTxItem]
  cases List.find? _ _ with
  | none => rfl
  | some decl => rfl

def patternOf (configuration : Configuration) (numbered : FlowConfigKey × Nat) : AcPattern where
  ptext := numbered.1.key
  rtext := none
  id := .number numbered.2
  itemid := numbered.1.itemid
  idx := deviceOf configuration numbered.1.itemid
  name := ((firstItem configuration.root numbered.1.itemid).map fun decl =>
    itemName decl.name).getD []

def keyAdds (configuration : Configuration) (found : List FlowConfigKey) :
    List (AcPattern × Bool) :=
  ((found.filter fun key => Sends configuration.root key).zipIdx 1).map fun numbered =>
    (patternOf configuration numbered, false)

theorem buildKey_eq (loaded : Loaded configuration state) (j : Nat) (thiz : AcTrie)
    (key : FlowConfigKey) :
    buildKey state (j, fun _ => thiz) key =
      if Sends configuration.root key then
        (j + 1, fun _ => (acTrieAdd thiz (patternOf configuration (key, j + 1)) false).1)
      else
        (j, fun _ => thiz) := by
  have item := findItem_eq loaded key
  unfold buildKey Sends
  by_cases empty : key.key = []
  · simp [empty]
  · have positive : ¬ key.key.length ≤ 0 := by
      simpa using empty
    rw [if_neg positive]
    rcases Option.eq_none_or_eq_some (firstItem configuration.root key.itemid) with
      first | ⟨decl, first⟩
    · simp [item, first]
    · rw [first, Option.map_some] at item
      cases type : decl.type with
      | rx => simp [item, first, ItemDecl.item, type]
      | tx => simp [item, first, ItemDecl.item, type, empty, patternOf, findIdx_eq loaded]

theorem keyAdds_concat (found : List FlowConfigKey) (key : FlowConfigKey) :
    keyAdds configuration (found ++ [key]) = keyAdds configuration found ++
      if Sends configuration.root key then
        [(patternOf configuration
          (key, (found.filter fun key => Sends configuration.root key).length + 1), false)]
      else [] := by
  unfold keyAdds
  rw [List.filter_append, List.zipIdx_append, List.map_append]
  by_cases sends : Sends configuration.root key <;> simp [sends, Nat.add_comm]

theorem foldl_buildKey (loaded : Loaded configuration state) (found : List FlowConfigKey) :
    found.foldl (buildKey state) (0, fun _ => acTrieCreate) =
      ((found.filter fun key => Sends configuration.root key).length,
        fun _ => acTrieAddAll acTrieCreate (keyAdds configuration found)) := by
  induction found using List.reverseRecOn with
  | nil => rfl
  | append_singleton found key inductionHypothesis =>
      rw [List.foldl_append, inductionHypothesis, List.foldl_cons, List.foldl_nil,
        buildKey_eq loaded, keyAdds_concat]
      by_cases sends : Sends configuration.root key
      · simp [sends, acTrieAddAll]
      · simp [sends]

theorem finalize_ok {opened fresh : AcTrie} (finished : acTrieFinalize opened = .ok fresh) :
    (List.finRange flowLcoreMaxSlot).foldlM finalizeSlot (fun _ => opened) =
      .ok fun _ => fresh := by
  have keeps : ∀ before s after, List.finRange flowLcoreMaxSlot = before ++ s :: after →
      ∀ actrie, actrie = (fun slot => if slot ∈ before then fresh else opened) →
        ∃ next, finalizeSlot actrie s = .ok next ∧
          next = fun slot => if slot ∈ before ++ [s] then fresh else opened := by
    rintro before s after same _ rfl
    have distinct := same ▸ List.nodup_finRange flowLcoreMaxSlot
    have here : s ∉ before := fun earlier =>
      (List.nodup_append.mp distinct).2.2 s earlier s List.mem_cons_self rfl
    refine ⟨_, by simp only [finalizeSlot, if_neg here, finished]; rfl, ?_⟩
    funext slot
    by_cases this : slot = s
    · subst this
      simp
    · simp [this]
  obtain ⟨_, returned, rfl⟩ := foldlM_ok finalizeSlot (List.finRange flowLcoreMaxSlot)
    (fun before actrie => actrie = fun slot => if slot ∈ before then fresh else opened)
    (show (fun _ => opened) = _ by simp) keeps
  simpa only [List.mem_finRange, if_true] using returned

theorem build_ok (loaded : Loaded configuration state) {fresh : AcTrie}
    (finished : acTrieFinalize (acTrieAddAll acTrieCreate
      (keyAdds configuration (keys configuration.root))) = .ok fresh) :
    flowConfigModuleBuild state = .ok { state with actrie := fun _ => fresh } := by
  unfold flowConfigModuleBuild
  rw [loaded.order, loaded.actrie, foldl_buildKey loaded]
  simp only [finalize_ok finished]

end Build

/-! ## The dictionary of the tries -/

theorem find_active (root : XmlNode) {word : List UInt8} (short : word.length ≤ acPattrnMaxLength) :
    ((activeKeys root).find? fun key => key.key = word) =
      ((keys root).filter fun key => Sends root key).find? fun key => key.key = word := by
  rw [activeKeys, List.find?_filter, List.find?_filter]
  congr 1
  funext key
  by_cases here : key.key = word
  · have admissible : Active root key ↔ Sends root key :=
      and_iff_left (here ▸ short)
    simp [here, admissible]
  · simp [here]

theorem dictionary_idx (configuration : Configuration) (word : List UInt8) :
    (dictionary (keyAdds configuration (keys configuration.root)) word).map AcPattern.idx =
      ((activeKeys configuration.root).find? fun key => key.key = word).map fun key =>
        deviceOf configuration key.itemid := by
  by_cases admissible : word ≠ [] ∧ word.length ≤ acPattrnMaxLength
  · obtain ⟨nonempty, short⟩ := admissible
    rw [dictionary_eq_find _ nonempty short, find_active _ short, keyAdds, List.find?_map,
      Option.map_map, Option.map_map]
    have numbers := List.zipIdx_map_fst 1
      ((keys configuration.root).filter fun key => Sends configuration.root key)
    generalize ((keys configuration.root).filter fun key =>
      Sends configuration.root key) = sending at numbers ⊢
    conv_rhs => rw [← numbers, List.find?_map, Option.map_map]
    rfl
  · have absent : dictionary (keyAdds configuration (keys configuration.root)) word = none :=
      Option.not_isSome_iff_eq_none.mp (mt dictionary_length admissible)
    have inactive : ((activeKeys configuration.root).find? fun key => key.key = word) = none := by
      apply List.find?_eq_none.mpr
      intro key membership here
      obtain ⟨⟨nonempty, _⟩, short⟩ := of_decide_eq_true (List.mem_filter.mp membership).2
      have same : key.key = word := of_decide_eq_true here
      exact admissible ⟨same ▸ nonempty, same ▸ short⟩
    rw [absent, inactive]
    rfl

theorem dictionary_isSome (configuration : Configuration) (word : List UInt8) :
    (dictionary (keyAdds configuration (keys configuration.root)) word).isSome = true ↔
      ∃ key ∈ activeKeys configuration.root, key.key = word := by
  rw [← Option.isSome_map, dictionary_idx, Option.isSome_map, List.find?_isSome]
  simp only [decide_eq_true_eq]

theorem nonempty_of_active {root : XmlNode} {key : FlowConfigKey}
    (membership : key ∈ activeKeys root) : key.key ≠ [] :=
  (of_decide_eq_true (List.mem_filter.mp membership).2).1.1

/-! ## Searching -/

def reportedDevice : List (Nat × List AcPattern) → Int
  | (_, pattern :: _) :: _ => pattern.idx.toNat
  | _ => -1

theorem searchActrie_eq {thiz : AcTrie} {path : Nat → List UInt8}
    {entry : List UInt8 → Option AcPattern} (searchable : Searchable thiz path entry)
    (between : thiz.wm = .search) (str : List UInt8) :
    ∃ after, (Searchable after path entry ∧ after.wm = .search) ∧
      searchActrie thiz str = .ok (after, reportedDevice (reports entry [] str 0)) := by
  obtain ⟨start, same⟩ := searchable.useStep between
    (show UseStep thiz (.settext str false) (acTrieSettext thiz str false) from rfl)
  have empty : path (acTrieSettext thiz str false).lastNode = [] :=
    searchable.finalized.spelled.rootPath
  have findnext := acTrieFindnext_eq start (same.wm.trans between) rfl
  have reported : reports entry (path (acTrieSettext thiz str false).lastNode)
      (str.drop (acTrieSettext thiz str false).position)
      (acTrieSettext thiz str false).position = reports entry [] str 0 := by
    rw [empty]
    rfl
  rw [reported] at findnext
  have keeps : ∀ after found, acTrieFindnext (acTrieSettext thiz str false) = .ok (after, found) →
      Searchable after path entry ∧ after.wm = .search := by
    intro after found returned
    obtain ⟨later, further⟩ := start.useStep (same.wm.trans between)
      (show UseStep _ .findnext after from ⟨found, returned⟩)
    exact ⟨later, (same.trans further).wm.trans between⟩
  unfold searchActrie
  cases found : reports entry [] str 0 with
  | nil =>
      rw [found] at findnext
      obtain ⟨_, _, returned⟩ := findnext
      exact ⟨_, keeps _ _ returned, by rw [returned]; rfl⟩
  | cons report later =>
      obtain ⟨place, patterns⟩ := report
      rw [found] at findnext
      obtain ⟨current, _, returned⟩ := findnext
      refine ⟨_, keeps _ _ returned, ?_⟩
      rw [returned]
      cases patterns <;> rfl

def SearchStep (state : FlowConfigState) (call : List UInt8 × Fin flowLcoreMaxSlot)
    (after : FlowConfigState) : Prop :=
  ∃ ret, flowConfigModuleSearch state call.1 call.2 = .ok (after, ret)

/-- Every trie has this dictionary and waits for a search. -/
def Ready (path : Nat → List UInt8) (entry : List UInt8 → Option AcPattern)
    (state : FlowConfigState) : Prop :=
  ∀ lcoreId, Searchable (state.actrie lcoreId) path entry ∧ (state.actrie lcoreId).wm = .search

theorem flowConfigModuleSearch_eq {path : Nat → List UInt8}
    {entry : List UInt8 → Option AcPattern} {state : FlowConfigState}
    (ready : Ready path entry state) (str : List UInt8) (lcoreId : Fin flowLcoreMaxSlot) :
    ∃ after, Ready path entry after ∧
      flowConfigModuleSearch state str lcoreId =
        .ok (after, reportedDevice (reports entry [] str 0)) := by
  obtain ⟨thiz, kept, returned⟩ := searchActrie_eq (ready lcoreId).1 (ready lcoreId).2 str
  refine ⟨{ state with actrie := Function.update state.actrie lcoreId thiz }, ?_, ?_⟩
  · intro other
    by_cases here : other = lcoreId
    · subst here
      simpa using kept
    · simpa [Function.update_of_ne here] using ready other
  · unfold flowConfigModuleSearch
    rw [returned]

/-- The step lemma of the module's search. -/
theorem ready_step {path : Nat → List UInt8} {entry : List UInt8 → Option AcPattern}
    (state : FlowConfigState) (call : List UInt8 × Fin flowLcoreMaxSlot)
    (after : FlowConfigState) (ready : Ready path entry state)
    (stepped : SearchStep state call after) : Ready path entry after := by
  obtain ⟨ret, returned⟩ := stepped
  obtain ⟨later, kept, same⟩ := flowConfigModuleSearch_eq ready call.1 call.2
  rw [returned] at same
  obtain ⟨rfl, _⟩ := Prod.mk.inj (Except.ok.inj same)
  exact kept

/-! ## The answer -/

theorem deviceOf_eq {configuration : Configuration} {itemid : UInt32} {item : ItemDecl}
    (first : firstTxItem configuration.root itemid = some item) :
    deviceOf configuration itemid = configuration.attach item.name := by
  rw [deviceOf, first]
  rfl

theorem firstTxItem_of_active {root : XmlNode} {key : FlowConfigKey}
    (membership : key ∈ activeKeys root) :
    ∃ item, firstTxItem root key.itemid = some item := by
  obtain ⟨⟨_, sends⟩, _⟩ := of_decide_eq_true (List.mem_filter.mp membership).2
  obtain ⟨item, first, type⟩ := Option.map_eq_some_iff.mp sends
  have same := List.find?_some first
  refine Option.isSome_iff_exists.mp (List.find?_isSome.mpr ⟨item, ?_, same⟩)
  exact List.mem_filter.mpr ⟨List.mem_of_find?_eq_some first, decide_eq_true type⟩

theorem entry_key {configuration : Configuration} {word : List UInt8} {pattern : AcPattern}
    (present : dictionary (keyAdds configuration (keys configuration.root)) word = some pattern) :
    ∃ key, ((activeKeys configuration.root).find? fun other => other.key = word) = some key ∧
      key ∈ activeKeys configuration.root ∧ key.key = word ∧
      deviceOf configuration key.itemid = pattern.idx := by
  have device := dictionary_idx configuration word
  rw [present, Option.map_some, eq_comm] at device
  obtain ⟨key, first, same⟩ := Option.map_eq_some_iff.mp device
  have text := List.find?_some first
  exact ⟨key, first, List.mem_of_find?_eq_some first, of_decide_eq_true text, same⟩

/-- The first report of the tries' dictionary answers the search. -/
theorem answers_reports (configuration : Configuration) (str : List UInt8) :
    Answers configuration str (reportedDevice
      (reports (dictionary (keyAdds configuration (keys configuration.root))) [] str 0)) := by
  have entries := dictionary_isSome configuration
  cases found : reports (dictionary (keyAdds configuration (keys configuration.root))) [] str 0 with
  | nil =>
      have absent : ∀ key ∈ activeKeys configuration.root, ¬ key.key <:+: str := by
        intro key membership
        exact not_infix_of_reports found (nonempty_of_active membership)
          ((entries key.key).mpr ⟨key, membership, rfl⟩)
      exact (if_pos absent).mpr rfl
  | cons report later =>
      obtain ⟨position, patterns⟩ := report
      cases patterns with
      | nil => exact absurd rfl (of_mem_reports (found ▸ List.mem_cons_self)).2.2.1
      | cons pattern more =>
          obtain ⟨inside, ⟨best, suffix, present, longest⟩, earliest⟩ := reports_head found
          obtain ⟨key, first, membership, rfl, device⟩ := entry_key present
          obtain ⟨item, firstTx⟩ := firstTxItem_of_active membership
          have occurs : ¬ ∀ key ∈ activeKeys configuration.root, ¬ key.key <:+: str :=
            fun absent => absent key membership
              (suffix.isInfix.trans (List.take_prefix position str).isInfix)
          refine (if_neg occurs).mpr ⟨key, position, item, ?_, firstTx, ?_⟩
          · refine ⟨⟨inside, suffix⟩, ?_, ?_, first⟩
            · intro other otherMembership later ends
              exact earliest other.key later (nonempty_of_active otherMembership)
                ((entries other.key).mpr ⟨other, otherMembership, rfl⟩) ends.1 ends.2
            · intro other otherMembership ends
              exact (longest other.key ends.2
                ((entries other.key).mpr ⟨other, otherMembership, rfl⟩)).length_le
          · rw [← deviceOf_eq firstTx, device]
            rfl

/-- The configuration can be loaded and built; and for every text there is one
answer that every later search of it returns, after any searches and on any
lcore. -/
theorem search_selects (configuration : Configuration) :
    ∃ loaded built,
      flowConfigModuleLoadInsideParse configuration.attach flowConfigModuleInit
          configuration.root = .ok loaded ∧
        flowConfigModuleBuild loaded = .ok built ∧
        ∀ str, ∃ answer, Answers configuration str answer ∧
          ∀ calls state, Run SearchStep built calls state → ∀ lcoreId,
            ∃ after, flowConfigModuleSearch state str lcoreId = .ok (after, answer) := by
  obtain ⟨loaded, returned, isLoaded⟩ := load_ok configuration
  obtain ⟨fresh, path, finished, searchable, _, _, wm⟩ :=
    exists_finalized (keyAdds configuration (keys configuration.root))
  refine ⟨loaded, _, returned, build_ok isLoaded finished, ?_⟩
  intro str
  refine ⟨_, answers_reports configuration str, ?_⟩
  intro calls state run lcoreId
  have ready := Run.invariant _ ready_step run fun _ => ⟨searchable, wm⟩
  obtain ⟨after, _, answered⟩ := flowConfigModuleSearch_eq ready str lcoreId
  exact ⟨after, answered⟩

/-! ## Any document -/

theorem buildKey_uniform (state : FlowConfigState) (j : Nat) (thiz : AcTrie)
    (key : FlowConfigKey) :
    buildKey state (j, fun _ => thiz) key = (j, fun _ => thiz) ∨
      ∃ patt, buildKey state (j, fun _ => thiz) key =
        (j + 1, fun _ => (acTrieAdd thiz patt false).1) := by
  unfold buildKey
  split
  next empty => exact .inl rfl
  next nonempty =>
    split
    next unknown => exact .inl rfl
    next item found =>
      split
      next receives => exact .inl rfl
      next sends => exact .inr ⟨_, rfl⟩

theorem foldl_buildKey_uniform (state : FlowConfigState) (found : List FlowConfigKey) :
    ∃ j adds, found.foldl (buildKey state) (0, fun _ => acTrieCreate) =
      (j, fun _ => acTrieAddAll acTrieCreate adds) := by
  induction found using List.reverseRecOn with
  | nil => exact ⟨0, [], rfl⟩
  | append_singleton found key inductionHypothesis =>
      obtain ⟨j, adds, before⟩ := inductionHypothesis
      rw [List.foldl_append, before, List.foldl_cons, List.foldl_nil]
      cases buildKey_uniform state j (acTrieAddAll acTrieCreate adds) key with
      | inl skipped => exact ⟨j, adds, skipped⟩
      | inr added =>
          obtain ⟨patt, given⟩ := added
          refine ⟨j + 1, adds ++ [(patt, false)], ?_⟩
          rw [given, acTrieAddAll, acTrieAddAll, List.foldl_append]
          rfl

theorem build_of_adds {attach : List UInt8 → UInt8} {root : XmlNode} {loaded : FlowConfigState}
    (accepted : flowConfigModuleLoadInsideParse attach flowConfigModuleInit root = .ok loaded)
    {j : Nat} {adds : List (AcPattern × Bool)}
    (added : (buildOrder loaded).foldl (buildKey loaded) (0, fun _ => acTrieCreate) =
      (j, fun _ => acTrieAddAll acTrieCreate adds)) :
    ∃ built path, flowConfigModuleBuild loaded = .ok built ∧
      Ready path (dictionary adds) built := by
  obtain ⟨fresh, path, finished, searchable, _, _, wm⟩ := exists_finalized adds
  refine ⟨{ loaded with actrie := fun _ => fresh }, path, ?_, fun _ => ⟨searchable, wm⟩⟩
  unfold flowConfigModuleBuild
  rw [(loadUnder_frame accepted).1, added]
  simp only [finalize_ok finished]

theorem build_ready {attach : List UInt8 → UInt8} {root : XmlNode} {loaded : FlowConfigState}
    (accepted : flowConfigModuleLoadInsideParse attach flowConfigModuleInit root = .ok loaded) :
    ∃ built path entry, flowConfigModuleBuild loaded = .ok built ∧ Ready path entry built := by
  obtain ⟨j, adds, added⟩ := foldl_buildKey_uniform loaded (buildOrder loaded)
  obtain ⟨built, path, builds, ready⟩ := build_of_adds accepted added
  exact ⟨built, path, dictionary adds, builds, ready⟩

/-- An answer to a search under any document: no key that counts occurs, or the
device is that of a selected key. -/
def Reported (attach : List UInt8 → UInt8) (root : XmlNode) (str : List UInt8)
    (answer : Int) : Prop :=
  (∀ key ∈ activeKeys root, ¬ key.key <:+: str) ∧ answer = -1 ∨
    ∃ key position item, Selected root str key position ∧
      firstTxItem root key.itemid = some item ∧ answer = (attach item.name).toNat

theorem Answers.reported {configuration : Configuration} {str : List UInt8} {answer : Int}
    (answers : Answers configuration str answer) :
    Reported configuration.attach configuration.root str answer := by
  unfold Answers at answers
  split at answers
  next absent => exact .inl ⟨absent, answers⟩
  next => exact .inr answers

theorem build_answers {attach : List UInt8 → UInt8} {root : XmlNode} {loaded : FlowConfigState}
    (accepted : flowConfigModuleLoadInsideParse attach flowConfigModuleInit root = .ok loaded) :
    ∃ built path entry, flowConfigModuleBuild loaded = .ok built ∧ Ready path entry built ∧
      ∀ str, Reported attach root str (reportedDevice (reports entry [] str 0)) := by
  obtain ⟨fits, keyless, same⟩ := load_accepted accepted
  by_cases bare : items root = []
  · have none : buildOrder loaded = [] := by
      rw [same, buildOrder_eq (parseDdos_frame _ _).2.1, keyless bare]
    have added : (buildOrder loaded).foldl (buildKey loaded) (0, fun _ => acTrieCreate) =
        (0, fun _ => acTrieAddAll acTrieCreate []) := by
      rw [none]
      rfl
    obtain ⟨built, path, builds, ready⟩ := build_of_adds accepted added
    refine ⟨built, path, _, builds, ready, fun str => .inl ⟨?_, ?_⟩⟩
    · intro key membership
      rw [activeKeys, keyless bare] at membership
      exact absurd membership List.not_mem_nil
    · have silent : reports (dictionary []) [] str 0 = [] := by
        apply reports_eq_nil_iff.mpr
        intro front _ _
        apply List.eq_nil_iff_forall_not_mem.mpr
        intro pattern found
        obtain ⟨_, _, present⟩ := mem_occurrences.mp found
        cases present
      rw [silent]
      rfl
  · let configuration : Configuration := ⟨root, attach, bare, fits⟩
    obtain ⟨state, returned, isLoaded⟩ := load_ok configuration
    obtain rfl : state = loaded := Except.ok.inj (returned.symm.trans accepted)
    have added := foldl_buildKey isLoaded (buildOrder state)
    obtain ⟨built, path, builds, ready⟩ := build_of_adds accepted added
    refine ⟨built, path, _, builds, ready, fun str => ?_⟩
    rw [isLoaded.order]
    exact (answers_reports configuration str).reported

/-! ## The selected key -/

namespace Selected

variable {root : XmlNode} {str : List UInt8} {key other : FlowConfigKey} {position later : Nat}

theorem mem (selected : Selected root str key position) : key ∈ activeKeys root :=
  List.mem_of_find?_eq_some selected.first

theorem occurs (selected : Selected root str key position) : key.key <:+: str :=
  selected.ends.2.isInfix.trans (List.take_prefix position str).isInfix

theorem unique (selected : Selected root str key position)
    (alike : Selected root str other later) : key = other := by
  have place : position = later := Nat.le_antisymm
    (selected.earliest other alike.mem later alike.ends)
    (alike.earliest key selected.mem position selected.ends)
  subst place
  have length : key.key.length = other.key.length := Nat.le_antisymm
    (alike.longest key selected.mem selected.ends)
    (selected.longest other alike.mem alike.ends)
  have text : key.key = other.key :=
    (List.suffix_of_suffix_length_le selected.ends.2 alike.ends.2 length.le).eq_of_length length
  have first := selected.first
  rw [text, alike.first] at first
  exact (Option.some.inj first).symm

end Selected

end UAFlow.Config
