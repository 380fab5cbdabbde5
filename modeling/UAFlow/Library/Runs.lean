import Mathlib.Data.List.Basic

/-!
Finite runs of a labelled step relation.

An invariant is stated once for a single step and carried along a whole run
by `Run.invariant`.  `Run.invariant_while` is the same rule for runs whose
every step meets a side condition on the state it starts from.
-/

namespace UAFlow.Library

universe u v

variable {State : Type u} {Label : Type v}

/-- The labels are consumed from the left, one step each. -/
def Run (step : State → Label → State → Prop) : State → List Label → State → Prop
  | start, [], finish => start = finish
  | start, label :: labels, finish =>
      ∃ middle, step start label middle ∧ Run step middle labels finish

namespace Run

variable {step : State → Label → State → Prop}

@[simp]
theorem nil_iff (start finish : State) : Run step start [] finish ↔ start = finish :=
  Iff.rfl

@[simp]
theorem cons_iff (start finish : State) (label : Label) (labels : List Label) :
    Run step start (label :: labels) finish ↔
      ∃ middle, step start label middle ∧ Run step middle labels finish :=
  Iff.rfl

theorem append_iff (start finish : State) (first second : List Label) :
    Run step start (first ++ second) finish ↔
      ∃ middle, Run step start first middle ∧ Run step middle second finish := by
  induction first generalizing start with
  | nil => simp
  | cons label labels inductionHypothesis =>
      simp only [List.cons_append, cons_iff, inductionHypothesis]
      constructor
      · rintro ⟨next, stepped, middle, first, second⟩
        exact ⟨middle, ⟨next, stepped, first⟩, second⟩
      · rintro ⟨middle, ⟨next, stepped, first⟩, second⟩
        exact ⟨next, stepped, middle, first, second⟩

theorem snoc {start middle finish : State} {labels : List Label} {label : Label}
    (run : Run step start labels middle) (stepped : step middle label finish) :
    Run step start (labels ++ [label]) finish :=
  (append_iff start finish labels [label]).mpr ⟨middle, run, finish, stepped, rfl⟩

theorem mono {weaker : State → Label → State → Prop}
    (implies : ∀ state label next, step state label next → weaker state label next)
    {start finish : State} {labels : List Label} (run : Run step start labels finish) :
    Run weaker start labels finish := by
  induction labels generalizing start with
  | nil => exact run
  | cons label labels inductionHypothesis =>
      obtain ⟨middle, stepped, run⟩ := run
      exact ⟨middle, implies start label middle stepped, inductionHypothesis run⟩

/-- What every step takes to a step takes a run to a run, where an invariant holds. -/
theorem simulates {Image : Type*} {ImageLabel : Type*}
    (imageStep : Image → ImageLabel → Image → Prop) (image : State → Image) (Inv : State → Prop)
    (preserved : ∀ state label next, Inv state → step state label next →
      Inv next ∧ ∃ imageLabel, imageStep (image state) imageLabel (image next))
    {start finish : State} {labels : List Label} (run : Run step start labels finish)
    (initially : Inv start) :
    ∃ imageLabels, Run imageStep (image start) imageLabels (image finish) := by
  induction labels generalizing start with
  | nil => exact ⟨[], congrArg image run⟩
  | cons label labels inductionHypothesis =>
      obtain ⟨middle, stepped, run⟩ := run
      obtain ⟨holds, imageLabel, imageStepped⟩ := preserved start label middle initially stepped
      obtain ⟨imageLabels, imageRun⟩ := inductionHypothesis run holds
      exact ⟨imageLabel :: imageLabels, image middle, imageStepped, imageRun⟩

theorem invariant
    (Inv : State → Prop)
    (preserved : ∀ state label next, Inv state → step state label next → Inv next)
    {start finish : State} {labels : List Label}
    (run : Run step start labels finish) (initially : Inv start) :
    Inv finish := by
  induction labels generalizing start with
  | nil => exact run ▸ initially
  | cons label labels inductionHypothesis =>
      obtain ⟨middle, stepped, run⟩ := run
      exact inductionHypothesis run (preserved start label middle initially stepped)

/-- Where something is left to do unless the run is done, a run that is done is no
longer than the measure allows. -/
theorem exists_of_decreasing (measure : State → Nat) (Inv Done : State → Prop)
    (progress : ∀ state, Inv state → ¬ Done state →
      ∃ label next, step state label next ∧ Inv next ∧ measure next < measure state)
    (start : State) (initially : Inv start) :
    ∃ labels finish, Run step start labels finish ∧ Done finish ∧
      labels.length ≤ measure start := by
  induction size : measure start using Nat.strongRecOn generalizing start with
  | ind size inductionHypothesis =>
      by_cases done : Done start
      · exact ⟨[], start, rfl, done, Nat.zero_le _⟩
      · obtain ⟨label, next, stepped, holds, smaller⟩ := progress start initially done
        obtain ⟨labels, finish, run, isDone, short⟩ :=
          inductionHypothesis (measure next) (by omega) next holds rfl
        refine ⟨label :: labels, finish, ⟨next, stepped, run⟩, isDone, ?_⟩
        rw [List.length_cons]
        omega

/-- The condition is asked only at the states the run really reaches. -/
theorem invariant_while
    (Inv : State → Prop) (Allowed : State → Label → Prop)
    (preserved : ∀ state label next,
      Inv state → Allowed state label → step state label next → Inv next)
    {start finish : State} {labels : List Label}
    (run : Run step start labels finish) (initially : Inv start)
    (allowed : ∀ before label state, before ++ [label] <+: labels →
      Run step start before state → Allowed state label) :
    Inv finish := by
  induction labels generalizing start with
  | nil => exact run ▸ initially
  | cons label labels inductionHypothesis =>
      obtain ⟨middle, stepped, run⟩ := run
      have first : Allowed start label := allowed [] label start (by simp) rfl
      apply inductionHypothesis run (preserved start label middle initially first stepped)
      intro before later state within reached
      exact allowed (label :: before) later state
        (by simpa using within) ⟨middle, stepped, reached⟩

end Run

/-! ## Loops over a list -/

/-- A loop that returns at every element returns.  The invariant speaks of the
elements gone through. -/
theorem foldlM_ok {Fault : Type*} {Place : Type u} {Element : Type v}
    (body : Place → Element → Except Fault Place) (elements : List Element) {start : Place}
    (Inv : List Element → Place → Prop) (begins : Inv [] start)
    (keeps : ∀ before element after, elements = before ++ element :: after →
      ∀ place, Inv before place → ∃ next, body place element = .ok next ∧
        Inv (before ++ [element]) next) :
    ∃ finish, elements.foldlM body start = .ok finish ∧ Inv elements finish := by
  have rest : ∀ after before place, elements = before ++ after → Inv before place →
      ∃ finish, after.foldlM body place = .ok finish ∧ Inv elements finish := by
    intro after
    induction after with
    | nil =>
        intro before place same holds
        rw [List.append_nil] at same
        exact ⟨place, rfl, same ▸ holds⟩
    | cons element after inductionHypothesis =>
        intro before place same holds
        obtain ⟨next, returned, holdsNext⟩ := keeps before element after same place holds
        obtain ⟨finish, finished, holdsFinish⟩ :=
          inductionHypothesis (before ++ [element]) next (by simp [same]) holdsNext
        refine ⟨finish, ?_, holdsFinish⟩
        rw [List.foldlM_cons, returned]
        exact finished
  exact rest elements [] start rfl begins

theorem foldlM_lockstep {Fault : Type*} {Place : Type u} {Element : Type v} {Shadow : Type u}
    (body : Place → Element → Except Fault Place)
    (shadowBody : Shadow → Element → Except Fault Shadow) (elements : List Element)
    (start : Place) (shadowStart : Shadow)
    (Inv : List Element → Place → Shadow → Prop) (begins : Inv [] start shadowStart)
    (keeps : ∀ before element after, elements = before ++ element :: after →
      ∀ place shadow, Inv before place shadow →
        ∃ next shadowNext, body place element = .ok next ∧
          shadowBody shadow element = .ok shadowNext ∧
          Inv (before ++ [element]) next shadowNext) :
    ∃ finish shadowFinish, elements.foldlM body start = .ok finish ∧
      elements.foldlM shadowBody shadowStart = .ok shadowFinish ∧
      Inv elements finish shadowFinish := by
  have loop := foldlM_ok shadowBody elements
    (fun before shadow => ∃ place, before.foldlM body start = .ok place ∧ Inv before place shadow)
    ⟨start, rfl, begins⟩ ?_
  · obtain ⟨shadowFinish, shadowFinished, finish, finished, holds⟩ := loop
    exact ⟨finish, shadowFinish, finished, shadowFinished, holds⟩
  · rintro before element after same shadow ⟨place, reached, holds⟩
    obtain ⟨next, shadowNext, returned, shadowReturned, holdsNext⟩ :=
      keeps before element after same place shadow holds
    refine ⟨shadowNext, shadowReturned, next, ?_, holdsNext⟩
    rw [List.foldlM_append, reached]
    change [element].foldlM body place = .ok next
    rw [List.foldlM_cons, returned]
    rfl

/-- A loop whose body passes over some elements and otherwise does what the
element declares. -/
theorem foldlM_filterMap {Fault Decl : Type*} {Place : Type u} {Element : Type v}
    (body : Place → Element → Except Fault Place) (declares : Element → Option Decl)
    (loaded : List Decl → Place) (elements : List Element)
    (passes : ∀ element, declares element = none → ∀ place, body place element = .ok place)
    (takes : ∀ before element decl after,
      elements.filterMap declares = before ++ decl :: after → declares element = some decl →
        body (loaded before) element = .ok (loaded (before ++ [decl]))) :
    elements.foldlM body (loaded []) = .ok (loaded (elements.filterMap declares)) := by
  have keeps : ∀ before element after, elements = before ++ element :: after →
      ∀ place, place = loaded (before.filterMap declares) →
        ∃ next, body place element = .ok next ∧
          next = loaded ((before ++ [element]).filterMap declares) := by
    rintro before element after same _ rfl
    rw [List.filterMap_append]
    cases declared : declares element with
    | none =>
        rw [List.filterMap_cons_none declared, List.filterMap_nil, List.append_nil]
        exact ⟨_, passes element declared _, rfl⟩
    | some decl =>
        have split : elements.filterMap declares =
            before.filterMap declares ++ decl :: after.filterMap declares := by
          rw [same, List.filterMap_append, List.filterMap_cons_some declared]
        rw [List.filterMap_cons_some declared, List.filterMap_nil]
        exact ⟨_, takes _ element decl _ split declared, rfl⟩
  obtain ⟨_, returned, rfl⟩ := foldlM_ok body elements
    (fun before place => place = loaded (before.filterMap declares)) rfl keeps
  exact returned

/-! ## The first element with a property -/

/-- The first element with a property, and where it stands. -/
structure FirstWith {α : Type} (property : α → Prop) (elements : List α) (index : Nat)
    (element : α) : Prop where
  here : elements[index]? = some element
  holds : property element
  before : ∀ earlier < index, ∀ other, elements[earlier]? = some other → ¬ property other

theorem FirstWith.head {α : Type} {property : α → Prop} {head : α} (holds : property head)
    (elements : List α) : FirstWith property (head :: elements) 0 head :=
  ⟨rfl, holds, fun _ below => absurd below (Nat.not_lt_zero _)⟩

theorem FirstWith.cons {α : Type} {property : α → Prop} {elements : List α} {index : Nat}
    {element head : α} (first : FirstWith property elements index element) (fails : ¬ property head) :
    FirstWith property (head :: elements) (index + 1) element := by
  refine ⟨first.here, first.holds, ?_⟩
  intro earlier before other there
  cases earlier with
  | zero =>
      obtain rfl : head = other := Option.some.inj there
      exact fails
  | succ earlier => exact first.before earlier (Nat.lt_of_succ_lt_succ before) other there

theorem FirstWith.unique {α : Type} {property : α → Prop} {elements : List α} {index other : Nat}
    {element another : α} (first : FirstWith property elements index element)
    (again : FirstWith property elements other another) : index = other := by
  rcases Nat.lt_trichotomy index other with before | same | after
  · exact absurd first.holds (again.before index before element first.here)
  · exact same
  · exact absurd again.holds (first.before other after another again.here)

theorem exists_firstWith {α : Type} {property : α → Prop} {elements : List α}
    (somewhere : ∃ element ∈ elements, property element) :
    ∃ index element, FirstWith property elements index element := by
  induction elements with
  | nil =>
      obtain ⟨_, membership, _⟩ := somewhere
      exact absurd membership List.not_mem_nil
  | cons head elements inductionHypothesis =>
      by_cases holds : property head
      · exact ⟨0, head, FirstWith.head holds elements⟩
      · obtain ⟨element, membership, satisfied⟩ := somewhere
        rcases List.mem_cons.mp membership with rfl | behind
        · exact absurd satisfied holds
        · obtain ⟨index, found, first⟩ := inductionHypothesis ⟨element, behind, satisfied⟩
          exact ⟨index + 1, found, first.cons holds⟩

end UAFlow.Library
