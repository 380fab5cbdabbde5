import Mathlib.Data.List.Basic
import Mathlib.Logic.Function.Basic
import UAFlow.Library.Runs

/-!
Machines that answer.

A machine takes one input at a time and answers it, or faults and does nothing
more.  A transducer never faults.  `Machine.run_follows` compares a machine with
a transducer that says what it should answer, `Machine.run_agrees` two machines
that may fault together.  A keyed transducer keeps a record for each key and
consults only that of the input's key, so what it answers for one key depends on
the inputs for that key alone.
-/

namespace UAFlow.Library

universe u v w

variable {State Other : Type u} {Input : Type v} {Output : Type w} {Fault : Type*}

abbrev Machine (State : Type u) (Input : Type v) (Output : Type w) (Fault : Type*) :=
  State → Input → Except Fault (State × Output)

abbrev Transducer (State : Type u) (Input : Type v) (Output : Type w) :=
  State → Input → State × Output

/-- Both fault in the same way, or both return something related. -/
def Agrees {Left Right : Type*} (relation : Left → Right → Prop) :
    Except Fault Left → Except Fault Right → Prop
  | .ok left, .ok right => relation left right
  | .error left, .error right => left = right
  | _, _ => False

namespace Machine

/-- The answers up to a fault, and how the run ends. -/
def run (machine : Machine State Input Output Fault) :
    State → List Input → List Output × Except Fault State
  | state, [] => ([], .ok state)
  | state, input :: inputs =>
      match machine state input with
      | .error fault => ([], .error fault)
      | .ok (after, output) =>
          let rest := run machine after inputs
          (output :: rest.1, rest.2)

theorem run_cons_ok {machine : Machine State Input Output Fault} {state after : State}
    {input : Input} {output : Output} (returned : machine state input = .ok (after, output))
    (inputs : List Input) :
    run machine state (input :: inputs) =
      (output :: (run machine after inputs).1, (run machine after inputs).2) := by
  simp only [run, returned]

theorem run_congr {left right : Machine State Input Output Fault} {inputs : List Input}
    (same : ∀ input ∈ inputs, ∀ state, left state input = right state input) (state : State) :
    run left state inputs = run right state inputs := by
  induction inputs generalizing state with
  | nil => rfl
  | cons input inputs inductionHypothesis =>
      have rest := inductionHypothesis fun later membership =>
        same later (List.mem_cons_of_mem input membership)
      simp only [run, same input List.mem_cons_self, rest]

theorem steps_of_run {machine : Machine State Input Output Fault} {start finish : State}
    {inputs : List Input} (returned : (run machine start inputs).2 = .ok finish) :
    Run (fun state input after => ∃ output, machine state input = .ok (after, output))
      start inputs finish := by
  induction inputs generalizing start with
  | nil => exact Except.ok.inj returned
  | cons input inputs inductionHypothesis =>
      cases step : machine start input with
      | error fault => simp [run, step] at returned
      | ok pair =>
          obtain ⟨after, output⟩ := pair
          rw [run_cons_ok step] at returned
          exact ⟨after, ⟨output, step⟩, inductionHypothesis returned⟩

end Machine

namespace Transducer

/-- The answers, and the last state. -/
def run (transducer : Transducer State Input Output) :
    State → List Input → List Output × State
  | state, [] => ([], state)
  | state, input :: inputs =>
      let rest := run transducer (transducer state input).1 inputs
      ((transducer state input).2 :: rest.1, rest.2)

theorem run_append (transducer : Transducer State Input Output) (state : State)
    (first second : List Input) :
    run transducer state (first ++ second) =
      ((run transducer state first).1 ++
          (run transducer (run transducer state first).2 second).1,
        (run transducer (run transducer state first).2 second).2) := by
  induction first generalizing state with
  | nil => rfl
  | cons input first inductionHypothesis =>
      rw [List.cons_append, run, inductionHypothesis]
      rfl

theorem run_length (transducer : Transducer State Input Output) (state : State)
    (inputs : List Input) : (run transducer state inputs).1.length = inputs.length := by
  induction inputs generalizing state with
  | nil => rfl
  | cons input inputs inductionHypothesis => simp [run, inductionHypothesis]

theorem run_map {Image : Type v} (transducer : Transducer State Image Output)
    (image : Input → Image) (state : State) (inputs : List Input) :
    run transducer state (inputs.map image) =
      run (fun state input => transducer state (image input)) state inputs := by
  induction inputs generalizing state with
  | nil => rfl
  | cons input inputs inductionHypothesis =>
      rw [List.map_cons, run, run, inductionHypothesis]

end Transducer

/-! ## Comparing runs -/

/-- A machine whose every step answers like the transducer, from states related
to those of the transducer after the inputs so far, answers like it to the
end. -/
theorem Machine.run_follows (machine : Machine State Input Output Fault)
    (transducer : Transducer Other Input Output) (inputs : List Input) {start : State}
    {abstract : Other} (Related : List Input → State → Other → Prop)
    (begins : Related [] start abstract)
    (keeps : ∀ before input after, inputs = before ++ input :: after →
      ∀ state other, Related before state other →
        other = (Transducer.run transducer abstract before).2 →
        ∃ next, machine state input = .ok (next, (transducer other input).2) ∧
          Related (before ++ [input]) next (transducer other input).1) :
    ∃ finish, Machine.run machine start inputs =
        ((Transducer.run transducer abstract inputs).1, .ok finish) ∧
      Related inputs finish (Transducer.run transducer abstract inputs).2 := by
  have rest : ∀ after before state other, inputs = before ++ after → Related before state other →
      other = (Transducer.run transducer abstract before).2 →
      ∃ finish, Machine.run machine state after =
          ((Transducer.run transducer other after).1, .ok finish) ∧
        Related inputs finish (Transducer.run transducer other after).2 := by
    intro after
    induction after with
    | nil =>
        intro before state other same related _
        rw [List.append_nil] at same
        exact ⟨state, rfl, same ▸ related⟩
    | cons input after inductionHypothesis =>
        intro before state other same related reached
        obtain ⟨next, returned, further⟩ := keeps before input after same state other related reached
        have reachedNext : (transducer other input).1 =
            (Transducer.run transducer abstract (before ++ [input])).2 := by
          rw [Transducer.run_append, ← reached]
          rfl
        obtain ⟨finish, finished, final⟩ := inductionHypothesis (before ++ [input]) next _
          (by simp [same]) further reachedNext
        refine ⟨finish, ?_, final⟩
        rw [Machine.run_cons_ok returned, finished]
        rfl
  exact rest inputs [] start abstract rfl begins rfl

theorem Machine.run_agrees {Image : Type v} {Event : Type*}
    (left : Machine State Input Output Fault) (right : Machine Other Image Output Fault)
    (input : Event → Input) (image : Event → Image) (Related : State → Other → Prop)
    (keeps : ∀ state other event, Related state other →
      Agrees (fun first second => Related first.1 second.1 ∧ first.2 = second.2)
        (left state (input event)) (right other (image event)))
    (events : List Event) {state : State} {other : Other} (begins : Related state other) :
    (run left state (events.map input)).1 = (run right other (events.map image)).1 ∧
      Agrees Related (run left state (events.map input)).2
        (run right other (events.map image)).2 := by
  induction events generalizing state other with
  | nil => exact ⟨rfl, begins⟩
  | cons event events inductionHypothesis =>
      have step := keeps state other event begins
      rw [List.map_cons, List.map_cons, run, run]
      cases first : left state (input event) with
      | error fault =>
          cases second : right other (image event) with
          | error otherFault =>
              rw [first, second] at step
              exact ⟨rfl, step⟩
          | ok pair =>
              rw [first, second] at step
              exact step.elim
      | ok pair =>
          cases second : right other (image event) with
          | error fault =>
              rw [first, second] at step
              exact step.elim
          | ok otherPair =>
              rw [first, second] at step
              obtain ⟨related, same⟩ := step
              obtain ⟨outputs, ends⟩ := inductionHypothesis related
              exact ⟨congrArg₂ List.cons same outputs, ends⟩

/-! ## Keyed transducers -/

section Keyed

variable {Key : Type*} [DecidableEq Key] {Record : Type*}

/-- Each input is answered from the record of its key, and changes that one only. -/
def Transducer.keyed (key : Input → Key) (single : Transducer Record Input Output) :
    Transducer (Key → Record) Input Output :=
  fun records input =>
    (Function.update records (key input) (single (records (key input)) input).1,
      (single (records (key input)) input).2)

/-- The answers to the inputs of a kind. -/
def answersTo (kind : Input → Bool) (inputs : List Input) (outputs : List Output) : List Output :=
  ((inputs.zip outputs).filter fun answered => kind answered.1).map Prod.snd

theorem answersTo_cons (kind : Input → Bool) (input : Input) (inputs : List Input)
    (output : Output) (outputs : List Output) :
    answersTo kind (input :: inputs) (output :: outputs) =
      if kind input then output :: answersTo kind inputs outputs
      else answersTo kind inputs outputs := by
  unfold answersTo
  rw [List.zip_cons_cons, List.filter_cons]
  split <;> simp_all

theorem answersTo_all {kind : Input → Bool} {inputs : List Input} {outputs : List Output}
    (all : ∀ input ∈ inputs, kind input = true) (count : outputs.length = inputs.length) :
    answersTo kind inputs outputs = outputs := by
  have kept : (inputs.zip outputs).filter (fun answered => kind answered.1) =
      inputs.zip outputs := by
    rw [List.filter_eq_self]
    intro answered membership
    exact all answered.1 (List.of_mem_zip membership).1
  rw [answersTo, kept]
  exact List.map_snd_zip (Nat.le_of_eq count)

/-- What is answered for a key is what the records of that key alone lead to. -/
theorem answersTo_keyed (key : Input → Key) (single : Transducer Record Input Output) (here : Key)
    (inputs : List Input) (records : Key → Record) :
    answersTo (fun input => key input = here) inputs
        (Transducer.run (.keyed key single) records inputs).1 =
      (Transducer.run single (records here)
        (inputs.filter fun input => key input = here)).1 := by
  induction inputs generalizing records with
  | nil => rfl
  | cons input inputs inductionHypothesis =>
      rw [Transducer.run, answersTo_cons, inductionHypothesis, List.filter_cons]
      by_cases same : key input = here
      · subst same
        simp [Transducer.keyed, Transducer.run]
      · simp [Transducer.keyed, same, Function.update_of_ne (Ne.symm same)]

theorem run_keyed_rename {Name : Type*} [DecidableEq Name] {Image : Type v} (key : Input → Key)
    (name : Image → Name) (single : Transducer Record Input Output)
    (singleImage : Transducer Record Image Output) (rename : Key → Name)
    (injective : Function.Injective rename) (image : Input → Image)
    (named : ∀ input, name (image input) = rename (key input))
    (same : ∀ record input, singleImage record (image input) = single record input)
    (inputs : List Input) {records : Key → Record} {others : Name → Record}
    (begins : ∀ place, others (rename place) = records place) :
    (Transducer.run (.keyed name singleImage) others (inputs.map image)).1 =
      (Transducer.run (.keyed key single) records inputs).1 := by
  induction inputs generalizing records others with
  | nil => rfl
  | cons input inputs inductionHypothesis =>
      rw [List.map_cons, Transducer.run, Transducer.run]
      have output : (Transducer.keyed name singleImage others (image input)).2 =
          (Transducer.keyed key single records input).2 := by
        simp only [Transducer.keyed, named, begins, same]
      refine congrArg₂ List.cons output (inductionHypothesis ?_)
      intro place
      simp only [Transducer.keyed, named, begins, same]
      by_cases here : place = key input
      · rw [here, Function.update_self, Function.update_self]
      · rw [Function.update_of_ne here, Function.update_of_ne (injective.ne here), begins]

end Keyed

end UAFlow.Library
