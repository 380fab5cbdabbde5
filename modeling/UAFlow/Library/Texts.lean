import Mathlib.Data.List.Basic

/-!
Texts reported in pieces.

Symbols are notices, and the letters of fields one by one.  `assemble` turns symbols
into events, which report the text of a field as a whole; `joined` forgets into how
many pieces a text was cut.
-/

namespace UAFlow.Library

universe u v w

inductive Symbol (Notice : Type u) (Field : Type v) (Letter : Type w) where
  | notice (notice : Notice)
  | opened (field : Field)
  | letter (field : Field) (letter : Letter)
  | closed (field : Field)
  deriving DecidableEq

inductive Event (Notice : Type u) (Field : Type v) (Letter : Type w) where
  | notice (notice : Notice)
  | text (field : Field) (text : List Letter)
  deriving DecidableEq

section Texts

variable {Notice : Type u} {Field : Type v} {Letter : Type w} [DecidableEq Field]

/-- The field whose text is not complete, with the letters so far. -/
abbrev Pending (Field : Type v) (Letter : Type w) := Option (Field × List Letter)

def Pending.event : Pending Field Letter → List (Event Notice Field Letter)
  | none => []
  | some (field, text) => [.text field text]

def Pending.push (pending : Pending Field Letter) (field : Field) (letter : Letter) :
    List (Event Notice Field Letter) × Pending Field Letter :=
  match pending with
  | none => ([], some (field, [letter]))
  | some (other, text) =>
      if other = field then ([], some (field, text ++ [letter]))
      else ([.text other text], some (field, [letter]))

/-- The events of one symbol. -/
def absorbOne (pending : Pending Field Letter) :
    Symbol Notice Field Letter → List (Event Notice Field Letter) × Pending Field Letter
  | .notice notice => (pending.event ++ [.notice notice], none)
  | .opened field => (pending.event, some (field, []))
  | .letter field letter => pending.push field letter
  | .closed _ => (pending.event, none)

def absorb : Pending Field Letter → List (Symbol Notice Field Letter) →
    List (Event Notice Field Letter) × Pending Field Letter
  | pending, [] => ([], pending)
  | pending, symbol :: symbols =>
      let (events, pending) := absorbOne pending symbol
      let (more, pending) := absorb pending symbols
      (events ++ more, pending)

/-- The events of symbols, and at last the text that is not complete. -/
def assemble (pending : Pending Field Letter) (symbols : List (Symbol Notice Field Letter)) :
    List (Event Notice Field Letter) :=
  (absorb pending symbols).1 ++ (absorb pending symbols).2.event

theorem absorb_append (pending : Pending Field Letter)
    (first second : List (Symbol Notice Field Letter)) :
    absorb pending (first ++ second) =
      ((absorb pending first).1 ++ (absorb (absorb pending first).2 second).1,
        (absorb (absorb pending first).2 second).2) := by
  induction first generalizing pending with
  | nil => simp [absorb]
  | cons symbol symbols inductionHypothesis =>
      simp only [List.cons_append, absorb, inductionHypothesis, List.append_assoc]

@[simp]
theorem absorb_nil (pending : Pending Field Letter) :
    absorb pending ([] : List (Symbol Notice Field Letter)) = ([], pending) := rfl

@[simp]
theorem assemble_nil (pending : Pending Field Letter) :
    assemble pending ([] : List (Symbol Notice Field Letter)) = pending.event := rfl

theorem assemble_cons (pending : Pending Field Letter) (symbol : Symbol Notice Field Letter)
    (symbols : List (Symbol Notice Field Letter)) :
    assemble pending (symbol :: symbols) =
      (absorbOne pending symbol).1 ++ assemble (absorbOne pending symbol).2 symbols := by
  simp only [assemble, absorb, List.append_assoc]

theorem assemble_append (pending : Pending Field Letter)
    (first second : List (Symbol Notice Field Letter)) :
    assemble pending (first ++ second) =
      (absorb pending first).1 ++ assemble (absorb pending first).2 second := by
  simp only [assemble, absorb_append, List.append_assoc]

theorem absorb_letters (field : Field) (text letters : List Letter) :
    absorb (some (field, text)) (letters.map (.letter field) : List (Symbol Notice Field Letter)) =
      ([], some (field, text ++ letters)) := by
  induction letters generalizing text with
  | nil => simp
  | cons letter letters inductionHypothesis =>
      simp [absorb, absorbOne, Pending.push, inductionHypothesis]

/-- More letters of a field that may be the pending one. -/
def Pending.more (pending : Pending Field Letter) (field : Field) (letters : List Letter) :
    Pending Field Letter :=
  match pending with
  | none => some (field, letters)
  | some (_, text) => some (field, text ++ letters)

omit [DecidableEq Field] in
theorem Pending.more_field {pending : Pending Field Letter} {field other : Field}
    {letters text : List Letter} (more : pending.more field letters = some (other, text)) :
    other = field := by
  cases pending with
  | none =>
      cases more
      rfl
  | some part =>
      cases more
      rfl

theorem absorb_more {pending : Pending Field Letter} {field : Field}
    (same : ∀ other text, pending = some (other, text) → other = field) {letters : List Letter}
    (notEmpty : letters ≠ []) :
    absorb pending (letters.map (.letter field) : List (Symbol Notice Field Letter)) =
      ([], pending.more field letters) := by
  cases pending with
  | some part =>
      obtain ⟨other, text⟩ := part
      obtain rfl := same other text rfl
      exact absorb_letters other text letters
  | none =>
      cases letters with
      | nil => exact absurd rfl notEmpty
      | cons letter letters => exact absorb_letters field [letter] letters

/-- Symbols that leave no text open, and their events. -/
def Assembles (symbols : List (Symbol Notice Field Letter))
    (events : List (Event Notice Field Letter)) : Prop :=
  absorb none symbols = (events, none)

theorem Assembles.append {first second : List (Symbol Notice Field Letter)}
    {events more : List (Event Notice Field Letter)} (assembles : Assembles first events)
    (assembles' : Assembles second more) : Assembles (first ++ second) (events ++ more) := by
  unfold Assembles at *
  rw [absorb_append, assembles]
  dsimp only
  rw [assembles']

theorem assembles_flatMap {Part : Type*} {parts : List Part}
    {symbols : Part → List (Symbol Notice Field Letter)}
    {events : Part → List (Event Notice Field Letter)}
    (each : ∀ part ∈ parts, Assembles (symbols part) (events part)) :
    Assembles (parts.flatMap symbols) (parts.flatMap events) := by
  induction parts with
  | nil => rfl
  | cons part parts inductionHypothesis =>
      exact (each part List.mem_cons_self).append
        (inductionHypothesis fun other among => each other (List.mem_cons_of_mem part among))

theorem assembles_text (field : Field) {letters : List Letter} (notEmpty : letters ≠ []) :
    Assembles (letters.map (.letter field) ++ [(.closed field : Symbol Notice Field Letter)])
      [.text field letters] := by
  unfold Assembles
  rw [absorb_append, absorb_more nofun notEmpty]
  rfl

theorem Assembles.assemble {symbols : List (Symbol Notice Field Letter)}
    {events : List (Event Notice Field Letter)} (assembles : Assembles symbols events) :
    assemble none symbols = events := by
  unfold Library.assemble
  rw [assembles]
  exact List.append_nil events

/-! ## Pieces -/

/-- A text put in front of events, joined to a text of the same field. -/
def joinText (field : Field) (text : List Letter) :
    List (Event Notice Field Letter) → List (Event Notice Field Letter)
  | .text other more :: events =>
      if other = field then .text field (text ++ more) :: events
      else .text field text :: .text other more :: events
  | events => .text field text :: events

/-- Events with the pieces of each text put together. -/
def joined : List (Event Notice Field Letter) → List (Event Notice Field Letter)
  | [] => []
  | .notice notice :: events => .notice notice :: joined events
  | .text field text :: events => joinText field text (joined events)

theorem joinText_joinText (field : Field) (text more : List Letter)
    (events : List (Event Notice Field Letter)) :
    joinText field text (joinText field more events) = joinText field (text ++ more) events := by
  cases events with
  | nil => simp [joinText]
  | cons event events =>
      cases event with
      | notice notice => simp [joinText]
      | text other later =>
          by_cases same : other = field
          · simp [joinText, same]
          · simp [joinText, same]

theorem joined_append_congr (before : List (Event Notice Field Letter))
    {first second : List (Event Notice Field Letter)} (same : joined first = joined second) :
    joined (before ++ first) = joined (before ++ second) := by
  induction before with
  | nil => exact same
  | cons event before inductionHypothesis =>
      cases event with
      | notice notice => simp [joined, inductionHypothesis]
      | text field text => simp [joined, inductionHypothesis]

theorem joined_assemble_some (field : Field) (text more : List Letter)
    (symbols : List (Symbol Notice Field Letter)) :
    joined (.text field text :: assemble (some (field, more)) symbols) =
      joined (assemble (some (field, text ++ more)) symbols) := by
  induction symbols generalizing more with
  | nil => simp [joined, Pending.event, joinText]
  | cons symbol symbols inductionHypothesis =>
      rw [assemble_cons, assemble_cons]
      cases symbol with
      | notice notice => simp [absorbOne, Pending.event, joined, joinText_joinText]
      | opened other => simp [absorbOne, Pending.event, joined, joinText_joinText]
      | closed other => simp [absorbOne, Pending.event, joined, joinText_joinText]
      | letter other letter =>
          by_cases same : field = other
          · subst same
            simpa [absorbOne, Pending.push] using inductionHypothesis (more ++ [letter])
          · simp [absorbOne, Pending.push, same, joined, joinText_joinText]

theorem joined_assemble_none (field : Field) (text : List Letter)
    (symbols : List (Symbol Notice Field Letter)) :
    joined (.text field text :: assemble none symbols) =
      joined (assemble (some (field, text)) symbols) := by
  cases symbols with
  | nil => simp [joined, Pending.event]
  | cons symbol symbols =>
      rw [assemble_cons, assemble_cons]
      cases symbol with
      | notice notice => simp [absorbOne, Pending.event, joined]
      | opened other => simp [absorbOne, Pending.event, joined]
      | closed other => simp [absorbOne, Pending.event, joined]
      | letter other letter =>
          by_cases same : field = other
          · subst same
            simpa [absorbOne, Pending.push] using
              joined_assemble_some field text [letter] symbols
          · simp [absorbOne, Pending.push, same, joined]

/-- What may be pending behind a cut: nothing, or no letters of the field that was
pending before it. -/
def Resumes (before after : Pending Field Letter) : Prop :=
  after = none ∨ ∃ field text, before = some (field, text) ∧ after = some (field, [])

/-- Cutting symbols in two cuts at most one text in two. -/
theorem joined_assemble_append {pending after : Pending Field Letter}
    {first : List (Symbol Notice Field Letter)} (resumes : Resumes (absorb pending first).2 after)
    (second : List (Symbol Notice Field Letter)) :
    joined (assemble pending first ++ assemble after second) =
      joined (assemble pending (first ++ second)) := by
  rw [assemble_append, assemble, List.append_assoc]
  apply joined_append_congr
  rcases resumes with rfl | ⟨field, text, before, rfl⟩
  · cases (absorb pending first).2 with
    | none => rfl
    | some part => exact joined_assemble_none part.1 part.2 second
  · rw [before]
    simpa [Pending.event] using joined_assemble_some field text [] second

/-! ## Handlers -/

/-- A handler that makes the same of a text and of its pieces. -/
def Seamless {User : Type*} (step : User → Event Notice Field Letter → User) : Prop :=
  ∀ user field text more,
    step (step user (.text field text)) (.text field more) = step user (.text field (text ++ more))

section Seamless

variable {User : Type*} {step : User → Event Notice Field Letter → User}

theorem Seamless.foldl_joinText (seamless : Seamless step) (user : User) (field : Field)
    (text : List Letter) (events : List (Event Notice Field Letter)) :
    (joinText field text events).foldl step user =
      events.foldl step (step user (.text field text)) := by
  cases events with
  | nil => rfl
  | cons event events =>
      cases event with
      | notice notice => rfl
      | text other more =>
          by_cases same : other = field
          · subst same
            simp only [joinText, if_true, List.foldl_cons]
            rw [seamless user other text more]
          · simp only [joinText, if_neg same, List.foldl_cons]

theorem Seamless.foldl_joined (seamless : Seamless step) (user : User)
    (events : List (Event Notice Field Letter)) :
    (joined events).foldl step user = events.foldl step user := by
  induction events generalizing user with
  | nil => rfl
  | cons event events inductionHypothesis =>
      cases event with
      | notice notice => exact inductionHypothesis _
      | text field text =>
          rw [joined, seamless.foldl_joinText, inductionHypothesis]
          rfl

theorem Seamless.foldl_eq (seamless : Seamless step) (user : User)
    {events other : List (Event Notice Field Letter)} (same : joined events = joined other) :
    events.foldl step user = other.foldl step user := by
  rw [← seamless.foldl_joined user events, same, seamless.foldl_joined]

end Seamless

end Texts

end UAFlow.Library
