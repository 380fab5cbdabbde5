import Mathlib.Data.List.Basic

/-!
Scanners.

A scanner reacts to one letter at a time.  It may look at a letter again in a state
of lower rank, leave behind a letter, or fail at one.  A scan goes on until it has no
letter left, and may be made in pieces.  A meter counts its looks.
-/

namespace UAFlow.Library

universe u v w x

/-! ## Reactions -/

inductive Reaction (State : Type u) (Output : Type w) where
  | read (state : State) (symbols : List Output)
  | again (state : State) (symbols : List Output)
  | leave (state : State) (symbols : List Output)
  | fail (state : State)
  deriving DecidableEq

structure Scanner (State : Type u) (Letter : Type v) (Output : Type w) where
  react : State → Letter → Reaction State Output
  rank : State → Nat
  descends : ∀ {state letter next symbols},
    react state letter = .again next symbols → rank next < rank state

/-- Where a scan ends: behind its last letter, behind the letter it leaves at, or at
the letter it fails at. -/
inductive Ending (State : Type u) (Letter : Type v) where
  | reached (state : State)
  | left (state : State) (rest : List Letter)
  | failed (state : State) (rest : List Letter)
  deriving DecidableEq

namespace Ending

def state {State : Type u} {Letter : Type v} : Ending State Letter → State
  | .reached state => state
  | .left state _ => state
  | .failed state _ => state

def isFailed {State : Type u} {Letter : Type v} : Ending State Letter → Bool
  | .failed _ _ => true
  | _ => false

def rest {State : Type u} {Letter : Type v} : Ending State Letter → List Letter
  | .reached _ => []
  | .left _ rest => rest
  | .failed _ rest => rest

end Ending

structure Scanned (State : Type u) (Letter : Type v) (Output : Type w) where
  symbols : List Output
  ending : Ending State Letter
  deriving DecidableEq

variable {State : Type u} {Letter : Type v} {Output : Type w}

namespace Scanned

def put (symbols : List Output) (scanned : Scanned State Letter Output) :
    Scanned State Letter Output :=
  ⟨symbols ++ scanned.symbols, scanned.ending⟩

@[simp]
theorem put_nil (scanned : Scanned State Letter Output) : scanned.put [] = scanned := rfl

@[simp]
theorem put_put (first second : List Output) (scanned : Scanned State Letter Output) :
    (scanned.put second).put first = scanned.put (first ++ second) := by
  simp [put, List.append_assoc]

@[simp]
theorem put_symbols (symbols : List Output) (scanned : Scanned State Letter Output) :
    (scanned.put symbols).symbols = symbols ++ scanned.symbols := rfl

@[simp]
theorem put_ending (symbols : List Output) (scanned : Scanned State Letter Output) :
    (scanned.put symbols).ending = scanned.ending := rfl

/-- More letters behind those that were scanned. -/
def follow (scanned : Scanned State Letter Output) (more : List Letter)
    (go : State → Scanned State Letter Output) : Scanned State Letter Output :=
  match scanned.ending with
  | .reached state => (go state).put scanned.symbols
  | .left state rest => ⟨scanned.symbols, .left state (rest ++ more)⟩
  | .failed state rest => ⟨scanned.symbols, .failed state (rest ++ more)⟩

theorem put_follow (symbols : List Output) (scanned : Scanned State Letter Output)
    (more : List Letter) (go : State → Scanned State Letter Output) :
    (scanned.put symbols).follow more go = (scanned.follow more go).put symbols := by
  obtain ⟨out, ending⟩ := scanned
  cases ending with
  | reached state => simp [follow]
  | left state rest => rfl
  | failed state rest => rfl

end Scanned

/-! ## Scans -/

namespace Scanner

variable (scanner : Scanner State Letter Output)

def scan (state : State) (text : List Letter) : Scanned State Letter Output :=
  match text with
  | [] => ⟨[], .reached state⟩
  | letter :: rest =>
      match reacts : scanner.react state letter with
      | .read next symbols => (scan next rest).put symbols
      | .again next symbols =>
          have := scanner.descends reacts
          (scan next (letter :: rest)).put symbols
      | .leave next symbols => ⟨symbols, .left next rest⟩
      | .fail next => ⟨[], .failed next (letter :: rest)⟩
termination_by (text.length, scanner.rank state)

variable {scanner} {state next : State} {letter : Letter} {rest : List Letter}
  {symbols : List Output}

@[simp]
theorem scan_nil (state : State) : scanner.scan state [] = ⟨[], .reached state⟩ := by
  rw [scan]

theorem scan_read (reacts : scanner.react state letter = .read next symbols) :
    scanner.scan state (letter :: rest) = (scanner.scan next rest).put symbols := by
  rw [scan]
  split <;> simp_all

theorem scan_again (reacts : scanner.react state letter = .again next symbols) :
    scanner.scan state (letter :: rest) = (scanner.scan next (letter :: rest)).put symbols := by
  rw [scan]
  split <;> simp_all

theorem scan_leave (reacts : scanner.react state letter = .leave next symbols) :
    scanner.scan state (letter :: rest) = ⟨symbols, .left next rest⟩ := by
  rw [scan]
  split <;> simp_all

theorem scan_fail (reacts : scanner.react state letter = .fail next) :
    scanner.scan state (letter :: rest) = ⟨[], .failed next (letter :: rest)⟩ := by
  rw [scan]
  split <;> simp_all

theorem scan_induction (scanner : Scanner State Letter Output) {motive : State → List Letter → Prop}
    (nil : ∀ state, motive state [])
    (cons : ∀ state letter rest,
      (∀ next symbols, scanner.react state letter = .read next symbols → motive next rest) →
      (∀ next symbols, scanner.react state letter = .again next symbols →
        motive next (letter :: rest)) →
      motive state (letter :: rest))
    (state : State) (text : List Letter) : motive state text := by
  induction text generalizing state with
  | nil => exact nil state
  | cons letter rest inductionHypothesis =>
      induction level : scanner.rank state using Nat.strongRecOn generalizing state with
      | ind level lower =>
          apply cons state letter rest
          · exact fun next _ _ => inductionHypothesis next
          · intro next symbols reacts
            exact lower _ (level ▸ scanner.descends reacts) next rfl

theorem scan_append (state : State) (first second : List Letter) :
    scanner.scan state (first ++ second) =
      (scanner.scan state first).follow second fun next => scanner.scan next second := by
  induction state, first using scanner.scan_induction with
  | nil state => simp [Scanned.follow]
  | cons state letter rest onRead onAgain =>
      rw [List.cons_append]
      cases reacts : scanner.react state letter with
      | read next symbols =>
          rw [scan_read reacts, scan_read reacts, onRead next symbols reacts, Scanned.put_follow]
      | again next symbols =>
          rw [scan_again reacts, scan_again reacts, ← List.cons_append,
            onAgain next symbols reacts, Scanned.put_follow]
      | leave next symbols =>
          rw [scan_leave reacts, scan_leave reacts]
          rfl
      | fail next =>
          rw [scan_fail reacts, scan_fail reacts]
          rfl

/-! ## Meters -/

variable {Meter : Type x} {cost : State → Letter → Meter → Meter}

/-- What the looks of a scan cost. -/
def meter (scanner : Scanner State Letter Output) (cost : State → Letter → Meter → Meter)
    (state : State) (text : List Letter) (spent : Meter) : Meter :=
  match text with
  | [] => spent
  | letter :: rest =>
      match reacts : scanner.react state letter with
      | .read next _ => meter scanner cost next rest (cost state letter spent)
      | .again next _ =>
          have := scanner.descends reacts
          meter scanner cost next (letter :: rest) (cost state letter spent)
      | .leave _ _ => cost state letter spent
      | .fail _ => cost state letter spent
termination_by (text.length, scanner.rank state)

@[simp]
theorem meter_nil (state : State) (spent : Meter) : scanner.meter cost state [] spent = spent := by
  rw [meter]

theorem meter_read (reacts : scanner.react state letter = .read next symbols) (spent : Meter) :
    scanner.meter cost state (letter :: rest) spent =
      scanner.meter cost next rest (cost state letter spent) := by
  rw [meter]
  split <;> simp_all

theorem meter_again (reacts : scanner.react state letter = .again next symbols) (spent : Meter) :
    scanner.meter cost state (letter :: rest) spent =
      scanner.meter cost next (letter :: rest) (cost state letter spent) := by
  rw [meter]
  split <;> simp_all

theorem meter_leave (reacts : scanner.react state letter = .leave next symbols) (spent : Meter) :
    scanner.meter cost state (letter :: rest) spent = cost state letter spent := by
  rw [meter]
  split <;> simp_all

theorem meter_fail (reacts : scanner.react state letter = .fail next) (spent : Meter) :
    scanner.meter cost state (letter :: rest) spent = cost state letter spent := by
  rw [meter]
  split <;> simp_all

/-- What every look keeps, the meter keeps. -/
theorem meter_keeps {kept : Meter → Prop}
    (keeps : ∀ state letter spent, kept spent → kept (cost state letter spent)) (state : State)
    (text : List Letter) {spent : Meter} (before : kept spent) :
    kept (scanner.meter cost state text spent) := by
  induction state, text using scanner.scan_induction generalizing spent with
  | nil state => rwa [meter_nil]
  | cons state letter rest onRead onAgain =>
      have after := keeps state letter spent before
      cases reacts : scanner.react state letter with
      | read next symbols =>
          rw [meter_read reacts]
          exact onRead next symbols reacts after
      | again next symbols =>
          rw [meter_again reacts]
          exact onAgain next symbols reacts after
      | leave next symbols => rwa [meter_leave reacts]
      | fail next => rwa [meter_fail reacts]

/-- Two meters of one scan that every look keeps related are related at its end. -/
theorem meter_related {related : Meter → Meter → Prop}
    (keeps : ∀ state letter one other, related one other →
      related (cost state letter one) (cost state letter other))
    (state : State) (text : List Letter) {one other : Meter} (before : related one other) :
    related (scanner.meter cost state text one) (scanner.meter cost state text other) := by
  induction state, text using scanner.scan_induction generalizing one other with
  | nil state => rwa [meter_nil, meter_nil]
  | cons state letter rest onRead onAgain =>
      have after := keeps state letter one other before
      cases reacts : scanner.react state letter with
      | read next symbols =>
          rw [meter_read reacts, meter_read reacts]
          exact onRead next symbols reacts after
      | again next symbols =>
          rw [meter_again reacts, meter_again reacts]
          exact onAgain next symbols reacts after
      | leave next symbols => rwa [meter_leave reacts, meter_leave reacts]
      | fail next => rwa [meter_fail reacts, meter_fail reacts]

theorem meter_append (state : State) (first second : List Letter) (spent : Meter) :
    scanner.meter cost state (first ++ second) spent =
      match (scanner.scan state first).ending with
      | .reached next => scanner.meter cost next second (scanner.meter cost state first spent)
      | _ => scanner.meter cost state first spent := by
  induction state, first using scanner.scan_induction generalizing spent with
  | nil state =>
      rw [scan_nil, meter_nil]
      rfl
  | cons state letter rest onRead onAgain =>
      rw [List.cons_append]
      cases reacts : scanner.react state letter with
      | read next symbols =>
          rw [scan_read reacts, meter_read reacts, meter_read reacts, onRead next symbols reacts,
            Scanned.put_ending]
      | again next symbols =>
          rw [scan_again reacts, meter_again reacts, meter_again reacts, ← List.cons_append,
            onAgain next symbols reacts, Scanned.put_ending]
      | leave next symbols => rw [scan_leave reacts, meter_leave reacts, meter_leave reacts]
      | fail next => rw [scan_fail reacts, meter_fail reacts, meter_fail reacts]

end Scanner

end UAFlow.Library
