import UAFlow.Http.Counts

/-!
# Marks

At the head of the loop the marks stand for the text the scanner's symbols leave
pending.  An iteration reads some bytes, and what it calls back with are their events.
-/

namespace UAFlow.Http

open Library

abbrev Pending := Library.Pending Field UInt8

def Call.event (data : List UInt8) : Call → Event
  | .notice kind => .notice kind
  | .data field start length => .text field ((data.drop start).take length)

/-! ## The head of the loop -/

structure HttpParser.Idle (parser : HttpParser) : Prop where
  sound : parser.Sound
  counts : parser.Counts
  small : parser.nread.toNat ≤ httpMaxHeaderSize

/-- The marks stand for what is pending. -/
def Holds (data : List UInt8) (marks : Marks) (place : Nat) : Pending → Prop
  | none => marks = fun _ => none
  | some (field, text) => ∃ mark, mark ≤ place ∧
      (marks = fun other => if other = field then some mark else none) ∧
      text = (data.drop mark).take (place - mark)

structure Suits (state : State) (pending : Pending) : Prop where
  opened : ∀ field, state.openField = some field → ∃ text, pending = some (field, text)
  held : ∀ field text, pending = some (field, text) → state.mayHold = some field

structure Ready (data : List UInt8) (frame : Frame) (pending : Pending) : Prop where
  idle : frame.parser.Idle
  within : frame.place ≤ data.length
  holds : Holds data frame.marks frame.place pending
  suits : Suits frame.parser.state pending

def State.begun (state : State) : Pending :=
  state.openField.map fun field => (field, [])

/-- How many iterations may follow. -/
def Frame.left (data : List UInt8) (frame : Frame) : Nat :=
  4 * (data.length - frame.place) + frame.parser.state.rank

/-- What is counted of a header from a frame on. -/
def Frame.count (data : List UInt8) (frame : Frame) : HeaderCount :=
  frame.parser.headerCount (data.drop frame.place)

def Frame.scanned (data : List UInt8) (frame : Frame) : Scanned HttpParser UInt8 Symbol :=
  httpScanner.scan frame.parser.uncounted (data.drop frame.place)

/-- From one frame to another some symbols are read, which make events. -/
structure Reads (data : List UInt8) (frame next : Frame) (pending after : Pending)
    (events : List Event) : Prop where
  leads : ∃ symbols, frame.scanned data = (next.scanned data).put symbols ∧
    absorb pending symbols = (events, after)
  ready : Ready data next after
  descends : next.left data < frame.left data

variable {data : List UInt8} {marks : Marks} {place : Nat} {pending : Pending} {state next : State}
  {field : Field}

/-! ## Marks and letters -/

theorem openField_of_mayHold_none (closed : state.mayHold = none) : state.openField = none := by
  cases state <;> first | rfl | cases closed

theorem Suits.none_of_closed (suits : Suits state pending) (closed : state.mayHold = none) :
    pending = none := by
  cases pending with
  | none => rfl
  | some part =>
      have held := suits.held part.1 part.2 rfl
      rw [closed] at held
      cases held

theorem suits_none (closed : state.openField = none) : Suits state none := by
  refine ⟨fun field opened => ?_, nofun⟩
  rw [closed] at opened
  cases opened

theorem suits_some {text : List UInt8} (held : state.mayHold = some field) :
    Suits state (some (field, text)) := by
  refine ⟨fun other opened => ?_, ?_⟩
  · have := mayHold_of_openField opened
    rw [held] at this
    cases this
    exact ⟨text, rfl⟩
  · intro other more same
    cases same
    exact held

/-- Bytes of a field are read, whether its mark was set or not. -/
theorem holds_more (holds : Holds data marks place pending)
    (same : ∀ other text, pending = some (other, text) → other = field)
    {letters rest : List UInt8} (here : data.drop place = letters ++ rest) :
    Holds data (marks.set field place) (place + letters.length) (pending.more field letters) := by
  cases pending with
  | none =>
      obtain rfl : marks = fun _ => none := holds
      refine ⟨place, Nat.le_add_right place _, rfl, ?_⟩
      rw [here, Nat.add_sub_cancel_left, List.take_left]
  | some part =>
      obtain ⟨other, text⟩ := part
      obtain rfl := same other text rfl
      obtain ⟨mark, before, rfl, textIs⟩ := holds
      refine ⟨mark, Nat.le_trans before (Nat.le_add_right place _), ?_, ?_⟩
      · funext which
        simp only [Marks.set, if_true]
        split_ifs <;> rfl
      · rw [textIs, show place + letters.length - mark = (place - mark) + letters.length by omega,
          List.take_add, List.drop_drop, Nat.add_sub_cancel' before, here, List.take_left]

theorem set_eq_self (holds : Holds data marks place pending)
    (opened : ∃ text, pending = some (field, text)) (other : Nat) :
    marks.set field other = marks := by
  obtain ⟨text, rfl⟩ := opened
  obtain ⟨mark, -, rfl, -⟩ := holds
  funext which
  simp only [Marks.set, if_true]
  split_ifs <;> rfl

/-! ## Callbacks -/

def Call.Inside (data : List UInt8) : Call → Prop
  | .notice _ => True
  | .data _ start length => start + length ≤ data.length

theorem dataCall_eq (parser : HttpParser) (holds : Holds data marks place pending)
    (same : ∀ other text, pending = some (other, text) → other = field)
    (within : place ≤ data.length) (start : Nat) (returned : Int) (next : Nat) (follow : After) :
    ∃ due : Option Call,
      dataCall ⟨parser, marks, start⟩ field place returned next follow =
          .call due returned ⟨parser, fun _ => none, next⟩ follow ∧
        (due.map (Call.event data)).toList = pending.event ∧
        ∀ call ∈ due, call.Inside data := by
  unfold dataCall
  dsimp only
  cases pending with
  | none =>
      obtain rfl : marks = fun _ => none := holds
      have cleared : Marks.clear (fun _ => none) field = fun _ => none := by
        funext which
        simp [Marks.clear]
      exact ⟨none, by rw [cleared]; rfl, rfl, nofun⟩
  | some part =>
      obtain ⟨other, text⟩ := part
      obtain rfl := same other text rfl
      obtain ⟨mark, before, rfl, rfl⟩ := holds
      have cleared : (Marks.clear (fun which => if which = other then some mark else none) other) =
          fun _ => none := by
        funext which
        simp [Marks.clear]
      refine ⟨some (.data other mark (place - mark)), by simp [cleared], rfl, ?_⟩
      rintro call ⟨⟩
      show mark + (place - mark) ≤ data.length
      omega

/-! ## Actions -/

/-- What a byte that is read does to the marks, its symbols do to what is pending. -/
theorem perform_read (frame : Frame) {ch : UInt8} {rest : List UInt8}
    (here : data.drop frame.place = ch :: rest) (within : frame.place ≤ data.length)
    (holds : Holds data frame.marks frame.place pending) (suits : Suits state pending)
    (single : state.single = true) {action : Action}
    (reads : action.Reads state frame.parser.state) (returned : Int) (follow : After) :
    (∃ marks after,
      perform frame action returned (frame.place + 1) follow =
          .next ⟨frame.parser, marks, frame.place + 1⟩ ∧
        absorb pending (action.symbols state ch) = ([], after) ∧
        Holds data marks (frame.place + 1) after ∧ Suits frame.parser.state after) ∨
    ∃ due : Option Call,
      perform frame action returned (frame.place + 1) follow =
          .call due returned ⟨frame.parser, fun _ => none, frame.place + 1⟩ follow ∧
        absorb pending (action.symbols state ch) =
          ((due.map (Call.event data)).toList, none) ∧
        (∀ call ∈ due, call.Inside data) ∧ frame.parser.state.mayHold = none := by
  obtain ⟨parser, marks, place⟩ := frame
  dsimp only at here within holds reads ⊢
  have onward : data.drop place = [ch] ++ rest := here
  cases action with
  | quiet =>
      obtain ⟨alike, notData⟩ := reads
      left
      cases opened : state.openField with
      | some field =>
          have held := suits.opened field opened
          have same : ∀ other text, pending = some (other, text) → other = field := by
            obtain ⟨text, rfl⟩ := held
            rintro other more ⟨⟩
            rfl
          refine ⟨marks, pending.more field [ch], rfl, ?_, ?_, ?_⟩
          · simp only [Action.symbols, opened]
            exact absorb_more same (List.cons_ne_nil ch [])
          · rw [← set_eq_self holds held place]
            exact holds_more holds same onward
          · obtain ⟨text, rfl⟩ := held
            exact suits_some (mayHold_of_openField (alike.trans opened))
      | none =>
          have closed : state.mayHold = none := by
            cases state <;>
              first | rfl | exact absurd rfl notData | (cases opened; done) | cases single
          obtain rfl := suits.none_of_closed closed
          obtain rfl : marks = fun _ => none := holds
          refine ⟨_, none, rfl, ?_, rfl, suits_none (alike.trans opened)⟩
          simp only [Action.symbols, opened]
          rfl
  | mark field =>
      obtain ⟨closed, opened⟩ := reads
      obtain rfl := suits.none_of_closed closed
      exact Or.inl ⟨_, _, rfl, absorb_more nofun (List.cons_ne_nil ch []),
        holds_more holds nofun onward, suits_some (mayHold_of_openField opened)⟩
  | notify notice =>
      obtain ⟨closed, unopened⟩ := reads
      obtain rfl := suits.none_of_closed closed
      obtain rfl : marks = fun _ => none := holds
      exact Or.inr ⟨some (.notice notice), rfl, rfl, by rintro call ⟨⟩; trivial, unopened⟩
  | flush field =>
      obtain ⟨held, unopened⟩ := reads
      have same : ∀ other text, pending = some (other, text) → other = field := by
        intro other text rfl
        have := suits.held other text rfl
        rw [held] at this
        exact (Option.some.inj this).symm
      obtain ⟨due, called, event, insides⟩ :=
        dataCall_eq parser holds same within place returned (place + 1) follow
      refine Or.inr ⟨due, called, ?_, insides, unopened⟩
      rw [event]
      simp [Action.symbols, absorb, absorbOne]
  | markFlush field => exact absurd reads id

theorem perform_again (frame : Frame) (within : frame.place ≤ data.length)
    (holds : Holds data frame.marks frame.place pending) (suits : Suits state pending)
    {action : Action} (rereads : action.Rereads state frame.parser.state) (returned : Int)
    (next : Nat) (follow : After) :
    pending = none ∧ frame.parser.state.mayHold = none ∧
    ((action = .quiet ∧ perform frame action returned next follow =
          .next ⟨frame.parser, fun _ => none, next⟩ ∧
        absorb (none : Pending) action.againSymbols = ([], none)) ∨
    ∃ due : Option Call,
      perform frame action returned next follow =
          .call due returned ⟨frame.parser, fun _ => none, next⟩ follow ∧
        absorb (none : Pending) action.againSymbols =
          ((due.map (Call.event data)).toList, none) ∧
        ∀ call ∈ due, call.Inside data) := by
  obtain ⟨parser, marks, place⟩ := frame
  dsimp only at within holds rereads ⊢
  cases action with
  | quiet =>
      obtain rfl := suits.none_of_closed rereads.1
      obtain rfl : marks = fun _ => none := holds
      exact ⟨rfl, rereads.2, Or.inl ⟨rfl, rfl, rfl⟩⟩
  | mark field => exact absurd rereads id
  | notify notice =>
      obtain rfl := suits.none_of_closed rereads.1
      obtain rfl : marks = fun _ => none := holds
      exact ⟨rfl, rereads.2,
        Or.inr ⟨some (.notice notice), rfl, rfl, by rintro call ⟨⟩; trivial⟩⟩
  | flush field => exact absurd rereads id
  | markFlush field =>
      obtain rfl := suits.none_of_closed rereads.1
      have opened : Holds data (marks.set field place) place (some (field, [])) := by
        obtain rfl : marks = fun _ => none := holds
        exact ⟨place, Nat.le_refl place, rfl, by simp⟩
      have same : ∀ other text, (some (field, []) : Pending) = some (other, text) →
          other = field := by
        rintro other text ⟨⟩
        rfl
      obtain ⟨due, called, event, insides⟩ :=
        dataCall_eq parser opened same within place returned next follow
      refine ⟨rfl, rereads.2, Or.inr ⟨due, called, ?_, insides⟩⟩
      rw [event]
      rfl

end UAFlow.Http
