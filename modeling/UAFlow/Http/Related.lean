import UAFlow.Http.Runs

/-!
# Related callbacks

The parser knows nothing of its callbacks but what they return.  Callbacks that return
the same make it do the same, whatever they keep for themselves.
-/

namespace UAFlow.Http

variable {User Other : Type} {related : User → Other → Prop}
  {settings : HttpParserSettings User} {others : HttpParserSettings Other}

/-- Callbacks that return the same where what they know is related, and keep it related. -/
def Alike (settings : HttpParserSettings User) (others : HttpParserSettings Other)
    (related : User → Other → Prop) : Prop :=
  ∀ call parser {user other}, related user other →
    (invoke settings call parser user).1 = (invoke others call parser other).1 ∧
      related (invoke settings call parser user).2 (invoke others call parser other).2

/-- Two calls that came to the same, but for what their callbacks know. -/
inductive SameExecuted (related : User → Other → Prop) :
    Except Fault (Executed User) → Except Fault (Executed Other) → Prop
  | error (fault : Fault) : SameExecuted related (.error fault) (.error fault)
  | ok (parser : HttpParser) (returned : Int) {user : User} {other : Other}
      (knows : related user other) :
      SameExecuted related (.ok ⟨parser, returned, user⟩) (.ok ⟨parser, returned, other⟩)

theorem Alike.invokeDue (alike : Alike settings others related) (due : Option Call)
    (parser : HttpParser) {user : User} {other : Other} (knows : related user other) :
    (invokeDue settings due parser user).1 = (invokeDue others due parser other).1 ∧
      related (invokeDue settings due parser user).2 (invokeDue others due parser other).2 := by
  cases due with
  | none => exact ⟨rfl, knows⟩
  | some call => exact alike call parser knows

theorem Alike.flushMarks (alike : Alike settings others related) (length : Nat) (marks : Marks)
    (fields : List Field) (parser : HttpParser) {user : User} {other : Other}
    (knows : related user other) :
    SameExecuted related (.ok (flushMarks settings length marks fields parser user))
      (.ok (flushMarks others length marks fields parser other)) := by
  induction fields generalizing parser user other with
  | nil => exact .ok parser length knows
  | cons field fields inductionHypothesis =>
      rw [Http.flushMarks, Http.flushMarks]
      cases marks field with
      | none => exact inductionHypothesis parser knows
      | some mark =>
          obtain ⟨same, knows'⟩ := alike (.data field mark (length - mark)) parser knows
          dsimp only
          rw [same]
          split_ifs with refused
          · exact .ok _ length knows'
          · exact inductionHypothesis _ knows'

theorem Alike.executeLoop (alike : Alike settings others related) (data : List UInt8) (fuel : Nat)
    (frame : Frame) {user : User} {other : Other} (knows : related user other) :
    SameExecuted related (executeLoop settings data fuel frame user)
      (executeLoop others data fuel frame other) := by
  induction fuel generalizing frame user other with
  | zero => exact .error .unfinished
  | succ fuel inductionHypothesis =>
      rw [Http.executeLoop, Http.executeLoop]
      cases data.drop frame.place with
      | nil =>
          dsimp only
          unfold finish
          split_ifs with bad
          · exact .error .assertion
          · exact alike.flushMarks data.length frame.marks fieldOrder frame.parser knows
      | cons ch rest =>
          dsimp only
          cases iteration frame ch rest with
          | fault fault => exact .error fault
          | stop parser returned => exact .ok parser returned knows
          | next frame => exact inductionHypothesis frame knows
          | call due returned frame after =>
              obtain ⟨same, knows'⟩ := alike.invokeDue due frame.parser knows
              dsimp only
              rw [same]
              split_ifs with bad refused
              · exact .error .assertion
              · exact .ok _ returned knows'
              · cases after with
                | resume => exact inductionHypothesis _ knows'
                | leave returned => exact .ok _ returned knows'
                | count amount returned =>
                    dsimp only
                    split_ifs with beyond
                    · exact .ok _ returned knows'
                    · exact inductionHypothesis _ knows'

theorem Alike.executeEof (alike : Alike settings others related) (parser : HttpParser) {user : User}
    {other : Other} (knows : related user other) :
    SameExecuted related (.ok (executeEof settings parser user))
      (.ok (executeEof others parser other)) := by
  obtain ⟨same, knows'⟩ := alike (.notice .messageComplete) parser knows
  unfold Http.executeEof
  cases parser.state
  case sBodyIdentityEof =>
    dsimp only
    rw [same]
    exact .ok _ 0 knows'
  all_goals
    first
    | exact .ok parser 0 knows
    | exact .ok _ 1 knows

theorem httpParserExecute_alike (alike : Alike settings others related) (parser : HttpParser)
    (data : List UInt8) {user : User} {other : Other} (knows : related user other) :
    SameExecuted related (httpParserExecute settings parser data user)
      (httpParserExecute others parser data other) := by
  unfold httpParserExecute
  split_ifs with bad empty
  · exact .ok parser 0 knows
  · exact alike.executeEof parser knows
  · exact alike.executeLoop data (enough data.length) ⟨parser, startMarks parser.state, 0⟩ knows

/-! ## Asking for no body -/

/-- The callbacks without the answer of `on_headers_complete` that asks for no body. -/
def HttpParserSettings.withBody (settings : HttpParserSettings User) : HttpParserSettings User where
  notice kind := (settings.notice kind).map fun callback parser user =>
    let response := callback parser user
    if kind = .headersComplete ∧ response.value = 1 then { response with value := 0 } else response
  data := settings.data

theorem withBody_alike (settings : HttpParserSettings User) :
    Alike settings.withBody settings (· = ·) := by
  rintro call parser user _ rfl
  have same : invoke settings.withBody call parser user = invoke settings call parser user := by
    cases call with
    | data field start length => rfl
    | notice kind =>
        dsimp only [invoke, HttpParserSettings.withBody]
        cases settings.notice kind with
        | none => rfl
        | some callback =>
            dsimp only [Option.map_some]
            split_ifs with asks
            · obtain ⟨rfl, one⟩ := asks
              simp [respond, answered, one, setFlag_skipbody]
            · rfl
  rw [same]
  exact ⟨rfl, rfl⟩

/-- `on_headers_complete` may ask for a message without a body, but the flag for it is lost:
asking makes no difference. -/
theorem httpParserExecute_withBody (settings : HttpParserSettings User) (parser : HttpParser)
    (data : List UInt8) (user : User) :
    httpParserExecute settings.withBody parser data user =
      httpParserExecute settings parser data user := by
  generalize whole : httpParserExecute settings parser data user = right
  have same := httpParserExecute_alike (withBody_alike settings) parser data
    (rfl : user = user)
  rw [whole] at same
  generalize httpParserExecute settings.withBody parser data user = left at same
  cases same with
  | error fault => rfl
  | ok parser returned knows => rw [knows]

/-! ## Recorded calls -/

def plainly (step : User → Call → User) : HttpParserSettings User where
  notice kind := some fun _ user => ⟨0, false, step user (.notice kind)⟩
  data field := some fun _ start length user => ⟨0, false, step user (.data field start length)⟩

@[simp]
theorem invoke_plainly (step : User → Call → User) (call : Call) (parser : HttpParser)
    (user : User) : invoke (plainly step) call parser user = (parser, step user call) := by
  cases call with
  | notice kind => cases kind <;> rfl
  | data field start length => rfl

def recording : HttpParserSettings (List Call) := plainly fun calls call => calls ++ [call]

/-- What callbacks come to that return 0 can be read off the calls written down. -/
theorem httpParserExecute_recording (step : User → Call → User) {parser next : HttpParser}
    {data : List UInt8} {returned : Int} {calls : List Call} (user : User)
    (runs : httpParserExecute recording parser data [] = .ok ⟨next, returned, calls⟩) :
    httpParserExecute (plainly step) parser data user =
      .ok ⟨next, returned, calls.foldl step user⟩ := by
  have alike : Alike recording (plainly step) fun calls last => last = calls.foldl step user := by
    rintro call parser calls last rfl
    rw [recording, invoke_plainly, invoke_plainly]
    refine ⟨rfl, ?_⟩
    dsimp only
    rw [List.foldl_append]
    rfl
  have same := httpParserExecute_alike alike parser data
    (show user = ([] : List Call).foldl step user from rfl)
  rw [runs] at same
  generalize httpParserExecute (plainly step) parser data user = left at same
  cases same with
  | ok parser returned knows => rw [knows]

theorem Made.recorded {data : List UInt8} {calls last : List Call} {events : List Event}
    (made : Made recording data calls events last) :
    ∃ more, last = calls ++ more ∧ events = more.map (Call.event data) ∧
      ∀ call ∈ more, call.Inside data := by
  induction made with
  | nil calls => exact ⟨[], by simp⟩
  | @cons call parser calls last events inside sound rest inductionHypothesis =>
      obtain ⟨more, rfl, rfl, insides⟩ := inductionHypothesis
      refine ⟨call :: more, ?_, rfl, ?_⟩
      · rw [recording, invoke_plainly, List.append_assoc, List.singleton_append]
      · exact List.forall_mem_cons.mpr ⟨inside, insides⟩

end UAFlow.Http
