import UAFlow.Http.Runs

/-!
# Safety

Whatever a connection brings, in whatever pieces, and whatever the callbacks do: no
assertion of the parser fails, no literal is read behind its end, the loop ends, and
the callbacks are given nothing but pieces of the data.
-/

namespace UAFlow.Http

open Library

/-- A parser some calls have left, with any callbacks and data; it may have been paused
in between. -/
inductive Reachable : HttpParser → Prop
  | init (t : HttpParserType) : Reachable (httpParserInit t)
  | execute {User : Type} (settings : HttpParserSettings User) {parser next : HttpParser}
      {data : List UInt8} {user user' : User} {returned : Int} (reached : Reachable parser)
      (short : data.length + httpMaxHeaderSize < 4294967296)
      (runs : httpParserExecute settings parser data user = .ok ⟨next, returned, user'⟩) :
      Reachable next
  | pause {parser : HttpParser} (paused : Bool) (reached : Reachable parser) :
      Reachable (httpParserPause parser paused)

/-- A parser that can go on, at once or when it is no longer paused. -/
def HttpParser.Resting (parser : HttpParser) : Prop :=
  parser.httpErrno = .ok ∨ parser.httpErrno = .paused →
    ({ parser with httpErrno := .ok } : HttpParser).Idle

variable {User : Type} {settings : HttpParserSettings User} {data : List UInt8}
  {parser : HttpParser}

theorem init_idle (t : HttpParserType) : (httpParserInit t).Idle := by
  refine ⟨⟨rfl, ?_⟩, ?_, Nat.zero_le _⟩
  · cases t <;> trivial
  · intro start
    rfl

theorem HttpParser.Resting.idle (resting : parser.Resting) (errno : parser.httpErrno = .ok) :
    parser.Idle := by
  have idle := resting (Or.inl errno)
  rwa [← errno] at idle

theorem HttpParser.Idle.resting (idle : parser.Idle) : parser.Resting := by
  intro
  have errno := idle.sound.errno
  rw [← errno]
  exact idle

theorem resting_of_errno {next : HttpParser} {errno : HttpErrno}
    (idle : parser.Idle) (same : next = { parser with httpErrno := errno }) : next.Resting := by
  intro
  have ok := idle.sound.errno
  rw [same, ← ok]
  exact idle

theorem pause_resting (resting : parser.Resting) (paused : Bool) :
    (httpParserPause parser paused).Resting := by
  unfold httpParserPause
  split_ifs with goes still
  · exact fun _ => resting goes
  · exact fun _ => resting goes
  · exact resting

theorem executeEof_cases (settings : HttpParserSettings User) (idle : parser.Idle) (user : User) :
    ∃ next returned user' events,
      executeEof settings parser user = ⟨next, returned, user'⟩ ∧ next.Resting ∧ 0 ≤ returned ∧
        returned ≤ 1 ∧ Made settings [] user events user' := by
  have zero : (0 : Int) ≤ 0 ∧ (0 : Int) ≤ 1 := by decide
  unfold executeEof
  split
  next =>
    have made : Made settings [] user [Call.event [] (.notice .messageComplete)] _ :=
      .cons trivial idle.sound (.nil _)
    refine ⟨_, _, _, _, rfl, ?_, zero.1, zero.2, made⟩
    change (invoke settings (.notice .messageComplete) parser user).1.Resting
    rcases @invoke_cases _ settings (.notice .messageComplete) parser idle.sound.errno user with
      same | ⟨errno, -, same⟩
    · rw [same]
      exact idle.resting
    · exact resting_of_errno idle same
  next => exact ⟨parser, 0, user, [], rfl, idle.resting, zero.1, zero.2, .nil user⟩
  next => exact ⟨parser, 0, user, [], rfl, idle.resting, zero.1, zero.2, .nil user⟩
  next => exact ⟨parser, 0, user, [], rfl, idle.resting, zero.1, zero.2, .nil user⟩
  next => exact ⟨parser, 0, user, [], rfl, idle.resting, zero.1, zero.2, .nil user⟩
  next => exact ⟨_, 1, user, [], rfl, resting_of_errno idle rfl, by decide, by decide, .nil user⟩

theorem Ends.resting {refuses : HttpErrno → Prop} {scanned : Scanned HttpParser UInt8 Symbol}
    {pending : Pending} {left : Nat} {count : HeaderCount} {returned : Int} {events : List Event}
    (ends : Ends data refuses scanned pending left count parser returned events) :
    parser.Resting ∧ 0 ≤ returned ∧ returned ≤ data.length := by
  have stuck : ∀ {errno : HttpErrno}, parser.httpErrno = errno → errno ≠ .ok → errno ≠ .paused →
      parser.Resting := by
    rintro errno rfl notOk notPaused (ok | paused)
    · exact absurd ok notOk
    · exact absurd paused notPaused
  cases ends with
  | reached ending idle suits light => exact ⟨idle.resting, by omega, Int.le_refl _⟩
  | left ending within idle upgrades => exact ⟨idle.resting, by omega, by omega⟩
  | failed ending within rejects =>
      refine ⟨stuck rfl ?_ ?_, by omega, by omega⟩ <;> intro same <;> rw [same] at rejects <;>
        cases rejects
  | overflow whole within errno large =>
      exact ⟨stuck errno (by decide) (by decide), by omega, by omega⟩
  | refused whole ending within idle closed fewer light refused =>
      exact ⟨resting_of_errno idle rfl, by omega, by omega⟩
  | refusedLeaving ending within idle upgrades refused =>
      exact ⟨resting_of_errno idle rfl, by omega, by omega⟩

theorem httpParserExecute_cases (settings : HttpParserSettings User) (resting : parser.Resting)
    (short : data.length + httpMaxHeaderSize < 4294967296) (user : User) :
    ∃ next returned user' events,
      httpParserExecute settings parser data user = .ok ⟨next, returned, user'⟩ ∧ next.Resting ∧
        0 ≤ returned ∧ returned ≤ max 1 data.length ∧ Made settings data user events user' := by
  by_cases errno : parser.httpErrno = .ok
  · have idle := resting.idle errno
    by_cases empty : data = []
    · subst empty
      obtain ⟨next, returned, user', events, runs, rests, low, high, made⟩ :=
        executeEof_cases settings idle user
      refine ⟨next, returned, user', events, ?_, rests, low, high, made⟩
      unfold httpParserExecute
      rw [if_neg fun bad => bad errno, if_pos rfl, runs]
    · obtain ⟨next, returned, user', events, runs, ends, made⟩ :=
        httpParserExecute_ends settings idle empty short user
      obtain ⟨rests, low, high⟩ := ends.resting
      exact ⟨next, returned, user', events, runs, rests, low, by omega, made⟩
  · refine ⟨parser, 0, user, [], ?_, resting, Int.le_refl _, by omega, .nil user⟩
    unfold httpParserExecute
    rw [if_pos errno]

theorem Reachable.resting (reached : Reachable parser) : parser.Resting := by
  induction reached with
  | init t => exact (init_idle t).resting
  | execute settings reached short runs inductionHypothesis =>
      obtain ⟨_, _, _, _, same, rests, -⟩ := httpParserExecute_cases settings inductionHypothesis short _
      rw [runs] at same
      cases same
      exact rests
  | pause paused reached inductionHypothesis => exact pause_resting inductionHypothesis paused

/-- No call goes wrong, after any calls. -/
theorem httpParserExecute_safe (reached : Reachable parser) (settings : HttpParserSettings User)
    (short : data.length + httpMaxHeaderSize < 4294967296) (user : User) :
    ∃ next returned user' events,
      httpParserExecute settings parser data user = .ok ⟨next, returned, user'⟩ ∧ 0 ≤ returned ∧
        returned ≤ max 1 data.length ∧ Made settings data user events user' := by
  obtain ⟨next, returned, user', events, runs, -, low, high, made⟩ :=
    httpParserExecute_cases settings reached.resting short user
  exact ⟨next, returned, user', events, runs, low, high, made⟩

/-- `GET /a HTTP/1.1` with a `Host` and a `User-Agent`. -/
def agentGet : List UInt8 :=
  ascii ['G', 'E', 'T', ' ', '/', 'a', ' ', 'H', 'T', 'T', 'P', '/', '1', '.', '1'] ++ [cr, lf] ++
    (ascii ['H', 'o', 's', 't', ':', ' ', 'b'] ++ [cr, lf] ++
      (ascii ['U', 's', 'e', 'r', '-', 'A', 'g', 'e', 'n', 't', ':', ' ', 'm', 'o', 'z'] ++
        [cr, lf, cr, lf]))

/-- Callbacks that count, and pause the parser at each text. -/
def countingTexts : HttpParserSettings Nat where
  notice _ := some fun _ count => ⟨0, false, count + 1⟩
  data _ := some fun _ _ _ count => ⟨0, true, count + 1⟩

/-- A request, for a parser that was paused in between. -/
theorem httpParserExecute_safe_agentGet :
    ∃ next returned user' events,
      httpParserExecute countingTexts
          (httpParserPause (httpParserPause (httpParserInit .httpRequest) true) false) agentGet 0 =
        .ok ⟨next, returned, user'⟩ ∧
        0 ≤ returned ∧ returned ≤ max 1 agentGet.length ∧
        Made countingTexts agentGet 0 events user' :=
  httpParserExecute_safe (((Reachable.init .httpRequest).pause true).pause false) _ (by decide) 0

end UAFlow.Http
