import UAFlow.Http.Pieces

/-!
# Pauses

A callback may pause the parser, and the caller lets it go on behind what it has read.
What is reported is the same.
-/

namespace UAFlow.Http

open Library

variable {User : Type} {step : User → Event → User} {pauses : User → Event → Bool}
  {data : List UInt8} {parser : HttpParser}

theorem pausing_refuses {errno : HttpErrno} (refused : (pausing step pauses data).Refuses errno) :
    errno = .paused := by
  obtain ⟨refusing, call, parser, user, ok, rfl⟩ := refused
  have responds : ∀ response : Response User, response.value = 0 →
      (respond call parser response).1.httpErrno.refusing = true →
      (respond call parser response).1.httpErrno = .paused := by
    rintro ⟨value, paused, user⟩ rfl refusing
    have kept : ∀ parser, answered call 0 parser = parser := by
      intro parser
      cases call with
      | notice kind => cases kind <;> rfl
      | data field start length => rfl
    unfold respond at refusing ⊢
    dsimp only at refusing ⊢
    rw [kept] at refusing ⊢
    cases paused with
    | false =>
        rw [if_neg Bool.false_ne_true, ok] at refusing
        cases refusing
    | true =>
        rw [if_pos rfl]
        unfold httpParserPause
        rw [if_pos (Or.inl ok)]
        rfl
  cases call with
  | notice kind => exact responds _ rfl refusing
  | data field start length => exact responds _ rfl refusing

/-- A caller that lets a paused parser go on, behind what it has read. -/
def drive (settings : List UInt8 → HttpParserSettings User) :
    Nat → HttpParser → List UInt8 → User → Except Fault (Executed User)
  | 0, _, _, _ => .error .unfinished
  | fuel + 1, parser, data, user =>
      match httpParserExecute (settings data) parser data user with
      | .error fault => .error fault
      | .ok executed =>
          if executed.parser.httpErrno ≠ .paused then
            .ok executed
          else
            let parser := httpParserPause executed.parser false
            match data.drop executed.returned.toNat with
            | [] => .ok { executed with parser := parser }
            | ch :: rest =>
                match drive settings fuel parser (ch :: rest) executed.user with
                | .error fault => .error fault
                | .ok later => .ok { later with returned := executed.returned + later.returned }

/-- What is made with pauses is what the scan of the data says, where nothing upgrades. -/
def DrivesLike (parser : HttpParser) (data : List UInt8) (next : HttpParser) (returned : Int)
    (events : List Event) : Prop :=
  next.uncounted = (httpScanner.scan parser.uncounted data).ending.state ∧
    returned = data.length - (httpScanner.scan parser.uncounted data).ending.rest.length ∧
    events = reported parser.state.begun (httpScanner.scan parser.uncounted data)

theorem unpause_paused (errno : parser.httpErrno = .ok) :
    httpParserPause { parser with httpErrno := .paused } false = parser := by
  unfold httpParserPause
  rw [if_pos (Or.inr rfl)]
  show { parser with httpErrno := HttpErrno.ok } = parser
  rw [← errno]

theorem drive_scan {fuel : Nat} (enough : 4 * data.length + parser.state.rank < fuel)
    (idle : parser.Idle) (notEmpty : data ≠ [])
    (short : data.length + httpMaxHeaderSize < 4294967296)
    (stays : ∀ state rest, (httpScanner.scan parser.uncounted data).ending ≠ .left state rest)
    (user : User) :
    ∃ next returned events,
      drive (pausing step pauses) fuel parser data user =
          .ok ⟨next, returned, events.foldl step user⟩ ∧
        (Overflows parser data 0 next ∨ DrivesLike parser data next returned events) := by
  induction fuel generalizing parser data user with
  | zero => exact absurd enough (Nat.not_lt_zero _)
  | succ fuel inductionHypothesis =>
      obtain ⟨next, returned, last, events, runs, ends, made⟩ :=
        httpParserExecute_ends (pausing step pauses data) idle notEmpty short user
      obtain rfl := made.pausing
      have shorter : ∀ place ≤ data.length,
          (place : Int) = data.length - (data.drop place).length := by
        intro place within
        rw [List.length_drop]
        omega
      have settled : next.httpErrno ≠ .paused →
          drive (pausing step pauses) (fuel + 1) parser data user =
            .ok ⟨next, returned, events.foldl step user⟩ := by
        intro goes
        rw [drive, runs]
        exact if_pos goes
      unfold DrivesLike
      cases ends with
      | reached ending idle suits light =>
          refine ⟨next, _, _, settled (by rw [idle.sound.errno]; decide), Or.inr ⟨?_, ?_, rfl⟩⟩
          · rw [ending]
            rfl
          · rw [ending]
            simp [Ending.rest]
      | left ending within idle upgrades => exact absurd ending (stays _ _)
      | failed ending within rejects =>
          refine ⟨next, _, _, settled ?_, Or.inr ⟨?_, ?_, rfl⟩⟩
          · intro paused
            rw [paused] at rejects
            cases rejects
          · rw [ending]
            rfl
          · rw [ending, Ending.rest, ← shorter _ within]
      | overflow whole within errno large =>
          exact ⟨next, _, _, settled (by rw [errno]; decide), Or.inl ⟨errno, large⟩⟩
      | @refused later errno place _ whole ending within idleLater closed fewer light refused =>
          obtain rfl := pausing_refuses refused
          rw [drive, runs]
          dsimp only
          rw [if_neg fun goes => goes rfl, unpause_paused idleLater.sound.errno, Int.toNat_natCast]
          cases left : data.drop place with
          | nil =>
              rw [left, Scanner.scan_nil] at whole ending
              refine ⟨later, _, _, rfl, Or.inr ⟨?_, ?_, ?_⟩⟩
              · rw [← ending]
                rfl
              · rw [← ending, shorter place within, left]
                rfl
              · rw [whole]
                exact (List.append_nil events).symm
          | cons ch rest =>
              have before : place < data.length := by
                have := congrArg List.length left
                rw [List.length_drop, List.length_cons] at this
                omega
              have length : (ch :: rest).length = data.length - place := by
                rw [← left, List.length_drop]
              have noField := closed.resolve_right (Nat.ne_of_lt before)
              have begun : later.state.begun = none := by
                unfold State.begun
                rw [noField]
                rfl
              rw [left] at whole ending
              have lower := fewer.resolve_left (Nat.ne_of_lt before)
              obtain ⟨next, returned, more, runs', outcome⟩ :=
                inductionHypothesis (by omega) idleLater (List.cons_ne_nil ch rest) (by omega)
                  (by rw [ending]; exact stays) (events.foldl step user)
              dsimp only
              rw [runs']
              refine ⟨next, _, events ++ more, by rw [List.foldl_append], ?_⟩
              rcases outcome with ⟨beyond, large⟩ | ⟨uncounted, returned', same⟩
              · rw [left] at light
                exact Or.inl ⟨beyond, Nat.lt_of_lt_of_le large light.most⟩
              · refine Or.inr ⟨?_, ?_, ?_⟩
                · rw [uncounted, ending]
                · dsimp only
                  rw [returned', ending]
                  omega
                · rw [whole, same, begun]
      | refusedLeaving ending within idle upgrades refused => exact absurd ending (stays _ _)

/-- Pauses change nothing of what is read and reported, where the connection does not
upgrade and but for the size of the header. -/
theorem drive_pauses {whole : Executed User} (idle : parser.Idle) (notEmpty : data ≠ [])
    (short : data.length + httpMaxHeaderSize < 4294967296) {user : User}
    (runs : httpParserExecute (heed step data) parser data user = .ok whole)
    (fits : whole.parser.httpErrno ≠ .headerOverflow)
    (stays : whole.parser.httpErrno = .ok → whole.parser.upgrade = false) :
    ∃ paused,
      drive (pausing step pauses) (4 * data.length + 4) parser data user = .ok paused ∧
        (Overflows parser data 0 paused.parser ∨
          (paused.parser.uncounted = whole.parser.uncounted ∧ paused.returned = whole.returned ∧
            paused.user = whole.user)) := by
  have low : parser.state.rank ≤ 3 := by cases parser.state <;> decide
  obtain ⟨next, returned, events, runs', ⟨errno, -⟩ | ⟨⟨uncounted, left⟩, rfl, rfl⟩⟩ :=
    httpParserExecute_heed step idle notEmpty short user
  · rw [runs'] at runs
    cases runs
    exact absurd errno fits
  · rw [runs'] at runs
    cases runs
    have goes : ∀ state rest,
        (httpScanner.scan parser.uncounted data).ending ≠ .left state rest := by
      intro state rest leaves
      rw [leaves] at left
      exact absurd ((stays left.1).symm.trans left.2) nofun
    obtain ⟨next', returned', events', runs', outcome⟩ :=
      @drive_scan _ step pauses _ _ _ (Nat.lt_of_le_of_lt (Nat.add_le_add_left low _)
        (Nat.lt_succ_self _)) idle notEmpty short goes user
    refine ⟨_, runs', ?_⟩
    rcases outcome with beyond | ⟨uncounted', rfl, rfl⟩
    · exact Or.inl beyond
    · exact Or.inr ⟨uncounted'.trans uncounted.symm, rfl, rfl⟩


/-- A request whose every callback pauses the parser. -/
theorem drive_pauses_agentGet :
    ∃ whole paused,
      httpParserExecute (heed tally agentGet) (httpParserInit .httpRequest) agentGet 0 = .ok whole ∧
        drive (pausing tally fun _ _ => true) (4 * agentGet.length + 4)
            (httpParserInit .httpRequest) agentGet 0 = .ok paused ∧
        (Overflows (httpParserInit .httpRequest) agentGet 0 paused.parser ∨
          (paused.parser.uncounted = whole.parser.uncounted ∧ paused.returned = whole.returned ∧
            paused.user = whole.user)) := by
  obtain ⟨whole, runs, errno, plain⟩ : ∃ whole,
      httpParserExecute (heed tally agentGet) (httpParserInit .httpRequest) agentGet 0 = .ok whole ∧
        whole.parser.httpErrno = .ok ∧ whole.parser.upgrade = false :=
    ⟨_, rfl, by decide, by decide⟩
  obtain ⟨paused, drives, same⟩ :=
    @drive_pauses _ tally (fun _ _ => true) agentGet (httpParserInit .httpRequest) whole
      (init_idle .httpRequest) (by decide) (by decide) 0 runs (by rw [errno]; decide)
      (fun _ => plain)
  exact ⟨whole, paused, runs, drives, same⟩

end UAFlow.Http
