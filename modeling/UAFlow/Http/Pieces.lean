import UAFlow.Http.Safety

/-!
# A connection in pieces

The bytes of a connection come in pieces, and callbacks may pause the parser.  Neither
changes what is reported, but for the number of pieces a text comes in.
-/

namespace UAFlow.Http

open Library

variable {parser next : HttpParser} {ch : UInt8} {symbols : List Symbol}

/-! ## What a reaction keeps -/

/-- Behind the headers of a message that upgrades the parser leaves. -/
theorem charStep_upgrade {action : Action} (reads : charStep parser ch = .read next action) :
    next.upgrade = parser.upgrade ∧ (parser.state = .sHeadersDone → parser.upgrade = false) := by
  unfold charStep at reads
  cases here : parser.state <;> rw [here] at reads <;> dsimp only at reads
  case sHeadersDone =>
    unfold headersDone at reads
    dsimp only at reads
    split_ifs at reads with line upgrades <;> cases reads <;>
      exact ⟨rfl, fun _ => Bool.eq_false_iff.mpr upgrades⟩
  all_goals refine ⟨?_, nofun⟩
  case sStartReq =>
    unfold startReq at reads
    cases known : methodOf ch <;> simp only [known] at reads <;> split_ifs at reads <;>
      cases reads <;> rfl
  case sReqMethod =>
    unfold reqMethod at reads
    generalize otherMethod parser.method parser.index.toNat ch = other at reads
    split at reads
    · cases reads
    · split at reads
      · cases reads
      · cases other <;> dsimp only at reads <;> split_ifs at reads <;> cases reads <;> rfl
  case sHeaderValueStart | sHeaderValueDiscardWs =>
    simp only [headerValueStart] at reads
    generalize parser.headerState = hState at reads
    cases hState <;> dsimp only at reads <;> (try split_ifs at reads) <;> cases reads <;> rfl
  all_goals
    try simp only [expect, goTo, failWith, firstMajor, firstMinor, moreMajor, moreMinor, startRes,
      resStatusCode, reqSpacesBeforeUrl, reqSchema, reqUrl, headerFieldStart, headerValueLws,
      headerValueDiscardLws, headersAlmostDone, chunkSizeStart, chunkSize,
      chunkSizeAlmostDone] at reads
    first
      | cases reads
        rfl
      | split_ifs at reads <;> cases reads <;> rfl
      | cases reads

def Keeps (parser : HttpParser) : Reaction HttpParser Symbol → Prop
  | .read next _ => next.Sound ∧ next.upgrade = parser.upgrade ∧
      (parser.state = .sHeadersDone → parser.upgrade = false)
  | .again next _ => next.Sound ∧ (next.upgrade = parser.upgrade ∨ next.state = .sHeadersDone)
  | _ => True

theorem keeps_free {next : HttpParser} {symbols : List Symbol} (errno : next.httpErrno = .ok)
    (free : next.state.free = true) (upgrade : next.upgrade = parser.upgrade)
    (notDone : parser.state ≠ .sHeadersDone) : Keeps parser (.read next symbols) :=
  ⟨⟨errno, fits_of_free free⟩, upgrade, fun done => absurd done notDone⟩

theorem bodyByte_keeps (sound : parser.Sound)
    (state : parser.state = .sBodyIdentity ∨ parser.state = .sChunkData)
    (more : parser.bodyByte.contentLength ≠ 0) : parser.bodyByte.Sound := by
  have positive := (body_bounds sound state).1
  have part : 1 < parser.contentLength.toNat := by
    rcases Nat.lt_or_ge 1 parser.contentLength.toNat with part | whole
    · exact part
    · have one : parser.contentLength.toNat = 1 := Nat.le_antisymm whole positive
      exact absurd (bodyBytes_all one) more
  exact (bodyBytes_sound sound state part).1

theorem react_keeps (sound : parser.Sound) (ch : UInt8) : Keeps parser (react parser ch) := by
  by_cases single : parser.state.single = true
  · have behaves := charStep_behaves sound single ch
    rw [react_single single]
    cases verdict : charStep parser ch with
    | read next action =>
        rw [verdict] at behaves
        exact ⟨behaves.1.sound, charStep_upgrade verdict⟩
    | again next action =>
        rw [verdict] at behaves
        exact ⟨behaves.1.sound, (charStep_again verdict).2⟩
    | leave next action => trivial
    | fail next => trivial
    | fault kind => trivial
  · have notDone : parser.state ≠ .sHeadersDone := by
      intro done
      rw [done] at single
      exact single rfl
    have fits := sound.fits
    unfold HttpParser.Fits at fits
    unfold react
    cases here : parser.state <;> rw [here] at single fits <;> dsimp only
    case sHeaderField =>
      obtain ⟨index, headerState, named, same⟩ := fieldChar_eq fits ch (token ch)
      rw [show fieldChar parser ch (token ch) = _ from same parser.nread]
      split_ifs
      · exact keeps_free sound.errno rfl rfl notDone
      · trivial
      · refine ⟨⟨sound.errno, ?_⟩, rfl, fun done => absurd done notDone⟩
        unfold HttpParser.Fits
        simp only [here]
        exact named
    case sHeaderValue =>
      split_ifs
      · exact keeps_free sound.errno rfl rfl notDone
      · exact ⟨⟨sound.errno, trivial⟩, Or.inl rfl⟩
      · rcases @valueChar_eq parser parser.headerState fits ch with
          bad | ⟨flags, index, contentLength, headerState, valued, good⟩
        · rw [show valueChar parser parser.headerState ch = _ from bad parser.nread parser.headerState]
          trivial
        · rw [show valueChar parser parser.headerState ch = _ from
            good parser.nread parser.headerState]
          refine ⟨⟨sound.errno, ?_⟩, rfl, fun done => absurd done notDone⟩
          unfold HttpParser.Fits
          simp only [here]
          exact valued
    case sBodyIdentity =>
      split_ifs with last
      · exact ⟨⟨sound.errno, trivial⟩, Or.inl rfl⟩
      · exact ⟨bodyByte_keeps sound (Or.inl here) last, rfl, fun done => absurd done notDone⟩
    case sChunkData =>
      split_ifs with last
      · exact ⟨⟨sound.errno, fits.1, last⟩, rfl, fun done => absurd done notDone⟩
      · exact ⟨bodyByte_keeps sound (Or.inr here) last, rfl, fun done => absurd done notDone⟩
    case sBodyIdentityEof => exact ⟨sound, rfl, fun done => absurd done notDone⟩
    all_goals exact absurd rfl single

theorem scan_upgrade {text : List UInt8} (sound : parser.Sound)
    (ahead : parser.upgrade = true → parser.state = .sHeadersDone ∧ text ≠ [])
    (reached : (httpScanner.scan parser text).ending = .reached next) : next.upgrade = false := by
  induction parser, text using httpScanner.scan_induction with
  | nil parser =>
      rw [Scanner.scan_nil] at reached
      cases reached
      exact Bool.eq_false_iff.mpr fun upgrades => (ahead upgrades).2 rfl
  | cons parser ch rest onRead onAgain =>
      have keeps := react_keeps sound ch
      cases reacts : httpScanner.react parser ch with
      | read later symbols =>
          rw [show react parser ch = _ from reacts] at keeps
          rw [Scanner.scan_read reacts, Scanned.put_ending] at reached
          refine onRead later symbols reacts keeps.1 (fun upgrades => ?_) reached
          rw [keeps.2.1] at upgrades
          rw [keeps.2.2 (ahead upgrades).1] at upgrades
          cases upgrades
      | again later symbols =>
          rw [show react parser ch = _ from reacts] at keeps
          rw [Scanner.scan_again reacts, Scanned.put_ending] at reached
          refine onAgain later symbols reacts keeps.1 (fun upgrades => ⟨?_, List.cons_ne_nil ch rest⟩)
            reached
          rcases keeps.2 with same | done
          · rw [same] at upgrades
            have lower := react_descends reacts
            rw [(ahead upgrades).1] at lower
            exact absurd lower (Nat.not_lt_zero _)
          · exact done
      | leave later symbols =>
          rw [Scanner.scan_leave reacts] at reached
          cases reached
      | fail later =>
          rw [Scanner.scan_fail reacts] at reached
          cases reached

/-! ## Callbacks that keep to the events -/

variable {User : Type} {step : User → Event → User} {data : List UInt8}

def pausing (step : User → Event → User) (pauses : User → Event → Bool) (data : List UInt8) :
    HttpParserSettings User where
  notice kind := some fun _ user =>
    ⟨0, pauses user (.notice kind), step user (.notice kind)⟩
  data field := some fun _ start length user =>
    let event := .text field ((data.drop start).take length)
    ⟨0, pauses user event, step user event⟩

/-- Callbacks that look at nothing but the events and let the parser go on. -/
def heed (step : User → Event → User) (data : List UInt8) : HttpParserSettings User :=
  pausing step (fun _ _ => false) data

theorem heed_agrees (step : User → Event → User) (data : List UInt8) : (heed step data).Agrees := by
  refine ⟨?_, ?_⟩
  · rintro kind callback ⟨⟩ parser user
    exact ⟨rfl, Or.inl rfl⟩
  · rintro field callback ⟨⟩ parser start length user
    exact ⟨rfl, rfl⟩

theorem Made.pausing {pauses : User → Event → Bool} {user last : User} {events : List Event}
    (made : Made (pausing step pauses data) data user events last) :
    last = events.foldl step user := by
  induction made with
  | nil user => rfl
  | @cons call parser user last events inside sound rest inductionHypothesis =>
      rw [inductionHypothesis]
      cases call with
      | notice kind => rfl
      | data field start length => rfl

/-- What the scan's ending says about the parser a call leaves. -/
def Left (parser : HttpParser) (data : List UInt8) (next : HttpParser) : Prop :=
  next.uncounted = (httpScanner.scan parser.uncounted data).ending.state ∧
    match (httpScanner.scan parser.uncounted data).ending with
    | .reached _ => next.Idle ∧
        next.nread.toNat ≤ (parser.headerCount data).nread ∧
        Suits next.state
          (absorb parser.state.begun (httpScanner.scan parser.uncounted data).symbols).2
    | .left _ _ => next.httpErrno = .ok ∧ next.upgrade = true
    | .failed _ _ => next.httpErrno ≠ .ok

/-- The parser gives up a header of which it counts more bytes than it may have.  Where the
data is cut in the middle of a name or value one more is counted. -/
def Overflows (parser : HttpParser) (data : List UInt8) (cuts : Nat) (next : HttpParser) : Prop :=
  next.httpErrno = .headerOverflow ∧ httpMaxHeaderSize < (parser.headerCount data).most + cuts

theorem Ends.agreed {settings : HttpParserSettings User} (agrees : settings.Agrees) {left : Nat}
    {next : HttpParser} {returned : Int} {events : List Event}
    (ends : Ends data settings.Refuses (httpScanner.scan parser.uncounted data) parser.state.begun
      left (parser.headerCount data) next returned events) :
    (Overflows parser data 0 next ∧
        events <+: reported parser.state.begun (httpScanner.scan parser.uncounted data)) ∨
      (Left parser data next ∧
        returned = data.length - (httpScanner.scan parser.uncounted data).ending.rest.length ∧
        events = reported parser.state.begun (httpScanner.scan parser.uncounted data)) := by
  have shorter : ∀ place ≤ data.length, (place : Int) = data.length - (data.drop place).length := by
    intro place within
    rw [List.length_drop]
    omega
  unfold Left
  cases ends with
  | reached ending idle suits light =>
      refine Or.inr ⟨⟨by rw [ending]; rfl, ?_⟩, ?_, rfl⟩
      · rw [ending]
        exact ⟨idle, light, suits⟩
      · rw [ending]
        simp [Ending.rest]
  | left ending within idle upgrades =>
      refine Or.inr ⟨⟨by rw [ending]; rfl, ?_⟩, ?_, rfl⟩
      · rw [ending]
        exact ⟨idle.sound.errno, upgrades⟩
      · rw [ending, Ending.rest, ← shorter _ within]
  | failed ending within rejects =>
      refine Or.inr ⟨⟨by rw [ending]; rfl, ?_⟩, ?_, rfl⟩
      · rw [ending]
        intro ok
        rw [ok] at rejects
        cases rejects
      · rw [ending, Ending.rest, ← shorter _ within]
  | overflow whole within errno large => exact Or.inl ⟨⟨errno, large⟩, _, whole.symm⟩
  | refused whole ending within idle closed fewer light refused =>
      exact absurd refused (agrees.not_refuses _)
  | refusedLeaving ending within idle upgrades refused => exact absurd refused (agrees.not_refuses _)

/-- A call whose callbacks let the parser go on comes to what the scan of the bytes does,
but for the size of the header. -/
theorem httpParserExecute_scan {settings : HttpParserSettings User} (agrees : settings.Agrees)
    (idle : parser.Idle) (notEmpty : data ≠ [])
    (short : data.length + httpMaxHeaderSize < 4294967296) (user : User) :
    ∃ next returned last events,
      httpParserExecute settings parser data user = .ok ⟨next, returned, last⟩ ∧
        Made settings data user events last ∧
        ((Overflows parser data 0 next ∧
            events <+: reported parser.state.begun (httpScanner.scan parser.uncounted data)) ∨
          (Left parser data next ∧
            returned =
              data.length - (httpScanner.scan parser.uncounted data).ending.rest.length ∧
            events = reported parser.state.begun (httpScanner.scan parser.uncounted data))) := by
  obtain ⟨next, returned, last, events, runs, ends, made⟩ :=
    httpParserExecute_ends settings idle notEmpty short user
  exact ⟨next, returned, last, events, runs, made, ends.agreed agrees⟩

/-- A request, with callbacks that count the events. -/
theorem httpParserExecute_scan_agentGet :
    ∃ next returned last events,
      httpParserExecute (heed (fun count _ => count + 1) agentGet) (httpParserInit .httpRequest)
          agentGet 0 = .ok ⟨next, returned, last⟩ ∧
        Made (heed (fun count _ => count + 1) agentGet) agentGet 0 events last ∧
        ((Overflows (httpParserInit .httpRequest) agentGet 0 next ∧
            events <+: reported State.sStartReq.begun
              (httpScanner.scan (httpParserInit .httpRequest) agentGet)) ∨
          (Left (httpParserInit .httpRequest) agentGet next ∧
            returned = agentGet.length -
              (httpScanner.scan (httpParserInit .httpRequest) agentGet).ending.rest.length ∧
            events = reported State.sStartReq.begun
              (httpScanner.scan (httpParserInit .httpRequest) agentGet))) :=
  httpParserExecute_scan (heed_agrees (fun count _ => count + 1) agentGet)
    (init_idle .httpRequest) (by decide) (by decide) 0

theorem httpParserExecute_heed (step : User → Event → User) (idle : parser.Idle)
    (notEmpty : data ≠ []) (short : data.length + httpMaxHeaderSize < 4294967296) (user : User) :
    ∃ next returned events,
      httpParserExecute (heed step data) parser data user =
          .ok ⟨next, returned, events.foldl step user⟩ ∧
        (Overflows parser data 0 next ∨
          (Left parser data next ∧
            returned =
              data.length - (httpScanner.scan parser.uncounted data).ending.rest.length ∧
            events = reported parser.state.begun (httpScanner.scan parser.uncounted data))) := by
  obtain ⟨next, returned, last, events, runs, ends, made⟩ :=
    httpParserExecute_ends (heed step data) idle notEmpty short user
  obtain rfl := made.pausing
  exact ⟨next, returned, events, runs,
    (ends.agreed (heed_agrees step data)).imp_left And.left⟩

/-! ## Pieces -/

/-- A caller that gives the parser one piece after the other, until there is an error or
the connection is no longer one for this parser. -/
def feed (settings : List UInt8 → HttpParserSettings User) :
    HttpParser → List (List UInt8) → User → Except Fault (Executed User)
  | parser, [], user => .ok ⟨parser, 0, user⟩
  | parser, piece :: pieces, user =>
      match httpParserExecute (settings piece) parser piece user with
      | .error fault => .error fault
      | .ok executed =>
          if executed.parser.httpErrno ≠ .ok ∨ executed.parser.upgrade = true then
            .ok executed
          else
            match feed settings executed.parser pieces executed.user with
            | .error fault => .error fault
            | .ok rest => .ok { rest with returned := executed.returned + rest.returned }

/-- What the scan left pending is what the next call begins with, or nothing is. -/
theorem resumes_begun {state : State} {pending : Pending} (suits : Suits state pending) :
    Resumes pending state.begun := by
  unfold State.begun
  cases opened : state.openField with
  | none => exact Or.inl rfl
  | some field =>
      obtain ⟨text, same⟩ := suits.opened field opened
      exact Or.inr ⟨field, text, same, rfl⟩

theorem joined_assemble_reached {state : State} {pending : Pending} {symbols : List Symbol}
    (suits : Suits state (absorb pending symbols).2) (more : List Symbol) :
    joined (assemble pending symbols ++ assemble state.begun more) =
      joined ((absorb pending symbols).1 ++ assemble (absorb pending symbols).2 more) := by
  rw [joined_assemble_append (resumes_begun suits), assemble_append]

/-- What is made of pieces is what the scan of all bytes says. -/
def FeedsLike (parser : HttpParser) (data : List UInt8) (next : HttpParser) (returned : Int)
    (events : List Event) : Prop :=
  next.uncounted = (httpScanner.scan parser.uncounted data).ending.state ∧
    returned = data.length - (httpScanner.scan parser.uncounted data).ending.rest.length ∧
    ((httpScanner.scan parser.uncounted data).ending.isFailed = false →
      joined events =
        joined (reported parser.state.begun (httpScanner.scan parser.uncounted data)))

theorem feed_scan (step : User → Event → User) {pieces : List (List UInt8)} (notEmpty : pieces ≠ [])
    (nonempty : ∀ piece ∈ pieces, piece ≠ []) (idle : parser.Idle) (plain : parser.upgrade = false)
    (short : pieces.flatten.length + httpMaxHeaderSize < 4294967296) (user : User) :
    ∃ next returned events,
      feed (heed step) parser pieces user = .ok ⟨next, returned, events.foldl step user⟩ ∧
        (Overflows parser pieces.flatten (pieces.length - 1) next ∨
          FeedsLike parser pieces.flatten next returned events) := by
  induction pieces generalizing parser user with
  | nil => exact absurd rfl notEmpty
  | cons piece pieces inductionHypothesis =>
      have here := nonempty piece List.mem_cons_self
      rw [List.flatten_cons] at short ⊢
      rw [List.length_append] at short
      obtain ⟨next, returned, reports, runs, ⟨errno, large⟩ | ⟨⟨uncounted, left⟩, rfl, rfl⟩⟩ :=
        httpParserExecute_heed step idle here (by omega) user
      · refine ⟨next, returned, reports, ?_, Or.inl ⟨errno, ?_⟩⟩
        · rw [feed, runs]
          exact if_pos (Or.inl (by rw [errno]; decide))
        · cases pieces with
          | nil =>
              rw [List.flatten_nil, List.append_nil]
              exact large
          | cons second pieces =>
              have := parser.headerCount_piece piece (second :: pieces).flatten
              simp only [List.length_cons]
              omega
      have split := @Scanner.scan_append _ _ _ httpScanner parser.uncounted piece pieces.flatten
      have upgrade := @scan_upgrade parser.uncounted next.uncounted piece
        ⟨idle.sound.errno, idle.sound.fits⟩
        (fun upgrades => (Bool.false_ne_true (plain.symm.trans upgrades)).elim)
      have total : ((piece ++ pieces.flatten).length : Int) =
          piece.length + pieces.flatten.length := by
        rw [List.length_append]
        rfl
      rw [feed, runs]
      dsimp only
      unfold FeedsLike
      cases scan : httpScanner.scan parser.uncounted piece with
      | mk symbols ending =>
          rw [scan] at left uncounted split upgrade
          rw [split, total]
          cases ending with
          | reached state =>
              obtain ⟨idleNext, lightNext, suits⟩ := left
              obtain rfl : next.uncounted = state := uncounted
              have plainNext : next.upgrade = false := upgrade rfl
              rw [if_neg (by
                rintro (bad | upgrades)
                · exact bad idleNext.sound.errno
                · exact Bool.false_ne_true (plainNext.symm.trans upgrades))]
              cases pieces with
              | nil =>
                  refine ⟨next, _, reported parser.state.begun ⟨symbols, .reached next.uncounted⟩, rfl,
                    Or.inr ⟨?_, ?_, fun _ => ?_⟩⟩
                  · simp [Scanned.follow, Ending.state]
                  · simp [Scanned.follow, Ending.rest]
                  · simp [Scanned.follow, Scanned.put]
              | cons second pieces =>
                  obtain ⟨last, returned, events, runs', outcome⟩ :=
                    inductionHypothesis (List.cons_ne_nil second pieces)
                      (fun other among => nonempty other (List.mem_cons_of_mem piece among))
                      idleNext plainNext (by omega)
                      ((reported parser.state.begun ⟨symbols, .reached next.uncounted⟩).foldl step
                        user)
                  refine ⟨last, piece.length + returned,
                    reported parser.state.begun ⟨symbols, .reached next.uncounted⟩ ++ events, ?_, ?_⟩
                  · rw [runs', List.foldl_append]
                    simp [Ending.rest]
                  · rcases outcome with ⟨errno, large⟩ | ⟨uncounted', returned', same⟩
                    · have cut := (@headerCount_atMost parser next piece (second :: pieces).flatten
                        (by rw [scan]) lightNext).most
                      refine Or.inl ⟨errno, ?_⟩
                      simp only [List.length_cons] at large ⊢
                      omega
                    · refine Or.inr ⟨uncounted', ?_, fun good => ?_⟩
                      · rw [returned']
                        simp only [Scanned.follow, Scanned.put_ending]
                        omega
                      · have good' : (httpScanner.scan next.uncounted
                            (second :: pieces).flatten).ending.isFailed = false := good
                        rw [Scanned.follow, reported_put, joined_append_congr _ (same good'),
                          reported_of_not_failed _ good', reported_of_not_failed _ good']
                        exact joined_assemble_reached suits _
          | left state rest =>
              rw [if_pos (Or.inr left.2)]
              refine ⟨next, _, reported parser.state.begun ⟨symbols, .left state rest⟩, rfl,
                Or.inr ⟨uncounted, ?_, fun _ => rfl⟩⟩
              simp only [Scanned.follow, Ending.rest, List.length_append]
              omega
          | failed state rest =>
              rw [if_pos (Or.inl left)]
              refine ⟨next, _, reported parser.state.begun ⟨symbols, .failed state rest⟩, rfl,
                Or.inr ⟨uncounted, ?_, fun good => Bool.noConfusion good⟩⟩
              simp only [Scanned.follow, Ending.rest, List.length_append]
              omega

theorem Left.isFailed {next : HttpParser} (left : Left parser data next)
    (errno : next.httpErrno = .ok) :
    (httpScanner.scan parser.uncounted data).ending.isFailed = false := by
  obtain ⟨-, left⟩ := left
  cases ends : (httpScanner.scan parser.uncounted data).ending with
  | reached state => rfl
  | left state rest => rfl
  | failed state rest =>
      rw [ends] at left
      exact absurd errno left

/-- In how many pieces a connection comes makes no difference to a handler that takes a
text in pieces, but where there is an error, and for the size of the header. -/
theorem feed_whole {step : User → Event → User} (seamless : Seamless step)
    {pieces : List (List UInt8)} (notEmpty : pieces ≠ []) (nonempty : ∀ piece ∈ pieces, piece ≠ [])
    (idle : parser.Idle) (plain : parser.upgrade = false)
    (short : pieces.flatten.length + httpMaxHeaderSize < 4294967296) (user : User) :
    ∃ whole cut,
      httpParserExecute (heed step pieces.flatten) parser pieces.flatten user = .ok whole ∧
        feed (heed step) parser pieces user = .ok cut ∧
        (Overflows parser pieces.flatten 0 whole.parser ∨
          Overflows parser pieces.flatten (pieces.length - 1) cut.parser ∨
          (cut.returned = whole.returned ∧ cut.parser.uncounted = whole.parser.uncounted ∧
            (whole.parser.httpErrno = .ok → cut.user = whole.user))) := by
  have nonempty' : pieces.flatten ≠ [] := by
    obtain ⟨piece, pieces, rfl⟩ := List.exists_cons_of_ne_nil notEmpty
    rw [List.flatten_cons]
    exact fun empty => nonempty piece List.mem_cons_self (List.append_eq_nil_iff.mp empty).1
  obtain ⟨next, returned, events, runs, outcome⟩ := httpParserExecute_heed step idle nonempty' short user
  obtain ⟨next', returned', events', runs', cases'⟩ :=
    feed_scan step notEmpty nonempty idle plain short user
  refine ⟨_, _, runs, runs', ?_⟩
  rcases outcome with beyond | ⟨left, rfl, rfl⟩
  · exact Or.inl beyond
  rcases cases' with beyond | ⟨uncounted, rfl, same⟩
  · exact Or.inr (Or.inl beyond)
  refine Or.inr (Or.inr ⟨rfl, uncounted.trans left.1.symm, fun ok => ?_⟩)
  exact seamless.foldl_eq user (same (left.isFailed ok))

def tally (count : Nat) : Event → Nat
  | .notice _ => count
  | .text _ text => count + text.length

theorem tally_seamless : Seamless tally := by
  intro count field text more
  rw [tally, tally, tally, List.length_append, Nat.add_assoc]

/-- A request cut in the middle of a name, and in the middle of a value. -/
theorem feed_whole_agentGet :
    ∃ whole cut,
      httpParserExecute (heed tally agentGet) (httpParserInit .httpRequest) agentGet 0 = .ok whole ∧
        feed (heed tally) (httpParserInit .httpRequest)
            [agentGet.take 19, (agentGet.drop 19).take 20, agentGet.drop 39] 0 = .ok cut ∧
        (Overflows (httpParserInit .httpRequest) agentGet 0 whole.parser ∨
          Overflows (httpParserInit .httpRequest) agentGet 2 cut.parser ∨
          (cut.returned = whole.returned ∧ cut.parser.uncounted = whole.parser.uncounted ∧
            (whole.parser.httpErrno = .ok → cut.user = whole.user))) :=
  @feed_whole _ _ tally tally_seamless
    [agentGet.take 19, (agentGet.drop 19).take 20, agentGet.drop 39] (by decide) (by decide)
    (init_idle .httpRequest) rfl (by decide) 0

end UAFlow.Http
