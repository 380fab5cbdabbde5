import UAFlow.Http.Iteration

/-!
# Whole calls

A call makes the callbacks of the scanner's events in order, up to where a callback
refuses or the header is too long.
-/

namespace UAFlow.Http

open Library

/-! ## Callbacks -/

/-- The errors that a callback brings about. -/
def HttpErrno.refusing : HttpErrno → Bool
  | .cbNotice _ | .cbData _ | .paused => true
  | _ => false

/-- No callback returns an error or pauses the parser. -/
structure HttpParserSettings.Agrees {User : Type} (settings : HttpParserSettings User) : Prop where
  notice : ∀ notice callback, settings.notice notice = some callback → ∀ parser user,
    (callback parser user).paused = false ∧
      ((callback parser user).value = 0 ∨
        notice = .headersComplete ∧ (callback parser user).value = 1)
  data : ∀ field callback, settings.data field = some callback → ∀ parser start length user,
    (callback parser start length user).paused = false ∧
      (callback parser start length user).value = 0

/-- `F_SKIPBODY` does not fit in the flags. -/
theorem setFlag_skipbody (parser : HttpParser) : parser.setFlag .skipbody = parser := by
  have lost : ∀ flags : BitVec 6,
      (flags.setWidth 32 ||| Flag.mask .skipbody).setWidth 6 = flags := by decide
  unfold HttpParser.setFlag
  rw [lost]

variable {User : Type} {settings : HttpParserSettings User} {data : List UInt8}

theorem answered_cases (call : Call) (value : Int) (parser : HttpParser) :
    answered call value parser = parser ∨
      ∃ errno, errno.refusing = true ∧
        answered call value parser = { parser with httpErrno := errno } := by
  unfold answered
  cases call with
  | notice kind =>
      cases kind <;> dsimp only <;> split_ifs
      · exact Or.inr ⟨_, rfl, rfl⟩
      · exact Or.inl rfl
      · exact Or.inl rfl
      · exact Or.inl (setFlag_skipbody parser)
      · exact Or.inr ⟨_, rfl, rfl⟩
      · exact Or.inr ⟨_, rfl, rfl⟩
      · exact Or.inl rfl
  | data field start length =>
      dsimp only
      split_ifs
      · exact Or.inr ⟨_, rfl, rfl⟩
      · exact Or.inl rfl

theorem respond_cases (call : Call) {parser : HttpParser} (errno : parser.httpErrno = .ok)
    (response : Response User) :
    (respond call parser response).1 = parser ∨
      ∃ errno, errno.refusing = true ∧
        (respond call parser response).1 = { parser with httpErrno := errno } := by
  unfold respond
  cases response.paused with
  | false => exact answered_cases call response.value parser
  | true =>
      have pauses : httpParserPause parser true = { parser with httpErrno := .paused } := by
        unfold httpParserPause
        rw [if_pos (Or.inl errno)]
        rfl
      simp only [if_true, pauses]
      rcases answered_cases call response.value { parser with httpErrno := .paused } with
        same | ⟨other, refuses, same⟩
      · exact Or.inr ⟨_, rfl, same⟩
      · exact Or.inr ⟨other, refuses, same⟩

/-- The errors these callbacks can bring about. -/
def HttpParserSettings.Refuses (settings : HttpParserSettings User) (errno : HttpErrno) : Prop :=
  errno.refusing = true ∧ ∃ call parser user,
    parser.httpErrno = .ok ∧ (invoke settings call parser user).1.httpErrno = errno

theorem invoke_cases (call : Call) {parser : HttpParser} (errno : parser.httpErrno = .ok)
    (user : User) :
    (invoke settings call parser user).1 = parser ∨ ∃ errno, settings.Refuses errno ∧
      (invoke settings call parser user).1 = { parser with httpErrno := errno } := by
  have responds : ∀ response : Response User,
      (invoke settings call parser user) = respond call parser response →
      (invoke settings call parser user).1 = parser ∨ ∃ errno, settings.Refuses errno ∧
        (invoke settings call parser user).1 = { parser with httpErrno := errno } := by
    intro response made
    rcases respond_cases call errno response with same | ⟨other, refuses, same⟩
    · exact Or.inl (by rw [made, same])
    · exact Or.inr ⟨other, ⟨refuses, call, parser, user, errno, by rw [made, same]⟩, by rw [made, same]⟩
  cases call with
  | notice kind =>
      cases found : settings.notice kind with
      | none => exact Or.inl (by simp only [invoke, found])
      | some callback => exact responds (callback parser user) (by simp only [invoke, found])
  | data field start length =>
      cases found : settings.data field with
      | none => exact Or.inl (by simp only [invoke, found])
      | some callback =>
          exact responds (callback parser start length user) (by simp only [invoke, found])

theorem HttpParserSettings.Agrees.not_refuses (agrees : settings.Agrees) (errno : HttpErrno) :
    ¬settings.Refuses errno := by
  rintro ⟨refuses, call, parser, user, ok, made⟩
  have kept : (invoke settings call parser user).1 = parser := by
    cases call with
    | notice kind =>
        cases found : settings.notice kind with
        | none => simp only [invoke, found]
        | some callback =>
            obtain ⟨goes, value⟩ := agrees.notice kind callback found parser user
            simp only [invoke, found, respond, goes]
            rcases value with zero | ⟨rfl, one⟩
            · cases kind <;> simp [answered, zero]
            · simp [answered, one, setFlag_skipbody]
    | data field start length =>
        cases found : settings.data field with
        | none => simp only [invoke, found]
        | some callback =>
            obtain ⟨goes, value⟩ := agrees.data field callback found parser start length user
            simp [invoke, found, respond, goes, answered, value]
  rw [kept, ok] at made
  subst made
  cases refuses

theorem invokeDue_cases (due : Option Call) {parser : HttpParser} (errno : parser.httpErrno = .ok)
    (user : User) :
    (invokeDue settings due parser user).1 = parser ∨ ∃ errno, settings.Refuses errno ∧
      (invokeDue settings due parser user).1 = { parser with httpErrno := errno } := by
  cases due with
  | none => exact Or.inl rfl
  | some call => exact invoke_cases call errno user

/-- The callbacks of these events were made, one after the other, each for a sound parser
and a piece of the data. -/
inductive Made (settings : HttpParserSettings User) (data : List UInt8) :
    User → List Event → User → Prop
  | nil (user : User) : Made settings data user [] user
  | cons {call : Call} {parser : HttpParser} {user last : User} {events : List Event}
      (inside : call.Inside data) (sound : parser.Sound)
      (rest : Made settings data (invoke settings call parser user).2 events last) :
      Made settings data user (call.event data :: events) last

theorem Made.due {due : Option Call} (insides : ∀ call ∈ due, call.Inside data)
    {parser : HttpParser} (sound : parser.Sound) (user : User) :
    Made settings data user (due.map (Call.event data)).toList
      (invokeDue settings due parser user).2 := by
  cases due with
  | none => exact .nil user
  | some call => exact .cons (insides call rfl) sound (.nil _)

theorem Made.append {first last : User} {events more : List Event} {middle : User}
    (made : Made settings data first events middle) (made' : Made settings data middle more last) :
    Made settings data first (events ++ more) last := by
  induction made with
  | nil user => exact made'
  | cons inside sound _ inductionHypothesis => exact .cons inside sound (inductionHypothesis made')

/-! ## What a call comes to -/

/-- The events of a scan; a text is lost when an error comes in its middle. -/
def reported (pending : Pending) (scanned : Scanned HttpParser UInt8 Symbol) : List Event :=
  match scanned.ending with
  | .failed _ _ => (absorb pending scanned.symbols).1
  | _ => assemble pending scanned.symbols

theorem reported_put (pending : Pending) (symbols : List Symbol)
    (scanned : Scanned HttpParser UInt8 Symbol) :
    reported pending (scanned.put symbols) =
      (absorb pending symbols).1 ++ reported (absorb pending symbols).2 scanned := by
  unfold reported
  rw [Scanned.put_ending, Scanned.put_symbols]
  cases scanned.ending with
  | reached state => exact assemble_append _ _ _
  | left state rest => exact assemble_append _ _ _
  | failed state rest =>
      dsimp only
      rw [absorb_append]

theorem reported_of_not_failed {scanned : Scanned HttpParser UInt8 Symbol} (pending : Pending)
    (good : scanned.ending.isFailed = false) :
    reported pending scanned = assemble pending scanned.symbols := by
  unfold reported
  cases ending : scanned.ending with
  | reached state => rfl
  | left state rest => rfl
  | failed state rest =>
      rw [ending] at good
      cases good

theorem reported_left {scanned : Scanned HttpParser UInt8 Symbol} {symbols : List Symbol}
    {state : HttpParser} {rest : List UInt8} {pending : Pending} {events : List Event}
    (scans : scanned = ⟨symbols, .left state rest⟩) (absorbs : absorb pending symbols = (events, none)) :
    reported pending scanned = events := by
  rw [scans]
  show assemble pending symbols = events
  rw [assemble, absorbs]
  exact List.append_nil events

/-- How a call ends that makes the callbacks of `events`. -/
inductive Ends (data : List UInt8) (refuses : HttpErrno → Prop)
    (scanned : Scanned HttpParser UInt8 Symbol) (pending : Pending) (left : Nat)
    (count : HeaderCount) : HttpParser → Int → List Event → Prop
  | reached {parser : HttpParser} (ending : scanned.ending = .reached parser.uncounted)
      (idle : parser.Idle) (suits : Suits parser.state (absorb pending scanned.symbols).2)
      (light : parser.nread.toNat ≤ count.nread) :
      Ends data refuses scanned pending left count parser data.length (reported pending scanned)
  | left {parser : HttpParser} {place : Nat}
      (ending : scanned.ending = .left parser.uncounted (data.drop place))
      (within : place ≤ data.length) (idle : parser.Idle) (upgrades : parser.upgrade = true) :
      Ends data refuses scanned pending left count parser place (reported pending scanned)
  | failed {parser : HttpParser} {place : Nat}
      (ending : scanned.ending = .failed parser.uncounted (data.drop place))
      (within : place ≤ data.length) (rejects : parser.httpErrno.rejecting = true) :
      Ends data refuses scanned pending left count parser place (reported pending scanned)
  | overflow {parser : HttpParser} {place : Nat} {events more : List Event}
      (whole : reported pending scanned = events ++ more) (within : place ≤ data.length)
      (errno : parser.httpErrno = .headerOverflow) (large : httpMaxHeaderSize < count.most) :
      Ends data refuses scanned pending left count parser place events
  | refused {parser : HttpParser} {errno : HttpErrno} {place : Nat} {events : List Event}
      (whole : reported pending scanned =
        events ++ reported none (httpScanner.scan parser.uncounted (data.drop place)))
      (ending : (httpScanner.scan parser.uncounted (data.drop place)).ending = scanned.ending)
      (within : place ≤ data.length) (idle : parser.Idle)
      (closed : parser.state.openField = none ∨ place = data.length)
      (fewer : place = data.length ∨ 4 * (data.length - place) + parser.state.rank < left)
      (light : (parser.headerCount (data.drop place)).AtMost 0 count)
      (refused : refuses errno) :
      Ends data refuses scanned pending left count { parser with httpErrno := errno } place events
  | refusedLeaving {parser : HttpParser} {errno : HttpErrno} {place : Nat}
      (ending : scanned.ending = .left parser.uncounted (data.drop place))
      (within : place ≤ data.length) (idle : parser.Idle) (upgrades : parser.upgrade = true)
      (refused : refuses errno) :
      Ends data refuses scanned pending left count { parser with httpErrno := errno } place
        (reported pending scanned)

variable {refuses : HttpErrno → Prop} {scanned : Scanned HttpParser UInt8 Symbol}
  {pending after : Pending} {left : Nat} {count : HeaderCount} {parser : HttpParser} {returned : Int} {events : List Event}

theorem Ends.before (ends : Ends data refuses scanned after left count parser returned events)
    {symbols : List Symbol} {first : List Event} (absorbs : absorb pending symbols = (first, after))
    {more : Nat} {larger : HeaderCount} (fewer : left ≤ more) (le : count.AtMost 0 larger) :
    Ends data refuses (scanned.put symbols) pending more larger parser returned (first ++ events) := by
  have all : reported pending (scanned.put symbols) = first ++ reported after scanned := by
    rw [reported_put, absorbs]
  cases ends with
  | reached ending idle suits light =>
      rw [← all]
      refine .reached ending idle ?_ (Nat.le_trans light le.nread)
      rw [Scanned.put_symbols, absorb_append, absorbs]
      exact suits
  | left ending within idle upgrades =>
      rw [← all]
      exact .left ending within idle upgrades
  | failed ending within rejects =>
      rw [← all]
      exact .failed ending within rejects
  | overflow whole within errno large =>
      exact .overflow (by rw [all, whole, List.append_assoc]) within errno
        (Nat.lt_of_lt_of_le large le.most)
  | refused whole ending within idle closed nearer light refused =>
      exact .refused (by rw [all, whole, List.append_assoc]) ending within idle closed
        (nearer.imp_right fun lower => Nat.lt_of_lt_of_le lower fewer) (light.trans le)
        refused
  | refusedLeaving ending within idle upgrades refused =>
      rw [← all]
      exact .refusedLeaving ending within idle upgrades refused

/-! ## The end of the data -/

theorem flushMarks_none (length : Nat) (fields : List Field) (parser : HttpParser) (user : User) :
    flushMarks settings length (fun _ => none) fields parser user = ⟨parser, length, user⟩ := by
  induction fields with
  | nil => rfl
  | cons field fields inductionHypothesis =>
      rw [flushMarks]
      exact inductionHypothesis

theorem flushMarks_one (length mark : Nat) {field : Field} {fields : List Field}
    (among : field ∈ fields) (distinct : fields.Nodup) (parser : HttpParser) (user : User) :
    flushMarks settings length (fun other => if other = field then some mark else none) fields
        parser user =
      ⟨(invoke settings (.data field mark (length - mark)) parser user).1, length,
        (invoke settings (.data field mark (length - mark)) parser user).2⟩ := by
  induction fields with
  | nil => cases among
  | cons other fields inductionHypothesis =>
      rw [flushMarks]
      by_cases same : other = field
      · subst same
        have gone : ∀ {fields : List Field}, other ∉ fields → ∀ (parser : HttpParser) (user : User),
            flushMarks settings length (fun which => if which = other then some mark else none)
              fields parser user = ⟨parser, length, user⟩ := by
          intro fields
          induction fields with
          | nil => intros; rfl
          | cons which fields inductionHypothesis =>
              intro absent parser user
              rw [List.mem_cons, not_or] at absent
              rw [flushMarks, if_neg fun same => absent.1 same.symm]
              exact inductionHypothesis absent.2 parser user
        rw [if_pos rfl]
        dsimp only
        rw [gone (List.nodup_cons.mp distinct).1]
        split_ifs <;> rfl
      · rw [if_neg same]
        exact inductionHypothesis ((List.mem_cons.mp among).resolve_left fun eq => same eq.symm)
          (List.nodup_cons.mp distinct).2

theorem finish_ends {frame : Frame} (ready : Ready data frame pending)
    (beyond : data.drop frame.place = []) (user : User) :
    ∃ parser returned user' events,
      finish settings data.length frame user = .ok ⟨parser, returned, user'⟩ ∧
        Ends data settings.Refuses (frame.scanned data) pending (frame.left data)
          (frame.count data) parser returned events ∧
        Made settings data user events user' := by
  obtain ⟨parser, marks, place⟩ := frame
  have errno := ready.idle.sound.errno
  have atEnd : place = data.length := Nat.le_antisymm ready.within (List.drop_eq_nil_iff.mp beyond)
  have scanned : Frame.scanned data ⟨parser, marks, place⟩ = ⟨[], .reached parser.uncounted⟩ := by
    rw [Frame.scanned, beyond, Scanner.scan_nil]
  have light : parser.nread.toNat ≤ (Frame.count data ⟨parser, marks, place⟩).nread := by
    rw [Frame.count, HttpParser.headerCount, beyond, metered, Scanner.meter_nil]
    exact Nat.le_add_right _ _
  rw [scanned]
  unfold finish
  cases pending with
  | none =>
      obtain rfl : marks = fun _ => none := ready.holds
      have unmarked : ¬(fieldOrder.countP fun _ => (none : Option Nat).isSome) > 1 := by decide
      rw [if_neg (by rintro (many | bad); exacts [unmarked many, bad errno]), flushMarks_none]
      exact ⟨parser, _, user, [], rfl, .reached rfl ready.idle ready.suits light, .nil user⟩
  | some part =>
      obtain ⟨field, text⟩ := part
      obtain ⟨mark, before, rfl, textIs⟩ := ready.holds
      have few : ¬(fieldOrder.countP fun other =>
          (if other = field then some mark else none : Option Nat).isSome) > 1 := by
        cases field <;> exact Nat.lt_irrefl 1
      have among : field ∈ fieldOrder := by cases field <;> decide
      have inside : (Call.data field mark (data.length - mark)).Inside data := by
        show mark + (data.length - mark) ≤ data.length
        dsimp only at before
        omega
      have event : (Call.data field mark (data.length - mark)).event data = .text field text := by
        dsimp only at textIs
        rw [textIs, atEnd]
        rfl
      have made := Made.cons inside ready.idle.sound
        (.nil (invoke settings (.data field mark (data.length - mark)) parser user).2)
      rw [event] at made
      rw [if_neg (by rintro (many | bad); exacts [few many, bad errno]),
        flushMarks_one _ _ among (by decide)]
      refine ⟨_, _, _, _, rfl, ?_, made⟩
      rcases invoke_cases (.data field mark (data.length - mark)) errno user with
        same | ⟨other, refused, same⟩
      · rw [same]
        exact .reached rfl ready.idle ready.suits light
      · rw [same]
        have nothing : httpScanner.scan parser.uncounted (data.drop data.length) =
            ⟨[], .reached parser.uncounted⟩ := by
          rw [List.drop_length, Scanner.scan_nil]
        refine .refused ?_ (by rw [nothing]) (Nat.le_refl _) ready.idle (Or.inr rfl)
          (Or.inl rfl) ?_ refused
        · rw [nothing]
          rfl
        · rw [← atEnd]
          exact .refl _

/-! ## The loop -/

theorem Reads.refused {frame later : Frame} {first : List Event}
    (reads : Reads data frame later pending none first)
    (le : (later.count data).AtMost 0 (frame.count data))
    {errno : HttpErrno} (refused : refuses errno) :
    Ends data refuses (frame.scanned data) pending (frame.left data) (frame.count data)
      { later.parser with httpErrno := errno } later.place first := by
  obtain ⟨⟨symbols, leads, absorbs⟩, ready, descends⟩ := reads
  refine .refused ?_ (by rw [leads]; rfl) ready.within ready.idle (Or.inl ?_) (Or.inr descends) le
    refused
  · rw [leads, reported_put, absorbs]
    rfl
  · cases opened : later.parser.state.openField with
    | none => rfl
    | some field =>
        obtain ⟨text, nothing⟩ := ready.suits.opened field opened
        cases nothing

/-- The loop ends, and makes the callbacks of the scan's events. -/
theorem executeLoop_ends (short : data.length + httpMaxHeaderSize < 4294967296) {fuel : Nat}
    {frame : Frame} (ready : Ready data frame pending) (enough : frame.left data < fuel)
    (user : User) :
    ∃ parser returned user' events,
      executeLoop settings data fuel frame user = .ok ⟨parser, returned, user'⟩ ∧
        Ends data settings.Refuses (frame.scanned data) pending (frame.left data)
          (frame.count data) parser returned events ∧
        Made settings data user events user' := by
  induction fuel generalizing frame pending user with
  | zero => exact absurd enough (Nat.not_lt_zero _)
  | succ fuel inductionHypothesis =>
      rw [executeLoop]
      cases here : data.drop frame.place with
      | nil => exact finish_ends ready here user
      | cons ch rest =>
          dsimp only
          have answers := iteration_answers ready here short
          cases outcome : iteration frame ch rest with
          | fault kind =>
              rw [outcome] at answers
              exact absurd answers id
          | stop parser returned =>
              rw [outcome] at answers
              obtain ⟨place, rfl, within, ⟨errno, large⟩ | ⟨rejects, symbols, scans, silent⟩⟩ := answers
              · exact ⟨parser, _, user, [], rfl, .overflow rfl within errno large, .nil user⟩
              · refine ⟨parser, _, user, [], rfl, ?_, .nil user⟩
                have ends : Ends data settings.Refuses (frame.scanned data) pending
                    (frame.left data) (frame.count data) parser place
                    (reported pending (frame.scanned data)) :=
                  .failed (by rw [scans]) within rejects
                rw [scans, reported, silent] at ends
                rwa [scans]
          | next later =>
              rw [outcome] at answers
              obtain ⟨after, ⟨⟨symbols, leads, absorbs⟩, readyNext, descends⟩, le⟩ := answers
              obtain ⟨parser, returned, user', events, runs, ends, made⟩ :=
                inductionHypothesis readyNext (by omega) user
              refine ⟨parser, returned, user', events, runs, ?_, made⟩
              rw [leads]
              exact ends.before absorbs (Nat.le_of_lt descends) le
          | call due returned later follow =>
              rw [outcome] at answers
              obtain ⟨rfl, insides, answers⟩ := answers
              have ready' : Ready data later none := by
                cases follow with
                | resume => exact answers.1.ready
                | leave result => exact answers.2.1
                | count amount result => exact answers.1.ready
              have errno := ready'.idle.sound.errno
              have made : Made settings data user _ _ := .due insides ready'.idle.sound user
              dsimp only
              rw [if_neg fun bad => bad errno]
              rcases invokeDue_cases due errno user with same | ⟨other, refused, same⟩
              · rw [same, if_neg fun bad => bad errno]
                cases follow with
                | resume =>
                    obtain ⟨⟨⟨symbols, leads, absorbs⟩, -, descends⟩, le⟩ := answers
                    obtain ⟨parser, returned, user', events, runs, ends, made'⟩ :=
                      inductionHypothesis ready' (by omega)
                        (invokeDue settings due later.parser user).2
                    refine ⟨parser, returned, user', _, runs, ?_, made.append made'⟩
                    rw [leads]
                    exact ends.before absorbs (Nat.le_of_lt descends) le
                | leave result =>
                    obtain ⟨rfl, -, upgrades, symbols, scans, absorbs⟩ := answers
                    refine ⟨later.parser, _, _, _, rfl, ?_, made⟩
                    rw [← reported_left scans absorbs]
                    exact .left (by rw [scans]) ready'.within ready'.idle upgrades
                | count amount result =>
                    obtain ⟨⟨⟨symbols, leads, absorbs⟩, -, descends⟩, -, almost, place, total, sum,
                      bound, most, le⟩ := answers
                    have small := ready'.idle.small
                    have limit : httpMaxHeaderSize = 81920 := rfl
                    dsimp only
                    rw [leads]
                    rcases countHeaderSize_cases sum bound with
                      ⟨beyond, large⟩ | ⟨nread, count, small, counted⟩
                    · obtain ⟨place, rfl, within⟩ := place.resolve_right fun negative => by omega
                      rw [if_pos (by rw [beyond]; decide)]
                      have whole := reported_put pending symbols (later.scanned data)
                      rw [absorbs] at whole
                      exact ⟨_, _, _, _, rfl, .overflow whole within beyond (by omega), made⟩
                    · rw [counted, if_neg fun bad => bad errno]
                      have fits : ({ later.parser with nread := nread } : HttpParser).Fits := by
                        apply fits_of_free
                        rw [show ({ later.parser with nread := nread } : HttpParser).state = _ from
                          almost]
                        rfl
                      have counts : ({ later.parser with nread := nread } : HttpParser).Counts := by
                        intro start
                        rw [show later.parser.state = _ from start] at almost
                        cases almost
                      have counting : Ready data
                          { later with parser := { later.parser with nread := nread } } none :=
                        ⟨⟨⟨errno, fits⟩, counts, by rw [count]; exact small⟩, ready'.within,
                          ready'.holds, ready'.suits⟩
                      obtain ⟨parser, returned, user', events, runs, ends, made'⟩ :=
                        inductionHypothesis counting (Nat.lt_of_lt_of_le descends (by omega))
                          (invokeDue settings due later.parser user).2
                      exact ⟨parser, returned, user', _, runs,
                        ends.before absorbs (Nat.le_of_lt descends) (le nread count),
                        made.append made'⟩
              · have refusing : other ≠ .ok := by
                  rintro rfl
                  cases refused.1
                rw [same, if_pos refusing]
                refine ⟨_, _, _, _, rfl, ?_, made⟩
                cases follow with
                | resume => exact answers.1.refused answers.2 refused
                | leave result =>
                    obtain ⟨rfl, -, upgrades, symbols, scans, absorbs⟩ := answers
                    rw [← reported_left scans absorbs]
                    exact .refusedLeaving (by rw [scans]) ready'.within ready'.idle upgrades refused
                | count amount result => exact answers.1.refused answers.2.1 refused

/-! ## A call -/

theorem ready_start (data : List UInt8) (idle : parser.Idle) :
    Ready data ⟨parser, startMarks parser.state, 0⟩ parser.state.begun := by
  unfold State.begun
  cases opened : parser.state.openField with
  | none =>
      refine ⟨idle, Nat.zero_le _, ?_, suits_none opened⟩
      funext field
      unfold startMarks
      rw [opened]
      rfl
  | some field =>
      refine ⟨idle, Nat.zero_le _, ⟨0, Nat.le_refl 0, ?_, rfl⟩,
        suits_some (mayHold_of_openField opened)⟩
      funext other
      unfold startMarks
      rw [opened]
      change (if some field = some other then some 0 else none) = _
      by_cases same : other = field
      · rw [if_pos same, if_pos (congrArg some same.symm)]
      · rw [if_neg same, if_neg fun eq => same (Option.some.inj eq).symm]

/-- The first call for data, and each later one, makes the callbacks of a scan. -/
theorem httpParserExecute_ends (settings : HttpParserSettings User) (idle : parser.Idle)
    (notEmpty : data ≠ []) (short : data.length + httpMaxHeaderSize < 4294967296) (user : User) :
    ∃ parser' returned user' events,
      httpParserExecute settings parser data user = .ok ⟨parser', returned, user'⟩ ∧
        Ends data settings.Refuses (httpScanner.scan parser.uncounted data) parser.state.begun
          (4 * data.length + parser.state.rank) (parser.headerCount data) parser' returned events ∧
        Made settings data user events user' := by
  have low : parser.state.rank ≤ 3 := by cases parser.state <;> decide
  unfold httpParserExecute
  rw [if_neg fun bad => bad idle.sound.errno, if_neg notEmpty]
  apply executeLoop_ends short (ready_start data idle)
  simp only [Frame.left, enough]
  omega

end UAFlow.Http
