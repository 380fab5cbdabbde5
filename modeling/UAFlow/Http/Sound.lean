import Mathlib.Tactic.SplitIfs
import UAFlow.Http.Scan

/-!
# What one character can do

A parser is sound when nothing can go wrong at its next character.  `charStep_behaves`
says once what a case of the `switch` makes of a sound parser; that no assertion fails,
that the marks fit the states and that the loop ends are read off it.
-/

namespace UAFlow.Http

open Library

/-! ## Sound parsers -/

def HeaderState.naming : HeaderState → Bool
  | .hGeneral | .hC | .hCO | .hCON | .hMatchingConnection | .hMatchingProxyConnection
  | .hMatchingContentLength | .hMatchingTransferEncoding | .hMatchingUpgrade | .hConnection
  | .hContentLength | .hTransferEncoding | .hUpgrade => true
  | _ => false

/-- What the assertions and the comparisons of a state rely on. -/
def HttpParser.Fits (parser : HttpParser) : Prop :=
  match parser.state with
  | .sReqMethod => parser.index.toNat ≤ (methodStrings parser.method).length
  | .sHeaderField => parser.headerState.naming = true
  | .sHeaderValue => parser.headerState ≠ .hConnection ∧ parser.headerState ≠ .hTransferEncoding
  | .sBodyIdentity => parser.contentLength ≠ 0 ∧ parser.contentLength ≠ ullongMax
  | .sChunkSizeStart | .sChunkDataDone => parser.hasFlag .chunked = true
  | .sChunkSize | .sChunkParameters | .sChunkSizeAlmostDone =>
      parser.hasFlag .chunked = true ∧ parser.contentLength ≠ ullongMax
  | .sChunkData =>
      parser.hasFlag .chunked = true ∧ parser.contentLength ≠ 0 ∧ parser.contentLength ≠ ullongMax
  | .sChunkDataAlmostDone => parser.hasFlag .chunked = true ∧ parser.contentLength = 0
  | _ => True

structure HttpParser.Sound (parser : HttpParser) : Prop where
  errno : parser.httpErrno = .ok
  fits : parser.Fits

/-- The count begins anew with each chunk. -/
def HttpParser.Counts (parser : HttpParser) : Prop :=
  parser.state = .sChunkSizeStart → parser.nread = 0

/-- The field whose mark may be set in a state. -/
def State.mayHold : State → Option Field
  | .sBodyIdentity | .sBodyIdentityEof | .sChunkData | .sChunkDataAlmostDone => some .body
  | state => state.openField

/-- How an action goes with the states before and behind it. -/
def Action.Reads (state next : State) : Action → Prop
  | .quiet => next.openField = state.openField ∧ state ≠ .sChunkDataAlmostDone
  | .mark field => state.mayHold = none ∧ next.openField = some field
  | .notify _ => state.mayHold = none ∧ next.mayHold = none
  | .flush field => state.mayHold = some field ∧ next.mayHold = none
  | .markFlush _ => False

def Action.Rereads (state next : State) : Action → Prop
  | .quiet | .notify _ | .markFlush _ => state.mayHold = none ∧ next.mayHold = none
  | _ => False

/-- The errors that only a byte which cannot stand here brings about. -/
def HttpErrno.rejecting : HttpErrno → Bool
  | .ok | .cbNotice _ | .cbData _ | .headerOverflow | .paused => false
  | _ => true

/-- The parser behind a character. -/
structure Behind (parser next : HttpParser) : Prop where
  sound : next.Sound
  counts : next.Counts
  nread : next.nread = parser.nread ∨ next.nread = 0

/-- What a case of the `switch` may do. -/
def Behaves (parser : HttpParser) : Verdict → Prop
  | .read next action => Behind parser next ∧ action.Reads parser.state next.state
  | .again next action => Behind parser next ∧ action.Rereads parser.state next.state
  | .leave next action =>
      Behind parser next ∧ action.Rereads parser.state next.state ∧ next.upgrade = true ∧
        ∃ notice, action = .notify notice
  | .fail next => next.httpErrno.rejecting = true
  | .fault _ => False

/-! ## Ways a case ends -/

def State.free : State → Bool
  | .sReqMethod | .sHeaderField | .sHeaderValue | .sBodyIdentity | .sChunkSizeStart | .sChunkDataDone
  | .sChunkSize | .sChunkParameters | .sChunkSizeAlmostDone | .sChunkData
  | .sChunkDataAlmostDone => false
  | _ => true

theorem fits_of_free {parser : HttpParser} (free : parser.state.free = true) : parser.Fits := by
  unfold HttpParser.Fits
  cases here : parser.state <;> rw [here] at free <;> trivial

theorem behind_of_free {parser next : HttpParser} (errno : next.httpErrno = .ok)
    (free : next.state.free = true) (nread : next.nread = parser.nread ∨ next.nread = 0) :
    Behind parser next := by
  refine ⟨⟨errno, fits_of_free free⟩, ?_, nread⟩
  intro same
  rw [same] at free
  cases free

variable {parser : HttpParser}

theorem failWith_behaves (next : HttpParser) {errno : HttpErrno}
    (rejects : errno.rejecting = true) : Behaves parser (failWith next errno) :=
  rejects

theorem stay_behaves (sound : parser.Sound) (notStart : parser.state ≠ .sChunkSizeStart)
    (notData : parser.state ≠ .sChunkDataAlmostDone) : Behaves parser (.read parser .quiet) :=
  ⟨⟨sound, fun start => absurd start notStart, Or.inl rfl⟩, rfl, notData⟩

theorem goTo_behaves (sound : parser.Sound) {state : State} (free : state.free = true)
    (alike : state.openField = parser.state.openField)
    (notData : parser.state ≠ .sChunkDataAlmostDone) :
    Behaves parser (goTo parser state) :=
  ⟨behind_of_free sound.errno free (Or.inl rfl), alike, notData⟩

theorem expect_behaves (sound : parser.Sound) (ch expected : UInt8) {state : State}
    (free : state.free = true) (alike : state.openField = parser.state.openField)
    (notData : parser.state ≠ .sChunkDataAlmostDone) :
    Behaves parser (expect parser ch expected state) := by
  unfold expect
  split_ifs
  · exact failWith_behaves _ (by decide)
  · exact goTo_behaves sound free alike notData

theorem newMessage_free (parser : HttpParser) :
    parser.newMessage.free = true ∧ parser.newMessage.mayHold = none := by
  unfold HttpParser.newMessage HttpParser.startState
  split_ifs <;> exact ⟨rfl, rfl⟩

/-! ## The request line -/

theorem otherMethod_fits {method other : HttpMethod} {index : Nat} {ch : UInt8}
    (found : otherMethod method index ch = some other) :
    index + 1 ≤ (methodStrings other).length := by
  unfold otherMethod at found
  split_ifs at found <;> cases found <;> simp_all [methodStrings, ascii]

theorem startReq_behaves (sound : parser.Sound) (here : parser.state = .sStartReq) (ch : UInt8) :
    Behaves parser (startReq parser ch) := by
  unfold startReq
  dsimp only
  split_ifs
  · exact stay_behaves sound (by rw [here]; decide) (by rw [here]; decide)
  · exact failWith_behaves _ (by decide)
  · cases methodOf ch with
    | none => exact failWith_behaves _ (by decide)
    | some method =>
        refine ⟨⟨⟨sound.errno, ?_⟩, nofun, Or.inl rfl⟩, ?_⟩
        · change (1 : UInt8).toNat ≤ (methodStrings method).length
          cases method <;> decide
        · rw [here]
          exact ⟨rfl, rfl⟩

theorem methodStrings_length (method : HttpMethod) : (methodStrings method).length < 12 := by
  cases method <;> decide

theorem reqMethod_behaves (sound : parser.Sound) (here : parser.state = .sReqMethod) (ch : UInt8) :
    Behaves parser (reqMethod parser ch) := by
  have fits := sound.fits
  unfold HttpParser.Fits at fits
  rw [here] at fits
  have inside : parser.index.toNat ≤ (methodStrings parser.method).length := fits
  have short := methodStrings_length parser.method
  have counted : (parser.index + 1).toNat = parser.index.toNat + 1 := by
    rw [UInt8.toNat_add]
    exact Nat.mod_eq_of_lt (by simp only [UInt8.reduceToNat]; omega)
  have quiet : Action.quiet.Reads parser.state .sReqMethod := by
    rw [here]
    exact ⟨rfl, by decide⟩
  unfold reqMethod
  split_ifs with zero
  · exact failWith_behaves _ (by decide)
  · split
    next beyond =>
      rw [List.getElem?_eq_none_iff, List.length_append, List.length_singleton] at beyond
      omega
    next expected found =>
      split_ifs with ends same
      · exact ⟨behind_of_free sound.errno rfl (Or.inl rfl), by rw [here]; rfl, by rw [here]; decide⟩
      · refine ⟨⟨⟨sound.errno, ?_⟩, ?_, Or.inl rfl⟩, by rw [here] at quiet ⊢; exact quiet⟩
        · unfold HttpParser.Fits
          simp only [here]
          rw [counted]
          refine Nat.lt_of_le_of_ne inside ?_
          intro last
          rw [last, List.getElem?_concat_length] at found
          exact zero (same.trans (Option.some.inj found).symm)
        · intro start
          rw [show parser.state = _ from start] at here
          cases here
      · split
        next => exact failWith_behaves _ (by decide)
        next other found =>
          refine ⟨⟨⟨sound.errno, ?_⟩, ?_, Or.inl rfl⟩, by rw [here] at quiet ⊢; exact quiet⟩
          · unfold HttpParser.Fits
            simp only [here]
            rw [counted]
            exact otherMethod_fits found
          · intro start
            rw [show parser.state = _ from start] at here
            cases here

theorem parseUrlChar_url (s : State) (ch : UInt8) :
    parseUrlChar s ch = .sDead ∨
      (parseUrlChar s ch).openField = some .url ∧ (parseUrlChar s ch).free = true := by
  unfold parseUrlChar
  cases s <;> dsimp only <;> split_ifs <;> simp [State.openField, State.free]

theorem reqSpacesBeforeUrl_behaves (sound : parser.Sound)
    (here : parser.state = .sReqSpacesBeforeUrl) (ch : UInt8) :
    Behaves parser (reqSpacesBeforeUrl parser ch) := by
  unfold reqSpacesBeforeUrl
  generalize (if parser.method = .connect then .sReqServerStart else parser.state) = start
  dsimp only
  split_ifs with space dead
  · exact stay_behaves sound (by rw [here]; decide) (by rw [here]; decide)
  · exact failWith_behaves _ (by decide)
  · obtain ⟨url, free⟩ := (parseUrlChar_url _ ch).resolve_left dead
    exact ⟨behind_of_free sound.errno free (Or.inl rfl), by rw [here]; rfl, url⟩

theorem url_behaves (sound : parser.Sound) (here : parser.state.openField = some .url)
    {ch : UInt8} (alive : parseUrlChar parser.state ch ≠ .sDead) :
    Behaves parser (goTo parser (parseUrlChar parser.state ch)) := by
  obtain ⟨url, free⟩ := (parseUrlChar_url _ ch).resolve_left alive
  apply goTo_behaves sound free (url.trans here.symm)
  intro data
  rw [data] at here
  cases here

theorem reqSchema_behaves (sound : parser.Sound) (here : parser.state.openField = some .url)
    (ch : UInt8) : Behaves parser (reqSchema parser ch) := by
  unfold reqSchema
  dsimp only
  split_ifs with space dead
  · exact failWith_behaves _ (by decide)
  · exact failWith_behaves _ (by decide)
  · exact url_behaves sound here dead

theorem mayHold_of_openField {state : State} {field : Field}
    (opened : state.openField = some field) : state.mayHold = some field := by
  cases state <;> first | exact opened | cases opened

theorem reqUrl_behaves (sound : parser.Sound) (here : parser.state.openField = some .url)
    (ch : UInt8) : Behaves parser (reqUrl parser ch) := by
  have held := mayHold_of_openField here
  unfold reqUrl
  dsimp only
  split_ifs with space line carriage dead
  · exact ⟨behind_of_free sound.errno rfl (Or.inl rfl), held, rfl⟩
  · exact ⟨behind_of_free sound.errno rfl (Or.inl rfl), held, rfl⟩
  · exact ⟨behind_of_free sound.errno rfl (Or.inl rfl), held, rfl⟩
  · exact failWith_behaves _ (by decide)
  · exact url_behaves sound here dead

/-! ## Versions and the status line -/

theorem firstMajor_behaves (sound : parser.Sound) (ch : UInt8) {next : State}
    (free : next.free = true) (alike : next.openField = parser.state.openField)
    (notData : parser.state ≠ .sChunkDataAlmostDone) :
    Behaves parser (firstMajor parser ch next) :=
  ⟨behind_of_free sound.errno free (Or.inl rfl), alike, notData⟩

theorem firstMinor_behaves (sound : parser.Sound) (ch : UInt8) {next : State}
    (free : next.free = true) (alike : next.openField = parser.state.openField)
    (notData : parser.state ≠ .sChunkDataAlmostDone) :
    Behaves parser (firstMinor parser ch next) := by
  unfold firstMinor
  split_ifs
  · exact failWith_behaves _ (by decide)
  · exact ⟨behind_of_free sound.errno free (Or.inl rfl), alike, notData⟩

theorem moreMajor_behaves (sound : parser.Sound) (ch : UInt8) {next : State}
    (free : next.free = true) (freeHere : parser.state.free = true)
    (alike : next.openField = parser.state.openField) :
    Behaves parser (moreMajor parser ch next) := by
  have notData : parser.state ≠ .sChunkDataAlmostDone := by
    intro data
    rw [data] at freeHere
    cases freeHere
  unfold moreMajor
  dsimp only
  split_ifs
  · exact goTo_behaves sound free alike notData
  · exact failWith_behaves _ (by decide)
  · exact failWith_behaves _ (by decide)
  · exact ⟨behind_of_free sound.errno freeHere (Or.inl rfl), rfl, notData⟩

theorem moreMinor_behaves (sound : parser.Sound) (ch : UInt8)
    (freeHere : parser.state.free = true) : Behaves parser (moreMinor parser ch) := by
  have notData : parser.state ≠ .sChunkDataAlmostDone := by
    intro data
    rw [data] at freeHere
    cases freeHere
  unfold moreMinor
  dsimp only
  split_ifs
  · exact failWith_behaves _ (by decide)
  · exact failWith_behaves _ (by decide)
  · exact ⟨behind_of_free sound.errno freeHere (Or.inl rfl), rfl, notData⟩

theorem startRes_behaves (sound : parser.Sound) (here : parser.state = .sStartRes) (ch : UInt8) :
    Behaves parser (startRes parser ch) := by
  unfold startRes
  dsimp only
  split_ifs
  · exact ⟨behind_of_free sound.errno rfl (Or.inl rfl), by rw [here]; exact ⟨rfl, rfl⟩⟩
  · refine ⟨behind_of_free sound.errno ?_ (Or.inl rfl), ?_⟩
    · simp only [here]
      rfl
    · simp only [here]
      exact ⟨rfl, rfl⟩
  · exact failWith_behaves _ (by decide)

theorem resStatusCode_behaves (sound : parser.Sound) (here : parser.state = .sResStatusCode)
    (ch : UInt8) : Behaves parser (resStatusCode parser ch) := by
  have notData : parser.state ≠ .sChunkDataAlmostDone := by
    rw [here]
    decide
  unfold resStatusCode
  dsimp only
  split_ifs
  · exact goTo_behaves sound rfl (by rw [here]; rfl) notData
  · exact goTo_behaves sound rfl (by rw [here]; rfl) notData
  · exact goTo_behaves sound rfl (by rw [here]; rfl) notData
  · exact failWith_behaves _ (by decide)
  · exact failWith_behaves _ (by decide)
  · refine ⟨behind_of_free sound.errno ?_ (Or.inl rfl), rfl, notData⟩
    simp only [here]
    rfl

/-! ## Headers -/

theorem headerFieldStart_behaves (sound : parser.Sound) (here : parser.state = .sHeaderFieldStart)
    (ch : UInt8) : Behaves parser (headerFieldStart parser ch) := by
  unfold headerFieldStart
  dsimp only
  split_ifs with carriage line noToken
  · exact goTo_behaves sound rfl (by rw [here]; rfl) (by rw [here]; decide)
  · exact ⟨behind_of_free sound.errno rfl (Or.inl rfl), by rw [here]; exact ⟨rfl, rfl⟩⟩
  · exact failWith_behaves _ (by decide)
  all_goals exact ⟨⟨⟨sound.errno, rfl⟩, nofun, Or.inl rfl⟩, by rw [here]; exact ⟨rfl, rfl⟩⟩

theorem leaveFlag_flags (parser : HttpParser) (hState : HeaderState) :
    ∃ flags, ∀ other : HttpParser, other.flags = parser.flags →
      other.leaveFlag hState = { other with flags := flags } := by
  unfold HttpParser.leaveFlag
  cases flagOf hState with
  | none => exact ⟨parser.flags, by rintro ⟨⟩ rfl; rfl⟩
  | some flag =>
      refine ⟨(parser.setFlag flag).flags, fun other same => ?_⟩
      simp only [HttpParser.setFlag, same]

theorem leaveFlag_eq (parser : HttpParser) (hState : HeaderState) :
    ∃ flags, parser.leaveFlag hState = { parser with flags := flags } := by
  obtain ⟨flags, left⟩ := leaveFlag_flags parser hState
  exact ⟨flags, left parser rfl⟩

theorem headerValueStart_behaves (sound : parser.Sound) (closed : parser.state.mayHold = none)
    (ch : UInt8) : Behaves parser (headerValueStart parser ch) := by
  have begun : ∀ {next : HttpParser}, next.httpErrno = .ok → next.state = .sHeaderValue →
      next.headerState ≠ .hConnection ∧ next.headerState ≠ .hTransferEncoding →
      next.nread = parser.nread → Behaves parser (.read next (.mark .headerValue)) := by
    intro next errno state fits nread
    refine ⟨⟨⟨errno, ?_⟩, fun same => ?_, Or.inl nread⟩, closed, by rw [state]; rfl⟩
    · unfold HttpParser.Fits
      rw [state]
      exact fits
    · rw [state] at same
      cases same
  unfold headerValueStart
  dsimp only
  split
  · exact begun sound.errno rfl (by simp) rfl
  · exact begun sound.errno rfl (by dsimp only; split_ifs <;> simp) rfl
  · split_ifs
    · exact failWith_behaves _ (by decide)
    next same _ => exact begun sound.errno rfl (by simp [same]) rfl
  · exact begun sound.errno rfl (by dsimp only; split_ifs <;> simp) rfl
  next same => exact begun sound.errno rfl (by simp [same]) rfl
  · exact begun sound.errno rfl (by simp) rfl

theorem headerValueStart_ne_again {ch : UInt8} {next : HttpParser} {action : Action} :
    headerValueStart parser ch ≠ .again next action := by
  unfold headerValueStart
  dsimp only
  split <;> try split_ifs
  all_goals nofun

theorem headerValueLws_behaves (sound : parser.Sound) (here : parser.state = .sHeaderValueLws)
    (ch : UInt8) : Behaves parser (headerValueLws parser ch) := by
  obtain ⟨flags, left⟩ := leaveFlag_eq parser parser.headerState
  unfold headerValueLws
  rw [left]
  split_ifs
  · exact ⟨behind_of_free sound.errno rfl (Or.inl rfl), by rw [here]; exact ⟨rfl, rfl⟩⟩
  · exact ⟨behind_of_free sound.errno rfl (Or.inl rfl), by rw [here]; exact ⟨rfl, rfl⟩⟩

theorem headerValueDiscardLws_behaves (sound : parser.Sound)
    (here : parser.state = .sHeaderValueDiscardLws) (ch : UInt8) :
    Behaves parser (headerValueDiscardLws parser ch) := by
  obtain ⟨flags, left⟩ := leaveFlag_eq parser parser.headerState
  unfold headerValueDiscardLws
  rw [left]
  split_ifs
  · exact goTo_behaves sound rfl (by rw [here]; rfl) (by rw [here]; decide)
  · exact ⟨behind_of_free sound.errno rfl (Or.inl rfl), by rw [here]; exact ⟨rfl, rfl⟩⟩

/-! ## The end of the headers -/

theorem complete_behaves (closed : parser.state.mayHold = none)
    {next : HttpParser} (errno : next.httpErrno = .ok) {message : HttpParser}
    (state : next.state = message.newMessage)
    (nread : next.nread = parser.nread ∨ next.nread = 0) :
    Behaves parser (.read next (.notify .messageComplete)) := by
  obtain ⟨free, unopened⟩ := newMessage_free message
  rw [← state] at free unopened
  exact ⟨behind_of_free errno free nread, closed, unopened⟩

theorem headersAlmostDone_behaves (sound : parser.Sound)
    (here : parser.state = .sHeadersAlmostDone) (ch : UInt8) :
    Behaves parser (headersAlmostDone parser ch) := by
  unfold headersAlmostDone
  split_ifs
  · exact failWith_behaves _ (by decide)
  · exact complete_behaves (by rw [here]; rfl) sound.errno rfl (Or.inl rfl)
  · exact ⟨behind_of_free sound.errno rfl (Or.inl rfl), by rw [here]; exact ⟨rfl, rfl⟩⟩

theorem headersDone_behaves (sound : parser.Sound) (here : parser.state = .sHeadersDone)
    (ch : UInt8) : Behaves parser (headersDone parser ch) := by
  have closed : parser.state.mayHold = none := by rw [here]; rfl
  have quiet : ∀ next : State, next.openField = none →
      Action.quiet.Reads parser.state next := by
    intro next none
    rw [here]
    exact ⟨none, by decide⟩
  unfold headersDone
  dsimp only
  split_ifs with line upgrades skips chunks empty counted ends
  · exact failWith_behaves _ (by decide)
  · obtain ⟨free, unopened⟩ := newMessage_free { parser with nread := 0 }
    exact ⟨behind_of_free sound.errno free (Or.inr rfl), ⟨closed, unopened⟩, upgrades, _, rfl⟩
  · exact complete_behaves closed sound.errno rfl (Or.inr rfl)
  · exact ⟨⟨⟨sound.errno, chunks⟩, fun _ => rfl, Or.inr rfl⟩, quiet _ rfl⟩
  · exact complete_behaves closed sound.errno rfl (Or.inr rfl)
  · exact ⟨⟨⟨sound.errno, empty, counted⟩, nofun, Or.inr rfl⟩, quiet _ rfl⟩
  · exact complete_behaves closed sound.errno rfl (Or.inr rfl)
  · exact ⟨behind_of_free sound.errno rfl (Or.inr rfl), quiet _ rfl⟩

/-! ## Chunks -/

theorem unhex_bound (ch : UInt8) : unhex ch = -1 ∨ 0 ≤ unhex ch ∧ unhex ch ≤ 15 := by
  have rows : ∀ value ∈ unhexRows, value = -1 ∨ 0 ≤ value ∧ value ≤ 15 := by
    simp [unhexRows]
  unfold unhex
  rw [List.getD_eq_getElem?_getD]
  cases found : unhexRows[ch.toNat]? with
  | none => exact Or.inr (by decide)
  | some value => exact rows value (List.mem_of_getElem? found)

theorem toNat_unhex {ch : UInt8} (digit : unhex ch ≠ -1) :
    (UInt64.ofInt (unhex ch)).toNat = (unhex ch).toNat ∧ (unhex ch).toNat ≤ 15 := by
  obtain ⟨low, high⟩ := (unhex_bound ch).resolve_left digit
  obtain ⟨value, same⟩ := Int.eq_ofNat_of_zero_le low
  rw [same] at high ⊢
  have small : value ≤ 15 := by omega
  refine ⟨?_, small⟩
  rw [UInt64.ofInt, Int.emod_eq_of_lt (by omega) (by omega), UInt64.toNat_ofNat']
  exact Nat.mod_eq_of_lt (by rw [Int.toNat_natCast]; omega)

theorem chunkSizeStart_behaves (sound : parser.Sound) (here : parser.state = .sChunkSizeStart)
    (ch : UInt8) : Behaves parser (chunkSizeStart parser ch) := by
  have fits := sound.fits
  unfold HttpParser.Fits at fits
  rw [here] at fits
  unfold chunkSizeStart
  split_ifs with digit
  · exact failWith_behaves _ (by decide)
  · obtain ⟨value, small⟩ := toNat_unhex digit
    refine ⟨⟨⟨sound.errno, fits, ?_⟩, nofun, Or.inl rfl⟩, by rw [here]; rfl, by rw [here]; decide⟩
    intro most
    rw [show UInt64.ofInt (unhex ch) = ullongMax from most] at value
    rw [← value] at small
    exact absurd small (by decide)

theorem chunkSize_behaves (sound : parser.Sound) (here : parser.state = .sChunkSize)
    (ch : UInt8) : Behaves parser (chunkSize parser ch) := by
  have fits := sound.fits
  unfold HttpParser.Fits at fits
  rw [here] at fits
  obtain ⟨chunks, notMost⟩ := fits
  have quiet : ∀ next : State, next.openField = none →
      Action.quiet.Reads parser.state next := by
    intro next none
    rw [here]
    exact ⟨none, by decide⟩
  unfold chunkSize
  split_ifs with carriage noDigit parameters large
  · exact ⟨⟨⟨sound.errno, chunks, notMost⟩, nofun, Or.inl rfl⟩, quiet _ rfl⟩
  · exact ⟨⟨⟨sound.errno, chunks, notMost⟩, nofun, Or.inl rfl⟩, quiet _ rfl⟩
  · exact failWith_behaves _ (by decide)
  · exact failWith_behaves _ (by decide)
  · obtain ⟨value, small⟩ := toNat_unhex noDigit
    refine ⟨⟨⟨sound.errno, ?_⟩, ?_, Or.inl rfl⟩, rfl, by rw [here]; decide⟩
    · unfold HttpParser.Fits
      simp only [here]
      refine ⟨chunks, ?_⟩
      intro most
      have within : parser.contentLength.toNat ≤ ((ullongMax - 16) / 16).toNat :=
        Nat.le_of_not_lt fun less => large (UInt64.lt_iff_toNat_lt.mpr less)
      have total := congrArg UInt64.toNat most
      rw [UInt64.toNat_add, UInt64.toNat_mul, value] at total
      have limit : ((ullongMax - 16) / 16).toNat = 1152921504606846974 := by decide
      have top : ullongMax.toNat = 18446744073709551615 := by decide
      rw [limit] at within
      rw [top] at total
      simp only [UInt64.reduceToNat] at total
      omega
    · intro start
      rw [show parser.state = _ from start] at here
      cases here

theorem chunkSizeAlmostDone_behaves (sound : parser.Sound)
    (here : parser.state = .sChunkSizeAlmostDone) (ch : UInt8) :
    Behaves parser (chunkSizeAlmostDone parser ch) := by
  have fits := sound.fits
  unfold HttpParser.Fits at fits
  rw [here] at fits
  obtain ⟨chunks, notMost⟩ := fits
  unfold chunkSizeAlmostDone
  dsimp only
  split_ifs with line empty
  · exact failWith_behaves _ (by decide)
  · exact ⟨behind_of_free sound.errno rfl (Or.inr rfl), by rw [here]; rfl, by rw [here]; decide⟩
  · exact ⟨⟨⟨sound.errno, chunks, empty, notMost⟩, nofun, Or.inr rfl⟩, by rw [here]; rfl,
      by rw [here]; decide⟩

/-! ## The switch -/

def State.single : State → Bool
  | .sHeaderField | .sHeaderValue | .sBodyIdentity | .sBodyIdentityEof | .sChunkData => false
  | _ => true

theorem charStep_behaves (sound : parser.Sound) (single : parser.state.single = true)
    (ch : UInt8) : Behaves parser (charStep parser ch) := by
  unfold charStep
  cases here : parser.state <;> rw [here] at single <;> dsimp only
  case sStartReq => exact startReq_behaves sound here ch
  case sReqMethod => exact reqMethod_behaves sound here ch
  case sReqSpacesBeforeUrl => exact reqSpacesBeforeUrl_behaves sound here ch
  case sReqSchema | sReqSchemaSlash | sReqSchemaSlashSlash | sReqServerStart =>
    exact reqSchema_behaves sound (by rw [here]; rfl) ch
  case sReqServer | sReqServerWithAt | sReqPath | sReqQueryStringStart | sReqQueryString
    | sReqFragmentStart | sReqFragment => exact reqUrl_behaves sound (by rw [here]; rfl) ch
  case sStartRes => exact startRes_behaves sound here ch
  case sResStatusCode => exact resStatusCode_behaves sound here ch
  case sHeaderFieldStart => exact headerFieldStart_behaves sound here ch
  case sHeaderValueStart => exact headerValueStart_behaves sound (by rw [here]; rfl) ch
  case sHeaderValueLws => exact headerValueLws_behaves sound here ch
  case sHeaderValueDiscardLws => exact headerValueDiscardLws_behaves sound here ch
  case sHeadersAlmostDone => exact headersAlmostDone_behaves sound here ch
  case sHeadersDone => exact headersDone_behaves sound here ch
  case sMessageDone =>
    exact complete_behaves (by rw [here]; rfl) sound.errno rfl (Or.inl rfl)
  case sChunkSizeStart => exact chunkSizeStart_behaves sound here ch
  case sChunkSize => exact chunkSize_behaves sound here ch
  case sChunkSizeAlmostDone => exact chunkSizeAlmostDone_behaves sound here ch
  case sResH | sResHT | sResHTT | sResHTTP | sResLineAlmostDone | sReqHttpH | sReqHttpHT
    | sReqHttpHTT | sReqHttpHTTP | sHeaderAlmostDone | sHeaderValueDiscardWsAlmostDone =>
    exact expect_behaves sound _ _ rfl (by rw [here]; rfl) (by rw [here]; decide)
  case sDead =>
    split_ifs
    · exact stay_behaves sound (by rw [here]; decide) (by rw [here]; decide)
    · exact failWith_behaves _ (by decide)
  case sStartReqOrRes =>
    split_ifs
    · exact stay_behaves sound (by rw [here]; decide) (by rw [here]; decide)
    · exact ⟨behind_of_free sound.errno rfl (Or.inl rfl), by rw [here]; exact ⟨rfl, rfl⟩⟩
    · exact ⟨behind_of_free sound.errno rfl (Or.inl rfl), by rw [here]; exact ⟨rfl, rfl⟩⟩
  case sResOrRespH =>
    split_ifs
    · exact ⟨behind_of_free sound.errno rfl (Or.inl rfl), by rw [here]; rfl, by rw [here]; decide⟩
    · exact failWith_behaves _ (by decide)
    · have inside : (2 : UInt8).toNat ≤ (methodStrings .head).length := by decide
      exact ⟨⟨⟨sound.errno, inside⟩, nofun, Or.inl rfl⟩, by rw [here]; rfl, by rw [here]; decide⟩
  case sResFirstHttpMajor | sReqFirstHttpMajor =>
    split_ifs
    · exact failWith_behaves _ (by decide)
    · exact firstMajor_behaves sound ch rfl (by rw [here]; rfl) (by rw [here]; decide)
  case sResHttpMajor | sReqHttpMajor =>
    exact moreMajor_behaves sound ch rfl (by rw [here]; rfl) (by rw [here]; rfl)
  case sResFirstHttpMinor | sReqFirstHttpMinor =>
    exact firstMinor_behaves sound ch rfl (by rw [here]; rfl) (by rw [here]; decide)
  case sResHttpMinor =>
    split_ifs
    · exact goTo_behaves sound rfl (by rw [here]; rfl) (by rw [here]; decide)
    · exact moreMinor_behaves sound ch (by rw [here]; rfl)
  case sResFirstStatusCode =>
    split_ifs
    · exact stay_behaves sound (by rw [here]; decide) (by rw [here]; decide)
    · exact failWith_behaves _ (by decide)
    · exact ⟨behind_of_free sound.errno rfl (Or.inl rfl), by rw [here]; rfl, by rw [here]; decide⟩
  case sResStatusStart =>
    split_ifs
    · exact goTo_behaves sound rfl (by rw [here]; rfl) (by rw [here]; decide)
    · exact goTo_behaves sound rfl (by rw [here]; rfl) (by rw [here]; decide)
    · exact ⟨behind_of_free sound.errno rfl (Or.inl rfl), by rw [here]; rfl, rfl⟩
  case sResStatus =>
    split_ifs
    · exact ⟨behind_of_free sound.errno rfl (Or.inl rfl), by rw [here]; rfl, rfl⟩
    · exact ⟨behind_of_free sound.errno rfl (Or.inl rfl), by rw [here]; rfl, rfl⟩
    · exact stay_behaves sound (by rw [here]; decide) (by rw [here]; decide)
  case sReqHttpStart =>
    split_ifs
    · exact goTo_behaves sound rfl (by rw [here]; rfl) (by rw [here]; decide)
    · exact stay_behaves sound (by rw [here]; decide) (by rw [here]; decide)
    · exact failWith_behaves _ (by decide)
  case sReqHttpMinor =>
    split_ifs
    · exact goTo_behaves sound rfl (by rw [here]; rfl) (by rw [here]; decide)
    · exact goTo_behaves sound rfl (by rw [here]; rfl) (by rw [here]; decide)
    · exact moreMinor_behaves sound ch (by rw [here]; rfl)
  case sReqLineAlmostDone =>
    split_ifs
    · exact failWith_behaves _ (by decide)
    · exact goTo_behaves sound rfl (by rw [here]; rfl) (by rw [here]; decide)
  case sHeaderValueDiscardWs =>
    split_ifs
    · exact stay_behaves sound (by rw [here]; decide) (by rw [here]; decide)
    · exact goTo_behaves sound rfl (by rw [here]; rfl) (by rw [here]; decide)
    · exact goTo_behaves sound rfl (by rw [here]; rfl) (by rw [here]; decide)
    · exact headerValueStart_behaves sound (by rw [here]; rfl) ch
  case sChunkParameters =>
    have fits := sound.fits
    unfold HttpParser.Fits at fits
    rw [here] at fits
    split_ifs
    · exact ⟨⟨⟨sound.errno, fits⟩, nofun, Or.inl rfl⟩, by rw [here]; rfl, by rw [here]; decide⟩
    · exact stay_behaves sound (by rw [here]; decide) (by rw [here]; decide)
  case sChunkDataAlmostDone =>
    have fits := sound.fits
    unfold HttpParser.Fits at fits
    rw [here] at fits
    split_ifs
    · exact failWith_behaves _ (by decide)
    · exact ⟨⟨⟨sound.errno, fits.1⟩, nofun, Or.inl rfl⟩, by rw [here]; rfl, rfl⟩
  case sChunkDataDone =>
    have fits := sound.fits
    unfold HttpParser.Fits at fits
    rw [here] at fits
    split_ifs
    · exact failWith_behaves _ (by decide)
    · exact ⟨⟨⟨sound.errno, fits⟩, fun _ => rfl, Or.inr rfl⟩, by rw [here]; rfl, by rw [here]; decide⟩
  all_goals cases single

/-- A character is looked at again in a state of lower rank, and only behind the headers
does the parser decide whether to upgrade. -/
theorem charStep_again {ch : UInt8} {next : HttpParser} {action : Action}
    (again : charStep parser ch = .again next action) :
    next.state.rank < parser.state.rank ∧
      (next.upgrade = parser.upgrade ∨ next.state = .sHeadersDone) := by
  unfold charStep at again
  cases here : parser.state <;> rw [here] at again <;> dsimp only at again
  case sHeaderFieldStart =>
    unfold headerFieldStart at again
    dsimp only at again
    split_ifs at again <;> cases again
    exact ⟨by simp [State.rank], Or.inl rfl⟩
  case sHeaderValueLws =>
    unfold headerValueLws at again
    obtain ⟨flags, left⟩ := leaveFlag_eq parser parser.headerState
    rw [left] at again
    split_ifs at again <;> cases again <;> exact ⟨by simp [State.rank], Or.inl rfl⟩
  case sHeaderValueDiscardLws =>
    unfold headerValueDiscardLws at again
    obtain ⟨flags, left⟩ := leaveFlag_eq parser parser.headerState
    rw [left] at again
    split_ifs at again <;> cases again
    exact ⟨by simp [State.rank], Or.inl rfl⟩
  case sHeadersAlmostDone =>
    unfold headersAlmostDone at again
    split_ifs at again <;> cases again
    exact ⟨by simp [State.rank], Or.inr rfl⟩
  case sStartReqOrRes =>
    split_ifs at again
    cases again
    exact ⟨by simp [State.rank], Or.inl rfl⟩
  -- No other case looks at its character again.
  case sStartReq =>
    unfold startReq at again
    cases known : methodOf ch <;> simp only [known] at again <;> split_ifs at again <;> cases again
  case sReqMethod =>
    unfold reqMethod at again
    generalize otherMethod parser.method parser.index.toNat ch = other at again
    split at again
    · cases again
    · split at again
      · cases again
      · cases other <;> dsimp only at again <;> split_ifs at again
        all_goals cases again
  case sHeaderValueStart => exact absurd again headerValueStart_ne_again
  case sHeaderValueDiscardWs =>
    split_ifs at again
    · cases again
    · cases again
    · exact absurd again headerValueStart_ne_again
  all_goals
    try simp only [expect, goTo, failWith, firstMajor, firstMinor, moreMajor, moreMinor, startRes,
      resStatusCode, reqSpacesBeforeUrl, reqSchema, reqUrl, headersDone, chunkSizeStart, chunkSize,
      chunkSizeAlmostDone] at again
    first
      | cases again
      | split_ifs at again

end UAFlow.Http
