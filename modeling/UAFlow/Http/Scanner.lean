import UAFlow.Http.Sound

/-!
# The scanner

The bytes counted so far decide nothing but when a header is too long, so the scanner
runs without a count.  It keeps parsers sound.
-/

namespace UAFlow.Http

open Library

variable {parser next : HttpParser} {ch : UInt8} {symbols : List Symbol}

/-! ## The count -/

def Verdict.uncounted : Verdict → Verdict
  | .read parser action => .read parser.uncounted action
  | .again parser action => .again parser.uncounted action
  | .leave parser action => .leave parser.uncounted action
  | .fail parser => .fail parser.uncounted
  | .fault kind => .fault kind

theorem startReq_uncounted (parser : HttpParser) (ch : UInt8) :
    startReq parser.uncounted ch = (startReq parser ch).uncounted := by
  unfold startReq
  cases methodOf ch <;> simp only [apply_ite Verdict.uncounted] <;> rfl

theorem reqMethod_uncounted (parser : HttpParser) (ch : UInt8) :
    reqMethod parser.uncounted ch = (reqMethod parser ch).uncounted := by
  unfold reqMethod
  rw [show parser.uncounted.method = parser.method from rfl,
    show parser.uncounted.index = parser.index from rfl]
  cases (methodStrings parser.method ++ [0])[parser.index.toNat]? <;>
    cases otherMethod parser.method parser.index.toNat ch <;>
      simp only [apply_ite Verdict.uncounted] <;> rfl

theorem leaveFlag_uncounted (parser : HttpParser) (hState : HeaderState) :
    parser.uncounted.leaveFlag hState = (parser.leaveFlag hState).uncounted := by
  unfold HttpParser.leaveFlag
  cases flagOf hState <;> rfl

theorem headerValueStart_uncounted (parser : HttpParser) (ch : UInt8) :
    headerValueStart parser.uncounted ch = (headerValueStart parser ch).uncounted := by
  obtain ⟨_, _, _, headerState, _⟩ := parser
  cases headerState <;>
    simp only [headerValueStart, HttpParser.uncounted, apply_ite Verdict.uncounted] <;> rfl

theorem headerValueLws_uncounted (parser : HttpParser) (ch : UInt8) :
    headerValueLws parser.uncounted ch = (headerValueLws parser ch).uncounted := by
  unfold headerValueLws
  rw [show parser.uncounted.headerState = parser.headerState from rfl, leaveFlag_uncounted,
    apply_ite Verdict.uncounted]
  rfl

theorem headerValueDiscardLws_uncounted (parser : HttpParser) (ch : UInt8) :
    headerValueDiscardLws parser.uncounted ch = (headerValueDiscardLws parser ch).uncounted := by
  unfold headerValueDiscardLws
  rw [show parser.uncounted.headerState = parser.headerState from rfl, leaveFlag_uncounted,
    apply_ite Verdict.uncounted]
  rfl

/-- The count decides nothing. -/
theorem charStep_uncounted (parser : HttpParser) (ch : UInt8) :
    charStep parser.uncounted ch = (charStep parser ch).uncounted := by
  unfold charStep
  rw [show parser.uncounted.state = parser.state from rfl]
  cases parser.state <;> dsimp only
  case sStartReq => exact startReq_uncounted parser ch
  case sReqMethod => exact reqMethod_uncounted parser ch
  case sHeaderValueStart => exact headerValueStart_uncounted parser ch
  case sHeaderValueDiscardWs =>
    simp only [headerValueStart_uncounted, apply_ite Verdict.uncounted]
    rfl
  case sHeaderValueLws => exact headerValueLws_uncounted parser ch
  case sHeaderValueDiscardLws => exact headerValueDiscardLws_uncounted parser ch
  all_goals
    try simp only [expect, startRes, moreMajor, firstMinor, moreMinor, resStatusCode,
      reqSpacesBeforeUrl, reqSchema, reqUrl, headerFieldStart, headersAlmostDone, headersDone,
      chunkSizeStart, chunkSize, chunkSizeAlmostDone, apply_ite Verdict.uncounted]
    rfl

/-! ## Names and values -/

theorem matching_eq (index : UInt8) (text : List UInt8) (c : UInt8)
    (here matched missed : HeaderState) :
    ∃ headerState, (headerState = here ∨ headerState = matched ∨ headerState = missed) ∧
      ∀ parser : HttpParser, parser.index = index →
        matching parser text c here matched missed =
          ({ parser with index := index + 1 }, headerState) := by
  unfold matching
  by_cases missing : (index + 1).toNat > text.length ∨ c ≠ (text ++ [0]).getD (index + 1).toNat 0
  · exact ⟨missed, by simp, by rintro parser rfl; rw [if_pos missing]⟩
  by_cases last : (index + 1).toNat = text.length - 1
  · exact ⟨matched, by simp, by rintro parser rfl; rw [if_neg missing, if_pos last]⟩
  · exact ⟨here, by simp, by rintro parser rfl; rw [if_neg missing, if_neg last]⟩

theorem fieldChar_eq (naming : parser.headerState.naming = true) (ch c : UInt8) :
    ∃ index headerState, headerState.naming = true ∧ ∀ nread,
      fieldChar { parser with nread := nread } ch c =
        .ok { parser with nread := nread, index := index, headerState := headerState } := by
  have compare : ∀ (text : List UInt8) (matched : HeaderState), matched.naming = true →
      ∃ index headerState, headerState.naming = true ∧ ∀ nread,
        matching { parser with nread := nread } text c parser.headerState matched .hGeneral =
          ({ parser with nread := nread, index := index }, headerState) := by
    intro text matched named
    obtain ⟨headerState, which, compares⟩ :=
      matching_eq parser.index text c parser.headerState matched .hGeneral
    refine ⟨_, headerState, ?_, fun nread => compares _ rfl⟩
    rcases which with rfl | rfl | rfl
    · exact naming
    · exact named
    · rfl
  unfold fieldChar
  dsimp only
  cases here : parser.headerState <;> rw [here] at naming compare <;> dsimp only
  case hMatchingConnection =>
    obtain ⟨index, headerState, named, same⟩ := compare connection .hConnection rfl
    exact ⟨index, headerState, named, fun nread => by rw [same]⟩
  case hMatchingProxyConnection =>
    obtain ⟨index, headerState, named, same⟩ := compare proxyConnection .hConnection rfl
    exact ⟨index, headerState, named, fun nread => by rw [same]⟩
  case hMatchingContentLength =>
    obtain ⟨index, headerState, named, same⟩ := compare contentLength .hContentLength rfl
    exact ⟨index, headerState, named, fun nread => by rw [same]⟩
  case hMatchingTransferEncoding =>
    obtain ⟨index, headerState, named, same⟩ := compare transferEncoding .hTransferEncoding rfl
    exact ⟨index, headerState, named, fun nread => by rw [same]⟩
  case hMatchingUpgrade =>
    obtain ⟨index, headerState, named, same⟩ := compare upgrade .hUpgrade rfl
    exact ⟨index, headerState, named, fun nread => by rw [same]⟩
  case hGeneral => exact ⟨_, _, naming, fun _ => rfl⟩
  case hC => exact ⟨_, _, by split_ifs <;> rfl, fun _ => rfl⟩
  case hCO => exact ⟨_, _, by split_ifs <;> rfl, fun _ => rfl⟩
  case hCON => exact ⟨_, _, by split_ifs <;> rfl, fun _ => rfl⟩
  case hConnection | hContentLength | hTransferEncoding | hUpgrade =>
    split_ifs
    · exact ⟨_, .hGeneral, rfl, fun _ => rfl⟩
    · exact ⟨_, _, naming, fun _ => rfl⟩
  all_goals cases naming

/-- The states a value can be in. -/
def HeaderState.valued (headerState : HeaderState) : Prop :=
  headerState ≠ .hConnection ∧ headerState ≠ .hTransferEncoding

instance (headerState : HeaderState) : Decidable headerState.valued :=
  inferInstanceAs (Decidable (_ ∧ _))

theorem valueChar_eq {hState : HeaderState} (valued : hState.valued) (ch : UInt8) :
    (∀ nread before,
      valueChar { parser with nread := nread, headerState := before } hState ch = .ok none) ∨
      ∃ flags index contentLength headerState, headerState.valued ∧ ∀ nread before,
        valueChar { parser with nread := nread, headerState := before } hState ch =
          .ok (some ({ parser with
            flags := flags
            headerState := before
            index := index
            nread := nread
            contentLength := contentLength }, headerState)) := by
  have compare : ∀ (text : List UInt8) (matched missed : HeaderState), matched.valued →
      missed.valued → ∃ index headerState, headerState.valued ∧ ∀ nread before,
        matching { parser with nread := nread, headerState := before } text (lower ch) hState
            matched missed =
          ({ parser with nread := nread, headerState := before, index := index }, headerState) := by
    intro text matched missed right wrong
    obtain ⟨headerState, which, compares⟩ :=
      matching_eq parser.index text (lower ch) hState matched missed
    refine ⟨_, headerState, ?_, fun nread before => compares _ rfl⟩
    rcases which with rfl | rfl | rfl
    · exact valued
    · exact right
    · exact wrong
  unfold valueChar
  cases hState <;> dsimp only
  case hMatchingTransferEncodingChunked =>
    obtain ⟨index, headerState, isValued, same⟩ :=
      compare chunked .hTransferEncodingChunked .hGeneral (by decide) (by decide)
    exact Or.inr ⟨_, index, _, headerState, isValued, fun nread before => by rw [same]⟩
  case hMatchingConnectionKeepAlive =>
    obtain ⟨index, headerState, isValued, same⟩ :=
      compare keepAlive .hConnectionKeepAlive .hMatchingConnectionToken (by decide) (by decide)
    exact Or.inr ⟨_, index, _, headerState, isValued, fun nread before => by rw [same]⟩
  case hMatchingConnectionClose =>
    obtain ⟨index, headerState, isValued, same⟩ :=
      compare close .hConnectionClose .hMatchingConnectionToken (by decide) (by decide)
    exact Or.inr ⟨_, index, _, headerState, isValued, fun nread before => by rw [same]⟩
  case hMatchingConnectionUpgrade =>
    obtain ⟨index, headerState, isValued, same⟩ :=
      compare upgrade .hConnectionUpgrade .hMatchingConnectionToken (by decide) (by decide)
    exact Or.inr ⟨_, index, _, headerState, isValued, fun nread before => by rw [same]⟩
  case hContentLength =>
    split_ifs
    · exact Or.inr ⟨_, _, _, _, valued, fun _ _ => rfl⟩
    · exact Or.inl fun _ _ => rfl
    · exact Or.inl fun _ _ => rfl
    · exact Or.inr ⟨_, _, _, _, valued, fun _ _ => rfl⟩
  case hMatchingConnectionTokenStart =>
    exact Or.inr ⟨_, _, _, _, by split_ifs <;> decide, fun _ _ => rfl⟩
  case hMatchingConnectionToken =>
    split_ifs
    · exact Or.inr ⟨_, _, _, .hMatchingConnectionTokenStart, by decide, fun _ _ => rfl⟩
    · exact Or.inr ⟨_, _, _, _, valued, fun _ _ => rfl⟩
  case hTransferEncodingChunked =>
    exact Or.inr ⟨_, _, _, _, by split_ifs <;> decide, fun _ _ => rfl⟩
  case hConnectionKeepAlive | hConnectionClose | hConnectionUpgrade =>
    split_ifs
    · obtain ⟨flags, left⟩ := leaveFlag_flags parser _
      exact Or.inr ⟨flags, 0, _, .hMatchingConnectionTokenStart, by decide,
        fun nread before => by
          rw [left { parser with nread := nread, headerState := before } rfl]⟩
    · exact Or.inr ⟨_, _, _, .hMatchingConnectionToken, by decide, fun _ _ => rfl⟩
    · exact Or.inr ⟨_, _, _, _, valued, fun _ _ => rfl⟩
  case hConnection => exact absurd rfl valued.1
  case hTransferEncoding => exact absurd rfl valued.2
  all_goals exact Or.inr ⟨_, _, _, .hGeneral, by decide, fun _ _ => rfl⟩
/-! ## Reactions -/

theorem react_single (single : parser.state.single = true) (ch : UInt8) :
    react parser ch = (charStep parser ch).reaction parser ch := by
  unfold react
  cases here : parser.state <;> rw [here] at single <;> first | rfl | cases single

theorem react_descends (again : react parser ch = .again next symbols) :
    next.state.rank < parser.state.rank := by
  unfold react at again
  cases here : parser.state <;> simp only [here] at again
  case sHeaderField =>
    split_ifs at again
    split at again <;> cases again
  case sHeaderValue =>
    split_ifs at again
    · cases again
      simp [State.rank]
    · split at again <;> cases again
  case sBodyIdentity =>
    split_ifs at again
    cases again
    simp [State.rank]
  case sChunkData => split_ifs at again
  case sBodyIdentityEof => cases again
  all_goals
    rw [← here]
    cases verdict : charStep parser ch with
    | again later action =>
        rw [verdict] at again
        cases again
        exact (charStep_again verdict).1
    | read later action => rw [verdict] at again; cases again
    | leave later action => rw [verdict] at again; cases again
    | fail later => rw [verdict] at again; cases again
    | fault kind => rw [verdict] at again; cases again

/-- The parser without its count. -/
def httpScanner : Scanner HttpParser UInt8 Symbol where
  react := react
  rank parser := parser.state.rank
  descends := react_descends

end UAFlow.Http
