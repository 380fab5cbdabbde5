import UAFlow.Http.Counts

/-!
# The loops over names, values and bodies

Each loop runs over as many characters as the scanner would read one by one.
-/

namespace UAFlow.Http

open Library

variable {parser : HttpParser}

/-! ## Names -/

/-- What the loop over a name comes to: it stops at a character that is no token. -/
structure NameScan (parser : HttpParser) (text : List UInt8) (next : HttpParser)
    (letters rest : List UInt8) : Prop where
  kept : ∃ index headerState, next = { parser with index := index, headerState := headerState }
  naming : next.headerState.naming = true
  whole : text = letters ++ rest
  loops : headerFieldLoop parser text = .ok (next, rest)
  stops : ∀ ch ∈ rest.head?, token ch = 0
  scans : httpScanner.scan parser.uncounted text =
    (httpScanner.scan next.uncounted rest).put (letters.map (.letter .headerField))
  counts : ∀ count, metered parser.uncounted text count =
    metered next.uncounted rest (count.letters letters.length)

theorem headerFieldLoop_scan (here : parser.state = .sHeaderField)
    (naming : parser.headerState.naming = true) (text : List UInt8) :
    ∃ next letters rest, NameScan parser text next letters rest := by
  induction text generalizing parser with
  | nil =>
      exact ⟨parser, [], [], ⟨_, _, rfl⟩, naming, rfl, rfl, nofun, rfl,
        fun count => by rw [List.length_nil, count.letters_zero]⟩
  | cons ch text inductionHypothesis =>
      by_cases ends : token ch = 0
      · refine ⟨parser, [], ch :: text, ⟨_, _, rfl⟩, naming, rfl, ?_, ?_, rfl,
          fun count => by rw [List.length_nil, count.letters_zero]⟩
        · rw [headerFieldLoop]
          simp [ends]
        · rintro _ ⟨⟩
          exact ends
      · obtain ⟨index, headerState, named, same⟩ := fieldChar_eq naming ch (token ch)
        let next : HttpParser := { parser with index := index, headerState := headerState }
        have reads : fieldChar parser ch (token ch) = .ok next := same parser.nread
        have reacts : httpScanner.react parser.uncounted ch =
            .read next.uncounted [.letter .headerField ch] := by
          show react parser.uncounted ch = _
          unfold react
          rw [show parser.uncounted.state = .sHeaderField from here]
          dsimp only
          rw [if_neg ends, show fieldChar parser.uncounted ch (token ch) = _ from same 0]
          rfl
        obtain ⟨last, letters, rest, scan⟩ := @inductionHypothesis next here named
        obtain ⟨index', headerState', kept⟩ := scan.kept
        refine ⟨last, ch :: letters, rest, ⟨index', headerState', kept⟩, scan.naming,
          by rw [scan.whole, List.cons_append], ?_, scan.stops, ?_, fun count => ?_⟩
        · rw [headerFieldLoop]
          simp only [ends, if_false, reads]
          exact scan.loops
        · rw [Scanner.scan_read reacts, scan.scans, Scanned.put_put]
          rfl
        · rw [metered, Scanner.meter_read reacts, show parser.uncounted.state = _ from here]
          exact (scan.counts _).trans (congrArg _ (count.look_letters (runs_field.mpr ends) _))

theorem react_nameEnd (here : parser.state = .sHeaderField) {ch : UInt8} (noToken : token ch = 0) :
    react parser ch =
      if ch = byte ':' then
        .read { parser with state := .sHeaderValueDiscardWs } [.closed .headerField]
      else
        .fail { parser with httpErrno := .invalidHeaderToken } := by
  unfold react
  rw [here]
  dsimp only
  rw [if_pos noToken, ← here]

/-! ## Values -/

theorem react_general (here : parser.state = .sHeaderValue) (general : parser.headerState = .hGeneral)
    {ch : UInt8} (inLine : ch ≠ cr ∧ ch ≠ lf) :
    react parser ch = .read parser [.letter .headerValue ch] := by
  unfold react
  rw [here]
  dsimp only
  rw [if_neg inLine.1, if_neg inLine.2, general]
  show Reaction.read { parser with headerState := .hGeneral } _ = _
  rw [← general]

/-- Where nothing is compared, all characters up to the end of the line are read. -/
theorem scan_general (here : parser.state = .sHeaderValue) (general : parser.headerState = .hGeneral)
    {letters : List UInt8} (inLine : ∀ ch ∈ letters, ch ≠ cr ∧ ch ≠ lf) (rest : List UInt8) :
    httpScanner.scan parser (letters ++ rest) =
      (httpScanner.scan parser rest).put (letters.map (.letter .headerValue)) := by
  induction letters with
  | nil => rfl
  | cons ch letters inductionHypothesis =>
      obtain ⟨first, inLine⟩ := List.forall_mem_cons.mp inLine
      have reacts : httpScanner.react parser ch = _ := react_general here general first
      rw [List.cons_append, Scanner.scan_read reacts, inductionHypothesis inLine, Scanned.put_put]
      rfl

theorem metered_general (here : parser.state = .sHeaderValue)
    (general : parser.headerState = .hGeneral) {letters : List UInt8}
    (inLine : ∀ ch ∈ letters, ch ≠ cr ∧ ch ≠ lf) (rest : List UInt8) (count : HeaderCount) :
    metered parser (letters ++ rest) count =
      metered parser rest (count.letters letters.length) := by
  induction letters generalizing count with
  | nil =>
      rw [List.length_nil, count.letters_zero]
      rfl
  | cons ch letters inductionHypothesis =>
      obtain ⟨first, inLine⟩ := List.forall_mem_cons.mp inLine
      have reacts : httpScanner.react parser ch = _ := react_general here general first
      rw [List.cons_append, metered, Scanner.meter_read reacts, here]
      exact (inductionHypothesis inLine _).trans
        (congrArg _ (count.look_letters (runs_value.mpr first) _))

/-- In a line without end too much is counted. -/
theorem metered_endless (here : parser.state = .sHeaderValue)
    (general : parser.headerState = .hGeneral) {letters : List UInt8}
    (inLine : ∀ ch ∈ letters, ch ≠ cr ∧ ch ≠ lf) (large : httpMaxHeaderSize ≤ letters.length)
    (ch : UInt8) (rest : List UInt8) (count : HeaderCount) :
    httpMaxHeaderSize < (metered parser (letters ++ ch :: rest) count).most := by
  have looks := look_le_metered (count.letters letters.length) parser ch rest
  have one : 1 ≤ (count.letters letters.length).amount .sHeaderValue ch :=
    (count.letters letters.length).le_amount .sHeaderValue ch
  rw [metered_general here general inLine]
  rw [here] at looks
  dsimp only [HeaderCount.look, HeaderCount.letters] at looks one ⊢
  omega

theorem lineEnd_cases (text : List UInt8) :
    (∃ letters, text = letters ++ lineEnd text ∧ (∀ ch ∈ letters, ch ≠ cr ∧ ch ≠ lf) ∧
        ∀ ch ∈ (lineEnd text).head?, ch = cr ∨ ch = lf) ∨
      lineEnd text = [] ∧ ∃ letters ch rest, text = letters ++ ch :: rest ∧
        (∀ ch ∈ letters, ch ≠ cr ∧ ch ≠ lf) ∧ httpMaxHeaderSize ≤ letters.length := by
  unfold lineEnd
  dsimp only
  cases found : (text.take (min text.length httpMaxHeaderSize)).findIdx? fun ch =>
      ch = cr ∨ ch = lf with
  | some offset =>
      left
      obtain ⟨inside, ends, before⟩ := List.findIdx?_eq_some_iff_getElem.mp found
      rw [List.length_take] at inside
      refine ⟨text.take offset, (List.take_append_drop offset text).symm, ?_, ?_⟩
      · intro ch among
        obtain ⟨index, within, rfl⟩ := List.getElem_of_mem among
        rw [List.length_take] at within
        have := before index (by omega)
        simpa [List.getElem_take] using this
      · intro ch first
        rw [List.head?_drop, Option.mem_def, List.getElem?_eq_getElem (by omega)] at first
        cases first
        simpa [List.getElem_take] using ends
  | none =>
      by_cases large : httpMaxHeaderSize < text.length
      · rw [Nat.min_eq_right (Nat.le_of_lt large), List.findIdx?_eq_none_iff] at found
        refine Or.inr ⟨rfl, text.take httpMaxHeaderSize, text[httpMaxHeaderSize],
          text.drop (httpMaxHeaderSize + 1), ?_, fun ch among => by simpa using found ch among, ?_⟩
        · rw [← List.drop_eq_getElem_cons large, List.take_append_drop]
        · rw [List.length_take]
          omega
      · left
        rw [List.take_of_length_le (by omega), List.findIdx?_eq_none_iff] at found
        refine ⟨text, (List.append_nil text).symm, ?_, nofun⟩
        intro ch among
        simpa using found ch among

theorem react_value_read (here : parser.state = .sHeaderValue) {ch : UInt8}
    (line : ¬(ch = cr ∨ ch = lf)) {next : HttpParser} {hState : HeaderState}
    (good : valueChar parser parser.headerState ch = .ok (some (next, hState))) :
    react parser ch = .read { next with headerState := hState } [.letter .headerValue ch] := by
  unfold react
  rw [here]
  dsimp only
  rw [if_neg fun same => line (Or.inl same), if_neg fun same => line (Or.inr same), good]

theorem react_value_bad (here : parser.state = .sHeaderValue) {ch : UInt8}
    (line : ¬(ch = cr ∨ ch = lf)) (bad : valueChar parser parser.headerState ch = .ok none) :
    react parser ch = .fail { parser with httpErrno := .invalidContentLength } := by
  unfold react
  rw [here]
  dsimp only
  rw [if_neg fun same => line (Or.inl same), if_neg fun same => line (Or.inr same), bad, ← here]

/-- The parser in the middle of a value, with the local variable `h_state`. -/
def HttpParser.valuing (parser : HttpParser) (hState : HeaderState) : HttpParser :=
  { parser with headerState := hState, nread := 0 }

/-- What the loop over a value comes to: it stops at the end of a line or of the data,
where there may be too many characters, or at a character that is no digit of a length. -/
structure ValueScan (parser : HttpParser) (hState : HeaderState) (text : List UInt8)
    (next : HttpParser) (hState' : HeaderState) (letters rest : List UInt8) : Prop where
  kept : ∃ flags index contentLength,
    next = { parser with flags := flags, index := index, contentLength := contentLength }
  valued : hState'.valued
  whole : text = letters ++ rest
  ends : headerValueLoop parser hState text = .ok (.stopped next hState' rest) ∧
      (∀ ch ∈ rest.head?, ch = cr ∨ ch = lf) ∧
      (httpScanner.scan (parser.valuing hState) text =
            (httpScanner.scan (next.valuing hState') rest).put
              (letters.map (.letter .headerValue)) ∧
          (∀ count, metered (parser.valuing hState) text count =
            metered (next.valuing hState') rest (count.letters letters.length)) ∨
        rest = [] ∧ httpMaxHeaderSize < text.length ∧ ∀ count,
          httpMaxHeaderSize < (metered (parser.valuing hState) text count).most) ∨
    headerValueLoop parser hState text = .ok (.badLength next hState' rest) ∧
      httpScanner.scan (parser.valuing hState) text =
        ⟨letters.map (.letter .headerValue),
          .failed { next.valuing hState' with httpErrno := .invalidContentLength } rest⟩

theorem headerValueLoop_scan (here : parser.state = .sHeaderValue) {hState : HeaderState}
    (valued : hState.valued) (text : List UInt8) :
    ∃ next hState' letters rest, ValueScan parser hState text next hState' letters rest := by
  induction text generalizing parser hState with
  | nil =>
      exact ⟨parser, hState, [], [], ⟨_, _, _, rfl⟩, valued, rfl, Or.inl ⟨rfl, nofun,
        Or.inl ⟨rfl, fun count => by rw [List.length_nil, count.letters_zero]⟩⟩⟩
  | cons ch text inductionHypothesis =>
      by_cases line : ch = cr ∨ ch = lf
      · refine ⟨parser, hState, [], ch :: text, ⟨_, _, _, rfl⟩, valued, rfl, Or.inl ⟨?_, ?_,
          Or.inl ⟨rfl, fun count => by rw [List.length_nil, count.letters_zero]⟩⟩⟩
        · unfold headerValueLoop
          rw [if_pos line]
        · rintro _ ⟨⟩
          exact line
      by_cases general : hState = .hGeneral
      · subst general
        have loops : headerValueLoop parser .hGeneral (ch :: text) =
            .ok (.stopped parser .hGeneral (lineEnd (ch :: text))) := by
          unfold headerValueLoop
          rw [if_neg line, if_pos rfl]
        rcases lineEnd_cases (ch :: text) with
          ⟨letters, whole, inLine, stops⟩ | ⟨nothing, letters, last, rest, whole, inLine, large⟩
        · refine ⟨parser, .hGeneral, letters, _, ⟨_, _, _, rfl⟩, valued, whole,
            Or.inl ⟨loops, stops, Or.inl ?_⟩⟩
          have scans := @scan_general (parser.valuing .hGeneral) here rfl letters inLine
            (lineEnd (ch :: text))
          have counts := @metered_general (parser.valuing .hGeneral) here rfl letters inLine
            (lineEnd (ch :: text))
          rw [← whole] at scans counts
          exact ⟨scans, counts⟩
        · rw [nothing] at loops
          refine ⟨parser, .hGeneral, ch :: text, [], ⟨_, _, _, rfl⟩, valued,
            (List.append_nil _).symm, Or.inl ⟨loops, nofun, Or.inr ⟨rfl, ?_, ?_⟩⟩⟩ <;> rw [whole]
          · rw [List.length_append, List.length_cons]
            omega
          · exact @metered_endless (parser.valuing .hGeneral) here rfl letters inLine large last rest
      rcases @valueChar_eq parser hState valued ch with
        bad | ⟨flags, index, contentLength, headerState, valued', good⟩
      · have loops : headerValueLoop parser hState (ch :: text) =
            .ok (.badLength parser hState (ch :: text)) := by
          rw [headerValueLoop, if_neg line, if_neg general,
            show valueChar parser hState ch = _ from bad parser.nread parser.headerState]
        exact ⟨parser, hState, [], ch :: text, ⟨_, _, _, rfl⟩, valued, rfl,
          Or.inr ⟨loops, Scanner.scan_fail
            (@react_value_bad (parser.valuing hState) here _ line (bad 0 hState))⟩⟩
      · let next : HttpParser :=
          { parser with flags := flags, index := index, contentLength := contentLength }
        have loops : headerValueLoop parser hState (ch :: text) =
            headerValueLoop next headerState text := by
          rw [headerValueLoop, if_neg line, if_neg general,
            show valueChar parser hState ch = _ from good parser.nread parser.headerState]
        have reacts : httpScanner.react (parser.valuing hState) ch =
            .read (next.valuing headerState) [.letter .headerValue ch] :=
          @react_value_read (parser.valuing hState) here _ line _ _ (good 0 hState)
        obtain ⟨last, hState', letters, rest, scan⟩ := @inductionHypothesis next here _ valued'
        obtain ⟨flags', index', length', kept⟩ := scan.kept
        refine ⟨last, hState', ch :: letters, rest, ⟨flags', index', length', kept⟩, scan.valued,
          by rw [scan.whole, List.cons_append], ?_⟩
        have inLine : ch ≠ cr ∧ ch ≠ lf := not_or.mp line
        have counts : ∀ count, metered (parser.valuing hState) (ch :: text) count =
            metered (next.valuing headerState) text (count.look .sHeaderValue ch) := by
          intro count
          rw [metered, Scanner.meter_read reacts, show (parser.valuing hState).state = _ from here]
        rw [loops, Scanner.scan_read reacts]
        rcases scan.ends with
          ⟨stopped, stops, ⟨scans, counts'⟩ | ⟨nothing, long, large⟩⟩ | ⟨stopped, scans⟩
        · refine Or.inl ⟨stopped, stops, Or.inl ⟨?_, fun count => ?_⟩⟩
          · rw [scans, Scanned.put_put]
            rfl
          · rw [counts, counts', HeaderCount.look_letters (runs_value.mpr inLine)]
            rfl
        · exact Or.inl ⟨stopped, stops, Or.inr
            ⟨nothing, Nat.lt_succ_of_lt long, fun count => counts count ▸ large _⟩⟩
        · refine Or.inr ⟨stopped, ?_⟩
          rw [scans]
          rfl

theorem react_valueEnd (here : parser.state = .sHeaderValue) {ch : UInt8}
    (line : ch = cr ∨ ch = lf) :
    react parser ch =
      if ch = cr then
        .read { parser with state := .sHeaderAlmostDone } [.closed .headerValue]
      else
        .again { parser with state := .sHeaderAlmostDone } [.closed .headerValue] := by
  unfold react
  rw [here]
  dsimp only
  split_ifs with carriage feed
  · rfl
  · rfl
  · exact absurd line (by simp [carriage, feed])

/-! ## Bodies -/

def HttpParser.bodyBytes (parser : HttpParser) (count : Nat) : HttpParser :=
  { parser with contentLength := parser.contentLength - UInt64.ofNat count }

theorem bodyBytes_zero (parser : HttpParser) : parser.bodyBytes 0 = parser := by
  show ({ parser with contentLength := parser.contentLength - 0 } : HttpParser) = parser
  rw [UInt64.sub_zero]

theorem bodyByte_bodyBytes (parser : HttpParser) (count : Nat) :
    parser.bodyByte.bodyBytes count = parser.bodyBytes (count + 1) := by
  have same : parser.contentLength - 1 - UInt64.ofNat count =
      parser.contentLength - UInt64.ofNat (count + 1) := by
    rw [UInt64.ofNat_add]
    grind
  show ({ parser with contentLength := _ } : HttpParser) = { parser with contentLength := _ }
  rw [← same]
  rfl

theorem bodyBytes_bodyByte (parser : HttpParser) (count : Nat) :
    (parser.bodyBytes count).bodyByte = parser.bodyBytes (count + 1) := by
  have same : parser.contentLength - UInt64.ofNat count - 1 =
      parser.contentLength - UInt64.ofNat (count + 1) := by
    rw [UInt64.ofNat_add]
    grind
  show ({ parser with contentLength := _ } : HttpParser) = { parser with contentLength := _ }
  rw [← same]
  rfl

theorem toNat_bodyBytes {count : Nat} (enough : count ≤ parser.contentLength.toNat) :
    (parser.bodyBytes count).contentLength.toNat = parser.contentLength.toNat - count := by
  have bound := parser.contentLength.toNat_lt
  have same : (UInt64.ofNat count).toNat = count := by
    rw [UInt64.toNat_ofNat']
    omega
  show (parser.contentLength - UInt64.ofNat count).toNat = _
  rw [UInt64.toNat_sub_of_le _ _ (by rw [UInt64.le_iff_toNat_le, same]; exact enough), same]

theorem react_body (here : parser.state = .sBodyIdentity ∨ parser.state = .sChunkData)
    (more : 1 < parser.contentLength.toNat) (ch : UInt8) :
    react parser ch = .read parser.bodyByte [.letter .body ch] := by
  have notLast : parser.bodyByte.contentLength ≠ 0 := by
    intro last
    have := congrArg UInt64.toNat last
    rw [show parser.bodyByte = parser.bodyBytes 1 from rfl, toNat_bodyBytes (by omega)] at this
    have : parser.contentLength.toNat - 1 = 0 := this
    omega
  unfold react
  rcases here with here | here <;> rw [here] <;> dsimp only <;> rw [if_neg notLast]

theorem scan_body (here : parser.state = .sBodyIdentity ∨ parser.state = .sChunkData)
    {letters : List UInt8} (more : letters.length < parser.contentLength.toNat)
    (rest : List UInt8) :
    httpScanner.scan parser (letters ++ rest) =
      (httpScanner.scan (parser.bodyBytes letters.length) rest).put
        (letters.map (.letter .body)) := by
  induction letters generalizing parser with
  | nil =>
      rw [List.length_nil, bodyBytes_zero]
      rfl
  | cons ch letters inductionHypothesis =>
      rw [List.length_cons] at more
      have reacts : httpScanner.react parser ch = .read parser.bodyByte [.letter .body ch] :=
        react_body here (by omega) ch
      have lower : letters.length < parser.bodyByte.contentLength.toNat := by
        rw [show parser.bodyByte = parser.bodyBytes 1 from rfl, toNat_bodyBytes (by omega)]
        omega
      rw [List.cons_append, Scanner.scan_read reacts, @inductionHypothesis parser.bodyByte here lower,
        Scanned.put_put, bodyByte_bodyBytes]
      rfl

theorem metered_body (here : parser.state = .sBodyIdentity ∨ parser.state = .sChunkData)
    {letters : List UInt8} (more : letters.length < parser.contentLength.toNat)
    (rest : List UInt8) {count : HeaderCount} (still : count.run = 0) :
    metered parser (letters ++ rest) count =
      metered (parser.bodyBytes letters.length) rest count := by
  induction letters generalizing parser with
  | nil => rw [List.length_nil, bodyBytes_zero, List.nil_append]
  | cons ch letters inductionHypothesis =>
      rw [List.length_cons] at more
      have reacts : httpScanner.react parser ch = .read parser.bodyByte [.letter .body ch] :=
        react_body here (by omega) ch
      have lower : letters.length < parser.bodyByte.contentLength.toNat := by
        rw [show parser.bodyByte = parser.bodyBytes 1 from rfl, toNat_bodyBytes (by omega)]
        omega
      have outside : parser.state.parsingHeader = false ∧ parser.state.countsAnew = false := by
        rcases here with here | here <;> rw [here] <;> exact ⟨rfl, rfl⟩
      rw [List.cons_append, metered, Scanner.meter_read reacts,
        HeaderCount.look_body outside.1 outside.2 still, List.length_cons, ← bodyByte_bodyBytes]
      exact @inductionHypothesis parser.bodyByte here lower

theorem scan_bodyWhole (here : parser.state = .sBodyIdentity ∨ parser.state = .sChunkData)
    {count : Nat} (length : parser.contentLength.toNat = count) (positive : 0 < count)
    {text : List UInt8} (whole : count ≤ text.length) :
    ∃ front last,
      text.take count = front ++ [last] ∧ text.drop (count - 1) = last :: text.drop count ∧
        (parser.bodyBytes front.length).bodyByte = parser.bodyBytes count ∧
        httpScanner.scan parser text =
          (httpScanner.scan (parser.bodyBytes front.length) (last :: text.drop count)).put
            (front.map (.letter .body)) ∧
        ∀ spent : HeaderCount, spent.run = 0 → metered parser text spent =
          metered (parser.bodyBytes front.length) (last :: text.drop count) spent := by
  obtain ⟨before, rfl⟩ : ∃ before, count = before + 1 := ⟨count - 1, by omega⟩
  have inside : before < text.length := by omega
  have frontLength : (text.take before).length = before := by
    rw [List.length_take]
    omega
  have tail : text.drop before = text[before] :: text.drop (before + 1) :=
    List.drop_eq_getElem_cons inside
  have part : (text.take before).length < parser.contentLength.toNat := by
    rw [frontLength]
    omega
  refine ⟨text.take before, text[before], List.take_succ_eq_append_getElem inside, tail, ?_, ?_, ?_⟩
  · rw [frontLength, bodyBytes_bodyByte]
  · have scans := scan_body here part (text[before] :: text.drop (before + 1))
    rwa [← tail, List.take_append_drop, tail] at scans
  · intro spent still
    have counts := metered_body here part (text[before] :: text.drop (before + 1)) still
    rwa [← tail, List.take_append_drop, tail] at counts

theorem bodyBytes_all {count : Nat} (length : parser.contentLength.toNat = count) :
    (parser.bodyBytes count).contentLength = 0 := by
  apply UInt64.toNat_inj.mp
  rw [toNat_bodyBytes (Nat.le_of_eq length.symm), length, Nat.sub_self]
  rfl

theorem react_bodyIdentity_last (here : parser.state = .sBodyIdentity)
    (last : parser.bodyByte.contentLength = 0) (ch : UInt8) :
    react parser ch =
      .again { parser.bodyByte with state := .sMessageDone } [.letter .body ch, .closed .body] := by
  unfold react
  rw [here]
  dsimp only
  rw [if_pos last]

theorem react_chunkData_last (here : parser.state = .sChunkData)
    (last : parser.bodyByte.contentLength = 0) (ch : UInt8) :
    react parser ch =
      .read { parser.bodyByte with state := .sChunkDataAlmostDone } [.letter .body ch] := by
  unfold react
  rw [here]
  dsimp only
  rw [if_pos last]

theorem scan_bodyEof (here : parser.state = .sBodyIdentityEof) (text : List UInt8) :
    httpScanner.scan parser text = ⟨text.map (.letter .body), .reached parser⟩ := by
  induction text with
  | nil => exact Scanner.scan_nil parser
  | cons ch text inductionHypothesis =>
      have reacts : httpScanner.react parser ch = .read parser [.letter .body ch] := by
        show react parser ch = _
        unfold react
        rw [here]
      rw [Scanner.scan_read reacts, inductionHypothesis]
      rfl

theorem metered_bodyEof (here : parser.state = .sBodyIdentityEof) (text : List UInt8)
    {count : HeaderCount} (still : count.run = 0) : metered parser text count = count := by
  induction text with
  | nil => exact Scanner.meter_nil parser count
  | cons ch text inductionHypothesis =>
      have reacts : httpScanner.react parser ch = .read parser [.letter .body ch] := by
        show react parser ch = _
        unfold react
        rw [here]
      rw [metered, Scanner.meter_read reacts,
        HeaderCount.look_body (by rw [here]; rfl) (by rw [here]; rfl) still]
      exact inductionHypothesis

end UAFlow.Http
