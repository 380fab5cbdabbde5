import UAFlow.Http.Requests

/-!
# Bodies

A body has a length that was announced, or comes in chunks that each tell their own.
-/

namespace UAFlow.Http

open Library

variable {parser : HttpParser} {ch : UInt8}

/-! ## The end of the headers -/

theorem hasFlag_skipbody (parser : HttpParser) : parser.hasFlag .skipbody = false := by
  have lost : ∀ flags : BitVec 6, (flags.setWidth 32 &&& Flag.mask .skipbody != 0) = false := by
    decide
  exact lost parser.flags

theorem scan_noBody (here : parser.state = .sHeadersDone) (request : parser.type = .httpRequest)
    (stays : parser.upgrade = false) (unchunked : parser.hasFlag .chunked = false)
    (without : parser.contentLength = 0 ∨ parser.contentLength = ullongMax) (rest : List UInt8) :
    httpScanner.scan parser (lf :: rest) =
      (httpScanner.scan { parser with state := parser.newMessage, nread := 0 } rest).put
        [.notice .messageComplete] := by
  apply Scanner.scan_read
  have unchunked' : ({ parser with nread := 0 } : HttpParser).hasFlag .chunked = false := unchunked
  have step : charStep parser lf =
      .read { parser with state := parser.newMessage, nread := 0 } (.notify .messageComplete) := by
    unfold charStep
    rw [here]
    dsimp only
    unfold headersDone
    dsimp only
    rw [if_neg (by decide), if_neg (show ¬parser.upgrade = true by rw [stays]; decide),
      if_neg (by rw [hasFlag_skipbody]; decide), if_neg (by rw [unchunked']; decide)]
    rcases without with zero | most
    · rw [if_pos zero]
      rfl
    · have most' : parser.contentLength ≠ 0 := by
        rw [most]
        decide
      rw [if_neg most', if_neg fun differs => differs most, if_pos (Or.inl request)]
      rfl
  show react parser lf = _
  rw [react_single (by rw [here]; rfl), step]
  rfl

theorem scan_bodyStart (here : parser.state = .sHeadersDone) (stays : parser.upgrade = false)
    (unchunked : parser.hasFlag .chunked = false)
    (known : parser.contentLength ≠ 0 ∧ parser.contentLength ≠ ullongMax) (rest : List UInt8) :
    httpScanner.scan parser (lf :: rest) =
      httpScanner.scan { parser with state := .sBodyIdentity, nread := 0 } rest := by
  have unchunked' : ({ parser with nread := 0 } : HttpParser).hasFlag .chunked = false := unchunked
  have step : charStep parser lf =
      goTo { parser with nread := 0 } .sBodyIdentity := by
    unfold charStep
    rw [here]
    dsimp only
    unfold headersDone
    dsimp only
    rw [if_neg (by decide), unchunked', hasFlag_skipbody, stays, if_neg known.1, if_pos known.2]
    rfl
  have reacts : httpScanner.react parser lf =
      .read { parser with state := .sBodyIdentity, nread := 0 } [] := by
    show react parser lf = _
    rw [react_single (by rw [here]; rfl), step, goTo, Verdict.reaction, Action.symbols, here]
    rfl
  rw [Scanner.scan_read reacts, Scanned.put_nil]

theorem scan_chunksStart (here : parser.state = .sHeadersDone) (stays : parser.upgrade = false)
    (isChunked : parser.hasFlag .chunked = true) (rest : List UInt8) :
    httpScanner.scan parser (lf :: rest) =
      httpScanner.scan { parser with state := .sChunkSizeStart, nread := 0 } rest := by
  have chunked' : ({ parser with nread := 0 } : HttpParser).hasFlag .chunked = true := isChunked
  have step : charStep parser lf =
      goTo { parser with nread := 0 } .sChunkSizeStart := by
    unfold charStep
    rw [here]
    dsimp only
    unfold headersDone
    dsimp only
    rw [if_neg (by decide), chunked', hasFlag_skipbody, stays]
    rfl
  have reacts : httpScanner.react parser lf =
      .read { parser with state := .sChunkSizeStart, nread := 0 } [] := by
    show react parser lf = _
    rw [react_single (by rw [here]; rfl), step, goTo, Verdict.reaction, Action.symbols, here]
    rfl
  rw [Scanner.scan_read reacts, Scanned.put_nil]

/-! ## Announced lengths -/

theorem scan_identity (here : parser.state = .sBodyIdentity) (request : parser.type = .httpRequest)
    {bytes : List UInt8} (notEmpty : bytes ≠ []) (length : parser.contentLength.toNat = bytes.length)
    (rest : List UInt8) :
    httpScanner.scan parser (bytes ++ rest) =
      (httpScanner.scan { parser with state := parser.newMessage, contentLength := 0 } rest).put
        (bytes.map (.letter .body) ++ [.closed .body, .notice .messageComplete]) := by
  obtain ⟨front, last, rfl⟩ := (List.eq_nil_or_concat' bytes).resolve_left notEmpty
  rw [List.length_append, List.length_singleton] at length
  have emptied : (parser.bodyBytes front.length).bodyByte.contentLength = 0 := by
    rw [bodyBytes_bodyByte]
    exact bodyBytes_all length
  let done : HttpParser := { parser with state := .sMessageDone, contentLength := 0 }
  have ends : httpScanner.react (parser.bodyBytes front.length) last =
      .again done [.letter .body last, .closed .body] := by
    rw [show httpScanner.react (parser.bodyBytes front.length) last = _ from
      @react_bodyIdentity_last (parser.bodyBytes front.length) here emptied last]
    show Reaction.again { parser with state := .sMessageDone, contentLength := _ } _ = _
    rw [emptied]
  have same : done.newMessage = parser.newMessage := by
    rw [newMessage_eq request, @newMessage_eq done request]
    rfl
  have completes : httpScanner.react done last =
      .read { done with state := parser.newMessage } [.notice .messageComplete] := by
    show Reaction.read { done with state := done.newMessage } _ = _
    rw [same]
    rfl
  rw [List.append_assoc, scan_body (Or.inl here) (by omega), List.singleton_append,
    Scanner.scan_again ends, Scanner.scan_read completes]
  simp [done]

/-! ## Chunks -/

def chunkLimit : Nat := 1152921504606846974

theorem chunkLimit_iff (size : UInt64) :
    (ullongMax - 16) / 16 < size ↔ chunkLimit < size.toNat := by
  rw [UInt64.lt_iff_toNat_lt]
  rfl

/-- The line in front of a chunk of this length, with what may stand behind the digits. -/
structure ChunkLine (length : Nat) where
  size : List UInt8
  extension : List UInt8
  notEmpty : size ≠ []
  digits : ∀ ch ∈ size, unhex ch ≠ -1
  value : readDigits 16 chunkLimit 0 (size.map fun ch => (unhex ch).toNat) = some length
  extended : ∀ ch ∈ extension.head?, ch = byte ';' ∨ ch = byte ' '
  inLine : cr ∉ extension

def ChunkLine.text {length : Nat} (line : ChunkLine length) : List UInt8 :=
  line.size ++ (line.extension ++ [cr, lf])

theorem scan_sizeRest (here : parser.state = .sChunkSize) {digits : List UInt8}
    (hex : ∀ ch ∈ digits, unhex ch ≠ -1) {length : Nat}
    (value : readDigits 16 chunkLimit parser.contentLength.toNat
      (digits.map fun ch => (unhex ch).toNat) = some length) (rest : List UInt8) :
    httpScanner.scan parser (digits ++ rest) =
      httpScanner.scan { parser with contentLength := UInt64.ofNat length } rest := by
  induction digits generalizing parser with
  | nil =>
      obtain rfl : parser.contentLength.toNat = length := Option.some.inj value
      rw [UInt64.ofNat_toNat]
      rfl
  | cons ch digits inductionHypothesis =>
      have isHex := hex ch List.mem_cons_self
      obtain ⟨same, small⟩ := toNat_unhex isHex
      rw [List.map_cons, readDigits] at value
      split_ifs at value with beyond
      have next : (parser.contentLength * 16 + UInt64.ofInt (unhex ch)).toNat =
          parser.contentLength.toNat * 16 + (unhex ch).toNat := by
        rw [UInt64.toNat_add, UInt64.toNat_mul, same]
        simp only [UInt64.reduceToNat]
        unfold chunkLimit at beyond
        omega
      have notCr : ch ≠ cr := by
        rintro rfl
        exact isHex (by decide)
      have step : charStep parser ch =
          .read { parser with
            contentLength := parser.contentLength * 16 + UInt64.ofInt (unhex ch) } .quiet := by
        unfold charStep
        rw [here]
        dsimp only
        unfold chunkSize
        rw [if_neg notCr, if_neg isHex, if_neg fun large => beyond ((chunkLimit_iff _).mp large), here]
      have reacts : httpScanner.react parser ch =
          .read { parser with
            contentLength := parser.contentLength * 16 + UInt64.ofInt (unhex ch) } [] := by
        show react parser ch = _
        rw [react_single (by rw [here]; rfl), step, Verdict.reaction, Action.symbols, here]
        rfl
      rw [List.cons_append, Scanner.scan_read reacts, Scanned.put_nil]
      exact @inductionHypothesis { parser with
        contentLength := parser.contentLength * 16 + UInt64.ofInt (unhex ch) } here
        (fun other among => hex other (List.mem_cons_of_mem ch among)) (by rw [next]; exact value)

theorem scan_extension {extension : List UInt8} (inLine : cr ∉ extension) (rest : List UInt8) :
    httpScanner.scan { parser with state := .sChunkParameters } (extension ++ cr :: rest) =
      httpScanner.scan { parser with state := .sChunkSizeAlmostDone } rest := by
  induction extension with
  | nil =>
      rw [List.nil_append, @Scanner.scan_read _ _ _ httpScanner _
        { parser with state := .sChunkSizeAlmostDone } cr _ [] rfl, Scanned.put_nil]
  | cons ch extension inductionHypothesis =>
      rw [List.mem_cons, not_or] at inLine
      have reacts : httpScanner.react { parser with state := .sChunkParameters } ch =
          .read { parser with state := .sChunkParameters } [] := by
        show Verdict.reaction _ ch (if ch = cr then _ else _) = _
        rw [if_neg fun same => inLine.1 same.symm]
        rfl
      rw [List.cons_append, Scanner.scan_read reacts, Scanned.put_nil]
      exact inductionHypothesis inLine.2

theorem scan_sizeEnd {extension : List UInt8}
    (extended : ∀ ch ∈ extension.head?, ch = byte ';' ∨ ch = byte ' ') (inLine : cr ∉ extension)
    (rest : List UInt8) :
    httpScanner.scan { parser with state := .sChunkSize } (extension ++ cr :: rest) =
      httpScanner.scan { parser with state := .sChunkSizeAlmostDone } rest := by
  cases extension with
  | nil =>
      rw [List.nil_append, @Scanner.scan_read _ _ _ httpScanner _
        { parser with state := .sChunkSizeAlmostDone } cr _ [] rfl, Scanned.put_nil]
  | cons ch extension =>
      rw [List.mem_cons, not_or] at inLine
      have reacts : httpScanner.react { parser with state := .sChunkSize } ch =
          .read { parser with state := .sChunkParameters } [] := by
        rcases extended ch rfl with rfl | rfl <;> rfl
      rw [List.cons_append, Scanner.scan_read reacts, Scanned.put_nil]
      exact scan_extension inLine.2 rest

theorem ChunkLine.scan {length : Nat} (line : ChunkLine length) (rest : List UInt8) :
    httpScanner.scan { parser with state := .sChunkSizeStart } (line.text ++ rest) =
      httpScanner.scan
        { parser with state := .sChunkSizeAlmostDone, contentLength := UInt64.ofNat length }
        (lf :: rest) := by
  obtain ⟨ch, digits, size⟩ := List.exists_cons_of_ne_nil line.notEmpty
  have isHex := line.digits ch (size ▸ List.mem_cons_self)
  obtain ⟨same, small⟩ := toNat_unhex isHex
  have value := line.value
  rw [size, List.map_cons, readDigits, if_neg (Nat.not_lt_zero _), Nat.zero_mul, Nat.zero_add,
    ← same] at value
  have starts : httpScanner.react { parser with state := .sChunkSizeStart } ch =
      .read
        { parser with
          state := .sChunkSize
          contentLength := UInt64.ofInt (unhex ch) } [] := by
    show Verdict.reaction _ ch (chunkSizeStart _ ch) = _
    unfold chunkSizeStart
    rw [if_neg isHex]
    rfl
  have text : line.text ++ rest = ch :: (digits ++ (line.extension ++ cr :: (lf :: rest))) := by
    rw [ChunkLine.text, size]
    simp
  rw [text, Scanner.scan_read starts, Scanned.put_nil,
    @scan_sizeRest
      { parser with state := .sChunkSize, contentLength := UInt64.ofInt (unhex ch) } rfl digits
      (fun other among => line.digits other (size ▸ List.mem_cons_of_mem ch among)) length value]
  exact @scan_sizeEnd { parser with contentLength := UInt64.ofNat length } _ line.extended line.inLine
    (lf :: rest)

theorem ChunkLine.lt {length : Nat} (line : ChunkLine length) : length < 18446744073709551600 := by
  have small : ∀ number ∈ line.size.map fun ch => (unhex ch).toNat, number < 16 := by
    intro number among
    obtain ⟨ch, here, rfl⟩ := List.mem_map.mp among
    exact Nat.lt_succ_of_le (toNat_unhex (line.digits ch here)).2
  have value := line.value
  rw [readDigits_eq (by decide) small (Nat.zero_le _)] at value
  split_ifs at value with fits
  rw [← Option.some.inj value]
  exact Nat.lt_succ_of_le fits

structure Chunk where
  data : List UInt8
  line : ChunkLine data.length
  notEmpty : data ≠ []

namespace Chunk

def text (chunk : Chunk) : List UInt8 := chunk.line.text ++ (chunk.data ++ [cr, lf])

def symbols (chunk : Chunk) : List Symbol :=
  chunk.data.map (.letter .body) ++ [.closed .body]

def events (chunk : Chunk) : List Event := [.text .body chunk.data]

theorem scan (chunk : Chunk) (rest : List UInt8) :
    httpScanner.scan { parser with state := .sChunkSizeStart } (chunk.text ++ rest) =
      (httpScanner.scan
        { parser with state := .sChunkSizeStart, contentLength := 0, nread := 0 } rest).put
        chunk.symbols := by
  obtain ⟨front, last, data⟩ := (List.eq_nil_or_concat' chunk.data).resolve_left chunk.notEmpty
  have bound := chunk.line.lt
  have whole : (UInt64.ofNat chunk.data.length).toNat = front.length + 1 := by
    rw [UInt64.toNat_ofNat', Nat.mod_eq_of_lt (by omega), data, List.length_append,
      List.length_singleton]
  let sized : HttpParser :=
    { parser with
      state := .sChunkData
      contentLength := UInt64.ofNat chunk.data.length
      nread := 0 }
  have begins : httpScanner.react
      { parser with
        state := .sChunkSizeAlmostDone
        contentLength := UInt64.ofNat chunk.data.length } lf = .read sized [] := by
    have nonzero : UInt64.ofNat chunk.data.length ≠ 0 := by
      intro zero
      rw [zero] at whole
      cases whole
    show Verdict.reaction _ lf (chunkSizeAlmostDone _ lf) = _
    unfold chunkSizeAlmostDone
    rw [if_neg (by decide), if_neg (show ¬UInt64.ofNat chunk.data.length = 0 from nonzero)]
    rfl
  have emptied : (sized.bodyBytes front.length).bodyByte.contentLength = 0 := by
    rw [bodyBytes_bodyByte]
    exact bodyBytes_all whole
  let done : HttpParser :=
    { parser with state := .sChunkDataAlmostDone, contentLength := 0, nread := 0 }
  have ends : httpScanner.react (sized.bodyBytes front.length) last =
      .read done [.letter .body last] := by
    rw [show httpScanner.react (sized.bodyBytes front.length) last = _ from
      @react_chunkData_last (sized.bodyBytes front.length) rfl emptied last]
    show Reaction.read { sized with state := .sChunkDataAlmostDone, contentLength := _ } _ = _
    rw [emptied]
  have carriage : httpScanner.react done cr = .read { done with state := .sChunkDataDone }
      [.closed .body] := rfl
  have lineFeed : httpScanner.react { done with state := .sChunkDataDone } lf =
      .read { done with state := .sChunkSizeStart } [] := rfl
  have text : chunk.text ++ rest = chunk.line.text ++ (front ++ last :: cr :: lf :: rest) := by
    rw [Chunk.text, List.append_assoc, show chunk.data ++ [cr, lf] ++ rest =
      front ++ last :: cr :: lf :: rest by rw [data]; simp]
  rw [text, chunk.line.scan, Scanner.scan_read begins, Scanned.put_nil,
    scan_body (Or.inr rfl) (by rw [show sized.contentLength.toNat = _ from whole]; omega),
    Scanner.scan_read ends, Scanner.scan_read carriage, Scanner.scan_read lineFeed, Scanned.put_nil,
    Chunk.symbols, data]
  simp [done]

end Chunk

theorem scan_chunks (chunks : List Chunk) (rest : List UInt8) :
    ∃ length,
      httpScanner.scan { parser with state := .sChunkSizeStart, nread := 0 }
          (chunks.flatMap Chunk.text ++ rest) =
        (httpScanner.scan
          { parser with state := .sChunkSizeStart, contentLength := length, nread := 0 } rest).put
          (chunks.flatMap Chunk.symbols) := by
  induction chunks generalizing parser with
  | nil => exact ⟨parser.contentLength, rfl⟩
  | cons chunk chunks inductionHypothesis =>
      obtain ⟨length, scans⟩ := @inductionHypothesis { parser with contentLength := 0 }
      refine ⟨length, ?_⟩
      rw [List.flatMap_cons, List.flatMap_cons, List.append_assoc,
        @Chunk.scan { parser with nread := 0 } chunk, scans, Scanned.put_put]

/-- Behind the last chunk the headers begin again. -/
theorem scan_lastChunk (line : ChunkLine 0) (rest : List UInt8) :
    httpScanner.scan { parser with state := .sChunkSizeStart } (line.text ++ rest) =
      httpScanner.scan
        { parser.setFlag .trailing with
          state := .sHeaderFieldStart
          contentLength := 0
          nread := 0 } rest := by
  rw [line.scan, @Scanner.scan_read _ _ _ httpScanner _
    { parser.setFlag .trailing with
      state := .sHeaderFieldStart
      contentLength := 0
      nread := 0 } lf _ [] rfl, Scanned.put_nil]

theorem scan_trailerEnd (here : parser.state = .sHeaderFieldStart)
    (trailing : parser.hasFlag .trailing = true) (rest : List UInt8) :
    httpScanner.scan parser (cr :: lf :: rest) =
      (httpScanner.scan { parser with state := parser.newMessage } rest).put
        [.notice .messageComplete] := by
  have carriage : httpScanner.react parser cr =
      .read { parser with state := .sHeadersAlmostDone } [] := react_emptyLine here
  let almost : HttpParser := { parser with state := .sHeadersAlmostDone }
  have step : headersAlmostDone almost lf =
      .read { almost with state := parser.newMessage } (.notify .messageComplete) := by
    unfold headersAlmostDone
    rw [if_neg (by decide), if_pos (show almost.hasFlag .trailing = true from trailing)]
    rfl
  have lineFeed : httpScanner.react almost lf =
      .read { parser with state := parser.newMessage } [.notice .messageComplete] := by
    show Verdict.reaction almost lf (headersAlmostDone almost lf) = _
    rw [step]
    rfl
  rw [Scanner.scan_read carriage, Scanned.put_nil, Scanner.scan_read lineFeed]

end UAFlow.Http
