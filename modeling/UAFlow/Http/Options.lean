import Mathlib.Data.List.DropRight
import UAFlow.Http.Values

/-!
# Options

What the parser makes of the values of `Transfer-Encoding` and `Connection`, which it
compares with words.
-/

namespace UAFlow.Http

open Library

variable {parser : HttpParser} {hState headerState : HeaderState} {index : UInt8}
  {text value : List UInt8} {ch : UInt8}

/-! ## Words -/

/-- A value in lower case, without the blanks behind it. -/
def trimmed (value : List UInt8) : List UInt8 := (value.rdropWhile (· == byte ' ')).map lower

theorem trimmed_blank (text : List UInt8) : trimmed (text ++ [byte ' ']) = trimmed text := by
  unfold trimmed
  rw [List.rdropWhile_concat_pos _ _ _ (by decide)]

theorem trimmed_letter (text : List UInt8) (letter : ch ≠ byte ' ') :
    trimmed (text ++ [ch]) = (text ++ [ch]).map lower := by
  unfold trimmed
  rw [List.rdropWhile_concat_neg _ _ _ (by simpa using letter)]

theorem trimmed_isPrefix_lower (text : List UInt8) : trimmed text <+: text.map lower :=
  List.IsPrefix.map lower (List.rdropWhile_prefix _ _)

theorem trimmed_append (text : List UInt8) (letter : ch ≠ byte ' ') (more : List UInt8) :
    (text ++ [ch]).map lower <+: trimmed (text ++ ch :: more) := by
  induction more using List.reverseRecOn with
  | nil => rw [trimmed_letter text letter]
  | append_singleton more last inductionHypothesis =>
      rw [← List.cons_append, ← List.append_assoc]
      by_cases blank : last = byte ' '
      · rw [blank, trimmed_blank]
        exact inductionHypothesis
      · rw [trimmed_letter _ blank]
        refine List.IsPrefix.map lower ⟨more ++ [last], ?_⟩
        simp

theorem trimmed_split (text more : List UInt8) :
    trimmed (text ++ more) <+: text.map lower ∨
      ∃ ch rest, more = ch :: rest ∧ (text ++ [ch]).map lower <+: trimmed (text ++ more) := by
  induction more using List.reverseRecOn with
  | nil =>
      rw [List.append_nil]
      exact Or.inl (trimmed_isPrefix_lower text)
  | append_singleton more last inductionHypothesis =>
      rw [← List.append_assoc]
      by_cases blank : last = byte ' '
      · rw [blank, trimmed_blank]
        refine inductionHypothesis.imp_right ?_
        rintro ⟨ch, rest, rfl, begins⟩
        exact ⟨ch, rest ++ [byte ' '], rfl, begins⟩
      · rw [trimmed_letter _ blank]
        cases more with
        | nil => exact Or.inr ⟨last, [], rfl, by rw [List.append_nil]⟩
        | cons ch more =>
            refine Or.inr ⟨ch, more ++ [last], rfl, List.IsPrefix.map lower ⟨more ++ [last], ?_⟩⟩
            simp

/-- A word the parser compares a value with, and the states it does so in.  The comparison
takes no notice of the characters that end an option. -/
structure Word where
  text : List UInt8
  matching : HeaderState
  matched : HeaderState
  missed : HeaderState
  ends : UInt8 → Bool
  short : text.length < 256
  small : ∀ ch ∈ text, ch ≠ byte ' ' ∧ lower ch = ch
  compares : ∀ parser ch,
    valueChar parser matching ch =
      .ok (some (Http.matching parser text (lower ch) matching matched missed))
  passes : ∀ parser ch, ends ch = false →
    valueChar parser matched ch =
      .ok (some (parser, if ch ≠ byte ' ' then missed else matched))
  stays : ∀ parser ch, ends ch = false → valueChar parser missed ch = .ok (some (parser, missed))

namespace Word

variable {word : Word}

/-- What the parser's state says about the value so far. -/
inductive Compared (word : Word) : HeaderState → UInt8 → List UInt8 → Prop
  | matching {index : UInt8} {text : List UInt8} {ch : UInt8} {rest : List UInt8}
      (place : text.length = index.toNat + 1) (begins : word.text = text.map lower ++ ch :: rest) :
      Compared word word.matching index text
  | matched {index : UInt8} {text : List UInt8} (same : trimmed text = word.text) :
      Compared word word.matched index text
  | missed {index : UInt8} {text : List UInt8} (differs : ¬text.map lower <+: word.text)
      (other : ∀ more, trimmed (text ++ more) ≠ word.text) :
      Compared word word.missed index text

theorem differs_of_letter {rest : List UInt8} {other : UInt8}
    (begins : word.text = text.map lower ++ ch :: rest) (differs : lower other ≠ ch) :
    ¬(text ++ [other]).map lower <+: word.text ∧
      ∀ more, trimmed (text ++ [other] ++ more) ≠ word.text := by
  have unlike : ¬(text ++ [other]).map lower <+: word.text := by
    rw [begins, List.map_append, List.prefix_append_right_inj]
    exact fun likewise => differs (List.cons_prefix_cons.mp likewise).1
  refine ⟨unlike, fun more same => ?_⟩
  rw [List.append_assoc, List.singleton_append] at same
  rcases trimmed_split text (other :: more) with short | ⟨_, _, ⟨⟩, long⟩
  · rw [same, begins] at short
    have length := short.length_le
    rw [List.length_append, List.length_cons] at length
    omega
  · rw [same] at long
    exact unlike long

theorem differs_of_more (same : trimmed text = word.text) (letter : ch ≠ byte ' ') :
    ¬(text ++ [ch]).map lower <+: word.text ∧
      ∀ more, trimmed (text ++ [ch] ++ more) ≠ word.text := by
  have short := (trimmed_isPrefix_lower text).length_le
  have longer : ¬(text ++ [ch]).map lower <+: word.text := by
    intro likewise
    have length := likewise.length_le
    rw [← same, List.length_map, List.length_append, List.length_singleton] at length
    rw [List.length_map] at short
    omega
  refine ⟨longer, fun more again => longer ?_⟩
  rw [← again, List.append_assoc]
  exact trimmed_append text letter more

theorem valueChar_compared (compared : word.Compared hState parser.index text)
    (goes : word.ends ch = false) :
    ∃ index headerState,
      valueChar parser hState ch = .ok (some ({ parser with index := index }, headerState)) ∧
        word.Compared headerState index (text ++ [ch]) := by
  generalize reached : parser.index = before at compared
  cases compared with
  | @matching _ _ letter rest place begins =>
      subst reached
      obtain ⟨next, compares⟩ := matching_next begins (by rw [List.length_map, place]) word.short
        (lower ch) word.matching word.matched word.missed
      refine ⟨_, _, (word.compares parser ch).trans (congrArg (Except.ok <| some ·) compares), ?_⟩
      by_cases same : lower ch = letter
      · rw [if_neg fun differs => differs same]
        have longer : (text ++ [ch]).map lower = text.map lower ++ [letter] := by
          rw [List.map_append, ← same]
          rfl
        cases rest with
        | nil =>
            rw [if_pos rfl]
            apply Compared.matched
            have isLetter : ch ≠ byte ' ' := by
              rintro rfl
              apply (word.small letter (by rw [begins]; simp)).1
              rw [← same]
              rfl
            rw [trimmed_letter text isLetter, longer, begins]
        | cons second rest =>
            rw [if_neg (List.cons_ne_nil _ _)]
            apply Compared.matching
            · rw [next, List.length_append, List.length_map]
              rfl
            · rw [longer, begins, List.append_assoc]
              rfl
      · rw [if_pos same]
        obtain ⟨differs, other⟩ := differs_of_letter begins same
        exact .missed differs other
  | matched same =>
      refine ⟨parser.index, _, word.passes parser ch goes, ?_⟩
      by_cases blank : ch = byte ' '
      · rw [if_neg fun letter => letter blank, blank]
        exact .matched (by rw [trimmed_blank, same])
      · rw [if_pos blank]
        obtain ⟨differs, other⟩ := differs_of_more same blank
        exact .missed differs other
  | missed differs other =>
      refine ⟨parser.index, _, word.stays parser ch goes, .missed (fun likewise => differs ?_) ?_⟩
      · exact (List.IsPrefix.map lower ⟨[ch], rfl⟩).trans likewise
      · intro more
        rw [List.append_assoc]
        exact other _

theorem scan_compared (here : parser.state = .sHeaderValue)
    (compared : word.Compared parser.headerState parser.index text) {more : List UInt8}
    (inLine : ∀ ch ∈ more, ch ≠ cr ∧ ch ≠ lf) (goes : ∀ ch ∈ more, word.ends ch = false)
    (rest : List UInt8) :
    ∃ index headerState,
      httpScanner.scan parser (more ++ rest) =
          (httpScanner.scan { parser with index := index, headerState := headerState } rest).put
            (more.map (.letter .headerValue)) ∧
        word.Compared headerState index (text ++ more) := by
  induction more generalizing parser text with
  | nil => exact ⟨_, _, rfl, by rwa [List.append_nil]⟩
  | cons ch more inductionHypothesis =>
      obtain ⟨notCr, notLf⟩ := inLine ch List.mem_cons_self
      have line : ¬(ch = cr ∨ ch = lf) := by
        rintro (same | same)
        · exact notCr same
        · exact notLf same
      obtain ⟨index, headerState, good, compared'⟩ :=
        valueChar_compared compared (goes ch List.mem_cons_self)
      obtain ⟨index', headerState', scans, compared''⟩ :=
        @inductionHypothesis { parser with index := index, headerState := headerState } _ here
          compared' (fun other among => inLine other (List.mem_cons_of_mem ch among))
          fun other among => goes other (List.mem_cons_of_mem ch among)
      refine ⟨index', headerState', ?_, by rwa [List.append_assoc] at compared''⟩
      rw [List.cons_append, scan_valueChar here line good, scans, Scanned.put_put]
      rfl

theorem Compared.ends (compared : word.Compared headerState index text) :
    (trimmed text = word.text ∧ headerState = word.matched) ∨
      (trimmed text ≠ word.text ∧ text.map lower <+: word.text ∧ headerState = word.matching) ∨
        (trimmed text ≠ word.text ∧ ¬text.map lower <+: word.text ∧ headerState = word.missed) := by
  cases compared with
  | @matching _ _ letter rest place begins =>
      refine Or.inr (Or.inl ⟨fun same => ?_, ⟨_, begins.symm⟩, rfl⟩)
      have short := (trimmed_isPrefix_lower text).length_le
      rw [same, begins, List.length_append, List.length_cons] at short
      omega
  | matched same => exact Or.inl ⟨same, rfl⟩
  | missed differs other =>
      refine Or.inr (Or.inr ⟨fun same => other [] ?_, differs, rfl⟩)
      rwa [List.append_nil]

end Word

/-! ## Encodings -/

def IsChunked (value : List UInt8) : Prop := trimmed value = chunked

instance (value : List UInt8) : Decidable (IsChunked value) :=
  inferInstanceAs (Decidable (_ = _))

def chunkedWord : Word where
  text := chunked
  matching := .hMatchingTransferEncodingChunked
  matched := .hTransferEncodingChunked
  missed := .hGeneral
  ends _ := false
  short := by decide
  small := by decide +kernel
  compares _ _ := rfl
  passes _ _ _ := rfl
  stays _ _ _ := rfl

theorem scan_encoding (here : parser.state = .sHeaderValueDiscardWs)
    (encoding : parser.headerState = .hTransferEncoding) (written : Value value)
    (rest : List UInt8) :
    ∃ index headerState,
      httpScanner.scan parser (value ++ rest) =
          (httpScanner.scan
            { parser with
              state := .sHeaderValue
              index := index
              headerState := headerState } rest).put
            (value.map (.letter .headerValue)) ∧
        flagOf headerState = if IsChunked value then some .chunked else none := by
  obtain ⟨ch, text, rfl⟩ := List.exists_cons_of_ne_nil written.notEmpty
  obtain ⟨notCr, notLf⟩ := written.inLine ch List.mem_cons_self
  let first : HeaderState :=
    if lower ch = byte 'c' then .hMatchingTransferEncodingChunked else .hGeneral
  have starts : headerValueStart parser ch =
      .read { parser with state := .sHeaderValue, index := 0, headerState := first }
        (.mark .headerValue) := by
    unfold headerValueStart
    rw [encoding]
  have reacts := react_valueStart here (written.begins ch rfl) notCr notLf
  rw [starts] at reacts
  have compared : chunkedWord.Compared first 0 [ch] := by
    show chunkedWord.Compared (if lower ch = byte 'c' then _ else _) 0 [ch]
    split_ifs with same
    · exact @Word.Compared.matching chunkedWord 0 [ch] _ _ rfl
        (by rw [List.map_singleton, same]; rfl)
    · obtain ⟨differs, other⟩ := @Word.differs_of_letter [] _ chunkedWord _ ch rfl same
      exact @Word.Compared.missed chunkedWord 0 [ch] differs other
  obtain ⟨index, headerState, scans, compared'⟩ :=
    @Word.scan_compared { parser with state := .sHeaderValue, index := 0, headerState := first } _
      chunkedWord rfl compared text
      (fun other among => written.inLine other (List.mem_cons_of_mem ch among)) (fun _ _ => rfl) rest
  refine ⟨index, headerState, ?_, ?_⟩
  · rw [List.cons_append, Scanner.scan_read reacts, scans, Scanned.put_put]
    rfl
  · rw [List.singleton_append] at compared'
    rcases compared'.ends with ⟨same, rfl⟩ | ⟨other, -, rfl⟩ | ⟨other, -, rfl⟩
    · exact (if_pos (show IsChunked (ch :: text) from same)).symm
    · exact (if_neg (show ¬IsChunked (ch :: text) from other)).symm
    · exact (if_neg (show ¬IsChunked (ch :: text) from other)).symm

/-! ## Lists of options -/

inductive ConnectionOption where
  | keepAlive
  | close
  | upgrade
  deriving DecidableEq

namespace ConnectionOption

def name : ConnectionOption → List UInt8
  | .keepAlive => Http.keepAlive
  | .close => Http.close
  | .upgrade => Http.upgrade

def flag : ConnectionOption → Flag
  | .keepAlive => .connectionKeepAlive
  | .close => .connectionClose
  | .upgrade => .connectionUpgrade

def matching : ConnectionOption → HeaderState
  | .keepAlive => .hMatchingConnectionKeepAlive
  | .close => .hMatchingConnectionClose
  | .upgrade => .hMatchingConnectionUpgrade

def matched : ConnectionOption → HeaderState
  | .keepAlive => .hConnectionKeepAlive
  | .close => .hConnectionClose
  | .upgrade => .hConnectionUpgrade

theorem valueChar_matched (option : ConnectionOption) (parser : HttpParser) (ch : UInt8) :
    valueChar parser option.matched ch =
      if ch = byte ',' then
        .ok (some
          ({ parser.setFlag option.flag with index := 0 }, .hMatchingConnectionTokenStart))
      else
        .ok (some
          (parser, if ch ≠ byte ' ' then .hMatchingConnectionToken else option.matched)) := by
  cases option <;> rfl

def word (option : ConnectionOption) : Word where
  text := option.name
  matching := option.matching
  matched := option.matched
  missed := .hMatchingConnectionToken
  ends ch := ch = byte ','
  short := by cases option <;> decide
  small := by cases option <;> decide +kernel
  compares _ _ := by cases option <;> rfl
  passes parser ch goes := by
    rw [valueChar_matched, if_neg (of_decide_eq_false goes)]
  stays parser ch goes := if_neg (of_decide_eq_false goes)

end ConnectionOption

/-- The option a first letter may begin. -/
def optionOf (ch : UInt8) : Option ConnectionOption :=
  if lower ch = byte 'k' then some .keepAlive
  else if lower ch = byte 'c' then some .close
  else if lower ch = byte 'u' then some .upgrade
  else none

/-- Where in the list the parser is: at its start, behind a comma, or in the middle of
something it does not know. -/
inductive Place where
  | start
  | behindComma
  | inToken
  deriving DecidableEq

/-- The flags a list of options sets.  The comma behind the beginning of a word counts as a
letter that differs, and behind a comma only a letter begins an option: a blank there ends
the list. -/
def listed : Place → List (List UInt8) → List Flag
  | _, [] => []
  | .inToken, _ :: rest => listed .behindComma rest
  | .start, [] :: rest => listed .inToken rest
  | .behindComma, [] :: _ => []
  | place, (ch :: element) :: rest =>
      match optionOf ch with
      | some option =>
          if trimmed (ch :: element) = option.name then option.flag :: listed .behindComma rest
          else if (ch :: element).map lower <+: option.name then listed .inToken rest
          else listed .behindComma rest
      | none =>
          if place = .start ∨ token (lower ch) ≠ 0 then listed .behindComma rest else []

theorem listed_option {place : Place} {option : ConnectionOption}
    (notToken : place ≠ .inToken) (begins : optionOf ch = some option) (element : List UInt8)
    (rest : List (List UInt8)) :
    listed place ((ch :: element) :: rest) =
      if trimmed (ch :: element) = option.name then option.flag :: listed .behindComma rest
      else if (ch :: element).map lower <+: option.name then listed .inToken rest
      else listed .behindComma rest := by
  cases place with
  | inToken => exact absurd rfl notToken
  | start => simp only [listed, begins]
  | behindComma => simp only [listed, begins]

theorem listed_token {place : Place} (notToken : place ≠ .inToken) (begins : optionOf ch = none)
    (element : List UInt8) (rest : List (List UInt8)) :
    listed place ((ch :: element) :: rest) =
      if place = .start ∨ token (lower ch) ≠ 0 then listed .behindComma rest else [] := by
  cases place with
  | inToken => exact absurd rfl notToken
  | start => simp only [listed, begins]
  | behindComma => simp only [listed, begins]

theorem listed_flags {place : Place} {elements : List (List UInt8)} {flag : Flag}
    (among : flag ∈ listed place elements) : ∃ option : ConnectionOption, flag = option.flag := by
  induction elements generalizing place with
  | nil => cases place <;> cases among
  | cons element rest inductionHypothesis =>
      have told : ∀ ch element, place ≠ .inToken → flag ∈ listed place ((ch :: element) :: rest) →
          ∃ option : ConnectionOption, flag = option.flag := by
        intro ch element notToken among
        cases begins : optionOf ch with
        | none =>
            rw [listed_token notToken begins] at among
            split_ifs at among
            · exact inductionHypothesis among
            · cases among
        | some option =>
            rw [listed_option notToken begins] at among
            split_ifs at among
            · rcases List.mem_cons.mp among with same | among
              · exact ⟨option, same⟩
              · exact inductionHypothesis among
            · exact inductionHypothesis among
            · exact inductionHypothesis among
      cases place with
      | inToken => exact inductionHypothesis among
      | start =>
          cases element with
          | nil => exact inductionHypothesis among
          | cons ch element => exact told ch element nofun among
      | behindComma =>
          cases element with
          | nil => cases among
          | cons ch element => exact told ch element nofun among

def HttpParser.setFlags (parser : HttpParser) (flags : List Flag) : HttpParser :=
  flags.foldl HttpParser.setFlag parser

theorem setFlags_eq (parser : HttpParser) (flags : List Flag) :
    parser.setFlags flags = { parser with flags := (parser.setFlags flags).flags } := by
  induction flags generalizing parser with
  | nil => rfl
  | cons flag flags inductionHypothesis => exact inductionHypothesis (parser.setFlag flag)

theorem setFlags_flags {next : HttpParser} (same : next.flags = parser.flags) (flags : List Flag) :
    (next.setFlags flags).flags = (parser.setFlags flags).flags := by
  induction flags generalizing parser next with
  | nil => exact same
  | cons flag flags inductionHypothesis =>
      apply inductionHypothesis
      unfold HttpParser.setFlag
      rw [same]

def InList (place : Place) (parser : HttpParser) : Prop :=
  parser.state = .sHeaderValue ∧
    match place with
    | .start => False
    | .behindComma => parser.headerState = .hMatchingConnectionTokenStart ∧ parser.index = 0
    | .inToken => parser.headerState = .hMatchingConnectionToken

/-- A parser at the end of an option: what it sets if the list ends here, and where it is
behind a comma. -/
structure Closing (parser : HttpParser) (flags : List Flag) (place : Place) : Prop where
  state : parser.state = .sHeaderValue
  leaves : parser.leaveFlag parser.headerState = parser.setFlags flags
  comma : ∃ index headerState,
    valueChar parser parser.headerState (byte ',') =
        .ok (some ({ parser.setFlags flags with index := index }, headerState)) ∧
      InList place { parser.setFlags flags with index := index, headerState := headerState }

theorem closing_token (behind : InList .inToken parser) : Closing parser [] .behindComma := by
  obtain ⟨here, inToken⟩ := behind
  refine ⟨here, ?_, 0, .hMatchingConnectionTokenStart, ?_, here, rfl, rfl⟩
  · rw [inToken]
    rfl
  · rw [inToken]
    rfl

theorem ConnectionOption.comma_ne (option : ConnectionOption) :
    ∀ ch ∈ option.name, lower (byte ',') ≠ ch := by
  cases option <;> decide +kernel

theorem closing_option (option : ConnectionOption) (here : parser.state = .sHeaderValue)
    (compared : option.word.Compared parser.headerState parser.index text) :
    Closing parser (if trimmed text = option.name then [option.flag] else [])
      (if trimmed text ≠ option.name ∧ text.map lower <+: option.name then .inToken
        else .behindComma) := by
  have ends := compared.ends
  generalize reached : parser.headerState = headerState at compared ends
  generalize place : parser.index = index at compared
  cases compared with
  | @matching _ _ letter rest length begins =>
      subst place
      have other : trimmed text ≠ option.name ∧ text.map lower <+: option.name := by
        rcases ends with ⟨-, same⟩ | ⟨other, begins, -⟩ | ⟨-, -, same⟩
        · cases option <;> cases same
        · exact ⟨other, begins⟩
        · cases option <;> cases same
      obtain ⟨next, compares⟩ := matching_next begins (by rw [List.length_map, length])
        option.word.short (lower (byte ',')) option.word.matching option.word.matched
        option.word.missed
      have differs : lower (byte ',') ≠ letter :=
        option.comma_ne letter (by rw [show option.name = _ from begins]; simp)
      rw [if_pos differs] at compares
      rw [if_neg other.1, if_pos other]
      refine ⟨here, ?_, parser.index + 1, _, ?_, here, rfl⟩
      · rw [reached]
        cases option <;> rfl
      · rw [reached]
        exact (option.word.compares parser (byte ',')).trans
          (congrArg (Except.ok <| some ·) compares)
  | matched same =>
      rw [if_pos (show trimmed text = option.name from same),
        if_neg (show ¬(trimmed text ≠ option.name ∧ _) from fun differs => differs.1 same)]
      refine ⟨here, ?_, 0, .hMatchingConnectionTokenStart, ?_, here, rfl, rfl⟩
      · rw [reached]
        cases option <;> rfl
      · rw [reached]
        exact (option.valueChar_matched parser (byte ',')).trans (if_pos rfl)
  | missed differs other =>
      have unlike : ¬trimmed text = option.name := by
        intro same
        exact other [] (by rwa [List.append_nil])
      rw [if_neg unlike,
        if_neg (show ¬(trimmed text ≠ option.name ∧ text.map lower <+: option.name) from
          fun begins => differs begins.2)]
      exact closing_token ⟨here, reached⟩

theorem setFlags_with (parser : HttpParser) (index : UInt8) (headerState : HeaderState)
    (flags : List Flag) :
    ({ parser with index := index, headerState := headerState } : HttpParser).setFlags flags =
      { parser.setFlags flags with index := index, headerState := headerState } := by
  rw [setFlags_eq _ flags, setFlags_eq parser flags, setFlags_flags]
  rfl

theorem setFlags_append (parser : HttpParser) (flags flags' : List Flag) :
    parser.setFlags (flags ++ flags') = (parser.setFlags flags).setFlags flags' :=
  List.foldl_append

/-- A part of a value that is passed on and sets these flags when the value ends behind it. -/
def Sets (parser : HttpParser) (value : List UInt8) (flags : List Flag) : Prop :=
  ∀ rest, ∃ next index headerState,
    httpScanner.scan parser (value ++ rest) =
        (httpScanner.scan next rest).put (value.map (.letter .headerValue)) ∧
      next.state = .sHeaderValue ∧
      next.leaveFlag next.headerState =
        { parser.setFlags flags with index := index, headerState := headerState }

def Closes (parser : HttpParser) (element : List UInt8) (flags : List Flag) (place : Place) :
    Prop :=
  ∀ rest, ∃ index headerState,
    httpScanner.scan parser (element ++ rest) =
        (httpScanner.scan { parser with index := index, headerState := headerState } rest).put
          (element.map (.letter .headerValue)) ∧
      Closing { parser with index := index, headerState := headerState } flags place

section Elements

variable {element more : List UInt8} {flags flags' : List Flag} {place : Place}

theorem Closes.sets (closes : Closes parser element flags place) : Sets parser element flags := by
  intro rest
  obtain ⟨index, headerState, scans, closing⟩ := closes rest
  refine ⟨_, index, headerState, scans, closing.state, ?_⟩
  rw [closing.leaves, setFlags_with]

theorem Closes.comma (closes : Closes parser element flags place)
    (behind : ∀ next, InList place next → Sets next more flags') :
    Sets parser (element ++ byte ',' :: more) (flags ++ flags') := by
  intro rest
  obtain ⟨index, headerState, scans, closing⟩ := closes (byte ',' :: (more ++ rest))
  obtain ⟨index', headerState', good, inList⟩ := closing.comma
  obtain ⟨next, index'', headerState'', scans', state, leaves⟩ := behind _ inList rest
  refine ⟨next, index'', headerState'', ?_, state, ?_⟩
  · rw [List.append_assoc, List.cons_append, scans,
      scan_valueChar closing.state (by decide) good]
    show Scanned.put _ (Scanned.put _ (httpScanner.scan
      { ({ parser with index := index, headerState := headerState } : HttpParser).setFlags flags with
        index := index'
        headerState := headerState' } (more ++ rest))) = _
    rw [scans']
    simp
  · rw [leaves, setFlags_append, setFlags_with _ index' headerState', setFlags_with parser index,
      setFlags_with]

theorem Sets.letter (here : parser.state = .sHeaderValue) (line : ¬(ch = cr ∨ ch = lf))
    {index : UInt8} {headerState : HeaderState}
    (good : valueChar parser parser.headerState ch =
      .ok (some ({ parser with index := index }, headerState)))
    (sets : Sets { parser with index := index, headerState := headerState } more flags) :
    Sets parser (ch :: more) flags := by
  intro rest
  obtain ⟨next, index', headerState', scans, state, leaves⟩ := sets rest
  refine ⟨next, index', headerState', ?_, state, ?_⟩
  · rw [List.cons_append, scan_valueChar here line good]
    show Scanned.put _ (httpScanner.scan
      { parser with index := index, headerState := headerState } (more ++ rest)) = _
    rw [scans]
    simp
  · rw [leaves, setFlags_with]

/-- What cannot be an option is passed on with all that follows. -/
theorem sets_general (here : parser.state = .sHeaderValue) (general : parser.headerState = .hGeneral)
    (inLine : ∀ ch ∈ value, ch ≠ cr ∧ ch ≠ lf) : Sets parser value [] := by
  intro rest
  refine ⟨parser, parser.index, parser.headerState, scan_general here general inLine rest, here, ?_⟩
  rw [general]
  show parser = { parser with headerState := HeaderState.hGeneral }
  rw [← general]

theorem closes_token (inToken : InList .inToken parser)
    (inLine : ∀ ch ∈ element, ch ≠ cr ∧ ch ≠ lf) (free : byte ',' ∉ element) :
    Closes parser element [] .behindComma := by
  intro rest
  refine ⟨parser.index, parser.headerState, ?_, closing_token inToken⟩
  induction element with
  | nil => rfl
  | cons ch element inductionHypothesis =>
      obtain ⟨here, inState⟩ := inToken
      obtain ⟨⟨notCr, notLf⟩, later⟩ := List.forall_mem_cons.mp inLine
      obtain ⟨notComma, free⟩ := not_or.mp (List.mem_cons.not.mp free)
      have good : valueChar parser parser.headerState ch =
          .ok (some (parser, parser.headerState)) := by
        rw [inState]
        exact if_neg fun comma => notComma comma.symm
      rw [List.cons_append, scan_valueChar here (not_or.mpr ⟨notCr, notLf⟩) good]
      show Scanned.put _ (httpScanner.scan parser (element ++ rest)) = _
      rw [inductionHypothesis later free]
      simp

theorem closes_option (option : ConnectionOption) (here : parser.state = .sHeaderValue)
    (compared : option.word.Compared parser.headerState parser.index text)
    (inLine : ∀ ch ∈ element, ch ≠ cr ∧ ch ≠ lf) (free : byte ',' ∉ element) :
    Closes parser element (if trimmed (text ++ element) = option.name then [option.flag] else [])
      (if trimmed (text ++ element) ≠ option.name ∧
          (text ++ element).map lower <+: option.name then .inToken
        else .behindComma) := by
  intro rest
  obtain ⟨index, headerState, scans, compared'⟩ := Word.scan_compared here compared inLine
    (fun ch among => decide_eq_false fun comma => free (comma ▸ among)) rest
  exact ⟨index, headerState, scans,
    @closing_option { parser with index := index, headerState := headerState } _ option here
      compared'⟩

end Elements

def firstState (place : Place) (ch : UInt8) : HeaderState :=
  match optionOf ch with
  | some option => option.matching
  | none =>
      if place = .start ∨ token (lower ch) ≠ 0 then .hMatchingConnectionToken else .hGeneral

theorem compared_first {option : ConnectionOption} (begins : optionOf ch = some option) :
    option.word.Compared option.matching 0 [ch] := by
  have letter : ∃ first rest, option.name = first :: rest ∧ rest ≠ [] ∧ lower ch = first := by
    unfold optionOf at begins
    split_ifs at begins with k c u
    · cases begins
      exact ⟨_, _, rfl, by decide, k⟩
    · cases begins
      exact ⟨_, _, rfl, by decide, c⟩
    · cases begins
      exact ⟨_, _, rfl, by decide, u⟩
  obtain ⟨first, rest, name, notEmpty, same⟩ := letter
  obtain ⟨second, rest, rfl⟩ := List.exists_cons_of_ne_nil notEmpty
  refine @Word.Compared.matching option.word 0 [ch] second rest rfl ?_
  rw [show option.word.text = option.name from rfl, name, ← same]
  rfl

theorem valueChar_behindComma (behind : InList .behindComma parser) (ch : UInt8) :
    valueChar parser parser.headerState ch =
      .ok (some ({ parser with index := 0 }, firstState .behindComma ch)) := by
  obtain ⟨-, start, index⟩ := behind
  have same : ({ parser with index := 0 } : HttpParser) = parser := by rw [← index]
  rw [same, start]
  unfold firstState optionOf valueChar
  dsimp only
  by_cases k : lower ch = byte 'k'
  · rw [if_pos k, if_pos k]
    rfl
  · rw [if_neg k, if_neg k]
    by_cases c : lower ch = byte 'c'
    · rw [if_pos c, if_pos c]
      rfl
    · rw [if_neg c, if_neg c]
      by_cases u : lower ch = byte 'u'
      · rw [if_pos u, if_pos u]
        rfl
      · rw [if_neg u, if_neg u]
        simp

theorem option_cases (value : List UInt8) :
    ∃ element, byte ',' ∉ element ∧
      (value = element ∨ ∃ more, value = element ++ byte ',' :: more) := by
  by_cases comma : byte ',' ∈ value
  · obtain ⟨element, more, same, free⟩ := List.eq_append_cons_of_mem comma
    exact ⟨element, free, Or.inr ⟨more, same⟩⟩
  · exact ⟨value, comma, Or.inl rfl⟩

/-- The list behind the first letter of an option, when it is known what shorter lists set. -/
theorem sets_first {place : Place} (notToken : place ≠ .inToken) (here : parser.state = .sHeaderValue)
    (first : parser.headerState = firstState place ch) (index : parser.index = 0)
    (notComma : ch ≠ byte ',') (inLine : ∀ other ∈ value, other ≠ cr ∧ other ≠ lf)
    (shorter : ∀ more : List UInt8, more.length < value.length → (∀ other ∈ more, other ≠ cr ∧ other ≠ lf) →
      ∀ place next, InList place next → Sets next more (listed place (more.splitOn (byte ',')))) :
    Sets parser value (listed place ((ch :: value).splitOn (byte ','))) := by
  obtain ⟨element, free, shape⟩ := option_cases value
  have lineElement : ∀ other ∈ element, other ≠ cr ∧ other ≠ lf := by
    rcases shape with rfl | ⟨more, rfl⟩
    · exact inLine
    · exact fun other among => inLine other (List.mem_append_left _ among)
  have free' : byte ',' ∉ ch :: element :=
    List.mem_cons.not.mpr (not_or.mpr ⟨fun same => notComma same.symm, free⟩)
  -- What one option comes to is the same whether or not a comma follows.
  have assemble : ∀ {flags : List Flag} {place' : Place}, Closes parser element flags place' →
      (∀ rest, listed place ((ch :: element) :: rest) = flags ++ listed place' rest) →
      Sets parser value (listed place ((ch :: value).splitOn (byte ','))) := by
    intro flags place' closes told
    rcases shape with rfl | ⟨more, rfl⟩
    · rw [List.splitOn_eq_singleton free', told, show listed place' [] = [] by cases place' <;> rfl,
        List.append_nil]
      exact closes.sets
    · rw [← List.cons_append, List.splitOn_append_cons_self_of_not_mem free', told]
      refine closes.comma (shorter more ?_ ?_ place')
      · rw [List.length_append, List.length_cons]
        omega
      · exact fun other among =>
          inLine other (List.mem_append_right _ (List.mem_cons_of_mem _ among))
  unfold firstState at first
  cases begins : optionOf ch with
  | some option =>
      rw [begins] at first
      have compared := compared_first begins
      rw [← index, ← show parser.headerState = option.matching from first] at compared
      apply assemble (closes_option option here compared lineElement free)
      intro rest
      rw [listed_option notToken begins, List.singleton_append]
      by_cases same : trimmed (ch :: element) = option.name
      · rw [if_pos same, if_pos same, if_neg fun differs => differs.1 same]
        rfl
      · rw [if_neg same, if_neg same]
        by_cases beginning : (ch :: element).map lower <+: option.name
        · rw [if_pos beginning, if_pos ⟨same, beginning⟩]
          rfl
        · rw [if_neg beginning, if_neg fun differs => beginning differs.2]
          rfl
  | none =>
      rw [begins] at first
      dsimp only at first
      split_ifs at first with known
      · apply assemble (closes_token ⟨here, first⟩ lineElement free)
        intro rest
        rw [listed_token notToken begins, if_pos known]
        rfl
      · have nothing : listed place ((ch :: value).splitOn (byte ',')) = [] := by
          rcases shape with rfl | ⟨more, rfl⟩
          · rw [List.splitOn_eq_singleton free', listed_token notToken begins, if_neg known]
          · rw [← List.cons_append, List.splitOn_append_cons_self_of_not_mem free',
              listed_token notToken begins, if_neg known]
        rw [nothing]
        exact sets_general here first inLine

theorem sets_listed {place : Place} (inList : InList place parser)
    (inLine : ∀ ch ∈ value, ch ≠ cr ∧ ch ≠ lf) :
    Sets parser value (listed place (value.splitOn (byte ','))) := by
  induction length : value.length using Nat.strong_induction_on generalizing parser place value with
  | _ length inductionHypothesis =>
      have shorter : ∀ more : List UInt8, more.length < value.length →
          (∀ other ∈ more, other ≠ cr ∧ other ≠ lf) → ∀ place next, InList place next →
          Sets next more (listed place (more.splitOn (byte ','))) :=
        fun more less line place next inList =>
          inductionHypothesis more.length (length ▸ less) inList line rfl
      cases place with
      | start => exact absurd inList.2 id
      | inToken =>
          obtain ⟨element, free, rfl | ⟨more, rfl⟩⟩ := option_cases value
          · rw [List.splitOn_eq_singleton free]
            exact (closes_token inList inLine free).sets
          · rw [List.splitOn_append_cons_self_of_not_mem free]
            have lineElement := fun other among => inLine other (List.mem_append_left _ among)
            refine (closes_token inList lineElement free).comma (shorter more ?_ ?_ .behindComma)
            · rw [List.length_append, List.length_cons]
              omega
            · exact fun other among =>
                inLine other (List.mem_append_right _ (List.mem_cons_of_mem _ among))
      | behindComma =>
          cases value with
          | nil =>
              intro rest
              refine ⟨parser, parser.index, parser.headerState, rfl, inList.1, ?_⟩
              rw [inList.2.1]
              show parser = { parser with headerState := HeaderState.hMatchingConnectionTokenStart }
              rw [← inList.2.1]
          | cons ch value =>
              obtain ⟨⟨notCr, notLf⟩, later⟩ := List.forall_mem_cons.mp inLine
              apply Sets.letter inList.1 (not_or.mpr ⟨notCr, notLf⟩)
                (valueChar_behindComma inList ch)
              by_cases comma : ch = byte ','
              · subst comma
                rw [show byte ',' :: value = [] ++ byte ',' :: value from rfl,
                  List.splitOn_append_cons_self_of_not_mem List.not_mem_nil value]
                exact sets_general inList.1 rfl later
              · refine sets_first nofun inList.1 rfl rfl comma later ?_
                intro more less
                exact shorter more (Nat.lt_succ_of_lt less)

theorem scan_connection (here : parser.state = .sHeaderValueDiscardWs)
    (connection : parser.headerState = .hConnection) (written : Value value) (rest : List UInt8) :
    ∃ next index headerState,
      httpScanner.scan parser (value ++ rest) =
          (httpScanner.scan next rest).put (value.map (.letter .headerValue)) ∧
        next.state = .sHeaderValue ∧
        next.leaveFlag next.headerState =
          { parser.setFlags (listed .start (value.splitOn (byte ','))) with
            state := .sHeaderValue
            index := index
            headerState := headerState } := by
  obtain ⟨ch, text, rfl⟩ := List.exists_cons_of_ne_nil written.notEmpty
  obtain ⟨⟨notCr, notLf⟩, later⟩ := List.forall_mem_cons.mp written.inLine
  let started : HttpParser :=
    { parser with
      state := .sHeaderValue
      index := 0
      headerState := firstState .start ch }
  have starts : headerValueStart parser ch = .read started (.mark .headerValue) := by
    unfold headerValueStart
    rw [connection]
    dsimp only [started]
    unfold firstState optionOf
    by_cases k : lower ch = byte 'k'
    · rw [if_pos k, if_pos k]
      rfl
    · rw [if_neg k, if_neg k]
      by_cases c : lower ch = byte 'c'
      · rw [if_pos c, if_pos c]
        rfl
      · rw [if_neg c, if_neg c]
        by_cases u : lower ch = byte 'u'
        · rw [if_pos u, if_pos u]
          rfl
        · rw [if_neg u, if_neg u]
          rfl
  have reacts := react_valueStart here (written.begins ch rfl) notCr notLf
  rw [starts] at reacts
  have sets : Sets started text (listed .start ((ch :: text).splitOn (byte ','))) := by
    by_cases comma : ch = byte ','
    · subst comma
      rw [show byte ',' :: text = [] ++ byte ',' :: text from rfl,
        List.splitOn_append_cons_self_of_not_mem List.not_mem_nil text]
      exact @sets_listed started _ .inToken ⟨rfl, rfl⟩ later
    · exact @sets_first started text ch .start nofun rfl rfl rfl comma later
        fun more _ line place next inList => sets_listed inList line
  obtain ⟨next, index, headerState, scans, state, leaves⟩ := sets rest
  refine ⟨next, index, headerState, ?_, state, ?_⟩
  · rw [List.cons_append, Scanner.scan_read reacts, scans, Scanned.put_put]
    rfl
  · rw [leaves, setFlags_eq started, setFlags_eq parser, setFlags_flags]
    rfl

end UAFlow.Http
