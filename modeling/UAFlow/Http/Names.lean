import UAFlow.Http.Scanner
import UAFlow.Library.CString

/-!
# Names

The parser compares the name of a header, and a method, while it reads it, and decides
at each character what the name can still become.
-/

namespace UAFlow.Http

open Library

variable {parser : HttpParser} {text : List UInt8} {ch : UInt8}

/-! ## Headers -/

/-- The headers the parser looks for. -/
inductive Known where
  | connection
  | proxyConnection
  | contentLength
  | transferEncoding
  | upgrade
  deriving DecidableEq

namespace Known

def name : Known → List UInt8
  | .connection => Http.connection
  | .proxyConnection => Http.proxyConnection
  | .contentLength => Http.contentLength
  | .transferEncoding => Http.transferEncoding
  | .upgrade => Http.upgrade

/-- The state behind the whole name. -/
def found : Known → HeaderState
  | .connection => .hConnection
  | .proxyConnection => .hConnection
  | .contentLength => .hContentLength
  | .transferEncoding => .hTransferEncoding
  | .upgrade => .hUpgrade

theorem eq_of_prefix {known other : Known} (begins : known.name <+: other.name) : known = other := by
  revert begins
  cases known <;> cases other <;> decide

theorem length_name (known : Known) : known.name.length < 18 := by
  cases known <;> decide

end Known

/-- The name so far begins this known name and no other, and `index` is the place of its
last character. -/
structure Along (known : Known) (index : UInt8) (text : List UInt8) : Prop where
  place : text.length = index.toNat + 1
  begins : ∃ ch rest, known.name = text ++ ch :: rest
  others : ∀ other : Known, other ≠ known → ¬text <+: other.name

/-- What the parser's state says about the name so far. -/
def Spelled (headerState : HeaderState) (index : UInt8) (text : List UInt8) : Prop :=
  match headerState with
  | .hGeneral => ∀ known : Known, ¬text <+: known.name
  | .hC => index = 0 ∧ text = ascii ['c']
  | .hCO => index = 1 ∧ text = ascii ['c', 'o']
  | .hCON => index = 2 ∧ text = ascii ['c', 'o', 'n']
  | .hMatchingConnection => Along .connection index text
  | .hMatchingProxyConnection => Along .proxyConnection index text
  | .hMatchingContentLength => Along .contentLength index text
  | .hMatchingTransferEncoding => Along .transferEncoding index text
  | .hMatchingUpgrade => Along .upgrade index text
  | .hConnection => text = connection ∨ text = proxyConnection
  | .hContentLength => text = contentLength
  | .hTransferEncoding => text = transferEncoding
  | .hUpgrade => text = upgrade
  | _ => False

theorem Along.astray {known : Known} {index : UInt8} {ch other : UInt8} {rest : List UInt8}
    (along : Along known index text) (name : known.name = text ++ ch :: rest) (differs : other ≠ ch)
    (any : Known) : ¬text ++ [other] <+: any.name := by
  intro begins
  by_cases same : any = known
  · subst same
    rw [name, List.prefix_append_right_inj, List.cons_prefix_cons] at begins
    exact differs begins.1
  · exact along.others any same ((List.prefix_append text [other]).trans begins)

theorem not_prefix_longer (known any : Known) (ch : UInt8) : ¬known.name ++ [ch] <+: any.name := by
  intro begins
  obtain rfl := Known.eq_of_prefix ((List.prefix_append known.name [ch]).trans begins)
  have := begins.length_le
  rw [List.length_append, List.length_singleton] at this
  omega

theorem matching_next {name before : List UInt8} {ch : UInt8} {rest : List UInt8}
    (spells : name = before ++ ch :: rest) (place : before.length = parser.index.toNat + 1)
    (short : name.length < 256) (c : UInt8) (here matched missed : HeaderState) :
    (parser.index + 1).toNat = before.length ∧
      matching parser name c here matched missed =
        ({ parser with index := parser.index + 1 },
          if c ≠ ch then missed else if rest = [] then matched else here) := by
  have length := congrArg List.length spells
  rw [List.length_append, List.length_cons] at length
  have next : (parser.index + 1).toNat = before.length := by
    rw [UInt8.toNat_add]
    simp only [UInt8.reduceToNat]
    omega
  have letterHere : (name ++ [0]).getD before.length 0 = ch := by
    rw [spells, List.append_assoc, List.getD_eq_getElem?_getD,
      List.getElem?_append_right (Nat.le_refl _), Nat.sub_self]
    rfl
  refine ⟨next, ?_⟩
  unfold matching
  dsimp only
  rw [next, letterHere]
  by_cases same : c = ch
  · have equal : ¬(before.length > name.length ∨ c ≠ ch) := by
      rintro (long | differs)
      · omega
      · exact differs same
    rw [if_neg equal, if_neg fun differs : c ≠ ch => differs same]
    cases rest with
    | nil => rw [if_pos (show before.length = name.length - 1 by rw [length]; rfl), if_pos rfl]
    | cons second rest =>
        rw [List.length_cons] at length
        rw [if_neg (show ¬before.length = name.length - 1 by omega),
          if_neg (List.cons_ne_nil second rest)]
  · rw [if_pos (Or.inr same), if_pos same]

theorem matching_along {known : Known} (along : Along known parser.index text) (c : UInt8)
    {here : HeaderState} :
    ∃ headerState,
      matching parser known.name c here known.found .hGeneral =
          ({ parser with index := parser.index + 1 }, headerState) ∧
        ((headerState = here ∧ Along known (parser.index + 1) (text ++ [c])) ∨
          (headerState = known.found ∧ text ++ [c] = known.name) ∨
          (headerState = .hGeneral ∧ ∀ any : Known, ¬text ++ [c] <+: any.name)) := by
  obtain ⟨ch, rest, name⟩ := along.begins
  obtain ⟨next, compares⟩ := matching_next name along.place
    (Nat.lt_trans known.length_name (by decide)) c here known.found .hGeneral
  refine ⟨_, compares, ?_⟩
  by_cases same : c = ch
  · subst same
    rw [if_neg fun differs => differs rfl]
    cases rest with
    | nil => exact Or.inr (Or.inl ⟨rfl, name.symm⟩)
    | cons second rest =>
        refine Or.inl ⟨rfl, ?_, ⟨second, rest, by rw [name]; simp⟩, ?_⟩
        · rw [List.length_append, List.length_singleton, next]
        · intro other differs begins
          exact along.others other differs ((List.prefix_append text [c]).trans begins)
  · rw [if_pos same]
    exact Or.inr (Or.inr ⟨rfl, along.astray name same⟩)

theorem prefix_goes {start : List UInt8} {ch : UInt8} {known : Known} {others : List UInt8}
    (only : ∀ any : Known, start <+: any.name →
      ∀ next ∈ (any.name.drop start.length).take 1, next ∈ others)
    (absent : ch ∉ others) : ¬start ++ [ch] <+: known.name := by
  intro begins
  have first : start <+: known.name := (List.prefix_append start [ch]).trans begins
  apply absent
  apply only known first
  obtain ⟨rest, name⟩ := begins
  rw [← name, List.append_assoc, List.drop_left]
  exact List.mem_cons_self

theorem fieldChar_spelled (spelled : Spelled parser.headerState parser.index text)
    (notBlank : ch ≠ byte ' ') (c : UInt8) :
    ∃ index headerState,
      fieldChar parser ch c =
          .ok { parser with index := index, headerState := headerState } ∧
        Spelled headerState index (text ++ [c]) := by
  have along : ∀ {known : Known} {here : HeaderState}, Along known parser.index text →
      (∀ index text, Along known index text → Spelled here index text) →
      (∀ index text, text = known.name → Spelled known.found index text) →
      ∃ index headerState,
        { (matching parser known.name c here known.found .hGeneral).1 with
          headerState := (matching parser known.name c here known.found .hGeneral).2 } =
            { parser with index := index, headerState := headerState } ∧
          Spelled headerState index (text ++ [c]) := by
    intro known here along onward whole
    obtain ⟨headerState, compares, ⟨rfl, more⟩ | ⟨rfl, name⟩ | ⟨rfl, astray⟩⟩ := matching_along along c
    · exact ⟨_, _, by rw [compares], onward _ _ more⟩
    · exact ⟨_, _, by rw [compares], whole _ _ name⟩
    · exact ⟨_, .hGeneral, by rw [compares], astray⟩
  unfold fieldChar
  dsimp only
  cases here : parser.headerState <;> rw [here] at spelled <;> dsimp only
  case hGeneral =>
    refine ⟨parser.index, .hGeneral, by rw [← here], fun any begins => ?_⟩
    exact spelled any ((List.prefix_append text [c]).trans begins)
  case hC =>
    obtain ⟨index, rfl⟩ := spelled
    refine ⟨_, _, rfl, ?_⟩
    rw [index]
    split_ifs with next
    · rw [next]
      exact ⟨rfl, rfl⟩
    · exact fun any => @prefix_goes _ _ any [byte 'o']
        (by intro any; cases any <;> decide +kernel) (by simpa using next)
  case hCO =>
    obtain ⟨index, rfl⟩ := spelled
    refine ⟨_, _, rfl, ?_⟩
    rw [index]
    split_ifs with next
    · rw [next]
      exact ⟨rfl, rfl⟩
    · exact fun any => @prefix_goes _ _ any [byte 'n']
        (by intro any; cases any <;> decide +kernel) (by simpa using next)
  case hCON =>
    obtain ⟨index, rfl⟩ := spelled
    refine ⟨_, _, rfl, ?_⟩
    rw [index]
    split_ifs with next next'
    · rw [next]
      exact ⟨rfl, ⟨_, _, rfl⟩, fun other => by cases other <;> decide⟩
    · rw [next']
      exact ⟨rfl, ⟨_, _, rfl⟩, fun other => by cases other <;> decide⟩
    · exact fun any =>
        @prefix_goes _ _ any [byte 'n', byte 't'] (by intro any; cases any <;> decide +kernel)
          (by simp [next, next'])
  case hMatchingConnection =>
    obtain ⟨index, headerState, same, next⟩ :=
      @along .connection .hMatchingConnection spelled (fun _ _ => id) fun _ _ => Or.inl
    exact ⟨index, headerState, congrArg _ same, next⟩
  case hMatchingProxyConnection =>
    obtain ⟨index, headerState, same, next⟩ :=
      @along .proxyConnection .hMatchingProxyConnection spelled (fun _ _ => id) fun _ _ => Or.inr
    exact ⟨index, headerState, congrArg _ same, next⟩
  case hMatchingContentLength =>
    obtain ⟨index, headerState, same, next⟩ :=
      @along .contentLength .hMatchingContentLength spelled (fun _ _ => id) fun _ _ => id
    exact ⟨index, headerState, congrArg _ same, next⟩
  case hMatchingTransferEncoding =>
    obtain ⟨index, headerState, same, next⟩ :=
      @along .transferEncoding .hMatchingTransferEncoding spelled (fun _ _ => id) fun _ _ => id
    exact ⟨index, headerState, congrArg _ same, next⟩
  case hMatchingUpgrade =>
    obtain ⟨index, headerState, same, next⟩ :=
      @along .upgrade .hMatchingUpgrade spelled (fun _ _ => id) fun _ _ => id
    exact ⟨index, headerState, congrArg _ same, next⟩
  case hConnection =>
    refine ⟨parser.index, .hGeneral, by rw [if_pos notBlank], fun any => ?_⟩
    rcases spelled with rfl | rfl
    · exact not_prefix_longer .connection any c
    · exact not_prefix_longer .proxyConnection any c
  case hContentLength =>
    refine ⟨parser.index, .hGeneral, by rw [if_pos notBlank], fun any => ?_⟩
    obtain rfl := spelled
    exact not_prefix_longer .contentLength any c
  case hTransferEncoding =>
    refine ⟨parser.index, .hGeneral, by rw [if_pos notBlank], fun any => ?_⟩
    obtain rfl := spelled
    exact not_prefix_longer .transferEncoding any c
  case hUpgrade =>
    refine ⟨parser.index, .hGeneral, by rw [if_pos notBlank], fun any => ?_⟩
    obtain rfl := spelled
    exact not_prefix_longer .upgrade any c
  all_goals exact absurd spelled id

theorem Spelled.found_iff {headerState : HeaderState} {index : UInt8}
    (spelled : Spelled headerState index text) (known : Known) :
    headerState = known.found ↔ ∃ other : Known, other.found = known.found ∧ text = other.name := by
  have along : ∀ {this : Known}, Along this index text → ∀ other : Known, text ≠ other.name := by
    intro this along other same
    by_cases mine : other = this
    · obtain ⟨ch, rest, name⟩ := along.begins
      rw [← mine, ← same] at name
      exact absurd (congrArg List.length name) (by simp)
    · exact along.others other mine (same ▸ List.prefix_rfl)
  have neither : (∀ other : Known, text ≠ other.name) → headerState ≠ known.found →
      (headerState = known.found ↔
        ∃ other : Known, other.found = known.found ∧ text = other.name) := by
    intro unlike differs
    refine ⟨fun same => absurd same differs, ?_⟩
    rintro ⟨other, -, same⟩
    exact absurd same (unlike other)
  have whole : ∀ this : Known, this.found = headerState → text = this.name →
      (headerState = known.found ↔
        ∃ other : Known, other.found = known.found ∧ text = other.name) := by
    rintro this rfl rfl
    refine ⟨fun same => ⟨this, same, rfl⟩, ?_⟩
    rintro ⟨other, same, name⟩
    rw [← same, Known.eq_of_prefix (name ▸ List.prefix_rfl : this.name <+: other.name)]
  cases headerState
  case hGeneral =>
    exact neither (fun other same => spelled other (same ▸ List.prefix_rfl)) (by cases known <;> nofun)
  case hC =>
    obtain ⟨-, rfl⟩ := spelled
    exact neither (fun other => by cases other <;> decide) (by cases known <;> nofun)
  case hCO =>
    obtain ⟨-, rfl⟩ := spelled
    exact neither (fun other => by cases other <;> decide) (by cases known <;> nofun)
  case hCON =>
    obtain ⟨-, rfl⟩ := spelled
    exact neither (fun other => by cases other <;> decide) (by cases known <;> nofun)
  case hMatchingConnection | hMatchingProxyConnection | hMatchingContentLength
      | hMatchingTransferEncoding | hMatchingUpgrade =>
    exact neither (along spelled) (by cases known <;> nofun)
  case hConnection =>
    rcases spelled with same | same
    · exact whole .connection rfl same
    · exact whole .proxyConnection rfl same
  case hContentLength => exact whole .contentLength rfl spelled
  case hTransferEncoding => exact whole .transferEncoding rfl spelled
  case hUpgrade => exact whole .upgrade rfl spelled
  all_goals exact absurd spelled id

theorem token_eq_tolower (isToken : token ch ≠ 0) : token ch = tolower ch := by
  have rows : ∀ index < tokens.length, tokens.getD index 0 ≠ 0 →
      tokens.getD index 0 = tolower (UInt8.ofNat index) := by decide +kernel
  unfold token at isToken ⊢
  by_cases inside : ch.toNat < tokens.length
  · rw [rows _ inside isToken, UInt8.ofNat_toNat]
  · rw [List.getD_eq_getElem?_getD, List.getElem?_eq_none (Nat.le_of_not_lt inside)] at isToken
    exact absurd rfl isToken

theorem map_token {name : List UInt8} (tokens : ∀ ch ∈ name, token ch ≠ 0) :
    name.map token = name.map tolower :=
  List.map_congr_left fun ch among => token_eq_tolower (tokens ch among)

theorem scan_nameRest (here : parser.state = .sHeaderField)
    (spelled : Spelled parser.headerState parser.index text) {letters : List UInt8}
    (tokens : ∀ ch ∈ letters, token ch ≠ 0) (rest : List UInt8) :
    ∃ index headerState,
      httpScanner.scan parser (letters ++ rest) =
          (httpScanner.scan { parser with index := index, headerState := headerState } rest).put
            (letters.map (.letter .headerField)) ∧
        Spelled headerState index (text ++ letters.map token) := by
  induction letters generalizing parser text with
  | nil => exact ⟨_, _, rfl, by simpa using spelled⟩
  | cons ch letters inductionHypothesis =>
      have isToken := tokens ch List.mem_cons_self
      have notBlank : ch ≠ byte ' ' := by
        rintro rfl
        exact isToken (by decide)
      obtain ⟨index, headerState, reads, spelled'⟩ := fieldChar_spelled spelled notBlank (token ch)
      obtain ⟨index', headerState', scans, spelled''⟩ :=
        @inductionHypothesis { parser with index := index, headerState := headerState } _ here spelled'
          fun other among => tokens other (List.mem_cons_of_mem ch among)
      refine ⟨index', headerState', ?_, by simpa using spelled''⟩
      have reacts : httpScanner.react parser ch =
          .read { parser with index := index, headerState := headerState }
            [.letter .headerField ch] := by
        show react parser ch = _
        unfold react
        rw [here]
        dsimp only
        rw [if_neg isToken, reads]
        dsimp only
        rw [here]
      rw [List.cons_append, Scanner.scan_read reacts, scans, Scanned.put_put]
      rfl

theorem scan_name (here : parser.state = .sHeaderFieldStart) {name : List UInt8} (notEmpty : name ≠ [])
    (tokens : ∀ ch ∈ name, token ch ≠ 0) (rest : List UInt8) :
    ∃ index headerState,
      httpScanner.scan parser (name ++ byte ':' :: rest) =
          (httpScanner.scan
            { parser with
              state := .sHeaderValueDiscardWs
              index := index
              headerState := headerState } rest).put
            (name.map (.letter .headerField) ++ [.closed .headerField]) ∧
        Spelled headerState index (name.map tolower) := by
  obtain ⟨ch, letters, rfl⟩ := List.exists_cons_of_ne_nil notEmpty
  have isToken := tokens ch List.mem_cons_self
  have notCr : ch ≠ cr := by
    rintro rfl
    exact isToken (by decide)
  have notLf : ch ≠ lf := by
    rintro rfl
    exact isToken (by decide)
  obtain ⟨first, starts, spelled⟩ : ∃ headerState,
      httpScanner.react parser ch =
          .read { parser with index := 0, state := .sHeaderField, headerState := headerState }
            [.letter .headerField ch] ∧
        Spelled headerState 0 [token ch] := by
    refine ⟨if token ch = byte 'c' then .hC
      else if token ch = byte 'p' then .hMatchingProxyConnection
      else if token ch = byte 't' then .hMatchingTransferEncoding
      else if token ch = byte 'u' then .hMatchingUpgrade
      else .hGeneral, ?_, ?_⟩
    · show react parser ch = _
      rw [react_single (by rw [here]; rfl)]
      unfold charStep headerFieldStart
      rw [here]
      dsimp only
      rw [if_neg notCr, if_neg notLf, if_neg isToken]
      rfl
    · split_ifs with c p t u
      · rw [c]
        exact ⟨rfl, rfl⟩
      · rw [p]
        exact ⟨rfl, ⟨_, _, rfl⟩, fun other => by cases other <;> decide⟩
      · rw [t]
        exact ⟨rfl, ⟨_, _, rfl⟩, fun other => by cases other <;> decide⟩
      · rw [u]
        exact ⟨rfl, ⟨_, _, rfl⟩, fun other => by cases other <;> decide⟩
      · exact fun any => @prefix_goes [] (token ch) any [byte 'c', byte 'p', byte 't', byte 'u']
          (by intro any; cases any <;> decide +kernel) (by simp [c, p, t, u])
  obtain ⟨index, headerState, scans, spelled'⟩ :=
    @scan_nameRest { parser with index := 0, state := .sHeaderField, headerState := first } _ rfl
      spelled letters (fun other among => tokens other (List.mem_cons_of_mem ch among))
      (byte ':' :: rest)
  refine ⟨index, headerState, ?_, ?_⟩
  · have ends : httpScanner.react
        { parser with index := index, state := .sHeaderField, headerState := headerState }
        (byte ':') =
          .read
            { parser with
              index := index
              state := .sHeaderValueDiscardWs
              headerState := headerState } [.closed .headerField] := rfl
    rw [List.cons_append, Scanner.scan_read starts, scans, Scanner.scan_read ends]
    simp
  · rw [← map_token tokens]
    simpa using spelled'

/-- The parser knows a header by its whole name, in upper or lower case, and no other. -/
theorem header_known_iff (here : parser.state = .sHeaderFieldStart) {name : List UInt8}
    (notEmpty : name ≠ []) (tokens : ∀ ch ∈ name, token ch ≠ 0) :
    ∃ index headerState,
      httpScanner.scan parser (name ++ [byte ':']) =
          ⟨name.map (.letter .headerField) ++ [.closed .headerField],
            .reached { parser with
              state := .sHeaderValueDiscardWs
              index := index
              headerState := headerState }⟩ ∧
        ∀ known : Known, headerState = known.found ↔
          ∃ other : Known, other.found = known.found ∧ name.map tolower = other.name := by
  obtain ⟨index, headerState, scans, spelled⟩ := scan_name here notEmpty tokens []
  refine ⟨index, headerState, ?_, spelled.found_iff⟩
  rw [scans, Scanner.scan_nil]
  simp [Scanned.put]

/-- `TE` is not known. -/
theorem header_known_iff_te :
    ∃ index headerState,
      httpScanner.scan { httpParserInit .httpRequest with state := .sHeaderFieldStart }
          (ascii ['T', 'E'] ++ [byte ':']) =
        ⟨(ascii ['T', 'E']).map (.letter .headerField) ++ [.closed .headerField],
          .reached { httpParserInit .httpRequest with
            state := .sHeaderValueDiscardWs
            index := index
            headerState := headerState }⟩ ∧
      ∀ known : Known, headerState = known.found ↔
        ∃ other : Known, other.found = known.found ∧
          (ascii ['T', 'E']).map tolower = other.name :=
  @header_known_iff { httpParserInit .httpRequest with state := .sHeaderFieldStart } rfl
    (ascii ['T', 'E']) (by decide) (by decide +kernel)

/-! ## Methods -/

/-- The method these letters lead to, from the one guessed so far. -/
def methodFrom (method : HttpMethod) (index : Nat) : List UInt8 → Option HttpMethod
  | [] => if index = (methodStrings method).length then some method else none
  | ch :: letters =>
      if ch = 0 then
        none
      else if (methodStrings method)[index]? = some ch then
        methodFrom method (index + 1) letters
      else
        match otherMethod method index ch with
        | none => none
        | some other => methodFrom other (index + 1) letters

def methodNamed : List UInt8 → Option HttpMethod
  | [] => none
  | ch :: letters =>
      if !isAlpha ch then none
      else
        match methodOf ch with
        | none => none
        | some method => methodFrom method 1 letters

/-- The parser changes its guess to a method that begins with the same letters. -/
theorem otherMethod_begins {method other : HttpMethod} {index : Nat}
    (found : otherMethod method index ch = some other) :
    (methodStrings method).take index ++ [ch] <+: methodStrings other := by
  unfold otherMethod at found
  split_ifs at found <;> cases found <;> simp_all <;> decide

theorem methodOf_begins {method : HttpMethod} (guess : methodOf ch = some method) :
    [ch] <+: methodStrings method := by
  have rows : ∀ code < 256, ∀ method ∈ methodOf (UInt8.ofNat code),
      [UInt8.ofNat code] <+: methodStrings method := by decide +kernel
  have begins := rows ch.toNat ch.toNat_lt method
  rw [UInt8.ofNat_toNat] at begins
  exact begins guess

theorem prefix_of_getElem? {name : List UInt8} {index : Nat} (next : name[index]? = some ch) :
    name.take index ++ [ch] <+: name := by
  obtain ⟨inside, rfl⟩ := List.getElem?_eq_some_iff.mp next
  rw [List.take_append_getElem]
  exact List.take_prefix _ _

theorem methodFrom_sound {method other : HttpMethod} {start letters : List UInt8}
    (begins : start <+: methodStrings method)
    (found : methodFrom method start.length letters = some other) :
    start ++ letters = methodStrings other := by
  induction letters generalizing method start with
  | nil =>
      rw [methodFrom] at found
      split_ifs at found with whole
      cases found
      rw [List.append_nil]
      exact begins.eq_of_length whole
  | cons ch letters inductionHypothesis =>
      have taken : (methodStrings method).take start.length = start :=
        (List.prefix_iff_eq_take.mp begins).symm
      have longer : (start ++ [ch]).length = start.length + 1 := List.length_append
      have whole : start ++ ch :: letters = start ++ [ch] ++ letters := by
        rw [List.append_assoc]
        rfl
      rw [methodFrom] at found
      rw [whole]
      split_ifs at found with zero next
      · have begins' := prefix_of_getElem? next
        rw [taken] at begins'
        exact inductionHypothesis begins' (by rw [longer]; exact found)
      · cases changes : otherMethod method start.length ch with
        | none =>
            rw [changes] at found
            cases found
        | some next =>
            rw [changes] at found
            have begins' := otherMethod_begins changes
            rw [taken] at begins'
            exact inductionHypothesis begins' (by rw [longer]; exact found)

theorem methodNamed_sound {name : List UInt8} {method : HttpMethod}
    (found : methodNamed name = some method) : name = methodStrings method := by
  cases name with
  | nil => cases found
  | cons ch letters =>
      rw [methodNamed] at found
      split_ifs at found with alpha
      cases guess : methodOf ch with
      | none =>
          rw [guess] at found
          cases found
      | some first =>
          rw [guess] at found
          exact methodFrom_sound (methodOf_begins guess) found

theorem methodNamed_methodStrings (method : HttpMethod) :
    methodNamed (methodStrings method) = some method := by
  cases method <;> rfl

theorem methodNamed_iff {name : List UInt8} {method : HttpMethod} :
    methodNamed name = some method ↔ name = methodStrings method := by
  refine ⟨methodNamed_sound, ?_⟩
  rintro rfl
  exact methodNamed_methodStrings method

theorem otherMethod_blank (method : HttpMethod) (index : Nat) :
    otherMethod method index (byte ' ') = none := by
  cases found : otherMethod method index (byte ' ') with
  | none => rfl
  | some other =>
      have begins := (otherMethod_begins found).subset (List.mem_append_right _ List.mem_cons_self)
      revert begins
      cases other <;> decide

theorem react_method (here : parser.state = .sReqMethod)
    (inside : parser.index.toNat ≤ (methodStrings parser.method).length) (ch : UInt8) :
    react parser ch =
      if ch = 0 then .fail { parser with httpErrno := .invalidMethod }
      else if ch = byte ' ' ∧ parser.index.toNat = (methodStrings parser.method).length then
        .read { parser with state := .sReqSpacesBeforeUrl, index := parser.index + 1 } []
      else if (methodStrings parser.method)[parser.index.toNat]? = some ch then
        .read { parser with index := parser.index + 1 } []
      else
        match otherMethod parser.method parser.index.toNat ch with
        | none => .fail { parser with httpErrno := .invalidMethod }
        | some method => .read { parser with method := method, index := parser.index + 1 } [] := by
  have unlettered : Action.quiet.symbols parser.state ch = [] := by
    rw [here]
    rfl
  have step : charStep parser ch = reqMethod parser ch := by
    unfold charStep
    rw [here]
  rw [react_single (by rw [here]; rfl), step]
  unfold reqMethod
  by_cases zero : ch = 0
  · rw [if_pos zero, if_pos zero]
    rfl
  rw [if_neg zero, if_neg zero]
  rcases Nat.lt_or_eq_of_le inside with before | last
  · have letter : (methodStrings parser.method)[parser.index.toNat] ≠ 0 := by
      have texts : ∀ method, ∀ letter ∈ methodStrings method, letter ≠ 0 := by
        intro method
        cases method <;> decide +kernel
      exact texts _ _ (List.getElem_mem before)
    rw [List.getElem?_append_left before, List.getElem?_eq_getElem before]
    dsimp only
    rw [if_neg fun ends : ch = byte ' ' ∧ _ => letter ends.2,
      if_neg fun ends : ch = byte ' ' ∧ _ => absurd ends.2 (Nat.ne_of_lt before)]
    by_cases same : ch = (methodStrings parser.method)[parser.index.toNat]
    · rw [if_pos same, if_pos (congrArg some same.symm), Verdict.reaction, unlettered]
    · rw [if_neg same, if_neg fun eq => same (Option.some.inj eq).symm]
      cases otherMethod parser.method parser.index.toNat ch with
      | none => rfl
      | some method => rw [Verdict.reaction, unlettered]
  · rw [last, List.getElem?_concat_length, List.getElem?_eq_none (Nat.le_refl _)]
    dsimp only
    by_cases blank : ch = byte ' '
    · rw [if_pos ⟨blank, rfl⟩, if_pos ⟨blank, rfl⟩, Verdict.reaction, unlettered]
    · rw [if_neg fun ends : ch = byte ' ' ∧ _ => blank ends.1, if_neg zero,
        if_neg fun ends : ch = byte ' ' ∧ _ => blank ends.1, if_neg nofun]
      cases otherMethod parser.method (methodStrings parser.method).length ch with
      | none => rfl
      | some method => rw [Verdict.reaction, unlettered]

theorem index_next (inside : parser.index.toNat ≤ (methodStrings parser.method).length) :
    (parser.index + 1).toNat = parser.index.toNat + 1 := by
  have short := methodStrings_length parser.method
  rw [UInt8.toNat_add]
  exact Nat.mod_eq_of_lt (by simp only [UInt8.reduceToNat]; omega)

theorem scan_methodRest (here : parser.state = .sReqMethod)
    (inside : parser.index.toNat ≤ (methodStrings parser.method).length) {letters : List UInt8}
    (word : byte ' ' ∉ letters) (rest : List UInt8) :
    match methodFrom parser.method parser.index.toNat letters with
    | some method => ∃ index,
        httpScanner.scan parser (letters ++ byte ' ' :: rest) =
          httpScanner.scan
            { parser with method := method, state := .sReqSpacesBeforeUrl, index := index } rest
    | none => (httpScanner.scan parser (letters ++ byte ' ' :: rest)).ending.isFailed = true := by
  induction letters generalizing parser with
  | nil =>
      have reacts : httpScanner.react parser (byte ' ') = _ := react_method here inside (byte ' ')
      rw [if_neg (by decide)] at reacts
      rw [methodFrom, List.nil_append]
      by_cases whole : parser.index.toNat = (methodStrings parser.method).length
      · rw [if_pos whole]
        rw [if_pos ⟨rfl, whole⟩] at reacts
        exact ⟨_, by rw [Scanner.scan_read reacts]; rfl⟩
      · rw [if_neg whole]
        have texts : ∀ method, byte ' ' ∉ methodStrings method := by
          intro method
          cases method <;> decide
        rw [if_neg fun ends : byte ' ' = byte ' ' ∧ _ => whole ends.2,
          if_neg fun same => texts _ (List.mem_of_getElem? same), otherMethod_blank] at reacts
        rw [Scanner.scan_fail reacts]
        rfl
  | cons ch letters inductionHypothesis =>
      rw [List.mem_cons, not_or] at word
      have reacts : httpScanner.react parser ch = _ := react_method here inside ch
      rw [if_neg fun ends : ch = byte ' ' ∧ _ => word.1 ends.1.symm] at reacts
      rw [methodFrom, List.cons_append]
      have next := index_next inside
      by_cases zero : ch = 0
      · rw [if_pos zero] at reacts ⊢
        rw [Scanner.scan_fail reacts]
        rfl
      rw [if_neg zero] at reacts ⊢
      by_cases same : (methodStrings parser.method)[parser.index.toNat]? = some ch
      · rw [if_pos same] at reacts ⊢
        obtain ⟨before, -⟩ := List.getElem?_eq_some_iff.mp same
        rw [Scanner.scan_read reacts, Scanned.put_nil, ← next]
        exact @inductionHypothesis { parser with index := parser.index + 1 } here
          (Nat.le_trans (Nat.le_of_eq next) before) word.2
      · rw [if_neg same] at reacts ⊢
        cases changes : otherMethod parser.method parser.index.toNat ch with
        | none =>
            rw [changes] at reacts
            rw [Scanner.scan_fail reacts]
            rfl
        | some method =>
            rw [changes] at reacts
            dsimp only
            rw [Scanner.scan_read reacts, Scanned.put_nil, ← next]
            exact @inductionHypothesis { parser with method := method, index := parser.index + 1 }
              here (Nat.le_trans (Nat.le_of_eq next) (otherMethod_fits changes)) word.2

theorem scan_method (here : parser.state = .sStartReq) {name : List UInt8}
    (word : byte ' ' ∉ name) (starts : ∀ ch ∈ name.head?, ch ≠ cr ∧ ch ≠ lf) (notEmpty : name ≠ [])
    (rest : List UInt8) :
    match methodNamed name with
    | some method => ∃ index,
        httpScanner.scan parser (name ++ byte ' ' :: rest) =
          (httpScanner.scan
            { parser with
              flags := 0
              contentLength := ullongMax
              method := method
              state := .sReqSpacesBeforeUrl
              index := index } rest).put [.notice .messageBegin]
    | none => (httpScanner.scan parser (name ++ byte ' ' :: rest)).ending.isFailed = true := by
  obtain ⟨ch, letters, rfl⟩ := List.exists_cons_of_ne_nil notEmpty
  obtain ⟨notCr, notLf⟩ := starts ch rfl
  have reacts : httpScanner.react parser ch = (startReq parser ch).reaction parser ch := by
    show react parser ch = _
    rw [react_single (by rw [here]; rfl)]
    unfold charStep
    rw [here]
  unfold startReq at reacts
  rw [if_neg (by rintro (same | same); exacts [notCr same, notLf same])] at reacts
  dsimp only at reacts
  rw [methodNamed, List.cons_append]
  by_cases alpha : (!isAlpha ch) = true
  · rw [if_pos alpha] at reacts ⊢
    rw [Scanner.scan_fail reacts]
    rfl
  · rw [if_neg alpha] at reacts ⊢
    cases guess : methodOf ch with
    | none =>
        rw [guess] at reacts
        rw [Scanner.scan_fail reacts]
        rfl
    | some method =>
        rw [guess] at reacts
        have going := @scan_methodRest
          { parser with
            flags := 0
            contentLength := ullongMax
            method := method
            index := 1
            state := .sReqMethod } rfl
          (methodOf_begins guess).length_le letters
          (fun among => word (List.mem_cons_of_mem ch among)) rest
        dsimp only at going ⊢
        rw [Scanner.scan_read reacts]
        cases found : methodFrom method 1 letters with
        | none =>
            rw [show (1 : UInt8).toNat = 1 from rfl, found] at going
            exact going
        | some named =>
            rw [show (1 : UInt8).toNat = 1 from rfl, found] at going
            obtain ⟨index, scans⟩ := going
            exact ⟨index, by rw [scans]; rfl⟩

/-- The parser knows the methods of the table, whole and in upper case, and no other. -/
theorem method_known_iff (here : parser.state = .sStartReq) {name : List UInt8}
    (word : byte ' ' ∉ name) (starts : ∀ ch ∈ name.head?, ch ≠ cr ∧ ch ≠ lf) (notEmpty : name ≠ [])
    (method : HttpMethod) :
    (∃ index, httpScanner.scan parser (name ++ [byte ' ']) =
        ⟨[.notice .messageBegin], .reached { parser with
          flags := 0
          contentLength := ullongMax
          method := method
          state := .sReqSpacesBeforeUrl
          index := index }⟩) ↔
      name = methodStrings method := by
  have scans := scan_method here word starts notEmpty []
  rw [← methodNamed_iff]
  cases found : methodNamed name with
  | none =>
      rw [found] at scans
      refine ⟨?_, nofun⟩
      rintro ⟨index, reached⟩
      rw [reached] at scans
      cases scans
  | some other =>
      rw [found] at scans
      obtain ⟨index, scans⟩ := scans
      rw [scans, Scanner.scan_nil]
      constructor
      · rintro ⟨index', same⟩
        injection same with _ ending
        injection ending with parsers
        exact congrArg some (congrArg HttpParser.method parsers)
      · rintro ⟨⟩
        exact ⟨index, rfl⟩

/-- `GET` is known, and `G` is not. -/
theorem method_known_iff_get :
    (∃ index, httpScanner.scan (httpParserInit .httpRequest) (ascii ['G', 'E', 'T'] ++ [byte ' ']) =
        ⟨[.notice .messageBegin], .reached { httpParserInit .httpRequest with
          flags := 0
          contentLength := ullongMax
          method := .get
          state := .sReqSpacesBeforeUrl
          index := index }⟩) ∧
      ¬∃ index, httpScanner.scan (httpParserInit .httpRequest) ([byte 'G'] ++ [byte ' ']) =
        ⟨[.notice .messageBegin], .reached { httpParserInit .httpRequest with
          flags := 0
          contentLength := ullongMax
          method := .get
          state := .sReqSpacesBeforeUrl
          index := index }⟩ :=
  ⟨(@method_known_iff (httpParserInit .httpRequest) rfl (ascii ['G', 'E', 'T']) (by decide)
      (by decide +kernel) (by decide) .get).mpr rfl,
    fun known => absurd ((@method_known_iff (httpParserInit .httpRequest) rfl [byte 'G'] (by decide)
      (by decide +kernel) (by decide) .get).mp known) (by decide)⟩

end UAFlow.Http
