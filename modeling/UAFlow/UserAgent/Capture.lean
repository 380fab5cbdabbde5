import UAFlow.UserAgent.Model

/-!
# Which text the HTTP handler captures

The handler is meant to keep the value of the `User-Agent` header.  The flag
that marks this header is set but never consulted, so every value is copied
over the buffer; a shorter value leaves the tail of a longer one in place.
-/

namespace UAFlow.UserAgent

open Library

/-- A header pair in the packet: the name with the colon and what follows it,
the value with what follows it. -/
structure Header where
  name : List UInt8
  behindColon : Nat → UInt8
  value : List UInt8
  behindValue : Nat → UInt8
  nulFree : ∀ char ∈ value, char ≠ 0

/-- A request the way the parser reports it. -/
structure Request where
  url : List UInt8
  urlNonempty : url ≠ []
  behindUrl : Nat → UInt8
  headers : List Header

def userAgent : List UInt8 := [117, 115, 101, 114, 45, 97, 103, 101, 110, 116]

namespace Header

def colon : UInt8 := 58

def field (header : Header) : Callback :=
  .onHeaderField (bytesThen (header.name ++ [colon]) header.behindColon) header.name.length

def callbacks (header : Header) : List Callback :=
  [header.field, .onHeaderValue (bytesThen header.value header.behindValue) header.value.length]

def IsUserAgent (header : Header) : Prop := header.name.map tolower = userAgent

instance (header : Header) : Decidable header.IsUserAgent :=
  inferInstanceAs (Decidable (_ = _))

def cut (header : Header) : List UInt8 := header.value.take (sizeofUa - 1)

end Header

namespace Request

def callbacks (request : Request) : List Callback :=
  .onMessageBegin :: .onUrl (bytesThen request.url request.behindUrl) request.url.length ::
    request.headers.flatMap Header.callbacks

def node (request : Request) : FlowUaCommonNode := httpParserExecute request.callbacks

def Agent (request : Request) (header : Header) : Prop :=
  header ∈ request.headers ∧ header.IsUserAgent ∧ header.value ≠ []

/-- The handler completes exactly for requests with a `User-Agent`, and then
searches for the value of such a header. -/
def Delivers (request : Request) : Prop :=
  (request.node.oncplt = true ↔ ∃ header, request.Agent header) ∧
    ∀ text, searchedText request.node = some text →
      ∃ header, request.Agent header ∧ text = header.cut

end Request

/-- The last header value that reaches beyond `offset` has `char` there. -/
def LastByte (headers : List Header) (offset : Nat) (char : UInt8) : Prop :=
  ∃ before header after, headers = before ++ header :: after ∧
    header.cut[offset]? = some char ∧ ∀ later ∈ after, later.cut.length ≤ offset

/-- No header has a value, or there is a `User-Agent` value at least as long as
all others which agrees, at each of its positions, with the last value that
reaches beyond it. -/
def Request.Prevails (request : Request) : Prop :=
  (∀ header ∈ request.headers, header.value = []) ∨
    ∃ agent, request.Agent agent ∧
      (∀ header ∈ request.headers, header.cut.length ≤ agent.cut.length) ∧
      ∀ offset char, agent.cut[offset]? = some char → LastByte request.headers offset char

/-! ## One header -/

theorem Header.cut_length (header : Header) :
    header.cut.length = min (sizeofUa - 1) header.value.length :=
  List.length_take

theorem Header.cut_lt (header : Header) : header.cut.length < sizeofUa := by
  rw [header.cut_length]
  unfold sizeofUa
  omega

theorem Header.cut_ne_zero {header : Header} {offset : Nat} {char : UInt8}
    (found : header.cut[offset]? = some char) : char ≠ 0 :=
  header.nulFree char (List.mem_of_mem_take (List.mem_of_getElem? found))

theorem tolower_eq_colon {char : UInt8} (equal : tolower char = Header.colon) :
    char = Header.colon := by
  unfold tolower at equal
  split at equal
  next upper =>
    have sum : (char + 32).toNat = Header.colon.toNat := by rw [equal]
    rw [UInt8.toNat_add] at sum
    have low := UInt8.le_iff_toNat_le.mp upper.1
    have high := UInt8.le_iff_toNat_le.mp upper.2
    simp only [Header.colon, UInt8.reduceToNat] at low high sum
    omega
  next => exact equal

theorem pattern_text : ∀ char ∈ flowUaCommonPatternString, char ≠ 0 :=
  ne_zero_of_all rfl

theorem tolower_pattern {index : Nat} (below : index < flowUaCommonPatternString.length) :
    (userAgent ++ [Header.colon])[index]? =
      some (tolower flowUaCommonPatternString[index]) := by
  revert index
  decide

theorem Header.colon_found (header : Header) :
    bytesThen (header.name ++ [colon]) header.behindColon header.name.length = colon := by
  rw [bytesThen_of_lt (by simp)]
  simp

theorem Header.name_found (header : Header) {index : Nat} (inside : index < header.name.length) :
    bytesThen (header.name ++ [colon]) header.behindColon index = header.name[index] := by
  rw [bytesThen_of_lt (by simp; omega)]
  exact List.getElem_append_left inside

/-- The pattern has its only colon at the end, so a name without a colon agrees
with it only when it is as long as the pattern without the colon. -/
theorem Header.length_of_agrees {header : Header} (plain : colon ∉ header.name)
    (agrees : ∀ index (below : index < flowUaCommonPatternString.length),
      tolower (bytesThen (header.name ++ [colon]) header.behindColon index) =
        tolower flowUaCommonPatternString[index]) :
    header.name.length = userAgent.length := by
  rcases Nat.lt_trichotomy header.name.length userAgent.length with short | equal | long
  · have here := agrees header.name.length (Nat.lt_succ_of_lt short)
    have expected := tolower_pattern (Nat.lt_succ_of_lt short)
    rw [← here, header.colon_found, List.getElem?_append_left short] at expected
    exact absurd (List.mem_of_getElem? expected) (by decide)
  · exact equal
  · have here := agrees userAgent.length (by decide)
    rw [header.name_found long] at here
    have isColon : header.name[userAgent.length] = colon := tolower_eq_colon here
    exact absurd (isColon ▸ List.getElem_mem long) plain

theorem Header.isUserAgent_iff (header : Header) (plain : colon ∉ header.name) :
    header.IsUserAgent ↔ ∀ index (below : index < flowUaCommonPatternString.length),
      tolower (bytesThen (header.name ++ [colon]) header.behindColon index) =
        tolower flowUaCommonPatternString[index] := by
  constructor
  · intro agent index below
    have length : header.name.length = userAgent.length := by
      rw [← agent, List.length_map]
    have expected := tolower_pattern below
    rcases Nat.lt_or_ge index header.name.length with inside | last
    · rw [List.getElem?_append_left (length ▸ inside), ← agent, List.getElem?_map,
        List.getElem?_eq_getElem inside] at expected
      rw [header.name_found inside]
      exact Option.some.inj expected
    · obtain rfl : index = userAgent.length :=
        Nat.le_antisymm (Nat.le_of_lt_succ below) (length ▸ last)
      have found := header.colon_found
      rw [length] at found
      rw [found]
      rfl
  · intro agrees
    have length := Header.length_of_agrees plain agrees
    apply List.ext_getElem (by rw [List.length_map, length])
    intro index inside below
    have within : index < header.name.length := by rwa [length]
    have expected := tolower_pattern (Nat.lt_succ_of_lt below)
    rw [← agrees index (Nat.lt_succ_of_lt below), header.name_found within,
      List.getElem?_append_left below, List.getElem?_eq_getElem below] at expected
    rw [List.getElem_map]
    exact (Option.some.inj expected).symm

/-- With the request line behind it, `onHeaderField` marks the `User-Agent`
header and no other whose name has no colon. -/
theorem onHeaderField_onua_iff {node : FlowUaCommonNode} {header : Header}
    (begun : node.onbeg = true) (url : node.onurl = true) (clear : node.onua = false)
    (nonempty : header.name ≠ []) (plain : Header.colon ∉ header.name) :
    (called node header.field).onua = true ↔ header.IsUserAgent := by
  have compared : strncasecmp (bytesThen (header.name ++ [Header.colon]) header.behindColon)
      (literal flowUaCommonPatternString) flowUaCommonPatternString.length = 0 ↔
        header.IsUserAgent :=
    (strncasecmp_literal_eq_zero_iff pattern_text).trans (header.isUserAgent_iff plain).symm
  have named : header.name.length > 0 := List.length_pos_iff.mpr nonempty
  simp only [called, Header.field, onHeaderField, begun, url, named, true_and]
  split
  next found => simpa using compared.mp found
  next differs => simpa [clear] using differs ∘ compared.mpr

@[simp] theorem onHeaderField_ua (node : FlowUaCommonNode) (text : Nat → UInt8) (length : Nat) :
    (onHeaderField node text length).ua = node.ua := by
  unfold onHeaderField
  split <;> rfl

@[simp] theorem onHeaderField_oncplt (node : FlowUaCommonNode) (text : Nat → UInt8)
    (length : Nat) : (onHeaderField node text length).oncplt = node.oncplt := by
  unfold onHeaderField
  split <;> rfl

theorem onHeaderValue_bytes {value : List UInt8} (nulFree : ∀ char ∈ value, char ≠ 0)
    (behind : Nat → UInt8) (node : FlowUaCommonNode) (offset : Nat) :
    (onHeaderValue node (bytesThen value behind) value.length).ua offset =
      ((value.take (sizeofUa - 1))[offset]?).getD (node.ua offset) := by
  unfold onHeaderValue
  by_cases empty : value = []
  · simp [empty]
  · have text : ∀ index < min (sizeofUa - 1) value.length, bytesThen value behind index ≠ 0 := by
      intro index below
      have inside : index < value.length := by omega
      rw [bytesThen_of_lt inside]
      exact nulFree _ (List.getElem_mem inside)
    have reach : (if value.length > sizeofUa - 1 then sizeofUa - 1 else value.length) =
        min (sizeofUa - 1) value.length := by
      split <;> omega
    rw [if_pos (List.length_pos_iff.mpr empty)]
    simp only [reach, strncpy_of_text text, List.getElem?_take]
    by_cases below : offset < min (sizeofUa - 1) value.length
    · have inside : offset < value.length := by omega
      rw [if_pos below, if_pos (by omega), bytesThen_of_lt inside]
      simp [inside]
    · rw [if_neg below]
      split
      next within =>
        have outside : value.length ≤ offset := by omega
        simp [outside]
      next => rfl

theorem onHeaderValue_ua (node : FlowUaCommonNode) (header : Header) (offset : Nat) :
    (onHeaderValue node (bytesThen header.value header.behindValue) header.value.length).ua offset =
      (header.cut[offset]?).getD (node.ua offset) :=
  onHeaderValue_bytes header.nulFree header.behindValue node offset

theorem onHeaderValue_oncplt (node : FlowUaCommonNode) (header : Header) :
    (onHeaderValue node (bytesThen header.value header.behindValue) header.value.length).oncplt =
      (node.oncplt || !header.value.isEmpty) := by
  unfold onHeaderValue
  cases header.value with
  | nil => simp
  | cons char rest => simp

/-! ## The headers of a request -/

def afterHeaders (node : FlowUaCommonNode) (headers : List Header) : FlowUaCommonNode :=
  (headers.flatMap Header.callbacks).foldl called node

theorem afterHeaders_cons (node : FlowUaCommonNode) (header : Header) (headers : List Header) :
    afterHeaders node (header :: headers) =
      afterHeaders (onHeaderValue (called node header.field)
        (bytesThen header.value header.behindValue) header.value.length) headers := by
  simp [afterHeaders, Header.callbacks, called]

theorem afterHeaders_append (node : FlowUaCommonNode) (before after : List Header) :
    afterHeaders node (before ++ after) = afterHeaders (afterHeaders node before) after := by
  simp [afterHeaders]

theorem afterHeaders_oncplt (node : FlowUaCommonNode) (headers : List Header) :
    (afterHeaders node headers).oncplt = true ↔
      node.oncplt = true ∨ ∃ header ∈ headers, header.value ≠ [] := by
  induction headers generalizing node with
  | nil => simp [afterHeaders]
  | cons header headers inductionHypothesis =>
      rw [afterHeaders_cons, inductionHypothesis, onHeaderValue_oncplt]
      simp [Header.field, called, or_assoc]

theorem afterHeaders_ua_of_short (node : FlowUaCommonNode) {headers : List Header} {offset : Nat}
    (short : ∀ header ∈ headers, header.cut.length ≤ offset) :
    (afterHeaders node headers).ua offset = node.ua offset := by
  induction headers generalizing node with
  | nil => rfl
  | cons header headers inductionHypothesis =>
      have outside : header.cut[offset]? = none :=
        List.getElem?_eq_none (short header List.mem_cons_self)
      rw [afterHeaders_cons, inductionHypothesis _ fun later membership =>
        short later (List.mem_cons_of_mem header membership), onHeaderValue_ua, outside]
      simp [Header.field, called]

theorem afterHeaders_ua_of_lastByte (node : FlowUaCommonNode) {headers : List Header}
    {offset : Nat} {char : UInt8} (last : LastByte headers offset char) :
    (afterHeaders node headers).ua offset = char := by
  obtain ⟨before, header, after, rfl, found, short⟩ := last
  rw [afterHeaders_append, afterHeaders_cons, afterHeaders_ua_of_short _ short,
    onHeaderValue_ua, found]
  rfl

theorem LastByte.cons {headers : List Header} {offset : Nat} {char : UInt8}
    (last : LastByte headers offset char) (header : Header) :
    LastByte (header :: headers) offset char := by
  obtain ⟨before, last, after, rfl, found, short⟩ := last
  exact ⟨header :: before, last, after, rfl, found, short⟩

theorem LastByte.ne_zero {headers : List Header} {offset : Nat} {char : UInt8}
    (last : LastByte headers offset char) : char ≠ 0 := by
  obtain ⟨_, _, _, _, found, _⟩ := last
  exact Header.cut_ne_zero found

theorem exists_lastByte {headers : List Header} {offset : Nat}
    (reached : ∃ header ∈ headers, offset < header.cut.length) :
    ∃ char, LastByte headers offset char := by
  induction headers with
  | nil => simp at reached
  | cons header headers inductionHypothesis =>
      by_cases later : ∃ header ∈ headers, offset < header.cut.length
      · obtain ⟨char, last⟩ := inductionHypothesis later
        exact ⟨char, last.cons header⟩
      · push Not at later
        have inside : offset < header.cut.length := by
          obtain ⟨reaching, membership, below⟩ := reached
          rcases List.mem_cons.mp membership with rfl | behind
          · exact below
          · exact absurd below (Nat.not_lt.mpr (later reaching behind))
        exact ⟨header.cut[offset], [], header, headers, rfl,
          List.getElem?_eq_getElem inside, later⟩

theorem exists_reach (headers : List Header) :
    ∃ reach < sizeofUa, (∀ header ∈ headers, header.cut.length ≤ reach) ∧
      ∀ offset < reach, ∃ header ∈ headers, offset < header.cut.length := by
  induction headers with
  | nil => exact ⟨0, by decide, by simp, by simp⟩
  | cons header headers inductionHypothesis =>
      obtain ⟨reach, within, covers, attained⟩ := inductionHypothesis
      refine ⟨max header.cut.length reach, max_lt header.cut_lt within, ?_, ?_⟩
      · intro other membership
        rcases List.mem_cons.mp membership with rfl | behind
        · exact le_max_left _ _
        · exact le_trans (covers other behind) (le_max_right _ _)
      · intro offset below
        have either : offset < header.cut.length ∨ offset < reach := by omega
        rcases either with here | behind
        · exact ⟨header, List.mem_cons_self, here⟩
        · obtain ⟨other, membership, inside⟩ := attained offset behind
          exact ⟨other, List.mem_cons_of_mem header membership, inside⟩

/-! ## The text of a request -/

namespace Request

variable (request : Request)

def opened : FlowUaCommonNode :=
  called (called FlowUaCommonNode.zero .onMessageBegin)
    (.onUrl (bytesThen request.url request.behindUrl) request.url.length)

theorem opened_eq :
    request.opened = { FlowUaCommonNode.zero with onbeg := true, onurl := true } := by
  have nonempty : request.url.length > 0 := List.length_pos_iff.mpr request.urlNonempty
  simp [opened, called, onUrl, onMessageBegin, nonempty]

theorem node_eq : request.node = afterHeaders request.opened request.headers := by
  simp [node, httpParserExecute, callbacks, afterHeaders, opened]

theorem node_oncplt :
    request.node.oncplt = true ↔ ∃ header ∈ request.headers, header.value ≠ [] := by
  rw [node_eq, afterHeaders_oncplt, opened_eq]
  simp [FlowUaCommonNode.zero]

theorem node_ua_of_lastByte {offset : Nat} {char : UInt8}
    (last : LastByte request.headers offset char) : request.node.ua offset = char := by
  rw [node_eq]
  exact afterHeaders_ua_of_lastByte _ last

theorem lastByte_node_ua {offset : Nat}
    (reached : ∃ header ∈ request.headers, offset < header.cut.length) :
    LastByte request.headers offset (request.node.ua offset) := by
  obtain ⟨char, last⟩ := exists_lastByte reached
  rwa [request.node_ua_of_lastByte last]

theorem node_ua_of_short {offset : Nat}
    (short : ∀ header ∈ request.headers, header.cut.length ≤ offset) :
    request.node.ua offset = 0 := by
  rw [node_eq, afterHeaders_ua_of_short _ short, opened_eq]
  rfl

theorem textIn_node_ua {reach : Nat} (within : reach < sizeofUa)
    (covers : ∀ header ∈ request.headers, header.cut.length ≤ reach)
    (attained : ∀ offset < reach, ∃ header ∈ request.headers, offset < header.cut.length) :
    textIn sizeofUa request.node.ua = (List.range reach).map request.node.ua := by
  apply textIn_eq within
  · intro offset below
    exact (request.lastByte_node_ua (attained offset below)).ne_zero
  · exact request.node_ua_of_short covers

theorem textIn_eq_cut_iff {agent : Header} (membership : agent ∈ request.headers) :
    textIn sizeofUa request.node.ua = agent.cut ↔
      (∀ header ∈ request.headers, header.cut.length ≤ agent.cut.length) ∧
        ∀ offset char, agent.cut[offset]? = some char →
          LastByte request.headers offset char := by
  constructor
  · intro equal
    obtain ⟨reach, within, covers, attained⟩ := exists_reach request.headers
    rw [request.textIn_node_ua within covers attained] at equal
    have length : agent.cut.length = reach := by
      rw [← equal, List.length_map, List.length_range]
    refine ⟨by rwa [length], ?_⟩
    intro offset char found
    have below : offset < reach := by
      rw [← length]
      exact (List.getElem?_eq_some_iff.mp found).1
    have held : request.node.ua offset = char := by
      rw [← equal] at found
      simpa [below] using found
    rw [← held]
    exact request.lastByte_node_ua (attained offset below)
  · rintro ⟨covers, agrees⟩
    rw [request.textIn_node_ua agent.cut_lt covers fun offset below => ⟨agent, membership, below⟩]
    apply List.ext_getElem (by simp)
    intro offset below inside
    rw [List.getElem_map, List.getElem_range]
    exact request.node_ua_of_lastByte (agrees offset _ (List.getElem?_eq_getElem inside))

theorem searchedText_eq_some_iff (text : List UInt8) :
    searchedText request.node = some text ↔
      (∃ header ∈ request.headers, header.value ≠ []) ∧
        textIn sizeofUa request.node.ua = text := by
  unfold searchedText
  rw [← request.node_oncplt]
  cases request.node.oncplt <;> simp

/-- The handler finds the `User-Agent` of a request, and nothing else, exactly
when no header has a value or the value of such a header prevails. -/
theorem delivers_iff_prevails (request : Request) : request.Delivers ↔ request.Prevails := by
  constructor
  · rintro ⟨completes, finds⟩
    by_cases silent : ∀ header ∈ request.headers, header.value = []
    · exact Or.inl silent
    · push Not at silent
      obtain ⟨agent, isAgent, equal⟩ :=
        finds _ ((request.searchedText_eq_some_iff _).mpr ⟨silent, rfl⟩)
      exact Or.inr ⟨agent, isAgent, (request.textIn_eq_cut_iff isAgent.1).mp equal⟩
  · rintro (silent | ⟨agent, isAgent, prevails⟩)
    · have none : ¬ ∃ header ∈ request.headers, header.value ≠ [] := by
        rintro ⟨header, membership, nonempty⟩
        exact nonempty (silent header membership)
      refine ⟨?_, ?_⟩
      · rw [request.node_oncplt]
        constructor
        · exact fun some => absurd some none
        · rintro ⟨header, membership, _, nonempty⟩
          exact ⟨header, membership, nonempty⟩
      · intro text searched
        exact absurd ((request.searchedText_eq_some_iff text).mp searched).1 none
    · have valued : ∃ header ∈ request.headers, header.value ≠ [] :=
        ⟨agent, isAgent.1, isAgent.2.2⟩
      refine ⟨?_, ?_⟩
      · rw [request.node_oncplt]
        exact ⟨fun _ => ⟨agent, isAgent⟩, fun _ => valued⟩
      · intro text searched
        have held := ((request.searchedText_eq_some_iff text).mp searched).2
        exact ⟨agent, isAgent, by rw [← held, (request.textIn_eq_cut_iff isAgent.1).mpr prevails]⟩

end Request

/-- `User-Agent: A`, then `Accept: B`. -/
def acceptBehindAgent : Request where
  url := [47]
  urlNonempty := by decide
  behindUrl := fun _ => 32
  headers :=
    [⟨[85, 115, 101, 114, 45, 65, 103, 101, 110, 116], fun _ => 32, [65], fun _ => 13, by simp⟩,
      ⟨[65, 99, 99, 101, 112, 116], fun _ => 32, [66], fun _ => 13, by simp⟩]

/-- The handler searches for the value of `Accept`. -/
theorem accept_replaces_agent : ¬ ∀ request : Request, request.Delivers := by
  intro delivers
  have text : searchedText acceptBehindAgent.node = some [66] := by decide +kernel
  obtain ⟨header, ⟨membership, isAgent, _⟩, cut⟩ := (delivers acceptBehindAgent).2 _ text
  rcases List.mem_cons.mp membership with rfl | behind
  · exact absurd cut (by decide)
  · obtain rfl := List.mem_singleton.mp behind
    exact absurd isAgent (by decide)

end UAFlow.UserAgent
