import Mathlib.Order.MinMax
import UAFlow.UserAgent.Capture

/-!
# What a header value leaves in the buffer

`strncpy` is told the length of the value and copies no terminator.  The one that
ends the string is what the cleared buffer still has behind the longest value.
-/

namespace UAFlow.UserAgent

open Library

/-- A header value in the packet, with what follows it. -/
structure HeaderValue where
  text : List UInt8
  behind : Nat → UInt8
  nulFree : ∀ char ∈ text, char ≠ 0

namespace HeaderValue

def callback (value : HeaderValue) : Callback :=
  .onHeaderValue (bytesThen value.text value.behind) value.text.length

def cut (value : HeaderValue) : List UInt8 := value.text.take (sizeofUa - 1)

end HeaderValue

def afterValues (values : List HeaderValue) : FlowUaCommonNode :=
  httpParserExecute (values.map HeaderValue.callback)

/-- Behind each value that is not empty the buffer holds that value. -/
def NoLeftovers (values : List HeaderValue) : Prop :=
  ∀ before value after, values = before ++ value :: after → value.text ≠ [] →
    textIn sizeofUa (afterValues (before ++ [value])).ua = value.cut

/-- No value that is not empty is shorter than one before it. -/
def Grows (values : List HeaderValue) : Prop :=
  values.Pairwise fun earlier later =>
    later.text ≠ [] → earlier.cut.length ≤ later.cut.length

/-! ## How far the buffer is written -/

/-- The length of the longest value. -/
def reach (values : List HeaderValue) : Nat :=
  values.foldl (fun longest value => max longest value.cut.length) 0

/-- A buffer that is written up to some place and cleared from there on. -/
structure WrittenTo (reach : Nat) (node : FlowUaCommonNode) : Prop where
  text : ∀ offset < reach, node.ua offset ≠ 0
  clear : ∀ offset, reach ≤ offset → node.ua offset = 0

theorem HeaderValue.cut_lt (value : HeaderValue) : value.cut.length < sizeofUa :=
  (List.length_take_le _ _).trans_lt (by decide)

theorem HeaderValue.called_ua (value : HeaderValue) (node : FlowUaCommonNode) (offset : Nat) :
    (called node value.callback).ua offset = (value.cut[offset]?).getD (node.ua offset) :=
  onHeaderValue_bytes value.nulFree value.behind node offset

theorem WrittenTo.called {written : Nat} {node : FlowUaCommonNode} (holds : WrittenTo written node)
    (value : HeaderValue) :
    WrittenTo (max written value.cut.length) (called node value.callback) where
  text offset below := by
    rw [value.called_ua]
    cases found : value.cut[offset]? with
    | some char => exact value.nulFree char (List.mem_of_mem_take (List.mem_of_getElem? found))
    | none =>
        have beyond : value.cut.length ≤ offset := List.getElem?_eq_none_iff.mp found
        exact holds.text offset ((lt_max_iff.mp below).resolve_right beyond.not_gt)
  clear offset outside := by
    rw [value.called_ua, List.getElem?_eq_none ((le_max_right _ _).trans outside)]
    exact holds.clear offset ((le_max_left _ _).trans outside)

theorem writtenTo_reach (values : List HeaderValue) :
    WrittenTo (reach values) (afterValues values) := by
  have run : ∀ (written : Nat) (node : FlowUaCommonNode), WrittenTo written node →
      WrittenTo (values.foldl (fun longest value => max longest value.cut.length) written)
        ((values.map HeaderValue.callback).foldl called node) := by
    induction values with
    | nil => exact fun _ _ holds => holds
    | cons value values inductionHypothesis =>
        exact fun written node holds => inductionHypothesis _ _ (holds.called value)
  apply run
  exact ⟨fun offset below => absurd below (Nat.not_lt_zero offset), fun _ _ => rfl⟩

theorem reach_append (before : List HeaderValue) (value : HeaderValue) :
    reach (before ++ [value]) = max (reach before) value.cut.length :=
  List.foldl_append ..

theorem reach_le_iff (values : List HeaderValue) (length : Nat) :
    reach values ≤ length ↔ ∀ value ∈ values, value.cut.length ≤ length := by
  induction values using List.reverseRecOn with
  | nil => simp [reach]
  | append_singleton before value inductionHypothesis =>
      rw [reach_append, max_le_iff, inductionHypothesis]
      simp [or_imp, forall_and]

theorem reach_lt (values : List HeaderValue) : reach values < sizeofUa := by
  apply Nat.lt_of_le_pred (by decide)
  rw [reach_le_iff]
  exact fun value _ => Nat.le_pred_of_lt value.cut_lt

/-! ## What the buffer holds -/

theorem textIn_afterValues (values : List HeaderValue) :
    textIn sizeofUa (afterValues values).ua =
      (List.range (reach values)).map (afterValues values).ua :=
  textIn_eq (reach_lt values) (writtenTo_reach values).text ((writtenTo_reach values).clear _ le_rfl)

theorem afterValues_ua (before : List HeaderValue) (value : HeaderValue) (offset : Nat) :
    (afterValues (before ++ [value])).ua offset =
      (value.cut[offset]?).getD ((afterValues before).ua offset) := by
  unfold afterValues httpParserExecute
  rw [List.map_append, List.foldl_append]
  exact value.called_ua _ offset

theorem textIn_eq_cut_iff (before : List HeaderValue) (value : HeaderValue) :
    textIn sizeofUa (afterValues (before ++ [value])).ua = value.cut ↔
      ∀ earlier ∈ before, earlier.cut.length ≤ value.cut.length := by
  rw [textIn_afterValues, reach_append, ← reach_le_iff]
  constructor
  · intro equal
    have length := congrArg List.length equal
    rw [List.length_map, List.length_range] at length
    exact (le_max_left _ _).trans length.le
  · intro covers
    rw [max_eq_right covers]
    apply List.ext_getElem (by simp)
    intro offset _ inside
    rw [List.getElem_map, List.getElem_range, afterValues_ua, List.getElem?_eq_getElem inside]
    rfl

/-- No value is followed by what an earlier one left exactly when none is shorter
than an earlier one. -/
theorem noLeftovers_iff_grows (values : List HeaderValue) : NoLeftovers values ↔ Grows values := by
  constructor
  · intro clean
    apply List.pairwise_iff_getElem.mpr
    intro first second _ inside order nonempty
    have split : values = values.take second ++ values[second] :: values.drop (second + 1) := by
      rw [← List.drop_eq_getElem_cons, List.take_append_drop]
    have covers := (textIn_eq_cut_iff _ _).mp (clean _ _ _ split nonempty)
    exact covers _ (List.mem_take_iff_getElem.mpr ⟨first, lt_min order (order.trans inside), rfl⟩)
  · rintro grows before value after rfl nonempty
    rw [textIn_eq_cut_iff]
    intro earlier membership
    exact (List.pairwise_append.mp grows).2.2 earlier membership value List.mem_cons_self nonempty

/-- Behind the value `ab` the value `c` reads `cb`. -/
theorem not_noLeftovers_of_shorter :
    ¬ NoLeftovers [⟨[97, 98], fun _ => 13, by simp⟩, ⟨[99], fun _ => 13, by simp⟩] := by
  intro clean
  have held := clean [⟨[97, 98], fun _ => 13, by simp⟩] ⟨[99], fun _ => 13, by simp⟩ [] rfl
    (by decide)
  have covers := (textIn_eq_cut_iff _ _).mp held _ List.mem_cons_self
  exact absurd covers (by decide)

end UAFlow.UserAgent
