import Mathlib.Data.List.Nodup
import Mathlib.Logic.Function.Basic

/-!
# Custody of tokens

Tokens are issued once and then handed from place to place, always the first of
those that lie there.  A system in which nothing else happens to them keeps each
issued token in exactly one place.
-/

namespace UAFlow.Library

universe u v

/-- The tokens issued so far and those that lie at each place, in order. -/
structure Custody (Place : Type u) (Token : Type v) where
  issued : List Token
  held : Place → List Token

namespace Custody

variable {Place : Type u} {Token : Type v} [DecidableEq Place]

/-- New tokens arrive at a place. -/
def receive (custody : Custody Place Token) (place : Place) (new : List Token) :
    Custody Place Token where
  issued := custody.issued ++ new
  held := Function.update custody.held place (custody.held place ++ new)

/-- The first token of `source`, before `rest`, goes behind those of `target`. -/
def hand (custody : Custody Place Token) (source target : Place) (token : Token)
    (rest : List Token) : Custody Place Token where
  issued := custody.issued
  held :=
    Function.update (Function.update custody.held source rest) target
      (custody.held target ++ [token])

/-- What may happen to the tokens in one step. -/
inductive Change (before after : Custody Place Token) : Prop where
  | keeps (same : after = before)
  | receives (place : Place) (new : List Token) (distinct : new.Nodup)
      (fresh : ∀ token ∈ new, token ∉ before.issued) (same : after = before.receive place new)
  | hands (source target : Place) (token : Token) (rest : List Token) (apart : source ≠ target)
      (first : before.held source = token :: rest)
      (same : after = before.hand source target token rest)

section Hand

variable {custody : Custody Place Token} {source target : Place} {token : Token}
  {rest : List Token}

theorem hand_source (apart : source ≠ target) :
    (custody.hand source target token rest).held source = rest := by
  simp [hand, Function.update_of_ne apart]

theorem hand_target :
    (custody.hand source target token rest).held target = custody.held target ++ [token] := by
  simp [hand]

theorem hand_elsewhere {place : Place} (notSource : place ≠ source) (notTarget : place ≠ target) :
    (custody.hand source target token rest).held place = custody.held place := by
  simp [hand, Function.update_of_ne notSource, Function.update_of_ne notTarget]

end Hand

variable [DecidableEq Token]

theorem count_hand {custody : Custody Place Token} {source target : Place}
    {token other : Token} {rest : List Token} (apart : source ≠ target)
    (first : custody.held source = token :: rest) (different : other ≠ token) (place : Place) :
    ((custody.hand source target token rest).held place).count other =
      (custody.held place).count other := by
  by_cases isTarget : place = target
  · have notLast : other ∉ [token] := by
      simpa using different
    rw [isTarget, hand_target, List.count_append, List.count_eq_zero.mpr notLast, Nat.add_zero]
  · by_cases isSource : place = source
    · rw [isSource, hand_source apart, first, List.count_cons_of_ne different.symm]
    · rw [hand_elsewhere isSource isTarget]

/-- Every issued token lies in one place, once; no others lie anywhere. -/
structure Single (custody : Custody Place Token) : Prop where
  known : ∀ place, ∀ token ∈ custody.held place, token ∈ custody.issued
  once : ∀ token ∈ custody.issued, ∃ place, (custody.held place).count token = 1 ∧
    ∀ other, other ≠ place → token ∉ custody.held other

namespace Single

variable {custody : Custody Place Token}

/-- A token that lies somewhere lies there once and nowhere else. -/
theorem of_mem (single : Single custody) {place : Place} {token : Token}
    (present : token ∈ custody.held place) :
    (custody.held place).count token = 1 ∧
      ∀ other, other ≠ place → token ∉ custody.held other := by
  obtain ⟨owner, one, others⟩ := single.once token (single.known place token present)
  by_cases here : place = owner
  · exact here ▸ ⟨one, others⟩
  · exact absurd present (others place here)

theorem nodup_append (single : Single custody) {first second : Place} (apart : first ≠ second) :
    (custody.held first ++ custody.held second).Nodup := by
  have nodup : ∀ place, (custody.held place).Nodup := by
    intro place
    apply List.nodup_iff_count_eq_one.mpr
    intro token present
    exact (single.of_mem present).1
  refine List.nodup_append.mpr ⟨nodup first, nodup second, ?_⟩
  rintro token present _ also rfl
  exact (single.of_mem present).2 second apart.symm also

theorem receive (single : Single custody) (place : Place) {new : List Token}
    (distinct : new.Nodup) (fresh : ∀ token ∈ new, token ∉ custody.issued) :
    Single (custody.receive place new) := by
  have absent : ∀ token ∈ new, ∀ other, token ∉ custody.held other :=
    fun token arrived other present => fresh token arrived (single.known other token present)
  constructor
  · intro other token present
    by_cases here : other = place
    · subst here
      simp only [Custody.receive, Function.update_self, List.mem_append] at present ⊢
      exact present.imp_left (single.known other token)
    · simp only [Custody.receive, Function.update_of_ne here] at present
      exact List.mem_append_left _ (single.known other token present)
  · intro token issued
    rcases List.mem_append.mp issued with old | arrived
    · obtain ⟨owner, one, others⟩ := single.once token old
      have notNew : token ∉ new := fun arrived => fresh token arrived old
      refine ⟨owner, ?_, ?_⟩
      · by_cases here : owner = place
        · subst here
          simp [Custody.receive, List.count_append, one, List.count_eq_zero.mpr notNew]
        · simp [Custody.receive, Function.update_of_ne here, one]
      · intro other apart
        by_cases here : other = place
        · subst here
          simp [Custody.receive, others other apart, notNew]
        · simpa [Custody.receive, Function.update_of_ne here] using others other apart
    · refine ⟨place, ?_, ?_⟩
      · have before := List.count_eq_zero.mpr (absent token arrived place)
        simp [Custody.receive, List.count_append, before,
          List.count_eq_one_of_mem distinct arrived]
      · intro other apart
        simpa [Custody.receive, Function.update_of_ne apart] using absent token arrived other

theorem hand (single : Single custody) {source target : Place} {token : Token}
    {rest : List Token} (apart : source ≠ target)
    (first : custody.held source = token :: rest) :
    Single (custody.hand source target token rest) := by
  have present : token ∈ custody.held source := first ▸ List.mem_cons_self
  obtain ⟨one, others⟩ := single.of_mem present
  have gone : token ∉ rest := by
    rw [first, List.count_cons_self] at one
    exact List.count_eq_zero.mp (Nat.succ.inj one)
  constructor
  · intro place found lies
    by_cases this : found = token
    · exact this ▸ single.known source token present
    · apply single.known place found
      rw [← List.count_pos_iff] at lies ⊢
      rwa [count_hand apart first this] at lies
  · intro found issued
    by_cases this : found = token
    · subst this
      refine ⟨target, ?_, ?_⟩
      · rw [hand_target, List.count_append, List.count_eq_zero.mpr (others target apart.symm),
          List.count_singleton_self]
      · intro place notTarget
        by_cases isSource : place = source
        · rw [isSource, hand_source apart]
          exact gone
        · rw [hand_elsewhere isSource notTarget]
          exact others place isSource
    · obtain ⟨owner, here, elsewhere⟩ := single.once found issued
      refine ⟨owner, (count_hand apart first this owner).trans here, ?_⟩
      intro place notOwner
      rw [← List.count_eq_zero, count_hand apart first this]
      exact List.count_eq_zero.mpr (elsewhere place notOwner)

/-- The step rule. -/
theorem change {after : Custody Place Token} (single : Single custody)
    (changes : Change custody after) : Single after := by
  cases changes with
  | keeps same => exact same ▸ single
  | receives place new distinct fresh same => exact same ▸ single.receive place distinct fresh
  | hands source target token rest apart first same => exact same ▸ single.hand apart first

end Single

end Custody

end UAFlow.Library
