import UAFlow.AhoCorasick.Adding

/-!
# What a match reports

After `ac_trie_finalize` the match list of a node is settled by the word of the
node alone: the accepted patterns that end where the word ends, the longest first.
-/

namespace UAFlow.AhoCorasick

open Library

/-- The match list of a node for what has been accepted. -/
structure MatchesSuffixes (node : ActNode) (accepted : List AcPattern) (word : List UInt8) :
    Prop where
  exact : ∀ patt, patt ∈ node.matched ↔ patt ∈ accepted ∧ patt.ptext <:+ word
  distinct : node.matched.Nodup
  decreasing : node.matched.Pairwise fun first second =>
    second.ptext.length < first.ptext.length
  longest : ∀ first, node.matched.head? = some first →
    ∀ patt ∈ accepted, patt.ptext <:+ word → patt.ptext <:+ first.ptext
  final : node.final = true ↔ node.matched ≠ []

theorem dictionary_eq_some_iff (patts : List AcPattern) {word : List UInt8} {patt : AcPattern} :
    dictionary (patts.map (·, false)) word = some patt ↔
      patt ∈ acceptedOf patts ∧ patt.ptext = word := by
  constructor
  · intro present
    obtain ⟨other, accepted, same⟩ :=
      (dictionary_isSome_iff _ word).mp (Option.isSome_of_eq_some present)
    have stored := dictionary_of_accepted patts other accepted
    rw [same, present] at stored
    obtain rfl := Option.some.inj stored
    exact ⟨accepted, same⟩
  · rintro ⟨accepted, rfl⟩
    exact dictionary_of_accepted patts patt accepted

theorem mem_occurrences_dictionary (patts : List AcPattern) {word : List UInt8}
    {patt : AcPattern} : patt ∈ occurrences (dictionary (patts.map (·, false))) word ↔
      patt ∈ acceptedOf patts ∧ patt.ptext <:+ word := by
  rw [mem_occurrences]
  constructor
  · rintro ⟨part, suffix, present⟩
    obtain ⟨accepted, rfl⟩ := (dictionary_eq_some_iff patts).mp present
    exact ⟨accepted, suffix⟩
  · rintro ⟨accepted, suffix⟩
    exact ⟨patt.ptext, suffix, (dictionary_eq_some_iff patts).mpr ⟨accepted, rfl⟩⟩

/-- After any calls of `ac_trie_add` without copying, the trie can be finalized, and
then each node, which has one word, reports the accepted suffixes of that word. -/
theorem finalized_matches_suffixes (patts : List AcPattern) :
    ∃ thiz, acTrieFinalize (afterAdding patts) = .ok thiz ∧
      ∀ nod < thiz.pool.used, ∃ word, LeadsTo thiz.pool word nod ∧
        MatchesSuffixes (thiz.pool.node nod) (acceptedOf patts) word := by
  obtain ⟨_, path, opened⟩ := open_addAll (patts.map (·, false))
  have kept := wellKept_dictionary (patts.map (·, false))
  obtain ⟨pool, finalizes, finalized, _⟩ := acTrieFinalize_ok opened kept
  refine ⟨_, finalizes, ?_⟩
  intro nod inside
  have matched := finalized.matched inside
  refine ⟨path nod, finalized.spelled.leadsTo inside, ?_⟩
  constructor
  · intro patt
    rw [matched]
    exact mem_occurrences_dictionary patts
  · rw [matched]
    exact (kept.occurrences_texts _).of_map
  · rw [matched]
    exact (kept.occurrences_lengths _).1
  · rw [matched]
    intro first isFirst patt accepted suffix
    obtain ⟨more, found⟩ := List.head?_eq_some_iff.mp isFirst
    obtain ⟨best, _, present, covers⟩ := occurrences_head found
    obtain ⟨_, rfl⟩ := (dictionary_eq_some_iff patts).mp present
    apply covers _ suffix
    rw [dictionary_of_accepted patts patt accepted]
    rfl
  · rw [finalized.final inside, matched]
    simp

end UAFlow.AhoCorasick
