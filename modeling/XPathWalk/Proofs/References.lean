/-
**Texts of references.**

A text of references names its values between white space. Where a text is cut at white space, its
words are those of the two pieces, so the nodes that it refers to are theirs in a row. A node set
over them sees the words alone: neither their order, nor how often they come, nor what stands
between them.

* `Text.IsWord`: the words of a text, told without cutting it up;
* `Text.mem_words_iff`: they are what cutting it up at blanks gives;
* `Text.words_append_blanks`: a text splits at white space of any kind and length;
* `NodeIterator.Yields`: what an iterator has left when it is drained;
* `KeyTable.exists_twins_of_words`: node sets over texts with the same words are not told apart;
* `KeyTable.lookupRefs_of_blanks`: two texts with white space between them refer to the nodes of the
  first and then to those of the second, a text without white space refers to the nodes of the value
  that it is, and an empty text to none. Two texts with the same words, in whatever order, however
  often and with whatever white space, have node sets that answer all queries alike.
-/

import XPathWalk.Proofs.Dialogues
import XPathWalk.Proofs.KeyedElements

namespace XPathWalk

namespace Text

/-! ### Words -/

/-- A word of a text: a piece without blanks that is not empty and that has a blank or the end of
the text on either side. -/
structure IsWord (word text : List Char) : Prop where
  nonempty : word ≠ []
  letters : ∀ c ∈ word, isBlank c = false
  stands : ∃ before after, text = before ++ word ++ after ∧
    (∀ c ∈ before.getLast?, isBlank c = true) ∧ ∀ c ∈ after.head?, isBlank c = true

variable {word text before after : List Char}

/-- A text splits in front of a blank. -/
theorem wordsOf_append_of_head (blank : ∀ c ∈ after.head?, isBlank c = true) :
    wordsOf (before ++ after) = wordsOf before ++ wordsOf after := by
  cases after with
  | nil => rw [wordsOf_nil, List.append_nil, List.append_nil]
  | cons c rest =>
    have first : isBlank c = true := blank c rfl
    rw [wordsOf_append_blank c first, wordsOf_cons_blank c first]

/-- A text splits behind a blank. -/
theorem wordsOf_append_of_getLast (blank : ∀ c ∈ before.getLast?, isBlank c = true) :
    wordsOf (before ++ after) = wordsOf before ++ wordsOf after := by
  rcases List.eq_nil_or_concat before with rfl | ⟨front, c, rfl⟩
  · rw [wordsOf_nil, List.nil_append, List.nil_append]
  · have last : isBlank c = true := blank c (by simp)
    rw [List.concat_eq_append, List.append_assoc, List.singleton_append,
      wordsOf_append_blank c last, wordsOf_append_blank c last, wordsOf_nil, List.append_nil]

/-- White space has no words. -/
theorem wordsOf_blanks (blanks : ∀ c ∈ text, isBlank c = true) : wordsOf text = [] := by
  induction text with
  | nil => exact wordsOf_nil
  | cons c rest ih =>
    obtain ⟨first, others⟩ := List.forall_mem_cons.mp blanks
    rw [wordsOf_cons_blank c first, ih others]

/-- **A text splits at white space.** -/
theorem wordsOf_append_blanks {between : List Char} (filled : between ≠ [])
    (blanks : ∀ c ∈ between, isBlank c = true) (before after : List Char) :
    wordsOf (before ++ between ++ after) = wordsOf before ++ wordsOf after := by
  have last : ∀ c ∈ between.getLast?, isBlank c = true := fun c member =>
    blanks c (List.mem_of_mem_getLast? member)
  have head : ∀ c ∈ (between ++ after).head?, isBlank c = true := by
    intro c member
    rw [List.head?_append_of_ne_nil _ filled] at member
    exact blanks c (List.mem_of_mem_head? member)
  rw [List.append_assoc, wordsOf_append_of_head head, wordsOf_append_of_getLast last,
    wordsOf_blanks blanks, List.nil_append]

/-- Letters have no word but themselves. -/
theorem eq_of_mem_wordsOf {letters : List Char} (letter : ∀ c ∈ letters, isBlank c = false)
    (member : word ∈ wordsOf letters) : letters ≠ [] ∧ word = letters := by
  by_cases empty : letters = []
  · rw [empty, wordsOf_nil] at member
    cases member
  · rw [wordsOf_no_blank letters letter empty, List.mem_singleton] at member
    exact ⟨empty, member⟩

/-- Cutting up gives words. The letters in front may belong to the first word of the text behind
them, so they are carried along up to the next blank. -/
theorem isWord_of_mem {letters : List Char} (letter : ∀ c ∈ letters, isBlank c = false)
    (member : word ∈ wordsOf (letters ++ text)) : IsWord word (letters ++ text) := by
  induction text generalizing letters with
  | nil =>
    rw [List.append_nil] at member ⊢
    obtain ⟨filled, rfl⟩ := eq_of_mem_wordsOf letter member
    exact ⟨filled, letter, [], [], by simp, nofun, nofun⟩
  | cons c rest ih =>
    cases blank : isBlank c with
    | false =>
      have extended : ∀ d ∈ letters ++ [c], isBlank d = false :=
        List.forall_mem_append.mpr ⟨letter, List.forall_mem_singleton.mpr blank⟩
      rw [List.append_cons] at member ⊢
      exact ih extended member
    | true =>
      rw [wordsOf_append_blank c blank] at member
      rcases List.mem_append.mp member with here | later
      · obtain ⟨filled, rfl⟩ := eq_of_mem_wordsOf letter here
        exact ⟨filled, letter, [], c :: rest, rfl, nofun, by simpa using blank⟩
      · have none : ∀ d ∈ ([] : List Char), isBlank d = false := nofun
        obtain ⟨filled, plain, before, after, same, behind, ahead⟩ := ih none later
        rw [List.nil_append] at same
        subst same
        refine ⟨filled, plain, letters ++ c :: before, after, by simp, fun d last => ?_, ahead⟩
        -- The blank ends what stands in front, unless something else does.
        cases before with
        | nil =>
          rw [List.getLast?_concat] at last
          cases last
          exact blank
        | cons e more =>
          refine behind d ?_
          rwa [List.getLast?_append_cons, List.getLast?_cons_cons] at last

/-- **The words of a text are the pieces without blanks between blanks.** -/
theorem mem_wordsOf_iff : word ∈ wordsOf text ↔ IsWord word text := by
  constructor
  · intro member
    have none : ∀ c ∈ ([] : List Char), isBlank c = false := nofun
    exact isWord_of_mem none member
  · rintro ⟨nonempty, letters, before, after, rfl, behind, ahead⟩
    rw [wordsOf_append_of_head ahead, wordsOf_append_of_getLast behind,
      wordsOf_no_blank word letters nonempty]
    simp

/-- The same for texts. -/
theorem mem_words_iff {value refs : String} :
    value ∈ words refs ↔ IsWord value.toList refs.toList := by
  rw [← mem_wordsOf_iff, words, List.mem_map]
  constructor
  · rintro ⟨word, member, rfl⟩
    rwa [String.toList_ofList]
  · intro member
    exact ⟨_, member, String.ofList_toList⟩

theorem words_append_blanks {between : String} (filled : between ≠ "")
    (blanks : ∀ c ∈ between.toList, isBlank c = true) (first second : String) :
    words (first ++ between ++ second) = words first ++ words second := by
  have some : between.toList ≠ [] := fun none => filled (String.toList_eq_nil_iff.mp none)
  rw [words, String.toList_append, String.toList_append, wordsOf_append_blanks some blanks,
    List.map_append, words, words]

/-- A text without blanks is its only word. -/
theorem words_no_blank {value : String} (filled : value ≠ "")
    (letters : ∀ c ∈ value.toList, isBlank c = false) : words value = [value] := by
  have some : value.toList ≠ [] := fun none => filled (String.toList_eq_nil_iff.mp none)
  rw [words, wordsOf_no_blank _ letters some, List.map_singleton, String.ofList_toList]

end Text

/-- An iterator has these nodes left when it is drained. -/
def NodeIterator.Yields (iterator : NodeIterator) (nodes : List Handle) : Prop :=
  ∃ rest, iterator.drain = .ok (nodes, rest)

namespace KeyTable

open NodeIterator

/-! ### Lookups -/

/-- A lookup yields the nodes of its values in a row. -/
theorem yields_lookup (table : KeyTable) (values : List String) :
    (table.lookup values).Yields (table.matching values) := (ofMatches_yields _).1

theorem free_lookup (table : KeyTable) (values : List String) : (table.lookup values).Free :=
  .fixed rfl rfl

theorem whole_lookup (table : KeyTable) (values : List String) :
    (table.lookup values).whole = .ok (table.matching values) :=
  (whole_eq_iff (free_lookup table values).sound _).mpr rfl

/-- **Node sets over texts with the same words are not told apart.** -/
theorem exists_twins_of_words (table : KeyTable) {refs others : String}
    (same : ∀ value, value ∈ Text.words refs ↔ value ∈ Text.words others) :
    ∃ set setOther, (table.lookupRefs refs).toNodeSet = .ok set ∧
      (table.lookupRefs others).toNodeSet = .ok setOther ∧ set.value.Twins setOther.value := by
  have members : ∀ node, node ∈ table.matching (Text.words refs) ↔
      node ∈ table.matching (Text.words others) := by
    intro node
    simp only [matching, List.mem_flatMap, same]
  exact (free_lookup table _).exists_twins (free_lookup table _) (whole_lookup table _)
    (whole_lookup table _) members

/-- **References are split exactly at white space**, of any kind and length, and node sets over
texts with the same words answer all queries alike, without a fault. -/
theorem lookupRefs_of_blanks (table : KeyTable) :
    (∀ first between second : String, between ≠ "" →
      (∀ c ∈ between.toList, Text.isBlank c = true) →
      ∃ nodes more, (table.lookupRefs first).Yields nodes ∧
        (table.lookupRefs second).Yields more ∧
        (table.lookupRefs (first ++ between ++ second)).Yields (nodes ++ more)) ∧
    (∀ value : String, value ≠ "" → (∀ c ∈ value.toList, Text.isBlank c = false) →
      table.lookupRefs value = table.lookup [value]) ∧
    (table.lookupRefs "").Yields [] ∧
    ∀ refs others : String,
      (∀ word : String, Text.IsWord word.toList refs.toList ↔
        Text.IsWord word.toList others.toList) →
      ∃ set setOther, (table.lookupRefs refs).toNodeSet = .ok set ∧
        (table.lookupRefs others).toNodeSet = .ok setOther ∧
        set.value.status = setOther.value.status ∧
        ∀ queries, ∃ answers, set.value.dialogue queries = .ok answers ∧
          setOther.value.dialogue queries = .ok answers := by
  refine ⟨fun first between second filled blanks => ?_, fun value filled letters => ?_, ?_,
    fun refs others same => ?_⟩
  · refine ⟨_, _, table.yields_lookup _, table.yields_lookup _, ?_⟩
    rw [← matching_append, lookupRefs, Text.words_append_blanks filled blanks]
    exact table.yields_lookup _
  · rw [lookupRefs, Text.words_no_blank filled letters]
  · have none : Text.words "" = [] := by
      rw [Text.words, String.toList_empty, Text.wordsOf_nil, List.map_nil]
    rw [lookupRefs, none]
    exact table.yields_lookup []
  · have words : ∀ value, value ∈ Text.words refs ↔ value ∈ Text.words others := fun value => by
      rw [Text.mem_words_iff, Text.mem_words_iff, same]
    obtain ⟨set, setOther, made, madeOther, twins⟩ := table.exists_twins_of_words words
    exact ⟨set, setOther, made, madeOther, twins.status, twins.dialogue⟩

/-- A no-break space and a space separate references. Naming one of them twice is not seen through a
node set, nor is another order with a tab between them. -/
theorem lookupRefs_of_blanks_spaced :
    ∃ table : KeyTable, table.matching ["b", "a", "b"] = [2, 9, 2] ∧
      (∃ nodes more, (table.lookupRefs "b").Yields nodes ∧ (table.lookupRefs "a b").Yields more ∧
        (table.lookupRefs "b\u00a0 a b").Yields (nodes ++ more)) ∧
      table.lookupRefs "b" = table.lookup ["b"] ∧
      ∃ set setOther answers, (table.lookupRefs "b\u00a0 a b").toNodeSet = .ok set ∧
        (table.lookupRefs " a\tb").toNodeSet = .ok setOther ∧
        set.value.dialogue [.request .next, .mark, .request .next, .restore, .request .next] =
          .ok answers ∧
        setOther.value.dialogue [.request .next, .mark, .request .next, .restore, .request .next] =
          .ok answers := by
  obtain ⟨splits, single, _, alike⟩ :=
    lookupRefs_of_blanks ((KeyTable.add { name := "k" } "a" 9).add "b" 2)
  have words : Text.words "b\u00a0 a b" = ["b", "a", "b"] := by decide
  have wordsOther : Text.words " a\tb" = ["a", "b"] := by decide
  obtain ⟨set, setOther, made, madeOther, _, answers⟩ :=
    alike "b\u00a0 a b" " a\tb" fun word => by
      rw [← Text.mem_words_iff, ← Text.mem_words_iff, words, wordsOther]
      have same : ["b", "a", "b"] ⊆ ["a", "b"] ∧ ["a", "b"] ⊆ ["b", "a", "b"] := by decide
      exact ⟨fun member => same.1 member, fun member => same.2 member⟩
  obtain ⟨given, answered, answeredOther⟩ := answers _
  have blanks : ∀ c ∈ "\u00a0 ".toList, Text.isBlank c = true := by simp [Text.isBlank]
  have letters : ∀ c ∈ "b".toList, Text.isBlank c = false := by simp [Text.isBlank]
  refine ⟨_, ?_, splits "b" "\u00a0 " "a b" (by decide) blanks, single "b" (by decide) letters,
    set, setOther, given, made, madeOther, answered, answeredOther⟩
  simp [matching, nodesOf_add]

end KeyTable

end XPathWalk
