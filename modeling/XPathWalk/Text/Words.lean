/-
**Words between white space.**

A list of references is written as one text, in which white space of any kind and length separates
the words and may also stand before the first and behind the last.

* `isBlank`: the Unicode property White_Space;
* `words`: the words of a text in order, none of them empty;
* `wordsOf_append_blank`: a text splits at any blank of it, from which everything else about words
  follows.
-/

namespace XPathWalk.Text

/-- The characters of the Unicode property White_Space. -/
def isBlank (c : Char) : Bool :=
  let code := c.toNat
  (0x09 ≤ code && code ≤ 0x0D) || code == 0x20 || code == 0x85 || code == 0xA0 || code == 0x1680 ||
    (0x2000 ≤ code && code ≤ 0x200A) || code == 0x2028 || code == 0x2029 || code == 0x202F ||
    code == 0x205F || code == 0x3000

/-- The words of a list of characters: the pieces between blanks, without the empty ones that
neighbouring blanks leave. -/
def wordsOf (text : List Char) : List (List Char) :=
  (text.splitOnP isBlank).filter fun word => !word.isEmpty

/-- The words of a text. -/
def words (text : String) : List String := (wordsOf text.toList).map String.ofList

/-- An empty text has no words. -/
@[simp] theorem wordsOf_nil : wordsOf [] = [] := by
  simp [wordsOf, List.splitOnP_nil]

/-- **A text splits at a blank.** -/
theorem wordsOf_append_blank (c : Char) (blank : isBlank c = true) (before after : List Char) :
    wordsOf (before ++ c :: after) = wordsOf before ++ wordsOf after := by
  unfold wordsOf
  rw [List.splitOnP_append_cons before after blank, List.filter_append]

/-- A blank in front of a text belongs to no word. -/
theorem wordsOf_cons_blank (c : Char) (blank : isBlank c = true) (text : List Char) :
    wordsOf (c :: text) = wordsOf text := by
  simpa using wordsOf_append_blank c blank [] text

/-- A text without blanks is one word, unless it is empty. -/
theorem wordsOf_no_blank (word : List Char) (letters : ∀ c ∈ word, isBlank c = false)
    (nonempty : word ≠ []) : wordsOf word = [word] := by
  rw [wordsOf, List.splitOnP_eq_singleton letters]
  simp [nonempty]

end XPathWalk.Text
