import UmlMarkup.Text.Word

/-!
# Keyword phrases

A keyword of a diagram language may be several words long, such as
`note left of`. What separates the words in the source is immaterial as long as
it is a run of spaces and tabs, so a **phrase** is kept as the list of its
words and matched word by word, with a gap of at least one space or tab between
two of them.

A phrase that ends in a word character must not run on into a longer word:
`class` is no keyword in `classroom`. One that ends in punctuation may be glued
to what follows, as in `{static}count`.
-/

namespace UmlMarkup

/-- The words of a keyword, at least one of them. -/
structure Phrase where
  first : List Char
  more : List (List Char)
  deriving DecidableEq, Repr

namespace Phrase

/-- The phrase written in `text`, its words separated by single spaces. Two
spaces in a row stand around an empty word. -/
def ofChars : List Char → Phrase
  | [] => ⟨[], []⟩
  | ' ' :: rest => let p := ofChars rest; ⟨[], p.first :: p.more⟩
  | c :: rest => let p := ofChars rest; ⟨c :: p.first, p.more⟩

/-- The phrase written in a string. -/
def ofString (text : String) : Phrase := ofChars text.toList

/-- The words of a phrase, in order. -/
def words (p : Phrase) : List (List Char) := p.first :: p.more

/-- The text of a phrase, its words separated by single spaces. -/
def text (p : Phrase) : List Char := p.first ++ p.more.flatMap (' ' :: ·)

/-- Whether the phrase ends in a word character. -/
def endsInWord (p : Phrase) : Bool := p.text.getLast?.any isWord

/-- The length of the words `ws` at the start of `text`, each of them after a
gap of spaces and tabs. -/
def tailLength? : List (List Char) → List Char → Option Nat
  | [], _ => some 0
  | w :: ws, text =>
    let gap := (text.takeWhile isGap).length
    let rest := text.drop gap
    if gap ≠ 0 ∧ w.isPrefixOf rest then
      (tailLength? ws (rest.drop w.length)).map (gap + w.length + ·)
    else none

/-- The number of characters that match the words of the phrase at the start
of `text`, whatever comes after them. -/
def wordsLength? (p : Phrase) (text : List Char) : Option Nat :=
  if p.first.isPrefixOf text then
    (tailLength? p.more (text.drop p.first.length)).map (p.first.length + ·)
  else none

/-- The number of characters that match the phrase at the start of `text`,
unless the phrase would end inside a word. -/
def matchLength? (p : Phrase) (text : List Char) : Option Nat :=
  (p.wordsLength? text).filter fun n => !(p.endsInWord && (text.drop n).head?.any isWord)

theorem tailLength?_le {ws : List (List Char)} {text : List Char} {n : Nat}
    (h : tailLength? ws text = some n) : n ≤ text.length := by
  induction ws generalizing text n with
  | nil => simp [tailLength?] at h; omega
  | cons w ws ih =>
    simp only [tailLength?] at h
    split at h
    · next hw =>
      obtain ⟨k, hk, rfl⟩ := Option.map_eq_some_iff.1 h
      have hk' := ih hk
      have hp := List.isPrefixOf_iff_prefix.1 hw.2
      have hlen := hp.length_le
      have hgap : (text.takeWhile isGap).length ≤ text.length :=
        (List.takeWhile_sublist isGap).length_le
      simp only [List.length_drop] at hk' hlen
      omega
    · cases h

theorem wordsLength?_le {p : Phrase} {text : List Char} {n : Nat}
    (h : p.wordsLength? text = some n) : n ≤ text.length := by
  unfold wordsLength? at h
  split at h
  · next hp =>
    obtain ⟨k, hk, rfl⟩ := Option.map_eq_some_iff.1 h
    have hk' := tailLength?_le hk
    have hpre := List.isPrefixOf_iff_prefix.1 hp
    have hlen := hpre.length_le
    simp only [List.length_drop] at hk'
    omega
  · cases h

/-- A match lies within the text. -/
theorem matchLength?_le {p : Phrase} {text : List Char} {n : Nat}
    (h : p.matchLength? text = some n) : n ≤ text.length :=
  wordsLength?_le (Option.filter_eq_some_iff.1 h).1

end Phrase

end UmlMarkup
