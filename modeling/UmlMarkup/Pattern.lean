import UmlMarkup.Phrase
import UmlMarkup.Text.Search

/-!
# Patterns

A pattern says what a rule recognizes at the cursor: a fixed text, one of a set
of keyword phrases, one of a set of glyphs such as arrows, a bracketed piece of
text, a number, or the start of a color literal. `Pattern.matchLength?` answers
with the number of characters matched, if any.

Where a pattern offers several alternatives the **longest** one that matches
wins, so that the order in which they are listed is immaterial. A glyph is just
its text, but a keyword must end where its word ends, and so must a number.

Every match lies within the text it was found in (`matchLength?_le`), which is
all the scanner needs to know to make progress.
-/

namespace UmlMarkup

/-- What a rule recognizes. -/
inductive Pattern where
  /-- The exact text. -/
  | literal (text : List Char)
  /-- The longest of the phrases that match. -/
  | keywords (phrases : List Phrase)
  /-- The longest of the texts that match, ending anywhere. -/
  | glyphs (texts : List (List Char))
  /-- A text between two brackets on the same line, neither empty nor starting
  with a blank. -/
  | delimited (opener closer : List Char)
  /-- A decimal number. -/
  | number
  /-- The `#` of a color literal. -/
  | color
  deriving DecidableEq, Repr

/-- The greatest of several lengths is kept by what keeps their order. -/
theorem max?_map_of_le {g : Nat → Nat} {ns : List Nat}
    (h : ∀ m ∈ ns, ∀ n ∈ ns, m ≤ n → g m ≤ g n) : (ns.map g).max? = ns.max?.map g := by
  cases hmax : ns.max? with
  | none =>
    rw [List.max?_eq_none_iff.1 hmax]
    rfl
  | some n =>
    obtain ⟨hn, hle⟩ := List.max?_eq_some_iff.1 hmax
    refine List.max?_eq_some_iff.2 ⟨List.mem_map_of_mem hn, fun b hb => ?_⟩
    obtain ⟨m, hm, rfl⟩ := List.mem_map.1 hb
    exact h m hm n hn (hle m hm)

namespace Pattern

/-- The greatest of the lengths that `length?` gives for the alternatives. -/
def longest? {α : Type} (length? : α → Option Nat) (alternatives : List α) : Option Nat :=
  (alternatives.filterMap length?).max?

/-- The length of `text` if it stands at the start of `rest`. -/
def literalLength? (rest text : List Char) : Option Nat :=
  if text.isPrefixOf rest then some text.length else none

/-- The length of the bracketed text at the start of `rest`, brackets
included. -/
def delimitedLength? (opener closer rest : List Char) : Option Nat :=
  if opener.isPrefixOf rest then
    let inner := rest.drop opener.length
    if inner.head?.any isBlank then none
    else
      match indexOf? closer inner with
      | some (n + 1) => some (opener.length + (n + 1) + closer.length)
      | _ => none
  else none

/-- The number of leading ASCII digits. -/
def digitCount (rest : List Char) : Nat := (rest.takeWhile Char.isDigit).length

/-- The length of the fraction at the start of `rest`: a point and the digits
after it, if there are any. -/
def fractionLength : List Char → Nat
  | '.' :: rest => if digitCount rest = 0 then 0 else digitCount rest + 1
  | _ => 0

/-- The length of the number at the start of `rest`: its digits and the
fraction after them. A number does not end inside a word. -/
def numberLength? (rest : List Char) : Option Nat :=
  let whole := digitCount rest
  let n := whole + fractionLength (rest.drop whole)
  if whole = 0 then none
  else if (rest.drop n).head?.any isWord then none
  else some n

/-- A `#` before an ASCII letter or digit starts a color literal. -/
def colorLength? : List Char → Option Nat
  | '#' :: c :: _ => if c.isAlphanum then some 1 else none
  | _ => none

/-- The number of characters that match at the start of `rest`. -/
def matchLength? (p : Pattern) (rest : List Char) : Option Nat :=
  match p with
  | literal text => literalLength? rest text
  | keywords phrases => longest? (fun ph : Phrase => ph.matchLength? rest) phrases
  | glyphs texts => longest? (literalLength? rest) texts
  | delimited opener closer => delimitedLength? opener closer rest
  | number => numberLength? rest
  | color => colorLength? rest

/-- The number of characters that match, if there are any: a rule whose pattern
matches the empty text does not apply. -/
def properLength? (p : Pattern) (rest : List Char) : Option Nat :=
  (p.matchLength? rest).filter (0 < ·)

/-- Whether a glyph that starts with something other than a word character
stands at the start of `rest`, so that a word ends there: the `->` in
`Alice->Bob`. -/
def breaksWord (p : Pattern) (rest : List Char) : Bool :=
  match p with
  | glyphs texts =>
    texts.any fun g => g.head?.any (fun c => !isWord c) && g.isPrefixOf rest
  | _ => false

/-! ## Matches lie within the text -/

theorem longest?_mem {α : Type} {length? : α → Option Nat} {alternatives : List α} {n : Nat}
    (h : longest? length? alternatives = some n) : ∃ a ∈ alternatives, length? a = some n :=
  List.mem_filterMap.1 (List.max?_mem h)

theorem literalLength?_le {rest text : List Char} {n : Nat}
    (h : literalLength? rest text = some n) : n ≤ rest.length := by
  unfold literalLength? at h
  split at h
  · next hp =>
    cases h
    have hpre := List.isPrefixOf_iff_prefix.1 hp
    exact hpre.length_le
  · cases h

theorem delimitedLength?_le {opener closer rest : List Char} {n : Nat}
    (h : delimitedLength? opener closer rest = some n) : n ≤ rest.length := by
  unfold delimitedLength? at h
  split at h
  · next hp =>
    have hpre := List.isPrefixOf_iff_prefix.1 hp
    have hlen := hpre.length_le
    dsimp only at h
    split at h
    · cases h
    · split at h
      · next k hk =>
        cases h
        have := length_le_of_indexOf? hk
        simp only [List.length_drop] at this
        omega
      · cases h
  · cases h

theorem digitCount_le (rest : List Char) : digitCount rest ≤ rest.length :=
  (List.takeWhile_sublist Char.isDigit).length_le

theorem fractionLength_le (rest : List Char) : fractionLength rest ≤ rest.length := by
  unfold fractionLength
  split
  · next more =>
    have := digitCount_le more
    simp only [List.length_cons]
    split <;> omega
  · omega

theorem numberLength?_le {rest : List Char} {n : Nat} (h : numberLength? rest = some n) :
    n ≤ rest.length := by
  have hw := digitCount_le rest
  have hf := fractionLength_le (rest.drop (digitCount rest))
  simp only [List.length_drop] at hf
  unfold numberLength? at h
  dsimp only at h
  split at h
  · cases h
  · split at h
    · cases h
    · cases h
      omega

/-- **A match lies within the text.** -/
theorem matchLength?_le {p : Pattern} {rest : List Char} {n : Nat}
    (h : p.matchLength? rest = some n) : n ≤ rest.length := by
  cases p with
  | literal text => exact literalLength?_le h
  | keywords phrases =>
    obtain ⟨ph, _, hph⟩ := longest?_mem h
    exact Phrase.matchLength?_le hph
  | glyphs texts =>
    obtain ⟨g, _, hg⟩ := longest?_mem h
    exact literalLength?_le hg
  | delimited opener closer => exact delimitedLength?_le h
  | number => exact numberLength?_le h
  | color =>
    simp only [matchLength?] at h
    unfold colorLength? at h
    split at h
    · split at h
      · cases h; simp
      · cases h
    · cases h

theorem properLength?_bounds {p : Pattern} {rest : List Char} {n : Nat}
    (h : p.properLength? rest = some n) : 0 < n ∧ n ≤ rest.length := by
  obtain ⟨hm, hn⟩ := Option.filter_eq_some_iff.1 h
  exact ⟨of_decide_eq_true hn, matchLength?_le hm⟩

end Pattern

end UmlMarkup
