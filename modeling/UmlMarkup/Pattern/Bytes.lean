import UmlMarkup.Pattern

/-!
# Matching in bytes

A text kept in memory is cut at byte positions, so a cursor that moves over it wants the length
of a match in bytes. `Pattern.matchBytes?` adds it up piece by piece, as the match is found: the
bytes of a word, those of the gap before the next one, those of a bracketed text and of its
brackets. A digit, a point and a `#` take one byte each.

What is added up are the bytes of the characters that match (`matchBytes?_eq`), and so all that
is known of lengths in characters carries over. The longest of several matches is the same in
either measure, because all of them start at the same place.
-/

namespace UmlMarkup

namespace Phrase

/-- The number of bytes of the words `ws` at the start of `text`, each of them after a gap of
spaces and tabs. -/
def tailBytes? : List (List Char) → List Char → Option Nat
  | [], _ => some 0
  | w :: ws, text =>
    let gap := text.takeWhile isGap
    let rest := text.drop gap.length
    if byteLength gap ≠ 0 ∧ w.isPrefixOf rest then
      (tailBytes? ws (rest.drop w.length)).map (byteLength gap + byteLength w + ·)
    else none

/-- The number of bytes that match the words of the phrase at the start of `text`, whatever
comes after them. -/
def wordsBytes? (p : Phrase) (text : List Char) : Option Nat :=
  if p.first.isPrefixOf text then
    (tailBytes? p.more (text.drop p.first.length)).map (byteLength p.first + ·)
  else none

/-- The number of bytes that match the phrase at the start of `text`, unless the phrase would
end inside a word. -/
def matchBytes? (p : Phrase) (text : List Char) : Option Nat :=
  (p.wordsBytes? text).filter fun n => !(p.endsInWord && (dropBytes n text).head?.any isWord)

@[simp] theorem tailBytes?_eq (ws : List (List Char)) (text : List Char) :
    tailBytes? ws text = (tailLength? ws text).map (bytesTo text) := by
  induction ws generalizing text with
  | nil => rfl
  | cons w ws ih =>
    obtain ⟨rest, heq⟩ := List.takeWhile_prefix isGap (l := text)
    have hdrop : text.drop (text.takeWhile isGap).length = rest := by
      conv => lhs; arg 2; rw [← heq]
      exact List.drop_left
    simp only [tailBytes?, tailLength?, hdrop, ih, ne_eq, byteLength_eq_zero_iff,
      List.length_eq_zero_iff]
    split
    · next hw =>
      obtain ⟨more, rfl⟩ := List.isPrefixOf_iff_prefix.1 hw.2
      rw [List.drop_left, Option.map_map, Option.map_map]
      congr 1
      funext k
      simp only [Function.comp_apply]
      generalize text.takeWhile isGap = gap at heq
      simp [← heq, Nat.add_assoc]
    · rfl

@[simp] theorem wordsBytes?_eq (p : Phrase) (text : List Char) :
    p.wordsBytes? text = (p.wordsLength? text).map (bytesTo text) := by
  rw [wordsBytes?, wordsLength?]
  split
  · next hp =>
    obtain ⟨rest, rfl⟩ := List.isPrefixOf_iff_prefix.1 hp
    rw [tailBytes?_eq, List.drop_left, Option.map_map, Option.map_map]
    congr 1
    funext k
    exact (bytesTo_append p.first rest k).symm
  · rfl

@[simp] theorem matchBytes?_eq (p : Phrase) (text : List Char) :
    p.matchBytes? text = (p.matchLength? text).map (bytesTo text) := by
  rw [matchBytes?, matchLength?, wordsBytes?_eq]
  cases hn : p.wordsLength? text with
  | none => rfl
  | some n =>
    simp only [Option.map_some, Option.filter_some, dropBytes_bytesTo (wordsLength?_le hn)]
    split <;> rfl

end Phrase

namespace Pattern

/-- The number of bytes of `text` if it stands at the start of `rest`. -/
def literalBytes? (rest text : List Char) : Option Nat :=
  if text.isPrefixOf rest then some (byteLength text) else none

/-- The number of bytes of the bracketed text at the start of `rest`, brackets included. -/
def delimitedBytes? (opener closer rest : List Char) : Option Nat :=
  if opener.isPrefixOf rest then
    let inner := rest.drop opener.length
    if inner.head?.any isBlank then none
    else
      match byteIndexOf? closer inner with
      | some n => if 0 < n then some (byteLength opener + n + byteLength closer) else none
      | none => none
  else none

/-- The number of bytes that match at the start of `rest`. -/
def matchBytes? (p : Pattern) (rest : List Char) : Option Nat :=
  match p with
  | literal text => literalBytes? rest text
  | keywords phrases => longest? (fun ph : Phrase => ph.matchBytes? rest) phrases
  | glyphs texts => longest? (literalBytes? rest) texts
  | delimited opener closer => delimitedBytes? opener closer rest
  -- what these two match is ASCII, a byte for each character
  | number => numberLength? rest
  | color => colorLength? rest

/-- The number of bytes that match, if there are any. -/
def properBytes? (p : Pattern) (rest : List Char) : Option Nat :=
  (p.matchBytes? rest).filter (0 < ·)

@[simp] theorem literalBytes?_eq (rest text : List Char) :
    literalBytes? rest text = (literalLength? rest text).map (bytesTo rest) := by
  rw [literalBytes?, literalLength?]
  split
  · next hp => rw [Option.map_some, bytesTo_of_isPrefixOf hp]
  · rfl

@[simp] theorem delimitedBytes?_eq (opener closer rest : List Char) :
    delimitedBytes? opener closer rest
      = (delimitedLength? opener closer rest).map (bytesTo rest) := by
  rw [delimitedBytes?, delimitedLength?]
  split
  · next hp =>
    obtain ⟨inner, rfl⟩ := List.isPrefixOf_iff_prefix.1 hp
    rw [List.drop_left]
    dsimp only
    split
    · rfl
    · rw [byteIndexOf?_eq]
      cases hn : indexOf? closer inner with
      | none => rfl
      | some n =>
        obtain ⟨before, after, rfl, rfl⟩ := exists_append_of_indexOf? hn
        cases before with
        | nil => rfl
        | cons c before =>
          have hpos : 0 < byteLength (c :: before) := Nat.add_pos_left c.utf8Size_pos _
          rw [Option.map_some, bytesTo_append_left]
          dsimp only
          rw [if_pos hpos]
          refine congrArg some ?_
          show _ = bytesTo _ (opener.length + (c :: before).length + closer.length)
          rw [Nat.add_assoc, Nat.add_assoc, bytesTo_append, bytesTo_append, bytesTo_append_left]
  · rfl

/-- The longest alternative is the longest in bytes as well. -/
theorem longest?_map_bytesTo {α : Type} {bytes? length? : α → Option Nat} {rest : List Char}
    (hbytes : ∀ a, bytes? a = (length? a).map (bytesTo rest))
    (hle : ∀ a n, length? a = some n → n ≤ rest.length) (alternatives : List α) :
    longest? bytes? alternatives = (longest? length? alternatives).map (bytesTo rest) := by
  have hlengths : alternatives.filterMap bytes?
      = (alternatives.filterMap length?).map (bytesTo rest) := by
    rw [List.map_filterMap]
    exact congrArg (List.filterMap · alternatives) (funext hbytes)
  have hbound : ∀ n ∈ alternatives.filterMap length?, n ≤ rest.length := fun n hn => by
    obtain ⟨a, -, ha⟩ := List.mem_filterMap.1 hn
    exact hle a n ha
  rw [longest?, hlengths, max?_map_of_le, longest?]
  exact fun m hm n hn => (bytesTo_le_iff (hbound m hm) (hbound n hn)).2

/-! ## ASCII -/

theorem utf8Size_of_isDigit {c : Char} (h : c.isDigit = true) : c.utf8Size = 1 := by
  refine Char.utf8Size_eq_one_iff.2 ?_
  have hle : c.val ≤ 57 := by
    simp only [Char.isDigit, Bool.and_eq_true, decide_eq_true_eq] at h
    exact h.2
  exact UInt32.le_trans hle (by decide)

/-- Leading digits are counted alike. -/
@[simp] theorem bytesTo_digitCount (rest : List Char) :
    bytesTo rest (digitCount rest) = digitCount rest := by
  induction rest with
  | nil => rfl
  | cons c rest ih =>
    by_cases hc : c.isDigit = true
    · have hcount : digitCount (c :: rest) = digitCount rest + 1 := by
        simp [digitCount, hc]
      rw [hcount, bytesTo_cons_succ, ih, utf8Size_of_isDigit hc, Nat.add_comm]
    · have hcount : digitCount (c :: rest) = 0 := by simp [digitCount, hc]
      simp [hcount]

@[simp] theorem bytesTo_fractionLength (rest : List Char) :
    bytesTo rest (fractionLength rest) = fractionLength rest := by
  unfold fractionLength
  split
  · next more =>
    split
    · rfl
    · rw [bytesTo_cons_succ, bytesTo_digitCount, Nat.add_comm]
      rfl
  · rfl

@[simp] theorem numberLength?_map_bytesTo (rest : List Char) :
    (numberLength? rest).map (bytesTo rest) = numberLength? rest := by
  simp only [numberLength?]
  split
  · rfl
  · split
    · rfl
    · simp [bytesTo_add]

@[simp] theorem colorLength?_map_bytesTo (rest : List Char) :
    (colorLength? rest).map (bytesTo rest) = colorLength? rest := by
  unfold colorLength?
  split
  · split <;> rfl
  · rfl

/-! ## All patterns -/

/-- **The bytes of a match** are those of the characters that match. -/
@[simp] theorem matchBytes?_eq (p : Pattern) (rest : List Char) :
    p.matchBytes? rest = (p.matchLength? rest).map (bytesTo rest) := by
  cases p with
  | literal text => exact literalBytes?_eq rest text
  | keywords phrases =>
    exact longest?_map_bytesTo (fun ph => Phrase.matchBytes?_eq ph rest)
      (fun ph n => Phrase.matchLength?_le) phrases
  | glyphs texts =>
    exact longest?_map_bytesTo (literalBytes?_eq rest) (fun g n => literalLength?_le) texts
  | delimited opener closer => exact delimitedBytes?_eq opener closer rest
  | number => exact (numberLength?_map_bytesTo rest).symm
  | color => exact (colorLength?_map_bytesTo rest).symm

@[simp] theorem properBytes?_eq (p : Pattern) (rest : List Char) :
    p.properBytes? rest = (p.properLength? rest).map (bytesTo rest) := by
  rw [properBytes?, properLength?, matchBytes?_eq]
  cases hn : p.matchLength? rest with
  | none => rfl
  | some n =>
    simp only [Option.map_some, Option.filter_some, bytesTo_pos_iff (matchLength?_le hn)]
    split <;> rfl

end Pattern

end UmlMarkup
