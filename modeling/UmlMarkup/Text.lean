/-!
# Texts

What the library knows of texts as such: classes of characters, the lines of a text, and its
length in the units in which others count.

A property of characters such as "is a letter" is fixed by a standard, not by a rule one could
write down, so it is kept as a table: a list of inclusive ranges of code points, in ascending
order. A character has the property when one of the ranges holds its code point. The long
tables stand in modules of their own, with the property that they are for.

A **blank** is a character with the `White_Space` property: the tab and the line controls, the
space, the two Latin-1 blanks and the wide spaces further up. The zero-width characters U+200B
and U+FEFF and the Mongolian vowel separator U+180E lack the property and are ordinary
characters here. Blanks separate the words of a line; nothing in a line means more to the
scanner. The narrower notion of a *gap*, which may stand between the words of a keyword phrase,
is a space or a tab.

A **line** ends at a line feed, together with one carriage return directly before it. The last
line needs no line feed, and a line feed at the very end starts no further line; a carriage
return that no line feed follows is part of its line.

Columns count characters. A text kept in memory is measured in **bytes** of its UTF-8 form, and
an editor that counts in 16-bit **units** sees a character of the basic plane as one unit and any
other as a pair of surrogates. A column becomes an offset of either kind by measuring what stands
before it.
-/

namespace UmlMarkup

/-! ## Classes of characters -/

/-- A set of characters: the inclusive ranges of their code points. -/
abbrev CharRanges := List (Nat × Nat)

/-- Whether the code point of `c` lies in one of the ranges. -/
def CharRanges.contains (ranges : CharRanges) (c : Char) : Bool :=
  ranges.any fun r => r.1 ≤ c.toNat && c.toNat ≤ r.2

theorem CharRanges.contains_iff {ranges : CharRanges} {c : Char} :
    ranges.contains c = true ↔ ∃ r ∈ ranges, r.1 ≤ c.toNat ∧ c.toNat ≤ r.2 := by
  simp [CharRanges.contains]

/-- The code points with the `White_Space` property. -/
def blankRanges : CharRanges :=
  [(0x9, 0xD), (0x20, 0x20), (0x85, 0x85), (0xA0, 0xA0), (0x1680, 0x1680), (0x2000, 0x200A),
    (0x2028, 0x2029), (0x202F, 0x202F), (0x205F, 0x205F), (0x3000, 0x3000)]

/-- Whether `c` is white space. -/
def isBlank (c : Char) : Bool := blankRanges.contains c

/-- Whether `c` may stand between the words of a phrase. -/
def isGap (c : Char) : Bool := c == ' ' || c == '\t'

/-- A gap is blank, so a phrase never reaches across anything but blanks. -/
@[simp] theorem isBlank_of_isGap {c : Char} (h : isGap c = true) : isBlank c = true := by
  simp only [isGap, Bool.or_eq_true, beq_iff_eq] at h
  rcases h with rfl | rfl <;> decide

/-! ## Lines -/

/-- The lines of a text, without their ends. -/
def lines : List Char → List (List Char)
  | [] => []
  | '\n' :: rest => [] :: lines rest
  | '\r' :: '\n' :: rest => [] :: lines rest
  | c :: rest =>
    match lines rest with
    | [] => [[c]]
    | line :: more => (c :: line) :: more

/-! ## Bytes -/

/-- The number of bytes of a text in UTF-8. -/
def byteLength : List Char → Nat
  | [] => 0
  | c :: rest => c.utf8Size + byteLength rest

/-- The number of whole characters within the first `n` bytes of a text. -/
def charsWithin : Nat → List Char → Nat
  | _, [] => 0
  | n, c :: rest => if c.utf8Size ≤ n then charsWithin (n - c.utf8Size) rest + 1 else 0

/-- What stands behind the first `n` bytes of a text. -/
def dropBytes (n : Nat) (text : List Char) : List Char := text.drop (charsWithin n text)

/-- The number of bytes of the first `n` characters of a text. -/
def bytesTo (text : List Char) (n : Nat) : Nat := byteLength (text.take n)

@[simp] theorem byteLength_nil : byteLength [] = 0 := rfl

@[simp] theorem byteLength_cons (c : Char) (rest : List Char) :
    byteLength (c :: rest) = c.utf8Size + byteLength rest := rfl

@[simp] theorem byteLength_append (before after : List Char) :
    byteLength (before ++ after) = byteLength before + byteLength after := by
  induction before with
  | nil => simp
  | cons c before ih => simp [ih, Nat.add_assoc]

/-- The library's measure of strings is the same. -/
@[simp] theorem utf8ByteSize_ofList (text : List Char) :
    (String.ofList text).utf8ByteSize = byteLength text := by
  induction text with
  | nil => rfl
  | cons c text ih => simp [String.ofList_cons, ih]

/-- Only the empty text has no bytes. -/
@[simp] theorem byteLength_eq_zero_iff {text : List Char} : byteLength text = 0 ↔ text = [] := by
  cases text with
  | nil => simp
  | cons c rest => simp [Nat.ne_of_gt c.utf8Size_pos]

/-- A cut between two characters is found again from the bytes before it. -/
@[simp] theorem charsWithin_byteLength (before after : List Char) :
    charsWithin (byteLength before) (before ++ after) = before.length := by
  induction before with
  | nil =>
    cases after with
    | nil => rfl
    | cons c after => simp [charsWithin, Nat.not_le.2 c.utf8Size_pos]
  | cons c before ih => simp [charsWithin, ih]

@[simp] theorem bytesTo_zero (text : List Char) : bytesTo text 0 = 0 := rfl

@[simp] theorem bytesTo_cons_succ (c : Char) (text : List Char) (n : Nat) :
    bytesTo (c :: text) (n + 1) = c.utf8Size + bytesTo text n := rfl

@[simp] theorem bytesTo_length (text : List Char) : bytesTo text text.length = byteLength text :=
  congrArg byteLength List.take_length

@[simp] theorem bytesTo_append_left (before after : List Char) :
    bytesTo (before ++ after) before.length = byteLength before :=
  congrArg byteLength List.take_left

/-- A text that stands at the start of another is the first part of it. -/
theorem bytesTo_of_isPrefixOf {marker text : List Char} (h : marker.isPrefixOf text = true) :
    bytesTo text marker.length = byteLength marker := by
  obtain ⟨rest, rfl⟩ := List.isPrefixOf_iff_prefix.1 h
  exact bytesTo_append_left marker rest

@[simp] theorem bytesTo_append (before after : List Char) (n : Nat) :
    bytesTo (before ++ after) (before.length + n) = byteLength before + bytesTo after n := by
  simp [bytesTo, List.take_length_add_append]

/-- The bytes of the first characters are counted in two parts. -/
theorem bytesTo_add (text : List Char) (m n : Nat) :
    bytesTo text (m + n) = bytesTo text m + bytesTo (text.drop m) n := by
  simp [bytesTo, List.take_add]

section

variable {text : List Char} {m n : Nat}

/-- A cut that is given by the characters before it is found again as well. -/
@[simp] theorem charsWithin_bytesTo (h : n ≤ text.length) :
    charsWithin (bytesTo text n) text = n := by
  have hcut := charsWithin_byteLength (text.take n) (text.drop n)
  rwa [List.take_append_drop, List.length_take_of_le h] at hcut

@[simp] theorem dropBytes_bytesTo (h : n ≤ text.length) :
    dropBytes (bytesTo text n) text = text.drop n :=
  congrArg text.drop (charsWithin_bytesTo h)

/-- Beyond its end a text has no more bytes. -/
@[simp] theorem bytesTo_min_length (text : List Char) (n : Nat) :
    bytesTo text (min n text.length) = bytesTo text n :=
  congrArg byteLength List.take_eq_take_min.symm

/-- Where more characters are taken there are more bytes. -/
@[simp] theorem bytesTo_le_iff (hm : m ≤ text.length) (hn : n ≤ text.length) :
    bytesTo text m ≤ bytesTo text n ↔ m ≤ n := by
  induction text generalizing m n with
  | nil => simp_all
  | cons c text ih =>
    cases m with
    | zero => simp
    | succ m =>
      cases n with
      | zero => simp [Nat.ne_of_gt c.utf8Size_pos]
      | succ n => simpa using ih (Nat.le_of_succ_le_succ hm) (Nat.le_of_succ_le_succ hn)

@[simp] theorem bytesTo_lt_iff (hm : m ≤ text.length) (hn : n ≤ text.length) :
    bytesTo text m < bytesTo text n ↔ m < n := by
  rw [← Nat.not_le, bytesTo_le_iff hn hm, Nat.not_le]

@[simp] theorem bytesTo_pos_iff (h : n ≤ text.length) : 0 < bytesTo text n ↔ 0 < n := by
  simpa using bytesTo_lt_iff (Nat.zero_le _) h

end

/-! ## UTF-16 units -/

/-- The UTF-16 units of a character. -/
def utf16Char (c : Char) : List UInt16 :=
  let n := c.toNat
  if n < 0x10000 then [n.toUInt16]
  else [(0xD800 + (n - 0x10000) / 0x400).toUInt16, (0xDC00 + (n - 0x10000) % 0x400).toUInt16]

/-- The UTF-16 units of a text. -/
def utf16 (text : List Char) : List UInt16 := text.flatMap utf16Char

/-- The UTF-16 offset of the character column `column` of `line`. -/
def utf16Offset (line : List Char) (column : Nat) : Nat := (utf16 (line.take column)).length

end UmlMarkup
