import UmlMarkup.Text

/-!
# Columns and UTF-16 offsets

A column of a line counts characters and an offset counts UTF-16 units, so the offset of
a column is the length of what stands before it. An editor does not measure that anew for
every token. It goes through the line once and writes down the offset of every column,
that of the end of the line included, and looks the offsets up in this table
(`getElem?_offsetTable`).

What stands between two columns has the units between their offsets as its UTF-16 form
(`drop_take_utf16`). An offset of a column never parts the two surrogates of a character
(`not_partsPair_utf16Offset`), since the units of a character start with a low surrogate
for none.
-/

namespace UmlMarkup

@[simp] theorem utf16_append (u v : List Char) : utf16 (u ++ v) = utf16 u ++ utf16 v :=
  List.flatMap_append

@[simp] theorem utf16_cons (c : Char) (u : List Char) :
    utf16 (c :: u) = utf16Char c ++ utf16 u := rfl

/-! ## Surrogates -/

/-- The unit that opens a pair. -/
def IsHighSurrogate (unit : UInt16) : Prop := 0xD800 ≤ unit.toNat ∧ unit.toNat < 0xDC00

/-- The unit that ends a pair. -/
def IsLowSurrogate (unit : UInt16) : Prop := 0xDC00 ≤ unit.toNat ∧ unit.toNat < 0xE000

/-- A character is one unit that is no surrogate, or a pair of surrogates. -/
theorem utf16Char_cases (c : Char) :
    (∃ unit, utf16Char c = [unit] ∧ ¬ IsHighSurrogate unit ∧ ¬ IsLowSurrogate unit)
      ∨ ∃ high low, utf16Char c = [high, low] ∧ IsHighSurrogate high ∧ IsLowSurrogate low := by
  have hvalid : c.toNat < 0xD800 ∨ 0xDFFF < c.toNat ∧ c.toNat < 0x110000 := c.valid
  unfold utf16Char IsHighSurrogate IsLowSurrogate
  dsimp only
  split
  · next h =>
    refine Or.inl ⟨_, rfl, ?_⟩
    rw [show c.toNat.toUInt16.toNat = c.toNat from UInt16.toNat_ofNat_of_lt' h]
    omega
  · next h =>
    refine Or.inr ⟨_, _, rfl, ?_⟩
    have hhigh : (0xD800 + (c.toNat - 0x10000) / 0x400).toUInt16.toNat
        = 0xD800 + (c.toNat - 0x10000) / 0x400 := UInt16.toNat_ofNat_of_lt' (by
          show _ < 65536
          omega)
    have hlow : (0xDC00 + (c.toNat - 0x10000) % 0x400).toUInt16.toNat
        = 0xDC00 + (c.toNat - 0x10000) % 0x400 := UInt16.toNat_ofNat_of_lt' (by
          show _ < 65536
          omega)
    rw [hhigh, hlow]
    omega

/-- The number of units of a character, told from its code point: one in the basic plane
and two beyond. -/
def utf16Size (c : Char) : Nat := if c.toNat < 0x10000 then 1 else 2

@[simp] theorem length_utf16Char (c : Char) : (utf16Char c).length = utf16Size c := by
  unfold utf16Char utf16Size
  dsimp only
  split <;> rfl

theorem length_utf16Char_pos (c : Char) : 0 < (utf16Char c).length := by
  rcases utf16Char_cases c with ⟨_, h, -⟩ | ⟨_, _, h, -⟩ <;> rw [h]
  · exact Nat.one_pos
  · exact Nat.two_pos

/-- The offset lies between the two surrogates of a pair. -/
def PartsPair (units : List UInt16) (offset : Nat) : Prop :=
  ∃ before high low after, units = before ++ high :: low :: after
    ∧ offset = before.length + 1 ∧ IsHighSurrogate high ∧ IsLowSurrogate low

/-- No text begins with the end of a pair. -/
theorem not_isLowSurrogate_of_head? {text : List Char} {unit : UInt16}
    (h : (utf16 text).head? = some unit) : ¬ IsLowSurrogate unit := by
  cases text with
  | nil => cases h
  | cons c text =>
    rw [utf16_cons] at h
    rcases utf16Char_cases c with ⟨_, heq, -, hlow⟩ | ⟨high, _, heq, hhigh, -⟩
    · rw [heq] at h
      cases h
      exact hlow
    · rw [heq] at h
      cases h
      exact fun hlow => Nat.lt_irrefl _ (Nat.lt_of_lt_of_le hhigh.2 hlow.1)

/-! ## Offsets of columns -/

/-- The units before a column and those behind it are those of the line. -/
@[simp] theorem utf16_take_append_drop (line : List Char) (column : Nat) :
    utf16 (line.take column) ++ utf16 (line.drop column) = utf16 line := by
  rw [← utf16_append, List.take_append_drop]

@[simp] theorem utf16Offset_succ (c : Char) (line : List Char) (column : Nat) :
    utf16Offset (c :: line) (column + 1) = (utf16Char c).length + utf16Offset line column := by
  simp [utf16Offset]

@[simp] theorem utf16Offset_length (line : List Char) :
    utf16Offset line line.length = (utf16 line).length := by
  rw [utf16Offset, List.take_length]

/-- A column of a line is one of the text before a later column. -/
theorem utf16Offset_take (line : List Char) {start stop : Nat} (h : start ≤ stop) :
    utf16Offset (line.take stop) start = utf16Offset line start := by
  rw [utf16Offset, List.take_take, Nat.min_eq_left h, utf16Offset]

/-- A later column has a greater offset. -/
theorem utf16Offset_lt {line : List Char} {start stop : Nat} (h : start < stop)
    (hstop : stop ≤ line.length) : utf16Offset line start < utf16Offset line stop := by
  induction line generalizing start stop with
  | nil => exact absurd (Nat.lt_of_lt_of_le h hstop) (Nat.not_lt_zero start)
  | cons c line ih =>
    cases stop with
    | zero => cases h
    | succ stop =>
      rw [utf16Offset_succ]
      cases start with
      | zero => exact Nat.add_pos_left (length_utf16Char_pos c) _
      | succ start =>
        rw [utf16Offset_succ]
        exact Nat.add_lt_add_left (ih (Nat.lt_of_succ_lt_succ h) (Nat.le_of_succ_le_succ hstop)) _

/-- **What stands between two columns has the units between their offsets.** -/
theorem drop_take_utf16 (line : List Char) {start stop : Nat} (h : start ≤ stop) :
    ((utf16 line).take (utf16Offset line stop)).drop (utf16Offset line start)
      = utf16 ((line.take stop).drop start) := by
  have htake : (utf16 line).take (utf16Offset line stop) = utf16 (line.take stop) := by
    rw [← utf16_take_append_drop line stop, utf16Offset, List.take_left]
  rw [htake, ← utf16Offset_take line h, ← utf16_take_append_drop (line.take stop) start,
    utf16Offset, List.drop_left]

/-- **No column lies within a pair of surrogates.** -/
theorem not_partsPair_utf16Offset (line : List Char) (column : Nat) :
    ¬ PartsPair (utf16 line) (utf16Offset line column) := by
  rintro ⟨before, high, low, after, hunits, hoffset, -, hlow⟩
  rw [← utf16_take_append_drop line column, List.append_cons] at hunits
  have hlength : (utf16 (line.take column)).length = (before ++ [high]).length := by
    rw [List.length_append]
    exact hoffset
  have hdrop := (List.append_inj hunits hlength).2
  exact not_isLowSurrogate_of_head? (by rw [hdrop]; rfl) hlow

/-! ## The table of offsets -/

/-- The offsets of the columns of a text whose first column has the given one. -/
def offsetsFrom (offset : Nat) : List Char → List Nat
  | [] => [offset]
  | c :: rest => offset :: offsetsFrom (offset + utf16Size c) rest

/-- **The table in which an editor looks its offsets up**: for every column of the line
that of the units before it, and last that of the end of the line. -/
def offsetTable (line : List Char) : List Nat := offsetsFrom 0 line

theorem getElem?_offsetsFrom (offset : Nat) {line : List Char} {column : Nat}
    (h : column ≤ line.length) :
    (offsetsFrom offset line)[column]? = some (offset + utf16Offset line column) := by
  induction line generalizing offset column with
  | nil =>
    obtain rfl := Nat.eq_zero_of_le_zero h
    rfl
  | cons c line ih =>
    cases column with
    | zero => rfl
    | succ column =>
      simp [offsetsFrom, ih _ (Nat.le_of_succ_le_succ h), Nat.add_assoc]

/-- **Every column of the line has its offset in the table.** -/
theorem getElem?_offsetTable {line : List Char} {column : Nat} (h : column ≤ line.length) :
    (offsetTable line)[column]? = some (utf16Offset line column) := by
  rw [offsetTable, getElem?_offsetsFrom 0 h, Nat.zero_add]

end UmlMarkup
