import UmlMarkup.Editor
import UmlMarkup.Proofs.Scan.Coverage
import UmlMarkup.Proofs.Scan.Threading
import UmlMarkup.Proofs.Text.Utf16

/-!
# Scanning line by line for an editor

An editor asks for one line at a time and keeps the state beside each line in its saved
form. It loses nothing by that: if the key leads to a dialect, every line of its session
is scanned, the states are those of the document, and so are the tokens, told by UTF-16
offsets (`editorLines?_exact`).

Two things could fail on the way. A state might not be read back as what it was; but the
names of the modes are told apart (`load?_save`). And a token might reach beyond the line
and its column have no offset; but the tokens tile the line, whatever state it starts in,
so every column of theirs is in the table, and the offsets tile the units of the line as
the columns do its characters (`Tiles.toEditor`).
-/

namespace UmlMarkup

/-! ## Saved states -/

@[simp] theorem mapM_ofName?_map_name (modes : List Mode) :
    (modes.map Mode.name).mapM Mode.ofName? = some modes := by
  induction modes with
  | nil => rfl
  | cons m modes ih =>
    simp [ih]

/-- **A saved state is read back as it was.** -/
@[simp] theorem ScanState.load?_save (s : ScanState) : load? s.save = some s := by
  rw [load?, save, mapM_ofName?_map_name, Option.map_some, ofFrames_frames]

/-! ## Tokens told by offsets -/

/-- The token with the offsets that a table has for its columns, if it has one for both. -/
def Token.readOff? (t : Token) (table : List Nat) : Option EditorToken := do
  let start ← table[t.span.start]?
  let stop ← table[t.span.stop]?
  return ⟨t.kind, t.kind.style?, start, stop⟩

/-- The token as a range of units. -/
def EditorToken.range (u : EditorToken) : Token := ⟨u.kind, u.start, u.stop⟩

/-- The units that a token covers in the UTF-16 form of its line. -/
def EditorToken.units (u : EditorToken) (units : List UInt16) : List UInt16 :=
  (units.take u.stop).drop u.start

/-- Columns within the line have their offsets in its table. -/
theorem Token.readOff?_offsetTable {t : Token} {line : List Char} (h : t.span.start ≤ t.span.stop)
    (hstop : t.span.stop ≤ line.length) :
    t.readOff? (offsetTable line) = some (t.toEditor line) := by
  rw [readOff?, getElem?_offsetTable (Nat.le_trans h hstop), getElem?_offsetTable hstop]
  rfl

namespace Tiles

variable {start stop : Nat} {ts : List Token}

/-- What tiles a range of columns stays within. -/
theorem span_stop_le (h : Tiles start stop ts) {t : Token} (ht : t ∈ ts) : t.span.stop ≤ stop := by
  induction ts generalizing start with
  | nil => cases ht
  | cons u ts ih =>
    rcases List.mem_cons.1 ht with rfl | ht
    · exact h.2.2.start_le_stop
    · exact ih h.2.2 ht

/-- **What tiles columns tiles the units between their offsets.** -/
theorem toEditor {line : List Char} (h : Tiles start stop ts) (hstop : stop ≤ line.length) :
    Tiles (utf16Offset line start) (utf16Offset line stop)
      (ts.map fun t => (t.toEditor line).range) := by
  induction ts generalizing start with
  | nil => exact congrArg (utf16Offset line) h
  | cons t ts ih =>
    obtain ⟨rfl, hlt, hrest⟩ := h
    exact ⟨rfl, utf16Offset_lt hlt (Nat.le_trans hrest.start_le_stop hstop), ih hrest⟩

end Tiles

/-! ## Lines -/

/-- **The line of an editor shows the entry of a document**, `line` being the text of both. -/
structure EditorLine.Shows (l : EditorLine) (line : List Char) (e : Entry) : Prop where
  state_eq : l.state = e.stateAfter
  /-- Every column has an offset in the table, and the token has it. -/
  offsets : e.tokens.map (·.readOff? (offsetTable line)) = l.tokens.map some
  kinds : l.tokens.map EditorToken.kind = e.tokens.map Token.kind
  styles : l.tokens.map EditorToken.style? = e.tokens.map fun t => t.kind.style?
  /-- The units of a token are the UTF-16 form of its text. -/
  units : l.tokens.map (·.units (utf16 line)) = e.tokens.map fun t => utf16 (t.text line)
  tiles : Tiles (utf16 (line.takeWhile isBlank)).length (utf16 line).length
    (l.tokens.map EditorToken.range)
  whole : ∀ u ∈ l.tokens, ¬ PartsPair (utf16 line) u.start ∧ ¬ PartsPair (utf16 line) u.stop

/-- A scanned line with the offsets of its tokens. -/
def ScannedLine.toEditor (l : ScannedLine) : EditorLine :=
  ⟨l.tokens.map (·.toEditor l.text), l.stateAfter⟩

theorem Dialect.shows_toEditor (d : Dialect) (state : ScanState) (line : List Char) :
    (d.scanLine state line).toEditor.Shows line (d.scanLine state line).entry := by
  have htiles := d.tiles_tokens state line
  have hstart : ∀ t ∈ (d.scanLine state line).tokens, t.span.start ≤ t.span.stop :=
    fun t ht => Nat.le_of_lt (htiles.span_nonempty ht)
  rw [ScannedLine.toEditor, d.text_scanLine]
  refine ⟨rfl, ?_, List.map_map, List.map_map, ?_, ?_, ?_⟩
  · rw [List.map_map]
    exact List.map_congr_left fun t ht =>
      Token.readOff?_offsetTable (hstart t ht) (htiles.span_stop_le ht)
  · rw [List.map_map]
    exact List.map_congr_left fun t ht => drop_take_utf16 line (hstart t ht)
  · have hindent : utf16Offset line (line.takeWhile isBlank).length
        = (utf16 (line.takeWhile isBlank)).length := by
      rw [utf16Offset, ← List.prefix_iff_eq_take.1 (List.takeWhile_prefix isBlank)]
    rw [List.map_map, ← hindent, ← utf16Offset_length]
    exact htiles.toEditor (Nat.le_refl _)
  · exact List.forall_mem_map.2 fun t _ => ⟨not_partsPair_utf16Offset line t.span.start,
      not_partsPair_utf16Offset line t.span.stop⟩

/-! ## Sessions -/

namespace Registry

/-- **The session of an editor**: it asks for one line after the other, naming the dialect
by a key, and hands in the state that it saved with the line before. There is none if the
key leads nowhere or a saved state cannot be read. -/
def editorLines? (r : Registry) (key : String) (saved : List String) :
    List (List Char) → Option (List EditorLine)
  | [] => some []
  | line :: rest => do
    let state ← ScanState.load? saved
    let l ← (r.editorLine key line state).toOption
    let more ← r.editorLines? key l.state.save rest
    return l :: more

/-- A session gets the scanned lines, as if the state had never been saved. -/
theorem editorLines?_eq_some {r : Registry} {key : String} {d : Dialect}
    (h : r.lookup key = .ok d) (state : ScanState) (lines : List (List Char)) :
    r.editorLines? key state.save lines
      = some ((d.scanLines state lines).map ScannedLine.toEditor) := by
  induction lines generalizing state with
  | nil => rfl
  | cons line rest ih =>
    have hline : r.editorLine key line state = .ok (d.scanLine state line).toEditor := by
      simp only [editorLine, h, Except.map, d.scanEntry_eq, ScannedLine.toEditor, d.text_scanLine]
      rfl
    have hrest : r.editorLines? key (d.scanLine state line).toEditor.state.save rest
        = some ((d.scanLines (d.scanLine state line).stateAfter rest).map ScannedLine.toEditor) :=
      ih (d.scanLine state line).stateAfter
    simp only [editorLines?, ScanState.load?_save, hline, Except.toOption, Option.bind_eq_bind,
      Option.bind_some, hrest]
    rfl

/-- **An editor that asks line by line gets the document.** Whatever dialect the key leads
to and whatever the lines hold, every state it saves is read back, and the line it gets
for each of them shows the entry that the document has for it. -/
theorem editorLines?_exact {r : Registry} {key : String} {d : Dialect}
    (h : r.lookup key = .ok d) (lines : List (List Char)) :
    ∃ ls, r.editorLines? key ScanState.initial.save lines = some ls
      ∧ ls.length = lines.length
      ∧ ls.map EditorLine.state = (Document.ofLines d lines).entries.map Entry.stateAfter
      ∧ ∀ (i : Nat) line l, lines[i]? = some line → ls[i]? = some l →
        ∃ e, (Document.ofLines d lines).entries[i]? = some e ∧ l.Shows line e := by
  refine ⟨_, editorLines?_eq_some h .initial lines, ?_, ?_, fun i line l hline hl => ?_⟩
  · simp
  · rw [Document.ofLines, d.entriesFrom_eq, List.map_map, List.map_map]
    rfl
  · rw [List.getElem?_map, d.getElem?_scanLines, hline] at hl
    obtain rfl := Option.some.inj hl
    refine ⟨_, ?_, d.shows_toEditor _ line⟩
    simp [hline, Document.ofLines, d.entriesFrom_eq]

/-- A comment that is closed on the next line, behind a character of two units. -/
theorem editorLines?_exact_of_comment :
    builtin.lookup "pseq" = .ok Dialect.sequence
    ∧ ∃ ls, builtin.editorLines? "pseq" ScanState.initial.save
        ["\t😀 /' é".toList, "𝄞'/".toList] = some ls
      ∧ ls.map EditorLine.state = [.ofFrames [.blockComment], .initial]
      ∧ ∀ l, ls[1]? = some l → l.tokens.map some = [some ⟨.comment, some "comment", 0, 4⟩] := by
  have hkey : builtin.lookup "pseq" = .ok Dialect.sequence := by decide +kernel
  obtain ⟨ls, hls, -, hstates, hshows⟩ :=
    editorLines?_exact hkey ["\t😀 /' é".toList, "𝄞'/".toList]
  refine ⟨hkey, ls, hls, hstates.trans (by decide +kernel), fun l hl => ?_⟩
  obtain ⟨e, he, hshows⟩ := hshows 1 "𝄞'/".toList l rfl hl
  obtain rfl : e = ⟨[⟨.comment, 0, 3⟩], .initial⟩ :=
    Option.some.inj (he.symm.trans (by decide +kernel))
  exact hshows.offsets.symm.trans (by decide +kernel)

end Registry

end UmlMarkup
