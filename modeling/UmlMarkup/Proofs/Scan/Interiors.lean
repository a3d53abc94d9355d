import UmlMarkup.Proofs.Scan.Coverage
import UmlMarkup.Proofs.Scan.LineEnd
import UmlMarkup.Proofs.Scan.Spelling

/-!
# Inside comments, strings and notes

As long as a comment, a string or the body of a note is open nothing in it means
anything. Openers, closers of other constructs, quotation marks, colons, arrows: line
after line is handed on as it was found, and what lies open around is not touched
(`interiors_are_inert`). The one thing looked for is the end. A comment or a string
ends at the first occurrence of its closing marker, which is why the marker must not
overlap itself; a note ends at a closer of its own at the start of a line.

For a note there is more to it, since all closers of the table are tried at the start
of a line, and the longest wins. A closer of something else is not let through, for the
note is innermost. And the closer of the note wins because no other closer is spelled
like it or goes on into the blanks behind it, which is a matter of the table
(`Dialect.TellsNoteEnds`).
-/

namespace UmlMarkup

/-! ## Markers -/

/-- The marker is not empty, and its first character does not come again in it. -/
def SelfApart : List Char → Prop
  | [] => False
  | a :: more => a ∉ more

instance : DecidablePred SelfApart
  | [] => .isFalse id
  | a :: more => inferInstanceAs (Decidable (a ∉ more))

theorem SelfApart.ne_nil {marker : List Char} (h : SelfApart marker) : marker ≠ [] := by
  rintro rfl
  exact h

/-- **A marker that does not overlap itself is found where it stands**, if it does not
stand in the text before. -/
@[simp] theorem past?_append_marker {marker text : List Char} (hmarker : SelfApart marker)
    (htext : ¬ marker <:+: text) (trail : List Char) :
    past? marker (text ++ (marker ++ trail)) = some (text ++ marker).length := by
  obtain ⟨a, more, rfl⟩ := List.exists_cons_of_ne_nil hmarker.ne_nil
  have hstart : past? (a :: more) (a :: more ++ trail) = some (a :: more).length := by
    have hpre : (a :: more).isPrefixOf (a :: (more ++ trail)) = true :=
      List.isPrefixOf_iff_prefix.2 (List.prefix_append (a :: more) trail)
    rw [past?, List.cons_append, indexOf?, if_pos hpre]
    simp
  rw [past?_append, hstart, Option.map_some, List.length_append]
  -- an occurrence that begins before would end before, or hold the first character twice
  rintro v ⟨before, rfl⟩ hne hpre
  obtain ⟨c, v, rfl⟩ := List.exists_cons_of_ne_nil hne
  obtain ⟨rfl, after, hafter⟩ := List.cons_prefix_cons.1 hpre
  rcases List.append_eq_append_iff.1 hafter with ⟨u, hu, -⟩ | ⟨u, hu, hagain⟩
  · exact htext ⟨before, u, by rw [hu]; simp⟩
  · cases u with
    | nil => exact htext ⟨before, [], by rw [hu]; simp⟩
    | cons b u =>
      obtain ⟨rfl, -⟩ := List.cons.inj hagain
      exact hmarker (hu ▸ List.mem_append_right v List.mem_cons_self)

/-! ## Tokens -/

/-- Blanks at the end of a line, which are a plain token of their own if there are any. -/
def spacing (trail : List Char) : List Lexeme := if trail = [] then [] else [⟨.unstyled, trail⟩]

/-- **What an open comment or string makes of a line**: nothing if it is blank, and else
one token from its indentation to its end. -/
def interiorTokens (kind : Kind) (line : List Char) : List Token :=
  if Blank line then [] else [⟨kind, ⟨(line.takeWhile isBlank).length, line.length⟩⟩]

/-- **What the end of a construct makes of a line**: one token for the indented text
that ends it, the blanks behind it apart. -/
def closingTokens (kind : Kind) (line text trail : List Char) : List Token :=
  layout (line.takeWhile isBlank).length (⟨kind, text⟩ :: spacing trail)

namespace Dialect

variable {d : Dialect} {ctx : Context} {rest : List Char} {below : List Mode}

/-- Blanks at the end of a line change nothing. -/
theorem readAs_of_blank (d : Dialect) (ctx : Context) {trail : List Char} (h : Blank trail) :
    d.ReadAs ctx trail (spacing trail) ctx.settle.state := by
  by_cases hne : trail = []
  · rw [hne]
    exact .nil d ctx
  · have hstep : d.step ctx trail = ⟨.unstyled, trail.length, ctx⟩ := by
      cases hfree : ctx.freeText with
      | true => exact step_of_freeText hfree
      | false =>
        obtain ⟨c, text, rfl⟩ := List.exists_cons_of_ne_nil hne
        have hc : (c :: text).head?.any isBlank = true := h c List.mem_cons_self
        rw [step_of_blank hfree hc, blankStep, List.takeWhile_eq_self_iff.2 h]
    rw [spacing, if_neg hne]
    exact .all hne hstep

/-- A line of which the first step reads all but the blanks at its end. -/
theorem entry_of_step {s t : ScanState} {kind : Kind} {line text trail : List Char}
    (hne : text ≠ []) (hline : line.dropWhile isBlank = text ++ trail) (htrail : Blank trail)
    (hstep : d.step { state := s } (text ++ trail) = ⟨kind, text.length, { state := t }⟩) :
    (d.scanLine s line).entry = ⟨closingTokens kind line text trail, t⟩ := by
  have hread : d.ReadAs { state := s } (line.dropWhile isBlank) (⟨kind, text⟩ :: spacing trail)
      t := by
    rw [hline]
    exact (readAs_of_blank d { state := t, atStart := false } htrail).step hne hstep
  rw [hread.scanLine]
  rfl

/-! ## Comments and strings -/

/-- **The literals of a dialect**: the construct that is open, the kind of its tokens and
the marker that closes it. -/
inductive Literal (d : Dialect) : Mode → Kind → List Char → Prop
  | comment : Literal d .blockComment .comment d.blockClose
  | string : Literal d .string .string [d.quote]

theorem builtin_selfApart : ∀ d ∈ builtin, SelfApart d.blockClose := by decide +kernel

theorem Literal.selfApart {m : Mode} {kind : Kind} {marker : List Char}
    (h : d.Literal m kind marker) (hd : SelfApart d.blockClose) : SelfApart marker := by
  cases h with
  | comment => exact hd
  | string => exact List.not_mem_nil

theorem step_of_literal {m : Mode} {kind : Kind} {marker : List Char}
    (h : d.Literal m kind marker) (hblank : rest.head?.any isBlank = false) (below : List Mode) :
    d.step { state := ⟨m :: below⟩ } rest
      = continueStep { state := ⟨m :: below⟩ } rest m kind marker := by
  cases h with
  | comment => exact step_of_blockComment rfl hblank rfl
  | string => exact step_of_string rfl hblank rfl

section

variable {m : Mode} {kind : Kind} {marker line : List Char}

/-- A line without the closing marker. -/
theorem entry_of_literal (h : d.Literal m kind marker) (hmarker : marker ≠ [])
    (hline : ¬ marker <:+: line) (below : List Mode) :
    (d.scanLine ⟨m :: below⟩ line).entry = ⟨interiorTokens kind line, ⟨m :: below⟩⟩ := by
  by_cases hne : line.dropWhile isBlank = []
  · have hblank : Blank line := List.dropWhile_eq_nil_iff.1 hne
    have hread : d.ReadAs { state := ⟨m :: below⟩ } (line.dropWhile isBlank) [] ⟨m :: below⟩ := by
      rw [hne]
      exact .nil d _
    rw [interiorTokens, if_pos hblank, hread.scanLine]
    rfl
  · have hblank : ¬ Blank line := mt List.dropWhile_eq_nil_iff.2 hne
    have hpast : past? marker (line.dropWhile isBlank) = none :=
      (past?_eq_none_iff hmarker).2 fun hin =>
        hline (hin.trans (List.dropWhile_suffix isBlank).isInfix)
    have hstep : d.step { state := ⟨m :: below⟩ } (line.dropWhile isBlank ++ [])
        = ⟨kind, (line.dropWhile isBlank).length, { state := ⟨m :: below⟩ }⟩ := by
      rw [List.append_nil, step_of_literal h (any_head?_dropWhile line), continueStep, hpast]
    rw [entry_of_step hne (List.append_nil _).symm (List.forall_mem_nil _) hstep, interiorTokens,
      if_neg hblank, ← length_indent_add line]
    rfl

/-- A line with the closing marker and nothing but blanks behind it. -/
theorem entry_of_literal_closed (h : d.Literal m kind marker) (hmarker : SelfApart marker)
    {text trail : List Char} (hline : line.dropWhile isBlank = text ++ (marker ++ trail))
    (htext : ¬ marker <:+: text) (htrail : Blank trail) (below : List Mode) :
    (d.scanLine ⟨m :: below⟩ line).entry
      = ⟨closingTokens kind line (text ++ marker) trail, ⟨below⟩⟩ := by
  have hne : text ++ marker ≠ [] := fun he => hmarker.ne_nil (List.append_eq_nil_iff.1 he).2
  have hflush : (text ++ (marker ++ trail)).head?.any isBlank = false :=
    hline ▸ any_head?_dropWhile line
  refine entry_of_step hne (by rw [hline, List.append_assoc]) htrail ?_
  simp [step_of_literal h hflush, continueStep, past?_append_marker hmarker htext, Context.exit]

/-- **Lines without the closing marker** are one token each, and change nothing. -/
theorem entriesFrom_of_literal (h : d.Literal m kind marker) (hmarker : marker ≠ [])
    (below : List Mode) {lines : List (List Char)} (hlines : ∀ line ∈ lines, ¬ marker <:+: line) :
    d.entriesFrom ⟨m :: below⟩ lines
        = lines.map (fun line => ⟨interiorTokens kind line, ⟨m :: below⟩⟩)
      ∧ d.stateAfter ⟨m :: below⟩ lines = ⟨m :: below⟩ := by
  induction lines with
  | nil => exact ⟨rfl, rfl⟩
  | cons line rest ih =>
    obtain ⟨hline, hrest⟩ := List.forall_mem_cons.1 hlines
    have hentry := entry_of_literal h hmarker hline below
    have hstate : (d.scanLine ⟨m :: below⟩ line).stateAfter = ⟨m :: below⟩ :=
      congrArg Entry.stateAfter hentry
    simp [hstate, hentry, ih hrest]

end

/-! ## Notes -/

/-- A rule that closes a note matches at the start of the text. -/
def NoteEndsAt (d : Dialect) (text : List Char) : Prop :=
  ∃ r ∈ d.rules, r.effect = .exit .note ∧ (r.pattern.properLength? text).isSome

instance (d : Dialect) : DecidablePred d.NoteEndsAt := fun text =>
  inferInstanceAs (Decidable (∃ r ∈ d.rules,
    r.effect = .exit .note ∧ (r.pattern.properLength? text).isSome))

/-- In the body of a note a step reads plain text and changes nothing, unless the note
ends at the start of the line. -/
theorem step_of_noteBody {d : Dialect} {ctx : Context} {rest : List Char}
    (hnote : ctx.state.mode = .note) (hheader : ctx.inHeader = false)
    (hend : ctx.atStart = true → ¬ d.NoteEndsAt rest) :
    (d.step ctx rest).kind = .unstyled ∧ (d.step ctx rest).next = ctx := by
  cases hfree : ctx.freeText with
  | true =>
    rw [step_of_freeText hfree]
    exact ⟨rfl, rfl⟩
  | false =>
    cases hblank : rest.head?.any isBlank with
    | true =>
      rw [step_of_blank hfree hblank]
      exact ⟨rfl, rfl⟩
    | false =>
      rw [step_of_note hfree hblank hnote, hheader, if_neg Bool.false_ne_true, bodyStep]
      by_cases hstart : ctx.atStart = true
      · rw [if_pos hstart]
        split
        · next c hc =>
          -- a closer of something else closes nothing here
          obtain ⟨r, hr, heffect, -, hn, -⟩ := closer?_spec hc
          have hclose : ctx.state.close? c.mode = none :=
            ScanState.close?_eq_none_of_mode fun hm => hend hstart
              ⟨r, hr, (hm.symm.trans hnote) ▸ heffect, Option.isSome_of_eq_some hn⟩
          rw [closerStep, hclose]
          exact ⟨rfl, rfl⟩
        · exact ⟨rfl, rfl⟩
      · rw [if_neg hstart]
        exact ⟨rfl, rfl⟩

/-- **Nothing but a closer of notes at the start of a line means anything in the body of
a note.** -/
theorem scanRest_of_noteBody (d : Dialect) (ctx : Context) (rest : List Char)
    (hnote : ctx.state.mode = .note) (hheader : ctx.header = .absent)
    (hend : ctx.atStart = true → ¬ d.NoteEndsAt rest) :
    (∀ l ∈ (d.scanRest ctx rest).1, l.kind = .unstyled) ∧ d.endState ctx rest = ctx.state := by
  induction ctx, rest using d.scan_induction with
  | atEnd ctx => simp [hheader]
  | token ctx rest hne ih =>
    have hin : ctx.inHeader = false := Context.inHeader_of_absent hheader
    obtain ⟨hkind, hnext⟩ := step_of_noteBody hnote hin hend
    have hafter : d.contextAfter ctx rest = { ctx with atStart := false } := by
      rw [contextAfter, hnext]
    rw [hafter] at ih
    obtain ⟨hkinds, hstate⟩ := ih hnote hheader fun h => Bool.noConfusion h
    rw [endState_of_ne_nil hne, scanRest_of_ne_nil d ctx hne, hafter]
    exact ⟨List.forall_mem_cons.2 ⟨hkind, hkinds⟩, hstate⟩

/-- **The end of a note is told from every other closer**, by its text: nothing else that
closes something is spelled like it, or goes on into the blanks behind it. -/
structure TellsNoteEnds (d : Dialect) : Prop where
  spelled : ∀ r ∈ d.rules, r.closedMode?.isSome →
    r.pattern.IsSpelled ∧ ∀ s ∈ r.pattern.spellings, s.getLast?.any isBlank = false
  keyword : ∀ r ∈ d.rules, r.effect = .exit .note → r.kind = .keyword ∧ r.standalone = false
  apart : ∀ r ∈ d.rules, r.effect = .exit .note → ∀ r' ∈ d.rules, r'.closedMode?.isSome →
    ∀ s ∈ r.pattern.spellings, s ∈ r'.pattern.spellings → r'.effect = .exit .note

theorem builtin_tellsNoteEnds : ∀ d ∈ builtin, d.TellsNoteEnds := by
  refine fun d hd => ⟨?_, ?_, ?_⟩ <;> revert d <;> decide +kernel

/-- Squeezing the gaps of a text does not change whether it ends in a blank. -/
@[simp] theorem any_getLast?_squeeze (text : List Char) :
    (squeeze text).getLast?.any isBlank = text.getLast?.any isBlank := by
  rw [getLast?_squeeze]
  cases text.getLast? with
  | none => rfl
  | some c =>
    rw [Option.map_some, Option.any_some, Option.any_some]
    split
    · next hc => rw [isBlank_of_isGap hc]; rfl
    · rfl

section

variable {word trail line : List Char} {r : Rule}

/-- **The closer of the note wins** where it matches and nothing but blanks follow. -/
theorem closer?_of_noteEnd (hd : d.TellsNoteEnds) (hr : r ∈ d.rules)
    (heffect : r.effect = .exit .note)
    (hn : r.pattern.properLength? (word ++ trail) = some word.length) (htrail : Blank trail) :
    d.closer? (word ++ trail) = some ⟨.keyword, .note, word.length⟩ := by
  have hclosed : r.closedMode?.isSome :=
    Option.isSome_of_eq_some (Rule.closedMode?_eq_some_iff.2 heffect)
  obtain ⟨hkind, hstandalone⟩ := hd.keyword r hr heffect
  have hown : d.closerOf? (word ++ trail) r = some ⟨.keyword, .note, word.length⟩ := by
    rw [closerOf?, Rule.closedMode?_eq_some_iff.2 heffect, hn]
    dsimp only
    rw [hstandalone, Bool.false_and, if_neg Bool.false_ne_true, hkind]
  obtain ⟨c, hc, hle⟩ := Closer.exists_longest? (List.mem_filterMap.2 ⟨r, hr, hown⟩)
  obtain ⟨r', hr', heffect', hkind', hn', -⟩ := closer?_spec hc
  have hclosed' : r'.closedMode?.isSome :=
    Option.isSome_of_eq_some (Rule.closedMode?_eq_some_iff.2 heffect')
  obtain ⟨hspelled', hends'⟩ := hd.spelled r' hr' hclosed'
  have hmem' := Pattern.squeeze_take_mem_spellings hspelled' (Option.filter_eq_some_iff.1 hn').1
  -- the match that wins does not reach into the blanks
  have hlength : c.length = word.length := by
    refine Nat.le_antisymm (Nat.le_of_not_lt fun hlt => ?_) hle
    have hend := hends' _ hmem'
    have hbounds := (Pattern.properLength?_bounds hn').2
    rw [List.length_append] at hbounds
    have hne : trail.take (c.length - word.length) ≠ [] := by
      rw [Ne, List.take_eq_nil_iff]
      rintro (h | rfl)
      · omega
      · simp only [List.length_nil] at hbounds
        omega
    rw [any_getLast?_squeeze, List.take_append, List.take_of_length_le (Nat.le_of_lt hlt),
      List.getLast?_append_of_ne_nil _ hne, List.getLast?_eq_some_getLast hne, Option.any_some,
      htrail _ (List.mem_of_mem_take (List.getLast_mem hne))] at hend
    cases hend
  -- so it is spelled like the end of the note
  have hmem := Pattern.squeeze_take_mem_spellings (hd.spelled r hr hclosed).1
    (Option.filter_eq_some_iff.1 hn).1
  rw [hlength] at hmem'
  have hnote := hd.apart r hr heffect r' hr' hclosed' _ hmem hmem'
  have hmode : c.mode = .note := by
    rw [heffect'] at hnote
    exact Effect.exit.inj hnote
  have hckind : c.kind = .keyword := hkind' ▸ (hd.keyword r' hr' hnote).1
  show Closer.longest? _ = _
  rw [hc]
  obtain ⟨kind, mode, length⟩ := c
  cases hlength
  cases hmode
  cases hckind
  rfl

/-- A line with the end of the note and nothing but blanks behind it. -/
theorem entry_of_noteEnd (hd : d.TellsNoteEnds) (hr : r ∈ d.rules)
    (heffect : r.effect = .exit .note) (hline : line.dropWhile isBlank = word ++ trail)
    (hn : r.pattern.properLength? (word ++ trail) = some word.length) (htrail : Blank trail)
    (below : List Mode) :
    (d.scanLine ⟨.note :: below⟩ line).entry
      = ⟨closingTokens .keyword line word trail, ⟨below⟩⟩ := by
  have hne : word ≠ [] := List.length_pos_iff.1 (Pattern.properLength?_bounds hn).1
  have hflush : (word ++ trail).head?.any isBlank = false := hline ▸ any_head?_dropWhile line
  refine entry_of_step hne hline htrail ?_
  rw [step_of_note rfl hflush rfl]
  show d.bodyStep { state := ⟨.note :: below⟩ } (word ++ trail) = _
  rw [bodyStep, if_pos rfl, closer?_of_noteEnd hd hr heffect hn htrail]
  rfl

/-- **Lines that do not end the note** are plain text, and change nothing. -/
theorem entriesFrom_of_noteBody (d : Dialect) (below : List Mode) {lines : List (List Char)}
    (hlines : ∀ line ∈ lines, ¬ d.NoteEndsAt (line.dropWhile isBlank)) :
    (∀ e ∈ d.entriesFrom ⟨.note :: below⟩ lines,
        e.stateAfter = ⟨.note :: below⟩ ∧ ∀ t ∈ e.tokens, t.kind = .unstyled)
      ∧ d.stateAfter ⟨.note :: below⟩ lines = ⟨.note :: below⟩ := by
  induction lines with
  | nil => exact ⟨List.forall_mem_nil _, rfl⟩
  | cons line rest ih =>
    obtain ⟨hline, hrest⟩ := List.forall_mem_cons.1 hlines
    obtain ⟨hkinds, hend⟩ := scanRest_of_noteBody d { state := ⟨.note :: below⟩ }
      (line.dropWhile isBlank) rfl rfl fun _ => hline
    have hstate : (d.scanLine ⟨.note :: below⟩ line).stateAfter = ⟨.note :: below⟩ := hend
    obtain ⟨hentries, hafter⟩ := ih hrest
    rw [entriesFrom_cons, stateAfter_cons, hstate]
    refine ⟨List.forall_mem_cons.2 ⟨⟨hstate, fun t ht => ?_⟩, hentries⟩, hafter⟩
    have hkind := List.mem_map_of_mem (f := Token.kind) ht
    rw [ScannedLine.entry, ScannedLine.tokens, map_kind_layout] at hkind
    obtain ⟨l, hl, hlt⟩ := List.mem_map.1 hkind
    exact hlt.symm.trans (hkinds l hl)

end

/-! ## The built-in dialects -/

@[simp] theorem ofFrames_concat (frames : List Mode) (m : Mode) :
    ScanState.ofFrames (frames ++ [m]) = ⟨m :: frames.reverse⟩ :=
  congrArg ScanState.mk (List.reverse_concat ..)

/-- **The inside of a comment, a string or a note is inert**, whatever is open around it
and however many lines it has. A line without the closing marker is one token of the
comment or the string, and no token at all if it is blank; a line in a note that does not
start with its end is plain text; and none of them changes what is open. The line with
the end, if only blanks follow it there, is one token up to there, and leaves just what is
open around. -/
theorem interiors_are_inert :
    ∀ d ∈ builtin, ∀ frames : List Mode,
      (∀ (m : Mode) (kind : Kind) (marker : List Char), d.Literal m kind marker →
        ∀ lines : List (List Char), (∀ line ∈ lines, ¬ marker <:+: line) →
        d.entriesFrom (.ofFrames (frames ++ [m])) lines
            = lines.map (fun line => ⟨interiorTokens kind line, .ofFrames (frames ++ [m])⟩)
        ∧ ∀ line text trail : List Char, line.dropWhile isBlank = text ++ (marker ++ trail) →
          ¬ marker <:+: text → Blank trail →
          (d.scanLine (d.stateAfter (.ofFrames (frames ++ [m])) lines) line).entry
            = ⟨closingTokens kind line (text ++ marker) trail, .ofFrames frames⟩)
      ∧ ∀ lines : List (List Char), (∀ line ∈ lines, ¬ d.NoteEndsAt (line.dropWhile isBlank)) →
        (∀ e ∈ d.entriesFrom (.ofFrames (frames ++ [.note])) lines,
          e.stateAfter = .ofFrames (frames ++ [.note]) ∧ ∀ t ∈ e.tokens, t.kind = .unstyled)
        ∧ ∀ line word trail : List Char, ∀ r ∈ d.rules, r.effect = .exit .note →
          line.dropWhile isBlank = word ++ trail →
          r.pattern.properLength? (word ++ trail) = some word.length → Blank trail →
          (d.scanLine (d.stateAfter (.ofFrames (frames ++ [.note])) lines) line).entry
            = ⟨closingTokens .keyword line word trail, .ofFrames frames⟩ := by
  refine fun d hd frames => ⟨fun m kind marker h lines hlines => ?_, fun lines hlines => ?_⟩
  · have hmarker := h.selfApart (builtin_selfApart d hd)
    obtain ⟨hentries, hafter⟩ := entriesFrom_of_literal h hmarker.ne_nil frames.reverse hlines
    rw [ofFrames_concat, hafter]
    exact ⟨hentries, fun line text trail hline htext htrail =>
      entry_of_literal_closed h hmarker hline htext htrail frames.reverse⟩
  · obtain ⟨hentries, hafter⟩ := entriesFrom_of_noteBody d frames.reverse hlines
    rw [ofFrames_concat, hafter]
    exact ⟨hentries, fun line word trail r hr heffect hline hn htrail =>
      entry_of_noteEnd (builtin_tellsNoteEnds d hd) hr heffect hline hn htrail frames.reverse⟩

/-- A comment, a string and a note in a group, with a line each that would open or close
something outside, a blank line, and the line with the end. -/
theorem interiors_are_inert_of_group :
    sequence ∈ builtin
    ∧ (∀ line ∈ ["alt \"x".toList, "  ".toList], ¬ sequence.blockClose <:+: line)
    ∧ sequence.entriesFrom (.ofFrames [.group, .blockComment]) ["alt \"x".toList, "  ".toList]
      = [⟨[⟨.comment, ⟨0, 6⟩⟩], .ofFrames [.group, .blockComment]⟩,
        ⟨[], .ofFrames [.group, .blockComment]⟩]
    ∧ (sequence.scanLine (sequence.stateAfter (.ofFrames [.group, .blockComment])
        ["alt \"x".toList, "  ".toList]) " end '/ ".toList).entry
      = ⟨[⟨.comment, ⟨1, 7⟩⟩, ⟨.unstyled, ⟨7, 8⟩⟩], .ofFrames [.group]⟩
    ∧ (∀ line ∈ ["  end".toList], ¬ [sequence.quote] <:+: line)
    ∧ (sequence.scanLine (sequence.stateAfter (.ofFrames [.group, .string]) ["  end".toList])
        "/'\"".toList).entry
      = ⟨[⟨.string, ⟨0, 3⟩⟩], .ofFrames [.group]⟩
    ∧ (∀ line ∈ [" end box".toList], ¬ sequence.NoteEndsAt (line.dropWhile isBlank))
    ∧ (∀ e ∈ sequence.entriesFrom (.ofFrames [.group, .note]) [" end box".toList],
      e.stateAfter = .ofFrames [.group, .note] ∧ ∀ t ∈ e.tokens, t.kind = .unstyled)
    ∧ (sequence.scanLine (sequence.stateAfter (.ofFrames [.group, .note]) [" end box".toList])
        " end  note ".toList).entry
      = ⟨[⟨.keyword, ⟨1, 10⟩⟩, ⟨.unstyled, ⟨10, 11⟩⟩], .ofFrames [.group]⟩ := by
  have hmem : sequence ∈ builtin := List.mem_cons_self
  have hcomment : ∀ line ∈ ["alt \"x".toList, "  ".toList], ¬ sequence.blockClose <:+: line := by
    decide +kernel
  have hstring : ∀ line ∈ ["  end".toList], ¬ [sequence.quote] <:+: line := by decide +kernel
  have hnote : ∀ line ∈ [" end box".toList],
      ¬ sequence.NoteEndsAt (line.dropWhile isBlank) := by decide +kernel
  obtain ⟨hcomments, hclosed⟩ :=
    (interiors_are_inert sequence hmem [.group]).1 _ _ _ .comment _ hcomment
  obtain ⟨-, hquoted⟩ := (interiors_are_inert sequence hmem [.group]).1 _ _ _ .string _ hstring
  obtain ⟨htexts, hended⟩ := (interiors_are_inert sequence hmem [.group]).2 _ hnote
  obtain ⟨r, hr, heffect, hn⟩ : ∃ r ∈ sequence.rules, r.effect = .exit .note
      ∧ r.pattern.properLength? "end  note ".toList = some 9 := by decide +kernel
  refine ⟨hmem, hcomment, hcomments.trans (by decide +kernel), ?_, hstring, ?_, hnote, htexts, ?_⟩
  · exact (hclosed _ "end ".toList " ".toList (by decide +kernel) (by decide +kernel)
      (by decide +kernel)).trans (by decide +kernel)
  · exact (hquoted _ "/'".toList [] (by decide +kernel) (by decide +kernel)
      (by decide +kernel)).trans (by decide +kernel)
  · exact (hended _ "end  note".toList " ".toList r hr heffect (by decide +kernel) hn
      (by decide +kernel)).trans (by decide +kernel)

end Dialect

end UmlMarkup
