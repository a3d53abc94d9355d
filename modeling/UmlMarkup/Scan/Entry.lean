import UmlMarkup.Scan.Cursor
import UmlMarkup.Scan.Line

/-!
# Scanning with a cursor

This is the scanner that a document runs. A cursor is moved over the line, and each token is
noted with the columns between which the cursor moved. What comes next is decided as
`Dialect.step` decides it; what differs is how a token is told. A step gives its length in
characters. Here the table is asked for the lengths of its matches in bytes, markers are searched
for by bytes, blanks, colors and words are passed character by character, and no length is ever
computed.

So each part of the scanner has one equation, named after it, which says that it reads the token
of a step: it skips as many characters as the step has, takes over the context behind it, and
notes a token of that width (`Cursor.read`). Together these make `Cursor.scanToken_eq`. Since
every step fits into what is left of the line, the cursor gets to its end, and the entry that it
makes of the line is the one laid out from the pieces of the line (`Dialect.scanEntry_eq`).
-/

namespace UmlMarkup

namespace Cursor

/-- The cursor behind the token of a step. -/
def read (s : Step) (c : Cursor) : Cursor :=
  ((c.skip s.length).withContext s.next).emit s.kind c.column

@[simp] theorem line_read (s : Step) (c : Cursor) : (c.read s).line = c.line := rfl

@[simp] theorem rest_read (s : Step) (c : Cursor) : (c.read s).rest = c.rest.drop s.length :=
  c.rest_skip s.length

section

variable {s : Step} {c : Cursor}

/-- The cursor moves on by the length of the step. -/
@[simp] theorem column_read (h : Fits s.length c.rest) : (c.read s).column = c.column + s.length :=
  congrArg (c.column + ·) (Nat.min_eq_left h.2)

/-- Exactly one token is noted. -/
@[simp] theorem tokens_read (h : Fits s.length c.rest) :
    (c.read s).tokens = c.tokens ++ [⟨s.kind, c.column, c.column + s.length⟩] := by
  have hcolumn : c.column < (c.read s).column := by
    rw [column_read h]
    exact Nat.lt_add_of_pos_right h.1
  rw [← column_read h]
  exact if_pos hcolumn

@[simp] theorem context_read (h : Fits s.length c.rest) :
    (c.read s).context = { s.next with atStart := false } := by
  have hsome : (c.read s).tokens.isEmpty = false := by simp [tokens_read h]
  exact congrArg (Context.mk s.next.state s.next.header s.next.freeText) hsome

end

/-! ## Plain text and blanks -/

/-- Everything up to the end of the line as one token. -/
def scanToEnd (kind : Kind) (c : Cursor) : Cursor := c.advanceToEnd.emit kind c.column

/-- A run of blanks. -/
def scanBlanks (c : Cursor) : Cursor := (c.advanceWhile isBlank).emit .unstyled c.column

@[simp] theorem scanToEnd_eq (kind : Kind) (c : Cursor) :
    c.scanToEnd kind = c.read ⟨kind, c.rest.length, c.context⟩ := by
  rw [scanToEnd, advanceToEnd_eq]
  rfl

@[simp] theorem scanBlanks_eq (c : Cursor) :
    c.scanBlanks = c.read (Dialect.blankStep c.context c.rest) := by
  rw [scanBlanks, advanceWhile_eq]
  rfl

/-! ## Comments and strings -/

/-- Goes on with a comment or a string that was open before. -/
def continueLiteral (m : Mode) (kind : Kind) (closer : List Char) (c : Cursor) : Cursor :=
  match c.advancePast? closer with
  | some closed => (closed.change (·.exit m)).emit kind c.column
  | none => c.scanToEnd kind

/-- A comment or a string that is still open at the end of the line. -/
def scanUnclosed (m : Mode) (kind : Kind) (c : Cursor) : Cursor :=
  (c.advanceToEnd.change fun ctx => ctx.settle.enter m).emit kind c.column

/-- A block comment that starts here. -/
def openBlockComment (d : Dialect) (c : Cursor) : Cursor :=
  match (c.advanceBy (byteLength d.blockOpen)).advancePast? d.blockClose with
  | some closed => closed.emit .comment c.column
  | none => c.scanUnclosed .blockComment .comment

/-- A string that starts here. -/
def openString (d : Dialect) (c : Cursor) : Cursor :=
  match c.advance.advancePast? [d.quote] with
  | some closed => (closed.change Context.markQuoted).emit .string c.column
  | none => c.scanUnclosed .string .string

/-- The colon of a note header. -/
def closeNoteHeader (c : Cursor) : Cursor :=
  (c.advance.emit .operator c.column).change Context.endHeader

@[simp] theorem continueLiteral_eq (m : Mode) (kind : Kind) (closer : List Char) (c : Cursor) :
    c.continueLiteral m kind closer
      = c.read (Dialect.continueStep c.context c.rest m kind closer) := by
  rw [continueLiteral, advancePast?_eq, Dialect.continueStep]
  cases past? closer c.rest with
  | none => exact c.scanToEnd_eq kind
  | some n => rfl

@[simp] theorem scanUnclosed_eq (m : Mode) (kind : Kind) (c : Cursor) :
    c.scanUnclosed m kind = c.read (Dialect.unclosedStep c.context c.rest m kind) := by
  rw [scanUnclosed, advanceToEnd_eq]
  rfl

theorem openBlockComment_eq {d : Dialect} {c : Cursor} (h : standsAt d.blockOpen c.rest = true) :
    c.openBlockComment d = c.read (d.commentStep c.context c.rest) := by
  obtain ⟨rest, hrest⟩ := List.isPrefixOf_iff_prefix.1 (Bool.and_eq_true_iff.1 h).2
  have hopen : c.advanceBy (byteLength d.blockOpen) = c.skip d.blockOpen.length := by
    simp [← hrest, advanceBy]
  rw [openBlockComment, hopen, advancePast?_eq, rest_skip, Dialect.commentStep]
  cases past? d.blockClose (c.rest.drop d.blockOpen.length) with
  | none => exact c.scanUnclosed_eq _ _
  | some n =>
    dsimp only [Option.map_some]
    rw [skip_skip]
    rfl

@[simp] theorem openString_eq (d : Dialect) (c : Cursor) :
    c.openString d = c.read (d.stringStep c.context c.rest) := by
  rw [openString, advance, advancePast?_eq, rest_skip, Dialect.stringStep]
  cases past? [d.quote] (c.rest.drop 1) with
  | none => exact c.scanUnclosed_eq _ _
  | some n =>
    dsimp only [Option.map_some]
    rw [skip_skip]
    rfl

@[simp] theorem closeNoteHeader_eq (c : Cursor) :
    c.closeNoteHeader = c.read ⟨.operator, 1, c.context.endHeader⟩ :=
  change_emit (fun _ _ => rfl) .operator c.column c.advance

/-! ## Closers -/

/-- The closing keyword that stands here, if there is one. -/
def scanClose? (d : Dialect) (c : Cursor) : Option Cursor :=
  (d.closerBytes? c.rest).map fun k =>
    let moved := c.advanceBy k.length
    match moved.state.close? k.mode with
    | some s =>
      (moved.change fun ctx =>
        { ctx with state := s, header := if k.mode = .note then .absent else ctx.header }).emit
          k.kind c.column
    | none => moved.emit .unstyled c.column

@[simp] theorem scanClose?_eq (d : Dialect) (c : Cursor) :
    c.scanClose? d
      = (d.closer? c.rest).map fun k => c.read (Dialect.closerStep c.context k) := by
  rw [scanClose?, Dialect.closerBytes?_eq, Option.map_map]
  cases hk : d.closer? c.rest with
  | none => rfl
  | some k =>
    have hmoved : c.advanceBy (k.resize (bytesTo c.rest)).length = c.skip k.length :=
      advanceBy_bytesTo (Dialect.closer?_bounds hk).2
    simp only [Option.map_some, Function.comp_apply, hmoved, Dialect.closerStep]
    show some (match c.state.close? k.mode with | some s => _ | none => _) = some (c.read
      (match c.state.close? k.mode with | some s => _ | none => _))
    cases c.state.close? k.mode <;> rfl

/-! ## Colors -/

/-- Whether the character at the cursor continues a color literal. At the end of the line none
does, since NUL is no letter. -/
def continuesColor (c : Cursor) : Bool :=
  c.peek.isAlphanum || ['/', '\\', '|', '-'].contains c.peek && c.peekNext.isAlphanum

/-- One turn of reading a color literal, or none if no color is innermost. -/
def colorTurn? (c : Cursor) : Option Cursor :=
  if c.state.mode = .color then
    some (if c.continuesColor then c.advance else c.withState (c.state.exit .color))
  else none

@[simp] theorem continuesColor_nil {c : Cursor} (h : c.rest = []) : c.continuesColor = false := by
  rw [continuesColor, peek, peekNext, h]
  rfl

theorem continuesColor_cons {c : Cursor} {x : Char} {rest : List Char} (h : c.rest = x :: rest) :
    c.continuesColor = UmlMarkup.continuesColor x rest := by
  rw [continuesColor, peek, peekNext, h]
  cases rest <;> rfl

/-- The cursor behind what was read of a color, given by the state there and by what is left. -/
def behind (c : Cursor) (p : ScanState × List Char) : Cursor :=
  (c.skip (c.rest.length - p.2.length)).withState p.1

@[simp] theorem rest_behind {c : Cursor} {p : ScanState × List Char} (h : p.2 <:+ c.rest) :
    (c.behind p).rest = p.2 :=
  (c.rest_skip _).trans (List.suffix_iff_eq_drop.1 h).symm

@[simp] theorem behind_behind {c : Cursor} {p q : ScanState × List Char} (hp : p.2 <:+ c.rest)
    (hq : q.2 <:+ p.2) : (c.behind p).behind q = c.behind q := by
  have hsum : c.rest.length - p.2.length + (p.2.length - q.2.length)
      = c.rest.length - q.2.length := by
    have := hp.length_le
    have := hq.length_le
    omega
  rw [behind, rest_behind hp]
  show ((c.skip _).skip _).withState q.1 = _
  simp [hsum, behind]

@[simp] theorem behind_nothing (s : ScanState) (c : Cursor) :
    c.behind (s, c.rest) = c.withState s := by
  simp [behind]

theorem behind_character {x : Char} {rest : List Char} {c : Cursor} (h : c.rest = x :: rest) :
    c.behind (c.state, rest) = c.advance := by
  rw [behind, h, List.length_cons, Nat.add_sub_cancel_left]
  rfl

@[simp] theorem colorTurn?_eq (c : Cursor) :
    c.colorTurn? = (UmlMarkup.colorTurn? c.state c.rest).map c.behind := by
  rw [colorTurn?, UmlMarkup.colorTurn?]
  split
  · next hmode =>
    obtain ⟨outer, houter⟩ := ScanState.exists_close?_of_mode hmode Mode.noConfusion
    rw [houter, ScanState.exit_of_close? houter, Option.map_some, Option.map_some]
    refine congrArg some ?_
    cases hrest : c.rest with
    | nil =>
      have hnothing := behind_nothing outer c
      rw [hrest] at hnothing
      rw [continuesColor_nil hrest]
      exact hnothing.symm
    | cons x rest =>
      dsimp only
      rw [continuesColor_cons hrest]
      split
      · exact (behind_character hrest).symm
      · simp [← hrest]
  · next hmode => rw [ScanState.close?_eq_none_of_mode hmode]; rfl

/-- Every turn moves on or closes a frame. -/
theorem colorTurn?_decreases {c next : Cursor} (h : c.colorTurn? = some next) :
    next.rest.length + next.state.stack.length < c.rest.length + c.state.stack.length := by
  rw [colorTurn?_eq] at h
  obtain ⟨turn, hturn, rfl⟩ := Option.map_eq_some_iff.1 h
  rw [rest_behind (suffix_colorTurn? hturn)]
  exact (UmlMarkup.colorTurn?_decreases hturn).2

/-- Goes on with a color literal to its end. -/
def readColor (c : Cursor) : Cursor :=
  match _h : c.colorTurn? with
  | none => c
  | some next => next.readColor
termination_by c.rest.length + c.state.stack.length
decreasing_by exact colorTurn?_decreases _h

@[simp] theorem readColor_eq (c : Cursor) :
    c.readColor = c.behind (UmlMarkup.readColor c.state c.rest) := by
  fun_induction readColor c with
  | case1 c h =>
    rw [colorTurn?_eq, Option.map_eq_none_iff] at h
    rw [readColor_of_none h, behind_nothing]
    rfl
  | case2 c next h ih =>
    rw [colorTurn?_eq] at h
    obtain ⟨turn, hturn, rfl⟩ := Option.map_eq_some_iff.1 h
    have hrest := suffix_colorTurn? hturn
    rw [rest_behind hrest] at ih
    rw [ih, readColor_of_turn hturn]
    exact behind_behind hrest (suffix_readColor turn.1 turn.2)

/-- A color literal from its `#` on. -/
def scanColor (c : Cursor) : Cursor := (c.withState (c.state.enter .color)).advance.readColor

theorem scanColor_eq {c : Cursor} (h : c.rest ≠ []) :
    c.scanColor
      = c.behind (UmlMarkup.readColor (c.state.enter .color) (c.rest.drop 1)) := by
  have hpos := List.length_pos_iff.2 h
  have hentered : (c.withState (c.state.enter .color)).advance
      = c.behind (c.state.enter .color, c.rest.drop 1) := by
    rw [behind, List.length_drop, Nat.sub_sub_self hpos]
    rfl
  have hrest : c.rest.drop 1 <:+ c.rest := List.drop_suffix 1 c.rest
  rw [scanColor, hentered, readColor_eq, rest_behind hrest]
  exact behind_behind hrest (suffix_readColor _ _)

/-! ## Rules and words -/

/-- Reads the token of a rule whose match has `n` bytes, and has the rule take effect. -/
def applyRule (r : Rule) (n : Nat) (c : Cursor) : Cursor :=
  let matched := if r.pattern = .color then c.scanColor else c.advanceBy n
  let reached :=
    match r.extent with
    | .exact => matched
    | .toBlank => matched.advanceWhile fun c => !isBlank c
    | .toEnd => matched.advanceToEnd
  let told := reached.emit r.kind c.column
  let entered :=
    match r.effect with
    | .enter m => told.change (·.enter m)
    | _ => told
  entered.change fun ctx => { ctx with freeText := ctx.freeText || r.freeText }

/-- The first rule of the table that applies here, if there is one. -/
def scanRule? (d : Dialect) (c : Cursor) : Option Cursor :=
  (d.ruleBytes? c.context c.rest).map fun (r, n) => c.applyRule r n

/-- Whether a word ends before the character at the cursor. -/
def atWordBreak (d : Dialect) (c : Cursor) : Bool :=
  c.context.inHeader && c.peek == ':' || d.breaksWord c.rest

/-- A word of plain text. -/
def scanWord (d : Dialect) (c : Cursor) : Cursor :=
  (c.advance.moveWhile fun c => !isBlank c.peek && !c.atWordBreak d).emit .unstyled c.column

section

variable {r : Rule} {n : Nat} {c : Cursor}

/-- The match of a rule, a color literal read to its end. -/
theorem matched_eq (h : Fits n c.rest) :
    (if r.pattern = .color then c.scanColor else c.advanceBy (bytesTo c.rest n))
      = (c.skip (Dialect.readMatch c.context c.rest r n).2).withState
        (Dialect.readMatch c.context c.rest r n).1 := by
  unfold Dialect.readMatch
  split
  · rw [scanColor_eq (List.length_pos_iff.1 (Nat.lt_of_lt_of_le h.1 h.2))]
    rfl
  · rw [advanceBy_bytesTo h.2]
    rfl

/-- How far the token of a rule goes on behind its match. -/
theorem reached_eq {extent : Extent} {s : ScanState} (h : n ≤ c.rest.length) :
    (match extent with
      | .exact => (c.skip n).withState s
      | .toBlank => ((c.skip n).withState s).advanceWhile fun c => !isBlank c
      | .toEnd => ((c.skip n).withState s).advanceToEnd)
      = (c.skip (Dialect.reach extent n c.rest)).withState s := by
  have hrest : ((c.skip n).withState s).rest = c.rest.drop n := c.rest_skip n
  cases extent with
  | exact => rfl
  | toBlank =>
    dsimp only
    rw [advanceWhile_eq, hrest]
    exact congrArg (withState s) (skip_skip n _ c)
  | toEnd =>
    dsimp only
    rw [advanceToEnd_eq, hrest, List.length_drop]
    show ((c.skip n).skip _).withState s = _
    rw [skip_skip, Nat.add_sub_cancel' h]
    rfl

theorem applyRule_eq (h : Fits n c.rest) :
    c.applyRule r (bytesTo c.rest n) = c.read (Dialect.ruleStep c.context c.rest r n) := by
  have hle : (Dialect.readMatch c.context c.rest r n).2 ≤ c.rest.length :=
    (Dialect.readMatch_fits h).2
  rw [applyRule, matched_eq h, reached_eq hle]
  -- the effect of the rule does not look at the token
  unfold Dialect.ruleStep
  cases r.effect with
  | enter m =>
    dsimp only
    rw [change_emit fun _ _ => rfl, change_emit fun _ _ => rfl]
    rfl
  | none =>
    dsimp only
    rw [change_emit fun _ _ => rfl]
    rfl
  | exit m =>
    dsimp only
    rw [change_emit fun _ _ => rfl]
    rfl

end

@[simp] theorem scanRule?_eq (d : Dialect) (c : Cursor) :
    c.scanRule? d
      = (d.rule? c.context c.rest).map fun p =>
        c.read (Dialect.ruleStep c.context c.rest p.1 p.2) := by
  rw [scanRule?, Dialect.ruleBytes?_eq, Option.map_map]
  cases hr : d.rule? c.context c.rest with
  | none => rfl
  | some p => exact congrArg some (applyRule_eq (Dialect.rule?_bounds hr))

@[simp] theorem scanWord_eq (d : Dialect) (c : Cursor) :
    c.scanWord d = c.read (d.wordStep c.context c.rest) := by
  have htail : c.advance.moveWhile (fun c => !isBlank c.peek && !c.atWordBreak d)
      = c.advance.skip (d.wordTail c.context.inHeader c.advance.rest) := by
    refine moveWhile_eq _ c.advance rfl fun n x rest h => ?_
    rw [atWordBreak, peek, h, List.headD_cons, Dialect.wordTail, context_skip, ← Bool.not_or,
      ← Bool.or_assoc]
    show _ = if (!(_ || c.context.inHeader && _ || _)) = true then _ else _
    cases isBlank x || c.context.inHeader && x == ':' || d.breaksWord (x :: rest) <;> rfl
  rw [scanWord, htail, advance, skip_skip, rest_skip]
  rfl

/-! ## The order of the choices -/

/-- The token where no comment, string or note body is open. -/
def scanFresh (d : Dialect) (c : Cursor) : Cursor :=
  if standsAt d.lineComment c.rest then c.scanToEnd .comment
  else if standsAt d.blockOpen c.rest then c.openBlockComment d
  else if c.peek = d.quote then c.openString d
  else if c.context.inHeader && c.peek == ':' then c.closeNoteHeader
  else (c.scanClose? d <|> c.scanRule? d).getD (c.scanWord d)

/-- The token in the body of a note. Only a closer at the start of the line means anything. -/
def scanBody (d : Dialect) (c : Cursor) : Cursor :=
  (if c.tokens.isEmpty then c.scanClose? d else none).getD (c.scanToEnd .unstyled)

/-- **Scans the next token** of the line. -/
def scanToken (d : Dialect) (c : Cursor) : Cursor :=
  if c.freeText then c.scanToEnd .unstyled
  else if isBlank c.peek then c.scanBlanks
  else
    match c.state.mode with
    | .blockComment => c.continueLiteral .blockComment .comment d.blockClose
    | .string => c.continueLiteral .string .string [d.quote]
    | .note => if c.context.inHeader then c.scanFresh d else c.scanBody d
    | _ => c.scanFresh d

theorem scanFresh_eq {d : Dialect} {c : Cursor} (h : c.rest ≠ []) :
    c.scanFresh d = c.read (d.freshStep c.context c.rest) := by
  obtain ⟨x, rest, hrest⟩ := List.exists_cons_of_ne_nil h
  have hpeek : c.peek = x := by rw [peek, hrest, List.headD_cons]
  have hhead : c.rest.head? = some x := by rw [hrest, List.head?_cons]
  rw [scanFresh, Dialect.freshStep, hpeek, hhead]
  split
  · exact c.scanToEnd_eq .comment
  · split
    · next hopen => exact openBlockComment_eq hopen
    · split
      · next hquote => rw [if_pos (congrArg some hquote), openString_eq]
      · next hquote =>
        rw [if_neg fun heq => hquote (Option.some.inj heq), Option.some_beq_some]
        split
        · exact c.closeNoteHeader_eq
        · rw [scanClose?_eq, scanRule?_eq, scanWord_eq]
          cases d.closer? c.rest with
          | some k => rfl
          | none => cases d.rule? c.context c.rest <;> rfl

@[simp] theorem scanBody_eq (d : Dialect) (c : Cursor) :
    c.scanBody d = c.read (d.bodyStep c.context c.rest) := by
  rw [scanBody, Dialect.bodyStep, scanClose?_eq, scanToEnd_eq, atStart_context]
  cases c.tokens.isEmpty with
  | true => cases d.closer? c.rest <;> rfl
  | false => rfl

/-- **The cursor reads what the step says.** -/
theorem scanToken_eq {d : Dialect} {c : Cursor} (h : c.rest ≠ []) :
    c.scanToken d = c.read (d.step c.context c.rest) := by
  obtain ⟨x, rest, hrest⟩ := List.exists_cons_of_ne_nil h
  have hblank : c.rest.head?.any isBlank = isBlank c.peek := by
    rw [peek, hrest]
    rfl
  rw [scanToken, Dialect.step, hblank, freeText_context, state_context]
  split
  · exact c.scanToEnd_eq .unstyled
  · split
    · exact c.scanBlanks_eq
    · cases c.state.mode with
      | blockComment => exact c.continueLiteral_eq _ _ _
      | string => exact c.continueLiteral_eq _ _ _
      | note =>
        dsimp only
        split
        · exact scanFresh_eq h
        · exact scanBody_eq d c
      | _ => exact scanFresh_eq h

/-! ## The loop of a line -/

/-- Before the end of the line a token is read. -/
theorem step_fits_rest (d : Dialect) {c : Cursor} (h : c.atEnd = false) :
    Fits (d.step c.context c.rest).length c.rest :=
  Dialect.step_fits (atEnd_eq_false_iff.1 h)

theorem length_rest_scanToken (d : Dialect) {c : Cursor} (h : c.atEnd = false) :
    (c.scanToken d).rest.length < c.rest.length := by
  have hfits := step_fits_rest d h
  rw [scanToken_eq (atEnd_eq_false_iff.1 h), rest_read, List.length_drop]
  exact Nat.sub_lt (Nat.lt_of_lt_of_le hfits.1 hfits.2) hfits.1

/-- Scans the rest of the line, token by token. -/
def run (d : Dialect) (c : Cursor) : Cursor :=
  if _h : c.atEnd = false then (c.scanToken d).run d else c
termination_by c.rest.length
decreasing_by exact length_rest_scanToken d _h

/-- **The run of the cursor** notes the tokens that are laid out from the lexemes of the rest of
the line, and ends in the context that they end in. -/
theorem run_spec (d : Dialect) (c : Cursor) :
    (c.run d).tokens = c.tokens ++ layout c.column (d.scanRest c.context c.rest).1
      ∧ (c.run d).context = (d.scanRest c.context c.rest).2 := by
  fun_induction run d c with
  | case1 c h ih =>
    have hne := atEnd_eq_false_iff.1 h
    have hfits := step_fits_rest d h
    rw [scanToken_eq hne, tokens_read hfits, column_read hfits, context_read hfits,
      rest_read] at ih
    rw [scanToken_eq hne, Dialect.scanRest, dif_neg hne, ih.1, ih.2]
    refine ⟨?_, rfl⟩
    simp [List.length_take_of_le hfits.2]
  | case2 c h =>
    have hnil : c.rest = [] := by simpa using h
    simp [hnil]

/-- Behind the indentation the line is left without it. -/
@[simp] theorem rest_indent (state : ScanState) (line : List Char) :
    ((start state line).advanceWhile isBlank).rest = line.dropWhile isBlank := by
  have hstart : (start state line).rest = line := rest_eq _
  rw [advanceWhile_eq, rest_skip, hstart]
  conv => lhs; arg 2; rw [← List.takeWhile_append_dropWhile (p := isBlank) (l := line)]
  exact List.drop_left

@[simp] theorem column_indent (state : ScanState) (line : List Char) :
    ((start state line).advanceWhile isBlank).column = (line.takeWhile isBlank).length := by
  have hstart : (start state line).rest = line := rest_eq _
  rw [advanceWhile_eq, column_skip, hstart,
    Nat.min_eq_left (List.takeWhile_sublist isBlank).length_le]
  exact Nat.zero_add _

end Cursor

namespace Dialect

/-- **The scan of a line** that starts in the given state, as a document keeps it. -/
def scanEntry (d : Dialect) (state : ScanState) (line : List Char) : Entry :=
  let last := ((Cursor.start state line).advanceWhile isBlank).run d
  ⟨last.tokens, last.context.settle.state⟩

/-- **The entry of a line** is laid out from its pieces. -/
theorem scanEntry_eq (d : Dialect) (state : ScanState) (line : List Char) :
    d.scanEntry state line = (d.scanLine state line).entry := by
  obtain ⟨htokens, hcontext⟩ := ((Cursor.start state line).advanceWhile isBlank).run_spec d
  have hstart : ((Cursor.start state line).advanceWhile isBlank).context = { state := state } := by
    rw [Cursor.advanceWhile_eq]
    rfl
  rw [Cursor.rest_indent, hstart] at htokens hcontext
  rw [scanEntry, htokens, hcontext, Cursor.column_indent, Cursor.advanceWhile_eq]
  rfl

end Dialect

end UmlMarkup
