import UmlMarkup.Scan.Color
import UmlMarkup.Scan.Table

/-!
# One step of the scanner

The scanner works on what is left of the line. A **step** reads one token off
its start: the kind of the token, the number of its characters, and the context
after it. `Dialect.step` decides which in a fixed order.

1. In free text everything left is one plain token.
2. A run of blanks is a plain token of its own, whatever is open.
3. Inside a comment or a string everything up to the closing marker belongs to
   it, and inside the body of a note everything is plain text except a closer
   at the start of the line.
4. Everywhere else a comment or a string may begin, the colon of a note header
   may end it, a closer or another rule of the table may apply, and what is left
   then is a word of plain text.

The main statement is `Dialect.step_fits`: a step at a position before the end
of the line takes at least one character and never more than there are. It
holds for every dialect, because no part of a step trusts the dialect to take
anything: empty markers are never found, empty matches never count, and a word
has at least its first character.
-/

namespace UmlMarkup

/-- One token read off the start of the rest of a line. -/
structure Step where
  kind : Kind
  length : Nat
  /-- The context after the token. -/
  next : Context
  deriving DecidableEq, Repr

/-- The length of a step that makes progress: at least one character, and not
more than are left. -/
def Fits (n : Nat) (rest : List Char) : Prop := 0 < n ∧ n ≤ rest.length

namespace Dialect

/-- Everything that is left is plain text. -/
def plainStep (ctx : Context) (rest : List Char) : Step := ⟨.unstyled, rest.length, ctx⟩

/-- A run of blanks. -/
def blankStep (ctx : Context) (rest : List Char) : Step :=
  ⟨.unstyled, (rest.takeWhile isBlank).length, ctx⟩

/-! ## Comments and strings -/

/-- Goes on with a comment or a string that was open before: up to and including
its closing marker, or to the end of the line. -/
def continueStep (ctx : Context) (rest : List Char) (m : Mode) (kind : Kind)
    (closer : List Char) : Step :=
  match past? closer rest with
  | some n => ⟨kind, n, ctx.exit m⟩
  | none => ⟨kind, rest.length, ctx⟩

/-- The step of a comment or a string that starts here and is still open at the
end of the line. -/
def unclosedStep (ctx : Context) (rest : List Char) (m : Mode) (kind : Kind) : Step :=
  ⟨kind, rest.length, ctx.settle.enter m⟩

/-- A block comment that starts here. -/
def commentStep (d : Dialect) (ctx : Context) (rest : List Char) : Step :=
  match past? d.blockClose (rest.drop d.blockOpen.length) with
  | some n => ⟨.comment, d.blockOpen.length + n, ctx⟩
  | none => unclosedStep ctx rest .blockComment .comment

/-- A string that starts here. -/
def stringStep (d : Dialect) (ctx : Context) (rest : List Char) : Step :=
  match past? [d.quote] (rest.drop 1) with
  | some n => ⟨.string, 1 + n, ctx.markQuoted⟩
  | none => unclosedStep ctx rest .string .string

/-! ## Rules and words -/

/-- A closing keyword: it closes its construct if that is innermost, and is
plain text otherwise. -/
def closerStep (ctx : Context) (c : Closer) : Step :=
  match ctx.state.close? c.mode with
  | some s =>
    ⟨c.kind, c.length,
      { ctx with state := s, header := if c.mode = .note then .absent else ctx.header }⟩
  | none => ⟨.unstyled, c.length, ctx⟩

/-- The length of the token of a rule whose own match has `n` characters. -/
def reach (extent : Extent) (n : Nat) (rest : List Char) : Nat :=
  match extent with
  | .exact => n
  | .toBlank => n + ((rest.drop n).takeWhile fun c => !isBlank c).length
  | .toEnd => rest.length

/-- The state and the number of characters that the match of a rule comes to. A
color literal is read to its end. -/
def readMatch (ctx : Context) (rest : List Char) (r : Rule) (n : Nat) : ScanState × Nat :=
  if r.pattern = .color then
    let (s, left) := readColor (ctx.state.enter .color) (rest.drop 1)
    (s, rest.length - left.length)
  else (ctx.state, n)

/-- The token of a rule whose match has `n` characters, and the rule's effect. -/
def ruleStep (ctx : Context) (rest : List Char) (r : Rule) (n : Nat) : Step :=
  let (s, read) := readMatch ctx rest r n
  let after := { ctx with state := s, freeText := ctx.freeText || r.freeText }
  ⟨r.kind, reach r.extent read rest,
    match r.effect with
    | .enter m => after.enter m
    | _ => after⟩

/-- The number of characters, the first one apart, of the word that `rest` goes
on with. It ends at a blank, at a glyph that breaks words, and in a note header
at the colon. -/
def wordTail (d : Dialect) (inHeader : Bool) : List Char → Nat
  | [] => 0
  | c :: rest =>
    if isBlank c || (inHeader && c == ':') || d.breaksWord (c :: rest) then 0
    else wordTail d inHeader rest + 1

/-- A word of plain text. -/
def wordStep (d : Dialect) (ctx : Context) (rest : List Char) : Step :=
  ⟨.unstyled, 1 + d.wordTail ctx.inHeader (rest.drop 1), ctx⟩

/-! ## The order of the choices -/

/-- The step where no comment, string or note body is open. -/
def freshStep (d : Dialect) (ctx : Context) (rest : List Char) : Step :=
  -- The markers of the dialect come before its rules, whatever these say.
  if standsAt d.lineComment rest then ⟨.comment, rest.length, ctx⟩
  else if standsAt d.blockOpen rest then d.commentStep ctx rest
  else if rest.head? = some d.quote then d.stringStep ctx rest
  else if ctx.inHeader && rest.head? == some ':' then ⟨.operator, 1, ctx.endHeader⟩
  else
    -- A closer is recognized before any rule that opens something.
    match d.closer? rest with
    | some c => closerStep ctx c
    | none =>
      match d.rule? ctx rest with
      | some (r, n) => ruleStep ctx rest r n
      | none => d.wordStep ctx rest

/-- The step in the body of a note. -/
def bodyStep (d : Dialect) (ctx : Context) (rest : List Char) : Step :=
  match if ctx.atStart then d.closer? rest else none with
  | some c => closerStep ctx c
  | none => plainStep ctx rest

/-- The next token of the line, of which `rest` is left. -/
def step (d : Dialect) (ctx : Context) (rest : List Char) : Step :=
  if ctx.freeText then plainStep ctx rest
  else if rest.head?.any isBlank then blankStep ctx rest
  else
    match ctx.state.mode with
    | .blockComment => continueStep ctx rest .blockComment .comment d.blockClose
    | .string => continueStep ctx rest .string .string [d.quote]
    | .note => if ctx.inHeader then d.freshStep ctx rest else d.bodyStep ctx rest
    | _ => d.freshStep ctx rest

/-! ## Every step makes progress -/

theorem fits_length {rest : List Char} (h : rest ≠ []) : Fits rest.length rest :=
  ⟨List.length_pos_iff.2 h, Nat.le_refl _⟩

theorem continueStep_fits {ctx : Context} {rest : List Char} (h : rest ≠ []) (m : Mode)
    (kind : Kind) (closer : List Char) :
    Fits (continueStep ctx rest m kind closer).length rest := by
  unfold continueStep
  split
  · next n hn => exact past?_bounds hn
  · exact fits_length h

/-- Behind what opens a literal the search for its end stays within the text. -/
theorem fits_of_past? {marker rest : List Char} {k n : Nat}
    (h : past? marker (rest.drop k) = some n) : Fits (k + n) rest := by
  have hbounds := past?_bounds h
  rw [List.length_drop] at hbounds
  constructor <;> omega

theorem commentStep_fits {d : Dialect} {ctx : Context} {rest : List Char} (h : rest ≠ []) :
    Fits (d.commentStep ctx rest).length rest := by
  unfold commentStep
  split
  · next n hn => exact fits_of_past? hn
  · exact fits_length h

theorem stringStep_fits {d : Dialect} {ctx : Context} {rest : List Char} (h : rest ≠ []) :
    Fits (d.stringStep ctx rest).length rest := by
  unfold stringStep
  split
  · next n hn => exact fits_of_past? hn
  · exact fits_length h

@[simp] theorem closerStep_length (ctx : Context) (c : Closer) :
    (closerStep ctx c).length = c.length := by
  unfold closerStep
  split <;> rfl

@[simp] theorem closerStep_state (ctx : Context) (c : Closer) :
    (closerStep ctx c).next.state = ctx.state.exit c.mode := by
  unfold closerStep
  cases h : ctx.state.close? c.mode with
  | none => exact (ScanState.exit_of_close?_eq_none h).symm
  | some t => exact (ScanState.exit_of_close? h).symm

theorem reach_fits {extent : Extent} {n : Nat} {rest : List Char} (h : Fits n rest) :
    Fits (reach extent n rest) rest := by
  cases extent with
  | exact => exact h
  | toBlank =>
    have hw : ((rest.drop n).takeWhile fun c => !isBlank c).length ≤ (rest.drop n).length :=
      (List.takeWhile_sublist _).length_le
    simp only [List.length_drop] at hw
    have := h.1
    have := h.2
    constructor <;> simp only [reach] <;> omega
  | toEnd => exact ⟨Nat.lt_of_lt_of_le h.1 h.2, Nat.le_refl _⟩

theorem readMatch_fits {ctx : Context} {rest : List Char} {r : Rule} {n : Nat} (h : Fits n rest) :
    Fits (readMatch ctx rest r n).2 rest := by
  unfold readMatch
  split
  · have hc := length_readColor_le (ctx.state.enter .color) (rest.drop 1)
    simp only [List.length_drop] at hc
    have := h.1
    have := h.2
    constructor <;> dsimp only <;> omega
  · exact h

theorem wordTail_le (d : Dialect) (inHeader : Bool) (rest : List Char) :
    d.wordTail inHeader rest ≤ rest.length := by
  induction rest with
  | nil => exact Nat.le_refl 0
  | cons c rest ih =>
    simp only [wordTail, List.length_cons]
    split <;> omega

theorem wordStep_fits {d : Dialect} {ctx : Context} {rest : List Char} (h : rest ≠ []) :
    Fits (d.wordStep ctx rest).length rest := by
  have ht := d.wordTail_le ctx.inHeader (rest.drop 1)
  have hp := List.length_pos_iff.2 h
  simp only [List.length_drop] at ht
  constructor <;> simp only [wordStep] <;> omega

theorem freshStep_fits {d : Dialect} {ctx : Context} {rest : List Char} (h : rest ≠ []) :
    Fits (d.freshStep ctx rest).length rest := by
  unfold freshStep
  split
  · exact fits_length h
  · split
    · exact commentStep_fits h
    · split
      · exact stringStep_fits h
      · split
        · exact ⟨Nat.one_pos, List.length_pos_iff.2 h⟩
        · split
          · next c hc =>
            rw [closerStep_length]
            exact closer?_bounds hc
          · split
            · next r n hr => exact reach_fits (readMatch_fits (rule?_bounds hr))
            · exact wordStep_fits h

theorem bodyStep_fits {d : Dialect} {ctx : Context} {rest : List Char} (h : rest ≠ []) :
    Fits (d.bodyStep ctx rest).length rest := by
  unfold bodyStep
  split
  · next c hc =>
    split at hc
    · rw [closerStep_length]
      exact closer?_bounds hc
    · cases hc
  · exact fits_length h

/-- **Every step makes progress.** Before the end of the line a step takes at
least one character, and never more than are left. -/
theorem step_fits {d : Dialect} {ctx : Context} {rest : List Char} (h : rest ≠ []) :
    Fits (d.step ctx rest).length rest := by
  unfold step
  split
  · exact fits_length h
  · split
    · next hb =>
      cases rest with
      | nil => exact absurd rfl h
      | cons c rest =>
        have hc : isBlank c = true := by simpa using hb
        exact ⟨by simp [blankStep, hc], (List.takeWhile_sublist isBlank).length_le⟩
    · split
      · exact continueStep_fits h _ _ _
      · exact continueStep_fits h _ _ _
      · split
        · exact freshStep_fits h
        · exact bodyStep_fits h
      · exact freshStep_fits h

end Dialect

end UmlMarkup
