import UmlMarkup.Proofs.Scan.Coverage
import UmlMarkup.Proofs.Sequence.Lines

/-!
# Where words are cut

A reader takes a run of word characters for one word, and so does the scanner, nearly
always: no token of a built-in dialect ends inside a run, with two exceptions. A color
literal is made of ASCII letters and digits and ends where these do, as in `#red_`. And
some arrows end in a letter, the crosses and circles `->x` and `--o`, and take that
letter from a name which happens to start with it: in `Alice->oscar` the arrow is
`->o`, and `scar` is what is left of the name (`tokens_cut_words_behind_arrows`).

Everything else minds the end of a word in its own way. A keyword and a number look at
the character behind them; a word goes on to a blank, to the colon of a header or to a
glyph that starts with something else than a word character; comments, strings, braces
and bracketed names end in punctuation; and what runs to a blank or to the end of the
line has no word behind it. What this asks of a dialect is a matter of its table
(`Dialect.MindsWords`), and the scanner does the rest (`cutsOff_of_reads`).
-/

namespace UmlMarkup

/-! ## Cuts -/

/-- Whether the text ends in a word character. -/
def endsInWord (text : List Char) : Bool := text.getLast?.any isWord

/-- Whether the text starts with a word character. -/
def startsInWord (text : List Char) : Bool := text.head?.any isWord

/-- **A cut behind the first `n` characters goes through a word.** -/
def CutsWord (text : List Char) (n : Nat) : Prop :=
  endsInWord (text.take n) = true ∧ startsInWord (text.drop n) = true

theorem not_cutsWord_of_length_le {text : List Char} {n : Nat} (h : text.length ≤ n) :
    ¬ CutsWord text n := fun hcut => by
  have hstart := hcut.2
  rw [List.drop_of_length_le h] at hstart
  cases hstart

theorem not_cutsWord_of_start {text : List Char} {n : Nat}
    (h : startsInWord (text.drop n) = false) : ¬ CutsWord text n := fun hcut =>
  Bool.noConfusion (h.symm.trans hcut.2)

/-- How a text ends is a matter of its last part. -/
theorem endsInWord_append {u v : List Char} (hv : v ≠ []) :
    endsInWord (u ++ v) = endsInWord v := by
  rw [endsInWord, endsInWord, List.getLast?_append_of_ne_nil u hv]

/-- Behind a text that does not end in a word character no word is cut. -/
theorem not_cutsWord_append {u v : List Char} (hne : v ≠ []) (hv : endsInWord v = false)
    (rest : List Char) : ¬ CutsWord (u ++ (v ++ rest)) (u.length + v.length) := fun hcut => by
  have hend := hcut.1
  rw [← List.append_assoc, ← List.length_append, List.take_left, endsInWord_append hne, hv] at hend
  cases hend

/-- A text that is at an end at a blank cuts no word. -/
theorem startsInWord_of_blank {text : List Char} (h : text.head?.any isBlank = true) :
    startsInWord text = false := by
  obtain ⟨c, hc, hblank⟩ := (Option.any_eq_true _ _).1 h
  rw [startsInWord, hc, Option.any_some]
  refine eq_false_of_ne_true fun hword => ?_
  exact Bool.noConfusion ((isBlank_eq_false_of_isWord hword).symm.trans hblank)

/-! ## Patterns -/

/-- A keyword ends where its word ends. -/
theorem Phrase.not_cutsWord {p : Phrase} (hp : p.Plain) {text : List Char} {n : Nat}
    (h : p.matchLength? text = some n) : ¬ CutsWord text n := by
  rintro ⟨hend, hstart⟩
  obtain ⟨c, hc, hword⟩ := (Option.any_eq_true _ _).1 hend
  have hlast : p.text.getLast? = some c := by
    simp [hc, ← squeeze_take_of_phrase hp h, isGap_eq_false_of_isWord hword]
  have hends : p.endsInWord = true := by rw [Phrase.endsInWord, hlast, Option.any_some, hword]
  have hfree := (Option.filter_eq_some_iff.1 h).2
  rw [hends, Bool.true_and, Bool.not_eq_true'] at hfree
  exact Bool.noConfusion (hfree.symm.trans hstart)

/-- The text is not empty and ends in something else than a word character. -/
def EndsOutside (text : List Char) : Prop := text ≠ [] ∧ endsInWord text = false

instance : DecidablePred EndsOutside := fun _ => inferInstanceAs (Decidable (_ ∧ _))

namespace Pattern

/-- No match of the pattern ends inside a word. -/
def MindsWords : Pattern → Prop
  | literal text => EndsOutside text
  | keywords phrases => ∀ p ∈ phrases, p.Plain
  | glyphs texts => ∀ g ∈ texts, EndsOutside g
  | delimited _ closer => EndsOutside closer
  | number => True
  | color => False

instance : DecidablePred MindsWords
  | literal text => inferInstanceAs (Decidable (EndsOutside text))
  | keywords phrases => inferInstanceAs (Decidable (∀ p ∈ phrases, p.Plain))
  | glyphs texts => inferInstanceAs (Decidable (∀ g ∈ texts, EndsOutside g))
  | delimited _ closer => inferInstanceAs (Decidable (EndsOutside closer))
  | number => .isTrue trivial
  | color => .isFalse id

theorem not_cutsWord_of_literal {text rest : List Char} (htext : EndsOutside text) {n : Nat}
    (h : literalLength? rest text = some n) : ¬ CutsWord rest n := fun hcut => by
  have hend := hcut.1
  rw [take_of_literalLength? h, htext.2] at hend
  cases hend

theorem not_cutsWord_of_delimited {opener closer rest : List Char} (hcloser : EndsOutside closer)
    {n : Nat} (h : delimitedLength? opener closer rest = some n) : ¬ CutsWord rest n := by
  unfold delimitedLength? at h
  split at h
  · next hpre =>
    obtain ⟨inner, rfl⟩ := List.isPrefixOf_iff_prefix.1 hpre
    dsimp only at h
    rw [List.drop_left] at h
    split at h
    · cases h
    · split at h
      · next k hk =>
        cases h
        obtain ⟨before, after, rfl, hbefore⟩ := exists_append_of_indexOf? hk
        rw [← List.append_assoc, show k + 1 = before.length from hbefore.symm,
          ← List.length_append]
        exact not_cutsWord_append hcloser.1 hcloser.2 after
      · cases h
  · cases h

/-- **A pattern that minds words cuts none.** -/
theorem not_cutsWord {p : Pattern} (hp : p.MindsWords) {rest : List Char} {n : Nat}
    (h : p.matchLength? rest = some n) : ¬ CutsWord rest n := by
  cases p with
  | literal text => exact not_cutsWord_of_literal hp h
  | keywords phrases =>
    obtain ⟨ph, hmem, hph⟩ := longest?_mem h
    exact Phrase.not_cutsWord (hp ph hmem) hph
  | glyphs texts =>
    obtain ⟨g, hmem, hg⟩ := longest?_mem h
    exact not_cutsWord_of_literal (hp g hmem) hg
  | delimited opener closer => exact not_cutsWord_of_delimited hp h
  | number =>
    refine not_cutsWord_of_start ?_
    rw [matchLength?, numberLength?] at h
    split at h
    · cases h
    · split at h
      · cases h
      · next hword =>
        cases h
        exact eq_false_of_ne_true hword
  | color => exact hp.elim

end Pattern

/-! ## Tables -/

/-- A pattern of glyphs, or that of color literals. -/
def Pattern.IsGlyphsOrColor : Pattern → Prop
  | glyphs _ | color => True
  | literal _ | keywords _ | delimited .. | number => False

instance : DecidablePred Pattern.IsGlyphsOrColor
  | .glyphs _ | .color => .isTrue trivial
  | .literal _ | .keywords _ | .delimited .. | .number => .isFalse id

/-- A rule that makes atoms of glyphs, which is to say an arrow, or of colors. -/
def Rule.IsArrowOrColor (r : Rule) : Prop :=
  r.kind = .atom ∧ r.extent = .exact ∧ r.pattern.IsGlyphsOrColor

instance : DecidablePred Rule.IsArrowOrColor := fun _ =>
  inferInstanceAs (Decidable (_ ∧ _ ∧ _))

namespace Dialect

/-- **A dialect minds words**: comments and strings end in punctuation, and no rule cuts
a word, except that arrows and colors may. -/
structure MindsWords (d : Dialect) : Prop where
  blockClose : EndsOutside d.blockClose
  quote : isWord d.quote = false
  closers : ∀ r ∈ d.rules, r.closedMode?.isSome → r.pattern.MindsWords
  rules : ∀ r ∈ d.rules, r.extent ≠ .exact ∨ r.pattern.MindsWords ∨ r.IsArrowOrColor

/-- All built-in dialects mind words. -/
theorem builtin_mindsWords : ∀ d ∈ builtin, d.MindsWords := by
  refine fun d hd => ⟨?_, ?_, ?_, ?_⟩ <;> revert d <;> decide +kernel

/-- The arrows that end in a letter. -/
def letteredArrows (d : Dialect) : List (List Char) := d.arrowTexts.filter endsInWord

/-- What may be cut from a word in front of it: a color literal, or an arrow that ends in
a letter. -/
def CutsOff (d : Dialect) (l : Lexeme) : Prop :=
  l.kind = .atom ∧ (l.text.head? = some '#' ∨ l.text ∈ d.letteredArrows)

/-! ## Steps -/

section

variable {d : Dialect} {ctx : Context} {rest : List Char}

/-- What goes up to its closing marker ends in punctuation. -/
theorem not_cutsWord_of_past? (before : List Char) {marker text : List Char}
    (hmarker : endsInWord marker = false) {n : Nat} (h : past? marker text = some n) :
    ¬ CutsWord (before ++ text) (before.length + n) := by
  unfold past? at h
  split at h
  · cases h
  · next hne =>
    obtain ⟨k, hk, rfl⟩ := Option.map_eq_some_iff.1 h
    obtain ⟨inner, after, rfl, rfl⟩ := exists_append_of_indexOf? hk
    rw [← List.append_assoc, ← Nat.add_assoc, ← List.length_append]
    exact not_cutsWord_append (by simpa using hne) hmarker after

theorem continueStep_not_cutsWord (m : Mode) (kind : Kind) {closer : List Char}
    (hcloser : endsInWord closer = false) :
    ¬ CutsWord rest (continueStep ctx rest m kind closer).length := by
  unfold continueStep
  split
  · next n hn =>
    have h := not_cutsWord_of_past? [] hcloser hn
    rwa [List.length_nil, Nat.zero_add] at h
  · exact not_cutsWord_of_length_le (Nat.le_refl _)

theorem commentStep_not_cutsWord (hd : d.MindsWords) (h : standsAt d.blockOpen rest = true) :
    ¬ CutsWord rest (d.commentStep ctx rest).length := by
  obtain ⟨inner, rfl⟩ := List.isPrefixOf_iff_prefix.1 (Bool.and_eq_true_iff.1 h).2
  unfold commentStep
  rw [List.drop_left]
  split
  · next n hn => exact not_cutsWord_of_past? _ hd.blockClose.2 hn
  · exact not_cutsWord_of_length_le (Nat.le_refl _)

theorem endsInWord_quote (hd : d.MindsWords) : endsInWord [d.quote] = false := hd.quote

theorem stringStep_not_cutsWord (hd : d.MindsWords) (h : rest.head? = some d.quote) :
    ¬ CutsWord rest (d.stringStep ctx rest).length := by
  obtain ⟨inner, rfl⟩ := List.head?_eq_some_iff.1 h
  unfold stringStep
  rw [List.drop_one, List.tail_cons]
  split
  · next n hn => exact not_cutsWord_of_past? [d.quote] (endsInWord_quote hd) hn
  · exact not_cutsWord_of_length_le (Nat.le_refl _)

theorem closerStep_not_cutsWord (hd : d.MindsWords) {c : Closer} (hc : d.closer? rest = some c) :
    ¬ CutsWord rest (closerStep ctx c).length := by
  obtain ⟨r, hr, heffect, -, hn, -⟩ := closer?_spec hc
  have hclosed : r.closedMode?.isSome :=
    Option.isSome_of_eq_some (Rule.closedMode?_eq_some_iff.2 heffect)
  rw [closerStep_length]
  exact Pattern.not_cutsWord (hd.closers r hr hclosed) (Option.filter_eq_some_iff.1 hn).1

/-- A word ends at the end of the line, at a blank, at a colon or at a glyph that breaks
words, and so does not end inside a word. -/
theorem startsInWord_drop_wordTail (d : Dialect) (inHeader : Bool) (text : List Char) :
    startsInWord (text.drop (d.wordTail inHeader text)) = false := by
  induction text with
  | nil => rfl
  | cons c text ih =>
    rw [wordTail]
    split
    · next hstop =>
      refine eq_false_of_ne_true fun hword => ?_
      have hc : isWord c = true := hword
      have hcolon : (c == ':') = false := beq_false_of_ne fun he => by
        rw [he] at hc
        exact absurd hc (by decide)
      rw [isBlank_eq_false_of_isWord hc, hcolon, d.breaksWord_eq_false_of_isWord hc,
        Bool.and_false] at hstop
      cases hstop
    · exact ih

theorem wordStep_not_cutsWord (hne : rest ≠ []) :
    ¬ CutsWord rest (d.wordStep ctx rest).length := by
  obtain ⟨c, text, rfl⟩ := List.exists_cons_of_ne_nil hne
  refine not_cutsWord_of_start ?_
  rw [wordStep, List.drop_one, List.tail_cons, Nat.add_comm, List.drop_succ_cons]
  exact d.startsInWord_drop_wordTail ctx.inHeader text

theorem blankStep_not_cutsWord : ¬ CutsWord rest (blankStep ctx rest).length := by
  rintro ⟨hend, -⟩
  obtain ⟨c, hc, hword⟩ := (Option.any_eq_true _ _).1 hend
  have htake : rest.take (blankStep ctx rest).length = rest.takeWhile isBlank :=
    (List.prefix_iff_eq_take.1 (List.takeWhile_prefix isBlank)).symm
  rw [htake] at hc
  have hblank := List.mem_takeWhile_imp (List.mem_of_getLast? hc)
  exact Bool.noConfusion ((isBlank_eq_false_of_isWord hword).symm.trans hblank)

/-- What runs to the next blank does not end inside a word. -/
theorem reach_toBlank_not_cutsWord (n : Nat) : ¬ CutsWord rest (reach .toBlank n rest) := by
  refine not_cutsWord_of_start ?_
  rw [reach, ← List.drop_drop, drop_length_takeWhile]
  have hstop := any_head?_dropWhile (p := fun c => !isBlank c) (rest.drop n)
  cases hhead : ((rest.drop n).dropWhile fun c => !isBlank c).head? with
  | none => rw [startsInWord, hhead, Option.any_none]
  | some c =>
    rw [hhead] at hstop
    refine startsInWord_of_blank ?_
    rw [hhead]
    simpa using hstop

/-- Where an arrow cuts a word it ends in a letter. -/
theorem mem_letteredArrows_of_cutsWord {r : Rule} (hr : r ∈ d.rules) (hkind : r.kind = .atom)
    {texts : List (List Char)} (hpattern : r.pattern = .glyphs texts) {n : Nat}
    (hn : r.pattern.matchLength? rest = some n) (hcut : CutsWord rest n) :
    rest.take n ∈ d.letteredArrows := by
  rw [hpattern] at hn
  obtain ⟨g, hg, hlength⟩ := Pattern.longest?_mem hn
  have htake := Pattern.take_of_literalLength? hlength
  have harrow : g ∈ d.arrowTexts :=
    List.mem_flatMap.2 ⟨r, hr, by rw [hpattern, hkind]; exact hg⟩
  exact List.mem_filter.2 ⟨htake ▸ harrow, hcut.1⟩

/-- **The cut of a rule**: if it goes through a word, the token is a color literal or an
arrow that ends in a letter. -/
theorem cutsOff_of_ruleStep (hd : d.MindsWords) {r : Rule} {n : Nat}
    (hr : d.rule? ctx rest = some (r, n))
    (hcut : CutsWord rest (ruleStep ctx rest r n).length) :
    d.CutsOff ⟨r.kind, rest.take (ruleStep ctx rest r n).length⟩ := by
  obtain ⟨hmem, hproper, -⟩ := rule?_spec hr
  have hn := (Option.filter_eq_some_iff.1 hproper).1
  have hlength : (ruleStep ctx rest r n).length
      = reach r.extent (readMatch ctx rest r n).2 rest := rfl
  rw [hlength] at hcut ⊢
  cases he : r.extent with
  | toBlank =>
    rw [he] at hcut
    exact absurd hcut (reach_toBlank_not_cutsWord _)
  | toEnd =>
    rw [he] at hcut
    exact absurd hcut (not_cutsWord_of_length_le (Nat.le_refl _))
  | exact =>
    rw [he, reach] at hcut
    rw [reach]
    rcases hd.rules r hmem with hextent | hminds | ⟨hkind, -, hpattern⟩
    · exact absurd he hextent
    · have hcolor : r.pattern ≠ .color := fun hp => by
        rw [hp] at hminds
        exact hminds
      rw [readMatch_of_ne_color hcolor] at hcut
      exact absurd hcut (Pattern.not_cutsWord hminds hn)
    · refine ⟨hkind, ?_⟩
      cases hp : r.pattern with
      | glyphs texts =>
        rw [readMatch_of_ne_color (by rw [hp]; exact Pattern.noConfusion)] at hcut ⊢
        exact Or.inr (mem_letteredArrows_of_cutsWord hmem hkind hp hn hcut)
      | color =>
        have hpos : (readMatch ctx rest r n).2 ≠ 0 :=
          Nat.ne_of_gt (readMatch_fits (Pattern.properLength?_bounds hproper)).1
        rw [hp, Pattern.matchLength?] at hn
        unfold Pattern.colorLength? at hn
        split at hn
        · exact Or.inl (by rw [List.head?_take, if_neg hpos]; rfl)
        · cases hn
      | literal text => exact (hp ▸ hpattern : (Pattern.literal text).IsGlyphsOrColor).elim
      | keywords phrases =>
        exact (hp ▸ hpattern : (Pattern.keywords phrases).IsGlyphsOrColor).elim
      | delimited opener closer =>
        exact (hp ▸ hpattern : (Pattern.delimited opener closer).IsGlyphsOrColor).elim
      | number => exact (hp ▸ hpattern : Pattern.number.IsGlyphsOrColor).elim

/-- **What cuts a word in front of it**, of all that a step may read: a color literal
or an arrow that ends in a letter. -/
theorem cutsOff_of_reads (hd : d.MindsWords) (hne : rest ≠ []) {s : Step}
    (hs : Reads d ctx rest s) (hcut : CutsWord rest s.length) :
    d.CutsOff ⟨s.kind, rest.take s.length⟩ := by
  cases hs with
  | freeText _ => exact absurd hcut (not_cutsWord_of_length_le (Nat.le_refl _))
  | blank _ _ => exact absurd hcut blankStep_not_cutsWord
  | openComment _ _ _ => exact absurd hcut (continueStep_not_cutsWord _ _ hd.blockClose.2)
  | openString _ _ _ => exact absurd hcut (continueStep_not_cutsWord _ _ (endsInWord_quote hd))
  | noteCloser _ _ _ _ _ hc => exact absurd hcut (closerStep_not_cutsWord hd hc)
  | noteText => exact absurd hcut (not_cutsWord_of_length_le (Nat.le_refl _))
  | lineComment => exact absurd hcut (not_cutsWord_of_length_le (Nat.le_refl _))
  | blockComment _ _ h => exact absurd hcut (commentStep_not_cutsWord hd h)
  | string _ _ _ h => exact absurd hcut (stringStep_not_cutsWord hd h)
  | colon _ _ h =>
    obtain ⟨more, rfl⟩ := List.head?_eq_some_iff.1 h
    exact absurd hcut (not_cutsWord_append (u := []) (List.cons_ne_nil ':' []) rfl more)
  | closer _ hc => exact absurd hcut (closerStep_not_cutsWord hd hc)
  | rule _ _ hr => exact cutsOff_of_ruleStep hd hr hcut
  | word => exact absurd hcut (wordStep_not_cutsWord hne)

/-! ## Lines -/

/-- The lexeme read at a position starts in a word character if the position does. -/
theorem startsInWord_lexemeAt (hne : rest ≠ []) :
    startsInWord (d.lexemeAt ctx rest).text = startsInWord rest := by
  have hpos : (d.step ctx rest).length ≠ 0 := Nat.ne_of_gt (step_fits hne).1
  rw [startsInWord, lexemeAt, List.head?_take, if_neg hpos, startsInWord]

/-- **Between the lexemes of a line no word is cut**, except behind colors and arrows
that end in a letter. -/
theorem isChain_scanRest (hd : d.MindsWords) (ctx : Context) (rest : List Char) :
    (d.scanRest ctx rest).1.IsChain fun l m =>
      endsInWord l.text = true → startsInWord m.text = true → d.CutsOff l := by
  induction ctx, rest using d.scan_induction with
  | atEnd ctx => simp
  | token ctx rest hne ih =>
    rw [scanRest_of_ne_nil d ctx hne]
    refine List.isChain_cons.2 ⟨fun m hm hend hstart => ?_, ih⟩
    refine cutsOff_of_reads hd hne (d.step_reads ctx rest) ⟨hend, ?_⟩
    -- the next lexeme starts where this one ends
    by_cases hafter : d.restAfter ctx rest = []
    · simp [hafter] at hm
    · rw [scanRest_of_ne_nil d _ hafter] at hm
      cases hm
      rwa [startsInWord_lexemeAt hafter] at hstart

end

theorem head?_letteredArrows : ∀ d ∈ builtin, ∀ g ∈ d.letteredArrows, g.head? ≠ some '#' := by
  decide +kernel

end Dialect

/-! ## Tokens -/

/-- The token is a color literal. -/
def Token.IsColor (line : List Char) (t : Token) : Prop :=
  t.kind = .atom ∧ (t.text line).head? = some '#'

/-- The token is an arrow that ends in a letter. -/
def Token.IsLetteredArrow (d : Dialect) (line : List Char) (t : Token) : Prop :=
  t.kind = .atom ∧ t.text line ∈ d.letteredArrows

/-- **Where two tokens meet inside a word of the line**, the first has the property. -/
def CutsWordsBehind (line : List Char) (p : Token → Prop) (ts : List Token) : Prop :=
  ts.IsChain fun t u =>
    endsInWord (t.text line) = true → startsInWord (u.text line) = true → p t

instance (line : List Char) : DecidablePred (Token.IsColor line) := fun _ =>
  inferInstanceAs (Decidable (_ ∧ _))

instance (line : List Char) (p : Token → Prop) [DecidablePred p] :
    DecidablePred (CutsWordsBehind line p) := fun ts =>
  inferInstanceAs (Decidable (ts.IsChain _))

namespace Dialect

/-- **Where words are cut.** In a built-in dialect, whatever is open, a token that ends
inside a word is a color literal or an arrow that ends in a letter. So a line keeps all
its words whole, but for those that color literals cut, just if no arrow that ends in a
letter stands right before a word character. -/
theorem tokens_cut_words_behind_arrows {d : Dialect} (hd : d ∈ builtin) (state : ScanState)
    (line : List Char) :
    CutsWordsBehind line (fun t => t.IsColor line ∨ t.IsLetteredArrow d line)
      (d.scanLine state line).tokens
    ∧ (CutsWordsBehind line (Token.IsColor line) (d.scanLine state line).tokens
      ↔ (d.scanLine state line).tokens.IsChain fun t u =>
        t.IsLetteredArrow d line → startsInWord (u.text line) = false) := by
  have hall : CutsWordsBehind line (fun t => t.IsColor line ∨ t.IsLetteredArrow d line)
      (d.scanLine state line).tokens := by
    have h := isChain_scanRest (builtin_mindsWords d hd) { state := state }
      (line.dropWhile isBlank)
    have hlexemes : (d.scanLine state line).lexemes
        = (d.scanRest { state := state } (line.dropWhile isBlank)).1 := rfl
    rw [← hlexemes, ← map_mk_tokens, List.isChain_map] at h
    refine h.imp fun t u hcut hend hstart => ?_
    obtain ⟨hkind, hcolor | harrow⟩ := hcut hend hstart
    · exact Or.inl ⟨hkind, hcolor⟩
    · exact Or.inr ⟨hkind, harrow⟩
  refine ⟨hall, fun h => ?_, fun h => ?_⟩
  · refine h.imp fun t u hcut harrow => eq_false_of_ne_true fun hstart => ?_
    -- an arrow is no color
    have hend : endsInWord (t.text line) = true := (List.mem_filter.1 harrow.2).2
    exact head?_letteredArrows d hd _ harrow.2 (hcut hend hstart).2
  · refine List.isChain_iff_getElem.2 fun i hi hend hstart => ?_
    rcases List.isChain_iff_getElem.1 hall i hi hend hstart with hcolor | harrow
    · exact hcolor
    · have hfree := List.isChain_iff_getElem.1 h i hi harrow
      exact Bool.noConfusion (hfree.symm.trans hstart)

/-- In `Alice->oscar` the arrow is read as `->o`, and stands right before a word
character. -/
theorem tokens_cut_words_behind_arrows_of_name :
    sequence ∈ builtin
    ∧ (sequence.scanLine .initial "Alice->oscar".toList).tokens
      = [⟨.unstyled, ⟨0, 5⟩⟩, ⟨.atom, ⟨5, 8⟩⟩, ⟨.unstyled, ⟨8, 12⟩⟩]
    ∧ CutsWordsBehind "Alice->oscar".toList
      (fun t => t.IsColor "Alice->oscar".toList
        ∨ t.IsLetteredArrow sequence "Alice->oscar".toList)
      (sequence.scanLine .initial "Alice->oscar".toList).tokens :=
  have hmem : sequence ∈ builtin := List.mem_cons_self
  ⟨hmem, by decide +kernel,
    (tokens_cut_words_behind_arrows hmem .initial "Alice->oscar".toList).1⟩

/-- Colors are not the only tokens behind which a word is cut: in `Alice->oscar` the
first letter of the second name belongs to the arrow. -/
theorem not_only_colors_cut_words :
    ¬ ∀ d ∈ builtin, ∀ (lines : List (List Char)) (line : List Char),
      CutsWordsBehind line (Token.IsColor line)
        (d.scanLine (d.stateAfter .initial lines) line).tokens := fun h =>
  absurd (h sequence List.mem_cons_self [] "Alice->oscar".toList) (by decide +kernel)

end Dialect

end UmlMarkup
