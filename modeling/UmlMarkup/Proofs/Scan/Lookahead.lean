import Mathlib.Data.List.Basic
import Mathlib.Data.List.TakeWhile
import UmlMarkup.Proofs.Scan.Interiors
import UmlMarkup.Proofs.Scan.Words

/-!
# How far a step looks ahead

To tell a token the scanner looks at what stands behind it: a keyword at the next
character, a phrase of several words across the gaps between them, a bare `end` at
everything up to the next token. So what is read at the end of a line may depend on what
comes behind it, and a line cannot be lengthened without care: `note` becomes another
keyword when ` over` is put behind it.

A text is `Overlooked` if it may be put behind the line all the same: a blank stands at its
start, and no rule matches more or less on its account. Then every step reads what it has
read before, but for the last one on the shorter line, which may have more to read
(`step_grows`).

Two things keep a rule from looking into what comes behind. One is a character of a marker
that begins a comment or a string, for no word of a keyword holds one (`Dialect.Marked`).
The other is that no word stands behind the gap at which the text begins
(`OutOfReach`). Everything but phrases and standalone closers looks no further than to the
next blank anyway.
-/

namespace UmlMarkup

/-- Tests that agree on the members of a list agree on the list. -/
theorem any_congr_of_mem {α : Type} {f g : α → Bool} {as : List α} (h : ∀ a ∈ as, f a = g a) :
    as.any f = as.any g := by
  refine Bool.eq_iff_iff.2 ?_
  rw [List.any_eq_true, List.any_eq_true]
  exact exists_congr fun a => and_congr_right fun ha => by rw [h a ha]

/-! ## Texts lengthened behind a blank -/

/-- The text is over, or a blank stands at its start. -/
def AtBlank (text : List Char) : Prop := ∀ c ∈ text.head?, isBlank c = true

/-- No character of the text is blank. -/
def Unblank (text : List Char) : Prop := ∀ c ∈ text, isBlank c = false

/-- The text is not empty and holds no blank. -/
def Solid (text : List Char) : Prop := text ≠ [] ∧ Unblank text

-- Again the lists are gone through, not the type of characters.
instance : DecidablePred Unblank := fun text =>
  List.decidableBAll (fun c => isBlank c = false) text

instance : DecidablePred Solid := fun _ => inferInstanceAs (Decidable (_ ∧ _))

theorem Unblank.gapless {text : List Char} (h : Unblank text) : Gapless text := fun c hc =>
  eq_false_of_ne_true fun hgap => Bool.noConfusion ((isBlank_of_isGap hgap).symm.trans (h c hc))

theorem AtGap.atBlank {text : List Char} (h : AtGap text) : AtBlank text := fun c hc =>
  isBlank_of_isGap (h c hc)

theorem Blank.atBlank {text : List Char} (h : Blank text) : AtBlank text := fun c hc =>
  h c (List.mem_of_mem_head? hc)

theorem ne_of_isBlank {c a : Char} (h : isBlank c = true) (ha : isBlank a = false) : c ≠ a :=
  fun he => by
    rw [he] at h
    exact Bool.noConfusion (h.symm.trans ha)

theorem isAlphanum_eq_false_of_isBlank {c : Char} (h : isBlank c = true) :
    c.isAlphanum = false :=
  eq_false_of_ne_true fun halnum =>
    Bool.noConfusion ((isWord_of_isAlphanum halnum).symm.trans (isWord_eq_false_of_isBlank h))

theorem isDigit_eq_false_of_isBlank {c : Char} (h : isBlank c = true) : c.isDigit = false :=
  (Bool.or_eq_false_iff.1 (isAlphanum_eq_false_of_isBlank h)).2

section

variable {u ext : List Char}

/-- What is over at a blank is not taken further. -/
theorem takeWhile_append_of_atBlank {p : Char → Bool}
    (hp : ∀ c, isBlank c = true → p c = false) (hext : AtBlank ext) :
    (u ++ ext).takeWhile p = u.takeWhile p := by
  induction u with
  | nil =>
    cases ext with
    | nil => rfl
    | cons c ext =>
      have hc : ¬ p c = true := fun h => Bool.noConfusion (h.symm.trans (hp c (hext c rfl)))
      rw [List.nil_append, List.takeWhile_cons_of_neg hc, List.takeWhile_nil]
  | cons c u ih => rw [List.cons_append, List.takeWhile_cons, List.takeWhile_cons, ih]

/-- Nor is a blank what is looked for. -/
theorem any_head?_append_of_atBlank {p : Char → Bool}
    (hp : ∀ c, isBlank c = true → p c = false) (hext : AtBlank ext) :
    (u ++ ext).head?.any p = u.head?.any p := by
  cases u with
  | nil =>
    cases ext with
    | nil => rfl
    | cons c ext => exact hp c (hext c rfl)
  | cons c u => rfl

/-- What holds no blank is found where it was. -/
theorem isPrefixOf_append_of_unblank {w : List Char} (hw : Unblank w) (hext : AtBlank ext) :
    w.isPrefixOf (u ++ ext) = w.isPrefixOf u := by
  refine Bool.eq_iff_iff.2 ?_
  rw [List.isPrefixOf_iff_prefix, List.isPrefixOf_iff_prefix]
  exact ⟨prefix_of_stop hw hext, fun h => h.trans (List.prefix_append u ext)⟩

/-- What is left of a text when the characters at its start are dropped may be lengthened
afterwards, if there is anything left. -/
theorem dropWhile_append_of_ne_nil {p : Char → Bool} (h : u.dropWhile p ≠ []) :
    (u ++ ext).dropWhile p = u.dropWhile p ++ ext := by
  rw [List.dropWhile_append, if_neg]
  simpa using h

theorem takeWhile_append_of_ne_nil {p : Char → Bool} (h : u.dropWhile p ≠ []) :
    (u ++ ext).takeWhile p = u.takeWhile p := by
  have hwhole : (u ++ ext).takeWhile p ++ (u.dropWhile p ++ ext)
      = u.takeWhile p ++ (u.dropWhile p ++ ext) := by
    rw [← dropWhile_append_of_ne_nil h, List.takeWhile_append_dropWhile,
      dropWhile_append_of_ne_nil h, ← List.append_assoc, List.takeWhile_append_dropWhile]
  exact List.append_cancel_right hwhole

/-- A marker is not found in blanks behind the text either. -/
theorem indexOf?_append_of_blank {marker : List Char} (hmarker : Solid marker)
    (hext : Blank ext) : indexOf? marker (u ++ ext) = indexOf? marker u := by
  cases hn : indexOf? marker u with
  | some n => exact indexOf?_append_right hn ext
  | none =>
    refine Option.eq_none_iff_forall_ne_some.2 fun n hfound => ?_
    obtain ⟨before, after, heq, -⟩ := exists_append_of_indexOf? hfound
    rcases List.append_eq_append_iff.1 heq with ⟨v, -, hv⟩ | ⟨v, hu, hv⟩
    · -- the marker would begin in the blanks
      obtain ⟨c, marker, rfl⟩ := List.exists_cons_of_ne_nil hmarker.1
      have hmem : c ∈ ext := hv ▸ List.mem_append_right v List.mem_cons_self
      exact Bool.noConfusion ((hext c hmem).symm.trans (hmarker.2 c List.mem_cons_self))
    · obtain ⟨more, hmore⟩ := prefix_of_stop hmarker.2 hext.atBlank ⟨after, hv⟩
      obtain ⟨k, hk, -⟩ := exists_indexOf?_le marker before more
      rw [hmore, ← hu, hn] at hk
      cases hk

theorem past?_append_blank {marker : List Char} (hmarker : Solid marker) (hext : Blank ext) :
    past? marker (u ++ ext) = past? marker u := by
  rw [past?, indexOf?_append_of_blank hmarker hext, past?]

end

/-! ## Marks -/

/-- None of the characters stands in the text. -/
def Apart (marks u : List Char) : Prop := ∀ c ∈ u, c ∉ marks

instance (marks : List Char) : DecidablePred (Apart marks) := fun u =>
  List.decidableBAll (fun c => c ∉ marks) u

/-- One of the characters stands in the text. -/
def Marked (marks u : List Char) : Prop := ∃ c ∈ u, c ∈ marks

namespace Marked

variable {marks u v : List Char}

theorem of_suffix (h : Marked marks v) (hv : v <:+ u) : Marked marks u := by
  obtain ⟨c, hc, hmark⟩ := h
  exact ⟨c, hv.subset hc, hmark⟩

/-- What holds none of the characters may be taken off. -/
theorem of_append (h : Marked marks (u ++ v)) (hu : Apart marks u) : Marked marks v := by
  obtain ⟨c, hc, hmark⟩ := h
  rcases List.mem_append.1 hc with hc | hc
  · exact absurd hmark (hu c hc)
  · exact ⟨c, hc, hmark⟩

/-- So may the characters at the start that are told from the marks. -/
theorem dropWhile (h : Marked marks u) {p : Char → Bool} (hp : ∀ c ∈ marks, p c = false) :
    Marked marks (u.dropWhile p) := by
  refine of_append (u := u.takeWhile p) ?_ fun c hc hmark => ?_
  · rwa [List.takeWhile_append_dropWhile]
  · exact Bool.noConfusion ((List.mem_takeWhile_imp hc).symm.trans (hp c hmark))

theorem ne_nil (h : Marked marks u) : u ≠ [] := by
  rintro rfl
  obtain ⟨c, hc, -⟩ := h
  cases hc

end Marked

/-! ## Phrases -/

/-- **The words do not reach from `u` into `ext`**: there is a mark in `u`, and none in the
words, or none of them stands behind the gap at the start of `ext`. -/
inductive OutOfReach (ws : List (List Char)) (u ext : List Char) : Prop
  | marked {marks : List Char} (hmarks : Gapless marks) (hws : ∀ w ∈ ws, Apart marks w)
    (hu : Marked marks u)
  | behind (h : ∀ w ∈ ws, w.isPrefixOf (ext.dropWhile isGap) = false)

section

variable {u ext : List Char}

namespace OutOfReach

variable {w left : List Char} {ws : List (List Char)}

/-- One word further on. -/
theorem tail (h : OutOfReach (w :: ws) (w ++ left) ext) : OutOfReach ws left ext := by
  cases h with
  | marked hmarks hws hu =>
    obtain ⟨hfree, hws⟩ := List.forall_mem_cons.1 hws
    exact .marked hmarks hws (hu.of_append hfree)
  | behind h => exact .behind (List.forall_mem_cons.1 h).2

/-- Behind a gap. -/
theorem dropWhile (h : OutOfReach ws u ext) : OutOfReach ws (u.dropWhile isGap) ext := by
  cases h with
  | marked hmarks hws hu => exact .marked hmarks hws (hu.dropWhile hmarks)
  | behind h => exact .behind h

/-- Where nothing but a gap is left no word goes on. -/
theorem isPrefixOf_eq_false (h : OutOfReach (w :: ws) u ext) (hu : u.dropWhile isGap = []) :
    w.isPrefixOf (ext.dropWhile isGap) = false := by
  cases h with
  | marked hmarks _ hmarked => exact absurd hu (hmarked.dropWhile hmarks).ne_nil
  | behind h => exact h w List.mem_cons_self

end OutOfReach

/-- **A phrase matches what it has matched.** -/
theorem Phrase.tailLength?_append {ws : List (List Char)} (hws : ∀ w ∈ ws, Unblank w)
    (hext : AtBlank ext) (h : OutOfReach ws u ext) :
    tailLength? ws (u ++ ext) = tailLength? ws u := by
  induction ws generalizing u with
  | nil => rfl
  | cons w ws ih =>
    obtain ⟨hw, hws⟩ := List.forall_mem_cons.1 hws
    simp only [tailLength?, drop_length_takeWhile]
    by_cases hrest : u.dropWhile isGap = []
    · have hgap := h.isPrefixOf_eq_false hrest
      have hnil : w.isPrefixOf [] = false := by
        cases w with
        | nil => exact hgap
        | cons c w => rfl
      rw [List.dropWhile_append_of_pos (List.dropWhile_eq_nil_iff.1 hrest), hgap, hrest, hnil]
      simp
    · rw [takeWhile_append_of_ne_nil hrest, dropWhile_append_of_ne_nil hrest,
        isPrefixOf_append_of_unblank hw hext]
      by_cases hpre : w.isPrefixOf (u.dropWhile isGap) = true
      · have hdrop := h.dropWhile
        obtain ⟨left, hleft⟩ := List.isPrefixOf_iff_prefix.1 hpre
        rw [← hleft] at hdrop ⊢
        rw [List.append_assoc, List.drop_left, List.drop_left, ih hws hdrop.tail]
      · simp [hpre]

theorem Phrase.matchLength?_append {p : Phrase} (hp : ∀ w ∈ p.words, Unblank w)
    (hext : AtBlank ext) (h : OutOfReach p.words u ext) :
    p.matchLength? (u ++ ext) = p.matchLength? u := by
  obtain ⟨hfirst, hmore⟩ :=
    List.forall_mem_cons.1 (show ∀ w ∈ p.first :: p.more, Unblank w from hp)
  have hwords : p.wordsLength? (u ++ ext) = p.wordsLength? u := by
    rw [wordsLength?, wordsLength?, isPrefixOf_append_of_unblank hfirst hext]
    by_cases hpre : p.first.isPrefixOf u = true
    · obtain ⟨left, rfl⟩ := List.isPrefixOf_iff_prefix.1 hpre
      rw [List.append_assoc, List.drop_left, List.drop_left,
        tailLength?_append hmore hext (OutOfReach.tail h)]
    · rw [if_neg hpre, if_neg hpre]
  rw [matchLength?, matchLength?, hwords]
  cases hn : p.wordsLength? u with
  | none => rfl
  | some n =>
    have hnext : ((u ++ ext).drop n).head?.any isWord = (u.drop n).head?.any isWord := by
      rw [List.drop_append_of_le_length (wordsLength?_le hn),
        any_head?_append_of_atBlank (fun _ => isWord_eq_false_of_isBlank) hext]
    simp only [Option.filter_some, hnext]

/-! ## Patterns -/

namespace Pattern

/-- **What the pattern looks for holds no blanks.** -/
def Tight : Pattern → Prop
  | literal text => Unblank text
  | keywords phrases => ∀ p ∈ phrases, ∀ w ∈ p.words, Solid w
  | glyphs texts => ∀ g ∈ texts, Unblank g
  | delimited opener closer => Unblank opener ∧ Solid closer
  | number | color => True

instance : DecidablePred Tight
  | literal text => inferInstanceAs (Decidable (Unblank text))
  | keywords phrases => inferInstanceAs (Decidable (∀ p ∈ phrases, ∀ w ∈ p.words, Solid w))
  | glyphs texts => inferInstanceAs (Decidable (∀ g ∈ texts, Unblank g))
  | delimited opener closer => inferInstanceAs (Decidable (Unblank opener ∧ Solid closer))
  | number => .isTrue trivial
  | color => .isTrue trivial

/-- The pattern takes a piece of text between brackets. -/
def IsDelimited : Pattern → Prop
  | delimited .. => True
  | _ => False

instance : DecidablePred IsDelimited
  | delimited .. => .isTrue trivial
  | literal _ | keywords _ | glyphs _ | number | color => .isFalse id

theorem literalLength?_append {text : List Char} (htext : Unblank text) (hext : AtBlank ext) :
    literalLength? (u ++ ext) text = literalLength? u text := by
  rw [literalLength?, literalLength?, isPrefixOf_append_of_unblank htext hext]

theorem longest?_congr {α : Type} {f g : α → Option Nat} {alternatives : List α}
    (h : ∀ a ∈ alternatives, f a = g a) : longest? f alternatives = longest? g alternatives := by
  rw [longest?, longest?, List.filterMap_congr h]

/-- No closing bracket stands in blanks. -/
theorem delimitedLength?_append {opener closer : List Char} (hopener : Unblank opener)
    (hcloser : Solid closer) (hext : Blank ext) :
    delimitedLength? opener closer (u ++ ext) = delimitedLength? opener closer u := by
  rw [delimitedLength?, delimitedLength?, isPrefixOf_append_of_unblank hopener hext.atBlank]
  by_cases hpre : opener.isPrefixOf u = true
  · obtain ⟨inner, rfl⟩ := List.isPrefixOf_iff_prefix.1 hpre
    rw [if_pos hpre, if_pos hpre, List.append_assoc, List.drop_left, List.drop_left]
    dsimp only
    rw [indexOf?_append_of_blank hcloser hext]
    cases inner with
    | nil =>
      -- there is nothing between the brackets in either text
      have hnil : indexOf? closer ([] : List Char) = none := by
        obtain ⟨c, closer, rfl⟩ := List.exists_cons_of_ne_nil hcloser.1
        rfl
      rw [hnil]
      simp
    | cons c inner => rw [List.head?_append_of_ne_nil _ (List.cons_ne_nil c inner)]
  · rw [if_neg hpre, if_neg hpre]

theorem digitCount_append (hext : AtBlank ext) : digitCount (u ++ ext) = digitCount u := by
  rw [digitCount, takeWhile_append_of_atBlank (fun _ => isDigit_eq_false_of_isBlank) hext,
    digitCount]

theorem fractionLength_cons (a : Char) (rest : List Char) : fractionLength (a :: rest)
    = if a = '.' then if digitCount rest = 0 then 0 else digitCount rest + 1 else 0 := by
  by_cases ha : a = '.'
  · rw [if_pos ha, ha, fractionLength]
  · rw [if_neg ha, fractionLength]
    exact fun _ he => ha (List.cons.inj he).1

theorem fractionLength_append (hext : AtBlank ext) :
    fractionLength (u ++ ext) = fractionLength u := by
  cases u with
  | nil =>
    cases ext with
    | nil => rfl
    | cons c ext =>
      rw [List.nil_append, fractionLength_cons,
        if_neg (ne_of_isBlank (hext c rfl) (by decide))]
      rfl
  | cons a u =>
    rw [List.cons_append, fractionLength_cons, fractionLength_cons, digitCount_append hext]

theorem numberLength?_append (hext : AtBlank ext) :
    numberLength? (u ++ ext) = numberLength? u := by
  have hwhole := digitCount_le u
  have hfraction := fractionLength_le (u.drop (digitCount u))
  rw [List.length_drop] at hfraction
  rw [numberLength?, numberLength?, digitCount_append hext, List.drop_append_of_le_length hwhole,
    fractionLength_append hext, List.drop_append_of_le_length (by omega),
    any_head?_append_of_atBlank (fun _ => isWord_eq_false_of_isBlank) hext]

theorem colorLength?_cons (a : Char) (rest : List Char) : colorLength? (a :: rest)
    = if a = '#' ∧ rest.head?.any Char.isAlphanum then some 1 else none := by
  by_cases ha : a = '#'
  · cases rest with
    | nil => simp [colorLength?]
    | cons b rest => simp [ha, colorLength?]
  · rw [if_neg fun h => ha h.1, colorLength?]
    exact fun _ _ he => ha (List.cons.inj he).1

theorem colorLength?_append (hext : AtBlank ext) : colorLength? (u ++ ext) = colorLength? u := by
  cases u with
  | nil =>
    cases ext with
    | nil => rfl
    | cons c ext =>
      rw [List.nil_append, colorLength?_cons,
        if_neg fun h => ne_of_isBlank (hext c rfl) (by decide) h.1]
      rfl
  | cons a u =>
    rw [List.cons_append, colorLength?_cons, colorLength?_cons,
      any_head?_append_of_atBlank (fun _ => isAlphanum_eq_false_of_isBlank) hext]

/-- **A pattern matches what it has matched** when the text is lengthened behind a blank,
its phrases being out of reach, and its brackets too. -/
theorem matchLength?_append {p : Pattern} (hp : p.Tight) (hext : AtBlank ext)
    (hreach : ∀ ph ∈ p.phrases, OutOfReach ph.words u ext) (hbracket : p.IsDelimited → Blank ext) :
    p.matchLength? (u ++ ext) = p.matchLength? u := by
  cases p with
  | literal text => exact literalLength?_append hp hext
  | keywords phrases =>
    exact longest?_congr fun ph hph =>
      Phrase.matchLength?_append (fun w hw => (hp ph hph w hw).2) hext (hreach ph hph)
  | glyphs texts => exact longest?_congr fun g hg => literalLength?_append (hp g hg) hext
  | delimited opener closer => exact delimitedLength?_append hp.1 hp.2 (hbracket trivial)
  | number => exact numberLength?_append hext
  | color => exact colorLength?_append hext

theorem breaksWord_append {p : Pattern} (hp : p.Tight) (hext : AtBlank ext) :
    p.breaksWord (u ++ ext) = p.breaksWord u := by
  cases p with
  | glyphs texts =>
    exact any_congr_of_mem fun g hg => by
      rw [isPrefixOf_append_of_unblank (hp g hg) hext]
  | _ => rfl

end Pattern

/-! ## Colors -/

/-- No blank continues a color. -/
theorem continuesColor_of_isBlank {c : Char} (hc : isBlank c = true) (rest : List Char) :
    continuesColor c rest = false := by
  have hjoins : ['/', '\\', '|', '-'].contains c = false := by
    rw [List.contains_eq_mem, decide_eq_false_iff_not]
    exact fun hmem =>
      ne_of_isBlank hc ((by decide : Unblank ['/', '\\', '|', '-']) c hmem) rfl
  rw [continuesColor, isAlphanum_eq_false_of_isBlank hc, hjoins]
  rfl

theorem colorTurn?_append (hext : AtBlank ext) (s : ScanState) :
    colorTurn? s (u ++ ext) = (colorTurn? s u).map fun turn => (turn.1, turn.2 ++ ext) := by
  rw [colorTurn?, colorTurn?, Option.map_map]
  congr 1
  funext outer
  cases u with
  | nil =>
    cases ext with
    | nil => rfl
    | cons c ext =>
      have hc : continuesColor c ext = false := continuesColor_of_isBlank (hext c rfl) ext
      simp [hc]
  | cons c u =>
    have hc : continuesColor c (u ++ ext) = continuesColor c u := by
      rw [continuesColor,
        any_head?_append_of_atBlank (fun _ => isAlphanum_eq_false_of_isBlank) hext,
        continuesColor]
    simp only [List.cons_append, hc, Function.comp_apply]
    split <;> rfl

/-- **A color is over at a blank**, however many frames it closes. -/
theorem readColor_append (hext : AtBlank ext) (s : ScanState) :
    readColor s (u ++ ext) = ((readColor s u).1, (readColor s u).2 ++ ext) :=
  readColor_map (f := (· ++ ext)) (fun s _ => colorTurn?_append hext s) s u

end

namespace Dialect

/-! ## Tables -/

/-- **Whatever the dialect looks for holds no blanks.** -/
structure Tight (d : Dialect) : Prop where
  quote : isBlank d.quote = false
  lineComment : Unblank d.lineComment
  blockOpen : Unblank d.blockOpen
  blockClose : Solid d.blockClose
  rules : ∀ r ∈ d.rules, r.pattern.Tight

theorem builtin_tight : ∀ d ∈ builtin, d.Tight := by
  refine fun d hd => ⟨?_, ?_, ?_, ?_, ?_⟩ <;> revert d <;> decide +kernel

theorem Literal.solid {d : Dialect} {m : Mode} {kind : Kind} {marker : List Char}
    (h : d.Literal m kind marker) (hd : d.Tight) : Solid marker := by
  cases h with
  | comment => exact hd.blockClose
  | string => exact ⟨List.cons_ne_nil _ _, fun c hc => List.mem_singleton.1 hc ▸ hd.quote⟩

/-- The characters of the markers that begin a block comment or a string. -/
def marks (d : Dialect) : List Char := d.quote :: d.blockOpen

/-- **No keyword of the dialect reaches across a mark**, and no closer holds one. A line
comment starts with a mark too. -/
structure StopsAtMarks (d : Dialect) : Prop extends Tight d where
  startsMarked : d.lineComment.head?.any d.marks.contains = true
  phrases : ∀ p ∈ d.phrases, ∀ w ∈ p.words, Apart d.marks w
  bracketless : ∀ r ∈ d.rules, ¬ r.pattern.IsDelimited
  closers : ∀ r ∈ d.rules, r.closedMode?.isSome = true →
    r.pattern.IsSpelled ∧ ∀ s ∈ r.pattern.spellings, Apart d.marks s

theorem stopsAtMarks : ∀ d ∈ [sequence, classDiagram, object], d.StopsAtMarks := by
  refine fun d hd => ⟨builtin_tight d (List.mem_append_left [useCase] hd), ?_, ?_, ?_, ?_⟩
    <;> revert d <;> decide +kernel

section

variable {d : Dialect} {ctx : Context} {u ext : List Char}

theorem Tight.marks_unblank (hd : d.Tight) : Unblank d.marks :=
  List.forall_mem_cons.2 ⟨hd.quote, hd.blockOpen⟩

theorem Tight.solid_of_mem_phrases (hd : d.Tight) {p : Phrase} (hp : p ∈ d.phrases)
    {w : List Char} (hw : w ∈ p.words) : Solid w := by
  obtain ⟨r, hr, hmem⟩ := List.mem_flatMap.1 hp
  have htight := hd.rules r hr
  cases hpattern : r.pattern with
  | keywords phrases =>
    rw [hpattern] at htight hmem
    exact htight p hmem w hw
  | _ =>
    rw [hpattern] at hmem
    exact absurd hmem List.not_mem_nil

theorem mem_phrases {r : Rule} (hr : r ∈ d.rules) {p : Phrase} (hp : p ∈ r.pattern.phrases) :
    p ∈ d.phrases :=
  List.mem_flatMap.2 ⟨r, hr, hp⟩

theorem standsAt_append {marker : List Char} (hmarker : Unblank marker) (hext : AtBlank ext) :
    standsAt marker (u ++ ext) = standsAt marker u := by
  rw [standsAt, isPrefixOf_append_of_unblank hmarker hext, standsAt]

/-- Whether only blanks and a comment follow is settled by the first character that is not
blank. -/
theorem isTrivia_append_of_ne_nil (hd : d.Tight) (hext : AtBlank ext)
    (hu : u.dropWhile isBlank ≠ []) : d.isTrivia (u ++ ext) = d.isTrivia u := by
  have hempty : (u.dropWhile isBlank ++ ext).isEmpty = (u.dropWhile isBlank).isEmpty := by
    obtain ⟨c, rest, hc⟩ := List.exists_cons_of_ne_nil hu
    rw [hc]
    rfl
  rw [isTrivia, isTrivia, dropWhile_append_of_ne_nil hu, hempty,
    standsAt_append hd.lineComment hext, standsAt_append hd.blockOpen hext]

/-! ## What may be put behind a line -/

/-- **The rest `u` of a line may be lengthened by `ext`**: a blank stands at the start of
`ext`, and no rule matches more or less on its account. -/
structure Overlooked (d : Dialect) (u ext : List Char) : Prop where
  tight : d.Tight
  atBlank : AtBlank ext
  matches_append : ∀ r ∈ d.rules, r.pattern.matchLength? (u ++ ext) = r.pattern.matchLength? u
  isTrivia_append : ∀ r ∈ d.rules, r.closedMode?.isSome = true → ∀ n,
    r.pattern.properLength? u = some n → d.isTrivia (u.drop n ++ ext) = d.isTrivia (u.drop n)

/-- Behind a mark everything is overlooked that starts with a gap. -/
theorem overlooked_of_marked (hd : d.StopsAtMarks) (hext : AtGap ext) (hu : Marked d.marks u) :
    d.Overlooked u ext := by
  have hmarks : Gapless d.marks := hd.marks_unblank.gapless
  refine ⟨hd.toTight, hext.atBlank, fun r hr => ?_, fun r hr hcloses n hn => ?_⟩
  · exact Pattern.matchLength?_append (hd.rules r hr) hext.atBlank
      (fun p hp => .marked hmarks (hd.phrases p (mem_phrases hr hp)) hu)
      fun hdelimited => absurd hdelimited (hd.bracketless r hr)
  · -- the mark stands behind the closer
    obtain ⟨hspelled, hfree⟩ := hd.closers r hr hcloses
    have hmem := Pattern.squeeze_take_mem_spellings hspelled (Option.filter_eq_some_iff.1 hn).1
    have hdrop : Marked d.marks (u.drop n) := by
      refine Marked.of_append (u := u.take n) ?_ fun c hc hmark => ?_
      · rwa [List.take_append_drop]
      · exact hfree _ hmem c (mem_squeeze hc (hmarks c hmark)) hmark
    exact isTrivia_append_of_ne_nil hd.toTight hext.atBlank
      (hdrop.dropWhile hd.marks_unblank).ne_nil

/-- **Blanks and comments are overlooked** wherever no word of a keyword and no closing
bracket stands in them. -/
theorem overlooked_of_isTrivia (hd : d.Tight) (hext : AtBlank ext)
    (htrivia : d.isTrivia ext = true)
    (hwords : ∀ p ∈ d.phrases, ∀ w ∈ p.words, w.isPrefixOf (ext.dropWhile isGap) = false)
    (hbracket : ∀ r ∈ d.rules, r.pattern.IsDelimited → Blank ext) (u : List Char) :
    d.Overlooked u ext := by
  refine ⟨hd, hext, fun r hr => ?_, fun r _ _ n _ => ?_⟩
  · exact Pattern.matchLength?_append (hd.rules r hr) hext
      (fun p hp => .behind (hwords p (mem_phrases hr hp))) (hbracket r hr)
  · by_cases hdrop : (u.drop n).dropWhile isBlank = []
    · have hblank : d.isTrivia (u.drop n) = true := by
        rw [isTrivia, hdrop]
        rfl
      rw [hblank, isTrivia, List.dropWhile_append_of_pos (List.dropWhile_eq_nil_iff.1 hdrop)]
      exact htrivia
    · exact isTrivia_append_of_ne_nil hd hext hdrop

/-! ## Closers and rules -/

namespace Overlooked

variable (h : d.Overlooked u ext)

include h

theorem properLength?_append {r : Rule} (hr : r ∈ d.rules) :
    r.pattern.properLength? (u ++ ext) = r.pattern.properLength? u := by
  rw [Pattern.properLength?, h.matches_append r hr, Pattern.properLength?]

theorem closer?_append : d.closer? (u ++ ext) = d.closer? u := by
  rw [closer?, closer?]
  refine congrArg Closer.longest? (List.filterMap_congr fun r hr => ?_)
  rw [closerOf?, closerOf?, h.properLength?_append hr]
  cases hm : r.closedMode? with
  | none => rfl
  | some m =>
    cases hn : r.pattern.properLength? u with
    | none => rfl
    | some n =>
      dsimp only
      rw [List.drop_append_of_le_length (Pattern.properLength?_bounds hn).2,
        h.isTrivia_append r hr (by rw [hm]; rfl) n hn]

end Overlooked

theorem separates_append (hext : AtBlank ext) : separates (u ++ ext) = separates u := by
  cases u with
  | nil =>
    cases ext with
    | nil => rfl
    | cons c ext => simp [separates, hext c rfl]
  | cons c u => rfl

theorem Overlooked.rule?_append (h : d.Overlooked u ext) :
    d.rule? ctx (u ++ ext) = d.rule? ctx u := by
  have happlied : ∀ r ∈ d.rules, applied? ctx (u ++ ext) r = applied? ctx u r := fun r hr => by
    rw [applied?, applied?, h.properLength?_append hr]
    cases hn : r.pattern.properLength? u with
    | none => rfl
    | some n =>
      rw [Option.bind_some, Option.bind_some,
        List.drop_append_of_le_length (Pattern.properLength?_bounds hn).2, admits,
        separates_append h.atBlank, admits]
  rw [rule?, rule?, ← List.head?_filterMap, ← List.head?_filterMap, List.filterMap_congr happlied]

/-! ## Words -/

theorem breaksWord_append (hd : d.Tight) (hext : AtBlank ext) :
    d.breaksWord (u ++ ext) = d.breaksWord u :=
  any_congr_of_mem fun r hr => Pattern.breaksWord_append (hd.rules r hr) hext

theorem wordTail_append_of_atBlank (hd : d.Tight) (hext : AtBlank ext) (inHeader : Bool) :
    d.wordTail inHeader (u ++ ext) = d.wordTail inHeader u := by
  induction u with
  | nil =>
    cases ext with
    | nil => rfl
    | cons c ext => simp [wordTail, hext c rfl]
  | cons c u ih =>
    have hbreaks := breaksWord_append (u := c :: u) hd hext
    rw [List.cons_append] at hbreaks
    rw [List.cons_append, wordTail, hbreaks, ih, wordTail]

/-! ## Steps -/

/-- **What becomes of a step when the line is lengthened**: most read what they have read.
Only one that has read all that was left may read more: a run of blanks goes on, what takes
the rest of the line takes more of it, and a comment or a string that was left open is
closed. -/
inductive Grows (d : Dialect) (u ext : List Char) : Step → Step → Prop
  | same (s : Step) : Grows d u ext s s
  | blanks (ctx : Context) (hfree : ctx.freeText = false) (hu : Blank u) :
    Grows d u ext ⟨.unstyled, u.length, ctx⟩
      ⟨.unstyled, u.length + (ext.takeWhile isBlank).length, ctx⟩
  | toEnd (kind : Kind) (next : Context) :
    Grows d u ext ⟨kind, u.length, next⟩ ⟨kind, (u ++ ext).length, next⟩
  | closed {m : Mode} {kind : Kind} {marker inner : List Char} {next : Context}
    (hm : next.state.mode.IsLiteral) (hliteral : d.Literal m kind marker)
    (hopen : past? marker inner = none) (hclosed : past? marker (inner ++ ext) ≠ none)
    (s : Step) : Grows d u ext ⟨kind, u.length, next⟩ s

/-- A step that does not read all the rest of the line is the same on the longer line. -/
theorem Grows.length_or_eq {s s' : Step} (h : d.Grows u ext s s') :
    s.length = u.length ∨ s' = s := by
  cases h with
  | same s => exact Or.inr rfl
  | blanks => exact Or.inl rfl
  | toEnd => exact Or.inl rfl
  | closed => exact Or.inl rfl

theorem Literal.isLiteral {m : Mode} {kind : Kind} {marker : List Char}
    (h : d.Literal m kind marker) : m.IsLiteral := by
  cases h with
  | comment => exact Or.inl rfl
  | string => exact Or.inr rfl

/-- Going on with a literal, the marker is found where it was, or the literal goes on to
the end of the line. -/
theorem continueStep_grows {m : Mode} {kind : Kind} {marker : List Char}
    (hliteral : d.Literal m kind marker) (hm : ctx.state.mode = m) :
    d.Grows u ext (continueStep ctx u m kind marker)
      (continueStep ctx (u ++ ext) m kind marker) := by
  unfold continueStep
  cases hn : past? marker u with
  | some n =>
    rw [past?_append_right hn]
    exact .same _
  | none =>
    cases hn' : past? marker (u ++ ext) with
    | none => exact .toEnd kind ctx
    | some n =>
      refine .closed (hm ▸ hliteral.isLiteral) hliteral hn (fun hnone => ?_) _
      rw [hnone] at hn'
      cases hn'

theorem commentStep_grows (h : standsAt d.blockOpen u = true) :
    d.Grows u ext (d.commentStep ctx u) (d.commentStep ctx (u ++ ext)) := by
  have hle : d.blockOpen.length ≤ u.length :=
    (List.isPrefixOf_iff_prefix.1 (Bool.and_eq_true_iff.1 h).2).length_le
  unfold commentStep
  rw [List.drop_append_of_le_length hle]
  cases hn : past? d.blockClose (u.drop d.blockOpen.length) with
  | some n =>
    rw [past?_append_right hn]
    exact .same _
  | none =>
    cases hn' : past? d.blockClose (u.drop d.blockOpen.length ++ ext) with
    | none => exact .toEnd .comment _
    | some n =>
      refine .closed (Or.inl rfl) .comment hn (fun hnone => ?_) _
      rw [hnone] at hn'
      cases hn'

theorem stringStep_grows (h : u.head? = some d.quote) :
    d.Grows u ext (d.stringStep ctx u) (d.stringStep ctx (u ++ ext)) := by
  obtain ⟨inner, rfl⟩ := List.head?_eq_some_iff.1 h
  unfold stringStep
  rw [List.drop_one, List.drop_one, List.cons_append, List.tail_cons, List.tail_cons]
  cases hn : past? [d.quote] inner with
  | some n =>
    rw [past?_append_right hn]
    exact .same _
  | none =>
    cases hn' : past? [d.quote] (inner ++ ext) with
    | none => exact .toEnd .string _
    | some n =>
      refine .closed (Or.inr rfl) .string hn (fun hnone => ?_) _
      rw [hnone] at hn'
      cases hn'

theorem readMatch_append (hext : AtBlank ext) (hne : u ≠ []) (r : Rule) (n : Nat) :
    readMatch ctx (u ++ ext) r n = readMatch ctx u r n := by
  unfold readMatch
  split
  · rw [List.drop_append_of_le_length (List.length_pos_iff.2 hne), readColor_append hext]
    simp only [List.length_append, Nat.add_sub_add_right]
  · rfl

theorem reach_append {extent : Extent} (hextent : extent ≠ .toEnd) {n : Nat} (hn : n ≤ u.length)
    (hext : AtBlank ext) : reach extent n (u ++ ext) = reach extent n u := by
  cases extent with
  | exact => rfl
  | toBlank =>
    have hblank : ∀ c, isBlank c = true → (!isBlank c) = false := fun c hc => by
      rw [hc]
      rfl
    rw [reach, List.drop_append_of_le_length hn, takeWhile_append_of_atBlank hblank hext, reach]
  | toEnd => exact absurd rfl hextent

theorem ruleStep_grows (hext : AtBlank ext) {r : Rule} {n : Nat}
    (hr : d.rule? ctx u = some (r, n)) :
    d.Grows u ext (ruleStep ctx u r n) (ruleStep ctx (u ++ ext) r n) := by
  have hbounds : Fits n u := rule?_bounds hr
  have hne : u ≠ [] := List.length_pos_iff.1 (Nat.lt_of_lt_of_le hbounds.1 hbounds.2)
  unfold ruleStep
  rw [readMatch_append hext hne]
  by_cases hextent : r.extent = .toEnd
  · rw [hextent]
    exact .toEnd _ _
  · have hread : (readMatch ctx u r n).2 ≤ u.length := (readMatch_fits hbounds).2
    dsimp only
    rw [reach_append hextent hread hext]
    exact .same _

theorem wordStep_append (hd : d.Tight) (hext : AtBlank ext) (hne : u ≠ []) :
    d.wordStep ctx (u ++ ext) = d.wordStep ctx u := by
  rw [wordStep, List.drop_append_of_le_length (List.length_pos_iff.2 hne),
    wordTail_append_of_atBlank hd hext, wordStep]

theorem freshStep_grows (h : d.Overlooked u ext) (hne : u ≠ []) :
    d.Grows u ext (d.freshStep ctx u) (d.freshStep ctx (u ++ ext)) := by
  have hhead : (u ++ ext).head? = u.head? := List.head?_append_of_ne_nil _ hne
  unfold freshStep
  rw [standsAt_append h.tight.lineComment h.atBlank, standsAt_append h.tight.blockOpen h.atBlank,
    hhead, h.closer?_append, h.rule?_append]
  split
  · exact .toEnd .comment ctx
  · split
    · next hblock => exact commentStep_grows hblock
    · split
      · next hquote => exact stringStep_grows hquote
      · split
        · exact .same _
        · split
          · exact .same _
          · split
            · next r n hr => exact ruleStep_grows h.atBlank hr
            · rw [wordStep_append h.tight h.atBlank hne]
              exact .same _

theorem bodyStep_grows (h : d.Overlooked u ext) :
    d.Grows u ext (d.bodyStep ctx u) (d.bodyStep ctx (u ++ ext)) := by
  unfold bodyStep
  rw [h.closer?_append]
  split
  · exact .same _
  · exact .toEnd .unstyled ctx

/-- A run of blanks goes on just if it is all that was left. -/
theorem blankStep_grows (hfree : ctx.freeText = false) :
    d.Grows u ext (blankStep ctx u) (blankStep ctx (u ++ ext)) := by
  unfold blankStep
  by_cases hrest : u.dropWhile isBlank = []
  · have hu : Blank u := List.dropWhile_eq_nil_iff.1 hrest
    rw [List.takeWhile_append_of_pos hu, List.takeWhile_eq_self_iff.2 hu, List.length_append]
    exact .blanks ctx hfree hu
  · rw [takeWhile_append_of_ne_nil hrest]
    exact .same _

/-- **A step reads what it has read**, or all that was left and more. -/
theorem step_grows (h : d.Overlooked u ext) (hne : u ≠ []) (ctx : Context) :
    d.Grows u ext (d.step ctx u) (d.step ctx (u ++ ext)) := by
  have hhead : (u ++ ext).head? = u.head? := List.head?_append_of_ne_nil _ hne
  unfold step
  rw [hhead]
  split
  · exact .toEnd .unstyled ctx
  · next hfree =>
    split
    · exact blankStep_grows (eq_false_of_ne_true hfree)
    · split
      · next hm => exact continueStep_grows .comment hm
      · next hm => exact continueStep_grows .string hm
      · split
        · exact freshStep_grows h hne
        · exact bodyStep_grows h
      · exact freshStep_grows h hne

end

end Dialect

end UmlMarkup
