import UmlMarkup.Proofs.Scan.NoteHeader

/-!
# Braces in a class diagram

The body of a class stands between braces. An opening brace opens a group and a closing one
closes it, so the groups that are open are counted by reading the braces from left to right,
provided that each of them is read as a brace.

A name takes everything up to the next blank, for only a glyph ends it before, and braces
are no glyphs. So a brace that stands behind a name, with no blank in between, is a part of
it. What is not taken is told by `looseBraces`, as a reader of the line would: keywords and
numbers end where their word ends and take no brace, any other word goes on to the next
blank. The braces that are left are those that count (`body_depth`).
-/

namespace UmlMarkup

/-! ## Names and braces -/

/-- The words of a line, its runs of word characters. -/
def wordsOf (line : List Char) : List (List Char) :=
  (line.splitOnP fun c => !isWord c).filter fun w => !w.isEmpty

/-- Whether the character is a brace. -/
def isBrace (c : Char) : Bool := ['\x7b', '\x7d'].contains c

/-- The number of open groups behind a run of braces, `n` being open before it. What is not
open is not closed. -/
def readBraces (n : Nat) (text : List Char) : Nat :=
  text.foldl (fun n c => if c = '\x7b' then n + 1 else if c = '\x7d' then n - 1 else n) n

section

variable {c : Char} {line u v w : List Char}

/-- **Words end at any other character.** -/
theorem wordsOf_append_cons (hc : isWord c = false) (u v : List Char) :
    wordsOf (u ++ c :: v) = wordsOf u ++ wordsOf v := by
  rw [wordsOf, List.splitOnP_append_cons u v (by rw [hc]; rfl), List.filter_append]
  rfl

theorem wordsOf_cons (hc : isWord c = false) (v : List Char) : wordsOf (c :: v) = wordsOf v :=
  wordsOf_append_cons hc [] v

theorem wordsOf_word (hw : WordRun w) : wordsOf w = [w] := by
  rw [wordsOf, List.splitOnP_eq_singleton fun c hc => by rw [hw.2 c hc]; rfl]
  simp [hw.1]

/-- A word that ends is one of the words. -/
theorem mem_wordsOf_append (hw : WordRun w) (hv : WordEnds v) : w ∈ wordsOf (w ++ v) := by
  cases v with
  | nil =>
    rw [List.append_nil, wordsOf_word hw]
    exact List.mem_cons_self
  | cons c v =>
    rw [wordsOf_append_cons hv, wordsOf_word hw]
    exact List.mem_cons_self

/-- The words behind a place where none goes on are words of the whole. -/
theorem wordsOf_subset_append (u : List Char) (hv : WordEnds v) :
    wordsOf v ⊆ wordsOf (u ++ v) := by
  cases v with
  | nil => exact List.nil_subset _
  | cons c v =>
    rw [wordsOf_append_cons hv, wordsOf_cons hv]
    exact List.subset_append_right _ _

theorem eq_of_isBrace (h : isBrace c = true) : c = '\x7b' ∨ c = '\x7d' := by
  simpa [isBrace] using h

theorem isWord_eq_false_of_isBrace (h : isBrace c = true) : isWord c = false := by
  rcases eq_of_isBrace h with rfl | rfl <;> decide

theorem isBlank_eq_false_of_isBrace (h : isBrace c = true) : isBlank c = false := by
  rcases eq_of_isBrace h with rfl | rfl <;> decide

end

namespace Dialect

/-- The keywords that may be glued to what follows them. -/
def modifiers (d : Dialect) : List Phrase :=
  (d.rules.filter fun r => r.extent == .toBlank).flatMap fun r => r.pattern.phrases

/-- The first words of the keywords that begin or end a note, or the plain rest of a line. -/
def noteWords (d : Dialect) : List (List Char) :=
  (d.noteOpeners ++ d.noteClosers ++ d.freeTextKeywords).map Phrase.first

/-- Whether a word is read by itself, being a keyword or a number, whatever is glued to
it. -/
def standsApart (d : Dialect) (w : List Char) : Bool :=
  d.phrases.contains ⟨w, []⟩ || w.all Char.isDigit

/-- **The braces of a line that belong to no name**: a name goes on to the next blank. -/
def looseBraces (d : Dialect) : List Char → List Char
  | [] => []
  | c :: rest =>
    if isWord c then
      let w := (c :: rest).takeWhile isWord
      let behind := rest.dropWhile isWord
      if d.standsApart w then d.looseBraces behind
      else d.looseBraces (behind.dropWhile fun c => !isBlank c)
    else if isBrace c then c :: d.looseBraces rest
    else d.looseBraces rest
termination_by line => line.length
decreasing_by
  all_goals simp only [List.length_cons]
  · exact Nat.lt_succ_of_le (List.dropWhile_sublist _).length_le
  · exact Nat.lt_succ_of_le
      ((List.dropWhile_sublist _).trans (List.dropWhile_sublist _)).length_le
  · exact Nat.lt_succ_self _
  · exact Nat.lt_succ_self _

section

variable {d : Dialect} {c : Char} {w line : List Char}

theorem looseBraces_brace (hc : isBrace c = true) (line : List Char) :
    d.looseBraces (c :: line) = c :: d.looseBraces line := by
  rw [looseBraces, isWord_eq_false_of_isBrace hc, if_neg Bool.false_ne_true, if_pos hc]

theorem looseBraces_blank (hc : isBlank c = true) (line : List Char) :
    d.looseBraces (c :: line) = d.looseBraces line := by
  have hbrace : isBrace c = false := eq_false_of_ne_true fun h =>
    Bool.noConfusion ((isBlank_eq_false_of_isBrace h).symm.trans hc)
  simp [looseBraces, hc, hbrace]

theorem looseBraces_blanks {gap : List Char} (hgap : Blank gap) (line : List Char) :
    d.looseBraces (gap ++ line) = d.looseBraces line := by
  induction gap with
  | nil => rfl
  | cons c gap ih =>
    obtain ⟨hc, hgap⟩ := List.forall_mem_cons.1 hgap
    rw [List.cons_append, looseBraces_blank hc, ih hgap]

theorem looseBraces_word (hw : WordRun w) (hline : WordEnds line) :
    d.looseBraces (w ++ line)
      = if d.standsApart w then d.looseBraces line
        else d.looseBraces (line.dropWhile fun c => !isBlank c) := by
  have htake : (w ++ line).takeWhile isWord = w := takeWhile_append_of_stop hw.2 hline
  have hdrop : (w ++ line).dropWhile isWord = line := by
    rw [← drop_length_takeWhile, htake, List.drop_left]
  obtain ⟨c, u, rfl, hc⟩ := hw.exists_cons
  rw [List.cons_append] at htake hdrop ⊢
  rw [List.dropWhile_cons_of_pos hc] at hdrop
  rw [looseBraces, if_pos hc, htake, hdrop]

end

example : classDiagram.looseBraces "class\x7b Foo\x7b 1\x7d \x7d".toList
    = "\x7b\x7d\x7d".toList := by
  decide +kernel

/-! ## Lines of names and braces -/

/-- **A line of names, blanks and braces**, with no modifier of a member in it and none of
the words that a note or a title begins or ends with. -/
structure BraceLine (line : List Char) : Prop where
  chars : ∀ c ∈ line, isWord c = true ∨ isBlank c = true ∨ isBrace c = true
  words : ∀ w ∈ wordsOf line, w ∉ classDiagram.noteWords
  modifiers : ∀ m ∈ classDiagram.modifiers, ¬ m.text <:+: line

instance : DecidablePred BraceLine := fun line =>
  decidable_of_iff
    (line.all (fun c => isWord c || isBlank c || isBrace c) = true
      ∧ (∀ w ∈ wordsOf line, w ∉ classDiagram.noteWords)
      ∧ ∀ m ∈ classDiagram.modifiers, ¬ m.text <:+: line)
    ⟨fun ⟨hchars, hwords, hmodifiers⟩ =>
        ⟨by simpa [or_assoc] using hchars, hwords, hmodifiers⟩,
      fun h => ⟨by simpa [or_assoc] using h.chars, h.words, h.modifiers⟩⟩

namespace BraceLine

variable {c : Char} {u v w line : List Char}

theorem append_right (h : BraceLine (u ++ v)) (hv : WordEnds v) : BraceLine v where
  chars c hc := h.chars c (List.mem_append_right u hc)
  words w hw := h.words w (wordsOf_subset_append u hv hw)
  modifiers m hm hin := h.modifiers m hm (hin.trans (List.suffix_append u v).isInfix)

theorem tail (h : BraceLine (c :: line)) (hc : isWord c = false) : BraceLine line where
  chars b hb := h.chars b (List.mem_cons_of_mem c hb)
  words w hw := h.words w (wordsOf_cons hc line ▸ hw)
  modifiers m hm hin := h.modifiers m hm (hin.trans (List.suffix_cons c line).isInfix)

theorem of_blanks {gap : List Char} (hgap : Blank gap) (h : BraceLine (gap ++ line)) :
    BraceLine line := by
  induction gap with
  | nil => exact h
  | cons c gap ih =>
    obtain ⟨hc, hgap⟩ := List.forall_mem_cons.1 hgap
    exact ih hgap (h.tail (isWord_eq_false_of_isBlank hc))

/-- Behind a word stands a blank or a brace. -/
theorem atStop (h : BraceLine (w ++ v)) (hv : WordEnds v) : AtStop v := by
  intro c hc
  obtain ⟨v, rfl⟩ := List.head?_eq_some_iff.1 hc
  have hword : isWord c = false := hv
  rcases h.chars c (List.mem_append_right w List.mem_cons_self) with hc | hblank | hbrace
  · exact Bool.noConfusion (hword.symm.trans hc)
  · rw [isStop, hblank, Bool.true_or]
  · rcases eq_of_isBrace hbrace with rfl | rfl <;> decide

end BraceLine

/-! ## What a pattern starts with -/

end Dialect

namespace Pattern

/-- Whether a text that the pattern matches may start with the character. -/
def startsWith (p : Pattern) (c : Char) : Bool :=
  match p with
  | literal text => text.head?.all (· == c)
  | keywords phrases => phrases.any fun q => q.first.head?.all (· == c)
  | glyphs texts => texts.any fun g => g.head?.all (· == c)
  | delimited opener _ => opener.head?.all (· == c)
  | number => c.isDigit
  | color => c == '#'

/-- A pattern that matches starts with the character that stands there. -/
theorem startsWith_of_properLength? {p : Pattern} {c : Char} {rest : List Char} {n : Nat}
    (h : p.properLength? (c :: rest) = some n) : p.startsWith c = true := by
  have hstart : ∀ {text : List Char}, text.isPrefixOf (c :: rest) = true →
      text.head?.all (· == c) = true := fun {text} hpre => by
    cases text with
    | nil => rfl
    | cons a text =>
      obtain ⟨rfl, -⟩ := List.cons_prefix_cons.1 (List.isPrefixOf_iff_prefix.1 hpre)
      exact beq_self_eq_true a
  have hmatch := (Option.filter_eq_some_iff.1 h).1
  cases p with
  | literal text =>
    rw [matchLength?, literalLength?] at hmatch
    split at hmatch
    · next hpre => exact hstart hpre
    · cases hmatch
  | keywords phrases =>
    obtain ⟨q, hq, hlength⟩ := longest?_mem hmatch
    have hwords := (Option.filter_eq_some_iff.1 hlength).1
    rw [Phrase.wordsLength?] at hwords
    split at hwords
    · next hpre => exact List.any_eq_true.2 ⟨q, hq, hstart hpre⟩
    · cases hwords
  | glyphs texts =>
    obtain ⟨g, hg, hlength⟩ := longest?_mem hmatch
    rw [literalLength?] at hlength
    split at hlength
    · next hpre => exact List.any_eq_true.2 ⟨g, hg, hstart hpre⟩
    · cases hlength
  | delimited opener closer =>
    rw [matchLength?, delimitedLength?] at hmatch
    split at hmatch
    · next hpre => exact hstart hpre
    · cases hmatch
  | number =>
    cases hc : c.isDigit with
    | true => exact hc
    | false =>
      have hstop : (c :: rest).head?.any Char.isDigit = false := hc
      have hnone : numberLength? (c :: rest) = none := by
        rw [numberLength?, digitCount, takeWhile_of_stop hstop]
        rfl
      exact absurd (hmatch.symm.trans hnone) (Option.some_ne_none n)
  | color =>
    rw [matchLength?] at hmatch
    unfold colorLength? at hmatch
    split at hmatch
    · next heq =>
      obtain ⟨rfl, -⟩ := List.cons.inj heq
      rfl
    · cases hmatch

end Pattern

namespace Dialect

/-! ## What a step takes -/

theorem class_readsWords : classDiagram.ReadsWords := builtin_readsWords _ (by decide +kernel)

/-- The keywords of a class diagram, but for those of notes and titles, open and close
nothing, and the line goes on behind them. -/
theorem class_keywords : ∀ r ∈ classDiagram.rules, ∀ q ∈ r.pattern.phrases, q.InWords →
    q.first ∈ classDiagram.noteWords ∨ r.effect = .none ∧ r.freeText = false := by
  decide +kernel

/-- Each of their words is a keyword by itself. -/
theorem class_words : ∀ q ∈ classDiagram.phrases, q.InWords →
    q.first ∈ classDiagram.noteWords ∨ ∀ v ∈ q.words, ⟨v, []⟩ ∈ classDiagram.phrases := by
  decide +kernel

/-- What starts with a brace in a class diagram is the brace itself or a modifier. -/
theorem class_openBrace : ∀ r ∈ classDiagram.rules, r.pattern.startsWith '\x7b' = true →
    r = braceOpen ∨ r.extent = .toBlank ∧ r.pattern = .keywords r.pattern.phrases
      ∧ ∀ q ∈ r.pattern.phrases, q.more = [] := by
  decide +kernel

theorem class_closeBrace :
    ∀ r ∈ classDiagram.rules, r.pattern.startsWith '\x7d' = true → r = braceClose := by
  decide +kernel

/-- The context in which some groups are open and nothing else. -/
def inGroups (n : Nat) (start : Bool) : Context :=
  { state := ⟨List.replicate n .group⟩, atStart := start }

theorem nest_inGroups (n : Nat) (start : Bool) : Nest (inGroups n start).state.stack :=
  fun _ hm => Or.inr (List.eq_of_mem_replicate hm)

/-- **A step that passes over names and blanks**: it changes nothing and takes no brace that
counts. -/
structure Passes (ctx : Context) (rest : List Char) (st : Step) : Prop where
  next : st.next = ctx
  line : BraceLine (rest.drop st.length)
  braces : classDiagram.looseBraces (rest.drop st.length) = classDiagram.looseBraces rest

section

variable {n : Nat} {start : Bool} {w v rest : List Char}

theorem blankStep_passes (h : BraceLine rest) (ctx : Context) :
    Passes ctx rest (blankStep ctx rest) := by
  have hgap := blank_takeWhile rest
  have hsplit : rest.takeWhile isBlank ++ rest.dropWhile isBlank = rest :=
    List.takeWhile_append_dropWhile
  have hdrop : rest.drop (blankStep ctx rest).length = rest.dropWhile isBlank :=
    drop_length_takeWhile isBlank rest
  refine ⟨rfl, ?_, ?_⟩
  · rw [hdrop]
    exact .of_blanks hgap (hsplit.symm ▸ h)
  · rw [hdrop]
    nth_rewrite 2 [← hsplit]
    exact (looseBraces_blanks hgap _).symm

/-- Further words of a keyword take no brace. -/
theorem looseBraces_of_tailLength? {vs : List (List Char)} {k : Nat}
    (hvs : ∀ u ∈ vs, WordRun u ∧ (⟨u, []⟩ : Phrase) ∈ classDiagram.phrases)
    (h : Phrase.tailLength? vs v = some k) (hend : WordEnds (v.drop k)) :
    classDiagram.looseBraces (v.drop k) = classDiagram.looseBraces v := by
  induction vs generalizing v k with
  | nil =>
    cases h
    rfl
  | cons u vs ih =>
    obtain ⟨⟨hu, hkeyword⟩, hvs⟩ := List.forall_mem_cons.1 hvs
    obtain ⟨gap, left, j, -, hgap, rfl, hj, rfl⟩ := exists_gap_of_tailLength? h
    rw [List.drop_length_add_append, List.drop_length_add_append] at hend ⊢
    have hapart : classDiagram.standsApart u = true := by
      rw [standsApart, List.contains_iff_mem.2 hkeyword, Bool.true_or]
    rw [looseBraces_blanks fun c hc => isBlank_of_isGap (hgap c hc),
      looseBraces_word hu (Phrase.wordEnds_of_tailLength? hj hend), if_pos hapart]
    exact ih hvs hj hend

/-- A keyword at a word of the line is none of a note or a title. -/
theorem BraceLine.first_notMem (h : BraceLine (w ++ v)) (hw : WordRun w) (hv : WordEnds v) :
    w ∉ classDiagram.noteWords := h.words w (mem_wordsOf_append hw hv)

/-- No closer stands at a word of the line. -/
theorem closer?_of_braceLine (h : BraceLine (w ++ v)) (hw : WordRun w) (hv : WordEnds v) :
    classDiagram.closer? (w ++ v) = none := by
  refine Option.eq_none_iff_forall_ne_some.2 fun c hc => ?_
  obtain ⟨r, hr, heffect, -, hn, -⟩ := closer?_spec hc
  rcases Pattern.whole_word (class_readsWords.takesWords r hr) hw (h.atStop hv) hn with
    ⟨hnumber, -⟩ | ⟨q, hq, hin, hfirst, -⟩
  · rw [(class_readsWords.numbers r hr hnumber).2.1] at heffect
    cases heffect
  · rcases class_keywords r hr q hq hin with hnote | ⟨hnone, -⟩
    · exact h.first_notMem hw hv (hfirst ▸ hnote)
    · rw [hnone] at heffect
      cases heffect

/-- A rule that applies at a word of the line takes the word, or the words of a keyword, and
changes nothing. -/
theorem ruleStep_passes (h : BraceLine (w ++ v)) (hw : WordRun w) (hv : WordEnds v) {r : Rule}
    {m : Nat} (hr : classDiagram.rule? (inGroups n start) (w ++ v) = some (r, m)) :
    Passes (inGroups n start) (w ++ v) (ruleStep (inGroups n start) (w ++ v) r m) := by
  obtain ⟨hmem, hm, -⟩ := rule?_spec hr
  have hbehind : ∀ {k : Nat}, WordEnds (v.drop k) → BraceLine (v.drop k) := fun {k} hend => by
    refine BraceLine.append_right (u := w ++ v.take k) ?_ hend
    rwa [List.append_assoc, List.take_append_drop]
  rcases Pattern.whole_word (class_readsWords.takesWords r hmem) hw (h.atStop hv) hm with
    ⟨hnumber, rfl, hdigits⟩ | ⟨q, hq, hin, hfirst, hmatch⟩
  · obtain ⟨hextent, heffect, hfree⟩ := class_readsWords.numbers r hmem hnumber
    have hapart : classDiagram.standsApart w = true := by
      rw [standsApart, List.all_eq_true.2 hdigits, Bool.or_true]
    have hcolor : r.pattern ≠ .color := by rw [hnumber]; exact Pattern.noConfusion
    rw [ruleStep_of_effect_none hcolor hextent heffect, hfree]
    refine ⟨rfl, ?_, ?_⟩
    · show BraceLine ((w ++ v).drop w.length)
      rw [List.drop_left]
      exact h.append_right hv
    · show classDiagram.looseBraces ((w ++ v).drop w.length) = _
      rw [List.drop_left, looseBraces_word hw hv, if_pos hapart]
  · have hnote : q.first ∉ classDiagram.noteWords := hfirst ▸ h.first_notMem hw hv
    obtain ⟨heffect, hfree⟩ := (class_keywords r hmem q hq hin).resolve_left hnote
    have hwords := (class_words q (List.mem_flatMap.2 ⟨r, hmem, hq⟩) hin).resolve_left hnote
    obtain ⟨-, k, hk, rfl, hend⟩ := Phrase.matchLength?_of_word hin hw.2 hv hmatch
    have hapart : classDiagram.standsApart w = true := by
      rw [standsApart, List.contains_iff_mem.2 (hfirst ▸ hwords q.first List.mem_cons_self),
        Bool.true_or]
    rw [ruleStep_of_effect_none (Pattern.ne_color_of_mem_phrases hq)
      (class_readsWords.keywords r hmem q hq hin) heffect, hfree]
    refine ⟨rfl, ?_, ?_⟩
    · show BraceLine ((w ++ v).drop (w.length + k))
      rw [List.drop_length_add_append]
      exact hbehind hend
    · show classDiagram.looseBraces ((w ++ v).drop (w.length + k)) = _
      rw [List.drop_length_add_append, looseBraces_word hw hv, if_pos hapart]
      exact looseBraces_of_tailLength?
        (fun u hu => ⟨hin.more u hu, hwords u (List.mem_cons_of_mem _ hu)⟩) hk hend

/-- Where no rule applies stands a word that is neither a keyword nor a number. -/
theorem standsApart_of_rule? (h : BraceLine (w ++ v)) (hw : WordRun w) (hv : WordEnds v)
    {ctx : Context} (hr : classDiagram.rule? ctx (w ++ v) = none) :
    classDiagram.standsApart w = false := by
  refine eq_false_of_ne_true fun hapart => ?_
  rcases Bool.or_eq_true_iff.1 hapart with hkeyword | hdigits
  · obtain ⟨r, hmem, hq⟩ := List.mem_flatMap.1 (List.contains_iff_mem.1 hkeyword)
    have hin : (⟨w, []⟩ : Phrase).InWords :=
      List.forall_mem_cons.2 ⟨hw, List.forall_mem_nil _⟩
    obtain ⟨heffect, -⟩ :=
      (class_keywords r hmem _ hq hin).resolve_left (h.first_notMem hw hv)
    exact rule?_ne_none_of_keyword hmem heffect hw hq hv ctx hr
  · have hmem : numbers ∈ classDiagram.rules := by decide +kernel
    have hlength : numbers.pattern.properLength? (w ++ v) = some w.length := by
      rw [Pattern.properLength?, show numbers.pattern.matchLength? (w ++ v) = some w.length from
        Pattern.numberLength?_of_digits hw.1 (List.all_eq_true.1 hdigits) (h.atStop hv),
        Option.filter_some, if_pos (decide_eq_true (List.length_pos_iff.2 hw.1))]
    exact rule?_ne_none hmem hlength (admits_of_effect_none rfl ctx _) hr

/-- Any other word goes on to the next blank. -/
theorem wordStep_passes (h : BraceLine (w ++ v)) (hw : WordRun w) (hv : WordEnds v)
    (hr : classDiagram.rule? (inGroups n start) (w ++ v) = none) :
    Passes (inGroups n start) (w ++ v)
      (classDiagram.wordStep (inGroups n start) (w ++ v)) := by
  have hwhole : w ++ v
      = (w ++ v.takeWhile fun c => !isBlank c) ++ v.dropWhile fun c => !isBlank c := by
    rw [List.append_assoc, List.takeWhile_append_dropWhile]
  have hstops : ∀ c ∈ (v.dropWhile fun c => !isBlank c).head?, isBlank c = true := fun c hc => by
    have hnot := any_head?_dropWhile (p := fun c => !isBlank c) v
    rw [show (v.dropWhile fun c => !isBlank c).head? = some c from hc] at hnot
    simpa using hnot
  have hglued : ∀ c ∈ w ++ v.takeWhile (fun c => !isBlank c),
      isBlank c = false ∧ (false && c == ':') = false
        ∧ ∀ rest, classDiagram.breaksWord (c :: rest) = false := by
    intro c hc
    rcases List.mem_append.1 hc with hc | hc
    · exact classDiagram.not_stops_of_isWord false (hw.2 c hc)
    · have hblank : isBlank c = false := by simpa using List.mem_takeWhile_imp hc
      have hmem : c ∈ w ++ v :=
        List.mem_append_right w ((List.takeWhile_prefix _).subset hc)
      rcases h.chars c hmem with hword | hb | hbrace
      · exact classDiagram.not_stops_of_isWord false hword
      · exact Bool.noConfusion (hblank.symm.trans hb)
      · refine ⟨hblank, rfl, fun rest => ?_⟩
        rcases eq_of_isBrace hbrace with rfl | rfl <;> rfl
  have hstep : classDiagram.wordStep (inGroups n start) (w ++ v)
      = ⟨.unstyled, (w ++ v.takeWhile fun c => !isBlank c).length, inGroups n start⟩ := by
    have hne : w ++ (v.takeWhile fun c => !isBlank c) ≠ [] := fun he =>
      hw.1 (List.append_eq_nil_iff.1 he).1
    rw [hwhole]
    exact wordStep_append_of_stop hne hglued fun c hc => by rw [hstops c hc, Bool.true_or]
  have hdrop : (w ++ v).drop (w ++ v.takeWhile fun c => !isBlank c).length
      = v.dropWhile fun c => !isBlank c := by
    rw [hwhole, List.drop_left]
  have hend : WordEnds (v.dropWhile fun c => !isBlank c) := by
    cases hd : v.dropWhile fun c => !isBlank c with
    | nil => rfl
    | cons c rest => exact isWord_eq_false_of_isBlank (hstops c (by rw [hd]; rfl))
  rw [hstep]
  refine ⟨rfl, ?_, ?_⟩
  · rw [hdrop]
    exact BraceLine.append_right (hwhole ▸ h) hend
  · rw [hdrop, looseBraces_word hw hv, standsApart_of_rule? h hw hv hr,
      if_neg Bool.false_ne_true]

/-- No modifier stands at the start of the line. -/
theorem BraceLine.properLength?_modifier (h : BraceLine rest) {r : Rule}
    (hr : r ∈ classDiagram.rules) (hextent : r.extent = .toBlank)
    (hpattern : r.pattern = .keywords r.pattern.phrases)
    (hmore : ∀ q ∈ r.pattern.phrases, q.more = []) : r.pattern.properLength? rest = none := by
  refine Option.eq_none_iff_forall_ne_some.2 fun m hm => ?_
  rw [hpattern] at hm
  obtain ⟨q, hq, hmatch⟩ := Pattern.longest?_mem (Option.filter_eq_some_iff.1 hm).1
  have hmodifier : q ∈ classDiagram.modifiers :=
    List.mem_flatMap.2 ⟨r, List.mem_filter.2 ⟨hr, beq_iff_eq.2 hextent⟩, hq⟩
  have hwords := (Option.filter_eq_some_iff.1 hmatch).1
  rw [Phrase.wordsLength?] at hwords
  split at hwords
  · next hpre =>
    refine h.modifiers q hmodifier ?_
    rw [Phrase.text, hmore q hq, List.flatMap_nil, List.append_nil]
    exact (List.isPrefixOf_iff_prefix.1 hpre).isInfix
  · cases hwords

/-- The one rule at an opening brace opens a group. -/
theorem rule?_openBrace (n : Nat) (start : Bool) (h : BraceLine ('\x7b' :: rest)) :
    classDiagram.closer? ('\x7b' :: rest) = none
    ∧ classDiagram.rule? (inGroups n start) ('\x7b' :: rest) = some (braceOpen, 1) := by
  have hrule : ∀ r ∈ classDiagram.rules, ∀ m,
      r.pattern.properLength? ('\x7b' :: rest) = some m → r = braceOpen := by
    intro r hr m hm
    refine (class_openBrace r hr (Pattern.startsWith_of_properLength? hm)).resolve_right
      fun ⟨hextent, hpattern, hmore⟩ => ?_
    rw [h.properLength?_modifier hr hextent hpattern hmore] at hm
    cases hm
  constructor
  · refine Option.eq_none_iff_forall_ne_some.2 fun c hc => ?_
    obtain ⟨r, hr, heffect, -, hm, -⟩ := closer?_spec hc
    rw [hrule r hr _ hm] at heffect
    cases heffect
  · have hmem : braceOpen ∈ classDiagram.rules := by decide +kernel
    cases hfound : classDiagram.rule? (inGroups n start) ('\x7b' :: rest) with
    | none => exact absurd hfound (rule?_ne_none hmem (n := 1) rfl rfl)
    | some found =>
      obtain ⟨r, m⟩ := found
      obtain ⟨hr, hm, -⟩ := rule?_spec hfound
      obtain rfl := hrule r hr m hm
      obtain rfl : 1 = m := Option.some.inj hm
      rfl

/-- The one closer at a closing brace closes a group. -/
theorem closer?_closeBrace (rest : List Char) :
    classDiagram.closer? ('\x7d' :: rest) = some ⟨.operator, .group, 1⟩ := by
  have hmem : braceClose ∈ classDiagram.rules := by decide +kernel
  have hcloser : (⟨.operator, .group, 1⟩ : Closer)
      ∈ classDiagram.rules.filterMap (classDiagram.closerOf? ('\x7d' :: rest)) :=
    List.mem_filterMap.2 ⟨braceClose, hmem, rfl⟩
  obtain ⟨⟨kind, mode, length⟩, hc, -⟩ := Closer.exists_longest? hcloser
  obtain ⟨r, hr, heffect, hkind, hm, -⟩ := closer?_spec hc
  obtain rfl := class_closeBrace r hr (Pattern.startsWith_of_properLength? hm)
  obtain rfl : Mode.group = mode := Effect.exit.inj heffect
  obtain rfl : Kind.operator = kind := hkind
  obtain rfl : 1 = length := Option.some.inj hm
  exact hc

/-- **A step takes one brace that counts, or none.** -/
theorem step_braces (n : Nat) (start : Bool) (hne : rest ≠ []) (h : BraceLine rest) :
    Passes (inGroups n start) rest (classDiagram.step (inGroups n start) rest)
    ∨ ∃ c rest', rest = c :: rest' ∧ isBrace c = true
      ∧ (classDiagram.step (inGroups n start) rest).length = 1
      ∧ (classDiagram.step (inGroups n start) rest).next = inGroups (readBraces n [c]) start := by
  have hnest := nest_inGroups n start
  obtain ⟨c, behind, rfl⟩ := List.exists_cons_of_ne_nil hne
  rcases h.chars c List.mem_cons_self with hword | hblank | hbrace
  · refine Or.inl ?_
    have hsome : (c :: behind).head?.any isWord = true := hword
    rw [step_of_nest hnest rfl (flush_of_any_isWord hsome).any_head?,
      freshStep_of_word (builtin_sparesNames _ (by decide +kernel)) hsome, tableStep]
    obtain ⟨w, v, heq, hw, hv⟩ := exists_wordRun_append hsome
    rw [heq] at h ⊢
    rw [closer?_of_braceLine h hw hv]
    cases hr : classDiagram.rule? (inGroups n start) (w ++ v) with
    | none => exact wordStep_passes h hw hv hr
    | some found => exact ruleStep_passes h hw hv hr
  · refine Or.inl ?_
    have hstep : classDiagram.step (inGroups n start) (c :: behind)
        = blankStep (inGroups n start) (c :: behind) := step_of_blank rfl hblank
    rw [hstep]
    exact blankStep_passes h _
  · refine Or.inr ⟨c, behind, rfl, hbrace, ?_⟩
    rw [step_of_nest hnest rfl
      (show (c :: behind).head?.any isBlank = false from isBlank_eq_false_of_isBrace hbrace)]
    rcases eq_of_isBrace hbrace with rfl | rfl
    · have hquote : ('\x7b' :: behind).head? ≠ some classDiagram.quote :=
        show some '\x7b' ≠ some '"' by decide
      obtain ⟨hcloser, hrule⟩ := rule?_openBrace n start h
      rw [freshStep_of_unmarked rfl rfl hquote rfl, tableStep, hcloser, hrule]
      exact ⟨rfl, rfl⟩
    · have hquote : ('\x7d' :: behind).head? ≠ some classDiagram.quote :=
        show some '\x7d' ≠ some '"' by decide
      rw [freshStep_of_unmarked rfl rfl hquote rfl, tableStep, closer?_closeBrace]
      cases n with
      | zero => exact ⟨rfl, rfl⟩
      | succ n => exact ⟨rfl, rfl⟩

/-- **Reading on from any position of a line**, the loose braces that are left count. -/
theorem endState_braces (h : BraceLine rest) :
    classDiagram.endState (inGroups n start) rest
      = ⟨List.replicate (readBraces n (classDiagram.looseBraces rest)) .group⟩ := by
  generalize hctx : inGroups n start = ctx
  induction ctx, rest using classDiagram.scan_induction generalizing n start with
  | atEnd ctx =>
    subst hctx
    rw [endState_nil, looseBraces]
    rfl
  | token ctx rest hne ih =>
    subst hctx
    rw [endState_of_ne_nil hne]
    rcases step_braces n start hne h with hpasses | ⟨c, behind, rfl, hbrace, hlength, hnext⟩
    · have hcontext : inGroups n false = classDiagram.contextAfter (inGroups n start) rest := by
        rw [contextAfter, hpasses.next]
        rfl
      rw [ih hpasses.line hcontext, restAfter, hpasses.braces]
    · have hbehind : classDiagram.restAfter (inGroups n start) (c :: behind) = behind := by
        rw [restAfter, hlength]
        rfl
      have hcontext : inGroups (readBraces n [c]) false
          = classDiagram.contextAfter (inGroups n start) (c :: behind) := by
        rw [contextAfter, hnext]
        rfl
      rw [hbehind] at ih ⊢
      rw [ih (h.tail (isWord_eq_false_of_isBrace hbrace)) hcontext, looseBraces_brace hbrace]
      rfl

/-- **The groups open behind a line of a class diagram** are those that its braces leave,
read from left to right, but for the braces that are glued to a name. -/
theorem body_depth {line : List Char} (n : Nat) (h : BraceLine line) :
    (classDiagram.scanLine ⟨List.replicate n .group⟩ line).stateAfter
      = ⟨List.replicate (readBraces n (classDiagram.looseBraces line)) .group⟩ := by
  have hgap := blank_takeWhile line
  have hsplit : line.takeWhile isBlank ++ line.dropWhile isBlank = line :=
    List.takeWhile_append_dropWhile
  have hline : BraceLine (line.dropWhile isBlank) := .of_blanks hgap (hsplit.symm ▸ h)
  show classDiagram.endState (inGroups n true) (line.dropWhile isBlank) = _
  rw [endState_braces hline]
  nth_rewrite 2 [← hsplit]
  rw [looseBraces_blanks hgap]

/-- The brace behind a keyword counts, as does the one behind a number, and so do those that
begin a run of names and braces. The others are parts of names. -/
theorem body_depth_of_glued :
    BraceLine "\x7d\x7d\x7bclass\x7b Foo\x7b\x7d 12\x7d \x7bA\x7d".toList
    ∧ (classDiagram.scanLine ⟨[.group]⟩
        "\x7d\x7d\x7bclass\x7b Foo\x7b\x7d 12\x7d \x7bA\x7d".toList).stateAfter
      = ⟨[.group, .group]⟩ := by
  have hline : BraceLine "\x7d\x7d\x7bclass\x7b Foo\x7b\x7d 12\x7d \x7bA\x7d".toList := by
    decide +kernel
  refine ⟨hline, (body_depth 1 hline).trans ?_⟩
  decide +kernel

/-- Not every brace counts: the one behind a name is a part of it. -/
theorem not_every_brace_counts :
    ¬ ∀ n line, BraceLine line →
      (classDiagram.scanLine ⟨List.replicate n .group⟩ line).stateAfter
        = ⟨List.replicate (readBraces n line) .group⟩ := fun h =>
  absurd (h 0 "Foo\x7b".toList (by decide +kernel)) (by decide +kernel)

end

end Dialect

end UmlMarkup
