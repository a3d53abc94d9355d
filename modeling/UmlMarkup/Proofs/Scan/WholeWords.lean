import Mathlib.Data.List.Basic
import UmlMarkup.Proofs.Pattern.Meaning
import UmlMarkup.Proofs.Scan.LineEnd
import UmlMarkup.Proofs.Scan.Words

/-!
# Keywords are whole words

Where a line is written in words and nothing else – the header of a note, the head of a
class body – what the table of a built-in dialect makes of it is told word by word. A
keyword that begins at a word takes the word whole, and if it goes on it takes the next
words whole, for a gap must follow each of them and the last must not run on into a
longer word (`Phrase.matchLength?_of_word`, `Phrase.eq_append_of_matchLength?`). A number
takes the whole word as well, since no word goes on behind what a number means
(`IsNumber`), and everything else starts with another character, or holds one
(`Pattern.whole_word`). And a keyword that opens and closes nothing is read wherever it
stands (`Dialect.rule?_ne_none_of_keyword`).

How a word may end is part of the statement. Behind it stands a **stop**: nothing at all,
a blank, a colon or a brace. Behind a word and a dash an arrow could begin in the word, as
`o->` does.
-/

namespace UmlMarkup

/-! ## Words and stops -/

/-- One or more word characters. -/
def WordRun (w : List Char) : Prop := w ≠ [] ∧ ∀ c ∈ w, isWord c = true

instance : DecidablePred WordRun := fun w =>
  have : Decidable (∀ c ∈ w, isWord c = true) := List.decidableBAll (fun c => isWord c = true) w
  inferInstanceAs (Decidable (w ≠ [] ∧ _))

/-- Whether a word ends before the character, and nothing of a glyph begins in the word. -/
def isStop (c : Char) : Bool := isBlank c || [':', '\x7b', '\x7d'].contains c

/-- The text is over, or a stop stands at its start. -/
def AtStop (text : List Char) : Prop := ∀ c ∈ text.head?, isStop c = true

/-- No word goes on at the start of the text. -/
def WordEnds (text : List Char) : Prop := text.head?.any isWord = false

theorem isWord_eq_false_of_isStop {c : Char} (h : isStop c = true) : isWord c = false := by
  refine eq_false_of_ne_true fun hw => ?_
  rw [isStop, isBlank_eq_false_of_isWord hw, Bool.false_or, List.contains_iff_mem] at h
  have hnone : [':', '\x7b', '\x7d'].all (fun c => !isWord c) = true := by decide
  have hc := List.all_eq_true.1 hnone c h
  rw [hw] at hc
  exact Bool.noConfusion hc

theorem AtStop.wordEnds {text : List Char} (h : AtStop text) : WordEnds text := by
  cases text with
  | nil => rfl
  | cons c text => exact isWord_eq_false_of_isStop (h c rfl)

theorem wordEnds_of_isGap {c : Char} (h : isGap c = true) (text : List Char) :
    WordEnds (c :: text) :=
  eq_false_of_ne_true fun hw =>
    Bool.noConfusion ((isGap_eq_false_of_isWord hw).symm.trans h)

theorem WordRun.exists_cons {w : List Char} (h : WordRun w) :
    ∃ c rest, w = c :: rest ∧ isWord c = true := by
  obtain ⟨c, rest, rfl⟩ := List.exists_cons_of_ne_nil h.1
  exact ⟨c, rest, rfl, h.2 c List.mem_cons_self⟩

@[simp] theorem WordRun.any_head? {w : List Char} (h : WordRun w) (tail : List Char) :
    (w ++ tail).head?.any isWord = true := by
  obtain ⟨c, w, rfl, hc⟩ := h.exists_cons
  exact hc

/-- A word character is no blank. -/
theorem flush_of_any_isWord {text : List Char} (h : text.head?.any isWord = true) : Flush text := by
  obtain ⟨c, hhead, hc⟩ := (Option.any_eq_true _ _).1 h
  exact ⟨c, hhead, isBlank_eq_false_of_isWord hc⟩

theorem Wordlike.wordRun {w : List Char} (h : Wordlike w) : WordRun w := by
  obtain ⟨c, rest, rfl, -⟩ := h.exists_cons
  exact ⟨List.cons_ne_nil c rest, h.word⟩

/-- A name is no number. -/
theorem Wordlike.not_digits {w : List Char} (h : Wordlike w) : ¬ ∀ c ∈ w, c.isDigit = true := by
  obtain ⟨c, rest, rfl, -, hdigit⟩ := h.exists_cons
  exact fun hall => Bool.noConfusion (hdigit.symm.trans (hall c List.mem_cons_self))

/-- A text that starts with a word character is a word and what stands behind it. -/
theorem exists_wordRun_append {text : List Char} (h : text.head?.any isWord = true) :
    ∃ w rest, text = w ++ rest ∧ WordRun w ∧ WordEnds rest := by
  obtain ⟨w, rest, rfl, hw, hrest⟩ := exists_run isWord text
  refine ⟨w, rest, rfl, ⟨?_, hw⟩, hrest⟩
  rintro rfl
  exact Bool.noConfusion (hrest.symm.trans h)

/-! ## Words with a space before each of them -/

section

variable {tail : List Char}

theorem atStop_flatMap (ws : List (List Char)) (htail : AtStop tail) :
    AtStop (ws.flatMap (' ' :: ·) ++ tail) := by
  cases ws with
  | nil => exact htail
  | cons w ws =>
    intro c hc
    cases hc
    rfl

theorem wordEnds_flatMap (ws : List (List Char)) (htail : WordEnds tail) :
    WordEnds (ws.flatMap (' ' :: ·) ++ tail) := by
  cases ws with
  | nil => exact htail
  | cons w ws => exact wordEnds_of_isGap (c := ' ') rfl _

theorem behindGaps_flatMap (ws : List (List Char)) :
    BehindGaps ws (ws.flatMap (' ' :: ·)) := by
  induction ws with
  | nil => exact .nil
  | cons w ws ih =>
    have hgap : ∀ c ∈ [' '], isGap c = true := List.forall_mem_singleton.2 rfl
    exact .cons (List.cons_ne_nil _ _) hgap ih

end

/-! ## Phrases -/

namespace Phrase

/-- The phrase with further words behind it. -/
def append (p : Phrase) (ws : List (List Char)) : Phrase := ⟨p.first, p.more ++ ws⟩

@[simp] theorem text_singleton (w : List Char) : (⟨w, []⟩ : Phrase).text = w := List.append_nil w

@[simp] theorem words_append (p : Phrase) (ws : List (List Char)) :
    (p.append ws).words = p.words ++ ws := rfl

@[simp] theorem text_append (p : Phrase) (ws : List (List Char)) :
    (p.append ws).text = p.text ++ ws.flatMap (' ' :: ·) := by
  rw [text, text, append, List.flatMap_append, List.append_assoc]

theorem eq_append_iff {p line : Phrase} {ws : List (List Char)} :
    line = p.append ws ↔ line.words = p.words ++ ws := by
  refine ⟨fun h => h ▸ words_append p ws, fun h => ?_⟩
  obtain ⟨first, more⟩ := line
  obtain ⟨rfl, rfl⟩ := List.cons.inj h
  rfl

/-- The phrase is made of words alone. -/
def InWords (p : Phrase) : Prop := ∀ w ∈ p.words, WordRun w

instance : DecidablePred InWords := fun p =>
  inferInstanceAs (Decidable (∀ w ∈ p.words, WordRun w))

theorem InWords.first {p : Phrase} (h : p.InWords) : WordRun p.first := h _ List.mem_cons_self

theorem InWords.more {p : Phrase} (h : p.InWords) : ∀ w ∈ p.more, WordRun w := fun w hw =>
  h w (List.mem_cons_of_mem _ hw)

theorem InWords.plain {p : Phrase} (h : p.InWords) : p.Plain := fun w hw =>
  ⟨(h w hw).1, fun c hc => isGap_eq_false_of_isWord ((h w hw).2 c hc)⟩

theorem InWords.append {p : Phrase} (h : p.InWords) {ws : List (List Char)}
    (hws : ∀ w ∈ ws, WordRun w) : (p.append ws).InWords := fun w hw =>
  (List.mem_append.1 hw).elim (h w) (hws w)

@[simp] theorem InWords.any_head? {p : Phrase} (h : p.InWords) (tail : List Char) :
    (p.text ++ tail).head?.any isWord = true := by
  rw [text, List.append_assoc]
  exact h.first.any_head? _

/-- A phrase made of words ends in a word character. -/
@[simp] theorem InWords.endsInWord {p : Phrase} (h : p.InWords) : p.endsInWord = true := by
  have hend : ∀ (ws : List (List Char)) (w : List Char), WordRun w → (∀ v ∈ ws, WordRun v) →
      (w ++ ws.flatMap (' ' :: ·)).getLast?.any isWord = true := by
    intro ws
    induction ws with
    | nil =>
      intro w hw _
      rw [List.flatMap_nil, List.append_nil, List.getLast?_eq_some_getLast hw.1]
      exact hw.2 _ (List.getLast_mem hw.1)
    | cons v ws ih =>
      intro w _ hws
      obtain ⟨hv, hws⟩ := List.forall_mem_cons.1 hws
      have hne : v ++ ws.flatMap (' ' :: ·) ≠ [] := fun he => hv.1 (List.append_eq_nil_iff.1 he).1
      rw [List.flatMap_cons, List.cons_append, List.append_cons,
        List.getLast?_append_of_ne_nil _ hne]
      exact ih v hv hws
  exact hend p.more p.first h.first h.more

/-- Where further words of a phrase match and end, no word goes on before them. -/
theorem wordEnds_of_tailLength? {ws : List (List Char)} {text : List Char} {k : Nat}
    (h : tailLength? ws text = some k) (hend : WordEnds (text.drop k)) : WordEnds text := by
  cases ws with
  | nil =>
    cases h
    exact hend
  | cons w ws =>
    obtain ⟨gap, left, k, hne, hgap, rfl, -⟩ := exists_gap_of_tailLength? h
    obtain ⟨c, gap, rfl⟩ := List.exists_cons_of_ne_nil hne
    exact wordEnds_of_isGap (hgap c List.mem_cons_self) _

variable {p : Phrase} {w tail : List Char} {n : Nat}

/-- **A phrase takes a word whole**, and goes on behind it. -/
theorem matchLength?_of_word (hp : p.InWords) (hw : ∀ c ∈ w, isWord c = true)
    (htail : WordEnds tail) (h : p.matchLength? (w ++ tail) = some n) :
    p.first = w ∧ ∃ k, tailLength? p.more tail = some k ∧ n = w.length + k
      ∧ WordEnds (tail.drop k) := by
  obtain ⟨hwords, hboundary⟩ := Option.filter_eq_some_iff.1 h
  rw [hp.endsInWord, Bool.true_and, Bool.not_eq_true'] at hboundary
  unfold wordsLength? at hwords
  split at hwords
  · next hpre =>
    obtain ⟨k, hk, rfl⟩ := Option.map_eq_some_iff.1 hwords
    obtain ⟨left, hleft⟩ := List.isPrefixOf_iff_prefix.1 hpre
    rw [← hleft, List.drop_left] at hk
    rw [← hleft, List.drop_length_add_append] at hboundary
    obtain ⟨rfl, rfl⟩ := run_unique hp.first.2 hw (wordEnds_of_tailLength? hk hboundary) htail
      hleft
    exact ⟨rfl, k, hk, rfl, hboundary⟩
  · cases hwords

/-- **A phrase made of words matches its own text**, if no word goes on behind it. -/
theorem matchLength?_text (hp : p.InWords) {rest : List Char} (hrest : WordEnds rest) :
    p.matchLength? (p.text ++ rest) = some p.text.length :=
  ((Pattern.measures_phrase hp.plain).iff p.text rest).2
    ⟨⟨_, rfl, behindGaps_flatMap p.more⟩, fun h => Bool.noConfusion (hrest.symm.trans h.2)⟩

/-- Among words with single spaces between them, further words of a phrase match the next
of the words, if no word follows the last of these. -/
theorem words_of_tailLength? {vs ws : List (List Char)} {k : Nat} (hvs : ∀ v ∈ vs, WordRun v)
    (hws : ∀ w ∈ ws, WordRun w) (htail : WordEnds tail) (hlast : WordEnds (tail.dropWhile isGap))
    (h : tailLength? vs (ws.flatMap (' ' :: ·) ++ tail) = some k)
    (hend : WordEnds ((ws.flatMap (' ' :: ·) ++ tail).drop k)) :
    ∃ us, ws = vs ++ us ∧ k = (vs.flatMap (' ' :: ·)).length := by
  induction vs generalizing ws k with
  | nil =>
    cases h
    exact ⟨ws, rfl, rfl⟩
  | cons v vs ih =>
    obtain ⟨hv, hmore⟩ := List.forall_mem_cons.1 hvs
    obtain ⟨gap, left, j, hne, hgaps, htext, hj, rfl⟩ := exists_gap_of_tailLength? h
    cases ws with
    | nil =>
      have hdrop : tail.dropWhile isGap = v ++ left := by
        rw [show tail = gap ++ (v ++ left) from htext, List.dropWhile_append_of_pos hgaps]
        obtain ⟨c, v, rfl, hc⟩ := hv.exists_cons
        exact List.dropWhile_cons_of_neg (by simp [isGap_eq_false_of_isWord hc])
      rw [hdrop] at hlast
      exact Bool.noConfusion ((hv.any_head? left).symm.trans hlast)
    | cons w ws =>
      obtain ⟨hw, hleft⟩ := List.forall_mem_cons.1 hws
      obtain ⟨g, gap, rfl⟩ := List.exists_cons_of_ne_nil hne
      have hsplit : gap ++ (v ++ left) = w ++ (ws.flatMap (' ' :: ·) ++ tail) := by
        rw [List.flatMap_cons, List.cons_append, List.cons_append, List.append_assoc] at htext
        exact (List.cons.inj htext).2.symm
      obtain rfl : gap = [] := by
        obtain ⟨c, w, rfl, hc⟩ := hw.exists_cons
        cases gap with
        | nil => rfl
        | cons b gap =>
          obtain ⟨rfl, -⟩ := List.cons.inj hsplit
          have hb := hgaps b (List.mem_cons_of_mem _ List.mem_cons_self)
          exact Bool.noConfusion (hb.symm.trans (isGap_eq_false_of_isWord hc))
      rw [htext, List.drop_length_add_append, List.drop_length_add_append] at hend
      obtain ⟨rfl, rfl⟩ := run_unique hv.2 hw.2 (wordEnds_of_tailLength? hj hend)
        (wordEnds_flatMap ws htail) hsplit
      obtain ⟨us, hus, rfl⟩ := ih hmore hleft hj hend
      refine ⟨us, by rw [hus, List.cons_append], ?_⟩
      simp only [List.flatMap_cons, List.length_append, List.length_cons, List.length_nil]
      omega

/-- **Among words with single spaces between them a phrase takes some of the words**, from
the first one on. -/
theorem eq_append_of_matchLength? (hp : p.InWords) {line : Phrase} (hline : line.InWords)
    (htail : WordEnds tail) (hlast : WordEnds (tail.dropWhile isGap))
    (h : p.matchLength? (line.text ++ tail) = some n) :
    ∃ ws, line = p.append ws ∧ n = p.text.length := by
  rw [text, List.append_assoc] at h
  obtain ⟨hfirst, k, hk, rfl, hend⟩ :=
    matchLength?_of_word hp hline.first.2 (wordEnds_flatMap line.more htail) h
  obtain ⟨ws, hws, rfl⟩ := words_of_tailLength? hp.more hline.more htail hlast hk hend
  refine ⟨ws, eq_append_iff.2 ?_, by rw [text, hfirst, List.length_append]⟩
  rw [words, words, hfirst, hws, List.cons_append]

end Phrase

/-! ## Patterns -/

/-- What the pattern matches at a word before a stop is one or more whole words: what is
not made of words starts with another character, or is a glyph that holds one which is no
stop. -/
def Pattern.TakesWords : Pattern → Prop
  | literal text => StartsOutside text
  | keywords phrases => ∀ p ∈ phrases, StartsOutside p.first ∨ p.InWords
  | glyphs texts => ∀ g ∈ texts,
      StartsOutside g ∨ (∀ c ∈ g, isStop c = false) ∧ ∃ c ∈ g, isWord c = false
  | delimited opener _ => StartsOutside opener
  | number | color => True

instance : DecidablePred Pattern.TakesWords
  | .literal text => inferInstanceAs (Decidable (StartsOutside text))
  | .keywords phrases =>
    inferInstanceAs (Decidable (∀ p ∈ phrases, StartsOutside p.first ∨ p.InWords))
  | .glyphs texts =>
    have : DecidablePred fun g : List Char => ∀ c ∈ g, isStop c = false := fun g =>
      List.decidableBAll (fun c => isStop c = false) g
    have : DecidablePred fun g : List Char => ∃ c ∈ g, isWord c = false := fun g =>
      List.decidableBEx (fun c => isWord c = false) g
    inferInstanceAs (Decidable (∀ g ∈ texts,
      StartsOutside g ∨ (∀ c ∈ g, isStop c = false) ∧ ∃ c ∈ g, isWord c = false))
  | .delimited opener _ => inferInstanceAs (Decidable (StartsOutside opener))
  | .number | .color => .isTrue trivial

namespace Pattern

variable {p : Pattern} {w tail : List Char} {n : Nat}

/-- A glyph that holds another character does not begin in a word before a stop. -/
theorem isPrefixOf_eq_false_of_stop {g : List Char} (hstop : ∀ c ∈ g, isStop c = false)
    (hout : ∃ c ∈ g, isWord c = false) (hw : ∀ c ∈ w, isWord c = true) (htail : AtStop tail) :
    g.isPrefixOf (w ++ tail) = false := by
  obtain ⟨c, hc, hcout⟩ := hout
  refine eq_false_of_ne_true fun hpre => ?_
  rcases List.prefix_or_prefix_of_prefix (List.isPrefixOf_iff_prefix.1 hpre)
    (List.prefix_append w tail) with h | ⟨u, rfl⟩
  · exact Bool.noConfusion (hcout.symm.trans (hw c (h.subset hc)))
  · cases u with
    | nil =>
      rw [List.append_nil] at hc
      exact Bool.noConfusion (hcout.symm.trans (hw c hc))
    | cons b u =>
      -- it would go on with the stop
      obtain ⟨left, rfl⟩ := (List.prefix_append_right_inj w).1 (List.isPrefixOf_iff_prefix.1 hpre)
      have hb := hstop b (List.mem_append_right w List.mem_cons_self)
      exact Bool.noConfusion (hb.symm.trans (htail b rfl))

@[simp] theorem isWord_of_isDigit {c : Char} (h : c.isDigit = true) : isWord c = true :=
  isWord_of_isAlphanum (by rw [Char.isAlphanum, h, Bool.or_true])

/-- A stop is no digit. -/
theorem isDigit_eq_false_of_isStop {c : Char} (h : isStop c = true) : c.isDigit = false :=
  eq_false_of_ne_true fun hd =>
    Bool.noConfusion ((isWord_eq_false_of_isStop h).symm.trans (isWord_of_isDigit hd))

/-- A word of digits is a number. -/
theorem numberLength?_of_digits (hne : w ≠ []) (hw : ∀ c ∈ w, c.isDigit = true)
    (htail : AtStop tail) : numberLength? (w ++ tail) = some w.length := by
  have hstop : tail.head?.any Char.isDigit = false := by
    cases tail with
    | nil => rfl
    | cons c tail => exact isDigit_eq_false_of_isStop (htail c rfl)
  refine (measures_number.iff w tail).2 (.whole hne ⟨hw, hstop⟩ ?_ htail.wordEnds)
  rintro c rest rfl
  exact absurd (htail '.' rfl) (by decide)

/-- A number that begins in a word is the whole word. -/
theorem number_of_word (hw : ∀ c ∈ w, isWord c = true) (htail : AtStop tail)
    (h : numberLength? (w ++ tail) = some n) : n = w.length ∧ ∀ c ∈ w, c.isDigit = true := by
  obtain ⟨m, left, heq, rfl, hm⟩ := measures_number.exists_append h
  cases hm with
  | whole hne hdigits hpoint hend =>
    obtain ⟨rfl, -⟩ := run_unique hw (fun c hc => isWord_of_isDigit (hdigits.digit c hc))
      htail.wordEnds hend heq
    exact ⟨rfl, hdigits.digit⟩
  | @fraction digits places left hne hdigits hplaces hleft hend =>
    -- the point would be the stop
    rw [List.append_assoc, List.cons_append] at heq
    have hpoint : WordEnds ('.' :: (places ++ left)) := show isWord '.' = false by decide
    obtain ⟨rfl, rfl⟩ := run_unique hw (fun c hc => isWord_of_isDigit (hdigits.digit c hc))
      htail.wordEnds hpoint heq
    exact absurd (htail '.' rfl) (by decide)

/-- **Whole words.** What a pattern matches at a word before a stop is a number that is
the whole word, or a keyword of which the word is the first. -/
theorem whole_word (hp : p.TakesWords) (hw : WordRun w) (htail : AtStop tail)
    (h : p.properLength? (w ++ tail) = some n) :
    (p = .number ∧ n = w.length ∧ ∀ c ∈ w, c.isDigit = true)
    ∨ ∃ ph ∈ p.phrases, ph.InWords ∧ ph.first = w ∧ ph.matchLength? (w ++ tail) = some n := by
  have hmatch := (Option.filter_eq_some_iff.1 h).1
  have hword := hw.any_head? tail
  cases p with
  | literal text =>
    rw [matchLength?, literalLength?, hp.isPrefixOf_eq_false hword,
      if_neg Bool.false_ne_true] at hmatch
    cases hmatch
  | keywords phrases =>
    obtain ⟨ph, hmem, hph⟩ := longest?_mem hmatch
    rcases hp ph hmem with hout | hwords
    · have hnone : ph.matchLength? (w ++ tail) = none := by
        rw [Phrase.matchLength?, Phrase.wordsLength?, hout.isPrefixOf_eq_false hword,
          if_neg Bool.false_ne_true]
        rfl
      rw [hnone] at hph
      cases hph
    · exact Or.inr ⟨ph, hmem, hwords,
        (Phrase.matchLength?_of_word hwords hw.2 htail.wordEnds hph).1, hph⟩
  | glyphs texts =>
    obtain ⟨g, hmem, hg⟩ := longest?_mem hmatch
    have hnone : g.isPrefixOf (w ++ tail) = false := by
      rcases hp g hmem with hout | ⟨hstop, hout⟩
      · exact hout.isPrefixOf_eq_false hword
      · exact isPrefixOf_eq_false_of_stop hstop hout hw.2 htail
    rw [literalLength?, hnone, if_neg Bool.false_ne_true] at hg
    cases hg
  | delimited opener closer =>
    rw [matchLength?, delimitedLength?, hp.isPrefixOf_eq_false hword,
      if_neg Bool.false_ne_true] at hmatch
    cases hmatch
  | number => exact Or.inl ⟨rfl, number_of_word hw.2 htail hmatch⟩
  | color =>
    obtain ⟨c, w, rfl, hc⟩ := hw.exists_cons
    have hc : c ≠ '#' := fun he => by
      rw [he] at hc
      exact absurd hc (by decide)
    rw [matchLength?, List.cons_append, colorLength?.eq_2 _ fun _ _ he => hc (List.cons.inj he).1]
      at hmatch
    cases hmatch

/-- **Among words with single spaces between them**, what a pattern matches is a number
that is the first word, or a keyword made of the words from the first one on. -/
theorem eq_append_of_properLength? (hp : p.TakesWords) {line : Phrase} (hline : line.InWords)
    (htail : AtStop tail) (hlast : WordEnds (tail.dropWhile isGap))
    (h : p.properLength? (line.text ++ tail) = some n) :
    (p = .number ∧ n = line.first.length ∧ ∀ c ∈ line.first, c.isDigit = true)
    ∨ ∃ q ∈ p.phrases, q.InWords ∧ ∃ ws, line = q.append ws ∧ n = q.text.length := by
  have hsplit : line.text ++ tail = line.first ++ (line.more.flatMap (' ' :: ·) ++ tail) :=
    List.append_assoc ..
  rw [hsplit] at h
  rcases whole_word hp hline.first (atStop_flatMap line.more htail) h with
    hnumber | ⟨q, hq, hwords, -, hmatch⟩
  · exact Or.inl hnumber
  · rw [← hsplit] at hmatch
    exact Or.inr ⟨q, hq, hwords,
      Phrase.eq_append_of_matchLength? hwords hline htail.wordEnds hlast hmatch⟩

theorem ne_color_of_mem_phrases {q : Phrase} (h : q ∈ p.phrases) : p ≠ .color := by
  rintro rfl
  cases h

/-- Where a keyword of the pattern matches, the pattern matches, and no less. -/
theorem exists_properLength? {ph : Phrase} (hmem : ph ∈ p.phrases) {text : List Char}
    (h : ph.matchLength? text = some n) (hpos : 0 < n) :
    ∃ m, p.properLength? text = some m ∧ n ≤ m := by
  cases p with
  | keywords phrases =>
    have hlist : n ∈ phrases.filterMap fun ph => ph.matchLength? text :=
      List.mem_filterMap.2 ⟨ph, hmem, h⟩
    cases hmax : (phrases.filterMap fun ph => ph.matchLength? text).max? with
    | none => exact absurd (List.max?_eq_none_iff.1 hmax ▸ hlist) List.not_mem_nil
    | some m =>
      have hle : n ≤ m := (List.max?_eq_some_iff.1 hmax).2 n hlist
      refine ⟨m, ?_, hle⟩
      rw [properLength?, matchLength?, longest?, hmax, Option.filter_some,
        if_pos (decide_eq_true (Nat.lt_of_lt_of_le hpos hle))]
  | literal text => cases hmem
  | glyphs texts => cases hmem
  | delimited opener closer => cases hmem
  | number => cases hmem
  | color => cases hmem

end Pattern

namespace Dialect

/-! ## Where a rule applies -/

section

variable {d : Dialect} {ctx : Context} {r : Rule} {w tail text : List Char} {n : Nat}

/-- The step of a rule that opens and closes nothing and takes its match alone. -/
theorem ruleStep_of_effect_none (hcolor : r.pattern ≠ .color) (hextent : r.extent = .exact)
    (heffect : r.effect = .none) (ctx : Context) (text : List Char) (n : Nat) :
    ruleStep ctx text r n
      = ⟨r.kind, n, { ctx with freeText := ctx.freeText || r.freeText }⟩ := by
  rw [ruleStep, readMatch, if_neg hcolor, hextent, heffect]
  rfl

/-- A rule that opens and closes nothing is admitted everywhere. -/
theorem admits_of_effect_none (h : r.effect = .none) (ctx : Context) (tail : List Char) :
    admits ctx r tail = true := by
  rw [admits, Rule.closedMode?, Rule.opens, Rule.isConstructKeyword, h]
  rfl

/-- Where a rule matches and is admitted, some rule applies. -/
theorem rule?_ne_none (hr : r ∈ d.rules) (hn : r.pattern.properLength? text = some n)
    (hadmits : admits ctx r (text.drop n) = true) : d.rule? ctx text ≠ none := by
  intro hnone
  have happlied := List.findSome?_eq_none_iff.1 hnone r hr
  rw [applied?, hn, Option.bind_some, if_pos hadmits] at happlied
  cases happlied

/-- A keyword of one word that opens and closes nothing is read wherever it stands. -/
theorem rule?_ne_none_of_keyword (hr : r ∈ d.rules) (heffect : r.effect = .none)
    (hw : WordRun w) (hmem : (⟨w, []⟩ : Phrase) ∈ r.pattern.phrases) (htail : WordEnds tail)
    (ctx : Context) : d.rule? ctx (w ++ tail) ≠ none := by
  have hin : (⟨w, []⟩ : Phrase).InWords :=
    List.forall_mem_cons.2 ⟨hw, List.forall_mem_nil _⟩
  have hmatch := Phrase.matchLength?_text hin htail
  rw [Phrase.text_singleton] at hmatch
  obtain ⟨m, hm, -⟩ := Pattern.exists_properLength? hmem hmatch (List.length_pos_iff.2 hw.1)
  exact rule?_ne_none hr hm (admits_of_effect_none heffect ctx _)

end

end Dialect

end UmlMarkup
