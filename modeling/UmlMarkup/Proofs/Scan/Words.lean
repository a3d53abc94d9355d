import UmlMarkup.Dialect.Builtin
import UmlMarkup.Proofs.Scan.Reading
import UmlMarkup.Proofs.Scan.Spelling

/-!
# Names

What a diagram speaks about it calls by **names**: runs of word characters that are
no keyword. In a built-in dialect a name is read as one token of plain text,
wherever something new may begin (`freshStep_of_name`). Nothing of the table can
take part of it: what is not made of words starts with some other character or at
least holds one, and a keyword that is a part of the name would end inside a word.

What a name cannot rule out is a keyword of several words that begins with it. In a
sequence diagram `ref` is a name, and `ref over` a keyword. So the text behind the
name has a say, and a statement about names names the further words it must not go
on with.
-/

namespace UmlMarkup

/-! ## Word characters and blanks -/

/-- No range of the one table meets a range of the other. -/
theorem blankRanges_disjoint_wordRanges :
    ∀ b ∈ blankRanges, ∀ w ∈ wordRanges, b.2 < w.1 ∨ w.2 < b.1 := by
  decide +kernel

/-- A word character is not blank. -/
@[simp] theorem isBlank_eq_false_of_isWord {c : Char} (h : isWord c = true) :
    isBlank c = false := by
  refine eq_false_of_ne_true fun hb => ?_
  rw [isWord] at h
  split at h
  · next hascii =>
    -- there are few characters in ASCII
    have hall : ∀ n < 0x80, isBlank (Char.ofNat n) = true →
        ((Char.ofNat n).isAlphanum || Char.ofNat n == '_') = false := by
      decide +kernel
    have hc := hall c.toNat hascii
    rw [Char.ofNat_toNat] at hc
    exact Bool.noConfusion ((hc hb).symm.trans h)
  · obtain ⟨b, hbmem, hb⟩ := CharRanges.contains_iff.1 hb
    obtain ⟨w, hwmem, hw⟩ := CharRanges.contains_iff.1 h
    have := blankRanges_disjoint_wordRanges b hbmem w hwmem
    omega

@[simp] theorem isWord_eq_false_of_isBlank {c : Char} (h : isBlank c = true) : isWord c = false :=
  eq_false_of_ne_true fun hc => Bool.noConfusion ((isBlank_eq_false_of_isWord hc).symm.trans h)

@[simp] theorem isGap_eq_false_of_isWord {c : Char} (h : isWord c = true) : isGap c = false :=
  eq_false_of_ne_true fun hg =>
    Bool.noConfusion ((isBlank_eq_false_of_isWord h).symm.trans (isBlank_of_isGap hg))

/-- The text is over, or a space or tab stands at its start. -/
def AtGap (text : List Char) : Prop := ∀ c ∈ text.head?, isGap c = true

theorem atGap_nil : AtGap [] := fun _ h => nomatch h

theorem atGap_space (text : List Char) : AtGap (' ' :: text) := fun c h => by
  cases h
  rfl

/-- What holds no character of a kind does not reach beyond one. -/
theorem prefix_of_stop {p : Char → Bool} {v w tail : List Char} (hv : ∀ c ∈ v, p c = false)
    (htail : ∀ c ∈ tail.head?, p c = true) (h : v <+: w ++ tail) : v <+: w := by
  rcases List.prefix_or_prefix_of_prefix h (List.prefix_append w tail) with h' | ⟨u, rfl⟩
  · exact h'
  · cases u with
    | nil => exact (List.append_nil w).symm ▸ List.prefix_refl w
    | cons c u =>
      obtain ⟨left, rfl⟩ := (List.prefix_append_right_inj w).1 h
      have hc : p c = false := hv c (List.mem_append_right w List.mem_cons_self)
      exact Bool.noConfusion (hc.symm.trans (htail c rfl))

/-- What holds no gap does not reach beyond one. -/
theorem prefix_of_gapless {v w tail : List Char} (hv : Gapless v) (htail : AtGap tail)
    (h : v <+: w ++ tail) : v <+: w :=
  prefix_of_stop hv htail h

/-! ## Patterns that spare names -/

/-- The text starts with something else than a word character. -/
def StartsOutside (text : List Char) : Prop := ∃ c, text.head? = some c ∧ isWord c = false

/-- No text that the pattern matches begins in a name and ends there or behind it:
what is not made of words starts with something else than a word character, and a
glyph at least holds such a character. -/
def Pattern.SparesNames : Pattern → Prop
  | literal text => StartsOutside text
  | keywords phrases => ∀ p ∈ phrases, p.Plain
  | glyphs texts => ∀ g ∈ texts, Gapless g ∧ ∃ c ∈ g, isWord c = false
  | delimited opener _ => StartsOutside opener
  | number | color => True

/-- The keywords that a pattern matches. -/
def Pattern.phrases : Pattern → List Phrase
  | keywords phrases => phrases
  | _ => []

instance : DecidablePred StartsOutside
  | [] => .isFalse fun ⟨_, h, _⟩ => nomatch h
  | c :: _ =>
    decidable_of_iff (isWord c = false)
      ⟨fun h => ⟨c, rfl, h⟩, fun ⟨_, hc, h⟩ => Option.some.inj hc ▸ h⟩

instance : DecidablePred Pattern.SparesNames
  | .literal text => inferInstanceAs (Decidable (StartsOutside text))
  | .keywords phrases => inferInstanceAs (Decidable (∀ p ∈ phrases, p.Plain))
  | .glyphs texts =>
    have : DecidablePred fun g : List Char => ∃ c ∈ g, isWord c = false := fun g =>
      List.decidableBEx (fun c => isWord c = false) g
    inferInstanceAs (Decidable (∀ g ∈ texts, Gapless g ∧ ∃ c ∈ g, isWord c = false))
  | .delimited opener _ => inferInstanceAs (Decidable (StartsOutside opener))
  | .number | .color => .isTrue trivial

/-! ## Nothing matches at a name -/

/-- **What a name is made of**: word characters, the first of which is no ASCII digit.
It may well be a letter, a digit of another script or an underscore. -/
structure Wordlike (w : List Char) : Prop where
  word : ∀ c ∈ w, isWord c = true
  first : ∃ c, w.head? = some c ∧ c.isDigit = false

instance : DecidablePred Wordlike := fun w =>
  decidable_of_iff
    (w.all isWord = true ∧ w.head?.any (fun c => !c.isDigit) = true)
    ⟨fun ⟨hword, hfirst⟩ =>
        ⟨List.all_eq_true.1 hword, by simpa [Option.any_eq_true] using hfirst⟩,
      fun h => ⟨List.all_eq_true.2 h.word, by simpa [Option.any_eq_true] using h.first⟩⟩

/-- There is a first character, and what is known of it. -/
theorem Wordlike.exists_cons {w : List Char} (h : Wordlike w) :
    ∃ c rest, w = c :: rest ∧ isWord c = true ∧ c.isDigit = false := by
  obtain ⟨c, hc, hdigit⟩ := h.first
  obtain ⟨rest, rfl⟩ := List.head?_eq_some_iff.1 hc
  exact ⟨c, rest, rfl, h.word c List.mem_cons_self, hdigit⟩

section

variable {w tail : List Char}

@[simp] theorem Wordlike.any_head? (h : Wordlike w) (tail : List Char) :
    (w ++ tail).head?.any isWord = true := by
  obtain ⟨c, w, rfl, hc, -⟩ := h.exists_cons
  exact hc

/-- What starts with something else does not stand at the start of a word. -/
theorem StartsOutside.isPrefixOf_eq_false {v text : List Char} (hv : StartsOutside v)
    (htext : text.head?.any isWord = true) : v.isPrefixOf text = false := by
  obtain ⟨c, hc, hcout⟩ := hv
  obtain ⟨v, rfl⟩ := List.head?_eq_some_iff.1 hc
  refine eq_false_of_ne_true fun hpre => ?_
  obtain ⟨left, rfl⟩ := List.isPrefixOf_iff_prefix.1 hpre
  exact Bool.noConfusion (hcout.symm.trans htext)

/-- A glyph that holds something else than word characters does not stand at the
start of a word. -/
theorem isPrefixOf_eq_false_of_gapless {g : List Char} (hg : Gapless g)
    (hout : ∃ c ∈ g, isWord c = false) (hw : Wordlike w) (htail : AtGap tail) :
    g.isPrefixOf (w ++ tail) = false := by
  obtain ⟨c, hc, hcout⟩ := hout
  refine eq_false_of_ne_true fun hpre => ?_
  have hsub := prefix_of_gapless hg htail (List.isPrefixOf_iff_prefix.1 hpre)
  exact Bool.noConfusion (hcout.symm.trans (hw.word c (hsub.subset hc)))

/-- A keyword does not match at a name unless it begins with the whole name and
goes on behind it. -/
theorem Phrase.matchLength?_eq_none_of_name {p : Phrase} (hp : p.Plain)
    (hw : Wordlike w) (htail : AtGap tail)
    (hmore : p.first = w → tailLength? p.more tail = none) :
    p.matchLength? (w ++ tail) = none := by
  obtain ⟨hne, hgapless⟩ := hp p.first List.mem_cons_self
  rw [matchLength?, wordsLength?]
  split
  · next hpre =>
    have hpre := prefix_of_gapless hgapless htail (List.isPrefixOf_iff_prefix.1 hpre)
    obtain ⟨v, rfl⟩ := hpre
    rw [List.append_assoc, List.drop_left]
    cases v with
    | nil =>
      rw [List.nil_append, hmore (List.append_nil _).symm]
      rfl
    | cons c v =>
      -- the first word ends inside the name
      have hc : isWord c = true := hw.word c (by simp)
      cases hm : p.more with
      | nil =>
        have hend : p.endsInWord = true := by
          rw [endsInWord, text, hm, List.flatMap_nil, List.append_nil,
            List.getLast?_eq_some_getLast hne]
          exact hw.word _ (List.mem_append_left _ (List.getLast_mem hne))
        simp [tailLength?, Option.filter, hend, hc]
      | cons u us => simp [tailLength?, isGap_eq_false_of_isWord hc]
  · rfl

/-- No pattern that spares names matches at one, as far as no keyword goes on behind
it. -/
theorem Pattern.matchLength?_eq_none_of_name {p : Pattern} (hp : p.SparesNames)
    (hw : Wordlike w) (htail : AtGap tail)
    (hmore : ∀ ph ∈ p.phrases, ph.first = w → Phrase.tailLength? ph.more tail = none) :
    p.matchLength? (w ++ tail) = none := by
  cases p with
  | literal text =>
    rw [matchLength?, literalLength?, hp.isPrefixOf_eq_false (hw.any_head? tail),
      if_neg Bool.false_ne_true]
  | keywords phrases =>
    rw [matchLength?, longest?, List.filterMap_eq_nil_iff.2, List.max?_nil]
    exact fun ph hmem =>
      Phrase.matchLength?_eq_none_of_name (hp ph hmem) hw htail (hmore ph hmem)
  | glyphs texts =>
    rw [matchLength?, longest?, List.filterMap_eq_nil_iff.2, List.max?_nil]
    intro g hg
    rw [literalLength?, isPrefixOf_eq_false_of_gapless (hp g hg).1 (hp g hg).2 hw htail,
      if_neg Bool.false_ne_true]
  | delimited opener closer =>
    rw [matchLength?, delimitedLength?, hp.isPrefixOf_eq_false (hw.any_head? tail),
      if_neg Bool.false_ne_true]
  | number =>
    obtain ⟨c, w, rfl, -, hdigit⟩ := hw.exists_cons
    simp [matchLength?, numberLength?, digitCount, hdigit]
  | color =>
    obtain ⟨c, w, rfl, hword, -⟩ := hw.exists_cons
    have hc : c ≠ '#' := fun he => by
      rw [he] at hword
      exact absurd hword (by decide)
    rw [matchLength?, List.cons_append, colorLength?.eq_2 _ fun _ _ he => ?_]
    exact hc (List.cons.inj he).1

end

/-! ## Names of a dialect -/

namespace Dialect

/-- The keywords of a dialect. -/
def phrases (d : Dialect) : List Phrase := d.rules.flatMap fun r => r.pattern.phrases

/-- **A name of the dialect**: word characters that are no keyword. -/
structure IsName (d : Dialect) (w : List Char) : Prop extends Wordlike w where
  keyword : (⟨w, []⟩ : Phrase) ∉ d.phrases

instance (d : Dialect) : DecidablePred d.IsName := fun w =>
  decidable_of_iff (Wordlike w ∧ (⟨w, []⟩ : Phrase) ∉ d.phrases)
    ⟨fun ⟨hword, hkeyword⟩ => ⟨hword, hkeyword⟩, fun h => ⟨h.toWordlike, h.keyword⟩⟩

/-- Neither the markers nor the rules of the dialect take part of a name. -/
structure SparesNames (d : Dialect) : Prop where
  lineComment : StartsOutside d.lineComment
  blockOpen : StartsOutside d.blockOpen
  quote : isWord d.quote = false
  rules : ∀ r ∈ d.rules, r.pattern.SparesNames

instance : DecidablePred SparesNames := fun d =>
  decidable_of_iff
    (StartsOutside d.lineComment ∧ StartsOutside d.blockOpen ∧ isWord d.quote = false
      ∧ ∀ r ∈ d.rules, r.pattern.SparesNames)
    ⟨fun ⟨hline, hblock, hquote, hrules⟩ => ⟨hline, hblock, hquote, hrules⟩,
      fun h => ⟨h.lineComment, h.blockOpen, h.quote, h.rules⟩⟩

/-- All built-in dialects spare names. -/
theorem builtin_sparesNames : ∀ d ∈ builtin, d.SparesNames := by decide +kernel

/-- Behind a name `tail` makes no keyword of several words of it. -/
def EndsName (d : Dialect) (w tail : List Char) : Prop :=
  AtGap tail ∧ ∀ p ∈ d.phrases, p.first = w → p.more ≠ [] → Phrase.tailLength? p.more tail = none

variable {d : Dialect} {ctx : Context} {w tail : List Char}

/-- No rule matches at a name. -/
theorem IsName.properLength?_eq_none (h : d.IsName w) (hd : d.SparesNames)
    (htail : d.EndsName w tail) {r : Rule} (hr : r ∈ d.rules) :
    r.pattern.properLength? (w ++ tail) = none := by
  rw [Pattern.properLength?, Pattern.matchLength?_eq_none_of_name (hd.rules r hr) h.toWordlike
    htail.1, Option.filter_none]
  intro p hp hfirst
  have hmem : p ∈ d.phrases := List.mem_flatMap.2 ⟨r, hr, hp⟩
  refine htail.2 p hmem hfirst fun hmore => h.keyword ?_
  obtain ⟨first, more⟩ := p
  cases hfirst
  cases hmore
  exact hmem

/-- No closer stands at a name. -/
theorem IsName.closer?_eq_none (h : d.IsName w) (hd : d.SparesNames)
    (htail : d.EndsName w tail) : d.closer? (w ++ tail) = none := by
  rw [Option.eq_none_iff_forall_ne_some]
  intro c hc
  obtain ⟨r, hr, -, -, hn, -⟩ := closer?_spec hc
  rw [h.properLength?_eq_none hd htail hr] at hn
  cases hn

/-- No other rule applies at a name. -/
theorem IsName.rule?_eq_none (h : d.IsName w) (hd : d.SparesNames)
    (htail : d.EndsName w tail) (ctx : Context) : d.rule? ctx (w ++ tail) = none := by
  rw [Option.eq_none_iff_forall_ne_some]
  rintro ⟨r, n⟩ hr
  obtain ⟨hmem, hn, -⟩ := rule?_spec hr
  rw [h.properLength?_eq_none hd htail hmem] at hn
  cases hn

/-- No word breaks before a word character. -/
theorem breaksWord_eq_false_of_isWord (d : Dialect) {c : Char} (hc : isWord c = true)
    (rest : List Char) : d.breaksWord (c :: rest) = false := by
  rw [breaksWord, List.any_eq_false]
  intro r _ hbreaks
  unfold Pattern.breaksWord at hbreaks
  split at hbreaks
  · obtain ⟨g, -, hg⟩ := List.any_eq_true.1 hbreaks
    obtain ⟨hhead, hpre⟩ := Bool.and_eq_true_iff.1 hg
    cases g with
    | nil => cases hhead
    | cons b g =>
      obtain ⟨rfl, -⟩ := List.cons_prefix_cons.1 (List.isPrefixOf_iff_prefix.1 hpre)
      have hb : (!isWord b) = true := hhead
      rw [hc] at hb
      cases hb
  · cases hbreaks

/-- A word goes on as far as no blank, no colon of a note header and no glyph that breaks
words stands in it. -/
theorem wordTail_append_of_stop {inHeader : Bool}
    (hw : ∀ c ∈ w, isBlank c = false ∧ (inHeader && c == ':') = false
      ∧ ∀ rest, d.breaksWord (c :: rest) = false)
    (htail : ∀ c ∈ tail.head?, (isBlank c || (inHeader && c == ':')) = true) :
    d.wordTail inHeader (w ++ tail) = w.length := by
  induction w with
  | nil =>
    cases tail with
    | nil => rfl
    | cons c tail => rw [List.nil_append, wordTail, htail c rfl, Bool.true_or, if_pos rfl]; rfl
  | cons c w ih =>
    obtain ⟨⟨hblank, hcolon, hbreaks⟩, hw⟩ := List.forall_mem_cons.1 hw
    rw [List.cons_append, wordTail, hblank, hcolon, hbreaks, Bool.or_false, Bool.or_false,
      if_neg Bool.false_ne_true, ih hw, List.length_cons]

/-- **A word of plain text** ends where it is stopped, and not before. -/
theorem wordStep_append_of_stop (hne : w ≠ [])
    (hw : ∀ c ∈ w, isBlank c = false ∧ (ctx.inHeader && c == ':') = false
      ∧ ∀ rest, d.breaksWord (c :: rest) = false)
    (htail : ∀ c ∈ tail.head?, (isBlank c || (ctx.inHeader && c == ':')) = true) :
    d.wordStep ctx (w ++ tail) = ⟨.unstyled, w.length, ctx⟩ := by
  obtain ⟨c, w, rfl⟩ := List.exists_cons_of_ne_nil hne
  rw [wordStep, List.cons_append, List.drop_one, List.tail_cons,
    wordTail_append_of_stop (fun b hb => hw b (List.mem_cons_of_mem c hb)) htail,
    List.length_cons, Nat.add_comm]

/-- A word character does not stop a word. -/
theorem not_stops_of_isWord (d : Dialect) (inHeader : Bool) {c : Char} (hc : isWord c = true) :
    isBlank c = false ∧ (inHeader && c == ':') = false
      ∧ ∀ rest, d.breaksWord (c :: rest) = false := by
  have hcolon : (c == ':') = false := beq_false_of_ne fun he => by
    rw [he] at hc
    exact absurd hc (by decide)
  exact ⟨isBlank_eq_false_of_isWord hc, by rw [hcolon, Bool.and_false],
    d.breaksWord_eq_false_of_isWord hc⟩

/-- The step that the table alone would take: at a closer, at another rule, or at a word of
plain text. -/
def tableStep (d : Dialect) (ctx : Context) (rest : List Char) : Step :=
  match d.closer? rest with
  | some c => closerStep ctx c
  | none =>
    match d.rule? ctx rest with
    | some (r, n) => ruleStep ctx rest r n
    | none => d.wordStep ctx rest

/-- The table decides where no comment and no string begins and no header ends. -/
theorem freshStep_of_unmarked {rest : List Char}
    (hline : standsAt d.lineComment rest = false) (hblock : standsAt d.blockOpen rest = false)
    (hquote : rest.head? ≠ some d.quote)
    (hcolon : (ctx.inHeader && rest.head? == some ':') = false) :
    d.freshStep ctx rest = d.tableStep ctx rest := by
  rw [freshStep, hline, hblock, if_neg Bool.false_ne_true, if_neg Bool.false_ne_true,
    if_neg hquote, hcolon, if_neg Bool.false_ne_true]
  rfl

/-- **Neither a marker nor the colon of a header stands at a word.** -/
theorem freshStep_of_word (hd : d.SparesNames) {rest : List Char}
    (h : rest.head?.any isWord = true) (ctx : Context) :
    d.freshStep ctx rest = d.tableStep ctx rest := by
  have hmarker : ∀ {m : List Char}, StartsOutside m → standsAt m rest = false := fun hm => by
    rw [standsAt, hm.isPrefixOf_eq_false h, Bool.and_false]
  have hother : ∀ {b : Char}, isWord b = false → rest.head? ≠ some b := fun hb he => by
    rw [he] at h
    exact Bool.noConfusion (hb.symm.trans h)
  have hcolon : (rest.head? == some ':') = false := beq_false_of_ne (hother (by decide))
  exact freshStep_of_unmarked (hmarker hd.lineComment) (hmarker hd.blockOpen) (hother hd.quote)
    (by rw [hcolon, Bool.and_false])

/-- **A name is read as one word**, wherever something new may begin. -/
theorem freshStep_of_name (hd : d.SparesNames) (h : d.IsName w) (htail : d.EndsName w tail)
    (ctx : Context) : d.freshStep ctx (w ++ tail) = ⟨.unstyled, w.length, ctx⟩ := by
  obtain ⟨c, rest, hcons, -⟩ := h.exists_cons
  rw [freshStep_of_word hd (h.any_head? tail), tableStep, h.closer?_eq_none hd htail,
    h.rule?_eq_none hd htail]
  refine wordStep_append_of_stop (hcons ▸ List.cons_ne_nil c rest)
    (fun c hc => d.not_stops_of_isWord _ (h.word c hc)) fun c hc => ?_
  simp [htail.1 c hc]

end Dialect

end UmlMarkup
