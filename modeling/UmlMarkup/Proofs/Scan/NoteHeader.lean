import Mathlib.Data.List.Infix
import UmlMarkup.Proofs.Scan.LineEnd
import UmlMarkup.Proofs.Scan.LineBreak
import UmlMarkup.Proofs.Scan.WholeWords

/-!
# Notes of one line

A note may have its text on the line that opens it, behind a colon. What stands between the
keyword and the colon is the header of the note, and it is read by the same table as
everything else. Most keywords are harmless in it: no construct opens in a header, and a
closer closes nothing there but the note. A keyword of a free text is not harmless. The rest
of the line is plain text then, its colon too, and the note goes on below.

So a note of one line leaves everything as it was exactly if no keyword of a free text
stands in its header (`note_line_ends_iff`). The header is told in words, and a step in it
reads one word or more (`header_step`). Behind a step that reads no keyword of a free text
the header goes on as it began, and so to the colon (`header_run`).
-/

namespace UmlMarkup

/-! ## Behind the words of a header -/

/-- **The words of a header are over**: the colon stands there, or a blank, behind which no
further word begins, or nothing at all. -/
structure HeaderOver (tail : List Char) : Prop where
  stop : ∀ c ∈ tail.head?, isBlank c = true ∨ c = ':'
  last : WordEnds (tail.dropWhile isGap)

theorem headerOver_nil : HeaderOver [] := by
  refine ⟨fun c hc => ?_, rfl⟩
  cases hc

theorem headerOver_colon (text : List Char) : HeaderOver (':' :: text) :=
  ⟨fun _ h => Or.inr (Option.some.inj h).symm, rfl⟩

namespace HeaderOver

variable {tail : List Char}

theorem atStop (h : HeaderOver tail) : AtStop tail := fun c hc => by
  rcases h.stop c hc with hblank | rfl
  · rw [isStop, hblank, Bool.true_or]
  · rfl

theorem separates (h : HeaderOver tail) (ws : List (List Char)) :
    separates (ws.flatMap (' ' :: ·) ++ tail) = true := by
  cases ws with
  | nil =>
    cases tail with
    | nil => rfl
    | cons c tail =>
      rcases h.stop c rfl with hblank | rfl
      · exact Bool.or_eq_true_iff.2 (Or.inl hblank)
      · rfl
  | cons w ws => rfl

/-- A word of the header ends where the words are over, or before the next of them. -/
theorem stops (h : HeaderOver tail) (ws : List (List Char)) :
    ∀ c ∈ (ws.flatMap (' ' :: ·) ++ tail).head?, (isBlank c || c == ':') = true := by
  intro c hc
  cases ws with
  | nil =>
    rcases h.stop c hc with hblank | rfl
    · rw [hblank, Bool.true_or]
    · rfl
  | cons w ws =>
    cases hc
    rfl

end HeaderOver

namespace Dialect

/-! ## The keywords -/

/-- The keywords that open a note. -/
def noteOpeners (d : Dialect) : List Phrase :=
  (d.rules.filter fun r => r.effect == .enter .note).flatMap fun r => r.pattern.phrases

/-- The keywords that close a note. -/
def noteClosers (d : Dialect) : List Phrase :=
  (d.rules.filter fun r => r.effect == .exit .note).flatMap fun r => r.pattern.phrases

/-- The keywords behind which the rest of the line is plain text, and that do nothing
else. -/
def freeTextKeywords (d : Dialect) : List Phrase :=
  (d.rules.filter fun r => r.freeText && r.effect == .none).flatMap fun r => r.pattern.phrases

variable {d : Dialect} {q : Phrase}

theorem mem_noteOpeners : q ∈ d.noteOpeners ↔
    ∃ r ∈ d.rules, r.effect = .enter .note ∧ q ∈ r.pattern.phrases := by
  simp only [noteOpeners, List.mem_flatMap, List.mem_filter, beq_iff_eq, and_assoc]

theorem mem_noteClosers : q ∈ d.noteClosers ↔
    ∃ r ∈ d.rules, r.effect = .exit .note ∧ q ∈ r.pattern.phrases := by
  simp only [noteClosers, List.mem_flatMap, List.mem_filter, beq_iff_eq, and_assoc]

theorem mem_freeTextKeywords : q ∈ d.freeTextKeywords ↔
    ∃ r ∈ d.rules, r.freeText = true ∧ r.effect = .none ∧ q ∈ r.pattern.phrases := by
  simp only [freeTextKeywords, List.mem_flatMap, List.mem_filter, Bool.and_eq_true, beq_iff_eq,
    and_assoc]

/-- **How the table of a dialect reads words.** Matches are whole words and the tokens of
keywords and numbers end with them. A keyword of a free text is a single word that stands in
no keyword of another rule, and the openers of notes share their first word with no keyword
of another rule. -/
structure ReadsWords (d : Dialect) : Prop where
  takesWords : ∀ r ∈ d.rules, r.pattern.TakesWords
  numbers : ∀ r ∈ d.rules, r.pattern = .number →
    r.extent = .exact ∧ r.effect = .none ∧ r.freeText = false
  keywords : ∀ r ∈ d.rules, ∀ p ∈ r.pattern.phrases, p.InWords → r.extent = .exact
  freeText : ∀ q ∈ d.freeTextKeywords, q.more = [] ∧ Wordlike q.first
    ∧ ∀ r ∈ d.rules, ∀ p ∈ r.pattern.phrases, q.first ∈ p.words →
      r.freeText = true ∧ r.effect = .none ∧ p = q
  openers : ∀ q ∈ d.noteOpeners, q.InWords ∧ Wordlike q.first
    ∧ ∀ r ∈ d.rules, ∀ p ∈ r.pattern.phrases, p.first = q.first →
      r.effect = .enter .note ∧ r.freeText = false ∧ q ∈ r.pattern.phrases

theorem builtin_readsWords : ∀ d ∈ builtin, d.ReadsWords := by
  refine fun d hd => ⟨?_, ?_, ?_, ?_, ?_⟩ <;> revert d <;> decide +kernel

/-! ## What stands at a word of a header -/

theorem effect_eq_none {r : Rule} (hcloses : r.closedMode? = none) (hopens : r.opens = false) :
    r.effect = .none := by
  cases he : r.effect with
  | none => rfl
  | enter m => rw [Rule.opens, he] at hopens; cases hopens
  | exit m => rw [Rule.closedMode?, he] at hcloses; cases hcloses

section

variable {s : ScanState} {line : Phrase} {text tail : List Char}

/-- A closer at a word is a keyword made of the next words. -/
theorem ReadsWords.eq_append_of_closer? (hwords : d.ReadsWords) (hline : line.InWords)
    (htail : HeaderOver tail) {c : Closer} (hc : d.closer? (line.text ++ tail) = some c) :
    ∃ r ∈ d.rules, r.effect = .exit c.mode ∧ ∃ p ∈ r.pattern.phrases, ∃ ws,
      line = p.append ws ∧ c.length = p.text.length := by
  obtain ⟨r, hr, heffect, -, hn, -⟩ := closer?_spec hc
  rcases Pattern.eq_append_of_properLength? (hwords.takesWords r hr) hline htail.atStop
    htail.last hn with ⟨hnumber, -⟩ | ⟨p, hp, -, ws, heq, hlength⟩
  · rw [(hwords.numbers r hr hnumber).2.1] at heffect
    cases heffect
  · exact ⟨r, hr, heffect, p, hp, ws, heq, hlength⟩

/-- A keyword of a free text is read as one wherever it stands. -/
theorem ReadsWords.rule?_of_freeText (hwords : d.ReadsWords) {f : Phrase}
    (hf : f ∈ d.freeTextKeywords) {tail : List Char} (htail : WordEnds tail) (ctx : Context) :
    d.rule? ctx (f.first ++ tail) ≠ none := by
  obtain ⟨hmore, hword, -⟩ := hwords.freeText f hf
  obtain ⟨r, hr, -, heffect, hmem⟩ := mem_freeTextKeywords.1 hf
  obtain ⟨first, more⟩ := f
  obtain rfl : more = [] := hmore
  exact rule?_ne_none_of_keyword hr heffect hword.wordRun hmem htail ctx

/-- **One word of a header or more is read.** The header goes on behind what the step reads,
unless a keyword of a free text is read. -/
def ReadsHeader (d : Dialect) (s : ScanState) (line : Phrase) (st : Step) : Prop :=
  ∃ (q : Phrase) (ws : List (List Char)) (free : Bool), line = q.append ws
    ∧ st.length = q.text.length ∧ st.next = { inNoteHeader s with freeText := free }
    ∧ (free = true ↔ ∃ f ∈ d.freeTextKeywords, f.first ∈ q.words)

/-- A closer in a header, if it does not close the note, closes nothing. -/
theorem closerStep_readsHeader (hwords : d.ReadsWords) (hline : line.InWords)
    (hclosers : ∀ q ∈ d.noteClosers, ¬ q.words <+: line.words) (htail : HeaderOver tail)
    {c : Closer} (hc : d.closer? (line.text ++ tail) = some c) :
    d.ReadsHeader s line (closerStep (inNoteHeader s) c) := by
  obtain ⟨r, hr, heffect, p, hp, ws, heq, hlength⟩ := hwords.eq_append_of_closer? hline htail hc
  have hmode : c.mode ≠ .note := fun hm => by
    refine hclosers p (mem_noteClosers.2 ⟨r, hr, hm ▸ heffect, hp⟩) ?_
    rw [heq]
    exact List.prefix_append p.words ws
  have hnone : (inNoteHeader s).state.close? c.mode = none :=
    ScanState.close?_eq_none_of_mode hmode.symm
  rw [closerStep, hnone]
  refine ⟨p, ws, false, heq, hlength, rfl, fun h => Bool.noConfusion h, ?_⟩
  rintro ⟨f, hf, hmem⟩
  obtain ⟨-, hnothing, -⟩ := (hwords.freeText f hf).2.2 r hr p hp hmem
  rw [hnothing] at heffect
  cases heffect

/-- Any other rule in a header opens nothing, and its token ends with the words that it
matches. -/
theorem ruleStep_readsHeader (hwords : d.ReadsWords) (hline : line.InWords)
    (htail : HeaderOver tail) {r : Rule} {n : Nat}
    (hr : d.rule? (inNoteHeader s) (line.text ++ tail) = some (r, n)) :
    d.ReadsHeader s line (ruleStep (inNoteHeader s) (line.text ++ tail) r n) := by
  obtain ⟨hmem, hn, hadmits⟩ := rule?_spec hr
  have heffect : r.effect = .none := by
    have hopens : r.opens = false := eq_false_of_ne_true fun hopens =>
      Bool.noConfusion (inHeader_of_admits hadmits hopens)
    rw [admits, Bool.and_eq_true, Bool.and_eq_true] at hadmits
    exact effect_eq_none (Option.isNone_iff_eq_none.1 hadmits.1.1) hopens
  rcases Pattern.eq_append_of_properLength? (hwords.takesWords r hmem) hline htail.atStop
    htail.last hn with ⟨hnumber, hlength, hdigits⟩ | ⟨q, hq, hin, ws, heq, hlength⟩
  · obtain ⟨hextent, -, hfree⟩ := hwords.numbers r hmem hnumber
    have hcolor : r.pattern ≠ .color := by rw [hnumber]; exact Pattern.noConfusion
    rw [ruleStep_of_effect_none hcolor hextent heffect, hfree]
    refine ⟨⟨line.first, []⟩, line.more, false, rfl, ?_, rfl, fun h => Bool.noConfusion h, ?_⟩
    · rw [Phrase.text_singleton]
      exact hlength
    · -- a keyword is no number
      rintro ⟨f, hf, hfirst⟩
      rw [← List.mem_singleton.1 hfirst] at hdigits
      exact absurd hdigits (hwords.freeText f hf).2.1.not_digits
  · rw [ruleStep_of_effect_none (Pattern.ne_color_of_mem_phrases hq)
      (hwords.keywords r hmem q hq hin) heffect]
    refine ⟨q, ws, r.freeText, heq, hlength, rfl, fun hfree => ?_, ?_⟩
    · exact ⟨q, mem_freeTextKeywords.2 ⟨r, hmem, hfree, heffect, hq⟩, List.mem_cons_self⟩
    · rintro ⟨f, hf, hfirst⟩
      exact ((hwords.freeText f hf).2.2 r hmem q hq hfirst).1

/-- Where no rule applies, the first word is read. -/
theorem wordStep_readsHeader (hwords : d.ReadsWords) (hline : line.InWords)
    (htail : HeaderOver tail) (hr : d.rule? (inNoteHeader s) (line.text ++ tail) = none) :
    d.ReadsHeader s line (d.wordStep (inNoteHeader s) (line.text ++ tail)) := by
  have hsplit : line.text ++ tail = line.first ++ (line.more.flatMap (' ' :: ·) ++ tail) :=
    List.append_assoc ..
  rw [hsplit, wordStep_append_of_stop hline.first.1
    (fun c hc => d.not_stops_of_isWord _ (hline.first.2 c hc)) (htail.stops line.more)]
  refine ⟨⟨line.first, []⟩, line.more, false, rfl, ?_, rfl, fun h => Bool.noConfusion h, ?_⟩
  · simp
  · rintro ⟨f, hf, hfirst⟩
    have hend := wordEnds_flatMap line.more htail.atStop.wordEnds
    rw [hsplit, ← List.mem_singleton.1 hfirst] at hr
    exact absurd hr (hwords.rule?_of_freeText hf hend _)

/-- **A step in the header of a note reads one word or more**, and leaves the header only at
a keyword of a free text. -/
theorem header_step (hd : d ∈ builtin) (s : ScanState) (hline : line.InWords)
    (hclosers : ∀ q ∈ d.noteClosers, ¬ q.words <+: line.words) (htail : HeaderOver tail) :
    d.ReadsHeader s line (d.step (inNoteHeader s) (line.text ++ tail)) := by
  have hwords := builtin_readsWords d hd
  have hword := hline.any_head? tail
  have hstep : d.step (inNoteHeader s) (line.text ++ tail)
      = d.freshStep (inNoteHeader s) (line.text ++ tail) :=
    step_of_note rfl (flush_of_any_isWord hword).any_head? rfl
  rw [hstep, freshStep_of_word (builtin_sparesNames d hd) hword, tableStep]
  split
  · next c hc => exact closerStep_readsHeader hwords hline hclosers htail hc
  · split
    · next r n hr => exact ruleStep_readsHeader hwords hline htail hr
    · next hr => exact wordStep_readsHeader hwords hline htail hr

/-! ## From the opener to the colon -/

/-- From here on the line comes to the colon of a header that ends the note, and what stands
behind the colon is one plain token. -/
def ReachesColon (d : Dialect) (s : ScanState) (text : List Char) (ctx : Context)
    (rest : List Char) : Prop :=
  ∃ ls ctx', d.scanRest ctx rest = (ls ++ [⟨.operator, [':']⟩, ⟨.unstyled, text⟩], ctx')
    ∧ ctx'.settle.state = s

/-- A step before the colon. -/
theorem ReachesColon.cons {ctx : Context} {u tail : List Char} {k : Kind} {c : Context}
    (hu : u ≠ []) (hstep : d.step ctx (u ++ tail) = ⟨k, u.length, c⟩)
    (h : d.ReachesColon s text { c with atStart := false } tail) :
    d.ReachesColon s text ctx (u ++ tail) := by
  obtain ⟨ls, ctx', hscan, hstate⟩ := h
  refine ⟨⟨k, u⟩ :: ls, ctx', ?_, hstate⟩
  rw [scanRest_append hu hstep, hscan, List.cons_append]

theorem step_colon : ∀ d ∈ builtin, ∀ (s : ScanState) (text : List Char),
    d.step (inNoteHeader s) (':' :: text)
      = ⟨.operator, 1, { state := s, freeText := true, atStart := false }⟩ := by
  repeat refine List.forall_mem_cons.2 ⟨fun _ _ => rfl, ?_⟩
  exact List.forall_mem_nil _

/-- The colon closes the note, and what follows it is free text. -/
theorem reachesColon_colon (hd : d ∈ builtin) (s : ScanState) (hne : text ≠ []) :
    d.ReachesColon s text (inNoteHeader s) (':' :: text) := by
  refine ⟨[], { state := s, freeText := true, atStart := false }, ?_, rfl⟩
  have hplain : d.scanRest { state := s, freeText := true, atStart := false } text
      = ([⟨.unstyled, text⟩], { state := s, freeText := true, atStart := false }) :=
    d.scanRest_of_length hne (step_of_freeText rfl)
  rw [show ':' :: text = [':'] ++ text from rfl,
    scanRest_append (List.cons_ne_nil _ _) (step_colon d hd s text), hplain]
  rfl

/-- The space before a word of a header. -/
theorem header_space (s : ScanState) (hline : line.InWords) (tail : List Char) :
    d.step (inNoteHeader s) ([' '] ++ (line.text ++ tail))
      = ⟨.unstyled, [' '].length, inNoteHeader s⟩ := by
  obtain ⟨c, w, hw, hc⟩ := hline.first.exists_cons
  rw [step_of_blank rfl rfl, blankStep, Phrase.text, hw]
  simp [isBlank_eq_false_of_isWord hc, show isBlank ' ' = true from rfl]

/-- The next words of a header: a space, and what one step behind it reads. -/
theorem header_words (hd : d ∈ builtin) (s : ScanState) (hline : line.InWords)
    (hclosers : ∀ q ∈ d.noteClosers, ¬ q.words <+: line.words) (htail : HeaderOver tail) :
    ∃ (q : Phrase) (us : List (List Char)) (free : Bool) (kind : Kind), line = q.append us
      ∧ q.text ≠ []
      ∧ d.step (inNoteHeader s) ([' '] ++ (q.text ++ (us.flatMap (' ' :: ·) ++ tail)))
        = ⟨.unstyled, [' '].length, inNoteHeader s⟩
      ∧ d.step (inNoteHeader s) (q.text ++ (us.flatMap (' ' :: ·) ++ tail))
        = ⟨kind, q.text.length, { inNoteHeader s with freeText := free }⟩
      ∧ (free = true ↔ ∃ f ∈ d.freeTextKeywords, f.first ∈ q.words) := by
  obtain ⟨q, us, free, heq, hlength, hnext, hfree⟩ := header_step hd s hline hclosers htail
  have htext : line.text ++ tail = q.text ++ (us.flatMap (' ' :: ·) ++ tail) := by
    simp [heq]
  have hspace := header_space (d := d) s hline tail
  have hfirst : q.first = line.first := (congrArg Phrase.first heq).symm
  rw [htext] at hspace
  refine ⟨q, us, free, (d.step (inNoteHeader s) (line.text ++ tail)).kind, heq,
    fun he => ?_, hspace, ?_, hfree⟩
  · exact hline.first.1 (hfirst ▸ (List.append_eq_nil_iff.1 he).1)
  · rw [← hlength, ← hnext, htext]

/-- **The words of a header lead to its colon**, unless a keyword of a free text is among
them. Such a keyword leaves the note open. -/
theorem header_run (hd : d ∈ builtin) (s : ScanState) (hne : text ≠ []) (ws : List (List Char))
    (hws : ∀ w ∈ ws, WordRun w) (hclosers : ∀ q ∈ d.noteClosers, ¬ q.words <:+: ws) :
    ((∀ f ∈ d.freeTextKeywords, f.first ∉ ws) →
      d.ReachesColon s text (inNoteHeader s) (ws.flatMap (' ' :: ·) ++ ':' :: text))
    ∧ ((∃ f ∈ d.freeTextKeywords, f.first ∈ ws) →
      d.endState (inNoteHeader s) (ws.flatMap (' ' :: ·) ++ ':' :: text) = s.enter .note) := by
  -- a step may read several words, so the induction is on their number
  induction hn : ws.length using Nat.strongRecOn generalizing ws with
  | ind n ih =>
    cases ws with
    | nil =>
      exact ⟨fun _ => reachesColon_colon hd s hne, fun ⟨_, _, hmem⟩ => absurd hmem List.not_mem_nil⟩
    | cons w ws =>
      have hline : (⟨w, ws⟩ : Phrase).InWords := hws
      obtain ⟨q, us, free, kind, heq, hq, hspace, hstep, hfree⟩ :=
        header_words hd s hline (fun q hq hpre => hclosers q hq hpre.isInfix)
          (headerOver_colon text)
      have hwords : w :: ws = q.words ++ us := congrArg Phrase.words heq
      have hrest : (w :: ws).flatMap (' ' :: ·) ++ ':' :: text
          = [' '] ++ (q.text ++ (us.flatMap (' ' :: ·) ++ ':' :: text)) := by
        rw [← List.append_assoc q.text, ← Phrase.text_append, ← heq]
        rfl
      have hlt : us.length < n := by
        rw [← hn, hwords, List.length_append, Phrase.words, List.length_cons]
        omega
      obtain ⟨hreaches, hopen⟩ := ih us.length hlt us
        (fun u hu => hws u (hwords ▸ List.mem_append_right q.words hu))
        (fun c hc hin => hclosers c hc
          (hwords ▸ hin.trans (List.suffix_append q.words us).isInfix)) rfl
      rw [hrest]
      constructor
      · intro hnone
        obtain rfl : free = false := eq_false_of_ne_true fun h => by
          obtain ⟨f, hf, hmem⟩ := hfree.1 h
          exact hnone f hf (hwords ▸ List.mem_append_left us hmem)
        exact .cons (List.cons_ne_nil _ _) hspace (.cons hq hstep
          (hreaches fun f hf hmem => hnone f hf (hwords ▸ List.mem_append_right q.words hmem)))
      · rintro ⟨f, hf, hmem⟩
        rw [endState_append (List.cons_ne_nil _ _) hspace]
        show d.endState (inNoteHeader s) _ = _
        rw [endState_append hq hstep]
        cases free with
        | true => exact endState_of_freeText rfl _
        | false =>
          rw [hwords] at hmem
          refine hopen ⟨f, hf, (List.mem_append.1 hmem).resolve_left fun hmem => ?_⟩
          exact Bool.noConfusion (hfree.2 ⟨f, hf, hmem⟩)

/-! ## The keyword of the note -/

/-- No closer stands at the keyword of a note. -/
theorem ReadsWords.closer?_eq_none (hwords : d.ReadsWords) {p : Phrase} (hp : p ∈ d.noteOpeners)
    (hline : line.InWords) (hfirst : line.first = p.first) (htail : HeaderOver tail) :
    d.closer? (line.text ++ tail) = none := by
  refine Option.eq_none_iff_forall_ne_some.2 fun c hc => ?_
  obtain ⟨r, hr, heffect, q, hq, ws, heq, -⟩ := hwords.eq_append_of_closer? hline htail hc
  have hq' : q.first = p.first := (congrArg Phrase.first heq).symm.trans hfirst
  rw [((hwords.openers p hp).2.2 r hr q hq hq').1] at heffect
  cases heffect

/-- The rule that applies at the keyword of a note opens a note, and takes the longest of
the openers that stand there. -/
theorem ReadsWords.rule?_of_opener (hwords : d.ReadsWords) {p : Phrase} (hp : p ∈ d.noteOpeners)
    {vs : List (List Char)} (hline : (p.append vs).InWords) (htail : HeaderOver tail)
    (s : ScanState) :
    ∃ r q ws, d.rule? { state := s } ((p.append vs).text ++ tail) = some (r, q.text.length)
      ∧ r ∈ d.rules ∧ r.effect = .enter .note ∧ r.freeText = false ∧ q ∈ r.pattern.phrases
      ∧ q.InWords ∧ p.append vs = q.append ws ∧ p.text.length ≤ q.text.length := by
  obtain ⟨hin, hword, hshared⟩ := hwords.openers p hp
  have hpattern : ∀ r ∈ d.rules, ∀ n,
      r.pattern.properLength? ((p.append vs).text ++ tail) = some n →
      ∃ q ∈ r.pattern.phrases, q.InWords ∧ ∃ ws, p.append vs = q.append ws
        ∧ n = q.text.length ∧ q.first = p.first := by
    intro r hr n hn
    rcases Pattern.eq_append_of_properLength? (hwords.takesWords r hr) hline htail.atStop
      htail.last hn with ⟨-, -, hdigits⟩ | ⟨q, hq, hqin, ws, heq, hlength⟩
    · exact absurd hdigits hword.not_digits
    · exact ⟨q, hq, hqin, ws, heq, hlength, (congrArg Phrase.first heq).symm⟩
  have hmatch : p.matchLength? ((p.append vs).text ++ tail) = some p.text.length := by
    rw [Phrase.text_append, List.append_assoc]
    exact Phrase.matchLength?_text hin (wordEnds_flatMap vs htail.atStop.wordEnds)
  have hpos : 0 < p.text.length := by
    rw [Phrase.text, List.length_append]
    exact Nat.add_pos_left (List.length_pos_iff.2 hin.first.1) _
  cases hrule : d.rule? { state := s } ((p.append vs).text ++ tail) with
  | none =>
    -- the rule of the opener applies
    obtain ⟨r, hr, heffect, hmem⟩ := mem_noteOpeners.1 hp
    obtain ⟨m, hm, -⟩ := Pattern.exists_properLength? hmem hmatch hpos
    obtain ⟨q, -, -, ws, heq, rfl, -⟩ := hpattern r hr m hm
    have hadmits : admits { state := s } r
        (((p.append vs).text ++ tail).drop q.text.length) = true := by
      have hclosed : r.closedMode? = none := by rw [Rule.closedMode?, heffect]
      rw [heq, Phrase.text_append, List.append_assoc, List.drop_left, admits, hclosed,
        htail.separates]
      simp [Context.inHeader]
    exact absurd hrule (rule?_ne_none hr hm hadmits)
  | some found =>
    obtain ⟨r, n⟩ := found
    obtain ⟨hr, hn, -⟩ := rule?_spec hrule
    obtain ⟨q, hq, hqin, ws, heq, rfl, hfirst⟩ := hpattern r hr n hn
    obtain ⟨heffect, hfree, hmem⟩ := hshared r hr q hq hfirst
    obtain ⟨m, hm, hle⟩ := Pattern.exists_properLength? hmem hmatch hpos
    obtain rfl := Option.some.inj (hn.symm.trans hm)
    exact ⟨r, q, ws, rfl, hr, heffect, hfree, hq, hqin, heq, hle⟩

/-- A keyword that takes at least the words of another one takes some of the words behind
them. -/
theorem exists_append_of_length_le {p q : Phrase} {vs ws : List (List Char)}
    (h : p.append vs = q.append ws) (hle : p.text.length ≤ q.text.length) :
    ∃ zs, q = p.append zs ∧ vs = zs ++ ws := by
  have hsplit : p.words ++ vs = q.words ++ ws := congrArg Phrase.words h
  rcases List.append_eq_append_iff.1 hsplit with ⟨zs, hq, hvs⟩ | ⟨zs, hp, hws⟩
  · exact ⟨zs, Phrase.eq_append_iff.2 hq, hvs⟩
  · -- nothing can be left of the shorter one
    have hp := Phrase.eq_append_iff.2 hp
    rw [hp, Phrase.text_append, List.length_append] at hle
    cases zs with
    | nil =>
      refine ⟨[], ?_, hws.symm⟩
      rw [hp, Phrase.append, Phrase.append, List.append_nil, List.append_nil]
    | cons z zs =>
      rw [List.flatMap_cons, List.cons_append, List.length_cons] at hle
      omega

/-- **The keyword of a note opens its header.** If it goes on with words of the header, no
keyword of a free text is among these. -/
theorem opener_step (hd : d ∈ builtin) {s : ScanState} (hs : Nest s.stack) {p : Phrase}
    (hp : p ∈ d.noteOpeners) {vs : List (List Char)} (hvs : ∀ v ∈ vs, WordRun v)
    (htail : HeaderOver tail) :
    ∃ kind zs us, vs = zs ++ us
      ∧ d.step { state := s } ((p.append vs).text ++ tail)
        = ⟨kind, (p.append zs).text.length, { inNoteHeader s with atStart := true }⟩
      ∧ ∀ f ∈ d.freeTextKeywords, f.first ∉ zs := by
  have hwords := builtin_readsWords d hd
  have hline := (hwords.openers p hp).1.append hvs
  obtain ⟨r, q, us, hrule, hr, heffect, hfree, hq, hqin, heq, hle⟩ :=
    hwords.rule?_of_opener hp hline htail s
  obtain ⟨zs, rfl, hzs⟩ := exists_append_of_length_le heq hle
  have hword := hline.any_head? tail
  refine ⟨r.kind, zs, us, hzs, ?_, fun f hf hmem => ?_⟩
  · rw [step_of_nest hs rfl (flush_of_any_isWord hword).any_head?,
      freshStep_of_word (builtin_sparesNames d hd) hword, tableStep,
      hwords.closer?_eq_none hp hline rfl htail, hrule]
    show ruleStep _ _ _ _ = _
    rw [ruleStep, readMatch, if_neg (Pattern.ne_color_of_mem_phrases hq), heffect, hfree,
      hwords.keywords r hr _ hq hqin]
    rfl
  · have hnone := ((hwords.freeText f hf).2.2 r hr _ hq
      (List.mem_append_right p.words hmem)).2.1
    rw [hnone] at heffect
    cases heffect

/-- **The line leads to the colon of the header**, unless a keyword of a free text stands
before it. -/
theorem opening_run (hd : d ∈ builtin) {s : ScanState} (hs : Nest s.stack) {p : Phrase}
    (hp : p ∈ d.noteOpeners) {header : Phrase} (hheader : header.InWords)
    (hclosers : ∀ q ∈ d.noteClosers, ¬ q.words <:+: header.words) (hne : text ≠ []) :
    ((∀ f ∈ d.freeTextKeywords, f.first ∉ header.words) →
      d.ReachesColon s text { state := s } ((p.append header.words).text ++ ':' :: text))
    ∧ ((∃ f ∈ d.freeTextKeywords, f.first ∈ header.words) →
      d.endState { state := s } ((p.append header.words).text ++ ':' :: text)
        = s.enter .note) := by
  obtain ⟨kind, zs, us, hzs, hstep, hzsfree⟩ := opener_step hd hs hp hheader
    (headerOver_colon text)
  have hopening : (p.append zs).text ≠ [] := fun he =>
    ((builtin_readsWords d hd).openers p hp).1.first.1 (List.append_eq_nil_iff.1 he).1
  have hsplit : (p.append header.words).text ++ ':' :: text
      = (p.append zs).text ++ (us.flatMap (' ' :: ·) ++ ':' :: text) := by
    rw [hzs, Phrase.text_append, Phrase.text_append, List.flatMap_append]
    simp only [List.append_assoc]
  obtain ⟨hreaches, hopen⟩ := header_run hd s hne us
    (fun u hu => hheader u (hzs ▸ List.mem_append_right zs hu))
    (fun q hq hin => hclosers q hq
      (hzs ▸ hin.trans (List.suffix_append zs us).isInfix))
  rw [hsplit] at hstep ⊢
  constructor
  · exact fun hnone => .cons hopening hstep
      (hreaches fun f hf hmem => hnone f hf (hzs ▸ List.mem_append_right zs hmem))
  · rintro ⟨f, hf, hmem⟩
    rw [endState_append hopening hstep]
    rw [hzs] at hmem
    exact hopen ⟨f, hf, (List.mem_append.1 hmem).resolve_left (hzsfree f hf)⟩

/-! ## The whole line -/

/-- **A note of one line**: the line leaves everything as it was, its first colon is an
operator, and what stands behind the colon is one plain token. -/
structure EndsAtColon (d : Dialect) (s : ScanState) (opening text : List Char) : Prop where
  stateAfter : (d.scanLine s (opening ++ ':' :: text)).stateAfter = s
  first : ':' ∉ opening
  tokens : ∃ ts, (d.scanLine s (opening ++ ':' :: text)).tokens
    = ts ++ [⟨.operator, opening.length, opening.length + 1⟩,
      ⟨.unstyled, opening.length + 1, opening.length + 1 + text.length⟩]

theorem ReachesColon.endsAtColon {opening : List Char} (hfirst : ':' ∉ opening)
    (hflush : Flush (opening ++ ':' :: text))
    (h : d.ReachesColon s text { state := s } (opening ++ ':' :: text)) :
    d.EndsAtColon s opening text := by
  obtain ⟨ls, ctx', hscan, hstate⟩ := h
  have hline : d.scanLine s (opening ++ ':' :: text)
      = ⟨[], ls ++ [⟨.operator, [':']⟩, ⟨.unstyled, text⟩], ctx'.settle.state⟩ := by
    simp [scanLine, hflush, hscan]
  have htexts := d.flatMap_text_scanRest { state := s } (opening ++ ':' :: text)
  rw [hscan, List.flatMap_append] at htexts
  have hopening : ls.flatMap Lexeme.text = opening := by
    refine List.append_cancel_right (htexts.trans ?_)
    simp only [List.flatMap_cons, List.flatMap_nil, List.append_nil, List.cons_append,
      List.nil_append]
  refine ⟨by rw [hline, hstate], hfirst, layout 0 ls, ?_⟩
  rw [hline]
  show layout 0 (ls ++ _) = _
  simp [hopening]

/-- A text of words holds word characters and spaces. -/
theorem colon_notMem_text {p : Phrase} (hp : p.InWords) : ':' ∉ p.text := by
  have hword : ∀ w ∈ p.words, ':' ∉ w := fun w hw hmem =>
    absurd ((hp w hw).2 ':' hmem) (by decide)
  intro hmem
  rcases List.mem_append.1 hmem with hmem | hmem
  · exact hword p.first List.mem_cons_self hmem
  · obtain ⟨w, hw, hmem⟩ := List.mem_flatMap.1 hmem
    exact hword w (List.mem_cons_of_mem _ hw) ((List.mem_cons.1 hmem).resolve_left (by decide))

/-- **A note of one line ends on it exactly if no keyword of a free text stands in its
header.** Otherwise the note stays open, on top of what was open before. -/
theorem note_line_ends_iff {d : Dialect} (hd : d ∈ builtin) {s : ScanState} (hs : Nest s.stack)
    {p : Phrase} (hp : p ∈ d.noteOpeners) {header : Phrase} (hheader : header.InWords)
    (hclosers : ∀ q ∈ d.noteClosers, ¬ q.words <:+: header.words) (text : List Char) :
    (d.EndsAtColon s (p.text ++ ' ' :: header.text) (' ' :: text)
      ↔ ∀ q ∈ d.freeTextKeywords, ¬ q.words <:+: header.words)
    ∧ ((∃ q ∈ d.freeTextKeywords, q.words <:+: header.words) →
      (d.scanLine s ((p.text ++ ' ' :: header.text) ++ ':' :: ' ' :: text)).stateAfter
        = s.enter .note) := by
  have hwords := builtin_readsWords d hd
  -- a keyword of a free text is one word
  have hsingle : ∀ q ∈ d.freeTextKeywords, q.words <:+: header.words ↔ q.first ∈ header.words := by
    intro q hq
    rw [Phrase.words, (hwords.freeText q hq).1, List.singleton_infix_iff]
  have hline := (hwords.openers p hp).1.append hheader
  have hflush := flush_of_any_isWord (hline.any_head? (':' :: ' ' :: text))
  obtain ⟨hreaches, hopen⟩ := opening_run hd hs hp hheader hclosers (List.cons_ne_nil ' ' text)
  have hfree : (∃ q ∈ d.freeTextKeywords, q.words <:+: header.words) →
      (d.scanLine s ((p.append header.words).text ++ ':' :: ' ' :: text)).stateAfter
        = s.enter .note := by
    rintro ⟨q, hq, hin⟩
    exact (d.stateAfter_of_flush s hflush).trans (hopen ⟨q, hq, (hsingle q hq).1 hin⟩)
  have hopening : p.text ++ ' ' :: header.text = (p.append header.words).text := by
    rw [Phrase.text_append]
    rfl
  rw [hopening]
  refine ⟨⟨fun h q hq hin => ?_, fun hnone => ?_⟩, hfree⟩
  · have hstate := (hfree ⟨q, hq, hin⟩).symm.trans h.stateAfter
    have hstack := congrArg ScanState.stack hstate
    rw [ScanState.stack_enter Mode.noConfusion] at hstack
    exact List.cons_ne_self _ _ hstack
  · exact ReachesColon.endsAtColon (colon_notMem_text hline) hflush
      (hreaches fun q hq hmem => hnone q hq ((hsingle q hq).2 hmem))

/-- The header of a note beside an element, in which keywords of other constructs stand, and
one in which the next branch of a group is named. -/
theorem note_line_ends_iff_of_keywords :
    sequence ∈ builtin ∧ Nest [.group] ∧ ⟨"note".toList, []⟩ ∈ sequence.noteOpeners
    ∧ sequence.EndsAtColon ⟨[.group]⟩ "note left of alt box".toList " end note".toList
    ∧ (sequence.scanLine ⟨[.group]⟩ "note left of else: end note".toList).stateAfter
      = ⟨[.note, .group]⟩ := by
  have hmem : sequence ∈ builtin := List.mem_cons_self
  have hnest : Nest [.group] := nest_nil.cons (Or.inr rfl)
  have hopener : ⟨"note".toList, []⟩ ∈ sequence.noteOpeners := by decide +kernel
  have hplain : (⟨"left".toList, ["of".toList, "alt".toList, "box".toList]⟩ : Phrase).InWords := by
    decide +kernel
  have hbranch : (⟨"left".toList, ["of".toList, "else".toList]⟩ : Phrase).InWords := by
    decide +kernel
  have hends := (note_line_ends_iff (s := ⟨[.group]⟩) hmem hnest hopener hplain
    (by decide +kernel) "end note".toList).1.2 (by decide +kernel)
  have hopen := (note_line_ends_iff (s := ⟨[.group]⟩) hmem hnest hopener hbranch
    (by decide +kernel) "end note".toList).2 (by decide +kernel)
  exact ⟨hmem, hnest, hopener, hends, hopen⟩

/-- A participant may be called `title`, and a note over it does not end on its line. -/
theorem not_every_note_line_ends :
    ¬ ∀ d ∈ builtin, ∀ s : ScanState, Nest s.stack → ∀ p ∈ d.noteOpeners, ∀ header : Phrase,
      header.InWords → (∀ q ∈ d.noteClosers, ¬ q.words <:+: header.words) → ∀ text,
      d.EndsAtColon s (p.text ++ ' ' :: header.text) (' ' :: text) := fun h =>
  absurd (h sequence List.mem_cons_self .initial nest_nil ⟨"note".toList, ["over".toList]⟩
    (by decide +kernel) ⟨"title".toList, []⟩ (by decide +kernel) (by decide +kernel)
    "hello".toList).stateAfter (by decide +kernel)

end

end Dialect

end UmlMarkup
