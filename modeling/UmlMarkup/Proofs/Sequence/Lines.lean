import UmlMarkup.Proofs.Scan.Interiors
import UmlMarkup.Proofs.Scan.Ledger
import UmlMarkup.Proofs.Scan.Words

/-!
# What a line of a sequence diagram leaves open

A line of a sequence diagram is known by the way it starts: a message by its two names
and the arrow between them, the opener and the closer of a block by a keyword, the
inside of a note or a comment by what is open before. This module goes through these
lines and says of each which state it hands on (`endState`), whatever else stands in
it. Labels and the texts of messages may hold keywords, quotation marks and comment
markers, for they are free text; a note takes anything but its end at the start of a
line, and a comment anything but its closing marker.

Where a line starts with fixed words it is read by computation, the rest of the line
and the state being variables. Names are another matter, since nothing is known of
them but that they are no keywords: `freshStep_of_name` says how they are read.
-/

namespace UmlMarkup

theorem Dialect.IsName.flush {d : Dialect} {w : List Char} (h : d.IsName w) : Flush w := by
  obtain ⟨c, w, rfl, hc, -⟩ := h.exists_cons
  exact ⟨c, rfl, isBlank_eq_false_of_isWord hc⟩

/-- The marker stands at the end of the text and nowhere else. -/
structure EndsIn (marker text : List Char) : Prop where
  suffix : marker <:+ text
  only : ∀ before after, text = before ++ (marker ++ after) → after = []

theorem endsIn_iff {marker text : List Char} (hne : marker ≠ []) :
    EndsIn marker text ↔ past? marker text = some text.length :=
  ⟨fun h => (past?_eq_length_iff hne).2 ⟨h.suffix, h.only⟩,
    fun h => ⟨((past?_eq_length_iff hne).1 h).1, ((past?_eq_length_iff hne).1 h).2⟩⟩

/-- The indentation is no part of a marker. -/
theorem EndsIn.dropWhile {marker text : List Char} (h : EndsIn marker text)
    (hmarker : Flush marker) : EndsIn marker (text.dropWhile isBlank) := by
  refine ⟨?_, fun before after heq => ?_⟩
  · obtain ⟨before, rfl⟩ := h.suffix
    rw [List.dropWhile_append]
    split
    · obtain ⟨c, hc, hblank⟩ := hmarker
      obtain ⟨marker, rfl⟩ := List.head?_eq_some_iff.1 hc
      have hdrop : (c :: marker).dropWhile isBlank = c :: marker :=
        List.dropWhile_cons_of_neg (by simp [hblank])
      exact ⟨[], hdrop.symm⟩
    · exact List.suffix_append _ _
  · refine h.only (text.takeWhile isBlank ++ before) after ?_
    rw [List.append_assoc, ← heq, List.takeWhile_append_dropWhile]

namespace Dialect

/-! ## The lines of sequence diagrams -/

/-- Free text is one token, if there is any. -/
theorem readAs_of_freeText {d : Dialect} {ctx : Context} (h : ctx.freeText = true)
    (text : List Char) :
    d.ReadAs ctx text (if text = [] then [] else [⟨.unstyled, text⟩]) ctx.settle.state := by
  by_cases hne : text = []
  · rw [if_pos hne, hne]
    exact .nil d ctx
  · rw [if_neg hne]
    exact .all hne (step_of_freeText h)


/-- The arrows of a dialect: the glyphs of which it makes atoms. -/
def arrowTexts (d : Dialect) : List (List Char) :=
  d.rules.flatMap fun r =>
    match r.pattern, r.kind with
    | .glyphs texts, .atom => texts
    | _, _ => []

/-- Nothing, or a space and any text. -/
def IsLabel (label : List Char) : Prop := label = [] ∨ ∃ text, label = ' ' :: text

/-- The line of a message from `a` to `b`. -/
def messageLine (a arrow b text : List Char) : List Char :=
  a ++ ' ' :: (arrow ++ ' ' :: (b ++ ' ' :: ':' :: text))

section

variable {s : ScanState} {stack : List Mode} {a b text label : List Char}

theorem flush_arrow : ∀ arrow ∈ sequence.arrowTexts, Flush arrow := by decide +kernel

theorem flush_groupWord : ∀ word ∈ groupWords, Flush word := by decide +kernel

/-- Every arrow of sequence diagrams is read as one, a space being behind it. -/
theorem freshStep_arrow (s : ScanState) (rest : List Char) :
    ∀ arrow ∈ sequence.arrowTexts,
      sequence.freshStep (inLine s) (arrow ++ ' ' :: rest)
        = ⟨.atom, arrow.length, inLine s⟩ := by
  -- one arrow after the other, each by computation
  repeat refine List.forall_mem_cons.2 ⟨rfl, ?_⟩
  exact List.forall_mem_nil _

/-- Every keyword that opens a group does so at the start of a line, its label being
free text. -/
theorem freshStep_groupWord (s : ScanState) (hlabel : IsLabel label) :
    ∀ word ∈ groupWords,
      sequence.freshStep { state := s } (word ++ label)
        = ⟨.keyword, word.length, { state := s.enter .group, freeText := true }⟩ := by
  rcases hlabel with rfl | ⟨text, rfl⟩
  · repeat refine List.forall_mem_cons.2 ⟨rfl, ?_⟩
    exact List.forall_mem_nil _
  · repeat refine List.forall_mem_cons.2 ⟨rfl, ?_⟩
    exact List.forall_mem_nil _

/-- The one keyword of sequence diagrams whose first word is a name is `ref over`. -/
theorem endsName_sequence {w tail : List Char} (hw : sequence.IsName w) (htail : AtGap tail)
    (hover : Phrase.tailLength? ["over".toList] tail = none) : sequence.EndsName w tail := by
  have hphrases : ∀ p ∈ sequence.phrases, p.more ≠ [] →
      ⟨p.first, []⟩ ∈ sequence.phrases ∨ p.more = ["over".toList] := by
    decide +kernel
  refine ⟨htail, fun p hp hfirst hmore => ?_⟩
  rcases hphrases p hp hmore with hkeyword | hmore
  · exact absurd (hfirst ▸ hkeyword) hw.keyword
  · rwa [hmore]

theorem ReadAs.name {ctx : Context} {ls : List Lexeme} (hnest : Nest ctx.state.stack)
    (hfree : ctx.freeText = false) (ha : sequence.IsName a) {tail : List Char}
    (hends : sequence.EndsName a tail)
    (htail : sequence.ReadAs { ctx with atStart := false } tail ls s) :
    sequence.ReadAs ctx (a ++ tail) (⟨.unstyled, a⟩ :: ls) s :=
  htail.token hnest hfree ha.flush
    (freshStep_of_name (builtin_sparesNames _ List.mem_cons_self) ha hends ctx)

/-- An arrow does not go on with the second word of `ref over`. -/
theorem tailLength?_arrow (rest : List Char) :
    ∀ arrow ∈ sequence.arrowTexts,
      Phrase.tailLength? ["over".toList] (' ' :: (arrow ++ ' ' :: rest)) = none := by
  repeat refine List.forall_mem_cons.2 ⟨rfl, ?_⟩
  exact List.forall_mem_nil _

/-- The lexemes of a message: the names, the arrow and the colon with a space between any
two of them, and the text, if there is any. -/
def messageLexemes (a arrow b text : List Char) : List Lexeme :=
  [⟨.unstyled, a⟩, ⟨.unstyled, [' ']⟩, ⟨.atom, arrow⟩, ⟨.unstyled, [' ']⟩, ⟨.unstyled, b⟩,
    ⟨.unstyled, [' ']⟩, ⟨.operator, [':']⟩] ++ if text = [] then [] else [⟨.unstyled, text⟩]

/-- **A message is read piece by piece**, and leaves everything as it was. -/
theorem readAs_message (hs : Nest s.stack) (ha : sequence.IsName a) {arrow : List Char}
    (harrow : arrow ∈ sequence.arrowTexts) (hb : sequence.IsName b) (text : List Char) :
    sequence.ReadAs { state := s } (messageLine a arrow b text)
      (messageLexemes a arrow b text) s := by
  have hflush := flush_arrow arrow harrow
  have hcolon : Flush [':'] := ⟨':', rfl, rfl⟩
  have hlabel : sequence.freshStep (inLine s) ([':'] ++ text)
      = ⟨.operator, 1, { inLine s with freeText := true }⟩ := rfl
  -- from the end of the line to its start
  have htext : sequence.ReadAs { inLine s with freeText := true } text _ s :=
    readAs_of_freeText rfl text
  have htail : sequence.ReadAs (inLine s) ([':'] ++ text) _ s := htext.token hs rfl hcolon hlabel
  have hgap : sequence.ReadAs (inLine s) (' ' :: ':' :: text) _ s :=
    htail.space rfl (hcolon.append text)
  have hto : sequence.ReadAs (inLine s) (b ++ ' ' :: ':' :: text) _ s :=
    hgap.name hs rfl hb (endsName_sequence hb (atGap_space _) rfl)
  have hgap : sequence.ReadAs (inLine s) (' ' :: (b ++ ' ' :: ':' :: text)) _ s :=
    hto.space rfl (hb.flush.append _)
  have harrows : sequence.ReadAs (inLine s) (arrow ++ ' ' :: (b ++ ' ' :: ':' :: text)) _ s :=
    hgap.token hs rfl hflush (freshStep_arrow s _ arrow harrow)
  have hgap : sequence.ReadAs (inLine s) (' ' :: (arrow ++ ' ' :: (b ++ ' ' :: ':' :: text))) _ s :=
    harrows.space rfl (hflush.append _)
  exact hgap.name hs rfl ha
    (endsName_sequence ha (atGap_space _) (tailLength?_arrow _ arrow harrow))

/-- The next branch of a group changes nothing. -/
theorem endState_branch (hs : Nest s.stack) (hlabel : IsLabel label) :
    sequence.endState { state := s } ("else".toList ++ label) = s := by
  have hstep : sequence.freshStep { state := s } ("else".toList ++ label)
      = ⟨.keyword, 4, { state := s, freeText := true }⟩ := by
    rcases hlabel with rfl | ⟨text, rfl⟩ <;> rfl
  rw [endState_of_nest hs rfl ⟨'e', rfl, rfl⟩ hstep]
  exact endState_of_freeText rfl label

theorem endState_groupOpener (hs : Nest s.stack) {word : List Char} (hword : word ∈ groupWords)
    (hlabel : IsLabel label) :
    sequence.endState { state := s } (word ++ label) = ⟨.group :: s.stack⟩ := by
  rw [endState_of_nest hs rfl (flush_groupWord word hword)
    (freshStep_groupWord s hlabel word hword)]
  exact endState_of_freeText rfl label

theorem endState_groupCloser (hs : Nest stack) :
    sequence.endState { state := ⟨.group :: stack⟩ } "end".toList = ⟨stack⟩ :=
  endState_of_token (k := .keyword) (hs.cons (Or.inr rfl)) ⟨'e', rfl, rfl⟩ rfl

theorem endState_boxOpener (hs : Nest s.stack) :
    sequence.endState { state := s } "box".toList = ⟨.box :: s.stack⟩ :=
  endState_of_token (k := .keyword) hs ⟨'b', rfl, rfl⟩ rfl

theorem endState_boxCloser (hs : Nest stack) :
    sequence.endState { state := ⟨.box :: stack⟩ } "end box".toList = ⟨stack⟩ :=
  endState_of_token (k := .keyword) (hs.cons (Or.inl rfl)) ⟨'e', rfl, rfl⟩ rfl

/-! ### Notes -/

/-- The header of a note that goes on below leaves the note open. -/
theorem endState_noteOpener (hs : Nest s.stack) (ha : sequence.IsName a) :
    sequence.endState { state := s } ("note over".toList ++ ' ' :: a) = ⟨.note :: s.stack⟩ := by
  have hopener : sequence.freshStep { state := s } ("note over".toList ++ ' ' :: a)
      = ⟨.keyword, 9, { inNoteHeader s with atStart := true }⟩ := rfl
  have hname : sequence.step (inNoteHeader s) a = ⟨.unstyled, a.length, inNoteHeader s⟩ := by
    have h := freshStep_of_name (builtin_sparesNames _ List.mem_cons_self) ha
      (endsName_sequence ha atGap_nil rfl) (inNoteHeader s)
    rw [List.append_nil] at h
    rw [step_of_note rfl ha.flush.any_head? rfl]
    exact h
  rw [endState_of_nest hs rfl ⟨'n', rfl, rfl⟩ hopener, endState_space rfl ha.flush]
  exact endState_of_length ha.flush.ne_nil hname

theorem endState_noteCloser (stack : List Mode) :
    sequence.endState { state := ⟨.note :: stack⟩ } "end note".toList = ⟨stack⟩ :=
  endState_of_length (k := .keyword) (c := { state := ⟨stack⟩ }) (by decide)
    ((step_of_note rfl rfl rfl).trans rfl)

/-! ### Comments -/

/-- A comment that ends on its line changes nothing. -/
theorem endState_comment (hs : Nest s.stack) (htext : EndsIn sequence.blockClose text) :
    sequence.endState { state := s } (sequence.blockOpen ++ text) = s := by
  have hstep : sequence.freshStep { state := s } (sequence.blockOpen ++ text)
      = sequence.commentStep { state := s } (sequence.blockOpen ++ text) := rfl
  have hpast : past? sequence.blockClose ((sequence.blockOpen ++ text).drop 2)
      = some text.length := (endsIn_iff (by decide)).1 htext
  refine endState_of_token (k := .comment) hs ⟨'/', rfl, rfl⟩ (hstep.trans ?_)
  rw [commentStep, show sequence.blockOpen.length = 2 from rfl, hpast, List.length_append]
  rfl

theorem endState_commentOpener (hs : Nest s.stack)
    (htext : ¬ sequence.blockClose <:+: text) :
    sequence.endState { state := s } (sequence.blockOpen ++ text)
      = ⟨.blockComment :: s.stack⟩ := by
  have hstep : sequence.freshStep { state := s } (sequence.blockOpen ++ text)
      = sequence.commentStep { state := s } (sequence.blockOpen ++ text) := rfl
  have hpast : past? sequence.blockClose ((sequence.blockOpen ++ text).drop 2) = none :=
    (past?_eq_none_iff (by decide)).2 htext
  refine endState_of_token (k := .comment) hs ⟨'/', rfl, rfl⟩ (hstep.trans ?_)
  rw [commentStep, show sequence.blockOpen.length = 2 from rfl, hpast]
  rfl

theorem endState_commentCloser (stack : List Mode) (hblank : text.head?.any isBlank = false)
    (htext : EndsIn sequence.blockClose text) :
    sequence.endState { state := ⟨.blockComment :: stack⟩ } text = ⟨stack⟩ := by
  have hne : text ≠ [] := by
    rintro rfl
    exact absurd htext.suffix (by decide)
  have hstep : sequence.step { state := ⟨.blockComment :: stack⟩ } text
      = ⟨.comment, text.length, { state := ⟨stack⟩ }⟩ := by
    rw [step_of_literal .comment hblank, continueStep, (endsIn_iff (by decide)).1 htext]
    rfl
  exact endState_of_length hne hstep

end

end Dialect

end UmlMarkup
