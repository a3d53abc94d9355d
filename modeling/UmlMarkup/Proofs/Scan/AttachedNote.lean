import UmlMarkup.Proofs.Scan.NoteHeader

/-!
# Notes beside an element

A note beside or over an element names the element behind its keyword, and its text stands on
the lines below, unless a colon puts it on the same line. So a line of this kind without a
colon has to leave the note open.

It does for any element that is named by words (`endState_header`), but not for one whose name
is a string (`endState_quotedHeader`). A complete string in the header of a note is taken for
the text of the note, as in `note "text" as N`, which is all of a note that floats, and the
keyword is not asked whether an element has to be named first. This is the one exception
(`attached_note_opens_iff`), and for a participant with a quoted name it is a wrong one
(`not_every_attached_note_opens`).
-/

namespace UmlMarkup

/-- The keyword of a note names the place of the note at an element: its last word is `of` or
`over`. -/
def Phrase.Attaches (p : Phrase) : Prop :=
  p.words.getLast? = some "of".toList ∨ p.words.getLast? = some "over".toList

instance : DecidablePred Phrase.Attaches := fun p =>
  inferInstanceAs (Decidable (p.words.getLast? = some "of".toList ∨ _))

namespace Dialect

/-- **The name of an element**: a word that does not end a note, or a string. -/
inductive ElementName (d : Dialect) : List Char → Prop
  | word {w : List Char} (hw : WordRun w) (hcloser : ⟨w, []⟩ ∉ d.noteClosers) : ElementName d w
  | quoted {inner : List Char} (h : d.quote ∉ inner) :
    ElementName d (d.quote :: (inner ++ [d.quote]))

variable {d : Dialect} {s : ScanState}

/-! ## Headers -/

/-- **The words of a header leave the note open** where no colon follows them and none of them
end the note. -/
theorem endState_header (hd : d ∈ builtin) (s : ScanState) {ws : List (List Char)}
    (hws : ∀ w ∈ ws, WordRun w) (hclosers : ∀ q ∈ d.noteClosers, ¬ q.words <:+: ws) :
    d.endState (inNoteHeader s) (ws.flatMap (' ' :: ·)) = s.enter .note := by
  -- a step may read several words, so the induction is on their number
  induction hn : ws.length using Nat.strongRecOn generalizing ws with
  | ind n ih =>
    cases ws with
    | nil => exact d.endState_nil (inNoteHeader s)
    | cons w ws =>
      have hline : (⟨w, ws⟩ : Phrase).InWords := hws
      obtain ⟨q, us, free, kind, heq, hq, hspace, hstep, -⟩ :=
        header_words hd s hline (fun q hq hpre => hclosers q hq hpre.isInfix) headerOver_nil
      have hwords : w :: ws = q.words ++ us := congrArg Phrase.words heq
      have hrest : (w :: ws).flatMap (' ' :: ·)
          = [' '] ++ (q.text ++ (us.flatMap (' ' :: ·) ++ [])) := by
        rw [List.append_nil, ← Phrase.text_append, ← heq]
        rfl
      have hlt : us.length < n := by
        rw [← hn, hwords, List.length_append, Phrase.words, List.length_cons]
        omega
      rw [hrest, endState_append (List.cons_ne_nil _ _) hspace]
      show d.endState (inNoteHeader s) _ = _
      rw [endState_append hq hstep, List.append_nil]
      cases free with
      | true => exact endState_of_freeText rfl _
      | false =>
        exact ih us.length hlt (fun u hu => hws u (hwords ▸ List.mem_append_right q.words hu))
          (fun c hc hin => hclosers c hc
            (hwords ▸ hin.trans (List.suffix_append q.words us).isInfix)) rfl

theorem freshStep_of_quote : ∀ d ∈ builtin, ∀ (ctx : Context) (rest : List Char),
    d.freshStep ctx (d.quote :: rest) = d.stringStep ctx (d.quote :: rest) := by
  repeat refine List.forall_mem_cons.2 ⟨fun _ _ => rfl, ?_⟩
  exact List.forall_mem_nil _

/-- **A string in a header closes the note** at the end of the line. -/
theorem endState_quotedHeader (hd : d ∈ builtin) (s : ScanState) {inner : List Char}
    (h : d.quote ∉ inner) :
    d.endState (inNoteHeader s) (' ' :: d.quote :: (inner ++ [d.quote])) = s := by
  have hflush : Flush (d.quote :: (inner ++ [d.quote])) :=
    ⟨d.quote, rfl, (builtin_tight d hd).quote⟩
  have hpast : past? [d.quote] (inner ++ [d.quote]) = some (inner ++ [d.quote]).length := by
    have hinner : ¬ [d.quote] <:+: inner := fun hin => h ((List.singleton_infix_iff _ _).1 hin)
    exact past?_append_marker (show SelfApart [d.quote] from List.not_mem_nil) hinner []
  have hstep : d.step (inNoteHeader s) (d.quote :: (inner ++ [d.quote]))
      = ⟨.string, (d.quote :: (inner ++ [d.quote])).length, (inNoteHeader s).markQuoted⟩ := by
    rw [step_of_note rfl hflush.any_head? rfl]
    show d.freshStep _ _ = _
    rw [freshStep_of_quote d hd, stringStep, List.drop_one, List.tail_cons, hpast,
      List.length_cons, ← Nat.add_comm 1]
  rw [endState_space rfl hflush]
  exact endState_of_length hflush.ne_nil hstep

/-! ## The whole line -/

/-- The keyword of a note is read on its own where a string follows it. -/
theorem endState_quotedLine (hd : d ∈ builtin) (hs : Nest s.stack) {p : Phrase}
    (hp : p ∈ d.noteOpeners) {inner : List Char} (h : d.quote ∉ inner) :
    d.endState { state := s } (p.text ++ ' ' :: d.quote :: (inner ++ [d.quote])) = s := by
  have hover : HeaderOver (' ' :: d.quote :: (inner ++ [d.quote])) := by
    refine ⟨fun c hc => Or.inl ?_, ?_⟩
    · cases hc
      rfl
    · have hgap : ¬ isGap d.quote = true := fun hgap =>
        Bool.noConfusion ((builtin_tight d hd).quote.symm.trans (isBlank_of_isGap hgap))
      show WordEnds ((d.quote :: (inner ++ [d.quote])).dropWhile isGap)
      rw [List.dropWhile_cons_of_neg hgap]
      exact (builtin_sparesNames d hd).quote
  obtain ⟨kind, zs, us, hzs, hstep, -⟩ :=
    opener_step hd hs hp (List.forall_mem_nil WordRun) hover
  obtain ⟨rfl, rfl⟩ := List.append_eq_nil_iff.1 hzs.symm
  have hne : p.text ≠ [] := fun he =>
    ((builtin_readsWords d hd).openers p hp).1.first.1 (List.append_eq_nil_iff.1 he).1
  rw [show p.append [] = p by rw [Phrase.append, List.append_nil]] at hstep
  rw [endState_append hne hstep]
  exact endState_quotedHeader hd s h

/-- The keyword of a note, and words behind it. -/
theorem endState_wordsLine (hd : d ∈ builtin) (hs : Nest s.stack) {p : Phrase}
    (hp : p ∈ d.noteOpeners) {ws : List (List Char)} (hws : ∀ w ∈ ws, WordRun w)
    (hclosers : ∀ q ∈ d.noteClosers, ¬ q.words <:+: ws) :
    d.endState { state := s } (p.append ws).text = s.enter .note := by
  obtain ⟨kind, zs, us, hzs, hstep, -⟩ := opener_step hd hs hp hws headerOver_nil
  have hne : (p.append zs).text ≠ [] := fun he =>
    ((builtin_readsWords d hd).openers p hp).1.first.1 (List.append_eq_nil_iff.1 he).1
  have hsplit : (p.append ws).text ++ [] = (p.append zs).text ++ us.flatMap (' ' :: ·) := by
    simp [hzs]
  rw [hsplit] at hstep
  rw [← List.append_nil (p.append ws).text, hsplit, endState_append hne hstep]
  exact endState_header hd s (fun u hu => hws u (hzs ▸ List.mem_append_right zs hu))
    fun q hq hin => hclosers q hq (hzs ▸ hin.trans (List.suffix_append zs us).isInfix)

/-- A word that ends no note by itself ends none as the only word of a header. -/
theorem not_infix_singleton {w : List Char} (hcloser : ⟨w, []⟩ ∉ d.noteClosers) :
    ∀ q ∈ d.noteClosers, ¬ q.words <:+: [w] := by
  rintro ⟨first, more⟩ hq hin
  have hle : more.length ≤ 0 := Nat.le_of_succ_le_succ hin.length_le
  obtain rfl := List.length_eq_zero_iff.1 (Nat.le_zero.1 hle)
  obtain rfl := List.mem_singleton.1 ((List.singleton_infix_iff _ _).1 hin)
  exact hcloser hq

/-- **A note beside an element stays open exactly if the element is named by a word.** A string
in the place of the name closes the note with its line. The keyword of the note has no part in
this. -/
theorem attached_note_opens_iff {d : Dialect} (hd : d ∈ builtin) {s : ScanState}
    (hs : Nest s.stack) {p : Phrase} (hp : p ∈ d.noteOpeners) {name : List Char}
    (hname : d.ElementName name) :
    ((d.scanLine s (p.text ++ ' ' :: name)).stateAfter = s.enter .note
      ↔ name.head? ≠ some d.quote)
    ∧ (name.head? = some d.quote →
      (d.scanLine s (p.text ++ ' ' :: name)).stateAfter = s) := by
  have hflush : Flush (p.text ++ ' ' :: name) :=
    flush_of_any_isWord (((builtin_readsWords d hd).openers p hp).1.any_head? _)
  rw [d.stateAfter_of_flush s hflush]
  cases hname with
  | word hw hcloser =>
    have hquote : name.head? ≠ some d.quote := fun he => by
      have hword := hw.any_head? []
      rw [List.append_nil, he] at hword
      exact Bool.noConfusion ((builtin_sparesNames d hd).quote.symm.trans hword)
    have hopen := endState_wordsLine hd hs hp (List.forall_mem_singleton.2 hw)
      (not_infix_singleton hcloser)
    rw [Phrase.text_append, List.flatMap_singleton] at hopen
    exact ⟨iff_of_true hopen hquote, fun he => absurd he hquote⟩
  | quoted h =>
    have hclosed := endState_quotedLine hd hs hp h
    refine ⟨iff_of_false (fun hopen => ?_) (fun hne => hne rfl), fun _ => hclosed⟩
    have hstack := congrArg ScanState.stack (hclosed.symm.trans hopen)
    rw [ScanState.stack_enter Mode.noConfusion] at hstack
    exact List.cons_ne_self _ _ hstack.symm

/-- In a group, a note over a participant that is called `alt`, and one over a participant with
a quoted name. -/
theorem attached_note_opens_iff_of_group :
    sequence ∈ builtin ∧ Nest [.group] ∧ ⟨"note".toList, ["over".toList]⟩ ∈ sequence.noteOpeners
    ∧ sequence.ElementName "alt".toList
    ∧ (sequence.scanLine ⟨[.group]⟩ "note over alt".toList).stateAfter = ⟨[.note, .group]⟩
    ∧ sequence.ElementName "\"end note\"".toList
    ∧ (sequence.scanLine ⟨[.group]⟩ "note over \"end note\"".toList).stateAfter = ⟨[.group]⟩ := by
  have hmem : sequence ∈ builtin := List.mem_cons_self
  have hnest : Nest [.group] := nest_nil.cons (Or.inr rfl)
  have hopener : ⟨"note".toList, ["over".toList]⟩ ∈ sequence.noteOpeners := by decide +kernel
  have hword : sequence.ElementName "alt".toList := .word (by decide +kernel) (by decide +kernel)
  have hquoted : sequence.ElementName "\"end note\"".toList :=
    .quoted (show sequence.quote ∉ "end note".toList by decide +kernel)
  have hopen := (attached_note_opens_iff (s := ⟨[.group]⟩) hmem hnest hopener hword).1.2
    (by decide +kernel)
  have hclosed := (attached_note_opens_iff (s := ⟨[.group]⟩) hmem hnest hopener hquoted).2 rfl
  exact ⟨hmem, hnest, hopener, hword, hopen, hquoted, hclosed⟩

/-- A note over a participant with a quoted name does not stay open. -/
theorem not_every_attached_note_opens :
    ¬ ∀ d ∈ builtin, ∀ s : ScanState, Nest s.stack → ∀ p ∈ d.noteOpeners, p.Attaches →
      ∀ name, d.ElementName name →
      (d.scanLine s (p.text ++ ' ' :: name)).stateAfter = s.enter .note := fun h =>
  absurd (h sequence List.mem_cons_self .initial nest_nil ⟨"note".toList, ["over".toList]⟩
    (by decide +kernel) (by decide +kernel) "\"Bob\"".toList
    (.quoted (show sequence.quote ∉ "Bob".toList by decide +kernel))) (by decide +kernel)

end Dialect

end UmlMarkup
