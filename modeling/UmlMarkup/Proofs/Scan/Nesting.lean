import UmlMarkup.Dialect.Builtin
import UmlMarkup.Proofs.Scan.Reading
import UmlMarkup.Proofs.Scan.Threading

/-!
# The shape of the open constructs

Boxes and groups nest in each other as they like, but nothing is ever opened
inside a note except a comment or a string, and nothing at all inside these. So
the stack of open constructs has three layers: boxes and groups, above them at
most one note, above that at most one comment or string.

A dialect could break this only by a rule that opens something else, and for one
whose rules open notes, boxes and groups alone the shape holds in every line of
every document, at every position in the line (`wellNested_of_lines`).

The layers are held apart by what the scanner knows within a line. Where a note
is innermost the scanner reads its header or its body; a header admits no rule
that opens something, and a body only a closer. The one thing to carry along is
that the note whose header is read is innermost (`Sound`). It stays so up to the
end of the line: a comment or a string that opens above it takes all that is
left.
-/

namespace UmlMarkup

/-! ## The layers of a stack

Stacks are written innermost first here, as the scanner holds them. -/

/-- Whether a construct is a literal: everything up to its closing marker belongs
to it. -/
def Mode.IsLiteral (m : Mode) : Prop := m = .blockComment ∨ m = .string

/-- Boxes and groups alone are open. -/
def Nest (stack : List Mode) : Prop := ∀ m ∈ stack, m = .box ∨ m = .group

/-- Boxes and groups, and at most one note inside them. -/
def Noted (stack : List Mode) : Prop :=
  Nest stack ∨ ∃ below, Nest below ∧ stack = .note :: below

/-- **The three layers**: boxes and groups, at most one note inside them, and at
most one comment or string inside that. -/
def Layered (stack : List Mode) : Prop :=
  Noted stack ∨ ∃ m below, m.IsLiteral ∧ Noted below ∧ stack = m :: below

theorem nest_nil : Nest [] := fun _ h => nomatch h

theorem Nest.cons {m : Mode} {stack : List Mode} (hm : m = .box ∨ m = .group)
    (h : Nest stack) : Nest (m :: stack) :=
  List.forall_mem_cons.2 ⟨hm, h⟩

theorem Nest.tail {m : Mode} {below : List Mode} (h : Nest (m :: below)) : Nest below :=
  (List.forall_mem_cons.1 h).2

theorem Nest.note_notMem {stack : List Mode} (h : Nest stack) : .note ∉ stack := fun hm => by
  rcases h .note hm with h | h <;> cases h

theorem Noted.tail {m : Mode} {below : List Mode} (h : Noted (m :: below)) :
    Nest below := by
  rcases h with h | ⟨b, hb, heq⟩
  · exact h.tail
  · cases heq
    exact hb

theorem Layered.tail {m : Mode} {below : List Mode} (h : Layered (m :: below)) :
    Noted below := by
  rcases h with h | ⟨l, b, _, hb, heq⟩
  · exact Or.inl h.tail
  · cases heq
    exact hb

/-- Where no literal is innermost none is open. -/
theorem Layered.noted {s : ScanState} (h : Layered s.stack)
    (hcomment : s.mode ≠ .blockComment) (hstring : s.mode ≠ .string) : Noted s.stack := by
  rcases h with h | ⟨m, below, hm, _, heq⟩
  · exact h
  · rw [← ScanState.mode_of_stack heq] at hm
    rcases hm with hm | hm
    · exact absurd hm hcomment
    · exact absurd hm hstring

/-- Where besides no note is innermost none is open. -/
theorem Noted.nest {s : ScanState} (h : Noted s.stack) (hnote : s.mode ≠ .note) :
    Nest s.stack := by
  rcases h with h | ⟨below, _, heq⟩
  · exact h
  · exact absurd (ScanState.mode_of_stack heq) hnote

theorem Noted.exit {s : ScanState} (h : Noted s.stack) (m : Mode) :
    Noted (s.exit m).stack := by
  rcases s.exit_cases m with he | he
  · rwa [he]
  · rw [he] at h
    exact Or.inl h.tail

theorem Layered.exit {s : ScanState} (h : Layered s.stack) (m : Mode) :
    Layered (s.exit m).stack := by
  rcases s.exit_cases m with he | he
  · rwa [he]
  · rw [he] at h
    exact Or.inl h.tail

theorem Noted.mem {stack : List Mode} (h : Noted stack) {m : Mode} (hm : m ∈ stack) :
    m = .box ∨ m = .group ∨ m = .note := by
  rcases h with h | ⟨below, hb, rfl⟩
  · exact (h m hm).imp_right Or.inl
  · rcases List.mem_cons.1 hm with rfl | hm
    · exact Or.inr (Or.inr rfl)
    · exact (hb m hm).imp_right Or.inl

/-- A note, a box or a group is no literal, nor is nothing at all. -/
theorem Noted.not_literal {s : ScanState} (h : Noted s.stack) : ¬ s.mode.IsLiteral := by
  obtain ⟨stack⟩ := s
  cases stack with
  | nil => rintro (hm | hm) <;> cases hm
  | cons top below =>
    show ¬ top.IsLiteral
    rcases h.mem List.mem_cons_self with rfl | rfl | rfl <;> rintro (hm | hm) <;> cases hm

theorem Layered.mem {stack : List Mode} (h : Layered stack) {m : Mode} (hm : m ∈ stack) :
    m.IsLiteral ∨ m = .box ∨ m = .group ∨ m = .note := by
  rcases h with h | ⟨l, below, hl, hb, rfl⟩
  · exact Or.inr (h.mem hm)
  · rcases List.mem_cons.1 hm with rfl | hm
    · exact Or.inl hl
    · exact Or.inr (hb.mem hm)

theorem Nest.mode {s : ScanState} (h : Nest s.stack) :
    s.mode = .normal ∨ s.mode = .box ∨ s.mode = .group := by
  obtain ⟨stack⟩ := s
  cases stack with
  | nil => exact Or.inl rfl
  | cons m below => exact Or.inr (h m List.mem_cons_self)

theorem Nest.exit {s : ScanState} (h : Nest s.stack) (m : Mode) : Nest (s.exit m).stack := by
  rcases s.exit_cases m with he | he
  · rwa [he]
  · rw [he] at h
    exact h.tail

/-- Neither of the two modes that are no construct is among the frames. -/
theorem Layered.ne_of_mem {stack : List Mode} (h : Layered stack) {m : Mode}
    (hm : m ∈ stack) : m ≠ .normal ∧ m ≠ .color := by
  rcases h.mem hm with (rfl | rfl) | rfl | rfl | rfl <;>
    exact ⟨Mode.noConfusion, Mode.noConfusion⟩

theorem Layered.mode_ne_color {s : ScanState} (h : Layered s.stack) : s.mode ≠ .color := by
  obtain ⟨stack⟩ := s
  cases stack with
  | nil => exact Mode.noConfusion
  | cons m below => exact (h.ne_of_mem List.mem_cons_self).2

/-! ## Dialects that open nothing else -/

/-- What an effect opens, if anything, is a note, a box or a group. -/
def Effect.EntersConstruct : Effect → Prop
  | .enter m => m = .note ∨ m = .box ∨ m = .group
  | .none | .exit _ => True

instance : DecidablePred Effect.EntersConstruct
  | .enter _ => inferInstanceAs (Decidable (_ ∨ _ ∨ _))
  | .none => .isTrue trivial
  | .exit _ => .isTrue trivial

namespace Dialect

/-- What the rules of a dialect open are notes, boxes and groups. -/
def EntersConstructs (d : Dialect) : Prop := ∀ r ∈ d.rules, r.effect.EntersConstruct

instance : DecidablePred EntersConstructs := fun d =>
  inferInstanceAs (Decidable (∀ r ∈ d.rules, r.effect.EntersConstruct))

/-- The rules of the built-in dialects open nothing else. -/
theorem builtin_entersConstructs : ∀ d ∈ builtin, d.EntersConstructs := by decide

end Dialect

/-! ## What holds at every position of a line -/

/-- **The invariant of a scan.** The stack is layered, and as long as something
is left of the line the note whose header is read is innermost. -/
structure Sound (ctx : Context) (rest : List Char) : Prop where
  layered : Layered ctx.state.stack
  header : ctx.inHeader = true → rest ≠ [] → ctx.state.mode = .note

namespace Sound

variable {d : Dialect} {ctx : Context} {rest : List Char}

/-- At the end of the line only the stack matters. -/
theorem atEnd (h : Layered ctx.state.stack) : Sound ctx (rest.drop rest.length) :=
  ⟨h, fun _ hne => absurd List.drop_length hne⟩

/-- Where the context stays as it is the invariant does. -/
theorem drop (h : Sound ctx rest) (n : Nat) : Sound ctx (rest.drop n) :=
  ⟨h.layered, fun hheader hne => h.header hheader fun he => hne (by rw [he, List.drop_nil])⟩

/-- Outside a header only the stack matters. -/
theorem outside (h : Layered ctx.state.stack) (hheader : ctx.inHeader = false)
    (rest : List Char) : Sound ctx rest :=
  ⟨h, fun ht => absurd (ht.symm.trans hheader) Bool.noConfusion⟩

/-- At a fresh position no literal is open. -/
theorem noted (h : Sound ctx rest) (hfresh : Fresh ctx rest) : Noted ctx.state.stack :=
  h.layered.noted hfresh.blockComment hfresh.string

/-- At a fresh position outside a header no note is open either. -/
theorem nest (h : Sound ctx rest) (hfresh : Fresh ctx rest)
    (hheader : ctx.inHeader = false) : Nest ctx.state.stack :=
  (h.noted hfresh).nest fun hn => Bool.noConfusion (hheader.symm.trans (hfresh.note hn))

end Sound

theorem Noted.settle {ctx : Context} (h : Noted ctx.state.stack) :
    Noted ctx.settle.state.stack := by
  rcases ctx.settle_cases with he | he <;> rw [he]
  · exact h
  · exact h.exit .note

theorem Layered.settle {ctx : Context} (h : Layered ctx.state.stack) :
    Layered ctx.settle.state.stack := by
  rcases ctx.settle_cases with he | he <;> rw [he]
  · exact h
  · exact h.exit .note

namespace Dialect

variable {d : Dialect} {ctx : Context} {rest : List Char}

theorem continueStep_sound (h : Sound ctx rest) (hne : rest ≠ []) {m : Mode}
    (hm : ctx.state.mode = m) (hnote : m ≠ .note) (kind : Kind) (closer : List Char) :
    Sound (continueStep ctx rest m kind closer).next
      (rest.drop (continueStep ctx rest m kind closer).length) := by
  unfold continueStep
  split
  · -- where a literal is innermost no header is being read
    refine .outside (h.layered.exit m) (eq_false_of_ne_true fun hheader => ?_) _
    exact hnote (hm.symm.trans (h.header hheader hne))
  · exact .atEnd h.layered

theorem unclosedStep_sound (h : Noted ctx.state.stack) {m : Mode} (hm : m.IsLiteral)
    (kind : Kind) :
    Sound (unclosedStep ctx rest m kind).next
      (rest.drop (unclosedStep ctx rest m kind).length) := by
  have hnormal : m ≠ .normal := by rcases hm with rfl | rfl <;> exact Mode.noConfusion
  refine .atEnd (Or.inr ⟨m, ctx.settle.state.stack, hm, h.settle, ?_⟩)
  exact ScanState.stack_enter hnormal

theorem commentStep_sound (h : Sound ctx rest) (hfresh : Fresh ctx rest) :
    Sound (d.commentStep ctx rest).next (rest.drop (d.commentStep ctx rest).length) := by
  unfold commentStep
  split
  · exact h.drop _
  · exact unclosedStep_sound (h.noted hfresh) (Or.inl rfl) .comment

theorem stringStep_sound (h : Sound ctx rest) (hfresh : Fresh ctx rest) :
    Sound (d.stringStep ctx rest).next (rest.drop (d.stringStep ctx rest).length) := by
  unfold stringStep
  split
  · next n _ =>
    have hd := h.drop (1 + n)
    exact ⟨hd.layered, fun hheader => hd.header (ctx.inHeader_markQuoted ▸ hheader)⟩
  · exact unclosedStep_sound (h.noted hfresh) (Or.inr rfl) .string

theorem closerStep_sound (h : Sound ctx rest) (hne : rest ≠ []) (c : Closer) :
    Sound (closerStep ctx c).next (rest.drop (closerStep ctx c).length) := by
  unfold closerStep
  split
  · next t ht =>
    have hs := ScanState.close?_eq_some_iff.1 ht
    have hlayered := h.layered
    rw [hs] at hlayered
    refine .outside (Or.inl hlayered.tail) ?_ _
    by_cases hm : c.mode = .note
    · rw [Context.inHeader, if_pos hm]
      rfl
    · -- nothing but the note is innermost in its header
      rw [Context.inHeader, if_neg hm]
      refine eq_false_of_ne_true fun hheader => hm ?_
      exact (ScanState.mode_of_stack hs).symm.trans (h.header hheader hne)
  · exact h.drop _

/-- Reading a color changes no state in which no color is open. -/
@[simp] theorem state_readMatch (h : ctx.state.mode ≠ .color) (r : Rule) (n : Nat) :
    (readMatch ctx rest r n).1 = ctx.state := by
  unfold readMatch
  split
  · exact readColor_enter h (rest.drop 1)
  · rfl

/-- A pattern other than that of colors is all that its rule reads. -/
@[simp] theorem readMatch_of_ne_color {r : Rule} (h : r.pattern ≠ .color) (n : Nat) :
    readMatch ctx rest r n = (ctx.state, n) := if_neg h

/-- Opening a note, a box or a group where no note is open. -/
theorem enter_sound (c : Context) (h : Nest c.state.stack) (hheader : c.inHeader = false)
    {m : Mode} (hm : m = .note ∨ m = .box ∨ m = .group) (rest : List Char) :
    Sound (c.enter m) rest := by
  rcases hm with rfl | hm
  · have hs : (c.enter .note).state.stack = .note :: c.state.stack :=
      ScanState.stack_enter Mode.noConfusion
    exact ⟨Or.inl (Or.inr ⟨c.state.stack, h, hs⟩), fun _ _ => ScanState.mode_of_stack hs⟩
  · have hs : (c.enter m).state.stack = m :: c.state.stack :=
      ScanState.stack_enter (by rcases hm with rfl | rfl <;> exact Mode.noConfusion)
    have hnote : m ≠ .note := by rcases hm with rfl | rfl <;> exact Mode.noConfusion
    exact .outside (Or.inl (Or.inl (hs ▸ h.cons hm)))
      ((Context.inHeader_enter_of_ne hnote).trans hheader) rest

theorem ruleStep_sound (hd : d.EntersConstructs) (h : Sound ctx rest)
    (hfresh : Fresh ctx rest) {r : Rule} {n : Nat} (hr : d.rule? ctx rest = some (r, n)) :
    Sound (ruleStep ctx rest r n).next (rest.drop (ruleStep ctx rest r n).length) := by
  obtain ⟨hmem, _, hadm⟩ := rule?_spec hr
  have henters := hd r hmem
  have hkept := h.drop (ruleStep ctx rest r n).length
  unfold ruleStep
  simp only [state_readMatch h.layered.mode_ne_color]
  cases he : r.effect with
  | none => exact ⟨hkept.layered, hkept.header⟩
  | exit m => exact ⟨hkept.layered, hkept.header⟩
  | enter m =>
    -- outside a header no note is open, so the construct lies on boxes and groups
    have hheader : ctx.inHeader = false := inHeader_of_admits hadm (by rw [Rule.opens, he])
    have hnest := h.nest hfresh hheader
    rw [he] at henters
    exact enter_sound { ctx with freeText := ctx.freeText || r.freeText } hnest hheader henters _

/-- **A step keeps the invariant**, whichever way it reads its token. -/
theorem sound_of_reads (hd : d.EntersConstructs) (h : Sound ctx rest) (hne : rest ≠ [])
    {s : Step} (hs : Reads d ctx rest s) : Sound s.next (rest.drop s.length) := by
  cases hs with
  | freeText _ => exact .atEnd h.layered
  | blank _ _ => exact h.drop _
  | openComment _ _ hm => exact continueStep_sound h hne hm Mode.noConfusion _ _
  | openString _ _ hm => exact continueStep_sound h hne hm Mode.noConfusion _ _
  | noteCloser => exact closerStep_sound h hne _
  | noteText => exact .atEnd h.layered
  | lineComment => exact .atEnd h.layered
  | blockComment hfresh => exact commentStep_sound h hfresh
  | string hfresh => exact stringStep_sound h hfresh
  | colon => exact .outside (h.layered.exit .note) rfl _
  | closer => exact closerStep_sound h hne _
  | rule hfresh _ hr => exact ruleStep_sound hd h hfresh.toFresh hr
  | word => exact h.drop _

/-- Where boxes and groups alone are open, and neither free text nor a blank stands,
something new may begin. -/
theorem step_of_nest (h : Nest ctx.state.stack) (hfree : ctx.freeText = false)
    (hblank : rest.head?.any isBlank = false) : d.step ctx rest = d.freshStep ctx rest := by
  rw [step, hfree, hblank, if_neg Bool.false_ne_true, if_neg Bool.false_ne_true]
  rcases h.mode with hm | hm | hm <;> rw [hm]

/-- The invariant holds at every position that a scan from a sound one passes. -/
theorem Walk.sound (hd : d.EntersConstructs) {ctx' : Context} {rest' : List Char}
    {ls : List Lexeme} (hw : Walk d ctx rest ls ctx' rest') (h : Sound ctx rest) :
    Sound ctx' rest' := by
  refine hw.invariant (fun ctx rest hne h => ?_) h
  have hs := sound_of_reads hd h hne (d.step_reads ctx rest)
  exact ⟨hs.layered, hs.header⟩

/-- A line that starts with a layered stack leaves one. -/
theorem layered_scanLine (hd : d.EntersConstructs) {state : ScanState}
    (h : Layered state.stack) (line : List Char) :
    Layered (d.scanLine state line).stateAfter.stack :=
  Layered.settle ((d.walk_scanRest _ _).sound hd (.outside h rfl _)).layered

/-- And so does a run of lines. -/
theorem layered_stateAfter (hd : d.EntersConstructs) {state : ScanState}
    (h : Layered state.stack) (lines : List (List Char)) :
    Layered (d.stateAfter state lines).stack := by
  induction lines generalizing state with
  | nil => exact h
  | cons line rest ih => exact ih (layered_scanLine hd h line)

end Dialect

/-! ## The shape as frames -/

/-- **The shape of the open constructs**, outermost first: boxes and groups, then
at most one note, then at most one comment or string. -/
def ScanState.WellNested (s : ScanState) : Prop :=
  ∃ nest note literal, s.frames = nest ++ note ++ literal
    ∧ (∀ m ∈ nest, m = .box ∨ m = .group)
    ∧ (note = [] ∨ note = [.note])
    ∧ (literal = [] ∨ literal = [.blockComment] ∨ literal = [.string])

theorem Noted.frames_eq {stack : List Mode} (h : Noted stack) :
    ∃ nest note, stack.reverse = nest ++ note ∧ (∀ m ∈ nest, m = .box ∨ m = .group)
      ∧ (note = [] ∨ note = [.note]) := by
  rcases h with h | ⟨below, hb, rfl⟩
  · exact ⟨stack.reverse, [], by rw [List.append_nil],
      fun m hm => h m (List.mem_reverse.1 hm), Or.inl rfl⟩
  · exact ⟨below.reverse, [.note], List.reverse_cons,
      fun m hm => hb m (List.mem_reverse.1 hm), Or.inr rfl⟩

theorem Layered.wellNested {s : ScanState} (h : Layered s.stack) : s.WellNested := by
  rcases h with h | ⟨m, below, hm, hb, heq⟩
  · obtain ⟨nest, note, hs, hnest, hnote⟩ := h.frames_eq
    exact ⟨nest, note, [], by rw [List.append_nil]; exact hs, hnest, hnote, Or.inl rfl⟩
  · obtain ⟨nest, note, hs, hnest, hnote⟩ := hb.frames_eq
    refine ⟨nest, note, [m], ?_, hnest, hnote, Or.inr ?_⟩
    · rw [ScanState.frames, heq, List.reverse_cons, hs]
    · rcases hm with rfl | rfl
      · exact Or.inl rfl
      · exact Or.inr rfl

theorem ScanState.stack_of_frames {s : ScanState} {below above : List Mode} {m : Mode}
    (h : s.frames = below ++ m :: above) : s.stack = above.reverse ++ m :: below.reverse := by
  rw [← List.reverse_reverse s.stack, show s.stack.reverse = below ++ m :: above from h,
    List.reverse_append, List.reverse_cons, List.append_assoc, List.singleton_append]

/-- Nothing is open inside a literal. -/
theorem Layered.eq_nil_of_literal {above below : List Mode} {m : Mode} (hm : m.IsLiteral)
    (h : Layered (above ++ m :: below)) : above = [] := by
  cases above with
  | nil => rfl
  | cons a above =>
    have hmem : m ∈ above ++ m :: below := List.mem_append_right above List.mem_cons_self
    rcases h.tail.mem hmem with rfl | rfl | rfl <;> rcases hm with hm | hm <;> cases hm

/-- Nothing but a literal is open inside a note. -/
theorem Layered.literal_of_note {above below : List Mode}
    (h : Layered (above ++ .note :: below)) : above = [] ∨ ∃ m, m.IsLiteral ∧ above = [m] := by
  have hmem : ∀ above, .note ∈ above ++ Mode.note :: below := fun above =>
    List.mem_append_right above List.mem_cons_self
  cases above with
  | nil => exact Or.inl rfl
  | cons a above =>
    rcases h with h | ⟨m, b, hm, hb, heq⟩
    · exact absurd (hmem above) h.tail.note_notMem
    · cases heq
      cases above with
      | nil => exact Or.inr ⟨a, hm, rfl⟩
      | cons _ above => exact absurd (hmem above) hb.tail.note_notMem

/-- Where nothing counts toward indentation nothing is open, a string apart. -/
theorem Layered.mode_of_depth_eq_zero {s : ScanState} (h : Layered s.stack)
    (hdepth : s.depth = 0) : s.mode = .normal ∨ s.mode = .string := by
  have hnone := List.countP_eq_zero.1 hdepth
  obtain ⟨stack⟩ := s
  cases stack with
  | nil => exact Or.inl rfl
  | cons m below =>
    have hm : ¬ m.isNesting = true := hnone m List.mem_cons_self
    rcases h.mem List.mem_cons_self with (rfl | rfl) | rfl | rfl | rfl
    · exact absurd rfl hm
    · exact Or.inr rfl
    · exact absurd rfl hm
    · exact absurd rfl hm
    · exact absurd rfl hm

namespace Dialect

/-- **The shape of everything that a document reaches.** With a dialect that opens
notes, boxes and groups alone, as the built-in ones do, the state after each line
is well nested: no frame of another kind is left over, a literal has nothing
inside it and a note nothing but a literal, and only a string or nothing at all
goes without indentation. The states within the next line are well nested too,
so nothing is opened inside a note or a literal even for a moment. -/
theorem wellNested_of_lines :
    (∀ d ∈ builtin, d.EntersConstructs)
    ∧ ∀ d : Dialect, d.EntersConstructs → ∀ (lines : List (List Char)) (s : ScanState),
      s ∈ ScanState.initial :: (d.scanLines .initial lines).map ScannedLine.stateAfter →
      s.WellNested
      ∧ .normal ∉ s.frames ∧ .color ∉ s.frames
      ∧ (∀ below m above, s.frames = below ++ m :: above → m.IsLiteral → above = [])
      ∧ (∀ below above, s.frames = below ++ .note :: above →
          above = [] ∨ ∃ m, m.IsLiteral ∧ above = [m])
      ∧ (s.depth = 0 → s.mode = .normal ∨ s.mode = .string)
      ∧ ∀ (line : List Char) (ls : List Lexeme) (ctx : Context) (rest : List Char),
        Walk d { state := s } (line.dropWhile isBlank) ls ctx rest → ctx.state.WellNested := by
  refine ⟨builtin_entersConstructs, fun d hd lines s hs => ?_⟩
  have h : Layered s.stack := by
    have hinit : Layered ScanState.initial.stack := Or.inl (Or.inl nest_nil)
    rcases List.mem_cons.1 hs with rfl | hs
    · exact hinit
    · obtain ⟨l, hl, rfl⟩ := List.mem_map.1 hs
      exact stateAfter_of_mem_scanLines (P := fun s => Layered s.stack)
        (fun _ line h => layered_scanLine hd h line) hinit hl
  refine ⟨h.wellNested, fun hm => (h.ne_of_mem (List.mem_reverse.1 hm)).1 rfl,
    fun hm => (h.ne_of_mem (List.mem_reverse.1 hm)).2 rfl, fun below m above heq hm => ?_,
    fun below above heq => ?_, h.mode_of_depth_eq_zero,
    fun line ls ctx rest hw => (hw.sound hd (.outside h rfl _)).layered.wellNested⟩
  · rw [ScanState.stack_of_frames heq] at h
    exact List.reverse_eq_nil_iff.1 (h.eq_nil_of_literal hm)
  · rw [ScanState.stack_of_frames heq] at h
    refine h.literal_of_note.imp List.reverse_eq_nil_iff.1 fun ⟨m, hm, hab⟩ => ⟨m, hm, ?_⟩
    rw [← List.reverse_reverse above, hab]
    rfl

/-- A group is open, and a comment that starts in the header of a note outlasts
its line. -/
theorem wellNested_of_lines_of_comment_in_header :
    sequence ∈ builtin ∧ sequence.EntersConstructs
    ∧ ScanState.ofFrames [.group, .note, .blockComment] ∈ ScanState.initial
        :: (sequence.scanLines .initial
          ["alt x".toList, "note over A /' c".toList]).map ScannedLine.stateAfter
    ∧ (ScanState.ofFrames [.group, .note, .blockComment]).WellNested := by
  have hmem : sequence ∈ builtin := List.mem_cons_self
  have hd : sequence.EntersConstructs := wellNested_of_lines.1 sequence hmem
  have hs : ScanState.ofFrames [.group, .note, .blockComment] ∈ ScanState.initial
      :: (sequence.scanLines .initial
        ["alt x".toList, "note over A /' c".toList]).map ScannedLine.stateAfter := by
    decide +kernel
  exact ⟨hmem, hd, hs, (wellNested_of_lines.2 sequence hd _ _ hs).1⟩

end Dialect

end UmlMarkup
