import UmlMarkup.Proofs.Scan.LineBreak

/-!
# What stands at the end of a line

Blanks at the end of a line mean nothing, whatever the line is and whatever is open
(`trailing_blanks_inert`). Neither does a line comment there, unless the line ends inside a
comment or a string, of which it would be a part (`trailing_comment_inert`). The line hands
on the same state, and of its tokens only the last may take on some of what was added.

Both are cases of the same. What is added is overlooked from every position of the line, so
the steps of the shorter line are those of the longer one (`step_grows`), up to the end of
the shorter line or up to a last step that reads more than before. `Lengthened` lists what
the two scans may come to, and only there it matters what was added: that a blank closes
nothing and opens nothing, and neither does a comment where no literal is open.
-/

namespace UmlMarkup

/-! ## Tokens -/

/-- The tokens with the last of them taken on to the column `stop`. -/
def extendLast (stop : Nat) : List Token → List Token
  | [] => []
  | [t] => [⟨t.kind, ⟨t.span.start, stop⟩⟩]
  | t :: u :: rest => t :: extendLast stop (u :: rest)

@[simp] theorem extendLast_concat (stop : Nat) (ts : List Token) (t : Token) :
    extendLast stop (ts ++ [t]) = ts ++ [⟨t.kind, ⟨t.span.start, stop⟩⟩] := by
  induction ts with
  | nil => rfl
  | cons u rest ih =>
    cases rest with
    | nil => rfl
    | cons v rest =>
      rw [List.cons_append, List.cons_append, extendLast, ← List.cons_append, ih]
      rfl

/-- The last token goes on to wherever its lexeme does. -/
theorem extendLast_layout {column stop : Nat} {ls : List Lexeme} {kind : Kind}
    {text : List Char}
    (hstop : column + ((ls ++ [Lexeme.mk kind text]).flatMap Lexeme.text).length = stop)
    (more : List Char) :
    extendLast (stop + more.length) (layout column (ls ++ [⟨kind, text⟩]))
      = layout column (ls ++ [⟨kind, text ++ more⟩]) := by
  rw [List.flatMap_append, List.flatMap_singleton, List.length_append, ← Nat.add_assoc] at hstop
  rw [layout_append, layout_append, ← hstop, Nat.add_assoc _ _ more.length,
    ← List.length_append]
  exact extendLast_concat _ _ _

/-- Where the last token stops already, it stays. -/
theorem extendLast_layout_self {column stop : Nat} {ls : List Lexeme}
    (hstop : column + (ls.flatMap Lexeme.text).length = stop) :
    extendLast stop (layout column ls) = layout column ls := by
  rcases List.eq_nil_or_concat' ls with rfl | ⟨init, ⟨kind, text⟩, rfl⟩
  · rfl
  · have h := extendLast_layout hstop []
    rwa [List.append_nil] at h

/-- **The tokens go on**: all of `ts` but the last are among `us` as they are, and the last
is too, or it goes on beyond the column `stop` at which it ends. -/
def GoesOn (stop : Nat) (ts us : List Token) : Prop :=
  ∃ stop' more, stop ≤ stop' ∧ us = extendLast stop' ts ++ more

theorem goesOn_layout_append {column stop : Nat} {ls : List Lexeme}
    (hstop : column + (ls.flatMap Lexeme.text).length = stop) (more : List Lexeme) :
    GoesOn stop (layout column ls) (layout column (ls ++ more)) :=
  ⟨stop, layout stop more, Nat.le_refl stop, by
    rw [extendLast_layout_self hstop, layout_append, hstop]⟩

theorem goesOn_layout_concat {column stop : Nat} {ls : List Lexeme} {kind : Kind}
    {text : List Char}
    (hstop : column + ((ls ++ [Lexeme.mk kind text]).flatMap Lexeme.text).length = stop)
    (more : List Char) (rest : List Lexeme) :
    GoesOn stop (layout column (ls ++ [⟨kind, text⟩]))
      (layout column (ls ++ ⟨kind, text ++ more⟩ :: rest)) := by
  have hsplit : ls ++ ⟨kind, text ++ more⟩ :: rest = (ls ++ [⟨kind, text ++ more⟩]) ++ rest := by
    rw [List.append_assoc, List.singleton_append]
  rw [hsplit, layout_append column (_ ++ [_]), ← extendLast_layout hstop more]
  exact ⟨_, _, Nat.le_add_right _ _, rfl⟩

namespace Dialect

variable {d : Dialect} {ctx : Context} {u ext : List Char}

/-! ## The scan of a lengthened line -/

/-- **What the scans of a line and of a longer one come to**: the longer one goes on behind
the shorter one, or its last token does. -/
inductive Lengthened (d : Dialect) (ext : List Char) :
    List Lexeme × Context → List Lexeme × Context → Prop
  | behind (ls : List Lexeme) (c : Context) :
    Lengthened d ext (ls, c) (ls ++ (d.scanRest c ext).1, (d.scanRest c ext).2)
  | blanks (ls : List Lexeme) (text : List Char) (c : Context) (hfree : c.freeText = false) :
    Lengthened d ext (ls ++ [⟨.unstyled, text⟩], c)
      (ls ++ ⟨.unstyled, text ++ ext.takeWhile isBlank⟩
          :: (d.scanRest c (ext.dropWhile isBlank)).1,
        (d.scanRest c (ext.dropWhile isBlank)).2)
  | toEnd (ls : List Lexeme) (kind : Kind) (text : List Char) (c : Context) :
    Lengthened d ext (ls ++ [⟨kind, text⟩], c) (ls ++ [⟨kind, text ++ ext⟩], c)
  | closed {m : Mode} {kind : Kind} {marker inner : List Char} (ls : List Lexeme) {c : Context}
    (hc : c.settle.state.mode.IsLiteral) (hliteral : d.Literal m kind marker)
    (hopen : past? marker inner = none) (hclosed : past? marker (inner ++ ext) ≠ none)
    (longer : List Lexeme × Context) : Lengthened d ext (ls, c) longer

/-- What is read before is the same. -/
theorem Lengthened.cons (l : Lexeme) {short long : List Lexeme × Context}
    (h : d.Lengthened ext short long) :
    d.Lengthened ext (l :: short.1, short.2) (l :: long.1, long.2) := by
  cases h with
  | behind ls c => exact .behind (l :: ls) c
  | blanks ls text c hfree => exact .blanks (l :: ls) text c hfree
  | toEnd ls kind text c => exact .toEnd (l :: ls) kind text c
  | closed ls hc hliteral hopen hclosed longer =>
    exact .closed (l :: ls) hc hliteral hopen hclosed _

theorem settle_of_isLiteral {c : Context} (h : c.state.mode.IsLiteral) :
    c.settle.state = c.state := by
  have hnote : c.state.mode ≠ .note := by
    rcases h with h | h <;> rw [h] <;> exact Mode.noConfusion
  rcases c.settle_cases with heq | heq
  · exact heq
  · simp [heq, ScanState.close?_eq_none_of_mode hnote]

/-- Whether a token stands before is immaterial at the end of a line. -/
theorem state_settle_inLine (c : Context) :
    ({ c with atStart := false } : Context).settle.state = c.settle.state := by
  unfold Context.settle
  split <;> rfl

/-- **The scan of a lengthened line**, if what is added is overlooked everywhere. -/
theorem lengthened_scanRest (h : ∀ u, d.Overlooked u ext) (ctx : Context) (u : List Char) :
    d.Lengthened ext (d.scanRest ctx u) (d.scanRest ctx (u ++ ext)) := by
  induction ctx, u using d.scan_induction with
  | atEnd ctx => simpa using Lengthened.behind [] ctx
  | token ctx u hne ih =>
    have hne' : u ++ ext ≠ [] := fun he => hne (List.append_eq_nil_iff.1 he).1
    have hgrows := step_grows (h u) hne ctx
    generalize hs : d.step ctx u = s at hgrows
    generalize hs' : d.step ctx (u ++ ext) = s' at hgrows
    cases hgrows with
    | same _ =>
      rw [scanRest_of_step_eq hne (hs'.trans hs.symm), scanRest_of_ne_nil d ctx hne]
      exact ih.cons _
    | blanks ctx hfree hu =>
      have hsplit : u ++ ext = u ++ ext.takeWhile isBlank ++ ext.dropWhile isBlank := by
        rw [List.append_assoc, List.takeWhile_append_dropWhile]
      rw [hsplit, ← List.length_append] at hs'
      rw [scanRest_of_length hne hs, hsplit,
        scanRest_append (fun he => hne (List.append_eq_nil_iff.1 he).1) hs']
      exact .blanks [] u { ctx with atStart := false } hfree
    | toEnd kind next =>
      rw [scanRest_of_length hne hs, scanRest_of_length hne' hs']
      exact .toEnd [] kind u { next with atStart := false }
    | closed hm hliteral hopen hclosed _ =>
      rw [scanRest_of_length hne hs]
      refine .closed _ ?_ hliteral hopen hclosed _
      rwa [state_settle_inLine, settle_of_isLiteral hm]

/-! ## Lines -/

section

variable {s : ScanState} {line : List Char}

/-- A blank line hands on what it has found. -/
theorem scanLine_of_blank (d : Dialect) (s : ScanState) (hline : line.dropWhile isBlank = []) :
    (d.scanLine s line).tokens = [] ∧ (d.scanLine s line).stateAfter = s := by
  show layout _ (d.scanRest _ (line.dropWhile isBlank)).1 = []
    ∧ (d.scanRest _ (line.dropWhile isBlank)).2.settle.state = s
  simp [hline]

/-! ## Blanks -/

/-- **What blanks at the end make of the tokens of a line**: nothing, or the last token
takes them on, or they are a plain token of their own. -/
inductive BlanksBehind (line w : List Char) (ts : List Token) : List Token → Prop
  | same : BlanksBehind line w ts ts
  | last : BlanksBehind line w ts (extendLast (line ++ w).length ts)
  | own : BlanksBehind line w ts (ts ++ [⟨.unstyled, ⟨line.length, (line ++ w).length⟩⟩])

theorem overlooked_of_blank (hd : d.Tight) {w : List Char} (hw : Blank w) (u : List Char) :
    d.Overlooked u w := by
  have hrest : w.dropWhile isBlank = [] := List.dropWhile_eq_nil_iff.2 hw
  refine overlooked_of_isTrivia hd hw.atBlank ?_ (fun p hp v hv => ?_) (fun _ _ _ => hw) u
  · rw [isTrivia, hrest]
    rfl
  · obtain ⟨hne, hunblank⟩ := hd.solid_of_mem_phrases hp hv
    obtain ⟨c, v, rfl⟩ := List.exists_cons_of_ne_nil hne
    refine eq_false_of_ne_true fun hpre => ?_
    have hc : c ∈ w.dropWhile isGap :=
      (List.isPrefixOf_iff_prefix.1 hpre).subset List.mem_cons_self
    exact Bool.noConfusion ((hw c ((List.dropWhile_suffix _).subset hc)).symm.trans
      (hunblank c List.mem_cons_self))

/-- The tokens of a line and what it hands on, when the line is lengthened behind its
indentation. -/
theorem lengthened_scanLine (h : ∀ u, d.Overlooked u ext) (hline : line.dropWhile isBlank ≠ []) :
    ∃ short long, d.Lengthened ext short long
      ∧ short.1.flatMap Lexeme.text = line.dropWhile isBlank
      ∧ (d.scanLine s line).tokens = layout (line.takeWhile isBlank).length short.1
      ∧ (d.scanLine s line).stateAfter = short.2.settle.state
      ∧ (d.scanLine s (line ++ ext)).tokens = layout (line.takeWhile isBlank).length long.1
      ∧ (d.scanLine s (line ++ ext)).stateAfter = long.2.settle.state := by
  refine ⟨_, _, lengthened_scanRest h { state := s } (line.dropWhile isBlank),
    flatMap_text_scanRest d _ _, rfl, rfl, ?_, ?_⟩
  · show layout ((line ++ ext).takeWhile isBlank).length
      (d.scanRest _ ((line ++ ext).dropWhile isBlank)).1 = _
    rw [takeWhile_append_of_ne_nil hline, dropWhile_append_of_ne_nil hline]
  · show (d.scanRest _ ((line ++ ext).dropWhile isBlank)).2.settle.state = _
    rw [dropWhile_append_of_ne_nil hline]

end

/-- **Blanks at the end of a line change nothing**, whatever the line and whatever is open.
The line hands on the same state, and the blanks are a part of its last token or a plain
token of their own. -/
theorem trailing_blanks_inert (d : Dialect) (hd : d ∈ builtin) (s : ScanState)
    (line w : List Char) (hw : Blank w) :
    (d.scanLine s (line ++ w)).stateAfter = (d.scanLine s line).stateAfter
    ∧ BlanksBehind line w (d.scanLine s line).tokens (d.scanLine s (line ++ w)).tokens := by
  have htight := builtin_tight d hd
  by_cases hline : line.dropWhile isBlank = []
  · have hlonger : (line ++ w).dropWhile isBlank = [] := by
      rw [List.dropWhile_append_of_pos (List.dropWhile_eq_nil_iff.1 hline)]
      exact List.dropWhile_eq_nil_iff.2 hw
    obtain ⟨htokens, hstate⟩ := scanLine_of_blank d s hline
    obtain ⟨htokens', hstate'⟩ := scanLine_of_blank d s hlonger
    rw [htokens, hstate, htokens', hstate']
    exact ⟨rfl, .same⟩
  · obtain ⟨short, long, hlengthened, htext, htokens, hstate, htokens', hstate'⟩ :=
      lengthened_scanLine (s := s) (overlooked_of_blank htight hw) hline
    have hcolumn := length_indent_add line
    rw [← htext] at hcolumn
    rw [htokens, hstate, htokens', hstate']
    cases hlengthened with
    | behind ls c =>
      obtain ⟨hlexemes, hend⟩ := readAs_of_blank d c hw
      refine ⟨hend, ?_⟩
      rw [hlexemes, layout_append, hcolumn, spacing]
      split
      · simpa using BlanksBehind.same
      · simpa using BlanksBehind.own
    | blanks ls text c hfree =>
      rw [List.takeWhile_eq_self_iff.2 hw, List.dropWhile_eq_nil_iff.2 hw, scanRest_nil,
        ← extendLast_layout hcolumn w, ← List.length_append]
      exact ⟨rfl, .last⟩
    | toEnd ls kind text c =>
      rw [← extendLast_layout hcolumn w, ← List.length_append]
      exact ⟨rfl, .last⟩
    | closed ls hc hliteral hopen hclosed long =>
      exact absurd ((past?_append_blank (hliteral.solid htight) hw).trans hopen) hclosed

/-- Blanks of several kinds, a carriage return among them, behind a keyword that would go
on. -/
theorem trailing_blanks_inert_of_keyword :
    sequence ∈ builtin ∧ Blank [' ', '\t', '\r']
    ∧ (sequence.scanLine .initial ("note".toList ++ [' ', '\t', '\r'])).stateAfter
      = (sequence.scanLine .initial "note".toList).stateAfter
    ∧ BlanksBehind "note".toList [' ', '\t', '\r']
      (sequence.scanLine .initial "note".toList).tokens
      (sequence.scanLine .initial ("note".toList ++ [' ', '\t', '\r'])).tokens := by
  have hblank : Blank [' ', '\t', '\r'] := by decide
  exact ⟨List.mem_cons_self, hblank,
    trailing_blanks_inert sequence List.mem_cons_self .initial _ _ hblank⟩

/-! ## Comments -/

section

variable {c : List Char}

theorem StopsAtMarks.lineComment_eq_cons (hd : d.StopsAtMarks) :
    ∃ a more, a ∈ d.marks ∧ isBlank a = false ∧ d.lineComment = a :: more := by
  obtain ⟨a, hhead, ha⟩ := (Option.any_eq_true _ _).1 hd.startsMarked
  obtain ⟨more, hmore⟩ := List.head?_eq_some_iff.1 hhead
  rw [List.contains_iff_mem] at ha
  exact ⟨a, more, ha, hd.marks_unblank a ha, hmore⟩

/-- The space before a comment is all that is blank of it. -/
@[simp] theorem dropWhile_space_lineComment (hd : d.StopsAtMarks) (c : List Char) :
    (' ' :: (d.lineComment ++ c)).dropWhile isBlank = d.lineComment ++ c := by
  obtain ⟨a, more, -, ha, hline⟩ := hd.lineComment_eq_cons
  rw [hline, List.dropWhile_cons_of_pos rfl, List.cons_append,
    List.dropWhile_cons_of_neg (by rw [ha]; exact Bool.false_ne_true)]

@[simp] theorem standsAt_lineComment (hd : d.StopsAtMarks) (c : List Char) :
    standsAt d.lineComment (d.lineComment ++ c) = true := by
  obtain ⟨a, more, -, -, hline⟩ := hd.lineComment_eq_cons
  rw [standsAt, Bool.and_eq_true_iff]
  exact ⟨by rw [hline]; rfl, List.isPrefixOf_iff_prefix.2 (List.prefix_append _ _)⟩

/-- Comments behind a space are overlooked: no word of a keyword starts with a mark. -/
theorem overlooked_of_comment (hd : d.StopsAtMarks) (c u : List Char) :
    d.Overlooked u (' ' :: (d.lineComment ++ c)) := by
  obtain ⟨a, more, ha, hblank, hline⟩ := hd.lineComment_eq_cons
  have hgap : isGap a = false := hd.marks_unblank.gapless a ha
  refine overlooked_of_isTrivia hd.toTight (atGap_space _).atBlank ?_ (fun p hp w hw => ?_)
    (fun r hr hdelimited => absurd hdelimited (hd.bracketless r hr)) u
  · simp [isTrivia, hd]
  · have hdrop : (' ' :: (d.lineComment ++ c)).dropWhile isGap = a :: (more ++ c) := by
      rw [hline, List.dropWhile_cons_of_pos rfl, List.cons_append,
        List.dropWhile_cons_of_neg (by rw [hgap]; exact Bool.false_ne_true)]
    obtain ⟨b, w, rfl⟩ := List.exists_cons_of_ne_nil (hd.solid_of_mem_phrases hp hw).1
    rw [hdrop]
    refine eq_false_of_ne_true fun hpre => ?_
    obtain ⟨rfl, -⟩ := List.cons_prefix_cons.1 (List.isPrefixOf_iff_prefix.1 hpre)
    exact hd.phrases p hp _ hw b List.mem_cons_self ha

/-- No closer starts with a mark. -/
@[simp] theorem closer?_lineComment (hd : d.StopsAtMarks) (c : List Char) :
    d.closer? (d.lineComment ++ c) = none := by
  refine Option.eq_none_iff_forall_ne_some.2 fun closer hcloser => ?_
  obtain ⟨r, hr, heffect, -, hn, -⟩ := closer?_spec hcloser
  have hcloses : r.closedMode?.isSome = true := by
    rw [Rule.closedMode?_eq_some_iff.2 heffect]
    rfl
  obtain ⟨hspelled, hfree⟩ := hd.closers r hr hcloses
  have hmem := Pattern.squeeze_take_mem_spellings hspelled (Option.filter_eq_some_iff.1 hn).1
  obtain ⟨a, more, ha, hblank, hline⟩ := hd.lineComment_eq_cons
  obtain ⟨n, hlength⟩ := Nat.exists_eq_succ_of_ne_zero
    (Nat.ne_of_gt (Pattern.properLength?_bounds hn).1)
  have htake : a ∈ (d.lineComment ++ c).take closer.length := by
    rw [hlength, hline, List.cons_append, List.take_succ_cons]
    exact List.mem_cons_self
  exact hfree _ hmem a (mem_squeeze htake (hd.marks_unblank.gapless a ha)) ha

/-- **Where no literal is open a comment is one token**, and changes nothing. -/
theorem step_of_comment (hd : d.StopsAtMarks) (hmode : ¬ ctx.state.mode.IsLiteral)
    (c : List Char) :
    ∃ kind, d.step ctx (d.lineComment ++ c) = ⟨kind, (d.lineComment ++ c).length, ctx⟩ := by
  have hblank : (d.lineComment ++ c).head?.any isBlank = false := by
    obtain ⟨a, more, -, ha, hline⟩ := hd.lineComment_eq_cons
    rw [hline]
    exact ha
  have hfresh : d.freshStep ctx (d.lineComment ++ c)
      = ⟨.comment, (d.lineComment ++ c).length, ctx⟩ := by
    simp [freshStep, hd]
  have hbody : d.bodyStep ctx (d.lineComment ++ c)
      = ⟨.unstyled, (d.lineComment ++ c).length, ctx⟩ := by
    rw [bodyStep, closer?_lineComment hd, ite_self]
    rfl
  unfold step
  rw [hblank, if_neg Bool.false_ne_true]
  split
  · exact ⟨_, rfl⟩
  · split
    · next hm => exact absurd (Or.inl hm) hmode
    · next hm => exact absurd (Or.inr hm) hmode
    · split
      · exact ⟨_, hfresh⟩
      · exact ⟨_, hbody⟩
    · exact ⟨_, hfresh⟩

theorem endState_of_comment (hd : d.StopsAtMarks) (hmode : ¬ ctx.state.mode.IsLiteral)
    (c : List Char) : d.endState ctx (d.lineComment ++ c) = ctx.settle.state := by
  obtain ⟨kind, hstep⟩ := step_of_comment hd hmode c
  obtain ⟨a, more, -, -, hline⟩ := hd.lineComment_eq_cons
  exact endState_of_length (by rw [hline]; exact List.cons_ne_nil _ _) hstep

/-- So is one behind a space. -/
theorem endState_of_space_comment (hd : d.StopsAtMarks) (hmode : ¬ ctx.state.mode.IsLiteral)
    (c : List Char) : d.endState ctx (' ' :: (d.lineComment ++ c)) = ctx.settle.state := by
  cases hfree : ctx.freeText with
  | true => exact endState_of_freeText hfree _
  | false =>
    have hdrop := dropWhile_space_lineComment hd c
    rw [List.dropWhile_cons_of_pos rfl] at hdrop
    rw [endState_of_blank hfree rfl, hdrop, ← state_settle_inLine ctx]
    exact endState_of_comment hd
      (show ¬ ({ ctx with atStart := false } : Context).state.mode.IsLiteral from hmode) c

end

/-- **A line comment at the end of a line changes nothing**, in sequence, class and object
diagrams, whatever is open before the line, unless it is read as a part of a comment or a
string in which the line ends. The line hands on the same state, all tokens but the last
stay as they are, and the last stays or goes on. -/
theorem trailing_comment_inert (d : Dialect) (hd : d ∈ [sequence, classDiagram, object])
    (s : ScanState) (line c : List Char)
    (hend : ¬ (d.scanLine s line).stateAfter.mode.IsLiteral) :
    (d.scanLine s (line ++ ' ' :: (d.lineComment ++ c))).stateAfter
      = (d.scanLine s line).stateAfter
    ∧ GoesOn line.length (d.scanLine s line).tokens
      (d.scanLine s (line ++ ' ' :: (d.lineComment ++ c))).tokens := by
  have hmarks := stopsAtMarks d hd
  by_cases hline : line.dropWhile isBlank = []
  · obtain ⟨htokens, hstate⟩ := scanLine_of_blank d s hline
    rw [hstate] at hend
    rw [htokens, hstate]
    refine ⟨?_, line.length, _, Nat.le_refl _, rfl⟩
    show d.endState { state := s }
      ((line ++ ' ' :: (d.lineComment ++ c)).dropWhile isBlank) = s
    rw [List.dropWhile_append_of_pos (List.dropWhile_eq_nil_iff.1 hline),
      dropWhile_space_lineComment hmarks, endState_of_comment hmarks hend]
    rfl
  · obtain ⟨short, long, hlengthened, htext, htokens, hstate, htokens', hstate'⟩ :=
      lengthened_scanLine (s := s) (overlooked_of_comment hmarks c) hline
    have hcolumn := length_indent_add line
    rw [← htext] at hcolumn
    rw [hstate] at hend
    rw [htokens, hstate, htokens', hstate']
    have hmode : ¬ short.2.state.mode.IsLiteral := fun hm =>
      hend (by rwa [settle_of_isLiteral hm])
    cases hlengthened with
    | behind ls ctx =>
      exact ⟨endState_of_space_comment hmarks hmode c, goesOn_layout_append hcolumn _⟩
    | blanks ls text ctx hfree =>
      rw [dropWhile_space_lineComment hmarks]
      exact ⟨endState_of_comment hmarks hmode c, goesOn_layout_concat hcolumn _ _⟩
    | toEnd ls kind text ctx => exact ⟨rfl, goesOn_layout_concat hcolumn _ []⟩
    | closed ls hc => exact absurd hc hend

/-- A comment full of markers and keywords behind the header of a note inside a group. -/
theorem trailing_comment_inert_of_header :
    sequence ∈ [sequence, classDiagram, object]
    ∧ (sequence.scanLine ⟨[.group]⟩ "note over A".toList).stateAfter = ⟨[.note, .group]⟩
    ∧ (sequence.scanLine ⟨[.group]⟩
        ("note over A".toList ++ ' ' :: (sequence.lineComment ++ "end \" /' :".toList))).stateAfter
      = (sequence.scanLine ⟨[.group]⟩ "note over A".toList).stateAfter
    ∧ GoesOn "note over A".toList.length
      (sequence.scanLine ⟨[.group]⟩ "note over A".toList).tokens
      (sequence.scanLine ⟨[.group]⟩
        ("note over A".toList
          ++ ' ' :: (sequence.lineComment ++ "end \" /' :".toList))).tokens := by
  have hmem : sequence ∈ [sequence, classDiagram, object] := List.mem_cons_self
  have hstate : (sequence.scanLine ⟨[.group]⟩ "note over A".toList).stateAfter
      = ⟨[.note, .group]⟩ := by
    decide +kernel
  refine ⟨hmem, hstate, trailing_comment_inert sequence hmem _ _ _ ?_⟩
  rw [hstate]
  rintro (h | h) <;> cases h

end Dialect

end UmlMarkup
