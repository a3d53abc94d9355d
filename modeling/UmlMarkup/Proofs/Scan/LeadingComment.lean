import UmlMarkup.Proofs.Scan.Delimiters

/-!
# What a comment leaves as it was

A block comment that ends on its line opens and closes nothing, so what comes behind it
is read in the state before it. It is a token all the same, and behind a token the line no
longer starts. That matters to one kind of rule, the keyword that opens a construct: such
a keyword is one only as the first token of its line.

So a comment before a line hands on the state that the line hands on by itself, unless
the line starts with a construct keyword (`leading_comment_inert`). Behind the comment the
keyword opens nothing.
-/

namespace UmlMarkup

/-! ## Behind the first token -/

/-- The context of the same position, were it behind the first token of its line. -/
def Context.inside (c : Context) : Context := { c with atStart := false }

/-- The same step, were it taken behind the first token of its line. -/
def Step.inside (s : Step) : Step := { s with next := s.next.inside }

@[simp] theorem Context.settle_inside (c : Context) : c.inside.settle = c.settle.inside := by
  have hheader : c.inside.header = c.header := rfl
  unfold settle
  rw [hheader]
  split <;> rfl

namespace Dialect

/-- Whether a keyword that opens a construct stands at the start of the text, with a
separator behind it. -/
def startsConstruct (d : Dialect) (text : List Char) : Bool :=
  d.rules.any fun r => r.isConstructKeyword
    && (r.pattern.properLength? text).any fun n => separates (text.drop n)

variable {d : Dialect} {ctx : Context} {rest : List Char}

@[simp] theorem unclosedStep_inside (ctx : Context) (rest : List Char) (m : Mode) (kind : Kind) :
    unclosedStep ctx.inside rest m kind = (unclosedStep ctx rest m kind).inside := by
  rw [unclosedStep, Context.settle_inside]
  rfl

@[simp] theorem commentStep_inside (d : Dialect) (ctx : Context) (rest : List Char) :
    d.commentStep ctx.inside rest = (d.commentStep ctx rest).inside := by
  unfold commentStep
  split
  · rfl
  · exact unclosedStep_inside ctx rest _ _

@[simp] theorem stringStep_inside (d : Dialect) (ctx : Context) (rest : List Char) :
    d.stringStep ctx.inside rest = (d.stringStep ctx rest).inside := by
  unfold stringStep
  split
  · rfl
  · exact unclosedStep_inside ctx rest _ _

@[simp] theorem closerStep_inside (ctx : Context) (c : Closer) :
    closerStep ctx.inside c = (closerStep ctx c).inside := by
  have hstate : ctx.inside.state = ctx.state := rfl
  unfold closerStep
  rw [hstate]
  split <;> rfl

@[simp] theorem ruleStep_inside (ctx : Context) (rest : List Char) (r : Rule) (n : Nat) :
    ruleStep ctx.inside rest r n = (ruleStep ctx rest r n).inside := by
  have hread : readMatch ctx.inside rest r n = readMatch ctx rest r n := rfl
  unfold ruleStep
  rw [hread]
  cases r.effect <;> rfl

/-- **Of the rules only the construct keywords ask whether a token stands before them.** -/
@[simp] theorem rule?_inside (h : d.startsConstruct rest = false) (ctx : Context) :
    d.rule? ctx.inside rest = d.rule? ctx rest := by
  rw [rule?, rule?, ← List.head?_filterMap, ← List.head?_filterMap]
  refine congrArg List.head? (List.filterMap_congr fun r hr => ?_)
  have hkeyword := List.any_eq_false.1 h r hr
  unfold applied?
  cases hn : r.pattern.properLength? rest with
  | none => rfl
  | some n =>
    rw [hn, Option.any_some, Bool.and_eq_true, not_and, Bool.not_eq_true] at hkeyword
    have hadmits : admits ctx.inside r (rest.drop n) = admits ctx r (rest.drop n) := by
      unfold admits
      cases hr : r.isConstructKeyword with
      | false => rfl
      | true => rw [hkeyword hr, Bool.and_false, Bool.and_false]; rfl
    rw [Option.bind_some, Option.bind_some, hadmits]

/-- Where no construct keyword stands, a step behind a token is the step at the start of a
line. -/
@[simp] theorem freshStep_inside (h : d.startsConstruct rest = false) (ctx : Context) :
    d.freshStep ctx.inside rest = (d.freshStep ctx rest).inside := by
  have hheader : ctx.inside.inHeader = ctx.inHeader := rfl
  unfold freshStep
  rw [hheader, rule?_inside h]
  split
  · rfl
  · split
    · exact d.commentStep_inside ctx rest
    · split
      · exact d.stringStep_inside ctx rest
      · split
        · rfl
        · split
          · exact closerStep_inside ctx _
          · split
            · exact ruleStep_inside ctx rest _ _
            · rfl

/-- Where boxes and groups alone are open and no construct keyword stands, a line goes on
behind its first token as it would have begun. -/
@[simp] theorem endState_inside (hs : Nest ctx.state.stack) (hfree : ctx.freeText = false)
    (hflush : rest.head?.any isBlank = false) (h : d.startsConstruct rest = false) :
    d.endState ctx.inside rest = d.endState ctx rest := by
  by_cases hne : rest = []
  · rw [hne, endState_nil, endState_nil, Context.settle_inside]
    rfl
  · have hs' : Nest ctx.inside.state.stack := hs
    have hstep : d.step ctx.inside rest = (d.step ctx rest).inside := by
      rw [step_of_nest hs' hfree hflush, step_of_nest hs hfree hflush, freshStep_inside h]
    rw [endState_of_ne_nil hne, endState_of_ne_nil hne, contextAfter, contextAfter, restAfter,
      restAfter, hstep]
    rfl

/-! ## Comments -/

/-- Where an opening marker stands, a comment is read. -/
theorem freshStep_of_blockOpen (hd : d.MarksLiterals) (h : d.blockOpen <+: rest) (ctx : Context) :
    d.freshStep ctx rest = d.commentStep ctx rest := by
  have hne : d.blockOpen ≠ [] := fun he => hd.apart.2 (he ▸ List.nil_prefix)
  have hline : standsAt d.lineComment rest = false := by
    refine eq_false_of_ne_true fun hline => ?_
    rcases List.prefix_or_prefix_of_prefix (prefix_of_standsAt hline) h with hpre | hpre
    · exact hd.apart.1 hpre
    · exact hd.apart.2 hpre
  rw [freshStep, hline, if_neg Bool.false_ne_true, if_pos (standsAt_of_begins hne h)]

/-- A comment that ends on its line is one token. -/
theorem freshStep_of_closed (hd : d.MarksLiterals) {c : List Char}
    (hc : Closed d.blockOpen d.blockClose c) (ctx : Context) (rest : List Char) :
    d.freshStep ctx (c ++ rest) = ⟨.comment, c.length, ctx⟩ := by
  obtain ⟨n, hpast, hlength⟩ := hc.exists_past? hd.blockClose rest
  obtain ⟨inner, rfl, -⟩ := hc
  rw [freshStep_of_blockOpen hd (List.append_assoc .. ▸ List.prefix_append _ _), commentStep,
    hpast, hlength]

/-- A comment that stays open is all that is left of its line. -/
theorem freshStep_of_staysOpen (hd : d.MarksLiterals) {text : List Char}
    (htext : StaysOpen d.blockOpen d.blockClose text) (ctx : Context) :
    d.freshStep ctx text = unclosedStep ctx text .blockComment .comment := by
  obtain ⟨inner, rfl, hnot⟩ := htext
  rw [freshStep_of_blockOpen hd (List.prefix_append _ _), commentStep, List.drop_left,
    (past?_eq_none_iff hd.blockClose).2 hnot]

theorem builtin_flush_markers :
    ∀ d ∈ builtin, Flush d.lineComment ∧ Flush d.blockOpen := by decide +kernel

theorem flush_of_closed (hd : d ∈ builtin) {c : List Char}
    (hc : Closed d.blockOpen d.blockClose c) : Flush c := by
  obtain ⟨inner, rfl, -⟩ := hc
  exact (builtin_flush_markers d hd).2.append inner

/-- **A comment leaves everything as it was**, but that a token has been read. -/
theorem endState_closedComment (hd : d ∈ builtin) (hs : Nest ctx.state.stack)
    (hfree : ctx.freeText = false) {c : List Char} (hc : Closed d.blockOpen d.blockClose c)
    (rest : List Char) : d.endState ctx (c ++ rest) = d.endState ctx.inside rest :=
  endState_of_nest hs hfree (flush_of_closed hd hc)
    (freshStep_of_closed (builtin_marksLiterals d hd) hc ctx rest)

/-- A text without the closing marker is a comment between the two markers. -/
theorem closed_comment (hd : d ∈ builtin) {c : List Char} (hc : ¬ d.blockClose <:+: c) :
    Closed d.blockOpen d.blockClose (d.blockOpen ++ (c ++ d.blockClose)) := by
  have hclose := builtin_selfApart d hd
  have hpast := past?_append_marker hclose hc []
  rw [List.append_nil] at hpast
  exact ⟨c ++ d.blockClose, rfl, (past?_eq_length_iff hclose.ne_nil).1 hpast⟩

/-- **A leading comment is inert, but for construct keywords.** Where boxes and groups alone
are open, what stands behind a block comment is read as the rest of a line whose first
token left everything as it was. Unless it starts with a construct keyword, behind its
indentation, the state after the line is the one that it would leave by itself. -/
theorem leading_comment_inert {d : Dialect} (hd : d ∈ builtin) {s : ScanState}
    (hs : Nest s.stack) {c : List Char} (hc : ¬ d.blockClose <:+: c) (r : List Char) :
    (d.scanLine s (d.blockOpen ++ (c ++ (d.blockClose ++ ' ' :: r)))).stateAfter
        = d.endState (inLine s) r
    ∧ (d.startsConstruct (r.dropWhile isBlank) = false →
        (d.scanLine s (d.blockOpen ++ (c ++ (d.blockClose ++ ' ' :: r)))).stateAfter
          = (d.scanLine s r).stateAfter) := by
  have hcomment := closed_comment hd hc
  have hbehind : (d.scanLine s (d.blockOpen ++ (c ++ (d.blockClose ++ ' ' :: r)))).stateAfter
      = d.endState (inLine s) (r.dropWhile isBlank) := by
    have hline : d.blockOpen ++ (c ++ (d.blockClose ++ ' ' :: r))
        = (d.blockOpen ++ (c ++ d.blockClose)) ++ ' ' :: r := by
      simp only [List.append_assoc]
    have hflush : Flush ((d.blockOpen ++ (c ++ d.blockClose)) ++ ' ' :: r) :=
      ((builtin_flush_markers d hd).2.append _).append _
    calc (d.scanLine s (d.blockOpen ++ (c ++ (d.blockClose ++ ' ' :: r)))).stateAfter
      _ = d.endState { state := s } ((d.blockOpen ++ (c ++ d.blockClose)) ++ ' ' :: r) := by
        rw [hline]
        exact d.stateAfter_of_flush s hflush
      _ = d.endState (inLine s) (' ' :: r) :=
        endState_closedComment hd hs rfl hcomment _
      _ = d.endState (inLine s) (r.dropWhile isBlank) :=
        endState_of_blank rfl rfl r
  refine ⟨hbehind.trans (endState_dropWhile rfl rfl r), fun hstart => hbehind.trans ?_⟩
  have hs' : Nest ({ state := s } : Context).state.stack := hs
  exact endState_inside hs' rfl (any_head?_dropWhile r) hstart

/-- A group is closed behind a comment. -/
theorem leading_comment_inert_of_end :
    sequence ∈ builtin ∧ Nest [.group] ∧ ¬ sequence.blockClose <:+: " box ".toList
    ∧ sequence.startsConstruct ("  end".toList.dropWhile isBlank) = false
    ∧ (sequence.scanLine ⟨[.group]⟩ "/' box '/   end".toList).stateAfter = ⟨[]⟩ := by
  have hmem : sequence ∈ builtin := List.mem_cons_self
  have hnest : Nest [.group] := nest_nil.cons (Or.inr rfl)
  have hc : ¬ sequence.blockClose <:+: " box ".toList := by decide +kernel
  have hstart : sequence.startsConstruct ("  end".toList.dropWhile isBlank) = false := by
    decide +kernel
  have h := (leading_comment_inert (s := ⟨[.group]⟩) hmem hnest hc "  end".toList).2 hstart
  have hend : (sequence.scanLine ⟨[.group]⟩ "  end".toList).stateAfter = ⟨[]⟩ := by
    decide +kernel
  exact ⟨hmem, hnest, hc, hstart, h.trans hend⟩

/-- A group that a line would open is not opened behind a comment. -/
theorem not_every_leading_comment_inert :
    ¬ ∀ d ∈ builtin, ∀ s : ScanState, Nest s.stack → ∀ c, ¬ d.blockClose <:+: c → ∀ r,
      (d.scanLine s (d.blockOpen ++ (c ++ (d.blockClose ++ ' ' :: r)))).stateAfter
        = (d.scanLine s r).stateAfter := fun h =>
  absurd (h sequence List.mem_cons_self .initial nest_nil " x ".toList (by decide +kernel)
    "alt y".toList) (by decide +kernel)

end Dialect

end UmlMarkup
