import UmlMarkup.Dialect.Builtin
import UmlMarkup.Proofs.Pattern.Meaning
import UmlMarkup.Proofs.Scan.Nesting
import UmlMarkup.Proofs.Scan.Reading

/-!
# How far a color literal reaches

A color is read turn by turn, with a frame of its own on the stack that says whether to go
on. Each turn looks at the next character and, where that joins two colors of a gradient, at
the one behind it. This module says what comes of it without turns and frames. A color
literal is a `#` with letters and digits behind it, and any number of further colors, each
behind a separator and with a name of at least one letter or digit (`IsColorLiteral`). What
is read is the longest text of this form, and the frame is gone again
(`color_takes_longest_literal`).

Looking one character ahead is enough because such a text can be told from the front: a
character goes on with it exactly if it is a letter or a digit, or a separator with a letter
or a digit behind it (`colorBody_cons_iff`), and that is what a turn asks.
-/

namespace UmlMarkup

/-! ## Color literals -/

/-- **The further colors of a gradient**, each behind a separator. -/
inductive Gradient : List Char → Prop
  | nil : Gradient []
  | cons {c : Char} {name more : List Char} (hc : c ∈ ['/', '\\', '|', '-']) (hne : name ≠ [])
    (hname : ∀ a ∈ name, a.isAlphanum = true) (h : Gradient more) :
    Gradient (c :: (name ++ more))

/-- **What stands behind the `#`**: letters and digits, and further colors. -/
def ColorBody (text : List Char) : Prop :=
  ∃ name more, text = name ++ more ∧ (∀ a ∈ name, a.isAlphanum = true) ∧ Gradient more

/-- **A color literal**, such as `#red` or `#red/blue`. -/
def IsColorLiteral (text : List Char) : Prop := ∃ body, text = '#' :: body ∧ ColorBody body

theorem colorBody_nil : ColorBody [] := ⟨[], [], rfl, List.forall_mem_nil _, .nil⟩

theorem continuesColor_eq_true_iff {c : Char} {rest : List Char} :
    continuesColor c rest = true
      ↔ c.isAlphanum = true
        ∨ c ∈ ['/', '\\', '|', '-'] ∧ rest.head?.any Char.isAlphanum = true := by
  rw [continuesColor, Bool.or_eq_true, Bool.and_eq_true, List.contains_iff_mem]

/-- No separator is a letter or a digit. -/
theorem Gradient.any_head? {text : List Char} (h : Gradient text) :
    text.head?.any Char.isAlphanum = false := by
  cases h with
  | nil => rfl
  | cons hc hne hname h =>
    have hseparators : ['/', '\\', '|', '-'].all (fun c => !c.isAlphanum) = true := by decide
    exact Bool.eq_false_of_not_eq_true' (List.all_eq_true.1 hseparators _ hc)

/-- **A color is told from the front**, one character after the other. -/
theorem colorBody_cons_iff {c : Char} {text : List Char} :
    ColorBody (c :: text) ↔ continuesColor c text = true ∧ ColorBody text := by
  rw [continuesColor_eq_true_iff]
  constructor
  · rintro ⟨name, more, heq, hname, hmore⟩
    cases name with
    | nil =>
      obtain rfl : c :: text = more := heq
      cases hmore with
      | @cons _ name more hc hne hname hmore =>
        obtain ⟨a, name, rfl⟩ := List.exists_cons_of_ne_nil hne
        exact ⟨Or.inr ⟨hc, hname a List.mem_cons_self⟩, a :: name, more, rfl, hname, hmore⟩
    | cons a name =>
      obtain ⟨rfl, rfl⟩ := List.cons.inj heq
      obtain ⟨ha, hname⟩ := List.forall_mem_cons.1 hname
      exact ⟨Or.inl ha, name, more, rfl, hname, hmore⟩
  · rintro ⟨hc, name, more, rfl, hname, hmore⟩
    rcases hc with hc | ⟨hc, hnext⟩
    · exact ⟨c :: name, more, rfl, List.forall_mem_cons.2 ⟨hc, hname⟩, hmore⟩
    · -- behind a separator a name stands, not another separator
      have hne : name ≠ [] := by
        rintro rfl
        exact Bool.noConfusion (hmore.any_head?.symm.trans hnext)
      exact ⟨[], c :: (name ++ more), rfl, List.forall_mem_nil _, .cons hc hne hname hmore⟩

/-! ## What is read of a color -/

/-- What goes on with a color goes on with it if the line is longer. -/
theorem continuesColor_append {c : Char} {text : List Char} (h : continuesColor c text = true)
    (left : List Char) : continuesColor c (text ++ left) = true := by
  rw [continuesColor_eq_true_iff] at h ⊢
  refine h.imp_right fun ⟨hc, hnext⟩ => ⟨hc, ?_⟩
  cases text with
  | nil => cases hnext
  | cons a text => exact hnext

/-- What goes on with a color in front of all that is left goes on with it in front of its
longest body. -/
theorem continuesColor_of_longest {c : Char} {body left : List Char}
    (h : continuesColor c (body ++ left) = true)
    (hbody : Longest (fun u _ => ColorBody u) body left) : continuesColor c body = true := by
  rw [continuesColor_eq_true_iff] at h ⊢
  refine h.imp_right fun ⟨hc, hnext⟩ => ⟨hc, ?_⟩
  cases body with
  | cons a body => exact hnext
  | nil =>
    -- a letter or a digit that is left would have been read
    cases left with
    | nil => cases hnext
    | cons a left =>
      have ha : ColorBody [a] :=
        colorBody_cons_iff.2 ⟨continuesColor_eq_true_iff.2 (Or.inl hnext), colorBody_nil⟩
      exact absurd (hbody.longest [a] left rfl ha) (Nat.not_succ_le_zero 0)

/-- **A color is read to its end**, and no further. -/
theorem exists_readColor_enter {s : ScanState} (hs : s.mode ≠ .color) (text : List Char) :
    ∃ body left, text = body ++ left ∧ readColor (s.enter .color) text = (s, left)
      ∧ Longest (fun u _ => ColorBody u) body left := by
  induction text with
  | nil =>
    refine ⟨[], [], rfl, readColor_enter_nil hs, colorBody_nil, fun u v heq _ => ?_⟩
    rw [(List.append_eq_nil_iff.1 heq).1]
  | cons c text ih =>
    rw [readColor_enter_cons hs]
    by_cases hc : continuesColor c text = true
    · obtain ⟨body, left, rfl, hread, hbody⟩ := ih
      rw [if_pos hc]
      refine ⟨c :: body, left, rfl, hread,
        colorBody_cons_iff.2 ⟨continuesColor_of_longest hc hbody, hbody.candidate⟩, ?_⟩
      intro u v heq hu
      cases u with
      | nil => exact Nat.zero_le _
      | cons b u =>
        obtain ⟨rfl, htail⟩ := List.cons.inj heq
        exact Nat.succ_le_succ (hbody.longest u v htail (colorBody_cons_iff.1 hu).2)
    · rw [if_neg hc]
      refine ⟨[], c :: text, rfl, rfl, colorBody_nil, fun u v heq hu => ?_⟩
      cases u with
      | nil => exact Nat.le_refl 0
      | cons b u =>
        obtain ⟨rfl, rfl⟩ := List.cons.inj heq
        exact absurd (continuesColor_append (colorBody_cons_iff.1 hu).1 v) hc

/-- The `#` in front of the longest body makes the longest literal. -/
theorem longest_colorLiteral {body left : List Char}
    (h : Longest (fun u _ => ColorBody u) body left) :
    Longest (fun u _ => IsColorLiteral u) ('#' :: body) left := by
  refine ⟨⟨body, rfl, h.candidate⟩, ?_⟩
  rintro _ v heq ⟨u, rfl, hu⟩
  exact Nat.succ_le_succ (h.longest u v (List.cons.inj heq).2 hu)

/-- What is innermost is open. -/
theorem ScanState.mem_stack_of_mode {s : ScanState} (h : s.mode ≠ .normal) : s.mode ∈ s.stack := by
  obtain ⟨stack⟩ := s
  cases stack with
  | nil => exact absurd rfl h
  | cons m below => exact List.mem_cons_self

namespace Dialect

/-- Where the rule of colors matches, a `#` stands. -/
theorem exists_cons_of_color {rest : List Char} {n : Nat}
    (h : Pattern.color.properLength? rest = some n) : ∃ text, rest = '#' :: text := by
  have hmatch : Pattern.colorLength? rest = some n := (Option.filter_eq_some_iff.1 h).1
  obtain ⟨m, left, rfl, -, rfl, -⟩ := Pattern.measures_color.exists_append hmatch
  exact ⟨left, rfl⟩

/-- The token of a color is the `#` and what is read behind it. -/
theorem length_ruleStep_of_color {ctx : Context} {r : Rule} (hcolor : r.pattern = .color)
    (hextent : r.extent = .exact) {body left : List Char} {s : ScanState}
    (hread : readColor (ctx.state.enter .color) (body ++ left) = (s, left)) (n : Nat) :
    (ruleStep ctx ('#' :: (body ++ left)) r n).length = ('#' :: body).length := by
  simp only [ruleStep, readMatch, if_pos hcolor, hextent, reach, List.drop_one, List.tail_cons,
    hread, List.length_cons, List.length_append]
  omega

/-- **A color literal takes its longest text and leaves the stack alone.** Whatever the dialect
and wherever in a line a rule of colors applies that reaches no further than its match: the
token is the longest color literal that stands there, and the rule finds the stack as it was
before the token, so that nothing but its own effect is left of it. Where the scan takes the
step of that rule, this is the token it reads. -/
theorem color_takes_longest_literal {d : Dialect} {ctx : Context} {rest : List Char} {r : Rule}
    {n : Nat} (hr : d.rule? ctx rest = some (r, n)) (hcolor : r.pattern = .color)
    (hextent : r.extent = .exact) (hstack : Mode.color ∉ ctx.state.stack) :
    ∃ token left, rest = token ++ left
      ∧ Longest (fun u _ => IsColorLiteral u) token left
      ∧ (ruleStep ctx rest r n).length = token.length
      ∧ (readMatch ctx rest r n).1 = ctx.state
      ∧ (ruleStep ctx rest r n).next.state = (match r.effect with
        | .enter m => ctx.state.enter m
        | _ => ctx.state)
      ∧ (d.step ctx rest = ruleStep ctx rest r n →
        d.lexemeAt ctx rest = ⟨r.kind, token⟩ ∧ d.restAfter ctx rest = left) := by
  have hmode : ctx.state.mode ≠ .color := fun hm =>
    hstack (hm ▸ ScanState.mem_stack_of_mode (hm ▸ Mode.noConfusion))
  obtain ⟨-, hmatch, -⟩ := rule?_spec hr
  rw [hcolor] at hmatch
  obtain ⟨text, rfl⟩ := exists_cons_of_color hmatch
  obtain ⟨body, left, rfl, hread, hbody⟩ := exists_readColor_enter hmode text
  have hlength := length_ruleStep_of_color hcolor hextent hread n
  refine ⟨'#' :: body, left, rfl, longest_colorLiteral hbody, hlength, state_readMatch hmode r n,
    ?_, fun hstep => ?_⟩
  · simp only [ruleStep, state_readMatch hmode]
    cases r.effect <;> rfl
  · rw [lexemeAt, restAfter, hstep, hlength, ← List.cons_append, List.take_left, List.drop_left]
    exact ⟨rfl, rfl⟩

/-- In a box, a gradient of two colors with separators behind it that join nothing. -/
theorem color_takes_longest_literal_of_gradient :
    sequence.rule? { state := ⟨[.box]⟩, atStart := false } "#Red/8F-|x".toList = some (colors, 1)
    ∧ colors.pattern = .color ∧ colors.extent = .exact ∧ Mode.color ∉ [Mode.box]
    ∧ ∃ token left, "#Red/8F-|x".toList = token ++ left
      ∧ Longest (fun u _ => IsColorLiteral u) token left
      ∧ token.length = 7
      ∧ sequence.lexemeAt { state := ⟨[.box]⟩, atStart := false } "#Red/8F-|x".toList
        = ⟨.atom, token⟩ := by
  have hr : sequence.rule? { state := ⟨[.box]⟩, atStart := false } "#Red/8F-|x".toList
      = some (colors, 1) := by decide +kernel
  have hstack : Mode.color ∉ [Mode.box] := by decide
  obtain ⟨token, left, heq, hlongest, hlength, -, -, hlexeme⟩ :=
    color_takes_longest_literal hr rfl rfl hstack
  have hseven : token.length = 7 := hlength.symm.trans (by decide +kernel)
  exact ⟨hr, rfl, rfl, hstack, token, left, heq, hlongest, hseven,
    (hlexeme (by decide +kernel)).1⟩

end Dialect

end UmlMarkup
