import Mathlib.Data.List.Forall2
import UmlMarkup.Dialect.Builtin
import UmlMarkup.Proofs.Scan.Threading
import UmlMarkup.Proofs.Scan.Words

/-!
# What the order of a table means

The rules of a dialect stand in a list, and at every position of a line the list is asked
three questions, each with its own way to choose among several answers. Of the closing rules
that match the longest match counts, and the first of them where two are as long. Of the
other rules the first that is admitted counts. And a word breaks at any glyph, whichever rule
lists it.

So there are two orders that mean something, that of the closing rules among themselves and
that of the other rules among themselves. How the two kinds are shuffled means nothing,
because the first question passes over the rules of the one kind, the second over those of
the other, and the third does not ask for an order. Nor does it mean anything in which order
a pattern lists its alternatives, or how often, because the longest one wins. A table may be
`Rearranged` in all these ways, and every line is read as before (`rearrangement_inert`).
-/

namespace UmlMarkup

/-! ## Rearranged tables -/

/-- **A pattern that lists its alternatives in another way**: in another order, or some of
them more than once. -/
inductive Pattern.Rearranged : Pattern → Pattern → Prop
  | refl (p : Pattern) : Rearranged p p
  | keywords {ps qs : List Phrase} (h : ps ⊆ qs) (h' : qs ⊆ ps) :
    Rearranged (keywords ps) (keywords qs)
  | glyphs {gs hs : List (List Char)} (h : gs ⊆ hs) (h' : hs ⊆ gs) :
    Rearranged (glyphs gs) (glyphs hs)

/-- **A rule with its pattern rearranged**, and the same in all else. -/
inductive Rule.Rearranged (r : Rule) : Rule → Prop
  | mk {p : Pattern} (h : r.pattern.Rearranged p) : Rearranged r { r with pattern := p }

/-- Whether the rule closes a construct. -/
def Rule.isCloser (r : Rule) : Bool := r.closedMode?.isSome

/-- **A table rearranged where its order means nothing.** The closing rules are the same in
the same order, and so are the other rules, but for the way in which patterns list their
alternatives. Where the closing rules stand among the others is free. -/
structure Rearranged (rules rules' : List Rule) : Prop where
  closers : List.Forall₂ Rule.Rearranged (rules.filter Rule.isCloser)
    (rules'.filter Rule.isCloser)
  others : List.Forall₂ Rule.Rearranged (rules.filter fun r => !r.isCloser)
    (rules'.filter fun r => !r.isCloser)

/-! ## Patterns -/

namespace Pattern

/-- **The longest alternative** is a matter of which alternatives there are. -/
theorem longest?_of_subset {α : Type} {length? : α → Option Nat} {as bs : List α}
    (h : as ⊆ bs) (h' : bs ⊆ as) : longest? length? bs = longest? length? as := by
  have hmem : ∀ n, n ∈ bs.filterMap length? ↔ n ∈ as.filterMap length? := fun n =>
    ⟨fun hn => List.filterMap_subset length? h' hn, fun hn => List.filterMap_subset length? h hn⟩
  refine Option.ext fun n => ?_
  rw [longest?, longest?, List.max?_eq_some_iff, List.max?_eq_some_iff, hmem]
  exact and_congr_right fun _ => forall_congr' fun m => by rw [hmem]

variable {p q : Pattern} (h : p.Rearranged q) (rest : List Char)

include h

theorem Rearranged.matchLength? : q.matchLength? rest = p.matchLength? rest := by
  cases h with
  | refl p => rfl
  | keywords h h' => exact longest?_of_subset h h'
  | glyphs h h' => exact longest?_of_subset h h'

theorem Rearranged.properLength? : q.properLength? rest = p.properLength? rest := by
  rw [Pattern.properLength?, h.matchLength?, Pattern.properLength?]

theorem Rearranged.breaksWord : q.breaksWord rest = p.breaksWord rest := by
  cases h with
  | refl p => rfl
  | keywords h h' => rfl
  | glyphs h h' =>
    refine Bool.eq_iff_iff.2 ?_
    rw [Pattern.breaksWord, Pattern.breaksWord, List.any_eq_true, List.any_eq_true]
    exact ⟨fun ⟨g, hg, hbreaks⟩ => ⟨g, h' hg, hbreaks⟩, fun ⟨g, hg, hbreaks⟩ => ⟨g, h hg, hbreaks⟩⟩

omit rest in
theorem Rearranged.eq_color_iff : q = color ↔ p = color := by
  cases h with
  | refl p => rfl
  | keywords h h' => exact iff_of_false Pattern.noConfusion Pattern.noConfusion
  | glyphs h h' => exact iff_of_false Pattern.noConfusion Pattern.noConfusion

end Pattern

/-! ## Rules -/

/-- The step of a rule, if the rule applies. -/
def Dialect.stepOf? (ctx : Context) (rest : List Char) (r : Rule) : Option Step :=
  (Dialect.applied? ctx rest r).map fun found => Dialect.ruleStep ctx rest found.1 found.2

namespace Rule.Rearranged

open Dialect

variable {r s : Rule} (h : r.Rearranged s)

include h

theorem isConstructKeyword : s.isConstructKeyword = r.isConstructKeyword := by
  obtain ⟨pattern, kind, extent, effect, freeText, standalone⟩ := r
  cases h with
  | mk h => cases h <;> cases effect <;> rfl

theorem admits (ctx : Context) (tail : List Char) :
    Dialect.admits ctx s tail = Dialect.admits ctx r tail := by
  rw [Dialect.admits, h.isConstructKeyword]
  cases h with
  | mk h => rfl

theorem closerOf? (d : Dialect) (rest : List Char) : d.closerOf? rest s = d.closerOf? rest r := by
  cases h with
  | mk h =>
    rw [Dialect.closerOf?, h.properLength?]
    rfl

theorem ruleStep (ctx : Context) (rest : List Char) (n : Nat) :
    Dialect.ruleStep ctx rest s n = Dialect.ruleStep ctx rest r n := by
  cases h with
  | mk h => simp only [Dialect.ruleStep, readMatch, h.eq_color_iff]

theorem stepOf? (ctx : Context) (rest : List Char) :
    Dialect.stepOf? ctx rest s = Dialect.stepOf? ctx rest r := by
  have hproper : s.pattern.properLength? rest = r.pattern.properLength? rest := by
    cases h with
    | mk h => exact h.properLength? rest
  rw [Dialect.stepOf?, applied?, Dialect.stepOf?, applied?, hproper, Option.map_bind,
    Option.map_bind]
  congr 1
  funext n
  simp only [Function.comp_apply, h.admits]
  split
  · exact congrArg some (h.ruleStep ctx rest n)
  · rfl

end Rule.Rearranged

/-! ## What a table answers -/

/-- A question that a list answers from one part of it may be put to that part alone. -/
theorem filterMap_filter_of_none {α β : Type} {p : α → Bool} {f : α → Option β}
    (h : ∀ a, p a = false → f a = none) (as : List α) :
    (as.filter p).filterMap f = as.filterMap f := by
  rw [List.filterMap_filter]
  refine List.filterMap_congr fun a _ => ?_
  cases hp : p a with
  | false => exact (h a hp).symm
  | true => rfl

/-- A question of which it does not matter where in a list the answer stands may be put to
both parts of it. -/
theorem any_filter_or {α : Type} (p f : α → Bool) (as : List α) :
    ((as.filter p).any f || (as.filter fun a => !p a).any f) = as.any f := by
  refine Bool.eq_iff_iff.2 ?_
  simp only [Bool.or_eq_true, List.any_eq_true, List.mem_filter, Bool.not_eq_true']
  constructor
  · rintro (⟨a, ⟨ha, -⟩, hf⟩ | ⟨a, ⟨ha, -⟩, hf⟩) <;> exact ⟨a, ha, hf⟩
  · rintro ⟨a, ha, hf⟩
    cases hp : p a with
    | true => exact Or.inl ⟨a, ⟨ha, hp⟩, hf⟩
    | false => exact Or.inr ⟨a, ⟨ha, hp⟩, hf⟩

section

variable {α : Type} {rules rules' : List Rule}

/-- Rules that correspond are mapped to the same if a rule rearranged is. -/
theorem map_of_forall₂ {f : Rule → α} (hf : ∀ {r s : Rule}, r.Rearranged s → f s = f r)
    (h : List.Forall₂ Rule.Rearranged rules rules') : rules'.map f = rules.map f := by
  induction h with
  | nil => rfl
  | cons hrs _ ih => rw [List.map_cons, List.map_cons, hf hrs, ih]

theorem filterMap_of_forall₂ {f : Rule → Option α}
    (hf : ∀ {r s : Rule}, r.Rearranged s → f s = f r)
    (h : List.Forall₂ Rule.Rearranged rules rules') : rules'.filterMap f = rules.filterMap f := by
  have hmap := congrArg (List.filterMap id) (map_of_forall₂ hf h)
  rwa [List.filterMap_map, List.filterMap_map, Function.id_comp] at hmap

theorem any_of_forall₂ {f : Rule → Bool} (hf : ∀ {r s : Rule}, r.Rearranged s → f s = f r)
    (h : List.Forall₂ Rule.Rearranged rules rules') : rules'.any f = rules.any f := by
  have hmap := congrArg (List.any · id) (map_of_forall₂ hf h)
  rwa [List.any_map, List.any_map, Function.id_comp] at hmap

end

namespace Dialect

/-- The dialect with another table. -/
def withRules (d : Dialect) (rules : List Rule) : Dialect := { d with rules := rules }

section

variable (d : Dialect) {rules : List Rule} (h : Rearranged d.rules rules)

include h

/-- **The closing rule that applies** is found among the closing rules. -/
@[simp] theorem closer?_withRules (rest : List Char) :
    (d.withRules rules).closer? rest = d.closer? rest := by
  have hnone : ∀ r : Rule, r.isCloser = false → d.closerOf? rest r = none := fun r hr => by
    rw [closerOf?, Option.not_isSome_iff_eq_none.1 (ne_true_of_eq_false hr)]
  refine congrArg Closer.longest? ?_
  show rules.filterMap (d.closerOf? rest) = d.rules.filterMap (d.closerOf? rest)
  rw [← filterMap_filter_of_none hnone rules, ← filterMap_filter_of_none hnone d.rules]
  exact filterMap_of_forall₂ (fun hrs => hrs.closerOf? d rest) h.closers

omit h in
/-- A closing rule takes no step among the other rules. -/
theorem stepOf?_of_isCloser {r : Rule} (hr : r.isCloser = true) (ctx : Context)
    (rest : List Char) : stepOf? ctx rest r = none := by
  have hnone : r.closedMode?.isNone = false := by
    rw [← Option.not_isSome, show r.closedMode?.isSome = true from hr]
    rfl
  rw [stepOf?, applied?]
  cases r.pattern.properLength? rest with
  | none => rfl
  | some n => rw [Option.bind_some, admits, hnone, Bool.false_and, Bool.false_and,
      if_neg Bool.false_ne_true, Option.map_none]

omit h in
/-- What the first of the rules that apply makes of a position. -/
theorem map_rule? (ctx : Context) (rest : List Char) :
    (d.rule? ctx rest).map (fun found => ruleStep ctx rest found.1 found.2)
      = (d.rules.filterMap (stepOf? ctx rest)).head? := by
  rw [List.head?_filterMap, rule?, List.map_findSome?]
  rfl

/-- **The other rule that applies** is found among the other rules. -/
@[simp] theorem map_rule?_withRules (ctx : Context) (rest : List Char) :
    ((d.withRules rules).rule? ctx rest).map (fun found => ruleStep ctx rest found.1 found.2)
      = (d.rule? ctx rest).map fun found => ruleStep ctx rest found.1 found.2 := by
  have hnone : ∀ r : Rule, (!r.isCloser) = false → stepOf? ctx rest r = none := fun r hr =>
    stepOf?_of_isCloser (by simpa using hr) ctx rest
  rw [map_rule?, map_rule?, ← filterMap_filter_of_none hnone d.rules]
  show (rules.filterMap (stepOf? ctx rest)).head? = _
  rw [← filterMap_filter_of_none hnone rules]
  exact congrArg List.head? (filterMap_of_forall₂ (fun hrs => hrs.stepOf? ctx rest) h.others)

/-- **A word breaks** at the same glyphs. -/
@[simp] theorem breaksWord_withRules (rest : List Char) :
    (d.withRules rules).breaksWord rest = d.breaksWord rest := by
  show rules.any (fun r => r.pattern.breaksWord rest)
    = d.rules.any fun r => r.pattern.breaksWord rest
  have hsame : ∀ {r s : Rule}, r.Rearranged s →
      s.pattern.breaksWord rest = r.pattern.breaksWord rest := by
    rintro r _ ⟨hp⟩
    exact hp.breaksWord rest
  rw [← any_filter_or Rule.isCloser _ rules, ← any_filter_or Rule.isCloser _ d.rules,
    any_of_forall₂ hsame h.closers, any_of_forall₂ hsame h.others]

@[simp] theorem wordTail_withRules (inHeader : Bool) (rest : List Char) :
    (d.withRules rules).wordTail inHeader rest = d.wordTail inHeader rest := by
  induction rest with
  | nil => rfl
  | cons c rest ih => rw [wordTail, breaksWord_withRules d h, ih, wordTail]

/-! ## What is read with it -/

@[simp] theorem tableStep_withRules (ctx : Context) (rest : List Char) :
    (d.withRules rules).tableStep ctx rest = d.tableStep ctx rest := by
  have hword : (d.withRules rules).wordStep ctx rest = d.wordStep ctx rest := by
    simp [wordStep, h]
  have hrule := map_rule?_withRules d h ctx rest
  rw [tableStep, closer?_withRules d h, tableStep]
  cases d.closer? rest with
  | some c => rfl
  | none =>
    dsimp only
    -- the rules that are found need not be the same, but their steps are
    cases hr : d.rule? ctx rest with
    | none =>
      rw [hr, Option.map_none, Option.map_eq_none_iff] at hrule
      rw [hrule]
      exact hword
    | some found =>
      rw [hr, Option.map_some, Option.map_eq_some_iff] at hrule
      obtain ⟨found', hr', hstep⟩ := hrule
      rw [hr']
      exact hstep

@[simp] theorem freshStep_withRules (ctx : Context) (rest : List Char) :
    (d.withRules rules).freshStep ctx rest = d.freshStep ctx rest := by
  -- comments, strings and the colon of a header are no matter of the table
  show (if standsAt d.lineComment rest then _ else if standsAt d.blockOpen rest then _
    else if rest.head? = some d.quote then _
    else if ctx.inHeader && rest.head? == some ':' then _
    else (d.withRules rules).tableStep ctx rest) = _
  rw [tableStep_withRules d h]
  rfl

/-- **Every step is the same.** -/
@[simp] theorem step_withRules (ctx : Context) (rest : List Char) :
    (d.withRules rules).step ctx rest = d.step ctx rest := by
  have hfresh := freshStep_withRules d h ctx rest
  have hbody : (d.withRules rules).bodyStep ctx rest = d.bodyStep ctx rest := by
    simp [bodyStep, h]
  rw [step, hfresh, hbody]
  rfl

theorem scanLine_withRules (s : ScanState) (line : List Char) :
    (d.withRules rules).scanLine s line = d.scanLine s line := by
  rw [scanLine, scanRest_congr (step_withRules d h), scanLine]

theorem entriesFrom_withRules (s : ScanState) (lines : List (List Char)) :
    (d.withRules rules).entriesFrom s lines = d.entriesFrom s lines := by
  induction lines generalizing s with
  | nil => rfl
  | cons line lines ih => rw [entriesFrom_cons, entriesFrom_cons, scanLine_withRules d h, ih]

end

/-- **Only the meaningful part of the order of a table matters**, whatever the dialect, whatever
is open and whatever the line is. With the alternatives of its patterns reordered or repeated,
and with its closing rules moved among the others, a table gives the same tokens and hands on
the same state; and so it does for a whole document. -/
theorem rearrangement_inert (d : Dialect) {rules : List Rule} (h : Rearranged d.rules rules) :
    (∀ (s : ScanState) (line : List Char),
      ((d.withRules rules).scanLine s line).tokens = (d.scanLine s line).tokens
      ∧ ((d.withRules rules).scanLine s line).stateAfter = (d.scanLine s line).stateAfter)
    ∧ ∀ (s : ScanState) (lines : List (List Char)),
      (d.withRules rules).entriesFrom s lines = d.entriesFrom s lines := by
  refine ⟨fun s line => ?_, entriesFrom_withRules d h⟩
  rw [scanLine_withRules d h]
  exact ⟨rfl, rfl⟩

/-- A table in which two closing rules match the same word and one arrow begins another. -/
def endRules : List Rule :=
  [{ keywords ["alt", "box"] with effect := .enter .group },
    { keywords ["end"] with effect := .exit .group },
    arrows ["->", "->>"],
    { keywords ["end note", "end"] with effect := .exit .note }]

/-- The same table with its closing rules in front and its alternatives listed in another way. -/
def endRulesInFront : List Rule :=
  [{ keywords ["end"] with effect := .exit .group },
    { keywords ["end", "end note", "end"] with effect := .exit .note },
    { keywords ["box", "alt"] with effect := .enter .group },
    arrows ["->>", "->"]]

/-- In a group, an `end` that both closing rules match, and an arrow behind it. -/
theorem rearrangement_inert_of_end :
    Rearranged (sequence.withRules endRules).rules endRulesInFront
    ∧ (((sequence.withRules endRules).withRules endRulesInFront).scanLine ⟨[.group]⟩
        "end A->>B".toList).tokens
      = ((sequence.withRules endRules).scanLine ⟨[.group]⟩ "end A->>B".toList).tokens
    ∧ (((sequence.withRules endRules).withRules endRulesInFront).scanLine ⟨[.group]⟩
        "end A->>B".toList).stateAfter
      = ((sequence.withRules endRules).scanLine ⟨[.group]⟩ "end A->>B".toList).stateAfter
    ∧ ((sequence.withRules endRules).scanLine ⟨[.group]⟩ "end A->>B".toList).stateAfter
      = .initial := by
  have hclosers : List.Forall₂ Rule.Rearranged (endRules.filter Rule.isCloser)
      (endRulesInFront.filter Rule.isCloser) :=
    .cons (.mk (.refl _)) (.cons (.mk (.keywords (by decide) (by decide))) .nil)
  have hothers : List.Forall₂ Rule.Rearranged (endRules.filter fun r => !r.isCloser)
      (endRulesInFront.filter fun r => !r.isCloser) :=
    .cons (.mk (.keywords (by decide) (by decide)))
      (.cons (.mk (.glyphs (by decide) (by decide))) .nil)
  have h : Rearranged (sequence.withRules endRules).rules endRulesInFront := ⟨hclosers, hothers⟩
  have hline := (rearrangement_inert _ h).1 ⟨[.group]⟩ "end A->>B".toList
  exact ⟨h, hline.1, hline.2, by decide +kernel⟩

/-- The order of the closing rules among themselves does mean something: with the closing rule
of the note before that of the group, the group stays open. -/
example : ((sequence.withRules endRules.reverse).scanLine ⟨[.group]⟩ "end".toList).stateAfter
    = ⟨[.group]⟩ := by decide +kernel

end Dialect

end UmlMarkup
