import Mathlib.Algebra.Ring.Nat
import UmlMarkup.Dialect.Builtin
import UmlMarkup.Proofs.Scan.Coverage
import UmlMarkup.Proofs.Scan.Reading
import UmlMarkup.Proofs.Scan.Spelling
import UmlMarkup.Proofs.Scan.Threading

/-!
# Highlighting and nesting agree

A group that a reader sees opened is a group that the scanner opened. The tokens
that open a construct and those that close it can be told by their kind and their
text alone, and the number of open constructs goes up by one at each of the former,
down by one at each of the latter, and stays as it is everywhere else.

So stray closers have to be plain text, since they close nothing, and so have the
keywords of a construct wherever they open nothing: in a note, in free text, in the
middle of a line or glued to what follows. And no other rule may make a token of the
same kind and text. That last point is about the table of a dialect, and `Account.Keeps`
states it rule by rule. All the rest is about the scanner, and holds for every
dialect whose rules keep the account (`balanced_of_reads`): a step books a token
exactly if it opens or closes the construct. By induction along the line and along
the document the account is balanced in the end, whatever was open at the start.
-/

namespace UmlMarkup

/-! ## Counting frames -/

namespace ScanState

variable {m m' : Mode}

@[simp] theorem count_exit_of_ne (h : m' ≠ m) (s : ScanState) :
    (s.exit m').stack.count m = s.stack.count m := by
  rcases s.exit_cases m' with he | he
  · rw [he]
  · conv_rhs => rw [he]
    exact (List.count_cons_of_ne h).symm

@[simp] theorem count_enter_of_ne (h : m' ≠ m) (s : ScanState) :
    (s.enter m').stack.count m = s.stack.count m := by
  unfold enter
  split
  · rfl
  · exact List.count_cons_of_ne h

@[simp] theorem count_enter_self (h : m ≠ .normal) (s : ScanState) :
    (s.enter m).stack.count m = s.stack.count m + 1 := by
  simp [h]

end ScanState

@[simp] theorem Context.count_settle {m : Mode} (h : m ≠ .note) (c : Context) :
    c.settle.state.stack.count m = c.state.stack.count m := by
  rcases c.settle_cases with he | he <;> rw [he]
  exact c.state.count_exit_of_ne h.symm

@[simp] theorem count_dropWhile_color {m : Mode} (h : m ≠ .color) (stack : List Mode) :
    (stack.dropWhile (· == .color)).count m = stack.count m := by
  induction stack with
  | nil => rfl
  | cons top below ih =>
    by_cases htop : top = .color
    · rw [List.dropWhile_cons_of_pos (by simpa using htop), ih,
        List.count_cons_of_ne (htop ▸ h.symm)]
    · rw [List.dropWhile_cons_of_neg (by simpa using htop)]

/-! ## Accounts -/

/-- **An account** of a construct: the tokens that stand for its opening and for its
closing, told by their kind and by their texts up to the width of gaps. -/
structure Account where
  mode : Mode
  kind : Kind
  openers : List (List Char)
  closers : List (List Char)

namespace Account

/-- Whether a piece of text is booked as an opening. -/
def opens (a : Account) (l : Lexeme) : Bool :=
  l.kind == a.kind && a.openers.contains (squeeze l.text)

/-- Whether a piece of text is booked as a closing. -/
def closes (a : Account) (l : Lexeme) : Bool :=
  l.kind == a.kind && a.closers.contains (squeeze l.text)

/-- **A rule keeps the account**: if its tokens are of the kind that is booked, its
texts are those of an opening exactly if it opens the construct, and those of a
closing exactly if it closes it; if they are not, it does neither. -/
def Keeps (a : Account) (r : Rule) : Prop :=
  (r.kind = a.kind → r.extent = .exact ∧ r.pattern.IsSpelled
    ∧ ∀ t ∈ r.pattern.spellings, (t ∈ a.openers ↔ r.effect = .enter a.mode)
      ∧ (t ∈ a.closers ↔ r.effect = .exit a.mode))
  ∧ (r.kind ≠ a.kind → r.effect ≠ .enter a.mode ∧ r.effect ≠ .exit a.mode)

instance (a : Account) : DecidablePred a.Keeps := fun _ => inferInstanceAs (Decidable (_ ∧ _))

/-- A box or a group is accounted for by keywords or operators, other than the colon
that ends the header of a note, and every rule of the dialect keeps the account. -/
structure KeptBy (a : Account) (d : Dialect) : Prop where
  mode : a.mode = .box ∨ a.mode = .group
  kind : a.kind = .keyword ∨ a.kind = .operator
  colon : [':'] ∉ a.openers ∧ [':'] ∉ a.closers
  rules : ∀ r ∈ d.rules, a.Keeps r

variable {a : Account}

@[simp] theorem opens_of_kind_ne {l : Lexeme} (h : l.kind ≠ a.kind) : a.opens l = false := by
  rw [opens, beq_false_of_ne h, Bool.false_and]

@[simp] theorem closes_of_kind_ne {l : Lexeme} (h : l.kind ≠ a.kind) : a.closes l = false := by
  rw [closes, beq_false_of_ne h, Bool.false_and]

/-- **The step balances the account**: the construct is open once more after an
opening, once less after a closing, and as often as before otherwise. -/
def Balances (a : Account) (ctx : Context) (rest : List Char) (s : Step) : Prop :=
  s.next.state.stack.count a.mode
      + (if a.closes ⟨s.kind, rest.take s.length⟩ then 1 else 0)
    = ctx.state.stack.count a.mode
      + (if a.opens ⟨s.kind, rest.take s.length⟩ then 1 else 0)

variable {d : Dialect} {ctx : Context} {rest : List Char} {s : Step}

/-- A token that is not booked must leave the number of open constructs alone. -/
theorem Balances.of_silent (hopens : a.opens ⟨s.kind, rest.take s.length⟩ = false)
    (hcloses : a.closes ⟨s.kind, rest.take s.length⟩ = false)
    (hcount : s.next.state.stack.count a.mode = ctx.state.stack.count a.mode) :
    a.Balances ctx rest s := by
  rw [Balances, hopens, hcloses, hcount]

theorem Balances.of_kind_ne (hkind : s.kind ≠ a.kind)
    (hcount : s.next.state.stack.count a.mode = ctx.state.stack.count a.mode) :
    a.Balances ctx rest s :=
  .of_silent (opens_of_kind_ne hkind) (closes_of_kind_ne hkind) hcount

namespace KeptBy

theorem kind_ne (h : a.KeptBy d) :
    Kind.unstyled ≠ a.kind ∧ Kind.comment ≠ a.kind ∧ Kind.string ≠ a.kind := by
  rcases h.kind with hk | hk <;> rw [hk] <;>
    exact ⟨Kind.noConfusion, Kind.noConfusion, Kind.noConfusion⟩

/-- The construct is none of those that the scanner handles without a rule. -/
theorem mode_ne (h : a.KeptBy d) : a.mode ≠ .normal ∧ a.mode ≠ .blockComment
    ∧ a.mode ≠ .string ∧ a.mode ≠ .note ∧ a.mode ≠ .color := by
  rcases h.mode with hm | hm <;> rw [hm] <;>
    exact ⟨Mode.noConfusion, Mode.noConfusion, Mode.noConfusion, Mode.noConfusion,
      Mode.noConfusion⟩

/-- How a rule that keeps the account books the text that it matches. -/
theorem booked_of_match (h : a.KeptBy d) {r : Rule} (hr : r ∈ d.rules) (hkind : r.kind = a.kind)
    {n : Nat} (hn : r.pattern.properLength? rest = some n) :
    (a.opens ⟨r.kind, rest.take n⟩ = true ↔ r.effect = .enter a.mode)
    ∧ (a.closes ⟨r.kind, rest.take n⟩ = true ↔ r.effect = .exit a.mode) := by
  obtain ⟨-, hspelled, htexts⟩ := (h.rules r hr).1 hkind
  have hmem := Pattern.squeeze_take_mem_spellings hspelled (Option.filter_eq_some_iff.1 hn).1
  obtain ⟨hopen, hclose⟩ := htexts _ hmem
  rw [← hopen, ← hclose, opens, closes, hkind, beq_self_eq_true, Bool.true_and, Bool.true_and,
    List.contains_iff_mem, List.contains_iff_mem]
  exact ⟨Iff.rfl, Iff.rfl⟩

end KeptBy

end Account

/-! ## Steps -/

namespace Dialect

open Account

variable {a : Account} {d : Dialect} {ctx : Context} {rest : List Char}

theorem unclosedStep_balances (h : a.KeptBy d) {m : Mode} (hm : m ≠ a.mode) {kind : Kind}
    (hkind : kind ≠ a.kind) : a.Balances ctx rest (unclosedStep ctx rest m kind) :=
  .of_kind_ne hkind ((ScanState.count_enter_of_ne hm _).trans
    (Context.count_settle h.mode_ne.2.2.2.1 ctx))

theorem commentStep_balances (h : a.KeptBy d) :
    a.Balances ctx rest (d.commentStep ctx rest) := by
  unfold commentStep
  split
  · exact .of_kind_ne h.kind_ne.2.1 rfl
  · exact unclosedStep_balances h h.mode_ne.2.1.symm h.kind_ne.2.1

theorem stringStep_balances (h : a.KeptBy d) :
    a.Balances ctx rest (d.stringStep ctx rest) := by
  unfold stringStep
  split
  · exact .of_kind_ne h.kind_ne.2.2 rfl
  · exact unclosedStep_balances h h.mode_ne.2.2.1.symm h.kind_ne.2.2

theorem continueStep_balances {m : Mode} (hm : m ≠ a.mode) {kind : Kind} (hkind : kind ≠ a.kind)
    (closer : List Char) : a.Balances ctx rest (continueStep ctx rest m kind closer) := by
  unfold continueStep
  split
  · exact .of_kind_ne hkind (ScanState.count_exit_of_ne hm _)
  · exact .of_kind_ne hkind rfl

/-- A closer is booked exactly if it closes the construct: one that closes nothing is
plain text. -/
theorem closerStep_balances (h : a.KeptBy d) {c : Closer} (hc : d.closer? rest = some c) :
    a.Balances ctx rest (closerStep ctx c) := by
  obtain ⟨r, hr, heffect, hkind, hn, -⟩ := closer?_spec hc
  have hmode : ∀ m, r.effect = .exit m → m = c.mode := fun m hm =>
    Effect.exit.inj (hm.symm.trans heffect)
  unfold closerStep
  split
  · next s hs =>
    have hstack := ScanState.close?_eq_some_iff.1 hs
    by_cases hk : r.kind = a.kind
    · obtain ⟨hopen, hclose⟩ := h.booked_of_match hr hk hn
      rw [hkind] at hopen hclose
      have hopen : a.opens ⟨c.kind, rest.take c.length⟩ = false :=
        eq_false_of_ne_true fun ho => by cases heffect.symm.trans (hopen.1 ho)
      by_cases hm : c.mode = a.mode
      · have hclose := hclose.2 (hm ▸ heffect)
        rw [Balances]
        simp only [hopen, hclose, hstack, hm, List.count_cons_self]
        rfl
      · have hclose : a.closes ⟨c.kind, rest.take c.length⟩ = false :=
          eq_false_of_ne_true fun ho => hm (hmode _ (hclose.1 ho)).symm
        refine .of_silent hopen hclose ?_
        rw [hstack, List.count_cons_of_ne hm]
    · have hm : c.mode ≠ a.mode := fun hm => ((h.rules r hr).2 hk).2 (hm ▸ heffect)
      refine .of_kind_ne (hkind ▸ hk) ?_
      rw [hstack, List.count_cons_of_ne hm]
  · exact .of_kind_ne h.kind_ne.1 rfl

/-- Reading a color leaves boxes and groups alone. -/
@[simp] theorem count_readMatch (ctx : Context) (rest : List Char) {m : Mode} (hm : m ≠ .color)
    (r : Rule) (n : Nat) :
    (readMatch ctx rest r n).1.stack.count m = ctx.state.stack.count m := by
  unfold readMatch
  split
  · dsimp only
    simp [count_dropWhile_color hm]
  · rfl

/-- A rule other than a closing one is booked exactly if it opens the construct. -/
theorem ruleStep_balances (h : a.KeptBy d) {r : Rule} {n : Nat}
    (hr : d.rule? ctx rest = some (r, n)) : a.Balances ctx rest (ruleStep ctx rest r n) := by
  obtain ⟨hmem, hn, hadm⟩ := rule?_spec hr
  obtain ⟨hnormal, -, -, -, hcolor⟩ := h.mode_ne
  have hexit : ∀ m, r.effect ≠ .exit m := fun m hm => by
    have hclosed : r.closedMode? = some m := Rule.closedMode?_eq_some_iff.2 hm
    rw [admits, hclosed] at hadm
    cases hadm
  have hread := count_readMatch ctx rest hcolor r n
  -- what the rule does to the number of open constructs
  have hcount : (ruleStep ctx rest r n).next.state.stack.count a.mode
      = ctx.state.stack.count a.mode + if r.effect = .enter a.mode then 1 else 0 := by
    unfold ruleStep
    cases he : r.effect with
    | none => exact hread
    | exit m => exact absurd he (hexit m)
    | enter m =>
      by_cases hm : m = a.mode
      · subst hm
        rw [if_pos rfl, ← hread]
        exact ScanState.count_enter_self hnormal _
      · rw [if_neg fun heq => hm (Effect.enter.inj heq), ← hread]
        exact ScanState.count_enter_of_ne hm _
  have hstep : (ruleStep ctx rest r n).kind = r.kind := rfl
  by_cases hk : r.kind = a.kind
  · obtain ⟨hexact, hspelled, -⟩ := (h.rules r hmem).1 hk
    have hlength : (ruleStep ctx rest r n).length = n := by
      have hne : r.pattern ≠ .color := fun hp => by rw [hp] at hspelled; exact hspelled
      unfold ruleStep readMatch
      rw [if_neg hne, hexact]
      rfl
    obtain ⟨hopen, hclose⟩ := h.booked_of_match hmem hk hn
    have hclose : a.closes ⟨r.kind, rest.take n⟩ = false :=
      eq_false_of_ne_true fun hc => hexit _ (hclose.1 hc)
    rw [Balances, hcount, hstep, hlength, hclose]
    simp only [hopen]
    rfl
  · refine .of_kind_ne hk ?_
    rw [hcount, if_neg ((h.rules r hmem).2 hk).1]
    rfl

/-- **Every step balances the account.** -/
theorem balanced_of_reads (h : a.KeptBy d) {s : Step} (hs : Reads d ctx rest s) :
    a.Balances ctx rest s := by
  have hm := h.mode_ne
  have hk := h.kind_ne
  cases hs with
  | freeText => exact .of_kind_ne hk.1 rfl
  | blank => exact .of_kind_ne hk.1 rfl
  | openComment => exact continueStep_balances hm.2.1.symm hk.2.1 _
  | openString => exact continueStep_balances hm.2.2.1.symm hk.2.2 _
  | noteCloser _ _ _ _ _ hc => exact closerStep_balances h hc
  | noteText => exact .of_kind_ne hk.1 rfl
  | lineComment => exact .of_kind_ne hk.2.1 rfl
  | blockComment => exact commentStep_balances h
  | string => exact stringStep_balances h
  | colon _ _ hcolon =>
    have htake : rest.take 1 = [':'] := by
      cases rest with
      | nil => cases hcolon
      | cons c rest => rw [Option.some.inj hcolon]; rfl
    refine .of_silent ?_ ?_ (ScanState.count_exit_of_ne hm.2.2.2.1.symm _)
    · simp [opens, htake, squeeze, isGap, h.colon.1]
    · simp [closes, htake, squeeze, isGap, h.colon.2]
  | closer _ hc => exact closerStep_balances h hc
  | rule _ _ hr => exact ruleStep_balances h hr
  | word => exact .of_kind_ne hk.1 rfl

/-! ## Lines and documents -/

/-- **Along the rest of a line the account is balanced.** -/
theorem count_scanRest (h : a.KeptBy d) (ctx : Context) (rest : List Char) :
    (d.scanRest ctx rest).2.state.stack.count a.mode + (d.scanRest ctx rest).1.countP a.closes
      = ctx.state.stack.count a.mode + (d.scanRest ctx rest).1.countP a.opens := by
  induction ctx, rest using scan_induction d with
  | atEnd ctx => simp
  | token ctx rest hne ih =>
    have hs : (d.contextAfter ctx rest).state.stack.count a.mode
        + (if a.closes (d.lexemeAt ctx rest) then 1 else 0)
        = ctx.state.stack.count a.mode + (if a.opens (d.lexemeAt ctx rest) then 1 else 0) :=
      balanced_of_reads h (d.step_reads ctx rest)
    rw [scanRest_of_ne_nil d ctx hne, List.countP_cons, List.countP_cons]
    dsimp only
    omega

end Dialect

/-- The number of tokens of a line that are of the given kind and have a text that
passes the test. -/
def ScannedLine.tally (l : ScannedLine) (kind : Kind) (test : List Char → Bool) : Nat :=
  l.tokens.countP fun t => t.kind == kind && test (t.text l.text)

namespace Dialect

variable {a : Account} {d : Dialect}

theorem tally_scanLine (d : Dialect) (state : ScanState) (line : List Char) (kind : Kind)
    (test : List Char → Bool) :
    (d.scanLine state line).tally kind test
      = (d.scanLine state line).lexemes.countP fun l => l.kind == kind && test l.text := by
  rw [ScannedLine.tally, text_scanLine, ← map_mk_tokens d state line, List.countP_map]
  rfl

/-- **The ledger of a construct**: after every line the construct is open as often as
before, once more for each opener among the tokens and once less for each closer; and
so at the end of a document it is open as often as its openers outnumber its
closers. -/
def Ledger (d : Dialect) (m : Mode) (kind : Kind) (opener closer : List Char → Bool) : Prop :=
  (∀ state line,
    (d.scanLine state line).stateAfter.stack.count m + (d.scanLine state line).tally kind closer
      = state.stack.count m + (d.scanLine state line).tally kind opener)
  ∧ ∀ lines,
    (d.stateAfter .initial lines).stack.count m
        + ((d.scanLines .initial lines).map (·.tally kind closer)).sum
      = ((d.scanLines .initial lines).map (·.tally kind opener)).sum

/-- What every line balances, every run of lines balances. -/
theorem count_stateAfter {m : Mode} {kind : Kind} {opener closer : List Char → Bool}
    (hline : ∀ state line, (d.scanLine state line).stateAfter.stack.count m
        + (d.scanLine state line).tally kind closer
      = state.stack.count m + (d.scanLine state line).tally kind opener)
    (state : ScanState) (lines : List (List Char)) :
    (d.stateAfter state lines).stack.count m
        + ((d.scanLines state lines).map (·.tally kind closer)).sum
      = state.stack.count m + ((d.scanLines state lines).map (·.tally kind opener)).sum := by
  induction lines generalizing state with
  | nil => rfl
  | cons line rest ih =>
    have hl := hline state line
    have hrest := ih (d.scanLine state line).stateAfter
    rw [stateAfter_cons, scanLines, List.map_cons, List.map_cons, List.sum_cons, List.sum_cons]
    omega

/-- **An account that every rule keeps is a ledger.** -/
theorem ledger_of_keptBy (h : a.KeptBy d) :
    d.Ledger a.mode a.kind (fun t => a.openers.contains (squeeze t))
      (fun t => a.closers.contains (squeeze t)) := by
  have hline : ∀ state line, (d.scanLine state line).stateAfter.stack.count a.mode
        + (d.scanLine state line).tally a.kind (fun t => a.closers.contains (squeeze t))
      = state.stack.count a.mode
        + (d.scanLine state line).tally a.kind (fun t => a.openers.contains (squeeze t)) := by
    intro state line
    have hrest := count_scanRest h { state := state } (line.dropWhile isBlank)
    rw [tally_scanLine, tally_scanLine]
    exact (congrArg (· + _) (Context.count_settle h.mode_ne.2.2.2.1 _)).trans hrest
  refine ⟨hline, fun lines => ?_⟩
  rw [count_stateAfter hline]
  exact Nat.zero_add _

/-- For words without gaps the text itself decides. -/
@[simp] theorem contains_squeeze {words : List (List Char)} (h : ∀ w ∈ words, Gapless w)
    (text : List Char) : words.contains (squeeze text) = words.contains text := by
  induction words with
  | nil => rfl
  | cons w words ih =>
    obtain ⟨hw, hwords⟩ := List.forall_mem_cons.1 h
    rw [List.contains_cons, List.contains_cons, ih hwords]
    refine congrArg (· || _) ?_
    rw [Bool.eq_iff_iff, beq_iff_eq, beq_iff_eq]
    exact squeeze_eq_iff hw text

@[simp] theorem contains_singleton (w text : List Char) : [w].contains text = (text == w) := by
  rw [List.contains_cons, List.contains_nil, Bool.or_false]

/-- The keywords that open a group in a sequence diagram. -/
def groupWords : List (List Char) :=
  ["alt", "opt", "loop", "par", "break", "critical", "group"].map String.toList

/-- The groups of sequence diagrams. -/
def groupAccount : Account := ⟨.group, .keyword, groupWords, ["end".toList]⟩

/-- The boxes of sequence diagrams. -/
def boxAccount : Account := ⟨.box, .keyword, ["box".toList], ["end box".toList]⟩

/-- The groups in braces of the other diagrams. -/
def braceAccount : Account := ⟨.group, .operator, [['\x7b']], [['\x7d']]⟩

theorem groupAccount_keptBy : groupAccount.KeptBy sequence :=
  ⟨by decide, by decide, by decide +kernel, by decide +kernel⟩

theorem boxAccount_keptBy : boxAccount.KeptBy sequence :=
  ⟨by decide, by decide, by decide +kernel, by decide +kernel⟩

theorem braceAccount_keptBy : ∀ d ∈ [classDiagram, object, useCase], braceAccount.KeptBy d := by
  intro d hd
  refine ⟨by decide, by decide, by decide +kernel, ?_⟩
  revert d
  decide +kernel

/-- **Highlighting and nesting agree.** In a sequence diagram the groups that are open
are the keywords `alt`, `opt`, `loop`, `par`, `break`, `critical` and `group` less the
keywords `end`, and the boxes are the keywords `box` less the keywords `end box`, with
any gap between the two words; in the other diagrams the groups are the operators
`\x7b` less the operators `\x7d`. This holds of every line, whatever was open
before it, and of every document as a whole. -/
theorem highlighting_agrees_with_nesting :
    sequence.Ledger .group .keyword groupWords.contains (· == "end".toList)
    ∧ sequence.Ledger .box .keyword (· == "box".toList) (fun t => squeeze t == "end box".toList)
    ∧ ∀ d ∈ [classDiagram, object, useCase],
      d.Ledger .group .operator (· == ['\x7b']) (· == ['\x7d']) := by
  refine ⟨?_, ?_, fun d hd => ?_⟩
  · have hopener : (fun t => groupWords.contains (squeeze t)) = groupWords.contains :=
      funext (contains_squeeze (by decide +kernel))
    have hcloser : (fun t => ["end".toList].contains (squeeze t)) = (· == "end".toList) :=
      funext fun t =>
        (contains_squeeze (by decide +kernel) t).trans (contains_singleton _ t)
    exact hopener ▸ hcloser ▸ ledger_of_keptBy groupAccount_keptBy
  · have hopener : (fun t => ["box".toList].contains (squeeze t)) = (· == "box".toList) :=
      funext fun t =>
        (contains_squeeze (by decide +kernel) t).trans (contains_singleton _ t)
    have hcloser : (fun t => ["end box".toList].contains (squeeze t))
        = (fun t => squeeze t == "end box".toList) :=
      funext fun t => contains_singleton _ (squeeze t)
    exact hopener ▸ hcloser ▸ ledger_of_keptBy boxAccount_keptBy
  · have hbrace : ∀ c, isGap c = false →
        (fun t => [[c]].contains (squeeze t)) = (fun t : List Char => t == [c]) :=
      fun c hc => funext fun t =>
        (contains_squeeze (List.forall_mem_singleton.2 (List.forall_mem_singleton.2 hc)) t).trans
          (contains_singleton _ t)
    have h := ledger_of_keptBy (braceAccount_keptBy d hd)
    rw [braceAccount] at h
    dsimp only at h
    rwa [hbrace _ (by decide), hbrace _ (by decide)] at h

end Dialect

end UmlMarkup
