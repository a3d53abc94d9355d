import Mathlib.Data.List.Infix
import UmlMarkup.Proofs.Scan.LineBreak

/-!
# Where comments and strings begin and end

On a line that does not start inside a comment or a string, each of them shows where it
begins. Then either it shows where it ends, at the first closing marker behind the opening
one, or it takes all that is left of the line and is open in the state that the line hands
on; and nothing else is open there as a comment or a string (`literals_delimited`).

The markers share their characters, so this depends on the order in which they are looked
for: what closes a comment is searched behind its opening marker only, and `/'/` is open.
It depends on the table too, in which no rule may give its tokens the kind of a comment or
a string. Free text, the bodies of notes and other tokens may hold any marker, but none of
them is read there.

A step reads a token that is complete, or one that ends the line (`bounds_of_reads`). So a
line is a run of complete tokens, and at its end there may be one that is not
(`delimited_scanRest`).
-/

namespace UmlMarkup

/-! ## Texts between markers -/

/-- **The text is closed**: behind the opening marker stands the closing one, at the end
of the text and nowhere before. -/
def Closed (opener closer text : List Char) : Prop :=
  ∃ inner, text = opener ++ inner ∧ closer <:+ inner
    ∧ ∀ before after, inner = before ++ (closer ++ after) → after = []

/-- **The text stays open**: the closing marker does not stand behind the opening one. -/
def StaysOpen (opener closer text : List Char) : Prop :=
  ∃ inner, text = opener ++ inner ∧ ¬ closer <:+: inner

section

variable {opener closer rest text : List Char}

theorem closed_of_past? (hopener : opener <+: rest) (hcloser : closer ≠ []) {n : Nat}
    (h : past? closer (rest.drop opener.length) = some n) :
    Closed opener closer (rest.take (opener.length + n)) := by
  obtain ⟨inner, rfl⟩ := hopener
  rw [List.drop_left] at h
  refine ⟨inner.take n, List.take_length_add_append n, (past?_eq_length_iff hcloser).1 ?_⟩
  rw [past?_take h, List.length_take_of_le (past?_bounds h).2]

theorem staysOpen_of_past? (hopener : opener <+: rest) (hcloser : closer ≠ [])
    (h : past? closer (rest.drop opener.length) = none) : StaysOpen opener closer rest := by
  obtain ⟨inner, rfl⟩ := hopener
  rw [List.drop_left] at h
  exact ⟨inner, rfl, (past?_eq_none_iff hcloser).1 h⟩

/-- A text that stays open does not begin with one that is closed. -/
theorem StaysOpen.not_closed_append (h : StaysOpen opener closer (text ++ rest)) :
    ¬ Closed opener closer text := by
  obtain ⟨inner, heq, hnot⟩ := h
  rintro ⟨inner', rfl, hend, -⟩
  rw [List.append_assoc] at heq
  obtain rfl := List.append_cancel_left heq
  exact hnot (hend.isInfix.trans (List.prefix_append inner' rest).isInfix)

theorem StaysOpen.not_closed (h : StaysOpen opener closer text) : ¬ Closed opener closer text :=
  StaysOpen.not_closed_append (show StaysOpen opener closer (text ++ []) by rwa [List.append_nil])

/-- In a longer text, too, a text that is closed ends at the closing marker. -/
theorem Closed.exists_past? (hcloser : closer ≠ []) (h : Closed opener closer text)
    (rest : List Char) :
    ∃ n, past? closer ((text ++ rest).drop opener.length) = some n
      ∧ text.length = opener.length + n := by
  obtain ⟨inner, rfl, hend⟩ := h
  refine ⟨inner.length, ?_, List.length_append⟩
  rw [List.append_assoc, List.drop_left]
  exact past?_append_right ((past?_eq_length_iff hcloser).2 hend) rest

/-- **A text begins with at most one that is closed.** -/
theorem Closed.eq_of_append (hcloser : closer ≠ []) {text' rest' : List Char}
    (h : Closed opener closer text) (h' : Closed opener closer text')
    (heq : text ++ rest = text' ++ rest') : text = text' ∧ rest = rest' := by
  obtain ⟨n, hn, hlength⟩ := h.exists_past? hcloser rest
  obtain ⟨n', hn', hlength'⟩ := h'.exists_past? hcloser rest'
  obtain rfl : n = n' := Option.some.inj ((hn.symm.trans (by rw [heq])).trans hn')
  exact List.append_inj heq (hlength.trans hlength'.symm)

end

/-- Between quotation marks nothing but the two is one. -/
theorem Closed.quotes {quote : Char} {text : List Char} (h : Closed [quote] [quote] text) :
    text.head? = some quote ∧ text.count quote = 2 ∧ text.getLast? = some quote := by
  obtain ⟨inner, rfl, ⟨front, rfl⟩, honly⟩ := h
  have hfront : quote ∉ front := fun hmem => by
    obtain ⟨u, v, rfl⟩ := List.append_of_mem hmem
    have hnil := honly u (v ++ [quote]) (List.append_assoc ..)
    exact List.cons_ne_nil quote [] (List.append_eq_nil_iff.1 hnil).2
  refine ⟨rfl, ?_, ?_⟩
  · rw [List.count_append, List.count_append, List.count_eq_zero.2 hfront,
      List.count_singleton_self]
  · rw [← List.append_assoc, List.getLast?_concat]

/-- A string stays open just if the quotation mark at its start is the only one. -/
theorem staysOpen_quote_iff {quote : Char} {text : List Char} :
    StaysOpen [quote] [quote] text ↔ text.head? = some quote ∧ text.count quote = 1 := by
  constructor
  · rintro ⟨inner, rfl, hnot⟩
    rw [List.singleton_infix_iff] at hnot
    refine ⟨rfl, ?_⟩
    rw [List.count_append, List.count_singleton_self, List.count_eq_zero.2 hnot]
  · rintro ⟨hhead, hcount⟩
    obtain ⟨inner, rfl⟩ := List.head?_eq_some_iff.1 hhead
    rw [List.count_cons_self, Nat.add_eq_right, List.count_eq_zero] at hcount
    exact ⟨inner, rfl, fun h => hcount ((List.singleton_infix_iff quote inner).1 h)⟩

namespace Context

/-- What is settled has no header to settle any more. -/
theorem header_settle (c : Context) : c.settle.header ≠ .quoted := by
  unfold settle
  split
  · exact NoteHeader.noConfusion
  · next h => exact h

/-- So a literal that is opened then stays open. -/
theorem settle_enter_settle {m : Mode} (hm : m ≠ .note) (c : Context) :
    (c.settle.enter m).settle = c.settle.enter m := by
  have hheader : (c.settle.enter m).header = c.settle.header := if_neg hm
  rw [settle, hheader, if_neg c.header_settle]

end Context

namespace Dialect

variable {d : Dialect} {ctx : Context} {rest : List Char}

/-! ## Literals and their tokens -/

/-- **The markers of literals**: the construct that is open, the kind of its tokens, and the
markers that open and close it. -/
inductive Delimits (d : Dialect) : Mode → Kind → List Char → List Char → Prop
  | comment : Delimits d .blockComment .comment d.blockOpen d.blockClose
  | string : Delimits d .string .string [d.quote] [d.quote]

theorem Delimits.literal {m : Mode} {kind : Kind} {opener closer : List Char}
    (h : d.Delimits m kind opener closer) : d.Literal m kind closer := by
  cases h with
  | comment => exact .comment
  | string => exact .string

section

variable {m m' : Mode} {kind kind' : Kind} {opener opener' closer closer' : List Char}

theorem Delimits.mode_eq (h : d.Delimits m kind opener closer)
    (h' : d.Delimits m' kind opener' closer') : m' = m := by
  cases h <;> cases h' <;> rfl

theorem Delimits.unique (h : d.Delimits m kind opener closer)
    (h' : d.Delimits m kind' opener' closer') :
    kind' = kind ∧ opener' = opener ∧ closer' = closer := by
  cases h <;> cases h' <;> exact ⟨rfl, rfl, rfl⟩

end

/-- **A complete token**: a comment or a string that is closed, or neither of them. -/
def Complete (d : Dialect) (l : Lexeme) : Prop :=
  ∀ m opener closer, d.Delimits m l.kind opener closer → Closed opener closer l.text

theorem complete_of_kind_ne {l : Lexeme} (hcomment : l.kind ≠ .comment)
    (hstring : l.kind ≠ .string) : d.Complete l := by
  obtain ⟨kind, text⟩ := l
  intro m opener closer h
  cases h with
  | comment => exact absurd rfl hcomment
  | string => exact absurd rfl hstring

/-- **A dialect that marks its literals**: no rule opens one or passes its token off as one,
a comment can be closed, and no text starts with the markers of both sorts of comments. -/
structure MarksLiterals (d : Dialect) : Prop where
  enters : d.EntersConstructs
  kinds : ∀ r ∈ d.rules, r.kind ≠ .comment ∧ r.kind ≠ .string
  blockClose : d.blockClose ≠ []
  apart : ¬ d.lineComment <+: d.blockOpen ∧ ¬ d.blockOpen <+: d.lineComment

theorem Delimits.closer_ne_nil {m : Mode} {kind : Kind} {opener closer : List Char}
    (h : d.Delimits m kind opener closer) (hd : d.MarksLiterals) : closer ≠ [] := by
  cases h with
  | comment => exact hd.blockClose
  | string => exact List.cons_ne_nil _ _

theorem builtin_marksLiterals : ∀ d ∈ builtin, d.MarksLiterals := by
  refine fun d hd => ⟨?_, ?_, ?_, ?_⟩ <;> revert d <;> decide +kernel

/-! ## Steps -/

/-- **How a step delimits its token**: the token is complete and opens no literal, or it is a
comment up to the end of the line, or a literal that stays open. -/
inductive Bounds (d : Dialect) (ctx : Context) (rest : List Char) : Step → Prop
  | complete {s : Step} (h : d.Complete ⟨s.kind, rest.take s.length⟩)
    (hnext : ¬ s.next.state.mode.IsLiteral) : Bounds d ctx rest s
  | lineComment (h : d.lineComment <+: rest) : Bounds d ctx rest ⟨.comment, rest.length, ctx⟩
  | opened {m : Mode} {kind : Kind} {opener closer : List Char}
    (h : d.Delimits m kind opener closer) (hopen : StaysOpen opener closer rest) :
    Bounds d ctx rest (unclosedStep ctx rest m kind)

theorem prefix_of_standsAt {marker : List Char} (h : standsAt marker rest = true) :
    marker <+: rest :=
  List.isPrefixOf_iff_prefix.1 (Bool.and_eq_true_iff.1 h).2

theorem standsAt_of_begins {marker : List Char} (hne : marker ≠ []) (h : marker <+: rest) :
    standsAt marker rest = true :=
  Bool.and_eq_true_iff.2 ⟨by simpa using hne, List.isPrefixOf_iff_prefix.2 h⟩

theorem bounds_of_kind_ne {s : Step} (hcomment : s.kind ≠ .comment) (hstring : s.kind ≠ .string)
    (hnext : ¬ s.next.state.mode.IsLiteral) : d.Bounds ctx rest s :=
  .complete (complete_of_kind_ne hcomment hstring) hnext

theorem bounds_of_unstyled {s : Step} (hkind : s.kind = .unstyled)
    (hnext : ¬ s.next.state.mode.IsLiteral) : d.Bounds ctx rest s :=
  bounds_of_kind_ne (hkind ▸ Kind.noConfusion) (hkind ▸ Kind.noConfusion) hnext

/-- A literal that starts here goes up to its closing marker, or stays open. -/
theorem bounds_of_delimits (hd : d.MarksLiterals) {m : Mode} {kind : Kind}
    {opener closer : List Char} (h : d.Delimits m kind opener closer) (hopener : opener <+: rest)
    {next : Context} (hnext : ¬ next.state.mode.IsLiteral) {s : Step}
    (hclosed : ∀ n, past? closer (rest.drop opener.length) = some n →
      s = ⟨kind, opener.length + n, next⟩)
    (hopen : past? closer (rest.drop opener.length) = none → s = unclosedStep ctx rest m kind) :
    d.Bounds ctx rest s := by
  have hcloser := h.closer_ne_nil hd
  cases hpast : past? closer (rest.drop opener.length) with
  | none =>
    rw [hopen hpast]
    exact .opened h (staysOpen_of_past? hopener hcloser hpast)
  | some n =>
    rw [hclosed n hpast]
    refine .complete (fun m' opener' closer' h' => ?_) hnext
    obtain rfl := h.mode_eq h'
    obtain ⟨-, rfl, rfl⟩ := h.unique h'
    exact closed_of_past? hopener hcloser hpast

theorem commentStep_bounds (hd : d.MarksLiterals) (hnoted : Noted ctx.state.stack)
    (h : standsAt d.blockOpen rest = true) : d.Bounds ctx rest (d.commentStep ctx rest) :=
  bounds_of_delimits hd .comment (prefix_of_standsAt h) hnoted.not_literal
    (fun n hn => by rw [commentStep, hn]) fun hn => by rw [commentStep, hn]

theorem stringStep_bounds (hd : d.MarksLiterals) (hnoted : Noted ctx.state.stack)
    (h : rest.head? = some d.quote) : d.Bounds ctx rest (d.stringStep ctx rest) := by
  have hopener : [d.quote] <+: rest := by
    obtain ⟨inner, rfl⟩ := List.head?_eq_some_iff.1 h
    exact List.prefix_append [d.quote] inner
  have hnext : ¬ ctx.markQuoted.state.mode.IsLiteral := hnoted.not_literal
  have hclosed : ∀ n, past? [d.quote] (rest.drop 1) = some n →
      d.stringStep ctx rest = ⟨.string, 1 + n, ctx.markQuoted⟩ := fun n hn => by
    rw [stringStep, hn]
  have hopen : past? [d.quote] (rest.drop 1) = none →
      d.stringStep ctx rest = unclosedStep ctx rest .string .string := fun hn => by
    rw [stringStep, hn]
  exact bounds_of_delimits hd .string hopener hnext hclosed hopen

theorem closerStep_bounds (hd : d.MarksLiterals) (hnoted : Noted ctx.state.stack) {c : Closer}
    (hc : d.closer? rest = some c) : d.Bounds ctx rest (closerStep ctx c) := by
  have hnext : ¬ (closerStep ctx c).next.state.mode.IsLiteral := by
    rw [closerStep_state]
    exact (hnoted.exit _).not_literal
  obtain ⟨r, hr, -, hkind, -⟩ := closer?_spec hc
  obtain ⟨hcomment, hstring⟩ := hd.kinds r hr
  unfold closerStep at hnext ⊢
  split
  · next s hs =>
    rw [hs] at hnext
    exact bounds_of_kind_ne (hkind ▸ hcomment) (hkind ▸ hstring) hnext
  · next hs =>
    rw [hs] at hnext
    exact bounds_of_unstyled rfl hnext

/-- **Where no literal is open a step delimits its token**, whichever way it reads it. -/
theorem bounds_of_reads (hd : d.MarksLiterals) (hnoted : Noted ctx.state.stack) {s : Step}
    (hs : Reads d ctx rest s) : d.Bounds ctx rest s := by
  cases hs with
  | freeText _ => exact bounds_of_unstyled rfl hnoted.not_literal
  | blank _ _ => exact bounds_of_unstyled rfl hnoted.not_literal
  | openComment _ _ hm => exact absurd (Or.inl hm) hnoted.not_literal
  | openString _ _ hm => exact absurd (Or.inr hm) hnoted.not_literal
  | noteCloser _ _ _ _ _ hc => exact closerStep_bounds hd hnoted hc
  | noteText => exact bounds_of_unstyled rfl hnoted.not_literal
  | lineComment _ h => exact .lineComment (prefix_of_standsAt h)
  | blockComment _ _ h => exact commentStep_bounds hd hnoted h
  | string _ _ _ h => exact stringStep_bounds hd hnoted h
  | colon =>
    exact bounds_of_kind_ne Kind.noConfusion Kind.noConfusion (hnoted.exit .note).not_literal
  | closer _ hc => exact closerStep_bounds hd hnoted hc
  | rule _ _ hr =>
    have hmem := (rule?_spec hr).1
    obtain ⟨hcomment, hstring⟩ := hd.kinds _ hmem
    exact bounds_of_kind_ne hcomment hstring (ruleStep_not_literal hd.enters hnoted hmem)
  | word => exact bounds_of_unstyled rfl hnoted.not_literal

/-! ## Lines -/

/-- **How the tokens of a line are delimited**, `m` being innermost behind the line: they are
complete, but the last may be a comment up to the end of the line, or the literal `m` if
that stays open. -/
inductive Delimited (d : Dialect) : List Lexeme → Mode → Prop
  | nil {m : Mode} (hm : ¬ m.IsLiteral) : Delimited d [] m
  | cons {l : Lexeme} {ls : List Lexeme} {m : Mode} (h : d.Complete l) (hls : Delimited d ls m) :
    Delimited d (l :: ls) m
  | lineComment {text : List Char} {m : Mode} (h : d.lineComment <+: text)
    (hm : ¬ m.IsLiteral) : Delimited d [⟨.comment, text⟩] m
  | opened {m : Mode} {kind : Kind} {opener closer text : List Char}
    (h : d.Delimits m kind opener closer) (hopen : StaysOpen opener closer text) :
    Delimited d [⟨kind, text⟩] m

/-- **A line is delimited from any position on at which no literal is open.** -/
theorem delimited_scanRest (hd : d.MarksLiterals) (ctx : Context) (rest : List Char)
    (hnoted : Noted ctx.state.stack) (hsound : Sound ctx rest) :
    d.Delimited (d.scanRest ctx rest).1 (d.endState ctx rest).mode := by
  induction ctx, rest using d.scan_induction with
  | atEnd ctx => simpa using Delimited.nil hnoted.settle.not_literal
  | token ctx rest hne ih =>
    have hreads := d.step_reads ctx rest
    have hafter := sound_of_reads hd.enters hsound hne hreads
    obtain ⟨s, hs⟩ : ∃ s, d.step ctx rest = s := ⟨_, rfl⟩
    have hbounds := bounds_of_reads hd hnoted hreads
    rw [hs] at hbounds
    cases hbounds with
    | complete hcomplete hnext =>
      rw [scanRest_of_ne_nil d ctx hne, endState_of_ne_nil hne]
      rw [← hs] at hcomplete hnext
      refine .cons hcomplete (ih ?_ ⟨hafter.layered, hafter.header⟩)
      exact hafter.layered.noted (fun hm => hnext (Or.inl hm)) fun hm => hnext (Or.inr hm)
    | lineComment h =>
      rw [scanRest_of_length hne hs, endState_of_length hne hs]
      exact .lineComment h hnoted.settle.not_literal
    | @opened m kind opener closer h hopen =>
      have hm := h.literal.isLiteral
      have hnormal : m ≠ .normal := by rcases hm with rfl | rfl <;> exact Mode.noConfusion
      have hnote : m ≠ .note := by rcases hm with rfl | rfl <;> exact Mode.noConfusion
      have hmode : (ctx.settle.enter m).settle.state.mode = m := by
        rw [Context.settle_enter_settle hnote]
        exact ScanState.mode_enter hnormal
      rw [scanRest_of_length hne hs, endState_of_length hne hs, hmode]
      exact .opened h hopen

namespace Delimited

variable {ls : List Lexeme} {m : Mode}

/-- What is not complete is the last token. -/
theorem of_getElem? (h : d.Delimited ls m) {i : Nat} {l : Lexeme} (hl : ls[i]? = some l) :
    d.Complete l ∨ i + 1 = ls.length
      ∧ (l.kind = .comment ∧ d.lineComment <+: l.text
        ∨ ∃ opener closer, d.Delimits m l.kind opener closer ∧ StaysOpen opener closer l.text) := by
  induction h generalizing i with
  | nil => cases hl
  | cons hcomplete _ ih =>
    cases i with
    | zero =>
      cases hl
      exact Or.inl hcomplete
    | succ i => exact (ih hl).imp_right fun ⟨hlast, h⟩ => ⟨congrArg (· + 1) hlast, h⟩
  | lineComment htext _ =>
    cases i with
    | zero =>
      cases hl
      exact Or.inr ⟨rfl, Or.inl ⟨rfl, htext⟩⟩
    | succ i => cases hl
  | opened hdelimits hopen =>
    cases i with
    | zero =>
      cases hl
      exact Or.inr ⟨rfl, Or.inr ⟨_, _, hdelimits, hopen⟩⟩
    | succ i => cases hl

/-- A literal that is open behind the line is its last token. -/
theorem exists_open (h : d.Delimited ls m) (hm : m.IsLiteral) :
    ∃ l ∈ ls, ∃ opener closer,
      d.Delimits m l.kind opener closer ∧ StaysOpen opener closer l.text := by
  induction h with
  | nil hnot => exact absurd hm hnot
  | cons _ _ ih =>
    obtain ⟨l, hl, h⟩ := ih hm
    exact ⟨l, List.mem_cons_of_mem _ hl, h⟩
  | lineComment _ hnot => exact absurd hm hnot
  | opened h hopen => exact ⟨_, List.mem_cons_self, _, _, h, hopen⟩

end Delimited

/-! ## Tokens -/

/-- **The comments and strings of a line are well delimited.** A string has a quotation mark
at its start and one at its end, or only the one at its start and is the last token. A
comment goes from its marker to the end of the line, or from an opening marker to the first
closing one behind it, or has none and is the last token. And a literal that stays open is
there just if the line leaves it open. -/
structure WellDelimited (d : Dialect) (line : List Char) (e : Entry) : Prop where
  strings : ∀ t ∈ e.tokens, t.kind = .string →
    (t.text line).head? = some d.quote
    ∧ ((t.text line).count d.quote = 2 ∧ (t.text line).getLast? = some d.quote
      ∨ (t.text line).count d.quote = 1 ∧ e.tokens.getLast? = some t)
  openString : (∃ t ∈ e.tokens, t.kind = .string ∧ (t.text line).count d.quote = 1)
    ↔ e.stateAfter.mode = .string
  comments : ∀ t ∈ e.tokens, t.kind = .comment →
    d.lineComment <+: t.text line ∧ e.tokens.getLast? = some t
    ∨ Closed d.blockOpen d.blockClose (t.text line)
    ∨ StaysOpen d.blockOpen d.blockClose (t.text line) ∧ e.tokens.getLast? = some t
  openComment : (∃ t ∈ e.tokens,
      t.kind = .comment ∧ StaysOpen d.blockOpen d.blockClose (t.text line))
    ↔ e.stateAfter.mode = .blockComment

section

variable {s : ScanState} {line : List Char}

/-- The lexemes of a scanned line are its tokens with their texts. -/
theorem getElem?_lexemes {i : Nat} {t : Token}
    (ht : (d.scanLine s line).tokens[i]? = some t) :
    (d.scanLine s line).lexemes[i]? = some ⟨t.kind, t.text line⟩ := by
  rw [← d.map_mk_tokens s line, List.getElem?_map, ht, Option.map_some]

section

variable {m m' : Mode} {kind : Kind} {opener closer : List Char}

/-- **A token of a literal is closed, or it is the last one**: a comment up to the end of the
line, or a literal that is open behind the line. -/
theorem token_of_delimited (h : d.Delimited (d.scanLine s line).lexemes m')
    (hm : d.Delimits m kind opener closer) {t : Token} (ht : t ∈ (d.scanLine s line).tokens)
    (hkind : t.kind = kind) :
    Closed opener closer (t.text line) ∨ (d.scanLine s line).tokens.getLast? = some t
      ∧ (kind = .comment ∧ d.lineComment <+: t.text line
        ∨ m' = m ∧ StaysOpen opener closer (t.text line)) := by
  subst hkind
  obtain ⟨i, hi⟩ := List.mem_iff_getElem?.1 ht
  rcases h.of_getElem? (getElem?_lexemes hi) with hcomplete | ⟨hlast, hends⟩
  · exact Or.inl (hcomplete m opener closer hm)
  · rw [← d.map_mk_tokens s line, List.length_map] at hlast
    refine Or.inr ⟨?_, hends.imp_right fun ⟨opener', closer', hm', hopen⟩ => ?_⟩
    · rw [List.getLast?_eq_getElem?, ← hlast, Nat.add_sub_cancel, hi]
    · obtain rfl := hm.mode_eq hm'
      obtain ⟨-, rfl, rfl⟩ := hm.unique hm'
      exact ⟨rfl, hopen⟩

/-- **A literal that stays open is on the line just if the line leaves it open.** -/
theorem exists_open_iff (hd : d.MarksLiterals) (h : d.Delimited (d.scanLine s line).lexemes m')
    (hm : d.Delimits m kind opener closer) :
    (∃ t ∈ (d.scanLine s line).tokens, t.kind = kind ∧ StaysOpen opener closer (t.text line))
      ↔ m' = m := by
  constructor
  · rintro ⟨t, ht, hkind, hopen⟩
    rcases token_of_delimited h hm ht hkind with hclosed | ⟨-, ⟨rfl, htext⟩ | ⟨hmode, -⟩⟩
    · exact absurd hclosed hopen.not_closed
    · -- a comment of its line starts otherwise
      cases hm
      obtain ⟨inner, heq, -⟩ := hopen
      exact absurd (List.prefix_or_prefix_of_prefix htext (heq ▸ List.prefix_append _ inner))
        (not_or.2 hd.apart)
    · exact hmode
  · rintro rfl
    obtain ⟨l, hl, opener', closer', hm', hopen⟩ := h.exists_open hm.literal.isLiteral
    obtain ⟨hkind, rfl, rfl⟩ := hm.unique hm'
    rw [← d.map_mk_tokens s line] at hl
    obtain ⟨t, ht, rfl⟩ := List.mem_map.1 hl
    exact ⟨t, ht, hkind, hopen⟩

end

/-- A line of delimited tokens is well delimited. -/
theorem wellDelimited_of_delimited (hd : d.MarksLiterals)
    (h : d.Delimited (d.scanLine s line).lexemes (d.scanLine s line).stateAfter.mode) :
    d.WellDelimited line (d.scanLine s line).entry := by
  have hstrings : ∀ t ∈ (d.scanLine s line).tokens, t.kind = .string →
      Closed [d.quote] [d.quote] (t.text line)
      ∨ StaysOpen [d.quote] [d.quote] (t.text line)
        ∧ (d.scanLine s line).tokens.getLast? = some t := fun t ht hkind =>
    (token_of_delimited h .string ht hkind).imp_right fun ⟨hlast, hends⟩ =>
      ⟨(hends.resolve_left fun hcomment => Kind.noConfusion hcomment.1).2, hlast⟩
  refine ⟨fun t ht hkind => ?_, ?_, fun t ht hkind => ?_, exists_open_iff hd h .comment⟩
  · rcases hstrings t ht hkind with hclosed | ⟨hopen, hlast⟩
    · obtain ⟨hhead, hcount, hquote⟩ := hclosed.quotes
      exact ⟨hhead, Or.inl ⟨hcount, hquote⟩⟩
    · obtain ⟨hhead, hcount⟩ := staysOpen_quote_iff.1 hopen
      exact ⟨hhead, Or.inr ⟨hcount, hlast⟩⟩
  · refine Iff.trans ⟨?_, ?_⟩ (exists_open_iff hd h .string)
    · rintro ⟨t, ht, hkind, hcount⟩
      refine ⟨t, ht, hkind, (hstrings t ht hkind).elim (fun hclosed => ?_) And.left⟩
      have htwo := hclosed.quotes.2.1
      omega
    · rintro ⟨t, ht, hkind, hopen⟩
      exact ⟨t, ht, hkind, (staysOpen_quote_iff.1 hopen).2⟩
  · rcases token_of_delimited h .comment ht hkind with hclosed | ⟨hlast, ⟨-, htext⟩ | ⟨-, hopen⟩⟩
    · exact Or.inr (Or.inl hclosed)
    · exact Or.inl ⟨htext, hlast⟩
    · exact Or.inr (Or.inr ⟨hopen, hlast⟩)

end

/-- **Comments and strings are well delimited, and an open one is always reported**, on every
line that starts in no comment and no string, whatever the document has opened before. -/
theorem literals_delimited {d : Dialect} (hd : d ∈ builtin) (lines : List (List Char))
    (hstring : (d.stateAfter .initial lines).mode ≠ .string)
    (hcomment : (d.stateAfter .initial lines).mode ≠ .blockComment) (line : List Char) :
    d.WellDelimited line (d.scanLine (d.stateAfter .initial lines) line).entry := by
  have hmarks := builtin_marksLiterals d hd
  have hinit : Layered ScanState.initial.stack := Or.inl (Or.inl nest_nil)
  have hlayered := layered_stateAfter hmarks.enters hinit lines
  exact wellDelimited_of_delimited hmarks (delimited_scanRest hmarks _ _
    (hlayered.noted hcomment hstring) (.outside hlayered rfl _))

/-- The header of a note holds a string, which ends the note as soon as a comment opens that
its line leaves open. The comment is not closed by the characters that open it. -/
theorem literals_delimited_of_note :
    sequence ∈ builtin
    ∧ (sequence.stateAfter .initial ["alt x".toList]).mode ≠ .string
    ∧ (sequence.stateAfter .initial ["alt x".toList]).mode ≠ .blockComment
    ∧ sequence.WellDelimited "note over \"b\" /'/ c".toList
      ⟨[⟨.keyword, 0, 9⟩, ⟨.unstyled, 9, 10⟩, ⟨.string, 10, 13⟩, ⟨.unstyled, 13, 14⟩,
        ⟨.comment, 14, 19⟩], .ofFrames [.group, .blockComment]⟩ := by
  have hmem : sequence ∈ builtin := List.mem_cons_self
  have hstring : (sequence.stateAfter .initial ["alt x".toList]).mode ≠ .string := by
    decide +kernel
  have hcomment : (sequence.stateAfter .initial ["alt x".toList]).mode ≠ .blockComment := by
    decide +kernel
  have h := literals_delimited hmem _ hstring hcomment "note over \"b\" /'/ c".toList
  refine ⟨hmem, hstring, hcomment, ?_⟩
  have hentry : (sequence.scanLine (sequence.stateAfter .initial ["alt x".toList])
      "note over \"b\" /'/ c".toList).entry
      = ⟨[⟨.keyword, 0, 9⟩, ⟨.unstyled, 9, 10⟩, ⟨.string, 10, 13⟩, ⟨.unstyled, 13, 14⟩,
        ⟨.comment, 14, 19⟩], .ofFrames [.group, .blockComment]⟩ := by
    decide +kernel
  rwa [hentry] at h

end Dialect

end UmlMarkup
