import UmlMarkup.Mode
import UmlMarkup.Pattern
import UmlMarkup.Token

/-!
# Rules

What sets one dialect apart from another is mostly its table of rules. A rule
pairs a pattern with the kind of token it makes, and may do three more things:
reach further than its match, open or close a construct, and declare the rest
of the line to be plain text.

Rules that close a construct stand apart from all others. They are tried first,
the longest match among them winning, and may be *standalone*, which means that
nothing but blanks and a comment may follow. The other rules are tried in the
order of the table, so a specific pattern must stand before a general one.
-/

namespace UmlMarkup

/-- How far the token of a rule reaches. -/
inductive Extent where
  /-- To the end of the match. -/
  | exact
  /-- To the next blank after the match. -/
  | toBlank
  /-- To the end of the line. -/
  | toEnd
  deriving DecidableEq, Repr

/-- What a rule does to the open constructs. -/
inductive Effect where
  | none
  | enter (mode : Mode)
  | exit (mode : Mode)
  deriving DecidableEq, Repr

/-- An entry of a dialect's table. -/
structure Rule where
  pattern : Pattern
  kind : Kind
  extent : Extent := .exact
  effect : Effect := .none
  /-- After this token the rest of the line is plain text. -/
  freeText : Bool := false
  /-- Applies only where nothing but blanks and a comment follows. Only rules
  that close a construct heed it. -/
  standalone : Bool := false
  deriving DecidableEq, Repr

namespace Rule

/-- The construct the rule closes, if it is a closing rule. -/
def closedMode? (r : Rule) : Option Mode :=
  match r.effect with
  | .exit m => some m
  | _ => none

@[simp] theorem closedMode?_eq_some_iff {r : Rule} {m : Mode} :
    r.closedMode? = some m ↔ r.effect = .exit m := by
  unfold closedMode?
  cases r.effect <;> simp

/-- Whether the rule closes the construct `m`. -/
def closes (r : Rule) (m : Mode) : Bool := r.closedMode? == some m

/-- Whether the rule opens a construct. -/
def opens (r : Rule) : Bool :=
  match r.effect with
  | .enter _ => true
  | _ => false

/-- Whether the rule is a keyword that opens a construct. Such a keyword is one
only as the first token of a line, with a separator after it. -/
def isConstructKeyword (r : Rule) : Bool :=
  match r.effect, r.pattern with
  | .enter _, .keywords _ => true
  | _, _ => false

end Rule

end UmlMarkup
