import UmlMarkup.Dialect
import UmlMarkup.Pattern.Bytes
import UmlMarkup.Scan.Context

/-!
# Which rule applies at a position

A dialect's table is consulted in three ways.

* `closer?` looks for the closing rule with the longest match. It does not ask
  what is open: that a closer is recognized and that it closes something are two
  questions, and a closer with nothing to close is read as plain text.
* `rule?` looks for the first of the other rules that matches and that the
  context admits. Inside a note header no construct opens, and a construct
  keyword needs to be the first token of the line with a separator after it, so
  that `participant box` and `box->Bob` open nothing.
* `breaksWord` tells where an unrecognized word ends short of the next blank.

`closerBytes?` and `ruleBytes?` give the lengths of the matches in bytes, for a
cursor that cuts the line by them.
-/

namespace UmlMarkup

/-- Whether the marker, which must not be empty, stands at the start of
`rest`. -/
def standsAt (marker rest : List Char) : Bool := !marker.isEmpty && marker.isPrefixOf rest

/-- What a closing rule makes of a position: the kind of its token, the
construct it closes and the length of its match. -/
structure Closer where
  kind : Kind
  mode : Mode
  length : Nat
  deriving DecidableEq, Repr

/-- The longest of the closers, the first of them where several are as long. -/
def Closer.longest? : List Closer → Option Closer
  | [] => none
  | c :: rest =>
    match longest? rest with
    | some best => if c.length < best.length then some best else some c
    | none => some c

theorem Closer.longest?_mem {cs : List Closer} {c : Closer} (h : Closer.longest? cs = some c) :
    c ∈ cs := by
  induction cs with
  | nil => cases h
  | cons d rest ih =>
    simp only [Closer.longest?] at h
    split at h
    · next best hb =>
      split at h
      · cases h; exact List.mem_cons_of_mem d (ih hb)
      · cases h; exact List.mem_cons_self
    · cases h; exact List.mem_cons_self

/-- Where there is a closer there is a longest one, and none is longer. -/
theorem Closer.exists_longest? {cs : List Closer} {c : Closer} (h : c ∈ cs) :
    ∃ best, Closer.longest? cs = some best ∧ c.length ≤ best.length := by
  induction cs with
  | nil => cases h
  | cons d rest ih =>
    simp only [Closer.longest?]
    rcases List.mem_cons.1 h with rfl | h
    · split
      · split
        · next hlt => exact ⟨_, rfl, Nat.le_of_lt hlt⟩
        · exact ⟨_, rfl, Nat.le_refl _⟩
      · exact ⟨_, rfl, Nat.le_refl _⟩
    · obtain ⟨best, hbest, hle⟩ := ih h
      rw [hbest]
      dsimp only
      split
      · exact ⟨best, rfl, hle⟩
      · next hlt => exact ⟨d, rfl, Nat.le_trans hle (Nat.le_of_not_lt hlt)⟩

/-- The closer that is as long as `g` makes it. -/
def Closer.resize (g : Nat → Nat) (c : Closer) : Closer := { c with length := g c.length }

/-- The longest closer stays the longest if lengths compare as before. -/
theorem Closer.longest?_map_resize {g : Nat → Nat} {cs : List Closer}
    (h : ∀ a ∈ cs, ∀ b ∈ cs, g a.length < g b.length ↔ a.length < b.length) :
    Closer.longest? (cs.map (Closer.resize g)) = (Closer.longest? cs).map (Closer.resize g) := by
  induction cs with
  | nil => rfl
  | cons c cs ih =>
    have hcs := ih fun a ha b hb =>
      h a (List.mem_cons_of_mem c ha) b (List.mem_cons_of_mem c hb)
    rw [List.map_cons, longest?, hcs, longest?]
    cases hbest : longest? cs with
    | none => rfl
    | some best =>
      have hlt := h c List.mem_cons_self best (List.mem_cons_of_mem c (longest?_mem hbest))
      dsimp only [Option.map_some]
      by_cases hshort : c.length < best.length
      · rw [if_pos hshort, if_pos (show (c.resize g).length < (best.resize g).length from
          hlt.2 hshort), Option.map_some]
      · rw [if_neg hshort, if_neg (show ¬ (c.resize g).length < (best.resize g).length from
          mt hlt.1 hshort), Option.map_some]

/-- Whether a text may follow a construct keyword: it is over, or starts with a
blank, a colon, a quotation mark or a color. -/
def separates : List Char → Bool
  | [] => true
  | c :: _ => isBlank c || [':', '"', '#'].contains c

namespace Dialect

/-- Whether nothing but blanks, or blanks and a comment, starts the text. -/
def isTrivia (d : Dialect) (text : List Char) : Bool :=
  let rest := text.dropWhile isBlank
  rest.isEmpty || standsAt d.lineComment rest || standsAt d.blockOpen rest

/-- What a closing rule makes of `rest`, if it applies there. -/
def closerOf? (d : Dialect) (rest : List Char) (r : Rule) : Option Closer :=
  match r.closedMode?, r.pattern.properLength? rest with
  | some m, some n =>
    if r.standalone && !d.isTrivia (rest.drop n) then none else some ⟨r.kind, m, n⟩
  | _, _ => none

/-- The closing rule that applies at the start of `rest`. -/
def closer? (d : Dialect) (rest : List Char) : Option Closer :=
  Closer.longest? (d.rules.filterMap (d.closerOf? rest))

/-- Whether the context admits the rule, `tail` being the text after its
match. -/
def admits (ctx : Context) (r : Rule) (tail : List Char) : Bool :=
  r.closedMode?.isNone && !(r.opens && ctx.inHeader)
    && (!r.isConstructKeyword || ctx.atStart && separates tail)

/-- The rule with the length of its match, if the rule applies at the start of
`rest`. -/
def applied? (ctx : Context) (rest : List Char) (r : Rule) : Option (Rule × Nat) :=
  (r.pattern.properLength? rest).bind fun n =>
    if admits ctx r (rest.drop n) then some (r, n) else none

/-- The first rule, closing rules apart, that applies at the start of `rest`,
with the length of its match. -/
def rule? (d : Dialect) (ctx : Context) (rest : List Char) : Option (Rule × Nat) :=
  d.rules.findSome? (applied? ctx rest)

/-- Whether a glyph that stands at the start of `rest` breaks a word there. -/
def breaksWord (d : Dialect) (rest : List Char) : Bool :=
  d.rules.any fun r => r.pattern.breaksWord rest

/-! ## Matches are proper and lie within the text -/

/-- What a rule makes of a position says that it closes something and matches, with
nothing but blanks and a comment after it if the rule is standalone. -/
theorem closerOf?_spec {d : Dialect} {rest : List Char} {r : Rule} {c : Closer}
    (h : d.closerOf? rest r = some c) :
    r.effect = .exit c.mode ∧ r.kind = c.kind ∧ r.pattern.properLength? rest = some c.length
      ∧ (r.standalone = true → d.isTrivia (rest.drop c.length) = true) := by
  unfold closerOf? at h
  split at h
  · next m n hm hn =>
    split at h
    · cases h
    · next htrivia =>
      cases h
      refine ⟨Rule.closedMode?_eq_some_iff.1 hm, rfl, hn, fun hs => ?_⟩
      simpa [hs] using htrivia
  · cases h

/-- What is found comes from a rule of the table. -/
theorem closer?_spec {d : Dialect} {rest : List Char} {c : Closer}
    (h : d.closer? rest = some c) :
    ∃ r ∈ d.rules, r.effect = .exit c.mode ∧ r.kind = c.kind
      ∧ r.pattern.properLength? rest = some c.length
      ∧ (r.standalone = true → d.isTrivia (rest.drop c.length) = true) := by
  obtain ⟨r, hmem, hr⟩ := List.mem_filterMap.1 (Closer.longest?_mem h)
  exact ⟨r, hmem, closerOf?_spec hr⟩

theorem closer?_bounds {d : Dialect} {rest : List Char} {c : Closer}
    (h : d.closer? rest = some c) : 0 < c.length ∧ c.length ≤ rest.length := by
  obtain ⟨r, -, -, -, hn, -⟩ := closer?_spec h
  exact Pattern.properLength?_bounds hn

/-- What is found is a rule of the table that matches and that the context
admits. -/
theorem rule?_spec {d : Dialect} {ctx : Context} {rest : List Char} {r : Rule} {n : Nat}
    (h : d.rule? ctx rest = some (r, n)) :
    r ∈ d.rules ∧ r.pattern.properLength? rest = some n
      ∧ admits ctx r (rest.drop n) = true := by
  obtain ⟨s, hs, happ⟩ := List.exists_of_findSome?_eq_some h
  obtain ⟨k, hk, he⟩ := Option.bind_eq_some_iff.1 happ
  split at he
  · next hadm =>
    cases he
    exact ⟨hs, hk, hadm⟩
  · cases he

theorem rule?_bounds {d : Dialect} {ctx : Context} {rest : List Char} {r : Rule} {n : Nat}
    (h : d.rule? ctx rest = some (r, n)) : 0 < n ∧ n ≤ rest.length :=
  Pattern.properLength?_bounds (rule?_spec h).2.1

/-- A rule that opens something is not admitted in a note header. -/
theorem inHeader_of_admits {ctx : Context} {r : Rule} {tail : List Char}
    (h : admits ctx r tail = true) (hopens : r.opens = true) : ctx.inHeader = false := by
  unfold admits at h
  simpa [hopens] using (Bool.and_eq_true_iff.1 (Bool.and_eq_true_iff.1 h).1).2

/-! ## In bytes -/

/-- What a closing rule makes of `rest`, the length of its match in bytes. -/
def closerBytesOf? (d : Dialect) (rest : List Char) (r : Rule) : Option Closer :=
  match r.closedMode?, r.pattern.properBytes? rest with
  | some m, some n =>
    if r.standalone && !d.isTrivia (dropBytes n rest) then none else some ⟨r.kind, m, n⟩
  | _, _ => none

/-- The closing rule that applies at the start of `rest`, with the bytes of its match. -/
def closerBytes? (d : Dialect) (rest : List Char) : Option Closer :=
  Closer.longest? (d.rules.filterMap (d.closerBytesOf? rest))

/-- The rule with the bytes of its match, if the rule applies at the start of `rest`. -/
def appliedBytes? (ctx : Context) (rest : List Char) (r : Rule) : Option (Rule × Nat) :=
  (r.pattern.properBytes? rest).bind fun n =>
    if admits ctx r (dropBytes n rest) then some (r, n) else none

/-- The first rule, closing rules apart, that applies at the start of `rest`, with the bytes of
its match. -/
def ruleBytes? (d : Dialect) (ctx : Context) (rest : List Char) : Option (Rule × Nat) :=
  d.rules.findSome? (appliedBytes? ctx rest)

@[simp] theorem closerBytesOf?_eq (d : Dialect) (rest : List Char) (r : Rule) :
    d.closerBytesOf? rest r = (d.closerOf? rest r).map (Closer.resize (bytesTo rest)) := by
  rw [closerBytesOf?, closerOf?, Pattern.properBytes?_eq]
  cases r.closedMode? with
  | none => rfl
  | some m =>
    cases hn : r.pattern.properLength? rest with
    | none => rfl
    | some n =>
      simp only [Option.map_some, dropBytes_bytesTo (Pattern.properLength?_bounds hn).2]
      split <;> rfl

/-- **The closer found in bytes** is the one found in characters. -/
@[simp] theorem closerBytes?_eq (d : Dialect) (rest : List Char) :
    d.closerBytes? rest = (d.closer? rest).map (Closer.resize (bytesTo rest)) := by
  have hmap : d.rules.filterMap (d.closerBytesOf? rest)
      = (d.rules.filterMap (d.closerOf? rest)).map (Closer.resize (bytesTo rest)) := by
    rw [List.map_filterMap]
    exact congrArg (List.filterMap · d.rules) (funext (d.closerBytesOf?_eq rest))
  have hle : ∀ c ∈ d.rules.filterMap (d.closerOf? rest), c.length ≤ rest.length := fun c hc => by
    obtain ⟨r, -, hr⟩ := List.mem_filterMap.1 hc
    exact (Pattern.properLength?_bounds (closerOf?_spec hr).2.2.1).2
  rw [closerBytes?, hmap, Closer.longest?_map_resize, closer?]
  exact fun a ha b hb => bytesTo_lt_iff (hle a ha) (hle b hb)

@[simp] theorem appliedBytes?_eq (ctx : Context) (rest : List Char) (r : Rule) :
    appliedBytes? ctx rest r
      = (applied? ctx rest r).map fun p => (p.1, bytesTo rest p.2) := by
  rw [appliedBytes?, applied?, Pattern.properBytes?_eq]
  cases hn : r.pattern.properLength? rest with
  | none => rfl
  | some n =>
    simp only [Option.map_some, Option.bind_some,
      dropBytes_bytesTo (Pattern.properLength?_bounds hn).2]
    split <;> rfl

/-- **The rule found in bytes** is the one found in characters. -/
@[simp] theorem ruleBytes?_eq (d : Dialect) (ctx : Context) (rest : List Char) :
    d.ruleBytes? ctx rest = (d.rule? ctx rest).map fun p => (p.1, bytesTo rest p.2) := by
  rw [ruleBytes?, rule?, List.map_findSome?]
  exact congrArg (List.findSome? · d.rules) (funext (appliedBytes?_eq ctx rest))

end Dialect

end UmlMarkup
