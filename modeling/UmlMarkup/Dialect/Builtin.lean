import UmlMarkup.Dialect

/-!
# The built-in dialects

Four kinds of PlantUML diagrams: sequence, class, object and use case. All of
them share the comments, the strings and the markers at both ends of a diagram,
and most share the notes, the colors, the braces and the relations; they differ
in their keywords, their arrows and the constructs they know.

The order of a table matters among the rules that open or mark something, and
the diagram markers always stand first. Among the closing rules and inside a
pattern it does not, because the longest match wins there.
-/

namespace UmlMarkup

namespace Dialect

/-! ## Shared rules -/

/-- The keyword pattern of the given phrases. -/
def anyPhrase (phrases : List String) : Pattern := .keywords (phrases.map Phrase.ofString)

/-- The glyph pattern of the given texts. -/
def anyGlyph (texts : List String) : Pattern := .glyphs (texts.map String.toList)

/-- A rule that makes keywords of the given phrases. -/
def keywords (phrases : List String) : Rule := { pattern := anyPhrase phrases, kind := .keyword }

/-- A rule that makes atoms of the given arrows. -/
def arrows (texts : List String) : Rule := { pattern := anyGlyph texts, kind := .atom }

/-- A divider, which runs to the end of its line. -/
def divider (text : String) : Rule :=
  { pattern := .literal text.toList, kind := .operator, extent := .toEnd }

/-- The markers at both ends of a diagram, with whatever follows them. -/
def diagramMarkers : Rule :=
  { pattern := anyPhrase ["@startuml", "@enduml"], kind := .definition, extent := .toEnd }

/-- Color literals. -/
def colors : Rule := { pattern := .color, kind := .atom }

/-- Numbers. -/
def numbers : Rule := { pattern := .number, kind := .number }

/-- The title and the running lines, whose text is free. -/
def titles : Rule := { keywords ["title", "header", "footer"] with freeText := true }

/-- The colon before a label, whose text is free. -/
def labelColon : Rule := { pattern := anyGlyph [":"], kind := .operator, freeText := true }

/-- The end of a note. -/
def noteEnd : Rule := { keywords ["end note", "endnote"] with effect := .exit .note }

/-- Notes beside an element, and floating ones. -/
def noteStart : Rule :=
  { keywords ["note top of", "note bottom of", "note left of", "note right of", "note"] with
    effect := .enter .note }

/-- An opening brace starts a group. -/
def braceOpen : Rule :=
  { pattern := .literal ['\x7b'], kind := .operator, effect := .enter .group }

/-- A closing brace ends one. -/
def braceClose : Rule :=
  { pattern := .literal ['\x7d'], kind := .operator, effect := .exit .group }

/-- The relations of the structural diagrams. -/
def relations : Rule := arrows
  ["<|--", "--|>", "<|..", "..|>", "*--", "--*", "o--", "--o", "-->", "<--", "..>",
    "<..", "->", "<-", "--", ".."]

/-! ## Sequence diagrams -/

/-- The rules of sequence diagrams. Groups are opened by a keyword with a free
label and closed by a bare `end`, boxes and notes by closers of their own; the
text of a message is free. -/
def sequenceRules : List Rule :=
  [ diagramMarkers,
    -- Dividers, delays and spacers.
    divider "==",
    divider "...",
    divider "|||",
    colors,
    { keywords ["end note", "endnote", "end hnote", "endhnote", "end rnote", "endrnote"] with
      effect := .exit .note },
    { keywords ["end box"] with effect := .exit .box },
    -- A bare `end` must stand alone, or it would end a group at every `end ref`.
    { keywords ["end"] with effect := .exit .group, standalone := true },
    keywords ["end ref"],
    keywords
      ["actor", "participant", "boundary", "control", "entity", "database", "collections",
        "queue", "as", "order", "create", "activate", "deactivate", "destroy",
        "autoactivate", "autonumber", "skinparam", "hide", "show", "ref over"],
    titles,
    { keywords ["return", "newpage"] with freeText := true },
    { keywords ["else"] with freeText := true },
    { keywords ["alt", "opt", "loop", "par", "break", "critical", "group"] with
      effect := .enter .group, freeText := true },
    { keywords ["box"] with effect := .enter .box },
    { keywords
        ["note left of", "note right of", "note over", "note across", "note left",
          "note right", "note", "hnote over", "hnote", "rnote over", "rnote"] with
      effect := .enter .note },
    arrows
      ["<->", "<-->", "->>", "-->>", "->", "-->", "<-", "<--", "<<-", "<<--", "->x", "-->x",
        "x->", "x-->", "->o", "-->o", "o->", "o-->", "-\\", "-\\\\", "-/", "-//", "--\\",
        "--/", "?->", "->?", "[->", "->]", "[-->", "-->]"],
    labelColon,
    numbers ]

/-- Sequence diagrams. -/
def sequence : Dialect where
  name := "plantuml_sequence"
  label := "PlantUML Diagram (Sequence)"
  contentId := "text/x-plantuml-sequence"
  suffixes := ["psequence", "pseq"]
  lineComment := ['\'']
  blockOpen := ['/', '\'']
  blockClose := ['\'', '/']
  quote := '"'
  indentPolicy := .constructs
  rules := sequenceRules

/-! ## Class diagrams -/

/-- The rules of class diagrams. The modifiers of a member may be glued to its
name. -/
def classRules : List Rule :=
  [ diagramMarkers,
    colors,
    noteEnd,
    braceClose,
    { keywords
        ["\x7bstatic\x7d", "\x7babstract\x7d", "\x7bfield\x7d", "\x7bmethod\x7d"] with
      extent := .toBlank },
    keywords
      ["abstract class", "abstract", "class", "interface", "annotation", "enum", "package",
        "namespace", "extends", "implements", "as", "hide", "show", "skinparam"],
    titles,
    noteStart,
    braceOpen,
    relations,
    numbers ]

/-- Class diagrams. -/
def classDiagram : Dialect where
  name := "plantuml_class"
  label := "PlantUML Diagram (Class)"
  contentId := "text/x-plantuml-class"
  suffixes := ["pclass"]
  lineComment := ['\'']
  blockOpen := ['/', '\'']
  blockClose := ['\'', '/']
  quote := '"'
  indentPolicy := .nesting
  rules := classRules

/-! ## Object diagrams -/

/-- The rules of object diagrams. A map has arrows of its own between keys and
values. -/
def objectRules : List Rule :=
  [ diagramMarkers,
    colors,
    noteEnd,
    braceClose,
    keywords ["object", "map", "as", "skinparam", "hide", "show"],
    titles,
    noteStart,
    braceOpen,
    arrows ["=>"],
    relations,
    numbers ]

/-- Object diagrams. -/
def object : Dialect where
  name := "plantuml_object"
  label := "PlantUML Diagram (Object)"
  contentId := "text/x-plantuml-object"
  suffixes := ["pobj"]
  lineComment := ['\'']
  blockOpen := ['/', '\'']
  blockClose := ['\'', '/']
  quote := '"'
  indentPolicy := .none
  rules := objectRules

/-! ## Use case diagrams -/

/-- The rules of use case diagrams. An element may be named in place, a use
case in parentheses and an actor between colons. -/
def useCaseRules : List Rule :=
  [ diagramMarkers,
    colors,
    noteEnd,
    braceClose,
    keywords
      ["left to right direction", "top to bottom direction", "actor", "usecase", "rectangle",
        "package", "as", "skinparam"],
    titles,
    -- Elements named in place: `(Use case)` and `:Actor:`.
    { pattern := .delimited ['('] [')'], kind := .definition },
    { pattern := .delimited [':'] [':'], kind := .definition },
    noteStart,
    braceOpen,
    arrows
      ["-up->", "-down->", "-left->", "-right->", "-u->", "-d->", "-l->", "-r->", "<|--",
        "--|>", "-->", "->", "<--", "<-", "..>", "<..", "--", ".."],
    labelColon ]

/-- Use case diagrams. -/
def useCase : Dialect where
  name := "plantuml_usecase"
  label := "PlantUML Diagram (Use Case)"
  contentId := "text/x-plantuml-usecase"
  suffixes := ["pusecase", "puse"]
  lineComment := ['\'']
  blockOpen := ['/', '\'']
  blockClose := ['\'', '/']
  quote := '"'
  indentPolicy := .constructs
  rules := useCaseRules

/-- The built-in dialects, in the order in which they are registered. -/
def builtin : List Dialect := [sequence, classDiagram, object, useCase]

end Dialect

end UmlMarkup
