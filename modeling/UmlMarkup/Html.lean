import UmlMarkup.Document

/-!
# Highlighted HTML

A text is shown as an HTML page by putting every styled lexeme into a `span`
whose class names the style. The rest of the text stands outside of any `span`,
the indentation included, and every line ends in a line feed.

Wherever text of the diagram or the title enters the page, the four characters
that mean something in HTML are replaced by entities, so the tags of the page
are those written here and no others.
-/

namespace UmlMarkup

namespace Html

/-- A character as it stands in a page. -/
def escapeChar (c : Char) : List Char :=
  match c with
  | '&' => "&amp;".toList
  | '<' => "&lt;".toList
  | '>' => "&gt;".toList
  | '"' => "&quot;".toList
  | c => [c]

/-- A text as it stands in a page. -/
def escape (text : List Char) : List Char := text.flatMap escapeChar

/-- The tag that starts a styled piece of text. -/
def spanOpen (style : String) : List Char :=
  "<span class=\"cm-".toList ++ style.toList ++ "\">".toList

/-- The tag that ends it. -/
def spanClose : List Char := "</span>".toList

/-- A lexeme, in a `span` of its style if it has one. -/
def lexeme (l : Lexeme) : List Char :=
  match l.kind.style? with
  | some style => spanOpen style ++ escape l.text ++ spanClose
  | none => escape l.text

/-- A line, with the line feed that ends it. -/
def line (l : ScannedLine) : List Char :=
  escape l.indent ++ l.lexemes.flatMap lexeme ++ ['\n']

/-- The lines of a text. -/
def body (d : Dialect) (text : List Char) : List Char := (d.scanText text).flatMap line

/-- How the styles look. -/
def stylesheet : String :=
  "    .cm-comment \x7b color: #a50; font-style: italic; \x7d\n" ++
  "    .cm-string \x7b color: #a11; \x7d\n" ++
  "    .cm-keyword \x7b color: #708; font-weight: bold; \x7d\n" ++
  "    .cm-def \x7b color: #00f; \x7d\n" ++
  "    .cm-number \x7b color: #164; \x7d\n" ++
  "    .cm-atom \x7b color: #219; \x7d\n" ++
  "    .cm-operator \x7b color: #555; \x7d\n"

/-- What comes before the lines. -/
def head (title : List Char) : List Char :=
  "<!DOCTYPE html>\n<html>\n<head>\n  <meta charset=\"UTF-8\">\n  <title>".toList ++ escape title
    ++ "</title>\n  <style>\n".toList ++ stylesheet.toList
    ++ "  </style>\n</head>\n<body>\n<pre class=\"umlscan\">".toList

/-- What comes after the lines. -/
def foot : List Char := "</pre>\n</body>\n</html>\n".toList

/-- The page that shows a text under a title. -/
def page (d : Dialect) (title text : List Char) : List Char := head title ++ body d text ++ foot

end Html

end UmlMarkup
