import UmlMarkup.Proofs.Scan.Coverage
import UmlMarkup.Proofs.Sequence.Lines

/-!
# The tokens of a message

A message of a sequence diagram names who sends and who receives it, with an arrow between
the two, and what it says stands behind a colon. Each of these parts is a token, and so is
each of the spaces between them (`message_tokens`). The text of the message is one plain
token, whatever it holds: behind the colon nothing is looked for any more, neither the end of
a note nor a quotation mark nor a comment.

In front of the colon it is the other way round, since everything is looked for. A name is
no keyword and holds nothing but word characters, so that nothing of the table fits, and of
the arrows, many of which begin like another one, the longest that fits is taken
(`readAs_message`).
-/

namespace UmlMarkup

namespace Dialect

variable {s : ScanState} {a arrow b : List Char}

/-- **A message is read exactly as it is written**, inside whatever boxes and groups: the two
names, the arrow between them, the colon and the spaces are a token each, what stands behind
the colon is one plain token, if anything stands there, and the line hands on the state in
which it started. -/
theorem message_tokens (hs : Nest s.stack) (ha : sequence.IsName a)
    (harrow : arrow ∈ sequence.arrowTexts) (hb : sequence.IsName b) (text : List Char) :
    (sequence.scanLine s (messageLine a arrow b text)).tokens
      = layout 0 (messageLexemes a arrow b text)
    ∧ (sequence.scanLine s (messageLine a arrow b text)).tokens.map
        (fun t => Lexeme.mk t.kind (t.text (messageLine a arrow b text)))
      = messageLexemes a arrow b text
    ∧ (sequence.scanLine s (messageLine a arrow b text)).stateAfter = s := by
  have hflush : Flush (messageLine a arrow b text) := ha.flush.append _
  have hread := readAs_message hs ha harrow hb text
  rw [← hflush.dropWhile] at hread
  have hline : sequence.scanLine s (messageLine a arrow b text)
      = ⟨[], messageLexemes a arrow b text, s⟩ := by
    simp [hread.scanLine, hflush]
  refine ⟨?_, ?_, ?_⟩
  · rw [hline]
    rfl
  · rw [map_mk_tokens, hline]
  · rw [hline]

/-- Inside a group, a message from `ref` whose text is full of markers. -/
theorem message_tokens_of_markers :
    Nest [.group] ∧ sequence.IsName "ref".toList ∧ "-->x".toList ∈ sequence.arrowTexts
    ∧ sequence.IsName "Zoë_2".toList
    ∧ (sequence.scanLine ⟨[.group]⟩ "ref -->x Zoë_2 : end /' \"note".toList).tokens
      = [⟨.unstyled, 0, 3⟩, ⟨.unstyled, 3, 4⟩, ⟨.atom, 4, 8⟩, ⟨.unstyled, 8, 9⟩,
        ⟨.unstyled, 9, 14⟩, ⟨.unstyled, 14, 15⟩, ⟨.operator, 15, 16⟩, ⟨.unstyled, 16, 29⟩]
    ∧ (sequence.scanLine ⟨[.group]⟩ "ref -->x Zoë_2 : end /' \"note".toList).stateAfter
      = ⟨[.group]⟩ := by
  have hnest : Nest [.group] := nest_nil.cons (Or.inr rfl)
  have hfrom : sequence.IsName "ref".toList := by decide +kernel
  have harrow : "-->x".toList ∈ sequence.arrowTexts := by decide +kernel
  have hto : sequence.IsName "Zoë_2".toList := by decide +kernel
  obtain ⟨htokens, -, hstate⟩ := message_tokens (s := ⟨[.group]⟩) hnest hfrom harrow hto
    " end /' \"note".toList
  exact ⟨hnest, hfrom, harrow, hto, htokens, hstate⟩

end Dialect

end UmlMarkup
