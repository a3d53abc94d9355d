import UmlMarkup.Proofs.Sequence.Lines

/-!
# Well-nested sequence diagrams

A sequence diagram is written in blocks: messages one to a line, groups with their
branches, boxes, notes and comments, each with an end of its own. `Blocks` is the
grammar of the documents in which every block is complete, and it says of each line
what is open behind it. The scanner agrees, line by line (`scanLines_of_blocks`):
behind the opener of a block one construct more is open, behind its closer exactly what
was open before the block, and so a document ends as it started, inside however many
boxes and groups that was.

There is one argument for all blocks that have an inside. If the opener puts a construct
on the stack, the inside returns to the state it starts from, and the closer takes the
construct off again, then the block returns to its own start (`Returns.enclose`). What
the three parts are is a matter of single lines, and stands in
`UmlMarkup.Proofs.Sequence.Lines`.
-/

namespace UmlMarkup

/-- A line of a document, and what the document itself has open behind it, innermost
first. -/
structure Placed where
  line : List Char
  inside : List Mode
  deriving DecidableEq, Repr

namespace Placed

/-- The line as a part of a block of the construct `m`. -/
def within (m : Mode) (p : Placed) : Placed := ⟨p.line, p.inside ++ [m]⟩

/-- A line behind which nothing is open. -/
def outside (line : List Char) : Placed := ⟨line, []⟩

/-- The lines of a block of the construct `m`. -/
def enclose (m : Mode) (opener : List Char) (body : List Placed) (closer : List Char) :
    List Placed :=
  ⟨opener, [m]⟩ :: (body.map (within m) ++ [outside closer])

@[simp] theorem map_line_within (m : Mode) (ps : List Placed) :
    (ps.map (within m)).map line = ps.map line := by
  rw [List.map_map]
  rfl

end Placed

namespace Dialect

/-- **The lines return to the state they start from**, and behind each of them exactly
what the document itself has open there is open in addition. -/
structure Returns (d : Dialect) (s : ScanState) (ps : List Placed) : Prop where
  stateAfter : d.stateAfter s (ps.map Placed.line) = s
  states : (d.scanLines s (ps.map Placed.line)).map ScannedLine.stateAfter
    = ps.map fun p => ⟨p.inside ++ s.stack⟩

namespace Returns

variable {d : Dialect} {s : ScanState} {ps qs : List Placed}

theorem nil : d.Returns s [] := ⟨rfl, rfl⟩

theorem append (hps : d.Returns s ps) (hqs : d.Returns s qs) : d.Returns s (ps ++ qs) := by
  refine ⟨?_, ?_⟩
  · simp [hps.stateAfter, hqs.stateAfter]
  · simp [hps.stateAfter, hps.states, hqs.states]

/-- A line that leaves the state as it was. -/
theorem outside {line : List Char} (h : (d.scanLine s line).stateAfter = s) :
    d.Returns s [.outside line] :=
  ⟨h, congrArg (· :: []) h⟩

/-- Many such lines. -/
theorem map_outside {lines : List (List Char)}
    (h : ∀ line ∈ lines, (d.scanLine s line).stateAfter = s) :
    d.Returns s (lines.map .outside) := by
  induction lines with
  | nil => exact nil
  | cons line lines ih =>
    obtain ⟨hline, hlines⟩ := List.forall_mem_cons.1 h
    exact (outside hline).append (ih hlines)

/-- **A block returns** if its opener opens the construct, the inside returns, and the
closer closes it. -/
theorem enclose {m : Mode} {opener closer : List Char}
    (hopener : (d.scanLine s opener).stateAfter = ⟨m :: s.stack⟩)
    (hbody : d.Returns ⟨m :: s.stack⟩ ps)
    (hcloser : (d.scanLine ⟨m :: s.stack⟩ closer).stateAfter = s) :
    d.Returns s (Placed.enclose m opener ps closer) := by
  have hlines : (Placed.enclose m opener ps closer).map Placed.line
      = opener :: (ps.map Placed.line ++ [closer]) := by
    rw [Placed.enclose, List.map_cons, List.map_append, Placed.map_line_within]
    rfl
  refine ⟨?_, ?_⟩
  · rw [hlines, stateAfter_cons, hopener, stateAfter_append, hbody.stateAfter]
    exact hcloser
  · rw [hlines, scanLines, List.map_cons, hopener, scanLines_append, hbody.stateAfter,
      List.map_append, hbody.states]
    show _ :: (_ ++ [(d.scanLine ⟨m :: s.stack⟩ closer).stateAfter]) = _
    rw [hcloser, Placed.enclose, List.map_cons, List.map_append, List.map_map]
    refine congrArg (_ :: ·) (congrArg (· ++ _) (List.map_congr_left fun p _ => ?_))
    exact congrArg ScanState.mk (List.append_assoc p.inside [m] s.stack).symm

end Returns

end Dialect

open Dialect in
/-- **Well-nested sequence diagrams**, with what is open behind each line. -/
inductive Blocks : List Placed → Prop
  | nil : Blocks []
  | append {ps qs : List Placed} (hps : Blocks ps) (hqs : Blocks qs) : Blocks (ps ++ qs)
  | message {indent a arrow b : List Char} (hindent : Blank indent) (ha : sequence.IsName a)
    (harrow : arrow ∈ sequence.arrowTexts) (hb : sequence.IsName b) (text : List Char) :
    Blocks [.outside (indent ++ messageLine a arrow b text)]
  | branch {indent label : List Char} (hindent : Blank indent) (hlabel : IsLabel label) :
    Blocks [.outside (indent ++ ("else".toList ++ label))]
  | group {indent indent' word label : List Char} {ps : List Placed} (hindent : Blank indent)
    (hword : word ∈ groupWords) (hlabel : IsLabel label) (hps : Blocks ps)
    (hindent' : Blank indent') :
    Blocks (Placed.enclose .group (indent ++ (word ++ label)) ps (indent' ++ "end".toList))
  | box {indent indent' : List Char} {ps : List Placed} (hindent : Blank indent)
    (hps : Blocks ps) (hindent' : Blank indent') :
    Blocks (Placed.enclose .box (indent ++ "box".toList) ps (indent' ++ "end box".toList))
  /-- The lines of a note are arbitrary, except that none may end the note. -/
  | note {indent indent' a : List Char} {body : List (List Char)} (hindent : Blank indent)
    (ha : sequence.IsName a)
    (hbody : ∀ line ∈ body, ¬ sequence.NoteEndsAt (line.dropWhile isBlank))
    (hindent' : Blank indent') :
    Blocks (Placed.enclose .note (indent ++ ("note over".toList ++ ' ' :: a))
      (body.map .outside) (indent' ++ "end note".toList))
  | comment {indent text : List Char} (hindent : Blank indent)
    (htext : EndsIn sequence.blockClose text) :
    Blocks [.outside (indent ++ (sequence.blockOpen ++ text))]
  /-- A comment of several lines ends with the first closing marker, on its last line. -/
  | longComment {indent text closer : List Char} {body : List (List Char)}
    (hindent : Blank indent) (htext : ¬ sequence.blockClose <:+: text)
    (hbody : ∀ line ∈ body, ¬ sequence.blockClose <:+: line)
    (hcloser : EndsIn sequence.blockClose closer) :
    Blocks (Placed.enclose .blockComment (indent ++ (sequence.blockOpen ++ text))
      (body.map .outside) closer)

namespace Dialect

/-- Every well-nested document returns, inside whatever boxes and groups it stands. -/
theorem returns_of_blocks {ps : List Placed} (h : Blocks ps) {s : ScanState}
    (hs : Nest s.stack) : sequence.Returns s ps := by
  induction h generalizing s with
  | nil => exact .nil
  | append _ _ ihps ihqs => exact (ihps hs).append (ihqs hs)
  | message hindent ha harrow hb text =>
    exact .outside ((stateAfter_scanLine _ s hindent (ha.flush.append _)).trans
      (readAs_message hs ha harrow hb text).state)
  | branch hindent hlabel =>
    exact .outside ((stateAfter_scanLine _ s hindent ⟨'e', rfl, rfl⟩).trans
      (endState_branch hs hlabel))
  | @group _ _ word label _ hindent hword hlabel _ hindent' ih =>
    have hflush := (flush_groupWord word hword).append label
    exact .enclose
      ((stateAfter_scanLine _ s hindent hflush).trans (endState_groupOpener hs hword hlabel))
      (ih (hs.cons (Or.inr rfl)))
      ((stateAfter_scanLine _ _ hindent' ⟨'e', rfl, rfl⟩).trans (endState_groupCloser hs))
  | box hindent _ hindent' ih =>
    exact .enclose
      ((stateAfter_scanLine _ s hindent ⟨'b', rfl, rfl⟩).trans (endState_boxOpener hs))
      (ih (hs.cons (Or.inl rfl)))
      ((stateAfter_scanLine _ _ hindent' ⟨'e', rfl, rfl⟩).trans (endState_boxCloser hs))
  | note hindent ha hbody hindent' =>
    exact .enclose
      ((stateAfter_scanLine _ s hindent ⟨'n', rfl, rfl⟩).trans (endState_noteOpener hs ha))
      (.map_outside fun line hline =>
        (scanRest_of_noteBody sequence _ _ rfl rfl fun _ => hbody line hline).2)
      ((stateAfter_scanLine _ _ hindent' ⟨'e', rfl, rfl⟩).trans (endState_noteCloser s.stack))
  | comment hindent htext =>
    exact .outside ((stateAfter_scanLine _ s hindent ⟨'/', rfl, rfl⟩).trans
      (endState_comment hs htext))
  | longComment hindent htext hbody hcloser =>
    exact .enclose
      ((stateAfter_scanLine _ s hindent ⟨'/', rfl, rfl⟩).trans (endState_commentOpener hs htext))
      (.map_outside fun line hline => congrArg Entry.stateAfter
        (entry_of_literal .comment (by decide) (hbody line hline) s.stack))
      (endState_commentCloser s.stack (any_head?_dropWhile _)
        (hcloser.dropWhile ⟨'\'', rfl, rfl⟩))

/-- **Well-nested sequence diagrams return to where they started.** Inside any boxes
and groups, a document of complete blocks ends in the state it began with, and behind
each of its lines just those constructs are open in addition that the document has open
there itself. -/
theorem scanLines_of_blocks {ps : List Placed} (h : Blocks ps) {s : ScanState}
    (hs : Nest s.stack) :
    sequence.stateAfter s (ps.map Placed.line) = s
    ∧ (sequence.scanLines s (ps.map Placed.line)).map ScannedLine.stateAfter
      = ps.map fun p => ⟨p.inside ++ s.stack⟩ :=
  ⟨(returns_of_blocks h hs).stateAfter, (returns_of_blocks h hs).states⟩

/-- A box with a group, a note and a comment in it, all of them full of words that are
markers elsewhere. -/
def boxedDiagram : List Placed :=
  [ ⟨"box".toList, [.box]⟩,
    ⟨"  alt /' \"late\"? : end".toList, [.group, .box]⟩,
    ⟨"    ref -> Alice_2 :\"end note".toList, [.group, .box]⟩,
    ⟨"  else".toList, [.group, .box]⟩,
    ⟨"    note over Bob".toList, [.note, .group, .box]⟩,
    ⟨"      end box".toList, [.note, .group, .box]⟩,
    ⟨"      an end note /'".toList, [.note, .group, .box]⟩,
    ⟨"    end note".toList, [.group, .box]⟩,
    ⟨"  end".toList, [.box]⟩,
    ⟨"  /' end".toList, [.blockComment, .box]⟩,
    ⟨"end box".toList, [.blockComment, .box]⟩,
    ⟨"  \" '/".toList, [.box]⟩,
    ⟨"end box".toList, []⟩ ]

/-- The document is well-nested. -/
theorem blocks_boxedDiagram : Blocks boxedDiagram := by
  have message : Blocks [.outside "    ref -> Alice_2 :\"end note".toList] :=
    @Blocks.message "    ".toList "ref".toList "->".toList "Alice_2".toList (by decide)
      (by decide +kernel) (by decide +kernel) (by decide +kernel) "\"end note".toList
  have branch : Blocks [.outside "  else".toList] :=
    @Blocks.branch "  ".toList [] (by decide) (.inl rfl)
  have note : Blocks
      (Placed.enclose .note "    note over Bob".toList
        (["      end box".toList, "      an end note /'".toList].map .outside)
        "    end note".toList) :=
    @Blocks.note "    ".toList "    ".toList "Bob".toList _ (by decide) (by decide +kernel)
      (by decide +kernel) (by decide)
  have group : Blocks (Placed.enclose .group "  alt /' \"late\"? : end".toList _ "  end".toList) :=
    @Blocks.group "  ".toList "  ".toList "alt".toList " /' \"late\"? : end".toList _ (by decide)
      (by decide) (.inr ⟨_, rfl⟩) (message.append (branch.append note)) (by decide)
  have comment : Blocks
      (Placed.enclose .blockComment "  /' end".toList (["end box".toList].map .outside)
        "  \" '/".toList) :=
    @Blocks.longComment "  ".toList " end".toList "  \" '/".toList _ (by decide)
      ((past?_eq_none_iff (by decide)).1 (by decide))
      (List.forall_mem_singleton.2 ((past?_eq_none_iff (by decide)).1 (by decide)))
      ((endsIn_iff (by decide)).2 (by decide))
  exact @Blocks.box [] [] _ (by decide) (group.append comment) (by decide)

/-- Inside a group the document returns to the group. -/
theorem scanLines_of_blocks_of_boxedDiagram :
    sequence.stateAfter ⟨[.group]⟩ (boxedDiagram.map Placed.line) = ⟨[.group]⟩
    ∧ (sequence.scanLines ⟨[.group]⟩ (boxedDiagram.map Placed.line)).map ScannedLine.stateAfter
      = boxedDiagram.map fun p => ⟨p.inside ++ [.group]⟩ :=
  scanLines_of_blocks blocks_boxedDiagram (List.forall_mem_singleton.2 (.inr rfl))

end Dialect

end UmlMarkup
