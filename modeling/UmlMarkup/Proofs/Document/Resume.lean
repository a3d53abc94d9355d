import UmlMarkup.Dialect.Builtin
import UmlMarkup.Proofs.Scan.Threading
import UmlMarkup.Proofs.Text.Lines

/-!
# Resuming the scan of a text

The scan of a text may be cut behind any line feed. What stands behind the cut is
scanned like a text of its own, only from the state that the text before it leaves
(`scanText_resumes`). An editor that keeps the state beside each line relies on it, and
so does the cache: the state in which it starts a line is the state that the lines
before leave, and what it reports as open at the end is the last of these states.

Two things have to agree at the cut. One is the splitting into lines (`lines_append`).
The other is the state, which is all that a line learns of those before it
(`scanLines_append`).
-/

namespace UmlMarkup

/-- Something is open in every state but the initial one. -/
theorem ScanState.isNormal_eq_false_iff {s : ScanState} : s.isNormal = false ↔ s ≠ .initial := by
  obtain ⟨stack⟩ := s
  cases stack with
  | nil => exact iff_of_false (fun h => nomatch h) fun h => h rfl
  | cons m below => exact iff_of_true rfl fun h => nomatch h

/-- The state behind scanned lines, the first of which started in `state`. -/
def ScannedLine.lastState (state : ScanState) (ls : List ScannedLine) : ScanState :=
  (ls.getLast?.map ScannedLine.stateAfter).getD state

namespace Dialect

/-- The last line leaves the state that all lines leave. -/
@[simp] theorem lastState_scanLines (d : Dialect) (state : ScanState) (lines : List (List Char)) :
    ScannedLine.lastState state (d.scanLines state lines) = d.stateAfter state lines := by
  rcases List.eq_nil_or_concat' lines with rfl | ⟨front, line, rfl⟩
  · rfl
  · simp [ScannedLine.lastState]

end Dialect

namespace Document

/-- What a document reports as open at its end is the state that its lines leave, if that
is not the initial one. -/
theorem unterminated?_ofLines_eq_some_iff {d : Dialect} {lines : List (List Char)}
    {state : ScanState} :
    (ofLines d lines).unterminated? = some state
      ↔ state = d.stateAfter .initial lines ∧ state ≠ .initial := by
  rcases List.eq_nil_or_concat' lines with rfl | ⟨front, line, rfl⟩
  · exact iff_of_false (fun h => nomatch h) fun h => h.2 h.1
  · have hlast : (ofLines d (front ++ [line])).entries.getLast?.map Entry.stateAfter
        = some (d.stateAfter .initial (front ++ [line])) := by
      simp [ofLines, ScannedLine.entry]
    rw [unterminated?, hlast, Option.filter_eq_some_iff, Option.some.injEq, eq_comm,
      Bool.not_eq_true', ScanState.isNormal_eq_false_iff]

/-- **The scan of a text resumes behind any line feed**, in the state that the text before
it leaves. A document keeps the entries of that scan, starts each line in the state that
the lines before it leave, and reports the last of these states as open unless it is the
initial one. -/
theorem scanText_resumes (d : Dialect) {before : List Char}
    (hend : before = [] ∨ before.getLast? = some '\n') (rest : List Char) :
    d.scanText (before ++ rest)
        = d.scanText before
          ++ d.scanLines (ScannedLine.lastState .initial (d.scanText before)) (lines rest)
      ∧ ∀ text,
        (∀ rows, Splits text rows ↔ lines text = rows)
        ∧ (ofText d text).entries = (d.scanText text).map ScannedLine.entry
        ∧ (∀ i ≤ (lines text).length,
          (ofText d text).stateBefore i = d.stateAfter .initial ((lines text).take i))
        ∧ ∀ state, (ofText d text).unterminated? = some state
          ↔ state = (ofText d text).stateBefore (lines text).length ∧ state ≠ .initial := by
  refine ⟨?_, fun text => ⟨fun rows => splits_iff, d.entriesFrom_eq _ _,
    fun i hi => stateBefore_ofLines d hi,
    fun state => ?_⟩⟩
  · simp [Dialect.scanText, lines_append hend, d.lastState_scanLines]
  · rw [ofText, stateBefore_ofLines d (Nat.le_refl _), List.take_length]
    exact unterminated?_ofLines_eq_some_iff

/-- A text cut behind a carriage return and a line feed, with a group open at the cut and an
empty line behind it. The comment in its last line stays open. -/
theorem scanText_resumes_of_group :
    ("alt x\r\n".toList = [] ∨ "alt x\r\n".toList.getLast? = some '\n')
    ∧ Dialect.sequence.scanText "alt x\r\n\n /' c\r".toList
      = Dialect.sequence.scanText "alt x\r\n".toList
        ++ Dialect.sequence.scanLines (.ofFrames [.group]) [[], " /' c\r".toList]
    ∧ (ofText .sequence "alt x\r\n\n /' c\r".toList).stateBefore 2 = .ofFrames [.group]
    ∧ (ofText .sequence "alt x\r\n\n /' c\r".toList).unterminated?
      = some (.ofFrames [.group, .blockComment]) := by
  have hend : "alt x\r\n".toList = [] ∨ "alt x\r\n".toList.getLast? = some '\n' :=
    Or.inr (by decide +kernel)
  obtain ⟨hscan, hdocument⟩ := scanText_resumes .sequence hend "\n /' c\r".toList
  obtain ⟨-, -, hbefore, hopen⟩ := hdocument "alt x\r\n\n /' c\r".toList
  exact ⟨hend, hscan.trans (by decide +kernel),
    (hbefore 2 (by decide +kernel)).trans (by decide +kernel),
    (hopen _).2 ⟨by decide +kernel, by decide⟩⟩

end Document

end UmlMarkup
