import ConAnalysis.Scripts.Boundary
import ConAnalysis.Scripts.Records

/-! The lines of a thread sanitizer log. No line is accepted by two of the
expressions of `tsanOutputParser.py`, so every line has one kind. -/
namespace ConAnalysis.Scripts
open Regex

namespace Tsan

def regWriteStart : Regex := seqs
  [.many isBlank, .group 1 (.alt (literal "Write".toList) (literal "Previous write".toList)),
    .many isDot]

def regReadStart : Regex := seqs
  [.many isBlank, .group 1 (.alt (literal "Read".toList) (literal "Previous read".toList)),
    .many isDot]

def regBlockStart : Regex := seqs
  [literal "WARNING: ThreadSanitizer: data race".toList, .many isDot, .endOfLine]

def regBlockBreak : Regex := seqs [literal "==================".toList, .many isBlank, .endOfLine]

def regLineBreak : Regex := seqs [.many isBlank, .endOfLine]

def regBlockEnd : Regex := seqs
  [literal "SUMMARY: ThreadSanitizer: data race".toList, .many isDot, .endOfLine]

def checkBlockIntegrity : Nat → List Text → Nat := lastBlockEnd regBlockBreak

inductive Kind where
  | blockStart | writeStart | readStart
  | callStackLine (captures : Captures)
  | lineBreak | blockBreak | blockEnd | other

/-- The kind of a line, in the order of the branches of `runNormalSyncLoop`. -/
def kind (line : Text) : Kind :=
  if regBlockStart.accepts line then .blockStart
  else if regWriteStart.accepts line then .writeStart
  else if regReadStart.accepts line then .readStart
  else match regCallStackLine.find? line with
    | some captures => .callStackLine captures
    | none =>
        if regLineBreak.accepts line then .lineBreak
        else if regBlockBreak.accepts line then .blockBreak
        else if regBlockEnd.accepts line then .blockEnd
        else .other

section Words
variable {line : Text}

def blockStartWords : List Text := ["WARNING: ThreadSanitizer: data race".toList]
def writeStartWords : List Text := ["Write".toList, "Previous write".toList]
def readStartWords : List Text := ["Read".toList, "Previous read".toList]
def callStackLineWords : List Text := [['#']]
def blockBreakWords : List Text := ["==================".toList]
def blockEndWords : List Text := ["SUMMARY: ThreadSanitizer: data race".toList]

/-- An expression that starts with a literal accepts only lines that begin with it. -/
theorem begins_of_literal {c : Char} {word : Text} {r : Regex} (hc : isBlank c = false)
    (h : ((literal (c :: word)).seq r).accepts line = true) : Begins [c :: word] line := by
  obtain ⟨_, rest, rfl, _, z, rfl, hWord, -⟩ := lang_of_accepts h
  rw [literal_cons_lang.mp hWord, List.append_assoc]
  exact begins_of_word [] _ (by simp) List.mem_cons_self ⟨c, word, rfl, hc⟩

/-- The headers of the accesses start, behind blanks, with the word for the access or with that
for a previous one. -/
theorem begins_of_access {c d : Char} {word word' : Text} {r : Regex} (hc : isBlank c = false)
    (hd : isBlank d = false)
    (h : (seqs [.many isBlank, .group 1 (.alt (literal (c :: word)) (literal (d :: word'))),
      r]).accepts line = true) :
    Begins [c :: word, d :: word'] line := by
  obtain ⟨_, rest, rfl, blanks, _, rfl, hBlanks, _, z, rfl, hWord, -⟩ := lang_of_accepts h
  rw [List.append_assoc, List.append_assoc]
  rcases hWord with hWord | hWord
  · rw [literal_cons_lang.mp hWord]
    exact begins_of_word blanks _ hBlanks (by simp) ⟨c, word, rfl, hc⟩
  · rw [literal_cons_lang.mp hWord]
    exact begins_of_word blanks _ hBlanks (by simp) ⟨d, word', rfl, hd⟩

theorem begins_of_blockStart (h : regBlockStart.accepts line = true) :
    Begins blockStartWords line := begins_of_literal (by decide) h

theorem begins_of_writeStart (h : regWriteStart.accepts line = true) :
    Begins writeStartWords line := begins_of_access (by decide) (by decide) h

theorem begins_of_readStart (h : regReadStart.accepts line = true) :
    Begins readStartWords line := begins_of_access (by decide) (by decide) h

/-- A frame begins with `#` behind blanks. -/
theorem begins_of_callStackLine (h : regCallStackLine.accepts line = true) :
    Begins callStackLineWords line := by
  obtain ⟨_, rest, rfl, blanks, _, rfl, hBlanks, _, z, rfl, ⟨c, hc, rfl⟩, -⟩ := lang_of_accepts h
  rw [beq_iff_eq.mp hc, List.append_assoc, List.append_assoc]
  exact begins_of_word blanks _ hBlanks (by simp [callStackLineWords]) ⟨'#', [], rfl, by decide⟩

/-- The line of equals signs stands between two blocks. -/
theorem begins_of_blockBreak (h : regBlockBreak.accepts line = true) :
    Begins blockBreakWords line := begins_of_literal (by decide) h

theorem begins_of_blockEnd (h : regBlockEnd.accepts line = true) :
    Begins blockEndWords line := begins_of_literal (by decide) h

/-- A blank line begins with no word at all. -/
theorem not_begins_of_lineBreak {words : List Text} (hWords : [] ∉ words)
    (h : regLineBreak.accepts line = true) : ¬Begins words line := by
  rintro ⟨w, hw, hPrefix⟩
  obtain ⟨rest, after, hWays⟩ := exists_mem_ways_of_accepts h
  have hNil : line.dropWhile isBlank = [] :=
    List.dropWhile_eq_nil_iff.mpr (all_of_mem_ways_many_endOfLine (by decide) hWays)
  rw [hNil, List.prefix_nil] at hPrefix
  exact hWords (hPrefix ▸ hw)

end Words

section Exclusive
variable {line : Text}

def Kind.Of (line : Text) : Kind → Prop
  | .blockStart => regBlockStart.accepts line = true
  | .writeStart => regWriteStart.accepts line = true
  | .readStart => regReadStart.accepts line = true
  | .callStackLine captures => regCallStackLine.find? line = some captures
  | .lineBreak => regLineBreak.accepts line = true
  | .blockBreak => regBlockBreak.accepts line = true
  | .blockEnd => regBlockEnd.accepts line = true
  | .other => True

/-- Whatever branch is taken for a line, its expression accepts the line. -/
theorem kind_of (line : Text) : (kind line).Of line := by
  unfold kind
  split
  · assumption
  · split
    · assumption
    · split
      · assumption
      · split
        · assumption
        · split
          · assumption
          · split
            · assumption
            · split
              · assumption
              · trivial

/-- A line of a given kind is accepted by the expression of that kind. -/
theorem of_kind_eq {k : Kind} (h : kind line = k) : k.Of line := h ▸ kind_of line

/-- No line passes two of the tests, so the order in which the source makes them does not
matter. One such equivalence follows for each of the expressions. -/
theorem blockStart_iff : regBlockStart.accepts line = true ↔ kind line = .blockStart := by
  constructor
  · intro h
    rw [kind, if_pos h]
  · exact fun h => of_kind_eq h

theorem writeStart_iff : regWriteStart.accepts line = true ↔ kind line = .writeStart := by
  constructor
  · intro h
    have hBegins := begins_of_writeStart h
    rw [kind, if_neg fun h => (begins_of_blockStart h).not_begins (by decide) hBegins, if_pos h]
  · exact fun h => of_kind_eq h

theorem readStart_iff : regReadStart.accepts line = true ↔ kind line = .readStart := by
  constructor
  · intro h
    have hBegins := begins_of_readStart h
    rw [kind, if_neg fun h => (begins_of_blockStart h).not_begins (by decide) hBegins,
      if_neg fun h => (begins_of_writeStart h).not_begins (by decide) hBegins, if_pos h]
  · exact fun h => of_kind_eq h

/-- For a frame the captures are part of the kind. -/
theorem callStackLine_iff {captures : Captures} :
    regCallStackLine.find? line = some captures ↔ kind line = .callStackLine captures := by
  constructor
  · intro h
    have hBegins := begins_of_callStackLine (Option.isSome_iff_exists.mpr ⟨captures, h⟩)
    rw [kind, if_neg fun h => (begins_of_blockStart h).not_begins (by decide) hBegins,
      if_neg fun h => (begins_of_writeStart h).not_begins (by decide) hBegins,
      if_neg fun h => (begins_of_readStart h).not_begins (by decide) hBegins, h]
  · exact fun h => of_kind_eq h

/-- Lines of other kinds are no frames. -/
theorem find?_eq_none (h : ∀ captures, kind line ≠ .callStackLine captures) :
    regCallStackLine.find? line = none :=
  Option.eq_none_iff_forall_ne_some.mpr fun captures hFind => h captures (callStackLine_iff.mp hFind)

/-- The branches behind the call stack lines. -/
theorem kind_of_not_begins (h : ∀ words ∈ [blockStartWords, writeStartWords, readStartWords,
    callStackLineWords], ¬Begins words line) :
    kind line = if regLineBreak.accepts line then .lineBreak
      else if regBlockBreak.accepts line then .blockBreak
      else if regBlockEnd.accepts line then .blockEnd
      else .other := by
  have hFind : regCallStackLine.find? line = none := by
    by_contra hSome
    exact h callStackLineWords (by simp) (begins_of_callStackLine (Option.isSome_iff_ne_none.mpr hSome))
  rw [kind, if_neg fun hAccepts => h blockStartWords (by simp) (begins_of_blockStart hAccepts),
    if_neg fun hAccepts => h writeStartWords (by simp) (begins_of_writeStart hAccepts),
    if_neg fun hAccepts => h readStartWords (by simp) (begins_of_readStart hAccepts), hFind]

/-- The blank line is the one kind that is told apart by what it lacks. -/
theorem lineBreak_iff : regLineBreak.accepts line = true ↔ kind line = .lineBreak := by
  constructor
  · intro h
    rw [kind_of_not_begins, if_pos h]
    intro words hWords
    refine not_begins_of_lineBreak ?_ h
    revert words
    decide
  · exact fun h => of_kind_eq h

theorem blockBreak_iff : regBlockBreak.accepts line = true ↔ kind line = .blockBreak := by
  constructor
  · intro h
    have hBegins := begins_of_blockBreak h
    rw [kind_of_not_begins, if_neg fun h => not_begins_of_lineBreak (by decide) h hBegins, if_pos h]
    intro words hWords
    refine hBegins.not_begins ?_
    revert words
    decide
  · exact fun h => of_kind_eq h

/-- The summary ends a block. -/
theorem blockEnd_iff : regBlockEnd.accepts line = true ↔ kind line = .blockEnd := by
  constructor
  · intro h
    have hBegins := begins_of_blockEnd h
    rw [kind_of_not_begins, if_neg fun h => not_begins_of_lineBreak (by decide) h hBegins,
      if_neg fun h => (begins_of_blockBreak h).not_begins (by decide) hBegins, if_pos h]
    intro words hWords
    refine hBegins.not_begins ?_
    revert words
    decide
  · exact fun h => of_kind_eq h

end Exclusive

end Tsan
end ConAnalysis.Scripts
