import Mathlib.Data.Bool.AllAny
import ConAnalysis.Scripts.Boundary
import ConAnalysis.Scripts.Records

/-! The lines of a Helgrind log. Behind the number of the process, no line is
accepted by two of the expressions that the branches of `valgrindOutputParser.py`
test. -/
namespace ConAnalysis.Scripts.Valgrind
open Regex

def tagged (rest : List Regex) : Regex :=
  seqs (literal "==".toList :: .many Char.isDigit :: literal "==".toList :: rest)

def regWriteStart : Regex := tagged
  [.char (· == ' '), .group 1 (.alt (literal "Possible data race during write".toList)
    (literal "This conflicts with a previous write".toList)), .many isDot, .endOfLine]

def regReadStart : Regex := tagged
  [.char (· == ' '), .group 1 (.alt (literal "Possible data race during read".toList)
    (literal "This conflicts with a previous read".toList)), .many isDot, .endOfLine]

def regBlockStart : Regex := tagged
  [.char (· == ' '), .char (· == '-'), .many (· == '-'), .endOfLine]

def regLineBreak : Regex := tagged [.many isBlank, .endOfLine]

def regReadEnd : Regex := tagged [literal "  Address".toList, .many isDot, .endOfLine]

def checkBlockIntegrity : Nat → List Text → Nat := lastBlockEnd regLineBreak

inductive Kind where
  | blockStart | readStart | writeStart | readEnd
  | callStackLine (captures : Captures)
  | lineBreak | other

/-- The kind of a line, in the order of the branches. -/
def kind (line : Text) : Kind :=
  if regBlockStart.accepts line then .blockStart
  else if regReadStart.accepts line then .readStart
  else if regWriteStart.accepts line then .writeStart
  else if regReadEnd.accepts line then .readEnd
  else match regCallStackLine.find? line with
    | some captures => .callStackLine captures
    | none => if regLineBreak.accepts line then .lineBreak else .other

def behindTag (line : Text) : Text := ((line.drop 2).dropWhile Char.isDigit).drop 2

section Words
variable {line text left : Text} {before after : Captures}

/-- The tag that starts every line of valgrind is taken as it stands. -/
theorem mem_ways_equals : (left, after) ∈ (literal "==".toList).ways text before ↔
    text = '=' :: '=' :: left ∧ after = before := mem_ways_literal

/-- Behind the process number and its marks the text of the line begins. -/
theorem behindTag_append {digits : Text} (hDigits : ∀ c ∈ digits, c.isDigit = true) :
    behindTag ('=' :: '=' :: (digits ++ '=' :: '=' :: text)) = text := by
  rw [behindTag, List.drop_succ_cons, List.drop_succ_cons, List.drop_zero,
    List.dropWhile_append_of_pos hDigits]
  rfl

/-- An accepted line is accepted behind the number by the rest of the expression. -/
theorem mem_ways_of_tagged {r : Regex} {rs : List Regex}
    (h : (left, after) ∈ (tagged (r :: rs)).ways line []) :
    (left, after) ∈ (seqs (r :: rs)).ways (behindTag line) [] := by
  obtain ⟨_, _, h1, h⟩ := mem_ways_seq.mp h
  obtain ⟨rfl, rfl⟩ := mem_ways_equals.mp h1
  obtain ⟨_, _, h2, h⟩ := mem_ways_seq.mp h
  obtain ⟨digits, rfl, hDigits, rfl⟩ := mem_ways_many.mp h2
  obtain ⟨_, _, h3, h⟩ := mem_ways_seq.mp h
  obtain ⟨rfl, rfl⟩ := mem_ways_equals.mp h3
  rwa [behindTag_append hDigits]

def blockStartWords : List Text := [['-']]

def readStartWords : List Text :=
  ["Possible data race during read".toList, "This conflicts with a previous read".toList]

def writeStartWords : List Text :=
  ["Possible data race during write".toList, "This conflicts with a previous write".toList]

def readEndWords : List Text := ["Address".toList]

def callStackLineWords : List Text := ["at".toList, "by".toList]

/-- The headers of the accesses. -/
theorem begins_of_access {c d : Char} {word word' : Text} {r : Regex} (hc : isBlank c = false)
    (hd : isBlank d = false)
    (h : Accepted (tagged [.char (· == ' '), .group 1 (.alt (literal (c :: word)) (literal (d :: word'))),
      r, .endOfLine]) line) :
    Begins [c :: word, d :: word'] (behindTag line) := by
  obtain ⟨left, after, hWays⟩ := exists_mem_ways_of_accepts h
  obtain ⟨_, _, h1, hWays⟩ := mem_ways_seq.mp (mem_ways_of_tagged hWays)
  obtain ⟨hText, rfl⟩ := mem_ways_char_beq.mp h1
  obtain ⟨middle, _, h2, -⟩ := mem_ways_seq.mp hWays
  obtain ⟨⟨x, rfl, hx⟩, -⟩ := sound_of_mem_ways h2
  rw [hText]
  rcases hx with hx | hx
  · rw [literal_cons_lang.mp hx]
    exact begins_of_word [' '] _ (List.forall_mem_singleton.mpr rfl) (by simp) ⟨c, word, rfl, hc⟩
  · rw [literal_cons_lang.mp hx]
    exact begins_of_word [' '] _ (List.forall_mem_singleton.mpr rfl) (by simp) ⟨d, word', rfl, hd⟩

/-- From here on the tests are told apart behind the tag. -/
theorem begins_of_readStart (h : Accepted regReadStart line) :
    Begins readStartWords (behindTag line) := begins_of_access (by decide) (by decide) h

theorem begins_of_writeStart (h : Accepted regWriteStart line) :
    Begins writeStartWords (behindTag line) := begins_of_access (by decide) (by decide) h

theorem begins_of_blockStart (h : Accepted regBlockStart line) :
    Begins blockStartWords (behindTag line) := by
  obtain ⟨left, after, hWays⟩ := exists_mem_ways_of_accepts h
  obtain ⟨_, _, h1, hWays⟩ := mem_ways_seq.mp (mem_ways_of_tagged hWays)
  obtain ⟨hText, rfl⟩ := mem_ways_char_beq.mp h1
  obtain ⟨_, _, h2, -⟩ := mem_ways_seq.mp hWays
  obtain ⟨rfl, rfl⟩ := mem_ways_char_beq.mp h2
  rw [hText]
  exact begins_of_word [' '] ['-'] (List.forall_mem_singleton.mpr rfl) (by decide) ⟨'-', [], rfl, by decide⟩

/-- The line that tells of the address ends a read section. -/
theorem begins_of_readEnd (h : Accepted regReadEnd line) :
    Begins readEndWords (behindTag line) := by
  obtain ⟨left, after, hWays⟩ := exists_mem_ways_of_accepts h
  obtain ⟨_, _, h1, -⟩ := mem_ways_seq.mp (mem_ways_of_tagged hWays)
  obtain ⟨hText, -⟩ := mem_ways_literal.mp h1
  rw [hText]
  exact begins_of_word "  ".toList "Address".toList (List.all_iff_forall_prop.mp (by decide)) (by decide)
    ⟨'A', "ddress".toList, rfl, by decide⟩

/-- A frame begins with `at` or `by` behind the tag. -/
theorem begins_of_callStackLine (h : regCallStackLine.accepts line = true) :
    Begins callStackLineWords (behindTag line) := by
  obtain ⟨left, after, hWays⟩ := exists_mem_ways_of_accepts h
  obtain ⟨_, _, h1, hWays⟩ := mem_ways_seq.mp (mem_ways_of_tagged hWays)
  obtain ⟨blanks, hText, hBlanks, rfl⟩ := mem_ways_many.mp h1
  obtain ⟨_, _, h2, -⟩ := mem_ways_seq.mp hWays
  obtain ⟨⟨x, rfl, hx⟩, -⟩ := sound_of_mem_ways h2
  rw [hText]
  rcases hx with hx | hx
  · rw [literal_cons_lang.mp hx]
    exact begins_of_word blanks "at".toList hBlanks (by decide) ⟨'a', ['t'], rfl, by decide⟩
  · rw [literal_cons_lang.mp hx]
    exact begins_of_word blanks "by".toList hBlanks (by decide) ⟨'b', ['y'], rfl, by decide⟩

theorem not_begins_of_lineBreak {words : List Text} (hWords : [] ∉ words)
    (h : Accepted regLineBreak line) : ¬Begins words (behindTag line) := by
  rintro ⟨w, hw, hPrefix⟩
  obtain ⟨left, after, hWays⟩ := exists_mem_ways_of_accepts h
  have hNil : (behindTag line).dropWhile isBlank = [] :=
    List.dropWhile_eq_nil_iff.mpr
      (all_of_mem_ways_many_endOfLine (by decide) (mem_ways_of_tagged hWays))
  rw [hNil, List.prefix_nil] at hPrefix
  exact hWords (hPrefix ▸ hw)

end Words

section Exclusive
variable {line : Text}

def Kind.Of (line : Text) : Kind → Prop
  | .blockStart => Accepted regBlockStart line
  | .readStart => Accepted regReadStart line
  | .writeStart => Accepted regWriteStart line
  | .readEnd => Accepted regReadEnd line
  | .callStackLine captures => regCallStackLine.find? line = some captures
  | .lineBreak => Accepted regLineBreak line
  | .other => True

/-- Whatever branch is taken for a line, its expression accepts the line. -/
theorem kind_of (line : Text) : (kind line).Of line := by
  unfold kind
  split
  · assumption
  · split
    · assumption
    · split
      · assumption
      · split
        · assumption
        · split
          · assumption
          · split
            · assumption
            · trivial

/-- A line of a given kind is accepted by the expression of that kind. -/
theorem of_kind_eq {k : Kind} (h : kind line = k) : k.Of line := h ▸ kind_of line

/-- No line passes two of the tests, so the order in which the source makes them does not
matter. -/
theorem blockStart_iff : Accepted regBlockStart line ↔ kind line = .blockStart := by
  constructor
  · intro h
    rw [kind, if_pos h]
  · exact fun h => of_kind_eq h

theorem readStart_iff : Accepted regReadStart line ↔ kind line = .readStart := by
  constructor
  · intro h
    have hBegins := begins_of_readStart h
    rw [kind, if_neg fun h => (begins_of_blockStart h).not_begins (by decide) hBegins, if_pos h]
  · exact fun h => of_kind_eq h

theorem writeStart_iff : Accepted regWriteStart line ↔ kind line = .writeStart := by
  constructor
  · intro h
    have hBegins := begins_of_writeStart h
    rw [kind, if_neg fun h => (begins_of_blockStart h).not_begins (by decide) hBegins,
      if_neg fun h => (begins_of_readStart h).not_begins (by decide) hBegins, if_pos h]
  · exact fun h => of_kind_eq h

theorem readEnd_iff : Accepted regReadEnd line ↔ kind line = .readEnd := by
  constructor
  · intro h
    have hBegins := begins_of_readEnd h
    rw [kind, if_neg fun h => (begins_of_blockStart h).not_begins (by decide) hBegins,
      if_neg fun h => (begins_of_readStart h).not_begins (by decide) hBegins,
      if_neg fun h => (begins_of_writeStart h).not_begins (by decide) hBegins, if_pos h]
  · exact fun h => of_kind_eq h

/-- The branches behind the end of a read. -/
theorem kind_of_not_begins (h : ∀ words ∈ [blockStartWords, readStartWords, writeStartWords,
    readEndWords], ¬Begins words (behindTag line)) :
    kind line = match regCallStackLine.find? line with
      | some captures => .callStackLine captures
      | none => if regLineBreak.accepts line then .lineBreak else .other := by
  rw [kind, if_neg fun hAccepts => h blockStartWords (by simp) (begins_of_blockStart hAccepts),
    if_neg fun hAccepts => h readStartWords (by simp) (begins_of_readStart hAccepts),
    if_neg fun hAccepts => h writeStartWords (by simp) (begins_of_writeStart hAccepts),
    if_neg fun hAccepts => h readEndWords (by simp) (begins_of_readEnd hAccepts)]

/-- For a frame the captures are part of the kind. -/
theorem callStackLine_iff {captures : Captures} :
    regCallStackLine.find? line = some captures ↔ kind line = .callStackLine captures := by
  constructor
  · intro h
    have hBegins := begins_of_callStackLine (Option.isSome_iff_exists.mpr ⟨captures, h⟩)
    rw [kind_of_not_begins, h]
    intro words hWords
    refine hBegins.not_begins ?_
    revert words
    decide
  · exact fun h => of_kind_eq h

theorem find?_eq_none (h : ∀ captures, kind line ≠ .callStackLine captures) :
    regCallStackLine.find? line = none :=
  Option.eq_none_iff_forall_ne_some.mpr fun captures hFind => h captures (callStackLine_iff.mp hFind)

theorem lineBreak_iff : Accepted regLineBreak line ↔ kind line = .lineBreak := by
  constructor
  · intro h
    have hFind : regCallStackLine.find? line = none := by
      by_contra hSome
      exact not_begins_of_lineBreak (by decide) h
        (begins_of_callStackLine (Option.isSome_iff_ne_none.mpr hSome))
    rw [kind_of_not_begins, hFind]
    · exact if_pos h
    · intro words hWords
      refine not_begins_of_lineBreak ?_ h
      revert words
      decide
  · exact fun h => of_kind_eq h

end Exclusive
end ConAnalysis.Scripts.Valgrind
