import ConAnalysis.Library.Regex
import Mathlib.Data.List.TakeWhile

/-! The call stack lines of race reports and the records that the scripts
`tsanOutputParser.py` and `valgrindOutputParser.py` write for them, and what
the lines of a log start with, which tells their kinds apart. -/
namespace ConAnalysis.Scripts
open Regex

/-- The class `\s`. -/
def isBlank (c : Char) : Bool := " \t\n\r\x0c\x0b".toList.contains c

/-- The class `.`. -/
def isDot (c : Char) : Bool := c != '\n'

/-- One of the letters, the digits and some further characters. -/
def wordOr (others : String) (c : Char) : Bool := c.isAlphanum || others.toList.contains c

def colonDigits : Regex := seqs [.char (· == ':'), .many Char.isDigit]

namespace Posix

/-- One round of the loop in `posixpath.normpath`. -/
def pushComponent (absolute : Bool) (newComps : List Text) (comp : Text) : List Text :=
  if comp = [] ∨ comp = ['.'] then newComps
  else if comp ≠ ['.', '.'] ∨ (absolute = false ∧ newComps = []) ∨
      newComps.getLast? = some ['.', '.'] then newComps ++ [comp]
  else newComps.dropLast

/-- How many slashes the path keeps in front: POSIX allows one or two, more are
one. -/
def initialSlashes : Text → Nat
  | '/' :: '/' :: '/' :: _ => 1
  | '/' :: '/' :: _ => 2
  | '/' :: _ => 1
  | _ => 0

/-- `os.path.normpath`. -/
def normpath (path : Text) : Text :=
  if path = [] then ['.']
  else
    let comps := (path.splitOn '/').foldl (pushComponent (initialSlashes path != 0)) []
    match List.replicate (initialSlashes path) '/' ++ ['/'].intercalate comps with
    | [] => ['.']
    | c :: path => c :: path

/-- `os.path.basename`. -/
def basename (path : Text) : Text := (path.reverse.takeWhile (· != '/')).reverse

end Posix

namespace Tsan

/-- `regCallStackLine` of `tsanOutputParser.py`. -/
def regCallStackLine : Regex := seqs
  [.many isBlank, .char (· == '#'), .many Char.isDigit, .char (· == ' '),
    .group 1 (.many (wordOr "_:~")), .opt (.group 2 (.many (wordOr "*, _&()"))),
    .char (· == ' '), .group 3 (.many (wordOr "_~./-")), .group 4 colonDigits,
    .opt (.group 5 colonDigits), .char (· == ' '), .many isDot]

def record (callStackLine : Captures) : Option Text := do
  let name ← callStackLine.lookup 1
  let path ← callStackLine.lookup 3
  let line ← callStackLine.lookup 4
  let fileName := Posix.basename (Posix.normpath path)
  return name ++ " ".toList ++ "(".toList ++ fileName ++ line ++ ")\n".toList

end Tsan

namespace Valgrind

/-- `regCallStackLine` of `valgrindOutputParser.py`. -/
def regCallStackLine : Regex := seqs
  [literal "==".toList, .many Char.isDigit, literal "==".toList, .many isBlank,
    .group 1 (.alt (literal "at".toList) (literal "by".toList)), .char (· == ' '),
    .many fun c => c.isDigit || ('A' ≤ c && c ≤ 'F') || c == 'x', literal ": ".toList,
    .group 2 (.many (wordOr "_:~<> ()*,&")),
    .opt (.group 3 (seqs [.char (· == '('), .many (wordOr "*_, ()&"), .char (· == ')')])),
    .char (· == ' '),
    .group 4 (seqs [.char (· == '('), .many (wordOr "_."), .char (· == ':'), .many Char.isDigit,
      .char (· == ')')])]

def record (callStackLine : Captures) : Option Text := do
  let name ← callStackLine.lookup 2
  let location ← callStackLine.lookup 4
  return name ++ " ".toList ++ location ++ "\n".toList

end Valgrind

/-- `regBreakpoint` of `trigger.py`. -/
def regBreakpoint : Regex := seqs
  [.many isDot, .char (· == '('), .group 1 (.many (wordOr "_~./-")), .char (· == ':'),
    .group 2 (.many Char.isDigit), .opt (.group 3 colonDigits), .char (· == ')'), .many isDot]

inductive Parser where
  | tsan | valgrind
deriving DecidableEq, Repr

def Parser.regCallStackLine : Parser → Regex
  | .tsan => Tsan.regCallStackLine
  | .valgrind => Valgrind.regCallStackLine

def Parser.record : Parser → Captures → Option Text
  | .tsan => Tsan.record
  | .valgrind => Valgrind.record

/-- The expression accepts the line. -/
abbrev Accepted (r : Regex) (line : Text) : Prop := r.accepts line = true

/-- Behind white space, the line starts with one of the words. -/
def Begins (words : List Text) (line : Text) : Prop := ∃ w ∈ words, w <+: line.dropWhile isBlank

/-- No text can start with a word of both. -/
def Apart (words words' : List Text) : Prop := ∀ w ∈ words, ∀ w' ∈ words', ¬w <+: w' ∧ ¬w' <+: w

instance (words words' : List Text) : Decidable (Apart words words') :=
  inferInstanceAs (Decidable (∀ w ∈ words, ∀ w' ∈ words', ¬w <+: w' ∧ ¬w' <+: w))

/-- A line cannot begin with words of two lists that are apart, whatever blanks stand in front. -/
theorem Begins.not_begins {words words' : List Text} {line : Text} (h : Begins words line)
    (hApart : Apart words words') : ¬Begins words' line := by
  rintro ⟨w', hw', hLine'⟩
  obtain ⟨w, hw, hLine⟩ := h
  rcases List.prefix_or_prefix_of_prefix hLine hLine' with hPrefix | hPrefix
  · exact (hApart w hw w' hw').1 hPrefix
  · exact (hApart w hw w' hw').2 hPrefix

/-- Blanks and a word of the list are such a beginning. -/
theorem begins_of_word {words : List Text} (blanks word : Text) {rest : Text}
    (hBlanks : ∀ c ∈ blanks, isBlank c = true) (hWord : word ∈ words)
    (hFirst : ∃ c tail, word = c :: tail ∧ isBlank c = false) :
    Begins words (blanks ++ (word ++ rest)) := by
  refine ⟨word, hWord, ?_⟩
  obtain ⟨c, tail, rfl, hc⟩ := hFirst
  rw [List.dropWhile_append_of_pos hBlanks, List.cons_append, List.dropWhile_cons,
    if_neg (by simp [hc])]
  exact List.prefix_append _ _

end ConAnalysis.Scripts
