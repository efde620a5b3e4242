import Mathlib.Data.Bool.AllAny
import ConAnalysis.Library.Scanf
import ConAnalysis.Scripts.Records

/-! What the consumers of a race report read from the lines that the parsers
write: `parseInput` of both passes and the trigger script. -/
namespace ConAnalysis.Scripts
open Regex Scanf

/-- A record line. The characters are those that the expressions admit. -/
structure Record where
  name : Text
  file : Text
  line : Text
  name_chars : ∀ c ∈ name, wordOr "_:~<> ()*,&" c = true
  file_chars : ∀ c ∈ file, wordOr "_~./-" c = true
  line_chars : ∀ c ∈ line, c.isDigit = true

namespace Record

def location (r : Record) : Text := '(' :: (r.file ++ ':' :: (r.line ++ [')']))

def text (r : Record) : Text := r.name ++ ' ' :: r.location

def lineNum (r : Record) : Option Nat := if r.line = [] then none else some (numeral r.line)

end Record

/-- The format of `parseInput`, which is the same in both passes. -/
def inputFormat : List Directive :=
  [.string, .space, .exactly '(', .scanset fun c => c != ' ' && c != ':', .exactly ':', .unsigned,
    .exactly ')', .space]

/-- The fields that `parseInput` gets from a line. -/
def parseInput (line : Text) : List Field := scan inputFormat line

/-- What `__lldb_init_module` takes from a line. -/
def breakpoint (line : Text) : Option (Option Text × Option Text) :=
  (regBreakpoint.find? line).map fun bp => (bp.lookup 1, bp.lookup 2)

section Characters

theorem ne_of_wordOr {others : String} {c d : Char} (h : wordOr others c = true)
    (hd : wordOr others d = false) : c ≠ d := by
  rintro rfl
  rw [hd] at h
  cases h

/-- A larger class has the characters of a smaller one. -/
theorem wordOr_mono {some more : String} (h : some.toList ⊆ more.toList) {c : Char}
    (hc : wordOr some c = true) : wordOr more c = true := by
  simp only [wordOr, Bool.or_eq_true, List.contains_iff_mem] at hc ⊢
  exact hc.imp_right fun hMem => h hMem

theorem isSpace_eq {c : Char} (h : isSpace c = true) :
    ((((c = ' ' ∨ c = '\t') ∨ c = '\n') ∨ c = '\x0b') ∨ c = '\x0c') ∨ c = '\r' := by
  simpa [isSpace] using h

theorem file_not_space {c : Char} (h : wordOr "_~./-" c = true) : isSpace c = false := by
  by_contra hSpace
  rw [Bool.not_eq_false] at hSpace
  rcases isSpace_eq hSpace with ((((rfl | rfl) | rfl) | rfl) | rfl) | rfl <;> revert h <;> decide

end Characters

theorem colonDigits_lang {x : Text} (h : colonDigits.Lang x) :
    ∃ digits, x = ':' :: digits ∧ ∀ c ∈ digits, c.isDigit = true := by
  obtain ⟨y, digits, rfl, ⟨c, hc, rfl⟩, hDigits⟩ := h
  rw [beq_iff_eq] at hc
  exact ⟨digits, by rw [hc]; rfl, hDigits⟩

namespace Posix

/-- What is joined has its characters from the texts and the marks between them. -/
theorem mem_of_mem_intercalate {sep : Text} {texts : List Text} {c : Char}
    (h : c ∈ sep.intercalate texts) : c ∈ sep ∨ ∃ t ∈ texts, c ∈ t := by
  induction texts with
  | nil => cases h
  | cons t texts ih =>
      cases texts with
      | nil => exact .inr ⟨t, List.mem_cons_self, by simpa using h⟩
      | cons u texts =>
          rw [List.intercalate_cons_cons] at h
          simp only [List.mem_append] at h
          rcases h with (h | h) | h
          · exact .inr ⟨t, List.mem_cons_self, h⟩
          · exact .inl h
          · exact (ih h).imp_right fun ⟨v, hv, hc⟩ => ⟨v, List.mem_cons_of_mem _ hv, hc⟩

theorem mem_intercalate {sep : Text} {texts : List Text} {c : Char} {t : Text} (ht : t ∈ texts)
    (hc : c ∈ t) : c ∈ sep.intercalate texts := by
  induction texts with
  | nil => cases ht
  | cons u texts ih =>
      cases texts with
      | nil =>
          rw [List.mem_singleton] at ht
          subst ht
          simpa using hc
      | cons v texts =>
          rw [List.intercalate_cons_cons]
          simp only [List.mem_append]
          rcases List.mem_cons.mp ht with rfl | ht
          · exact .inl (.inl hc)
          · exact .inr (ih ht)

/-- Making a path plain brings in no new components. -/
theorem mem_pushComponents {absolute : Bool} {comps newComps : List Text} {t : Text}
    (h : t ∈ comps.foldl (pushComponent absolute) newComps) : t ∈ newComps ∨ t ∈ comps := by
  induction comps generalizing newComps with
  | nil => exact .inl h
  | cons comp comps ih =>
      rw [List.foldl_cons] at h
      rcases ih h with h | h
      · unfold pushComponent at h
        split at h
        · exact .inl h
        · split at h
          · rcases List.mem_append.mp h with h | h
            · exact .inl h
            · rw [List.mem_singleton] at h
              exact .inr (h ▸ List.mem_cons_self)
          · exact .inl (List.dropLast_subset _ h)
      · exact .inr (List.mem_cons_of_mem _ h)

/-- No characters appear but slashes and the dot of an empty path. -/
theorem mem_normpath {path : Text} {c : Char} (h : c ∈ normpath path) :
    c ∈ path ∨ c = '/' ∨ c = '.' := by
  unfold normpath at h
  split at h
  · exact .inr (.inr (List.mem_singleton.mp h))
  · simp only at h
    split at h
    · exact .inr (.inr (List.mem_singleton.mp h))
    · next d rest hPath =>
        rw [← hPath, List.mem_append] at h
        rcases h with h | h
        · exact .inr (.inl (List.eq_of_mem_replicate h))
        · rcases mem_of_mem_intercalate h with h | ⟨t, ht, hc⟩
          · exact .inr (.inl (List.mem_singleton.mp h))
          · rcases mem_pushComponents ht with ht | ht
            · cases ht
            · left
              have hPath : ['/'].intercalate (path.splitOn '/') = path :=
                List.intercalate_splitOn '/'
              rw [← hPath]
              exact mem_intercalate ht hc

/-- Taking the last component brings in no new characters. -/
theorem mem_basename {path : Text} {c : Char} (h : c ∈ basename path) : c ∈ path := by
  rw [basename, List.mem_reverse] at h
  exact List.mem_reverse.mp (List.takeWhile_subset _ h)

end Posix

section Written
variable {line : Text} {captures : Captures}

/-- The record of a call stack line of the thread sanitizer. -/
theorem Tsan.record_eq_text (h : Tsan.regCallStackLine.find? line = some captures) :
    ∃ r : Record, Tsan.record captures = some (r.text ++ ['\n']) := by
  obtain ⟨name, hName⟩ := lookup_of_find? h (n := 1) (by decide)
  obtain ⟨path, hPath⟩ := lookup_of_find? h (n := 3) (by decide)
  obtain ⟨position, hPosition⟩ := lookup_of_find? h (n := 4) (by decide)
  have hGroups : Tsan.regCallStackLine.groups =
      [(1, .many (wordOr "_:~")), (2, .many (wordOr "*, _&()")), (3, .many (wordOr "_~./-")),
        (4, colonDigits), (5, colonDigits)] := rfl
  obtain ⟨a, ha, hNameLang⟩ := lang_of_find? h hName
  obtain ⟨b, hb, hPathLang⟩ := lang_of_find? h hPath
  obtain ⟨c, hc, hLineLang⟩ := lang_of_find? h hPosition
  simp only [hGroups, List.mem_cons, Prod.mk.injEq, List.not_mem_nil, or_false] at ha hb hc
  obtain rfl : a = .many (wordOr "_:~") := by simpa using ha
  obtain rfl : b = .many (wordOr "_~./-") := by simpa using hb
  obtain rfl : c = colonDigits := by simpa using hc
  obtain ⟨digits, rfl, hDigits⟩ := colonDigits_lang hLineLang
  refine ⟨⟨name, Posix.basename (Posix.normpath path), digits, ?_, ?_, hDigits⟩, ?_⟩
  · intro d hd
    exact wordOr_mono (by decide) (hNameLang d hd)
  · intro d hd
    rcases Posix.mem_normpath (Posix.mem_basename hd) with hd | rfl | rfl
    · exact hPathLang d hd
    · rfl
    · rfl
  · rw [Tsan.record, hName, hPath, hPosition]
    simp [Record.text, Record.location]

/-- The record of a call stack line of valgrind. -/
theorem Valgrind.record_eq_text (h : Valgrind.regCallStackLine.find? line = some captures) :
    ∃ r : Record, Valgrind.record captures = some (r.text ++ ['\n']) := by
  obtain ⟨name, hName⟩ := lookup_of_find? h (n := 2) (by decide)
  obtain ⟨location, hLocation⟩ := lookup_of_find? h (n := 4) (by decide)
  obtain ⟨a, ha, hNameLang⟩ := lang_of_find? h hName
  obtain ⟨b, hb, hLocationLang⟩ := lang_of_find? h hLocation
  have hGroups : Valgrind.regCallStackLine.groups =
      [(1, .alt (literal "at".toList) (literal "by".toList)),
        (2, .many (wordOr "_:~<> ()*,&")),
        (3, seqs [.char (· == '('), .many (wordOr "*_, ()&"), .char (· == ')')]),
        (4, seqs [.char (· == '('), .many (wordOr "_."), .char (· == ':'), .many Char.isDigit,
          .char (· == ')')])] := rfl
  simp only [hGroups, List.mem_cons, Prod.mk.injEq, List.not_mem_nil, or_false] at ha hb
  obtain rfl : a = .many (wordOr "_:~<> ()*,&") := by simpa using ha
  obtain rfl : b = seqs [.char (· == '('), .many (wordOr "_."), .char (· == ':'),
    .many Char.isDigit, .char (· == ')')] := by simpa using hb
  obtain ⟨_, _, rfl, ⟨c, hOpen, rfl⟩, file, _, rfl, hFile, _, _, rfl, ⟨d, hColon, rfl⟩, digits, _,
    rfl, hDigits, e, hClose, rfl⟩ := hLocationLang
  rw [beq_iff_eq] at hOpen hColon hClose
  subst hOpen hColon hClose
  refine ⟨⟨name, file, digits, hNameLang, ?_, hDigits⟩, ?_⟩
  · intro x hx
    exact wordOr_mono (by decide) (hFile x hx)
  · rw [Valgrind.record, hName, hLocation]
    simp [Record.text, Record.location]

/-- Whatever either parser records of a frame is the text of a record. -/
theorem Parser.record_eq_text {p : Parser} (h : p.regCallStackLine.find? line = some captures) :
    ∃ r : Record, p.record captures = some (r.text ++ ['\n']) := by
  cases p with
  | tsan => exact Tsan.record_eq_text h
  | valgrind => exact Valgrind.record_eq_text h

end Written

def IsLine (text : Text) : Prop := ∃ t : Text, text = t ++ ['\n'] ∧ '\n' ∉ t

/-- What the parsers write for a call stack line is one line. -/
theorem Record.isLine (r : Record) : IsLine (r.text ++ ['\n']) := by
  refine ⟨r.text, rfl, ?_⟩
  intro hMem
  simp only [Record.text, Record.location, List.mem_append, List.mem_cons, List.not_mem_nil,
    or_false] at hMem
  rcases hMem with hName | hBlank | hOpen | hFile | hColon | hLine | hClose
  · exact ne_of_wordOr (r.name_chars _ hName) (by decide) rfl
  · cases hBlank
  · cases hOpen
  · exact ne_of_wordOr (r.file_chars _ hFile) (by decide) rfl
  · cases hColon
  · have hDigit := r.line_chars _ hLine
    cases hDigit
  · cases hClose

section Location

/-- The format of `parseInput` behind the function name. -/
def locationFormat : List Directive :=
  [.exactly '(', .scanset fun c => c != ' ' && c != ':', .exactly ':', .unsigned, .exactly ')', .space]

theorem scan_close (text : Text) : scan [.exactly ')', .space] text = [] := by
  cases text with
  | nil => rfl
  | cons c rest =>
      rw [scan]
      split <;> rfl

/-- Both fields of a location are read if and only if it starts with them. -/
theorem scan_location_iff {text file : Text} {n : Nat} :
    scan locationFormat text = [.text file, .number n] ↔
      file ≠ [] ∧ (∀ c ∈ file, c ≠ ' ' ∧ c ≠ ':') ∧ ∃ rest, text = '(' :: (file ++ ':' :: rest) ∧
        scan [.unsigned, .exactly ')', .space] rest = [.number n] := by
  constructor
  · intro h
    cases text with
    | nil => cases h
    | cons c text =>
        rw [locationFormat, scan] at h
        split at h
        · next hOpen =>
            subst hOpen
            by_cases hFile : text.takeWhile (fun c => c != ' ' && c != ':') = []
            · rw [scan_scanset_nil hFile] at h
              cases h
            · rw [scan_scanset hFile, List.cons.injEq, Field.text.injEq] at h
              obtain ⟨rfl, h⟩ := h
              refine ⟨hFile, fun c hc => by simpa using List.mem_takeWhile_imp hc, ?_⟩
              cases hRest : text.dropWhile (fun c => c != ' ' && c != ':') with
              | nil =>
                  rw [hRest] at h
                  cases h
              | cons d rest =>
                  rw [hRest, scan] at h
                  split at h
                  · next hColon =>
                      subst hColon
                      refine ⟨rest, ?_, h⟩
                      rw [← hRest, List.takeWhile_append_dropWhile]
                  · cases h
        · cases h
  · rintro ⟨hNe, hFile, rest, rfl, hRest⟩
    have hPos : ∀ c ∈ file, (c != ' ' && c != ':') = true := by simpa using hFile
    have hTake : (file ++ ':' :: rest).takeWhile (fun c => c != ' ' && c != ':') = file := by
      rw [takeWhile_append_stop (by decide), List.takeWhile_eq_self_iff.mpr hPos]
    have hDrop : (file ++ ':' :: rest).dropWhile (fun c => c != ' ' && c != ':') = ':' :: rest := by
      rw [dropWhile_append_stop (by decide), List.dropWhile_eq_nil_iff.mpr hPos, List.nil_append]
    rw [locationFormat, scan_exactly_self, scan_scanset (by rwa [hTake]), hTake, hDrop,
      scan_exactly_self, hRest]

/-- A line number is read if it has a digit. -/
theorem scan_lineNum (r : Record) : scan [.unsigned, .exactly ')', .space] (r.line ++ [')']) =
    if r.line = [] then [] else [.number (unsignedValue false r.line)] := by
  split
  · next hLine =>
      rw [hLine, List.nil_append]
      have hSkip : [')'].dropWhile isSpace = ')' :: [] := rfl
      exact scan_unsigned_nil hSkip (by decide) (by decide)
  · next hLine =>
      have hText : (r.line ++ [')']).dropWhile isSpace = r.line ++ [')'] := by
        obtain ⟨d, digits, hDigits⟩ := List.exists_cons_of_ne_nil hLine
        have hd : isSpace d = false :=
          not_isSpace_of_isDigit (r.line_chars d (hDigits ▸ List.mem_cons_self))
        rw [hDigits, List.cons_append, List.dropWhile_cons, if_neg (by simp [hd])]
      rw [scan_unsigned hText r.line_chars hLine (by decide), scan_close]

/-- The digits that stand first, not counting white space. -/
def leadingDigits (text : Text) : Text := (text.dropWhile isSpace).takeWhile Char.isDigit

/-- The characters of a function name contain no sign, so the number that is
read behind it is the one of its digits. -/
theorem scan_number_iff {text behind : Text} {n : Nat} (hSigns : ∀ c ∈ text, c ≠ '-' ∧ c ≠ '+') :
    scan [.unsigned, .exactly ')', .space] (text ++ ' ' :: '(' :: behind) = [.number n] ↔
      leadingDigits text ≠ [] ∧ unsignedValue false (leadingDigits text) = n := by
  have hSkip : (text ++ ' ' :: '(' :: behind).dropWhile isSpace =
      if (text.dropWhile isSpace).isEmpty then (' ' :: '(' :: behind).dropWhile isSpace
      else text.dropWhile isSpace ++ ' ' :: '(' :: behind := List.dropWhile_append
  unfold leadingDigits
  cases hText : text.dropWhile isSpace with
  | nil =>
      rw [hText] at hSkip
      replace hSkip : (text ++ ' ' :: '(' :: behind).dropWhile isSpace = '(' :: behind := hSkip
      rw [scan_unsigned_nil hSkip (by decide) (by decide)]
      simp
  | cons d rest =>
      rw [hText] at hSkip
      have hd : d ∈ text := List.dropWhile_subset _ (hText ▸ List.mem_cons_self)
      by_cases hDigit : d.isDigit = true
      · obtain ⟨c, left, hLeft, hc⟩ : ∃ c left, (d :: rest).dropWhile Char.isDigit ++
            ' ' :: '(' :: behind = c :: left ∧ c.isDigit = false := by
          cases hTail : (d :: rest).dropWhile Char.isDigit with
          | nil => exact ⟨' ', _, rfl, by decide⟩
          | cons c left =>
              have hHead := List.head?_dropWhile_not Char.isDigit (d :: rest)
              rw [hTail] at hHead
              exact ⟨c, _, rfl, hHead⟩
        have hNe : (d :: rest).takeWhile Char.isDigit ≠ [] := by
          rw [List.takeWhile_cons, if_pos hDigit]
          exact List.cons_ne_nil _ _
        have hSplit : (text ++ ' ' :: '(' :: behind).dropWhile isSpace =
            (d :: rest).takeWhile Char.isDigit ++ c :: left := by
          rw [← hLeft, ← List.append_assoc, List.takeWhile_append_dropWhile]
          exact hSkip
        rw [scan_unsigned hSplit (fun _ hx => List.mem_takeWhile_imp hx) hNe hc, scan_close]
        simp [hNe]
      · rw [scan_unsigned_nil (hSkip.trans rfl) (by simpa using hDigit) (hSigns d hd)]
        simp [hDigit]

end Location

namespace Record
variable (r : Record)

/-- The function name that `parseInput` reads: the first word. -/
def word : Text := (r.name.dropWhile isSpace).takeWhile (!isSpace ·)

/-- The other words. -/
def otherWords : Text := ((r.name.dropWhile isSpace).dropWhile (!isSpace ·)).dropWhile isSpace

/-- The other words of the name start like the location that stands behind them. -/
def RepeatsLocation : Prop :=
  ∃ rest, r.otherWords = '(' :: (r.file ++ ':' :: rest) ∧ leadingDigits rest ≠ [] ∧
    unsignedValue false (leadingDigits rest) = numeral r.line

/-- The location is complete and the function name is one word, unless its other
words repeat the location. -/
def Readable : Prop :=
  r.file ≠ [] ∧ r.line ≠ [] ∧ r.word ≠ [] ∧ (r.otherWords = [] ∨ r.RepeatsLocation)

/-- All fields of the record are read, with its file name and its line number. -/
def ReadBack : Prop :=
  (∃ funcName n, r.lineNum = some n ∧
    parseInput r.text = [.text funcName, .text r.file, .number n]) ∧
  breakpoint (r.text ++ ['\n']) = some (some r.file, some r.line)

theorem file_ne (c : Char) (hc : c ∈ r.file) : c ≠ ' ' ∧ c ≠ ':' :=
  ⟨ne_of_wordOr (r.file_chars c hc) (by decide), ne_of_wordOr (r.file_chars c hc) (by decide)⟩

theorem name_ne (c : Char) (hc : c ∈ r.name) : c ≠ '-' ∧ c ≠ '+' :=
  ⟨ne_of_wordOr (r.name_chars c hc) (by decide), ne_of_wordOr (r.name_chars c hc) (by decide)⟩

theorem location_not_space (c : Char) (hc : c ∈ r.location) : isSpace c = false := by
  simp only [location, List.mem_cons, List.mem_append, List.not_mem_nil, or_false] at hc
  rcases hc with rfl | hc | rfl | hc | rfl
  · rfl
  · exact file_not_space (r.file_chars c hc)
  · rfl
  · exact not_isSpace_of_isDigit (r.line_chars c hc)
  · rfl

theorem dropWhile_location : (' ' :: r.location).dropWhile isSpace = r.location := rfl

/-- Without a word in the name, the location is taken for the function name. -/
theorem parseInput_of_word_nil (h : r.word = []) : parseInput r.text = [.text r.location] := by
  have hName : r.name.dropWhile isSpace = [] := by
    cases hRest : r.name.dropWhile isSpace with
    | nil => rfl
    | cons c rest =>
        have hHead := List.head?_dropWhile_not isSpace r.name
        rw [hRest] at hHead
        replace hHead : isSpace c = false := hHead
        rw [word, hRest, List.takeWhile_cons, if_pos (by simp [hHead])] at h
        cases h
  have hStart : r.text.dropWhile isSpace = r.location := by
    rw [text, List.dropWhile_append, hName]
    exact r.dropWhile_location
  have hAll : ∀ c ∈ r.location, (!isSpace c) = true := by
    intro c hc
    rw [r.location_not_space c hc]
    rfl
  have hWord : r.location.takeWhile (!isSpace ·) = r.location := List.takeWhile_eq_self_iff.mpr hAll
  have hNe : r.location ≠ [] := List.cons_ne_nil _ _
  rw [parseInput, inputFormat, scan_string (by rwa [hStart, hWord]), hStart, hWord,
    List.dropWhile_eq_nil_iff.mpr hAll]
  rfl

/-- The first word is read as the name. What the format meets next is the location only if the
name has no further word. -/
theorem parseInput_of_word_ne_nil (h : r.word ≠ []) :
    parseInput r.text = .text r.word :: scan locationFormat
      (if r.otherWords = [] then r.location else r.otherWords ++ ' ' :: r.location) := by
  have hName : r.name.dropWhile isSpace ≠ [] := by
    intro hNil
    exact h (by rw [word, hNil]; rfl)
  have hStart : r.text.dropWhile isSpace = r.name.dropWhile isSpace ++ ' ' :: r.location := by
    rw [text, List.dropWhile_append, if_neg (by simpa using hName)]
  have hTake : (r.text.dropWhile isSpace).takeWhile (!isSpace ·) = r.word := by
    rw [hStart, takeWhile_append_stop (by decide)]
    rfl
  have hDrop : ((r.text.dropWhile isSpace).dropWhile (!isSpace ·)).dropWhile isSpace =
      if r.otherWords = [] then r.location else r.otherWords ++ ' ' :: r.location := by
    rw [hStart, dropWhile_append_stop (by decide), List.dropWhile_append]
    by_cases hOther : r.otherWords = []
    · rw [if_pos hOther]
      rw [otherWords] at hOther
      rw [hOther]
      exact r.dropWhile_location
    · rw [if_neg hOther]
      rw [otherWords] at hOther
      rw [if_neg (by simpa using hOther), otherWords]
  rw [parseInput, inputFormat, scan_string (by rwa [hTake]), hTake, scan, hDrop]
  rfl

/-- A location without words in front is read whenever it has a file and a line. -/
theorem scan_location :
    scan locationFormat r.location = [.text r.file, .number (unsignedValue false r.line)] ↔
      r.file ≠ [] ∧ r.line ≠ [] := by
  rw [scan_location_iff]
  constructor
  · rintro ⟨hFile, -, rest, hEq, hRest⟩
    refine ⟨hFile, fun hLine => ?_⟩
    rw [location, List.cons.injEq, List.append_cancel_left_eq, List.cons.injEq] at hEq
    rw [← hEq.2.2, scan_lineNum, if_pos hLine] at hRest
    cases hRest
  · rintro ⟨hFile, hLine⟩
    exact ⟨hFile, r.file_ne, r.line ++ [')'], rfl, by rw [scan_lineNum, if_neg hLine]⟩

/-- Further words of the name are read as a location only if they look like the location that
follows. -/
theorem scan_otherWords {n : Nat} :
    scan locationFormat (r.otherWords ++ ' ' :: r.location) = [.text r.file, .number n] ↔
      r.file ≠ [] ∧ ∃ rest, r.otherWords = '(' :: (r.file ++ ':' :: rest) ∧
        leadingDigits rest ≠ [] ∧ unsignedValue false (leadingDigits rest) = n := by
  have hSigns : ∀ c ∈ r.otherWords, c ≠ '-' ∧ c ≠ '+' := by
    intro c hc
    exact r.name_ne c (List.dropWhile_subset _ (List.dropWhile_subset _ (List.dropWhile_subset _ hc)))
  rw [scan_location_iff]
  constructor
  · rintro ⟨hFile, -, rest, hEq, hRest⟩
    -- The blank before the location cannot belong to what has been read.
    have hBlank : ' ' ∉ '(' :: (r.file ++ [':']) := by
      simp only [List.mem_cons, List.mem_append, List.not_mem_nil, or_false]
      rintro (hc | hc | hc)
      · cases hc
      · exact (r.file_ne _ hc).1 rfl
      · cases hc
    have hSplit : r.otherWords ++ ' ' :: r.location = '(' :: (r.file ++ [':']) ++ rest := by
      rw [hEq]
      simp
    rcases List.append_eq_append_iff.mp hSplit with ⟨left, hLeft, hBehind⟩ | ⟨left, hLeft, hBehind⟩
    · cases left with
      | nil =>
          refine ⟨hFile, [], by simpa using hLeft.symm, ?_⟩
          rw [List.nil_append] at hBehind
          rw [← hBehind] at hRest
          have hNoSigns : ∀ c ∈ ([] : Text), c ≠ '-' ∧ c ≠ '+' := by simp
          exact (scan_number_iff hNoSigns).mp hRest
      | cons c left =>
          rw [List.cons_append, List.cons.injEq] at hBehind
          refine absurd ?_ hBlank
          rw [hLeft, hBehind.1]
          simp
    · refine ⟨hFile, left, by simpa using hLeft, ?_⟩
      rw [hBehind] at hRest
      refine (scan_number_iff ?_).mp hRest
      intro c hc
      exact hSigns c (hLeft ▸ List.mem_append_right _ hc)
  · rintro ⟨hFile, rest, hOther, hRest⟩
    refine ⟨hFile, r.file_ne, rest ++ ' ' :: r.location, by simp [hOther], ?_⟩
    refine (scan_number_iff ?_).mpr hRest
    intro c hc
    exact hSigns c (by simp [hOther, hc])

/-- The trigger script finds the last parenthesis, where the location starts. -/
theorem breakpoint_text : breakpoint (r.text ++ ['\n']) = some (some r.file, some r.line) := by
  have hText : r.text ++ ['\n'] =
      (r.name ++ [' ']) ++ '(' :: (r.file ++ ':' :: (r.line ++ [')', '\n'])) := by
    simp [text, location]
  have hDots : ∀ c ∈ r.name ++ [' '], isDot c = true := by
    intro c hc
    rcases List.mem_append.mp hc with hc | hc
    · exact bne_iff_ne.mpr (ne_of_wordOr (r.name_chars c hc) (by decide))
    · rw [List.mem_singleton.mp hc]
      rfl
  have hLast : ∀ c ∈ r.file ++ ':' :: (r.line ++ [')', '\n']), (c == '(') = false := by
    intro c hc
    simp only [List.mem_append, List.mem_cons, List.not_mem_nil, or_false] at hc
    rcases hc with hc | rfl | hc | rfl | rfl
    · exact beq_eq_false_iff_ne.mpr (ne_of_wordOr (r.file_chars c hc) (by decide))
    · rfl
    · have hDigit := r.line_chars c hc
      rw [beq_eq_false_iff_ne]
      rintro rfl
      cases hDigit
    · rfl
    · rfl
  have hFile : ((group 1 (many (wordOr "_~./-"))).ways
      (r.file ++ ':' :: (r.line ++ [')', '\n'])) []).head? =
      some (':' :: (r.line ++ [')', '\n']), [(1, r.file)]) :=
    head?_group 1 (head?_many r.file_chars (by rintro c ⟨⟩; rfl))
  have hLine : ((group 2 (many Char.isDigit)).ways (r.line ++ [')', '\n']) [(1, r.file)]).head? =
      some ([')', '\n'], [(2, r.line), (1, r.file)]) :=
    head?_group 2 (head?_many r.line_chars (by rintro c ⟨⟩; rfl))
  have hEnd : (seqs [.opt (.group 3 colonDigits), .char (· == ')'), .many isDot]).ways
      [')', '\n'] [(2, r.line), (1, r.file)] = [(['\n'], [(2, r.line), (1, r.file)])] := rfl
  have hFirst : (regBreakpoint.ways (r.text ++ ['\n']) []).head? =
      some (['\n'], [(2, r.line), (1, r.file)]) := by
    rw [hText]
    refine head?_many_char hDots rfl rfl hLast ?_
    refine head?_seq hFile (head?_seq (head?_char rfl) (head?_seq hLine ?_))
    exact congrArg List.head? hEnd
  rw [breakpoint, find?, hFirst]
  rfl

/-- For a number that fits, the location that is read is the one that was written. -/
theorem scan_location_eq_iff {n : Nat} (hLine : numeral r.line < 2 ^ 32)
    (hNum : r.lineNum = some n) :
    scan locationFormat r.location = [.text r.file, .number n] ↔ r.file ≠ [] := by
  have hNe : r.line ≠ [] := by
    intro hNil
    rw [lineNum, if_pos hNil] at hNum
    cases hNum
  rw [lineNum, if_neg hNe, Option.some.injEq] at hNum
  rw [← hNum, ← unsignedValue_of_lt hLine, scan_location, and_iff_left hNe]

/-- A record is read back if and only if it is readable. -/
theorem readBack_iff (hLine : numeral r.line < 2 ^ 32) : r.ReadBack ↔ r.Readable := by
  constructor
  · rintro ⟨⟨funcName, n, hNum, hFields⟩, -⟩
    have hNe : r.line ≠ [] := by
      intro hNil
      rw [lineNum, if_pos hNil] at hNum
      cases hNum
    by_cases hWord : r.word = []
    · rw [r.parseInput_of_word_nil hWord] at hFields
      cases hFields
    · rw [r.parseInput_of_word_ne_nil hWord, List.cons.injEq] at hFields
      by_cases hOther : r.otherWords = []
      · rw [if_pos hOther, r.scan_location_eq_iff hLine hNum] at hFields
        exact ⟨hFields.2, hNe, hWord, .inl hOther⟩
      · rw [if_neg hOther, scan_otherWords] at hFields
        rw [lineNum, if_neg hNe, Option.some.injEq] at hNum
        subst hNum
        exact ⟨hFields.2.1, hNe, hWord, .inr hFields.2.2⟩
  · rintro ⟨hFile, hNe, hWord, hOther⟩
    have hNum : r.lineNum = some (numeral r.line) := if_neg hNe
    refine ⟨⟨r.word, numeral r.line, hNum, ?_⟩, r.breakpoint_text⟩
    rw [r.parseInput_of_word_ne_nil hWord]
    by_cases hEmpty : r.otherWords = []
    · rw [if_pos hEmpty, (r.scan_location_eq_iff hLine hNum).mpr hFile]
    · rw [if_neg hEmpty, r.scan_otherWords.mpr ⟨hFile, hOther.resolve_left hEmpty⟩]

end Record

section Accepted
variable {p : Parser} {line : Text} {captures : Captures}

/-- Whatever line is accepted, a record is written for it, and the consumers read
it back if and only if its location is complete and its name is one word. -/
theorem record_readBack_iff (h : p.regCallStackLine.find? line = some captures) :
    ∃ r : Record, p.record captures = some (r.text ++ ['\n']) ∧
      (numeral r.line < 2 ^ 32 → (r.ReadBack ↔ r.Readable)) := by
  obtain ⟨r, hRecord⟩ := Parser.record_eq_text h
  exact ⟨r, hRecord, r.readBack_iff⟩

theorem record_readBack_iff_plain :
    let line := "==7832==    at 0x8068BB7: ap_buffered_log_writer (mod_log_config.c:1345)".toList
    ∃ captures, Parser.valgrind.regCallStackLine.find? line = some captures ∧
      ∃ r : Record, Parser.valgrind.record captures = some (r.text ++ ['\n']) ∧
        (r.ReadBack ↔ r.Readable) := by
  intro line
  obtain ⟨captures, hCaptures⟩ := Option.isSome_iff_exists.mp
    (show (Parser.valgrind.regCallStackLine.find? line).isSome = true by decide)
  obtain ⟨r, hRecord, hReadBack⟩ := record_readBack_iff hCaptures
  have hWritten : ((Parser.valgrind.regCallStackLine.find? line).bind Parser.valgrind.record).bind
      breakpoint = some (some "mod_log_config.c".toList, some "1345".toList) := by decide
  rw [hCaptures, Option.bind_some, hRecord, Option.bind_some, r.breakpoint_text] at hWritten
  have hLine : r.line = "1345".toList := Option.some.inj (Prod.mk.inj (Option.some.inj hWritten)).2
  exact ⟨captures, hCaptures, r, hRecord, hReadBack (by rw [hLine]; decide)⟩

def operatorNew : Record where
  name := "operator new(unsigned long)".toList
  file := "vg.cpp".toList
  line := "5".toList
  name_chars := List.all_iff_forall_prop.mp (by decide)
  file_chars := List.all_iff_forall_prop.mp (by decide)
  line_chars := List.all_iff_forall_prop.mp (by decide)

/-- Of this record only the first word of the name is read. -/
theorem operatorNew_not_readBack :
    (Valgrind.regCallStackLine.find? "==1==    at 0x1: operator new(unsigned long) (vg.cpp:5)".toList).bind
        Valgrind.record = some (operatorNew.text ++ ['\n']) ∧
      numeral operatorNew.line < 2 ^ 32 ∧ ¬operatorNew.ReadBack := by
  refine ⟨by decide, by decide, ?_⟩
  rintro ⟨⟨funcName, n, -, hFields⟩, -⟩
  have hRead : parseInput operatorNew.text = [.text "operator".toList] := by decide
  rw [hRead] at hFields
  cases hFields

end Accepted
end ConAnalysis.Scripts
