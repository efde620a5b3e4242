import ConAnalysis.Scripts.Converger
import Mathlib.Data.Bool.AllAny
import Mathlib.Data.List.Infix

/-! The names of the reports, as the folders of the runs hold them, and the checksum of a file
that the converger looks up by `grep`. -/
namespace ConAnalysis.Scripts.Converger

/-- The file with this number of a run: the parser gets `run1_` and so on for its prefix. -/
def reportName (run : Char) (n : Nat) : Text :=
  "run".toList ++ run :: '_' :: (Nat.toDigits 10 n ++ ".race".toList)

/-- What the parser logs to, in the folder of the run. -/
def parserLog : Text := "parser.log".toList

section Grep

/-- Letters and digits stand for themselves. -/
theorem matchesAt_literal {literal : Text} (h : '.' ∉ literal) (pattern line : Text) :
    matchesAt (literal ++ pattern) line = true ↔
      ∃ rest, line = literal ++ rest ∧ matchesAt pattern rest = true := by
  induction literal generalizing line with
  | nil => simp
  | cons c literal ih =>
      rw [List.mem_cons, not_or] at h
      cases line with
      | nil => simp [matchesAt]
      | cons d line =>
          simp only [List.cons_append, matchesAt, Bool.and_eq_true, ih h.2, List.cons.injEq,
            Bool.or_eq_true, decide_eq_true_eq, or_iff_right (Ne.symm h.1)]
          constructor
          · rintro ⟨rfl, rest, rfl, hRest⟩
            exact ⟨rest, ⟨rfl, rfl⟩, hRest⟩
          · rintro ⟨rest, ⟨rfl, rfl⟩, hRest⟩
            exact ⟨rfl, rest, rfl, hRest⟩

theorem matchesAt_self (line : Text) : matchesAt line line = true := by
  induction line with
  | nil => rfl
  | cons c line ih => simp [matchesAt, ih]

/-- A path is found in a line with one slash if its folder ends there and its name matches
behind. -/
theorem matchesAt_of_tails {path name head name' : Text} (hPath : '.' ∉ path)
    (hHead : '/' ∉ head) (hName' : '/' ∉ name') {left : Text}
    (hLeft : left ∈ (head ++ '/' :: name').tails)
    (h : matchesAt (path ++ '/' :: name) left = true) : matchesAt name name' = true := by
  have hDot : '.' ∉ path ++ ['/'] := by
    rw [List.mem_append, List.mem_singleton, not_or]
    exact ⟨hPath, by decide⟩
  rw [List.append_cons] at h
  obtain ⟨rest, rfl, hRest⟩ := (matchesAt_literal hDot name left).mp h
  obtain ⟨before, hLine⟩ := (List.mem_tails _ _).mp hLeft
  -- The slash of the line is the one behind the path.
  have hSplit : (before ++ path) ++ '/' :: rest = head ++ '/' :: name' := by
    simpa using hLine
  rcases List.append_eq_append_iff.mp hSplit with ⟨more, hMore, hBehind⟩ | ⟨more, hMore, hBehind⟩
  · cases more with
    | nil =>
        cases hBehind
        exact hRest
    | cons c more =>
        cases hBehind
        exact absurd (hMore ▸ by simp) hHead
  · cases more with
    | nil =>
        cases hBehind
        exact hRest
    | cons c more =>
        cases hBehind
        exact absurd (by simp) hName'

theorem toDigits_injective : Function.Injective (Nat.toDigits 10) := by
  intro m n h
  calc m = Nat.ofDigitChars 10 (Nat.toDigits 10 m) 0 := Nat.ofDigitChars_ten_toDigits.symm
    _ = Nat.ofDigitChars 10 (Nat.toDigits 10 n) 0 := by rw [h]
    _ = n := Nat.ofDigitChars_ten_toDigits

theorem isDigit_toDigits {n : Nat} {c : Char} (h : c ∈ Nat.toDigits 10 n) : c.isDigit = true :=
  Nat.isDigit_of_mem_toDigits (by decide) (by decide) h

theorem race_toList : ".race".toList = ['.', 'r', 'a', 'c', 'e'] := by decide

/-- The name of a report matches no other one: the dot could stand for a digit, but then the
dot of the other name would have to be a letter. -/
theorem matchesAt_reportName {run run' : Char} {n n' : Nat} (hRun : run ≠ '.')
    (h : matchesAt (reportName run n) (reportName run' n') = true) : run = run' ∧ n = n' := by
  have hName : ∀ (run : Char) (n : Nat), reportName run n =
      ('r' :: 'u' :: 'n' :: run :: '_' :: Nat.toDigits 10 n) ++ ['.', 'r', 'a', 'c', 'e'] := by
    intro run n
    rw [reportName, race_toList]
    rfl
  have hLiteral : '.' ∉ 'r' :: 'u' :: 'n' :: run :: '_' :: Nat.toDigits 10 n := by
    have hDigits : '.' ∉ Nat.toDigits 10 n := fun hMem => by cases isDigit_toDigits hMem
    simp [hRun.symm, hDigits]
  rw [hName run n, hName run' n'] at h
  obtain ⟨rest, hLine, hRest⟩ := (matchesAt_literal hLiteral _ _).mp h
  simp only [List.cons_append, List.cons.injEq, true_and] at hLine
  obtain ⟨rfl, hDigits⟩ := hLine
  refine ⟨rfl, toDigits_injective ?_⟩
  rcases List.append_eq_append_iff.mp hDigits with ⟨more, hMore, hBehind⟩ | ⟨more, hMore, hBehind⟩
  · cases more with
    | nil => simpa using hMore
    | cons c more =>
        obtain ⟨rfl, -⟩ := List.cons.inj hBehind
        have hDot : '.' ∈ Nat.toDigits 10 n := hMore ▸ by simp
        cases isDigit_toDigits hDot
  · cases more with
    | nil => simpa using hMore.symm
    | cons c more =>
        have hDigit : ∀ d ∈ c :: more, d.isDigit = true := by
          intro d hd
          exact isDigit_toDigits (hMore ▸ List.mem_append_right _ hd)
        subst hBehind
        cases more with
        | nil => cases hRest
        | cons d more =>
            simp only [List.cons_append, matchesAt, Bool.and_eq_true, Bool.or_eq_true,
              decide_eq_true_eq] at hRest
            have hLetter : d = 'r' := by simpa [eq_comm] using hRest.2.1
            cases hLetter ▸ hDigit d (by simp)

/-- The names in the folders: the log of the parser and the reports. -/
def RunName (name : Text) : Prop :=
  name = parserLog ∨ ∃ run n, run.isDigit = true ∧ name = reportName run n

theorem parserLog_eq : parserLog = ['p', 'a', 'r', 's', 'e', 'r', '.', 'l', 'o', 'g'] := by decide

/-- A report is not mistaken for the log of the parser. -/
theorem reportName_ne_parserLog (run : Char) (n : Nat) : reportName run n ≠ parserLog := by
  rw [parserLog_eq]
  exact fun hEq => by cases (List.cons.inj hEq).1

/-- Of these names each one matches itself only. -/
theorem RunName.eq_of_matchesAt {name name' : Text} (hName : RunName name)
    (hName' : RunName name') (h : matchesAt name name' = true) : name = name' := by
  obtain rfl | ⟨run, n, hRun, rfl⟩ := hName
  · obtain rfl | ⟨run', n', -, rfl⟩ := hName'
    · rfl
    · rw [parserLog_eq] at h
      cases h
  · obtain rfl | ⟨run', n', -, rfl⟩ := hName'
    · rw [parserLog_eq] at h
      cases h
    · have hNe : run ≠ '.' := by
        rintro rfl
        cases hRun
      obtain ⟨rfl, rfl⟩ := matchesAt_reportName hNe h
      rfl

/-- A character that the shell and `grep` leave alone, but for the dot. -/
def plainChar (c : Char) : Bool := c.isAlphanum || c ∈ ['_', '.', '/']

/-- Names of reports have letters, digits and dots only. -/
theorem RunName.plain {name : Text} (h : RunName name) :
    (∀ c ∈ name, plainChar c = true) ∧ '/' ∉ name ∧ name.head? ≠ some '.' := by
  obtain rfl | ⟨run, n, hRun, rfl⟩ := h
  · rw [parserLog_eq]
    exact ⟨List.all_iff_forall_prop.mp (by decide), by decide, by decide⟩
  · have hDigit : ∀ c ∈ run :: Nat.toDigits 10 n, c.isDigit = true := by
      rw [List.forall_mem_cons]
      exact ⟨hRun, fun c hc => isDigit_toDigits hc⟩
    have hMem : ∀ c ∈ reportName run n,
        c ∈ run :: Nat.toDigits 10 n ∨ c ∈ ['r', 'u', 'n', '_', '.', 'a', 'c', 'e'] := by
      intro c hc
      have hRunChars : "run".toList = ['r', 'u', 'n'] := by decide
      simp only [reportName, race_toList, hRunChars, List.cons_append, List.nil_append,
        List.mem_cons, List.mem_append] at hc
      simp only [List.mem_cons]
      tauto
    have hLetters : ∀ c ∈ ['r', 'u', 'n', '_', '.', 'a', 'c', 'e'], plainChar c = true :=
      List.all_iff_forall_prop.mp (by decide)
    refine ⟨fun c hc => ?_, fun hSlash => ?_, fun hHead => ?_⟩
    · rcases hMem c hc with hIn | hIn
      · simp [plainChar, Char.isAlphanum, hDigit c hIn]
      · exact hLetters c hIn
    · rcases hMem '/' hSlash with hIn | hIn
      · cases hDigit '/' hIn
      · exact absurd hIn (by decide)
    · cases hHead

end Grep

/-- What the programs do, as they are documented, for words of plain characters. `md5sum`
prints the checksum, two blanks and the name; `cp` copies a file of one of the folders. -/
structure Documented (sh : Shell Text) (md5 : Text → Text) (folders : List (Folder Text)) :
    Prop where
  words : ∀ f, (∀ c ∈ f, plainChar c = true) → sh.words f = [f]
  md5sum : ∀ path content, (∀ c ∈ path, plainChar c = true) →
    sh.md5sum path content = md5 content ++ ' ' :: ' ' :: path
  hexadecimal : ∀ content, md5 content ≠ [] ∧ ∀ c ∈ md5 content, c.isAlphanum = true
  grep : ∀ pattern lines, (∀ c ∈ pattern, plainChar c = true) →
    sh.grep [pattern] lines = lines.filter fun line => line.tails.any (matchesAt pattern)
  cp : ∀ F ∈ folders, ∀ file ∈ F.files, sh.cp [F.pathOf file.1] = [file]

section Plain
variable {sh : Shell Text} {md5 : Text → Text} {folders : List (Folder Text)} {F : Folder Text}

/-- Names that are not given twice pick one file. -/
theorem filter_name_eq {files : List (Text × Text)} {file : Text × Text}
    (hNodup : (files.map Prod.fst).Nodup) (hFile : file ∈ files) :
    (files.filter fun other => other.1 = file.1) = [file] := by
  induction files with
  | nil => cases hFile
  | cons first files ih =>
      rw [List.map_cons, List.nodup_cons] at hNodup
      rcases List.mem_cons.mp hFile with rfl | hRest
      · have hNone : files.filter (fun other => other.1 = file.1) = [] := by
          rw [List.filter_eq_nil_iff]
          intro other hOther
          rw [decide_eq_true_eq]
          exact fun hEq => hNodup.1 (List.mem_map.mpr ⟨other, hOther, hEq⟩)
        rw [List.filter_cons_of_pos (by simp), hNone]
      · have hNe : first.1 ≠ file.1 :=
          fun hEq => hNodup.1 (List.mem_map.mpr ⟨file, hRest, hEq.symm⟩)
        rw [List.filter_cons_of_neg (by simpa using hNe), ih hNodup.2 hRest]

/-- The first column of a line of checksums is the checksum. -/
theorem awkFirst_append {sum : Text} (hNe : sum ≠ [])
    (hPlain : ∀ c ∈ sum, c.isAlphanum = true) (path : Text) :
    awkFirst (sum ++ ' ' :: path) = sum := by
  have hBlank : ∀ c ∈ sum, c ≠ ' ' ∧ c ≠ '\t' := by
    intro c hc
    constructor <;> rintro rfl <;> cases hPlain _ hc
  obtain ⟨c, rest, rfl⟩ := List.exists_cons_of_ne_nil hNe
  have hFirst := hBlank c List.mem_cons_self
  have hKeep : ∀ d ∈ c :: rest, (d ≠ ' ' && d ≠ '\t') = true := by
    intro d hd
    simpa using hBlank d hd
  rw [awkFirst, List.cons_append, List.dropWhile_cons_of_neg (by simpa using hFirst),
    ← List.cons_append, List.takeWhile_append_of_pos hKeep, List.takeWhile_cons_of_neg (by simp),
    List.append_nil]

/-- A line of `md5sum` is found for its own file only. -/
theorem line_matches_iff (hPath : ∀ c ∈ F.path, c.isAlphanum = true) {sum name name' : Text}
    (hSum : ∀ c ∈ sum, c.isAlphanum = true) (hName : RunName name) (hName' : RunName name') :
    (sum ++ ' ' :: ' ' :: F.pathOf name').tails.any (matchesAt (F.pathOf name)) = true ↔
      name' = name := by
  have hNot : ∀ c, c.isAlphanum = false → ∀ {text : Text},
      (∀ d ∈ text, d.isAlphanum = true) → c ∉ text := by
    intro c hc text hText hMem
    rw [hText c hMem] at hc
    cases hc
  have hLine : sum ++ ' ' :: ' ' :: F.pathOf name' =
      (sum ++ ' ' :: ' ' :: F.path) ++ '/' :: name' := by simp [Folder.pathOf]
  have hHead : '/' ∉ sum ++ ' ' :: ' ' :: F.path := by
    simp [hNot '/' (by decide) hSum, hNot '/' (by decide) hPath]
  rw [List.any_eq_true, hLine]
  constructor
  · rintro ⟨left, hLeft, hMatch⟩
    exact (hName.eq_of_matchesAt hName'
      (matchesAt_of_tails (hNot '.' (by decide) hPath) hHead hName'.plain.2.1 hLeft hMatch)).symm
  · rintro rfl
    refine ⟨F.pathOf name', (List.mem_tails _ _).mpr ⟨sum ++ [' ', ' '], ?_⟩, matchesAt_self _⟩
    simp [Folder.pathOf]

/-- Folders with such names are plain. -/
theorem plainFiles (hDoc : Documented sh md5 folders) (hMem : F ∈ folders)
    (hPath : ∀ c ∈ F.path, c.isAlphanum = true) (hNames : ∀ file ∈ F.files, RunName file.1)
    (hSome : F.files ≠ []) : PlainFiles sh md5 F := by
  have hPlain : ∀ file ∈ F.files, ∀ c ∈ F.pathOf file.1, plainChar c = true := by
    intro file hFile c hc
    rcases List.mem_append.mp hc with hDir | hName
    · simp [plainChar, hPath c hDir]
    · rcases List.mem_cons.mp hName with rfl | hName
      · rfl
      · exact (hNames file hFile).plain.1 c hName
  have hVisible : ∀ file ∈ F.files, file.1.head? ≠ some '.' :=
    fun file hFile => (hNames file hFile).plain.2.2
  have hListed : F.listed = F.files :=
    List.filter_eq_self.mpr fun file hFile => by simpa using hVisible file hFile
  refine ⟨hVisible, fun file hFile => ⟨(hDoc.hexadecimal _).1, fun hNewline => ?_⟩, ?_, ?_,
    fun hNil => absurd hNil hSome, fun hNil => absurd hNil hSome⟩
  · cases (hDoc.hexadecimal _).2 _ hNewline
  · intro file hFile
    have hLines : md5Folder sh F =
        F.files.map fun other => md5 other.2 ++ ' ' :: ' ' :: F.pathOf other.1 := by
      rw [md5Folder, hListed]
      exact List.map_congr_left fun other hOther => hDoc.md5sum _ _ (hPlain other hOther)
    have hFound : F.files.filter
        ((fun line : Text => line.tails.any (matchesAt (F.pathOf file.1))) ∘
          fun other => md5 other.2 ++ ' ' :: ' ' :: F.pathOf other.1) =
        F.files.filter fun other => other.1 = file.1 := by
      refine List.filter_congr fun other hOther => ?_
      rw [Bool.eq_iff_iff, decide_eq_true_eq]
      exact line_matches_iff hPath (hDoc.hexadecimal _).2 (hNames file hFile) (hNames other hOther)
    rw [hDoc.words _ (hPlain file hFile), hDoc.grep _ _ (hPlain file hFile), hLines,
      List.filter_map, hFound, filter_name_eq F.nodup hFile, List.map_singleton,
      List.map_singleton, awkFirst_append (hDoc.hexadecimal _).1 (hDoc.hexadecimal _).2]
  · intro file hFile
    rw [hDoc.words _ (hPlain file hFile)]
    exact hDoc.cp F hMem file hFile

end Plain

end ConAnalysis.Scripts.Converger
