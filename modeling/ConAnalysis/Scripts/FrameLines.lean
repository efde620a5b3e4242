import ConAnalysis.Scripts.PairExtraction

/-! The frame lines that the thread sanitizer prints for symbolised frames, and
which of them `regCallStackLine` of `tsanOutputParser.py` takes apart. -/
namespace ConAnalysis.Scripts.Tsan
open Regex

/-- A frame with its function name and its place in the source. The name does not
contain the place itself, as `:` before a digit is part of no demangled name. -/
structure SymbolisedFrame where
  indent : Text
  number : Text
  name : Text
  path : Text
  line : Text
  column : Option Text
  module : Text
  offset : Text
  indent_chars : ∀ c ∈ indent, isBlank c = true
  number_chars : ∀ c ∈ number, c.isDigit = true
  path_chars : ∀ c ∈ path, c ≠ ' ' ∧ c ≠ ':'
  line_chars : ∀ c ∈ line, c.isDigit = true
  line_ne : line ≠ []
  column_chars : ∀ digits ∈ column, ∀ c ∈ digits, c.isDigit = true
  name_apart : ¬(' ' :: (path ++ ':' :: line)) <:+: name

namespace SymbolisedFrame

def tail (f : SymbolisedFrame) : Text :=
  (f.column.map fun digits => ':' :: digits).getD [] ++
    ' ' :: '(' :: (f.module ++ '+' :: (f.offset ++ [')', '\n']))

def body (f : SymbolisedFrame) : Text := f.name ++ ' ' :: (f.path ++ ':' :: (f.line ++ f.tail))

def text (f : SymbolisedFrame) : Text := f.indent ++ '#' :: (f.number ++ ' ' :: f.body)

/-- The line is accepted, and groups 3 and 4 are the path and the line. -/
def Recognised (f : SymbolisedFrame) : Prop :=
  ∃ captures, regCallStackLine.find? f.text = some captures ∧ captures.lookup 3 = some f.path ∧
    captures.lookup 4 = some (':' :: f.line)

/-- The expression has the characters of the name and of the path: from the first
character on that is no part of an identifier, the name may only have pointers,
references and argument lists. -/
def Covered (f : SymbolisedFrame) : Prop :=
  (∀ c ∈ f.name.dropWhile (wordOr "_:~"), wordOr "*, _&()" c = true) ∧
    ∀ c ∈ f.path, wordOr "_~./-" c = true

variable (f : SymbolisedFrame)

/-- Up to a stop character, a text is determined. -/
theorem append_cons_inj {p : Char → Bool} {x y : Text} {c d : Char} {r s : Text}
    (hx : ∀ a ∈ x, p a = true) (hy : ∀ a ∈ y, p a = true) (hc : p c = false) (hd : p d = false)
    (h : x ++ c :: r = y ++ d :: s) : x = y ∧ c = d ∧ r = s := by
  have hTake := congrArg (List.takeWhile p) h
  rw [Scanf.takeWhile_append_stop hc, Scanf.takeWhile_append_stop hd,
    List.takeWhile_eq_self_iff.mpr hx, List.takeWhile_eq_self_iff.mpr hy] at hTake
  subst hTake
  rw [List.append_cancel_left_eq, List.cons.injEq] at h
  exact ⟨rfl, h⟩

theorem mem_ways_group_colonDigits {n : Nat} {text rest : Text} {before after : Captures} :
    (rest, after) ∈ (group n colonDigits).ways text before ↔
      ∃ digits, text = ':' :: (digits ++ rest) ∧ (∀ c ∈ digits, c.isDigit = true) ∧
        after = (n, ':' :: digits) :: before := by
  rw [mem_ways_group]
  constructor
  · rintro ⟨x, inner, hText, hInner, rfl⟩
    obtain ⟨middle, between, hColon, hMany⟩ := mem_ways_seq.mp hInner
    obtain ⟨rfl, rfl⟩ := mem_ways_char_beq.mp hColon
    obtain ⟨digits, rfl, hDigits, rfl⟩ := mem_ways_many.mp hMany
    obtain rfl : ':' :: digits = x := List.append_cancel_right hText
    exact ⟨digits, rfl, hDigits, rfl⟩
  · rintro ⟨digits, rfl, hDigits, rfl⟩
    exact ⟨':' :: digits, before, rfl, mem_ways_seq.mpr ⟨digits ++ rest, before,
      mem_ways_char_beq.mpr ⟨rfl, rfl⟩, mem_ways_many.mpr ⟨digits, rfl, hDigits, rfl⟩⟩, rfl⟩

/-- What a way to match a call stack line consumes and captures. -/
theorem of_mem_ways {text rest : Text} {captures : Captures}
    (h : (rest, captures) ∈ regCallStackLine.ways text []) :
    ∃ blanks digits first second path line left,
      text = blanks ++ '#' :: (digits ++ ' ' :: (first ++ (second ++
        ' ' :: (path ++ ':' :: (line ++ left))))) ∧
      (∀ c ∈ blanks, isBlank c = true) ∧ (∀ c ∈ digits, c.isDigit = true) ∧
      (∀ c ∈ first, wordOr "_:~" c = true) ∧ (∀ c ∈ second, wordOr "*, _&()" c = true) ∧
      (∀ c ∈ path, wordOr "_~./-" c = true) ∧ (∀ c ∈ line, c.isDigit = true) ∧
      captures.lookup 3 = some path ∧ captures.lookup 4 = some (':' :: line) := by
  simp only [regCallStackLine, seqs, mem_ways_seq] at h
  obtain ⟨_, _, h1, _, _, h2, _, _, h3, _, _, h4, _, _, h5, _, _, h6, _, _, h7, _, _, h8, _, _, h9,
    left, _, h10, _, _, h11, h12⟩ := h
  obtain ⟨blanks, rfl, hBlanks, rfl⟩ := mem_ways_many.mp h1
  obtain ⟨rfl, rfl⟩ := mem_ways_char_beq.mp h2
  obtain ⟨digits, rfl, hDigits, rfl⟩ := mem_ways_many.mp h3
  obtain ⟨rfl, rfl⟩ := mem_ways_char_beq.mp h4
  obtain ⟨first, rfl, hFirst, rfl⟩ := mem_ways_group_many.mp h5
  obtain ⟨rfl, rfl⟩ := mem_ways_char_beq.mp h7
  obtain ⟨path, rfl, hPath, rfl⟩ := mem_ways_group_many.mp h8
  obtain ⟨line, rfl, hLine, rfl⟩ := mem_ways_group_colonDigits.mp h9
  obtain ⟨-, rfl⟩ := mem_ways_char_beq.mp h11
  obtain ⟨-, -, -, rfl⟩ := mem_ways_many.mp h12
  have hLookups : captures.lookup 3 = some path ∧ captures.lookup 4 = some (':' :: line) := by
    rcases mem_ways_opt.mp h10 with h10 | ⟨-, rfl⟩
    · obtain ⟨-, -, -, rfl⟩ := mem_ways_group_colonDigits.mp h10
      exact ⟨rfl, rfl⟩
    · exact ⟨rfl, rfl⟩
  rcases mem_ways_opt.mp h6 with h6 | ⟨rfl, rfl⟩
  · obtain ⟨second, rfl, hSecond, rfl⟩ := mem_ways_group_many.mp h6
    exact ⟨blanks, digits, first, second, path, line, _, rfl, hBlanks, hDigits, hFirst, hSecond, hPath,
      hLine, hLookups⟩
  · exact ⟨blanks, digits, first, [], path, line, _, rfl, hBlanks, hDigits, hFirst, by simp, hPath,
      hLine, hLookups⟩

theorem not_append_cons {x y r s : Text} {c d : Char} (hNe : c ≠ d) (hx : d ∉ x) (hy : c ∉ y) :
    x ++ c :: r ≠ y ++ d :: s := by
  intro h
  rcases List.append_eq_append_iff.mp h with ⟨more, rfl, hBehind⟩ | ⟨more, rfl, hBehind⟩
  · cases more with
    | nil => exact hNe (List.cons.inj hBehind).1
    | cons e more =>
        rw [List.cons_append, List.cons.injEq] at hBehind
        exact hy (by simp [hBehind.1])
  · cases more with
    | nil => exact hNe (List.cons.inj hBehind).1.symm
    | cons e more =>
        rw [List.cons_append, List.cons.injEq] at hBehind
        exact hx (by simp [hBehind.1])

theorem blank_not_mem_path : ' ' ∉ f.path := fun h => (f.path_chars ' ' h).1 rfl

/-- The groups of the name do not reach into the path. -/
theorem not_beyond_name {first second more left : Text} (hFirst : ∀ c ∈ first, wordOr "_:~" c = true)
    (hSecond : ∀ c ∈ second, wordOr "*, _&()" c = true) (hMore : first ++ second = f.name ++ ' ' :: more) :
    f.path ++ ':' :: (f.line ++ f.tail) ≠ more ++ ' ' :: left := by
  have hIn : ∀ c ∈ more, c ∈ second := by
    intro c hc
    rcases List.append_eq_append_iff.mp hMore with ⟨t, -, hSplit⟩ | ⟨t, hSplit, hBehind⟩
    · simp [hSplit, hc]
    · cases t with
      | nil => simp [show second = ' ' :: more from hBehind.symm, hc]
      | cons d t =>
          rw [List.cons_append, List.cons.injEq] at hBehind
          have hMem : ' ' ∈ first := by
            rw [hSplit, ← hBehind.1]
            simp
          exact absurd (hFirst _ hMem) (by decide)
  refine not_append_cons (by decide) f.blank_not_mem_path ?_
  intro hColon
  exact absurd (hSecond _ (hIn _ hColon)) (by decide)

/-- The groups of the name end where the name does. -/
theorem eq_of_match {first second left : Text}
    (hFirst : ∀ c ∈ first, wordOr "_:~" c = true) (hSecond : ∀ c ∈ second, wordOr "*, _&()" c = true)
    (h : f.body = first ++ (second ++ ' ' :: (f.path ++ ':' :: (f.line ++ left)))) :
    f.name = first ++ second := by
  rw [body, ← List.append_assoc] at h
  rcases List.append_eq_append_iff.mp h with ⟨more, hMore, hBehind⟩ | ⟨more, hMore, hBehind⟩
  · cases more with
    | nil => rw [hMore, List.append_nil]
    | cons c more =>
        rw [List.cons_append, List.cons.injEq] at hBehind
        obtain ⟨rfl, hBehind⟩ := hBehind
        exact absurd hBehind (f.not_beyond_name hFirst hSecond hMore)
  · cases more with
    | nil => rw [hMore, List.append_nil]
    | cons c more =>
        -- The place would be part of the name.
        exfalso
        rw [List.cons_append, List.cons.injEq] at hBehind
        obtain ⟨rfl, hBehind⟩ := hBehind
        have hPlace : (f.path ++ ':' :: f.line) ++ left = more ++ ' ' :: (f.path ++ ':' :: (f.line ++ f.tail)) := by
          simpa using hBehind
        have hBlank : ' ' ∉ f.path ++ ':' :: f.line := by
          intro hMem
          rcases List.mem_append.mp hMem with hMem | hMem
          · exact f.blank_not_mem_path hMem
          · rcases List.mem_cons.mp hMem with hEq | hMem
            · cases hEq
            · have hDigit := f.line_chars _ hMem
              cases hDigit
        obtain ⟨behind, hInfix⟩ : ∃ behind, more = (f.path ++ ':' :: f.line) ++ behind := by
          rcases List.append_eq_append_iff.mp hPlace with ⟨behind, hEq, -⟩ | ⟨behind, hEq, hLeft⟩
          · exact ⟨behind, hEq⟩
          · cases behind with
            | nil => exact ⟨[], by rw [hEq]; simp⟩
            | cons d behind =>
                rw [List.cons_append, List.cons.injEq] at hLeft
                exact absurd (by rw [hEq, hLeft.1]; simp) hBlank
        exact f.name_apart ⟨first ++ second, behind, by rw [hMore, hInfix]; simp⟩

/-- What is recognised is covered. -/
theorem covered_of_recognised (h : f.Recognised) : f.Covered := by
  obtain ⟨captures, hFind, hPath, hLine⟩ := h
  obtain ⟨⟨rest, _⟩, hHead, rfl⟩ := Option.map_eq_some_iff.mp hFind
  obtain ⟨blanks, digits, first, second, path, line, left, hText, hBlanks, hDigits, hFirst, hSecond,
    hPathChars, -, hPath', hLine'⟩ := of_mem_ways (List.mem_of_mem_head? hHead)
  obtain rfl : path = f.path := Option.some.inj (hPath'.symm.trans hPath)
  obtain rfl : line = f.line := (List.cons.inj (Option.some.inj (hLine'.symm.trans hLine))).2
  obtain ⟨-, -, hText⟩ := append_cons_inj (p := isBlank) f.indent_chars hBlanks (by decide) (by decide)
    hText
  obtain ⟨-, -, hText⟩ := append_cons_inj (p := Char.isDigit) f.number_chars hDigits (by decide)
    (by decide) hText
  refine ⟨?_, hPathChars⟩
  intro c hc
  rw [f.eq_of_match hFirst hSecond hText, List.dropWhile_append_of_pos hFirst] at hc
  exact hSecond c (List.dropWhile_subset _ hc)

def first : Text := f.name.takeWhile (wordOr "_:~")

def second : Text := f.name.dropWhile (wordOr "_:~")

theorem name_eq : f.name = f.first ++ f.second := (List.takeWhile_append_dropWhile).symm

def place : Regex := seqs
  [.char (· == ' '), .group 3 (.many (wordOr "_~./-")), .group 4 colonDigits,
    .opt (.group 5 colonDigits), .char (· == ' '), .many isDot]

theorem head?_group_colonDigits {n : Nat} {digits rest : Text} {before : Captures}
    (hDigits : ∀ c ∈ digits, c.isDigit = true) (hStop : ∀ c ∈ rest.head?, c.isDigit = false) :
    ((group n colonDigits).ways (':' :: (digits ++ rest)) before).head? =
      some (rest, (n, ':' :: digits) :: before) := by
  have hInner : (colonDigits.ways (':' :: (digits ++ rest)) before).head? = some (rest, before) :=
    head?_seq (head?_char rfl) (head?_many hDigits hStop)
  exact head?_group n (x := ':' :: digits) hInner

theorem head?_many_isDot (text : Text) (before : Captures) :
    ∃ rest, ((many isDot).ways text before).head? = some (rest, before) := by
  refine ⟨text.dropWhile isDot, ?_⟩
  have hSplit : text = text.takeWhile isDot ++ text.dropWhile isDot :=
    (List.takeWhile_append_dropWhile).symm
  rw [hSplit]
  refine (head?_many (fun c hc => List.mem_takeWhile_imp hc) ?_).trans ?_
  · intro c hc
    have hHead := List.head?_dropWhile_not isDot text
    rw [hc] at hHead
    exact hHead
  · rw [← hSplit]

/-- The column, if there is one, is matched too. -/
theorem head?_column (before : Captures) :
    ∃ captures, ((opt (group 5 colonDigits)).ways f.tail before).head? =
        some (' ' :: '(' :: (f.module ++ '+' :: (f.offset ++ [')', '\n'])), captures) ∧
      (captures = before ∨ ∃ digits, captures = (5, digits) :: before) := by
  unfold tail
  cases hColumn : f.column with
  | none => exact ⟨before, rfl, .inl rfl⟩
  | some digits =>
      refine ⟨(5, ':' :: digits) :: before, ?_, .inr ⟨_, rfl⟩⟩
      refine head?_opt_of_head? (head?_group_colonDigits (f.column_chars digits hColumn) ?_)
      rintro c ⟨⟩
      rfl

theorem head?_tail_not_digit (c : Char) (hc : c ∈ f.tail.head?) : c.isDigit = false := by
  unfold tail at hc
  cases hColumn : f.column with
  | none =>
      rw [hColumn] at hc
      obtain rfl : ' ' = c := Option.some.inj hc
      rfl
  | some digits =>
      rw [hColumn] at hc
      obtain rfl : ':' = c := Option.some.inj hc
      rfl

/-- The match of the place, behind the name. -/
theorem head?_place (hPath : ∀ c ∈ f.path, wordOr "_~./-" c = true) (before : Captures) :
    ∃ rest captures,
      (place.ways (' ' :: (f.path ++ ':' :: (f.line ++ f.tail))) before).head? = some (rest, captures) ∧
      captures.lookup 3 = some f.path ∧ captures.lookup 4 = some (':' :: f.line) := by
  obtain ⟨captures, hColumn, hCaptures⟩ :=
    f.head?_column ((4, ':' :: f.line) :: (3, f.path) :: before)
  obtain ⟨rest, hDots⟩ :=
    head?_many_isDot ('(' :: (f.module ++ '+' :: (f.offset ++ [')', '\n']))) captures
  refine ⟨rest, captures, ?_, ?_⟩
  · refine head?_seq (head?_char rfl) ?_
    refine head?_seq (head?_group 3 (head?_many hPath (by rintro c ⟨⟩; decide))) ?_
    refine head?_seq (head?_group_colonDigits f.line_chars f.head?_tail_not_digit) ?_
    exact head?_seq hColumn (head?_seq (head?_char rfl) hDots)
  · rcases hCaptures with rfl | ⟨digits, rfl⟩ <;> exact ⟨rfl, rfl⟩

/-- Nothing follows if the name takes the blank before the path. -/
theorem place_ways_of_longer {w z : Text} {groups : Captures} (hw : w ≠ [])
    (hEq : ' ' :: (f.path ++ ':' :: (f.line ++ f.tail)) = w ++ z)
    (hChars : ∀ c ∈ w, wordOr "*, _&()" c = true) : place.ways z groups = [] := by
  obtain ⟨d, w, rfl⟩ := List.exists_cons_of_ne_nil hw
  rw [List.cons_append, List.cons.injEq] at hEq
  cases z with
  | nil => rfl
  | cons c z =>
      have hNe : c ≠ ' ' := by
        rintro rfl
        refine not_append_cons (by decide) f.blank_not_mem_path ?_ hEq.2
        intro hColon
        exact absurd (hChars _ (List.mem_cons_of_mem _ hColon)) (by decide)
      simp [place, seqs, ways, hNe]

/-- What is covered is recognised. -/
theorem recognised_of_covered (h : f.Covered) : f.Recognised := by
  have hFirst : ∀ c ∈ f.first, wordOr "_:~" c = true := fun c hc => List.mem_takeWhile_imp hc
  obtain ⟨rest, captures, hPlace, hPath, hLine⟩ :=
    f.head?_place h.2 [(2, f.second), (1, f.first)]
  refine ⟨captures, ?_, hPath, hLine⟩
  have hBody : f.body = f.first ++ (f.second ++ ' ' :: (f.path ++ ':' :: (f.line ++ f.tail))) := by
    rw [body, f.name_eq, List.append_assoc]
  have hStop : ∀ c ∈ (f.second ++ ' ' :: (f.path ++ ':' :: (f.line ++ f.tail))).head?,
      wordOr "_:~" c = false := by
    intro c hc
    cases hSecond : f.second with
    | nil =>
        rw [hSecond] at hc
        obtain rfl : ' ' = c := Option.some.inj hc
        decide
    | cons d second =>
        rw [hSecond] at hc
        obtain rfl : d = c := Option.some.inj hc
        have hHead := List.head?_dropWhile_not (wordOr "_:~") f.name
        rw [show f.name.dropWhile (wordOr "_:~") = d :: second from hSecond] at hHead
        exact hHead
  have hHead : (regCallStackLine.ways f.text []).head? = some (rest, captures) := by
    rw [text, hBody]
    refine head?_seq (head?_many f.indent_chars (by rintro c ⟨⟩; decide)) ?_
    refine head?_seq (head?_char rfl) ?_
    refine head?_seq (head?_many f.number_chars (by rintro c ⟨⟩; decide)) ?_
    refine head?_seq (head?_char rfl) ?_
    refine head?_seq (head?_group 1 (head?_many hFirst hStop)) ?_
    exact head?_opt_group_many h.1 (fun w z groups => f.place_ways_of_longer) hPlace
  rw [find?, hHead]
  rfl

def file : Text := Posix.basename (Posix.normpath f.path)

def HasLocation (entry : Text) : Prop :=
  ∃ name : Text, entry = name ++ ' ' :: '(' :: (f.file ++ ':' :: (f.line ++ [')', '\n']))

/-- A recognised frame as a frame of a well-formed log. -/
theorem frame_of_recognised (h : f.Recognised) : ∃ frame : Frame, frame.line = f.text ∧
    frame.inSanitizer = sanitizerFile f.file ∧ ∃ entry ∈ frame.record, f.HasLocation entry := by
  obtain ⟨captures, hFind, hPath, hLine⟩ := h
  obtain ⟨name, hName⟩ := lookup_of_find? hFind (n := 1) (by decide)
  refine ⟨⟨f.text, captures, hFind⟩, rfl, ?_, _, ?_, name, rfl⟩
  · simp [Frame.inSanitizer, fileName, hPath, file]
  · simp [Frame.record, record, hName, hPath, hLine, file]

/-- A frame line is a call stack line or a line of no kind. -/
theorem kind_text : kind f.text = .other ∨ ∃ captures, kind f.text = .callStackLine captures := by
  have hBegins : Begins callStackLineWords f.text := by
    refine begins_of_word f.indent ['#'] f.indent_chars (by decide) ?_
    exact ⟨'#', [], rfl, by decide⟩
  cases hFind : regCallStackLine.find? f.text with
  | some captures => exact .inr ⟨captures, callStackLine_iff.mp hFind⟩
  | none =>
      left
      rw [kind, if_neg fun h => (begins_of_blockStart h).not_begins (by decide) hBegins,
        if_neg fun h => (begins_of_writeStart h).not_begins (by decide) hBegins,
        if_neg fun h => (begins_of_readStart h).not_begins (by decide) hBegins, hFind]
      simp only
      rw [if_neg fun h => not_begins_of_lineBreak (by decide) h hBegins,
        if_neg fun h => (begins_of_blockBreak h).not_begins (by decide) hBegins,
        if_neg fun h => (begins_of_blockEnd h).not_begins (by decide) hBegins]

/-- The frames behind a record do not replace it. -/
theorem keeps_records (outputtype : OutputType) (rest : List SymbolisedFrame) (s : SyncLoop) :
    (s.writeResultList ≠ [] →
      ((rest.map text).foldl (SyncLoop.step outputtype) s).writeResultList = s.writeResultList) ∧
    (s.readResultList ≠ [] →
      ((rest.map text).foldl (SyncLoop.step outputtype) s).readResultList = s.readResultList) := by
  induction rest generalizing s with
  | nil => exact ⟨fun _ => rfl, fun _ => rfl⟩
  | cons f rest ih =>
      rw [List.map_cons, List.foldl_cons, SyncLoop.step_eq]
      rcases f.kind_text with hKind | ⟨captures, hKind⟩
      · rw [hKind]
        exact ih s
      · rw [hKind]
        have hWrite := SyncLoop.frame_keeps_write outputtype s captures
        have hRead := SyncLoop.frame_keeps_read outputtype s captures
        constructor
        · intro hNe
          exact ((ih _).1 (by rwa [SyncLoop.stepKind, hWrite hNe])).trans (hWrite hNe)
        · intro hNe
          exact ((ih _).2 (by rwa [SyncLoop.stepKind, hRead hNe])).trans (hRead hNe)

/-- The frames that are passed over before the frame that is to be recorded. -/
def PassedOver (outputtype : OutputType) (g : SymbolisedFrame) : Prop :=
  outputtype = .verifier ∧ g.Covered ∧ sanitizerFile g.file = true

/-- Recognised frames are frames of a well-formed log. -/
theorem exists_frames {outputtype : OutputType} {skipped : List SymbolisedFrame}
    (h : ∀ g ∈ skipped, PassedOver outputtype g) :
    ∃ frames : List Frame, frames.map Frame.line = skipped.map text ∧
      ∀ g ∈ frames, outputtype = .verifier ∧ g.inSanitizer = true := by
  induction skipped with
  | nil => exact ⟨[], rfl, by simp⟩
  | cons g skipped ih =>
      rw [List.forall_mem_cons] at h
      obtain ⟨frames, hLines, hFrames⟩ := ih h.2
      obtain ⟨hOut, hCovered, hFile⟩ := h.1
      obtain ⟨frame, hLine, hSanitizer, -⟩ := g.frame_of_recognised (g.recognised_of_covered hCovered)
      refine ⟨frame :: frames, by rw [List.map_cons, List.map_cons, hLine, hLines], ?_⟩
      exact List.forall_mem_cons.mpr ⟨⟨hOut, hSanitizer.trans hFile⟩, hFrames⟩

/-- In an open section without a record, a covered frame is recorded. -/
theorem records_location {outputtype : OutputType} {skipped : List SymbolisedFrame} {s : SyncLoop}
    (rest : List SymbolisedFrame) (hCovered : f.Covered) (hFile : sanitizerFile f.file = false)
    (hSkipped : ∀ g ∈ skipped, PassedOver outputtype g) (hBlock : s.flagBlockStart = true) :
    (s.flagWriteStart = true → s.flagReadStart = false → s.writeResultList = [] →
      ∃ entry, (((skipped ++ f :: rest).map text).foldl (SyncLoop.step outputtype) s).writeResultList =
        [entry] ∧ f.HasLocation entry) ∧
    (s.flagReadStart = true → s.flagWriteStart = false → s.readResultList = [] →
      ∃ entry, (((skipped ++ f :: rest).map text).foldl (SyncLoop.step outputtype) s).readResultList =
        [entry] ∧ f.HasLocation entry) := by
  obtain ⟨frames, hLines, hFrames⟩ := exists_frames hSkipped
  obtain ⟨frame, hLine, hSanitizer, entry, hEntry, hLocation⟩ :=
    f.frame_of_recognised (f.recognised_of_covered hCovered)
  have hRecorded : recorded outputtype (frames ++ [frame]) = some entry :=
    (recorded_append [] hFrames (hSanitizer.trans hFile)).trans hEntry
  have hText : (skipped ++ f :: rest).map text =
      (frames ++ [frame]).map Frame.line ++ rest.map text := by
    simp [hLines, hLine]
  rw [hText, List.foldl_append]
  constructor
  · intro hWrite hRead hNil
    have hBuffer : (((frames ++ [frame]).map Frame.line).foldl (SyncLoop.step outputtype)
        s).writeResultList = [entry] := by
      rw [SyncLoop.foldl_frames_write hRead hWrite hBlock, hNil]
      simp only [takeFrames_nil, hRecorded, Option.toList_some]
    refine ⟨entry, ?_, hLocation⟩
    rw [(keeps_records outputtype rest _).1 (by rw [hBuffer]; simp), hBuffer]
  · intro hRead hWrite hNil
    have hBuffer : (((frames ++ [frame]).map Frame.line).foldl (SyncLoop.step outputtype)
        s).readResultList = [entry] := by
      rw [SyncLoop.foldl_frames_read hRead hWrite hBlock, hNil]
      simp only [takeFrames_nil, hRecorded, Option.toList_some]
    refine ⟨entry, ?_, hLocation⟩
    rw [(keeps_records outputtype rest _).2 (by rw [hBuffer]; simp), hBuffer]

/-- A frame line is recognised if and only if the expression covers its characters,
and then the record of a section is the location of this frame and not of a
caller behind it. -/
theorem recognised_iff_covered (f : SymbolisedFrame) :
    (f.Recognised ↔ f.Covered) ∧
    ∀ (outputtype : OutputType) (skipped rest : List SymbolisedFrame) (s : SyncLoop),
      f.Covered → sanitizerFile f.file = false → (∀ g ∈ skipped, PassedOver outputtype g) →
      s.flagBlockStart = true →
      (s.flagWriteStart = true → s.flagReadStart = false → s.writeResultList = [] →
        ∃ entry,
          (((skipped ++ f :: rest).map text).foldl (SyncLoop.step outputtype) s).writeResultList =
            [entry] ∧ f.HasLocation entry) ∧
      (s.flagReadStart = true → s.flagWriteStart = false → s.readResultList = [] →
        ∃ entry,
          (((skipped ++ f :: rest).map text).foldl (SyncLoop.step outputtype) s).readResultList =
            [entry] ∧ f.HasLocation entry) :=
  ⟨⟨f.covered_of_recognised, f.recognised_of_covered⟩,
    fun _ _ rest _ hCovered hFile hSkipped hBlock =>
      f.records_location rest hCovered hFile hSkipped hBlock⟩

/-- A frame of a member function of a template, called by `main`. -/
def vectorAt : SymbolisedFrame where
  indent := "    ".toList
  number := "0".toList
  name := "std::vector<int>::at(unsigned long)".toList
  path := "/a.h".toList
  line := "1".toList
  column := none
  module := "m".toList
  offset := "0x1".toList
  indent_chars := List.all_iff_forall_prop.mp (by decide)
  number_chars := List.all_iff_forall_prop.mp (by decide)
  path_chars := List.all_iff_forall_prop.mp (by decide)
  line_chars := List.all_iff_forall_prop.mp (by decide)
  line_ne := by decide
  column_chars := by decide
  name_apart := by decide +kernel

def callerOfAt : SymbolisedFrame where
  indent := "    ".toList
  number := "1".toList
  name := "main".toList
  path := "/b.cpp".toList
  line := "9".toList
  column := none
  module := "m".toList
  offset := "0x2".toList
  indent_chars := List.all_iff_forall_prop.mp (by decide)
  number_chars := List.all_iff_forall_prop.mp (by decide)
  path_chars := List.all_iff_forall_prop.mp (by decide)
  line_chars := List.all_iff_forall_prop.mp (by decide)
  line_ne := by decide
  column_chars := by decide
  name_apart := by decide

/-- The frame is not recognised, and the caller is recorded instead. -/
theorem vectorAt_not_recognised :
    ¬vectorAt.Recognised ∧
      (([vectorAt, callerOfAt].map text).foldl (SyncLoop.step .syncloop)
        { flagBlockStart := true, flagWriteStart := true }).writeResultList =
          ["main (b.cpp:9)\n".toList] := by
  refine ⟨?_, by decide⟩
  rintro ⟨captures, hFind, -⟩
  have hNone : regCallStackLine.find? vectorAt.text = none := by decide
  rw [hNone] at hFind
  cases hFind

end SymbolisedFrame
end ConAnalysis.Scripts.Tsan
