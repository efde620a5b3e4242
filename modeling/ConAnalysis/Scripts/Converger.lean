import ConAnalysis.Library.Regex
import Mathlib.Data.List.Nodup
import Mathlib.Data.List.TakeWhile
import Mathlib.Logic.Function.Basic

/-! `tsanOutputConverger.sh`: two folders of race reports become one. The checks of the
arguments have passed, so the folders exist and the merged one does not. -/
namespace ConAnalysis.Scripts.Converger
variable {Content : Type}

structure Folder (Content : Type) where
  path : Text
  files : List (Text × Content)
  nodup : (files.map Prod.fst).Nodup := by decide

namespace Folder
variable (F : Folder Content)

def names : List Text := F.files.map Prod.fst

def contents : List Content := F.files.map Prod.snd

def content (name : Text) : Option Content := F.files.lookup name

def pathOf (name : Text) : Text := F.path ++ '/' :: name

/-- Hidden files are not listed. -/
def listed : List (Text × Content) := F.files.filter fun file => file.1.head? ≠ some '.'

/-- `$FOLDER/*`: without a match the pattern stays. -/
def expand : List Text :=
  match F.listed with
  | [] => [F.pathOf ['*']]
  | files => files.map fun file => F.pathOf file.1

end Folder

/-- What bash makes of a variable that is not quoted, and the programs that are called:
`md5sum` prints a line for each file, `grep` prints some of them, and `cp` copies files under
their base names. -/
structure Shell (Content : Type) where
  words : Text → List Text
  md5sum : Text → Content → Text
  grep : List Text → List Text → List Text
  cp : List Text → List (Text × Content)

/-- `awk '{print $1}'` for one line. -/
def awkFirst (line : Text) : Text :=
  (line.dropWhile fun c => c = ' ' || c = '\t').takeWhile fun c => c ≠ ' ' && c ≠ '\t'

/-- `$(...)`: the lines, without the newlines at the end. -/
def capture (lines : List Text) : Text :=
  ((lines.flatMap (· ++ ['\n'])).reverse.dropWhile (· = '\n')).reverse

/-- The merged folder. `received` are the copies that have been made, in their order. -/
structure Merging (Content : Type) where
  merged : Text → Option Content
  received : List (Text × Content) := []

def Merging.receive (m : Merging Content) (file : Text × Content) : Merging Content where
  merged := Function.update m.merged file.1 (some file.2)
  received := m.received ++ [file]

section Script
variable (sh : Shell Content) (folder1 folder2 : Folder Content)

/-- `md5_folder1` and `md5_folder2`. -/
def md5Folder (F : Folder Content) : List Text :=
  F.listed.map fun file => sh.md5sum (F.pathOf file.1) file.2

/-- `sum` and `prev_sum`. -/
def sumOf (F : Folder Content) (f : Text) : Text :=
  capture ((sh.grep (sh.words f) (md5Folder sh F)).map awkFirst)

def ifDifferent (f1 : Text) : Bool :=
  folder1.expand.foldl (fun different f2 =>
    if sumOf sh folder1 f2 = sumOf sh folder2 f1 then false else different) true

def mergeFile (m : Merging Content) (f1 : Text) : Merging Content :=
  if ifDifferent sh folder1 folder2 f1 then (sh.cp (sh.words f1)).foldl Merging.receive m else m

/-- The script, from `cp -r` on. -/
def converge : Merging Content :=
  folder2.expand.foldl (mergeFile sh folder1 folder2) { merged := folder1.content }

/-- Whether the checksum of a file of the second folder is found in the first one. -/
def found (f1 : Text) : Bool :=
  folder1.expand.any fun f2 => sumOf sh folder1 f2 = sumOf sh folder2 f1

def newFiles : List (Text × Content) :=
  (folder2.expand.filter fun f1 => !found sh folder1 folder2 f1).flatMap fun f1 => sh.cp (sh.words f1)

end Script

/-- What is under a name when files have been copied one after the other. -/
def lastContent (files : List (Text × Content)) (name : Text) : Option Content :=
  files.reverse.lookup name

section Lookup
variable {files : List (Text × Content)} {name : Text} {c : Content}

/-- What a name stands for is in the folder under that name. -/
theorem mem_of_lookup (h : files.lookup name = some c) : (name, c) ∈ files := by
  obtain ⟨before, after, hFiles, -⟩ := List.lookup_eq_some_iff.mp h
  rw [hFiles]
  exact List.mem_append_right _ List.mem_cons_self

/-- Names are not given twice, so the converse holds as well. -/
theorem lookup_of_mem (hNodup : (files.map Prod.fst).Nodup) (h : (name, c) ∈ files) :
    files.lookup name = some c := by
  induction files with
  | nil => cases h
  | cons file files ih =>
      obtain ⟨name', c'⟩ := file
      rw [List.map_cons, List.nodup_cons] at hNodup
      rcases List.mem_cons.mp h with hEq | hMem
      · cases hEq
        rw [List.lookup_cons_self]
      · have hNe : name ≠ name' := by
          rintro rfl
          exact hNodup.1 (List.mem_map.mpr ⟨_, hMem, rfl⟩)
        rw [List.lookup_cons, beq_eq_false_iff_ne.mpr hNe]
        exact ih hNodup.2 hMem

theorem Folder.content_eq_some {F : Folder Content} : F.content name = some c ↔
    (name, c) ∈ F.files := ⟨mem_of_lookup, lookup_of_mem F.nodup⟩

theorem mem_of_lastContent (h : lastContent files name = some c) : (name, c) ∈ files :=
  List.mem_reverse.mp (mem_of_lookup h)

/-- Of copies made one after the other all are there at the end, as long as no two share a name. -/
theorem lastContent_of_mem (hNodup : (files.map Prod.fst).Nodup) (h : (name, c) ∈ files) :
    lastContent files name = some c := by
  refine lookup_of_mem ?_ (List.mem_reverse.mpr h)
  rw [List.map_reverse]
  exact List.nodup_reverse.mpr hNodup

theorem lastContent_eq_none (h : name ∉ files.map Prod.fst) : lastContent files name = none := by
  cases hLast : lastContent files name with
  | none => rfl
  | some c => exact absurd (List.mem_map_of_mem (mem_of_lastContent hLast)) h

/-- A name that is copied to stands for something afterwards. -/
theorem exists_lastContent (h : name ∈ files.map Prod.fst) :
    ∃ c, lastContent files name = some c := by
  cases hLast : lastContent files name with
  | some c => exact ⟨c, rfl⟩
  | none =>
      obtain ⟨file, hFile, rfl⟩ := List.mem_map.mp h
      have hNot := List.lookup_eq_none_iff.mp hLast file (List.mem_reverse.mpr hFile)
      simp at hNot

/-- Copies are received in their order. A later one replaces an earlier one of the same name,
and those of the first folder. -/
theorem foldl_receive (m : Merging Content) :
    (files.foldl Merging.receive m).received = m.received ++ files ∧
      ∀ name, (files.foldl Merging.receive m).merged name =
        (lastContent files name).or (m.merged name) := by
  induction files generalizing m with
  | nil => exact ⟨(List.append_nil _).symm, fun name => rfl⟩
  | cons file files ih =>
      obtain ⟨name', c⟩ := file
      obtain ⟨hReceived, hMerged⟩ := ih (m.receive (name', c))
      rw [List.foldl_cons]
      refine ⟨?_, fun name => ?_⟩
      · rw [hReceived, Merging.receive, List.append_assoc, List.singleton_append]
      · rw [hMerged, lastContent, lastContent, List.reverse_cons, List.lookup_append, Merging.receive,
          Option.or_assoc]
        congr 1
        by_cases hName : name = name'
        · subst hName
          simp
        · have hLookup : List.lookup name [(name', c)] = none := by
            rw [List.lookup_cons, beq_eq_false_iff_ne.mpr hName]
            rfl
          rw [hLookup, Option.none_or]
          exact Function.update_of_ne hName _ _

end Lookup

section Loops
variable (sh : Shell Content) (folder1 folder2 : Folder Content)

/-- The flag stays if the checksum is found nowhere. -/
theorem ifDifferent_eq (f1 : Text) :
    ifDifferent sh folder1 folder2 f1 = !found sh folder1 folder2 f1 := by
  have hLoop : ∀ (fs : List Text) (different : Bool), fs.foldl (fun different f2 =>
      if sumOf sh folder1 f2 = sumOf sh folder2 f1 then false else different) different =
        (different && !fs.any fun f2 => sumOf sh folder1 f2 = sumOf sh folder2 f1) := by
    intro fs
    induction fs with
    | nil => simp
    | cons f2 fs ih =>
        intro different
        rw [List.foldl_cons, ih, List.any_cons]
        by_cases hSum : sumOf sh folder1 f2 = sumOf sh folder2 f1 <;> simp [hSum]
  exact (hLoop folder1.expand true).trans (Bool.true_and _)

/-- The outer loop makes the copies of all files that are not found. -/
theorem foldl_mergeFile (fs : List Text) (m : Merging Content) :
    fs.foldl (mergeFile sh folder1 folder2) m =
      ((fs.filter fun f1 => !found sh folder1 folder2 f1).flatMap fun f1 =>
        sh.cp (sh.words f1)).foldl Merging.receive m := by
  induction fs generalizing m with
  | nil => rfl
  | cons f1 fs ih =>
      rw [List.foldl_cons, ih, mergeFile, ifDifferent_eq]
      cases hFound : found sh folder1 folder2 f1 with
      | true =>
          rw [List.filter_cons_of_neg (by simp [hFound])]
          rfl
      | false =>
          rw [List.filter_cons_of_pos (by simp [hFound]), List.flatMap_cons, List.foldl_append]
          rfl

/-- The loops of the script copy the files whose checksum they have not found. -/
theorem converge_received :
    (converge sh folder1 folder2).received = newFiles sh folder1 folder2 := by
  rw [converge, foldl_mergeFile, (foldl_receive _).1]
  rfl

/-- Under each name the merged folder has the last copy, or else the file of the first folder. -/
theorem converge_merged (name : Text) : (converge sh folder1 folder2).merged name =
    (lastContent (newFiles sh folder1 folder2) name).or (folder1.content name) := by
  rw [converge, foldl_mergeFile, (foldl_receive _).2]
  rfl

end Loops

/-- Nothing is lost, and nothing is copied twice. -/
structure LosesNothing (folder1 folder2 : Folder Content) (m : Merging Content) : Prop where
  complete : ∀ c, c ∈ folder1.contents ∨ c ∈ folder2.contents → ∃ name, m.merged name = some c
  unchanged : ∀ name c, folder1.content name = some c → m.merged name = some c
  onlyNew : ∀ file ∈ m.received, file.2 ∉ folder1.contents

/-- What the files whose checksum is not found have to be like. -/
structure MergesCleanly (sh : Shell Content) (folder1 folder2 : Folder Content) : Prop where
  newContent : ∀ file ∈ newFiles sh folder1 folder2, file.2 ∉ folder1.contents
  newName : ∀ file ∈ newFiles sh folder1 folder2, file.1 ∉ folder1.names
  everyNew : ∀ c ∈ folder2.contents, c ∉ folder1.contents →
    ∃ name, lastContent (newFiles sh folder1 folder2) name = some c

section Clean
variable {sh : Shell Content} {folder1 folder2 : Folder Content}

/-- Nothing is lost exactly if the copies are new, in content and in name, and all new contents
are among them. This holds for any shell. -/
theorem losesNothing_iff_mergesCleanly :
    LosesNothing folder1 folder2 (converge sh folder1 folder2) ↔
      MergesCleanly sh folder1 folder2 := by
  constructor
  · intro h
    have hNew := h.onlyNew
    rw [converge_received] at hNew
    refine ⟨hNew, ?_, ?_⟩
    · intro file hFile hName
      obtain ⟨old, hOld, hSame⟩ := List.mem_map.mp hName
      have hKept := h.unchanged old.1 old.2 (Folder.content_eq_some.mpr hOld)
      obtain ⟨c, hLast⟩ := exists_lastContent (List.mem_map_of_mem hFile)
      rw [converge_merged, hSame, hLast, Option.some_or, Option.some.injEq] at hKept
      refine hNew _ (mem_of_lastContent hLast) ?_
      exact List.mem_map.mpr ⟨old, hOld, hKept.symm⟩
    · intro c hc hNot
      obtain ⟨name, hMerged⟩ := h.complete c (.inr hc)
      rw [converge_merged, Option.or_eq_some_iff] at hMerged
      rcases hMerged with hLast | ⟨-, hOld⟩
      · exact ⟨name, hLast⟩
      · exact absurd (List.mem_map.mpr ⟨_, Folder.content_eq_some.mp hOld, rfl⟩) hNot
  · intro h
    have hKept : ∀ name c, folder1.content name = some c →
        (converge sh folder1 folder2).merged name = some c := by
      intro name c hOld
      have hName : name ∉ (newFiles sh folder1 folder2).map Prod.fst := by
        intro hMem
        obtain ⟨file, hFile, rfl⟩ := List.mem_map.mp hMem
        exact h.newName file hFile (List.mem_map.mpr ⟨_, Folder.content_eq_some.mp hOld, rfl⟩)
      rw [converge_merged, lastContent_eq_none hName, Option.none_or]
      exact hOld
    refine ⟨?_, hKept, ?_⟩
    · intro c hc
      by_cases hOld : c ∈ folder1.contents
      · obtain ⟨⟨name, c⟩, hFile, rfl⟩ := List.mem_map.mp hOld
        exact ⟨name, hKept name c (Folder.content_eq_some.mpr hFile)⟩
      · obtain ⟨name, hLast⟩ := h.everyNew c (hc.resolve_left hOld) hOld
        exact ⟨name, by rw [converge_merged, hLast, Option.some_or]⟩
    · rw [converge_received]
      exact h.newContent

end Clean

/-- Files that are all listed, with names that the shell takes as one word and `grep` finds in
their own line only, so that the look-up gives the checksum of the file. -/
structure PlainFiles (sh : Shell Content) (md5 : Content → Text) (F : Folder Content) : Prop where
  visible : ∀ file ∈ F.files, file.1.head? ≠ some '.'
  checksum : ∀ file ∈ F.files, md5 file.2 ≠ [] ∧ '\n' ∉ md5 file.2
  ownLine : ∀ file ∈ F.files,
    (sh.grep (sh.words (F.pathOf file.1)) (md5Folder sh F)).map awkFirst = [md5 file.2]
  oneWord : ∀ file ∈ F.files, sh.cp (sh.words (F.pathOf file.1)) = [file]
  noLine : F.files = [] → sh.grep (sh.words (F.pathOf ['*'])) [] = []
  noMatch : F.files = [] → sh.cp (sh.words (F.pathOf ['*'])) = []

section Plain
variable {sh : Shell Content} {md5 : Content → Text} {F folder1 folder2 : Folder Content}

/-- One line without a break is captured as it is. -/
theorem capture_singleton {text : Text} (h : '\n' ∉ text) : capture [text] = text := by
  have hKeep : text.reverse.dropWhile (· = '\n') = text.reverse := by
    rw [List.dropWhile_eq_self_iff]
    intro hLength hNewline
    refine h (List.mem_reverse.mp ?_)
    rw [decide_eq_true_eq] at hNewline
    exact hNewline ▸ List.getElem_mem hLength
  rw [capture, List.flatMap_singleton, List.reverse_append, List.reverse_singleton,
    List.singleton_append, List.dropWhile_cons_of_pos (by simp), hKeep, List.reverse_reverse]

namespace PlainFiles

theorem listed_eq (h : PlainFiles sh md5 F) : F.listed = F.files :=
  List.filter_eq_self.mpr fun file hFile => by simpa using h.visible file hFile

/-- The pattern has matches unless the folder is empty. -/
theorem expand_eq (h : PlainFiles sh md5 F) (hFiles : F.files ≠ []) :
    F.expand = F.files.map fun file => F.pathOf file.1 := by
  rw [Folder.expand, h.listed_eq]
  split
  · next hNil => exact absurd hNil hFiles
  · rfl

/-- Without files the pattern stands for itself, and finds nothing. -/
theorem expand_nil (h : PlainFiles sh md5 F) (hFiles : F.files = []) :
    F.expand = [F.pathOf ['*']] := by
  rw [Folder.expand, h.listed_eq, hFiles]

/-- For plain names the look-up in the list of checksums finds the one that belongs to the file. -/
theorem sumOf_eq (h : PlainFiles sh md5 F) {file : Text × Content} (hFile : file ∈ F.files) :
    sumOf sh F (F.pathOf file.1) = md5 file.2 := by
  rw [sumOf, h.ownLine file hFile, capture_singleton (h.checksum file hFile).2]

/-- The look-up compares contents. -/
theorem found_iff (hMd5 : Function.Injective md5) (h₁ : PlainFiles sh md5 folder1)
    (h₂ : PlainFiles sh md5 folder2) {file : Text × Content} (hFile : file ∈ folder2.files) :
    found sh folder1 folder2 (folder2.pathOf file.1) = true ↔ file.2 ∈ folder1.contents := by
  rw [found, List.any_eq_true]
  simp only [decide_eq_true_eq, h₂.sumOf_eq hFile]
  by_cases hFiles : folder1.files = []
  · have hNone : sumOf sh folder1 (folder1.pathOf ['*']) = [] := by
      rw [sumOf, md5Folder, h₁.listed_eq, hFiles, List.map_nil, h₁.noLine hFiles]
      rfl
    rw [h₁.expand_nil hFiles, Folder.contents, hFiles]
    simp [hNone, (h₂.checksum file hFile).1.symm]
  · rw [h₁.expand_eq hFiles, Folder.contents]
    simp only [List.mem_map, exists_exists_and_eq_and]
    refine exists_congr fun old => and_congr_right fun hOld => ?_
    rw [h₁.sumOf_eq hOld, hMd5.eq_iff]

/-- So the files that are copied are those whose checksum is not found, each once. -/
theorem newFiles_eq (h₂ : PlainFiles sh md5 folder2) : newFiles sh folder1 folder2 =
    folder2.files.filter fun file => !found sh folder1 folder2 (folder2.pathOf file.1) := by
  unfold newFiles
  by_cases hFiles : folder2.files = []
  · rw [h₂.expand_nil hFiles, hFiles, List.filter_nil, List.flatMap_eq_nil_iff]
    intro f hf
    rw [List.mem_singleton.mp (List.mem_filter.mp hf).1, h₂.noMatch hFiles]
  · rw [h₂.expand_eq hFiles, List.filter_map, List.flatMap_map]
    have hCopy : ∀ files ⊆ folder2.files,
        files.flatMap (fun file => sh.cp (sh.words (folder2.pathOf file.1))) = files := by
      intro files hSub
      induction files with
      | nil => rfl
      | cons file files ih =>
          rw [List.cons_subset] at hSub
          rw [List.flatMap_cons, h₂.oneWord file hSub.1, ih hSub.2, List.singleton_append]
    exact hCopy _ (List.filter_subset_self _)

/-- Then only the names have to be new. -/
theorem mergesCleanly_iff (hMd5 : Function.Injective md5) (h₁ : PlainFiles sh md5 folder1)
    (h₂ : PlainFiles sh md5 folder2) : MergesCleanly sh folder1 folder2 ↔
      ∀ file ∈ folder2.files, file.2 ∉ folder1.contents → file.1 ∉ folder1.names := by
  have hMem : ∀ file, file ∈ newFiles sh folder1 folder2 ↔
      file ∈ folder2.files ∧ file.2 ∉ folder1.contents := by
    intro file
    rw [h₂.newFiles_eq, List.mem_filter]
    refine and_congr_right fun hFile => ?_
    rw [Bool.not_eq_true', ← Bool.not_eq_true, h₁.found_iff hMd5 h₂ hFile]
  constructor
  · exact fun h file hFile hNew => h.newName file ((hMem file).mpr ⟨hFile, hNew⟩)
  · intro h
    refine ⟨fun file hFile => ((hMem file).mp hFile).2, fun file hFile => ?_, ?_⟩
    · obtain ⟨hFile, hNew⟩ := (hMem file).mp hFile
      exact h file hFile hNew
    · intro c hc hNew
      obtain ⟨file, hFile, rfl⟩ := List.mem_map.mp hc
      have hNodup : ((newFiles sh folder1 folder2).map Prod.fst).Nodup := by
        rw [h₂.newFiles_eq]
        exact folder2.nodup.sublist (List.filter_sublist.map Prod.fst)
      exact ⟨file.1, lastContent_of_mem hNodup ((hMem file).mpr ⟨hFile, hNew⟩)⟩

end PlainFiles
end Plain

/-- The folders are merged without a loss exactly if the files that are not found are new by
content and by name, and no new content is missing among them; with plain files, exactly if no
new content of the second folder has a name of the first one. -/
theorem losesNothing_iff (sh : Shell Content) (folder1 folder2 : Folder Content) :
    (LosesNothing folder1 folder2 (converge sh folder1 folder2) ↔
        MergesCleanly sh folder1 folder2) ∧
      ∀ md5 : Content → Text, Function.Injective md5 → PlainFiles sh md5 folder1 →
        PlainFiles sh md5 folder2 →
        (LosesNothing folder1 folder2 (converge sh folder1 folder2) ↔
          ∀ file ∈ folder2.files, file.2 ∉ folder1.contents → file.1 ∉ folder1.names) :=
  ⟨losesNothing_iff_mergesCleanly, fun _ hMd5 h₁ h₂ =>
    losesNothing_iff_mergesCleanly.trans (h₁.mergesCleanly_iff hMd5 h₂)⟩

/-- A basic regular expression without operators other than the dot. -/
def matchesAt : Text → Text → Bool
  | [], _ => true
  | _ :: _, [] => false
  | p :: pattern, c :: line => (p = '.' || p = c) && matchesAt pattern line

/-- Every word stands for itself, and every content is its own checksum. -/
def plainShell (folders : List (Folder Text)) : Shell Text where
  words f := [f]
  md5sum path c := c ++ ' ' :: ' ' :: path
  grep patterns lines := patterns.flatMap fun pattern =>
    lines.filter fun line => line.tails.any (matchesAt pattern)
  cp sources := folders.flatMap fun F => F.files.filter fun file =>
    sources.any fun source => source = F.pathOf file.1

def firstRun : Folder Text where
  path := "run1".toList
  files := [("0.race".toList, "f:3".toList)]

def secondRun : Folder Text where
  path := "run2".toList
  files := [("0.race".toList, "g:8".toList)]

/-- The report of the second run is copied onto that of the first run. -/
theorem firstRun_overwritten :
    (converge (plainShell [firstRun, secondRun]) firstRun secondRun).merged "0.race".toList =
        some "g:8".toList ∧
      ¬LosesNothing firstRun secondRun
        (converge (plainShell [firstRun, secondRun]) firstRun secondRun) := by
  have hMerged : (converge (plainShell [firstRun, secondRun]) firstRun secondRun).merged
      "0.race".toList = some "g:8".toList := by decide
  refine ⟨hMerged, fun h => ?_⟩
  have hKept := h.unchanged "0.race".toList "f:3".toList (by decide)
  rw [hMerged] at hKept
  exact absurd hKept (by decide)

/-- The same report under the same name, and a new one under a new name. -/
def laterRun : Folder Text where
  path := "run3".toList
  files := [("0.race".toList, "f:3".toList), ("1.race".toList, "g:8".toList)]

theorem losesNothing_iff_laterRun : LosesNothing firstRun laterRun
    (converge (plainShell [firstRun, laterRun]) firstRun laterRun) := by
  have h₁ : PlainFiles (plainShell [firstRun, laterRun]) id firstRun := by
    constructor <;> decide
  have h₂ : PlainFiles (plainShell [firstRun, laterRun]) id laterRun := by
    constructor <;> decide
  exact ((losesNothing_iff (plainShell [firstRun, laterRun]) firstRun laterRun).2 id
    Function.injective_id h₁ h₂).mpr (by decide)

end ConAnalysis.Scripts.Converger
