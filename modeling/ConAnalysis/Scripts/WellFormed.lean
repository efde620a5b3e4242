import ConAnalysis.Scripts.RoundTrip
import ConAnalysis.Scripts.SyncLoop

/-! Well-formed thread sanitizer logs: lists of data race blocks. -/
namespace ConAnalysis.Scripts.Tsan
open Regex

/-- A line that is accepted as a call stack line. -/
structure Frame where
  line : Text
  captures : Captures
  accepted : regCallStackLine.find? line = some captures

namespace Frame

def record (f : Frame) : Option Text := Tsan.record f.captures

/-- The frame lies in one of the files of the sanitizer. -/
def inSanitizer (f : Frame) : Bool := (fileName f.captures).any sanitizerFile

/-- A frame of a well formed log is read as one, with the captures that it was made from. -/
theorem kind_line (f : Frame) : kind f.line = .callStackLine f.captures :=
  callStackLine_iff.mp f.accepted

theorem record_isSome (f : Frame) : ∃ entry, f.record = some entry := by
  obtain ⟨r, hr⟩ := Tsan.record_eq_text f.accepted
  exact ⟨_, hr⟩

end Frame

inductive Access where
  | write | read | other
deriving DecidableEq, Repr

def Access.kind : Access → Kind
  | .write => .writeStart
  | .read => .readStart
  | .other => .other

structure Section where
  access : Access
  header : Text
  frames : List Frame
  blank : Text
  header_kind : kind header = access.kind
  blank_kind : kind blank = .lineBreak

def Section.lines (s : Section) : List Text := s.header :: (s.frames.map Frame.line ++ [s.blank])

structure Block where
  opening : Text
  warning : Text
  sections : List Section
  summary : Text
  closing : Text
  opening_kind : kind opening = .blockBreak
  warning_kind : kind warning = .blockStart
  summary_kind : kind summary = .blockEnd
  closing_kind : kind closing = .blockBreak

def Block.lines (b : Block) : List Text :=
  b.opening :: b.warning :: (b.sections.flatMap Section.lines ++ [b.summary, b.closing])

def logOf (blocks : List Block) : List Text := blocks.flatMap Block.lines

def numbered (contents : List (List Text)) : List (Nat × List Text) :=
  contents.zipIdx.map fun (content, i) => (i, content)

theorem numbered_concat (contents : List (List Text)) (content : List Text) :
    numbered (contents ++ [content]) = numbered contents ++ [(contents.length, content)] := by
  simp [numbered, List.zipIdx_append]

theorem length_numbered (contents : List (List Text)) :
    (numbered contents).length = contents.length := by
  simp [numbered]

/-- The boundary of a log of blocks is its last line. -/
theorem handled_logOf (blocks : List Block) :
    ∃ last, (∀ line ∈ last, kind line = .blockBreak) ∧
      logOf blocks = handled 0 (checkBlockIntegrity 0 (logOf blocks)) (logOf blocks) ++ last := by
  induction blocks using List.reverseRecOn with
  | nil => exact ⟨[], by simp, rfl⟩
  | append_singleton blocks b _ =>
      have hLog : logOf (blocks ++ [b]) = (logOf blocks ++ (b.opening :: b.warning ::
          (b.sections.flatMap Section.lines ++ [b.summary]))) ++ [b.closing] := by
        simp [logOf, Block.lines]
      refine ⟨[b.closing], by simp [b.closing_kind], ?_⟩
      have hBoundary : checkBlockIntegrity 0 (logOf (blocks ++ [b])) = (logOf blocks ++
          (b.opening :: b.warning :: (b.sections.flatMap Section.lines ++ [b.summary]))).length + 1 := by
        rw [hLog]
        exact lastBlockEnd_of_last (blockBreak_iff.mpr b.closing_kind) (by simp)
      rw [hBoundary, handled_zero, Nat.add_sub_cancel, hLog, List.take_left]

end ConAnalysis.Scripts.Tsan
