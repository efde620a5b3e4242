import Mathlib.Algebra.Group.Nat.Defs
import Mathlib.Data.List.Basic
import Mathlib.Data.List.TakeWhile
import Mathlib.Tactic.Common

/-! `sscanf`: the fields that a format assigns before its first failure. -/
namespace Scanf

/-- What `isspace` accepts. -/
def isSpace (c : Char) : Bool :=
  c == ' ' || c == '\t' || c == '\n' || c == '\x0b' || c == '\x0c' || c == '\r'

inductive Directive where
  /-- White space in the format: skip any amount of it. -/
  | space
  | exactly (c : Char)
  /-- The directive `%s`. -/
  | string
  /-- The directive `%[...]`. -/
  | scanset (p : Char → Bool)
  /-- The directive `%u` into 32 bits. -/
  | unsigned

inductive Field where
  | text (t : List Char)
  | number (n : Nat)
deriving DecidableEq, Repr

def numeral (digits : List Char) : Nat := digits.foldl (fun n c => 10 * n + (c.toNat - 48)) 0

/-- What `%u` stores: the number is converted in 64 bits, where it saturates and a minus
sign negates it, and the lower 32 of them are kept. -/
def unsignedValue (negative : Bool) (digits : List Char) : Nat :=
  if 2 ^ 64 ≤ numeral digits then 2 ^ 32 - 1
  else if negative then (2 ^ 32 - numeral digits % 2 ^ 32) % 2 ^ 32
  else numeral digits % 2 ^ 32

/-- Whatever the digits, the value fits in 32 bits. -/
theorem unsignedValue_lt (negative : Bool) (digits : List Char) :
    unsignedValue negative digits < 2 ^ 32 := by
  unfold unsignedValue
  split
  · decide
  · split <;> exact Nat.mod_lt _ (by decide)

/-- A number that fits is stored as it is. -/
theorem unsignedValue_of_lt {digits : List Char} (h : numeral digits < 2 ^ 32) :
    unsignedValue false digits = numeral digits := by
  have hSmall : ¬2 ^ 64 ≤ numeral digits := Nat.not_le.mpr (h.trans (by decide))
  rw [unsignedValue, if_neg hSmall, if_neg Bool.false_ne_true, Nat.mod_eq_of_lt h]

def takeSign : List Char → Bool × List Char
  | '-' :: rest => (true, rest)
  | '+' :: rest => (false, rest)
  | text => (false, text)

@[grind =]
def scan : List Directive → List Char → List Field
  | [], _ => []
  | .space :: format, text => scan format (text.dropWhile isSpace)
  | .exactly c :: format, text =>
      match text with
      | [] => []
      | d :: rest => if d = c then scan format rest else []
  | .string :: format, text =>
      let start := text.dropWhile isSpace
      match start.takeWhile (!isSpace ·) with
      | [] => []
      | word => .text word :: scan format (start.dropWhile (!isSpace ·))
  | .scanset p :: format, text =>
      match text.takeWhile p with
      | [] => []
      | word => .text word :: scan format (text.dropWhile p)
  | .unsigned :: format, text =>
      let (negative, start) := takeSign (text.dropWhile isSpace)
      match start.takeWhile Char.isDigit with
      | [] => []
      | digits => .number (unsignedValue negative digits) :: scan format (start.dropWhile Char.isDigit)

section Stop
variable {p : Char → Bool} {c : Char}

/-- A character that is not taken separates what stands before it from the rest. -/
theorem takeWhile_append_stop (h : p c = false) (before rest : List Char) :
    (before ++ c :: rest).takeWhile p = before.takeWhile p := by
  induction before with
  | nil => simp [h]
  | cons d before ih =>
      rw [List.cons_append, List.takeWhile_cons, List.takeWhile_cons, ih]

/-- Dropping ends at a character that does not belong to the class. -/
theorem dropWhile_append_stop (h : p c = false) (before rest : List Char) :
    (before ++ c :: rest).dropWhile p = before.dropWhile p ++ c :: rest := by
  induction before with
  | nil => simp [h]
  | cons d before ih =>
      rw [List.cons_append, List.dropWhile_cons, List.dropWhile_cons, ih]
      split <;> rfl

end Stop

section Directives
variable {format : List Directive} {text : List Char}

/-- `%s` skips spaces and takes the word behind them. -/
theorem scan_string (h : (text.dropWhile isSpace).takeWhile (!isSpace ·) ≠ []) :
    scan (.string :: format) text = .text ((text.dropWhile isSpace).takeWhile (!isSpace ·)) ::
      scan format ((text.dropWhile isSpace).dropWhile (!isSpace ·)) := by
  obtain ⟨c, word, hWord⟩ := List.exists_cons_of_ne_nil h
  simp only [scan, hWord]

/-- A class without a character in front fails, and so does the rest of the format. -/
theorem scan_scanset_nil {p : Char → Bool} (h : text.takeWhile p = []) :
    scan (.scanset p :: format) text = [] := by
  rw [scan, h]

/-- Otherwise it takes the longest stretch, without skipping spaces. -/
theorem scan_scanset {p : Char → Bool} (h : text.takeWhile p ≠ []) :
    scan (.scanset p :: format) text =
      .text (text.takeWhile p) :: scan format (text.dropWhile p) := by
  obtain ⟨c, word, hWord⟩ := List.exists_cons_of_ne_nil h
  simp only [scan, hWord]

theorem scan_exactly_self (c : Char) (rest : List Char) :
    scan (.exactly c :: format) (c :: rest) = scan format rest := if_pos rfl

theorem not_isSpace_of_isDigit {c : Char} (h : c.isDigit = true) : isSpace c = false := by
  by_contra hSpace
  simp only [isSpace, Bool.not_eq_false, Bool.or_eq_true, beq_iff_eq] at hSpace
  rcases hSpace with ((((rfl | rfl) | rfl) | rfl) | rfl) | rfl <;> simp at h

/-- A number without a sign in front is taken as it stands. -/
theorem takeSign_of_ne {c : Char} {rest : List Char} (h : c ≠ '-' ∧ c ≠ '+') :
    takeSign (c :: rest) = (false, c :: rest) := by
  unfold takeSign
  split
  · next hEq => exact absurd (List.cons.inj hEq).1 h.1
  · next hEq => exact absurd (List.cons.inj hEq).1 h.2
  · rfl

/-- Digits are read up to the next character that is none. -/
theorem scan_unsigned {digits : List Char} {c : Char} {rest : List Char}
    (hText : text.dropWhile isSpace = digits ++ c :: rest)
    (hDigits : ∀ d ∈ digits, d.isDigit = true) (hNe : digits ≠ []) (hStop : c.isDigit = false) :
    scan (.unsigned :: format) text =
      .number (unsignedValue false digits) :: scan format (c :: rest) := by
  obtain ⟨d, ds, rfl⟩ := List.exists_cons_of_ne_nil hNe
  have hFirst : d ≠ '-' ∧ d ≠ '+' := by
    constructor <;> rintro rfl <;> simp at hDigits
  have hTake : (d :: ds ++ c :: rest).takeWhile Char.isDigit = d :: ds := by
    rw [List.takeWhile_append_of_pos hDigits, List.takeWhile_cons, if_neg (by simp [hStop]),
      List.append_nil]
  have hDrop : (d :: ds ++ c :: rest).dropWhile Char.isDigit = c :: rest := by
    rw [List.dropWhile_append_of_pos hDigits, List.dropWhile_cons, if_neg (by simp [hStop])]
  have hSign : takeSign (text.dropWhile isSpace) = (false, d :: ds ++ c :: rest) := by
    rw [hText]
    exact takeSign_of_ne hFirst
  simp only [scan, hSign, hTake, hDrop]

/-- Something else than digits, a sign or white space cannot be read. -/
theorem scan_unsigned_nil {c : Char} {rest : List Char} (hText : text.dropWhile isSpace = c :: rest)
    (hDigit : c.isDigit = false) (hSign : c ≠ '-' ∧ c ≠ '+') :
    scan (.unsigned :: format) text = [] := by
  have hTake : (c :: rest).takeWhile Char.isDigit = [] := by
    rw [List.takeWhile_cons, if_neg (by simp [hDigit])]
  simp only [scan, hText, takeSign_of_ne hSign, hTake]

end Directives
end Scanf
