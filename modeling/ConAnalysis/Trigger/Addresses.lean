import Mathlib.Data.List.Basic
import ConAnalysis.Library.Regex

/-! `get_addr` of `trigger.py`: the addresses of the variables on a source line. -/
namespace ConAnalysis.Trigger

/-- A file and a line, as in `FILE_WRITE` and `LINE_NUM_WRITE`. -/
structure Location where
  file : Text
  line : Nat
deriving DecidableEq, Repr

/-- What LLDB tells about a frame. `address` is what `GetAddress` answers for a
variable path, unless it is `No value`. -/
structure Frame where
  location : Location
  address : Text → Option Text
  isValid : Bool := true

/-- `token.replace(op, "")`. The first argument counts the characters of an
occurrence that are still to be passed over. -/
def removeFrom (op : Text) : Nat → Text → Text
  | _, [] => []
  | skip + 1, _ :: rest => removeFrom op skip rest
  | 0, c :: rest =>
      if op.isPrefixOf (c :: rest) then removeFrom op (op.length - 1) rest
      else c :: removeFrom op 0 rest

def remove (op token : Text) : Text := removeFrom op 0 token

/-- The delimiters at which a source line is split. -/
def breakChars : List Char := [' ', '\n', '\t', ',', ';', '(', ')', '=']

/-- The operators that are removed from the tokens. -/
def operators : List Text := ["++".toList, "--".toList, "!".toList, "*".toList, "&".toList]

/-- The characters with the codes 1 to 31. -/
def isEscape (c : Char) : Bool := decide (1 ≤ c.toNat) && decide (c.toNat < 32)

/-- The tokens of a source line that may name a variable. -/
def tokens (src_line : Text) : List Text :=
  let split := breakChars.foldl (fun src_line char => src_line.flatMap (List.splitOn char)) [src_line]
  let unescaped := split.filter fun c => (c.filter fun char => !isEscape char) != []
  let operands := operators.foldl (fun src_line op => src_line.map (remove op)) unescaped
  operands.filter (· != [])

/-- Why the script ends. -/
inductive Stop where
  | noFrame
  | noVariables
  | wrongLine
  | found (matched : List (Text × Nat))
  | noBreakpoints
  | notStarted
  | statusFound
deriving DecidableEq, Repr

/-- The addresses of the tokens that LLDB can resolve. -/
def getAddr (frame : Frame) (src_line : Text) : Except Stop (List Text) :=
  if !frame.isValid then .error .noFrame
  else
    let addrs := (tokens src_line).filterMap frame.address
    if addrs.length = 0 then .error .noVariables else .ok addrs

example : tokens "obj->refcount++;\n".toList = ["obj->refcount".toList] := by decide

end ConAnalysis.Trigger
