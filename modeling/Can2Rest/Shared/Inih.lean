import Can2Rest.ConfigParser
import Mathlib.Data.List.DropRight

/-!
# The INI parser

This file models `ini_parse_stream` of `INIReader.h` as it is configured there:
lines of a buffer of 200 bytes, continuation lines, inline comments and a byte
order mark.  What C reads of a buffer ends at its first NUL.
-/

namespace Can2Rest.Shared

open Foundation

namespace Inih

/-- `isspace` in the C locale. -/
def isspace (c : UInt8) : Bool := c = 32 || (9 ≤ c && c ≤ 13)

def rstrip (s : Bytes) : Bytes := s.rdropWhile isspace

def lskip (s : Bytes) : Bytes := s.dropWhile isspace

/--
What precedes the position found by `find_chars_or_comment`, and what begins
there: one of `chars`, a `;` after a white space, or the end.
-/
def findCharsOrComment (chars : Bytes) : (s : Bytes) → (wasSpace : Bool) → Bytes × Bytes
  | [], _ => ([], [])
  | c :: s, wasSpace =>
      if c ∉ chars ∧ ¬ (wasSpace ∧ c = 59) then
        let found := findCharsOrComment chars s (isspace c)
        (c :: found.1, found.2)
      else ([], c :: s)

/-- `strncpy0` into a buffer of `size` bytes. -/
def strncpy0 (src : Bytes) (size : Nat) : Bytes := src.take (size - 1)

/-- The lines that `fgets` reads into a buffer of `size` bytes, after those in `line`. -/
def fgets (size : Nat) : (line stream : Bytes) → List Bytes
  | line, [] => if line = [] then [] else [line]
  | line, c :: stream =>
      let line := line ++ [c]
      if c = 10 ∨ line.length = size - 1 then line :: fgets size [] stream
      else fgets size line stream

/-- The variables of the loop; `handled` are the arguments of the calls of the handler. -/
structure State where
  iniSection : Bytes
  prevName : Bytes
  lineno : Nat
  error : Nat
  handled : List (Bytes × Bytes × Bytes)

namespace State

def start : State := ⟨[], [], 0, 0, []⟩

/-- `if (!error) error = lineno`. -/
def fail (s : State) : State := { s with error := if s.error = 0 then s.lineno else s.error }

/-- A call of the handler, which always succeeds. -/
def handle (s : State) (name value : Bytes) : State :=
  { s with handled := s.handled ++ [(s.iniSection, name, value)] }

end State

def byteOrderMark : Bytes := [0xEF, 0xBB, 0xBF]

/-- The start of a line, and by how much it is moved past the start of the buffer. -/
def startOf (first : Bool) (line : Bytes) : Bytes × Nat :=
  let line := cStr line
  let bom := if first ∧ byteOrderMark <+: line then 3 else 0
  let stripped := rstrip (line.drop bom)
  let start := lskip stripped
  (start, bom + (stripped.length - start.length))

/-- What the loop does with a line from `start` on. -/
def scanStart (s : State) (start : Bytes) (moved : Nat) : State :=
  if start.head? = some 59 ∨ start.head? = some 35 then s
  else if s.prevName ≠ [] ∧ start ≠ [] ∧ moved > 0 then
    s.handle s.prevName (rstrip (findCharsOrComment [] start false).1)
  else if start.head? = some 91 then
    let found := findCharsOrComment [93] start.tail false
    if found.2.head? = some 93 then
      { s with iniSection := strncpy0 found.1 50, prevName := [] }
    else s.fail
  else if start ≠ [] then
    let found := findCharsOrComment [61, 58] start false
    if found.2.head? = some 61 ∨ found.2.head? = some 58 then
      let name := rstrip found.1
      let value := rstrip (findCharsOrComment [] (lskip found.2.tail) false).1
      { s.handle name value with prevName := strncpy0 name 50 }
    else s.fail
  else s

def scanLine (s : State) (line : Bytes) : State :=
  let s := { s with lineno := s.lineno + 1 }
  let start := startOf (s.lineno = 1) line
  scanStart s start.1 start.2

/-- `ini_parse_stream`, whose result is the first line in error or 0. -/
def parseStream (stream : Bytes) : State := (fgets 200 [] stream).foldl scanLine .start

end Inih

end Can2Rest.Shared
