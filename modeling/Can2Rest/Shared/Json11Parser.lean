import Can2Rest.Shared.Json11

/-!
# The parser of `SHARED/json11`

The position of `JsonParser` is the rest of the text.  Reading past the end of
a `std::string` yields NUL, which is no character of any token, so a missing
byte reads as 0.  A failed parse returns the message of its first failure.

The recursion of `parse_json` is bounded by fuel.  Exhausted fuel is the empty
message; `parse_error_ne_nil` shows that `parse` gives enough fuel, and with it
that every failure has a message, which is what callers test for.
-/

namespace Can2Rest.Shared.Json

open Can2Rest.Foundation

def peek (text : Bytes) : UInt8 := text.headD 0

/-- Format a character for an error message, as a signed `char`. -/
def esc (c : UInt8) : Bytes :=
  let value := intToDecimal c.toInt8.toInt
  if 0x20 ≤ c ∧ c ≤ 0x7f then
    ascii "'" ++ [c] ++ ascii "' (" ++ value ++ ascii ")"
  else ascii "(" ++ value ++ ascii ")"

def isWhitespace (c : UInt8) : Bool := c = 32 || c = 13 || c = 10 || c = 9

def consumeWhitespace (text : Bytes) : Bytes := text.dropWhile isWhitespace

def getNextToken (text : Bytes) : Except Bytes (UInt8 × Bytes) :=
  match consumeWhitespace text with
  | [] => .error (ascii "unexpected end of input")
  | ch :: rest => .ok (ch, rest)

/-! ## Strings -/

def encodeUtf8 (pt : Int) : Bytes :=
  let n := pt.toNat
  if pt < 0 then []
  else if pt < 0x80 then [UInt8.ofNat n]
  else if pt < 0x800 then
    [UInt8.ofNat (n >>> 6 ||| 0xC0), UInt8.ofNat (n &&& 0x3F ||| 0x80)]
  else if pt < 0x10000 then
    [UInt8.ofNat (n >>> 12 ||| 0xE0), UInt8.ofNat (n >>> 6 &&& 0x3F ||| 0x80),
     UInt8.ofNat (n &&& 0x3F ||| 0x80)]
  else
    [UInt8.ofNat (n >>> 18 ||| 0xF0), UInt8.ofNat (n >>> 12 &&& 0x3F ||| 0x80),
     UInt8.ofNat (n >>> 6 &&& 0x3F ||| 0x80), UInt8.ofNat (n &&& 0x3F ||| 0x80)]

def hexValue? (c : UInt8) : Option Nat :=
  if 97 ≤ c ∧ c ≤ 102 then some (c.toNat - 87)
  else if 65 ≤ c ∧ c ≤ 70 then some (c.toNat - 55)
  else if isDigit c then some (c.toNat - 48)
  else none

def codepoint? (a b c d : UInt8) : Option Nat := do
  let a ← hexValue? a
  let b ← hexValue? b
  let c ← hexValue? c
  let d ← hexValue? d
  return 4096 * a + 256 * b + 16 * c + d

def simpleEscape? (ch : UInt8) : Option UInt8 :=
  if ch = 98 then some 8
  else if ch = 102 then some 12
  else if ch = 110 then some 10
  else if ch = 114 then some 13
  else if ch = 116 then some 9
  else if ch = 34 ∨ ch = 92 ∨ ch = 47 then some ch
  else none

/--
The loop of `parse_string`, after the opening quote: `out` is what is decoded,
`last` is `last_escaped_codepoint`, a code point that may still become the first
half of a surrogate pair.
-/
def parseStringFrom (out : Bytes) (last : Int) : Bytes → Except Bytes (Bytes × Bytes)
  | [] => .error (ascii "unexpected end of input in string")
  | ch :: rest =>
      if ch = 34 then .ok (out ++ encodeUtf8 last, rest)
      else if ch ≤ 0x1f then
        .error (ascii "unescaped " ++ esc ch ++ ascii " in string")
      else if ch ≠ 92 then
        parseStringFrom (out ++ encodeUtf8 last ++ [ch]) (-1) rest
      else
        match rest with
        | [] => .error (ascii "unexpected end of input in string")
        | 117 :: a :: b :: c :: d :: rest =>
            match codepoint? a b c d with
            | none => .error (ascii "bad \\u escape: " ++ [a, b, c, d])
            | some codepoint =>
                if (0xD800 ≤ last ∧ last ≤ 0xDBFF) ∧
                    0xDC00 ≤ codepoint ∧ codepoint ≤ 0xDFFF then
                  let astral := (last.toNat - 0xD800) <<< 10 |||
                    (codepoint - 0xDC00)
                  parseStringFrom (out ++ encodeUtf8 (astral + 0x10000)) (-1)
                    rest
                else
                  parseStringFrom (out ++ encodeUtf8 last) codepoint rest
        | 117 :: short => .error (ascii "bad \\u escape: " ++ short)
        | ch :: rest =>
            match simpleEscape? ch with
            | none => .error (ascii "invalid escape character " ++ esc ch)
            | some decoded =>
                parseStringFrom (out ++ encodeUtf8 last ++ [decoded]) (-1) rest

def parseString (text : Bytes) : Except Bytes (Bytes × Bytes) := parseStringFrom [] (-1) text

/-! ## Numbers -/

def parseWhole (text : Bytes) : Except Bytes (Bytes × Bytes) :=
  if peek text = 48 then
    if isDigit (peek text.tail) then
      .error (ascii "leading 0s not permitted in numbers")
    else .ok ([48], text.tail)
  else if isDigit (peek text) then
    .ok (text.takeWhile isDigit, text.dropWhile isDigit)
  else .error (ascii "invalid " ++ esc (peek text) ++ ascii " in number")

def parseFraction (text : Bytes) : Except Bytes (Bytes × Bytes) :=
  if peek text = 46 then
    if isDigit (peek text.tail) then
      .ok (text.tail.takeWhile isDigit, text.tail.dropWhile isDigit)
    else .error (ascii "at least one digit required in fractional part")
  else .ok ([], text)

/-- The sign and the digits of the exponent, after the `e`. -/
def exponentDigits (text : Bytes) : Bool × Bytes :=
  if peek text = 45 then (true, text.tail)
  else if peek text = 43 then (false, text.tail)
  else (false, text)

def parseExponent (text : Bytes) : Except Bytes (Int × Bytes) :=
  if peek text = 101 ∨ peek text = 69 then
    let digits := (exponentDigits text.tail).2
    if isDigit (peek digits) then
      let value : Int := ofDigits (digits.takeWhile isDigit)
      .ok (if (exponentDigits text.tail).1 then -value else value,
        digits.dropWhile isDigit)
    else .error (ascii "at least one digit required in exponent")
  else .ok (0, text)

def parseNumber (text : Bytes) : Except Bytes (Json × Bytes) := do
  let negative := peek text = 45
  let (whole, rest) ← parseWhole (if negative then text.tail else text)
  let numeral := if negative then 45 :: whole else whole
  -- at most `std::numeric_limits<int>::digits10` characters are an `int`
  if peek rest ≠ 46 ∧ peek rest ≠ 101 ∧ peek rest ≠ 69 ∧
      numeral.length ≤ 9 then
    return (.int (atoi numeral), rest)
  let (fraction, rest) ← parseFraction rest
  let (exponent, rest) ← parseExponent rest
  return (.double (Binary64.strtod negative whole fraction exponent), rest)

/-! ## Values -/

/-- `expect`: the text must begin with the literal. -/
def expect (expected : Bytes) (result : Json) (text : Bytes) : Except Bytes (Json × Bytes) :=
  if expected.isPrefixOf text then .ok (result, text.drop expected.length)
  else
    .error (ascii "parse error: expected " ++ expected ++ ascii ", got " ++
      text.take expected.length)

def maxDepth : Nat := 200

mutual

def parseJson : Nat → Nat → Bytes → Except Bytes (Json × Bytes)
  | 0, _, _ => .error []
  | fuel + 1, depth, text => do
      if depth > maxDepth then
        throw (ascii "exceeded maximum nesting depth")
      let (ch, rest) ← getNextToken text
      if ch = 45 ∨ isDigit ch then parseNumber (ch :: rest)
      else if ch = 116 then expect (ascii "true") (.bool true) (ch :: rest)
      else if ch = 102 then expect (ascii "false") (.bool false) (ch :: rest)
      else if ch = 110 then expect (ascii "null") .nul (ch :: rest)
      else if ch = 34 then
        let (value, rest) ← parseString rest
        return (.string value, rest)
      else if ch = 123 then
        let (ch, rest) ← getNextToken rest
        if ch = 125 then return (.object [], rest)
        parseMembers fuel depth [] ch rest
      else if ch = 91 then
        let (ch, after) ← getNextToken rest
        if ch = 93 then return (.array [], after)
        parseItems fuel depth [] (ch :: after)
      else throw (ascii "expected value, got " ++ esc ch)

/-- The loop over the members of an object; `ch` is the token just read. -/
def parseMembers : Nat → Nat → List (Bytes × Json) → UInt8 → Bytes →
    Except Bytes (Json × Bytes)
  | 0, _, _, _, _ => .error []
  | fuel + 1, depth, data, ch, text => do
      if ch ≠ 34 then
        throw (ascii "expected '\"' in object, got " ++ esc ch)
      let (key, rest) ← parseString text
      let (ch, rest) ← getNextToken rest
      if ch ≠ 58 then throw (ascii "expected ':' in object, got " ++ esc ch)
      let (value, rest) ← parseJson fuel (depth + 1) rest
      let data := assign key value data
      let (ch, rest) ← getNextToken rest
      if ch = 125 then return (.object data, rest)
      if ch ≠ 44 then throw (ascii "expected ',' in object, got " ++ esc ch)
      let (ch, rest) ← getNextToken rest
      parseMembers fuel depth data ch rest

/-- The loop over the items of an array. -/
def parseItems : Nat → Nat → List Json → Bytes → Except Bytes (Json × Bytes)
  | 0, _, _, _ => .error []
  | fuel + 1, depth, data, text => do
      let (value, rest) ← parseJson fuel (depth + 1) text
      let data := data ++ [value]
      let (ch, rest) ← getNextToken rest
      if ch = 93 then return (.array data, rest)
      if ch ≠ 44 then throw (ascii "expected ',' in list, got " ++ esc ch)
      let (ch, rest) ← getNextToken rest
      parseItems fuel depth data (ch :: rest)

end

/-- `Json::parse`: one value, with nothing but whitespace after it. -/
def parse (text : Bytes) : Except Bytes Json := do
  let (result, rest) ← parseJson (2 * text.length + 1) 0 text
  match consumeWhitespace rest with
  | [] => return result
  | ch :: _ => throw (ascii "unexpected trailing " ++ esc ch)

/-! ## Progress and fuel -/

/-- A success leaves fewer than `size` bytes, and a failure has a message. -/
def Progresses {α : Type} (size : Nat) : Except Bytes (α × Bytes) → Prop
  | .ok (_, rest) => rest.length < size
  | .error message => message ≠ []

theorem Progresses.bind {α β : Type} {size limit : Nat}
    {first : Except Bytes (α × Bytes)}
    {next : α × Bytes → Except Bytes (β × Bytes)}
    (hfirst : Progresses size first)
    (hnext : ∀ value rest, rest.length < size →
      Progresses limit (next (value, rest))) :
    Progresses limit (first >>= next) := by
  cases first with
  | error message => exact hfirst
  | ok result => exact hnext result.1 result.2 hfirst

theorem Progresses.mono {α : Type} {size limit : Nat}
    {result : Except Bytes (α × Bytes)} (h : Progresses size result)
    (hle : size ≤ limit) : Progresses limit result := by
  cases result with
  | error message => exact h
  | ok result => exact lt_of_lt_of_le h hle

theorem progresses_pure {α : Type} {size : Nat} {value : α} {rest : Bytes}
    (h : rest.length < size) :
    Progresses size (pure (value, rest) : Except Bytes (α × Bytes)) := h

theorem progresses_throw {α : Type} {size : Nat} {message : Bytes}
    (h : message ≠ []) :
    Progresses size (throw message : Except Bytes (α × Bytes)) := h

theorem Progresses.ite {α : Type} {size : Nat} {c : Prop} [Decidable c]
    {yes no : Except Bytes (α × Bytes)} (hyes : c → Progresses size yes)
    (hno : ¬c → Progresses size no) :
    Progresses size (if c then yes else no) := by
  split
  next h => exact hyes h
  next h => exact hno h

private theorem length_consumeWhitespace (text : Bytes) :
    (consumeWhitespace text).length ≤ text.length :=
  (List.dropWhile_suffix _).length_le

private theorem length_dropDigits (text : Bytes) :
    (text.dropWhile isDigit).length ≤ text.length :=
  (List.dropWhile_suffix _).length_le

theorem getNextToken_progresses (text : Bytes) :
    Progresses text.length (getNextToken text) := by
  have hle := length_consumeWhitespace text
  unfold getNextToken
  split
  next h => simp [Progresses, ascii]
  next ch rest h =>
    rw [h, List.length_cons] at hle
    exact hle

theorem parseStringFrom_progresses (out : Bytes) (last : Int) (text : Bytes) :
    Progresses text.length (parseStringFrom out last text) := by
  fun_induction parseStringFrom out last text <;>
    first
    | (simp [Progresses, ascii]; done)
    | (rename_i ih; exact ih.mono (by simp; try omega))

private theorem tail_lt_of_peek {text : Bytes} (h : peek text ≠ 0) :
    text.tail.length < text.length := by
  cases text with
  | nil => exact absurd rfl h
  | cons c rest => simp

private theorem dropDigits_lt_of_peek {text : Bytes}
    (h : isDigit (peek text)) :
    (text.dropWhile isDigit).length < text.length := by
  cases text with
  | nil => simp [peek, isDigit] at h
  | cons c rest =>
      have hdigit : isDigit c := h
      rw [List.dropWhile_cons_of_pos hdigit, List.length_cons]
      exact Nat.lt_succ_of_le (length_dropDigits rest)

theorem parseWhole_progresses (text : Bytes) :
    Progresses text.length (parseWhole text) := by
  unfold parseWhole
  split_ifs with hzero hleading hdigit
  · simp [Progresses, ascii]
  · exact tail_lt_of_peek (by simp [hzero])
  · exact dropDigits_lt_of_peek hdigit
  · simp [Progresses, ascii]

theorem parseFraction_progresses (text : Bytes) :
    Progresses (text.length + 1) (parseFraction text) := by
  have hdigits := length_dropDigits text.tail
  rw [List.length_tail] at hdigits
  unfold parseFraction
  split_ifs
  · simp only [Progresses]
    omega
  · simp [Progresses, ascii]
  · simp [Progresses]

private theorem length_exponentDigits (text : Bytes) :
    (exponentDigits text).2.length ≤ text.length := by
  unfold exponentDigits
  split_ifs <;> simp

theorem parseExponent_progresses (text : Bytes) :
    Progresses (text.length + 1) (parseExponent text) := by
  have hsign := length_exponentDigits text.tail
  have hdigits := length_dropDigits (exponentDigits text.tail).2
  rw [List.length_tail] at hsign
  unfold parseExponent
  refine .ite (fun _ => .ite (fun _ => ?_) fun _ => ?_) fun _ => ?_
  · simp only [Progresses]
    omega
  · simp [Progresses, ascii]
  · simp [Progresses]

theorem parseNumber_progresses (text : Bytes) :
    Progresses text.length (parseNumber text) := by
  have hle : (if peek text = 45 then text.tail else text).length ≤
      text.length := by
    split_ifs <;> simp
  unfold parseNumber
  refine ((parseWhole_progresses _).mono hle).bind fun whole rest hrest => ?_
  refine .ite (fun _ => progresses_pure hrest) fun _ => ?_
  refine (parseFraction_progresses rest).bind fun fraction after hafter => ?_
  refine (parseExponent_progresses after).bind fun exponent last hlast => ?_
  have hshorter : last.length < text.length := by omega
  exact progresses_pure hshorter

theorem expect_progresses {expected : Bytes} (hexpected : expected ≠ [])
    (result : Json) (text : Bytes) :
    Progresses text.length (expect expected result text) := by
  have hpos : 0 < expected.length := List.length_pos_iff.mpr hexpected
  unfold expect
  split_ifs with hprefix
  · have hle := (List.isPrefixOf_iff_prefix.mp hprefix).length_le
    simp only [Progresses, List.length_drop]
    omega
  · simp [Progresses, ascii]

/--
Two units of fuel for every byte are enough: between two nested calls at least
one byte is read.
-/
structure FuelSuffices (fuel : Nat) : Prop where
  value : ∀ depth text, 2 * text.length < fuel →
    Progresses text.length (parseJson fuel depth text)
  members : ∀ depth data ch text, 2 * text.length < fuel →
    Progresses text.length (parseMembers fuel depth data ch text)
  items : ∀ depth data text, 2 * text.length + 1 < fuel →
    Progresses text.length (parseItems fuel depth data text)

namespace FuelSuffices

variable {fuel : Nat} (h : FuelSuffices fuel) (depth : Nat)

include h

theorem value_succ (text : Bytes) (hfuel : 2 * text.length < fuel + 1) :
    Progresses text.length (parseJson (fuel + 1) depth text) := by
  unfold parseJson
  refine .ite (fun _ => progresses_throw (by simp [ascii])) fun _ => ?_
  refine (getNextToken_progresses text).bind fun ch rest hrest => ?_
  have hcons : (ch :: rest).length ≤ text.length := hrest
  refine .ite (fun _ => (parseNumber_progresses _).mono hcons) fun _ => ?_
  have hliteral (literal result) (hliteral : literal ≠ []) :
      Progresses text.length (expect literal result (ch :: rest)) :=
    (expect_progresses hliteral _ _).mono hcons
  refine .ite (fun _ => hliteral _ _ (by simp [ascii])) fun _ => ?_
  refine .ite (fun _ => hliteral _ _ (by simp [ascii])) fun _ => ?_
  refine .ite (fun _ => hliteral _ _ (by simp [ascii])) fun _ => ?_
  refine .ite (fun _ => ?string) fun _ =>
    .ite (fun _ => ?object) fun _ => .ite (fun _ => ?array) fun _ => ?_
  case string =>
    refine (parseStringFrom_progresses _ _ rest).bind
      fun value after hafter => progresses_pure ?_
    exact lt_trans hafter hrest
  case object =>
    refine (getNextToken_progresses rest).bind fun ch after hafter => ?_
    refine .ite (fun _ => progresses_pure (lt_trans hafter hrest)) fun _ => ?_
    exact (h.members depth [] ch after (by omega)).mono (by omega)
  case array =>
    refine (getNextToken_progresses rest).bind fun ch after hafter => ?_
    refine .ite (fun _ => progresses_pure (lt_trans hafter hrest)) fun _ => ?_
    have hitems : (ch :: after).length ≤ rest.length := hafter
    exact (h.items depth [] (ch :: after) (by omega)).mono (by omega)
  exact progresses_throw (by simp [ascii])

theorem members_succ (data : List (Bytes × Json)) (ch : UInt8) (text : Bytes)
    (hfuel : 2 * text.length < fuel + 1) :
    Progresses text.length (parseMembers (fuel + 1) depth data ch text) := by
  unfold parseMembers
  refine .ite (fun _ => progresses_throw (by simp [ascii])) fun _ => ?_
  refine (parseStringFrom_progresses _ _ text).bind fun key rest hrest => ?_
  refine (getNextToken_progresses rest).bind fun ch after hafter => ?_
  refine .ite (fun _ => progresses_throw (by simp [ascii])) fun _ => ?_
  refine (h.value (depth + 1) after (by omega)).bind fun value more hmore => ?_
  refine (getNextToken_progresses more).bind fun ch last hlast => ?_
  have hshorter : last.length < text.length := by omega
  refine .ite (fun _ => progresses_pure hshorter) fun _ => ?_
  refine .ite (fun _ => progresses_throw (by simp [ascii])) fun _ => ?_
  refine (getNextToken_progresses last).bind fun ch final hfinal => ?_
  exact (h.members depth _ ch final (by omega)).mono (by omega)

theorem items_succ (data : List Json) (text : Bytes) (hfuel : 2 * text.length + 1 < fuel + 1) :
    Progresses text.length (parseItems (fuel + 1) depth data text) := by
  unfold parseItems
  refine (h.value (depth + 1) text (by omega)).bind fun value rest hrest => ?_
  refine (getNextToken_progresses rest).bind fun ch after hafter => ?_
  refine .ite (fun _ => progresses_pure (lt_trans hafter hrest)) fun _ => ?_
  refine .ite (fun _ => progresses_throw (by simp [ascii])) fun _ => ?_
  refine (getNextToken_progresses after).bind fun ch more hmore => ?_
  have hitems : (ch :: more).length ≤ after.length := hmore
  exact (h.items depth _ (ch :: more) (by omega)).mono (by omega)

end FuelSuffices

theorem fuelSuffices (fuel : Nat) : FuelSuffices fuel := by
  induction fuel with
  | zero => exact ⟨nofun, nofun, nofun⟩
  | succ fuel ih => exact ⟨ih.value_succ, ih.members_succ, ih.items_succ⟩

/-- Every failed parse has a message; in particular the fuel never runs out. -/
theorem parse_error_ne_nil {text message : Bytes}
    (h : parse text = .error message) : message ≠ [] := by
  have hprogress := (fuelSuffices (2 * text.length + 1)).value 0 text (by omega)
  unfold parse at h
  cases hresult : parseJson (2 * text.length + 1) 0 text with
  | error first =>
      rw [hresult] at h hprogress
      cases h
      exact hprogress
  | ok result =>
      rw [hresult] at h
      simp only [Except.bind, bind] at h
      split at h
      · cases h
      · cases h
        simp [ascii]

end Can2Rest.Shared.Json
