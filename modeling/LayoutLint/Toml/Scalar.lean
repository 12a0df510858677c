import LayoutLint.Toml.Reader
import LayoutLint.Toml.Value

/-! # Strings, numbers and dates

The values that hold no other values.
-/

namespace LayoutLint.Toml

open Reader

/-! ## Strings -/

def hexValue? (c : Char) : Option Nat :=
  if '0' ≤ c && c ≤ '9' then some (c.toNat - 48)
  else if 'a' ≤ c && c ≤ 'f' then some (c.toNat - 87)
  else if 'A' ≤ c && c ≤ 'F' then some (c.toNat - 55)
  else none

/-- The character whose number the digits give; surrogates and larger numbers give none. -/
def scalarValue? (digits : List Char) : Option Char := do
  let values ← digits.mapM hexValue?
  let n := values.foldl (fun n d => 16 * n + d) 0
  if n.isValidChar then some (Char.ofNat n) else none

/-- What an escape of one letter stands for. -/
def escaped? : Char → Option Char
  | 'b' => some '\x08'
  | 't' => some '\t'
  | 'n' => some '\n'
  | 'f' => some '\x0c'
  | 'r' => some '\r'
  | '"' => some '"'
  | '\\' => some '\\'
  | _ => none

def prepend (c : Char) (found : List Char × List Char) : List Char × List Char :=
  (c :: found.1, found.2)

/-- The body of a string in double quotes, and the text after the closing quote. -/
def quotedBody : List Char → Option (List Char × List Char)
  | [] => none
  | '\\' :: 'u' :: a :: b :: c :: d :: rest => do
    return prepend (← scalarValue? [a, b, c, d]) (← quotedBody rest)
  | '\\' :: 'U' :: a :: b :: c :: d :: e :: f :: g :: h :: rest => do
    return prepend (← scalarValue? [a, b, c, d, e, f, g, h]) (← quotedBody rest)
  | '\\' :: c :: rest => do return prepend (← escaped? c) (← quotedBody rest)
  | c :: rest =>
    if c = '"' then some ([], rest)
    else if c = '\\' || !isPrintable c then none
    else do return prepend c (← quotedBody rest)

/-- Whether a line ends here, blanks aside. -/
def endsLine (text : List Char) : Bool := (newline (text.dropWhile isBlank)).isSome

/-- The quotes that follow three closing ones: up to two of them belong to the string. -/
def closing (quote : Char) (rest : List Char) : List Char × List Char :=
  let extra := min 2 (rest.takeWhile (· = quote)).length
  (rest.take extra, rest.drop extra)

/-- The body of a string in three double quotes. After a backslash at the end of a line,
all blanks and line ends are skipped. -/
def quotedLines (skipping : Bool) : List Char → Option (List Char × List Char)
  | [] => none
  | '"' :: '"' :: '"' :: rest => some (closing '"' rest)
  | '\\' :: 'u' :: a :: b :: c :: d :: rest => do
    return prepend (← scalarValue? [a, b, c, d]) (← quotedLines false rest)
  | '\\' :: 'U' :: a :: b :: c :: d :: e :: f :: g :: h :: rest => do
    return prepend (← scalarValue? [a, b, c, d, e, f, g, h]) (← quotedLines false rest)
  | '\r' :: '\n' :: rest => do
    let found ← quotedLines skipping rest
    return if skipping then found else prepend '\n' found
  | '\\' :: c :: rest =>
    if endsLine (c :: rest) then quotedLines true (c :: rest)
    else do return prepend (← escaped? c) (← quotedLines false rest)
  | c :: rest =>
    if c = '\n' || isBlank c then do
      let found ← quotedLines skipping rest
      return if skipping then found else prepend c found
    else if c = '\\' || !isPrintable c then none
    else do return prepend c (← quotedLines false rest)

/-- The body of a string in single quotes, in which nothing is escaped. -/
def literalBody : List Char → Option (List Char × List Char)
  | [] => none
  | c :: rest =>
    if c = '\x27' then some ([], rest)
    else if !isPrintable c then none
    else do return prepend c (← literalBody rest)

def literalLines : List Char → Option (List Char × List Char)
  | [] => none
  | '\x27' :: '\x27' :: '\x27' :: rest => some (closing '\x27' rest)
  | '\r' :: '\n' :: rest => do return prepend '\n' (← literalLines rest)
  | c :: rest =>
    if c = '\n' || isPrintable c then do return prepend c (← literalLines rest)
    else none

def lineString : Reader String :=
  (do char '"'; return String.ofList (← (quotedBody : Reader (List Char)))) <|>
  (do char '\x27'; return String.ofList (← (literalBody : Reader (List Char))))

/-- A string over several lines; a line end right after the opening quotes is dropped. -/
def linesString : Reader String :=
  (do
    word ['"', '"', '"']
    optional newline
    return String.ofList (← (quotedLines false : Reader (List Char)))) <|>
  (do
    word ['\x27', '\x27', '\x27']
    optional newline
    return String.ofList (← (literalLines : Reader (List Char))))

/-- Three quotes in a row always open a string over several lines. -/
def string : Reader String := fun text =>
  match text with
  | '"' :: '"' :: '"' :: _ => linesString text
  | '\x27' :: '\x27' :: '\x27' :: _ => linesString text
  | _ => lineString text

/-! ## Numbers -/

/-- The rest of a number: digits, with single underscores between them. -/
def moreDigits (accepts : Char → Bool) : List Char → List Char × List Char
  | '_' :: c :: rest =>
    if accepts c then
      let found := moreDigits accepts rest
      (c :: found.1, found.2)
    else ([], '_' :: c :: rest)
  | c :: rest =>
    if accepts c then
      let found := moreDigits accepts rest
      (c :: found.1, found.2)
    else ([], c :: rest)
  | [] => ([], [])

/-- Digits, at least one, with single underscores between them. -/
def digits (accepts : Char → Bool) : Reader (List Char) := do
  let first ← oneOf accepts
  return first :: (← fun text => some (moreDigits accepts text))

/-- Decimal digits that start with a zero only if there is no other. -/
def plainDigits : Reader (List Char) :=
  (do char '0'; return ['0']) <|> digits Char.isDigit

def sign : Reader (List Char) :=
  (do char '+'; return []) <|> (do char '-'; return ['-']) <|> pure []

/-- The number that digits in a base stand for. -/
def natOfDigits (base : Nat) (digits : List Char) : Nat :=
  digits.foldl (fun n c => base * n + (hexValue? c).getD 0) 0

/-- Whole numbers are those of a signed word of 64 bits. -/
def inRange (n : Int) : Bool := -9223372036854775808 ≤ n && n ≤ 9223372036854775807

def inBase (mark : Char) (base : Nat) : Reader Int := do
  char '0'
  char mark
  let found ← digits fun c => (hexValue? c).any (· < base)
  return natOfDigits base found

def integer : Reader Value := do
  let n ← inBase 'x' 16 <|> inBase 'o' 8 <|> inBase 'b' 2 <|> do
    let negative ← sign
    let n := (natOfDigits 10 (← plainDigits) : Int)
    return if negative.isEmpty then n else -n
  if inRange n then return .integer n else failure

/-- Whether a number `mantissa · 10 ^ exponent` is too large for a double: it rounds to
infinity from the middle between the last double and the power of two after it. The exponent
is first held against the number of digits, so that no huge power is computed. -/
def overflows (mantissa : Nat) (exponent : Int) : Bool :=
  let size := ((Nat.toDigits 10 mantissa).length : Int) + exponent
  if mantissa = 0 || size < 300 then false
  else if 400 < size then true
  else
    let limit := Nat.pow 2 1024 - Nat.pow 2 970
    if 0 ≤ exponent then limit ≤ mantissa * Nat.pow 10 exponent.toNat
    else limit * Nat.pow 10 (-exponent).toNat ≤ mantissa

def fraction : Reader (List Char) := do
  char '.'
  digits Char.isDigit

def exponent : Reader Int := do
  char 'e' <|> char 'E'
  let negative ← sign
  let n := (natOfDigits 10 (← digits Char.isDigit) : Int)
  return if negative.isEmpty then n else -n

/-- A number with a fraction, an exponent or both. One that is too large is refused, unless it
is negative. -/
def float : Reader Value := fun text => do
  let number : Reader Bool := do
    let negative ← sign
    let whole ← plainDigits
    let (places, power) ← (do
      let places ← fraction
      return (places, ← exponent <|> pure 0)) <|> (do return ([], ← exponent))
    let mantissa := natOfDigits 10 (whole ++ places)
    return !negative.isEmpty || !overflows mantissa (power - places.length)
  let special : Reader Bool := do
    let _ ← sign
    word ['i', 'n', 'f'] <|> word ['n', 'a', 'n']
    return true
  let (fits, rest) ← (number <|> special) text
  if fits then some (.float (String.ofList (text.take (text.length - rest.length))), rest)
  else none

/-! ## Dates and times -/

/-- Exactly so many digits, with a value within bounds. -/
def field (width low high : Nat) : Reader Nat := fun text =>
  let found := text.take width
  let n := natOfDigits 10 found
  if found.length = width && found.all Char.isDigit && low ≤ n && n ≤ high then
    some (n, text.drop width)
  else none

def daysInMonth (year month : Nat) : Nat :=
  if month = 2 then
    if year % 4 = 0 && (year % 100 ≠ 0 || year % 400 = 0) then 29 else 28
  else if month = 4 || month = 6 || month = 9 || month = 11 then 30
  else 31

def date : Reader Unit := do
  let year ← field 4 0 9999
  char '-'
  let month ← field 2 1 12
  char '-'
  let _ ← field 2 1 (daysInMonth year month)

/-- A time of day; a minute may have a leap second. -/
def time : Reader Unit := do
  let _ ← field 2 0 23
  char ':'
  let _ ← field 2 0 59
  char ':'
  let _ ← field 2 0 60
  optional do
    char '.'
    let _ ← oneOf Char.isDigit
    let _ ← run Char.isDigit

def offset : Reader Unit :=
  char 'Z' <|> char 'z' <|> do
    char '+' <|> char '-'
    let _ ← field 2 0 23
    char ':'
    let _ ← field 2 0 59

def datetime : Reader Value := do
  let whole : Reader Unit := do
    date
    optional do
      char 'T' <|> char 't' <|> char ' '
      time
      optional offset
  return .datetime (String.ofList (← taken (whole <|> time)))

def boolean : Reader Value :=
  (do word ['t', 'r', 'u', 'e']; return .boolean true) <|>
  (do word ['f', 'a', 'l', 's', 'e']; return .boolean false)

def scalar : Reader Value :=
  (do return .string (← string)) <|> boolean <|> datetime <|> float <|> integer

end LayoutLint.Toml
