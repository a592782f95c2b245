/-!
# Plain values in TOML

Tells which runs of characters are numbers, dates and times. Their values are never asked for,
only whether they are well formed and in range.
-/
namespace CodeAtlas.Toml

def isHexDigit (c : Char) : Bool := c.isDigit || "abcdefABCDEF".toList.contains c

/-- Digits with single underscores between them, at least one digit. -/
def isDigits (digit : Char → Bool) : List Char → Bool
  | [] => false
  | [c] => digit c
  | c :: '_' :: rest => digit c && isDigits digit rest
  | c :: rest => digit c && isDigits digit rest

/-- The value of digits, underscores left out. -/
def digitsValue (base : Nat) (cs : List Char) : Nat :=
  cs.foldl (fun n c =>
    if c = '_' then n
    else
      let d :=
        if c.isDigit then c.toNat - '0'.toNat
        else if c.isLower then c.toNat - 'a'.toNat + 10
        else c.toNat - 'A'.toNat + 10
      n * base + d) 0

def dropSign : List Char → List Char
  | '+' :: cs => cs
  | '-' :: cs => cs
  | cs => cs

/-- A whole number in base ten without its sign. -/
def isWhole (cs : List Char) : Bool :=
  isDigits Char.isDigit cs && (cs.head? ≠ some '0' || cs.length = 1)

/-- The largest whole number of 64 bits; the smallest is one further from zero. -/
def largestInteger : Nat := 0x7FFFFFFFFFFFFFFF

def isInteger (cs : List Char) : Bool :=
  match cs with
  | '0' :: 'x' :: ds => isDigits isHexDigit ds && digitsValue 16 ds ≤ largestInteger
  | '0' :: 'o' :: ds => isDigits (fun c => '0' ≤ c && c ≤ '7') ds && digitsValue 8 ds ≤ largestInteger
  | '0' :: 'b' :: ds => isDigits (fun c => c = '0' || c = '1') ds && digitsValue 2 ds ≤ largestInteger
  | _ =>
    let ds := dropSign cs
    let limit := if cs.head? = some '-' then largestInteger + 1 else largestInteger
    isWhole ds && digitsValue 10 ds ≤ limit

def isExponent (cs : List Char) : Bool := isDigits Char.isDigit (dropSign cs)

def isExponentMark (c : Char) : Bool := c = 'e' || c = 'E'

def isFloat (cs : List Char) : Bool :=
  let body := dropSign cs
  let mantissa := body.takeWhile fun c => !isExponentMark c
  let exponentFits := match body.dropWhile fun c => !isExponentMark c with
    | [] => mantissa.contains '.'
    | _ :: e => isExponent e
  let mantissaFits := match mantissa.dropWhile (· ≠ '.') with
    | [] => isWhole mantissa
    | _ :: fraction => isWhole (mantissa.takeWhile (· ≠ '.')) && isDigits Char.isDigit fraction
  body = "inf".toList || body = "nan".toList || (mantissaFits && exponentFits)

/-- The number that exactly `n` digits at the front give, and the rest. -/
def fixedDigits? (n : Nat) (cs : List Char) : Option (Nat × List Char) :=
  let ds := cs.take n
  if ds.length = n && ds.all Char.isDigit then some (digitsValue 10 ds, cs.drop n) else none

def expect? (c : Char) : List Char → Option (List Char)
  | [] => none
  | d :: rest => if c = d then some rest else none

def isLeapYear (y : Nat) : Bool := y % 4 = 0 && (y % 100 ≠ 0 || y % 400 = 0)

def daysIn (year month : Nat) : Nat :=
  if month = 2 then (if isLeapYear year then 29 else 28)
  else if [4, 6, 9, 11].contains month then 30
  else 31

/-- The rest after a date. -/
def date? (cs : List Char) : Option (List Char) := do
  let (year, cs) ← fixedDigits? 4 cs
  let (month, cs) ← fixedDigits? 2 (← expect? '-' cs)
  let (day, cs) ← fixedDigits? 2 (← expect? '-' cs)
  if 1 ≤ month && month ≤ 12 && 1 ≤ day && day ≤ daysIn year month then some cs else none

/-- The rest after hours and minutes. -/
def hourMinute? (cs : List Char) : Option (List Char) := do
  let (hour, cs) ← fixedDigits? 2 cs
  let (minute, cs) ← fixedDigits? 2 (← expect? ':' cs)
  if hour ≤ 23 && minute ≤ 59 then some cs else none

/-- The rest after a time with its seconds. -/
def time? (cs : List Char) : Option (List Char) := do
  let cs ← hourMinute? cs
  let (second, cs) ← fixedDigits? 2 (← expect? ':' cs)
  if 60 < second then none
  match cs with
  | '.' :: rest =>
    if rest.head?.any Char.isDigit then some (rest.dropWhile Char.isDigit) else none
  | _ => some cs

def isOffset (cs : List Char) : Bool :=
  match cs with
  | [] => true
  | ['Z'] | ['z'] => true
  | s :: rest => (s = '+' || s = '-') && hourMinute? rest = some []

def isDateTime (cs : List Char) : Bool :=
  match date? cs with
  | none => time? cs = some []
  | some [] => true
  | some (d :: rest) => (d = 'T' || d = 't' || d = ' ') && (time? rest).any isOffset

/-- Characters that a number, date or time can hold. -/
def isScalarChar (c : Char) : Bool :=
  c.isAlphanum || c = '+' || c = '-' || c = '.' || c = '_' || c = ':'

/-- The run of such characters at the front; one blank may part a date from a time. -/
def scalarRun (cs : List Char) : List Char × List Char :=
  let run := cs.takeWhile isScalarChar
  let rest := cs.dropWhile isScalarChar
  match date? run, rest with
  | some [], ' ' :: more =>
    if (fixedDigits? 2 more).isSome then
      (run ++ ' ' :: more.takeWhile isScalarChar, more.dropWhile isScalarChar)
    else (run, rest)
  | _, _ => (run, rest)

end CodeAtlas.Toml
