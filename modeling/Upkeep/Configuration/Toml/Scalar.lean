/-
**The scalars of TOML.**

Scalars are strings of four kinds, numbers, truth values, dates and times.  Every reader takes the
text from some place on and gives the value that begins there with what follows it, or nothing if no
value begins there.  A date or time is kept as its normal text.

Main definitions:

* `Upkeep.Configuration.Toml.endOfLine?`, `Upkeep.Configuration.Toml.skipLines?` — what may stand
  between values;
* `Upkeep.Configuration.Toml.string?`, `Upkeep.Configuration.Toml.key?` — strings and keys;
* `Upkeep.Configuration.Toml.number?`, `Upkeep.Configuration.Toml.moment?` — numbers, and dates and
  times;
* `Upkeep.Configuration.Toml.scalar?` — scalars.
-/

import Upkeep.Configuration.Value
import Upkeep.Text.Lines

set_option relaxedAutoImplicit false
set_option autoImplicit false

namespace Upkeep

namespace Configuration

namespace Toml

open Data (Binary64)

/-! ### Blanks and comments -/

/-- The blanks inside a line. -/
def isSpace (c : Char) : Bool := c == ' ' || c == '\t'

/-- The text without leading blanks. -/
def skipSpace (s : List Char) : List Char := s.dropWhile isSpace

/-- The control characters that may stand nowhere. -/
def isControl (c : Char) : Bool := (c.toNat < 0x20 && c != '\t') || c.toNat == 0x7F

/-- What follows a line ending. -/
def newline? : List Char → Option (List Char)
  | '\n' :: s => some s
  | '\r' :: '\n' :: s => some s
  | _ => none

/-- What follows a comment, if one begins here. -/
def skipComment? : List Char → Option (List Char)
  | '#' :: s =>
    let inLine := fun c => c != '\n' && c != '\r'
    if (s.takeWhile inLine).any isControl then none else some (s.dropWhile inLine)
  | s => some s

/-- What follows the end of a line, if nothing but blanks and a comment stands in front of it. -/
def endOfLine? (s : List Char) : Option (List Char) := do
  match ← skipComment? (skipSpace s) with
  | [] => some []
  | s => newline? s

/-- What follows blanks, comments and line endings; the budget bounds the number of lines. -/
def skipLines? : (budget : Nat) → List Char → Option (List Char)
  | 0, _ => none
  | budget + 1, s => do
    let s ← skipComment? (skipSpace s)
    match newline? s with
    | some s => skipLines? budget s
    | none => some s

/-! ### Strings -/

/-- The character with a given number of hexadecimal digits, and what follows it. -/
def hexChar? (size : Nat) (s : List Char) : Option (Char × List Char) := do
  let ds ← (s.take size).mapM Data.Json.hexDigit?
  let n := ds.foldl (fun n d => n * 16 + d) 0
  if ds.length = size && (n < 0xD800 || (0xE000 ≤ n && n < 0x110000)) then
    some (Char.ofNat n, s.drop size)
  else none

/-- The character of an escape behind its backslash, and what follows it. -/
def escape? : List Char → Option (Char × List Char)
  | '"' :: s => some ('"', s)
  | '\\' :: s => some ('\\', s)
  | 'b' :: s => some (Char.ofNat 8, s)
  | 't' :: s => some ('\t', s)
  | 'n' :: s => some ('\n', s)
  | 'f' :: s => some (Char.ofNat 12, s)
  | 'r' :: s => some ('\r', s)
  | 'u' :: s => hexChar? 4 s
  | 'U' :: s => hexChar? 8 s
  | _ => none

/-- A text read so far, latest character first, and what follows it. -/
def close (read rest : List Char) : String × List Char := (String.ofList read.reverse, rest)

/-- The rest of a string in double quotes; `read` holds the characters so far, latest first. -/
def basic? : (budget : Nat) → (read : List Char) → List Char → Option (String × List Char)
  | 0, _, _ => none
  | _, _, [] => none
  | budget + 1, read, c :: s =>
    if c == '"' then some (close read s)
    else if c == '\\' then do
      let (e, s) ← escape? s
      basic? budget (e :: read) s
    else if isControl c then none
    else basic? budget (c :: read) s

/-- The rest of a string in single quotes. -/
def literal? (s : List Char) : Option (String × List Char) :=
  match s.dropWhile (· != '\'') with
  | [] => none
  | _ :: rest =>
    let body := s.takeWhile (· != '\'')
    if body.any isControl then none else some (String.ofList body, rest)

/-- The end of a string over several lines, if it stands here: three quotes, behind at most two that
belong to the text. -/
def closing? (quote : Char) (read : List Char) : List Char → Option (String × List Char)
  | a :: b :: c :: s =>
    if a == quote && b == quote && c == quote then
      let extra := min 2 (s.takeWhile (· == quote)).length
      some (close (List.replicate extra quote ++ read) (s.drop extra))
    else none
  | _ => none

/-- Whether a character is a blank or part of a line ending. -/
def isBreak (c : Char) : Bool := isSpace c || c == '\n' || c == '\r'

/-- The rest of a string over several lines; in one with double quotes there are escapes, and a
backslash at the end of a line takes the blanks that follow away. -/
def multiline? (quote : Char) : (budget : Nat) → (read : List Char) → List Char →
    Option (String × List Char)
  | 0, _, _ => none
  | _, _, [] => none
  | budget + 1, read, c :: s =>
    match closing? quote read (c :: s) with
    | some r => some r
    | none =>
      match newline? (c :: s) with
      | some s => multiline? quote budget ('\n' :: read) s
      | none =>
        if c == '\\' && quote == '"' then
          if (newline? (skipSpace s)).isSome then multiline? quote budget read (s.dropWhile isBreak)
          else do
            let (e, s) ← escape? s
            multiline? quote budget (e :: read) s
        else if isControl c then none
        else multiline? quote budget (c :: read) s

/-- A text without a line ending at its start. -/
def dropNewline (s : List Char) : List Char := (newline? s).getD s

/-- A string that begins here. -/
def string? : List Char → Option (String × List Char)
  | '"' :: '"' :: '"' :: s => multiline? '"' (s.length + 1) [] (dropNewline s)
  | '"' :: s => basic? (s.length + 1) [] s
  | '\'' :: '\'' :: '\'' :: s => multiline? '\'' (s.length + 1) [] (dropNewline s)
  | '\'' :: s => literal? s
  | _ => none

/-! ### Keys -/

/-- The characters of keys without quotes. -/
def isKeyChar (c : Char) : Bool := (c.toNat < 0x80 && c.isAlphanum) || c == '_' || c == '-'

/-- One part of a key. -/
def keyPart? (s : List Char) : Option (String × List Char) :=
  match s with
  | '"' :: r => basic? (r.length + 1) [] r
  | '\'' :: r => literal? r
  | _ =>
    let name := s.takeWhile isKeyChar
    if name.isEmpty then none else some (String.ofList name, s.dropWhile isKeyChar)

/-- The parts of a key, separated by dots; blanks may stand around the parts. -/
def key? : (budget : Nat) → List Char → Option (List String × List Char)
  | 0, _ => none
  | budget + 1, s => do
    let (part, s) ← keyPart? (skipSpace s)
    match skipSpace s with
    | '.' :: s => do
      let (parts, s) ← key? budget s
      return (part :: parts, s)
    | s => return ([part], s)

/-! ### Numbers -/

/-- The digits of a number in which single underscores stand between digits. -/
def plainDigits? (isDigit : Char → Bool) (s : List Char) : Option (List Char) :=
  let parts := Text.segments (· == '_') s
  if parts.all fun p => !p.isEmpty && p.all isDigit then some parts.flatten else none

/-- The digits of the part of a number in front of its point: they begin with a zero only if that is
all. -/
def wholeDigits? (s : List Char) : Option (List Char) := do
  let ds ← plainDigits? Char.isDigit s
  if ds.length > 1 && ds.head? == some '0' then none else some ds

/-- A number that fits into 64 bits with a sign. -/
def wholeNumber? (n : Int) : Option Value :=
  if Text.fitsSigned n then some (.integer n) else none

/-- A whole number in another base. -/
def based? (base : Nat) (s : List Char) : Option Value := do
  let isDigit := fun c => (Data.Json.hexDigit? c).any (· < base)
  let ds ← plainDigits? isDigit s
  let n := ds.foldl (fun n c => n * base + (Data.Json.hexDigit? c).getD 0) 0
  wholeNumber? n

/-- The two sides of the first member of a class, if there is one. -/
def splitAt? (p : Char → Bool) (s : List Char) : List Char × Option (List Char) :=
  match s.dropWhile (!p ·) with
  | [] => (s, none)
  | _ :: rest => (s.takeWhile (!p ·), some rest)

/-- A text without a sign, and whether the sign was a minus. -/
def unsigned : List Char → Bool × List Char
  | '-' :: s => (true, s)
  | '+' :: s => (false, s)
  | s => (false, s)

/-- A number with a fraction or an exponent. -/
def fraction? (negative : Bool) (s : List Char) : Option Value := do
  let (mantissa, exponent) := splitAt? (fun c => c == 'e' || c == 'E') s
  let (whole, part) := splitAt? (· == '.') mantissa
  let whole ← wholeDigits? whole
  let part ← match part with
    | some p => plainDigits? Char.isDigit p
    | none => some []
  let e : Int ← match exponent with
    | some e =>
      let (down, e) := unsigned e
      (plainDigits? Char.isDigit e).map fun ds =>
        if down then -(Value.digitsOf ds : Int) else (Value.digitsOf ds : Int)
    | none => some 0
  match Binary64.ofDecimal negative (Value.digitsOf (whole ++ part)) (e - part.length) with
  | .infinity _ => none
  | x => some (.float x)

/-- A number. -/
def number? (s : List Char) : Option Value :=
  match s with
  | '0' :: 'x' :: r => based? 16 r
  | '0' :: 'o' :: r => based? 8 r
  | '0' :: 'b' :: r => based? 2 r
  | _ =>
    let (negative, r) := unsigned s
    if r == ['i', 'n', 'f'] then some (.float (.infinity negative))
    else if r == ['n', 'a', 'n'] then some (.float .nan)
    else if r.any fun c => c == '.' || c == 'e' || c == 'E' then fraction? negative r
    else do
      let n := Value.digitsOf (← wholeDigits? r)
      wholeNumber? (if negative then -(n : Int) else n)

/-! ### Dates and times -/

/-- A number with a given number of digits. -/
def fixed? (size : Nat) (s : List Char) : Option Nat :=
  if s.length = size && s.all Char.isDigit then some (Value.digitsOf s) else none

/-- The number of days of a month. -/
def daysOf (year month : Nat) : Nat :=
  if month = 2 then
    if year % 4 = 0 && (year % 100 != 0 || year % 400 = 0) then 29 else 28
  else if [4, 6, 9, 11].contains month then 30 else 31

/-- The normal text of a date. -/
def date? (s : List Char) : Option (List Char) := do
  match Text.segments (· == '-') s with
  | [y, m, d] =>
    let year ← fixed? 4 y
    let month ← fixed? 2 m
    let day ← fixed? 2 d
    if 1 ≤ month && month ≤ 12 && 1 ≤ day && day ≤ daysOf year month then some s else none
  | _ => none

/-- The normal text of a fraction of a second: at most nine places, without zeros at the end. -/
def secondFraction (ds : List Char) : List Char :=
  let places := ((ds.take 9).reverse.dropWhile (· == '0')).reverse
  if places.isEmpty then [] else '.' :: places

/-- The normal text of a time of day. -/
def time? (s : List Char) : Option (List Char) := do
  let (clock, part) := splitAt? (· == '.') s
  match Text.segments (· == ':') clock with
  | [h, m, sec] =>
    let hour ← fixed? 2 h
    let minute ← fixed? 2 m
    let second ← fixed? 2 sec
    let part ← match part with
      | some ds => if !ds.isEmpty && ds.all Char.isDigit then some (secondFraction ds) else none
      | none => some []
    if hour < 24 && minute < 60 && second ≤ 60 then some (clock ++ part) else none
  | _ => none

/-- The normal text of a distance from universal time. -/
def offset? (sign : Char) (s : List Char) : Option (List Char) := do
  match Text.segments (· == ':') s with
  | [h, m] =>
    let hour ← fixed? 2 h
    let minute ← fixed? 2 m
    if hour ≤ 24 && minute < 60 then
      some ((if hour = 0 && minute = 0 then '+' else sign) :: s)
    else none
  | _ => none

/-- The normal text of a time of day that may have a distance from universal time. -/
def timeWithOffset? (s : List Char) : Option (List Char) :=
  let isSign := fun c => c == '+' || c == '-'
  let isZone := fun c => c == 'Z' || c == 'z'
  match s.dropWhile (fun c => !isSign c && !isZone c) with
  | [] => time? s
  | c :: rest => do
    let t ← time? (s.takeWhile fun c => !isSign c && !isZone c)
    if isZone c then (if rest.isEmpty then some (t ++ ['Z']) else none)
    else return t ++ (← offset? c rest)

/-- The normal text of a date, a time of day, or both. -/
def moment? (s : List Char) : Option (List Char) :=
  match date? s with
  | some d => some d
  | none =>
    match time? s with
    | some t => some t
    | none => do
      let d ← date? (s.take 10)
      match s.drop 10 with
      | c :: rest =>
        if c == 'T' || c == 't' || c == ' ' then return d ++ 'T' :: (← timeWithOffset? rest)
        else none
      | [] => none

/-! ### Scalars -/

/-- The characters of scalars without quotes. -/
def isTokenChar (c : Char) : Bool := isKeyChar c || c == '+' || c == '.' || c == ':'

/-- The run of characters of a scalar without quotes, and what follows it.  A single blank may stand
between a date and a time. -/
def token (s : List Char) : List Char × List Char :=
  let t := s.takeWhile isTokenChar
  let rest := s.dropWhile isTokenChar
  match rest with
  | ' ' :: c :: more =>
    if (date? t).isSome && c.isDigit then
      (t ++ ' ' :: (c :: more).takeWhile isTokenChar, (c :: more).dropWhile isTokenChar)
    else (t, rest)
  | _ => (t, rest)

/-- The value of a run of characters. -/
def ofToken? (t : List Char) : Option Value :=
  if t == ['t', 'r', 'u', 'e'] then some (.bool true)
  else if t == ['f', 'a', 'l', 's', 'e'] then some (.bool false)
  else match moment? t with
    | some m => some (.text (String.ofList m))
    | none => number? t

/-- A scalar that begins here. -/
def scalar? (s : List Char) : Option (Value × List Char) :=
  match s with
  | '"' :: _ => (string? s).map fun (t, s) => (.text t, s)
  | '\'' :: _ => (string? s).map fun (t, s) => (.text t, s)
  | _ =>
    let (t, rest) := token s
    (ofToken? t).map (·, rest)

end Toml

end Configuration

end Upkeep
