/-
**JSON documents.**

A reader for JSON texts.  Numbers are kept as they are spelled and objects keep all their members in
order, repeated keys included, so that each user of a document decides what they mean.  A string
whose escapes leave a surrogate unpaired is well formed, but it is no text.

The reader is a recursive descent.  Every call is given a budget that is larger than the number of
characters left, and every call but the outermost is made after at least one character was read, so
the budget never runs out.

Main definitions:

* `Upkeep.Data.Json` — documents;
* `Upkeep.Data.Json.parse?` — the document that a text holds, if it is well formed.
-/

set_option relaxedAutoImplicit false
set_option autoImplicit false

namespace Upkeep

namespace Data

/-- A JSON document. -/
inductive Json where
  | null
  | bool (b : Bool)
  /-- A number, as it is spelled. -/
  | number (spelling : List Char)
  | text (s : String)
  /-- A string with an unpaired surrogate. -/
  | garbled
  | list (items : List Json)
  | table (members : List (String × Json))
deriving Inhabited

namespace Json

/-! ### Spaces and digits -/

/-- The blanks between the tokens of a document. -/
def isSpace (c : Char) : Bool := c == ' ' || c == '\t' || c == '\n' || c == '\r'

/-- The text without leading blanks. -/
def skipSpace (s : List Char) : List Char := s.dropWhile isSpace

/-- The value of a hexadecimal digit. -/
def hexDigit? (c : Char) : Option Nat :=
  if c.isDigit then some (c.toNat - '0'.toNat)
  else if 'a' ≤ c ∧ c ≤ 'f' then some (c.toNat - 'a'.toNat + 10)
  else if 'A' ≤ c ∧ c ≤ 'F' then some (c.toNat - 'A'.toNat + 10)
  else none

/-- The value of four hexadecimal digits, and what follows them. -/
def hexFour? : List Char → Option (Nat × List Char)
  | a :: b :: c :: d :: s => do
    let a ← hexDigit? a
    let b ← hexDigit? b
    let c ← hexDigit? c
    let d ← hexDigit? d
    some (((a * 16 + b) * 16 + c) * 16 + d, s)
  | _ => none

/-! ### Strings -/

/-- The character of an escape with one letter. -/
def shortEscape? (c : Char) : Option Char :=
  if c == '"' || c == '\\' || c == '/' then some c
  else if c == 'b' then some (Char.ofNat 8)
  else if c == 'f' then some (Char.ofNat 12)
  else if c == 'n' then some '\n'
  else if c == 'r' then some '\r'
  else if c == 't' then some '\t'
  else none

/-- The rest of a string after its opening quote: its characters, or `none` if a surrogate is left
unpaired, and what follows the closing quote.  `read` holds the characters so far, latest first. -/
def stringBody : Nat → Option (List Char) → List Char → Option (Option String × List Char)
  | 0, _, _ => none
  | _, _, [] => none
  | fuel + 1, read, c :: s =>
    if c == '"' then some (read.map fun cs => String.ofList cs.reverse, s)
    else if c.toNat < 0x20 then none
    else if c != '\\' then stringBody fuel (read.map (c :: ·)) s
    else match s with
      | 'u' :: s => do
        let (hi, s) ← hexFour? s
        if 0xD800 ≤ hi ∧ hi < 0xDC00 then
          match s with
          | '\\' :: 'u' :: s => do
            let (lo, s') ← hexFour? s
            if 0xDC00 ≤ lo ∧ lo < 0xE000 then
              let code := 0x10000 + (hi - 0xD800) * 0x400 + (lo - 0xDC00)
              stringBody fuel (read.map (Char.ofNat code :: ·)) s'
            else stringBody fuel none s'
          | s => stringBody fuel none s
        else if 0xDC00 ≤ hi ∧ hi < 0xE000 then stringBody fuel none s
        else stringBody fuel (read.map (Char.ofNat hi :: ·)) s
      | e :: s => do
        let c ← shortEscape? e
        stringBody fuel (read.map (c :: ·)) s
      | [] => none

/-- A string at the start of a text, and what follows it. -/
def string? (s : List Char) : Option (Option String × List Char) :=
  match s with
  | '"' :: s => stringBody (s.length + 1) (some []) s
  | _ => none

/-! ### Numbers -/

/-- The longest run of digits at the start of a text, and what follows it. -/
def digits (s : List Char) : List Char × List Char :=
  (s.takeWhile Char.isDigit, s.dropWhile Char.isDigit)

/-- A number at the start of a text, and what follows it. -/
def number? (s : List Char) : Option (List Char × List Char) := do
  let (sign, s) := match s with
    | '-' :: s => (['-'], s)
    | s => ([], s)
  let (whole, s) := digits s
  if whole.isEmpty || (whole.length > 1 && whole.head? == some '0') then none
  let (fraction, s) ← match s with
    | '.' :: s =>
      let (ds, s) := digits s
      if ds.isEmpty then none else some ('.' :: ds, s)
    | s => some ([], s)
  let (exponent, s) ← match s with
    | e :: s' =>
      if e == 'e' || e == 'E' then
        let (sign, s') := match s' with
          | '+' :: r => (['+'], r)
          | '-' :: r => (['-'], r)
          | r => ([], r)
        let (ds, s') := digits s'
        if ds.isEmpty then none else some (e :: (sign ++ ds), s')
      else some ([], s)
    | [] => some ([], [])
  some (sign ++ whole ++ fraction ++ exponent, s)

/-! ### Documents -/

/-- What follows a word at the start of a text. -/
def word? (w s : List Char) : Option (List Char) :=
  if w.isPrefixOf s then some (s.drop w.length) else none

mutual

/-- A document at the start of a text, and what follows it. -/
def value : Nat → List Char → Option (Json × List Char)
  | 0, _ => none
  | fuel + 1, s =>
    match skipSpace s with
    | 'n' :: s => (word? ['u', 'l', 'l'] s).map (null, ·)
    | 't' :: s => (word? ['r', 'u', 'e'] s).map (bool true, ·)
    | 'f' :: s => (word? ['a', 'l', 's', 'e'] s).map (bool false, ·)
    | '"' :: s => do
      let (t, s) ← string? ('"' :: s)
      some (match t with | some t => text t | none => garbled, s)
    | '[' :: s =>
      match skipSpace s with
      | ']' :: s => some (list [], s)
      | s => items fuel [] s
    | c :: s =>
      if c.toNat = 0x7B then
        match skipSpace s with
        | d :: s => if d.toNat = 0x7D then some (table [], s) else members fuel [] (d :: s)
        | [] => none
      else (number? (c :: s)).map fun (n, s) => (number n, s)
    | [] => none

/-- The rest of a list after its bracket or a comma; `read` holds the items so far, latest
first. -/
def items : Nat → List Json → List Char → Option (Json × List Char)
  | 0, _, _ => none
  | fuel + 1, read, s => do
    let (v, s) ← value fuel s
    match skipSpace s with
    | ',' :: s => items fuel (v :: read) s
    | ']' :: s => some (list (v :: read).reverse, s)
    | _ => none

/-- The rest of an object after its brace or a comma; `read` holds the members so far, latest
first. -/
def members : Nat → List (String × Json) → List Char → Option (Json × List Char)
  | 0, _, _ => none
  | fuel + 1, read, s => do
    let (key, s) ← string? (skipSpace s)
    let key ← key
    match skipSpace s with
    | ':' :: s =>
      let (v, s) ← value fuel s
      match skipSpace s with
      | ',' :: s => members fuel ((key, v) :: read) s
      | c :: s => if c.toNat = 0x7D then some (table ((key, v) :: read).reverse, s) else none
      | [] => none
    | _ => none

end

/-- The document that a text holds, if the text is well formed. -/
def parse? (s : String) : Option Json :=
  match value (s.toList.length + 1) s.toList with
  | some (v, rest) => if (skipSpace rest).isEmpty then some v else none
  | none => none

/-! ### Access -/

/-- The text of a string. -/
def text? : Json → Option String
  | text s => some s
  | _ => none

/-- The texts of a list of strings. -/
def texts? : Json → Option (List String)
  | list items => items.mapM text?
  | _ => none

end Json

end Data

end Upkeep
