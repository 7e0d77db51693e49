/-
**Plain sources.**

A reader for plain C++: declarations and functions, records, name spaces, the usual statements, and
expressions without casts, templates and lambdas.  It builds syntax trees of the same shape as a full
grammar does, for use where none is at hand.  Anything else at file scope is passed over without a
node, up to the end of the statement or block, so that a plain tree never holds an error.

Expressions are read by precedence: an operand first, then operators of at least a given level with
the operands behind them.  The budget of a reader bounds how deep it goes.

Main definitions:

* `Upkeep.Cpp.Phrase` — a node without a number, and its rows;
* `Upkeep.Cpp.Plain.value`, `Upkeep.Cpp.Plain.statement`, `Upkeep.Cpp.Plain.item` — the readers;
* `Upkeep.Cpp.Plain.tree` — the tree of a text.
-/

import Upkeep.Cpp.Lexeme
import Upkeep.Cpp.Tree

set_option relaxedAutoImplicit false
set_option autoImplicit false

namespace Upkeep

namespace Cpp

/-! ### Phrases -/

/-- A node that has no number yet. -/
inductive Phrase where
  | mk (kind : String) (field : Option String) (named : Bool) (start stop : Nat)
    (parts : List Phrase)

namespace Phrase

/-- The first byte of a phrase. -/
def start : Phrase → Nat
  | mk _ _ _ s _ _ => s

/-- The byte behind a phrase. -/
def stop : Phrase → Nat
  | mk _ _ _ _ e _ => e

/-- The kind of a phrase. -/
def kind : Phrase → String
  | mk k _ _ _ _ _ => k

/-- A phrase in a field. -/
def into (f : String) : Phrase → Phrase
  | mk k _ n s e ps => mk k (some f) n s e ps

/-- A lexeme that only marks. -/
def ofMark (l : Lexeme) : Phrase := mk l.text none false l.start l.stop []

/-- A lexeme that has a meaning of this kind. -/
def ofLexeme (kind : String) (l : Lexeme) : Phrase := mk kind none true l.start l.stop []

/-- A lexeme that has a meaning of this kind and is marked inside. -/
def ofMarked (kind : String) (l : Lexeme) : Phrase :=
  mk kind none true l.start l.stop [ofMark l]

/-- The phrase of this kind that some phrases make. -/
def ofParts (kind : String) (ps : List Phrase) : Phrase :=
  mk kind none true ((ps.head?.map start).getD 0) ((ps.getLast?.map stop).getD 0) ps

mutual

/-- The rows of a phrase at a depth. -/
def rows (depth : Nat) : Phrase → List Row
  | mk k f n s e ps => ⟨depth, k, f, n, false, false, false, s, e⟩ :: rowsOf (depth + 1) ps

/-- The rows of some phrases at a depth. -/
def rowsOf (depth : Nat) : List Phrase → List Row
  | [] => []
  | p :: ps => rows depth p ++ rowsOf depth ps

end

/-- A quoted text: its quotes, and its content unless that is empty. -/
def ofQuoted (kind content : String) (l : Lexeme) : Phrase :=
  let quote := String.ofList (l.text.toList.take 1)
  let inside := if l.stop ≤ l.start + 2 then [] else
    [mk content none true (l.start + 1) (l.stop - 1) []]
  mk kind none true l.start l.stop
    (mk quote none false l.start (l.start + 1) [] :: inside ++
      [mk quote none false (l.stop - 1) l.stop []])

end Phrase

namespace Plain

open Phrase

/-! ### Readers -/

/-- A reader of lexemes, which can fail. -/
abbrev Reader := StateT (List Lexeme) Option

/-- The next lexeme, which is taken. -/
def next : Reader Lexeme := do
  match ← get with
  | [] => failure
  | l :: ls => set ls; return l

/-- The next lexeme if it has a property; it is taken. -/
def nextIf (p : Lexeme → Bool) : Reader Lexeme := do
  let l ← next
  if p l then return l else failure

/-- Whether a lexeme is this word or mark. -/
def isText (t : String) (l : Lexeme) : Bool := (l.kind == .word || l.kind == .mark) && l.text == t

/-- A word or mark that has to come next. -/
def mark (t : String) : Reader Phrase := ofMark <$> nextIf (isText t)

/-- One of some words or marks, which has to come next. -/
def markOf (ts : List String) : Reader Phrase := ofMark <$> nextIf fun l => ts.any (isText · l)

/-- Whether a word or mark comes next. -/
def sees (t : String) : Reader Bool := do return (← get).head?.any (isText t)

/-- A list of what a reader finds, as long as it finds something. -/
def many {α : Type} (r : Reader α) : (budget : Nat) → Reader (List α)
  | 0 => return []
  | budget + 1 => (do return (← r) :: (← many r budget)) <|> return []

/-! ### Words -/

/-- Words that are no names. -/
def keywords : List String :=
  ["break", "case", "class", "const", "constexpr", "continue", "default", "delete", "do", "else",
    "enum", "extern", "for", "goto", "if", "inline", "namespace", "new", "operator", "private",
    "protected", "public", "register", "return", "sizeof", "static", "struct", "switch", "template",
    "thread_local", "typedef", "typename", "union", "using", "virtual", "volatile", "while"]

/-- The words in front of a type that say how something is stored. -/
def storageWords : List String := ["extern", "static", "register", "inline", "thread_local"]

/-- The words beside a type that qualify it. -/
def qualifierWords : List String := ["const", "constexpr", "volatile"]

/-- The types of the language. -/
def primitiveTypes : List String :=
  ["bool", "char", "int", "float", "double", "void", "size_t", "ssize_t", "ptrdiff_t", "intptr_t",
    "uintptr_t", "int8_t", "int16_t", "int32_t", "int64_t", "uint8_t", "uint16_t", "uint32_t",
    "uint64_t"]

/-- A name. -/
def name (kind : String) : Reader Phrase :=
  ofLexeme kind <$> nextIf fun l => l.kind == .word && !keywords.contains l.text

/-- A word that says how something is stored, or a qualifier. -/
def specifier : Reader Phrase := do
  let l ← nextIf fun l => l.kind == .word
  if storageWords.contains l.text then return ofMarked "storage_class_specifier" l
  else if qualifierWords.contains l.text then return ofMarked "type_qualifier" l
  else failure

/-- A name, qualified by the name of its scope or marked as one of the outermost scope. -/
def qualifiedName : Reader Phrase := do
  if ← sees "::" then
    let colons ← mark "::"
    return ofParts "qualified_identifier" [colons, (← name "identifier").into "name"]
  else
    let l ← nextIf fun l => l.kind == .word && !keywords.contains l.text
    if ← sees "::" then
      let colons ← mark "::"
      return ofParts "qualified_identifier"
        [(ofLexeme "namespace_identifier" l).into "scope", colons,
          (← name "identifier").into "name"]
    else return ofLexeme "identifier" l

/-! ### Operators -/

/-- The level of an operator between two operands; a higher level binds stronger. -/
def level? (op : String) : Option Nat :=
  ([ (["||"], 1), (["&&"], 2), (["|"], 3), (["^"], 4), (["&"], 5), (["==", "!="], 6),
    (["<", ">", "<=", ">="], 7), (["<<", ">>"], 8), (["+", "-"], 9), (["*", "/", "%"], 10) ].find?
      fun (ops, _) => ops.contains op).map Prod.snd

/-- The operators that assign. -/
def assigningMarks : List String :=
  ["=", "+=", "-=", "*=", "/=", "%=", "&=", "|=", "^=", "<<=", ">>="]

/-- The level of the operator that comes next, if its level is at least the given one. -/
def seesLevel (least : Nat) : Reader (Option Nat) := do
  let ls ← get
  return (ls.head?.filter (·.kind == .mark)).bind fun l => (level? l.text).filter (least ≤ ·)

/-! ### Expressions -/

/-- The words that are values by themselves. -/
def valueWord? (l : Lexeme) : Option Phrase :=
  if ["true", "false", "this"].contains l.text then some (ofLexeme l.text l)
  else if ["NULL", "nullptr"].contains l.text then some (ofMarked "null" l)
  else none

/-- A value that is one lexeme, or a name. -/
def atom : Reader Phrase := do
  match (← get).head? with
  | none => failure
  | some l =>
    match l.kind with
    | .number => return ofLexeme "number_literal" (← next)
    | .string => return ofQuoted "string_literal" "string_content" (← next)
    | .character => return ofQuoted "char_literal" "character" (← next)
    | .word =>
      match valueWord? l with
      | some p => let _ ← next; return p
      | none => qualifiedName
    | .mark => qualifiedName

mutual

/-- A value: an assignment, a choice between two values, or an expression of operators. -/
def value : Nat → Reader Phrase
  | 0 => failure
  | n + 1 => do
    let left ← operators n 1 (← operand n)
    if ← sees "?" then
      let question ← mark "?"
      let yes ← value n
      let colon ← mark ":"
      return ofParts "conditional_expression"
        [left.into "condition", question, yes.into "consequence", colon,
          (← value n).into "alternative"]
    else
      (do
        let op ← markOf assigningMarks
        return ofParts "assignment_expression"
          [left.into "left", op.into "operator", (← initial n).into "right"]) <|> return left

/-- Operators of at least a level, with the operands behind them. -/
def operators : Nat → Nat → Phrase → Reader Phrase
  | 0, _, _ => failure
  | n + 1, least, left => do
    match ← seesLevel least with
    | none => return left
    | some level =>
      let op := ofMark (← next)
      let right ← operators n (level + 1) (← operand n)
      operators n least (ofParts "binary_expression"
        [left.into "left", op.into "operator", right.into "right"])

/-- An operand with the operators in front of it and behind it. -/
def operand : Nat → Reader Phrase
  | 0 => failure
  | n + 1 => do
    match (← get).head? with
    | none => failure
    | some l =>
      let applied := fun (kind : String) => do
        let op := ofMark (← next)
        return ofParts kind [op.into "operator", (← operand n).into "argument"]
      if isText "&" l || isText "*" l then applied "pointer_expression"
      else if ["!", "~", "-", "+"].any (isText · l) then applied "unary_expression"
      else if ["++", "--"].any (isText · l) then applied "update_expression"
      else if isText "(" l then
        let opening := ofMark (← next)
        let inside ← value n
        trailers n (ofParts "parenthesized_expression" [opening, inside, ← mark ")"])
      else trailers n (← atom)

/-- Calls, subscripts, fields and counting behind an operand. -/
def trailers : Nat → Phrase → Reader Phrase
  | 0, _ => failure
  | n + 1, p => do
    match (← get).head? with
    | none => return p
    | some l =>
      if isText "(" l then
        let opening := ofMark (← next)
        let args ← values n ")"
        trailers n (ofParts "call_expression"
          [p.into "function",
            (ofParts "argument_list" (opening :: args)).into "arguments"])
      else if isText "[" l then
        let opening := ofMark (← next)
        let args ← values n "]"
        trailers n (ofParts "subscript_expression"
          [p.into "argument",
            (ofParts "subscript_argument_list" (opening :: args)).into "indices"])
      else if isText "." l || isText "->" l then
        let op := ofMark (← next)
        trailers n (ofParts "field_expression"
          [p.into "argument", op.into "operator", (← name "field_identifier").into "field"])
      else if isText "++" l || isText "--" l then
        trailers n (ofParts "update_expression"
          [p.into "argument", (ofMark (← next)).into "operator"])
      else return p

/-- Values with commas between them up to a closing mark, which is taken too. -/
def values : Nat → String → Reader (List Phrase)
  | 0, _ => failure
  | n + 1, closing => do
    if ← sees closing then return [← mark closing]
    else
      let v ← initial n
      if ← sees "," then
        let comma ← mark ","
        return v :: comma :: (← values n closing)
      else return [v, ← mark closing]

/-- What may be given to a variable or a field: a value, or a list of values in braces. -/
def initial : Nat → Reader Phrase
  | 0 => failure
  | n + 1 => do
    if ← sees "\x7b" then
      let opening ← mark "\x7b"
      return ofParts "initializer_list" (opening :: (← values n "\x7d"))
    else if ← sees "." then
      let dot ← mark "."
      let field ← name "field_identifier"
      let equals ← mark "="
      return ofParts "initializer_pair"
        [(ofParts "field_designator" [dot, field]).into "designator", equals,
          (← initial n).into "value"]
    else value n

end

/-! ### Declarations -/

/-- The name of a type. -/
def typeName : Reader Phrase := do
  let l ← nextIf fun l => l.kind == .word && !keywords.contains l.text
  if l.text == "auto" then return ofMarked "placeholder_type_specifier" l
  else return ofLexeme (if primitiveTypes.contains l.text then "primitive_type" else
    "type_identifier") l

mutual

/-- A declarator of a name of this kind: pointers in front, then the name, then arrays and
parameters behind it. -/
def declarator : Nat → String → Reader Phrase
  | 0, _ => failure
  | n + 1, kind => do
    if ← sees "*" then
      let star ← mark "*"
      let qualifiers ← many specifier n
      return ofParts "pointer_declarator"
        (star :: qualifiers ++ [(← declarator n kind).into "declarator"])
    else if ← sees "&" then
      return ofParts "reference_declarator" [← mark "&", ← declarator n kind]
    else declared n (← name kind)

/-- Arrays and parameters behind a declared name. -/
def declared : Nat → Phrase → Reader Phrase
  | 0, _ => failure
  | n + 1, p => do
    if ← sees "[" then
      let opening ← mark "["
      let size ← if ← sees "]" then pure [] else pure [(← value n).into "size"]
      declared n (ofParts "array_declarator"
        ([p.into "declarator", opening] ++ size ++ [← mark "]"]))
    else if ← sees "(" then
      let opening ← mark "("
      let params ← parameters n
      return ofParts "function_declarator"
        [p.into "declarator", (ofParts "parameter_list" (opening :: params)).into "parameters"]
    else return p

/-- Parameters with commas between them up to the closing bracket, which is taken too. -/
def parameters : Nat → Reader (List Phrase)
  | 0 => failure
  | n + 1 => do
    if ← sees ")" then return [← mark ")"]
    else
      let qualifiers ← many specifier n
      let type ← typeName
      let more ← many specifier n
      let names ← (do return [(← declarator n "identifier").into "declarator"]) <|> pure []
      let p := ofParts "parameter_declaration" (qualifiers ++ type.into "type" :: more ++ names)
      if ← sees "," then
        let comma ← mark ","
        return p :: comma :: (← parameters n)
      else return [p, ← mark ")"]

end

/-- A declarator with the value that the variable begins with, if there is one. -/
def initialised (n : Nat) (kind : String) : Reader Phrase := do
  let d ← declarator n kind
  if ← sees "=" then
    let equals ← mark "="
    return ofParts "init_declarator"
      [d.into "declarator", equals, (← initial n).into "value"]
  else return d

/-- Declarators with commas between them up to the semicolon, which is taken too. -/
def declarators (kind : String) : Nat → Reader (List Phrase)
  | 0 => failure
  | n + 1 => do
    let d ← initialised n kind
    if ← sees "," then
      let comma ← mark ","
      return d.into "declarator" :: comma :: (← declarators kind n)
    else return [d.into "declarator", ← mark ";"]

/-- A record with its fields, or only its name. -/
def record : Nat → Reader Phrase
  | 0 => failure
  | n + 1 => do
    let word ← markOf ["struct", "class", "union"]
    let kind := word.kind ++ "_specifier"
    let label ← (do return [(← name "type_identifier").into "name"]) <|> pure []
    if ← sees "\x7b" then
      let opening ← mark "\x7b"
      let fields ← many (do
        let qualifiers ← many specifier n
        let type ← record n <|> typeName
        return ofParts "field_declaration"
          (qualifiers ++ type.into "type" :: (← declarators "field_identifier" n))) n
      return ofParts kind (word :: label ++
        [(ofParts "field_declaration_list" (opening :: fields ++ [← mark "\x7d"])).into "body"])
    else if label.isEmpty then failure
    else return ofParts kind (word :: label)

/-- A type with the words around it. -/
def typed (n : Nat) : Reader (List Phrase) := do
  let before ← many specifier n
  let type ← record n <|> typeName
  let behind ← many specifier n
  return before ++ type.into "type" :: behind

/-- A declaration of variables. -/
def declaration (n : Nat) : Reader Phrase := do
  let type ← typed n
  return ofParts "declaration" (type ++ (← declarators "identifier" n))

/-! ### Statements -/

mutual

/-- A statement. -/
def statement : Nat → Reader Phrase
  | 0 => failure
  | n + 1 => do
    match (← get).head? with
    | none => failure
    | some l =>
      if isText "\x7b" l then block n
      else if isText "return" l then
        let word := ofMark (← next)
        let v ← if ← sees ";" then pure [] else pure [← initial n]
        return ofParts "return_statement" (word :: v ++ [← mark ";"])
      else if isText "break" l || isText "continue" l then
        let word := ofMark (← next)
        return ofParts (l.text ++ "_statement") [word, ← mark ";"]
      else if isText "if" l then choice n
      else if isText "while" l then
        let word := ofMark (← next)
        let c ← condition n
        return ofParts "while_statement" [word, c, (← statement n).into "body"]
      else if isText "switch" l then
        let word := ofMark (← next)
        let c ← condition n
        return ofParts "switch_statement" [word, c, (← block n).into "body"]
      else if isText "case" l then
        let word := ofMark (← next)
        let v ← value n
        cases n [word, v.into "value"]
      else if isText "default" l then cases n [ofMark (← next)]
      else if isText "for" l then loop n
      else if isText ";" l then return ofParts "expression_statement" [← mark ";"]
      else declaration n <|> do
        let v ← value n
        return ofParts "expression_statement" [v, ← mark ";"]

/-- The statements of a case behind its head. -/
def cases : Nat → List Phrase → Reader Phrase
  | 0, _ => failure
  | n + 1, head => do
    let colon ← mark ":"
    let body ← many (do
      if (← sees "case") || (← sees "default") then failure else statement n) n
    return ofParts "case_statement" (head ++ colon :: body)

/-- Statements in braces. -/
def block : Nat → Reader Phrase
  | 0 => failure
  | n + 1 => do
    let opening ← mark "\x7b"
    let body ← many (statement n) n
    return ofParts "compound_statement" (opening :: body ++ [← mark "\x7d"])

/-- A condition in brackets. -/
def condition : Nat → Reader Phrase
  | 0 => failure
  | n + 1 => do
    let opening ← mark "("
    let v ← value n
    return (ofParts "condition_clause" [opening, v.into "value", ← mark ")"]).into "condition"

/-- A statement under a condition, and the one for the other case. -/
def choice : Nat → Reader Phrase
  | 0 => failure
  | n + 1 => do
    let word ← mark "if"
    let c ← condition n
    let yes ← statement n
    let other ← if ← sees "else" then do
        let word ← mark "else"
        pure [(ofParts "else_clause" [word, ← statement n]).into "alternative"]
      else pure []
    return ofParts "if_statement" (word :: c :: yes.into "consequence" :: other)

/-- A loop with a beginning, a condition and a step. -/
def loop : Nat → Reader Phrase
  | 0 => failure
  | n + 1 => do
    let word ← mark "for"
    let opening ← mark "("
    let first ← (do return [(← declaration n).into "initializer"]) <|> (do
      let v ← if ← sees ";" then pure [] else pure [(← value n).into "initializer"]
      return v ++ [← mark ";"])
    let test ← if ← sees ";" then pure [] else pure [(← value n).into "condition"]
    let semicolon ← mark ";"
    let step ← if ← sees ")" then pure [] else pure [(← value n).into "update"]
    let closing ← mark ")"
    return ofParts "for_statement" (word :: opening :: first ++ test ++ semicolon :: step ++
      [closing, (← statement n).into "body"])

end

/-! ### Files -/

/-- A function with its body. -/
def function (n : Nat) : Reader Phrase := do
  let type ← typed n
  let d ← declarator n "identifier"
  return ofParts "function_definition"
    (type ++ [d.into "declarator", (← block n).into "body"])

/-- A name for a type. -/
def typeDefinition (n : Nat) : Reader Phrase := do
  let word ← mark "typedef"
  let type ← typed n
  return ofParts "type_definition" (word :: type ++ (← declarators "type_identifier" n))

/-- What follows a statement or block that is passed over; `depth` braces are open. -/
def passOver : (depth : Nat) → List Lexeme → List Lexeme
  | _, [] => []
  | depth, l :: ls =>
    if isText "\x7b" l then passOver (depth + 1) ls
    else if isText "\x7d" l then if depth ≤ 1 then ls else passOver (depth - 1) ls
    else if isText ";" l && depth == 0 then ls
    else passOver depth ls

mutual

/-- What stands at file scope: the nodes of a known item, or nothing for an unknown one. -/
def item : Nat → Reader (List Phrase)
  | 0 => failure
  | n + 1 => do
    if ← sees "\x7d" then failure
    else
      (do return [← function n]) <|> (do return [← declaration n]) <|>
      (do return [← typeDefinition n]) <|>
      (do let r ← record n; return [r, ← mark ";"]) <|>
      (do return [← space n]) <|>
      (do modify (passOver 0); return [])

/-- A name space, with or without a name. -/
def space : Nat → Reader Phrase
  | 0 => failure
  | n + 1 => do
    let word ← mark "namespace"
    let label ← (do return [(← name "namespace_identifier").into "name"]) <|> pure []
    let opening ← mark "\x7b"
    let items ← many (item n) n
    let body := ofParts "declaration_list" (opening :: items.flatten ++ [← mark "\x7d"])
    return ofParts "namespace_definition" (word :: label ++ [body.into "body"])

end

/-- The items of a file.  Each takes at least one lexeme, so the first budget need not be larger than
their number; the second one bounds how deep an item may go. -/
def items (depth : Nat) : (budget : Nat) → List Lexeme → List Phrase
  | 0, _ => []
  | _, [] => []
  | budget + 1, ls =>
    match (item depth).run ls with
    | some (ps, rest) => ps ++ items depth budget rest
    | none => items depth budget (ls.drop 1)

/-- The rows of a text. -/
def rows (text : String) : List Row :=
  let ls := lexemes text
  let stop := text.utf8ByteSize
  let ps := items (8 * ls.length + 8) ls.length ls
  Phrase.rows 0 (.mk "file" none true ((ps.head?.map start).getD stop) stop ps)

/-- The tree of a text. -/
def tree (text : String) : Node := (Node.ofRows? text (rows text)).getD default

end Plain

end Cpp

end Upkeep
