/-
**Syntax trees of C++ sources.**

A node has a label and children.  The label tells the kind of the node, the field of its parent that
it fills, whether it is part of the grammar or stands for an error, where it begins, and the source
text that it covers.  Every node of a tree has a number of its own.

A tree is given as rows in depth-first order, each with its depth.

Main definitions:

* `Upkeep.Cpp.Label`, `Upkeep.Cpp.Node` — trees;
* `Upkeep.Cpp.Node.field?`, `Upkeep.Cpp.Node.fields` — the children that fill a field;
* `Upkeep.Cpp.Node.parts` — the children that carry meaning;
* `Upkeep.Cpp.Row`, `Upkeep.Cpp.Node.ofRows?` — the tree of a list of rows.
-/

import Upkeep.Text.Utf8

set_option relaxedAutoImplicit false
set_option autoImplicit false

namespace Upkeep

namespace Cpp

/-! ### Nodes -/

/-- What is known of a node by itself. -/
structure Label where
  id : Nat
  kind : String
  field : Option String
  named : Bool
  isError : Bool
  isMissing : Bool
  /-- Whether the node is an error or contains one. -/
  hasError : Bool
  /-- The number of bytes in front of the node. -/
  start : Nat
  /-- The number of lines in front of the line that the node begins on. -/
  row : Nat
  /-- The number of bytes in front of the node on its line. -/
  column : Nat
  text : String
deriving DecidableEq, Repr, Inhabited

/-- A syntax tree. -/
inductive Node where
  | mk (label : Label) (children : List Node)
deriving Repr, Inhabited

namespace Node

def label : Node → Label
  | mk l _ => l

/-- All children, blanks and punctuation included. -/
def children : Node → List Node
  | mk _ cs => cs

@[simp] theorem label_mk (l : Label) (cs : List Node) : (mk l cs).label = l := rfl

@[simp] theorem children_mk (l : Label) (cs : List Node) : (mk l cs).children = cs := rfl

/-- A child is smaller than its parent. -/
theorem sizeOf_lt_of_mem {n c : Node} (h : c ∈ n.children) : sizeOf c < sizeOf n := by
  cases n with
  | mk l cs =>
      have := List.sizeOf_lt_of_mem (show c ∈ cs from h)
      simp only [mk.sizeOf_spec]
      omega

/-- The number of the node. -/
def id (n : Node) : Nat := n.label.id

/-- The kind of the node. -/
def kind (n : Node) : String := n.label.kind

/-- The source text that the node covers. -/
def text (n : Node) : String := n.label.text

/-- The line that the node begins on, counted from one. -/
def line (n : Node) : Nat := n.label.row + 1

/-- The byte of its line that the node begins on, counted from one. -/
def column (n : Node) : Nat := n.label.column + 1

/-- Whether a node stands for an error or for something that is missing. -/
def isBroken (n : Node) : Bool := n.label.isError || n.label.isMissing

/-- The children that fill a field. -/
def fields (n : Node) (f : String) : List Node := n.children.filter (·.label.field == some f)

/-- The first child that fills a field. -/
def field? (n : Node) (f : String) : Option Node := n.children.find? (·.label.field == some f)

/-- The text of the first child that fills a field. -/
def fieldText? (n : Node) (f : String) : Option String := (n.field? f).map text

/-- The children that carry meaning: punctuation and comments are left out. -/
def parts (n : Node) : List Node :=
  n.children.filter fun c => c.label.named && c.kind != "comment"

theorem mem_children_of_mem_parts {n c : Node} (h : c ∈ n.parts) : c ∈ n.children :=
  (List.mem_filter.1 h).1

theorem mem_children_of_mem_fields {n c : Node} {f : String} (h : c ∈ n.fields f) :
    c ∈ n.children :=
  (List.mem_filter.1 h).1

theorem mem_children_of_field? {n c : Node} {f : String} (h : n.field? f = some c) :
    c ∈ n.children :=
  List.mem_of_find?_eq_some h

end Node

/-! ### Rows -/

/-- A node as a row of a listing: its depth, what is known of it, and the bytes it covers. -/
structure Row where
  depth : Nat
  kind : String
  field : Option String
  named : Bool
  isError : Bool
  isMissing : Bool
  hasError : Bool
  start : Nat
  stop : Nat
deriving DecidableEq, Repr

/-- The line feeds among some bytes, and the number of bytes behind the last of them. -/
def position (bytes : List UInt8) : Nat × Nat :=
  bytes.foldl (fun (p : Nat × Nat) (b : UInt8) => if b = 10 then (p.1 + 1, 0) else (p.1, p.2 + 1))
    (0, 0)

/-- The label of row number `id` over a source. -/
def Row.label (source : ByteArray) (r : Row) (id : Nat) : Label :=
  let place := position (source.extract 0 r.start).data.toList
  { id := id, kind := r.kind, field := r.field, named := r.named, isError := r.isError,
    isMissing := r.isMissing, hasError := r.hasError, start := r.start, row := place.1,
    column := place.2,
    text := Text.Utf8.decode (source.extract r.start r.stop).data.toList }

/-- Trees that wait for a parent, in order, each with its depth. -/
abbrev Orphans := List (Nat × Node)

/-- One more row in front of the trees made of the rows behind it: it takes those that follow at the
next depth as its children. -/
def adopt (source : ByteArray) (r : Row × Nat) (orphans : Orphans) : Orphans :=
  let isChild := fun (o : Nat × Node) => o.1 == r.1.depth + 1
  (r.1.depth, .mk (r.1.label source r.2) ((orphans.takeWhile isChild).map Prod.snd)) ::
    orphans.dropWhile isChild

/-- The tree of a list of rows over a source. -/
def Node.ofRows? (source : String) (rows : List Row) : Option Node :=
  (rows.zipIdx.foldr (adopt source.toUTF8) []).head?.map Prod.snd

end Cpp

end Upkeep
