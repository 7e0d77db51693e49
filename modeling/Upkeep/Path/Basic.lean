/-
**Paths and their components.**

A path is a text, but it is read as a list of components: repeated and trailing slashes and inner
`.` segments carry no meaning.  Two paths are the same when their components are, and paths are
ordered component by component, so that a directory sorts directly before what it holds.  A path
prints as it was written.

Main definitions:

* `Upkeep.Component`, `Upkeep.Path` — components and paths;
* `Upkeep.Path.components` — the view of a path as components;
* `Upkeep.Path.ofComponents` — the path that is written with single slashes;
* `Upkeep.Path.compare`, `Upkeep.Path.same` — order and sameness;
* `Upkeep.Path.take`, `Upkeep.Path.drop` — a path up to some component, and behind it;
* `Upkeep.Path.join`, `Upkeep.Path.parent?`, `Upkeep.Path.fileName?`, `Upkeep.Path.extension?`.
-/

import Upkeep.Text.Lines
import Upkeep.Text.Search

set_option relaxedAutoImplicit false
set_option autoImplicit false

namespace Upkeep

/-! ### Components -/

/-- One step of a path. -/
inductive Component where
  /-- The root directory; only at the start. -/
  | root
  /-- The directory `.`; only at the start of a relative path. -/
  | here
  /-- The parent directory `..`. -/
  | up
  /-- An entry of the directory reached so far. -/
  | name (text : String)
deriving DecidableEq, Repr

namespace Component

/-- The spelling of a component. -/
def text : Component → String
  | root => "/"
  | here => "."
  | up => ".."
  | name s => s

/-- The place of a kind of component in the order. -/
def rank : Component → Nat
  | root => 0
  | here => 1
  | up => 2
  | name _ => 3

/-- Components are ordered by kind, and names by their code points. -/
def order : Component → Component → Ordering
  | name a, name b => compare a b
  | a, b => compare a.rank b.rank

/-- The component that a segment stands for away from the start of a path, if any. -/
def ofSegment? (s : List Char) : Option Component :=
  if s.isEmpty || s == ['.'] then none
  else if s == ['.', '.'] then some up
  else some (name (String.ofList s))

/-- The name of an entry. -/
def name? : Component → Option String
  | name s => some s
  | _ => none

end Component

/-- Lexicographic order of component lists; a list comes after its beginnings. -/
def compareComponents : List Component → List Component → Ordering
  | [], [] => .eq
  | [], _ :: _ => .lt
  | _ :: _, [] => .gt
  | a :: as, b :: bs => (a.order b).then (compareComponents as bs)

@[simp] theorem Component.order_self (a : Component) : a.order a = .eq := by
  cases a <;> simp [Component.order]

@[simp] theorem compareComponents_self (cs : List Component) : compareComponents cs cs = .eq := by
  induction cs with
  | nil => rfl
  | cons c cs ih => simp [compareComponents, ih]

/-- Components that the order takes for equal are equal. -/
theorem Component.eq_of_order {a b : Component} (h : a.order b = .eq) : a = b := by
  cases a <;> cases b <;> simp_all [Component.order, Component.rank]

theorem eq_of_compareComponents {as bs : List Component} (h : compareComponents as bs = .eq) :
    as = bs := by
  induction as generalizing bs with
  | nil => cases bs <;> simp_all [compareComponents]
  | cons a as ih =>
      cases bs with
      | nil => simp [compareComponents] at h
      | cons b bs =>
          rw [compareComponents, Ordering.then_eq_eq] at h
          rw [Component.eq_of_order h.1, ih h.2]

/-! ### Paths -/

/-- A path, as it was written. -/
structure Path where
  text : String
deriving DecidableEq, Repr, Inhabited

instance : ToString Path := ⟨Path.text⟩

namespace Path

/-- The components of a path written as a list of characters. -/
def componentsOfChars (s : List Char) : List Component :=
  match Text.segments (· == '/') s with
  | [] => []
  | first :: rest =>
    let body := rest.filterMap Component.ofSegment?
    if s.head? == some '/' then .root :: body
    else if first == ['.'] then .here :: body
    else (Component.ofSegment? first).toList ++ body

/-- The view of a path as components. -/
def components (p : Path) : List Component := componentsOfChars p.text.toList

/-- Whether a path starts at the root. -/
def isAbsolute (p : Path) : Bool := p.text.toList.head? == some '/'

/-- The text of components: names are separated by single slashes, and the root is a slash. -/
def textOfComponents : List Component → String
  | .root :: rest => "/" ++ "/".intercalate (rest.map Component.text)
  | cs => "/".intercalate (cs.map Component.text)

/-- The path with the given components, written with single slashes. -/
def ofComponents (cs : List Component) : Path := ⟨textOfComponents cs⟩

/-- Order of paths, component by component.  Paths that are written alike are not taken apart. -/
def compare (p q : Path) : Ordering :=
  if p.text = q.text then .eq else compareComponents p.components q.components

/-- Whether two paths have the same components.  Paths that are written alike are not taken
apart. -/
def same (p q : Path) : Bool := p.text == q.text || p.components == q.components

theorem compare_eq_compareComponents (p q : Path) :
    p.compare q = compareComponents p.components q.components := by
  unfold compare
  split
  · rename_i h
    simp [components, h]
  · rfl

theorem same_iff {p q : Path} : p.same q = true ↔ p.components = q.components := by
  simp only [same, Bool.or_eq_true, beq_iff_eq]
  constructor
  · rintro (h | h)
    · simp [components, h]
    · exact h
  · exact .inr

theorem same_comm (p q : Path) : p.same q = q.same p := by
  rw [Bool.eq_iff_iff, same_iff, same_iff, eq_comm]

theorem same_trans {p q r : Path} (hpq : p.same q = true) (hqr : q.same r = true) :
    p.same r = true := by
  rw [same_iff] at *
  exact hpq.trans hqr

/-- Paths that the order takes for equal are the same. -/
theorem same_of_compare {p q : Path} (h : p.compare q = .eq) : p.same q = true := by
  rw [compare_eq_compareComponents] at h
  exact same_iff.2 (eq_of_compareComponents h)

/-- Membership up to sameness. -/
def isIn (p : Path) (ps : List Path) : Bool := ps.any (p.same ·)

/-- The path `q` seen from `p`: an absolute `q` stands for itself, any other is written behind `p`
and a slash. -/
def join (p q : Path) : Path :=
  if q.isAbsolute then q
  else if p.text.isEmpty || p.text.toList.getLast? == some '/' then ⟨p.text ++ q.text⟩
  else ⟨p.text ++ "/" ++ q.text⟩

/-- The number of segments at the start of a list that are written for `n` components, the root not
counted; `first` tells that the path starts here. -/
def segmentsFor (first : Bool) : (n : Nat) → List (List Char) → Nat
  | 0, _ => 0
  | _ + 1, [] => 0
  | n + 1, s :: rest =>
    if (Component.ofSegment? s).isSome || (first && s == ['.']) then segmentsFor false n rest + 1
    else segmentsFor false (n + 1) rest + 1

/-- The path as it was written up to its first `n` components. -/
def take (p : Path) (n : Nat) : Path :=
  let segs := Text.segments (· == '/') p.text.toList
  if p.isAbsolute then
    match n with
    | 0 => ⟨""⟩
    | 1 => ⟨"/"⟩
    | n + 1 =>
      ⟨"/".intercalate ((segs.take (segmentsFor false n segs.tail + 1)).map String.ofList)⟩
  else ⟨"/".intercalate ((segs.take (segmentsFor true n segs)).map String.ofList)⟩

/-- The path without its last component.  The root and the empty path have no parent. -/
def parent? (p : Path) : Option Path :=
  match p.components.reverse with
  | [] => none
  | [.root] => none
  | _ :: rest => some (p.take rest.length)

/-- The name of the entry that a path ends with. -/
def fileName? (p : Path) : Option String := p.components.getLast?.bind Component.name?

/-- What follows the last dot of a file name that does not begin with this dot. -/
def extensionOfName? (s : List Char) : Option (List Char) :=
  match Text.splitLast? ['.'] s with
  | some (stem, ext) => if stem.isEmpty then none else some ext
  | none => none

/-- What follows the last dot of the file name, unless the name begins with it. -/
def extension? (p : Path) : Option String :=
  p.fileName?.bind fun n => (extensionOfName? n.toList).map String.ofList

/-- The numbers of components of the directories above a path, nearest first: down to none, or to the
root. -/
def ancestorSizes (p : Path) : List Nat :=
  let n := p.components.length
  (List.range n).reverse.filter fun i => i != 0 || !p.isAbsolute

/-- The directories above a path as it was written, nearest first, down to the root or to the empty
path. -/
def ancestors (p : Path) : List Path := p.ancestorSizes.map p.take

/-- The segments without those at both ends that are no components. -/
def trimSegments (segs : List (List Char)) : List (List Char) :=
  let blank := fun s => (Component.ofSegment? s).isNone
  ((segs.dropWhile blank).reverse.dropWhile blank).reverse

/-- The path as it was written behind its first `n` components. -/
def drop (p : Path) (n : Nat) : Path :=
  match n with
  | 0 => p
  | m + 1 =>
    let segs := Text.segments (· == '/') p.text.toList
    let rest := if p.isAbsolute then segs.tail.drop (segmentsFor false m segs.tail)
      else segs.drop (segmentsFor true n segs)
    ⟨"/".intercalate ((trimSegments rest).map String.ofList)⟩

/-- What follows the components of a directory in a path that lies in it, as it was written. -/
def below? (p dir : Path) : Option Path :=
  if dir.components.isPrefixOf p.components then some (p.drop dir.components.length) else none

@[simp] theorem components_empty : (⟨""⟩ : Path).components = [] := rfl

@[simp] theorem same_self (p : Path) : p.same p = true := by simp [same]

end Path

end Upkeep
