/-
**Normal paths.**

A path is brought to normal form by its spelling alone: backslashes become slashes, `.` disappears,
and `..` takes back the name in front of it.  What cannot be taken back stays at the start of a
relative path and disappears at the root.  No file is looked at, so links are not followed.

Main definitions:

* `Upkeep.Path.cancel` — one component met on the way;
* `Upkeep.Path.normalize` — the normal form;
* `Upkeep.Path.resolve` — the normal form of a path seen from a directory;
* `Upkeep.Path.inAnyDirectory` — whether a run of components names one of some directories.
-/

import Upkeep.Path.Basic

set_option relaxedAutoImplicit false
set_option autoImplicit false

namespace Upkeep

namespace Path

/-! ### Spelling -/

/-- The text with slashes for backslashes. -/
def unifySlashes (s : String) : String :=
  String.ofList (s.toList.map fun c => if c == '\\' then '/' else c)

/-- Whether a text begins with a drive letter, a colon and a slash. -/
def hasDrive (s : String) : Bool :=
  match s.toList with
  | d :: ':' :: '/' :: _ => d.isAlpha
  | _ => false

/-! ### Normal form -/

/-- One component met on the way: `done` holds the normal form of what was passed, last component
first. -/
def cancel (done : List Component) : Component → List Component
  | .here => done
  | .up =>
    match done with
    | .name _ :: rest => rest
    | _ => if done.getLast? == some .root then done else .up :: done
  | c => c :: done

/-- The normal form of a list of components. -/
def normalComponents (cs : List Component) : List Component := (cs.foldl cancel []).reverse

/-- The normal form of a path. -/
def normalize (s : String) : Path :=
  ofComponents (normalComponents (⟨unifySlashes s⟩ : Path).components)

/-- The normal form of a path seen from a directory. -/
def resolve (base : Path) (s : String) : Path :=
  let unified := unifySlashes s
  if (⟨unified⟩ : Path).isAbsolute || hasDrive unified then normalize unified
  else normalize (base.join ⟨unified⟩).text

@[simp] theorem normalComponents_nil : normalComponents [] = [] := rfl

@[simp] theorem cancel_here (done : List Component) : cancel done .here = done := rfl

@[simp] theorem cancel_up_name (done : List Component) (s : String) :
    cancel (.name s :: done) .up = done := rfl

/-! ### Directories -/

/-- Whether some run of the components of `p` names one of the directories, so that a relative
directory is found anywhere in an absolute path. -/
def inAnyDirectory (p : Path) (dirs : List String) : Bool :=
  dirs.any fun d =>
    let want := (⟨d⟩ : Path).components
    !want.isEmpty && Text.occursIn want p.components

end Path

end Upkeep
