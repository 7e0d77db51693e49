/-
**Colours and columns of a terminal.**

Main definitions:

* `Upkeep.Text.Paint` — the highlights in use;
* `Upkeep.Text.Paint.apply` — a text inside the codes that switch a highlight on and off;
* `Upkeep.Text.padEnd` — a text filled up with spaces.
-/

set_option relaxedAutoImplicit false
set_option autoImplicit false

namespace Upkeep

namespace Text

/-- A highlight of a terminal. -/
inductive Paint where
  | red
  | green
  | yellow
  | cyan
  | bold
deriving DecidableEq, Repr

namespace Paint

/-- The number that switches a highlight on. -/
def onCode : Paint → String
  | red => "31"
  | green => "32"
  | yellow => "33"
  | cyan => "36"
  | bold => "1"

/-- The number that switches a highlight off: a colour goes back to the default one. -/
def offCode : Paint → String
  | bold => "0"
  | _ => "39"

/-- The control sequence with a number. -/
def sequence (code : String) : String := "\x1b[" ++ code ++ "m"

/-- A text inside a highlight. -/
def apply (p : Paint) (s : String) : String := sequence p.onCode ++ s ++ sequence p.offCode

end Paint

/-- The text with spaces at its end, at least `n` characters long. -/
def padEnd (n : Nat) (s : String) : String :=
  s ++ String.ofList (List.replicate (n - s.length) ' ')

@[simp] theorem padEnd_zero (s : String) : padEnd 0 s = s := by
  simp [padEnd]

end Text

end Upkeep
