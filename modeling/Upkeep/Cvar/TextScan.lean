/-
**Mentions in texts.**

All sources are searched for words that name a cvar, markup and scripts included.  A word is no news
when the syntax trees show a mention of the cvar on the same line, or, in the exact mode, at the same
place.

Main definitions:

* `Upkeep.Cvar.Record.accountsFor` — whether a word is no news;
* `Upkeep.Cvar.hitsIn`, `Upkeep.Cvar.hits` — the news in the lines of a file, and of all files;
* `Upkeep.Cvar.Ledger.textScan` — the ledger with the news.
-/

import Upkeep.Cvar.Ledger
import Upkeep.Cvar.Settings
import Upkeep.Files.Workspace
import Upkeep.Text.Words

set_option relaxedAutoImplicit false
set_option autoImplicit false

namespace Upkeep

namespace Cvar

/-- Whether the mentions that the syntax trees show account for a word at a place. -/
def Record.accountsFor (r : Record) (dedup : Dedup) (o : Occurrence) : Bool :=
  match dedup with
  | .line => r.parsedMentions.any (o.sameLine ·.2)
  | .exact => r.parsedMentions.any (o.same ·.2)

/-- A word that names a cvar, and its place. -/
abbrev Hit := String × Occurrence

/-- The words of a line that name a cvar, with their places. -/
def namedIn (keys : Ledger.Keys) (file : Path) (line : Nat) (text : String) : List Hit :=
  (Text.words text).filterMap fun w =>
    (keys.find? (Text.lower w.text)).map fun name => (name, ⟨file, line, w.offset + 1⟩)

/-- The words of a file that name a cvar, with their places. -/
def namedInLines (keys : Ledger.Keys) (file : Path) (lines : List String) : List Hit :=
  lines.zipIdx.flatMap fun (text, i) => namedIn keys file (i + 1) text

/-- Whether a hit is news to the ledger. -/
def Ledger.isNews (l : Ledger) (dedup : Dedup) (h : Hit) : Bool :=
  !((l.get? h.1).any (·.accountsFor dedup h.2))

/-- The hits in a file that are news to the ledger. -/
def hitsIn (l : Ledger) (keys : Ledger.Keys) (dedup : Dedup) (file : Path) (lines : List String) :
    List Hit :=
  (namedInLines keys file lines).filter (l.isNews dedup)

/-- The hits in some files that are news to the ledger. -/
def hits (l : Ledger) (dedup : Dedup) (texts : List (Path × List String)) : List Hit :=
  texts.flatMap fun (file, lines) => hitsIn l l.textKeys dedup file lines

/-- The ledger with a mention in a text. -/
def Ledger.addHit (l : Ledger) (h : Hit) : Ledger := l.modify h.1 (·.add .text h.2)

/-- The ledger with the mentions in the given texts. -/
def Ledger.scanTexts (l : Ledger) (dedup : Dedup) (texts : List (Path × List String)) : Ledger :=
  (hits l dedup texts).foldl Ledger.addHit l

/-- The ledger with the mentions in the texts of the given files, and how many were found. -/
def Ledger.textScan (l : Ledger) (dedup : Dedup) (files : List Path) : Files.Work (Ledger × Nat) := do
  let texts ← files.mapM fun f => do return (f, ← Files.heldLines f)
  return (l.scanTexts dedup texts, (hits l dedup texts).length)

end Cvar

end Upkeep
