/-
**Completions for shells.**

Main definitions:

* `Upkeep.CommandLine.Shell.hint` — where a script is picked up from;
* `Upkeep.CommandLine.Shell.fileName` — the name of the file for a script;
* `Upkeep.CommandLine.Shell.script` — the script, which completes the names of the commands.
-/

import Upkeep.CommandLine.Invocation

set_option relaxedAutoImplicit false
set_option autoImplicit false

namespace Upkeep

namespace CommandLine

namespace Shell

/-- Where a script is picked up from. -/
def hint : Shell → String
  | bash =>
    "source it from ~/.bashrc or copy it to ~/.local/share/bash-completion/completions/"
  | zsh => "put its directory on $fpath before compinit runs"
  | fish => "copy it to ~/.config/fish/completions/"
  | powershell => "dot-source it from $PROFILE"
  | elvish => String.ofList [Char.ofNat 0x60] ++ "use" ++ String.ofList [Char.ofNat 0x60] ++
      " it from ~/.config/elvish/rc.elv"

/-- The name of the file for a script. -/
def fileName : Shell → String
  | bash => "ekit.bash"
  | zsh => "_ekit"
  | fish => "ekit.fish"
  | powershell => "_ekit.ps1"
  | elvish => "ekit.elv"

/-- The words that are completed. -/
def words : List String := commandNames ++ [helpCommand]

/-- The words in single quotes, with commas between them. -/
def quotedWords : String := ", ".intercalate (words.map fun w => "'" ++ w ++ "'")

/-- A text in braces. -/
def braced (s : String) : String := "\x7b" ++ s ++ "\x7d"

/-- The script for a shell. -/
def script : Shell → String
  | bash => "complete -W \"" ++ " ".intercalate words ++ "\" ekit\n"
  | zsh => "#compdef ekit\n_arguments '1:command:(" ++ " ".intercalate words ++ ")' '*:file:_files'\n"
  | fish => "complete -c ekit -n __fish_use_subcommand -a '" ++ " ".intercalate words ++ "'\n"
  | powershell =>
    "Register-ArgumentCompleter -Native -CommandName 'ekit' -ScriptBlock " ++
      braced (" param($wordToComplete) @(" ++ quotedWords ++ ") | Where-Object " ++
        braced " $_ -like \"$wordToComplete*\" " ++ " ") ++ "\n"
  | elvish =>
    "set edit:completion:arg-completer[ekit] = " ++
      braced ("|@words| put " ++ " ".intercalate words ++ " ") ++ "\n"

end Shell

end CommandLine

end Upkeep
