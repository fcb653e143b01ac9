import ScriptDoc.Entry

/-!
Completion scripts for bash, zsh and fish. They need the name of the command, so a document
without one has none.
-/
namespace ScriptDoc

def Block.spellings (b : Block) : List Text := b.entries.flatMap Entry.spellings

def Block.token (b : Block) : Text := b.name.getD "None"

namespace Bash

def compgen (words : List Text) : Text :=
  "COMPREPLY=($(compgen -W \"" ++ Text.join [' '] words ++ "\" -- \"$cur\"))\n"

def branch (b : Block) : Text :=
  if b.spellings.isEmpty then []
  else
    "      " ++ b.token ++ ")\n" ++
    "        " ++ compgen b.spellings ++
    "        return\n" ++
    "        ;;\n"

def body (globals : List Text) (subcommands : List Block) : Text :=
  if subcommands.isEmpty then
    if globals.isEmpty then [] else "  " ++ compgen globals
  else
    let names := subcommands.map fun b => b.name.getD []
    "  local commands=\"" ++ Text.join [' '] names ++ "\"\n" ++
    "\n" ++
    "  # Complete subcommand-specific flags\n" ++
    "  local i cmd\n" ++
    "  for ((i=1; i < cword; i++)); do\n" ++
    "    case \"$\x7bwords[i]\x7d\" in\n" ++
    subcommands.flatMap branch ++
    "    esac\n" ++
    "  done\n" ++
    "\n" ++
    "  " ++ compgen (names ++ globals)

def script (name : Text) (d : Document) : Text :=
  let function := "_" ++ Text.replace '-' ['_'] name
  let globals := (d.command?.map Block.spellings).getD []
  "# bash completion for " ++ name ++ "\n" ++
  function ++ "() \x7b\n" ++
  "  local cur prev words cword\n" ++
  "  _init_completion || return\n" ++
  "\n" ++
  body globals d.subcommands ++
  "\x7d\n\n" ++
  "complete -F " ++ function ++ " " ++ name ++ "\n"

end Bash

namespace Zsh

def escape (s : Text) : Text := Text.replace '\'' ['\'', '\\', '\'', '\''] s

def spec? (e : Entry) : Option Text :=
  let tail :=
    "[" ++ escape e.description ++ "]" ++
      (match e.value with
      | some value => ":" ++ value.name ++ ":"
      | none => []) ++ "'"
  match e.short, e.long with
  | some s, some l =>
    some ("'(" ++ s ++ " " ++ l ++ ")'\x7b" ++ s ++ "," ++ l ++ "\x7d'" ++ tail)
  | none, some l => some ("'" ++ l ++ tail)
  | some s, none => some ("'" ++ s ++ tail)
  | none, none => none

def specs (b : Block) : List Text := b.entries.filterMap spec?

def continued (indent : Text) : List Text → Text
  | [] => []
  | [line] => indent ++ line ++ "\n"
  | line :: next :: lines => indent ++ line ++ " \\\n" ++ continued indent (next :: lines)

def described (b : Block) : Text :=
  "        '" ++ b.token ++ ":" ++ escape b.summary ++ "'\n"

def branch (b : Block) : Text :=
  if (specs b).isEmpty then []
  else
    "        " ++ b.token ++ ")\n" ++
    "          _arguments -s \\\n" ++
    continued "            " (specs b) ++
    "          ;;\n"

def listed (spec : Text) : Text := "    " ++ spec ++ "\n"

def flatBody (globals : List Text) : Text :=
  if globals.isEmpty then "  _arguments -s\n"
  else "  _arguments -s \\\n" ++ continued "    " globals

def nestedBody (globals : List Text) (subcommands : List Block) : Text :=
  "  local -a global_args\n" ++
  "  global_args=(\n" ++
  globals.flatMap listed ++
  "    '1:command:->commands'\n" ++
  "    '*::arg:->args'\n" ++
  "  )\n\n" ++
  "  _arguments -s $global_args\n\n" ++
  "  case $state in\n" ++
  "    commands)\n" ++
  "      local -a commands\n" ++
  "      commands=(\n" ++
  subcommands.flatMap described ++
  "      )\n" ++
  "      _describe 'command' commands\n" ++
  "      ;;\n" ++
  "    args)\n" ++
  "      case $words[1] in\n" ++
  subcommands.flatMap branch ++
  "      esac\n" ++
  "      ;;\n" ++
  "  esac\n"

def script (name : Text) (d : Document) : Text :=
  let globals := (d.command?.map specs).getD []
  "#compdef " ++ name ++ "\n\n" ++
  "_" ++ name ++ "() \x7b\n" ++
  (if d.subcommands.isEmpty then flatBody globals else nestedBody globals d.subcommands) ++
  "\x7d\n\n" ++
  "_" ++ name ++ "\n"

end Zsh

namespace Fish

def escape (s : Text) : Text := Text.replace '\'' ['\\', '\''] s

def conditionArg (condition : Text) : Text := "-n '" ++ condition ++ "'"

def shortArg (spelling : Text) : Text := "-s " ++ spelling.drop 1

def longArg (spelling : Text) : Text := "-l " ++ spelling.drop 2

def valueArg : Text := "-r"

def descriptionArg (description : Text) : Text := "-d '" ++ escape description ++ "'"

def entryWords (name : Text) (condition : Option Text) (e : Entry) : List Text :=
  ["complete -c " ++ name] ++ (condition.map conditionArg).toList ++
    (e.short.map shortArg).toList ++ (e.long.map longArg).toList ++
    (if e.value.isSome then [valueArg] else []) ++
    (if e.description.isEmpty then [] else [descriptionArg e.description])

def entryCommand? (name : Text) (condition : Option Text) (e : Entry) : Option Text :=
  if e.spellings.isEmpty then none
  else some (Text.join [' '] (entryWords name condition e) ++ ['\n'])

def entryCommands (name : Text) (condition : Option Text) (b : Block) : Text :=
  (b.entries.filterMap (entryCommand? name condition)).flatten

def subcommandWords (name : Text) (b : Block) : List Text :=
  ["complete -c " ++ name, "-n '__fish_use_subcommand'", "-a " ++ b.token] ++
    (if b.summary.isEmpty then [] else [descriptionArg b.summary])

def subcommandCommand (name : Text) (b : Block) : Text :=
  Text.join [' '] (subcommandWords name b) ++ ['\n']

def subcommandPart (name : Text) (b : Block) : Text :=
  if b.entries.isEmpty then []
  else
    "\n# " ++ b.token ++ " subcommand\n" ++
    entryCommands name (some ("__fish_seen_subcommand_from " ++ b.token)) b

def subcommandParts (name : Text) (subcommands : List Block) : Text :=
  if subcommands.isEmpty then []
  else
    "\n# Subcommands\n" ++ subcommands.flatMap (subcommandCommand name) ++
    subcommands.flatMap (subcommandPart name)

def script (name : Text) (d : Document) : Text :=
  let condition : Option Text :=
    if d.subcommands.isEmpty then none else some "__fish_use_subcommand"
  "# fish completion for " ++ name ++ "\n\n" ++
  (d.command?.map (entryCommands name condition)).getD [] ++
  subcommandParts name d.subcommands ++
  "\n"

end Fish
end ScriptDoc
