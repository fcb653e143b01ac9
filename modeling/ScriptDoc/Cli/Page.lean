import ScriptDoc.Text.Basic

/-!
The help pages of the command line and of its two commands.
-/
namespace ScriptDoc

inductive Page where
  | program
  | render
  | complete
  deriving DecidableEq, Repr

namespace Page

def command : Page → Text
  | .program => "shedoc"
  | .render => "shedoc render"
  | .complete => "shedoc complete"

def parameters : Page → Text
  | .program => "[OPTIONS] COMMAND [ARGS]..."
  | .render => "[OPTIONS] FILES..."
  | .complete => "[OPTIONS] SCRIPT"

def usage (p : Page) : Text := "Usage: " ++ p.command ++ " " ++ p.parameters ++ "\n"

def hint (p : Page) : Text :=
  p.usage ++ "Try '" ++ p.command ++ " --help' for help.\n\n"

def body : Page → List String
  | .program => [
    "",
    "  Parse and output shell script documentation.",
    "",
    "Options:",
    "  --version  Show the version and exit.",
    "  --help     Show this message and exit.",
    "",
    "Commands:",
    "  complete  Dynamic shell completion for shedoc-annotated scripts.",
    "  render    Parse FILES (``-`` for stdin) and write their documentation."]
  | .render => [
    "",
    "  Parse FILES (``-`` for stdin) and write their documentation.",
    "",
    "  Args:     files: Shell scripts to parse; ``-`` reads standard input.",
    "  to_format: Output format name; defaults to the configured format.     get_tag:",
    "  Metadata tag whose value is printed instead of a rendering.     output:",
    "  Optional file receiving the output.     include_warnings: Keep parse warnings",
    "  in the rendered output.     quiet: Do not report parse warnings on stderr.",
    "",
    "  Raises:     click.UsageError: If ``--to`` and ``--get`` are combined.",
    "  click.BadParameter: If the format, tag, or configuration is invalid.",
    "  click.ClickException: If a file cannot be parsed or rendered, or the",
    "  output cannot be written.",
    "",
    "  Examples:     shedoc --to man deploy.sh -o deploy.1",
    "",
    "Options:",
    "  -t, --to TEXT      Output format (json, help, man, completion:bash,",
    "                     completion:zsh, completion:fish)",
    "  -g, --get TEXT     Extract a single #?/ tag value",
    "  -o, --output FILE  Write output to a file instead of stdout",
    "  -w, --warnings     Include warnings in output",
    "  -q, --quiet        Suppress warnings on stderr",
    "  --help             Show this message and exit."]
  | .complete => [
    "",
    "  Dynamic shell completion for shedoc-annotated scripts.",
    "",
    "  Handler mode (invoked at tab-press time by the shell):",
    "      shedoc complete deploy.sh",
    "      shedoc complete --shell fish deploy.sh",
    "",
    "  Setup mode (run once to configure your shell):",
    "      shedoc complete --setup bash deploy.sh",
    "",
    "Options:",
    "  --shell [bash|fish]      Output format for handler mode  [default: bash]",
    "  --setup [bash|zsh|fish]  Output shell registration code",
    "  --help                   Show this message and exit."]

def text (p : Page) : Text :=
  p.usage ++ p.body.flatMap fun line => line.toList ++ ['\n']

end Page
end ScriptDoc
