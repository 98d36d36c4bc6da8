import ProjectLint.Text.Basic

/-!
The texts that explain the command line.
-/

namespace ProjectLint.CommandLine

/-- Lines put together, each with a line feed at its end. -/
def unlines (lines : List Text) : Text :=
  lines.flatMap (· ++ [.scalar '\n'])

/-- How the command is called. -/
def usage : Text := unlines [
  "usage: stdlint [-h] [--ignore PATTERN] [--parser NAME] [--cwd DIR]",
  "               [--config FILE] [--eslintrc] [--stdin] [--list-files] [-v]",
  "               [--version]",
  "               [files ...]"]

/-- What the command and its options do. -/
def help : Text := usage ++ unlines [
  "",
  "stdlint: Lint JavaScript with ESLint, using project ignore rules and settings",
  "",
  "positional arguments:",
  "  files             Glob patterns of files to lint (default: all .js and .jsx",
  "                    files)",
  "",
  "options:",
  "  -h, --help        show this help message and exit",
  "  --ignore PATTERN  Additional glob pattern to ignore. Can be repeated",
  "  --parser NAME     Custom JS parser (e.g. babel-eslint); overrides",
  "                    package.json",
  "  --cwd DIR         Directory to lint from (default: current directory)",
  "  --config FILE     ESLint JSON config file to use",
  "  --eslintrc        Let ESLint also pick up .eslintrc files",
  "  --stdin           Lint text read from stdin instead of files",
  "  --list-files      Print the files that would be linted, without linting them",
  "  -v, --verbose     Log how options, ignore rules and files were resolved",
  "  --version         Show version information and exit",
  "",
  "Common usage:",
  "  stdlint",
  "  stdlint \"src/**/*.js\"",
  "  stdlint --ignore \"fixtures/**\" \"lib/**/*.js\"",
  "  cat file.js | stdlint --stdin",
  "  stdlint --list-files",
  "",
  "Project settings are read from the \"stdlint\" block of the nearest package.json,",
  "and the project root's .gitignore is honored."]

def version : Text := "v0.1.0"

end ProjectLint.CommandLine
