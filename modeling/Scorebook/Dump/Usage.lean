/-!
# Usage

What the program says about itself when it is asked for help or for its version, and when its
arguments make no sense.
-/

namespace Scorebook.Dump

/-- The name of the program and its version. -/
def versionLine : String := "pgndump 0.1.0"

/-- The uses of the program, option by option. -/
def usage : Array String := #[
  "A command-line tool to index, validate and dump PGN chess databases",
  "",
  "Usage: pgndump [OPTIONS] [DATABASE]",
  "",
  "Arguments:",
  "  [DATABASE]  Database file to load",
  "",
  "Options:",
  "      --text <NAME> <TEXT>   Provides raw database content on the command line; may be repeated",
  "  -c, --count                Prints the number of games",
  "  -g, --game <N>             Dumps the given game; may be repeated.  All games are dumped by default",
  "  -t, --tags                 Prints the tag pairs of each game",
  "  -m, --moves                Prints the moves of each game, with variations, comments and",
  "                             annotations",
  "      --nag-format <FORMAT>  How to print annotation glyphs: numeric, brief or detailed [default:",
  "                             brief]",
  "  -d, --deep                 Parses the movetext of each game and reports every problem in it",
  "      --strict               Reports problems which are otherwise tolerated silently",
  "  -j, --jobs <JOBS>          Number of threads to index the database from",
  "      --debug                Activates debug logs",
  "  -h, --help                 Print help",
  "  -V, --version              Print version"]

end Scorebook.Dump
