/-!
Texts about the program: its version, and for each command what can be given to it.
-/

namespace SeqAsm.Cli.Help

def version : String := "loda 0.1.0\n"

def ofLines (lines : List String) : String := String.join (lines.map (· ++ "\n"))

def usage : List String := ["usage: loda [-h] [--version] [-v] <command> ..."]

def program : String :=
  ofLines <| usage ++
    ["",
      "Evaluate, inspect and compare integer-sequence programs",
      "written in the LODA assembly language.",
      "",
      "options:",
      "  -h, --help     show this help message and exit",
      "  --version      show program's version number and exit",
      "  -v, --verbose  Increase verbosity (-v info, -vv debug).",
      "",
      "commands:",
      "  <command>",
      "    eval         Print the first terms of a program.",
      "    steps        Print the total step cost of the first terms.",
      "    parse        Parse a program and print it back.",
      "    deps         List the programs a program calls.",
      "    graph        Print the call graph reachable from some programs.",
      "    compare      Compare an installed program with a candidate.",
      "",
      "examples:",
      "  loda eval A000045.asm -t 20",
      "  loda steps 40 --programs-dir programs/oeis",
      "  loda deps 10051 --programs-dir programs/oeis --transitive"]

def programOperand : List String := ["  PROGRAM               Program file or id."]

def helpOption : List String := ["  -h, --help            show this help message and exit"]

def termsOption : List String := ["  -t N, --terms N       Number of terms (default: 10)."]

def outputOption : List String :=
  ["  -o FILE, --output FILE",
    "                        Output file (\"-\" or omit for stdout)."]

def limitOptions : List String :=
  ["runtime tuning:",
    "  -d DIR, --programs-dir DIR",
    "                        Directory laid out as DIR/000/A000045.asm.",
    "  --step-budget N       Maximum steps per evaluation (default: 5000000).",
    "  --loop-policy \x7bguarded,rollback\x7d",
    "                        Behaviour of loops that stop making progress (default:",
    "                        guarded).",
    "  --max-loop-iterations N",
    "                        Fail when a single loop runs more than N iterations.",
    "  --max-bits N          Fail on values of N bits or more."]

def command (usage about operands options : List String) : String :=
  ofLines <| usage ++ [""] ++ about
    ++ ["positional arguments:"] ++ operands ++ [""]
    ++ ["options:"] ++ helpOption ++ options ++ outputOption ++ [""]
    ++ limitOptions

def eval : String :=
  command
    ["usage: loda eval [-h] [-t N] [--start N] [-o FILE] [-d DIR] [--step-budget N]",
      "                 [--loop-policy \x7bguarded,rollback\x7d] [--max-loop-iterations N]",
      "                 [--max-bits N]",
      "                 PROGRAM"]
    [] programOperand
    (termsOption ++ ["  --start N             First input (default: the program offset)."])

def steps : String :=
  command
    ["usage: loda steps [-h] [-t N] [-o FILE] [-d DIR] [--step-budget N]",
      "                  [--loop-policy \x7bguarded,rollback\x7d] [--max-loop-iterations N]",
      "                  [--max-bits N]",
      "                  PROGRAM"]
    [] programOperand termsOption

def parse : String :=
  command
    ["usage: loda parse [-h] [-f \x7basm,sexp,json\x7d] [-o FILE] [-d DIR]",
      "                  [--step-budget N] [--loop-policy \x7bguarded,rollback\x7d]",
      "                  [--max-loop-iterations N] [--max-bits N]",
      "                  PROGRAM"]
    ["Parse a program and print its canonical assembly, its S-expression form or a",
      "JSON tree. Useful for front-end debugging.",
      ""]
    programOperand
    ["  -f \x7basm,sexp,json\x7d, --format \x7basm,sexp,json\x7d",
      "                        Output format (default: asm)."]

def deps : String :=
  command
    ["usage: loda deps [-h] [--transitive] [-o FILE] [-d DIR] [--step-budget N]",
      "                 [--loop-policy \x7bguarded,rollback\x7d] [--max-loop-iterations N]",
      "                 [--max-bits N]",
      "                 PROGRAM"]
    [] programOperand ["  --transitive          Include indirect dependencies."]

def graph : String :=
  command
    ["usage: loda graph [-h] [-f \x7bdot,summary\x7d] [--title TITLE] [-o FILE] [-d DIR]",
      "                  [--step-budget N] [--loop-policy \x7bguarded,rollback\x7d]",
      "                  [--max-loop-iterations N] [--max-bits N]",
      "                  ID [ID ...]"]
    [] ["  ID                    Program ids."]
    ["  -f \x7bdot,summary\x7d, --format \x7bdot,summary\x7d",
      "                        Output format (default: summary).",
      "  --title TITLE         Graph label for DOT output."]

def compare : String :=
  command
    ["usage: loda compare [-h] [-t N] [-o FILE] [-d DIR] [--step-budget N]",
      "                    [--loop-policy \x7bguarded,rollback\x7d]",
      "                    [--max-loop-iterations N] [--max-bits N]",
      "                    INSTALLED CANDIDATE"]
    []
    ["  INSTALLED             Program file or id.",
      "  CANDIDATE             Program file or id."]
    termsOption

end SeqAsm.Cli.Help
