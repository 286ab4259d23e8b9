/-! The texts that the command shows about itself. -/

namespace Offside

def versionText : String := "mpcc, version 1.0.0\n"

def helpLines : List String :=
  ["Usage: mpcc [OPTIONS] [INPUT_FILE]",
    "",
    "  Translate a MiniPy program to C.",
    "",
    "  INPUT_FILE is the MiniPy source file (.mpy) to translate. When it is omitted",
    "  or '-', the program is read from standard input.",
    "",
    "  The generated C program declares every variable as a double, runs the",
    "  translated statements, then prints each variable's final value. No output is",
    "  produced if any error is found.",
    "",
    "  Examples:",
    "      mpcc loop.mpy                # C program on stdout",
    "      mpcc loop.mpy -o loop.c      # Specify output file",
    "      mpcc --tokens loop.mpy       # Show tokens only",
    "      mpcc --max-indent 8 a.mpy    # Limit block nesting",
    "",
    "  Exit codes:",
    "      0  success",
    "      1  translation errors",
    "      2  invalid arguments or unreadable input",
    "      3  internal error",
    "      4  translation aborted (nesting too deep)",
    "",
    "Options:",
    "  -o, --output FILE           Output C file (default: stdout)",
    "  --tokens                    Print the token stream and exit (for debugging)",
    "  --ast                       Print AST and exit (for debugging)",
    "  --max-indent INTEGER RANGE  Maximum block nesting depth (default: 100, or",
    "                              $MINIPY_MAX_INDENT)  [x>=1]",
    "  -v, --verbose               Verbose output (debug logging on stderr)",
    "  --version                   Show the version and exit.",
    "  --help                      Show this message and exit."]

end Offside
