import InjectionScan.Finding

/-! Findings as lines for a terminal, with or without colours. -/
namespace InjectionScan.Terminal

/-- How a text is shown. -/
inductive Style where
  | bold
  | dimmed
  | red
  | boldRed
  | green
  | boldGreen
  | yellow
  | boldYellow
  | blue
deriving DecidableEq, Repr

/-- The numbers of a style's escape sequence. -/
def Style.codes : Style → String
  | .bold => "1"
  | .dimmed => "2"
  | .red => "31"
  | .boldRed => "1;31"
  | .green => "32"
  | .boldGreen => "1;32"
  | .yellow => "33"
  | .boldYellow => "1;33"
  | .blue => "34"

def escape : Char := Char.ofNat 27

/-- The sequence that starts a style. -/
def opening (s : Style) : List Char := escape :: '[' :: s.codes.toList ++ ['m']

/-- The sequence that ends all styles. -/
def closing : List Char := [escape, '[', '0', 'm']

/-- Starts a style again after each end of styles inside a text. -/
def resume (s : Style) : List Char → List Char
  | [] => []
  | e :: '[' :: '0' :: 'm' :: cs =>
    if e = escape then closing ++ opening s ++ resume s cs else e :: '[' :: '0' :: 'm' :: resume s cs
  | c :: cs => c :: resume s cs

/-- A text in a style, if colours are on. -/
def paint (color : Bool) (s : Style) (text : String) : String :=
  if color then String.ofList (opening s ++ resume s text.toList ++ closing) else text

def severityStyle : Severity → Style
  | .critical => .boldRed
  | .error => .red
  | .warning => .yellow
  | .info => .blue

/-- Text filled up with blanks at its end. -/
def padEnd (width : Nat) (text : String) : String :=
  text ++ String.ofList (List.replicate (width - text.length) ' ')

/-- Text filled up with blanks in front. -/
def padStart (width : Nat) (text : String) : String :=
  String.ofList (List.replicate (width - text.length) ' ') ++ text

def severityLabel (color : Bool) (s : Severity) : String :=
  paint color (severityStyle s) (padEnd 8 s.name)

/-- A finding with its place, and on a second line what to do about it. -/
def findingLine [Naming] (color : Bool) (f : Finding) (path : Path) : String :=
  "  " ++ severityLabel color f.severity ++ " " ++ paint color .bold f.id ++ " " ++ path.shown ++
    ":" ++ toString f.line ++ ":" ++ toString f.column ++ " " ++ f.message ++
    match f.suggestion with
    | some s =>
      "\n           " ++ paint color .dimmed "fix:" ++ " " ++ paint color .dimmed s
    | none => ""

/-- A suppressed finding and the reason. -/
def suppressedLine [Naming] (color : Bool) (f : Finding) (path : Path) (reason : String) : String :=
  "    " ++ paint color .dimmed f.id ++ " " ++ path.shown ++ ":" ++ toString f.line ++
    " (" ++ reason ++ ")"

end InjectionScan.Terminal
