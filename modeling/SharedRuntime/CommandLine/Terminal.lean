import SharedRuntime.Json.Writer

/-!
# Output for a terminal

A command prints lines, and pieces of lines where a bar is drawn over. Text for a reader is set in
colours, if colours are on.
-/

set_option autoImplicit false

namespace SharedRuntime

/-- Where output goes. -/
inductive Channel
  | out
  | err
  deriving DecidableEq, Repr

/-- A piece of output. -/
structure Print where
  channel : Channel
  text : String
  /-- Does the line end behind the piece? -/
  endsLine : Bool
  deriving DecidableEq, Repr

namespace Print

/-- A line of output. -/
def line (text : String) : Print := ⟨.out, text, true⟩

/-- A line with a value for a program. -/
def json (j : Json) : Print := line j.compact

/-- The characters of a piece. -/
def written (p : Print) : String := if p.endsLine then p.text ++ "\n" else p.text

/-- All that is written to a channel. -/
def writtenTo (channel : Channel) (ps : List Print) : String :=
  String.join ((ps.filter fun p => p.channel == channel).map written)

end Print

namespace Terminal

/-- How a text is set. -/
inductive Tone
  | success
  | failure
  | warning
  | info
  | heading
  | label
  | faint
  | arrow
  | filled
  | good
  | halted
  | bad
  deriving DecidableEq, Repr

/-- The parameters of the escape sequence that selects a tone. -/
def Tone.code : Tone → String
  | success => "1;32"
  | failure => "1;31"
  | warning => "1;33"
  | info => "1;34"
  | heading => "1;96"
  | label => "1;97"
  | faint => "90"
  | arrow => "94"
  | filled => "92"
  | good => "32"
  | halted => "33"
  | bad => "31"

/-- The escape sequence that selects a tone. -/
def Tone.selection (t : Tone) : List Char := '\x1b' :: '[' :: (t.code.toList ++ ['m'])

/-- The escape sequence that ends all tones. -/
def reset : List Char := ['\x1b', '[', '0', 'm']

/-- Puts the selection behind each reset within a text, so that the tone holds to the end. -/
def reselect (selection : List Char) : List Char → List Char
  | '\x1b' :: '[' :: '0' :: 'm' :: cs => reset ++ selection ++ reselect selection cs
  | c :: cs => c :: reselect selection cs
  | [] => []

/-- Does a variable of the environment hold something else than zero? -/
def isSwitchedOn (value : Option String) : Bool := value.any (· != "0")

/-- Are colours on? `forced`, `refused` and `wanted` are what the variables `CLICOLOR_FORCE`,
`NO_COLOR` and `CLICOLOR` hold; the first of them that says something decides, and without one
colours are for a terminal only. -/
def hasColors (forced refused wanted : Option String) (isTerminal : Bool) : Bool :=
  if isSwitchedOn forced then true
  else if refused.isSome then false
  else isTerminal && isSwitchedOn (wanted.or (some "1"))

/-- A text in a tone; plain if colours are off. -/
def paint (colors : Bool) (t : Tone) (text : String) : String :=
  if colors then
    String.ofList (t.selection ++ reselect t.selection text.toList ++ reset)
  else text

/-- A sign and a message. -/
def signed (colors : Bool) (t : Tone) (sign message : String) : String :=
  paint colors t sign ++ " " ++ message

/-- The line for something that went well. -/
def success (colors : Bool) (message : String) : Print :=
  .line (signed colors .success "✓" message)

/-- The line for something that went wrong. -/
def failure (colors : Bool) (message : String) : Print :=
  ⟨.err, signed colors .failure "✗" message, true⟩

/-- The line for something to heed. -/
def warning (colors : Bool) (message : String) : Print :=
  .line (signed colors .warning "⚠" message)

/-- The line for something to know. -/
def info (colors : Bool) (message : String) : Print := .line (signed colors .info "ℹ" message)

/-- The title of what follows, underlined. -/
def heading (colors : Bool) (title : String) : List Print :=
  [.line "", .line (paint colors .heading title),
    .line (paint colors .faint (String.ofList (List.replicate title.utf8ByteSize '─')))]

/-- The line for a value under its name. -/
def entry (colors : Bool) (key value : String) : Print :=
  .line ("  " ++ paint colors .label key ++ ": " ++ value)

/-- The line for one of several things. -/
def item (colors : Bool) (text : String) : Print :=
  .line ("  " ++ paint colors .faint "•" ++ " " ++ text)

/-- The parts of a bar. -/
def barLength : Nat := 20

/-- A bar that is filled up to a percentage. -/
def bar (colors : Bool) (percent : Nat) : String :=
  let filled := min percent 100 * barLength / 100
  paint colors .filled (String.ofList (List.replicate filled '█')) ++
    paint colors .faint (String.ofList (List.replicate (barLength - filled) '░'))

/-- A text with blanks before it, up to a width. -/
def padLeft (width : Nat) (text : String) : String :=
  String.ofList (List.replicate (width - text.length) ' ') ++ text

/-- The bar drawn over the one before; the last one ends the line. -/
def progress (colors : Bool) (percent : Nat) : Print :=
  ⟨.out, "\r  " ++ paint colors .arrow "▶" ++ " [" ++ bar colors percent ++ "] " ++
    padLeft 3 (toString percent) ++ "%", 100 ≤ percent⟩

end Terminal

end SharedRuntime
