import MonkeyLang.Text.Blank
import MonkeyLang.Text.Erasure

namespace MonkeyLang.Text

/-- Splits a text at line feeds and leaves out a carriage return right before one. What
follows the last line feed is a line of its own unless it is empty. The characters of the
current line are held in reverse. -/
def linesFrom (current : List Char) : List Char → List String
  | [] => if current.isEmpty then [] else [String.ofList current.reverse]
  | c :: rest =>
    if c = '\n' then
      let line := match current with
        | '\r' :: line => line
        | line => line
      String.ofList line.reverse :: linesFrom [] rest
    else linesFrom (c :: current) rest

/-- The lines of a text. -/
def lines (text : String) : List String := linesFrom [] text.toList

/-- The lines of a typed text, without what was taken back in them, that hold more than
white space. -/
def filledLines (text : String) : List String :=
  ((lines text).map settled).filter fun line => !line.toList.all isBlank

end MonkeyLang.Text
