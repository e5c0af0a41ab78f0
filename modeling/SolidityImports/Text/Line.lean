import SolidityImports.Text.Basic

/-! # Lines

A line reaches up to the next newline character. -/

namespace SolidityImports.Text

/-- The rest of the line that the text starts in, without its newline. -/
def restOfLine (s : Text) : Text := s.takeWhile (· ≠ '\n')

/-- What stands before the next `stop` on the same line; `none` if the line has no `stop`. -/
def upTo? (stop : Char) : Text → Option Text
  | [] => none
  | c :: s => if c = stop then some [] else if c = '\n' then none else (upTo? stop s).map (c :: ·)

/-- Replaces every run of three or more newlines by two. -/
def collapseBlankLines : Text → Text
  | '\n' :: rest@('\n' :: '\n' :: _) => collapseBlankLines rest
  | c :: rest => c :: collapseBlankLines rest
  | [] => []

/-- Ends every line with a newline character alone: a carriage return, and the newline right after
it if there is one, becomes one newline. -/
def unifyNewlines : Text → Text
  | '\r' :: '\n' :: rest => '\n' :: unifyNewlines rest
  | '\r' :: rest => '\n' :: unifyNewlines rest
  | c :: rest => c :: unifyNewlines rest
  | [] => []

end SolidityImports.Text
