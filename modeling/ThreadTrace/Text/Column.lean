/-!
# ThreadTrace.Text.Column — text in columns

Widths count characters.  A text that is too wide is kept whole.
-/

namespace ThreadTrace.Text

/-- The text followed by as many blanks as fill the column. -/
def padRight (width : Nat) (s : String) : String :=
  s ++ String.ofList (List.replicate (width - s.length) ' ')

/-- As many blanks as fill the column, followed by the text. -/
def padLeft (width : Nat) (s : String) : String :=
  String.ofList (List.replicate (width - s.length) ' ') ++ s

end ThreadTrace.Text
