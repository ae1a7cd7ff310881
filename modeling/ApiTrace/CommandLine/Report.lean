import ApiTrace.Trace.Result

/-!
# Reports

What the command prints: lines with markup, and tables of the matches in a file.

The console is taken to print every text with markup, whatever the text holds. This is an
assumption: a text is put between tags as it is, so a path with a closing tag in it, such as
`no[/such].js`, makes markup that a console may refuse to print, and then a run ends there.
-/

namespace ApiTrace

/-- A match as JSON. -/
def Match.toJson (m : Match) : Json :=
  .object [
    (Text.ofString "path", .array (m.path.map .string)),
    (Text.ofString "type", .string m.use.name),
    (Text.ofString "entry", m.entry),
    (Text.ofString "node_type", .string m.site.kind),
    (Text.ofString "line", .int m.site.span.line),
    (Text.ofString "column", .int m.site.span.column)]

/-- The matches in a source as JSON. -/
def TraceResult.toJson (r : TraceResult) : Json :=
  .object [
    (Text.ofString "filepath", .string r.filepath),
    (Text.ofString "parsed_cleanly", .bool r.parsedCleanly),
    (Text.ofString "matches", .array (r.found.map Match.toJson))]

namespace CommandLine

/-- Where a line is printed. -/
inductive Console where
  | out
  | err
deriving DecidableEq

/-- A cell of a table. The style is empty where there is none. -/
inductive TableCell where
  | plain (text : Text)
  | styled (text : Text) (style : String)

/-- A table. -/
structure Table where
  title : Text
  columns : List String
  rows : List (List TableCell)

/-- What is printed at once. -/
inductive Item where
  | markup (text : Text)
  | table (table : Table)

/-- The style of a use. -/
def useStyle : Use → String
  | .read => "cyan"
  | .call => "green"
  | .construct => "magenta"

/-- What is reported with a match, as a text. -/
def entryText : Json → Text
  | .string t => t
  | v => v.compact

/-- The row of a match, with the line of the source that it stands in. -/
def matchRow (session : ParseSession) (m : Match) : List TableCell :=
  let line := m.site.span.line
  [.plain (Text.ofNat line),
    if m.path.isEmpty then .styled "(global object)" "dim" else .styled m.dottedPath "",
    .styled m.use.name (useStyle m.use),
    .styled (entryText m.entry) "",
    .styled (Text.strip ((session.line? line).getD [])) ""]

/-- What is printed of the matches in a source. -/
def resultItems (r : TraceResult) : List Item :=
  (if r.parsedCleanly then [] else [.markup ("[yellow]Warning: " ++ r.filepath
    ++ " has syntax errors, results may be incomplete[/yellow]")])
  ++ if r.found.isEmpty then [.markup ("[dim]" ++ r.filepath ++ ": no matches[/dim]")]
    else [.table ⟨r.filepath, ["Line", "Path", "Type", "Entry", "Code"],
      r.found.map (matchRow r.session)⟩]

/-- The line after all results. -/
def summary (results : List TraceResult) : Item :=
  .markup ("\n[bold]" ++ Text.ofNat (results.flatMap (·.found)).length ++ " match(es) in "
    ++ Text.ofNat results.length ++ " file(s)[/bold]")

/-- An error as it is printed. The message stands in it as it is; that this can be printed is
assumed. -/
def errorItem (message : Text) : Item := .markup ("[red]Error: " ++ message ++ "[/red]")

/-- The text of an item, line by line. -/
def Item.lines : Item → List Text
  | .markup text => [text]
  | .table t => t.title :: Text.join " | " (t.columns.map Text.ofString)
      :: t.rows.map fun row => Text.join " | " (row.map fun
        | .plain text | .styled text _ => text)

end CommandLine

end ApiTrace
