/-!
# Help

What the program says about itself: a page for the program and one for each of its commands. A page
names the operands and options with what is said about them, in one column each. Where an option has
values to choose from, there is also a full form, in which every entry takes lines of its own.
-/

namespace ObjectGraph

/-- What help can be asked for. -/
inductive HelpTopic where
  | program
  | resolve
  | walk
  | id
  | help
deriving DecidableEq, Repr

namespace Help

/-- An operand, an option or a command, and what is said about it. -/
structure Entry where
  label : String
  about : String
  /-- The value that is meant if none is given. -/
  defaultValue : Option String := none
  /-- The values to choose from, and what is said about them. -/
  values : List (String × String) := []
deriving Repr

/-- Entries under one title. -/
structure Section where
  title : String
  entries : List Entry
deriving Repr

/-- All that is said about a topic. -/
structure Page where
  about : String
  usage : String
  sections : List Section
deriving Repr

/-- The greatest length among texts. -/
def width (texts : List String) : Nat :=
  texts.foldl (fun n s => max n s.length) 0

/-- A text with blanks behind it up to a width. -/
def padded (n : Nat) (s : String) : String :=
  s ++ String.ofList (List.replicate (n - s.length) ' ')

namespace Entry

/-- The remarks about the values of an option. -/
def remarks (e : Entry) : String :=
  let preset := match e.defaultValue with
    | some value => " [default: " ++ value ++ "]"
    | none => ""
  if e.values.isEmpty then preset
  else preset ++ " [possible values: " ++ String.intercalate ", " (e.values.map Prod.fst) ++ "]"

/-- The line of an entry; what is said about it starts behind the longest label. -/
def line (labelWidth : Nat) (e : Entry) : String :=
  "  " ++ padded (labelWidth + 2) e.label ++ e.about ++ e.remarks

/-- What stands in front of a line about an entry in the full form. -/
def margin : String := "          "

/-- The lines about the values of an option in the full form. -/
def valueLines (values : List (String × String)) : String :=
  if values.isEmpty then ""
  else
    let nameWidth := width (values.map Prod.fst)
    let lines := values.map fun (name, about) =>
      "\n" ++ margin ++ "- " ++ padded (nameWidth + 2) (name ++ ":") ++ about
    "\n\n" ++ margin ++ "Possible values:" ++ String.join lines

/-- The lines of an entry in the full form. -/
def lines (e : Entry) : String :=
  let preset := match e.defaultValue with
    | some value => "\n" ++ margin ++ "\n" ++ margin ++ "[default: " ++ value ++ "]"
    | none => ""
  "  " ++ e.label ++ "\n" ++ margin ++ e.about ++ preset ++ valueLines e.values

end Entry

/-- The text of a section. -/
def Section.text (inFull : Bool) (s : Section) : String :=
  let labelWidth := width (s.entries.map Entry.label)
  s.title ++ ":\n" ++
    if inFull then String.intercalate "\n\n" (s.entries.map Entry.lines)
    else String.intercalate "\n" (s.entries.map (Entry.line labelWidth))

/-- The text of a page. -/
def Page.text (inFull : Bool) (p : Page) : String :=
  String.intercalate "\n\n"
    (p.about :: ("Usage: " ++ p.usage) :: p.sections.map (Section.text inFull)) ++ "\n"

section Pages

/-- The option that asks for more log lines. -/
def verboseOption : Entry :=
  { label := "-v, --verbose..."
    about := "Enable verbose output. Repeat for more verbosity (-v, -vv, -vvv)" }

/-- The option that asks for help. -/
def helpOption : Entry :=
  { label := "-h, --help", about := "Print help" }

/-- The operand that names an object file. -/
def fileOperand : Entry :=
  { label := "<FILE>", about := "JSON or YAML object file" }

/-- The page of the program as a whole. -/
def programPage : Page where
  about :=
    "CLI tool for the spk object SDK: discriminator resolution, graph walks, and object id " ++
      "computation over JSON or YAML object files."
  usage := "spk [OPTIONS] <COMMAND>"
  sections :=
    [{ title := "Commands"
       entries :=
        [{ label := "resolve", about := "Resolve discriminator strings against the core kit" },
         { label := "walk", about := "Traverse an object file and print every visited path" },
         { label := "id", about := "Compute content-addressed object ids" },
         { label := "help",
           about := "Print this message or the help of the given subcommand(s)" }] },
     { title := "Options"
       entries :=
        [verboseOption, helpOption, { label := "-V, --version", about := "Print version" }] }]

/-- The page of the command that resolves type chains. -/
def resolvePage : Page where
  about := "Resolve discriminator strings against the core kit"
  usage := "spk resolve [OPTIONS] <DISCRIMINATOR>..."
  sections :=
    [{ title := "Arguments"
       entries :=
        [{ label := "<DISCRIMINATOR>..."
           about := "Discriminator strings, e.g. `Objects.Geometry.Mesh:Custom.Mesh`" }] },
     { title := "Options"
       entries :=
        [{ label := "    --strict"
           about := "Exit with status 2 if any input falls back to Base" },
         verboseOption, helpOption] }]

/-- The page of the command that walks a graph. Each of its forms names the other one. -/
def walkPage (inFull : Bool) : Page where
  about := "Traverse an object file and print every visited path"
  usage := "spk walk [OPTIONS] <FILE>"
  sections :=
    [{ title := "Arguments", entries := [fileOperand] },
     { title := "Options"
       entries :=
        [{ label := "    --rules <RULES>"
           about := "Rule set to traverse with"
           defaultValue := some "displayable"
           values :=
            [("displayable", "Displayable objects descend only into hosted elements"),
             ("all", "Every member of every node")] },
         verboseOption,
         { label := "    --distinct"
           about := "Print each distinct node once instead of once per path" },
         { label := "-h, --help"
           about :=
            if inFull then "Print help (see a summary with '-h')"
            else "Print help (see more with '--help')" }] }]

/-- The page of the command that computes content ids. -/
def idPage : Page where
  about := "Compute content-addressed object ids"
  usage := "spk id [OPTIONS] <FILE>"
  sections :=
    [{ title := "Arguments", entries := [fileOperand] },
     { title := "Options"
       entries :=
        [{ label := "    --all"
           about := "Print the id of every distinct node, not only the root" },
         verboseOption,
         { label := "    --verify"
           about :=
            "Exit with status 2 if the root's stored `id` differs from the computed one" },
         helpOption] }]

/-- The page of the command that prints help. -/
def helpPage : Page where
  about := "Print this message or the help of the given subcommand(s)"
  usage := "spk help [COMMAND]..."
  sections :=
    [{ title := "Arguments"
       entries :=
        [{ label := "[COMMAND]...", about := "Print help for the subcommand(s)" }] }]

end Pages

end Help

/-- The help on a topic. Only the walk of a graph has a full form. -/
def HelpTopic.text (topic : HelpTopic) (inFull : Bool) : String :=
  match topic with
  | .program => Help.programPage.text false
  | .resolve => Help.resolvePage.text false
  | .walk => (Help.walkPage inFull).text inFull
  | .id => Help.idPage.text false
  | .help => Help.helpPage.text false

end ObjectGraph
