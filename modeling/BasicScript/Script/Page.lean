import BasicScript.Sequence
import BasicScript.Text.Join

/-!
# Pages

A page is a sequence of lines with a current indentation.  A line keeps its depth and its text
apart; the indentation is written out when the page is.  Lines can be put in at a place that was
marked earlier; the log has the lines that were appended one by one, and none of these.
-/

namespace BasicScript.Script

/-- A line of text at a depth of indentation. -/
structure Line where
  depth : Nat
  text : String
deriving Repr, DecidableEq

/-- Two blanks for each level. -/
def indentUnit : String := "  "

def Line.render (unit : String) (line : Line) : String :=
  Text.repeated unit line.depth ++ line.text

/-- Lines, and the indentation of the next one.  An indentation below zero writes no blanks.  `log`
are the lines that were appended, in the order in which they were. -/
structure Page where
  lines : Array Line := #[]
  indent : Int := 0
  log : Array Line := #[]
deriving Repr

namespace Page

/-- The page with one more line at the current indentation.  An empty line has none. -/
def line (page : Page) (text : String) : Page :=
  let depth := if text.isEmpty then 0 else page.indent.toNat
  { page with lines := page.lines.push ⟨depth, text⟩, log := page.log.push ⟨depth, text⟩ }

/-- The page with more lines as they are. -/
def rawLines (page : Page) (texts : List String) : Page :=
  { page with lines := page.lines ++ (texts.map (Line.mk 0)).toArray }

def raw (page : Page) (text : String) : Page := page.rawLines (Text.lines text)

/-- The page with its indentation changed. -/
def indentBy (page : Page) (levels : Int) : Page :=
  { page with indent := page.indent + levels }

/-- The page with its indentation one level less, if there is any. -/
def dedent (page : Page) : Page :=
  if 0 < page.indent then { page with indent := page.indent - 1 } else page

/-- The place of the next line. -/
def mark (page : Page) : Nat := page.lines.size

/-- The page with lines put in at a place. -/
def insert (page : Page) (place : Int) (texts : List String) (indent : Int) : Page :=
  let added := texts.map (Line.mk indent.toNat)
  { page with lines := (Sequence.insertAt page.lines.toList place added).toArray }

def render (unit : String) (page : Page) : List String :=
  page.lines.toList.map (Line.render unit)

/-- The page as one text. -/
def output (unit : String) (page : Page) : String :=
  Text.joinWith "\n" (page.render unit)

end Page

end BasicScript.Script
