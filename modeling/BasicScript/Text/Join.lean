/-!
# Joining and splitting text

Lists of texts put together with a separator between them, and a text cut at its line feeds.
-/

namespace BasicScript.Text

/-- The texts one after another, with `separator` between neighbours. -/
def joinWith (separator : String) : List String → String
  | [] => ""
  | text :: texts => texts.foldl (fun front next => front ++ separator ++ next) text

/-- The texts as a list that is separated by commas. -/
def commas (texts : List String) : String :=
  joinWith ", " texts

/-- The characters cut at every line feed; a sequence without one is a single line. -/
def splitLineFeeds : List Char → List (List Char)
  | [] => [[]]
  | '\n' :: rest => [] :: splitLineFeeds rest
  | c :: rest =>
    match splitLineFeeds rest with
    | [] => [[c]]
    | line :: lines => (c :: line) :: lines

def lines (text : String) : List String :=
  (splitLineFeeds text.toList).map String.ofList

/-- The text written `count` times. -/
def repeated (text : String) : Nat → String
  | 0 => ""
  | count + 1 => text ++ repeated text count

@[simp] theorem joinWith_nil (separator : String) : joinWith separator [] = "" := rfl

@[simp] theorem joinWith_singleton (separator text : String) : joinWith separator [text] = text :=
  rfl

theorem foldl_append_left (separator a b : String) (texts : List String) :
    texts.foldl (fun front next => front ++ separator ++ next) (a ++ b) =
      a ++ texts.foldl (fun front next => front ++ separator ++ next) b := by
  induction texts generalizing b with
  | nil => rfl
  | cons text texts ih =>
    rw [List.foldl_cons, List.foldl_cons, ← ih]
    simp only [String.append_assoc]

@[simp] theorem joinWith_cons_cons (separator a b : String) (texts : List String) :
    joinWith separator (a :: b :: texts) = a ++ separator ++ joinWith separator (b :: texts) :=
  foldl_append_left separator (a ++ separator) b texts

end BasicScript.Text
