namespace WorldShuffle

def splitLines : List Char → List (List Char)
  | [] => [[]]
  | c :: cs =>
    match splitLines cs with
    | [] => [[c]]
    | line :: rest => if c = '\n' then [] :: line :: rest else (c :: line) :: rest

def dropCarriage (line : List Char) : List Char :=
  if line.getLast? = some '\r' then line.dropLast else line

/-- The lines of a printed text: a carriage return before a line break belongs to the break, and the
end of the text is a line only if something stands behind the last break. -/
def printedLines (text : String) : List String :=
  let lines := splitLines text.toList
  let ended := lines.dropLast.map dropCarriage
  let rest := (lines.getLast?.filter fun (line : List Char) => !line.isEmpty).toList
  (ended ++ rest).map String.ofList

def cutAt (mark : List Char) : List Char → List Char × Option (List Char)
  | [] => ([], none)
  | c :: cs =>
    if mark.isPrefixOf (c :: cs) then ([], some ((c :: cs).drop mark.length))
    else
      let (before, behind) := cutAt mark cs
      (c :: before, behind)

end WorldShuffle
