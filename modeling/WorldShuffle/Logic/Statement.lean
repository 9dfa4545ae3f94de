import WorldShuffle.Logic.Token

namespace WorldShuffle

def lexemeLines : List Lexeme → List (List Lexeme)
  | [] => [[]]
  | l :: ls =>
    match lexemeLines ls with
    | [] => [[l]]
    | line :: rest => if l.token = .newline then [] :: line :: rest else (l :: line) :: rest

def isArrow : Token → Bool
  | .arrow | .twoWay => true
  | _ => false

def opensStatement (line : List Lexeme) : Bool :=
  match line.map Lexeme.token with
  | .ident word :: .int _ :: _ => word == "Scene" || line.any fun l => isArrow l.token
  | .group _ :: .openBrace :: _ => true
  | _ => line.any fun l => isArrow l.token

def bracketStep : Token → Int32
  | .openParen | .openBrace => 1
  | .closeParen | .closeBrace => -1
  | _ => 0

def bracketBalance (line : List Lexeme) : Int32 :=
  line.foldl (fun depth l => depth + bracketStep l.token) 0

def endsTerm (ls : List Lexeme) : Bool :=
  match ls.getLast?.map Lexeme.token with
  | some (.ident _) | some (.int _) | some .closeParen | some .closeBrace => true
  | _ => false

/-- Collects lines into statements. A line completes one when no bracket is open behind it and its
last token can end an expression; a line that opens a statement closes the pending one. -/
def joinLines (pending : List Lexeme) (depth : Int32) : List (List Lexeme) → List (List Lexeme)
  | [] => if pending.isEmpty then [] else [pending]
  | line :: lines =>
    if line.isEmpty then joinLines pending depth lines
    else if !pending.isEmpty && opensStatement line then
      let depth := bracketBalance line
      pending :: (if depth ≤ 0 && endsTerm line then line :: joinLines [] 0 lines
        else joinLines line depth lines)
    else
      let statement := pending ++ line
      let depth := depth + bracketBalance line
      if depth ≤ 0 && endsTerm statement then statement :: joinLines [] 0 lines
      else joinLines statement depth lines

def splitStatements (ls : List Lexeme) : List (List Lexeme) := joinLines [] 0 (lexemeLines ls)

end WorldShuffle
