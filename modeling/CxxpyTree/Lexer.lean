import CxxpyTree.ParseNum
import CxxpyTree.Token

/-! The scanner of tree/parser.cpp: `skip_spaces`, `scan_literal` and `next_token` over the
input that is left and its position. -/

namespace CxxpyTree

inductive InputType where
  | text
  | file
  deriving DecidableEq, Repr

/-- `[input_ptr, input_end)` and `pos`. -/
structure Input where
  rest : List Char
  pos : Pos := {}
  deriving DecidableEq, Repr

/-- The bytes the constructor of `BaseParser` finds: a text ends at its NUL, a file does not. -/
def inputBytes : InputType → List Char → List Char
  | .text, input => cstr input
  | .file, input => input

/-- One newline that ends the input counts as part of the EOS token. -/
def trimNewline (input : List Char) : List Char :=
  if input.getLast? = some newline then input.dropLast else input

def Input.init (type : InputType) (input : List Char) : Input := { rest := trimNewline (inputBytes type input) }

def isident0 (ch : Char) : Bool := isalpha ch || ch == '_'
def isident (ch : Char) : Bool := isident0 ch || isdigit ch
def isname (ch : Char) : Bool := islower ch || isdigit ch || ch == '_'
def isPlainChar (ch : Char) : Bool := isascii ch && !iscntrl ch

def ischartoken (ch : Char) : Option TokenType :=
  if ch == '(' then some .openParen
  else if ch == ')' then some .closeParen
  else if ch == '[' then some .openSqbrk
  else if ch == ']' then some .closeSqbrk
  else if ch == '<' then some .openAngbrk
  else if ch == '>' then some .closeAngbrk
  else if ch == '.' then some .dot
  else if ch == '=' then some .equal
  else none

/-- A comment ends before its newline. -/
def skipComment : List Char → List Char
  | '#' :: more => more.dropWhile (· != newline)
  | ptr => ptr

/-- One run of white space and at most one comment. -/
def skipSpaces (s : Input) : Input :=
  let ptr := skipComment (s.rest.dropWhile isspace)
  { rest := ptr, pos := s.pos.addRange (s.rest.take (s.rest.length - ptr.length)) }

/-- The loop of `scan_literal`: the characters it passes over and the place where it stops. -/
def scanItems (quote : Char) : List Char → List Char × List Char
  | [] => ([], [])
  | c :: rest =>
    if c == backslash then
      match rest with
      | [] => ([c], [])
      | e :: more =>
        if e == newline then ([c], rest)
        else
          let (body, ptr) := scanItems quote more
          (c :: e :: body, ptr)
    else if !isPlainChar c || c == newline || c == quote then ([], c :: rest)
    else
      let (body, ptr) := scanItems quote rest
      (c :: body, ptr)

/-- `rest` follows the opening quote, which stands at `pos`. -/
def scanLiteral (pos : Pos) (quote : Char) (rest : List Char) : Except Stop (List Char × List Char) :=
  let (body, ptr) := scanItems quote rest
  let stop := pos.addSize (1 + body.length)
  match ptr with
  | [] => .error (.error ⟨stop, .endOfInput⟩)
  | c :: _ =>
    if c == newline then .error (.error ⟨stop, .endOfLine⟩)
    else if !isPlainChar c then .error (.error ⟨stop, .unexpectChar c⟩)
    else .ok (body, ptr)

def wordType (argCtxt : Bool) (rng : List Char) : TokenType :=
  if !rng.all isname then .ident
  else if !argCtxt && rng == "list".toList then .kwList
  else .name

def nextToken (argCtxt : Bool) (s : Input) : Except Stop (Token × Input) :=
  let s := skipSpaces s
  match s.rest with
  | [] => .ok ({ pos := s.pos, type := .eos, lex := [] }, s)
  | c :: rest =>
    match ischartoken c with
    | some type => .ok ({ pos := s.pos, type, lex := [c] }, { rest, pos := s.pos.addSize 1 })
    | none =>
      if isascii c && isident0 c then
        let rng := c :: rest.takeWhile (fun d => isascii d && isident d)
        .ok ({ pos := s.pos, type := wordType argCtxt rng, lex := rng },
          { rest := rest.dropWhile (fun d => isascii d && isident d), pos := s.pos.addSize rng.length })
      else if c == '\'' || c == '"' then
        match scanLiteral s.pos c rest with
        | .error stop => .error stop
        | .ok (_, []) => .error .assertFailed
        | .ok (body, d :: more) =>
          if d != c then .error .assertFailed
          else .ok ({ pos := s.pos, type := .str, lex := body },
            { rest := more, pos := s.pos.addSize (body.length + 2) })
      else if isdigit c then
        let rng := c :: rest.takeWhile isdigit
        .ok ({ pos := s.pos, type := .num, lex := rng },
          { rest := rest.dropWhile isdigit, pos := s.pos.addSize rng.length })
      else .error (.error ⟨s.pos, .unexpectChar c⟩)

end CxxpyTree
