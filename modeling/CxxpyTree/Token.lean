import CxxpyTree.Ctype
import Mathlib.Tactic.Linarith

/-! Positions, tokens and errors of `BaseParser` and `Parser`. -/

namespace CxxpyTree

structure Pos where
  line : Nat := 1
  col : Nat := 1
  deriving DecidableEq, Repr

namespace Pos

def addSize (p : Pos) (size : Nat) : Pos := { p with col := p.col + size }

/-- `pos_t::operator+=(range_t)`: past a newline the column is the distance from the last one. -/
def addRange (p : Pos) (rng : List Char) : Pos :=
  { line := p.line + rng.count newline
    col := if newline ∈ rng then (rng.reverse.takeWhile (· != newline)).length + 1 else p.col + rng.length }

@[simp] theorem addRange_nil (p : Pos) : p.addRange [] = p := by simp [addRange]

theorem addRange_append (p : Pos) (a b : List Char) : p.addRange (a ++ b) = (p.addRange a).addRange b := by
  have clean : newline ∉ b → b.reverse.takeWhile (· != newline) = b.reverse := by
    intro absent
    rw [List.takeWhile_eq_self_iff]
    rintro c member
    have other : c ≠ newline := by rintro rfl; exact absent (List.mem_reverse.mp member)
    simpa using other
  by_cases later : newline ∈ b
  · have stops : ∀ more, (b.reverse ++ more).takeWhile (· != newline) = b.reverse.takeWhile (· != newline) := by
      intro more
      obtain ⟨c, member, same⟩ : ∃ c ∈ b.reverse, ¬ (c != newline) = true :=
        ⟨newline, by simpa using later, by simp⟩
      rw [List.takeWhile_append, if_neg]
      intro whole
      exact same (List.takeWhile_eq_self_iff.mp ((List.takeWhile_prefix _).eq_of_length whole) c member)
    simp [addRange, later, stops, Nat.add_assoc]
  · by_cases earlier : newline ∈ a
    · rw [Pos.mk.injEq]
      have whole := clean later
      constructor
      · simp [addRange, Nat.add_assoc]
      · simp only [addRange, List.mem_append, earlier, later, or_false, if_true, if_false,
          List.reverse_append]
        rw [List.takeWhile_append, if_pos (by rw [whole]), List.length_append, List.length_reverse]
        omega
    · simp [addRange, earlier, later, Nat.add_assoc]

end Pos

inductive TokenType where
  | bos
  | eos
  | openParen
  | closeParen
  | openSqbrk
  | closeSqbrk
  | openAngbrk
  | closeAngbrk
  | dot
  | equal
  | name
  | ident
  | str
  | num
  | kwList
  deriving DecidableEq, Repr

def tokenName : TokenType → String
  | .openParen => "\"(\""
  | .closeParen => "\")\""
  | .openSqbrk => "\"[\""
  | .closeSqbrk => "\"]\""
  | .openAngbrk => "\"<\""
  | .closeAngbrk => "\">\""
  | .dot => "\".\""
  | .equal => "\"=\""
  | .bos => "BOS"
  | .eos => "EOS"
  | .name => "NAME"
  | .ident => "IDENT"
  | .str => "STR"
  | .num => "NUM"
  | .kwList => "\"list\""

/-- `lex` is the text buffer of the token, in which a literal of a file may hold a NUL. -/
structure Token where
  pos : Pos := {}
  type : TokenType := .bos
  lex : List Char := []
  deriving DecidableEq, Repr

/-- `ReprPrint<char>`: `str` selects the spelling inside double quotes. -/
def reprChar (ch : Char) (str : Bool) : List Char :=
  if ch == '\\' then ['\\', '\\']
  else if ch == '\x0c' then ['\\', 'f']
  else if ch == '\n' then ['\\', 'n']
  else if ch == '\r' then ['\\', 'r']
  else if ch == '\t' then ['\\', 't']
  else if ch == '\x0b' then ['\\', 'v']
  else if ch == '"' then if str then ['\\', '"'] else ['"']
  else if ch == '\'' then if str then ['\''] else ['\\', '\'']
  else if isascii ch && !iscntrl ch then [ch]
  else
    let hex := Nat.toDigits 16 ch.toNat
    '\\' :: 'x' :: List.replicate ((if str then 2 else 1) - hex.length) '0' ++ hex

/-- `repr(ch, true)`. -/
def reprQuoted (ch : Char) : List Char := '\'' :: reprChar ch false ++ ['\'']

/-- The messages passed to `BaseParser::error`, with what they are formatted from. -/
inductive Message where
  | endOfInput
  | endOfLine
  | unexpectChar (ch : Char)
  | expectedToken (type got : TokenType)
  | unexpectedToken (got : TokenType) (where_ : String)
  | listElemIndex (str : CStr)
  deriving DecidableEq, Repr

def Message.text : Message → String
  | .endOfInput => "end of input inside literal"
  | .endOfLine => "end of input line inside literal"
  | .unexpectChar ch =>
    "unexpected " ++ (if isascii ch then "" else "non-ascii ") ++ "char " ++ String.ofList (reprQuoted ch)
  | .expectedToken type got => "expected token " ++ tokenName type ++ " but got " ++ tokenName got
  | .unexpectedToken got where_ => "unexpected token " ++ tokenName got ++ " in " ++ where_
  | .listElemIndex str => "invalid list-elem-index '" ++ String.ofList str ++ "'"

structure ParserError where
  pos : Pos
  msg : Message
  deriving DecidableEq, Repr

/-- Why a run ends before its result: a thrown `ParserError` or a failed `SYS_ASSERT`. The model
adds `outOfFuel`, the end of its recursion bound. -/
inductive Stop where
  | error (err : ParserError)
  | assertFailed
  | outOfFuel
  deriving DecidableEq, Repr

end CxxpyTree
