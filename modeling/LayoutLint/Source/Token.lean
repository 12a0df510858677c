import LayoutLint.Outline
import LayoutLint.Source.Lexeme

/-! # Tokens

A token is a lexeme that the grammar sees. Comments and line feeds belong to the token after
them, and the last token stands for the end of the text.
-/

namespace LayoutLint.Source

inductive TokenKind where
  | word
  | keyword
  | literal
  | string
  | operator
  | unknown
  | endOfText
  deriving DecidableEq, Repr

structure Token where
  kind : TokenKind
  text : String
  start : Nat
  /-- A line feed outside comments stands between the token and the one before it. -/
  newline : Bool
  /-- The comments between the token and the one before it. -/
  comments : List Comment
  deriving DecidableEq, Repr

namespace Token

def stop (t : Token) : Nat := t.start + t.text.utf8ByteSize

def span (t : Token) : Span := ⟨t.start, t.stop⟩

end Token

namespace Lexeme

def text (l : Lexeme) : String := String.ofList l.chars

def span (l : Lexeme) : Span := ⟨l.start, l.start + Text.byteLength l.chars⟩

/-- The kind of token that the lexeme is, unless it stands between tokens. -/
def tokenKind? (l : Lexeme) : Option TokenKind :=
  match l.kind with
  | .blank | .newline | .comment => none
  | .word => some .word
  | .keyword => some .keyword
  | .literal => some .literal
  | .string => some .string
  | .operator => some .operator
  | .unknown => some .unknown

end Lexeme

/-- The tokens of the lexemes, when a line feed may have been seen and some comments, the last
one first, wait for their token. -/
def tokensOf (stop : Nat) (newline : Bool) (comments : List Comment) : List Lexeme → List Token
  | [] => [⟨.endOfText, "", stop, newline, comments.reverse⟩]
  | l :: ls =>
    match l.tokenKind? with
    | some kind => ⟨kind, l.text, l.start, newline, comments.reverse⟩ :: tokensOf stop false [] ls
    | none =>
      if l.kind = .comment then tokensOf stop newline (⟨l.span, l.text⟩ :: comments) ls
      else tokensOf stop (newline || l.kind = .newline) comments ls

/-- The characters and the start offset of a text without its byte order mark. -/
def withoutMark : List Char → Nat × List Char
  | '\ufeff' :: cs => (3, cs)
  | cs => (0, cs)

/-- The tokens of a text; a byte order mark at its start is skipped. -/
def tokens (cs : List Char) : List Token :=
  tokensOf (Text.byteLength cs) false []
    (lexemes (withoutMark cs).1 (withoutMark cs).2)

end LayoutLint.Source
