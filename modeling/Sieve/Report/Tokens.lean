/-
# Tokens on paper

A malformed expression is best understood stage by stage: the prepared text, its tokens with
their places and kinds, their postfix order, and the parentheses without a partner.
-/
import Sieve.Json.Basic
import Sieve.Postfix
import Sieve.Report.Style

namespace Sieve

/-- A short name for the kind of a token. -/
def Token.kind : Token → Text
  | .and | .or => "connective".toList
  | .compare _ => "compare".toList
  | .membership _ => "membership".toList
  | .nullTest _ => "null-test".toList
  | .openParen | .closeParen => "paren".toList
  | .word _ => "word".toList

namespace Report

/-- A row of the table of tokens. -/
def tokenRow (position kind text : Text) : Text :=
  Text.fill 5 position ++ ' ' :: Text.fill 11 kind ++ ' ' :: text

/-- The row of one token. -/
def tokenLine (t : Placed) : Text :=
  tokenRow (Text.decimal t.position) t.token.kind t.token.text

/-- The stages of an expression as a table. -/
def tokenTable (colours : Bool) (input : Text) (tokens : List Placed) (p : Postfix) : Text :=
  Style.bold.paint colours "Input:".toList ++ ' ' :: input ++ "\n\n".toList ++
    if tokens.isEmpty then "No tokens.\n".toList
    else
      Text.unlines
        (Style.dimmed.paint colours (tokenRow "Pos".toList "Kind".toList "Token".toList) ::
          tokens.map tokenLine) ++
        '\n' :: Style.bold.paint colours "Postfix:".toList ++
        ' ' :: [' '].intercalate (p.tokens.map fun t => t.token.text) ++ '\n' ::
        Text.unlines (p.errors.map fun e =>
          Style.yellow.paint colours ("warning: ".toList ++ e.message))

/-- The stages of an expression as JSON. -/
def tokenJson (input : Text) (tokens : List Placed) (p : Postfix) : Json :=
  let token (t : Placed) : Json :=
    .object
      [("position".toList, .int t.position), ("kind".toList, .string t.token.kind),
        ("text".toList, .string t.token.text)]
  .object
    [("input".toList, .string input), ("tokens".toList, .array (tokens.map token)),
      ("postfix".toList, .texts (p.tokens.map fun t => t.token.text)),
      ("errors".toList, .texts (p.errors.map FilterError.message))]

end Report

end Sieve
