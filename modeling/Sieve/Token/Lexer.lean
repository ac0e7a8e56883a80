/-
# Reading tokens

`tokenize` cuts a text into tokens.  Blanks separate tokens and are dropped; at every other
character the first of these that fits is read:

1. a symbol, two characters before one (`<=` before `<`);
2. a keyword in capitals;
3. a parenthesis;
4. a quoted string that is closed;
5. a bare word: all up to the next blank or parenthesis.

So `a=1` is one word, `a =1` are three tokens, and a quote that is never closed starts a bare
word.  Every text can be cut: there is no lexical error.

* `Token.scan`: the first token of a text that starts with no blank, and its length;
* `tokenize`: all tokens with their places.
-/
import Sieve.Token
import Sieve.Keyword

namespace Sieve

/-! ## 1. The kinds of token -/

/-- The operators written with symbols, two-character forms first. -/
def symbols : List Operator :=
  [.notEqual, .lessEqual, .greaterEqual, .bangEqual, .equal, .less, .greater]

/-- The symbol that the text starts with. -/
def symbol? (s : Text) : Option Operator := symbols.find? fun op => op.text.isPrefixOf s

/-- The token that a keyword stands for. -/
def Keyword.token : Keyword → Token
  | isNotNull => .nullTest .isNot
  | isNull => .nullTest .is
  | notIlike => .compare .notIlike
  | notLike => .compare .notLike
  | notInList => .membership .notInList
  | and => .and
  | or => .or
  | ilike => .compare .ilike
  | like => .compare .like
  | inList => .membership .inList

/-- Whether a bare word ends in front of this character. -/
def endsBareWord (c : Char) : Bool := isBlank c || c == '(' || c == ')'

/-- The number of characters of the closed quoted string that starts the text, quotes
included. A backslash protects every character. -/
def quotedLength? : Text → Option Nat
  | [] => none
  | q :: r => if isQuote q then (Quoted.closing? (fun _ => true) q r).map (· + 1) else none

/-- The number of characters of the word at the front of the text: a closed quoted string, or
else all up to a blank or a parenthesis. -/
def wordLength (s : Text) : Nat :=
  (quotedLength? s).getD (s.takeWhile fun c => !endsBareWord c).length

/-! ## 2. One token -/

namespace Token

/-- The token at the front of a text that starts with no blank, and the number of characters
it takes. -/
def scan (s : Text) : Token × Nat :=
  match symbol? s with
  | some op => (compare op, op.text.length)
  | none =>
    match Keyword.read? s with
    | some (k, n) => (k.token, n)
    | none =>
      match s with
      | '(' :: _ => (openParen, 1)
      | ')' :: _ => (closeParen, 1)
      | _ => (word (s.take (wordLength s)), wordLength s)

end Token

/-! ## 3. All tokens -/

/-- The tokens of a text that starts at byte `position` of the input. -/
def tokenizeFrom (position : Nat) (s : Text) : List Placed :=
  match _h : Text.trimStart s with
  | [] => []
  | c :: r =>
    let start := position + Text.utf8Size (s.take (Text.gap s))
    let found := Token.scan (c :: r)
    let span := c :: r.take (found.2 - 1)
    ⟨found.1, start⟩ :: tokenizeFrom (start + Text.utf8Size span) (r.drop (found.2 - 1))
  termination_by s.length
  decreasing_by
    have := Text.trimStart_length_le s
    simp only [_h, List.length_cons] at this
    simp only [List.length_drop]
    omega

/-- The tokens of a text, each with the byte at which it starts. -/
def tokenize (s : Text) : List Placed := tokenizeFrom 0 s

end Sieve
