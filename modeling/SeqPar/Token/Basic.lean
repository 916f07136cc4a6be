/-!
# Tokens

A token is a tagged piece of source text.  The tags form a closed list, but for the tokens that
are made up elsewhere: those carry a tag of their own name.

## Main definitions

* `Tag`, `Tag.name`, `Tag.ofName` — the tags and their names.
* `Token`, `Token.render` — tokens and their text form.
* `Located` — a token with the line it stands on.
-/

namespace SeqPar

/-- What kind of token a piece of source text is. -/
inductive Tag where
  /-- The word `string`. -/
  | stringType
  /-- The word `int`. -/
  | intType
  /-- The word `bool`. -/
  | boolType
  /-- The token `SEQ`, which opens a sequential block. -/
  | seq
  /-- The token `PAR`, which opens a parallel block. -/
  | par
  /-- The token `c_channel`. -/
  | clientChannel
  /-- The token `s_channel`. -/
  | serverChannel
  /-- The word `function`. -/
  | function
  /-- The token `if`. -/
  | ifWord
  /-- The token `else`. -/
  | elseWord
  /-- The token `while`. -/
  | whileWord
  /-- The token `send`. -/
  | send
  /-- The token `receive`. -/
  | receive
  /-- The token `output`. -/
  | output
  /-- The word `return`. -/
  | returnWord
  /-- The word `true` or `false`. -/
  | bool
  /-- An identifier. -/
  | ident
  /-- A run of digits. -/
  | number
  /-- A text between double quotes, with the quotes. -/
  | string
  /-- The token `==`. -/
  | eq
  /-- The token `!=`. -/
  | neq
  /-- The token `<=`. -/
  | lte
  /-- The token `>=`. -/
  | gte
  /-- The token `<`. -/
  | lt
  /-- The token `>`. -/
  | gt
  /-- The token `&&`. -/
  | and
  /-- The token `||`. -/
  | or
  /-- The token `!`. -/
  | not
  /-- The token `=`. -/
  | assign
  /-- The token `+`. -/
  | plus
  /-- The token `-`. -/
  | minus
  /-- The token `*`. -/
  | times
  /-- The token `/`. -/
  | divide
  /-- The token `(`. -/
  | lparen
  /-- The token `)`. -/
  | rparen
  /-- The token `{`. -/
  | lbrace
  /-- The token `}`. -/
  | rbrace
  /-- The token `,`. -/
  | comma
  /-- The token `;`. -/
  | semicolon
  /-- The end of the input. -/
  | endOfInput
  /-- A tag outside the list above, known by its name. -/
  | other (name : String)
  deriving DecidableEq, Repr, Inhabited

/-- The name of a tag. -/
def Tag.name : Tag → String
  | .stringType => "STRING_TYPE"
  | .intType => "INT_TYPE"
  | .boolType => "BOOL_TYPE"
  | .seq => "SEQ"
  | .par => "PAR"
  | .clientChannel => "C_CHANNEL"
  | .serverChannel => "S_CHANNEL"
  | .function => "FUNC"
  | .ifWord => "IF"
  | .elseWord => "ELSE"
  | .whileWord => "WHILE"
  | .send => "SEND"
  | .receive => "RECEIVE"
  | .output => "OUTPUT"
  | .returnWord => "RETURN"
  | .bool => "BOOL"
  | .ident => "ID"
  | .number => "NUMBER"
  | .string => "STRING"
  | .eq => "EQ"
  | .neq => "NEQ"
  | .lte => "LTE"
  | .gte => "GTE"
  | .lt => "LT"
  | .gt => "GT"
  | .and => "AND"
  | .or => "OR"
  | .not => "NOT"
  | .assign => "ASSIGN"
  | .plus => "PLUS"
  | .minus => "MINUS"
  | .times => "MULT"
  | .divide => "DIV"
  | .lparen => "LPAREN"
  | .rparen => "RPAREN"
  | .lbrace => "LBRACE"
  | .rbrace => "RBRACE"
  | .comma => "COMMA"
  | .semicolon => "SEMICOLON"
  | .endOfInput => "EOF"
  | .other name => name

/-- The tags of the list. -/
def Tag.listed : List Tag :=
  [.stringType, .intType, .boolType, .seq, .par, .clientChannel, .serverChannel, .function, .ifWord,
    .elseWord, .whileWord, .send, .receive, .output, .returnWord, .bool, .ident, .number, .string,
    .eq, .neq, .lte, .gte, .lt, .gt, .and, .or, .not, .assign, .plus, .minus, .times, .divide,
    .lparen, .rparen, .lbrace, .rbrace, .comma, .semicolon, .endOfInput]

/-- The tag of a given name. -/
def Tag.ofName (name : String) : Tag :=
  (Tag.listed.find? fun tag => tag.name == name).getD (.other name)

/-- A tagged piece of text. -/
structure Token where
  /-- What kind of token it is. -/
  tag : Tag
  /-- The text it covers. -/
  text : String
  deriving DecidableEq, Repr, Inhabited

/-- The text form of a token: its text and the name of its tag. -/
def Token.render (t : Token) : String :=
  "\x7b" ++ t.text ++ ", " ++ t.tag.name ++ "\x7d"

/-- The token that stands for the end of the input. -/
def Token.endOfInput : Token :=
  ⟨.endOfInput, "EOF"⟩

/-- A token with the line it stands on.  Scanning counts the lines from one; tokens from elsewhere may
carry any number. -/
structure Located where
  /-- The token. -/
  token : Token
  /-- Its line. -/
  line : Int
  deriving DecidableEq, Repr, Inhabited

end SeqPar
