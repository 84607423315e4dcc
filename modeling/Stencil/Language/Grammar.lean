/-
The grammar of the template language.

Most rules let white space stand between their parts.  The tags themselves do not, because the
text around and inside them matters; they say where white space may or must be.
-/
import Stencil.Grammar.Match
import Stencil.Language.Rule

namespace Stencil.Language

open Peg (lit chain choice repeated)

/-- The expressions of this grammar. -/
abbrev Expression := Peg Rule

/-- White space of any length. -/
def spaces : Expression := .many .space

/-- White space, at least one character. -/
def someSpaces : Expression := repeated .space

/-- Any characters up to where `stop` matches. -/
def untilMatch (stop : Expression) : Expression := .seq (.absent stop) .anyChar

/-- A letter or an underscore. -/
def nameStart : Expression := choice [.range 'a' 'z', .range 'A' 'Z', lit "_"]

/-- A letter, a digit or an underscore. -/
def nameChar : Expression :=
  choice [.range 'a' 'z', .range 'A' 'Z', lit "_", .range '0' '9']

/-- Digits, perhaps none. -/
def digits : Expression := .many (.range '0' '9')

/-- Text between two quotes. -/
def quoted (quote : Char) : Expression :=
  chain [.literal [quote], .many (untilMatch (.literal [quote])), .literal [quote]]

/-- The given part, and further ones after commas. -/
def separated (part : Expression) : Expression :=
  chain [part, .many (chain [lit ",", part])]

/-- Parts between brackets, with commas between them and perhaps one at the end. -/
def listOf (part : Expression) : Expression :=
  chain [lit "[", .many (chain [part, lit ","]), .optional part, lit "]"]

/-- The operands of a concatenation. -/
def concatPart : Expression :=
  choice [.rule .fnCall, .rule .float, .rule .int, .rule .string, .rule .path]

/-- An operand of an arithmetic expression. -/
def basicOperand : Expression :=
  choice [chain [lit "(", .rule .basicExpr, lit ")"], .rule .basicVal]

/-- An expression whose text may be any value. -/
def anyValue : Expression := choice [.rule .logicExpr, .rule .arrayFilter]

/-- A tag of control: its delimiters and what stands between them. -/
def controlTag (inside : List Expression) : Expression :=
  chain ([.rule .tagStart, spaces] ++ inside ++ [spaces, .rule .tagEnd])

/-- A tag that is one word. -/
def wordTag (word : String) : Expression :=
  chain [.rule .tagStart, lit word, .rule .tagEnd]

/-- A tag that closes a named part; the name may be repeated. -/
def closingTag (word : String) : Expression :=
  chain [.rule .tagStart, lit word, .optional (.rule .ident), .rule .tagEnd]

/-- A conditional whose branches hold parts of the given kind. -/
def conditional (part : Rule) : Expression :=
  chain [.rule .ifTag, .many (.rule part),
    .many (chain [.rule .elifTag, .many (.rule part)]),
    .optional (chain [.rule .elseTag, .many (.rule part)]),
    .rule .endifTag]

/-- Alternatives that are rules. -/
def oneOf (rules : List Rule) : Expression := choice (rules.map .rule)

/-- The expression of every rule. -/
def body : Rule → Expression
  | .int => chain [.optional (lit "-"),
      choice [lit "0", chain [.range '1' '9', digits]]]
  | .float => chain [.optional (lit "-"),
      choice [chain [lit "0", lit ".", repeated (.range '0' '9')],
        chain [.range '1' '9', digits, lit ".", repeated (.range '0' '9')]]]
  | .doubleQuoted => quoted '"'
  | .singleQuoted => quoted '\''
  | .backQuoted => quoted '\x60'
  | .string => oneOf [.doubleQuoted, .singleQuoted, .backQuoted]
  | .boolean => choice [lit "true", lit "false", lit "True", lit "False"]
  | .ident => chain [nameStart, .many nameChar]
  | .dottedIdent => chain [nameStart, .many nameChar,
      .many (chain [lit ".", repeated nameChar])]
  | .squareBrackets => chain [lit "[", oneOf [.int, .string, .path], lit "]"]
  | .path => chain [.rule .dottedIdent,
      .many (choice [chain [lit ".", repeated nameChar], .rule .squareBrackets])]
  | .opOr => chain [lit "or", .space]
  | .opAnd => chain [lit "and", .space]
  | .opNot => chain [lit "not", .space]
  | .opLte => lit "<="
  | .opGte => lit ">="
  | .opLt => lit "<"
  | .opGt => lit ">"
  | .opEq => lit "=="
  | .opIneq => lit "!="
  | .opPlus => lit "+"
  | .opMinus => lit "-"
  | .opTimes => lit "*"
  | .opSlash => lit "/"
  | .opModulo => lit "%"
  | .stringConcat => chain [concatPart, repeated (chain [lit "~", concatPart])]
  | .basicVal => oneOf [.boolean, .testNot, .test, .macroCall, .fnCall, .path, .float, .int]
  | .basicOp => oneOf [.opPlus, .opMinus, .opTimes, .opSlash, .opModulo]
  | .basicExpr => chain [basicOperand, .many (chain [.rule .basicOp, basicOperand])]
  | .basicExprFilter => chain [.rule .basicExpr, .many (.rule .filter)]
  | .stringExprFilter => chain [oneOf [.stringConcat, .string], .many (.rule .filter)]
  | .comparisonVal => chain [.rule .basicExprFilter,
      .many (chain [.rule .basicOp, .rule .basicExprFilter])]
  | .comparisonOp => oneOf [.opLte, .opGte, .opGt, .opLt, .opEq, .opIneq]
  | .comparisonExpr => chain [oneOf [.stringExprFilter, .comparisonVal],
      .optional (chain [.rule .comparisonOp, oneOf [.stringExprFilter, .comparisonVal]])]
  | .inCondContainer => oneOf [.stringExprFilter, .arrayFilter, .path]
  | .inCond => chain [oneOf [.stringExprFilter, .basicExprFilter], .optional (.rule .opNot),
      lit "in", .rule .inCondContainer]
  | .logicVal => choice
      [chain [.optional (.rule .opNot), oneOf [.inCond, .comparisonExpr]],
       chain [lit "(", .rule .logicExpr, lit ")"]]
  | .logicExpr => chain [.rule .logicVal,
      .many (chain [oneOf [.opOr, .opAnd], .rule .logicVal])]
  | .array => listOf (.rule .logicVal)
  | .arrayFilter => chain [.rule .array, .many (.rule .filter)]
  | .stringArray => listOf (.rule .string)
  | .kwarg => chain [.rule .ident, lit "=", anyValue]
  | .kwargs => chain [separated (.rule .kwarg), .optional (lit ",")]
  | .fnCall => chain [.rule .ident, lit "(", .optional (.rule .kwargs), lit ")"]
  | .filter => chain [lit "|", oneOf [.fnCall, .ident]]
  | .macroDefArg => choice
      [chain [.rule .ident, lit "=", oneOf [.boolean, .string, .float, .int]], .rule .ident]
  | .macroDefArgs => separated (.rule .macroDefArg)
  | .macroFn => chain [.rule .ident, lit "(", .optional (.rule .macroDefArgs), lit ")"]
  | .macroFnWrapper => .rule .macroFn
  | .macroCall => chain [.rule .ident, lit "::", .rule .ident, lit "(",
      .optional (.rule .kwargs), lit ")"]
  | .testArg => anyValue
  | .testArgs => separated (.rule .testArg)
  | .testCall => chain [.rule .ident,
      .optional (chain [lit "(", .rule .testArgs, lit ")"])]
  | .testNot => chain [.rule .path, lit "is", lit "not", .rule .testCall]
  | .test => chain [.rule .path, lit "is", .rule .testCall]
  | .variableStart => choice [lit "\x7b\x7b-", lit "\x7b\x7b"]
  | .variableEnd => choice [lit "-\x7d\x7d", lit "\x7d\x7d"]
  | .tagStart => choice [lit "\x7b%-", lit "\x7b%"]
  | .tagEnd => choice [lit "-%\x7d", lit "%\x7d"]
  | .commentStart => choice [lit "\x7b#-", lit "\x7b#"]
  | .commentEnd => choice [lit "-#\x7d", lit "#\x7d"]
  | .blockStart => oneOf [.variableStart, .tagStart, .commentStart]
  | .commentText => repeated (untilMatch (.rule .commentEnd))
  | .ignoreMissing => chain [lit "ignore", spaces, lit "missing"]
  | .includeTag => chain [.rule .tagStart, spaces, lit "include", someSpaces,
      oneOf [.string, .stringArray], spaces, .optional (.rule .ignoreMissing), spaces,
      .rule .tagEnd]
  | .commentTag => chain [.rule .commentStart, .rule .commentText, .rule .commentEnd]
  | .blockTag => controlTag [lit "block", someSpaces, .rule .ident]
  | .macroTag => controlTag [lit "macro", someSpaces, .rule .macroFnWrapper]
  | .ifTag => controlTag [lit "if", someSpaces, .rule .logicExpr]
  | .elifTag => controlTag [lit "elif", someSpaces, .rule .logicExpr]
  | .elseTag => wordTag "else"
  | .forTag => controlTag [lit "for", someSpaces, .rule .ident,
      .optional (chain [lit ",", spaces, .rule .ident]), someSpaces, lit "in", someSpaces,
      oneOf [.basicExprFilter, .arrayFilter]]
  | .filterTag => controlTag [lit "filter", someSpaces, oneOf [.fnCall, .ident]]
  | .setTag => controlTag [lit "set", someSpaces, .rule .ident, spaces, lit "=", spaces,
      anyValue]
  | .setGlobalTag => controlTag [lit "set_global", someSpaces, .rule .ident, spaces, lit "=",
      spaces, anyValue]
  | .endblockTag => closingTag "endblock"
  | .endmacroTag => closingTag "endmacro"
  | .endifTag => wordTag "endif"
  | .endforTag => wordTag "endfor"
  | .endfilterTag => wordTag "endfilter"
  | .breakTag => wordTag "break"
  | .continueTag => wordTag "continue"
  | .variableTag => chain [.rule .variableStart, anyValue, .rule .variableEnd]
  | .superTag => chain [.rule .variableStart, lit "super()", .rule .variableEnd]
  | .text => repeated (untilMatch (.rule .blockStart))
  | .rawTag => wordTag "raw"
  | .endrawTag => wordTag "endraw"
  | .rawText => .many (untilMatch (.rule .endrawTag))
  | .raw => chain [.rule .rawTag, .rule .rawText, .rule .endrawTag]
  | .filterSection => chain [.rule .filterTag, .many (.rule .filterSectionContent),
      .rule .endfilterTag]
  | .forloop => chain [.rule .forTag, .many (.rule .forContent),
      .many (chain [.rule .elseTag, .many (.rule .forContent)]), .rule .endforTag]
  | .macroIf => conditional .macroContent
  | .blockIf => conditional .blockContent
  | .forIf => conditional .forContent
  | .filterSectionIf => conditional .filterSectionContent
  | .contentIf => conditional .content
  | .block => chain [.rule .blockTag, .many (.rule .blockContent), .rule .endblockTag]
  | .macroDefinition => chain [.rule .macroTag, .many (.rule .macroContent),
      .rule .endmacroTag]
  | .filterSectionContent => oneOf [.includeTag, .variableTag, .commentTag, .setTag,
      .setGlobalTag, .block, .forloop, .filterSectionIf, .raw, .filterSection, .text]
  | .macroContent => oneOf [.includeTag, .variableTag, .commentTag, .setTag, .setGlobalTag,
      .macroIf, .forloop, .filterSection, .raw, .text]
  | .blockContent => oneOf [.includeTag, .superTag, .variableTag, .commentTag, .setTag,
      .setGlobalTag, .block, .blockIf, .forloop, .filterSection, .raw, .text]
  | .forContent => oneOf [.includeTag, .variableTag, .commentTag, .setTag, .setGlobalTag,
      .forIf, .forloop, .breakTag, .continueTag, .filterSection, .raw, .text]
  | .content => oneOf [.includeTag, .variableTag, .commentTag, .setTag, .setGlobalTag, .block,
      .contentIf, .forloop, .filterSection, .raw, .text]
  | .extendsTag => chain [spaces, controlTag [lit "extends", someSpaces, .rule .string], spaces]
  | .importMacroTag => chain [spaces, controlTag [lit "import", someSpaces, .rule .string,
      someSpaces, lit "as", someSpaces, .rule .ident], spaces]
  | .topImports => choice
      [chain [.rule .extendsTag, .many (.rule .importMacroTag)],
       chain [repeated (.rule .importMacroTag), .optional (.rule .extendsTag)]]
  | .template => chain [.startOfText, .many (.rule .commentTag), .optional (.rule .topImports),
      .many (oneOf [.content, .macroDefinition]), .rule .endOfInput]
  | .endOfInput => .endOfText

/-- The mode of every rule. -/
def mode : Rule → Mode
  | .int | .float | .doubleQuoted | .singleQuoted | .backQuoted | .string | .ident
  | .dottedIdent | .squareBrackets | .path | .opOr | .opAnd | .opNot
  | .filterSectionContent | .macroContent | .blockContent | .forContent | .content => .atomic
  | .basicVal | .basicOp | .comparisonOp | .kwargs | .macroDefArgs | .macroFn | .testArgs
  | .blockStart | .topImports => .silent
  | .basicExprFilter | .stringExprFilter | .inCond | .logicVal | .logicExpr | .array
  | .arrayFilter | .stringArray | .fnCall | .macroFnWrapper | .testCall
  | .elseTag | .endblockTag | .endmacroTag | .endifTag | .endforTag | .endfilterTag
  | .breakTag | .continueTag | .variableTag | .superTag | .rawTag | .endrawTag => .free
  | .macroDefArg | .commentText | .includeTag | .commentTag | .blockTag | .macroTag | .ifTag
  | .elifTag | .forTag | .filterTag | .setTag | .setGlobalTag | .text | .rawText | .raw
  | .filterSection | .forloop | .macroIf | .blockIf | .forIf | .filterSectionIf | .contentIf
  | .block | .macroDefinition | .extendsTag | .importMacroTag | .template => .compound
  | _ => .inherit

/-- The grammar of the template language. -/
def grammar : Grammar Rule := ⟨body, mode⟩

/-- The tree of a template, or the place at which its text goes wrong. -/
def parse (text : List Char) : Except Nat (Tree Rule) := grammar.parse 1500 .template text

end Stencil.Language
