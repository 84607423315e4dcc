/-
The rules of the template language.

Templates are text with tags: `{{ … }}` prints a value, `{% … %}` controls what is printed and
`{# … #}` is a comment.  The rules below give the language from its tokens up to a whole
template.
-/
import Stencil.Grammar.Basic

namespace Stencil.Language

/-- The names of the rules. -/
inductive Rule where
  -- Literals and names
  | int | float | doubleQuoted | singleQuoted | backQuoted | string | boolean
  | ident | dottedIdent | squareBrackets | path
  -- Operators
  | opOr | opAnd | opNot | opLte | opGte | opLt | opGt | opEq | opIneq
  | opPlus | opMinus | opTimes | opSlash | opModulo
  -- Expressions
  | stringConcat | basicVal | basicOp | basicExpr | basicExprFilter | stringExprFilter
  | comparisonVal | comparisonOp | comparisonExpr | inCondContainer | inCond
  | logicVal | logicExpr | array | arrayFilter | stringArray
  -- Calls
  | kwarg | kwargs | fnCall | filter | macroDefArg | macroDefArgs | macroFn | macroFnWrapper
  | macroCall | testArg | testArgs | testCall | testNot | test
  -- Delimiters
  | variableStart | variableEnd | tagStart | tagEnd | commentStart | commentEnd | blockStart
  -- Tags
  | commentText | ignoreMissing | includeTag | commentTag | blockTag | macroTag | ifTag | elifTag
  | elseTag | forTag | filterTag | setTag | setGlobalTag | endblockTag | endmacroTag | endifTag
  | endforTag | endfilterTag | breakTag | continueTag | variableTag | superTag
  -- Text
  | text | rawTag | endrawTag | rawText | raw
  -- Compounds
  | filterSection | forloop | macroIf | blockIf | forIf | filterSectionIf | contentIf | block
  | macroDefinition | filterSectionContent | macroContent | blockContent | forContent | content
  -- Templates
  | extendsTag | importMacroTag | topImports | template | endOfInput
deriving DecidableEq, Repr, Inhabited

end Stencil.Language
