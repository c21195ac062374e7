/-! Node kinds of the script grammar: one constructor for each named rule, and one for all tokens. -/
namespace InjectionScan.Syntax

/-- What a named node stands for. -/
inductive Rule where
  | program
  | hashBangLine
  | exportStatement
  | namespaceExport
  | exportClause
  | exportSpecifier
  | importKeyword
  | importStatement
  | importClause
  | namespaceImport
  | namedImports
  | importSpecifier
  | importAttribute
  | debuggerStatement
  | expressionStatement
  | variableDeclaration
  | lexicalDeclaration
  | variableDeclarator
  | statementBlock
  | elseClause
  | ifStatement
  | switchStatement
  | forStatement
  | forInStatement
  | whileStatement
  | doStatement
  | tryStatement
  | withStatement
  | breakStatement
  | continueStatement
  | returnStatement
  | throwStatement
  | emptyStatement
  | labeledStatement
  | switchBody
  | switchCase
  | switchDefault
  | catchClause
  | finallyClause
  | parenthesizedExpression
  | yieldExpression
  | objectLiteral
  | objectPattern
  | assignmentPattern
  | objectAssignmentPattern
  | arrayLiteral
  | arrayPattern
  | jsxElement
  | jsxText
  | htmlCharacterReference
  | jsxExpression
  | jsxOpeningElement
  | jsxNamespaceName
  | jsxClosingElement
  | jsxSelfClosingElement
  | jsxAttribute
  | classExpression
  | classDeclaration
  | classHeritage
  | functionExpression
  | functionDeclaration
  | generatorFunction
  | generatorFunctionDeclaration
  | arrowFunction
  | optionalChain
  | callExpression
  | newExpression
  | awaitExpression
  | memberExpression
  | subscriptExpression
  | assignmentExpression
  | augmentedAssignmentExpression
  | spreadElement
  | ternaryExpression
  | binaryExpression
  | unaryExpression
  | updateExpression
  | sequenceExpression
  | stringLiteral
  | stringFragment
  | escapeSequence
  | comment
  | htmlComment
  | templateString
  | templateSubstitution
  | regexLiteral
  | regexPattern
  | regexFlags
  | numberLiteral
  | identifier
  | privatePropertyIdentifier
  | propertyIdentifier
  | shorthandPropertyIdentifier
  | shorthandPropertyIdentifierPattern
  | statementIdentifier
  | metaProperty
  | thisKeyword
  | superKeyword
  | trueLiteral
  | falseLiteral
  | nullLiteral
  | undefinedLiteral
  | argumentList
  | decorator
  | classBody
  | fieldDefinition
  | formalParameters
  | classStaticBlock
  | restPattern
  | methodDefinition
  | pair
  | pairPattern
  | computedPropertyName
  | error
deriving DecidableEq, Repr

/-- The grammar's own word for a rule. -/
def Rule.name : Rule → String
  | .program => "program"
  | .hashBangLine => "hash_bang_line"
  | .exportStatement => "export_statement"
  | .namespaceExport => "namespace_export"
  | .exportClause => "export_clause"
  | .exportSpecifier => "export_specifier"
  | .importKeyword => "import"
  | .importStatement => "import_statement"
  | .importClause => "import_clause"
  | .namespaceImport => "namespace_import"
  | .namedImports => "named_imports"
  | .importSpecifier => "import_specifier"
  | .importAttribute => "import_attribute"
  | .debuggerStatement => "debugger_statement"
  | .expressionStatement => "expression_statement"
  | .variableDeclaration => "variable_declaration"
  | .lexicalDeclaration => "lexical_declaration"
  | .variableDeclarator => "variable_declarator"
  | .statementBlock => "statement_block"
  | .elseClause => "else_clause"
  | .ifStatement => "if_statement"
  | .switchStatement => "switch_statement"
  | .forStatement => "for_statement"
  | .forInStatement => "for_in_statement"
  | .whileStatement => "while_statement"
  | .doStatement => "do_statement"
  | .tryStatement => "try_statement"
  | .withStatement => "with_statement"
  | .breakStatement => "break_statement"
  | .continueStatement => "continue_statement"
  | .returnStatement => "return_statement"
  | .throwStatement => "throw_statement"
  | .emptyStatement => "empty_statement"
  | .labeledStatement => "labeled_statement"
  | .switchBody => "switch_body"
  | .switchCase => "switch_case"
  | .switchDefault => "switch_default"
  | .catchClause => "catch_clause"
  | .finallyClause => "finally_clause"
  | .parenthesizedExpression => "parenthesized_expression"
  | .yieldExpression => "yield_expression"
  | .objectLiteral => "object"
  | .objectPattern => "object_pattern"
  | .assignmentPattern => "assignment_pattern"
  | .objectAssignmentPattern => "object_assignment_pattern"
  | .arrayLiteral => "array"
  | .arrayPattern => "array_pattern"
  | .jsxElement => "jsx_element"
  | .jsxText => "jsx_text"
  | .htmlCharacterReference => "html_character_reference"
  | .jsxExpression => "jsx_expression"
  | .jsxOpeningElement => "jsx_opening_element"
  | .jsxNamespaceName => "jsx_namespace_name"
  | .jsxClosingElement => "jsx_closing_element"
  | .jsxSelfClosingElement => "jsx_self_closing_element"
  | .jsxAttribute => "jsx_attribute"
  | .classExpression => "class"
  | .classDeclaration => "class_declaration"
  | .classHeritage => "class_heritage"
  | .functionExpression => "function_expression"
  | .functionDeclaration => "function_declaration"
  | .generatorFunction => "generator_function"
  | .generatorFunctionDeclaration => "generator_function_declaration"
  | .arrowFunction => "arrow_function"
  | .optionalChain => "optional_chain"
  | .callExpression => "call_expression"
  | .newExpression => "new_expression"
  | .awaitExpression => "await_expression"
  | .memberExpression => "member_expression"
  | .subscriptExpression => "subscript_expression"
  | .assignmentExpression => "assignment_expression"
  | .augmentedAssignmentExpression => "augmented_assignment_expression"
  | .spreadElement => "spread_element"
  | .ternaryExpression => "ternary_expression"
  | .binaryExpression => "binary_expression"
  | .unaryExpression => "unary_expression"
  | .updateExpression => "update_expression"
  | .sequenceExpression => "sequence_expression"
  | .stringLiteral => "string"
  | .stringFragment => "string_fragment"
  | .escapeSequence => "escape_sequence"
  | .comment => "comment"
  | .htmlComment => "html_comment"
  | .templateString => "template_string"
  | .templateSubstitution => "template_substitution"
  | .regexLiteral => "regex"
  | .regexPattern => "regex_pattern"
  | .regexFlags => "regex_flags"
  | .numberLiteral => "number"
  | .identifier => "identifier"
  | .privatePropertyIdentifier => "private_property_identifier"
  | .propertyIdentifier => "property_identifier"
  | .shorthandPropertyIdentifier => "shorthand_property_identifier"
  | .shorthandPropertyIdentifierPattern => "shorthand_property_identifier_pattern"
  | .statementIdentifier => "statement_identifier"
  | .metaProperty => "meta_property"
  | .thisKeyword => "this"
  | .superKeyword => "super"
  | .trueLiteral => "true"
  | .falseLiteral => "false"
  | .nullLiteral => "null"
  | .undefinedLiteral => "undefined"
  | .argumentList => "arguments"
  | .decorator => "decorator"
  | .classBody => "class_body"
  | .fieldDefinition => "field_definition"
  | .formalParameters => "formal_parameters"
  | .classStaticBlock => "class_static_block"
  | .restPattern => "rest_pattern"
  | .methodDefinition => "method_definition"
  | .pair => "pair"
  | .pairPattern => "pair_pattern"
  | .computedPropertyName => "computed_property_name"
  | .error => "ERROR"

/-- A node is made by a rule of the grammar, or it is a keyword, operator or bracket as written. -/
inductive Kind where
  | rule (r : Rule)
  | token (text : String)
deriving DecidableEq, Repr

namespace Kind

def name : Kind → String
  | .rule r => r.name
  | .token text => text

def isNamed : Kind → Bool
  | .rule _ => true
  | .token _ => false

/-- Comments may stand between any two tokens and belong to no rule. -/
def isComment : Kind → Bool
  | .rule .comment | .rule .htmlComment => true
  | _ => false

end Kind

end InjectionScan.Syntax
