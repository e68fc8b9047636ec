import ShapeCheck.Position
import ShapeCheck.Text.Quoted
import ShapeCheck.Ty.Printer

/-!
# Errors

An error is a cause and the place it is reported at. Its wording is here and nowhere else: `name`
is the heading, `message` states the cause, and `tip`, where there is one, says what to do about it.
-/

namespace ShapeCheck

inductive Cause where
  | unrecognisedToken (token : String)
  | unexpectedToken (token : String)
  | unexpectedTokenDetailed (token message : String)
  | invalidNumber (token : String)
  | alreadyDeclared (name : String)
  | unknownName (name : String)
  | valueExpected (found : Ty)
  | variableMismatch (name : String) (expected received : Ty)
  | argumentMismatch (expected received : List Ty)
  | emptyBlock
  | notCallable (callee : Ty)
  | missingEntry (record : Ty) (entry : String)
  | notRecord (accessed : Ty)
  | nestedExport
  | invalidImportPath (path : String)
  | fileNotFound
  | unparsableImport (path : String)
  | cyclicImport (path : String)
  | nestingTooDeep (limit : Nat)
deriving Inhabited

structure Error where
  cause : Cause
  position : Position
deriving Inhabited

namespace Cause

open Text (quoted)

def name : Cause → String
  | unrecognisedToken _ => "UnrecognisedToken"
  | unexpectedToken _ => "UnexpectedToken"
  | unexpectedTokenDetailed _ _ => "UnexpectedTokenDetailed"
  | invalidNumber _ => "NumberParseError"
  | alreadyDeclared _ => "IdentifierAlreadyDeclaredInThisScope"
  | unknownName _ => "UnknownIdentifier"
  | valueExpected _ => "ExpressionWithoutValueUsedAsValue"
  | variableMismatch _ _ _ => "VariableTypeMismatch"
  | argumentMismatch _ _ => "FunctionParametersMismatch"
  | emptyBlock => "EmptyBlock"
  | notCallable _ => "CallingNonCallableExpression"
  | missingEntry _ _ => "EntryDoesNotExistOnRecord"
  | notRecord _ => "AccessingNonRecord"
  | nestedExport => "NestedExport"
  | invalidImportPath _ => "InvalidImportPath"
  | fileNotFound => "FileNotFound"
  | unparsableImport _ => "ImportedFileUnparsable"
  | cyclicImport _ => "CyclicImport"
  | nestingTooDeep _ => "NestingTooDeep"

def message : Cause → String
  | unrecognisedToken token => "unrecognised token: " ++ quoted token
  | unexpectedToken token => "unexpected token: " ++ quoted token
  | unexpectedTokenDetailed token message =>
    "unexpected token (" ++ quoted message ++ "): " ++ quoted token
  | invalidNumber token => "error parsing number: " ++ quoted token
  | alreadyDeclared name => "identifier " ++ quoted name ++ " already declared in this scope"
  | unknownName name => "unknown identifier " ++ quoted name
  | valueExpected found =>
    "expression of type `" ++ found.render ++ "` has no value but is used as a value"
  | variableMismatch name expected received =>
    "variable " ++ quoted name ++ " expects `" ++ expected.render ++ "`, received `" ++
      received.render ++ "`"
  | argumentMismatch expected received =>
    "function parameters do not match: expected (" ++ Ty.renderAll expected ++
      "), received (" ++ Ty.renderAll received ++ ")"
  | emptyBlock => "empty block"
  | notCallable callee => "calling non-callable expression of type `" ++ callee.render ++ "`"
  | missingEntry record entry =>
    "entry " ++ quoted entry ++ " does not exist on record `" ++ record.render ++ "`"
  | notRecord accessed => "accessing an entry of non-record type `" ++ accessed.render ++ "`"
  | nestedExport => "exports must be declared at the root of a file"
  | invalidImportPath path => "invalid import path " ++ quoted path
  | fileNotFound => "imported file not found"
  | unparsableImport path => "imported file " ++ quoted path ++ " could not be parsed"
  | cyclicImport path => "cyclic import of " ++ quoted path
  | nestingTooDeep limit => "nesting deeper than " ++ Nat.repr limit ++ " levels"

def tip : Cause → Option String
  | unrecognisedToken _ => none
  | unexpectedToken token => some ("Unexpected token: `" ++ token ++ "`")
  | unexpectedTokenDetailed token message =>
    some ("Unexpected token: `" ++ token ++ "`, " ++ message)
  | invalidNumber token => some ("Invalid number: `" ++ token ++ "`")
  | alreadyDeclared name =>
    some ("`" ++ name ++
      "` is already declared in this scope, declare it in a nested block to shadow it")
  | unknownName name => some ("`" ++ name ++ "` is not declared in any enclosing scope")
  | valueExpected found =>
    some ("`" ++ found.render ++ "` only describes a type, assign it a value before using it")
  | variableMismatch name expected received =>
    some ("`" ++ name ++ "` expects `" ++ expected.render ++ "`, received `" ++
      received.render ++ "`")
  | argumentMismatch expected received =>
    some ("Expected arguments `(" ++ Ty.renderAll expected ++ ")`, received `(" ++
      Ty.renderAll received ++ ")`")
  | emptyBlock => some "Blocks need at least one statement"
  | notCallable callee => some ("`" ++ callee.render ++ "` is not a function")
  | missingEntry record entry => some ("`" ++ record.render ++ "` has no entry `" ++ entry ++ "`")
  | notRecord accessed => some ("`" ++ accessed.render ++ "` is not a record")
  | nestedExport => some "Exports are only allowed at the root of a file"
  | invalidImportPath path =>
    some ("`" ++ path ++ "` must start with `./` or `../` and stay inside the project")
  | fileNotFound => none
  | unparsableImport path => some ("Fix the syntax errors reported in `" ++ path ++ "` first")
  | cyclicImport path =>
    some ("`" ++ path ++ "` is already being checked further up the import chain")
  | nestingTooDeep limit => some ("Nesting is limited to " ++ Nat.repr limit ++ " levels")

def headline (cause : Cause) : String :=
  "Error: " ++ cause.name ++ " (" ++ cause.tip.getD cause.message ++ ")"

end Cause

end ShapeCheck
