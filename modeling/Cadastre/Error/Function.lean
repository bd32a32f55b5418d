/-
# Errors of functions

Why a function is refused when it is declared, registered, called, stored or
loaded.

Key definitions: `FunctionError`, `FunctionError.message`,
`FunctionError.diagnostic`.
-/
import Cadastre.ColumnType
import Cadastre.Diagnostic

namespace Cadastre

/-- Why a function is refused. -/
inductive FunctionError where
  | batchReturnNotBatched (function : String)
  | batchWithoutBatchedParameter (function : String)
  | batchedParameterWithoutBatchSize (function parameter : String)
  | invalidBatchSize (function : String)
  | methodAndProperty (function : String)
  | propertyArity (function : String) (count : Nat)
  | methodWithoutPath (function : String)
  | substitutionWithoutPath (function : String)
  | substitutionWithBatching (function : String)
  | substitutionWithMethod (function : String)
  | emptySubstitutions (function : String)
  | substituteWithoutPath (function : String)
  | invalidSymbolPath (path : String)
  | unspecifiedType (function parameter : String)
  | unboundTypeVariable (function name : String)
  | parameterTypesArity (function : String) (expected actual : Nat)
  | invalidParameterType (function parameter : String)
  | duplicateParameter (function parameter : String)
  | batchedTemplate (function : String)
  | untypedTemplate (function : String)
  | notPersistable (function : String)
  | unresolvedSymbol (path : String)
  | noMatchingOverload (function : String) (args : List ColumnType)
  | unknownOverload (function : String) (index : Nat)
  | registryConflict (path : String)
  | batchResultLength (function : String) (expected actual : Nat)
  | notCallable (function : String)
  | malformedRecord (reason : String)
  deriving DecidableEq, Repr

namespace FunctionError

/-- A name in the quotes of the messages. -/
def ticked (s : String) : String := "`" ++ s ++ "`"

def message : FunctionError → String
  | batchReturnNotBatched f => f ++ "(): batch_size is specified; the return type must be batched"
  | batchWithoutBatchedParameter f =>
    f ++ "(): batch_size is specified; at least one parameter must be batched"
  | batchedParameterWithoutBatchSize f p =>
    f ++ "(): parameter " ++ ticked p ++ " is batched, but no batch_size is given"
  | invalidBatchSize f => f ++ "(): batch_size must be positive"
  | methodAndProperty f => "cannot declare " ++ ticked f ++ " as both method and property"
  | propertyArity f count =>
    "a property expects exactly 1 parameter, but " ++ ticked f ++ " has " ++ toString count
  | methodWithoutPath f =>
    ticked f ++ " has no symbol path and cannot be declared as method or property"
  | substitutionWithoutPath f =>
    f ++ "(): type substitutions require a function with a symbol path"
  | substitutionWithBatching f =>
    f ++ "(): type substitutions cannot be used with batched functions"
  | substitutionWithMethod f =>
    f ++ "(): type substitutions cannot be used with methods or properties"
  | emptySubstitutions f => f ++ "(): the list of type substitutions is empty"
  | substituteWithoutPath f =>
    f ++ "(): a substitute implementation requires a function with a symbol path"
  | invalidSymbolPath path => "invalid symbol path: " ++ ticked path
  | unspecifiedType f p => f ++ "(): no type given for " ++ ticked p
  | unboundTypeVariable f v => f ++ "(): type variable " ++ ticked v ++ " has no substitution"
  | parameterTypesArity f expected actual =>
    f ++ "(): expected " ++ toString expected ++ " explicit parameter types, got " ++
      toString actual
  | invalidParameterType f p => f ++ "(): parameter " ++ ticked p ++ " has the invalid type"
  | duplicateParameter f p => f ++ "(): duplicate parameter " ++ ticked p
  | batchedTemplate f => f ++ "(): expression templates cannot have batched parameters"
  | untypedTemplate f => f ++ "(): the template expression has no valid type"
  | notPersistable f => ticked f ++ " cannot be persisted: its callable has no stored body"
  | unresolvedSymbol path => "no function is registered under " ++ ticked path
  | noMatchingOverload f args =>
    "no overload of " ++ f ++ " accepts (" ++
      String.intercalate ", " (args.map ColumnType.display) ++ ")"
  | unknownOverload f index => f ++ "(): overload " ++ toString index ++ " does not exist"
  | registryConflict path => ticked path ++ " is already bound to a different function"
  | batchResultLength f expected actual =>
    f ++ "(): expected " ++ toString expected ++ " batch results, got " ++ toString actual
  | notCallable f =>
    f ++ "() is an expression template and is evaluated by the expression evaluator"
  | malformedRecord reason => "malformed function record: " ++ reason

def diagnostic (e : FunctionError) : Diagnostic :=
  match e with
  | batchReturnNotBatched _ =>
    (Diagnostic.plain "DEFINITION_001" e.message).withHelp "declare the return type as a batch"
  | batchWithoutBatchedParameter _ =>
    (Diagnostic.plain "DEFINITION_002" e.message).withHelp
      "declare at least one parameter as a batch"
  | batchedParameterWithoutBatchSize .. =>
    (Diagnostic.plain "DEFINITION_003" e.message).withHelp "specify a batch_size"
  | invalidBatchSize _ => Diagnostic.plain "DEFINITION_004" e.message
  | methodAndProperty _ =>
    (Diagnostic.plain "DEFINITION_005" e.message).withLabel "conflicting options"
  | propertyArity .. => Diagnostic.plain "DEFINITION_006" e.message
  | methodWithoutPath _ =>
    (Diagnostic.plain "DEFINITION_007" e.message).withNote
      "stored functions cannot be declared as method or property"
  | substitutionWithoutPath _ =>
    (Diagnostic.plain "DEFINITION_008" e.message).withNote
      "locally defined functions cannot use type substitutions"
  | substitutionWithBatching _ => Diagnostic.plain "DEFINITION_009" e.message
  | substitutionWithMethod _ => Diagnostic.plain "DEFINITION_010" e.message
  | emptySubstitutions _ =>
    (Diagnostic.plain "DEFINITION_011" e.message).withLabel "invalid overload set"
  | substituteWithoutPath _ => Diagnostic.plain "DEFINITION_012" e.message
  | invalidSymbolPath _ =>
    (Diagnostic.plain "DEFINITION_013" e.message).withHelp
      "a symbol path is a dot-separated list of identifiers"
  | unspecifiedType .. =>
    (Diagnostic.plain "DEFINITION_014" e.message).withHelp
      "annotate the parameter or pass explicit parameter types"
  | unboundTypeVariable .. => Diagnostic.plain "DEFINITION_015" e.message
  | parameterTypesArity .. => Diagnostic.plain "DEFINITION_016" e.message
  | invalidParameterType .. => Diagnostic.plain "DEFINITION_017" e.message
  | duplicateParameter .. => Diagnostic.plain "DEFINITION_018" e.message
  | batchedTemplate _ => Diagnostic.plain "DEFINITION_019" e.message
  | untypedTemplate _ => Diagnostic.plain "DEFINITION_020" e.message
  | notPersistable _ =>
    (Diagnostic.plain "DEFINITION_021" e.message).withNote
      "bodies of opaque callables are not relocatable across runtime versions"
  | unresolvedSymbol _ => (Diagnostic.plain "DEFINITION_022" e.message).withLabel "unknown function"
  | noMatchingOverload .. =>
    (Diagnostic.plain "TYPE_010" e.message).withLabel "no matching signature"
  | unknownOverload .. => Diagnostic.plain "TYPE_011" e.message
  | registryConflict _ =>
    (Diagnostic.plain "REGISTRY_001" e.message).withHelp
      "register the function under a different path"
  | batchResultLength .. => Diagnostic.plain "EXECUTION_001" e.message
  | notCallable _ => Diagnostic.plain "EXECUTION_002" e.message
  | malformedRecord _ => Diagnostic.plain "METADATA_010" e.message

end FunctionError
end Cadastre
