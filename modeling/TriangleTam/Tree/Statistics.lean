import TriangleTam.Tree
import TriangleTam.Text.Line

/-! # Statistics of a tree

  How many nodes of each family a program has. A parameter counts once as a
  parameter and again as the expression, name or type it holds.
-/

namespace TriangleTam

/-- How many nodes there are of each family. -/
structure Statistics where
  commands     : Nat := 0
  expressions  : Nat := 0
  declarations : Nat := 0
  vnames       : Nat := 0
  parameters   : Nat := 0
  types        : Nat := 0
  deriving DecidableEq, Repr

namespace Statistics

instance : Add Statistics where
  add a b :=
    { commands := a.commands + b.commands
      expressions := a.expressions + b.expressions
      declarations := a.declarations + b.declarations
      vnames := a.vnames + b.vnames
      parameters := a.parameters + b.parameters
      types := a.types + b.types }

def aCommand : Statistics := { commands := 1 }

def anExpression : Statistics := { expressions := 1 }

def aDeclaration : Statistics := { declarations := 1 }

def aVname : Statistics := { vnames := 1 }

def aParameter : Statistics := { parameters := 1 }

def aType : Statistics := { types := 1 }

/-- One line for each family. -/
def text (s : Statistics) : String :=
  let line (family : String) (count : Nat) := Text.padRight 15 family ++ Numeral.ofNat count
  String.intercalate "\n"
    [line "commands:" s.commands, line "expressions:" s.expressions,
     line "declarations:" s.declarations, line "vnames:" s.vnames,
     line "parameters:" s.parameters, line "type denoters:" s.types]

end Statistics

open Statistics

/-! ## Counting -/

mutual

def TypeDenoter.statistics : TypeDenoter → Statistics
  | .array _ _ _ element => aType + element.statistics
  | .record _ _ fields => aType + fields.statistics
  | _ => aType

def Fields.statistics : Fields → Statistics
  | .one _ _ type => type.statistics
  | .more _ _ type rest => type.statistics + rest.statistics

end

mutual

def Formal.statistics : Formal → Statistics
  | .const _ _ _ type | .var _ _ _ type => aParameter + type.statistics
  | .proc _ _ _ inner => aParameter + inner.statistics
  | .func _ _ _ inner result => aParameter + inner.statistics + result.statistics

def Formals.statistics : Formals → Statistics
  | .empty _ => {}
  | .one _ formal => formal.statistics
  | .more _ formal rest => formal.statistics + rest.statistics

end

mutual

def Command.statistics : Command → Statistics
  | .empty _ => aCommand
  | .assign _ target value => aCommand + target.statistics + value.statistics
  | .call _ _ args => aCommand + args.statistics
  | .sequence _ first second => aCommand + first.statistics + second.statistics
  | .letIn _ declared body => aCommand + declared.statistics + body.statistics
  | .ifElse _ condition thenBranch elseBranch =>
    aCommand + condition.statistics + thenBranch.statistics + elseBranch.statistics
  | .whileDo _ condition body => aCommand + condition.statistics + body.statistics
  | .repeatUntil _ body condition => aCommand + body.statistics + condition.statistics
  | .loopWhile _ body condition tail =>
    aCommand + body.statistics + condition.statistics + tail.statistics

def Expression.statistics : Expression → Statistics
  | .integer .. | .character .. => anExpression
  | .vname _ _ found => anExpression + found.statistics
  | .call _ _ _ args => anExpression + args.statistics
  | .ifElse _ _ condition thenBranch elseBranch =>
    anExpression + condition.statistics + thenBranch.statistics + elseBranch.statistics
  | .letIn _ _ declared body => anExpression + declared.statistics + body.statistics
  | .unary _ _ _ operand => anExpression + operand.statistics
  | .binary _ _ left _ right => anExpression + left.statistics + right.statistics
  | .array _ _ elements => anExpression + elements.statistics
  | .record _ _ fields => anExpression + fields.statistics

def ArrayAggregate.statistics : ArrayAggregate → Statistics
  | .one _ element => element.statistics
  | .more _ element rest => element.statistics + rest.statistics

def RecordAggregate.statistics : RecordAggregate → Statistics
  | .one _ _ value => value.statistics
  | .more _ _ value rest => value.statistics + rest.statistics

def Vname.statistics : Vname → Statistics
  | .simple .. => aVname
  | .dot _ _ _ record _ => aVname + record.statistics
  | .subscript _ _ _ array index => aVname + array.statistics + index.statistics

def Declaration.statistics : Declaration → Statistics
  | .const _ _ _ value => aDeclaration + value.statistics
  | .var _ _ _ type | .type _ _ _ type => aDeclaration + type.statistics
  | .proc _ _ _ parameters body => aDeclaration + parameters.statistics + body.statistics
  | .func _ _ _ parameters result body =>
    aDeclaration + parameters.statistics + result.statistics + body.statistics
  | .sequence _ first second => aDeclaration + first.statistics + second.statistics

def Actuals.statistics : Actuals → Statistics
  | .empty _ => {}
  | .one _ actual => actual.statistics
  | .more _ actual rest => actual.statistics + rest.statistics

def Actual.statistics : Actual → Statistics
  | .const _ value => aParameter + value.statistics
  | .var _ found => aParameter + found.statistics
  | .proc .. | .func .. => aParameter

end

def Program.statistics (program : Program) : Statistics := program.command.statistics

end TriangleTam
