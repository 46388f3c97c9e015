import SinFrontend.CompileError
import SinFrontend.Statement

/-!
# Returning on every path

A function must return on every path through its body. The check reads the text alone, and of a
block only whether a return stands directly in it and how its last statement ends:

* a block returns if it holds a return, or if its last statement is an `if` with `else` or a
  scoped block that returns, or a `while` whose branch returns;
* an `if` returns if it has an `else` and both branches return;
* a body that ends in an `if` that does not return is an error of its own.
-/

namespace SinFrontend

mutual

/-- Whether a statement returns when it stands as a branch. A loop does not. -/
def Statement.returns : Statement → Bool
  | ⟨.returnValue _, _⟩ => true
  | ⟨.scopedBlock block, _⟩ => block.returns
  | ⟨.ifElse _ branch otherwise, _⟩ => branch.returns && otherwise.returns
  | _ => false
termination_by structural statement => statement

/-- Whether a nested block returns on every path. -/
def Block.returns : Block → Bool
  | ⟨statements, hasReturn⟩ => hasReturn || Statement.lastReturns statements
termination_by structural block => block

/-- Whether the last of a list of statements makes the block that it ends return. Here a loop
counts as its branch does. -/
def Statement.lastReturns : List Statement → Bool
  | [] => false
  | [⟨.ifElse _ branch otherwise, _⟩] => branch.returns && otherwise.returns
  | [⟨.scopedBlock block, _⟩] => block.returns
  | [⟨.whileLoop _ branch, _⟩] => branch.returns
  | [_] => false
  | _ :: rest => Statement.lastReturns rest
termination_by structural statements => statements

end

/-- Whether an `if` returns that has these branches. -/
def Statement.branchesReturn (branch : Statement) (otherwise : Option Statement) : Bool :=
  branch.returns && otherwise.any Statement.returns

/-- Whether the body of a function returns on every path. A body whose last statement is an `if`
must return there. -/
def Block.bodyReturns (body : Block) : Except CompileError Bool :=
  if body.hasReturn then .ok true
  else
    match body.statements.getLast? with
    | some ⟨.ifThen .., line⟩ => .error ⟨.noReturn, line⟩
    | some ⟨.ifElse _ branch otherwise, line⟩ =>
      if branch.returns && otherwise.returns then .ok true else .error ⟨.noReturn, line⟩
    | some ⟨.whileLoop _ branch, _⟩ => .ok branch.returns
    | _ => .ok false

end SinFrontend
