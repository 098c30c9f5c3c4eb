import OpcodeDispatch.Fault

/-!
Arms: the generated code of one opcode, and the line it is written as.
-/

namespace OpcodeDispatch

inductive ArmKind where
  | code | undefined | diagnostic
  deriving DecidableEq

structure Arm where
  opcode : Opcode
  kind : ArmKind
  statements : List String
  /-- a call whose result is added to the cost -/
  branch : Option String
  cost : String
  deriving DecidableEq

namespace Arm

/-- The arm of an opcode that no instruction has. -/
def undefined (op : Opcode) : Arm :=
  ⟨op, .undefined, ["self.undefined_op(opcode);"], none, "1"⟩

/-- Stands for a record that cannot be compiled and keeps the interpreter from building. -/
def diagnostic (op : Opcode) (fault : Fault) (cost : Option String) : Arm :=
  ⟨op, .diagnostic, ["compile_error!(" ++ Quoted.quote fault.message ++ ");"], none, cost.getD "0"⟩

def renderBranch : Option String → String
  | none => ""
  | some call => call ++ " as u8 + "

def render (a : Arm) : String :=
  a.opcode.render ++ " => \x7b " ++ String.join (a.statements.map (· ++ " ")) ++
    renderBranch a.branch ++ a.cost ++ " \x7d,"

end Arm
end OpcodeDispatch
