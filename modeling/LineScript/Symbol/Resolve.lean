import LineScript.Symbol.Table

/-! Call paths. `NAME` is a function of the table; `GROUP.NAME` is a member of a group of the table
or, where the table has no such name, a member of a variable's value. -/
namespace LineScript

def Value.reachable? : Value → Except HostFault (Option (Bindings Value))
  | .object o => o.api.map some
  | v => .ok v.members?

def Value.isCallable : Value → Bool
  | .builtin _ => true
  | .function _ => true
  | _ => false

namespace SymbolTable

def resolveMember (path member : String) (holder : Option Value) : Except Failure (Builtin Value) :=
  match holder with
  | none => .error (.path (.malformed path))
  | some value =>
    match value.reachable? with
    | .error fault => .error (.raised fault)
    | .ok none => .error (.path (.malformed path))
    | .ok (some members) =>
      match members.get? member with
      | none => .error (.path (.noMethod member))
      | some .nil => .error (.path (.noMethod member))
      | some target =>
        if target.isCallable then Builtin.wrap path target else .error (.path (.notFunction path))

def resolve (t : SymbolTable) (path : String) (shown : String → Option Value) :
    Except Failure (Builtin Value) :=
  match splitWhere (· = '.') path.toList with
  | [_ :: _] =>
    match t.entries.get? path with
    | none => .error (.path (.noSymbol path))
    | some (.builtin function) => .ok function
    | some (.group _) => .error (.path (.notFunction path))
  | [g :: gs, m :: ms] =>
    let group := String.ofList (g :: gs)
    let member := String.ofList (m :: ms)
    match t.entries.get? group with
    | some (.builtin _) => .error (.path (.malformed path))
    | some (.group members) =>
      match members.get? member with
      | some function => .ok function
      | none => .error (.path (.noMethod member))
    | none => resolveMember path member (shown group)
  | _ => .error (.path (.malformed path))

end SymbolTable
end LineScript
