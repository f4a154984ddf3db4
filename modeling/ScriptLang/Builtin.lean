/-! The functions every program starts with. -/
namespace ScriptLang

inductive Builtin where
  | print | printRet | input | inputInt | clear
  | isNumber | isString | isList | isFunction
  | append | pop | extend | len | run
  deriving DecidableEq

namespace Builtin

def name : Builtin → String
  | print => "print"
  | printRet => "print_ret"
  | input => "input"
  | inputInt => "input_int"
  | clear => "clear"
  | isNumber => "is_number"
  | isString => "is_string"
  | isList => "is_list"
  | isFunction => "is_function"
  | append => "append"
  | pop => "pop"
  | extend => "extend"
  | len => "len"
  | run => "run"

def params : Builtin → List String
  | print | printRet | isNumber | isString | isList | isFunction => ["value"]
  | input | inputInt | clear => []
  | append => ["list", "value"]
  | pop => ["list", "index"]
  | extend => ["first_list", "second_list"]
  | len => ["list"]
  | run => ["fn"]

/-- Those that leave a changed list in the variable given as their first argument. -/
def mutates : Builtin → Bool
  | append | pop | extend => true
  | _ => false

def globals : List (String × Builtin) :=
  [("PRINT", print), ("PRINT_RET", printRet), ("INPUT", input), ("INPUT_INT", inputInt),
    ("CLEAR", clear), ("CLS", clear), ("IS_NUM", isNumber), ("IS_STR", isString),
    ("IS_LIST", isList), ("IS_FUN", isFunction), ("APPEND", append), ("POP", pop),
    ("EXTEND", extend), ("LEN", len), ("RUN", run)]

end Builtin

end ScriptLang
