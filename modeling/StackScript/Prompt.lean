import StackScript.Code.Compile
import StackScript.Machine.Wide.Load
import StackScript.Machine.Wide.Run

/-!
# The prompt

At the prompt every line is compiled by itself and run on one extended machine, which keeps what
it has. All lines together share one limit of steps.
-/

namespace StackScript.Prompt

def banner : String :=
  "AquaScript 增强版交互式解释器\n输入 'exit' 或 'quit' 退出\n输入 'help' 查看帮助\n"

def help : String :=
  "\n".intercalate [
    "",
    "AquaScript 增强版编译器帮助",
    "",
    "新语法特性:",
    "1. 函数定义: func name(params) -> return_type:",
    "2. 变量声明: var name: type = value",
    "3. 类定义: class ClassName:",
    "4. repeat循环: repeat: ... while condition",
    "5. switch语句: switch expr: case value: ...",
    "6. Python模块导入: import module / from module import items",
    "",
    "类型系统:",
    "- int: 整数",
    "- float: 浮点数",
    "- str: 字符串",
    "- bool: 布尔值",
    "- list: 列表",
    "- dict: 字典",
    "",
    "Python集成:",
    "- 可以导入和使用Python标准库",
    "- 支持调用Python函数和类",
    "- 自动类型转换",
    "",
    "示例:",
    "    import math",
    "    var radius: float = 5.0",
    "    var area: float = math.pi * radius * radius",
    "    print(\"Area: \" + str(area))",
    "",
    ""]

def interruption : String := "\n使用 'exit' 或 'quit' 退出\n"

def errorLine (message : String) : String := s!"错误: {message}\n"

/-- What can be entered. -/
inductive Entry where
  | line (text : String)
  | interrupt
  deriving Repr

/-- The machine behind the prompt, and the steps that it may still make. -/
structure Session where
  machine : Wide.State := { functions := .extended }
  left : Nat

/-- What an entry leads to. -/
inductive Reply where
  /-- The prompt comes again. -/
  | again (output : String) (session : Session)
  /-- The prompt is left. -/
  | leave
  /-- The limit of steps was reached. -/
  | limit (output : String)
  /-- The line can never be read to its end. -/
  | endless

def Session.run (session : Session) (bytes : List UInt8) : Reply :=
  match session.machine.load bytes with
  | .error e => .again (errorLine e.message) session
  | .ok machine =>
    let outcome := Wide.run session.left { machine with output := "" }
    let output := outcome.state.output
    let session : Session := ⟨outcome.state, outcome.left⟩
    match outcome.finish with
    | .done => .again output session
    | .limit => .limit output
    | .broken e => .again (output ++ errorLine e.message) session

def Session.enter (session : Session) : Entry → Reply
  | .interrupt => .again interruption session
  | .line text =>
    let text := Text.trimText text
    if text == "exit" || text == "quit" then .leave
    else if text == "help" then .again help session
    else if text.isEmpty then .again "" session
    else match compileText text with
      | .ok compiled => session.run compiled.bytes
      | .error e => if e.isEndless then .endless else .again (errorLine e.message) session

/-- How a conversation ends. -/
inductive Ending where
  | done
  | limit
  | endless
  deriving DecidableEq, Repr

/-- What is shown for each entry of a conversation, which is left at its end. -/
def Session.converse (session : Session) : List Entry → Ending × List String
  | [] => (.done, [""])
  | entry :: rest =>
    match session.enter entry with
    | .again output session =>
      let (ending, outputs) := session.converse rest
      (ending, output :: outputs)
    | .leave => (.done, [""])
    | .limit output => (.limit, [output])
    | .endless => (.endless, [""])

end StackScript.Prompt
