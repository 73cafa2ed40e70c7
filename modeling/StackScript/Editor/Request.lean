import StackScript.Editor.Manager
import StackScript.Editor.Service

/-!
# Requests to an editor

A request has a method, an address and perhaps a body. The address leads to a page, to the files of
the workspace, or to the compiler and the machine. An address that leads nowhere is not found; one
that leads somewhere with another method is not allowed.
-/

namespace StackScript.Editor

/-- What comes with a request: data, or a text that should be data. -/
inductive Body where
  | data (d : Datum)
  | text (raw : String)

/-- A request. -/
structure Request where
  method : String
  address : String
  body : Option Body := none

/-- What an answer holds. -/
inductive Reply where
  | data (d : Datum)
  /-- A page of a type, with its number of bytes. -/
  | page (type : String) (length : Nat)
  | message

/-- An answer. -/
structure Answer where
  status : Nat
  reply : Reply

def Answer.data (status : Nat) (fields : List (String × Datum)) : Answer :=
  ⟨status, .data (Datum.object fields)⟩

def Answer.error (status : Nat) (message : String) : Answer :=
  .data status [("error", .str message)]

def Answer.plain (status : Nat) : Answer := ⟨status, .message⟩

/-! ## Addresses -/

/-- Takes back escapes by a percent sign and two hexadecimal digits. -/
def unescapeBytes : List UInt8 → List UInt8
  | 0x25 :: a :: b :: rest =>
    match Datum.hexValue? (Char.ofNat a.toNat), Datum.hexValue? (Char.ofNat b.toNat) with
    | some x, some y => UInt8.ofNat (16 * x + y) :: unescapeBytes rest
    | _, _ => 0x25 :: unescapeBytes (a :: b :: rest)
  | a :: rest => a :: unescapeBytes rest
  | [] => []

/-- Reads a text; each stretch of bytes that is no text becomes a replacement character. -/
def lossyText : Nat → List UInt8 → String
  | 0, _ => ""
  | fuel + 1, bytes =>
    match Text.decodeUtf8 bytes with
    | .ok text => text
    | .error e =>
      let front := match Text.decodeUtf8 (bytes.take e.first) with
        | .ok text => text
        | .error _ => ""
      front ++ "�" ++ lossyText fuel (bytes.drop (e.last + 1))

/-- The path of an address: what stands before a query or a fragment, without escapes. -/
def addressPath (address : String) : String :=
  let cs := address.toList.takeWhile fun c => c ≠ '?' && c ≠ '#'
  let bytes := unescapeBytes (Text.encodeUtf8 (String.ofList cs))
  let text := (lossyText (bytes.length + 1) bytes).toList
  String.ofList ('/' :: text.dropWhile (· == '/'))

/-- Where an address leads. -/
inductive Target where
  | start
  | page (name : String)
  | files
  | file (path : String)
  | compile
  | run

/-- What follows a text at the start of another one; it is not empty and starts with no slash. -/
def after? (front path : String) : Option String :=
  if path.startsWith front then
    let rest := path.toList.drop front.length
    if rest.isEmpty || rest.head? = some '/' then none else some (String.ofList rest)
  else none

def target? (path : String) : Option Target :=
  if path == "/" then some .start
  else if path == "/api/files" then some .files
  else if path == "/api/compile" then some .compile
  else if path == "/api/run" then some .run
  else ((after? "/static/" path).map .page) <|> ((after? "/api/file/" path).map .file)

def mergeSlashes : List Char → List Char
  | '/' :: '/' :: rest => '/' :: mergeSlashes rest
  | c :: rest => c :: mergeSlashes rest
  | [] => []

def Target.methods : Target → List String
  | .start | .page _ | .files => ["GET", "HEAD", "OPTIONS"]
  | .file _ => ["GET", "HEAD", "OPTIONS", "POST", "PUT", "DELETE"]
  | .compile | .run => ["POST", "OPTIONS"]

/-- The pages that can be asked for: name, type, and number of bytes. -/
def pages : List (String × String × Nat) := [
  ("css/main.css", "text/css", 12069),
  ("js/main.js", "text/javascript", 27947)]

def startLength : Nat := 10931

/-! ## Answers -/

mutual

def itemDatum : Item → Datum
  | .file name path size suffix =>
    Datum.object [("name", .str name), ("path", .str path), ("type", .str "file"),
      ("size", .int size), ("extension", .str suffix)]
  | .folder name path children =>
    Datum.object [("name", .str name), ("path", .str path), ("type", .str "directory"),
      ("children", .list (itemData children))]

def itemData : List Item → List Datum
  | [] => []
  | item :: rest => itemDatum item :: itemData rest

end

def textOf? : Datum → Option String
  | .str s => some s
  | _ => none

def isBlank (d : Datum) : Bool :=
  match d with
  | .null | .bool false | .str "" | .list [] | .dict [] => true
  | d => d.same (.int 0)

/-- The data of a body. A request without a body has the wrong type; a text that is no data is
refused; data that are no table make the service fail. -/
def fieldsOf (body : Option Body) : Except Answer Datum := do
  let d ← match body with
    | none => throw (.plain 415)
    | some (.data d) => pure d
    | some (.text raw) => match Datum.read raw with
      | .ok d => pure d
      | .error _ => throw (.plain 400)
  match d with
  | .dict _ => return d
  | _ => throw (.plain 500)

def answerDone (done : Bool) (message : String) : Answer :=
  if done then .data 200 [("success", .bool true)] else .error 500 message

def answerFile (root : String) (request : Request) (path : String) (w : World) : Answer × World :=
  let change (f : Disk → Bool × Disk) (message : String) : Answer × World :=
    let (done, disk) := f w.disk
    (answerDone done message, { w with disk })
  match request.method with
  | "POST" =>
    match fieldsOf request.body with
    | .error answer => (answer, w)
    | .ok d =>
      let content := (d.field? "content").getD (.str "")
      change (save root path (textOf? content)) "保存失败"
  | "PUT" => change (create root path) "创建失败"
  | "DELETE" => change (delete root path) "删除失败"
  | _ =>
    match fileText? w.disk root path with
    | some text => (.data 200 [("content", .str text)], w)
    | none => (.error 404 "文件不存在或无法读取", w)

def namedPath (body : Option Body) : Except Answer String := do
  let d := (← fieldsOf body).fieldD "file_path"
  if isBlank d then throw (.error 400 "未指定文件路径")
  match d with
  | .str path => return path
  | _ => throw (.plain 500)

def compilationFields (c : Compilation) : List (String × Datum) :=
  [("success", .bool c.succeeded), ("stdout", .str c.output), ("stderr", .str c.complaints)] ++
    match c.codeFile with
    | none => []
    | some path => [("bytecode_file", Datum.optional .str path)]

def runFields (ran : Job.Ran) : List (String × Datum) :=
  [("success", .bool ran.succeeded), ("stdout", .str ran.output), ("stderr", .str ran.complaints)]

def answerCompile (root : String) (request : Request) (w : World) : Answer × World :=
  match namedPath request.body with
  | .error answer => (answer, w)
  | .ok name =>
    let path := Path.join root name
    if !w.disk.holds path then (.error 404 "文件不存在", w)
    else
      let (c, w) := compile path w
      (.data 200 (compilationFields c), w)

def answerRun (root : String) (request : Request) (w : World) : Answer × World :=
  match namedPath request.body with
  | .error answer => (answer, w)
  | .ok name =>
    let path := Path.join root name
    let (c, w) := compile path w
    let fields (ran : Bool) (output compileOutput : String) : List (String × Datum) := [
      ("compile_success", .bool c.succeeded), ("compile_output", .str compileOutput),
      ("run_success", .bool ran), ("run_output", .str output)]
    if !c.succeeded then (.data 200 (fields false "" c.complaints), w)
    else
      let (ran, w) := run (codePath path) w
      let output := if ran.succeeded then ran.output else ran.complaints
      (.data 200 (fields ran.succeeded output c.output), w)

/-- Answers a request that leads to a target and has one of its methods. -/
def answerAt (root : String) (request : Request) (target : Target) (w : World) :
    Answer × World :=
  if request.method == "OPTIONS" then (⟨200, .page "text/html" 0⟩, w)
  else match target with
    | .start => (⟨200, .page "text/html" startLength⟩, w)
    | .page name => match pages.lookup name with
      | some (type, length) => (⟨200, .page type length⟩, w)
      | none => (.plain 404, w)
    | .files => match tree w.disk root with
      | .ok items => (⟨200, .data (.list (itemData items))⟩, w)
      | .error _ => (.plain 500, w)
    | .file path => answerFile root request path w
    | .compile => answerCompile root request w
    | .run => answerRun root request w

def answer (root : String) (request : Request) (w : World) : Answer × World :=
  let path := addressPath request.address
  match target? path with
  | some target =>
    if target.methods.contains request.method then answerAt root request target w
    else (.plain 405, w)
  | none =>
    match target? (String.ofList (mergeSlashes path.toList)) with
    | some target =>
      if target.methods.contains request.method then (.plain 308, w) else (.plain 405, w)
    | none => (.plain 404, w)

end StackScript.Editor
