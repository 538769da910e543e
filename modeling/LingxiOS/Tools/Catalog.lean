-- SUMMARY: The built-in task tools: their parameters, and the checks of their arguments.
import LingxiOS.Context.Facts

/-! # The Tool Catalog

The tools every captured request has. `parseTaskArgs` checks the arguments of a
task action before it is recorded. -/

namespace LingxiOS

def TASK_TOOLS : List ToolDefinition := [
  { name := "task__read_attachment", action := "task.read_attachment", effect := .read
    properties := ["id", "sourceVersion", "offset", "limit"] },
  { name := "task__contract", action := "task.contract", effect := .transaction
    properties := ["deliverables", "constraints", "actions", "acceptance"] },
  { name := "task__ask", action := "task.ask", effect := .transaction
    properties := ["question"] },
  { name := "task__check_receipt", action := "task.check_receipt", effect := .read
    properties := ["idempotencyKey", "action", "expected"] },
  { name := "task__check_resource", action := "task.check_resource", effect := .read
    properties := ["action", "args", "expected"] },
  { name := "task__inspect", action := "task.inspect", effect := .read }]

/-! ## Arguments -/

/-- A non-empty string of at most `limit` characters. -/
def textArg (args : JsonObject) (key : String) (limit : Nat) : Option String :=
  match args.lookup key with
  | some (.str text) => if text.isEmpty || limit < Text.length text then none else some text
  | _ => none

/-- A safe integer of at least `least` and, if there is a bound, at most `most`. -/
def integerArg (args : JsonObject) (key : String) (least : Int) (most : Option Int) : Bool :=
  match args.lookup key with
  | some (.num n) => isSafeInteger n && least ≤ n && most.all (fun most => n ≤ most)
  | _ => false

def parseAttachmentArgs (args : JsonObject) : Except String Unit :=
  if (textArg args "id" 2000).isNone || (textArg args "sourceVersion" 2000).isNone
      || !integerArg args "offset" 0 none || !integerArg args "limit" 1 (some 16000) then
    .error "invalid attachment range"
  else .ok ()

def parseQuestionArgs (args : JsonObject) : Except String Unit :=
  if (textArg args "question" 4000).all Text.isBlank then
    .error "task.ask requires one non-empty question of at most 4000 characters"
  else .ok ()

def parseReceiptArgs (args : JsonObject) : Except String Unit :=
  if (textArg args "idempotencyKey" 4000).isNone
      || (textArg args "action" 4000).all (Text.hasPrefix "task.")
      || (args.lookup "expected").isNone then
    .error "task.check_receipt requires idempotencyKey, a business action and its complete expected value"
  else .ok ()

/-- The names of the expected fields: bounded, and none that a prototype would answer. -/
def validExpectedKey (key : String) : Bool :=
  !key.isEmpty && Text.length key ≤ 256
    && !(["__proto__", "prototype", "constructor"].contains key)

def parseResourceArgs (args : JsonObject) : Except String Unit :=
  match textArg args "action" 4000, args.lookup "args", args.lookup "expected" with
  | some _, some (.obj _), some (.obj expected) =>
      if expected.isEmpty || 16 < expected.length
          || 16384 < Text.length (Json.obj expected).stringify
          || !expected.all (fun entry => validExpectedKey entry.1) then
        .error "expected must contain 1-16 resource fields within 16384 characters"
      else .ok ()
  | _, _, _ => .error "task.check_resource requires a read action, args and expected fields"

/-- The `parse` of each task definition. -/
def parseTaskDefinition (sha256 : String → String) (action : String) (args : JsonObject) :
    Except String Unit :=
  match action with
  | "task.read_attachment" => parseAttachmentArgs args
  | "task.contract" => (createTaskContract sha256 "" 1 args).map (fun _ => ())
  | "task.ask" => parseQuestionArgs args
  | "task.check_receipt" => parseReceiptArgs args
  | "task.check_resource" => parseResourceArgs args
  | _ => .ok ()

def parseTaskArgs (sha256 : String → String) (action : String) (args : JsonObject) :
    Except String Unit :=
  match TASK_TOOLS.find? (fun tool => tool.action == action) with
  | none => .error "unknown task action or argument"
  | some definition =>
      if args.any (fun entry => !definition.properties.contains entry.1) then
        .error "unknown task action or argument"
      else parseTaskDefinition sha256 action args

end LingxiOS
