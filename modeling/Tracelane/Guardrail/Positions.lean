import Tracelane.Json.Value

/-
  The wire positions of a request body, and what the egress walk does with each child of an object.

  A position is computed from the body's root.  A key that no documented wire has leads to
  `Pos.free`, under which nothing is opaque.
-/

namespace Tracelane.Guardrail

--
-- Positions
--

/- Where the walk stands, relative to the wire positions. -/
inductive Pos where
| root
| items
| item
| parts
| part
| messages
| message
| blocks
| block
| inner
| innerBlock
| citations
| citation
| fetchedDoc
| mediaSource
| inlineData
| imageUrl
| file
| audio
| contents
| content
| sysInstr
| gParts
| gPart
| fnResponse
| fnRespParts
| fnRespPart
| tools
| tool
| mcpServers
| mcpServer
| session
| response
| asstBlocks
| asstBlock
| serverInner
| serverInnerBlock
| asstCitations
| asstCitation
| free
deriving DecidableEq

/- What the walk does with one child of an object. -/
inductive Rule where
| read
| opaqueChild
| media
| dataUri
deriving DecidableEq

/- The `type` of an object, as far as the rules care. -/
inductive Tag where
| ciphertext
| thinking
| redactedThinking
| base64
| inputAudio
| mcp
| webSearchResult
| webSearchCitation
| encryptedCodeExecution
| assistant
| serverToolResult
| other
deriving DecidableEq

/- The string under a key of an object. -/
def strAt (key : String) (entries : List (String × Value)) : Option String :=
  ((entries.lookup key).bind Value.asStr).map Text.str

def Tag.of (entries : List (String × Value)) : Tag :=
  match strAt "type" entries with
  | some "reasoning" => .ciphertext
  | some "compaction" => .ciphertext
  | some "thinking" => .thinking
  | some "redacted_thinking" => .redactedThinking
  | some "base64" => .base64
  | some "input_audio" => .inputAudio
  | some "mcp" => .mcp
  | some "web_search_result" => .webSearchResult
  | some "web_search_result_location" => .webSearchCitation
  | some "encrypted_code_execution_result" => .encryptedCodeExecution
  | some "web_search_tool_result" => .serverToolResult
  | some "web_fetch_tool_result" => .serverToolResult
  | some "code_execution_tool_result" => .serverToolResult
  | some _ => .other
  | none =>
      if strAt "role" entries = some "assistant" then .assistant
      else .other

namespace Pos

/- The generic twin of an assistant-scoped position. -/
def generic : Pos → Pos
| .asstBlocks => .blocks
| .asstBlock => .block
| .serverInner => .inner
| .serverInnerBlock => .innerBlock
| .asstCitations => .citations
| .asstCitation => .citation
| pos => pos

def elemGeneric : Pos → Pos
| .items => .item
| .parts => .part
| .messages => .message
| .blocks => .block
| .inner => .innerBlock
| .citations => .citation
| .contents => .content
| .gParts => .gPart
| .fnRespParts => .fnRespPart
| .tools => .tool
| .mcpServers => .mcpServer
| _ => .free

/- The position of an array's items. -/
def elem : Pos → Pos
| .asstBlocks => .asstBlock
| .serverInner => .serverInnerBlock
| .asstCitations => .asstCitation
| pos => pos.generic.elemGeneric

def childGeneric : Pos → String → Pos
| .root, "input" => .items
| .response, "input" => .items
| .root, "messages" => .messages
| .root, "contents" => .contents
| .root, "systemInstruction" => .sysInstr
| .root, "system_instruction" => .sysInstr
| .root, "tools" => .tools
| .session, "tools" => .tools
| .response, "tools" => .tools
| .item, "tools" => .tools
| .root, "mcp_servers" => .mcpServers
| .root, "item" => .item
| .root, "session" => .session
| .root, "response" => .response
| .root, "generateContentRequest" => .root
| .root, "generate_content_request" => .root
| .item, "content" => .parts
| .item, "output" => .parts
| .part, "input_audio" => .audio
| .block, "input_audio" => .audio
| .message, "content" => .blocks
| .block, "source" => .mediaSource
| .innerBlock, "source" => .mediaSource
| .block, "image_url" => .imageUrl
| .block, "file" => .file
| .block, "content" => .inner
| .block, "citations" => .citations
| .innerBlock, "citations" => .citations
| .inner, "content" => .fetchedDoc
| .fetchedDoc, "source" => .mediaSource
| .mediaSource, "content" => .inner
| .content, "parts" => .gParts
| .sysInstr, "parts" => .gParts
| .gPart, "inlineData" => .inlineData
| .gPart, "inline_data" => .inlineData
| .gPart, "functionResponse" => .fnResponse
| .gPart, "function_response" => .fnResponse
| .fnResponse, "parts" => .fnRespParts
| .fnRespPart, "inlineData" => .inlineData
| .fnRespPart, "inline_data" => .inlineData
| _, _ => .free

/- The position under a key of an object tagged `tag`. -/
def child (pos : Pos) (tag : Tag) (key : String) : Pos :=
  match pos, tag, key with
  | .message, .assistant, "content" => .asstBlocks
  | .asstBlock, .serverToolResult, "content" => .serverInner
  | .asstBlock, _, "citations" => .asstCitations
  | .serverInner, _, "content" => .fetchedDoc
  | pos, _, key => pos.generic.childGeneric key

def ruleGeneric (pos : Pos) (tag : Tag) (key : String) : Rule :=
  match pos, tag, key with
  | .item, .ciphertext, "encrypted_content" => .opaqueChild
  | .gPart, _, "thoughtSignature" => .opaqueChild
  | .gPart, _, "thought_signature" => .opaqueChild
  | .audio, _, "data" => .opaqueChild
  | .part, .inputAudio, "audio" => .opaqueChild
  | .inlineData, _, "data" => .media
  | .mediaSource, .base64, "data" => .media
  | .imageUrl, _, "url" => .dataUri
  | .file, _, "file_data" => .dataUri
  | .part, _, "image_url" => .dataUri
  | .part, _, "file_data" => .dataUri
  | .block, _, "image_url" => .dataUri
  | .tool, .mcp, "headers" => .opaqueChild
  | .tool, .mcp, "authorization" => .opaqueChild
  | .mcpServer, _, "authorization_token" => .opaqueChild
  | _, _, _ => .read

/- The allowlist of children that are not read as text. -/
def rule (pos : Pos) (tag : Tag) (key : String) : Rule :=
  match pos, tag, key with
  | .asstBlock, .thinking, "signature" => .opaqueChild
  | .asstBlock, .redactedThinking, "data" => .opaqueChild
  | .serverInnerBlock, .webSearchResult, "encrypted_content" => .opaqueChild
  | .asstCitation, .webSearchCitation, "encrypted_index" => .opaqueChild
  | .serverInner, .encryptedCodeExecution, "encrypted_stdout" => .opaqueChild
  | pos, tag, key => pos.generic.ruleGeneric tag key

@[simp] theorem child_free (tag : Tag) (key : String) :
    Pos.free.child tag key = .free := by
  rfl

@[simp] theorem rule_free (tag : Tag) (key : String) :
    Pos.free.rule tag key = .read := by
  rfl

end Pos

--
-- Origins
--

/- Where a text sits, for the injection rail. -/
inductive Origin where
| direct
| system
| toolDef
| toolResult
| retrieved
deriving DecidableEq

/- `str::ends_with`. -/
def endsWith (suffix s : String) : Bool :=
  (chars suffix).isSuffixOf (chars s)

/- The origin of the members of an object. -/
def objectOrigin (pos : Pos) (parent : Origin) (entries : List (String × Value)) : Origin :=
  let ty := (strAt "type" entries).getD ""
  let role := strAt "role" entries
  if parent ≠ .direct then parent
  else if pos = .message ∧
      (role = some "tool" ∨ role = some "function") then
    .toolResult
  else if pos = .item ∧
      (role = some "system" ∨ role = some "developer") then
    .system
  else if pos = .item ∧ ty = "additional_tools" then .toolDef
  else if ["search_result", "web_search_result",
      "document"].contains ty then .retrieved
  else if ty = "tool_result" || endsWith "_result" ty ||
      endsWith "_output" ty then .toolResult
  else .direct

/- The origin of the value under a key. -/
def childOrigin (pos : Pos) (origin : Origin) (ty : Option String) (key : String) : Origin :=
  if pos = .root then
    if ["system", "instructions", "systemInstruction",
        "system_instruction"].contains key then .system
    else if key = "tools" then .toolDef
    else if key = "tracelane_rag_context" then .retrieved
    else origin
  else if origin ≠ .direct then origin
  else if (pos = .session ∨ pos = .response) ∧ key = "tools" then
    .toolDef
  else if ["functionResponse", "function_response",
      "codeExecutionResult",
      "code_execution_result"].contains key then .toolResult
  else if ["output", "outputs", "results"].contains key &&
      ty.any (endsWith "_call") then .toolResult
  else origin

end Tracelane.Guardrail
