import LlmProxy.ChatResponse
import LlmProxy.JsonRecord

/-!
# Requests and answers as JSON

The derived readers and writers of `types.rs`.
-/

namespace LlmProxy

open Json

namespace ToolCallFunction

def record : Record ToolCallFunction :=
  ((Record.field (.required "name" .text)).and
    (.field (.required "arguments" .text))).as
    (fun ⟨name, arguments⟩ => ⟨name, arguments⟩) (fun f => (f.name, f.arguments)) fun _ => rfl

def codec : Codec ToolCallFunction := record.codec (by decide)

end ToolCallFunction

namespace ToolCall

def record : Record ToolCall :=
  ((Record.field (.required "id" .text)).and <|
    (Record.field (.required "type" .text)).and
    (.field (.required "function" ToolCallFunction.codec))).as
    (fun ⟨id, type_, function⟩ => ⟨id, type_, function⟩)
    (fun call => (call.id, call.type_, call.function)) fun _ => rfl

def codec : Codec ToolCall := record.codec (by decide)

end ToolCall

structure Message where
  role : Text
  content : Value
  name : Option Text
  toolCalls : Option (List ToolCall)
  toolCallId : Option Text

namespace Message

def record : Record Message :=
  ((Record.field (.required "role" .text)).and <|
    (Record.field ((Field.required "content" .value).orDefault .null)).and <|
    (Record.field (.skipped "name" .text)).and <|
    (Record.field (.skipped "tool_calls" ToolCall.codec.list)).and
    (.field (.skipped "tool_call_id" .text))).as
    (fun ⟨role, content, name, toolCalls, toolCallId⟩ =>
      ⟨role, content, name, toolCalls, toolCallId⟩)
    (fun m => (m.role, m.content, m.name, m.toolCalls, m.toolCallId)) fun _ => rfl

def codec : Codec Message := record.codec (by decide)

end Message

/-! ## Requests -/

structure RequestParams where
  model : String
  messages : List Message
  stream : Option Bool := none
  maxTokens : Option UInt32 := none
  temperature : Option F64 := none
  topP : Option F64 := none
  stop : Option Value := none
  presencePenalty : Option F64 := none
  frequencyPenalty : Option F64 := none
  user : Option Text := none
  tools : Option Value := none
  toolChoice : Option Value := none
  streamOptions : Option Value := none

/-- A request keeps the fields it has no name for (`extra`, flattened); a message, a tool call, an
answer and all that is in it do not. -/
structure ChatCompletionRequest extends RequestParams where
  extra : Value

def RequestParams.record : Record RequestParams :=
  ((Record.field (.required "model" .string)).and <|
    (Record.field (.required "messages" Message.codec.list)).and <|
    (Record.field (.skipped "stream" .bool)).and <|
    (Record.field (.skipped "max_tokens" .u32)).and <|
    (Record.field (.skipped "temperature" .f64)).and <|
    (Record.field (.skipped "top_p" .f64)).and <|
    (Record.field (.skipped "stop" .value)).and <|
    (Record.field (.skipped "presence_penalty" .f64)).and <|
    (Record.field (.skipped "frequency_penalty" .f64)).and <|
    (Record.field (.skipped "user" .text)).and <|
    (Record.field (.skipped "tools" .value)).and <|
    (Record.field (.skipped "tool_choice" .value)).and
    (.field (.skipped "stream_options" .value))).as
    (fun ⟨model, messages, stream, maxTokens, temperature, topP, stop, presencePenalty,
        frequencyPenalty, user, tools, toolChoice, streamOptions⟩ =>
      ⟨model, messages, stream, maxTokens, temperature, topP, stop, presencePenalty,
        frequencyPenalty, user, tools, toolChoice, streamOptions⟩)
    (fun p => (p.model, p.messages, p.stream, p.maxTokens, p.temperature, p.topP, p.stop,
      p.presencePenalty, p.frequencyPenalty, p.user, p.tools, p.toolChoice, p.streamOptions))
    fun _ => rfl

namespace ChatCompletionRequest

def decode : Value → Option ChatCompletionRequest
  | .obj fields => do
      let params ← RequestParams.record.read fields
      pure { params with extra := .obj (RequestParams.record.others fields) }
  | _ => none

/-- The fields of the body sent to an OpenAI-compatible upstream, one after the
other; a rest that is neither null nor an object cannot be flattened. -/
def encode (req : ChatCompletionRequest) : Option Fields :=
  match req.extra with
  | .null => some (RequestParams.record.write req.toRequestParams)
  | .obj extra => some (RequestParams.record.write req.toRequestParams ++ extra)
  | _ => none

end ChatCompletionRequest

namespace Usage

def record : Record Usage :=
  ((Record.field ((Field.required "prompt_tokens" .u32).orDefault 0)).and <|
    (Record.field ((Field.required "completion_tokens" .u32).orDefault 0)).and
    (.field ((Field.required "total_tokens" .u32).orDefault 0))).as
    (fun ⟨promptTokens, completionTokens, totalTokens⟩ =>
      ⟨promptTokens, completionTokens, totalTokens⟩)
    (fun u => (u.promptTokens, u.completionTokens, u.totalTokens)) fun _ => rfl

def codec : Codec Usage := record.codec (by decide)

end Usage

namespace ResponseMessage

def record : Record ResponseMessage :=
  ((Record.field ((Field.required "role" .text).orDefault "assistant".toList)).and <|
    (Record.field ((Field.nullable "content" .text).orDefault none)).and <|
    (Record.field ((Field.nullable "tool_calls" ToolCall.codec.list).orDefault none)).and <|
    (Record.field ((Field.skipped "reasoning_content" .text).orDefault none)).and <|
    (Record.field ((Field.skipped "reasoning" .text).orDefault none)).and <|
    (Record.field ((Field.skipped "reasoning_text" .text).orDefault none)).and
    (.field ((Field.skipped "thinking" .value).orDefault none))).as
    (fun ⟨role, content, toolCalls, reasoningContent, reasoning, reasoningText, thinking⟩ =>
      ⟨role, content, toolCalls, reasoningContent, reasoning, reasoningText, thinking⟩)
    (fun m => (m.role, m.content, m.toolCalls, m.reasoningContent, m.reasoning, m.reasoningText,
      m.thinking)) fun _ => rfl

def codec : Codec ResponseMessage := record.codec (by decide)

end ResponseMessage

namespace Choice

def record : Record Choice :=
  ((Record.field ((Field.required "index" .u32).orDefault 0)).and <|
    (Record.field (.required "message" ResponseMessage.codec)).and
    (.field (.nullable "finish_reason" .text))).as
    (fun ⟨index, message, finishReason⟩ => ⟨index, message, finishReason⟩)
    (fun c => (c.index, c.message, c.finishReason)) fun _ => rfl

def codec : Codec Choice := record.codec (by decide)

end Choice

namespace ChatCompletionResponse

def record : Record ChatCompletionResponse :=
  ((Record.field ((Field.required "id" .text).orDefault [])).and <|
    (Record.field ((Field.required "object" .text).orDefault "chat.completion".toList)).and <|
    (Record.field ((Field.required "created" .u64).orDefault 0)).and <|
    (Record.field ((Field.required "model" .text).orDefault [])).and <|
    (Record.field (.required "choices" Choice.codec.list)).and
    (.field (.nullable "usage" Usage.codec))).as
    (fun ⟨id, object, created, model, choices, usage⟩ =>
      ⟨id, object, created, model, choices, usage, none⟩)
    (fun r => (r.id, r.object, r.created, r.model, r.choices, r.usage)) fun _ => rfl

def codec : Codec ChatCompletionResponse := record.codec (by decide)

end ChatCompletionResponse

end LlmProxy
