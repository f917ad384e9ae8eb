import LlmProxy.StreamInspector

/-!
# Whole answers

The answer of a provider without streaming, turned into a chat completion:
`anthropic_to_openai` (`provider/anthropic.rs`) and `gemini_to_openai`
(`provider/gemini.rs`).  The clock and the random identification are arguments.
-/

namespace LlmProxy

open Json (Text Value)

structure ToolCallFunction where
  name : Text
  arguments : Text

structure ToolCall where
  id : Text
  type_ : Text
  function : ToolCallFunction

structure ResponseMessage where
  role : Text
  content : Option Text
  toolCalls : Option (List ToolCall)
  reasoningContent : Option Text
  reasoning : Option Text
  reasoningText : Option Text
  thinking : Option Value

structure Choice where
  index : UInt32
  message : ResponseMessage
  finishReason : Option Text

structure ChatCompletionResponse where
  id : Text
  object : Text
  created : UInt64
  model : Text
  choices : List Choice
  usage : Option Usage
  rawUsageJson : Option Value

def answerChoice (content : Text) (reasoningParts : List Text) (finishReason : Option Text) :
    Choice where
  index := 0
  message :=
    { role := "assistant".toList
      content := some content
      toolCalls := none
      reasoningContent := if reasoningParts.isEmpty then none else some reasoningParts.flatten
      reasoning := none
      reasoningText := none
      thinking := none }
  finishReason := finishReason

def countAt (key : String) (usage : Value) : UInt32 :=
  UInt32.ofNat (((usage.get key).bind Value.asU64).getD 0)

theorem countAt_of_get {key : String} {usage : Value} {n : ℕ}
    (hget : (usage.get key).bind Value.asU64 = some n) : countAt key usage = UInt32.ofNat n := by
  rw [countAt, hget, Option.getD_some]

theorem answerChoice_reasoning (content : Text) (reasoningParts : List Text)
    (finishReason : Option Text) :
    ((answerChoice content reasoningParts finishReason).message.reasoningContent).getD [] =
      reasoningParts.flatten := by
  cases reasoningParts with
  | nil => rfl
  | cons => rfl

theorem flatten_filterMap {α β : Type} (f : α → Option (List β)) (l : List α) :
    (l.filterMap f).flatten = l.flatMap fun x => (f x).getD [] := by
  induction l with
  | nil => rfl
  | cons x l ih =>
    rw [List.flatMap_cons]
    cases hx : f x with
    | none =>
      rw [List.filterMap_cons_none hx, ih]
      rfl
    | some =>
      rw [List.filterMap_cons_some hx, List.flatten_cons, ih]
      rfl

theorem flatMap_flatten {α β : Type} (lists : List (List α)) (g : α → List β) :
    lists.flatten.flatMap g = lists.flatMap fun l => l.flatMap g := by
  rw [List.flatten_eq_flatMap, List.flatMap_assoc]
  rfl

def SameText (chunks : List Value) (answer : ChatCompletionResponse) : Prop :=
  ∃ choice, answer.choices = [choice] ∧ choice.message.content = some (contentText chunks) ∧
    choice.message.reasoningContent.getD [] = reasoningText chunks

theorem sameText_iff {chunks : List Value} {answer : ChatCompletionResponse} {content : Text}
    {reasoningParts : List Text} {finishReason : Option Text}
    (hchoices : answer.choices = [answerChoice content reasoningParts finishReason]) :
    SameText chunks answer ↔
      content = contentText chunks ∧ reasoningParts.flatten = reasoningText chunks := by
  constructor
  · rintro ⟨choice, hchoice, hcontent, hreasoning⟩
    rw [hchoices, List.cons.injEq] at hchoice
    rw [← hchoice.1] at hcontent hreasoning
    rw [answerChoice_reasoning] at hreasoning
    exact ⟨Option.some_inj.mp hcontent, hreasoning⟩
  · rintro ⟨hcontent, hreasoning⟩
    refine ⟨_, hchoices, congrArg some hcontent, ?_⟩
    rw [answerChoice_reasoning, hreasoning]

structure AnthropicContent where
  type_ : Text
  text : Option Text
  thinking : Option Text

structure AnthropicResponse where
  id : Text
  model : Text
  content : List AnthropicContent
  stopReason : Option Text
  usage : Value

namespace AnthropicContent

def reasoningPart (c : AnthropicContent) : Option Text :=
  if c.type_ = "thinking".toList then c.thinking else none

def textPart (c : AnthropicContent) : Option Text :=
  if c.type_ = "thinking".toList then none
  else if c.type_ = "text".toList then c.text
  else none

end AnthropicContent

/-- The finish reason of a whole answer: unknown stop reasons give none. -/
def anthropicFinishReason : Option Text → Option Text
  | none => none
  | some reason =>
    if reason = "end_turn".toList then some "stop".toList
    else if reason = "max_tokens".toList then some "length".toList
    else if reason = "stop_sequence".toList then some "stop".toList
    else if reason = "tool_use".toList then some "tool_calls".toList
    else none

/-- All blocks go into one choice. -/
def anthropicToOpenai (an : AnthropicResponse) (model : Text) (created : UInt64) :
    ChatCompletionResponse where
  id := an.id
  object := "chat.completion".toList
  created := created
  model := model
  choices :=
    [answerChoice (an.content.filterMap AnthropicContent.textPart).flatten
      (an.content.filterMap AnthropicContent.reasoningPart) (anthropicFinishReason an.stopReason)]
  usage := some
    { promptTokens := countAt "input_tokens" an.usage
      completionTokens := countAt "output_tokens" an.usage
      totalTokens := countAt "input_tokens" an.usage + countAt "output_tokens" an.usage }
  rawUsageJson := none

/-! ## Gemini -/

structure GeminiResponsePart where
  text : Option Text
  thought : Bool

structure GeminiContentResponse where
  parts : List GeminiResponsePart

structure GeminiCandidate where
  content : GeminiContentResponse
  finishReason : Option Text

structure GeminiResponse where
  candidates : List GeminiCandidate
  usageMetadata : Option Value

namespace GeminiResponsePart

def reasoningPart (part : GeminiResponsePart) : Option Text :=
  if part.thought then part.text else none

def answerPart (part : GeminiResponsePart) : Option Text :=
  if part.thought then none else part.text

end GeminiResponsePart

def geminiFinishReason (reason : Text) : Text :=
  if reason = "STOP".toList then "stop".toList
  else if reason = "MAX_TOKENS".toList then "length".toList
  else if reason = "SAFETY".toList ∨ reason = "RECITATION".toList then "content_filter".toList
  else "stop".toList

def geminiUsage (metadata : Option Value) : Usage :=
  let usage := metadata.getD .null
  let promptTokens := countAt "promptTokenCount" usage
  let completionTokens := countAt "candidatesTokenCount" usage
  let totalFromField := countAt "totalTokenCount" usage
  { promptTokens := promptTokens
    completionTokens := completionTokens
    totalTokens := if 0 < totalFromField then totalFromField else promptTokens + completionTokens }

/-- Only the first candidate is looked at. -/
def geminiToOpenai (gm : GeminiResponse) (id model : Text) (created : UInt64) :
    ChatCompletionResponse where
  id := id
  object := "chat.completion".toList
  created := created
  model := model
  choices :=
    let parts := (gm.candidates.head?.map fun c => c.content.parts).getD []
    [answerChoice (parts.filterMap GeminiResponsePart.answerPart).flatten
      (parts.filterMap GeminiResponsePart.reasoningPart)
      ((gm.candidates.head?.bind GeminiCandidate.finishReason).map geminiFinishReason)]
  usage := some (geminiUsage gm.usageMetadata)
  rawUsageJson := none

end LlmProxy
