import LlmProxy.SentBody

/-!
# Whole answers as they are forwarded

Without streaming, the answer of an OpenAI-compatible upstream is read into
`ChatCompletionResponse`, normalised if so configured, and written again (`handler.rs`,
`response_normalize.rs`).  What the types have no name for is lost on the way.
-/

namespace LlmProxy

open Json

/-! ## Normalisation -/

/-- An empty text is dropped, two others are joined by a line feed. -/
def mergeNonempty : Option Text → Option Text → Option Text
  | none, none => none
  | some a, none => some a
  | none, some b => some b
  | some a, some b =>
    if a.isEmpty then some b
    else if b.isEmpty then some a
    else some (a ++ '\n' :: b)

/-- An empty text counts as none. -/
def nonemptyText (slot : Option Text) : Option Text := slot.filter fun s => !s.isEmpty

/-- Only a string is taken for reasoning. -/
def thinkingAlias (thinking : Option Value) : Option Text :=
  nonemptyText (thinking.bind Value.asStr)

/-- The reasoning under its four names is joined into `reasoning_content`. -/
def foldMessageReasoning (msg : ResponseMessage) : ResponseMessage :=
  let parts := [nonemptyText msg.reasoningContent, nonemptyText msg.reasoning,
    nonemptyText msg.reasoningText, thinkingAlias msg.thinking].reduceOption
  { msg with
    reasoningContent := parts.foldl (fun acc next => mergeNonempty acc (some next)) none
    reasoning := none
    reasoningText := none
    thinking := if (thinkingAlias msg.thinking).isSome then none else msg.thinking }

/-- Reasoning between tags is moved from the content to `reasoning_content`. -/
def stripContent (msg : ResponseMessage) : ResponseMessage :=
  match nonemptyText msg.content with
  | none => msg
  | some content =>
    match extractThinkTags content builtinThinkPairs with
    | none => msg
    | some (extracted, cleaned) =>
      { msg with
        content := some cleaned
        reasoningContent :=
          match nonemptyText extracted with
          | none => msg.reasoningContent
          | some extracted => mergeNonempty msg.reasoningContent (some extracted) }

/-- Every choice is normalised on its own. -/
def normalizeChatResponse (resp : ChatCompletionResponse) : ChatCompletionResponse :=
  { resp with
    choices := resp.choices.map fun choice =>
      { choice with message := stripContent (foldMessageReasoning choice.message) } }

def wholeAnswer (stripThinkTags : Bool) (resp : ChatCompletionResponse) : ChatCompletionResponse :=
  if stripThinkTags then normalizeChatResponse resp else resp

/-! ## What the types keep -/

variable (v : Value)

def UsageKept : Prop :=
  ∃ fields, v = .obj fields ∧
    ∀ field ∈ fields, field.2 ≠ .null →
      field.1 = "prompt_tokens" ∨ field.1 = "completion_tokens" ∨ field.1 = "total_tokens"

def AnswerMessageKept : Prop :=
  ∃ fields, v = .obj fields ∧
    ∀ field ∈ fields, field.2 ≠ .null →
      field.1 = "role" ∨ field.1 = "content" ∨
        field.1 = "tool_calls" ∧
          (∃ calls, field.2 = .arr calls ∧ ∀ call ∈ calls, ToolCallKept call) ∨
        field.1 = "reasoning_content" ∨ field.1 = "reasoning" ∨ field.1 = "reasoning_text" ∨
        field.1 = "thinking"

def ChoiceKept : Prop :=
  ∃ fields, v = .obj fields ∧
    ∀ field ∈ fields, field.2 ≠ .null →
      field.1 = "index" ∨ field.1 = "message" ∧ AnswerMessageKept field.2 ∨
        field.1 = "finish_reason"

/-- Only fields with a name, at every depth. -/
def AnswerKept : Prop :=
  ∃ fields, v = .obj fields ∧
    ∀ field ∈ fields, field.2 ≠ .null →
      field.1 = "id" ∨ field.1 = "object" ∨ field.1 = "created" ∨ field.1 = "model" ∨
        field.1 = "choices" ∧
          (∃ choices, field.2 = .arr choices ∧ ∀ choice ∈ choices, ChoiceKept choice) ∨
        field.1 = "usage" ∧ UsageKept field.2

theorem keeps_usage_iff : Usage.codec.Keeps v ↔ UsageKept v := by
  simp [Usage.codec, Record.keeps_codec_iff, Record.KeepsFields, Usage.record, UsageKept, eq_comm]

theorem keeps_answerMessage_iff : ResponseMessage.codec.Keeps v ↔ AnswerMessageKept v := by
  simp [ResponseMessage.codec, Record.keeps_codec_iff, Record.KeepsFields, ResponseMessage.record,
    keeps_toolCall_iff, AnswerMessageKept, eq_comm]

theorem keeps_choice_iff : Choice.codec.Keeps v ↔ ChoiceKept v := by
  simp [Choice.codec, Record.keeps_codec_iff, Record.KeepsFields, Choice.record,
    keeps_answerMessage_iff, ChoiceKept, eq_comm]

theorem keeps_answer_iff : ChatCompletionResponse.codec.Keeps v ↔ AnswerKept v := by
  simp [ChatCompletionResponse.codec, Record.keeps_codec_iff, Record.KeepsFields,
    ChatCompletionResponse.record, keeps_choice_iff, keeps_usage_iff, AnswerKept, eq_comm]

section

variable [SerdeJson] {Body : Type}

theorem chat_once_eq {badStatusCodes : List UInt16} {req : ChatCompletionRequest}
    {exchange : Exchange Body} {response : HttpResponse Body} {answer : ChatCompletionResponse}
    (hanswer : exchange.answer = .ok response)
    (hchat : OpenAiProvider.chat badStatusCodes req exchange = .ok (.once answer)) :
    (SerdeJson.fromStr response.text).bind OpenAiProvider.readAnswer = some answer := by
  unfold OpenAiProvider.chat at hchat
  split at hchat
  · cases hchat
  · rw [hanswer] at hchat
    dsimp only [OpenAiProvider.onResponse] at hchat
    split_ifs at hchat
    · cases hchat
    · split at hchat
      · rename_i found hfound
        cases hchat
        exact hfound
      · cases hchat

/-- With normalisation off, the JSON sent to the client contains the upstream's body
exactly if that has no field without a name. -/
theorem answer_contains_iff_kept (badStatusCodes : List UInt16) (req : ChatCompletionRequest)
    (exchange : Exchange Body) (response : HttpResponse Body) (body : Value)
    (answer : ChatCompletionResponse) (hanswer : exchange.answer = .ok response)
    (hbody : SerdeJson.fromStr response.text = some body) (hwell : body.WellFormed)
    (hchat : OpenAiProvider.chat badStatusCodes req exchange = .ok (.once answer)) :
    (ChatCompletionResponse.codec.encode (wholeAnswer false answer)).contains body = true ↔
      AnswerKept body := by
  have hread := chat_once_eq hanswer hchat
  rw [hbody] at hread
  obtain ⟨decoded, hdecode, rfl⟩ := Option.map_eq_some_iff.mp hread
  rw [← keeps_answer_iff, ← ChatCompletionResponse.codec.keeps_iff body decoded hwell hdecode]
  rfl

end

section

attribute [local instance] jsonText

def answering (body : Value) : Exchange Unit where
  answer := .ok
    { status := .ok
      contentType := none
      text := print body
      stream := () }
  jsonError := ""

theorem chat_answering {body : Value} (hplain : body.Plain depthLimit)
    {answer : ChatCompletionResponse} (hread : OpenAiProvider.readAnswer body = some answer) :
    OpenAiProvider.chat [] streamedRequest (answering body) = .ok (.once answer) := by
  have hparse : SerdeJson.fromStr (print body) = some body := parse_print hplain
  have hencode : ∃ written, streamedRequest.encode = some written := ⟨_, rfl⟩
  obtain ⟨written, hwritten⟩ := hencode
  have hsuccess : StatusCode.ok.isSuccess = true := by decide
  rw [OpenAiProvider.chat, hwritten]
  dsimp only [answering]
  rw [OpenAiProvider.onResponse]
  rw [if_pos hsuccess, if_neg (by simp [OpenAiProvider.isStream])]
  rw [hparse, Option.bind_some, hread]

def bareAnswer : ChatCompletionResponse where
  id := "x".toList
  object := "chat.completion".toList
  created := 0
  model := []
  choices := []
  usage := none
  rawUsageJson := none

def bareBody : Value := .obj [("choices", .arr []), ("id", .str "x".toList)]

theorem bare_answer_contains :
    (ChatCompletionResponse.codec.encode (wholeAnswer false bareAnswer)).contains bareBody =
      true := by
  have hplain : bareBody.Plain depthLimit := by decide +kernel
  have hparse : SerdeJson.fromStr (print bareBody) = some bareBody := parse_print hplain
  exact (answer_contains_iff_kept [] streamedRequest (answering bareBody) _ bareBody bareAnswer rfl
    hparse hplain.wellFormed (chat_answering hplain rfl)).mpr ⟨_, rfl, by simp⟩

def fingerprintBody : Value :=
  .obj [("choices", .arr []), ("id", .str "x".toList), ("system_fingerprint", .str "f".toList)]

/-- A field at the top level of the answer is lost. -/
theorem fingerprint_dropped :
    OpenAiProvider.chat [] streamedRequest (answering fingerprintBody) = .ok (.once bareAnswer) ∧
      (ChatCompletionResponse.codec.encode (wholeAnswer false bareAnswer)).contains
        fingerprintBody = false :=
  ⟨chat_answering (by decide +kernel) rfl, by decide⟩

end

end LlmProxy
