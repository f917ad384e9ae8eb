import LlmProxy.ProviderChat

/-!
# Requests for Anthropic and Gemini

`openai_to_anthropic_base` and `openai_to_gemini` go through the messages of a request and collect
the system texts and the other messages apart.  What they leave is written as the body of the call.
-/

namespace LlmProxy

open Json (F64 Fields Text Value)
open List Option

/-! ## The converted requests -/

structure AnthropicMessage where
  role : Text
  content : Text
  deriving DecidableEq

structure AnthropicRequest where
  model : String
  maxTokens : UInt32
  system : Option Text
  messages : List AnthropicMessage
  stopSequences : Option (List Text)
  temperature : Option F64
  topP : Option F64
  thinking : Option Value
  stream : Bool

structure GeminiPart where
  text : Text
  deriving DecidableEq

structure GeminiContent where
  role : Text
  parts : List GeminiPart
  deriving DecidableEq

structure GeminiSystemInstruction where
  parts : List GeminiPart
  deriving DecidableEq

structure GeminiGenerationConfig where
  maxOutputTokens : Option UInt32
  temperature : Option F64
  topP : Option F64
  stopSequences : Option (List Text)
  thinkingConfig : Option Value

structure GeminiRequest where
  contents : List GeminiContent
  systemInstruction : Option GeminiSystemInstruction
  generationConfig : Option GeminiGenerationConfig

/-! ## The conversions -/

section

variable [SerdeJson]

def convertedText : Value → Text
  | .str s => s
  | other => (SerdeJson.toString other).getD []

def joined (texts : List Text) : Option Text :=
  if texts.isEmpty then none else some ("\n\n".toList.intercalate texts)

def stopSequencesOf : Option Value → Option (List Text)
  | some (.str s) => some [s]
  | some (.arr items) =>
    let v := items.filterMap Value.asStr
    if v.isEmpty then none else some v
  | _ => none

/-- The body of the loop of `openai_to_anthropic_base`. -/
def anthropicStep (acc : List Text × List AnthropicMessage) (m : Message) :
    List Text × List AnthropicMessage :=
  if m.role = "system".toList then
    match m.content with
    | .str s => (acc.1 ++ [s], acc.2)
    | _ => acc
  else if m.role = "user".toList ∨ m.role = "assistant".toList then
    (acc.1, acc.2 ++ [⟨m.role, convertedText m.content⟩])
  else acc

variable (req : ChatCompletionRequest)

/-- A request without a limit gets 4096 tokens. -/
def openaiToAnthropicBase (stream : Bool) : AnthropicRequest :=
  let collected := req.messages.foldl anthropicStep ([], [])
  { model := req.model
    maxTokens := req.maxTokens.getD 4096
    system := joined collected.1
    messages := collected.2
    stopSequences := stopSequencesOf req.stop
    temperature := req.temperature
    topP := req.topP
    thinking := (req.extra.get "thinking").or (req.extra.get "thinking_config")
    stream := stream }

def openaiToAnthropic : AnthropicRequest :=
  openaiToAnthropicBase req false

def openaiToAnthropicStream : AnthropicRequest :=
  openaiToAnthropicBase req true

/-- The body of the loop of `openai_to_gemini`. -/
def geminiStep (acc : List Text × List GeminiContent) (m : Message) :
    List Text × List GeminiContent :=
  if m.role = "system".toList then
    match m.content with
    | .str s => (acc.1 ++ [s], acc.2)
    | _ => acc
  else if m.role = "user".toList then
    (acc.1, acc.2 ++ [⟨"user".toList, [⟨convertedText m.content⟩]⟩])
  else if m.role = "assistant".toList then
    (acc.1, acc.2 ++ [⟨"model".toList, [⟨convertedText m.content⟩]⟩])
  else acc

/-- A request without a limit gets 8192 tokens. -/
def openaiToGemini : GeminiRequest :=
  let collected := req.messages.foldl geminiStep ([], [])
  { contents := collected.2
    systemInstruction := (joined collected.1).map fun text => ⟨[⟨text⟩]⟩
    generationConfig := some
      { maxOutputTokens := some (req.maxTokens.getD 8192)
        temperature := req.temperature
        topP := req.topP
        stopSequences := stopSequencesOf req.stop
        thinkingConfig := ((req.extra.get "thinkingConfig").or
          (req.extra.get "thinking_config")).or (req.extra.get "thinking") } }

end

/-! ## The bodies -/

/-- A field with `skip_serializing_if = "Option::is_none"`. -/
def skipNone (name : String) (value : Option Value) : Fields :=
  (value.map fun v => (name, v)).toList

def textArray (texts : List Text) : Value := .arr (texts.map .str)

def number (x : F64) : Value := .num x.number

def AnthropicMessage.toValue (m : AnthropicMessage) : Value :=
  .obj [("role", .str m.role), ("content", .str m.content)]

def AnthropicRequest.body (request : AnthropicRequest) : Fields :=
  [("model", .str request.model.toList), ("max_tokens", .num (.int request.maxTokens.toNat)),
    ("system", (request.system.map .str).getD .null),
    ("messages", .arr (request.messages.map AnthropicMessage.toValue))] ++
  skipNone "stop_sequences" (request.stopSequences.map textArray) ++
  skipNone "temperature" (request.temperature.map number) ++
  skipNone "top_p" (request.topP.map number) ++ skipNone "thinking" request.thinking ++
  [("stream", .bool request.stream)]

def partsValue (parts : List GeminiPart) : Value :=
  .arr (parts.map fun part => .obj [("text", .str part.text)])

def GeminiContent.toValue (content : GeminiContent) : Value :=
  .obj [("role", .str content.role), ("parts", partsValue content.parts)]

def GeminiGenerationConfig.toValue (config : GeminiGenerationConfig) : Value :=
  .obj (skipNone "maxOutputTokens" (config.maxOutputTokens.map fun n => .num (.int n.toNat)) ++
    skipNone "temperature" (config.temperature.map number) ++
    skipNone "topP" (config.topP.map number) ++
    skipNone "stopSequences" (config.stopSequences.map textArray) ++
    skipNone "thinkingConfig" config.thinkingConfig)

def GeminiRequest.body (request : GeminiRequest) : Fields :=
  [("contents", .arr (request.contents.map GeminiContent.toValue))] ++
  skipNone "systemInstruction"
    (request.systemInstruction.map fun instruction =>
      .obj [("parts", partsValue instruction.parts)]) ++
  skipNone "generationConfig" (request.generationConfig.map GeminiGenerationConfig.toValue)

/-- The fields of the body that a provider sends for a request. -/
def ProviderKind.sentBody [SerdeJson] (req : ChatCompletionRequest) : ProviderKind → Option Fields
  | .openAi => req.encode
  | .anthropic =>
    some (if req.stream.getD false then openaiToAnthropicStream req else openaiToAnthropic req).body
  | .gemini => some (openaiToGemini req).body

theorem get_skipNone {name key : String} (hname : name ≠ key) (value : Option Value) :
    Fields.get key (skipNone name value) = none := by
  cases value with
  | none => rfl
  | some v => exact (Fields.get_cons ..).trans (if_neg hname)

/-- A body for Anthropic or Gemini has no field for the reasoning level. -/
theorem get_effort_sentBody [SerdeJson] {kind : ProviderKind} (hkind : kind ≠ .openAi)
    {req : ChatCompletionRequest} {body : Fields} (hbody : kind.sentBody req = some body) :
    Fields.get "reasoning_effort" body = none := by
  cases kind with
  | openAi => exact absurd rfl hkind
  | anthropic =>
    cases hbody
    simp [AnthropicRequest.body, Fields.get_append, Fields.get_cons, get_skipNone]
  | gemini =>
    cases hbody
    simp [GeminiRequest.body, Fields.get_append, Fields.get_cons, get_skipNone]

/-! ## The dialogue of a request -/

inductive Speaker
  | system
  | user
  | assistant
  deriving DecidableEq

structure Turn where
  speaker : Speaker
  text : Text
  deriving DecidableEq

def speakerOf (role : Text) : Option Speaker :=
  if role = "system".toList then some .system
  else if role = "user".toList then some .user
  else if role = "assistant".toList then some .assistant
  else none

def partText (part : Value) : Option Text :=
  if (part.get "type").bind Value.asStr = some "text".toList then
    (part.get "text").bind Value.asStr
  else none

def saidText : Value → Option Text
  | .str s => some s
  | .arr parts => (parts.mapM partText).map List.flatten
  | _ => none

def turnOf (m : Message) : Option Turn := do
  let speaker ← speakerOf m.role
  let text ← saidText m.content
  pure ⟨speaker, text⟩

variable (turns : List Turn)

def systemTexts : List Text :=
  (turns.filter fun turn => turn.speaker = .system).map Turn.text

def spoken : List Turn := turns.filter fun turn => turn.speaker ≠ .system

def Speaker.anthropicRole : Speaker → Text
  | .system => "system".toList
  | .user => "user".toList
  | .assistant => "assistant".toList

def Speaker.geminiRole : Speaker → Text
  | .system => "system".toList
  | .user => "user".toList
  | .assistant => "model".toList

def Turn.toAnthropic (turn : Turn) : AnthropicMessage := ⟨turn.speaker.anthropicRole, turn.text⟩

def Turn.toGemini (turn : Turn) : GeminiContent := ⟨turn.speaker.geminiRole, [⟨turn.text⟩]⟩

structure AnthropicRequest.Carries (request : AnthropicRequest) (turns : List Turn) : Prop where
  system : request.system = joined (systemTexts turns)
  messages : request.messages = (spoken turns).map Turn.toAnthropic

structure GeminiRequest.Carries (request : GeminiRequest) (turns : List Turn) : Prop where
  system : request.systemInstruction = (joined (systemTexts turns)).map fun text => ⟨[⟨text⟩]⟩
  contents : request.contents = (spoken turns).map Turn.toGemini

/-- An array of text parts prints longer than its texts are. -/
def SerdeJson.PrintsLonger [SerdeJson] : Prop :=
  ∀ (parts : List Value) (text : Text), saidText (.arr parts) = some text →
    ∃ s, SerdeJson.toString (.arr parts) = some s ∧ text.length < s.length

section

variable {parts : List Value} {text : Text} {texts : List Text}

theorem length_partText {part : Value} (htext : partText part = some text) :
    text.length < (Json.print part).length := by
  unfold partText at htext
  split_ifs at htext
  obtain ⟨value, hget, hstr⟩ := bind_eq_some_iff.mp htext
  cases value with
  | str =>
    cases hstr
    cases part with
    | obj =>
      have hprinted := Json.length_print_le_print_obj (Json.Fields.get_mem hget)
      exact (Json.length_lt_printStr text).trans_le hprinted
    | _ => cases hget
  | _ => cases hstr

theorem length_parts (htexts : parts.mapM partText = some texts) :
    texts.flatten.length ≤ (parts.map fun part => (Json.print part).length).sum := by
  rw [Json.Codec.mapM_eq_some_iff] at htexts
  induction htexts with
  | nil => exact Nat.le_refl _
  | cons htext _ ih =>
    have hfirst := length_partText htext
    rw [flatten_cons, length_append, map_cons, sum_cons]
    omega

theorem jsonText_printsLonger : @SerdeJson.PrintsLonger jsonText := by
  intro parts text htext
  obtain ⟨texts, htexts, rfl⟩ := map_eq_some_iff.mp htext
  exact ⟨_, rfl, (length_parts htexts).trans_lt (Json.sum_length_lt_print_arr parts)⟩

end

/-! ## What is sent -/

def collect {β : Type} (say : Turn → β) (acc : List Text × List β) :
    Option Turn → List Text × List β
  | none => acc
  | some ⟨.system, text⟩ => (acc.1 ++ [text], acc.2)
  | some turn => (acc.1, acc.2 ++ [say turn])

theorem anthropicRole_injective : Function.Injective Speaker.anthropicRole := by
  intro a b heq
  cases a <;> cases b <;> first | rfl | exact absurd heq (by decide)

theorem geminiRole_injective : Function.Injective Speaker.geminiRole := by
  intro a b heq
  cases a <;> cases b <;> first | rfl | exact absurd heq (by decide)

theorem toAnthropic_injective : Function.Injective Turn.toAnthropic := by
  rintro ⟨speaker, text⟩ ⟨other, said⟩ heq
  obtain ⟨hrole, htext⟩ := AnthropicMessage.mk.inj heq
  exact congrArg₂ Turn.mk (anthropicRole_injective hrole) htext

theorem toGemini_injective : Function.Injective Turn.toGemini := by
  rintro ⟨speaker, text⟩ ⟨other, said⟩ heq
  obtain ⟨hrole, hparts⟩ := GeminiContent.mk.inj heq
  have htext : text = said := GeminiPart.mk.inj (List.cons.inj hparts).1
  exact congrArg₂ Turn.mk (geminiRole_injective hrole) htext

section

variable {texts : List Text}

def systemLength (texts : List Text) : ℕ := (texts.map fun text => text.length + 2).sum

def spokenLength (turns : List Turn) : ℕ := ((spoken turns).map fun turn => turn.text.length).sum

theorem length_intercalate (hne : texts ≠ []) :
    ("\n\n".toList.intercalate texts).length + 2 = systemLength texts := by
  induction texts with
  | nil => exact absurd rfl hne
  | cons text texts ih =>
    by_cases hmore : texts = []
    · rw [hmore]
      simp [systemLength]
    · have hrest := ih hmore
      have hsep : "\n\n".toList.length = 2 := rfl
      rw [intercalate_cons_of_ne_nil hmore, length_append, length_append]
      rw [systemLength, map_cons, sum_cons, ← systemLength]
      omega

theorem systemLength_of_joined {others : List Text} (hjoined : joined texts = joined others) :
    systemLength texts = systemLength others := by
  unfold joined at hjoined
  by_cases htexts : texts = []
  · by_cases hothers : others = []
    · rw [htexts, hothers]
    · simp [htexts, hothers] at hjoined
  · by_cases hothers : others = []
    · simp [htexts, hothers] at hjoined
    · rw [if_neg (by simp [htexts]), if_neg (by simp [hothers]), some_inj] at hjoined
      rw [← length_intercalate htexts, ← length_intercalate hothers, hjoined]

theorem lengths_cons (turn : Turn) (turns : List Turn) :
    systemLength (systemTexts (turn :: turns)) =
        (if turn.speaker = .system then turn.text.length + 2 else 0) +
          systemLength (systemTexts turns) ∧
      spokenLength (turn :: turns) =
        (if turn.speaker = .system then 0 else turn.text.length) + spokenLength turns := by
  unfold systemLength spokenLength systemTexts spoken
  by_cases hspeaker : turn.speaker = .system
  · simp [hspeaker]
  · simp [hspeaker]

end

section

variable [SerdeJson]

def sentTurn (m : Message) : Option Turn :=
  match speakerOf m.role with
  | none => none
  | some .system =>
    match m.content with
    | .str s => some ⟨.system, s⟩
    | _ => none
  | some speaker => some ⟨speaker, convertedText m.content⟩

theorem anthropicStep_eq (acc : List Text × List AnthropicMessage) (m : Message) :
    anthropicStep acc m = collect Turn.toAnthropic acc (sentTurn m) := by
  obtain ⟨role, content, name, toolCalls, toolCallId⟩ := m
  unfold anthropicStep sentTurn speakerOf
  dsimp only
  by_cases hsystem : role = "system".toList
  · rw [if_pos hsystem, if_pos hsystem]
    cases content with
    | _ => rfl
  · rw [if_neg hsystem, if_neg hsystem]
    by_cases huser : role = "user".toList
    · rw [huser]
      rfl
    · by_cases hassistant : role = "assistant".toList
      · rw [hassistant]
        rfl
      · rw [if_neg (not_or.mpr ⟨huser, hassistant⟩), if_neg huser, if_neg hassistant]
        rfl

theorem geminiStep_eq (acc : List Text × List GeminiContent) (m : Message) :
    geminiStep acc m = collect Turn.toGemini acc (sentTurn m) := by
  obtain ⟨role, content, name, toolCalls, toolCallId⟩ := m
  unfold geminiStep sentTurn speakerOf
  by_cases hsystem : role = "system".toList
  · rw [if_pos hsystem, if_pos hsystem]
    cases content with
    | _ => rfl
  · rw [if_neg hsystem, if_neg hsystem]
    by_cases huser : role = "user".toList
    · rw [if_pos huser, if_pos huser]
      rfl
    · rw [if_neg huser, if_neg huser]
      by_cases hassistant : role = "assistant".toList
      · rw [if_pos hassistant, if_pos hassistant]
        rfl
      · rw [if_neg hassistant, if_neg hassistant]
        rfl

theorem foldl_collect {β : Type} {step : List Text × List β → Message → List Text × List β}
    {say : Turn → β} (hstep : ∀ acc m, step acc m = collect say acc (sentTurn m))
    (messages : List Message) (acc : List Text × List β) :
    messages.foldl step acc =
      (acc.1 ++ systemTexts (messages.filterMap sentTurn),
        acc.2 ++ (spoken (messages.filterMap sentTurn)).map say) := by
  induction messages generalizing acc with
  | nil => simp [systemTexts, spoken]
  | cons m messages ih =>
    rw [foldl_cons, ih, hstep]
    cases hsent : sentTurn m with
    | none => rw [filterMap_cons_none hsent, collect]
    | some turn =>
      obtain ⟨speaker, text⟩ := turn
      rw [filterMap_cons_some hsent]
      cases speaker with
      | _ => simp [collect, systemTexts, spoken]

variable {messages : List Message} {turns : List Turn} {turn : Turn} {m : Message}

inductive ConvertedAs (m : Message) (turn : Turn) : Prop
  | kept (hcontent : ∃ s, m.content = .str s) (hsent : sentTurn m = some turn)
  | dropped (hsystem : turn.speaker = .system) (hsent : sentTurn m = none)
  | printed {text : Text} (hspoken : turn.speaker ≠ .system)
      (hsent : sentTurn m = some ⟨turn.speaker, text⟩) (hlonger : turn.text.length < text.length)

theorem sentTurn_of_string (hturn : turnOf m = some turn) {s : Text}
    (hcontent : m.content = .str s) : sentTurn m = some turn := by
  obtain ⟨speaker, hspeaker, hturn⟩ := bind_eq_some_iff.mp hturn
  rw [hcontent] at hturn
  cases hturn
  unfold sentTurn
  rw [hspeaker, hcontent]
  cases speaker with
  | _ => rfl

variable (hjson : SerdeJson.PrintsLonger)

include hjson in
theorem sentAs_of_turnOf (hturn : turnOf m = some turn) : ConvertedAs m turn := by
  cases hcontent : m.content with
  | str s => exact .kept ⟨s, hcontent⟩ (sentTurn_of_string hturn hcontent)
  | arr parts =>
    obtain ⟨speaker, hspeaker, hturn⟩ := bind_eq_some_iff.mp hturn
    obtain ⟨text, htext, hturn⟩ := bind_eq_some_iff.mp hturn
    cases hturn
    rw [hcontent] at htext
    obtain ⟨printed, hprint, hlonger⟩ := hjson parts text htext
    have hconverted : convertedText (.arr parts) = printed := by
      simp [convertedText, hprint]
    have hsent : sentTurn m = if speaker = .system then none else some ⟨speaker, printed⟩ := by
      unfold sentTurn
      rw [hspeaker, hcontent, ← hconverted]
      cases speaker with
      | _ => rfl
    by_cases hsystem : speaker = .system
    · rw [if_pos hsystem] at hsent
      exact .dropped hsystem hsent
    · rw [if_neg hsystem] at hsent
      exact .printed hsystem hsent hlonger
  | _ =>
    obtain ⟨speaker, hspeaker, hturn⟩ := bind_eq_some_iff.mp hturn
    rw [hcontent] at hturn
    cases hturn

/-! ## What is said and what is sent -/

include hjson in
/-- Dropping a system message makes the system texts shorter, printing an array makes what is
spoken longer; neither is made up for. -/
theorem lengths_of_turns (hturns : messages.mapM turnOf = some turns) :
    systemLength (systemTexts (messages.filterMap sentTurn)) ≤ systemLength (systemTexts turns) ∧
      spokenLength turns ≤ spokenLength (messages.filterMap sentTurn) ∧
      (systemLength (systemTexts (messages.filterMap sentTurn)) =
          systemLength (systemTexts turns) →
        spokenLength turns = spokenLength (messages.filterMap sentTurn) →
        ∀ m ∈ messages, ∃ s, m.content = .str s) := by
  rw [Json.Codec.mapM_eq_some_iff] at hturns
  induction hturns with
  | nil => exact ⟨Nat.le_refl _, Nat.le_refl _, by simp⟩
  | @cons m turn messages rest hturn _ ih =>
    obtain ⟨hsystem, hspoken, hequal⟩ := ih
    have hsaid := lengths_cons turn rest
    cases sentAs_of_turnOf hjson hturn with
    | kept hcontent hsent =>
      have hkept := lengths_cons turn (messages.filterMap sentTurn)
      rw [filterMap_cons_some hsent]
      refine ⟨by omega, by omega, ?_⟩
      intro hsame hother
      exact forall_mem_cons.mpr ⟨hcontent, hequal (by omega) (by omega)⟩
    | dropped hspeaker hsent =>
      rw [filterMap_cons_none hsent, hsaid.1, hsaid.2, if_pos hspeaker, if_pos hspeaker]
      exact ⟨by omega, by omega, by omega⟩
    | printed hspeaker hsent hlonger =>
      rename_i text
      have hprinted := lengths_cons ⟨turn.speaker, text⟩ (messages.filterMap sentTurn)
      dsimp only at hprinted
      rw [if_neg hspeaker, if_neg hspeaker] at hprinted hsaid
      rw [filterMap_cons_some hsent]
      exact ⟨by omega, by omega, by omega⟩

theorem filterMap_of_strings (hturns : messages.mapM turnOf = some turns)
    (hstrings : ∀ m ∈ messages, ∃ s, m.content = .str s) : messages.filterMap sentTurn = turns := by
  rw [Json.Codec.mapM_eq_some_iff] at hturns
  induction hturns with
  | nil => rfl
  | cons hturn _ ih =>
    rw [forall_mem_cons] at hstrings
    obtain ⟨s, hcontent⟩ := hstrings.1
    rw [filterMap_cons_some (sentTurn_of_string hturn hcontent), ih hstrings.2]

include hjson in
theorem sent_iff_strings (hturns : messages.mapM turnOf = some turns) :
    (joined (systemTexts (messages.filterMap sentTurn)) = joined (systemTexts turns) ∧
        spoken (messages.filterMap sentTurn) = spoken turns) ↔
      ∀ m ∈ messages, ∃ s, m.content = .str s := by
  constructor
  · rintro ⟨hjoined, hspoken⟩
    refine (lengths_of_turns hjson hturns).2.2 (systemLength_of_joined hjoined) ?_
    rw [spokenLength, spokenLength, hspoken]
  · intro hstrings
    rw [filterMap_of_strings hturns hstrings]
    exact ⟨rfl, rfl⟩

theorem openaiToAnthropicBase_carries_iff (req : ChatCompletionRequest) (stream : Bool)
    (turns : List Turn) :
    (openaiToAnthropicBase req stream).Carries turns ↔
      joined (systemTexts (req.messages.filterMap sentTurn)) = joined (systemTexts turns) ∧
        spoken (req.messages.filterMap sentTurn) = spoken turns := by
  have hrun := foldl_collect anthropicStep_eq req.messages ([], [])
  have hsystem : (openaiToAnthropicBase req stream).system = joined _ :=
    congrArg (fun collected : _ × _ => joined collected.1) hrun
  have hmessages : (openaiToAnthropicBase req stream).messages = _ := congrArg Prod.snd hrun
  rw [← (map_injective_iff.mpr toAnthropic_injective).eq_iff]
  constructor
  · rintro ⟨hfirst, hsecond⟩
    exact ⟨hsystem.symm.trans hfirst, hmessages.symm.trans hsecond⟩
  · rintro ⟨hfirst, hsecond⟩
    exact ⟨hsystem.trans hfirst, hmessages.trans hsecond⟩

theorem openaiToGemini_carries_iff (req : ChatCompletionRequest) (turns : List Turn) :
    (openaiToGemini req).Carries turns ↔
      joined (systemTexts (req.messages.filterMap sentTurn)) = joined (systemTexts turns) ∧
        spoken (req.messages.filterMap sentTurn) = spoken turns := by
  have hrun := foldl_collect geminiStep_eq req.messages ([], [])
  have hinstruction : Function.Injective
      (Option.map fun text : Text => (⟨[⟨text⟩]⟩ : GeminiSystemInstruction)) := by
    apply map_injective
    intro text other heq
    cases heq
    rfl
  rw [← (map_injective_iff.mpr toGemini_injective).eq_iff, ← hinstruction.eq_iff]
  constructor
  · rintro ⟨hsystem, hcontents⟩
    rw [openaiToGemini, hrun] at hsystem hcontents
    exact ⟨hsystem, hcontents⟩
  · rintro ⟨hsystem, hcontents⟩
    constructor
    · rw [openaiToGemini, hrun]
      exact hsystem
    · rw [openaiToGemini, hrun]
      exact hcontents

/-- Both conversions carry what a request says exactly if every content is a string. -/
theorem conversions_carry_iff (hjson : SerdeJson.PrintsLonger) (req : ChatCompletionRequest)
    (stream : Bool) {turns : List Turn} (hturns : req.messages.mapM turnOf = some turns) :
    ((openaiToAnthropicBase req stream).Carries turns ↔
        ∀ m ∈ req.messages, ∃ s, m.content = .str s) ∧
      ((openaiToGemini req).Carries turns ↔ ∀ m ∈ req.messages, ∃ s, m.content = .str s) := by
  rw [openaiToAnthropicBase_carries_iff, openaiToGemini_carries_iff,
    sent_iff_strings hjson hturns]
  exact ⟨Iff.rfl, Iff.rfl⟩

end

def instructedRequest (system question : Value) : ChatCompletionRequest where
  model := "m"
  messages :=
    [⟨"system".toList, system, none, none, none⟩, ⟨"user".toList, question, none, none, none⟩]
  extra := .obj []

def onePart (text : String) : Value :=
  .arr [.obj [("text", .str text.toList), ("type", .str "text".toList)]]

def instructedTurns : List Turn := [⟨.system, "Be brief.".toList⟩, ⟨.user, "Hi".toList⟩]

section

attribute [local instance] jsonText

theorem strings_carried :
    (openaiToAnthropicBase (instructedRequest (.str "Be brief.".toList) (.str "Hi".toList))
        false).Carries instructedTurns ∧
      (openaiToGemini (instructedRequest (.str "Be brief.".toList) (.str "Hi".toList))).Carries
        instructedTurns := by
  have hcarry := conversions_carry_iff jsonText_printsLonger
    (instructedRequest (.str "Be brief.".toList) (.str "Hi".toList)) false
    (by decide : _ = some instructedTurns)
  have hstrings : ∀ m ∈ (instructedRequest (.str "Be brief.".toList) (.str "Hi".toList)).messages,
      ∃ s, m.content = .str s := by
    simp [instructedRequest]
  exact ⟨hcarry.1.mpr hstrings, hcarry.2.mpr hstrings⟩

/-- Of text parts the instruction is lost, and the question is sent as JSON. -/
theorem parts_not_carried :
    (instructedRequest (onePart "Be brief.") (onePart "Hi")).messages.mapM turnOf =
        some instructedTurns ∧
      (openaiToAnthropicBase (instructedRequest (onePart "Be brief.") (onePart "Hi"))
        false).system = none ∧
      (openaiToAnthropicBase (instructedRequest (onePart "Be brief.") (onePart "Hi"))
        false).messages =
          [⟨"user".toList, "[\x7b\"text\":\"Hi\",\"type\":\"text\"\x7d]".toList⟩] ∧
      (openaiToGemini (instructedRequest (onePart "Be brief.") (onePart "Hi"))).systemInstruction =
        none ∧
      (openaiToGemini (instructedRequest (onePart "Be brief.") (onePart "Hi"))).contents =
          [⟨"user".toList, [⟨"[\x7b\"text\":\"Hi\",\"type\":\"text\"\x7d]".toList⟩]⟩] := by
  decide +kernel

end

end LlmProxy
