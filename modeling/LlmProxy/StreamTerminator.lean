import LlmProxy.DataLines
import LlmProxy.JsonText
import LlmProxy.StreamChoices

/-!
# The terminator of a normalised stream

Whether the stream sent to a client ends with its only `[DONE]`.
-/

namespace LlmProxy

open Json (Text Value Fields)
open LineCut List Option
open NormalizingStream
open Utf8Bytes

/-- What the stream relies on in its JSON library: values print, in one line,
objects print with a brace first, and only such texts parse as objects. -/
structure SerdeJson.Lawful [SerdeJson] : Prop where
  prints : ∀ value : Value, ∃ s, SerdeJson.toString value = some s
  oneLine : ∀ (value : Value) (s : Text), SerdeJson.toString value = some s → '\n' ∉ s ∧ '\r' ∉ s
  printsObject : ∀ (fields : Fields) (s : Text), SerdeJson.toString (.obj fields) = some s →
    s.head? = some '{'
  parsesObject : ∀ (s : Text) (fields : Fields), SerdeJson.fromStr s = some (.obj fields) →
    (trimStart s).head? = some '{'

/-! ## Exactly one terminator, at the end -/

def EndsWithDone (events : List Bytes) : Prop :=
  ∃ others done, events = others ++ [done] ∧ isDone done = true ∧
    ∀ other ∈ others, isDone other = false

def DoneIsLast (bytes : Bytes) : Prop :=
  ∀ before line after, dataLines bytes = before ++ line :: after → isDone line = true → after = []

theorem countP_isDone_eq_zero {lines : List Bytes} (hlines : ∀ line ∈ lines, isDone line = false) :
    lines.countP isDone = 0 := by
  rw [countP_eq_zero]
  intro line hline
  rw [hlines line hline]
  exact Bool.false_ne_true

theorem endsWithDone_iff (events : List Bytes) :
    EndsWithDone events ↔ events.countP isDone = 1 ∧
      ∃ front done, events = front ++ [done] ∧ isDone done = true := by
  constructor
  · rintro ⟨others, done, rfl, hdone, hothers⟩
    exact ⟨by simp [countP_isDone_eq_zero hothers, hdone], others, done, rfl, hdone⟩
  · rintro ⟨hcount, front, done, rfl, hdone⟩
    refine ⟨front, done, rfl, hdone, ?_⟩
    rw [countP_append, countP_singleton, hdone, if_pos rfl] at hcount
    have hnone : front.countP isDone = 0 := by omega
    intro other hother
    rw [Bool.eq_false_iff]
    exact countP_eq_zero.mp hnone other hother

variable {sent : List Value} {held : List Bytes} {bytes done : Bytes}

theorem endsWithDone_added_iff {body : List Bytes} (hheld : ∀ line ∈ held, isDone line = false)
    (hdone : isDone done = true) :
    EndsWithDone (body ++ (held ++ [done])) ↔ body.countP isDone = 0 := by
  have hheldCount := countP_isDone_eq_zero hheld
  rw [endsWithDone_iff, countP_append, countP_append, countP_singleton, hdone, if_pos rfl]
  constructor
  · rintro ⟨hcount, -⟩
    omega
  · intro hcount
    exact ⟨by omega, body ++ held, done, (append_assoc _ _ _).symm, hdone⟩

theorem endsWithDone_held_iff {front : List Bytes} (hheld : ∀ line ∈ held, isDone line = false)
    (hdone : isDone done = true) :
    EndsWithDone (front ++ [done] ++ held) ↔ (front ++ [done]).countP isDone = 1 ∧ held = [] := by
  rcases eq_nil_or_concat' held with rfl | ⟨heldFront, heldLast, rfl⟩
  · rw [append_nil, endsWithDone_iff]
    simp only [and_true]
    constructor
    · exact And.left
    · intro hcount
      exact ⟨hcount, front, done, rfl, hdone⟩
  · constructor
    · rintro ⟨others, last, hsplit, hlast, -⟩
      rw [← append_assoc] at hsplit
      have hsame := singleton_injective (append_inj' hsplit rfl).2
      rw [← hsame, hheld heldLast (by simp)] at hlast
      cases hlast
    · rintro ⟨-, hnil⟩
      simp at hnil

theorem countP_dropEnd_eq_iff (data : List Bytes) :
    (data.countP fun content => isDone (dropEnd carriageReturn content)) =
        data.countP isDone ↔
      ∀ content ∈ data, isDone (dropEnd carriageReturn content) = true →
        isDone content = true := by
  induction data with
  | nil => simp
  | cons content data ih =>
    have hmono : data.countP isDone ≤
        data.countP fun content => isDone (dropEnd carriageReturn content) :=
      countP_mono_left fun other _ hdone => isDone_dropEnd hdone
    rw [forall_mem_cons, countP_cons, countP_cons]
    cases hdone : isDone content with
    | true =>
      rw [isDone_dropEnd hdone]
      simpa using ih
    | false =>
      cases hlate : isDone (dropEnd carriageReturn content) with
      | true =>
        simp only [if_true, Bool.false_eq_true, if_false]
        constructor
        · intro heq
          omega
        · intro hall
          exact (hall.1 trivial).elim
      | false => simpa using ih

theorem countP_eq_one_of_last {data : List Bytes}
    (hlast : ∀ before line after, data = before ++ line :: after → isDone line = true →
      after = []) {line : Bytes} (hmem : line ∈ data) (hdone : isDone line = true) :
    data.countP isDone = 1 ∧ ∃ before, data = before ++ [line] := by
  obtain ⟨before, after, hsplit⟩ := append_of_mem hmem
  obtain rfl := hlast before line after hsplit hdone
  have hnone : before.countP isDone = 0 := by
    rw [countP_eq_zero]
    intro other hother hotherDone
    obtain ⟨front, back, hback⟩ := append_of_mem hother
    have hnil := hlast front other (back ++ [line]) (by rw [hsplit, hback]; simp) hotherDone
    simp at hnil
  rw [hsplit, countP_append, hnone]
  simp [hdone]

theorem pending_of_forwardChunks {chunks : List Value} {last : ThinkTagAccumulator}
    (hforwards : forwardChunks (.new builtinThinkPairs) chunks = some (sent, last)) :
    last.pending = [] ↔ leftOver (contentText chunks) = none := by
  obtain ⟨out, acc, hsame, -, hstate, -⟩ :=
    forwardChunks_spec ThinkTagAccumulator.settled_new chunks
  rw [hforwards] at hsame
  obtain ⟨-, rfl⟩ := hsame
  have hheld : (scanned (contentText chunks)).held = last.pending := by
    have hquiet := (splitReadings_state (chunks.flatMap choicesOf)).symm.trans hstate
    exact congrArg MarkerScan.Scan.held hquiet
  have hflush := flushReadings_scanned (contentText chunks)
  rw [flushReadings, hheld] at hflush
  cases hleft : leftOver (contentText chunks) with
  | none =>
    rw [hleft] at hflush
    cases hpending : last.pending with
    | nil => simp
    | cons => simp [hpending] at hflush
  | some =>
    rw [hleft] at hflush
    cases hpending : last.pending with
    | nil => simp [hpending] at hflush
    | cons => simp

section

variable [SerdeJson]

structure Adds (n : LineNormaliser) (data : List Bytes) (out : Bytes) (next : LineNormaliser) :
    Prop where
  settled : next.acc.Settled
  closed : (cutLines newline out).2 = []
  silent : data = [] → dataLines out = []
  counted : (dataLines out).countP isDone =
    data.countP fun content => isDone (dropEnd carriageReturn content)
  last : ∀ before content, data = before ++ [content] → isDone content = true →
    ∃ front done, dataLines out = front ++ [done] ∧ isDone done = true
  seenDone : next.seenDone = (n.seenDone || data.any isDone)
  forwards : ∃ sent, forwardChunks n.acc (data.filterMap chunkOf) = some (sent, next.acc)

variable {n : LineNormaliser} {line out content : Bytes} {rest : Text}

theorem Adds.append {mid next : LineNormaliser} {a b : List Bytes} {more : Bytes}
    (ha : Adds n a out mid) (hb : Adds mid b more next) : Adds n (a ++ b) (out ++ more) next where
  settled := hb.settled
  closed := by
    rw [cutLines_append ha.closed]
    exact hb.closed
  silent := by
    intro hnil
    obtain ⟨hanil, hbnil⟩ := append_eq_nil_iff.mp hnil
    rw [dataLines_append ha.closed, ha.silent hanil, hb.silent hbnil, append_nil]
  counted := by
    rw [dataLines_append ha.closed, countP_append, countP_append, ha.counted, hb.counted]
  last := by
    intro before content hsplit hdone
    rw [dataLines_append ha.closed]
    rcases eq_nil_or_concat' b with rfl | ⟨front, last, rfl⟩
    · rw [append_nil] at hsplit
      rw [hb.silent rfl, append_nil]
      exact ha.last before content hsplit hdone
    · rw [← append_assoc] at hsplit
      have hlast := singleton_injective (append_inj' hsplit rfl).2
      obtain ⟨sent, done, hsent, hsentDone⟩ := hb.last front last rfl (hlast ▸ hdone)
      exact ⟨dataLines out ++ sent, done, by rw [hsent, append_assoc], hsentDone⟩
  seenDone := by
    rw [hb.seenDone, ha.seenDone, any_append, Bool.or_assoc]
  forwards := by
    obtain ⟨sent, hsent⟩ := ha.forwards
    obtain ⟨sentMore, hsentMore⟩ := hb.forwards
    rw [filterMap_append]
    exact ⟨sent ++ sentMore, forwardChunks_append hsent hsentMore⟩

/-! ## One line -/

theorem adds_silent (hsettled : n.acc.Settled) (hclosed : (cutLines newline out).2 = [])
    (hnone : dataLines out = []) : Adds n [] out n where
  settled := hsettled
  closed := hclosed
  silent := fun _ => hnone
  counted := by rw [hnone]; rfl
  last := by
    intro before content hsplit
    simp at hsplit
  seenDone := by simp
  forwards := ⟨[], rfl⟩

variable {acc : ThinkTagAccumulator} {fields : Fields}

theorem adds_undone (hsettled : acc.Settled) (hclosed : (cutLines newline out).2 = [])
    (hundone : isDone content = false) (hcounted : (dataLines out).countP isDone =
      [content].countP fun content => isDone (dropEnd carriageReturn content))
    (hforwards : forwardChunks n.acc (chunkOf content).toList = some (sent, acc)) :
    Adds n [content] out { n with acc := acc } where
  settled := hsettled
  closed := hclosed
  silent := fun hnil => by cases hnil
  counted := hcounted
  last := by
    intro before last hsplit hdone
    have hlast : last = content := by
      have hinj := append_inj' (show [] ++ [content] = before ++ [last] from hsplit) rfl
      exact (singleton_injective hinj.2).symm
    rw [hlast, hundone] at hdone
    cases hdone
  seenDone := by simp [hundone]
  forwards := by
    refine ⟨sent, ?_⟩
    rw [← hforwards]
    cases hchunk : chunkOf content with
    | none => simp [hchunk]
    | some => simp [hchunk]

omit [SerdeJson] in
theorem isDone_terminator : isDone (utf8 "data: [DONE]") = true := by decide

theorem adds_done (hsettled : n.acc.Settled) (hdone : isDone content = true)
    (hchunk : chunkOf content = none) : Adds n [content] doneEvent { n with seenDone := true } := by
  have hlines : dataLines doneEvent = [utf8 "data: [DONE]"] := by decide
  constructor
  · exact hsettled
  · decide
  · intro hnil
    cases hnil
  · rw [hlines, countP_singleton, countP_singleton, isDone_terminator, isDone_dropEnd hdone]
  · intro before last hsplit hlast
    exact ⟨[], _, hlines, isDone_terminator⟩
  · simp [hdone]
  · exact ⟨[], by simp [hchunk, forwardChunks]⟩

theorem chunkOf_data (rest : Text) :
    chunkOf (toBytes (dataField ++ rest)) = parseObject (trimStart rest) := by
  rw [chunkOf, payloadOf_data, bind_some]

theorem adds_payload (hsettled : n.acc.Settled) (hone : '\n' ∉ rest)
    (hundone : trimStart rest ≠ "[DONE]".toList) (hnone : parseObject (trimStart rest) = none) :
    Adds n [toBytes (dataField ++ rest)] (sseLine (dataField ++ rest)) n := by
  have hfree : '\n' ∉ dataField ++ rest := by
    rw [mem_append, not_or]
    exact ⟨by decide, hone⟩
  have hforwards : forwardChunks n.acc (chunkOf (toBytes (dataField ++ rest))).toList =
      some ([], n.acc) := by
    rw [chunkOf_data, hnone]
    rfl
  apply adds_undone hsettled (cutLines_sseLine hfree) ?_ ?_ hforwards
  · rw [Bool.eq_false_iff, Ne, isDone_data]
    exact hundone
  · rw [dataLines_sseLine hfree, dropEnd_data, filter_isData_data, ← dropEnd_data,
      ← carriageReturn_single.dropEnd_toBytes, countP_singleton, countP_singleton]

theorem invalid_line (hfrom : fromBytes content = none) :
    isDone content = false ∧ chunkOf content = none := by
  have hpayload : payloadOf content = none := by
    unfold payloadOf
    rw [hfrom]
  constructor
  · simp [isDone, hpayload]
  · rw [chunkOf, hpayload, bind_none]

theorem adds_invalid (hsettled : n.acc.Settled) (hline : IsLine newline line)
    (hfrom : fromBytes line = none) : Adds n ([lineContent line].filter isData) line n := by
  have hcontent : fromBytes (lineContent line) = none :=
    carriageReturn_single.fromBytes_dropEnd (newline_single.fromBytes_dropEnd hfrom)
  have hless := carriageReturn_single.fromBytes_dropEnd hcontent
  obtain ⟨hundone, hchunk⟩ := invalid_line hcontent
  have hlines := dataLines_line hline
  have hclosed : (cutLines newline line).2 = [] := by rw [cutLines_line hline]
  cases hdata : isData (lineContent line) with
  | true =>
    have hone : [lineContent line].filter isData = [lineContent line] := by simp [hdata]
    rw [hone] at hlines ⊢
    have hforwards : forwardChunks n.acc (chunkOf (lineContent line)).toList =
        some ([], n.acc) := by
      rw [hchunk]
      rfl
    apply adds_undone hsettled hclosed hundone ?_ hforwards
    rw [hlines, countP_singleton, countP_singleton, hundone, (invalid_line hless).1]
  | false =>
    have hnone : [lineContent line].filter isData = [] := by simp [hdata]
    rw [hnone] at hlines ⊢
    exact adds_silent hsettled hclosed hlines

theorem adds_sseLine (hsettled : n.acc.Settled) {text : Text} (hone : '\n' ∉ text)
    (hother : ¬ dataField <+: text) : Adds n ([toBytes text].filter isData) (sseLine text) n := by
  have hdata : isData (toBytes text) = false := by
    rw [Bool.eq_false_iff, Ne, isData_toBytes]
    exact hother
  have hnone : [toBytes text].filter isData = [] := by simp [hdata]
  rw [hnone]
  apply adds_silent hsettled (cutLines_sseLine hone)
  rw [dataLines_sseLine hone, filter_eq_nil_iff]
  intro content hmem
  obtain rfl := mem_singleton.mp hmem
  rw [isData_toBytes]
  intro hpre
  exact hother (hpre.trans (dropEnd_isPrefix '\r' text))

theorem getD_assembleDrained (flushed : Text) (asReasoning seenDone : Bool) :
    (assembleDrained flushed asReasoning seenDone).getD [] =
      drainedChunk flushed asReasoning ++ (if seenDone then [] else doneEvent) := by
  unfold assembleDrained
  generalize drainedChunk flushed asReasoning ++ (if seenDone then [] else doneEvent) = out
  cases out with
  | nil => rfl
  | cons => rfl

section

variable (hjson : SerdeJson.Lawful)

include hjson

theorem dataLines_dataEvent {s : Text} (hprint : SerdeJson.toString (.obj fields) = some s) :
    (cutLines newline (dataEvent s)).2 = [] ∧
      ∃ line, dataLines (dataEvent s) = [line] ∧ isDone line = false := by
  obtain ⟨hnewline, hreturn⟩ := hjson.oneLine _ _ hprint
  have hspace : "data: ".toList ++ s = dataField ++ ' ' :: s := rfl
  have hone : '\n' ∉ dataField ++ ' ' :: s := by
    rw [← hspace, mem_append, not_or]
    exact ⟨by decide, hnewline⟩
  have hkept : dropEnd '\r' (dataField ++ ' ' :: s) = dataField ++ ' ' :: s := by
    apply dropEnd_of_not_mem
    rw [← hspace, mem_append, not_or]
    exact ⟨by decide, hreturn⟩
  have hbrace : (trimStart (' ' :: s)).head? = some '{' := by
    have hhead := hjson.printsObject _ _ hprint
    cases s with
    | nil => cases hhead
    | cons =>
      rw [head?_cons, some_inj] at hhead
      rw [hhead]
      rfl
  rw [dataEvent_eq, hspace]
  refine ⟨cutLines_sseLine hone, toBytes (dataField ++ ' ' :: s), ?_, (isDone_object hbrace).1⟩
  rw [dataLines_sseLine hone, hkept, filter_isData_data]

theorem dataLines_forwardedLine {payload : Text} {chunk : Fields} (hline : IsLine newline line)
    (hcontent : lineContent line = toBytes (dataField ++ rest))
    (hbrace : (trimStart rest).head? = some '{') :
    (cutLines newline (forwardedLine line payload (.obj chunk))).2 = [] ∧
      (dataLines (forwardedLine line payload (.obj chunk))).countP isDone = 0 := by
  obtain ⟨s, hprint⟩ := hjson.prints (.obj chunk)
  unfold forwardedLine
  rw [hprint]
  dsimp only
  split_ifs
  · obtain ⟨hclosed, sent, hlines, hundone⟩ := dataLines_dataEvent hjson hprint
    refine ⟨hclosed, ?_⟩
    rw [hlines, List.countP_singleton, hundone]
    rfl
  · constructor
    · rw [cutLines_line hline]
    · rw [dataLines_line hline, hcontent, filter_isData_data, List.countP_singleton,
        (isDone_object hbrace).1]
      rfl

theorem adds_object (hacc : acc.Settled) {chunk : Value} {emit : Bool} (hline : IsLine newline line)
    (hcontent : lineContent line = toBytes (dataField ++ rest))
    (hparse : SerdeJson.fromStr (trimStart rest) = some (.obj fields))
    (hrewrite : rewriteChunkValue n.acc (.obj fields) = some (chunk, emit, acc)) :
    Adds n [toBytes (dataField ++ rest)]
      ((if emit then some (forwardedLine line (trimStart rest) chunk) else none).getD [])
      { n with acc := acc } := by
  have hbrace : (trimStart rest).head? = some '{' := by
    rw [← trimStart_trimStart]
    exact hjson.parsesObject _ _ hparse
  have hchunk : chunkOf (toBytes (dataField ++ rest)) = some (.obj fields) := by
    rw [chunkOf_data, parseObject, hparse]
  have hforwards : forwardChunks n.acc (chunkOf (toBytes (dataField ++ rest))).toList =
      some ((if emit then [chunk] else []) ++ [], acc) := by
    rw [hchunk]
    simp [forwardChunks, hrewrite]
  obtain ⟨rewritten, rfl⟩ := rewriteChunkValue_obj hrewrite
  obtain ⟨hundone, hlate⟩ := isDone_object hbrace
  have hcount : [toBytes (dataField ++ rest)].countP
      (fun content => isDone (dropEnd carriageReturn content)) = 0 := by
    rw [countP_singleton, hlate]
    rfl
  cases emit with
  | true =>
    obtain ⟨hclosed, hsent⟩ := dataLines_forwardedLine hjson hline hcontent hbrace
    exact adds_undone hacc hclosed hundone (hsent.trans hcount.symm) hforwards
  | false => exact adds_undone hacc rfl hundone hcount.symm hforwards

theorem transformPayload_adds (hsettled : n.acc.Settled) (hline : IsLine newline line)
    (hcontent : lineContent line = toBytes (dataField ++ rest)) (hone : '\n' ∉ rest) :
    ∃ out next, transformPayload n line (dataField ++ rest) (trimStart rest) =
        some (out, next) ∧
      Adds n [toBytes (dataField ++ rest)] (out.getD []) next := by
  obtain ⟨out, next, hstep, hnext⟩ :=
    transformPayload_settled hsettled line (dataField ++ rest) (trimStart rest)
  refine ⟨out, next, hstep, ?_⟩
  rcases transformPayload_path hstep with
    ⟨hdone, rfl, rfl⟩ | ⟨fields, chunk, emit, acc, hparse, -, hrewrite, rfl, rfl⟩ |
      ⟨hother, hundone, rfl, rfl⟩
  · refine adds_done hsettled ((isDone_data rest).mpr hdone) ?_
    rw [chunkOf_data, hdone, parseObject]
    split
    · rename_i fields hparse
      exact absurd (hjson.parsesObject _ _ hparse) (by decide)
    · rfl
  · exact adds_object hjson hnext hline hcontent hparse hrewrite
  · refine adds_payload hsettled hone hundone ?_
    rw [parseObject]
    split
    · rename_i fields hparse
      exact absurd hparse (hother fields)
    · rfl

theorem transformLine_adds (hsettled : n.acc.Settled) (hline : IsLine newline line) :
    ∃ out next, transformLine n line = some (out, next) ∧
      Adds n ([lineContent line].filter isData) (out.getD []) next := by
  unfold transformLine
  cases hfrom : fromBytes line with
  | none => exact ⟨some line, n, rfl, adds_invalid hsettled hline hfrom⟩
  | some text =>
    obtain ⟨hcontent, hone⟩ := lineContent_of_text hline hfrom
    dsimp only
    rw [hcontent]
    split_ifs with hempty
    · refine ⟨_, _, rfl, ?_⟩
      rw [List.isEmpty_iff.mp hempty]
      exact adds_silent hsettled rfl rfl
    · cases hdrop : (dropEnd '\r' (dropEnd '\n' text)).dropPrefix? dataField with
      | none =>
        exact ⟨_, _, rfl, adds_sseLine hsettled hone (dropPrefix_eq_none hdrop)⟩
      | some =>
        have hsplit := dropPrefix_eq_some hdrop
        rw [hsplit] at hcontent hone ⊢
        apply transformPayload_adds hjson hsettled hline hcontent
        exact fun hmem => hone (mem_append_right _ hmem)

theorem transformLines_adds (hsettled : n.acc.Settled) {lines : List Bytes}
    (hlines : ∀ line ∈ lines, IsLine newline line) :
    ∃ out next, transformLines n lines = some (out, next) ∧
      Adds n ((lines.map lineContent).filter isData) out next := by
  induction lines generalizing n with
  | nil => exact ⟨[], n, rfl, adds_silent hsettled rfl rfl⟩
  | cons line lines ih =>
    obtain ⟨added, mid, hstep, hadds⟩ :=
      transformLine_adds hjson hsettled (hlines line mem_cons_self)
    obtain ⟨out, next, hrest, haddsRest⟩ :=
      ih hadds.settled (fun other hother => hlines other (mem_cons_of_mem _ hother))
    refine ⟨added.getD [] ++ out, next, by simp [transformLines, hstep, hrest], ?_⟩
    have hsplit : ((line :: lines).map lineContent).filter isData =
        [lineContent line].filter isData ++ (lines.map lineContent).filter isData := by
      rw [map_cons, ← singleton_append, filter_append]
    rw [hsplit]
    exact hadds.append haddsRest

theorem dataLines_drainedChunk (flushed : Text) (asReasoning : Bool) :
    (cutLines newline (drainedChunk flushed asReasoning)).2 = [] ∧
      (∀ line ∈ dataLines (drainedChunk flushed asReasoning), isDone line = false) ∧
      (dataLines (drainedChunk flushed asReasoning) = [] ↔ flushed = []) := by
  unfold drainedChunk
  cases flushed with
  | nil =>
    have hnone : dataLines [] = [] := rfl
    exact ⟨rfl, by simp [hnone], by simp [hnone]⟩
  | cons c flushed =>
    obtain ⟨s, hprint⟩ := hjson.prints (flushedChunk (c :: flushed) asReasoning)
    obtain ⟨hclosed, line, hlines, hundone⟩ := dataLines_dataEvent hjson hprint
    rw [hprint]
    simp only [isEmpty_cons, Bool.false_eq_true, if_false]
    refine ⟨hclosed, ?_, ?_⟩
    · rw [hlines]
      intro other hother
      rw [mem_singleton.mp hother, hundone]
    · simp [hlines]

/-- The flush is a data line with the held text, if there is any, and the
terminator, if there was none. -/
theorem dataLines_flushEof (n : LineNormaliser) :
    ∃ held : List Bytes, (∀ line ∈ held, isDone line = false) ∧
      (held = [] ↔ n.acc.pending = []) ∧
      dataLines ((flushEof n).1.getD []) =
        held ++ (if n.seenDone then [] else [utf8 "data: [DONE]"]) := by
  have hdone : dataLines (if n.seenDone then [] else doneEvent) =
      if n.seenDone then [] else [utf8 "data: [DONE]"] := by
    cases n.seenDone with
    | true => rfl
    | false => decide
  have hflush : (flushEof n).1 =
      assembleDrained n.acc.pending (flushesAsReasoning n.acc) n.seenDone := rfl
  obtain ⟨hclosed, hundone, hempty⟩ :=
    dataLines_drainedChunk hjson n.acc.pending (flushesAsReasoning n.acc)
  refine ⟨_, hundone, hempty, ?_⟩
  rw [hflush, getD_assembleDrained, dataLines_append hclosed, hdone]

/-- A stream ends with its only terminator unless the upstream sent one while
text was still held, or one that shows only without another carriage return. -/
theorem endsWithDone_normalised_iff (hlast : DoneIsLast bytes)
    (hout : normalised .new bytes = some out) :
    EndsWithDone (dataLines out) ↔
      (∀ content ∈ dataLines bytes, isDone (dropEnd carriageReturn content) = true →
        isDone content = true) ∧
      ((∀ content ∈ dataLines bytes, isDone content = false) ∨
        leftOver (contentText ((dataLines bytes).filterMap chunkOf)) = none) := by
  have hsettled : LineNormaliser.new.acc.Settled := ThinkTagAccumulator.settled_new
  obtain ⟨body, next, hbody, hadds⟩ := transformLines_adds hjson hsettled
    (isLine_of_mem_cutLines (closeLine newline bytes))
  obtain ⟨held, hheld, hempty, hflush⟩ := dataLines_flushEof hjson next
  have hwhole : out = body ++ (flushEof next).1.getD [] := by
    unfold normalised at hout
    rw [hbody, map_some, some_inj] at hout
    exact hout.symm
  have hlines : dataLines out = dataLines body ++ (held ++
      (if next.seenDone then [] else [utf8 "data: [DONE]"])) := by
    rw [hwhole, dataLines_append hadds.closed, hflush]
  have hdata : ((cutLines newline (closeLine newline bytes)).1.map lineContent).filter isData =
      dataLines bytes := rfl
  rw [hdata] at hadds
  obtain ⟨sent, hforwards⟩ := hadds.forwards
  have hpending := pending_of_forwardChunks hforwards
  rw [← countP_dropEnd_eq_iff, ← hadds.counted, ← hpending, ← hempty, hlines]
  -- Without a terminator upstream the flush adds it last; otherwise held text follows it.
  by_cases hnone : ∀ content ∈ dataLines bytes, isDone content = false
  · have hseen : next.seenDone = false := by
      rw [hadds.seenDone, Bool.or_eq_false_iff, List.any_eq_false]
      exact ⟨rfl, fun content hmem => by simp [hnone content hmem]⟩
    rw [hseen, if_neg Bool.false_ne_true, endsWithDone_added_iff hheld isDone_terminator,
      countP_isDone_eq_zero hnone]
    exact ⟨fun hcount => ⟨hcount, .inl hnone⟩, And.left⟩
  · have hsome : ∃ content ∈ dataLines bytes, isDone content = true := by
      push Not at hnone
      obtain ⟨content, hmem, hcontent⟩ := hnone
      exact ⟨content, hmem, by simpa using hcontent⟩
    obtain ⟨content, hmem, hcontent⟩ := hsome
    obtain ⟨hone, before, hbefore⟩ := countP_eq_one_of_last hlast hmem hcontent
    obtain ⟨front, done, hfront, hfrontDone⟩ := hadds.last before content hbefore hcontent
    have hseen : next.seenDone = true := by
      rw [hadds.seenDone, Bool.or_eq_true, List.any_eq_true]
      exact .inr ⟨content, hmem, hcontent⟩
    rw [hseen, if_pos rfl, append_nil, hfront, endsWithDone_held_iff hheld hfrontDone, hone]
    simp only [hnone, false_or]

end

/-- The terminator of the upstream is forwarded when it arrives, and the text the tag accumulator
still holds is sent at the end of the upstream, hence after it. -/
theorem stream_endsWithDone_iff (hjson : SerdeJson.Lawful) {events : List Poll}
    (hflowing : Flowing events) (hlast : DoneIsLast (upcoming events)) :
    ∃ outs, collect (events ++ [.finished]) = some outs ∧
      (EndsWithDone (dataLines outs.flatten) ↔
        (∀ content ∈ dataLines (upcoming events),
          isDone (dropEnd carriageReturn content) = true → isDone content = true) ∧
        ((∀ content ∈ dataLines (upcoming events), isDone content = false) ∨
          leftOver (contentText ((dataLines (upcoming events)).filterMap chunkOf)) = none)) := by
  obtain ⟨outs, hcollect, hnormalised⟩ := collect_eq_normalised hflowing
  exact ⟨outs, hcollect, endsWithDone_normalised_iff hjson hlast hnormalised⟩

end

variable {s : Text} {c : Char}

/-- The JSON library as its text format has it. -/
@[reducible] def jsonText : SerdeJson where
  fromStr := Json.parse
  toString value := some (Json.print value)

theorem head_dropWhile_of_imp {p q : Char → Bool} (himp : ∀ c, p c = true → q c = true)
    (hhead : (s.dropWhile p).head? = some c) (hstop : q c = false) :
    (s.dropWhile q).head? = some c := by
  induction s with
  | nil => exact hhead
  | cons d s ih =>
    by_cases hskip : p d = true
    · rw [dropWhile_cons_of_pos hskip] at hhead
      rw [dropWhile_cons_of_pos (himp d hskip)]
      exact ih hhead
    · rw [dropWhile_cons_of_neg hskip, head?_cons, Option.some_inj] at hhead
      rw [hhead, dropWhile_cons_of_neg (by rw [hstop]; exact Bool.false_ne_true), head?_cons]

theorem isWhitespace_of_isSpace (c : Char) (hspace : Json.isSpace c = true) :
    isWhitespace c = true := by
  simp only [Json.isSpace, Bool.or_eq_true, beq_iff_eq] at hspace
  rcases hspace with ((rfl | rfl) | rfl) | rfl
  · decide
  · decide
  · decide
  · decide

theorem jsonText_lawful : @SerdeJson.Lawful jsonText := by
  let := jsonText
  constructor
  · intro value
    exact ⟨_, rfl⟩
  · intro value s hprint
    cases hprint
    have hvisible := Json.visible_print value
    exact ⟨fun hmem => absurd (hvisible _ hmem) (by decide),
      fun hmem => absurd (hvisible _ hmem) (by decide)⟩
  · intro fields s hprint
    cases hprint
    rfl
  · intro s fields hparse
    exact head_dropWhile_of_imp isWhitespace_of_isSpace (Json.head_of_parse_obj hparse) (by decide)

/-! ## Sample streams -/

theorem doneIsLast_of_dropLast (hnone : ∀ line ∈ (dataLines bytes).dropLast, isDone line = false) :
    DoneIsLast bytes := by
  intro before line after hsplit hdone
  rcases eq_nil_or_concat' after with hnil | ⟨front, last, rfl⟩
  · exact hnil
  · have hmem : line ∈ (dataLines bytes).dropLast := by
      rw [hsplit, ← cons_append, ← append_assoc, dropLast_concat]
      simp
    rw [hnone line hmem] at hdone
    cases hdone

theorem flowing_item (bytes : Bytes) : Flowing [.item bytes] := by
  intro poll hpoll
  exact .inl ⟨bytes, mem_singleton.mp hpoll⟩

theorem flowing_pieces (first second : Bytes) : Flowing [.item first, .pending, .item second] := by
  intro poll hpoll
  simp only [mem_cons, not_mem_nil, or_false] at hpoll
  rcases hpoll with rfl | rfl | rfl
  · exact .inl ⟨_, rfl⟩
  · exact .inr rfl
  · exact .inl ⟨_, rfl⟩

section

attribute [local instance] jsonText

def contentEvent (content : String) : Bytes := dataEvent (Json.print (contentChunk 0 content))

def answerBytes (content : String) : Bytes := contentEvent content ++ doneEvent

/-- The end of the answer is sent after the terminator. -/
theorem held_text_sent_after_done :
    Flowing [.item (answerBytes "1 < 2")] ∧ DoneIsLast (upcoming [.item (answerBytes "1 < 2")]) ∧
      collect ([.item (answerBytes "1 < 2")] ++ [.finished]) =
        some [contentEvent "1 ", doneEvent, contentEvent "< 2"] ∧
      (dataLines [contentEvent "1 ", doneEvent, contentEvent "< 2"].flatten).map isDone =
        [false, true, false] :=
  ⟨flowing_item _, doneIsLast_of_dropLast (by decide +kernel), by decide +kernel,
    by decide +kernel⟩

theorem answer_without_marker_endsWithDone :
    ∃ outs, collect ([.item (answerBytes "1 + 2")] ++ [.finished]) = some outs ∧
      EndsWithDone (dataLines outs.flatten) := by
  obtain ⟨outs, hcollect, hends⟩ := stream_endsWithDone_iff jsonText_lawful
    (flowing_item (answerBytes "1 + 2")) (doneIsLast_of_dropLast (by decide +kernel))
  refine ⟨outs, hcollect, hends.mpr ⟨by decide +kernel, .inr (by decide +kernel)⟩⟩

end

end LlmProxy
