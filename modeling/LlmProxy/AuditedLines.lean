import LlmProxy.InspectedChunks
import LlmProxy.RequestAccounting

/-!
# The lines the audit reads

A client reads a line that starts with `data:`, skips white space and parses a JSON object.  The
inspector reads the same lines in its own way: it looks for a needle in the bytes, trims the line,
wants a blank after `data:` and parses what follows.
-/

namespace LlmProxy

open Json (Text Value Fields)
open LineCut List Option Json
open Utf8Bytes

/-! ## Lines -/

/-- The lines of a stream; its end closes the last one. -/
def streamLines (bytes : Bytes) : List Bytes :=
  (cutLines newline (closeLine newline bytes)).1.map List.dropLast

def spacedForAudit (line : Bytes) : Bool :=
  match fromBytes line with
  | none => false
  | some text =>
    match text.dropPrefix? "data: ".toList with
    | none => false
    | some rest => (rest.takeWhile isWhitespace).all Json.isSpace

def unpadded (line : Bytes) : Bool :=
  match fromBytes line with
  | none => true
  | some text => trimStart text = text && (text.rtakeWhile isWhitespace).all Json.isSpace

variable {s text tail rest gap : Text}

theorem rdropWhile_append (htail : ∀ c ∈ tail, isWhitespace c = true) :
    (s ++ tail).rdropWhile isWhitespace = s.rdropWhile isWhitespace := by
  unfold List.rdropWhile
  rw [reverse_append, dropWhile_append_of_pos]
  intro c hc
  exact htail c (mem_reverse.mp hc)

theorem trim_object (gap body : Text) (htail : ∀ c ∈ tail, isWhitespace c = true) :
    trim (dataField ++ (gap ++ '{' :: (body ++ '}' :: tail))) =
      dataField ++ (gap ++ '{' :: (body ++ ['}'])) := by
  have hstart : ∀ rest, trimStart (dataField ++ rest) = dataField ++ rest := fun rest =>
    dropWhile_cons_of_neg (by decide)
  have hsplit : dataField ++ (gap ++ '{' :: (body ++ '}' :: tail)) =
      (dataField ++ (gap ++ '{' :: body)) ++ ['}'] ++ tail := by simp
  rw [trim, hstart, hsplit, rdropWhile_append htail, rdropWhile_concat_neg _ _ _ (by decide)]
  simp

theorem exists_dropEnd_append (text : Text) :
    ∃ ending, text = dropEnd '\r' text ++ ending ∧ ∀ c ∈ ending, Json.isSpace c = true := by
  unfold dropEnd
  split_ifs with hlast
  · obtain ⟨front, rfl⟩ := getLast?_eq_some_iff.mp hlast
    exact ⟨['\r'], by rw [dropLast_concat], forall_mem_singleton.mpr (by decide)⟩
  · exact ⟨[], by rw [append_nil], by simp⟩

theorem isSpace_of_skipSpace_eq_nil (hskip : Json.skipSpace s = []) :
    ∀ c ∈ s, Json.isSpace c = true := by
  intro c hc
  exact dropWhile_eq_nil_iff.mp hskip c hc

theorem dropPrefix_blank (rest : Text) :
    (dataField ++ ' ' :: rest).dropPrefix? "data: ".toList = some rest :=
  dropPrefix_append "data: ".toList rest

theorem dropPrefix_of_head_ne (hhead : rest.head? ≠ some ' ') :
    (dataField ++ rest).dropPrefix? "data: ".toList = none := by
  cases rest with
  | nil => rfl
  | cons c rest =>
    have hc : (c == ' ') = false := beq_false_of_ne fun heq => hhead (by rw [heq]; rfl)
    have hdrop : (dataField ++ c :: rest).dropPrefix? "data: ".toList =
        (c :: rest).dropPrefix? [' '] := rfl
    rw [hdrop, List.dropPrefix?, hc]
    rfl

theorem spacedForAudit_blank (hgap : ∀ c ∈ gap, isWhitespace c = true) (rest : Text) :
    spacedForAudit (toBytes (dataField ++ ' ' :: (gap ++ '{' :: rest))) =
      gap.all Json.isSpace := by
  unfold spacedForAudit
  rw [fromBytes_toBytes]
  dsimp only
  rw [dropPrefix_blank]
  dsimp only
  rw [List.takeWhile_append_of_pos hgap, List.takeWhile_cons_of_neg (by decide), List.append_nil]

theorem spacedForAudit_of_head_ne (hhead : rest.head? ≠ some ' ') :
    spacedForAudit (toBytes (dataField ++ rest)) = false := by
  unfold spacedForAudit
  rw [fromBytes_toBytes]
  dsimp only
  rw [dropPrefix_of_head_ne hhead]

theorem dropEnd_append_cons {x y : Char} (hne : y ≠ x) (front tail : Text) :
    dropEnd x (front ++ y :: tail) = front ++ y :: dropEnd x tail := by
  rcases eq_nil_or_concat' tail with rfl | ⟨body, last, rfl⟩
  · exact dropEnd_concat_ne hne front
  · rw [← cons_append, ← append_assoc]
    by_cases hlast : last = x
    · rw [hlast, dropEnd_concat_self, dropEnd_concat_self]
    · rw [dropEnd_concat_ne hlast, dropEnd_concat_ne hlast, append_assoc, cons_append]

theorem trim_trim_of_unpadded (hstart : trimStart text = text) :
    trim (trim text) = text.rdropWhile isWhitespace := by
  have hfront : trimStart (text.rdropWhile isWhitespace) = text.rdropWhile isWhitespace := by
    cases hdrop : text.rdropWhile isWhitespace with
    | nil => rfl
    | cons c rest =>
      have htext : c :: rest ++ text.rtakeWhile isWhitespace = text := by
        rw [← hdrop, rdropWhile_append_rtakeWhile]
      rw [← htext, trimStart, dropWhile_eq_self_iff] at hstart
      exact dropWhile_cons_of_neg (hstart (Nat.succ_pos _))
  rw [trim, trim, hstart, hfront, rdropWhile_idempotent]

theorem isDigit_of_isWhitespace {c : Char} (hspace : isWhitespace c = true) :
    c.isDigit = false := by
  rw [Bool.eq_false_iff]
  intro hdigit
  simp only [Char.isDigit, isWhitespace, Bool.and_eq_true, Bool.or_eq_true, decide_eq_true_eq,
    beq_iff_eq, UInt32.le_iff_toNat_le] at hdigit hspace
  have hzero : '0'.val.toNat = 48 := rfl
  have hnine : '9'.val.toNat = 57 := rfl
  omega

/-! ## Space around JSON -/

/-- The library skips JSON space, refuses other white space, and reads an object up to its brace
whatever space follows. -/
structure SerdeJson.Spaced [SerdeJson] : Prop where
  skips : ∀ space s : Text, (∀ c ∈ space, Json.isSpace c = true) →
    SerdeJson.fromStr (space ++ s) = SerdeJson.fromStr s
  refuses : ∀ (c : Char) (s : Text), isWhitespace c = true → Json.isSpace c = false →
    SerdeJson.fromStr (c :: s) = none
  closes : ∀ (s : Text) (fields : Fields), SerdeJson.fromStr s = some (.obj fields) →
    ∃ front rest, s = front ++ '}' :: rest ∧ Json.skipSpace rest = [] ∧
      ∀ other, Json.skipSpace other = [] →
        SerdeJson.fromStr (front ++ '}' :: other) = some (.obj fields)

theorem jsonText_spaced : @SerdeJson.Spaced jsonText := by
  let := jsonText
  constructor
  · exact fun _ s hspace => parse_space_append hspace s
  · intro c s hwhite hspace
    have hnot : ∀ d : Char, isWhitespace d = false → c ≠ d := by
      rintro d hd rfl
      rw [hwhite] at hd
      cases hd
    refine parse_eq_none hspace (isDigit_of_isWhitespace hwhite) ?_ ?_ s
    · simp only [mem_cons, not_mem_nil, or_false, not_or]
      exact ⟨hnot _ (by decide), hnot _ (by decide), hnot _ (by decide), hnot _ (by decide)⟩
    · simp only [mem_cons, not_mem_nil, or_false, not_or]
      exact ⟨hnot _ (by decide), hnot _ (by decide), hnot _ (by decide)⟩
  · exact fun _ _ => parse_obj_local

theorem noteChunk_of_not_obj {chunk : Value} (hobj : ∀ fields, chunk ≠ .obj fields)
    (r : StreamRecord) : r.noteChunk chunk = r := by
  cases chunk with
  | obj fields => exact absurd rfl (hobj fields)
  | _ => rfl

def hasNeedle (line : Bytes) : Bool := StreamRecord.needles.any fun needle => needle <:+: line

section

variable [SerdeJson] (line : Bytes)

def clientChunk : Option Value := chunkOf (dropEnd carriageReturn line)

def auditChunk : Option Value :=
  if hasNeedle line then
    (fromBytes line).bind fun text =>
      let data := trim (trim text)
      if data = "data: [DONE]".toList then none
      else (data.dropPrefix? "data: ".toList).bind SerdeJson.fromStr
  else none

theorem noteLine_eq_auditChunk (r : StreamRecord) (line : Bytes) :
    r.noteLine line = (auditChunk line).elim r fun chunk => r.noteChunk chunk := by
  unfold StreamRecord.noteLine auditChunk hasNeedle
  split_ifs
  · cases fromBytes line with
    | none => rfl
    | some text =>
      dsimp only [bind_some, StreamRecord.noteText]
      split_ifs with hempty
      · rfl
      · rw [List.isEmpty_iff.mp hempty]
        rfl
      · rfl
      · cases (trim (trim text)).dropPrefix? "data: ".toList with
        | none => rfl
        | some jsonStr =>
          dsimp only [bind_some]
          cases SerdeJson.fromStr jsonStr with
          | none => rfl
          | some => rfl
  · rfl

theorem recorded_eq_foldl (bytes : Bytes) :
    recorded bytes = (streamLines bytes).foldl StreamRecord.noteLine {} := by
  rw [streamLines, foldl_closeLine]
  rfl

theorem clientChunk_toBytes (text : Text) :
    clientChunk (toBytes text) =
      (((dropEnd '\r' text).dropPrefix? dataField).map trimStart).bind parseObject := by
  rw [clientChunk, carriageReturn_single.dropEnd_toBytes, chunkOf, payloadOf_toBytes]

variable {chunk : Value} {line : Bytes}

theorem exists_text_of_clientChunk (hchunk : clientChunk line = some chunk) :
    ∃ text, line = toBytes text := by
  cases hfrom : fromBytes line with
  | none =>
    have hnone := carriageReturn_single.fromBytes_dropEnd hfrom
    rw [clientChunk, chunkOf, payloadOf, hnone] at hchunk
    cases hchunk
  | some text => exact ⟨text, fromBytes_eq_some.mp hfrom⟩

theorem isData_of_chunkOf {content : Bytes} (hchunk : chunkOf content = some chunk) :
    isData content = true := by
  unfold chunkOf payloadOf at hchunk
  cases hfrom : fromBytes content with
  | none =>
    rw [hfrom] at hchunk
    cases hchunk
  | some =>
    rw [hfrom] at hchunk
    obtain ⟨payload, hpayload, -⟩ := bind_eq_some_iff.mp hchunk
    obtain ⟨rest, hdrop, -⟩ := map_eq_some_iff.mp hpayload
    rw [fromBytes_eq_some.mp hfrom, isData_toBytes, dropPrefix_eq_some hdrop]
    exact prefix_append _ _

theorem chunksSent_eq_filterMap (outs : List Bytes) :
    chunksSent outs = (streamLines outs.flatten).filterMap clientChunk := by
  have hcontent : ∀ line ∈ (cutLines newline (closeLine newline outs.flatten)).1,
      chunkOf (lineContent line) = clientChunk line.dropLast := by
    intro line hmem
    obtain ⟨body, rfl, -⟩ := isLine_of_mem_cutLines _ line hmem
    rw [lineContent, dropEnd_concat_self, dropLast_concat, clientChunk]
  have hfilter : ∀ contents : List Bytes,
      (contents.filter isData).filterMap chunkOf = contents.filterMap chunkOf := by
    intro contents
    rw [filterMap_filter]
    apply filterMap_congr
    intro content _
    cases hchunk : chunkOf content with
    | none => simp
    | some => simp [isData_of_chunkOf hchunk]
  rw [chunksSent, dataLines, hfilter, streamLines, filterMap_map, filterMap_map]
  exact filterMap_congr hcontent

/-! ## The two readings of one line -/

variable {fields : Fields} {text gap : Text}

theorem parseObject_eq_some {payload : Text} (hparse : parseObject payload = some chunk) :
    ∃ fields, chunk = .obj fields ∧ SerdeJson.fromStr payload = some (.obj fields) := by
  unfold parseObject at hparse
  split at hparse
  · rename_i fields hfields
    cases hparse
    exact ⟨fields, rfl, hfields⟩
  · cases hparse

variable (hspaced : SerdeJson.Spaced)
include hspaced

theorem fromStr_of_gap (hgap : ∀ c ∈ gap, isWhitespace c = true)
    (hother : gap.all Json.isSpace = false) (s : Text) : SerdeJson.fromStr (gap ++ s) = none := by
  have hsplit : gap = gap.takeWhile Json.isSpace ++ Json.skipSpace gap :=
    takeWhile_append_dropWhile.symm
  cases hskip : Json.skipSpace gap with
  | nil =>
    rw [List.all_eq_true.mpr (isSpace_of_skipSpace_eq_nil hskip)] at hother
    cases hother
  | cons c rest =>
    have hc : Json.isSpace c = false := by
      have hstop := head?_dropWhile_not Json.isSpace gap
      rw [show gap.dropWhile Json.isSpace = c :: rest from hskip] at hstop
      exact hstop
    rw [hskip] at hsplit
    rw [hsplit, append_assoc, hspaced.skips _ _ (List.all_eq_true.mp all_takeWhile)]
    exact hspaced.refuses c _ (hgap c (by rw [hsplit]; simp)) hc

theorem fromStr_trimStart {s : Text} (hparse : SerdeJson.fromStr s = some (.obj fields)) :
    SerdeJson.fromStr (trimStart s) = some (.obj fields) := by
  have hgap : ∀ c ∈ s.takeWhile isWhitespace, isWhitespace c = true :=
    List.all_eq_true.mp all_takeWhile
  rw [← takeWhile_append_dropWhile (p := isWhitespace) (l := s)] at hparse
  cases hall : (s.takeWhile isWhitespace).all Json.isSpace with
  | true =>
    rw [hspaced.skips _ _ (List.all_eq_true.mp hall)] at hparse
    exact hparse
  | false =>
    rw [fromStr_of_gap hspaced hgap hall] at hparse
    cases hparse

theorem clientChunk_of_auditChunk (hunpadded : unpadded line = true)
    (hread : auditChunk line = some (.obj fields)) : clientChunk line = some (.obj fields) := by
  unfold auditChunk at hread
  split_ifs at hread
  obtain ⟨text, hfrom, hread⟩ := bind_eq_some_iff.mp hread
  dsimp only at hread
  split_ifs at hread
  obtain ⟨jsonStr, hdrop, hparse⟩ := bind_eq_some_iff.mp hread
  rw [unpadded, hfrom, Bool.and_eq_true, decide_eq_true_eq] at hunpadded
  rw [trim_trim_of_unpadded hunpadded.1] at hdrop
  obtain ⟨front, rest, rfl, hrest, hlocal⟩ := hspaced.closes _ _ hparse
  have htext : text =
      dataField ++ ' ' :: (front ++ '}' :: (rest ++ text.rtakeWhile isWhitespace)) := by
    conv_lhs => rw [← rdropWhile_append_rtakeWhile (p := isWhitespace) (l := text),
      dropPrefix_eq_some hdrop]
    exact append_assoc ("data: ".toList ++ front) _ _
  generalize htail : rest ++ text.rtakeWhile isWhitespace = tail at htext
  have hspace : ∀ c ∈ tail, Json.isSpace c = true := by
    rw [← htail]
    exact forall_mem_append.mpr
      ⟨isSpace_of_skipSpace_eq_nil hrest, List.all_eq_true.mp hunpadded.2⟩
  have hended : Json.skipSpace (dropEnd '\r' tail) = [] :=
    dropWhile_eq_nil_iff.mpr fun c hc => hspace c ((dropEnd_isPrefix '\r' tail).subset hc)
  have hblank : ∀ c ∈ [' '], Json.isSpace c = true := forall_mem_singleton.mpr (by decide)
  have hpayload : SerdeJson.fromStr (' ' :: (front ++ '}' :: dropEnd '\r' tail)) =
      some (.obj fields) :=
    (hspaced.skips _ _ hblank).trans (hlocal _ hended)
  rw [fromBytes_eq_some.mp hfrom, clientChunk_toBytes, htext, dropEnd_data, ← cons_append,
    dropEnd_append_cons (by decide), cons_append, dropPrefix_append, map_some,
    bind_some, parseObject, fromStr_trimStart hspaced hpayload]

theorem noteLine_of_refused (hunpadded : unpadded line = true) (hnone : clientChunk line = none)
    (r : StreamRecord) : r.noteLine line = r := by
  rw [noteLine_eq_auditChunk]
  cases hread : auditChunk line with
  | none => rfl
  | some =>
    refine noteChunk_of_not_obj ?_ r
    rintro fields rfl
    rw [clientChunk_of_auditChunk hspaced hunpadded hread] at hnone
    cases hnone

variable (hjson : SerdeJson.Lawful)
include hjson

theorem accepted_text (hchunk : clientChunk (toBytes text) = some chunk) :
    ∃ gap body tail, text = dataField ++ (gap ++ '{' :: (body ++ '}' :: tail)) ∧
      (∀ c ∈ gap, isWhitespace c = true) ∧ (∀ c ∈ tail, isWhitespace c = true) ∧
      SerdeJson.fromStr ('{' :: (body ++ ['}'])) = some chunk := by
  rw [clientChunk_toBytes] at hchunk
  obtain ⟨payload, hpayload, hparse⟩ := bind_eq_some_iff.mp hchunk
  obtain ⟨rest, hdrop, rfl⟩ := map_eq_some_iff.mp hpayload
  obtain ⟨fields, rfl, hobj⟩ := parseObject_eq_some hparse
  obtain ⟨ending, htext, hending⟩ := exists_dropEnd_append text
  obtain ⟨front, after, hfront, hafter, hlocal⟩ := hspaced.closes _ _ hobj
  have hhead := hjson.parsesObject _ _ hobj
  rw [trimStart_trimStart, hfront] at hhead
  obtain ⟨body, rfl⟩ : ∃ body, front = '{' :: body := by
    cases front with
    | nil => exact absurd (some.inj hhead) (by decide)
    | cons c body =>
      rw [cons_append, head?_cons, some_inj] at hhead
      exact ⟨body, by rw [hhead]⟩
  obtain ⟨gap, hgap, hspace⟩ : ∃ gap, rest = gap ++ trimStart rest ∧
      ∀ c ∈ gap, isWhitespace c = true :=
    ⟨_, takeWhile_append_dropWhile.symm, List.all_eq_true.mp all_takeWhile⟩
  refine ⟨gap, body, after ++ ending, ?_, hspace, ?_, hlocal [] rfl⟩
  · rw [htext, dropPrefix_eq_some hdrop, hgap, hfront]
    simp
  · intro c hc
    rcases mem_append.mp hc with hc | hc
    · exact isWhitespace_of_isSpace c (isSpace_of_skipSpace_eq_nil hafter c hc)
    · exact isWhitespace_of_isSpace c (hending c hc)

theorem auditChunk_of_accepted (hchunk : clientChunk line = some chunk) :
    auditChunk line = if hasNeedle line && spacedForAudit line then some chunk else none := by
  obtain ⟨text, rfl⟩ := exists_text_of_clientChunk hchunk
  obtain ⟨gap, body, tail, rfl, hgap, htail, hparse⟩ := accepted_text hspaced hjson hchunk
  have hread := trim_object gap body htail
  have hagain := trim_object gap body (forall_mem_nil _)
  unfold auditChunk
  rw [fromBytes_toBytes, bind_some, hread, hagain]
  have hdone : dataField ++ (gap ++ '{' :: (body ++ ['}'])) ≠ "data: [DONE]".toList := by
    intro hsame
    exact absurd (hsame ▸ by simp : '{' ∈ "data: [DONE]".toList) (by decide)
  dsimp only
  rw [if_neg hdone]
  by_cases hblank : ∃ rest, gap = ' ' :: rest
  · obtain ⟨rest, rfl⟩ := hblank
    have hrest : ∀ c ∈ rest, isWhitespace c = true := fun c hc => hgap c (mem_cons_of_mem _ hc)
    rw [cons_append, cons_append, dropPrefix_blank, spacedForAudit_blank hrest, bind_some]
    cases hall : rest.all Json.isSpace with
    | true =>
      have hfrom : SerdeJson.fromStr (rest ++ '{' :: (body ++ ['}'])) = some chunk :=
        (hspaced.skips _ _ (List.all_eq_true.mp hall)).trans hparse
      rw [hfrom, Bool.and_true]
    | false =>
      have hfrom : SerdeJson.fromStr (rest ++ '{' :: (body ++ ['}'])) = none :=
        fromStr_of_gap hspaced hrest hall _
      rw [hfrom, Bool.and_false, ite_self, if_neg Bool.false_ne_true]
  · have hhead : ∀ t : Text, (gap ++ '{' :: t).head? ≠ some ' ' := by
      intro t hhead
      cases gap with
      | nil => exact absurd (some.inj hhead) (by decide)
      | cons c gap =>
        rw [cons_append, head?_cons, some_inj] at hhead
        exact hblank ⟨gap, by rw [hhead]⟩
    rw [dropPrefix_of_head_ne (hhead _), spacedForAudit_of_head_ne (hhead _), bind_none,
      ite_self, Bool.and_false, if_neg Bool.false_ne_true]

/-- A line a client accepts is taken into account if it is written for the inspector, or if
there is nothing in it to note. -/
theorem noteLine_iff_of_accepted (hchunk : clientChunk line = some chunk) :
    (∀ r : StreamRecord, r.noteLine line = r.noteChunk chunk) ↔
      (∀ r : StreamRecord, r.noteChunk chunk = r) ∨
        (hasNeedle line = true ∧ spacedForAudit line = true) := by
  simp only [noteLine_eq_auditChunk, auditChunk_of_accepted hspaced hjson hchunk,
    ← Bool.and_eq_true]
  cases hread : hasNeedle line && spacedForAudit line with
  | true => simp
  | false => simp [eq_comm]

/-! ## The stream -/

def ReadAlike (line : Bytes) : Prop :=
  unpadded line = true ∧ ∀ chunk, clientChunk line = some chunk →
    (∀ r : StreamRecord, r.noteChunk chunk = r) ∨
      (hasNeedle line = true ∧ spacedForAudit line = true)

theorem noteLine_of_readAlike (halike : ReadAlike line) (r : StreamRecord) :
    r.noteLine line = (clientChunk line).elim r fun chunk => r.noteChunk chunk := by
  cases hchunk : clientChunk line with
  | none => exact noteLine_of_refused hspaced halike.1 hchunk r
  | some chunk =>
    exact (noteLine_iff_of_accepted hspaced hjson hchunk).mpr (halike.2 chunk hchunk) r

theorem foldl_noteLine_usage {lines : List Bytes} (halike : ∀ line ∈ lines, ReadAlike line)
    (r : StreamRecord) :
    (lines.foldl StreamRecord.noteLine r).accumulatedUsage =
      (lines.filterMap clientChunk).foldl StreamRecord.usageAfter r.accumulatedUsage := by
  induction lines generalizing r with
  | nil => rfl
  | cons line lines ih =>
    rw [forall_mem_cons] at halike
    rw [foldl_cons, ih halike.2, noteLine_of_readAlike hspaced hjson halike.1]
    cases hchunk : clientChunk line with
    | none => rw [filterMap_cons_none hchunk, elim_none]
    | some =>
      rw [filterMap_cons_some hchunk, foldl_cons, elim_some, StreamRecord.noteChunk_usage]

end

namespace ChatCall

section

variable [SerdeJson] {Cost : Type} (call : ChatCall Cost) (script : List Poll)

def usageReceived : Option Usage :=
  (chunksSent (call.streamItems script)).foldl StreamRecord.usageAfter none

def linesReceived : List Bytes :=
  streamLines (call.streamItems script).flatten

theorem inspected_record :
    (call.inspected script).toStreamRecord = recorded (call.streamItems script).flatten := by
  have hitems : (((call.streamItems script).zipIdx.map fun item =>
      (call.times.receivedAt item.2, item.1)).map Prod.snd) = call.streamItems script := by
    rw [List.map_map]
    exact zipIdx_map_fst 0 _
  rw [inspected, inspect_record, hitems]

theorem inspected_usage {script : List Poll} (hspaced : SerdeJson.Spaced)
    (hjson : SerdeJson.Lawful) (halike : ∀ line ∈ call.linesReceived script, ReadAlike line) :
    (call.inspected script).finalize.usage = call.usageReceived script := by
  have hrecord := call.inspected_record script
  rw [recorded_eq_foldl] at hrecord
  rw [usageReceived, chunksSent_eq_filterMap]
  exact (congrArg StreamRecord.accumulatedUsage hrecord).trans
    (foldl_noteLine_usage hspaced hjson halike {})

/-- A data line a client accepts is taken into account exactly if it is spaced for the audit
and has a needle, or holds nothing to note.  If all lines are of that kind, the row has the
usage the client received last, and its cost. -/
theorem streamRow_counts_received (hspaced : SerdeJson.Spaced) (hjson : SerdeJson.Lawful)
    (won : Success) (script : List Poll) :
    (∀ line ∈ call.linesReceived script, ∀ chunk, clientChunk line = some chunk →
      ((∀ r : StreamRecord, r.noteLine line = r.noteChunk chunk) ↔
        (∀ r : StreamRecord, r.noteChunk chunk = r) ∨
          (hasNeedle line = true ∧ spacedForAudit line = true))) ∧
    ((∀ line ∈ call.linesReceived script, ReadAlike line) →
      let usage := (call.usageReceived script).getD {}
      let row := call.streamRow won script
      row.promptTokens = some (usage.promptTokens.toNat : ℤ) ∧
        row.completionTokens = some (usage.completionTokens.toNat : ℤ) ∧
        row.totalTokens = some (usage.totalTokens.toNat : ℤ) ∧
        row.costUsd =
          computeCost call.pricing won.sent.model call.tenantId (some usage)) := by
  refine ⟨fun line _ chunk hchunk => noteLine_iff_of_accepted hspaced hjson hchunk, ?_⟩
  intro halike
  have husage := call.inspected_usage hspaced hjson halike
  unfold streamRow
  dsimp only
  rw [husage]
  exact ⟨rfl, rfl, rfl, rfl⟩

end

attribute [local instance] jsonText

def relayCall (stripThinkTags : Bool) : ChatCall ℕ :=
  { askCall "acme" (.new 256) with
    stripThinkTags := stripThinkTags
    itemsRead := 10
    pricing := ⟨fun _ _ prompt completion => some (prompt + 2 * completion).toNat⟩ }

def relayed : Success := ⟨⟨.openAi, "u"⟩, ⟨"p", twoKeyPool, none, none⟩, askRequest, 0, "h"⟩

def usageScript (gap : String) : List Poll :=
  [.item (utf8 ("data:" ++ gap ++ "\x7b\"choices\":[],\"usage\":\x7b\"completion_tokens\":7," ++
    "\"prompt_tokens\":5,\"total_tokens\":12\x7d\x7d\n\n")), .finished]

theorem readAlike_blank :
    ∀ line ∈ (relayCall false).linesReceived (usageScript " "), ReadAlike line := by
  have hlines : ∀ line ∈ (relayCall false).linesReceived (usageScript " "),
      unpadded line = true ∧ (clientChunk line = none ∨
        (hasNeedle line = true ∧ spacedForAudit line = true)) := by
    decide +kernel
  intro line hmem
  refine ⟨(hlines line hmem).1, ?_⟩
  intro chunk hchunk
  rcases (hlines line hmem).2 with hnone | hread
  · rw [hnone] at hchunk
    cases hchunk
  · exact .inr hread

theorem blank_usage_counted :
    (∀ line ∈ (relayCall false).linesReceived (usageScript " "), ReadAlike line) ∧
      ((relayCall false).streamRow relayed (usageScript " ")).promptTokens = some 5 ∧
      ((relayCall false).streamRow relayed (usageScript " ")).completionTokens = some 7 ∧
      ((relayCall false).streamRow relayed (usageScript " ")).totalTokens = some 12 ∧
      ((relayCall false).streamRow relayed (usageScript " ")).costUsd = some 19 := by
  have husage : (relayCall false).usageReceived (usageScript " ") = some ⟨5, 7, 12⟩ := by
    decide +kernel
  have hrow := (streamRow_counts_received (relayCall false) jsonText_spaced jsonText_lawful relayed
    (usageScript " ")).2 readAlike_blank
  rw [husage] at hrow
  exact ⟨readAlike_blank, hrow⟩

/-- Without the blank the client gets the usage and nothing is logged, with and without the
normalising stream. -/
theorem compact_usage_unaudited :
    (relayCall true).usageReceived (usageScript "") = some ⟨5, 7, 12⟩ ∧
      ((relayCall true).streamRow relayed (usageScript "")).totalTokens = some 0 ∧
      ((relayCall true).streamRow relayed (usageScript "")).costUsd = some 0 ∧
      (relayCall false).usageReceived (usageScript "") = some ⟨5, 7, 12⟩ ∧
      ((relayCall false).streamRow relayed (usageScript "")).totalTokens = some 0 ∧
      ((relayCall false).streamRow relayed (usageScript "")).costUsd = some 0 := by
  decide +kernel

end ChatCall

end LlmProxy
