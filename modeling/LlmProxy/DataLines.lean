import Mathlib.Data.List.DropRight
import LlmProxy.NormalizingStream

/-!
# The data lines of an event stream

How the bytes of an event stream are read, those of an upstream and those sent to a client.
-/

namespace LlmProxy

open Json (Text Value Fields)
open LineCut List
open Utf8Bytes

def trim (s : Text) : Text := (trimStart s).rdropWhile isWhitespace

/-- A line ends with a newline; one carriage return before it is ignored. -/
def lineContent (line : Bytes) : Bytes := dropEnd carriageReturn (dropEnd newline line)

/-- A data line starts with `data:`. -/
def isData (content : Bytes) : Bool := (toBytes dataField).isPrefixOf content

def dataLines (bytes : Bytes) : List Bytes :=
  ((cutLines newline (closeLine newline bytes)).1.map lineContent).filter isData

/-- What follows `data:`, without leading white space. -/
def payloadOf (content : Bytes) : Option Text :=
  match fromBytes content with
  | none => none
  | some text => (text.dropPrefix? dataField).map trimStart

/-- The terminator of a stream. -/
def isDone (content : Bytes) : Bool := payloadOf content = some "[DONE]".toList

def parseObject [SerdeJson] (payload : Text) : Option Value :=
  match SerdeJson.fromStr payload with
  | some (.obj fields) => some (.obj fields)
  | _ => none

def chunkOf [SerdeJson] (content : Bytes) : Option Value := (payloadOf content).bind parseObject

theorem newline_single : Single '\n' newline := ⟨by decide, by decide⟩

theorem carriageReturn_single : Single '\r' carriageReturn := ⟨by decide, by decide⟩

/-! ## Reading lines -/

theorem dataLines_append {a : Bytes} (hclosed : (cutLines newline a).2 = []) (b : Bytes) :
    dataLines (a ++ b) = dataLines a ++ dataLines b := by
  unfold dataLines
  rw [closeLine_append hclosed, cutLines_append hclosed, closeLine_of_closed hclosed,
    map_append, filter_append]

theorem dataLines_line {line : Bytes} (hline : IsLine newline line) :
    dataLines line = [lineContent line].filter isData := by
  have hcut := cutLines_line hline
  have hclosed : (cutLines newline line).2 = [] := by rw [hcut]
  unfold dataLines
  rw [closeLine_of_closed hclosed, hcut]
  rfl

theorem lineContent_toBytes (text : Text) :
    lineContent (toBytes text) = toBytes (dropEnd '\r' (dropEnd '\n' text)) := by
  rw [lineContent, newline_single.dropEnd_toBytes, carriageReturn_single.dropEnd_toBytes]

variable {text rest : Text}

theorem lineContent_of_text {line : Bytes} (hline : IsLine newline line)
    (hfrom : fromBytes line = some text) :
    lineContent line = toBytes (dropEnd '\r' (dropEnd '\n' text)) ∧
      '\n' ∉ dropEnd '\r' (dropEnd '\n' text) := by
  obtain rfl := fromBytes_eq_some.mp hfrom
  refine ⟨lineContent_toBytes text, ?_⟩
  obtain ⟨body, hbody, hfree⟩ := hline
  obtain ⟨front, rfl, hfront⟩ := newline_single.concat_of_toBytes hbody
  rw [← hfront, newline_single.mem_iff] at hfree
  rw [dropEnd_concat_self]
  exact fun hmem => hfree ((dropEnd_isPrefix '\r' front).subset hmem)

theorem isData_toBytes (text : Text) : isData (toBytes text) = true ↔ dataField <+: text := by
  rw [isData, isPrefixOf_iff_prefix]
  exact toBytes_prefix_iff

theorem payloadOf_toBytes (text : Text) :
    payloadOf (toBytes text) = (text.dropPrefix? dataField).map trimStart := by
  rw [payloadOf, fromBytes_toBytes]

theorem dropPrefix_append (front rest : Text) : (front ++ rest).dropPrefix? front = some rest := by
  rw [dropPrefix?_eq_some_iff]
  exact ⟨front, rfl, beq_self_eq_true front⟩

theorem dropPrefix_eq_some {front : Text} (hdrop : text.dropPrefix? front = some rest) :
    text = front ++ rest := by
  obtain ⟨front', hsplit, heq⟩ := dropPrefix?_eq_some_iff.mp hdrop
  rw [hsplit, beq_iff_eq.mp heq]

theorem dropPrefix_eq_none {front : Text} (hdrop : text.dropPrefix? front = none) :
    ¬ front <+: text := by
  rintro ⟨rest, rfl⟩
  rw [dropPrefix_append] at hdrop
  cases hdrop

theorem payloadOf_data (rest : Text) :
    payloadOf (toBytes (dataField ++ rest)) = some (trimStart rest) := by
  rw [payloadOf_toBytes, dropPrefix_append]
  rfl

theorem isLine_toBytes (hline : '\n' ∉ text) : IsLine newline (toBytes text ++ [newline]) := by
  refine ⟨toBytes text, rfl, ?_⟩
  rw [newline_single.mem_iff]
  exact hline

theorem sseLine_eq (text : Text) : sseLine text = (toBytes text ++ [newline]) ++ [newline] := by
  have hend : utf8 "\n\n" = [newline] ++ [newline] := by decide
  rw [sseLine, hend, append_assoc]

theorem isLine_newline : IsLine newline [newline] := ⟨[], rfl, not_mem_nil⟩

theorem cutLines_sseLine (hline : '\n' ∉ text) : (cutLines newline (sseLine text)).2 = [] := by
  rw [sseLine_eq, cutLines_line_append (isLine_toBytes hline), cutLines_line isLine_newline]

theorem dataLines_sseLine (hline : '\n' ∉ text) :
    dataLines (sseLine text) = [toBytes (dropEnd '\r' text)].filter isData := by
  have hfirst := isLine_toBytes hline
  have hclosed : (cutLines newline (toBytes text ++ [newline])).2 = [] := by
    rw [cutLines_line hfirst]
  have hempty : dataLines [newline] = [] := by decide
  have hcontent : lineContent (toBytes text ++ [newline]) = toBytes (dropEnd '\r' text) := by
    rw [← newline_single.toBytes_concat, lineContent_toBytes, dropEnd_concat_self]
  rw [sseLine_eq, dataLines_append hclosed, dataLines_line hfirst, hempty, hcontent, append_nil]

theorem dataEvent_eq (payload : Text) :
    dataEvent payload = sseLine ("data: ".toList ++ payload) := by
  rw [dataEvent, sseLine, utf8, toBytes_append]

/-! ## Carriage returns at the end of a data line -/

theorem dropEnd_data (rest : Text) :
    dropEnd '\r' (dataField ++ rest) = dataField ++ dropEnd '\r' rest := by
  rcases eq_nil_or_concat' rest with rfl | ⟨front, last, rfl⟩
  · decide
  · rw [← append_assoc]
    by_cases hlast : last = '\r'
    · rw [hlast, dropEnd_concat_self, dropEnd_concat_self]
    · rw [dropEnd_concat_ne hlast, dropEnd_concat_ne hlast, append_assoc]

theorem isDone_data (rest : Text) :
    isDone (toBytes (dataField ++ rest)) = true ↔ trimStart rest = "[DONE]".toList := by
  rw [isDone, payloadOf_data]
  simp

/-- Without one more carriage return a payload is the terminator only if it was
the terminator, or the terminator and the carriage return. -/
theorem trimStart_of_dropEnd (hdone : trimStart (dropEnd '\r' rest) = "[DONE]".toList) :
    trimStart rest = "[DONE]".toList ∨ trimStart rest = "[DONE]\r".toList := by
  rcases eq_nil_or_concat' rest with rfl | ⟨front, last, rfl⟩
  · exact .inl hdone
  · by_cases hlast : last = '\r'
    · subst hlast
      rw [dropEnd_concat_self] at hdone
      right
      unfold trimStart at hdone ⊢
      rw [dropWhile_append, hdone]
      rfl
    · rw [dropEnd_concat_ne hlast] at hdone
      exact .inl hdone

theorem isDone_dropEnd {content : Bytes} (hdone : isDone content = true) :
    isDone (dropEnd carriageReturn content) = true := by
  unfold isDone payloadOf at hdone
  cases hfrom : fromBytes content with
  | none => simp [hfrom] at hdone
  | some =>
    rw [hfrom, decide_eq_true_eq, Option.map_eq_some_iff] at hdone
    obtain ⟨rest, hdrop, htrim⟩ := hdone
    obtain rfl := dropPrefix_eq_some hdrop
    obtain rfl := fromBytes_eq_some.mp hfrom
    rw [carriageReturn_single.dropEnd_toBytes, dropEnd_data, isDone_data]
    obtain ⟨front, hfront⟩ : ∃ front, rest = front ++ "[DONE]".toList :=
      ⟨rest.takeWhile isWhitespace, by
        rw [← htrim, trimStart, takeWhile_append_dropWhile]⟩
    have hend : "[DONE]".toList = "[DONE".toList ++ [']'] := by decide
    have hkept : dropEnd '\r' rest = rest := by
      rw [hfront, hend, ← append_assoc]
      apply dropEnd_concat_ne
      decide
    rw [hkept, htrim]

theorem isDone_object (hbrace : (trimStart rest).head? = some '{') :
    isDone (toBytes (dataField ++ rest)) = false ∧
      isDone (dropEnd carriageReturn (toBytes (dataField ++ rest))) = false := by
  have hnotDone : trimStart rest ≠ "[DONE]".toList := by
    intro heq
    rw [heq] at hbrace
    exact absurd hbrace (by decide)
  have hnotCr : trimStart rest ≠ "[DONE]\r".toList := by
    intro heq
    rw [heq] at hbrace
    exact absurd hbrace (by decide)
  constructor
  · rw [Bool.eq_false_iff, Ne, isDone_data]
    exact hnotDone
  · rw [carriageReturn_single.dropEnd_toBytes, dropEnd_data, Bool.eq_false_iff, Ne, isDone_data]
    intro hdone
    rcases trimStart_of_dropEnd hdone with heq | heq
    · exact hnotDone heq
    · exact hnotCr heq

theorem filter_isData_data (rest : Text) :
    [toBytes (dataField ++ rest)].filter isData = [toBytes (dataField ++ rest)] := by
  have hdata : isData (toBytes (dataField ++ rest)) = true := by
    rw [isData_toBytes]
    exact ⟨rest, rfl⟩
  rw [filter_cons_of_pos hdata, filter_nil]

theorem trimStart_trimStart (s : Text) : trimStart (trimStart s) = trimStart s :=
  dropWhile_idempotent isWhitespace s

end LlmProxy
