import LlmProxy.CsvText
import LlmProxy.Doubles
import LlmProxy.JsonText

/-!
# The CSV exports

The CSV answers of `request_list_handler` (`dashboard/requests.rs`) and `cost_overview_handler`
(`dashboard/cost.rs`), with `csv_quote` of `dashboard/csv.rs`.  Numbers are not quoted.
-/

namespace LlmProxy

open Json (Text printInt)
open List

/-- A text with a comma, a quote or a line break is put in quotes. -/
def csvQuote (s : Text) : Text :=
  if s.contains ',' || s.contains '"' || s.contains '\n' || s.contains '\r' then
    '"' :: (s.flatMap fun c => if c = '"' then ['"', '"'] else [c]) ++ ['"']
  else s

/-- `{n:0width$}` -/
def padZeros (width n : ℕ) : Text :=
  List.replicate (width - (Nat.toDigits 10 n).length) '0' ++ Nat.toDigits 10 n

inductive CostValue where
  | finite (negative : Bool) (magnitude : ℚ)
  | infinite (negative : Bool)
  | nan

/-- `{c:.6}`: half a unit of the last place goes to the even neighbour. -/
def CostValue.fixed6 : CostValue → Text
  | finite negative magnitude =>
    let scaled := magnitude * 1000000
    let n := Json.roundTo scaled.den scaled.num.natAbs / scaled.den
    (if negative then ['-'] else []) ++ Nat.toDigits 10 (n / 1000000) ++
      '.' :: padZeros 6 (n % 1000000)
  | infinite negative => (if negative then ['-'] else []) ++ "inf".toList
  | nan => "NaN".toList

/-- The time of day in UTC. -/
def formatTs (ts : ℤ) : Text :=
  if 0 < ts then
    let secs := ts.toNat / 1000
    padZeros 2 (secs / 3600 % 24) ++ ':' :: padZeros 2 (secs / 60 % 60) ++
      ':' :: padZeros 2 (secs % 60)
  else ['-']

/-! ## The exports -/

structure RequestRow where
  id : Text
  ts : ℤ
  model : Text
  poolId : Text
  keyHash : Text
  tenantId : Text
  statusCode : Text
  promptTokens : Text
  completionTokens : Text
  cachedTokens : Text
  finishReason : Option Text
  errorCode : Option Text
  latencyMs : ℤ
  ttftMs : Option Text
  retryCount : ℤ
  isStream : Bool
  costUsd : Option CostValue

structure CostRow where
  model : Text
  poolId : Text
  promptTokens : ℤ
  completionTokens : ℤ
  cachedTokens : ℤ
  requests : ℤ
  errors : ℤ
  costUsd : Text

namespace RequestRow

def csvHeader : Text :=
  ("id,time,model,pool,key_hash,tenant,status,prompt,completion,cache,finish_reason,error_code," ++
    "latency_ms,ttft_ms,retry,stream,cost_usd\n").toList

def csvRow (r : RequestRow) : Text :=
  List.intercalate [',']
    [csvQuote r.id, csvQuote (formatTs r.ts), csvQuote r.model, csvQuote r.poolId,
      csvQuote r.keyHash, csvQuote r.tenantId, csvQuote r.statusCode, csvQuote r.promptTokens,
      csvQuote r.completionTokens, csvQuote r.cachedTokens, csvQuote (r.finishReason.getD []),
      csvQuote (r.errorCode.getD []), printInt r.latencyMs, csvQuote (r.ttftMs.getD []),
      printInt r.retryCount, if r.isStream then ['1'] else ['0'],
      (r.costUsd.map CostValue.fixed6).getD []] ++ ['\n']

def csv (rows : List RequestRow) : Text := csvHeader ++ rows.flatMap csvRow

/-- The strings that a reader of the export should find. -/
def fields (r : RequestRow) : List Text :=
  [r.id, formatTs r.ts, r.model, r.poolId, r.keyHash, r.tenantId, r.statusCode, r.promptTokens,
    r.completionTokens, r.cachedTokens, r.finishReason.getD [], r.errorCode.getD [],
    printInt r.latencyMs, r.ttftMs.getD [], printInt r.retryCount,
    if r.isStream then ['1'] else ['0'], (r.costUsd.map CostValue.fixed6).getD []]

def header : List Text :=
  ["id", "time", "model", "pool", "key_hash", "tenant", "status", "prompt", "completion", "cache",
    "finish_reason", "error_code", "latency_ms", "ttft_ms", "retry", "stream",
    "cost_usd"].map String.toList

end RequestRow

namespace CostRow

def csvHeader : Text :=
  ("model,pool,prompt_tokens,completion_tokens,cached_tokens,requests,errors," ++
    "cost_usd\n").toList

def csvRow (r : CostRow) : Text :=
  List.intercalate [',']
    [csvQuote r.model, csvQuote r.poolId, printInt r.promptTokens, printInt r.completionTokens,
      printInt r.cachedTokens, printInt r.requests, printInt r.errors, csvQuote r.costUsd] ++ ['\n']

def csv (rows : List CostRow) : Text := csvHeader ++ rows.flatMap csvRow

def fields (r : CostRow) : List Text :=
  [r.model, r.poolId, printInt r.promptTokens, printInt r.completionTokens,
    printInt r.cachedTokens, printInt r.requests, printInt r.errors, r.costUsd]

def header : List Text :=
  ["model", "pool", "prompt_tokens", "completion_tokens", "cached_tokens", "requests", "errors",
    "cost_usd"].map String.toList

end CostRow

/-! ## Unquoted fields need no quotes -/

theorem csvQuote_eq_quote (s : Text) : csvQuote s = Csv.quote s := by
  have hany : (s.contains ',' || s.contains '"' || s.contains '\n' || s.contains '\r') =
      s.any Csv.special := by
    rw [Bool.eq_iff_iff]
    simp [Csv.special]
    grind
  rw [csvQuote, hany]
  rfl

abbrev NumberText (s : Text) : Prop := ∀ c ∈ s, c.isDigit = true ∨ c = '-' ∨ c = '.'

theorem NumberText.append {s t : Text} (hs : NumberText s) (ht : NumberText t) :
    NumberText (s ++ t) := by
  intro c hc
  rcases mem_append.mp hc with hs' | ht'
  · exact hs c hs'
  · exact ht c ht'

theorem NumberText.quote_eq {s : Text} (hs : NumberText s) : Csv.quote s = s := by
  apply Csv.quote_of_plain
  intro c hc
  have hnumber := hs c hc
  cases hspecial : Csv.special c with
  | false => rfl
  | true =>
    simp only [Csv.special, Bool.or_eq_true, decide_eq_true_eq] at hspecial
    rcases hspecial with ((rfl | rfl) | rfl) | rfl <;> revert hnumber <;> decide

theorem numberText_toDigits (n : ℕ) : NumberText (Nat.toDigits 10 n) :=
  fun _ hc => .inl (Json.F64.isDigit_of_mem_toDigits hc)

theorem numberText_printInt (n : ℤ) : NumberText (printInt n) := by
  cases n with
  | ofNat n => exact numberText_toDigits n
  | negSucc n =>
    have hsign : NumberText ['-'] := forall_mem_singleton.mpr (by decide)
    exact hsign.append (numberText_toDigits (n + 1))

theorem numberText_padZeros (width n : ℕ) : NumberText (padZeros width n) := by
  apply NumberText.append
  · intro c hc
    rw [eq_of_mem_replicate hc]
    exact .inl rfl
  · exact numberText_toDigits n

theorem quote_fixed6 (c : CostValue) : Csv.quote c.fixed6 = c.fixed6 := by
  have hsign : ∀ negative : Bool, NumberText (if negative then ['-'] else []) := by
    intro negative
    cases negative with
    | false => exact forall_mem_nil _
    | true => exact forall_mem_singleton.mpr (by decide)
  have hpoint : NumberText ['.'] := forall_mem_singleton.mpr (by decide)
  cases c with
  | finite negative =>
    apply NumberText.quote_eq
    apply ((hsign negative).append (numberText_toDigits _)).append
    exact hpoint.append (numberText_padZeros _ _)
  | infinite negative => cases negative <;> decide
  | nan => decide

theorem RequestRow.csvRow_eq (r : RequestRow) : r.csvRow = Csv.line r.fields := by
  have hstream : Csv.quote (if r.isStream then ['1'] else ['0']) =
      if r.isStream then ['1'] else ['0'] := by
    cases r.isStream <;> rfl
  have hcost : Csv.quote ((r.costUsd.map CostValue.fixed6).getD []) =
      (r.costUsd.map CostValue.fixed6).getD [] := by
    cases r.costUsd with
    | none => rfl
    | some c => exact quote_fixed6 c
  simp only [RequestRow.csvRow, Csv.line, RequestRow.fields, map_cons, map_nil,
    csvQuote_eq_quote, (numberText_printInt _).quote_eq, hstream, hcost]

theorem CostRow.csvRow_eq (r : CostRow) : r.csvRow = Csv.line r.fields := by
  simp only [CostRow.csvRow, Csv.line, CostRow.fields, map_cons, map_nil,
    csvQuote_eq_quote, (numberText_printInt _).quote_eq]

theorem parse_export {Row : Type} {header : List Text} {fields : Row → List Text}
    (hheader : header ≠ []) (hfields : ∀ row, fields row ≠ []) (rows : List Row) :
    Csv.parse (Csv.line header ++ rows.flatMap fun row => Csv.line (fields row)) =
      some (header :: rows.map fields) := by
  have hparse := Csv.parse_lines (header :: rows.map fields) (by simp [hheader, hfields])
  rwa [flatMap_cons, flatMap_map] at hparse

/-- Reading either export gives its header and one record for each row. -/
theorem csv_exports_read_back :
    (∀ rows : List RequestRow,
      Csv.parse (RequestRow.csv rows) = some (RequestRow.header :: rows.map RequestRow.fields)) ∧
    ∀ rows : List CostRow,
      Csv.parse (CostRow.csv rows) = some (CostRow.header :: rows.map CostRow.fields) := by
  constructor
  · intro rows
    have hheader : RequestRow.csvHeader = Csv.line RequestRow.header := by decide +kernel
    have hrow : RequestRow.csvRow = fun r => Csv.line r.fields := funext RequestRow.csvRow_eq
    rw [RequestRow.csv, hheader, hrow]
    exact parse_export (by decide) (by simp [RequestRow.fields]) rows
  · intro rows
    have hheader : CostRow.csvHeader = Csv.line CostRow.header := by decide +kernel
    have hrow : CostRow.csvRow = fun r => Csv.line r.fields := funext CostRow.csvRow_eq
    rw [CostRow.csv, hheader, hrow]
    exact parse_export (by decide) (by simp [CostRow.fields]) rows

end LlmProxy
