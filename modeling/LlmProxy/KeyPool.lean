import Mathlib.Data.List.AList
import Mathlib.Data.List.Dedup
import Mathlib.Tactic.Common
import LlmProxy.JsonValue

/-!
# Upstream credentials, key pools and gateway errors

The configuration types the routing layer works on (`config/mod.rs`) and the error type the retry
loop passes around (`error.rs`).
-/

namespace LlmProxy

/-- The digest function of the `sha2` crate: 32 bytes for every input. -/
class Sha256 where
  digest : List UInt8 → List UInt8
  digest_length : ∀ bytes, (digest bytes).length = 32

/-- `format!("{b:02x}")`. -/
def hexByte (b : UInt8) : List Char :=
  [(b.toNat / 16).digitChar, (b.toNat % 16).digitChar]

/-- `db::compute_key_hash`: six digest bytes in hexadecimal. -/
def computeKeyHash [Sha256] (key : String) : String :=
  String.ofList (((Sha256.digest key.toUTF8.toList).take 6).flatMap hexByte)

theorem computeKeyHash_ne_empty [Sha256] (key : String) : computeKeyHash key ≠ "" := by
  intro hempty
  have hlist := congrArg String.toList hempty
  have hlength : ((Sha256.digest key.toUTF8.toList).take 6).length = 6 := by
    rw [List.length_take, Sha256.digest_length]
    rfl
  simp only [computeKeyHash, String.toList_ofList, String.toList_empty,
    List.flatMap_eq_nil_iff] at hlist
  cases hbytes : (Sha256.digest key.toUTF8.toList).take 6 with
  | nil =>
    rw [hbytes] at hlength
    contradiction
  | cons b rest =>
    rw [hbytes] at hlist
    simpa [hexByte] using hlist b List.mem_cons_self

inductive CredentialType where
  | apiKey
  | oauth
  deriving DecidableEq, Repr

structure KeyEntry where
  key : String
  weight : UInt32
  credType : CredentialType := .apiKey
  refresh : Option String := none
  expires : Option ℤ := none
  issuer : Option String := none
  identity : Option String := none
  deriving DecidableEq, Repr

structure PoolConfig where
  keys : List KeyEntry
  deriving DecidableEq, Repr

namespace KeyEntry

def isOauth (entry : KeyEntry) : Bool := entry.credType = .oauth

/-- `opt.as_deref().filter(|s| !s.is_empty())`. -/
def nonEmpty (text : Option String) : Option String :=
  text.filter fun s => !s.isEmpty

/-- The refresh token of an OAuth entry that has one. -/
def identitySecret (entry : KeyEntry) : String :=
  if entry.isOauth then (nonEmpty entry.refresh).getD entry.key else entry.key

/-- A key is identified by its identity hash, not by its position in the pool: two entries of one
pool may carry the same hash, and an OAuth entry keeps its hash when its tokens rotate. -/
def identityHash [Sha256] (entry : KeyEntry) : String :=
  match nonEmpty entry.identity with
  | some id => id
  | none => computeKeyHash entry.identitySecret

end KeyEntry

inductive AppError where
  | config (msg : String)
  | auth (msg : String)
  | notFound (msg : String)
  | badRequest (msg : String)
  | upstream (status : Option UInt16) (retryable badKeyHint : Bool) (msg : String)
  | internal (msg : String)
  deriving DecidableEq, Repr

/-- `matches!(e, AppError::Upstream { bad_key_hint: true, .. })`. -/
def AppError.badKey : AppError → Bool
  | .upstream _ _ badKeyHint _ => badKeyHint
  | _ => false

def AppError.retryable : AppError → Bool
  | .upstream _ retryable _ _ => retryable
  | _ => false

/-! ## OAuth tokens -/

structure LiveToken where
  access : String
  refresh : String
  expires : ℤ
  deriving DecidableEq, Repr

/-- `credential::apply_live`: the rotated entry keeps the old identity. -/
def applyLive [Sha256] (entry : KeyEntry) (live : LiveToken) : KeyEntry :=
  { entry with
    identity :=
      if (KeyEntry.nonEmpty entry.identity).isNone then some entry.identityHash
      else entry.identity
    key := live.access
    refresh := some live.refresh
    expires := some live.expires }

/-- `xai::format_oauth_error`. -/
def formatOauthError (action : String) (status : UInt16)
    (error description : Option String) : String :=
  let detail := ": ".intercalate [error, description].reduceOption
  if detail.isEmpty then s!"xAI OAuth {action} failed (HTTP {status})"
  else s!"xAI OAuth {action} failed (HTTP {status}): {detail}"

/-- Why a refresh fails: the issuer is not supported, it answered with an
error status, or no usable token came back. -/
inductive RefreshError where
  | unsupportedIssuer (issuer : String)
  | denied (status : UInt16) (error description : Option String)
  | upstream (msg : String)
  deriving DecidableEq, Repr

def RefreshError.toAppError : RefreshError → AppError
  | .unsupportedIssuer issuer => .config s!"unsupported oauth issuer '{issuer}'"
  | .denied status error description =>
    .upstream (some status) true true
      (formatOauthError "token refresh" status error description)
  | .upstream msg => .upstream (some 401) true true msg

inductive RefreshAnswer where
  | unchanged
  | live (token : LiveToken)
  | failed (error : RefreshError)
  deriving DecidableEq, Repr

/-- `CredentialRuntime::ensure_fresh` with its cache and issuer answers given:
static keys are returned as they are. -/
def ensureFresh [Sha256] (entry : KeyEntry) (answer : RefreshAnswer) : Except AppError KeyEntry :=
  if !entry.isOauth then .ok entry
  else
    match answer with
    | .unchanged => .ok entry
    | .live token => .ok (applyLive entry token)
    | .failed error => .error error.toAppError

theorem KeyEntry.identityHash_ne_empty [Sha256] (entry : KeyEntry) : entry.identityHash ≠ "" := by
  unfold KeyEntry.identityHash
  cases hid : KeyEntry.nonEmpty entry.identity with
  | some =>
    have hkept := (Option.filter_eq_some_iff.mp hid).2
    simpa using hkept
  | none => exact computeKeyHash_ne_empty _

theorem identityHash_applyLive [Sha256] (entry : KeyEntry) (live : LiveToken) :
    (applyLive entry live).identityHash = entry.identityHash := by
  cases hid : KeyEntry.nonEmpty entry.identity with
  | some =>
    simp [KeyEntry.identityHash, applyLive, hid]
  | none =>
    have hne : KeyEntry.nonEmpty (some entry.identityHash) =
        some entry.identityHash := by
      simp [KeyEntry.nonEmpty, entry.identityHash_ne_empty]
    have hfield : (applyLive entry live).identity =
        some entry.identityHash := by
      simp [applyLive, hid]
    rw [KeyEntry.identityHash, hfield, hne]

theorem identityHash_ensureFresh [Sha256] {entry fresh : KeyEntry}
    {answer : RefreshAnswer} (hfresh : ensureFresh entry answer = .ok fresh) :
    fresh.identityHash = entry.identityHash := by
  unfold ensureFresh at hfresh
  split at hfresh
  · cases hfresh
    rfl
  · cases answer with
    | unchanged =>
      cases hfresh
      rfl
    | live token =>
      cases hfresh
      exact identityHash_applyLive entry token
    | failed => cases hfresh

theorem retryable_of_ensureFresh_badKey [Sha256] {entry : KeyEntry}
    {answer : RefreshAnswer} {error : AppError}
    (hfresh : ensureFresh entry answer = .error error) (hbad : error.badKey = true) :
    error.retryable = true := by
  unfold ensureFresh at hfresh
  split at hfresh
  · cases hfresh
  · cases answer with
    | unchanged => cases hfresh
    | live => cases hfresh
    | failed reason =>
      cases hfresh
      cases reason with
      | unsupportedIssuer => simp [RefreshError.toAppError, AppError.badKey] at hbad
      | denied => rfl
      | upstream => rfl

abbrev zeroSha256 : Sha256 where
  digest := fun _ => List.replicate 32 0
  digest_length := fun _ => List.length_replicate

def twoKeyPool : PoolConfig where
  keys := [{ key := "sk-a", weight := 1, identity := some "a" },
    { key := "sk-b", weight := 1, identity := some "b" }]

end LlmProxy
