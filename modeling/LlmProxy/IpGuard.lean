import LlmProxy.ChatHandler

/-!
# The address guard of the admin routes

`ip_guard` of `server/middleware.rs` reads the address of a client from the same headers as the
chat handler, but compares the whole header with the list, and lets a request pass from whose
headers it cannot read an address.
-/

namespace LlmProxy

open Json Utf8Bytes

/-! ## The two readings -/

def addressHeader (headers : String → Option Bytes) : Option Text :=
  ((headers "x-real-ip").or (headers "x-forwarded-for")).bind headerText

/-- `s.split(',').next().unwrap_or("").trim()`. -/
def firstAddress (s : Text) : Text := trim (s.takeWhile (· ≠ ','))

theorem clientIpOf_eq_map (headers : String → Option Bytes) :
    clientIpOf headers = (addressHeader headers).map firstAddress := rfl

inductive GuardAnswer
  | passed
  | notFound
  deriving DecidableEq

variable (allowedIps : List Text)

/-- A request without a readable address passes. -/
def ipGuard (headers : String → Option Bytes) : GuardAnswer :=
  let pass := ((addressHeader headers).map fun ip => allowedIps.any fun a => a == ip).getD true
  if pass then .passed else .notFound

def AdmitsListed (headers : String → Option Bytes) : Prop :=
  ipGuard allowedIps headers = .passed ↔ ∃ ip ∈ allowedIps, clientIpOf headers = some ip

theorem ipGuard_of_none {headers : String → Option Bytes} (hheader : addressHeader headers = none) :
    ipGuard allowedIps headers = .passed := by
  rw [ipGuard, hheader]
  rfl

theorem ipGuard_of_some {headers : String → Option Bytes} {text : Text}
    (hheader : addressHeader headers = some text) :
    ipGuard allowedIps headers = .passed ↔ text ∈ allowedIps := by
  rw [ipGuard, hheader]
  simp

theorem admitsListed_iff (headers : String → Option Bytes) :
    AdmitsListed allowedIps headers ↔
      ∃ text, addressHeader headers = some text ∧
        (text ∈ allowedIps ↔ firstAddress text ∈ allowedIps) := by
  unfold AdmitsListed
  rw [clientIpOf_eq_map]
  cases hheader : addressHeader headers with
  | none =>
    rw [ipGuard_of_none allowedIps hheader]
    simp
  | some =>
    rw [ipGuard_of_some allowedIps hheader]
    simp

/-- For one list, the header has to be read and the whole of it on the list exactly if its first
address is.  For all lists, it has to be that address. -/
theorem ipGuard_admits_listed_iff (headers : String → Option Bytes) :
    (∀ allowedIps, AdmitsListed allowedIps headers ↔
      ∃ text, addressHeader headers = some text ∧
        (text ∈ allowedIps ↔ firstAddress text ∈ allowedIps)) ∧
    ((∀ allowedIps, AdmitsListed allowedIps headers) ↔
      ∃ text, addressHeader headers = some text ∧ firstAddress text = text) := by
  refine ⟨fun allowedIps => admitsListed_iff allowedIps headers, ?_⟩
  constructor
  · intro hall
    obtain ⟨text, hheader, -⟩ := (admitsListed_iff [] headers).mp (hall [])
    obtain ⟨other, hother, hiff⟩ := (admitsListed_iff [text] headers).mp (hall [text])
    cases hheader.symm.trans hother
    exact ⟨text, hheader, List.mem_singleton.mp (hiff.mp (List.mem_singleton_self text))⟩
  · rintro ⟨text, hheader, hbare⟩ allowedIps
    refine (admitsListed_iff allowedIps headers).mpr ⟨text, hheader, ?_⟩
    rw [hbare]

def forwardedFor (value : String) (name : String) : Option Bytes :=
  if name = "x-forwarded-for" then some (utf8 value) else none

/-- Without an address a request passes; with a list of addresses it does not, though the first
of them is allowed. -/
theorem ipGuard_differs :
    clientIpOf (fun _ => none) = none ∧
      ipGuard ["127.0.0.1".toList] (fun _ => none) = .passed ∧
      clientIpOf (forwardedFor "127.0.0.1, 10.0.0.7") = some "127.0.0.1".toList ∧
      ipGuard ["127.0.0.1".toList] (forwardedFor "127.0.0.1, 10.0.0.7") = .notFound := by
  decide +kernel

end LlmProxy
