import AsetPlatform.Library.Text

/-!
# Sources of the ingestion

The errors of the sources that the ingestion jobs ask (`backend/pipeline/sources/base.py`), how often
they are asked again (`backend/pipeline/observability.py`), and how a text that they bring is cleaned
(`safe_str` of `backend/market_utils.py`).
-/

set_option autoImplicit false

namespace AsetPlatform.Ingestion

open AsetPlatform.Library

universe u

inductive SourceErrorCategory where
  | rateLimit
  | timeout
  | notFound
  | parseError
  | unknown
  deriving DecidableEq

def SourceErrorCategory.value : SourceErrorCategory → String
  | .rateLimit => "rate_limit"
  | .timeout => "timeout"
  | .notFound => "not_found"
  | .parseError => "parse_error"
  | .unknown => "unknown"

structure SourceError where
  category : SourceErrorCategory
  message : String

/-- `classify_error` -/
def classifyError (T : CharTables) (exc : String) : SourceErrorCategory :=
  let has (pat : String) : Bool := occursIn pat.toList (T.lower exc.toList)
  if has "429" || has "rate" || has "throttl" then .rateLimit
  else if has "timeout" || has "timed out" then .timeout
  else if has "not found" || has "no data" || has "404" then .notFound
  else if has "parse" || has "decode" || has "format" then .parseError
  else .unknown

def maxRetries : Nat := 3

def maxConsecutive429 : Nat := 3

/-- `retry_with_backoff` from one attempt on, when `retries` more are left: an error that is no rate
limit is tried again. -/
def retryWithBackoff {α : Type u} (attempt : Nat → Except SourceError α) :
    Nat → Nat → Except SourceError α
  | k, 0 => attempt k
  | k, retries + 1 =>
      match attempt k with
      | .ok a => .ok a
      | .error e =>
          if e.category = .rateLimit then .error e else retryWithBackoff attempt (k + 1) retries

/-- `_MISSING_SENTINELS` -/
def missingSentinels : List String := ["nan", "none", "null", "n/a", "na", "nat"]

/-- `safe_str` of a text, or of a value that is missing. -/
def safeStr (T : CharTables) (value : Option String) : Option String :=
  value.bind fun text =>
    let stripped := strip T text.toList
    if stripped = [] then none
    else if String.ofList (T.lower stripped) ∈ missingSentinels then none
    else some (String.ofList stripped)

theorem retryWithBackoff_ok {α : Type u} {attempt : Nat → Except SourceError α} {k retries : Nat}
    {a : α} (h : retryWithBackoff attempt k retries = .ok a) : ∃ j, attempt j = .ok a := by
  induction retries generalizing k with
  | zero => exact ⟨k, h⟩
  | succ retries ih =>
      unfold retryWithBackoff at h
      split at h
      · rename_i b hAttempt
        exact ⟨k, hAttempt.trans h⟩
      · split at h
        · cases h
        · exact ih h

end AsetPlatform.Ingestion
