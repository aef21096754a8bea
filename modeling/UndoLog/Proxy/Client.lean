import UndoLog.Engine.Steps

/-!
# The proxy's engine client

The proxy reports the results of tool calls to the engine over gRPC, and retries `Commit` and
`Fail` on transient failures. Each attempt returns whatever its surroundings decide, and the
waits between attempts may be cut short by the caller's context.
-/

namespace UndoLog.Proxy

open Concurrent Machine

/-- The status codes of gRPC that are not `OK`. -/
inductive RpcCode where
  | canceled
  | unknown
  | invalidArgument
  | deadlineExceeded
  | notFound
  | alreadyExists
  | permissionDenied
  | resourceExhausted
  | failedPrecondition
  | aborted
  | outOfRange
  | unimplemented
  | internal
  | unavailable
  | dataLoss
  | unauthenticated
deriving DecidableEq

/-- Errors that a client call returns. -/
inductive ClientError where
  /-- An RPC ended with a status. -/
  | status (code : RpcCode) (message : String)
  /-- The caller's context ended during a wait. -/
  | contextDone (message : String)
  /-- The breaker, the queue or the gate turned the call away. -/
  | busy (detail : String)
  /-- There is no transport. -/
  | transport (message : String)

/-- `status.Code`: an error that is not a status counts as unknown. -/
def ClientError.code : ClientError → RpcCode
  | .status code _ => code
  | _ => .unknown

/-- `isRetryableRPCError`. -/
def isRetryableRPCError (e : ClientError) : Bool :=
  match e.code with
  | .unavailable | .aborted | .deadlineExceeded | .unknown => true
  | _ => false

/-- `explainAuthFailure`. The wrapped error keeps its status. -/
def explainAuthFailure (e : ClientError) : ClientError :=
  match e with
  | .status .unauthenticated message => .status .unauthenticated
      ("engine rejected the proxy credentials: set UNDOLOG_PROXY_ENGINE_AUTH_TOKEN to the " ++
        "engine's UNDOLOG_ENGINE_AUTH_TOKEN: " ++ message)
  | _ => e

/-- `RetryConfig`, the number of attempts only. -/
structure RetryConfig where
  maxAttempts : ℤ

/-- The number of attempts that `NewClient` settles on. -/
def RetryConfig.attempts (retry : RetryConfig) : ℕ :=
  if retry.maxAttempts ≤ 0 then 3 else retry.maxAttempts.toNat

/-- What the surroundings decide during one client call. Attempts count from zero; `none`
is Go's `nil`. -/
structure Surroundings where
  /-- The answer of `enter`. -/
  rejected : Option ClientError
  /-- The answer of `getTransport`. -/
  disconnected : Option ClientError
  /-- What each attempt returns. -/
  rpc : ℕ → Option ClientError
  /-- Whether the context ends during the wait after an attempt. -/
  done : ℕ → Option ClientError

/-- What a client call returns, and how many attempts it has made. -/
structure CallResult where
  error : Option ClientError
  made : ℕ

/-- The loop of `retryVoid`, with the attempts that are left. -/
def retryLoop (env : Surroundings) : ℕ → ℕ → CallResult
  | 0, attempt => { error := none, made := attempt }
  | left + 1, attempt =>
    match env.rpc attempt with
    | none => { error := none, made := attempt + 1 }
    | some last =>
      if !isRetryableRPCError last || left == 0 then
        { error := some (explainAuthFailure last), made := attempt + 1 }
      else
        match env.done attempt with
        | some e => { error := some e, made := attempt + 1 }
        | none => retryLoop env left (attempt + 1)

/-- `retryVoid`. -/
def retryVoid (retry : RetryConfig) (env : Surroundings) : CallResult :=
  match env.disconnected with
  | some e => { error := some e, made := 0 }
  | none => retryLoop env retry.attempts 0

/-- `guardedVoid`. -/
def guardedVoid (env : Surroundings) (fn : CallResult) : CallResult :=
  match env.rejected with
  | some e => { error := some e, made := 0 }
  | none => fn

/-- `Client.Commit` and `Client.Fail`: the same loop around different RPCs. -/
def Surroundings.report (env : Surroundings) (retry : RetryConfig) : CallResult :=
  guardedVoid env (retryVoid retry env)

/-! ## The RPCs of the engine -/

/-- The operation in the texts of an RPC's errors. -/
def rpcName : Op → String
  | .intercept _ => "intercept"
  | .commit _ _ _ => "commit"
  | .fail _ _ _ => "fail"
  | .approve _ _ _ _ => "approve"
  | .reject _ _ _ => "reject"
  | .listPendingApprovals _ => "list pending approvals"
  | _ => ""

/-- What an RPC returns to the client when its reply arrives: every error of the engine is
an internal one. `display` is the text of an error. -/
def rpcReply (display : UndoLogError → String) (op : Op) :
    Except UndoLogError OpResult → Option ClientError
  | .ok _ => none
  | .error e => some (.status .internal (rpcName op ++ " failed: " ++ display e))

/-! ## Where the loop stops -/

variable {env : Surroundings}

theorem retryLoop_of_permanent {left attempt i : ℕ} {e : ClientError} (hle : attempt ≤ i)
    (hmade : i < (retryLoop env left attempt).made) (hrpc : env.rpc i = some e)
    (hpermanent : isRetryableRPCError e = false) :
    retryLoop env left attempt = { error := some (explainAuthFailure e), made := i + 1 } := by
  induction left generalizing attempt with
  | zero =>
    simp only [retryLoop] at hmade
    omega
  | succ left ih =>
    by_cases hnow : attempt = i
    · subst hnow
      simp [retryLoop, hrpc, hpermanent]
    · have hlater : attempt + 1 ≤ i := by omega
      -- the attempts before the permanent error neither succeed nor end the loop
      rw [retryLoop] at hmade ⊢
      cases hlast : env.rpc attempt with
      | none =>
        simp only [hlast] at hmade
        omega
      | some last =>
        simp only [hlast] at hmade ⊢
        by_cases hstop : (!isRetryableRPCError last || left == 0) = true
        · rw [if_pos hstop] at hmade
          dsimp only at hmade
          omega
        · rw [if_neg hstop] at hmade ⊢
          cases hdone : env.done attempt with
          | some e' =>
            simp only [hdone] at hmade
            omega
          | none =>
            simp only [hdone] at hmade ⊢
            exact ih hlater hmade

theorem report_eq_retryLoop {retry : RetryConfig} (hmade : 0 < (env.report retry).made) :
    env.report retry = retryLoop env retry.attempts 0 := by
  unfold Surroundings.report guardedVoid at hmade ⊢
  split at hmade
  · simp at hmade
  · unfold retryVoid at hmade ⊢
    split at hmade
    · simp at hmade
    · rfl

end UndoLog.Proxy
