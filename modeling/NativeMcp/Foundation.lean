import Mathlib.Init

/-!
# Resource budgets, stop reasons and reads

The budget of a server: message sizes, unfinished calls, worker threads and the deadline of one call.  The stop reason
of an operation is what its cancellation token and its deadline say when it asks.
-/

namespace NativeMcp

inductive OperationStopReason where
  | none
  | cancelled
  | deadlineExceeded
  deriving DecidableEq, Repr

/-- What a call of `read` or `pread` does: it is interrupted, it fails, or it returns bytes, at most `short + 1` of those
asked for. -/
inductive ReadResult where
  | interrupted
  | failed
  | returned (short : Nat)
  deriving DecidableEq, Repr

structure ResourceBudget where
  maxRequestBytes : Nat
  maxResponseBytes : Nat
  maxPendingRequests : Nat
  workerThreads : Nat
  operationTimeoutMs : Nat
  deriving DecidableEq, Repr

def conservativeBudget : ResourceBudget where
  maxRequestBytes := 1024 * 1024
  maxResponseBytes := 1024 * 1024
  maxPendingRequests := 16
  workerThreads := 2
  operationTimeoutMs := 30000

def isBudgetValid (b : ResourceBudget) : Bool :=
  0 < b.maxRequestBytes && b.maxRequestBytes ≤ 16 * 1024 * 1024 &&
  0 < b.maxResponseBytes && b.maxResponseBytes ≤ 16 * 1024 * 1024 &&
  0 < b.maxPendingRequests && b.maxPendingRequests ≤ 1024 &&
  0 < b.workerThreads && b.workerThreads ≤ 64 &&
  0 < b.operationTimeoutMs && b.operationTimeoutMs ≤ 300000

/-- The budget a server or scheduler runs with: the given one if it is valid, else the conservative one. -/
def effectiveBudget (b : ResourceBudget) : ResourceBudget := if isBudgetValid b then b else conservativeBudget

theorem isBudgetValid_effectiveBudget (b : ResourceBudget) : isBudgetValid (effectiveBudget b) = true := by
  unfold effectiveBudget
  split
  · assumption
  · decide

theorem workerThreads_pos {b : ResourceBudget} (h : isBudgetValid b = true) : 0 < b.workerThreads := by
  simp only [isBudgetValid, Bool.and_eq_true, decide_eq_true_eq] at h
  omega

end NativeMcp
