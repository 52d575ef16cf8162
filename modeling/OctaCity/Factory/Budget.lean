/-
  OctaCity.Factory.Budget

  Hard limits and measured usage (octacity-server-factory, `budget.rs`,
  `budget_cost.rs`).  Counters are naturals below their machine bound; every
  addition and subtraction is checked as in the source.
-/
import OctaCity.Factory.Value

namespace OctaCity.Factory

def maxFactoryAttempts : Nat := 1000
def maxFactoryElapsedMillis : Nat := 365 * 24 * 60 * 60 * 1000
def maxFactoryOutputBytes : Nat := 1024 * 1024 * 1024 * 1024

/-- Immutable hard limits for one bounded Factory scope. -/
structure BudgetLimit where
  maxAttempts : Nat
  maxElapsedMillis : Nat
  maxTokens : Nat
  maxCostMicroUnits : Nat
  maxOutputBytes : Nat
  deriving DecidableEq

/-- The dimensions of a limit in the order they are compared. -/
def BudgetLimit.dimensions (limit : BudgetLimit) : List (BudgetResource × Nat) :=
  [(.attempts, limit.maxAttempts), (.elapsedTime, limit.maxElapsedMillis),
   (.tokens, limit.maxTokens), (.cost, limit.maxCostMicroUnits),
   (.outputBytes, limit.maxOutputBytes)]

/-- The first dimension above its enclosing ceiling. -/
def BudgetLimit.firstExcess (limit enclosing : BudgetLimit) : Option BudgetCeilingViolation :=
  ((limit.dimensions.zip enclosing.dimensions).find? fun pair => pair.2.2 < pair.1.2).map
    fun pair => ⟨pair.1.1, pair.1.2, pair.2.2⟩

/-- Reports whether every limit fits within an enclosing hard budget. -/
def BudgetLimit.fitsWithin (limit enclosing : BudgetLimit) : Bool :=
  (limit.firstExcess enclosing).isNone

/-- No dimension is above its enclosing ceiling. -/
structure BudgetLimit.Within (limit enclosing : BudgetLimit) : Prop where
  attempts : limit.maxAttempts ≤ enclosing.maxAttempts
  elapsed : limit.maxElapsedMillis ≤ enclosing.maxElapsedMillis
  tokens : limit.maxTokens ≤ enclosing.maxTokens
  cost : limit.maxCostMicroUnits ≤ enclosing.maxCostMicroUnits
  output : limit.maxOutputBytes ≤ enclosing.maxOutputBytes

theorem BudgetLimit.Within.trans {inner middle outer : BudgetLimit} (h : inner.Within middle)
    (h' : middle.Within outer) : inner.Within outer where
  attempts := h.attempts.trans h'.attempts
  elapsed := h.elapsed.trans h'.elapsed
  tokens := h.tokens.trans h'.tokens
  cost := h.cost.trans h'.cost
  output := h.output.trans h'.output

theorem BudgetLimit.firstExcess_eq_none {limit enclosing : BudgetLimit} :
    limit.firstExcess enclosing = none ↔ limit.Within enclosing := by
  rw [BudgetLimit.firstExcess, Option.map_eq_none_iff, List.find?_eq_none]
  simp only [BudgetLimit.dimensions, List.zip_cons_cons, List.zip_nil_left, List.mem_cons,
    List.not_mem_nil, or_false, forall_eq_or_imp, forall_eq, decide_eq_true_eq, not_lt]
  constructor
  · rintro ⟨hatts, helapsed, htokens, hcost, houtput⟩
    exact ⟨hatts, helapsed, htokens, hcost, houtput⟩
  · rintro ⟨hatts, helapsed, htokens, hcost, houtput⟩
    exact ⟨hatts, helapsed, htokens, hcost, houtput⟩

/-! ## Usage -/

/-- Monetary usage with an optional unpriced component. -/
structure BudgetCost where
  knownMicroUnits : Nat := 0
  unpriced : Bool := false
  deriving DecidableEq

/-- Usage measured against an immutable limit. -/
structure BudgetUsage where
  attempts : Nat := 0
  elapsedMillis : Nat := 0
  tokens : Nat := 0
  costMicroUnits : BudgetCost := {}
  outputBytes : Nat := 0
  deriving DecidableEq

/-- Addition of two counters of the given width. -/
def checkedAdd (width left right : Nat) : Option Nat :=
  if left + right < 2 ^ width then some (left + right) else none

def checkedMul (width left right : Nat) : Option Nat :=
  if left * right < 2 ^ width then some (left * right) else none

theorem checkedAdd_eq_some {width left right total : Nat}
    (h : checkedAdd width left right = some total) : total = left + right := by
  unfold checkedAdd at h
  split at h
  · exact (Option.some.inj h).symm
  · cases h

theorem checkedMul_eq_some {width left right total : Nat}
    (h : checkedMul width left right = some total) : total = left * right := by
  unfold checkedMul at h
  split at h
  · exact (Option.some.inj h).symm
  · cases h

def checkedSub (left right : Nat) : Option Nat :=
  if right ≤ left then some (left - right) else none

def BudgetCost.checkedAdd (left right : BudgetCost) : Option BudgetCost := do
  let knownMicroUnits ← Factory.checkedAdd 64 left.knownMicroUnits right.knownMicroUnits
  some ⟨knownMicroUnits, left.unpriced || right.unpriced⟩

/-- An unpriced total cannot become measured by subtracting an observation
    whose own price was unavailable. -/
def BudgetCost.checkedSub (left right : BudgetCost) : Option BudgetCost := do
  if !left.unpriced && right.unpriced then none
  let knownMicroUnits ← Factory.checkedSub left.knownMicroUnits right.knownMicroUnits
  some ⟨knownMicroUnits, left.unpriced⟩

/-- Adds all resource counters, rejecting overflow before any budget check. -/
def BudgetUsage.checkedAdd (left right : BudgetUsage) : Option BudgetUsage := do
  let attempts ← Factory.checkedAdd 32 left.attempts right.attempts
  let elapsedMillis ← Factory.checkedAdd 64 left.elapsedMillis right.elapsedMillis
  let tokens ← Factory.checkedAdd 64 left.tokens right.tokens
  let costMicroUnits ← left.costMicroUnits.checkedAdd right.costMicroUnits
  let outputBytes ← Factory.checkedAdd 64 left.outputBytes right.outputBytes
  some ⟨attempts, elapsedMillis, tokens, costMicroUnits, outputBytes⟩

def BudgetUsage.checkedSub (left right : BudgetUsage) : Option BudgetUsage := do
  let attempts ← Factory.checkedSub left.attempts right.attempts
  let elapsedMillis ← Factory.checkedSub left.elapsedMillis right.elapsedMillis
  let tokens ← Factory.checkedSub left.tokens right.tokens
  let costMicroUnits ← left.costMicroUnits.checkedSub right.costMicroUnits
  let outputBytes ← Factory.checkedSub left.outputBytes right.outputBytes
  some ⟨attempts, elapsedMillis, tokens, costMicroUnits, outputBytes⟩

/-- Validates usage against every hard limit. -/
def BudgetUsage.validate (usage : BudgetUsage) (limit : BudgetLimit) : Except FactoryError Unit :=
  if limit.maxAttempts < usage.attempts then .error (.budgetExceeded .attempts)
  else if limit.maxElapsedMillis < usage.elapsedMillis then .error (.budgetExceeded .elapsedTime)
  else if limit.maxTokens < usage.tokens then .error (.budgetExceeded .tokens)
  else if limit.maxCostMicroUnits < usage.costMicroUnits.knownMicroUnits then
    .error (.budgetExceeded .cost)
  else if limit.maxOutputBytes < usage.outputBytes then .error (.budgetExceeded .outputBytes)
  else .ok ()

/-- Subtracting nothing changes nothing. -/
theorem BudgetUsage.checkedSub_default (usage : BudgetUsage) :
    usage.checkedSub {} = some usage := by
  obtain ⟨attempts, elapsed, tokens, ⟨known, unpriced⟩, bytes⟩ := usage
  simp [BudgetUsage.checkedSub, BudgetCost.checkedSub, Factory.checkedSub]

end OctaCity.Factory
