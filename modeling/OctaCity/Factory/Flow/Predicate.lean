/-
  OctaCity.Factory.Flow.Predicate

  Declarative gates (octacity-server-factory, `flow/predicate.rs` and the
  repository paths of `task_contract/common.rs`).  Ordered rules select an outcome
  of a node by bounded typed predicates over its input.
-/
import OctaCity.Factory.Flow.Schema
import OctaCity.Lib.Metered

namespace OctaCity.Factory

def maxFactoryRepositoryPathBytes : Nat := 1024

/-- The paths `FactoryRepositoryPath::new` accepts: relative, slash-separated,
    without ambiguous or escaping segments. -/
def isRepositoryPath (value : String) : Bool :=
  value ≠ "" ∧ value.utf8ByteSize ≤ maxFactoryRepositoryPathBytes ∧
  value.toList.head? ≠ some '/' ∧ value.toList.getLast? ≠ some '/' ∧
  '\\' ∉ value.toList ∧ ':' ∉ value.toList ∧ value.toList.all (!isControl ·) ∧
  ∀ segment ∈ value.toList.splitOn '/', segment ≠ [] ∧ segment ≠ ['.'] ∧ segment ≠ ['.', '.']

/-- Normalized repository-relative path. -/
structure FactoryRepositoryPath where
  value : String
  valid : isRepositoryPath value = true
  deriving DecidableEq

def FactoryRepositoryPath.new (value : String) : Except FactoryError FactoryRepositoryPath :=
  if h : isRepositoryPath value = true then .ok ⟨value, h⟩
  else .error (invalid "repository path")

/-- Equality or descendant membership by path components. -/
def FactoryRepositoryPath.isWithin (path pathPrefix : FactoryRepositoryPath) : Bool :=
  path = pathPrefix || (pathPrefix.value ++ "/").toList.isPrefixOf path.value.toList

end OctaCity.Factory

namespace OctaCity.Factory.Flow

open Domain (Timestamp)
open Lib List

/-- Hard ceiling across every rule, nested rescans of root arrays included. -/
def maxEvaluationSteps : Nat := 16384

/-- Safe failure of a bounded typed predicate, without retaining criterion values. -/
inductive FlowPredicateFailure
  | missingInput
  | invalidType
  | evaluationBoundExceeded

/-- Bounded array or boolean collection aggregation. -/
inductive FlowQuantifier
  | any
  | every
  deriving DecidableEq

inductive FlowComparison
  | equal
  | exactValue
  | repositoryPathWithin
  | repositoryPathWithinAny
  | greater
  | lessOrEqual

/-- An observation in the projected input or a frozen configuration literal. -/
inductive FlowOperand
  | observationTime
  | path (path : String)
  | item (path : String)
  | literal (value : Json)

inductive FlowPredicate
  | absent (path : String)
  | compare (left : FlowOperand) (comparison : FlowComparison) (right : FlowOperand)
  | all (predicates : List FlowPredicate)
  | any (predicates : List FlowPredicate)
  | forEach (collection : FlowOperand) (quantifier : FlowQuantifier) (predicate : FlowPredicate)
  | not (predicate : FlowPredicate)
  | exists (operand : FlowOperand)

/-! ## Evaluation -/

abbrev Evaluation (α : Type) : Type := Metered FlowPredicateFailure α

/-- `remaining.checked_sub(1)` -/
def step : Evaluation Unit := Metered.tick .evaluationBoundExceeded

def orFail {α : Type} (value : Option α) (failure : FlowPredicateFailure) : Evaluation α :=
  Metered.lift (okOr value failure)

/-- One more known value: whether there was one, and the result so far. -/
def FlowQuantifier.add (quantifier : FlowQuantifier) (state : Bool × Bool) (value : Bool) :
    Bool × Bool :=
  (true, match quantifier with
    | .any => state.2 || value
    | .every => state.2 && value)

def FlowQuantifier.aggregate (quantifier : FlowQuantifier) (values : List (Evaluation Bool)) :
    Evaluation Bool := do
  let state ← values.foldlM (fun state evaluate => do
    let value ← evaluate
    pure (quantifier.add state value)) (false, decide (quantifier = .every))
  orFail (if state.1 then some state.2 else none) .invalidType

/-- The observed value, if there is one. -/
def FlowOperand.resolve (root : Json) (item time : Option Json) : FlowOperand → Option Json
  | .observationTime => time
  | .path pointer => root.pointer pointer
  | .item pointer => item.bind (·.pointer pointer)
  | .literal value => some value

def repositoryPath (value : Json) : Option FactoryRepositoryPath :=
  value.asStr.bind fun text => (FactoryRepositoryPath.new text).toOption

/-- Values of one scalar type; numbers only as signed integers. -/
def sameType (left right : Json) : Bool :=
  (match left, right with
    | .null, .null => true
    | .bool _, .bool _ => true
    | .string _, .string _ => true
    | _, _ => false) || (left.asI64.isSome && right.asI64.isSome)

def FlowComparison.compare (left right : Json) : FlowComparison → Evaluation Bool
  | .exactValue => pure (left.eq right)
  | .equal => orFail (if sameType left right then some (left.eq right) else none) .invalidType
  | .repositoryPathWithin => do
    let path ← orFail (repositoryPath left) .invalidType
    let pathPrefix ← orFail (repositoryPath right) .invalidType
    pure (path.isWithin pathPrefix)
  | .repositoryPathWithinAny => do
    let path ← orFail (repositoryPath left) .invalidType
    let roots ← orFail right.asArray .invalidType
    roots.foldlM (fun matched root => do
      step
      let pathPrefix ← orFail (repositoryPath root) .invalidType
      pure (matched || path.isWithin pathPrefix)) false
  | .greater => do
    let left ← orFail left.asI64 .invalidType
    let right ← orFail right.asI64 .invalidType
    pure (right < left)
  | .lessOrEqual => do
    let left ← orFail left.asI64 .invalidType
    let right ← orFail right.asI64 .invalidType
    pure (left ≤ right)

namespace FlowPredicate

mutual

def evaluate (root : Json) (time : Option Json) : FlowPredicate → Option Json → Evaluation Bool
  | .all predicates, item => do
    step
    FlowQuantifier.every.aggregate (evaluateAll root time predicates item)
  | .any predicates, item => do
    step
    FlowQuantifier.any.aggregate (evaluateAll root time predicates item)
  | .forEach collection quantifier predicate, item => do
    step
    let collection ← orFail (collection.resolve root item time) .missingInput
    let values ← orFail collection.asArray .invalidType
    quantifier.aggregate (values.map fun value => evaluate root time predicate (some value))
  | .not predicate, item => do
    step
    let value ← evaluate root time predicate item
    pure !value
  | .exists operand, item => do
    step
    let _ ← orFail (operand.resolve root item time) .missingInput
    pure true
  | .absent path, _ => do
    step
    pure (root.pointer path).isNone
  | .compare left comparison right, item => do
    step
    let left ← orFail (left.resolve root item time) .missingInput
    let right ← orFail (right.resolve root item time) .missingInput
    comparison.compare left right

def evaluateAll (root : Json) (time : Option Json) :
    List FlowPredicate → Option Json → List (Evaluation Bool)
  | [], _ => []
  | predicate :: predicates, item =>
    evaluate root time predicate item :: evaluateAll root time predicates item

end

end FlowPredicate

/-! ## Meaning and steps -/

/-- Known values combine; an unknown one, or none at all, leaves the result unknown. -/
def FlowQuantifier.combine (quantifier : FlowQuantifier) (values : List (Option Bool)) :
    Option Bool :=
  if values = [] ∨ none ∈ values then none
  else some (match quantifier with
    | .any => values.any (· = some true)
    | .every => values.all (· = some true))

def FlowComparison.known (left right : Json) : FlowComparison → Option Bool
  | .exactValue => some (left.eq right)
  | .equal => if sameType left right then some (left.eq right) else none
  | .repositoryPathWithin => do
    let path ← repositoryPath left
    let pathPrefix ← repositoryPath right
    some (path.isWithin pathPrefix)
  | .repositoryPathWithinAny => do
    let path ← repositoryPath left
    let roots ← right.asArray
    let prefixes ← roots.mapM repositoryPath
    some (prefixes.any path.isWithin)
  | .greater => do
    let left ← left.asI64
    let right ← right.asI64
    some (right < left)
  | .lessOrEqual => do
    let left ← left.asI64
    let right ← right.asI64
    some (left ≤ right)

namespace FlowPredicate

mutual

/-- Three-valued meaning on an input, without any bound. -/
def known (root : Json) (time : Option Json) : FlowPredicate → Option Json → Option Bool
  | .all predicates, item => FlowQuantifier.every.combine (knownAll root time predicates item)
  | .any predicates, item => FlowQuantifier.any.combine (knownAll root time predicates item)
  | .forEach collection quantifier predicate, item =>
    ((collection.resolve root item time).bind Json.asArray).bind fun values =>
      quantifier.combine (values.map fun value => known root time predicate (some value))
  | .not predicate, item => (known root time predicate item).map (!·)
  | .exists operand, item => (operand.resolve root item time).map fun _ => true
  | .absent path, _ => some (root.pointer path).isNone
  | .compare left comparison right, item =>
    (left.resolve root item time).bind fun left =>
      (right.resolve root item time).bind fun right => comparison.known left right

def knownAll (root : Json) (time : Option Json) :
    List FlowPredicate → Option Json → List (Option Bool)
  | [], _ => []
  | predicate :: predicates, item =>
    known root time predicate item :: knownAll root time predicates item

end

end FlowPredicate

/-- Steps of values found out in order, up to the first unknown one. -/
def untilUnknown : List (Option Bool × Nat) → Nat
  | [] => 0
  | (value, steps) :: rest => steps + if value.isSome then untilUnknown rest else 0

/-- Roots read up to the first invalid one. -/
def rootsRead : List Json → Nat
  | [] => 0
  | root :: roots => 1 + if (repositoryPath root).isSome then rootsRead roots else 0

def FlowComparison.steps (left right : Json) : FlowComparison → Nat
  | .repositoryPathWithinAny =>
    (repositoryPath left).elim 0 fun _ => right.asArray.elim 0 rootsRead
  | _ => 0

namespace FlowPredicate

mutual

/-- Steps of an evaluation without any bound. -/
def steps (root : Json) (time : Option Json) : FlowPredicate → Option Json → Nat
  | .all predicates, item | .any predicates, item =>
    1 + untilUnknown (stepsAll root time predicates item)
  | .forEach collection _ predicate, item =>
    1 + ((collection.resolve root item time).bind Json.asArray).elim 0 fun values =>
      untilUnknown (values.map fun value =>
        (known root time predicate (some value), steps root time predicate (some value)))
  | .not predicate, item => 1 + steps root time predicate item
  | .exists _, _ | .absent _, _ => 1
  | .compare left comparison right, item =>
    1 + (left.resolve root item time).elim 0 fun left =>
      (right.resolve root item time).elim 0 fun right => comparison.steps left right

def stepsAll (root : Json) (time : Option Json) :
    List FlowPredicate → Option Json → List (Option Bool × Nat)
  | [], _ => []
  | predicate :: predicates, item =>
    (known root time predicate item, steps root time predicate item) ::
      stepsAll root time predicates item

end

end FlowPredicate

/-! ## The evaluator finds out the meaning -/

theorem orFail_costs {α : Type} (value : Option α) (failure : FlowPredicateFailure) :
    (orFail value failure).Costs value 0 := by
  refine (Metered.Costs.lift _).of_eq ?_ rfl
  cases value <;> rfl

/-- A computation on a value that has to be known. -/
theorem orFail_bind {α β : Type} {value : Option α} {failure : FlowPredicateFailure}
    {f : α → Evaluation β} {g : α → Option β} {k : α → Nat}
    (h : ∀ a, value = some a → (f a).Costs (g a) (k a)) :
    (orFail value failure >>= f).Costs (value.bind g) (value.elim 0 k) :=
  ((orFail_costs value failure).bind h).of_eq rfl (Nat.zero_add _)

theorem FlowQuantifier.foldlM_add (quantifier : FlowQuantifier) (state : Bool × Bool)
    (values : List (Option Bool)) :
    values.foldlM (fun state value => value.map (quantifier.add state)) state =
      if none ∈ values then none
      else some (state.1 || !values.isEmpty, match quantifier with
        | .any => state.2 || values.any (· = some true)
        | .every => state.2 && values.all (· = some true)) := by
  induction values generalizing state with
  | nil =>
    obtain ⟨seen, result⟩ := state
    cases quantifier <;> simp [pure]
  | cons value values ih =>
    rw [foldlM_cons]
    cases value with
    | none => simp [bind]
    | some value =>
      simp only [Option.map_some, bind, Option.bind_some, ih]
      by_cases hunk : none ∈ values
      · rw [if_pos hunk, if_pos (mem_cons_of_mem _ hunk)]
      · rw [if_neg hunk, if_neg (by simp [hunk])]
        cases quantifier <;> cases value <;> simp [FlowQuantifier.add]

/-- A collection is aggregated as far as its values are known. -/
theorem FlowQuantifier.aggregate_costs (quantifier : FlowQuantifier)
    {values : List (Evaluation Bool)} {meanings : List (Option Bool × Nat)}
    (h : List.Forall₂ (fun evaluate meaning => evaluate.Costs meaning.1 meaning.2) values
      meanings) : (quantifier.aggregate values).Costs (quantifier.combine (meanings.map Prod.fst))
      (untilUnknown meanings) := by
  have hfold : ∀ state, (values.foldlM (fun (state : Bool × Bool) evaluate => do
      let value ← evaluate
      pure (quantifier.add state value)) state : Evaluation (Bool × Bool)).Costs
        ((meanings.map Prod.fst).foldlM (fun state value => value.map (quantifier.add state)) state)
        (untilUnknown meanings) := by
    induction h with
    | nil => exact fun state => .pure state
    | @cons evaluate meaning values meanings hhead _ ih =>
      intro state
      rw [foldlM_cons, map_cons, foldlM_cons]
      have hstep : (evaluate >>= fun value => pure (quantifier.add state value) :
          Evaluation (Bool × Bool)).Costs (meaning.1.map (quantifier.add state)) meaning.2 :=
        (hhead.bind (g := fun value => some (quantifier.add state value)) fun value _ =>
          .pure _).of_eq (by cases meaning.1 <;> rfl) (by cases meaning.1 <;> rfl)
      refine (hstep.bind fun state _ => ih state).of_eq rfl ?_
      obtain ⟨value, steps⟩ := meaning
      cases value <;> rfl
  have hadd := (hfold (false, quantifier = .every)).bind
    (f := fun state => orFail (if state.1 then some state.2 else none) .invalidType)
    fun state _ => orFail_costs _ _
  refine Metered.Costs.of_eq (m := quantifier.aggregate values) hadd ?_ ?_
  · rw [FlowQuantifier.foldlM_add]
    unfold FlowQuantifier.combine
    generalize meanings.map Prod.fst = known
    by_cases hunk : none ∈ known
    · rw [if_pos hunk, if_pos (.inr hunk), Option.bind_none]
    · rw [if_neg hunk, Option.bind_some]
      cases known with
      | nil => simp
      | cons value known =>
        rw [if_neg (not_or.mpr ⟨nofun, hunk⟩)]
        cases quantifier <;> simp
  · generalize List.foldlM (m := Option) _ _ _ = state
    cases state <;> rfl

theorem roots_costs (path : FactoryRepositoryPath) (roots : List Json) (matched : Bool) :
    Metered.Costs (ε := FlowPredicateFailure) (roots.foldlM (fun matched root => do
        step
        let pathPrefix ← orFail (repositoryPath root) .invalidType
        pure (matched || path.isWithin pathPrefix)) matched)
      ((roots.mapM repositoryPath).map fun prefixes => matched || prefixes.any path.isWithin)
      (rootsRead roots) := by
  induction roots generalizing matched with
  | nil => exact (Metered.Costs.pure matched).of_eq (by simp) rfl
  | cons root roots ih =>
    rw [foldlM_cons]
    have hroot : Metered.Costs (do
        step
        let pathPrefix ← orFail (repositoryPath root) .invalidType
        pure (matched || path.isWithin pathPrefix) : Evaluation Bool)
          ((repositoryPath root).bind fun pathPrefix => some (matched || path.isWithin pathPrefix))
          (1 + 0) :=
      .tick_bind ((orFail_bind (k := fun _ => 0) fun pathPrefix _ => .pure _).of_eq rfl
        (by cases repositoryPath root <;> rfl))
    refine (hroot.bind fun matched _ => ih matched).of_eq ?_ ?_
    · rw [mapM_cons]
      cases repositoryPath root with
      | none => rfl
      | some pathPrefix =>
        simp only [bind, Option.bind_some]
        cases roots.mapM repositoryPath with
        | none => rfl
        | some prefixes => simp [Bool.or_assoc]
    · rw [rootsRead]
      cases repositoryPath root <;> rfl

theorem FlowComparison.compare_costs (comparison : FlowComparison) (left right : Json) :
    (comparison.compare left right).Costs (comparison.known left right)
      (comparison.steps left right) := by
  cases comparison with
  | equal => exact orFail_costs _ _
  | exactValue => exact .pure _
  | repositoryPathWithin =>
    refine (orFail_bind (k := fun _ => 0) fun path _ => ?_).of_eq rfl ?_
    · exact (orFail_bind (k := fun _ => 0) fun pathPrefix _ => .pure _).of_eq rfl
        (by cases repositoryPath right <;> rfl)
    · cases repositoryPath left <;> rfl
  | repositoryPathWithinAny =>
    refine orFail_bind fun path _ => orFail_bind fun roots _ => ?_
    refine (roots_costs path roots false).of_eq ?_ rfl
    cases roots.mapM repositoryPath <;> simp [bind]
  | greater =>
    refine (orFail_bind (k := fun _ => 0) fun a _ => ?_).of_eq rfl ?_
    · exact (orFail_bind (k := fun _ => 0) fun b _ => .pure _).of_eq rfl
        (by cases right.asI64 <;> rfl)
    · cases left.asI64 <;> rfl
  | lessOrEqual =>
    refine (orFail_bind (k := fun _ => 0) fun a _ => ?_).of_eq rfl ?_
    · exact (orFail_bind (k := fun _ => 0) fun b _ => .pure _).of_eq rfl
        (by cases right.asI64 <;> rfl)
    · cases left.asI64 <;> rfl

namespace FlowPredicate

theorem map_fst_stepsAll (root : Json) (time item : Option Json) (predicates : List FlowPredicate) :
    (stepsAll root time predicates item).map Prod.fst = knownAll root time predicates item := by
  induction predicates with
  | nil => rfl
  | cons predicate predicates ih => rw [stepsAll, knownAll, map_cons, ih]

mutual

/-- The evaluator finds out the meaning of a predicate, in exactly its steps. -/
theorem evaluate_costs (root : Json) (time : Option Json) (predicate : FlowPredicate)
    (item : Option Json) :
    (evaluate root time predicate item).Costs (known root time predicate item)
      (steps root time predicate item) := by
  match predicate with
  | .all predicates =>
    unfold evaluate known steps
    rw [← map_fst_stepsAll]
    exact .tick_bind (FlowQuantifier.aggregate_costs _ (evaluateAll_costs root time predicates item))
  | .any predicates =>
    unfold evaluate known steps
    rw [← map_fst_stepsAll]
    exact .tick_bind (FlowQuantifier.aggregate_costs _ (evaluateAll_costs root time predicates item))
  | .forEach collection quantifier predicate =>
    unfold evaluate known steps
    refine .tick_bind ?_
    rw [Option.bind_assoc]
    refine (orFail_bind fun collection _ => orFail_bind (k := fun (values : List Json) =>
      untilUnknown (values.map fun value => (known root time predicate (some value),
        steps root time predicate (some value)))) fun values _ => ?_).of_eq rfl ?_
    · have hvals : List.Forall₂ (fun evaluate meaning => Metered.Costs evaluate meaning.1 meaning.2)
          (values.map fun value => evaluate root time predicate (some value))
          (values.map fun value => (known root time predicate (some value),
            steps root time predicate (some value))) := by
        rw [forall₂_map_left_iff, forall₂_map_right_iff]
        exact forall₂_same.mpr fun value _ => evaluate_costs root time predicate (some value)
      refine (quantifier.aggregate_costs hvals).of_eq ?_ rfl
      rw [map_map]
      rfl
    · cases collection.resolve root item time <;> rfl
  | .not predicate =>
    unfold evaluate known steps
    exact .tick_bind (((evaluate_costs root time predicate item).bind
      (g := fun value => some !value) fun value _ => .pure _).of_eq
        (by cases known root time predicate item <;> rfl)
        (by cases known root time predicate item <;> rfl))
  | .exists operand =>
    unfold evaluate known steps
    refine Metered.Costs.tick_bind (k := 0) ?_
    refine (orFail_bind (g := fun _ => some true) (k := fun _ => 0)
      fun _ _ => .pure _).of_eq ?_ ?_
    · cases operand.resolve root item time <;> rfl
    · cases operand.resolve root item time <;> rfl
  | .absent path =>
    unfold evaluate known steps
    exact Metered.Costs.tick_bind (k := 0) (.pure _)
  | .compare left comparison right =>
    unfold evaluate known steps
    exact .tick_bind (orFail_bind fun left _ => orFail_bind fun right _ =>
      comparison.compare_costs left right)

theorem evaluateAll_costs (root : Json) (time : Option Json) (predicates : List FlowPredicate)
    (item : Option Json) :
    List.Forall₂ (fun evaluate meaning => Metered.Costs evaluate meaning.1 meaning.2)
      (evaluateAll root time predicates item) (stepsAll root time predicates item) := by
  match predicates with
  | [] => exact .nil
  | predicate :: predicates =>
    exact .cons (evaluate_costs root time predicate item)
      (evaluateAll_costs root time predicates item)

end

end FlowPredicate

/-! ## Programs -/

/-- Ordered condition and one finite outcome declared by the containing node. -/
structure FlowGateRule where
  when : FlowPredicate
  outcome : FactoryKey

/-- Frozen finite rules evaluated in order, with an explicit fallback. -/
structure FlowGateProgram where
  precondition : Option FlowPredicate
  rules : List FlowGateRule
  fallback : FactoryKey

/-- Observations validated against an exact schema. -/
structure FlowPayload where
  schema : ImmutableReference
  value : Json

def invalidProgram : FactoryError := invalid "Flow gate program"

/-- `Value::from` of the instant. -/
def timeValue (at_ : Timestamp) : Json :=
  if at_.unixMillis < 0 then .number (.negInt (Int64.ofInt at_.unixMillis))
  else .number (.posInt (UInt64.ofNat at_.unixMillis.toNat))

namespace FlowGateProgram

/-- The rules in order, on what the precondition left of the allowance. -/
def selectRule (fallback : FactoryKey) (input : Json) (time : Option Json) :
    List FlowGateRule → Nat → Except FactoryError (FactoryKey × Bool)
  | [], _ => .ok (fallback, true)
  | rule :: rules, remaining =>
    let (matched, remaining) := (rule.when.evaluate input time none).run remaining
    if remaining = 0 then .error invalidProgram
    else if matched.toOption = some true then .ok (rule.outcome, true)
    else selectRule fallback input time rules remaining

/-- The outcome, and whether the precondition held. -/
def selectWithTime (program : FlowGateProgram) (input : FlowPayload) (time : Option Json) :
    Except FactoryError (FactoryKey × Bool) :=
  match program.precondition with
  | none => selectRule program.fallback input.value time program.rules maxEvaluationSteps
  | some precondition =>
    let (matched, remaining) :=
      (precondition.evaluate input.value time none).run maxEvaluationSteps
    if remaining = 0 then .error invalidProgram
    else if matched.toOption ≠ some true then .ok (program.fallback, false)
    else selectRule program.fallback input.value time program.rules remaining

/-- Selects the first matching rule or the explicit fallback. -/
def select (program : FlowGateProgram) (input : FlowPayload) : Except FactoryError FactoryKey :=
  (program.selectWithTime input none).map Prod.fst

/-- Evaluates temporal rules against the authoritative observation time. -/
def selectAt (program : FlowGateProgram) (input : FlowPayload) (at_ : Timestamp) :
    Except FactoryError FactoryKey :=
  (program.selectWithTime input (some (timeValue at_))).map Prod.fst

section

variable (program : FlowGateProgram) (input : Json) (time : Option Json)

/-- The precondition is known true, where there is one. -/
def passes : Bool :=
  program.precondition.all fun precondition => precondition.known input time none = some true

/-- A rule fires only when its predicate is known true. -/
def fires (rule : FlowGateRule) : Bool := rule.when.known input time none = some true

/-- The outcome of the first rule that fires, behind the precondition. -/
def chosen : FactoryKey :=
  if program.passes input time then
    ((program.rules.find? (fires input time)).map (·.outcome)).getD program.fallback
  else program.fallback

/-- Steps of the rules up to the first that fires. -/
def rulesSteps : List FlowGateRule → Nat
  | [] => 0
  | rule :: rules =>
    rule.when.steps input time none + if fires input time rule then 0 else rulesSteps rules

/-- Steps of the precondition and the rules visited. -/
def visitedSteps : Nat :=
  (program.precondition.elim 0 fun precondition => precondition.steps input time none) +
    if program.passes input time then rulesSteps input time program.rules else 0

end

/-! ## Selections -/

theorem selectRule_eq (fallback : FactoryKey) (input : Json) (time : Option Json)
    (rules : List FlowGateRule) {remaining : Nat} (hsome : 0 < remaining) :
    selectRule fallback input time rules remaining = if rulesSteps input time rules < remaining then
        .ok (((rules.find? (fires input time)).map (·.outcome)).getD fallback, true)
      else .error invalidProgram := by
  induction rules generalizing remaining with
  | nil => exact (if_pos hsome).symm
  | cons rule rules ih =>
    obtain ⟨hvalue, hleft⟩ := rule.when.evaluate_costs input time none remaining
    rcases hrun : (rule.when.evaluate input time none).run remaining with ⟨matched, left⟩
    rw [hrun] at hvalue hleft
    simp only at hvalue hleft
    subst hleft
    unfold selectRule rulesSteps
    rw [hrun]
    simp only [List.find?_cons]
    by_cases hshort : remaining ≤ rule.when.steps input time none
    · rw [if_pos (by omega), if_neg (by omega)]
    · have henough : rule.when.steps input time none ≤ remaining := by omega
      rw [if_pos henough] at hvalue
      rw [if_neg (by omega), hvalue]
      by_cases hfires : rule.when.known input time none = some true
      · have hrule : fires input time rule = true := decide_eq_true hfires
        rw [if_pos hfires, hrule, if_pos rfl, if_pos (by omega)]
        rfl
      · have hrule : fires input time rule = false := decide_eq_false hfires
        rw [if_neg hfires, hrule, if_neg Bool.false_ne_true, ih (by omega)]
        refine if_congr ?_ rfl rfl
        omega

theorem selectWithTime_eq (program : FlowGateProgram) (input : FlowPayload) (time : Option Json) :
    program.selectWithTime input time =
      if program.visitedSteps input.value time < maxEvaluationSteps then
        .ok (program.chosen input.value time, program.passes input.value time)
      else .error invalidProgram := by
  have hpos : 0 < maxEvaluationSteps := by decide
  unfold selectWithTime
  cases hprogram : program.precondition with
  | none =>
    have hpass : program.passes input.value time = true := by
      rw [passes, hprogram, Option.all_none]
    have hvisd : program.visitedSteps input.value time =
        rulesSteps input.value time program.rules := by
      rw [visitedSteps, hpass, hprogram, if_pos rfl, Option.elim_none, Nat.zero_add]
    rw [hvisd, hpass, chosen, if_pos hpass]
    exact selectRule_eq _ _ _ _ hpos
  | some precondition =>
    have hpass : program.passes input.value time =
        decide (precondition.known input.value time none = some true) := by
      rw [passes, hprogram, Option.all_some]
    have hvisd : program.visitedSteps input.value time =
        precondition.steps input.value time none +
          if program.passes input.value time then rulesSteps input.value time program.rules
          else 0 := by
      rw [visitedSteps, hprogram, Option.elim_some]
    obtain ⟨hvalue, hleft⟩ := precondition.evaluate_costs input.value time none maxEvaluationSteps
    rcases hrun : (precondition.evaluate input.value time none).run maxEvaluationSteps with
      ⟨matched, left⟩
    rw [hrun] at hvalue hleft
    simp only at hvalue hleft
    subst hleft
    simp only [hrun]
    by_cases hshort : maxEvaluationSteps ≤ precondition.steps input.value time none
    · rw [if_pos (by omega), if_neg (by omega)]
    · have henough : precondition.steps input.value time none ≤ maxEvaluationSteps := by omega
      rw [if_pos henough] at hvalue
      rw [if_neg (by omega), hvalue]
      by_cases hholds : precondition.known input.value time none = some true
      · have htrue : program.passes input.value time = true := hpass.trans (decide_eq_true hholds)
        rw [if_neg (not_not.mpr hholds), selectRule_eq _ _ _ _ (by omega), hvisd, chosen, htrue,
          if_pos rfl, if_pos rfl]
        refine if_congr ?_ rfl rfl
        omega
      · have hfalse : program.passes input.value time = false :=
          hpass.trans (decide_eq_false hholds)
        have hvisits : program.visitedSteps input.value time < maxEvaluationSteps := by
          rw [hvisd, hfalse, if_neg Bool.false_ne_true]
          omega
        rw [if_pos hholds, if_pos hvisits, chosen, hfalse, if_neg Bool.false_ne_true]

/-- Every selection is the outcome of the rules without a limit, unless they take the whole
    allowance: then it is an error. -/
theorem select_eq_chosen (program : FlowGateProgram) (input : FlowPayload) : (program.select input =
      if program.visitedSteps input.value none < maxEvaluationSteps then
        .ok (program.chosen input.value none) else .error invalidProgram) ∧
    ∀ at_ : Timestamp, program.selectAt input at_ =
      if program.visitedSteps input.value (some (timeValue at_)) < maxEvaluationSteps then
        .ok (program.chosen input.value (some (timeValue at_))) else .error invalidProgram := by
  have hmap : ∀ time, (program.selectWithTime input time).map Prod.fst =
      if program.visitedSteps input.value time < maxEvaluationSteps then
        .ok (program.chosen input.value time)
      else .error invalidProgram := by
    intro time
    rw [selectWithTime_eq]
    split
    · rfl
    · rfl
  exact ⟨hmap none, fun at_ => hmap (some (timeValue at_))⟩

end FlowGateProgram

end OctaCity.Factory.Flow
