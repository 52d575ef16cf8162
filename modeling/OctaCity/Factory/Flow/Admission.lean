/-
  OctaCity.Factory.Flow.Admission

  What admission establishes about a closure, in the form the interpreter's
  properties need it: routes are total and their targets declared, restart
  edges stand alone, unbounded and exhaustion edges are acyclic, and calls do
  not recurse.
-/
import OctaCity.Factory.Flow.Validation
import OctaCity.Factory.GraphCycles

namespace OctaCity.Factory.Flow

open Factory.Graph Lib List

/-! ## One definition -/

/-- The semantic content of a validated definition. -/
structure SoundDefinition (definition : FlowDefinition) : Prop where
  entry : ∃ node, definition.node definition.entry = some node
  successor : ∀ transition ∈ definition.transitions, ∀ key ∈ transition.nodeTargets,
    ∃ node, definition.node key = some node
  terminal : ∀ transition ∈ definition.transitions, ∀ node,
    definition.node transition.predecessor = some node → ∀ outcome,
    node.outcome transition.outcome = some outcome → ∀ key,
    (transition.target = .terminal key ∨ transition.exhaustedTerminal = some key) →
    definition.hasTerminal key outcome.schema = true
  exhaustion : ∀ transition ∈ definition.transitions, 0 < transition.maxRepeats →
    transition.exhaustedTerminal = none → ∃ gate, transition.exhaustedNode = some gate
  gate : ∀ transition ∈ definition.transitions, ∀ gate, transition.exhaustedNode = some gate →
    0 < transition.maxRepeats ∧ transition.startsCycle = false ∧
      ¬ Relation.TransGen (Edge definition.structuralEdges) gate gate
  restart : ∀ transition ∈ definition.transitions, transition.startsCycle = true →
    0 < transition.maxRepeats ∧ (∃ key, transition.target = .node key) ∧
      ∀ other ∈ definition.transitions,
        other.routes transition.predecessor transition.outcome = true → other = transition
  routed : ∀ node ∈ definition.nodes, ∀ outcome ∈ node.outcomes,
    ∃ transition ∈ definition.transitions, transition.routes node.key outcome.key = true
  unbounded : ∀ key, ¬ Relation.TransGen (Edge definition.unboundedEdges) key key
  call : ∀ node ∈ definition.nodes,
    (node.kind = .subflowCall ↔ node.subflow.isSome = true) ∧
      (node.subflow.isSome = true → node.maxExecutionRetries = 0)

variable {definition : FlowDefinition} {key : FactoryKey} {node : FlowNodeDefinition}
  {components : List (List FactoryKey)} {limits : FlowAdmissionLimits}
  {transition : FlowTransition} {closure : PinnedFlowDefinitionClosure}

theorem FlowDefinition.node_mem (h : definition.node key = some node) :
    node ∈ definition.nodes ∧ node.key = key :=
  ⟨mem_of_find?_eq_some h, by simpa using List.find?_some h⟩

theorem FlowDefinition.node_of_mem_keys
    (h : key ∈ definition.nodes.map (·.key)) : ∃ node, definition.node key = some node := by
  obtain ⟨node, hnode, rfl⟩ := mem_map.mp h
  cases hfind : definition.node node.key with
  | some found => exact ⟨found, rfl⟩
  | none => simpa using List.find?_eq_none.mp hfind node hnode

theorem analyzeFlowGraph_eq_ok
    {edges : List (StructuralEdge FactoryKey)} {field : String} {facts : StructuralFacts FactoryKey} :
    analyzeFlowGraph definition edges field = .ok facts ↔
      analyze (definition.nodes.map (·.key)) edges [definition.entry] = .ok facts := by
  unfold analyzeFlowGraph
  split <;> simp_all

/-- What a successful transition check says. -/
structure TransitionChecked (definition : FlowDefinition) (components : List (List FactoryKey))
    (transition : FlowTransition) : Prop where
  restart : transition.startsCycle = true →
    0 < transition.maxRepeats ∧ ∃ key, transition.target = .node key
  terminal : ∀ node, definition.node transition.predecessor = some node → ∀ outcome,
    node.outcome transition.outcome = some outcome → ∀ key,
    (transition.target = .terminal key ∨ transition.exhaustedTerminal = some key) →
    definition.hasTerminal key outcome.schema = true
  exhaustion : 0 < transition.maxRepeats → transition.exhaustedTerminal = none →
    ∃ gate, transition.exhaustedNode = some gate
  gate : ∀ gate, transition.exhaustedNode = some gate →
    0 < transition.maxRepeats ∧ transition.startsCycle = false ∧
      inCyclicComponent components gate = false

theorem validateTarget_eq_ok {outcome : FlowOutcomeDefinition}
    (h : validateTarget definition components limits transition outcome = .ok ()) :
    ∀ key, transition.target = .terminal key →
      definition.hasTerminal key outcome.schema = true := by
  intro key htgt
  unfold validateTarget at h
  rw [htgt] at h
  obtain ⟨hcheck, -⟩ := guard_eq_ok.mp h
  rw [not_or, not_not] at hcheck
  exact hcheck.1

/-- A bounded transition says where it goes once it is used up. -/
theorem validateExhaustion_eq_ok {outcome : FlowOutcomeDefinition}
    (h : validateExhaustion definition components transition outcome = .ok ()) :
    (∀ key, transition.exhaustedTerminal = some key →
        definition.hasTerminal key outcome.schema = true) ∧
      (0 < transition.maxRepeats → transition.exhaustedTerminal = none →
        ∃ gate, transition.exhaustedNode = some gate) ∧
      ∀ gate, transition.exhaustedNode = some gate →
        0 < transition.maxRepeats ∧ transition.startsCycle = false ∧
          inCyclicComponent components gate = false := by
  unfold validateExhaustion at h
  split at h
  · rename_i hrepeats hterm hnode
    rw [hterm, hnode]
    refine ⟨?_, ?_, ?_⟩
    · rintro _ ⟨⟩
    · intro hpos
      omega
    · rintro _ ⟨⟩
  · rename_i n terminal hrepeats hterm hnode
    rw [hterm, hnode]
    obtain ⟨hcheck, -⟩ := guard_eq_ok.mp h
    refine ⟨?_, ?_, ?_⟩
    · rintro key ⟨⟩
      exact not_not.mp hcheck
    · rintro _ ⟨⟩
    · rintro _ ⟨⟩
  · rename_i n node hrepeats hterm hnode
    rw [hterm, hnode]
    obtain ⟨hcheck, -⟩ := guard_eq_ok.mp h
    rw [not_not] at hcheck
    refine ⟨?_, ?_, ?_⟩
    · rintro _ ⟨⟩
    · exact fun _ _ => ⟨node, rfl⟩
    · rintro gate ⟨⟩
      have hgate := hcheck.2
      unfold isExhaustionGate at hgate
      rw [Bool.and_eq_true, Bool.not_eq_true'] at hgate
      exact ⟨by omega, hcheck.1, hgate.2⟩
  · cases h

theorem validateTransition_eq_ok
    (h : validateTransition definition components limits transition = .ok ()) :
    TransitionChecked definition components transition := by
  unfold validateTransition at h
  obtain ⟨hrest, h⟩ := guard_eq_ok.mp h
  obtain ⟨predecessor, hpred, h⟩ := bind_eq_ok.mp h
  obtain ⟨outcome, hout, h⟩ := bind_eq_ok.mp h
  obtain ⟨_, htgt, hexhaustion⟩ := bind_eq_ok.mp h
  rw [okOr_eq_ok] at hpred hout
  obtain ⟨hterm, hroute, hgate⟩ := validateExhaustion_eq_ok hexhaustion
  refine ⟨?_, ?_, hroute, hgate⟩
  · intro hstart
    rw [not_and, not_or] at hrest
    obtain ⟨hpos, hnode⟩ := hrest hstart
    refine ⟨Nat.pos_of_ne_zero hpos, ?_⟩
    cases ht : transition.target with
    | node key => exact ⟨key, rfl⟩
    | terminal key =>
      rw [ht] at hnode
      exact absurd rfl hnode
  · intro node hnode declared hdeclared key hkey
    rw [hpred] at hnode
    cases hnode
    rw [hout] at hdeclared
    cases hdeclared
    rcases hkey with hkey | hkey
    · exact validateTarget_eq_ok htgt key hkey
    · exact hterm key hkey

/-- Elements counted once by a predicate are the same element. -/
theorem eq_of_countP_eq_one {α : Type} {p : α → Bool} {l : List α} (h : l.countP p = 1) {a b : α}
    (ha : a ∈ l) (hb : b ∈ l) (hpa : p a = true) (hpb : p b = true) : a = b := by
  rw [countP_eq_length_filter, length_eq_one_iff] at h
  obtain ⟨c, hc⟩ := h
  have hmem : ∀ x, x ∈ l → p x = true → x = c := by
    intro x hx hpx
    have : x ∈ l.filter p := mem_filter.mpr ⟨hx, hpx⟩
    rw [hc] at this
    exact mem_singleton.mp this
  rw [hmem a ha hpa, hmem b hb hpb]

theorem inCyclicComponent_iff :
    inCyclicComponent components key = true ↔ ∃ component ∈ components, key ∈ component := by
  simp [inCyclicComponent]

theorem validateDeclaration_eq_ok (h : node.validateDeclaration = .ok ()) :
    node.kind = .subflowCall ↔ node.subflow.isSome = true := by
  unfold FlowNodeDefinition.validateDeclaration at h
  obtain ⟨-, h⟩ := guard_eq_ok.mp h
  obtain ⟨heq, -⟩ := guard_eq_ok.mp h
  rw [ne_eq, not_not] at heq
  rw [heq]

theorem validateExecutionRetries_eq_ok
    (h : node.validateExecutionRetries = .ok ()) (hkind : node.kind = .subflowCall) :
    node.maxExecutionRetries = 0 := by
  unfold FlowNodeDefinition.validateExecutionRetries at h
  obtain ⟨hcheck, -⟩ := guard_eq_ok.mp h
  rw [not_or, not_and, not_not] at hcheck
  by_contra hne
  have := hcheck.2 hne
  rw [hkind] at this
  cases this

theorem SoundDefinition.of_validateDefinition {checks : DefinitionChecks}
    (h : validateDefinition checks closure limits definition = .ok ()) :
    SoundDefinition definition := by
  unfold validateDefinition at h
  obtain ⟨_, hcanon, h⟩ := bind_eq_ok.mp h
  obtain ⟨_, -, h⟩ := bind_eq_ok.mp h
  obtain ⟨facts, hfacts, h⟩ := bind_eq_ok.mp h
  rw [analyzeFlowGraph_eq_ok] at hfacts
  obtain ⟨-, h⟩ := guard_eq_ok.mp h
  obtain ⟨-, h⟩ := guard_eq_ok.mp h
  obtain ⟨_, htranss, h⟩ := bind_eq_ok.mp h
  obtain ⟨hrest, h⟩ := guard_eq_ok.mp h
  obtain ⟨hroutes, h⟩ := guard_eq_ok.mp h
  obtain ⟨unbounded, hunbounded, h⟩ := bind_eq_ok.mp h
  rw [analyzeFlowGraph_eq_ok] at hunbounded
  obtain ⟨hacyclic, -⟩ := guard_eq_ok.mp h
  have hchk : ∀ transition ∈ definition.transitions,
      TransitionChecked definition facts.cyclicComponents transition :=
    fun transition hmem => validateTransition_eq_ok (forM_eq_ok.mp htranss transition hmem)
  obtain ⟨hclos, hroot, -⟩ := analyze_eq_ok hfacts
  unfold FlowDefinition.validateCanonicalForm at hcanon
  obtain ⟨_, -, hcanon⟩ := bind_eq_ok.mp hcanon
  obtain ⟨_, hnodes, -⟩ := bind_eq_ok.mp hcanon
  have hdeclared : ∀ node ∈ definition.nodes, node.validateDeclaration = .ok () ∧
      node.validateExecutionRetries = .ok () := by
    intro node hnode
    obtain ⟨_, hdecl, hretry⟩ := bind_eq_ok.mp (forM_eq_ok.mp hnodes node hnode)
    exact ⟨hdecl, hretry⟩
  rw [Bool.not_eq_true, outcomeRoutesInvalid, Bool.or_eq_false_iff, any_eq_false] at hroutes
  rw [Bool.not_eq_true, any_eq_false] at hrest
  refine ⟨?_, ?_, ?_, ?_, ?_, ?_, ?_, ?_, ?_⟩
  · exact FlowDefinition.node_of_mem_keys (hroot _ (mem_singleton_self _))
  · intro transition hmem key hkey
    refine FlowDefinition.node_of_mem_keys (hclos ⟨transition.predecessor, key⟩ ?_).2
    exact OrdSet.mem_ofList.mpr (mem_flatMap.mpr
      ⟨transition, hmem, mem_map_of_mem hkey⟩)
  · exact fun transition hmem => (hchk transition hmem).terminal
  · exact fun transition hmem => (hchk transition hmem).exhaustion
  · intro transition hmem gate hgate
    obtain ⟨hpos, hstart, hnot⟩ := (hchk transition hmem).gate gate hgate
    refine ⟨hpos, hstart, ?_⟩
    intro hcycle
    rw [inCyclicComponent_iff.mpr (analyze_cyclic hfacts hcycle)] at hnot
    cases hnot
  · intro transition hmem hstart
    obtain ⟨hpos, htgt⟩ := (hchk transition hmem).restart hstart
    refine ⟨hpos, htgt, ?_⟩
    intro other hother hroute
    have hone : definition.routeCount transition.predecessor transition.outcome = 1 := by
      by_contra hne
      have := hrest transition hmem
      rw [decide_eq_true_eq] at this
      exact this ⟨hstart, hne⟩
    exact eq_of_countP_eq_one hone hother hmem hroute (by simp [FlowTransition.routes])
  · intro node hnode outcome hout
    have hbad := hroutes.1 node hnode
    rw [Bool.not_eq_true, any_eq_false] at hbad
    have hcount := hbad outcome hout
    simp only [decide_eq_true_eq, not_or] at hcount
    have hpos := Nat.pos_of_ne_zero hcount.1
    obtain ⟨transition, hmem, hroute⟩ := countP_pos_iff.mp hpos
    exact ⟨transition, hmem, hroute⟩
  · intro key hcycle
    obtain ⟨component, hcpt, -⟩ := analyze_cyclic hunbounded hcycle
    rw [Bool.not_eq_true, Bool.not_eq_false', List.isEmpty_iff] at hacyclic
    rw [hacyclic] at hcpt
    cases hcpt
  · intro node hnode
    obtain ⟨hdecl, hretry⟩ := hdeclared node hnode
    have hiff := validateDeclaration_eq_ok hdecl
    exact ⟨hiff, fun hsome => validateExecutionRetries_eq_ok hretry (hiff.mpr hsome)⟩

theorem SoundDefinition.restart_unique
    (hsound : SoundDefinition definition) {left right : FlowTransition} {node outcome : FactoryKey}
    (hleft : left ∈ definition.transitions) (hright : right ∈ definition.transitions)
    (hstart : left.startsCycle = true) (hleftRoute : left.routes node outcome = true)
    (hrightRoute : right.routes node outcome = true) : right = left := by
  obtain ⟨-, -, huniq⟩ := hsound.restart left hleft hstart
  apply huniq right hright
  simp only [FlowTransition.routes, decide_eq_true_eq] at hleftRoute hrightRoute ⊢
  rw [hrightRoute.1, hrightRoute.2, hleftRoute.1, hleftRoute.2]
  exact ⟨rfl, rfl⟩

/-! ## Nesting -/

/-- `child` is called by a node of `parent`. -/
def Calls (closure : PinnedFlowDefinitionClosure) (child parent : FlowDefinitionRef) : Prop :=
  ∃ definition, closure.definition parent = some definition ∧ child ∈ definition.subflows

/-- A definition is checked after those it calls. -/
theorem rejectRecursiveDefinitions_eq (closure : PinnedFlowDefinitionClosure)
    (visiting visited : List FlowDefinitionRef) (reference : FlowDefinitionRef) :
    rejectRecursiveDefinitions closure visiting visited reference =
      if reference ∈ visited then .ok visited
      else if reference ∈ visiting then .error (invalid "recursive Flow Definition")
      else
        match closure.definition reference with
        | none => .error (invalid "Flow subflow version")
        | some definition =>
          definition.subflows.foldlM
            (rejectRecursiveDefinitions closure (reference :: visiting)) visited >>=
              fun visited => .ok (reference :: visited) := by
  conv_lhs => unfold rejectRecursiveDefinitions
  split
  · rfl
  · split
    · rfl
    · split <;> simp_all

/-- Everything visited is not recursive. -/
theorem rejectRecursiveDefinitions_acc (bound : Nat) :
    ∀ {visiting visited visited' : List FlowDefinitionRef} {reference : FlowDefinitionRef},
      remaining (closure.definitions.map (·.reference)) visiting ≤ bound →
      rejectRecursiveDefinitions closure visiting visited reference = .ok visited' →
      (∀ r ∈ visited, Acc (Calls closure) r) →
      visited ⊆ visited' ∧ reference ∈ visited' ∧ ∀ r ∈ visited', Acc (Calls closure) r := by
  induction bound with
  | zero =>
    intro visiting visited visited' reference hbound h hacc
    rw [rejectRecursiveDefinitions_eq] at h
    split at h
    · rename_i hmem
      cases h
      exact ⟨List.Subset.refl _, hmem, hacc⟩
    · obtain ⟨hfresh, h⟩ := guard_eq_ok.mp h
      split at h
      · cases h
      · rename_i definition hdef
        -- A fresh definition would lower the measure below zero.
        obtain ⟨hmem, rfl⟩ := PinnedFlowDefinitionClosure.definition_mem hdef
        have hlt := remaining_lt (mem_map_of_mem (f := (·.reference)) hmem) hfresh
        omega
  | succ bound ih =>
    intro visiting visited visited' reference hbound h hacc
    rw [rejectRecursiveDefinitions_eq] at h
    split at h
    · rename_i hmem
      cases h
      exact ⟨List.Subset.refl _, hmem, hacc⟩
    · obtain ⟨hfresh, h⟩ := guard_eq_ok.mp h
      split at h
      · cases h
      · rename_i definition hdef
        obtain ⟨reached, hfold, h⟩ := bind_eq_ok.mp h
        cases h
        obtain ⟨hmem, rfl⟩ := PinnedFlowDefinitionClosure.definition_mem hdef
        have hlt := remaining_lt (mem_map_of_mem (f := (·.reference)) hmem) hfresh
        have hall : ∀ (children : List FlowDefinitionRef) {visited : List FlowDefinitionRef},
            children.foldlM (rejectRecursiveDefinitions closure (definition.reference :: visiting))
              visited = .ok reached → (∀ r ∈ visited, Acc (Calls closure) r) →
            visited ⊆ reached ∧ (∀ r ∈ children, r ∈ reached) ∧
              ∀ r ∈ reached, Acc (Calls closure) r := by
          intro children
          induction children with
          | nil =>
            intro visited hfold hacc
            cases hfold
            refine ⟨List.Subset.refl _, ?_, hacc⟩
            rintro r ⟨⟩
          | cons child rest ihc =>
            intro visited hfold hacc
            rw [foldlM_cons] at hfold
            obtain ⟨mid, hmid, hfold⟩ := bind_eq_ok.mp hfold
            obtain ⟨hsub, hin, hacc'⟩ := ih (by omega) hmid hacc
            obtain ⟨hsub', hin', hacc''⟩ := ihc hfold hacc'
            refine ⟨fun r hr => hsub' (hsub hr), ?_, hacc''⟩
            intro r hr
            rcases mem_cons.mp hr with rfl | hr
            · exact hsub' hin
            · exact hin' r hr
        obtain ⟨hsub, hchild, hacc'⟩ := hall definition.subflows hfold hacc
        refine ⟨fun r hr => mem_cons_of_mem _ (hsub hr), mem_cons_self .., ?_⟩
        intro r hr
        rcases mem_cons.mp hr with rfl | hr
        · refine Acc.intro _ ?_
          rintro child ⟨parent, hpar, hcalls⟩
          rw [hdef] at hpar
          cases hpar
          exact hacc' child (hchild child hcalls)
        · exact hacc' r hr

/-! ## The closure -/

/-- The semantic content of an admitted closure. -/
structure SoundClosure (validated : ValidatedFlowDefinitionClosure) : Prop where
  sound : ∀ {reference definition}, validated.closure.definition reference = some definition →
    SoundDefinition definition
  nonrecursive : Acc (Calls validated.closure) validated.closure.root
  measured : expandedMeasurements validated.closure validated.closure.definitions.length
    validated.closure.root = .ok (validated.expandedNodes, validated.maxDepth)

theorem SoundClosure.of_new {checks : DefinitionChecks} {validated : ValidatedFlowDefinitionClosure}
    (h : ValidatedFlowDefinitionClosure.new checks closure limits = .ok validated) :
    SoundClosure validated ∧ validated.closure = closure ∧ validated.limits = limits := by
  unfold ValidatedFlowDefinitionClosure.new at h
  obtain ⟨_, hdefinitions, h⟩ := bind_eq_ok.mp h
  obtain ⟨visited, hvisd, h⟩ := bind_eq_ok.mp h
  obtain ⟨measured, hmeasured, h⟩ := bind_eq_ok.mp h
  obtain ⟨-, h⟩ := guard_eq_ok.mp h
  obtain ⟨root, -, h⟩ := bind_eq_ok.mp h
  obtain ⟨-, h⟩ := guard_eq_ok.mp h
  obtain ⟨_, -, h⟩ := bind_eq_ok.mp h
  cases h
  refine ⟨⟨?_, ?_, hmeasured⟩, rfl, rfl⟩
  · intro reference definition hdef
    exact SoundDefinition.of_validateDefinition (forM_eq_ok.mp hdefinitions definition
      (PinnedFlowDefinitionClosure.definition_mem hdef).1)
  · obtain ⟨-, hin, hacc⟩ := rejectRecursiveDefinitions_acc _ (le_refl _) hvisd
      fun r hr => by cases hr
    exact hacc _ hin

theorem PinnedFlowDefinitionClosure.definition_of_mem
    {reference : FlowDefinitionRef} (h : reference ∈ closure.definitions.map (·.reference)) :
    ∃ definition, closure.definition reference = some definition := by
  obtain ⟨definition, hmem, rfl⟩ := mem_map.mp h
  cases hfind : closure.definition definition.reference with
  | some found => exact ⟨found, rfl⟩
  | none => simpa using List.find?_eq_none.mp hfind definition hmem

theorem PinnedFlowDefinitionClosure.definition_of_calls
    {child parent : FlowDefinitionRef} (h : Calls closure child parent) :
    ∃ definition, closure.definition child = some definition := by
  obtain ⟨parentDefinition, hpar, hcalls⟩ := h
  exact definition_of_mem (closure.closed parentDefinition (definition_mem hpar).1 child hcalls)

end OctaCity.Factory.Flow
