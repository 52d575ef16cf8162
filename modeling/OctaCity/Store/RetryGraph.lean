/-
  OctaCity.Store.RetryGraph

  What the comparison of a retry with its source decides.  In an accepted list
  every node and every Job identity occurs once and no dependency dangles, so the
  maps by node and by identity lose nothing.
-/
import Mathlib.Data.String.Basic
import OctaCity.Store.Steps

namespace OctaCity.Store

open Domain Job Lib List Orchestrator Pipeline

/-! ## Isomorphism -/

/-- The Jobs of a list that a Job waits for. -/
def dependencyJobs (jobs : List MaterializedJob) (job : MaterializedJob) :
    Set { job // job ∈ jobs } :=
  { dependency | dependency.1.id ∈ job.dependencies }

/-- What a retry has to keep of a Job. -/
structure SameTerms (job other : MaterializedJob) : Prop where
  pipelineNodeId : other.pipelineNodeId = job.pipelineNodeId
  dependencyPolicy : other.dependencyPolicy = job.dependencyPolicy
  allowedPools : other.allowedPools = job.allowedPools
  requirements : other.requirements = job.requirements
  jobSpecTemplate : other.jobSpecTemplate = job.jobSpecTemplate

/-- A one-to-one correspondence of the Jobs that keeps their terms and their dependencies. -/
def Isomorphic (source candidate : List MaterializedJob) : Prop :=
  ∃ image : { job // job ∈ source } ≃ { job // job ∈ candidate },
    ∀ job, SameTerms job.1 (image job).1 ∧
      dependencyJobs candidate (image job).1 = image '' dependencyJobs source job.1

theorem Isomorphic.refl (jobs : List MaterializedJob) : Isomorphic jobs jobs :=
  ⟨Equiv.refl _, fun _ => ⟨⟨rfl, rfl, rfl, rfl, rfl⟩, by simp⟩⟩

theorem Isomorphic.symm {source candidate : List MaterializedJob} (h : Isomorphic source candidate) :
    Isomorphic candidate source := by
  obtain ⟨image, himage⟩ := h
  refine ⟨image.symm, fun job => ?_⟩
  obtain ⟨hterms, hdeps⟩ := himage (image.symm job)
  rw [Equiv.apply_symm_apply] at hterms hdeps
  refine ⟨⟨hterms.1.symm, hterms.2.symm, hterms.3.symm, hterms.4.symm, hterms.5.symm⟩, ?_⟩
  rw [hdeps, Equiv.symm_image_image]

theorem Isomorphic.trans {one two three : List MaterializedJob} (h : Isomorphic one two)
    (h' : Isomorphic two three) : Isomorphic one three := by
  obtain ⟨image, himage⟩ := h
  obtain ⟨image', himage'⟩ := h'
  refine ⟨image.trans image', fun job => ?_⟩
  obtain ⟨hterms, hdeps⟩ := himage job
  obtain ⟨hterms', hdeps'⟩ := himage' (image job)
  refine ⟨⟨hterms'.1.trans hterms.1, hterms'.2.trans hterms.2, hterms'.3.trans hterms.3,
    hterms'.4.trans hterms.4, hterms'.5.trans hterms.5⟩, ?_⟩
  rw [Equiv.trans_apply, hdeps', hdeps, ← Set.image_comp]
  rfl

/-! ## Accepted lists -/

/-- Accepted for some Build by some operation. -/
def AcceptedJobs (rules : CoreRules) (jobs : List MaterializedJob) : Prop :=
  ∃ operation buildId, validateMaterializedJobs rules operation buildId jobs = .ok ()

/-- What makes the lookups of a list exact. -/
structure DistinctJobs (jobs : List MaterializedJob) : Prop where
  ids : (jobs.map (·.id)).Nodup
  nodes : (jobs.map (·.pipelineNodeId)).Nodup
  dependencies : ∀ job ∈ jobs, job.dependencies.Nodup
  known : ∀ job ∈ jobs, ∀ id ∈ job.dependencies, ∃ dependency ∈ jobs, dependency.id = id

variable {job : MaterializedJob} {jobs : List MaterializedJob}

theorem node_eq_ok {node : JobGraphNode} (h : job.node = .ok node) :
    node.id = job.id ∧ node.dependencies.Perm job.dependencies := by
  unfold MaterializedJob.node JobGraphNode.new at h
  dsimp only at h
  split at h
  · cases h
  · split at h
    · cases h
      exact ⟨rfl, perm_insertionSort _ _⟩
    · cases h

theorem known_of_materializedGraph (h : materializedGraph jobs = .ok ())
    (hjob : job ∈ jobs) {id : JobId} (hid : id ∈ job.dependencies) :
    ∃ dependency ∈ jobs, dependency.id = id := by
  obtain ⟨nodes, hnodes, hvalid⟩ := bind_eq_ok.mp h
  have hpairs := mapM_eq_ok.mp hnodes
  obtain ⟨graph, hcoll, hchk⟩ := validateJobGraph_eq_ok.mp hvalid
  obtain ⟨_, hcheck, -⟩ := bind_eq_ok.mp hchk
  have hperm := (collectGraph_eq_ok hcoll).2.2
  obtain ⟨node, hnode, hmade⟩ := forall₂_exists_right hpairs hjob
  obtain ⟨-, hsame⟩ := node_eq_ok hmade
  obtain ⟨-, hdeps⟩ := checkNode_eq_ok.mp (forM_eq_ok.mp hcheck node (hperm.mem_iff.mpr hnode))
  obtain ⟨other, hother, rfl⟩ :=
    (Table.contains_iff graph id).mp (hdeps id (hsame.mem_iff.mpr hid))
  obtain ⟨dependency, hdep, hmade'⟩ := forall₂_exists_left hpairs (hperm.mem_iff.mp hother)
  exact ⟨dependency, hdep, (node_eq_ok hmade').1.symm⟩

theorem distinct_of_accepted {rules : CoreRules}
    (h : AcceptedJobs rules jobs) : DistinctJobs jobs := by
  obtain ⟨operation, buildId, hvalid⟩ := h
  have hgraph := StoreState.validateMaterializedJobs_graph hvalid
  unfold validateMaterializedJobs at hvalid
  simp only [guard_eq_ok] at hvalid
  obtain ⟨-, -, -, -, hvalid⟩ := hvalid
  obtain ⟨hjobs, hvalid⟩ := check_eq_ok.mp hvalid
  simp only [guard_eq_ok, not_not] at hvalid
  obtain ⟨hids, hnodes, -⟩ := hvalid
  refine ⟨?_, hnodes, fun job hjob => ?_, fun job hjob id hid => known_of_materializedGraph hgraph hjob hid⟩
  · have hsort : (jobs.map (·.id)).IsChain (· < ·) := (isChain_map _).mpr hids
    exact (isChain_iff_pairwise.mp hsort).imp fun hless => ne_of_lt hless
  · have hchk := mapError_eq_ok.mp (forM_eq_ok.mp hjobs job hjob)
    unfold MaterializedJob.validate at hchk
    simp only [guard_eq_ok, not_not] at hchk
    exact (isChain_iff_pairwise.mp hchk.2.2.2.1).imp fun hless => ne_of_lt hless

/-! ## Lookups -/

section

variable {jobs : List MaterializedJob}

section

variable (h : DistinctJobs jobs)

include h

theorem jobsByNode_eq_some {nodeId : String} :
    jobsByNode jobs nodeId = some job ↔ job ∈ jobs ∧ job.pipelineNodeId = nodeId := by
  constructor
  · intro hfind
    exact ⟨mem_reverse.mp (mem_of_find?_eq_some hfind), by simpa using List.find?_some hfind⟩
  · rintro ⟨hjob, rfl⟩
    cases hfind : jobsByNode jobs job.pipelineNodeId with
    | none =>
      have hnone := List.find?_eq_none.mp hfind job (mem_reverse.mpr hjob)
      simp at hnone
    | some other =>
      have hother := mem_reverse.mp (mem_of_find?_eq_some hfind)
      have hsame : other.pipelineNodeId = job.pipelineNodeId := by simpa using List.find?_some hfind
      rw [inj_on_of_nodup_map h.nodes hother hjob hsame]

theorem nodesByJobId_eq_some {id : JobId} {nodeId : String} :
    nodesByJobId jobs id = some nodeId ↔ ∃ job ∈ jobs, job.id = id ∧ job.pipelineNodeId = nodeId := by
  rw [nodesByJobId, Option.map_eq_some_iff]
  constructor
  · rintro ⟨job, hfind, rfl⟩
    exact ⟨job, mem_reverse.mp (mem_of_find?_eq_some hfind),
      by simpa using List.find?_some hfind, rfl⟩
  · rintro ⟨job, hjob, rfl, rfl⟩
    cases hfind : jobs.reverse.find? (·.id = job.id) with
    | none =>
      have hnone := List.find?_eq_none.mp hfind job (mem_reverse.mpr hjob)
      simp at hnone
    | some other =>
      have hother := mem_reverse.mp (mem_of_find?_eq_some hfind)
      have hsame : other.id = job.id := by simpa using List.find?_some hfind
      exact ⟨other, rfl, by rw [inj_on_of_nodup_map h.ids hother hjob hsame]⟩

/-- Every identity of known Jobs has its node. -/
theorem mapM_nodesByJobId {ids : List JobId} (hids : ids.Nodup)
    (hknown : ∀ id ∈ ids, ∃ job ∈ jobs, job.id = id) :
    ∃ nodes, ids.mapM (nodesByJobId jobs) = some nodes ∧ nodes.Nodup ∧
      ∀ nodeId, nodeId ∈ nodes ↔ ∃ job ∈ jobs, job.id ∈ ids ∧ job.pipelineNodeId = nodeId := by
  induction ids with
  | nil => exact ⟨[], rfl, .nil, by simp⟩
  | cons id ids ih =>
    obtain ⟨hfresh, hdist⟩ := nodup_cons.mp hids
    obtain ⟨hfirst, hrest⟩ := forall_mem_cons.mp hknown
    obtain ⟨job, hjob, rfl⟩ := hfirst
    obtain ⟨nodes, hnodes, hnodup, hmem⟩ := ih hdist hrest
    have hnode : nodesByJobId jobs job.id = some job.pipelineNodeId :=
      (nodesByJobId_eq_some h).mpr ⟨job, hjob, rfl, rfl⟩
    refine ⟨job.pipelineNodeId :: nodes, ?_, nodup_cons.mpr ⟨?_, hnodup⟩, ?_⟩
    · rw [mapM_cons, hnode, hnodes]
      rfl
    · intro hagain
      obtain ⟨other, hother, hid, hsame⟩ := (hmem _).mp hagain
      rw [inj_on_of_nodup_map h.nodes hother hjob hsame] at hid
      exact hfresh hid
    · intro nodeId
      rw [mem_cons, hmem]
      constructor
      · rintro (rfl | ⟨other, hother, hid, hnodeId⟩)
        · exact ⟨job, hjob, mem_cons_self, rfl⟩
        · exact ⟨other, hother, mem_cons_of_mem _ hid, hnodeId⟩
      · rintro ⟨other, hother, hid, rfl⟩
        obtain hid | hid := mem_cons.mp hid
        · rw [inj_on_of_nodup_map h.ids hother hjob hid]
          exact .inl rfl
        · exact .inr ⟨other, hother, hid, rfl⟩

/-- The dependency nodes of a Job, each once and in order. -/
theorem dependencyNodes_eq (hjob : job ∈ jobs) :
    ∃ nodes, dependencyNodes job (nodesByJobId jobs) = some nodes ∧ nodes.Pairwise (· ≤ ·) ∧
      nodes.Nodup ∧ ∀ nodeId, nodeId ∈ nodes ↔
        ∃ dependency ∈ jobs, dependency.id ∈ job.dependencies ∧ dependency.pipelineNodeId = nodeId := by
  obtain ⟨nodes, hnodes, hnodup, hmem⟩ :=
    mapM_nodesByJobId h (h.dependencies job hjob) (h.known job hjob)
  have hperm := perm_insertionSort (· ≤ ·) nodes
  refine ⟨nodes.insertionSort (· ≤ ·), ?_, pairwise_insertionSort (· ≤ ·) nodes,
    hperm.nodup_iff.mpr hnodup, fun nodeId => hperm.mem_iff.trans (hmem nodeId)⟩
  rw [dependencyNodes, hnodes]
  rfl

end

end

/-! ## The comparison -/

section

variable {source candidate : List MaterializedJob}

/-- Jobs of two lists wait for the same nodes. -/
def SameDependencies (source candidate : List MaterializedJob) (job other : MaterializedJob) : Prop :=
  ∀ nodeId, (∃ dependency ∈ source, dependency.id ∈ job.dependencies ∧
      dependency.pipelineNodeId = nodeId) ↔
    ∃ dependency ∈ candidate, dependency.id ∈ other.dependencies ∧ dependency.pipelineNodeId = nodeId

theorem dependencyNodes_eq_iff (hsrc : DistinctJobs source) (hcand : DistinctJobs candidate)
    {other : MaterializedJob} (hjob : job ∈ source) (hother : other ∈ candidate) :
    dependencyNodes job (nodesByJobId source) = dependencyNodes other (nodesByJobId candidate) ↔
      SameDependencies source candidate job other := by
  obtain ⟨nodes, hnodes, hsort, hnodup, hmem⟩ := dependencyNodes_eq hsrc hjob
  obtain ⟨nodes', hnodes', hsort', hnodup', hmem'⟩ := dependencyNodes_eq hcand hother
  rw [hnodes, hnodes', Option.some.injEq]
  constructor
  · rintro rfl nodeId
    rw [← hmem, hmem']
  · intro hsame
    have hperm : nodes.Perm nodes' := (perm_ext_iff_of_nodup hnodup hnodup').mpr fun nodeId => by
      rw [hmem, hmem', hsame nodeId]
    exact hperm.eq_of_pairwise (fun _ _ _ _ => le_antisymm) hsort hsort'

/-- Every Job of the candidate has its counterpart, and there are as many of them. -/
theorem retryGraphIsEquivalent_eq_true (hsrc : DistinctJobs source)
    (hcand : DistinctJobs candidate) : retryGraphIsEquivalent source candidate = true ↔
      source.length = candidate.length ∧ ∀ other ∈ candidate, ∃ job ∈ source,
        SameTerms job other ∧ SameDependencies source candidate job other := by
  unfold retryGraphIsEquivalent
  rw [hsrc.nodes.dedup, hcand.nodes.dedup, length_map, length_map]
  simp only [Bool.decide_and, Bool.and_eq_true, decide_eq_true_eq, all_eq_true]
  refine and_congr_right fun _ => ?_
  constructor
  · intro hall other hother
    have hnode := hall _ (mem_map_of_mem hother)
    rw [(jobsByNode_eq_some hcand).mpr ⟨hother, rfl⟩] at hnode
    cases hfind : jobsByNode source other.pipelineNodeId with
    | none => simp [hfind] at hnode
    | some job =>
      obtain ⟨hjob, hid⟩ := (jobsByNode_eq_some hsrc).mp hfind
      simp only [hfind, decide_eq_true_eq, Bool.and_eq_true] at hnode
      obtain ⟨hpol, hpools, hrequirements, htmpl, hdeps⟩ := hnode
      exact ⟨job, hjob, ⟨hid.symm, hpol.symm, hpools.symm, hrequirements.symm, htmpl.symm⟩,
        (dependencyNodes_eq_iff hsrc hcand hjob hother).mp hdeps⟩
  · intro hall nodeId hnodeId
    obtain ⟨other, hother, rfl⟩ := mem_map.mp hnodeId
    obtain ⟨job, hjob, hterms, hdeps⟩ := hall other hother
    rw [(jobsByNode_eq_some hcand).mpr ⟨hother, rfl⟩,
      (jobsByNode_eq_some hsrc).mpr ⟨hjob, hterms.pipelineNodeId.symm⟩]
    simp only [decide_eq_true_eq, Bool.and_eq_true]
    exact ⟨hterms.dependencyPolicy.symm, hterms.allowedPools.symm, hterms.requirements.symm,
      hterms.jobSpecTemplate.symm,
      (dependencyNodes_eq_iff hsrc hcand hjob hother).mpr hdeps⟩

/-! ## Counterparts and isomorphisms -/

theorem eq_of_node (h : DistinctJobs jobs)
    {job other : { job // job ∈ jobs }} (hnode : job.1.pipelineNodeId = other.1.pipelineNodeId) :
    job = other :=
  Subtype.ext (inj_on_of_nodup_map h.nodes job.2 other.2 hnode)

/-- A correspondence by nodes maps dependencies onto dependencies when the nodes are the same. -/
theorem dependencyJobs_eq_iff (hcand : DistinctJobs candidate)
    {image : { job // job ∈ source } ≃ { job // job ∈ candidate }}
    (himage : ∀ job, (image job).1.pipelineNodeId = job.1.pipelineNodeId)
    {other : MaterializedJob} : dependencyJobs candidate other = image '' dependencyJobs source job ↔
      SameDependencies source candidate job other := by
  constructor
  · intro hsame nodeId
    constructor
    · rintro ⟨dependency, hdep, hid, rfl⟩
      have hmem : image ⟨dependency, hdep⟩ ∈ dependencyJobs candidate other := by
        rw [hsame]
        exact Set.mem_image_of_mem image hid
      exact ⟨_, (image ⟨dependency, hdep⟩).2, hmem, himage _⟩
    · rintro ⟨dependency, hdep, hid, rfl⟩
      have hmem : (⟨dependency, hdep⟩ : { job // job ∈ candidate }) ∈
          image '' dependencyJobs source job := by
        rw [← hsame]
        exact hid
      obtain ⟨before, hbef, himaged⟩ := hmem
      refine ⟨before.1, before.2, hbef, ?_⟩
      rw [← himage before, himaged]
  · intro hsame
    ext ⟨dependency, hdep⟩
    constructor
    · intro hid
      obtain ⟨before, hbef, hbeforeId, hnode⟩ := (hsame _).mpr ⟨dependency, hdep, hid, rfl⟩
      refine ⟨⟨before, hbef⟩, hbeforeId, eq_of_node hcand ?_⟩
      rw [himage]
      exact hnode
    · rintro ⟨before, hbef, himaged⟩
      obtain ⟨after, hafter, hafterId, hnode⟩ := (hsame _).mp ⟨before.1, before.2, hbef, rfl⟩
      have hsameJob : (⟨after, hafter⟩ : { job // job ∈ candidate }) = ⟨dependency, hdep⟩ := by
        refine eq_of_node hcand ?_
        rw [← himaged, himage]
        exact hnode
      rw [← hsameJob]
      exact hafterId

section

variable (hsrc : DistinctJobs source) (hcand : DistinctJobs candidate)

include hsrc hcand

/-- In lists of one length the Jobs of the source have counterparts as well. -/
theorem counterpart_of_source (hlen : source.length = candidate.length)
    (hall : ∀ other ∈ candidate, ∃ job ∈ source,
      SameTerms job other ∧ SameDependencies source candidate job other) :
    ∀ job ∈ source, ∃ other ∈ candidate,
      SameTerms job other ∧ SameDependencies source candidate job other := by
  intro job hjob
  have hsub : candidate.map (·.pipelineNodeId) ⊆ source.map (·.pipelineNodeId) := by
    intro nodeId hnodeId
    obtain ⟨other, hother, rfl⟩ := mem_map.mp hnodeId
    obtain ⟨before, hbef, hterms, -⟩ := hall other hother
    exact mem_map.mpr ⟨before, hbef, hterms.pipelineNodeId.symm⟩
  have hperm : (candidate.map (·.pipelineNodeId)).Perm (source.map (·.pipelineNodeId)) :=
    (subperm_of_subset hcand.nodes hsub).perm_of_length_le (by simp [hlen])
  obtain ⟨other, hother, hnode⟩ := mem_map.mp (hperm.mem_iff.mpr (mem_map_of_mem hjob))
  obtain ⟨before, hbef, hterms, hdeps⟩ := hall other hother
  have hsame : before = job :=
    inj_on_of_nodup_map hsrc.nodes hbef hjob (hterms.pipelineNodeId.symm.trans hnode)
  exact ⟨other, hother, hsame ▸ hterms, hsame ▸ hdeps⟩

/-- Counterparts on both sides make an isomorphism. -/
theorem isomorphic_of_counterparts
    (hforth : ∀ job ∈ source, ∃ other ∈ candidate,
      SameTerms job other ∧ SameDependencies source candidate job other)
    (hback : ∀ other ∈ candidate, ∃ job ∈ source,
      SameTerms job other ∧ SameDependencies source candidate job other) :
    Isomorphic source candidate := by
  choose forth hforthMem hforthTerms hforthDependencies using hforth
  choose back hbackMem hbackTerms hbackDependencies using hback
  let image : { job // job ∈ source } ≃ { job // job ∈ candidate } :=
    { toFun := fun job => ⟨forth job.1 job.2, hforthMem job.1 job.2⟩
      invFun := fun other => ⟨back other.1 other.2, hbackMem other.1 other.2⟩
      left_inv := fun job => eq_of_node hsrc
        ((hbackTerms _ _).pipelineNodeId.symm.trans (hforthTerms job.1 job.2).pipelineNodeId)
      right_inv := fun other => eq_of_node hcand
        ((hforthTerms _ _).pipelineNodeId.trans (hbackTerms other.1 other.2).pipelineNodeId.symm) }
  refine ⟨image, fun job => ⟨hforthTerms job.1 job.2, ?_⟩⟩
  rw [dependencyJobs_eq_iff hcand fun job => (hforthTerms job.1 job.2).pipelineNodeId]
  exact hforthDependencies job.1 job.2

theorem counterparts_of_isomorphic (h : Isomorphic source candidate) :
    source.length = candidate.length ∧ ∀ other ∈ candidate, ∃ job ∈ source,
        SameTerms job other ∧ SameDependencies source candidate job other := by
  obtain ⟨image, himage⟩ := h
  have hnode : ∀ job, (image job).1.pipelineNodeId = job.1.pipelineNodeId :=
    fun job => (himage job).1.pipelineNodeId
  constructor
  · have hperm : (source.map (·.pipelineNodeId)).Perm (candidate.map (·.pipelineNodeId)) := by
      refine (perm_ext_iff_of_nodup hsrc.nodes hcand.nodes).mpr fun nodeId => ?_
      simp only [mem_map]
      constructor
      · rintro ⟨job, hjob, rfl⟩
        exact ⟨(image ⟨job, hjob⟩).1, (image ⟨job, hjob⟩).2, hnode ⟨job, hjob⟩⟩
      · rintro ⟨other, hother, rfl⟩
        refine ⟨(image.symm ⟨other, hother⟩).1, (image.symm ⟨other, hother⟩).2, ?_⟩
        rw [← hnode, Equiv.apply_symm_apply]
    simpa using hperm.length_eq
  · intro other hother
    obtain ⟨hterms, hdeps⟩ := himage (image.symm ⟨other, hother⟩)
    rw [dependencyJobs_eq_iff hcand hnode, Equiv.apply_symm_apply] at hdeps
    rw [Equiv.apply_symm_apply] at hterms
    exact ⟨_, (image.symm ⟨other, hother⟩).2, hterms, hdeps⟩

/-- The comparison decides isomorphism. -/
theorem retryGraphIsEquivalent_iff_isomorphic :
    retryGraphIsEquivalent source candidate = true ↔ Isomorphic source candidate := by
  rw [retryGraphIsEquivalent_eq_true hsrc hcand]
  constructor
  · rintro ⟨hlen, hall⟩
    exact isomorphic_of_counterparts hsrc hcand
      (counterpart_of_source hsrc hcand hlen hall) hall
  · exact counterparts_of_isomorphic hsrc hcand

end

end

/-- On accepted lists the comparison of a retry is isomorphism of labelled graphs, an equivalence. -/
theorem retryGraphIsEquivalent_iff (rules : CoreRules) :
    (∀ source candidate, AcceptedJobs rules source → AcceptedJobs rules candidate →
      (retryGraphIsEquivalent source candidate = true ↔ Isomorphic source candidate)) ∧
      Equivalence fun source candidate : { jobs // AcceptedJobs rules jobs } =>
        retryGraphIsEquivalent source.1 candidate.1 = true := by
  have hiff : ∀ source candidate, AcceptedJobs rules source → AcceptedJobs rules candidate →
      (retryGraphIsEquivalent source candidate = true ↔ Isomorphic source candidate) :=
    fun source candidate hsrc hcand => retryGraphIsEquivalent_iff_isomorphic
      (distinct_of_accepted hsrc) (distinct_of_accepted hcand)
  refine ⟨hiff, ?_, ?_, ?_⟩
  · intro jobs
    exact (hiff _ _ jobs.2 jobs.2).mpr (.refl jobs.1)
  · intro source candidate h
    exact (hiff _ _ candidate.2 source.2).mpr ((hiff _ _ source.2 candidate.2).mp h).symm
  · intro one two three h h'
    exact (hiff _ _ one.2 three.2).mpr
      (((hiff _ _ one.2 two.2).mp h).trans ((hiff _ _ two.2 three.2).mp h'))

/-- Two Jobs, the second one waiting for the first, with the given identities. -/
def sampleJobs (first second : Nat) : List MaterializedJob :=
  [{ StoreState.Sample.onlyJob with id := ⟨first⟩ },
    { StoreState.Sample.onlyJob with
      id := ⟨second⟩
      pipelineNodeId := "test"
      dependencies := [⟨first⟩]
      jobSpecTemplate := ⟨⟨1⟩, "test", .legacy, "{}"⟩ }]

theorem retryGraphIsEquivalent_iff_sample : Isomorphic (sampleJobs 1 2) (sampleJobs 3 4) :=
  ((retryGraphIsEquivalent_iff StoreState.Sample.acceptAll).1 _ _ ⟨.retryBuild, ⟨1⟩, by decide +kernel⟩
    ⟨.retryBuild, ⟨1⟩, by decide +kernel⟩).mp (by decide +kernel)

end OctaCity.Store
