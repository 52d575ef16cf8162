/-
  OctaCity.Pipeline.DagOrder

  The loop of `topological_identities` places the least ready node.  At every turn
  the count of a node is the number of its edges from nodes not placed yet, and
  the ready set holds the unplaced nodes whose count is zero.
-/
import OctaCity.Lib.Topological
import OctaCity.Pipeline.Dag

namespace OctaCity.Pipeline

open Lib List NodeCounts

/-! ## Counters -/

variable {identity : PipelineNodeId} {ordered : List PipelineNodeId}

namespace NodeCounts

variable {counts : NodeCounts}

theorem degree_put (counts : NodeCounts) (identity other : PipelineNodeId) (count : Nat) :
    degree (counts.put ⟨identity, count⟩) other =
      if other = identity then some count else counts.degree other := by
  unfold degree
  split
  · rename_i h
    subst h
    have hfind := @Table.find?_put_self _ _ _ NodeCount.identity counts ⟨other, count⟩
    rw [hfind]
    rfl
  · rename_i h
    rw [Table.find?_put_of_ne (a := (⟨identity, count⟩ : NodeCount)) h]

theorem mem_rows_iff {count : Nat} :
    ⟨identity, count⟩ ∈ counts.rows ↔ counts.degree identity = some count := by
  unfold degree
  rw [Table.mem_iff_find?, Option.map_eq_some_iff]
  constructor
  · exact fun h => ⟨_, h, rfl⟩
  · rintro ⟨found, hfound, rfl⟩
    have hkey : found.identity = identity := Table.key_of_find? hfound
    subst hkey
    exact hfound

theorem foldlM_increment (edges : List PipelineEdge) (counts : NodeCounts)
    (hknown : ∀ edge ∈ edges, (counts.degree edge.dependent).isSome) : ∃ counts' : NodeCounts,
      edges.foldlM (fun incoming edge => incoming.increment edge.dependent) counts = .ok counts' ∧
      ∀ identity, counts'.degree identity =
        (counts.degree identity).map (· + edges.countP (·.dependent = identity)) := by
  induction edges generalizing counts with
  | nil => exact ⟨counts, rfl, fun identity => by simp⟩
  | cons edge edges ih =>
    obtain ⟨count, hcount⟩ := Option.isSome_iff_exists.mp (hknown edge mem_cons_self)
    have hincrement : counts.increment edge.dependent =
        .ok (counts.put ⟨edge.dependent, count + 1⟩) := by
      unfold increment
      rw [hcount]
    obtain ⟨counts', hfold, hdegree⟩ := ih (counts.put ⟨edge.dependent, count + 1⟩) (by
      intro other hother
      rw [degree_put]
      split
      · rfl
      · exact hknown other (mem_cons_of_mem _ hother))
    refine ⟨counts', ?_, fun identity => ?_⟩
    · rw [foldlM_cons, hincrement]
      exact hfold
    · rw [hdegree, degree_put, countP_cons]
      by_cases h : identity = edge.dependent
      · subst h
        simp only [if_true, hcount, Option.map_some, decide_true]
        congr 1
        omega
      · simp [h, Ne.symm h]

end NodeCounts

/-- One node depends directly on the other. -/
def Precedes (edges : List PipelineEdge) (predecessor dependent : PipelineNodeId) : Prop :=
  ⟨predecessor, dependent⟩ ∈ edges

/-- The edges of a node from predecessors that are not placed. -/
def waiting (edges : List PipelineEdge) (ordered : List PipelineNodeId)
    (identity : PipelineNodeId) : Nat :=
  edges.countP fun edge => edge.dependent = identity ∧ edge.predecessor ∉ ordered

theorem waiting_nil (edges : List PipelineEdge) (identity : PipelineNodeId) :
    waiting edges [] identity = edges.countP (·.dependent = identity) := by
  simp [waiting]

theorem waiting_eq_zero {edges : List PipelineEdge} :
    waiting edges ordered identity = 0 ↔ ∀ other, Precedes edges other identity → other ∈ ordered := by
  unfold waiting
  rw [countP_eq_zero]
  constructor
  · intro h other hother
    by_contra hnot
    exact h _ hother (decide_eq_true ⟨rfl, hnot⟩)
  · rintro h edge hedge hwaits
    obtain ⟨rfl, hnot⟩ := of_decide_eq_true hwaits
    exact hnot (h edge.predecessor hedge)

theorem waiting_snoc (edges : List PipelineEdge)
    {placed : PipelineNodeId} (hfresh : placed ∉ ordered) (identity : PipelineNodeId) :
    waiting edges ordered identity =
      waiting edges (ordered ++ [placed]) identity + (outgoing edges placed).count identity := by
  induction edges with
  | nil => rfl
  | cons edge edges ih =>
    unfold waiting outgoing at ih ⊢
    rw [countP_cons, countP_cons, ih, filter_cons]
    by_cases hdepd : edge.dependent = identity
    · subst hdepd
      by_cases hpred : edge.predecessor = placed
      · subst hpred
        simp [hfresh]
        omega
      · simp [hpred]
        omega
    · by_cases hpred : edge.predecessor = placed
      · simp [hdepd, hpred]
      · simp [hdepd, hpred]

/-! ## One turn -/

/-- Settling the dependents of a placed node. -/
theorem foldlM_settle (dependents : List PipelineNodeId) (counts : NodeCounts)
    (ready : OrdSet PipelineNodeId)
    (hcnt : ∀ identity ∈ dependents, ∃ count, counts.degree identity = some count ∧
      dependents.count identity ≤ count) :
    ∃ counts' ready', dependents.foldlM settle (counts, ready) = .ok (counts', ready') ∧
      (∀ identity, counts'.degree identity =
        (counts.degree identity).map (· - dependents.count identity)) ∧
      ∀ identity, identity ∈ ready'.rows ↔
        identity ∈ ready.rows ∨ identity ∈ dependents ∧ counts'.degree identity = some 0 := by
  induction dependents generalizing counts ready with
  | nil => exact ⟨counts, ready, rfl, fun identity => by simp, fun identity => by simp⟩
  | cons dependent dependents ih =>
    obtain ⟨count, hcount, hle⟩ := hcnt dependent mem_cons_self
    rw [count_cons_self] at hle
    obtain ⟨left, rfl⟩ : ∃ left, count = left + 1 := ⟨count - 1, by omega⟩
    have hset : settle (counts, ready) dependent =
        .ok (counts.put ⟨dependent, left⟩,
          if left = 0 then ready.insert dependent else ready) := by
      unfold settle NodeCounts.decrement
      rw [hcount]
      rfl
    obtain ⟨counts', ready', hfold, hdegree, hready⟩ := ih (counts.put ⟨dependent, left⟩)
      (if left = 0 then ready.insert dependent else ready) (by
        intro identity hident
        rw [degree_put]
        by_cases h : identity = dependent
        · subst h
          exact ⟨left, if_pos rfl, by omega⟩
        · obtain ⟨count, hcount, hle⟩ := hcnt identity (mem_cons_of_mem _ hident)
          rw [count_cons_of_ne (Ne.symm h)] at hle
          exact ⟨count, by rw [if_neg h]; exact hcount, hle⟩)
    have hdegree' : ∀ identity, counts'.degree identity =
        (counts.degree identity).map (· - (dependent :: dependents).count identity) := by
      intro identity
      rw [hdegree, degree_put]
      by_cases h : identity = dependent
      · subst h
        rw [if_pos rfl, hcount, count_cons_self, Option.map_some, Option.map_some]
        congr 1
        omega
      · rw [if_neg h, count_cons_of_ne (Ne.symm h)]
    refine ⟨counts', ready', ?_, hdegree', fun identity => ?_⟩
    · rw [foldlM_cons, hset]
      exact hfold
    · rw [hready]
      by_cases h : identity = dependent
      · subst h
        -- The count reaches zero either now or at a later occurrence of the same node.
        have hlast : left = 0 → counts'.degree identity = some 0 := by
          rintro rfl
          rw [hdegree, degree_put, if_pos rfl, Option.map_some, Nat.zero_sub]
        have hlater : counts'.degree identity = some 0 → left = 0 ∨ identity ∈ dependents := by
          intro hzero
          by_contra hnot
          push Not at hnot
          rw [hdegree, degree_put, if_pos rfl, Option.map_some,
            count_eq_zero_of_not_mem hnot.2, Option.some.injEq] at hzero
          exact hnot.1 (by omega)
        split
        · rename_i hleft
          simp [OrdSet.mem_insert, hlast hleft]
        · rename_i hleft
          have := fun h => (hlater h).resolve_left hleft
          simp only [mem_cons, true_or, true_and]
          tauto
      · have hold : identity ∈ (if left = 0 then ready.insert dependent else ready).rows ↔
            identity ∈ ready.rows := by
          split
          · rw [OrdSet.mem_insert, or_iff_right h]
          · rfl
        rw [hold, mem_cons, or_iff_right h]

/-! ## The loop -/

/-- What holds at the head of the loop. -/
structure Placing.Invariant (identities : List PipelineNodeId) (edges : List PipelineEdge)
    (state : Placing) : Prop where
  degree : ∀ identity, state.incoming.degree identity =
    if identity ∈ identities then some (waiting edges state.ordered identity) else none
  ready : ∀ identity, identity ∈ state.ready.rows ↔
    Ready identities (Precedes edges) state.ordered identity
  settled : ∀ placed ∈ state.ordered, waiting edges state.ordered placed = 0
  nodup : state.ordered.Nodup
  subset : state.ordered ⊆ identities

section

variable {identities : List PipelineNodeId} {edges : List PipelineEdge}

/-- Every edge joins two nodes. -/
def Joins (identities : List PipelineNodeId) (edges : List PipelineEdge) : Prop :=
  ∀ edge ∈ edges, edge.predecessor ∈ identities ∧ edge.dependent ∈ identities

theorem mem_outgoing {other : PipelineNodeId} :
    other ∈ outgoing edges identity ↔ Precedes edges identity other := by
  simp only [outgoing, mem_map, mem_filter, decide_eq_true_eq]
  constructor
  · rintro ⟨⟨predecessor, dependent⟩, ⟨hedge, rfl⟩, rfl⟩
    exact hedge
  · exact fun h => ⟨⟨identity, other⟩, ⟨h, rfl⟩, rfl⟩

theorem ready_iff_waiting : Ready identities (Precedes edges) ordered identity ↔
      identity ∈ identities ∧ identity ∉ ordered ∧ waiting edges ordered identity = 0 := by
  rw [waiting_eq_zero]
  exact ⟨fun h => ⟨h.mem, h.fresh, h.preceded⟩, fun h => ⟨h.1, h.2.1, h.2.2⟩⟩

section

variable {state : Placing} (h : state.Invariant identities edges)
  (hjoins : Joins identities edges)

include h hjoins

theorem Placing.Invariant.turn (hready : Ready identities (Precedes edges) state.ordered identity) :
    ∃ counts ready, (outgoing edges identity).foldlM settle
        (state.incoming, state.ready.erase identity) = .ok (counts, ready) ∧
      Placing.Invariant identities edges ⟨counts, ready, state.ordered ++ [identity]⟩ := by
  have hsnoc := fun other => waiting_snoc edges hready.fresh other
  obtain ⟨counts, ready, hfold, hdegree, hmem⟩ := foldlM_settle (outgoing edges identity)
    state.incoming (state.ready.erase identity) (by
      intro other hother
      refine ⟨_, by rw [h.degree, if_pos (hjoins _ (mem_outgoing.mp hother)).2], ?_⟩
      rw [hsnoc]
      omega)
  have hdegree' : ∀ other, counts.degree other =
      if other ∈ identities then some (waiting edges (state.ordered ++ [identity]) other)
      else none := by
    intro other
    rw [hdegree, h.degree]
    split
    · rw [Option.map_some, hsnoc other]
      congr 1
      omega
    · rfl
  refine ⟨counts, ready, hfold, hdegree', fun other => ?_, fun placed hplaced => ?_, ?_, ?_⟩
  · have hpreceded : ∀ placed ∈ state.ordered, ∀ y, Precedes edges y placed → y ∈ state.ordered :=
      fun placed hplaced => waiting_eq_zero.mp (h.settled placed hplaced)
    rw [hmem, Table.mem_erase, h.ready, hdegree', hready.snoc_iff hpreceded fun other hedge =>
      (hjoins _ hedge).2, ← waiting_eq_zero, mem_outgoing]
    refine or_congr_right (and_congr_right fun hedge => ?_)
    rw [if_pos (hjoins _ hedge).2, Option.some.injEq]
  · have hwaits : waiting edges state.ordered placed = 0 := by
      rcases mem_append.mp hplaced with hplaced | hplaced
      · exact h.settled placed hplaced
      · rw [mem_singleton.mp hplaced]
        exact (ready_iff_waiting.mp hready).2.2
    have hother := hsnoc placed
    show waiting edges (state.ordered ++ [identity]) placed = 0
    omega
  · show (state.ordered ++ [identity]).Nodup
    rw [← concat_eq_append]
    exact h.nodup.concat hready.fresh
  · exact append_subset.mpr ⟨h.subset, by simpa using hready.mem⟩

/-- From any state of the loop, with a turn for every node left, the loop places nodes greedily
    until none is ready. -/
theorem placeReady_eq {turns : Nat} (hturns : identities.length < state.ordered.length + turns) :
    ∃ rest, placeReady edges turns state = .ok (state.ordered ++ rest) ∧
      Greedy identities (Precedes edges) state.ordered rest := by
  induction turns generalizing state with
  | zero =>
    have hle := (subperm_of_subset h.nodup h.subset).length_le
    omega
  | succ turns ih =>
    unfold placeReady
    cases hrows : state.ready.rows with
    | nil =>
      refine ⟨[], by rw [append_nil], .done fun identity hready => ?_⟩
      have hmem := (h.ready identity).mpr hready
      rw [hrows] at hmem
      cases hmem
    | cons identity others =>
      have hready : Ready identities (Precedes edges) state.ordered identity :=
        (h.ready identity).mp (by rw [hrows]; exact mem_cons_self)
      obtain ⟨counts, ready, hfold, hnext⟩ := h.turn hjoins hready
      obtain ⟨rest, hplace, hgreedy⟩ := ih hnext (by
        show _ < (state.ordered ++ [identity]).length + turns
        rw [length_append, length_singleton]
        omega)
      refine ⟨identity :: rest, ?_, .place hready (fun other hother =>
        OrdSet.head_le hrows ((h.ready other).mpr hother)) hgreedy⟩
      show (_ >>= fun _ => _) = _
      rw [hfold]
      show placeReady edges turns _ = _
      rw [hplace, append_assoc]
      rfl

end

end

/-! ## The order -/

variable {nodes : List PipelineNode} {edges : List PipelineEdge}

/-- Every node starts with a count. -/
theorem degree_initial (nodes : List PipelineNode) (counts : NodeCounts)
    (identity : PipelineNodeId) :
    (nodes.foldl (fun (incoming : NodeCounts) node => incoming.put ⟨node.id, 0⟩) counts).degree
        identity = if identity ∈ nodes.map (·.id) then some 0 else counts.degree identity := by
  induction nodes generalizing counts with
  | nil => rfl
  | cons node nodes ih =>
    rw [foldl_cons, ih, degree_put]
    by_cases hlater : identity ∈ nodes.map (·.id)
    · simp [hlater]
    · by_cases hnode : identity = node.id
      · subst hnode
        simp
      · simp [hlater, hnode]

/-- What the loop starts with. -/
theorem invariant_initial (hjoins : Joins (nodes.map (·.id)) edges) :
    ∃ counts : NodeCounts, incomingCounts nodes edges = .ok counts ∧
      Placing.Invariant (nodes.map (·.id)) edges
        ⟨counts, OrdSet.ofList ((counts.rows.filter fun degree => degree.count = 0).map
          (·.identity)), []⟩ := by
  obtain ⟨counts, hfold, hdegree⟩ := foldlM_increment edges
    (nodes.foldl (fun (incoming : NodeCounts) node => incoming.put ⟨node.id, 0⟩) Table.empty) (by
      intro edge hedge
      rw [degree_initial, if_pos (hjoins edge hedge).2]
      rfl)
  have hdegree' : ∀ identity, counts.degree identity =
      if identity ∈ nodes.map (·.id) then some (waiting edges [] identity) else none := by
    intro identity
    rw [hdegree, degree_initial, waiting_nil]
    split
    · rw [Option.map_some, Nat.zero_add]
    · rfl
  refine ⟨counts, hfold, hdegree', fun identity => ?_, by simp, nodup_nil, by simp⟩
  rw [OrdSet.mem_ofList, ready_iff_waiting, mem_map]
  constructor
  · rintro ⟨⟨identity, count⟩, hrow, rfl⟩
    obtain ⟨hrow, hzero⟩ := mem_filter.mp hrow
    have hcount := mem_rows_iff.mp hrow
    have hnone : count = 0 := of_decide_eq_true hzero
    rw [hdegree', hnone] at hcount
    split at hcount
    · rename_i hmem
      exact ⟨hmem, not_mem_nil, Option.some.inj hcount⟩
    · cases hcount
  · rintro ⟨hmem, -, hzero⟩
    refine ⟨⟨identity, 0⟩, mem_filter.mpr ⟨mem_rows_iff.mpr ?_, rfl⟩, rfl⟩
    rw [hdegree', if_pos hmem, hzero]

/-- The sort ends without a panic: it is a greedy order, or there is a cycle. -/
theorem topologicalIdentities_eq (hjoins : Joins (nodes.map (·.id)) edges) :
    ∃ ordered, Greedy (nodes.map (·.id)) (Precedes edges) [] ordered ∧
      topologicalIdentities nodes edges =
        if ordered.length ≠ nodes.length then .error (.error .cycle) else .ok ordered := by
  obtain ⟨counts, hcounts, hinvariant⟩ := invariant_initial hjoins
  have hturns : (nodes.map (·.id)).length < 0 + (nodes.length + 1) := by
    rw [length_map]
    omega
  obtain ⟨ordered, hplace, hgreedy⟩ := placeReady_eq hinvariant hjoins hturns
  refine ⟨ordered, hgreedy, ?_⟩
  unfold topologicalIdentities
  rw [hcounts]
  show (placeReady edges (nodes.length + 1) _ >>= fun _ => _) = _
  rw [hplace]
  rfl

/-- The sort succeeds exactly if there is no cycle. -/
theorem topologicalIdentities_isOk (hnodup : (nodes.map (·.id)).Nodup)
    (hjoins : Joins (nodes.map (·.id)) edges) :
    (∃ ordered, topologicalIdentities nodes edges = .ok ordered) ↔
      ∀ identity, ¬Relation.TransGen (Precedes edges) identity identity := by
  obtain ⟨ordered, hgreedy, htopo⟩ := topologicalIdentities_eq hjoins
  rw [← hgreedy.perm_iff hnodup fun predecessor dependent hedge => hjoins _ hedge, htopo]
  constructor
  · rintro ⟨found, hfound⟩
    obtain ⟨hlen, -⟩ := guard_eq_ok.mp hfound
    have hsubperm := subperm_of_subset (hgreedy.nodup nodup_nil) hgreedy.subset
    refine hsubperm.perm_of_length_le ?_
    rw [length_map, nil_append, not_not.mp hlen]
  · intro hperm
    refine ⟨ordered, if_neg (not_not.mpr ?_)⟩
    rw [hperm.length_eq, length_map]

theorem greedy_of_topologicalIdentities (hjoins : Joins (nodes.map (·.id)) edges)
    (h : topologicalIdentities nodes edges = .ok ordered) :
    Greedy (nodes.map (·.id)) (Precedes edges) [] ordered := by
  obtain ⟨found, hgreedy, htopo⟩ := topologicalIdentities_eq hjoins
  rw [h] at htopo
  obtain ⟨-, hsame⟩ := guard_eq_ok.mp htopo.symm
  cases hsame
  exact hgreedy

end OctaCity.Pipeline
