/-
  OctaCity.Factory.GraphCycles

  What the component search guarantees: its components are the classes of
  mutual reachability, and a node on a cycle lies in a cyclic component.  The
  second pass only ever visits sets closed under the reversed edges, so two
  nodes that reach each other are first visited by the same search; that a
  search visits nothing else is due to the order the first pass produces.
-/
import OctaCity.Factory.Graph
import OctaCity.Lib.FinishOrder

namespace OctaCity.Factory.Graph

open Lib List

variable {Id : Type} [LinearOrder Id]

/-! ## Searches -/

theorem subset_search (next : Id → List Id) (nodes pending visited : List Id) :
    visited ⊆ search next nodes pending visited := by
  induction pending, visited using search.induct next nodes with
  | case1 visited =>
    rw [search]
    exact List.Subset.refl _
  | case2 visited node rest h ih =>
    rw [search, dif_pos h]
    exact ih
  | case3 visited node rest h ih =>
    rw [search, dif_neg h]
    exact fun x hx => ih (mem_cons_of_mem _ hx)

theorem pending_subset_search (next : Id → List Id) (nodes pending visited : List Id) :
    ∀ node ∈ pending, node ∈ nodes → node ∈ search next nodes pending visited := by
  induction pending, visited using search.induct next nodes with
  | case1 visited =>
    intro node hnode
    cases hnode
  | case2 visited first rest h ih =>
    intro node hnode hin
    rw [search, dif_pos h]
    rcases mem_cons.mp hnode with rfl | hnode
    · exact subset_search next nodes rest visited (h.resolve_right (not_not.mpr hin))
    · exact ih node hnode hin
  | case3 visited first rest h ih =>
    intro node hnode hin
    rw [search, dif_neg h]
    rcases mem_cons.mp hnode with rfl | hnode
    · exact subset_search next nodes _ _ (mem_cons_self ..)
    · exact ih node (mem_append_right _ hnode) hin

variable {next : Id → List Id} {nodes : List Id} {edges : List (StructuralEdge Id)} {a b : Id}

/-- A search ends with a closed set when everything left open is pending. -/
theorem search_closed (hnext : ∀ v, ∀ w ∈ next v, w ∈ nodes) (pending visited : List Id)
    (hopen : ∀ v ∈ visited, ∀ w ∈ next v, w ∈ visited ∨ w ∈ pending) :
    ∀ v ∈ search next nodes pending visited, ∀ w ∈ next v,
      w ∈ search next nodes pending visited := by
  induction pending, visited using search.induct next nodes with
  | case1 visited =>
    rw [search]
    intro v hv w hw
    rcases hopen v hv w hw with h | h
    · exact h
    · cases h
  | case2 visited node rest h ih =>
    rw [search, dif_pos h]
    apply ih
    intro v hv w hw
    rcases hopen v hv w hw with hw' | hw'
    · exact Or.inl hw'
    · rcases mem_cons.mp hw' with rfl | hw'
      · exact Or.inl (h.resolve_right (not_not.mpr (hnext v w hw)))
      · exact Or.inr hw'
  | case3 visited node rest h ih =>
    rw [search, dif_neg h]
    apply ih
    intro v hv w hw
    rcases mem_cons.mp hv with rfl | hv
    · by_cases hw' : w ∈ v :: visited
      · exact Or.inl hw'
      · exact Or.inr (mem_append_left _ (mem_filter.mpr ⟨hw, by simpa using hw'⟩))
    · rcases hopen v hv w hw with hw' | hw'
      · exact Or.inl (mem_cons_of_mem _ hw')
      · rcases mem_cons.mp hw' with rfl | hw'
        · exact Or.inl (mem_cons_self ..)
        · exact Or.inr (mem_append_right _ hw')

/-! ## The first pass -/

/-- A pass ends with an empty stack, and with all that was on it visited. -/
theorem visitForFinishOrder_spec (hnext : ∀ v, ∀ w ∈ next v, w ∈ nodes) (pending : List (Id × Bool))
    (visited finished : List Id) (h : Finishing (fun v w => w ∈ next v) pending visited finished)
    (hpending : ∀ entry ∈ pending, entry.1 ∈ nodes) (hvisd : visited ⊆ nodes) :
    let result := visitForFinishOrder next nodes pending visited finished
    Finishing (fun v w => w ∈ next v) [] result.1 result.2 ∧ result.1 ⊆ nodes ∧
      visited ⊆ result.1 ∧ ∀ node, (node, false) ∈ pending → node ∈ result.1 := by
  induction pending, visited, finished using
    visitForFinishOrder.induct next nodes with
  | case1 visited finished =>
    rw [visitForFinishOrder]
    exact ⟨h, hvisd, List.Subset.refl _, nofun⟩
  | case2 visited finished node rest ih =>
    rw [visitForFinishOrder]
    obtain ⟨hend, hnodes, hsub, hpend⟩ := ih h.finish (forall_mem_cons.mp hpending).2 hvisd
    exact ⟨hend, hnodes, hsub, fun other hother =>
      hpend other ((mem_cons.mp hother).resolve_left nofun)⟩
  | case3 visited finished node rest hold ih =>
    rw [visitForFinishOrder, dif_pos hold]
    obtain ⟨hnode, hrest⟩ := forall_mem_cons.mp hpending
    have hold : node ∈ visited := hold.resolve_right (not_not.mpr hnode)
    obtain ⟨hend, hnodes, hsub, hpend⟩ := ih (h.skip hold) hrest hvisd
    refine ⟨hend, hnodes, hsub, fun other hother => ?_⟩
    rcases mem_cons.mp hother with heq | hother
    · cases heq
      exact hsub hold
    · exact hpend other hother
  | case4 visited finished node rest hnew ih =>
    rw [visitForFinishOrder, dif_neg hnew]
    obtain ⟨hfresh, hnode⟩ := not_or.mp hnew
    obtain ⟨hend, hnodes, hsub, hpend⟩ := ih
      (h.visit hfresh (fun b hb => (mem_filter.mp hb).1) fun b hb => by
        by_cases hmem : b ∈ node :: visited
        · exact .inr hmem
        · exact .inl (mem_filter.mpr ⟨hb, by simpa using hmem⟩))
      (by
        rintro entry hentry
        rcases mem_append.mp hentry with hentry | hentry
        · obtain ⟨w, hw, rfl⟩ := mem_map.mp hentry
          exact hnext node w (mem_filter.mp hw).1
        · rcases mem_cons.mp hentry with rfl | hentry
          · exact not_not.mp hnode
          · exact hpending entry (mem_cons_of_mem _ hentry))
      (cons_subset.mpr ⟨not_not.mp hnode, hvisd⟩)
    refine ⟨hend, hnodes, fun v hv => hsub (mem_cons_of_mem _ hv), fun other hother => ?_⟩
    rcases mem_cons.mp hother with heq | hother
    · cases heq
      exact hsub (mem_cons_self ..)
    · exact hpend other (mem_append_right _ (mem_cons_of_mem _ hother))

/-- The first pass finishes every node, and of each class one after all it reaches. -/
theorem finishOrder_spec (hnext : ∀ v, ∀ w ∈ next v, w ∈ nodes) :
    Late (fun v w => w ∈ next v) (finishOrder next nodes) ∧
      ∀ node, node ∈ finishOrder next nodes ↔ node ∈ nodes := by
  have hall : ∀ todo : List Id, todo ⊆ nodes → ∀ state : List Id × List Id,
      Finishing (fun v w => w ∈ next v) [] state.1 state.2 → state.1 ⊆ nodes →
      let result := todo.foldl
        (fun state node => visitForFinishOrder next nodes [(node, false)] state.1 state.2) state
      Finishing (fun v w => w ∈ next v) [] result.1 result.2 ∧ result.1 ⊆ nodes ∧
        state.1 ⊆ result.1 ∧ todo ⊆ result.1 := by
    intro todo
    induction todo with
    | nil => exact fun _ state h hnodes => ⟨h, hnodes, List.Subset.refl _, nil_subset _⟩
    | cons first rest ih =>
      intro hsub state h hnodes
      obtain ⟨hfirst, hrest⟩ := cons_subset.mp hsub
      obtain ⟨hend, hnodes, hkeep, hpend⟩ := visitForFinishOrder_spec hnext _ _ _ (h.root first)
        (by simpa using hfirst) hnodes
      obtain ⟨hend, hnodes, hkeep', hdone⟩ := ih hrest _ hend hnodes
      exact ⟨hend, hnodes, fun v hv => hkeep' (hkeep hv),
        cons_subset.mpr ⟨hkeep' (hpend first mem_cons_self), hdone⟩⟩
  obtain ⟨hend, hnodes, -, hdone⟩ := hall nodes (List.Subset.refl _) ([], [])
    (Finishing.start _) (nil_subset _)
  have hmarked : ∀ node, node ∈ finishOrder next nodes ↔ node ∈ _ := fun node =>
    ⟨fun h => (hend.marked node).mpr (.inl h), fun h => ((hend.marked node).mp h).resolve_right nofun⟩
  exact ⟨hend.late, fun node => (hmarked node).trans ⟨fun h => hnodes h, fun h => hdone h⟩⟩

/-! ## The second pass -/

abbrev Reaches (next : Id → List Id) : Id → Id → Prop :=
  Relation.ReflTransGen fun v w => w ∈ next v

omit [LinearOrder Id] in
theorem mem_of_reaches {visited : List Id}
    (hclos : ∀ v ∈ visited, ∀ w ∈ next v, w ∈ visited) {u v : Id} (h : Reaches next u v)
    (hu : u ∈ visited) : v ∈ visited := by
  induction h with
  | refl => exact hu
  | tail _ hvw ih => exact hclos _ ih _ hvw

/-- The visited nodes are closed, covered by the components, and every
    component contains all nodes that reach and are reached by one of its own. -/
structure ComponentsSound (next : Id → List Id) (visited : List Id)
    (components : List (List Id)) : Prop where
  closed : ∀ v ∈ visited, ∀ w ∈ next v, w ∈ visited
  covered : ∀ v ∈ visited, ∃ component ∈ components, v ∈ component
  saturated : ∀ component ∈ components, ∀ u ∈ component, ∀ v, Reaches next u v → Reaches next v u →
    v ∈ component

theorem mem_newComponent {visited : List Id} {node v : Id} :
    v ∈ (OrdSet.ofList ((search next nodes [node] visited).filter
      fun other => other ∉ visited)).rows ↔ v ∈ search next nodes [node] visited ∧ v ∉ visited := by
  rw [OrdSet.mem_ofList, mem_filter, decide_eq_true_eq]

theorem ComponentsSound.extend {visited : List Id}
    {components : List (List Id)} (hnext : ∀ v, ∀ w ∈ next v, w ∈ nodes)
    (h : ComponentsSound next visited components) (node : Id) :
    ComponentsSound next (search next nodes [node] visited)
      (components ++ [(OrdSet.ofList ((search next nodes [node] visited).filter
        fun other => other ∉ visited)).rows]) := by
  have hclos := search_closed hnext [node] visited fun v hv w hw => Or.inl (h.closed v hv w hw)
  refine ⟨hclos, ?_, ?_⟩
  · intro v hv
    by_cases hold : v ∈ visited
    · obtain ⟨component, hcpt, hin⟩ := h.covered v hold
      exact ⟨component, mem_append_left _ hcpt, hin⟩
    · exact ⟨_, mem_append_right _ (mem_singleton_self _), mem_newComponent.mpr ⟨hv, hold⟩⟩
  · intro component hcpt u hu v huv hvu
    rcases mem_append.mp hcpt with hcpt | hcpt
    · exact h.saturated component hcpt u hu v huv hvu
    · rw [mem_singleton.mp hcpt] at hu ⊢
      obtain ⟨hnew, hold⟩ := mem_newComponent.mp hu
      -- `v` is visited with `u`, and not before: else `u` were visited before.
      exact mem_newComponent.mpr ⟨mem_of_reaches hclos huv hnew,
        fun hv => hold (mem_of_reaches h.closed hvu hv)⟩

/-- The components are the classes of mutual reachability among the visited nodes. -/
structure ComponentsExact (next : Id → List Id) (nodes visited : List Id)
    (components : List (List Id)) : Prop extends ComponentsSound next visited components where
  inside : visited ⊆ nodes
  visited : ∀ component ∈ components, component ⊆ visited
  reaches : ∀ component ∈ components, ∀ u ∈ component, ∀ v ∈ component, Reaches next u v
  disjoint : components.Pairwise List.Disjoint
  ordered : ∀ component ∈ components, component ≠ [] ∧ component.Pairwise (· < ·)

/-- A search from a new node that whatever it visits leads back to. -/
theorem ComponentsExact.extend {visited : List Id} {components : List (List Id)}
    (hnext : ∀ v, ∀ w ∈ next v, w ∈ nodes) (h : ComponentsExact next nodes visited components)
    {node : Id} (hnode : node ∈ nodes) (hfresh : node ∉ visited)
    (hback : ∀ v, Reaches next node v → v ∉ visited → Reaches next v node) :
    ComponentsExact next nodes (search next nodes [node] visited)
      (components ++ [(OrdSet.ofList ((search next nodes [node] visited).filter
        fun other => other ∉ visited)).rows]) := by
  have hreach : ∀ v ∈ search next nodes [node] visited, Reaches next node v ∨ v ∈ visited := by
    refine search_induction ?_ ?_ fun v hv => .inr hv
    · rintro v (hv | hv) w hw
      · exact .inl (hv.tail hw)
      · exact .inr (h.closed v hv w hw)
    · rintro v hv
      rw [mem_singleton.mp hv]
      exact .inl .refl
  have hsub := subset_search next nodes [node] visited
  refine ⟨h.toComponentsSound.extend hnext node, ?_, ?_, ?_, ?_, ?_⟩
  · intro v hv
    rcases hreach v hv with hv | hv
    · exact mem_of_reaches (fun v _ => hnext v) hv hnode
    · exact h.inside hv
  · exact forall_mem_concat.mpr ⟨fun component hcpt v hv =>
      hsub (h.visited component hcpt hv), fun v hv => (mem_newComponent.mp hv).1⟩
  · refine forall_mem_concat.mpr ⟨h.reaches, fun u hu v hv => ?_⟩
    obtain ⟨hu, hnew⟩ := mem_newComponent.mp hu
    obtain ⟨hv, hnew'⟩ := mem_newComponent.mp hv
    have hnodeU := (hreach u hu).resolve_right hnew
    exact (hback u hnodeU hnew).trans ((hreach v hv).resolve_right hnew')
  · rw [pairwise_append]
    refine ⟨h.disjoint, pairwise_singleton _ _, fun component hcpt other hother => ?_⟩
    rw [mem_singleton.mp hother]
    exact fun v hv hv' => (mem_newComponent.mp hv').2 (h.visited component hcpt hv)
  · refine forall_mem_concat.mpr ⟨h.ordered, ?_, (OrdSet.ofList _).ordered⟩
    exact ne_nil_of_mem (mem_newComponent.mpr
      ⟨pending_subset_search next nodes _ _ node (mem_cons_self ..) hnode, hfresh⟩)

/-- In an order in which each class has a node before all it reaches backwards, every search finds
    one class. -/
theorem collectComponents_spec (hnext : ∀ v, ∀ w ∈ next v, w ∈ nodes) {order : List Id}
    (hlate : Late (fun v w => v ∈ next w) order) (horder : ∀ node, node ∈ order ↔ node ∈ nodes) :
    ComponentsExact next nodes (collectComponents next nodes order).1
        (collectComponents next nodes order).2 ∧
      ∀ v ∈ nodes, v ∈ (collectComponents next nodes order).1 := by
  have hswap : ∀ {v w : Id}, Relation.ReflTransGen (fun v w => v ∈ next w) v w ↔ Reaches next w v :=
    Relation.reflTransGen_swap
  have hall : ∀ (rest front : List Id) (state : List Id × List (List Id)),
      order = front ++ rest → ComponentsExact next nodes state.1 state.2 → front ⊆ state.1 →
      let result := rest.foldl
        (fun state node =>
          if node ∈ state.1 then state
          else
            let visited := search next nodes [node] state.1
            let component := (OrdSet.ofList (visited.filter fun other => other ∉ state.1)).rows
            (visited, state.2 ++ [component])) state
      ComponentsExact next nodes result.1 result.2 ∧ order ⊆ result.1 := by
    intro rest
    induction rest with
    | nil => exact fun front state heq h hfront => ⟨h, by simpa [heq] using hfront⟩
    | cons first rest ih =>
      intro front state heq h hfront
      have heq' : order = (front ++ [first]) ++ rest := by rw [heq, append_assoc]; rfl
      rw [foldl_cons]
      by_cases hvisd : first ∈ state.1
      · rw [if_pos hvisd]
        exact ih _ state heq' h (append_subset.mpr ⟨hfront, by simpa using hvisd⟩)
      · rw [if_neg hvisd]
        have hfirst : first ∈ nodes := (horder first).mp (by rw [heq]; simp)
        refine ih _ (_, _) heq' (h.extend hnext hfirst hvisd fun v hv hnew => ?_)
          (append_subset.mpr ⟨fun u hu => subset_search next nodes _ _ (hfront hu), ?_⟩)
        · rcases hlate front first rest heq v (hswap.mpr hv) with hback | ⟨other, hmutual, hlater⟩
          · exact hswap.mp hback
          · -- A node of the class of `v` comes earlier, so `v` was visited from it.
            have hother : other ∈ nodes := mem_of_reaches (fun v _ => hnext v)
              (hv.trans (hswap.mp hmutual.2)) hfirst
            have hmem := (horder other).mpr hother
            rw [heq] at hmem
            have hearl := hfront ((mem_append.mp hmem).resolve_right hlater)
            exact absurd (mem_of_reaches h.closed (hswap.mp hmutual.1) hearl) hnew
        · refine cons_subset.mpr ⟨?_, nil_subset _⟩
          exact pending_subset_search next nodes _ _ first (mem_cons_self ..) hfirst
  have hnone : ComponentsExact next nodes ([] : List Id) [] :=
    ⟨⟨nofun, nofun, nofun⟩, nil_subset _, nofun, nofun, .nil, nofun⟩
  obtain ⟨hexact, hmem⟩ := hall order [] ([], []) rfl hnone (nil_subset _)
  exact ⟨hexact, fun v hv => hmem ((horder v).mpr hv)⟩

/-! ## Cycles -/

theorem mem_successors : b ∈ successors edges a ↔ ⟨a, b⟩ ∈ edges := by
  simp only [successors, mem_map, mem_filter, decide_eq_true_eq]
  constructor
  · rintro ⟨⟨predecessor, successor⟩, ⟨hedge, rfl⟩, rfl⟩
    exact hedge
  · exact fun h => ⟨⟨a, b⟩, ⟨h, rfl⟩, rfl⟩

theorem mem_predecessors : a ∈ predecessors edges b ↔ ⟨a, b⟩ ∈ edges := by
  simp only [predecessors, mem_map, mem_filter, decide_eq_true_eq]
  constructor
  · rintro ⟨⟨predecessor, successor⟩, ⟨hedge, rfl⟩, rfl⟩
    exact hedge
  · exact fun h => ⟨⟨a, b⟩, ⟨h, rfl⟩, rfl⟩

/-- The control edges as a relation. -/
def Edge (edges : List (StructuralEdge Id)) (a b : Id) : Prop := ⟨a, b⟩ ∈ edges

theorem reaches_predecessors :
    Reaches (predecessors edges) b a ↔ Relation.ReflTransGen (Edge edges) a b := by
  rw [← Relation.reflTransGen_swap]
  simp only [Reaches, mem_predecessors]
  rfl

/-- Every edge joins two nodes. -/
def Joins (nodes : List Id) (edges : List (StructuralEdge Id)) : Prop :=
  ∀ edge ∈ edges, edge.predecessor ∈ nodes ∧ edge.successor ∈ nodes

section

variable {component : List Id} (hjoins : Joins nodes edges)

include hjoins

/-- The components of a graph whose edges join its nodes. -/
theorem stronglyConnectedComponents_spec :
    ∃ visited, ComponentsExact (predecessors edges) nodes visited
        (stronglyConnectedComponents nodes edges) ∧ nodes ⊆ visited := by
  have hsame : (fun v w => w ∈ successors edges v) = fun v w => v ∈ predecessors edges w := by
    funext v w
    exact propext (mem_successors.trans mem_predecessors.symm)
  have hnext : ∀ v, ∀ w ∈ successors edges v, w ∈ nodes := fun v w hw =>
    (hjoins _ (mem_successors.mp hw)).2
  obtain ⟨hlate, horder⟩ := finishOrder_spec hnext
  rw [hsame] at hlate
  exact ⟨_, collectComponents_spec (fun v w hw => (hjoins _ (mem_predecessors.mp hw)).1) hlate
    horder⟩

variable (hcpt : component ∈ stronglyConnectedComponents nodes edges)

include hcpt

theorem mem_component_iff (ha : a ∈ component) : b ∈ component ↔ Mutual (Edge edges) a b := by
  obtain ⟨visited, hexact, -⟩ := stronglyConnectedComponents_spec hjoins
  constructor
  · intro hb
    exact ⟨reaches_predecessors.mp (hexact.reaches component hcpt b hb a ha),
      reaches_predecessors.mp (hexact.reaches component hcpt a ha b hb)⟩
  · rintro ⟨hforth, hback⟩
    exact hexact.saturated component hcpt a ha b (reaches_predecessors.mpr hback)
      (reaches_predecessors.mpr hforth)

theorem isCyclicComponent_iff : isCyclicComponent edges component = true ↔
    ∃ node ∈ component, Relation.TransGen (Edge edges) node node := by
  obtain ⟨visited, hexact, -⟩ := stronglyConnectedComponents_spec hjoins
  obtain ⟨hne, hsort⟩ := hexact.ordered component hcpt
  obtain ⟨first, rest, rfl⟩ := exists_cons_of_ne_nil hne
  have hmem := fun other => @mem_component_iff _ _ _ _ first other _ hjoins hcpt
    mem_cons_self
  cases rest with
  | nil =>
    simp only [isCyclicComponent, length_singleton, lt_irrefl, decide_false, Bool.false_or,
      List.head?_cons, decide_eq_true_eq, mem_singleton, exists_eq_left, mem_successors]
    refine ⟨fun hedge => .single hedge, fun hcycle => ?_⟩
    -- The cycle does not leave its component.
    obtain ⟨next, hedge, hback⟩ := Relation.TransGen.head'_iff.mp hcycle
    have hnext : next = first := mem_singleton.mp ((hmem next).mpr ⟨.single hedge, hback⟩)
    exact hnext ▸ hedge
  | cons second rest =>
    have hlt : first < second := (pairwise_cons.mp hsort).1 second mem_cons_self
    obtain ⟨hforth, hback⟩ := (hmem second).mp (mem_cons_of_mem _ mem_cons_self)
    have hpath := (Relation.reflTransGen_iff_eq_or_transGen.mp hforth).resolve_left hlt.ne'
    exact iff_of_true (by simp [isCyclicComponent])
      ⟨first, mem_cons_self, hpath.trans_left hback⟩

end

theorem edge_canonical : Edge (OrdSet.ofList edges).rows = Edge edges := by
  funext a b
  exact propext OrdSet.mem_ofList

theorem joins_canonical (h : Joins nodes edges) :
    Joins (OrdSet.ofList nodes).rows (OrdSet.ofList edges).rows := fun edge hedge =>
  (h edge (OrdSet.mem_ofList.mp hedge)).imp OrdSet.mem_ofList.mpr OrdSet.mem_ofList.mpr

section

variable {roots : List Id} {facts : StructuralFacts Id}
  (h : analyze nodes edges roots = .ok facts)

include h

/-- An analysis succeeds on closed graphs only. -/
theorem analyze_eq_ok : Joins nodes edges ∧ (∀ root ∈ roots, root ∈ nodes) ∧
    facts.nodes = (OrdSet.ofList nodes).rows ∧ facts.edges = (OrdSet.ofList edges).rows ∧
    facts.components = stronglyConnectedComponents facts.nodes facts.edges ∧
    facts.cyclicComponents = facts.components.filter (isCyclicComponent facts.edges) ∧
    facts.reachable = (OrdSet.ofList (search (successors facts.edges) facts.nodes
      (OrdSet.ofList roots).rows [])).rows := by
  unfold analyze at h
  simp only at h
  split at h
  · cases h
  · rename_i hissues
    cases h
    rw [Bool.not_eq_true', Bool.not_eq_false, List.isEmpty_iff] at hissues
    unfold structuralIssues at hissues
    rw [append_eq_nil_iff, filterMap_eq_nil_iff] at hissues
    have hmiss : ∀ node ∈ (edges.flatMap fun edge => [edge.predecessor, edge.successor]) ++ roots,
        node ∈ nodes := by
      intro node hnode
      by_contra hne
      have := hissues.2 node hnode
      rw [if_neg hne] at this
      cases this
    refine ⟨?_, ?_, rfl, rfl, rfl, rfl, rfl⟩
    · intro edge hedge
      exact ⟨hmiss _ (mem_append_left _ (mem_flatMap.mpr ⟨edge, hedge, by simp⟩)),
        hmiss _ (mem_append_left _ (mem_flatMap.mpr ⟨edge, hedge, by simp⟩))⟩
    · intro root hroot
      exact hmiss root (mem_append_right _ hroot)

/-- Every node on a cycle lies in a cyclic component. -/
theorem analyze_cyclic {n : Id} (hcycle : Relation.TransGen (Edge edges) n n) :
    ∃ component ∈ facts.cyclicComponents, n ∈ component := by
  obtain ⟨hclos, -, hnodes, hedges, hcpts, hcyclic, -⟩ := analyze_eq_ok h
  rw [← edge_canonical] at hcycle
  have hjoins := joins_canonical hclos
  obtain ⟨m, hnm, -⟩ := Relation.TransGen.head'_iff.mp hcycle
  obtain ⟨visited, hexact, hvisd⟩ := stronglyConnectedComponents_spec hjoins
  obtain ⟨component, hcpt, hin⟩ := hexact.covered n (hvisd (hjoins _ hnm).1)
  rw [hcyclic, hcpts, hnodes, hedges]
  exact ⟨component, mem_filter.mpr
    ⟨hcpt, (isCyclicComponent_iff hjoins hcpt).mpr ⟨n, hin, hcycle⟩⟩, hin⟩

end

end OctaCity.Factory.Graph
