/-
  OctaCity.Source.ExclusiveRun

  Routes over whole runs of the source store: in every state that a run reaches
  an input is selected through at most one route exactly when each accepted
  publication of the run is exclusive.
-/
import OctaCity.Source.Moves

namespace OctaCity.Source

open Domain Lib List
open Factory (FactoryDigest FactoryKey)

namespace SourceTables

variable {tables : SourceTables} {project : Nat} {target : WorkSourceScanTarget}
  {input : WorkSourceInput}

theorem Covers.current (hs : tables.Sound) (h : tables.Covers project target input) :
    tables.currentInput? project input.id = some input := by
  cases target with
  | input id version =>
    obtain ⟨hcur, -, -⟩ := h.of_input
    obtain ⟨-, -, rfl⟩ := currentInput?_mem hcur
    exact hcur
  | group id version =>
    obtain ⟨group, hrunning, -, -, hmem⟩ := h.of_group hs
    exact isUpToDate_iff.mp hrunning.2 input hmem

end SourceTables

namespace SourceStore

variable {digests : SourceDigests} {store : SourceStore}

/-- Every input is on one route, so two claims of different targets never reserve for it at once. -/
structure RoutedOnce (digests : SourceDigests) (store : SourceStore) : Prop where
  once : store.tables.SelectedOnce
  reserved : ∀ request request' lineage lineage' policy policy' result result' input,
    store.reserve digests request lineage policy = .ok result →
    store.reserve digests request' lineage' policy' = .ok result' →
    store.selectedInput request.claim request.inputId = .ok input →
    store.selectedInput request'.claim request'.inputId = .ok input →
    request.claim.target = request'.claim.target

/-- A reservation is made through a target that covers the input. -/
theorem reserve_covers {request : ReserveWorkSourcePreparation} {lineage : Option Lineage}
    {policy : Option (List UInt8)} {result : SourceStore × WorkSourcePreparation}
    {input : WorkSourceInput} (h : store.reserve digests request lineage policy = .ok result)
    (hinput : store.selectedInput request.claim request.inputId = .ok input) :
    store.tables.Covers input.projectId request.claim.target input ∧
      input.definition.enabled = true := by
  obtain ⟨-, h⟩ := guard_eq_ok.mp h
  obtain ⟨scan, hlock, h⟩ := bind_eq_ok.mp h
  obtain ⟨selected, hsel, h⟩ := bind_eq_ok.mp h
  cases hsel.symm.trans hinput
  obtain ⟨fresh, hfreeze, -⟩ := bind_eq_ok.mp h
  obtain ⟨-, hfreeze⟩ := guard_eq_ok.mp hfreeze
  obtain ⟨hmatch, -⟩ := guard_eq_ok.mp hfreeze
  obtain ⟨-, hrest⟩ := not_or.mp hmatch
  obtain ⟨hproj, hen⟩ := not_or.mp hrest
  obtain ⟨hholds, -⟩ := lockClaim_eq_ok hlock
  obtain ⟨members, hmems, hfind⟩ := bind_eq_ok.mp hinput
  rw [not_not.mp hproj]
  exact ⟨⟨SourceTables.mem_scanTargets_iff.mpr hholds.current, hholds.current, members, hmems,
    mem_of_find?_eq_some (okOr_eq_ok.mp hfind)⟩, not_not.mp hen⟩

theorem routedOnce_iff (hs : store.tables.Sound) :
    store.RoutedOnce digests ↔ store.tables.SelectedOnce := by
  refine ⟨fun h => h.once, fun honce => ⟨honce, ?_⟩⟩
  intro request request' lineage lineage' policy policy' result result' input h h' hinput hinput'
  obtain ⟨hcovers, hen⟩ := reserve_covers h hinput
  obtain ⟨hcovers', -⟩ := reserve_covers h' hinput'
  exact honce input.projectId input (hcovers.current hs) hen _ _ hcovers hcovers'

/-- A publication that is accepted in a state is exclusive there. -/
def PublishesExclusively (store : SourceStore) (event : SourceEvent) : Prop :=
  ∀ request checks tables', event = .publish request checks →
    store.tables.publish request checks = .ok tables' → store.tables.Exclusive request

/-! ## Runs -/

theorem empty_sound (projects : List Nat) : (empty projects).tables.Sound :=
  ⟨fun _ ha => (nomatch ha), fun _ ha => (nomatch ha), fun _ hgroup => (nomatch hgroup)⟩

theorem empty_selectedOnce (projects : List Nat) : (empty projects).tables.SelectedOnce := by
  rw [SourceTables.selectedOnce_iff (empty_sound projects)]
  intro project group other hgroup
  exact absurd (SourceTables.currentGroup?_mem hgroup.1).1 not_mem_nil

theorem step_tables (digests : SourceDigests) (store : SourceStore) (event : SourceEvent) :
    (store.step digests event).tables = store.tables ∨ ∃ request checks,
      event = .publish request checks ∧
        store.tables.publish request checks = .ok (store.step digests event).tables := by
  rcases step_eq digests store event with h | h
  · exact (apply_moves h).tables
  · rw [h]
    exact .inl rfl

theorem step_tables_sound (hs : store.tables.Sound) (event : SourceEvent) :
    (store.step digests event).tables.Sound := by
  rcases step_tables digests store event with h | ⟨request, checks, -, h⟩
  · rw [h]
    exact hs
  · exact (SourceTables.publish_eq_ok hs h).1

/-- One call keeps the routes apart exactly when its publication is exclusive. -/
theorem step_selectedOnce (hs : store.tables.Sound) (honce : store.tables.SelectedOnce)
    (event : SourceEvent) :
    (store.step digests event).tables.SelectedOnce ↔ store.PublishesExclusively event := by
  rcases step_tables digests store event with h | ⟨request, checks, hevent, h⟩
  · rw [h]
    refine ⟨fun _ request checks tables' hevent hpub => ?_, fun _ => honce⟩
    -- Nothing was published, or the publication left every route as it was.
    have hstep : (store.step digests event).tables = tables' := by
      have happly : store.apply digests event = .ok { store with tables := tables' } := by
        rw [hevent]
        exact bind_eq_ok.mpr ⟨tables', hpub, rfl⟩
      unfold step
      rw [happly]
      rfl
    rw [← hstep, h] at hpub
    exact (SourceTables.publish_selectedOnce hs honce hpub).mp honce
  · rw [SourceTables.publish_selectedOnce hs honce h]
    constructor
    · intro hexclusive request' checks' tables' hevent' _
      rw [hevent] at hevent'
      cases hevent'
      exact hexclusive
    · intro hall
      exact hall request checks _ hevent h

/-- In every state of a run each input is on one route, exactly when every publication is exclusive. -/
theorem run_routed_once_iff (digests : SourceDigests) (projects : List Nat)
    (events : List SourceEvent) : (∀ before after, events = before ++ after →
      ((empty projects).run digests before).RoutedOnce digests) ↔
    ∀ before event after, events = before ++ event :: after →
      ((empty projects).run digests before).PublishesExclusively event := by
  -- The states of a run are reached one call at a time.
  have hrun : ∀ before event, (empty projects).run digests (before ++ [event]) =
      ((empty projects).run digests before).step digests event := fun before event =>
    foldl_append ..
  have hsound : ∀ before, ((empty projects).run digests before).tables.Sound := by
    intro before
    induction before using List.reverseRecOn with
    | nil => exact empty_sound projects
    | append_singleton before event ih =>
      rw [hrun]
      exact step_tables_sound ih event
  constructor
  · intro hall before event after hsplit
    have hbef := hall before (event :: after) hsplit
    have hnext := hall (before ++ [event]) after (by rw [hsplit, append_assoc]; rfl)
    rw [hrun] at hnext
    exact (step_selectedOnce (hsound before) hbef.once event).mp hnext.once
  · intro hall before after hsplit
    rw [routedOnce_iff (hsound before)]
    induction before using List.reverseRecOn generalizing after with
    | nil => exact empty_selectedOnce projects
    | append_singleton before event ih =>
      rw [append_assoc] at hsplit
      rw [hrun]
      exact (step_selectedOnce (hsound before) (ih _ hsplit) event).mpr
        (hall before event after hsplit)

/-! ## A member of two groups -/

/-- An input that is enabled, of one observation scope. -/
def sharedInput : WorkSourceInput where
  id := 1
  version := 1
  projectId := 1
  definition :=
    { target := ⟨1, 1⟩
      repository := ⟨1, 1⟩
      source := ⟨⟨⟨"i"⟩, ⟨"1"⟩, ⟨0⟩⟩, ⟨⟨"c"⟩, ⟨"1"⟩, ⟨0⟩⟩, ⟨⟨"s"⟩, ⟨"1"⟩, ⟨0⟩⟩, ⟨⟨"r"⟩, ⟨"1"⟩, ⟨0⟩⟩⟩
      enabled := true
      settings := ⟨0⟩ }

/-- A group of that input alone. -/
def sharedGroup (id : Nat) : WorkSourceGroup where
  id := id
  version := 1
  projectId := 1
  members := [sharedInput]
  nonempty := cons_ne_nil _ _
  bounded := by decide
  owned := by decide
  distinct := by decide
  oneScope := by decide

/-- Publishes the input with a first group of it, then a second group of it. -/
def sharedMemberEvents : List SourceEvent :=
  [.publish ⟨1, [⟨none, sharedInput⟩], some ⟨none, sharedGroup 1⟩⟩
      ⟨true, fun _ => true, fun _ => true⟩,
    .publish ⟨1, [], some ⟨none, sharedGroup 2⟩⟩ ⟨true, fun _ => true, fun _ => true⟩]

theorem run_sharedMemberEvents : ((empty [1]).run writtenDigests sharedMemberEvents).tables =
      ⟨[1], [sharedInput], [sharedGroup 1, sharedGroup 2]⟩ := by
  decide

/-- Both groups are accepted, and both cover the input. -/
theorem shared_member_is_on_two_routes :
    ¬ ((empty [1]).run writtenDigests sharedMemberEvents).RoutedOnce writtenDigests := by
  intro hrouted
  have honce := hrouted.once
  rw [run_sharedMemberEvents] at honce
  have hcovers : ∀ id ∈ [1, 2], SourceTables.Covers
      ⟨[1], [sharedInput], [sharedGroup 1, sharedGroup 2]⟩ 1 (.group id 1) sharedInput := by
    intro id hid
    rcases mem_pair.mp hid with rfl | rfl
    · exact ⟨by decide, by decide, [sharedInput], by decide,
        mem_singleton_self _⟩
    · exact ⟨by decide, by decide, [sharedInput], by decide,
        mem_singleton_self _⟩
  have hsame := honce 1 sharedInput (by decide) rfl _ _ (hcovers 1 (by decide))
    (hcovers 2 (by decide))
  cases hsame

end SourceStore

end OctaCity.Source
