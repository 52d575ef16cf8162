/-
  OctaCity.Source.Fences

  What holds in every state of every run of the source store: fences rise, a
  write needs the newest claim of a current target, a ticket is prepared once
  for an input, and a preparation keeps what it was reserved with.
-/
import OctaCity.Source.ExclusiveRun

namespace OctaCity.Source

open Domain Lib List
open Factory (FactoryDigest FactoryKey)

namespace SourceStore

variable {digests : SourceDigests} {store : SourceStore}

/-! ## The invariant -/

/-- Preparations are of their own tickets, and admissions are of Works of their identity. -/
structure Sound (digests : SourceDigests) (store : SourceStore) : Prop where
  identified : ∀ preparation ∈ store.preparations.rows, preparation.Identified digests
  admitted : ∀ preparation ∈ store.preparations.rows, ∀ receipt,
    preparation.admission = some receipt → ∃ work ∈ store.works, work.receipt = receipt ∧
      work.identity = preparation.identityIn digests work.identity.securityScope
  once : ∀ work ∈ store.works, ∀ other ∈ store.works, work.identity = other.identity → work = other

theorem empty_store_sound (projects : List Nat) : (empty projects).Sound digests :=
  ⟨fun _ h => (nomatch h), fun _ h => (nomatch h), fun _ h => (nomatch h)⟩

variable {store' : SourceStore} {event : SourceEvent} {scope : FactoryKey}

theorem works_of_moves
    (h : Moves digests store event store') : ∀ work ∈ store.works, work ∈ store'.works := by
  intro work hwork
  rcases h.works with heq | ⟨_, _, _, added, -, heq, -⟩
  · rw [heq]
    exact hwork
  · rw [heq]
    exact mem_append_left _ hwork

theorem sound_of_moves (hs : store.Sound digests)
    (h : Moves digests store event store') : store'.Sound digests := by
  -- A row is new, or follows an earlier row of its identity.
  have hrow : ∀ b ∈ store'.preparations.rows,
      (b.Identified digests ∧ b.admission = none) ∨ ∃ a, a ∈ store.preparations.rows ∧
        store.preparations.find? b.id = some a ∧ (a.Keeps b ∨ b = a.cleared) := by
    intro b hb
    have hfind := store'.preparations.find?_of_mem hb
    cases hold : store.preparations.find? b.id with
    | none => exact .inl (h.fresh _ _ hfind hold)
    | some a =>
      obtain ⟨b', hb', hkept⟩ := h.kept _ _ hold
      cases hfind.symm.trans hb'
      refine .inr ⟨a, Table.mem_of_find? hold, rfl, ?_⟩
      rcases hkept with hkeeps | ⟨-, hcleared⟩
      · exact .inl hkeeps
      · exact .inr hcleared
  -- Neither kind of change touches what the identities are taken over.
  have hsame : ∀ {a b : WorkSourcePreparation}, a.Keeps b ∨ b = a.cleared →
      b.id = a.id ∧ b.issue = a.issue ∧ b.input = a.input ∧ b.item = a.item := by
    rintro a b (hkeeps | rfl)
    · exact ⟨hkeeps.id, hkeeps.issue, hkeeps.input, hkeeps.item⟩
    · exact ⟨rfl, rfl, rfl, rfl⟩
  constructor
  · intro b hb
    rcases hrow b hb with ⟨hidentified, -⟩ | ⟨a, ha, -, hchange⟩
    · exact hidentified
    · obtain ⟨hid, hissue, hinput, hitem⟩ := hsame hchange
      have hidentified := hs.identified a ha
      constructor
      · rw [hid, hissue, hinput]
        exact hidentified.id
      · rw [hissue, hinput, hitem]
        exact hidentified.issue
  · intro b hb receipt hrcpt
    rcases hrow b hb with ⟨-, hnone⟩ | ⟨a, ha, hfind, hchange⟩
    · rw [hnone] at hrcpt
      cases hrcpt
    · obtain ⟨-, -, hinput, hitem⟩ := hsame hchange
      have hident : ∀ scope, b.identityIn digests scope = a.identityIn digests scope := by
        intro scope
        unfold WorkSourcePreparation.identityIn WorkSourcePreparation.admissionIdentity
        rw [hinput, hitem]
      rcases h.admitted _ _ _ hfind (store'.preparations.find?_of_mem hb) with
        hkept | ⟨_, request, _, -, hreq, work, hwork, hwid, hadmis⟩
      · rw [hkept] at hrcpt
        obtain ⟨work, hwork, hworkReceipt, hwid⟩ := hs.admitted a ha receipt hrcpt
        exact ⟨work, works_of_moves h work hwork, hworkReceipt, by rw [hident]; exact hwid⟩
      · rw [hadmis] at hrcpt
        refine ⟨work, hwork, Option.some.inj hrcpt, ?_⟩
        rw [hident, hwid]
        exact hreq
  · rcases h.works with heq | ⟨_, _, _, added, -, heq, -, hnew⟩
    · rw [heq]
      exact hs.once
    · rw [heq]
      intro work hwork other hother hident
      rcases mem_append.mp hwork with hwork | hwork <;>
        rcases mem_append.mp hother with hother | hother
      · exact hs.once work hwork other hother hident
      · rw [mem_singleton.mp hother] at hident
        exact absurd hident (hnew work hwork)
      · rw [mem_singleton.mp hwork] at hident
        exact absurd hident.symm (hnew other hother)
      · rw [mem_singleton.mp hwork, mem_singleton.mp hother]

/-! ## Runs -/

theorem step_sound (hs : store.Sound digests) (event : SourceEvent) :
    (store.step digests event).Sound digests := by
  rcases step_eq digests store event with h | h
  · exact sound_of_moves hs (apply_moves h)
  · rw [h]
    exact hs

theorem run_store_sound (hs : store.Sound digests) (events : List SourceEvent) :
    (store.run digests events).Sound digests := by
  induction events generalizing store with
  | nil => exact hs
  | cons event rest ih => exact ih (step_sound hs event)

theorem run_scans_grow (digests : SourceDigests) (store : SourceStore) (events : List SourceEvent) :
    store.scans.Grows WorkSourceScan.Follows (store.run digests events).scans := by
  induction events generalizing store with
  | nil => exact .refl WorkSourceScan.Follows.refl _
  | cons event rest ih =>
    refine Table.Grows.trans (fun _ _ _ hab hbc => hab.trans hbc) ?_ (ih (store.step digests event))
    rcases step_eq digests store event with h | h
    · exact (apply_moves h).scans
    · rw [h]
      exact .refl WorkSourceScan.Follows.refl _

theorem run_preparations_grow (digests : SourceDigests) (store : SourceStore)
    (events : List SourceEvent) : store.preparations.Grows WorkSourcePreparation.Retains
      (store.run digests events).preparations := by
  induction events generalizing store with
  | nil => exact .refl WorkSourcePreparation.Retains.refl _
  | cons event rest ih =>
    refine Table.Grows.trans (fun _ _ _ hab hbc => hab.trans hbc) ?_ (ih (store.step digests event))
    rcases step_eq digests store event with h | h
    · intro id a ha
      obtain ⟨b, hb, hkeeps | ⟨-, hcleared⟩⟩ := (apply_moves h).kept id a ha
      · exact ⟨b, hb, hkeeps.retains⟩
      · rw [hcleared] at hb
        exact ⟨_, hb, a.cleared_retains⟩
    · rw [h]
      exact .refl WorkSourcePreparation.Retains.refl _

/-! ## Admissions in one security scope -/

/-- Whether every admission of a run, and every Work so far, is in one security scope. -/
def InScope (store : SourceStore) (scope : FactoryKey) (events : List SourceEvent) : Prop :=
  (∀ work ∈ store.works, work.identity.securityScope = scope) ∧
    ∀ guard request checks, SourceEvent.admitPrepared guard request checks ∈ events →
      request.identity.securityScope = scope

variable {rest : List SourceEvent} {id : FactoryDigest} {a : WorkSourcePreparation}
  {receipt : WorkSourceCorrelation} {request : ClaimWorkSourceScan} {scan : WorkSourceScan}

theorem step_inScope
    (h : store.InScope scope (event :: rest)) : (store.step digests event).InScope scope rest := by
  refine ⟨?_, fun guard request checks hmem =>
    h.2 guard request checks (mem_cons_of_mem _ hmem)⟩
  intro work hwork
  rcases step_eq digests store event with happly | hsame
  · rcases (apply_moves happly).works with heq | ⟨guard, request, checks, added, rfl, heq, hadded, -⟩
    · rw [heq] at hwork
      exact h.1 work hwork
    · rw [heq] at hwork
      rcases mem_append.mp hwork with hwork | hwork
      · exact h.1 work hwork
      · rw [mem_singleton.mp hwork, hadded]
        exact h.2 guard request checks (mem_cons_self ..)
  · rw [hsame] at hwork
    exact h.1 work hwork

/-- The Work that a preparation names is the only one of its identity in the scope. -/
theorem step_admission (hs : store.Sound digests) (hscope : store.InScope scope (event :: rest))
    (ha : store.preparations.find? id = some a) (hrcpt : a.admission = some receipt) :
    ∃ b, (store.step digests event).preparations.find? id = some b ∧
      b.admission = some receipt := by
  rcases step_eq digests store event with happly | hsame
  · have hmoves := apply_moves happly
    obtain ⟨b, hb, -⟩ := hmoves.kept id a ha
    refine ⟨b, hb, ?_⟩
    rcases hmoves.admitted id a b ha hb with
      hkept | ⟨guard, request, checks, rfl, hreq, work, hwork, hwid, hadmis⟩
    · rw [hkept]
      exact hrcpt
    · obtain ⟨named, hnamed, hnamedReceipt, hnamedIdentity⟩ :=
        hs.admitted a (Table.mem_of_find? ha) receipt hrcpt
      have hident : named.identity = work.identity := by
        rw [hwid, hreq, hnamedIdentity, hscope.1 named hnamed,
          hscope.2 guard request checks (mem_cons_self ..)]
      have hsame := (sound_of_moves hs hmoves).once named (works_of_moves hmoves named hnamed) work
        hwork hident
      rw [hadmis, ← hsame, hnamedReceipt]
  · rw [hsame]
    exact ⟨a, ha, hrcpt⟩

theorem run_admission {events : List SourceEvent} (hs : store.Sound digests)
    (hscope : store.InScope scope events) (ha : store.preparations.find? id = some a)
    (hrcpt : a.admission = some receipt) :
    ∃ b, (store.run digests events).preparations.find? id = some b ∧ b.admission = some receipt := by
  induction events generalizing store a with
  | nil => exact ⟨a, ha, hrcpt⟩
  | cons event rest ih =>
    obtain ⟨b, hb, hadmis⟩ := step_admission hs hscope ha hrcpt
    exact ih (step_sound hs event) (step_inScope hscope) hb hadmis

/-! ## Claims and checkpoints -/

theorem claimScan_saved (h : store.claimScan request = .ok (store', some scan)) :
    store'.loadScan request.target = some scan ∧ ∀ earlier,
      store.loadScan request.target = some earlier → earlier.claim.fence < scan.claim.fence := by
  obtain ⟨-, h⟩ := check_eq_ok.mp h
  obtain ⟨-, h⟩ := check_eq_ok.mp h
  obtain ⟨next, hnext, h⟩ := bind_eq_ok.mp h
  cases h
  obtain ⟨htgt, habove⟩ := nextSourceScan_eq_ok hnext
  refine ⟨?_, habove⟩
  show (store.scans.put scan).find? (toLex request.target.identity) = some scan
  rw [← htgt]
  exact Table.find?_put_self

theorem fences_rise {request' : ClaimWorkSourceScan} {store'' : SourceStore}
    {scan' : WorkSourceScan} {later : List SourceEvent}
    (h : store.claimScan request = .ok (store', some scan))
    (h' : (store'.run digests later).claimScan request' = .ok (store'', some scan'))
    (hident : request'.target.identity = request.target.identity) :
    scan.claim.fence < scan'.claim.fence := by
  obtain ⟨hsaved, -⟩ := claimScan_saved h
  obtain ⟨current, hcur, hfol⟩ := run_scans_grow digests store' later _ scan hsaved
  obtain ⟨-, habove⟩ := claimScan_saved h'
  have hload : (store'.run digests later).loadScan request'.target = some current := by
    unfold loadScan
    rw [hident]
    exact hcur
  exact Nat.lt_of_le_of_lt hfol.fence (habove current hload)

/-- A checkpoint moves the position it was computed from, when nothing untouched is pending. -/
theorem checkpoint_eq_ok {claim : WorkSourceScanClaim} {now : Timestamp}
    {expected : Option WorkSourceProgress} {progress : WorkSourceProgress}
    (h : store.checkpoint claim now expected progress = .ok store') : progress.isValid = true ∧
      (∃ scan, store.loadScan claim.target = some scan ∧ scan.progress = expected) ∧
      ∀ members, store.tables.scanMembers claim.projectId claim.target = .ok members →
        ∀ preparation ∈ store.preparations.rows,
          store.isPending claim.projectId members preparation = true →
            preparation.waiting ≠ none := by
  obtain ⟨hvalid, h⟩ := guard_eq_ok.mp h
  obtain ⟨scan, hlock, h⟩ := bind_eq_ok.mp h
  obtain ⟨blocking, hblocking, h⟩ := bind_eq_ok.mp h
  obtain ⟨hclear, -⟩ := guard_eq_ok.mp h
  obtain ⟨hnone, hexp⟩ := not_or.mp hclear
  obtain ⟨-, hload, -⟩ := lockClaim_eq_ok hlock
  refine ⟨not_not.mp hvalid, ⟨scan, hload, not_not.mp hexp⟩, ?_⟩
  intro members hmems preparation hmem hpend hwaiting
  obtain ⟨found, hfound, hrows⟩ := bind_eq_ok.mp hblocking
  cases hmems.symm.trans hfound
  cases hrows
  -- An untouched pending row would be on the page.
  have hpage := not_not.mp hnone
  rw [take_eq_nil_iff] at hpage
  have hempty := hpage.resolve_left Nat.one_ne_zero
  have hfilt : preparation ∈ store.preparations.rows.filter fun row =>
      store.isPending claim.projectId members row ∧ PendingView.blocking.admits row := by
    refine mem_filter.mpr ⟨hmem, decide_eq_true ⟨hpend, ?_⟩⟩
    show preparation.waiting.isNone = true
    rw [hwaiting]
    rfl
  have hsort := (@mem_mergeSort _ PendingView.blocking.isBefore preparation _).mpr hfilt
  rw [hempty] at hsort
  cases hsort

/-! ## The guarantees of a store -/

/-- What a store guarantees from a state on. -/
structure Fenced (digests : SourceDigests) (store : SourceStore) : Prop where
  /-- A later claim of the same scan identity has a higher fence. -/
  fences_rise : ∀ request store' scan later request' store'' scan',
    store.claimScan request = .ok (store', some scan) →
    (store'.run digests later).claimScan request' = .ok (store'', some scan') →
    request'.target.identity = request.target.identity → scan.claim.fence < scan'.claim.fence
  /-- A call under a claim commits only while the claim holds. -/
  writes_held : ∀ event claim now store', event.claim? = some (claim, now) →
    store.apply digests event = .ok store' → store.Holds claim now
  /-- Every preparation of a ticket for an input, now or later, is the same one. -/
  prepared_once : ∀ preparation ∈ store.preparations.rows, ∀ later,
    ∀ other ∈ (store.run digests later).preparations.rows, other.issue = preparation.issue →
      other.input.id = preparation.input.id →
      (store.run digests later).preparations.find? preparation.id = some other ∧
        preparation.Retains other
  /-- A call keeps a preparation, or is the cleanup that clears its snapshot. -/
  cleared_by_cleanup : ∀ preparation ∈ store.preparations.rows, ∀ event,
    ∃ next, (store.step digests event).preparations.find? preparation.id = some next ∧
      (preparation.Keeps next ∨
        (∃ expected now recheckAt, event = .completeCleanup expected now recheckAt) ∧
          next = preparation.cleared)
  /-- In a security scope there is at most one Work of a preparation. -/
  admitted_once : ∀ preparation ∈ store.preparations.rows, ∀ scope, ∀ work ∈ store.works,
    ∀ other ∈ store.works, work.identity = preparation.identityIn digests scope →
      other.identity = preparation.identityIn digests scope → work = other
  /-- While admissions are in one security scope, an admission never changes. -/
  admission_stays : ∀ scope later, store.InScope scope later →
    ∀ preparation ∈ store.preparations.rows, ∀ receipt, preparation.admission = some receipt →
      ∃ next, (store.run digests later).preparations.find? preparation.id = some next ∧
        next.admission = some receipt
  /-- A checkpoint covers no untouched preparation, and starts from the stored position. -/
  checkpoint_covers : ∀ claim now expected progress store',
    store.checkpoint claim now expected progress = .ok store' → progress.isValid = true ∧
      (∃ scan, store.loadScan claim.target = some scan ∧ scan.progress = expected) ∧
      ∀ members, store.tables.scanMembers claim.projectId claim.target = .ok members →
        ∀ preparation ∈ store.preparations.rows,
          store.isPending claim.projectId members preparation = true →
            preparation.waiting ≠ none

theorem Sound.prepared_once (hs : store.Sound digests) {preparation : WorkSourcePreparation}
    (hmem : preparation ∈ store.preparations.rows) (later : List SourceEvent)
    {other : WorkSourcePreparation} (hother : other ∈ (store.run digests later).preparations.rows)
    (hissue : other.issue = preparation.issue) (hinput : other.input.id = preparation.input.id) :
    (store.run digests later).preparations.find? preparation.id = some other ∧
      preparation.Retains other := by
  have hid : other.id = preparation.id := by
    rw [((run_store_sound hs later).identified other hother).id, (hs.identified preparation hmem).id,
      hissue, hinput]
  have hfind := (store.run digests later).preparations.find?_of_mem hother
  rw [hid] at hfind
  obtain ⟨next, hnext, hretains⟩ := run_preparations_grow digests store later preparation.id
    preparation (store.preparations.find?_of_mem hmem)
  cases hfind.symm.trans hnext
  exact ⟨hfind, hretains⟩

/-- Every state of every run of the store is fenced. -/
theorem run_fenced (digests : SourceDigests) (projects : List Nat) (events : List SourceEvent) :
    ((empty projects).run digests events).Fenced digests := by
  have hs : ((empty projects).run digests events).Sound digests :=
    run_store_sound (empty_store_sound projects) events
  constructor
  · intro request store' scan later request' store'' scan' h h' hident
    exact SourceStore.fences_rise h h' hident
  · intro event claim now store' hclaim happly
    exact (apply_moves happly).held claim now hclaim
  · intro preparation hmem later other hother hissue hinput
    exact hs.prepared_once hmem later hother hissue hinput
  · intro preparation hmem event
    have hfind := ((empty projects).run digests events).preparations.find?_of_mem hmem
    rcases step_eq digests ((empty projects).run digests events) event with happly | hsame
    · exact (apply_moves happly).kept _ _ hfind
    · rw [hsame]
      exact ⟨preparation, hfind, .inl (.refl preparation)⟩
  · intro preparation _ scope work hwork other hother hident hident'
    exact hs.once work hwork other hother (hident.trans hident'.symm)
  · intro scope later hscope preparation hmem receipt hrcpt
    exact run_admission hs hscope
      (((empty projects).run digests events).preparations.find?_of_mem hmem) hrcpt
  · intro claim now expected progress store' h
    exact checkpoint_eq_ok h

/-! ## What a cleanup and a second scope change -/

/-- An instant of the first month of 1970. -/
def instant (millis : Nat) (h : millis ≤ 3000000000) : Timestamp :=
  ⟨millis, by unfold minTimestampMillis maxTimestampMillis; omega⟩

def sampleClaim : WorkSourceScanClaim :=
  ⟨1, .input 1 1, ⟨"w"⟩, 1, instant 0 (by decide), instant 1000 (by decide)⟩

def sampleItem : WorkSourceItem := ⟨⟨"r"⟩, ⟨"t"⟩⟩

/-- Publishes one input, claims its scan and reserves a preparation of a ticket. -/
def reservingEvents : List SourceEvent :=
  [.publish ⟨1, [⟨none, sharedInput⟩], none⟩ ⟨true, fun _ => true, fun _ => true⟩,
    .claim ⟨1, .input 1 1, ⟨"w"⟩, instant 0 (by decide), instant 1000 (by decide)⟩,
    .reserve ⟨sampleClaim, 1, sampleItem, [7], instant 1 (by decide)⟩ none none]

def sampleIssue : FactoryDigest := writtenDigests.issue 1 ⟨"i"⟩ sampleItem

def sampleId : FactoryDigest := writtenDigests.preparation sampleIssue 1

def sampleIntent : FactoryWorkAdmissionIntent :=
  ⟨1, ⟨1, 1⟩, some ⟨1, 1⟩, writtenDigests.admission ⟨"i"⟩ sampleItem 1, ⟨0⟩, ⟨0⟩⟩

/-- Freezes a policy, then clears the snapshot when its month is over. -/
def clearingEvents : List SourceEvent :=
  [.freezePolicy ⟨sampleClaim, sampleId, [1], instant 2 (by decide)⟩,
    .completeCleanup ⟨sampleId, 1, instant 2592000001 (by decide), [], none, none⟩
      (instant 2592000001 (by decide)) (instant 2592000002 (by decide))]

/-- An admission of the sample in a security scope. -/
def admission (scope : FactoryKey) (work : Nat) : SourceEvent :=
  .admitPrepared ⟨sampleClaim, sampleId, instant 3 (by decide)⟩
    ⟨⟨1, ⟨"i"⟩, scope, sampleIntent.externalIdentity⟩, sampleIntent, ⟨0⟩, ⟨work, work⟩, true⟩
    ⟨true, fun _ => none, none⟩

/-- Freezes an intent, then admits it in two scopes. -/
def admittingEvents : List SourceEvent :=
  [.publishIntent ⟨sampleClaim, sampleId, sampleIntent, instant 2 (by decide)⟩,
    admission ⟨"a"⟩ 1, admission ⟨"b"⟩ 2]

/-- A cleanup takes the frozen policy away, and a second scope admits a second Work. -/
theorem cleanup_clears_policy_and_scopes_admit_apart :
    let store := (empty [1]).run writtenDigests reservingEvents
    ((store.run writtenDigests (clearingEvents.take 1)).preparations.find? sampleId).map
        (·.policy) = some (some [1]) ∧
      ((store.run writtenDigests clearingEvents).preparations.find? sampleId).map
        (·.policy) = some none ∧
      ((store.run writtenDigests (admittingEvents.take 2)).preparations.find? sampleId).map
        (·.admission) = some (some ⟨1, 1⟩) ∧
      ((store.run writtenDigests admittingEvents).preparations.find? sampleId).map
        (·.admission) = some (some ⟨2, 2⟩) := by
  decide +kernel

end SourceStore

end OctaCity.Source
