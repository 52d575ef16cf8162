/-
  OctaCity.Source.ProjectionOrder

  Publication to a source never lets an older value win: the heads of a journal
  only move up, permits go to the latest publication of every field they cover,
  and a read that is answered as stable and quiescent has seen no other write.
-/
import OctaCity.Source.Projection

namespace OctaCity.Source

open Factory Lib List Table

/-! ## Heads -/

/-- A head keeps its operation and moves to a later generation. -/
structure Head.Advances (a b : Head) : Prop where
  operation : b.operation = a.operation
  sequence : b.sequence = a.sequence
  generation : a.generation ≤ b.generation

/-- A head moves up. -/
structure Head.Follows (a b : Head) : Prop where
  sequence : a.sequence ≤ b.sequence
  generation : a.generation ≤ b.generation

theorem Head.Advances.refl (a : Head) : a.Advances a := ⟨rfl, rfl, Nat.le_refl _⟩

variable {a b : Head} {operation : FactoryDigest} {request : SourceProjectionRequest}
  {state : SourceProjectionState} {candidates : List SourceProjectionCandidate}
  {fields : List FactoryDigest}

variable {c : Head}

theorem Head.Advances.trans (h : a.Advances b) (h' : b.Advances c) : a.Advances c :=
  ⟨h'.operation.trans h.operation, h'.sequence.trans h.sequence, h.generation.trans h'.generation⟩

theorem Head.Advances.follows (h : a.Advances b) : a.Follows b :=
  ⟨h.sequence.ge, h.generation⟩

theorem Head.Follows.refl (a : Head) : a.Follows a := ⟨Nat.le_refl _, Nat.le_refl _⟩

theorem Head.Follows.trans (h : a.Follows b) (h' : b.Follows c) : a.Follows c :=
  ⟨h.sequence.trans h'.sequence, h.generation.trans h'.generation⟩

namespace SourceProjectionJournal

variable {digests : ProjectionDigests} {journal journal' : SourceProjectionJournal}
  {field : FactoryDigest} {fields scope : List FactoryDigest}

theorem advanceField_eq_ok (h : journal.advanceField field = .ok journal') :
    journal' = { journal with heads := journal'.heads } ∧
      ∃ head, journal.heads.find? field = some head ∧
        journal.heads.Sets journal'.heads head.advance := by
  obtain ⟨head, hfind, h⟩ := bind_eq_ok.mp h
  obtain ⟨-, h⟩ := guard_eq_ok.mp h
  cases h
  exact ⟨rfl, head, okOr_eq_ok.mp hfind, sets_put _ _⟩

/-- Advancing keeps every head in place and moves the advanced ones on. -/
theorem advance_eq_ok (h : journal.advance fields = .ok journal') :
    journal' = { journal with heads := journal'.heads } ∧
      journal.heads.Grows Head.Advances journal'.heads ∧
      ∀ field ∈ fields, ∀ head, journal.heads.find? field = some head →
        ∃ head', journal'.heads.find? field = some head' ∧ head.generation < head'.generation := by
  induction fields generalizing journal with
  | nil =>
    cases h
    exact ⟨rfl, .refl Head.Advances.refl _, fun _ hfield => (nomatch hfield)⟩
  | cons first rest ih =>
    unfold advance at h
    rw [foldlM_cons] at h
    obtain ⟨next, hfirst, hrest⟩ := bind_eq_ok.mp h
    obtain ⟨hframe, head, hfind, hset⟩ := advanceField_eq_ok hfirst
    obtain ⟨hframe', hgrows, hmoved⟩ := ih hrest
    have hfield := key_of_find? hfind
    have hfound : journal.heads.find? head.advance.field = some head := by
      show journal.heads.find? head.field = some head
      rw [hfield]
      exact hfind
    have hstep : journal.heads.Grows Head.Advances next.heads :=
      hset.grows Head.Advances.refl hfound ⟨rfl, rfl, Nat.le_succ _⟩
    refine ⟨?_, hstep.trans (fun _ _ _ hab hbc => hab.trans hbc) hgrows, ?_⟩
    · rw [hframe', hframe]
    · intro field hmem other hother
      by_cases hsame : field = first
      · subst hsame
        cases hother.symm.trans hfind
        have hadvanced : next.heads.find? field = some head.advance := by
          rw [← hfield]
          exact hset.1
        obtain ⟨head', hfind', hadvs⟩ := hgrows field _ hadvanced
        exact ⟨head', hfind', Nat.lt_of_succ_le hadvs.generation⟩
      · have hlater : field ∈ rest := (mem_cons.mp hmem).resolve_left hsame
        have hnext : next.heads.find? field = some other := by
          rw [hset.2 field (by rw [← hfield] at hsame; exact hsame)]
          exact hother
        exact hmoved field hlater other hnext

variable {sequence : Nat} {reg : SourceProjectionJournal} {ownedFields : List FactoryDigest}

theorem registerField_eq_ok (h : registerField operation sequence journal field = .ok journal') :
    journal' = { journal with heads := journal'.heads } ∧
      journal.heads.Grows Head.Follows journal'.heads ∧
      ∃ head', journal'.heads.find? field = some head' ∧ sequence ≤ head'.sequence := by
  unfold registerField at h
  split at h
  · rename_i hnone
    cases h
    have hset := sets_put journal.heads ⟨field, operation, sequence, 1⟩
    refine ⟨rfl, ?_, _, hset.1, Nat.le_refl _⟩
    intro k head hfind
    have hne : k ≠ field := by
      rintro rfl
      rw [hnone] at hfind
      cases hfind
    exact ⟨head, (hset.2 k hne).trans hfind, .refl head⟩
  · rename_i head hfind
    split at h
    · rename_i hlt
      obtain ⟨-, h⟩ := guard_eq_ok.mp h
      cases h
      have hset := sets_put journal.heads ⟨field, operation, sequence, head.generation + 1⟩
      exact ⟨rfl, hset.grows Head.Follows.refl hfind ⟨Nat.le_of_lt hlt, Nat.le_succ _⟩, _, hset.1,
        Nat.le_refl _⟩
    · rename_i hle
      cases h
      exact ⟨rfl, .refl Head.Follows.refl _, head, hfind, Nat.le_of_not_lt hle⟩

theorem foldlM_registerField_eq_ok
    (h : scope.foldlM (registerField operation sequence) journal = .ok journal') :
    journal' = { journal with heads := journal'.heads } ∧
      journal.heads.Grows Head.Follows journal'.heads ∧
      ∀ field ∈ scope, ∃ head', journal'.heads.find? field = some head' ∧
        sequence ≤ head'.sequence := by
  induction scope generalizing journal with
  | nil =>
    cases h
    exact ⟨rfl, .refl Head.Follows.refl _, fun _ hfield => (nomatch hfield)⟩
  | cons first rest ih =>
    rw [foldlM_cons] at h
    obtain ⟨next, hfirst, hrest⟩ := bind_eq_ok.mp h
    obtain ⟨hframe, hstep, head, hfind, hle⟩ := registerField_eq_ok hfirst
    obtain ⟨hframe', hgrows, hregd⟩ := ih hrest
    refine ⟨?_, hstep.trans (fun _ _ _ hab hbc => hab.trans hbc) hgrows, ?_⟩
    · rw [hframe', hframe]
    · intro field hmem
      rcases mem_cons.mp hmem with rfl | hmem
      · obtain ⟨head', hfind', hfol⟩ := hgrows field head hfind
        exact ⟨head', hfind', hle.trans hfol.sequence⟩
      · exact hregd field hmem

variable {intent intent' : SourceProjectionIntent} {stepId : FactoryDigest}
  {candidate : SourceProjectionCandidate} {isNewerUnknown : Bool}

/-- A registered operation has fields, and the head of each is at its sequence or later. -/
theorem register_eq_ok (h : journal.register intent scope = .ok (journal', intent')) :
    journal' = { journal with heads := journal'.heads } ∧
      journal.heads.Grows Head.Follows journal'.heads ∧
      intent'.operation = intent.operation ∧ intent'.sequence = intent.sequence ∧
      (intent' = intent ∨ intent'.fields = some scope ∧
        ∀ field ∈ scope, ∃ head', journal'.heads.find? field = some head' ∧
          intent.sequence ≤ head'.sequence) := by
  unfold register at h
  split at h
  · cases h
    exact ⟨rfl, .refl Head.Follows.refl _, rfl, rfl, .inl rfl⟩
  · obtain ⟨-, h⟩ := guard_eq_ok.mp h
    obtain ⟨next, hfold, h⟩ := bind_eq_ok.mp h
    cases h
    obtain ⟨hframe, hgrows, hregd⟩ := foldlM_registerField_eq_ok hfold
    exact ⟨hframe, hgrows, rfl, rfl, .inr ⟨rfl, hregd⟩⟩

theorem mem_owned : field ∈ journal.owned intent scope ↔ field ∈ scope ∧
      ∃ head, journal.heads.find? field = some head ∧ head.operation = intent.operation ∧
        head.sequence = intent.sequence := by
  unfold owned
  rw [mem_filter]
  refine and_congr_right fun _ => ?_
  unfold isOwned
  cases journal.heads.find? field <;> simp

theorem mem_view {head : Head} : head ∈ journal.view fields ↔
    head.field ∈ fields ∧ journal.heads.find? head.field = some head := by
  unfold view
  rw [mem_filterMap]
  constructor
  · rintro ⟨field, hfield, hfind⟩
    have hkey := key_of_find? hfind
    subst hkey
    exact ⟨hfield, hfind⟩
  · rintro ⟨hfield, hfind⟩
    exact ⟨head.field, hfield, hfind⟩

/-! ## Permits -/

/-- Whether a step grants or completes a permit on a field. -/
def Touches (journal journal' : SourceProjectionJournal) (field : FactoryDigest) : Prop :=
  ∃ lease, field ∈ lease.fields ∧
    (lease ∈ journal'.leases.rows ∧ lease ∉ journal.leases.rows ∨
      lease ∈ journal.leases.rows ∧ lease ∉ journal'.leases.rows)

/-- Every head moves up, and the head of a touched field to a later generation. -/
structure Moves (journal journal' : SourceProjectionJournal) : Prop where
  grows : journal.heads.Grows Head.Follows journal'.heads
  touched : ∀ field, journal.Touches journal' field → ∀ head,
    journal.heads.find? field = some head →
      ∃ head', journal'.heads.find? field = some head' ∧ head.generation < head'.generation

theorem moves_of_leases (hlses : journal'.leases = journal.leases)
    (hgrows : journal.heads.Grows Head.Follows journal'.heads) : journal.Moves journal' := by
  refine ⟨hgrows, ?_⟩
  rintro field ⟨lease, -, ⟨hnew, hold⟩ | ⟨hold, hnew⟩⟩
  · rw [hlses] at hnew
    exact absurd hnew hold
  · rw [hlses] at hnew
    exact absurd hold hnew

/-- Touching exactly the fields that were advanced. -/
theorem moves_of_advance {advanced : SourceProjectionJournal}
    (hgrows : journal.heads.Grows Head.Follows reg.heads)
    (hadv : reg.advance fields = .ok advanced) (hheads : journal'.heads = advanced.heads)
    (htouches : ∀ field, journal.Touches journal' field → field ∈ fields) :
    journal.Moves journal' := by
  obtain ⟨-, hadvs, hmoved⟩ := advance_eq_ok hadv
  constructor
  · rw [hheads]
    intro k head hfind
    obtain ⟨head₁, hfind₁, hfol⟩ := hgrows k head hfind
    obtain ⟨head₂, hfind₂, hadvanced⟩ := hadvs k head₁ hfind₁
    exact ⟨head₂, hfind₂, hfol.trans hadvanced.follows⟩
  · intro field htouched head hfind
    obtain ⟨head₁, hfind₁, hfol⟩ := hgrows field head hfind
    obtain ⟨head₂, hfind₂, hlt⟩ := hmoved field (htouches field htouched) head₁ hfind₁
    rw [hheads]
    exact ⟨head₂, hfind₂, Nat.lt_of_le_of_lt hfol.generation hlt⟩

theorem finish_moves {isUncertain : Bool}
    (h : journal.finish digests request intent scope stepId isUncertain = .ok journal') :
    journal.Moves journal' := by
  unfold finish at h
  split at h
  · cases h
    exact moves_of_leases rfl (.refl Head.Follows.refl _)
  · rename_i lease hfind
    obtain ⟨-, h⟩ := guard_eq_ok.mp h
    split at h
    · cases h
      exact moves_of_leases rfl (.refl Head.Follows.refl _)
    · have hgrows : journal.heads.Grows Head.Follows
          ({ journal with leases := journal.leases.erase lease.permit } :
            SourceProjectionJournal).heads := .refl Head.Follows.refl _
      refine moves_of_advance hgrows h rfl ?_
      have hlses : journal'.leases = journal.leases.erase lease.permit := by
        rw [(advance_eq_ok h).1]
      rintro field ⟨other, hother, ⟨hnew, hold⟩ | ⟨hold, hnew⟩⟩
      · rw [hlses] at hnew
        exact absurd (mem_erase.mp hnew).1 hold
      · -- The completed permit is the only one that is gone.
        have hsame : other = lease := by
          by_contra hne
          refine hnew ?_
          rw [hlses]
          refine mem_erase.mpr ⟨hold, fun hkey => hne ?_⟩
          exact journal.leases.eq_of_key_eq hold (mem_of_find? hfind) hkey
        rw [← hsame]
        exact hother

/-- A begin is superseded, or it takes a fresh permit on fields it owns. -/
theorem begin_eq_ok (h : journal.begin digests request candidate scope ownedFields stepId fields =
      .ok (journal', state)) :
    journal' = journal ∧ state = .superseded ∨
      ∃ stepFields advanced permit, checkedFields fields false = .ok stepFields ∧
        (∀ field ∈ stepFields, field ∈ ownedFields) ∧ journal.leases.contains permit = false ∧
        journal.advance stepFields = .ok advanced ∧
        journal' = { advanced with
          leases := advanced.leases.put
            ⟨permit, request.operationId, request.claim, stepFields, candidate.deadline⟩ } ∧
        state = .granted permit := by
  obtain ⟨stepFields, hchk, h⟩ := bind_eq_ok.mp h
  obtain ⟨-, h⟩ := guard_eq_ok.mp h
  split at h
  · cases h
    exact .inl ⟨rfl, rfl⟩
  · rename_i howned
    dsimp only at h
    obtain ⟨hfresh, h⟩ := guard_eq_ok.mp h
    obtain ⟨advanced, hadv, h⟩ := bind_eq_ok.mp h
    cases h
    refine .inr ⟨stepFields, advanced, _, hchk, ?_, Bool.not_eq_true _ ▸ hfresh, hadv, rfl, rfl⟩
    intro field hfield
    by_contra hnot
    exact howned ⟨field, hfield, hnot⟩

theorem begin_moves (hreg : reg = { journal with heads := reg.heads })
    (hgrows : journal.heads.Grows Head.Follows reg.heads)
    (h : reg.begin digests request candidate scope ownedFields stepId fields = .ok (journal', state)) :
    journal.Moves journal' := by
  obtain ⟨rfl, -⟩ | ⟨stepFields, advanced, permit, -, -, hfresh, hadv, hlast, -⟩ := begin_eq_ok h
  · exact moves_of_leases (by rw [hreg]) hgrows
  · refine moves_of_advance hgrows hadv (by rw [hlast]) ?_
    have hlses : advanced.leases = journal.leases := by
      rw [(advance_eq_ok hadv).1, hreg]
    have hregLeases : reg.leases = journal.leases := by rw [hreg]
    rw [hregLeases] at hfresh
    rintro field ⟨lease, hfield, ⟨hnew, hold⟩ | ⟨hold, hnew⟩⟩
    · rw [hlast] at hnew
      rcases mem_put.mp hnew with rfl | ⟨hmem, -⟩
      · exact hfield
      · rw [hlses] at hmem
        exact absurd hmem hold
    · -- No permit is dropped: the new one has an identity of its own.
      refine absurd ?_ hnew
      rw [hlast]
      refine mem_put.mpr (.inr ⟨by rw [hlses]; exact hold, fun hkey => ?_⟩)
      rw [(contains_iff _ _).mpr ⟨lease, hold, hkey⟩] at hfresh
      cases hfresh

/-- A read changes nothing and says what it saw; only a begin may write. -/
theorem answer_eq_ok (h : journal.answer digests request candidate intent scope isNewerUnknown =
      .ok (journal', state)) : (journal' = journal ∧ (∀ permit, state ≠ .granted permit) ∧
      ∀ revision isStable observed isQuiescent,
        state = .observation revision isStable observed isQuiescent →
        observed = journal.owned intent scope ∧
          revision = digests.view (journal.view (journal.owned intent scope)) ∧
          (∀ original, request.action = .observe original →
            isStable = true → original = some revision) ∧
          (isQuiescent = true → ∀ lease ∈ journal.leases.rows,
            isHazardous request.operationId (journal.owned intent scope) lease = false)) ∨
      isNewerUnknown = false ∧ ∃ stepId fields, request.action = .begin stepId fields ∧
        journal.begin digests request candidate scope (journal.owned intent scope) stepId fields =
          .ok (journal', state) := by
  unfold answer at h
  dsimp only at h
  split at h
  · cases h
    exact .inl ⟨rfl, fun _ hstate => (nomatch hstate), fun _ _ _ _ hstate => (nomatch hstate)⟩
  · rename_i hknown
    split at h
    · cases h
      exact .inl ⟨rfl, fun _ hstate => (nomatch hstate), fun _ _ _ _ hstate => (nomatch hstate)⟩
    · obtain ⟨-, h⟩ := guard_eq_ok.mp h
      split at h
      · rename_i original hact
        cases h
        refine .inl ⟨rfl, fun _ hstate => (nomatch hstate), ?_⟩
        rintro revision isStable observed isQuiescent hstate
        cases hstate
        refine ⟨rfl, rfl, ?_, ?_⟩
        · rintro other hother hstable
          cases hact.symm.trans hother
          exact of_decide_eq_true hstable
        · intro hquiescent lease hlease
          rw [← Bool.not_eq_true]
          intro hhazard
          have hnone := of_decide_eq_true hquiescent
          exact hnone (any_eq_true.mpr ⟨lease, hlease, hhazard⟩)
      · cases h
        exact .inl ⟨rfl, fun _ hstate => (nomatch hstate), fun _ _ _ _ hstate => (nomatch hstate)⟩
      · rename_i stepId fields hact
        exact .inr ⟨Bool.not_eq_true _ ▸ hknown, stepId, fields, hact, h⟩
      · cases h
        exact .inl ⟨rfl, fun _ hstate => (nomatch hstate), fun _ _ _ _ hstate => (nomatch hstate)⟩

section

variable
  (h : journal.coordinate digests request candidates intent isNewerUnknown = .ok (journal', intent',
    state))

include h

/-- A call completes a permit, or pins the fields of its operation and answers. -/
theorem coordinate_eq_ok : ∃ scope, (intent' = intent ∧ state = .released ∧ ∃ stepId isUncertain,
        journal.finish digests request intent scope stepId isUncertain = .ok journal') ∨
      ∃ candidate reg, journal.register intent scope = .ok (reg, intent') ∧
        reg.answer digests request candidate intent' scope isNewerUnknown = .ok (journal', state) := by
  obtain ⟨scope, -, h⟩ := bind_eq_ok.mp h
  obtain ⟨-, h⟩ := guard_eq_ok.mp h
  obtain ⟨candidate, -, h⟩ := bind_eq_ok.mp h
  refine ⟨scope, ?_⟩
  split at h
  · rename_i stepId isUncertain hact
    obtain ⟨finished, hfin, h⟩ := bind_eq_ok.mp h
    cases h
    exact .inl ⟨rfl, rfl, stepId, isUncertain, hfin⟩
  · obtain ⟨-, h⟩ := guard_eq_ok.mp h
    obtain ⟨⟨reg, pinned⟩, hregr, h⟩ := bind_eq_ok.mp h
    obtain ⟨⟨answered, answerState⟩, hanswer, h⟩ := bind_eq_ok.mp h
    cases h
    exact .inr ⟨candidate, reg, hregr, hanswer⟩

theorem coordinate_moves : journal.Moves journal' := by
  obtain ⟨scope, ⟨-, -, stepId, isUncertain, hfin⟩ | ⟨candidate, reg, hregr, hanswer⟩⟩ :=
    coordinate_eq_ok h
  · exact finish_moves hfin
  · obtain ⟨hreg, hgrows, -⟩ := register_eq_ok hregr
    obtain ⟨rfl, -⟩ | ⟨-, stepId, fields, -, hbegin⟩ := answer_eq_ok hanswer
    · exact moves_of_leases (by rw [hreg]) hgrows
    · exact begin_moves hreg hgrows hbegin

end

end SourceProjectionJournal

open SourceProjectionJournal
theorem mem_checkedFields {checked : List FactoryDigest} {mayBeEmpty : Bool}
    (h : checkedFields fields mayBeEmpty = .ok checked) (field : FactoryDigest) :
    field ∈ checked ↔ field ∈ fields := by
  obtain ⟨-, h⟩ := guard_eq_ok.mp h
  cases h
  exact mem_mergeSort

/-! ## Runs over one item -/

namespace ProjectionItem

variable {digests : ProjectionDigests} {encodedSize : SourceProjectionJournal → Nat}
  {item item' : ProjectionItem}

/-- The head of every pinned field is at the sequence of its operation or later. -/
def Sound (item : ProjectionItem) : Prop :=
  ∀ intent ∈ item.intents.rows, ∀ pinned, intent.fields = some pinned → ∀ field ∈ pinned,
    ∃ head, item.journal.heads.find? field = some head ∧ intent.sequence ≤ head.sequence

theorem coordinate_eq_ok
    (h : item.coordinate digests encodedSize request candidates = .ok (item', state)) :
    ∃ intent intent', item.intents.find? request.operationId = some intent ∧
      item.journal.coordinate digests request candidates intent
        (item.isNewerUnknown intent.sequence) = .ok (item'.journal, intent', state) ∧
      item'.intents = item.intents.put intent' := by
  obtain ⟨intent, hfind, h⟩ := bind_eq_ok.mp h
  obtain ⟨⟨journal, intent', answered⟩, hcoord, h⟩ := bind_eq_ok.mp h
  obtain ⟨-, h⟩ := guard_eq_ok.mp h
  cases h
  exact ⟨intent, intent', okOr_eq_ok.mp hfind, hcoord, rfl⟩

theorem Sound.coordinate (hs : item.Sound)
    (h : item.coordinate digests encodedSize request candidates = .ok (item', state)) :
    item'.Sound := by
  obtain ⟨intent, intent', hfind, hcoord, hintents⟩ := coordinate_eq_ok h
  have hmoves := coordinate_moves hcoord
  -- What the earlier heads give carries over to later ones.
  have hlift : ∀ {sequence field}, (∃ head, item.journal.heads.find? field = some head ∧
      sequence ≤ head.sequence) →
      ∃ head, item'.journal.heads.find? field = some head ∧ sequence ≤ head.sequence := by
    rintro sequence field ⟨head, hhead, hle⟩
    obtain ⟨head', hhead', hfol⟩ := hmoves.grows field head hhead
    exact ⟨head', hhead', hle.trans hfol.sequence⟩
  intro other hother pinned hpinned field hfield
  rw [hintents] at hother
  rcases mem_put.mp hother with rfl | ⟨hold, -⟩
  · obtain ⟨scope, ⟨rfl, -⟩ | ⟨candidate, reg, hregr, hanswer⟩⟩ :=
      SourceProjectionJournal.coordinate_eq_ok hcoord
    · exact hlift (hs _ (mem_of_find? hfind) pinned hpinned field hfield)
    · obtain ⟨hreg, -, -, hseq, rfl | ⟨hnew, hregd⟩⟩ :=
        register_eq_ok hregr
      · exact hlift (hs _ (mem_of_find? hfind) pinned hpinned field hfield)
      · rw [hnew] at hpinned
        cases hpinned
        obtain ⟨head, hhead, hle⟩ := hregd field hfield
        rw [hseq]
        obtain ⟨rfl, -⟩ | ⟨-, stepId, fields, -, hbegin⟩ :=
          answer_eq_ok hanswer
        · exact ⟨head, hhead, hle⟩
        · obtain ⟨head', hhead', hfol⟩ :=
            (begin_moves rfl (.refl Head.Follows.refl _) hbegin).grows
              field head hhead
          exact ⟨head', hhead', hle.trans hfol.sequence⟩
  · exact hlift (hs other hold pinned hpinned field hfield)

theorem Sound.publish (hs : item.Sound) (h : item.publish operation = .ok item') :
    item'.Sound ∧ item'.journal = item.journal := by
  unfold ProjectionItem.publish at h
  split at h
  · cases h
    exact ⟨hs, rfl⟩
  · split at h
    · cases h
      refine ⟨?_, rfl⟩
      intro intent hintent pinned hpinned field hfield
      rcases mem_put.mp hintent with rfl | ⟨hold, -⟩
      · cases hpinned
      · exact hs intent hold pinned hpinned field hfield
    · cases h

theorem step_publish (operation : FactoryDigest) :
    step digests encodedSize item (.publish operation) =
      ((item.publish operation).toOption).getD item := rfl

theorem step_coordinate (request : SourceProjectionRequest)
    (candidates : List SourceProjectionCandidate) :
    step digests encodedSize item (.coordinate request candidates) =
      ((item.coordinate digests encodedSize request candidates).toOption.map (·.1)).getD item := rfl

theorem step_moves (hs : item.Sound) (event : ProjectionEvent) :
    (step digests encodedSize item event).Sound ∧
      item.journal.Moves (step digests encodedSize item event).journal := by
  have hidle : item.journal.Moves item.journal :=
    moves_of_leases rfl (.refl Head.Follows.refl _)
  cases event with
  | publish operation =>
    rw [step_publish]
    cases hpub : item.publish operation with
    | error error => exact ⟨hs, hidle⟩
    | ok next =>
      obtain ⟨hsound, hjournal⟩ := hs.publish hpub
      refine ⟨hsound, ?_⟩
      show item.journal.Moves next.journal
      rw [hjournal]
      exact hidle
  | coordinate request candidates =>
    rw [step_coordinate]
    cases hcoord : item.coordinate digests encodedSize request candidates with
    | error error => exact ⟨hs, hidle⟩
    | ok answered =>
      obtain ⟨next, state⟩ := answered
      obtain ⟨intent, intent', -, hjournal, -⟩ := coordinate_eq_ok hcoord
      exact ⟨hs.coordinate hcoord, coordinate_moves hjournal⟩

theorem run_sound (hs : item.Sound) (events : List ProjectionEvent) :
    (run digests encodedSize item events).Sound := by
  induction events generalizing item with
  | nil => exact hs
  | cons event rest ih => exact ih (step_moves hs event).1

theorem run_grows (hs : item.Sound) (events : List ProjectionEvent) :
    item.journal.heads.Grows Head.Follows (run digests encodedSize item events).journal.heads := by
  induction events generalizing item with
  | nil => exact .refl Head.Follows.refl _
  | cons event rest ih =>
    have hstep : (step digests encodedSize item event).Sound ∧
        item.journal.Moves (step digests encodedSize item event).journal := step_moves hs event
    exact hstep.2.grows.trans (fun _ _ _ hab hbc => hab.trans hbc) (ih hstep.1)

theorem initial_sound : initial.Sound := fun _ hintent => (nomatch hintent)

theorem run_append (events later : List ProjectionEvent) :
    run digests encodedSize item (events ++ later) =
      run digests encodedSize (run digests encodedSize item events) later :=
  foldl_append ..

/-! ## Answers -/

variable {permit : FactoryDigest} {isQuiescent : Bool}

/-- A permit goes to the head of every field of its step, when no later publication is unknown. -/
theorem granted
    (h : item.coordinate digests encodedSize request candidates = .ok (item', .granted permit)) :
    ∃ intent, item.intents.find? request.operationId = some intent ∧
      item.isNewerUnknown intent.sequence = false ∧
      ∃ stepId fields, request.action = .begin stepId fields ∧ ∀ field ∈ fields,
        ∃ head, item'.journal.heads.find? field = some head ∧ head.sequence = intent.sequence := by
  obtain ⟨intent, intent', hfind, hcoord, -⟩ := coordinate_eq_ok h
  obtain ⟨scope, ⟨-, hstate, -⟩ | ⟨candidate, reg, hregr, hanswer⟩⟩ :=
    SourceProjectionJournal.coordinate_eq_ok hcoord
  · cases hstate
  · obtain ⟨-, -, -, hseq, -⟩ := register_eq_ok hregr
    obtain ⟨-, hnot, -⟩ | ⟨hknown, stepId, fields, hact, hbegin⟩ :=
      answer_eq_ok hanswer
    · exact absurd rfl (hnot permit)
    · refine ⟨intent, hfind, hknown, stepId, fields, hact, ?_⟩
      obtain ⟨-, hstate⟩ | ⟨stepFields, advanced, _, hchk, howned, -, hadv, hlast, -⟩ :=
        begin_eq_ok hbegin
      · cases hstate
      · intro field hfield
        have hstep : field ∈ stepFields := (mem_checkedFields hchk field).mpr hfield
        obtain ⟨-, head, hhead, -, hat⟩ :=
          mem_owned.mp (howned field hstep)
        -- Granting moves the head to a later generation of the same publication.
        obtain ⟨-, hgrows, -⟩ := advance_eq_ok hadv
        obtain ⟨head', hhead', hadvs⟩ := hgrows field head hhead
        refine ⟨head', ?_, (hadvs.sequence.trans hat).trans hseq⟩
        rw [hlast]
        exact hhead'

variable {revision : FactoryDigest}

/-- An observation is taken over the fields its operation is the head of. -/
theorem observed {isStable : Bool} (h : item.coordinate digests encodedSize request candidates =
      .ok (item', .observation revision isStable fields isQuiescent)) :
    ∃ intent, item.intents.find? request.operationId = some intent ∧
      (∀ field ∈ fields, ∃ head, item'.journal.heads.find? field = some head ∧
        head.sequence = intent.sequence) ∧ revision = digests.view (item'.journal.view fields) ∧
      (∀ original, request.action = .observe original → isStable = true →
        original = some revision) ∧ (isQuiescent = true → ∀ lease ∈ item'.journal.leases.rows,
        lease.operation ≠ request.operationId → ∀ field ∈ fields, field ∉ lease.fields) := by
  obtain ⟨intent, intent', hfind, hcoord, -⟩ := coordinate_eq_ok h
  obtain ⟨scope, ⟨-, hstate, -⟩ | ⟨candidate, reg, hregr, hanswer⟩⟩ :=
    SourceProjectionJournal.coordinate_eq_ok hcoord
  · cases hstate
  · obtain ⟨-, -, -, hseq, -⟩ := register_eq_ok hregr
    obtain ⟨hsame, -, hobserved⟩ | ⟨-, stepId, begun, -, hbegin⟩ :=
      answer_eq_ok hanswer
    · obtain ⟨hflds, hrevision, hstable, hquiescent⟩ :=
        hobserved revision isStable fields isQuiescent rfl
      rw [← hflds, ← hsame] at hrevision
      rw [← hflds, ← hsame] at hquiescent
      refine ⟨intent, hfind, ?_, hrevision, hstable, ?_⟩
      · intro field hfield
        rw [hflds] at hfield
        obtain ⟨-, head, hhead, -, hat⟩ := mem_owned.mp hfield
        rw [hsame]
        exact ⟨head, hhead, hat.trans hseq⟩
      · intro hquiet lease hlease hother field hfield hcovers
        have hsafe := of_decide_eq_false (hquiescent hquiet lease hlease)
        exact hsafe ⟨hother, field, hcovers, hfield⟩
    · obtain ⟨-, hstate⟩ | ⟨_, _, _, -, -, -, -, -, hstate⟩ :=
        begin_eq_ok hbegin
      · cases hstate
      · cases hstate

/-! ## The order of publications -/

/-- What the journal of an item guarantees from a state on. -/
structure Ordered (digests : ProjectionDigests) (encodedSize : SourceProjectionJournal → Nat)
    (item : ProjectionItem) : Prop where
  /-- The head of a field only moves to a later publication. -/
  heads_grow : ∀ event field head, item.journal.heads.find? field = some head →
    ∃ head', (item.step digests encodedSize event).journal.heads.find? field = some head' ∧
      head.sequence ≤ head'.sequence
  /-- A permit is granted when every later publication is known and names none of its fields. -/
  permits_latest : ∀ request candidates item' permit,
    item.coordinate digests encodedSize request candidates = .ok (item', .granted permit) →
    ∃ intent stepId fields, item.intents.find? request.operationId = some intent ∧
      request.action = .begin stepId fields ∧
      ∀ other ∈ item.intents.rows, intent.sequence < other.sequence →
        ∃ pinned, other.fields = some pinned ∧ ∀ field ∈ fields, field ∉ pinned
  /-- A stable and quiescent read has no earlier write beside it or after it. -/
  reads_fence : ∀ request candidates item' revision fields,
    item.coordinate digests encodedSize request candidates =
      .ok (item', .observation revision true fields true) →
    ∃ intent, item.intents.find? request.operationId = some intent ∧ ∀ field ∈ fields,
      (∀ lease ∈ item'.journal.leases.rows, ∀ earlier,
        item.intents.find? lease.operation = some earlier →
          earlier.sequence < intent.sequence → field ∉ lease.fields) ∧
      ∀ later request' candidates' item'' permit earlier,
        (item'.run digests encodedSize later).coordinate digests encodedSize request' candidates' =
          .ok (item'', .granted permit) →
        (item'.run digests encodedSize later).intents.find? request'.operationId = some earlier →
        earlier.sequence < intent.sequence →
        ∀ stepId stepFields, request'.action = .begin stepId stepFields → field ∉ stepFields
  /-- Between the opening read and the stable one no permit on the fields came or went. -/
  reads_exclude : ∀ request candidates item₀ opening wasStable wasObserved wasQuiescent,
    item.coordinate digests encodedSize request candidates =
      .ok (item₀, .observation opening wasStable wasObserved wasQuiescent) →
    ∀ between request' candidates' item' revision fields isQuiescent,
      request'.action = .observe (some opening) →
      (item₀.run digests encodedSize between).coordinate digests encodedSize request' candidates' =
        .ok (item', .observation revision true fields isQuiescent) →
      ∀ before event after, between = before ++ event :: after → ∀ field ∈ fields,
        ¬ (item₀.run digests encodedSize before).journal.Touches
          (item₀.run digests encodedSize (before ++ [event])).journal field

theorem Sound.permits_latest (hs : item.Sound)
    (h : item.coordinate digests encodedSize request candidates = .ok (item', .granted permit)) :
    ∃ intent stepId fields, item.intents.find? request.operationId = some intent ∧
      request.action = .begin stepId fields ∧
      ∀ other ∈ item.intents.rows, intent.sequence < other.sequence →
        ∃ pinned, other.fields = some pinned ∧ ∀ field ∈ fields, field ∉ pinned := by
  obtain ⟨intent, hfind, hknown, stepId, fields, hact, hheads⟩ := granted h
  obtain ⟨_, _, -, hcoord, -⟩ := coordinate_eq_ok h
  have hmoves := coordinate_moves hcoord
  refine ⟨intent, stepId, fields, hfind, hact, ?_⟩
  intro other hother hlater
  cases hpinned : other.fields with
  | none =>
    -- A later publication without fields blocks the call.
    have hunk : item.isNewerUnknown intent.sequence = true :=
      any_eq_true.mpr ⟨other, hother, decide_eq_true ⟨hlater, hpinned⟩⟩
    rw [hknown] at hunk
    cases hunk
  | some pinned =>
    refine ⟨pinned, rfl, ?_⟩
    intro field hfield hcov
    obtain ⟨head, hhead, hle⟩ := hs other hother pinned hpinned field hcov
    obtain ⟨grown, hgrown, hfol⟩ := hmoves.grows field head hhead
    obtain ⟨head', hhead', hat⟩ := hheads field hfield
    cases hgrown.symm.trans hhead'
    have hup : other.sequence ≤ grown.sequence := hle.trans hfol.sequence
    omega

/-- After a stable and quiescent read no earlier write to its fields is open or begins. -/
theorem Sound.reads_fence (hs : item.Sound)
    (h : item.coordinate digests encodedSize request candidates =
      .ok (item', .observation revision true fields true)) :
    ∃ intent, item.intents.find? request.operationId = some intent ∧ ∀ field ∈ fields,
      (∀ lease ∈ item'.journal.leases.rows, ∀ earlier,
        item.intents.find? lease.operation = some earlier →
          earlier.sequence < intent.sequence → field ∉ lease.fields) ∧
      ∀ later request' candidates' item'' permit earlier,
        (item'.run digests encodedSize later).coordinate digests encodedSize request' candidates' =
          .ok (item'', .granted permit) →
        (item'.run digests encodedSize later).intents.find? request'.operationId = some earlier →
        earlier.sequence < intent.sequence →
        ∀ stepId stepFields, request'.action = .begin stepId stepFields → field ∉ stepFields := by
  obtain ⟨intent, hfind, hheads, -, -, hquiet⟩ := observed h
  refine ⟨intent, hfind, fun field hfield => ⟨?_, ?_⟩⟩
  · intro lease hlease earlier hearl hlt
    refine hquiet rfl lease hlease ?_ field hfield
    intro hsame
    rw [hsame] at hearl
    cases hearl.symm.trans hfind
    exact Nat.lt_irrefl _ hlt
  · intro later request' candidates' item'' permit earlier hgrant hearl hlt stepId stepFields
      hact hcovers
    have hafter : (item'.run digests encodedSize later).Sound := run_sound (hs.coordinate h) later
    obtain ⟨head, hhead, hat⟩ := hheads field hfield
    -- The head stays at this publication or a later one.
    have hgrows : item'.journal.heads.Grows Head.Follows
        (item'.run digests encodedSize later).journal.heads := run_grows (hs.coordinate h) later
    obtain ⟨head₁, hhead₁, hfollows₁⟩ := hgrows field head hhead
    obtain ⟨_, _, -, hcoord, -⟩ := coordinate_eq_ok hgrant
    obtain ⟨head₂, hhead₂, hfollows₂⟩ :=
      (coordinate_moves hcoord).grows field head₁ hhead₁
    -- A permit for an earlier one would need the head to be at that one.
    obtain ⟨granter, hgranter, -, _, granted, hgranted, hgrantedHeads⟩ := granted hgrant
    cases hgranter.symm.trans hearl
    cases hact.symm.trans hgranted
    obtain ⟨head₃, hhead₃, hat₃⟩ := hgrantedHeads field hcovers
    cases hhead₂.symm.trans hhead₃
    have hup : head.sequence ≤ head₂.sequence := hfollows₁.sequence.trans hfollows₂.sequence
    omega

/-- No step between two equal reads changes a permit on their fields. -/
theorem Sound.reads_exclude (hs : item.Sound) {request' : SourceProjectionRequest}
    {candidates' : List SourceProjectionCandidate} {item₀ : ProjectionItem}
    {opening : FactoryDigest} {wasStable wasQuiescent : Bool}
    {wasObserved : List FactoryDigest} {between : List ProjectionEvent}
    (hopening : item.coordinate digests encodedSize request candidates =
      .ok (item₀, .observation opening wasStable wasObserved wasQuiescent))
    (hact : request'.action = .observe (some opening))
    (hclosing : (item₀.run digests encodedSize between).coordinate digests encodedSize request'
      candidates' = .ok (item', .observation revision true fields isQuiescent))
    {before after : List ProjectionEvent} {event : ProjectionEvent}
    (hsplit : between = before ++ event :: after) {field : FactoryDigest} (hfield : field ∈ fields) :
    ¬ (item₀.run digests encodedSize before).journal.Touches
      (item₀.run digests encodedSize (before ++ [event])).journal field := by
  intro htouches
  have hs₀ : item₀.Sound := hs.coordinate hopening
  obtain ⟨_, -, -, hview₀, -, -⟩ := observed hopening
  obtain ⟨_, -, hheads, hview, hstable, -⟩ := observed hclosing
  obtain ⟨head, hhead, -⟩ := hheads field hfield
  -- Both reads name the same heads.
  have hsame : some opening = some revision := hstable _ hact rfl
  have hviews : item₀.journal.view wasObserved = item'.journal.view fields := by
    refine digests.view_injective ?_
    rw [← hview₀, ← hview]
    exact Option.some.inj hsame
  have hkey := key_of_find? hhead
  have hmem : head ∈ item'.journal.view fields := by
    rw [mem_view, hkey]
    exact ⟨hfield, hhead⟩
  rw [← hviews, mem_view, hkey] at hmem
  -- The touching step moves the head on, and nothing moves it back.
  have hgrowsBefore : item₀.journal.heads.Grows Head.Follows
      (item₀.run digests encodedSize before).journal.heads := run_grows hs₀ before
  obtain ⟨head₁, hhead₁, hfollows₁⟩ := hgrowsBefore field head hmem.2
  have hbef : (item₀.run digests encodedSize before).Sound := run_sound hs₀ before
  have hstep : ((item₀.run digests encodedSize before).step digests encodedSize event).Sound ∧
      (item₀.run digests encodedSize before).journal.Moves
        ((item₀.run digests encodedSize before).step digests encodedSize event).journal :=
    step_moves hbef event
  rw [run_append] at htouches
  obtain ⟨head₂, hhead₂, hlt⟩ := hstep.2.touched field htouches head₁ hhead₁
  have hgrowsAfter : ((item₀.run digests encodedSize before).step digests encodedSize
      event).journal.heads.Grows Head.Follows (((item₀.run digests encodedSize before).step digests
        encodedSize event).run digests encodedSize after).journal.heads := run_grows hstep.1 after
  obtain ⟨head₃, hhead₃, hfollows₃⟩ := hgrowsAfter field head₂ hhead₂
  rw [hsplit, run_append] at hclosing
  obtain ⟨_, _, -, hcoord, -⟩ := coordinate_eq_ok hclosing
  obtain ⟨head₄, hhead₄, hfollows₄⟩ :=
    (coordinate_moves hcoord).grows field head₃ hhead₃
  have hlast : head₄ = head := Option.some.inj (hhead₄.symm.trans hhead)
  rw [hlast] at hfollows₄
  have hup := hfollows₁.generation
  have hdown : head₂.generation ≤ head.generation :=
    hfollows₃.generation.trans hfollows₄.generation
  omega

/-- In every state of every run of an item, publication is ordered: an older value never wins. -/
theorem run_orders_publications (digests : ProjectionDigests)
    (encodedSize : SourceProjectionJournal → Nat) (events : List ProjectionEvent) :
    (initial.run digests encodedSize events).Ordered digests encodedSize := by
  have hs : (initial.run digests encodedSize events).Sound := run_sound initial_sound events
  constructor
  · intro event field head hhead
    have hstep : ((initial.run digests encodedSize events).step digests encodedSize event).Sound ∧
        (initial.run digests encodedSize events).journal.Moves
          ((initial.run digests encodedSize events).step digests encodedSize event).journal :=
      step_moves hs event
    obtain ⟨head', hhead', hfol⟩ := hstep.2.grows field head hhead
    exact ⟨head', hhead', hfol.sequence⟩
  · intro request candidates item' permit hgrant
    exact hs.permits_latest hgrant
  · intro request candidates item' revision fields hobservation
    exact hs.reads_fence hobservation
  · intro request candidates item₀ opening wasStable wasObserved wasQuiescent hopening between
      request' candidates' item' revision fields isQuiescent hact hclosing before event after
      hsplit field hfield
    exact hs.reads_exclude hopening hact hclosing hsplit hfield

end ProjectionItem

end OctaCity.Source
