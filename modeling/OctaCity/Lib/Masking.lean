/-
  OctaCity.Lib.Masking

  Parts of a text overwritten in place with one symbol, by a loop that looks for
  the next part behind the last one.

  Main results: `maskLoop_total`, a loop whose rounds advance ends inside the
  text, and `masked_maskPasses`, what it does not overwrite stays.
-/
import OctaCity.Lib.Occurrences

namespace OctaCity.Lib

open List Option

variable {α : Type}

/-! ## Parts -/

/-- The positions from the first one to the one before the last. -/
structure Span where
  first : Nat
  last : Nat

/-- The part is inside a text of this length. -/
def Span.Fits (span : Span) (length : Nat) : Prop := span.first ≤ span.last ∧ span.last ≤ length

instance (span : Span) (length : Nat) : Decidable (span.Fits length) :=
  inferInstanceAs (Decidable (_ ∧ _))

def fill (symbol : α) (span : Span) (text : List α) : List α :=
  text.take span.first ++ (List.replicate (span.last - span.first) symbol ++ text.drop span.last)

variable {span : Span} {fuel offset : Nat} {round : Round}

theorem length_fill {symbol : α} {text : List α} (h : span.Fits text.length) :
    (fill symbol span text).length = text.length := by
  have hfirst := h.1
  have hlast := h.2
  simp only [fill, length_append, length_take, length_replicate, length_drop]
  omega

/-- The symbol stands inside the part, and what was there outside of it. -/
theorem getElem?_fill {symbol : α} {text : List α} (h : span.Fits text.length)
    (i : Nat) : (fill symbol span text)[i]? =
      if span.first ≤ i ∧ i < span.last then some symbol else text[i]? := by
  have hfirst := h.1
  have hlast := h.2
  have htake : (text.take span.first).length = span.first := by
    rw [length_take]
    omega
  by_cases hbef : i < span.first
  · rw [fill, List.getElem?_append_left (by omega), List.getElem?_take, if_pos hbef,
      if_neg (by omega)]
  · rw [fill, List.getElem?_append_right (by omega), htake]
    by_cases hinside : i < span.last
    · rw [List.getElem?_append_left (by rw [length_replicate]; omega),
        List.getElem?_replicate, if_pos (by omega), if_pos (by omega)]
    · rw [List.getElem?_append_right (by rw [length_replicate]; omega),
        length_replicate, List.getElem?_drop, if_neg (by omega)]
      exact congrArg (text[·]?) (by omega)

/-- Nothing changes where the symbol stands already. -/
theorem fill_eq_self {symbol : α} {text : List α} (h : span.Fits text.length)
    (hall : ∀ i, span.first ≤ i → i < span.last → text[i]? = some symbol) :
    fill symbol span text = text := by
  apply ext_getElem?
  intro i
  rw [getElem?_fill h]
  split
  · rename_i hinside
    exact (hall i hinside.1 hinside.2).symm
  · rfl

/-- Every symbol stands where it was or was overwritten. -/
def Masked (symbol : α) (text text' : List α) : Prop :=
  ∀ i : Nat, text'[i]? = text[i]? ∨ text'[i]? = some symbol

theorem Masked.refl (symbol : α) (text : List α) : Masked symbol text text := fun _ => .inl rfl

section

variable {symbol : α} {text middle text' : List α}

theorem Masked.trans (h : Masked symbol text middle) (h' : Masked symbol middle text') :
    Masked symbol text text' := by
  intro i
  obtain hsame | hmasked := h' i
  · rw [hsame]
    exact h i
  · exact .inr hmasked

theorem Masked.getElem? (h : Masked symbol text text') {i : Nat} (hsymbol : text[i]? = some symbol) :
    text'[i]? = some symbol := (h i).elim (·.trans hsymbol) id

/-- An occurrence without the symbol was there before. -/
theorem Masked.occursAt (h : Masked symbol text text') {pattern : List α} (hsymbol : symbol ∉ pattern)
    {x : Nat} (hoccur : OccursAt pattern x text') : OccursAt pattern x text := by
  rw [occursAt_iff_getElem?] at hoccur ⊢
  intro i hi
  obtain hsame | hmasked := h (x + i)
  · rw [← hsame, hoccur i hi]
  · rw [hoccur i hi] at hmasked
    exact absurd (mem_of_getElem? hmasked) hsymbol

theorem masked_fill (h : span.Fits text.length) : Masked symbol text (fill symbol span text) := by
  intro i
  rw [getElem?_fill h]
  split
  · exact .inr rfl
  · exact .inl rfl

end

/-! ## Loops -/

/-- One round of a loop over a text: the part to overwrite, if any, and where the next round
starts to look. -/
structure Round where
  span : Option Span
  next : Nat

/-- Finds the next round.  The inner `none` ends the loop, the outer one is a position outside of
the text. -/
abbrev FindRound (α : Type) := List α → Nat → Option (Option Round)

section Loops

variable (symbol : α)

def Round.apply (round : Round) (text : List α) : Option (List α) :=
  match round.span with
  | none => some text
  | some span => if span.Fits text.length then some (fill symbol span text) else none

variable {symbol} in
theorem Round.apply_some {next : Nat} {text : List α} (h : span.Fits text.length) :
    Round.apply symbol ⟨some span, next⟩ text = some (fill symbol span text) :=
  if_pos h

def maskLoop (find : FindRound α) : Nat → List α → Nat → Option (List α)
  | 0, _, _ => none
  | fuel + 1, text, offset =>
    match find text offset with
    | none => none
    | some none => some text
    | some (some round) =>
      (round.apply symbol text).bind fun text => maskLoop find fuel text round.next

variable {symbol} in
theorem maskLoop_round {find : FindRound α} {text middle : List α}
    (h : find text offset = some (some round)) (happly : round.apply symbol text = some middle) :
    maskLoop symbol find (fuel + 1) text offset = maskLoop symbol find fuel middle round.next := by
  rw [maskLoop, h]
  simp only [happly, bind_some]

end Loops

/-- Rounds stay inside the text, and each starts behind the one before. -/
structure Advances (find : FindRound α) : Prop where
  finds : ∀ text offset, offset ≤ text.length → (find text offset).isSome
  next : ∀ text offset round, offset ≤ text.length → find text offset = some (some round) →
    offset < round.next ∧ round.next ≤ text.length
  span : ∀ text offset round span, offset ≤ text.length → find text offset = some (some round) →
    round.span = some span → offset ≤ span.first ∧ span.first ≤ span.last ∧ span.last ≤ round.next

section Advancing

variable {symbol : α} {find : FindRound α} (hfind : Advances find)

include hfind

variable (symbol) in
/-- What one round of an advancing loop does. -/
theorem Advances.apply {text : List α}
    (hoff : offset ≤ text.length) (h : find text offset = some (some round)) :
    ∃ text', round.apply symbol text = some text' ∧ text'.length = text.length ∧
      Masked symbol text text' := by
  have hnext := (hfind.next text offset round hoff h).2
  cases hspan : round.span with
  | none => exact ⟨text, by rw [Round.apply, hspan], rfl, Masked.refl symbol text⟩
  | some span =>
    obtain ⟨-, horder, hlast⟩ := hfind.span text offset round span hoff h hspan
    have hfits : span.Fits text.length := ⟨horder, by omega⟩
    refine ⟨fill symbol span text, ?_, length_fill hfits, masked_fill hfits⟩
    rw [Round.apply, hspan]
    exact if_pos hfits

/-- A loop either ends or does a round and goes on behind it. -/
theorem Advances.maskLoop_cases {text text' : List α} (hoff : offset ≤ text.length)
    (h : maskLoop symbol find (fuel + 1) text offset = some text') :
    (find text offset = some none ∧ text' = text) ∨
      ∃ round middle, find text offset = some (some round) ∧
        round.apply symbol text = some middle ∧ middle.length = text.length ∧
        maskLoop symbol find fuel middle round.next = some text' := by
  rw [maskLoop] at h
  cases hround : find text offset with
  | none =>
    rw [hround] at h
    cases h
  | some next =>
    rw [hround] at h
    cases next with
    | none =>
      cases h
      exact .inl ⟨rfl, rfl⟩
    | some round =>
      obtain ⟨middle, happly, hlen, -⟩ := hfind.apply symbol hoff hround
      refine .inr ⟨round, middle, rfl, happly, hlen, ?_⟩
      simpa only [happly, bind_some] using h

/-- The loop ends, with any fuel above the length of the rest. -/
theorem maskLoop_total {text : List α} (hoff : offset ≤ text.length)
    (hfuel : text.length < offset + fuel) :
    ∃ text', maskLoop symbol find fuel text offset = some text' ∧ text'.length = text.length := by
  induction fuel generalizing text offset with
  | zero => omega
  | succ fuel ih =>
    obtain ⟨next, hround⟩ := isSome_iff_exists.mp (hfind.finds text offset hoff)
    cases next with
    | none => exact ⟨text, by rw [maskLoop, hround], rfl⟩
    | some round =>
      obtain ⟨middle, happly, hlen, -⟩ := hfind.apply symbol hoff hround
      obtain ⟨hnext, hinside⟩ := hfind.next text offset round hoff hround
      obtain ⟨text', hloop, hlen'⟩ : ∃ text',
          maskLoop symbol find fuel middle round.next = some text' ∧
            text'.length = middle.length := ih (by omega) (by omega)
      exact ⟨text', (maskLoop_round hround happly).trans hloop, by omega⟩

/-- What the loop does not overwrite stays. -/
theorem masked_maskLoop {text text' : List α} (hoff : offset ≤ text.length)
    (h : maskLoop symbol find fuel text offset = some text') : Masked symbol text text' := by
  induction fuel generalizing text offset with
  | zero => cases h
  | succ fuel ih =>
    rcases hfind.maskLoop_cases hoff h with
      ⟨-, rfl⟩ | ⟨round, middle, hround, happly, hlen, hloop⟩
    · exact Masked.refl symbol _
    · obtain ⟨text₁, happly₁, -, hmasked⟩ := hfind.apply symbol hoff hround
      have hinside := (hfind.next text offset round hoff hround).2
      cases happly.symm.trans happly₁
      exact hmasked.trans (ih (by omega) hloop)

end Advancing

/-! ## Passes -/

section Passes

variable (symbol : α)

/-- One loop over the whole text. -/
def maskPass (find : FindRound α) (text : List α) : Option (List α) :=
  maskLoop symbol find (text.length + 1) text 0

def maskPasses : List (FindRound α) → List α → Option (List α)
  | [], text => some text
  | find :: finds, text => (maskPass symbol find text).bind (maskPasses finds)

end Passes

section

variable {symbol : α} {finds finds' : List (FindRound α)}

theorem maskPass_total {find : FindRound α} (hfind : Advances find) (text : List α) :
    ∃ text', maskPass symbol find text = some text' ∧ text'.length = text.length :=
  maskLoop_total hfind (Nat.zero_le _) (by omega)

theorem maskPasses_total (hfinds : ∀ find ∈ finds, Advances find) (text : List α) :
    ∃ text', maskPasses symbol finds text = some text' ∧ text'.length = text.length := by
  induction finds generalizing text with
  | nil => exact ⟨text, rfl, rfl⟩
  | cons find finds ih =>
    obtain ⟨middle, hpass, hlen⟩ :=
      maskPass_total (hfinds find mem_cons_self) text
    obtain ⟨text', hpasses, hlen'⟩ :=
      ih (fun find hmem => hfinds find (mem_cons_of_mem _ hmem)) middle
    exact ⟨text', by rw [maskPasses, hpass, bind_some, hpasses], hlen'.trans hlen⟩

theorem maskPasses_append (text : List α) : maskPasses symbol (finds ++ finds') text =
      (maskPasses symbol finds text).bind (maskPasses symbol finds') := by
  induction finds generalizing text with
  | nil => rfl
  | cons find finds ih =>
    rw [cons_append, maskPasses, maskPasses, bind_assoc]
    exact congrArg _ (funext ih)

theorem masked_maskPasses (hfinds : ∀ find ∈ finds, Advances find) {text text' : List α}
    (h : maskPasses symbol finds text = some text') : Masked symbol text text' := by
  induction finds generalizing text with
  | nil =>
    cases h
    exact Masked.refl symbol _
  | cons find finds ih =>
    rw [maskPasses] at h
    obtain ⟨middle, hpass, h⟩ := bind_eq_some_iff.mp h
    exact (masked_maskLoop (hfinds find mem_cons_self) (Nat.zero_le _) hpass).trans
      (ih (fun find hmem => hfinds find (mem_cons_of_mem _ hmem)) h)

end

end OctaCity.Lib
