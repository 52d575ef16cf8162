/-
  OctaCity.Lib.PrefixAutomaton

  The Knuth-Morris-Pratt automaton of one pattern.  Its state is the length of
  the longest prefix of the pattern that the text read so far ends with.  The
  transition indexes the pattern and the prefix table, so both are optional: a
  missing entry is an index past the end.
-/
import Mathlib.Data.List.Infix
import Mathlib.Data.Nat.Find

namespace OctaCity.Lib

open List

variable {α : Type} [DecidableEq α]

/-- Length of the longest prefix of `pattern` that `text` ends with. -/
def prefixLength (pattern text : List α) : Nat :=
  Nat.findGreatest (fun k => pattern.take k <:+ text) pattern.length

section PrefixLength

variable {pattern text : List α} {k m : Nat}

theorem prefixLength_le : prefixLength pattern text ≤ pattern.length :=
  Nat.findGreatest_le _

theorem take_prefixLength_suffix (pattern text : List α) :
    pattern.take (prefixLength pattern text) <:+ text :=
  Nat.findGreatest_spec (P := fun k => pattern.take k <:+ text) (Nat.zero_le _)
    (by simp)

theorem le_prefixLength (hk : k ≤ pattern.length) (h : pattern.take k <:+ text) :
    k ≤ prefixLength pattern text :=
  Nat.le_findGreatest hk h

theorem prefixLength_eq (hm : m ≤ pattern.length) (h : pattern.take m <:+ text)
    (hmax : ∀ k ≤ pattern.length, pattern.take k <:+ text → k ≤ m) :
    prefixLength pattern text = m :=
  le_antisymm (hmax _ prefixLength_le (take_prefixLength_suffix pattern text)) (le_prefixLength hm h)

/-- A prefix the text ends with is no longer than the text. -/
theorem prefixLength_le_text (pattern text : List α) : prefixLength pattern text ≤ text.length := by
  have hlen := (take_prefixLength_suffix pattern text).length_le
  rw [length_take, min_eq_left prefixLength_le] at hlen
  exact hlen

@[simp]
theorem prefixLength_nil : prefixLength pattern [] = 0 :=
  Nat.le_zero.mp (prefixLength_le_text pattern [])

/-- The whole pattern is matched exactly when the text ends with it. -/
theorem prefixLength_eq_length : prefixLength pattern text = pattern.length ↔ pattern <:+ text := by
  constructor
  · intro h
    have hsuf := take_prefixLength_suffix pattern text
    rwa [h, take_length] at hsuf
  · intro h
    exact le_antisymm prefixLength_le (le_prefixLength le_rfl (by rwa [take_length]))

omit [DecidableEq α] in
/-- A longer match extends a match by the byte read. -/
theorem take_succ_suffix_concat {byte : α} (hk : k < pattern.length) :
    pattern.take (k + 1) <:+ text ++ [byte] ↔
      pattern.take k <:+ text ∧ pattern[k]? = some byte := by
  rw [take_add_one, List.getElem?_eq_getElem hk, Option.toList_some]
  constructor
  · rintro ⟨before, hbef⟩
    rw [← append_assoc] at hbef
    obtain ⟨htext, hbyte⟩ := append_inj' hbef rfl
    exact ⟨⟨before, htext⟩, by simpa using hbyte⟩
  · rintro ⟨⟨before, rfl⟩, hbyte⟩
    rw [Option.some.inj hbyte]
    exact ⟨before, by rw [append_assoc]⟩

end PrefixLength

/-! ## Borders -/

/-- Longest proper border of the prefix of length `m`. -/
def borderLength (pattern : List α) (m : Nat) : Nat :=
  prefixLength pattern (pattern.take m).tail

section Borders

variable {pattern text : List α} {k m : Nat}

theorem borderLength_lt (pattern : List α) (hm : 0 < m) : borderLength pattern m < m := by
  have hle := prefixLength_le_text pattern (pattern.take m).tail
  rw [length_tail, length_take] at hle
  unfold borderLength
  omega

theorem take_borderLength_suffix (htext : pattern.take m <:+ text) :
    pattern.take (borderLength pattern m) <:+ text :=
  ((take_prefixLength_suffix _ _).trans (tail_suffix _)).trans htext

/-- Every match shorter than `m` is a border of the prefix of length `m`. -/
theorem le_borderLength (hm : m ≤ pattern.length) (htext : pattern.take m <:+ text)
    (hk : k < m) (hsuf : pattern.take k <:+ text) : k ≤ borderLength pattern m := by
  refine le_prefixLength (hk.le.trans hm) (suffix_of_suffix_length_le hsuf
    ((tail_suffix _).trans htext) ?_)
  rw [length_tail, length_take, length_take]
  omega

end Borders

/-! ## The transition -/

/-- `while state > 0 && byte != pattern[state] { state = table[state - 1]; }`,
    which takes at most `state` rounds. -/
def fallBack (pattern : List α) (table : List Nat) (byte : α) : Nat → Nat → Option Nat
  | 0, state => some state
  | fuel + 1, state =>
    if 0 < state then do
      let expected ← pattern[state]?
      if byte ≠ expected then do
        let shorter ← table[state - 1]?
        fallBack pattern table byte fuel shorter
      else some state
    else some state

def advancePrefix (state : Nat) (byte : α) (pattern : List α) (table : List Nat) : Option Nat := do
  let state ← fallBack pattern table byte state state
  let expected ← pattern[state]?
  some (if byte = expected then state + 1 else state)

/-- The first `bound` entries of a prefix table hold the border lengths. -/
def TableUpTo (pattern : List α) (table : List Nat) (bound : Nat) : Prop :=
  ∀ i < bound, table[i]? = some (borderLength pattern (i + 1))

theorem TableUpTo.mono {pattern : List α} {table : List Nat} {bound bound' : Nat}
    (h : TableUpTo pattern table bound) (hle : bound' ≤ bound) : TableUpTo pattern table bound' :=
  fun i hi => h i (hi.trans_le hle)

section Transition

variable {pattern text : List α} {table : List Nat} {byte : α}

/-- Falling back stops at the longest match that the byte extends, or at zero. -/
theorem fallBack_spec {fuel state : Nat} (hfuel : state ≤ fuel) (hstate : state < pattern.length)
    (htable : TableUpTo pattern table state) (htext : pattern.take state <:+ text)
    (hmax : ∀ k < pattern.length, pattern.take k <:+ text → pattern[k]? = some byte → k ≤ state) :
    ∃ s ≤ state, fallBack pattern table byte fuel state = some s ∧ pattern.take s <:+ text ∧
      (s = 0 ∨ pattern[s]? = some byte) ∧
      ∀ k < pattern.length, pattern.take k <:+ text → pattern[k]? = some byte → k ≤ s := by
  induction fuel generalizing state with
  | zero =>
    have hzero : state = 0 := Nat.le_zero.mp hfuel
    exact ⟨state, le_rfl, rfl, htext, Or.inl hzero, hmax⟩
  | succ fuel ih =>
    by_cases hpos : 0 < state
    · have hexp : pattern[state]? = some pattern[state] := List.getElem?_eq_getElem hstate
      by_cases hbyte : byte = pattern[state]
      · refine ⟨state, le_rfl, ?_, htext, Or.inr (by rw [hexp, hbyte]), hmax⟩
        rw [fallBack, if_pos hpos, hexp]
        exact if_neg (not_not_intro hbyte)
      · -- The byte does not extend this match, so only shorter ones remain.
        have hlt := borderLength_lt pattern hpos
        have hentry : table[state - 1]? = some (borderLength pattern state) := by
          have := htable (state - 1) (by omega)
          rwa [Nat.sub_add_cancel hpos] at this
        have hmax' : ∀ k < pattern.length, pattern.take k <:+ text → pattern[k]? = some byte →
            k ≤ borderLength pattern state := by
          intro k hk hsuf hkbyte
          have hne : k ≠ state := by
            rintro rfl
            rw [hexp] at hkbyte
            exact hbyte (Option.some.inj hkbyte).symm
          exact le_borderLength hstate.le htext
            (lt_of_le_of_ne (hmax k hk hsuf hkbyte) hne) hsuf
        obtain ⟨s, hs, hok, hrest⟩ := ih (by omega) (hlt.trans hstate) (htable.mono hlt.le)
          (take_borderLength_suffix htext) hmax'
        refine ⟨s, hs.trans hlt.le, ?_, hrest⟩
        rw [fallBack, if_pos hpos, hexp]
        show (if byte ≠ pattern[state] then _ else _) = _
        rw [if_pos hbyte, hentry]
        exact hok
    · refine ⟨state, le_rfl, ?_, htext, Or.inl (by omega), hmax⟩
      rw [fallBack, if_neg hpos]

/-- One byte takes the automaton from the longest match of the text to the longest
    match of the extended text, and indexes neither list past its end. -/
theorem advancePrefix_eq (hstate : prefixLength pattern text < pattern.length)
    (htable : TableUpTo pattern table (prefixLength pattern text)) :
    advancePrefix (prefixLength pattern text) byte pattern table =
      some (prefixLength pattern (text ++ [byte])) := by
  have hlongest : ∀ k < pattern.length, pattern.take k <:+ text → pattern[k]? = some byte →
      k ≤ prefixLength pattern text := fun k hk hsuf _ => le_prefixLength hk.le hsuf
  obtain ⟨s, hs, hok, hsuf, hstop, hmax⟩ := fallBack_spec le_rfl hstate htable
    (take_prefixLength_suffix pattern text) hlongest
  have hlt : s < pattern.length := hs.trans_lt hstate
  have hexp : pattern[s]? = some pattern[s] := List.getElem?_eq_getElem hlt
  have hadv : advancePrefix (prefixLength pattern text) byte pattern table =
      some (if byte = pattern[s] then s + 1 else s) := by
    unfold advancePrefix
    rw [hok]
    show (pattern[s]?.bind _) = _
    rw [hexp]
    rfl
  rw [hadv]
  by_cases hbyte : byte = pattern[s]
  · rw [if_pos hbyte]
    refine congrArg some (prefixLength_eq hlt ?_ ?_).symm
    · exact (take_succ_suffix_concat hlt).mpr ⟨hsuf, by rw [hexp, hbyte]⟩
    · intro k hk hk'
      cases k with
      | zero => exact Nat.zero_le _
      | succ k =>
        obtain ⟨hksuffix, hkbyte⟩ := (take_succ_suffix_concat hk).mp hk'
        exact Nat.succ_le_succ (hmax k hk hksuffix hkbyte)
  · rw [if_neg hbyte]
    -- No match is extended, not even the empty one.
    have hzero : s = 0 := by
      rcases hstop with hzero | hsame
      · exact hzero
      · rw [hexp] at hsame
        exact absurd (Option.some.inj hsame).symm hbyte
    refine congrArg some (prefixLength_eq hlt.le (by simp [hzero]) ?_).symm
    intro k hk hk'
    cases k with
    | zero => exact Nat.zero_le _
    | succ k =>
      obtain ⟨hksuffix, hkbyte⟩ := (take_succ_suffix_concat hk).mp hk'
      have hkzero : k = s := le_antisymm (hmax k hk hksuffix hkbyte) (by omega)
      rw [hkzero, hexp] at hkbyte
      exact absurd (Option.some.inj hkbyte).symm hbyte

end Transition

/-! ## The prefix table -/

/-- One round of the table loop; its inner loop is the transition's. -/
def prefixTableStep (pattern : List α) (state : List Nat × Nat) (index : Nat) :
    Option (List Nat × Nat) := do
  let byte ← pattern[index]?
  let matched ← advancePrefix state.2 byte pattern state.1
  some (state.1.set index matched, matched)

def prefixTable (pattern : List α) : Option (List Nat) := do
  let (table, _) ← (List.range' 1 (pattern.length - 1)).foldlM (prefixTableStep pattern)
    (List.replicate pattern.length 0, 0)
  some table

section Table

variable {pattern : List α}

theorem borderLength_succ {index : Nat} (hpos : 0 < index) (hindex : index < pattern.length) :
    borderLength pattern (index + 1) =
      prefixLength pattern ((pattern.take index).tail ++ [pattern[index]]) := by
  have hne : pattern.take index ≠ [] := by
    rw [ne_eq, take_eq_nil_iff, not_or]
    exact ⟨by omega, ne_nil_of_length_pos (by omega)⟩
  unfold borderLength
  rw [take_add_one, List.getElem?_eq_getElem hindex, Option.toList_some,
    tail_append_of_ne_nil hne]

theorem prefixTableLoop_spec {count first : Nat} {table : List Nat}
    (hfirst : 0 < first) (hcount : first + count ≤ pattern.length)
    (hlen : table.length = pattern.length) (htable : TableUpTo pattern table first) :
    ∃ table' matched, (List.range' first count).foldlM (prefixTableStep pattern)
        (table, borderLength pattern first) = some (table', matched) ∧
      table'.length = pattern.length ∧ TableUpTo pattern table' (first + count) := by
  induction count generalizing first table with
  | zero => exact ⟨table, _, rfl, hlen, htable⟩
  | succ count ih =>
    have hindex : first < pattern.length := by omega
    have hshort := borderLength_lt pattern hfirst
    have hadv : advancePrefix (borderLength pattern first) pattern[first] pattern table =
        some (borderLength pattern (first + 1)) := by
      rw [borderLength_succ hfirst hindex]
      exact advancePrefix_eq (hshort.trans hindex) (htable.mono hshort.le)
    have hstep : prefixTableStep pattern (table, borderLength pattern first) first =
        some (table.set first (borderLength pattern (first + 1)),
          borderLength pattern (first + 1)) := by
      unfold prefixTableStep
      rw [List.getElem?_eq_getElem hindex]
      show (advancePrefix (borderLength pattern first) pattern[first] pattern table).bind _ = _
      rw [hadv]
      rfl
    have hnext : TableUpTo pattern (table.set first (borderLength pattern (first + 1)))
        (first + 1) := by
      intro i hi
      rcases Nat.lt_succ_iff_lt_or_eq.mp hi with hlt | heq
      · rw [List.getElem?_set_ne (by omega)]
        exact htable i hlt
      · rw [heq, List.getElem?_set_self (by omega)]
    obtain ⟨table', matched, hok, hlen', htable'⟩ :=
      ih (Nat.succ_pos first) (by omega) (by rw [length_set, hlen]) hnext
    refine ⟨table', matched, ?_, hlen', htable'.mono (by omega)⟩
    rw [List.range'_succ, foldlM_cons, hstep]
    exact hok

/-- The table loop succeeds and fills in every border length. -/
theorem prefixTable_spec (hne : pattern ≠ []) :
    ∃ table, prefixTable pattern = some table ∧ TableUpTo pattern table pattern.length := by
  have hpos : 0 < pattern.length := length_pos_of_ne_nil hne
  have hborder : borderLength pattern 1 = 0 :=
    Nat.lt_one_iff.mp (borderLength_lt pattern Nat.one_pos)
  have hzero : TableUpTo pattern (List.replicate pattern.length 0) 1 := by
    intro i hi
    rw [Nat.lt_one_iff.mp hi, hborder, List.getElem?_replicate_of_lt hpos]
  have hcount : 1 + (pattern.length - 1) ≤ pattern.length := by omega
  obtain ⟨table, matched, hok, -, htable⟩ :=
    prefixTableLoop_spec Nat.one_pos hcount length_replicate hzero
  rw [hborder] at hok
  refine ⟨table, ?_, htable.mono (by omega)⟩
  unfold prefixTable
  rw [hok]
  rfl

end Table

/-! ## Texts without a pattern -/

/-- No pattern occurs in the text. -/
def Avoids (patterns : List (List α)) (text : List α) : Prop :=
  ∀ pattern ∈ patterns, ¬ pattern <:+: text

instance (patterns : List (List α)) (text : List α) : Decidable (Avoids patterns text) :=
  inferInstanceAs (Decidable (∀ pattern ∈ patterns, ¬ pattern <:+: text))

/-- The text ends with no started pattern. -/
def Unstarted (patterns : List (List α)) (text : List α) : Prop :=
  ∀ pattern ∈ patterns, prefixLength pattern text = 0

section Avoids

variable {patterns : List (List α)} {text later : List α}

omit [DecidableEq α] in
theorem Avoids.of_part (h : Avoids patterns text) (hpart : later <:+: text) :
    Avoids patterns later :=
  fun pattern hpat hmem => h pattern hpat (hmem.trans hpart)

omit [DecidableEq α] in
theorem avoids_nil (hne : ∀ pattern ∈ patterns, pattern ≠ []) : Avoids patterns [] :=
  fun pattern hpat h => hne pattern hpat (infix_nil.mp h)

omit [DecidableEq α] in
/-- One more element brings in a pattern only at the end. -/
theorem avoids_concat_iff {a : α} : Avoids patterns (text ++ [a]) ↔
      Avoids patterns text ∧ ∀ pattern ∈ patterns, ¬ pattern <:+ text ++ [a] := by
  constructor
  · intro h
    exact ⟨h.of_part (prefix_append text [a]).isInfix,
      fun pattern hpat hsuf => h pattern hpat hsuf.isInfix⟩
  · rintro ⟨htext, hend⟩ pattern hpat hpart
    rcases infix_concat_iff.mp hpart with hsuf | hpart
    · exact hend pattern hpat hsuf
    · exact htext pattern hpat hpart

theorem unstarted_nil : Unstarted patterns [] :=
  fun _ _ => prefixLength_nil

/-- A non-empty suffix of an unstarted text is no prefix of a pattern. -/
theorem Unstarted.eq_nil (h : Unstarted patterns text) {pattern before after : List α}
    (hpat : pattern ∈ patterns) (hsplit : pattern = before ++ after)
    (hsuf : before <:+ text) : before = [] := by
  have htake : pattern.take before.length = before := by
    rw [hsplit, take_left]
  have hlen : before.length ≤ pattern.length := by
    rw [hsplit, length_append]
    exact Nat.le_add_right _ _
  have hle : before.length ≤ prefixLength pattern text :=
    le_prefixLength hlen (by rw [htake]; exact hsuf)
  rw [h pattern hpat] at hle
  exact eq_nil_of_length_eq_zero (Nat.le_zero.mp hle)

/-- A pattern can only join two texts if the first ends with its start. -/
theorem Avoids.append (htext : Avoids patterns text)
    (hend : Unstarted patterns text) (hlater : Avoids patterns later) :
    Avoids patterns (text ++ later) := by
  intro pattern hpat hpart
  rcases infix_append_iff.mp hpart with hpart | hpart | ⟨before, after, hsplit, hb, ha⟩
  · exact htext pattern hpat hpart
  · exact hlater pattern hpat hpart
  · have hnil := hend.eq_nil hpat hsplit hb
    rw [hnil, nil_append] at hsplit
    exact hlater pattern hpat (hsplit ▸ ha.isInfix)

theorem Unstarted.append (htext : Unstarted patterns text) (hlater : Unstarted patterns later) :
    Unstarted patterns (text ++ later) := by
  intro pattern hpat
  have hsuf := take_prefixLength_suffix pattern (text ++ later)
  have hsplit := (take_append_drop (prefixLength pattern (text ++ later)) pattern).symm
  have hnil : pattern.take (prefixLength pattern (text ++ later)) = [] := by
    rcases suffix_or_suffix_of_suffix hsuf (suffix_append text later) with hin | hout
    · exact hlater.eq_nil hpat hsplit hin
    · -- The match covers `later` and begins in `text`.
      obtain ⟨before, hbef⟩ := hout
      rw [← hbef] at hsuf hsplit
      obtain ⟨front, hfront⟩ := hsuf
      rw [← append_assoc] at hfront
      have hbeforeSuffix : before <:+ text := ⟨front, append_cancel_right hfront⟩
      have hbeforeNil := htext.eq_nil hpat (hsplit.trans (append_assoc _ _ _)) hbeforeSuffix
      rw [hbeforeNil, nil_append] at hbef hsplit
      rw [← hbef]
      exact hlater.eq_nil hpat hsplit suffix_rfl
  have hlen := congrArg List.length hnil
  rw [length_take, min_eq_left prefixLength_le] at hlen
  exact hlen

end Avoids

end OctaCity.Lib
