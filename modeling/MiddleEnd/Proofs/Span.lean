import Mathlib.Data.Prod.Lex
import Mathlib.Tactic.Order
import MiddleEnd.Span

/-!
Merged spans. Merging takes the first of two starts and the last of two ends in reading order, and
where two of them share their line and column, that of the second span. So it is associative and
idempotent, and covers both spans in reading order. Offsets are never compared: spans that are known
by line and column can be merged in either order, but of two spans that are known by their offsets
the second one is all that remains.
-/

namespace MiddleEnd

namespace Location

/-- Line and column, in the order in which they are read. -/
def place (a : Location) : ℕ ×ₗ ℕ := toLex (a.line, a.column)

/-- No later in reading order. -/
def UpTo (a b : Location) : Prop := ¬b.Precedes a

instance (a b : Location) : Decidable (a.UpTo b) := inferInstanceAs (Decidable (¬_))

lemma precedes_iff {a b : Location} : a.Precedes b ↔ a.place < b.place := by
  rw [place, place, Prod.Lex.toLex_lt_toLex]
  rfl

lemma upTo_iff {a b : Location} : a.UpTo b ↔ a.place ≤ b.place := by
  rw [UpTo, precedes_iff, not_lt]

section Choose

variable {α : Type} [LinearOrder α] (rank : Location → α) {a b : Location}

/-- The position of lower rank, or the second one if both have the same. -/
def choose (a b : Location) : Location := if rank a < rank b then a else b

lemma choose_eq_or (a b : Location) : choose rank a b = a ∨ choose rank a b = b :=
  ite_eq_or_eq _ _ _

lemma rank_choose (a b : Location) : rank (choose rank a b) = min (rank a) (rank b) := by
  unfold choose
  split
  · rw [min_eq_left (by order)]
  · rw [min_eq_right (by order)]

/-- Of several positions of the lowest rank the one that comes last is chosen, however they are
grouped. -/
lemma choose_assoc (a b c : Location) :
    choose rank (choose rank a b) c = choose rank a (choose rank b c) := by
  rcases lt_or_ge (rank a) (rank b) with hab | hab <;>
    rcases lt_or_ge (rank b) (rank c) with hbc | hbc
  · simp [choose, hab, hbc, hab.trans hbc]
  · simp [choose, hab, hbc.not_gt]
  · simp [choose, hab.not_gt, hbc]
  · simp [choose, hab.not_gt, hbc.not_gt, (hbc.trans hab).not_gt]

/-- The order of two positions matters only if they have one rank. -/
lemma choose_comm_iff : choose rank a b = choose rank b a ↔ (rank a = rank b → a = b) := by
  rcases lt_trichotomy (rank a) (rank b) with h | h | h
  · simp [choose, h, h.not_gt, h.ne]
  · simp [choose, h, eq_comm]
  · simp [choose, h, h.not_gt, h.ne']

end Choose

end Location

namespace Span

open Location OrderDual

variable {a b : Span}

/-- The span reaches from no later than the start of the other to no earlier than its end. -/
structure Covers (s a : Span) : Prop where
  start : s.start.UpTo a.start
  stop : a.stop.UpTo s.stop

structure CoversBytes (s a : Span) : Prop where
  start : s.start.offset ≤ a.start.offset
  stop : a.stop.offset ≤ s.stop.offset

/-- The span is known by line and column. -/
def Positioned (s : Span) : Prop :=
  ∃ line column line2 column2, s = ofPositions line column line2 column2

lemma positioned_iff : a.Positioned ↔ a.start.offset = 0 ∧ a.stop.offset = 0 := by
  constructor
  · rintro ⟨line, column, line2, column2, rfl⟩
    exact ⟨rfl, rfl⟩
  · obtain ⟨⟨line, column, offset⟩, ⟨line2, column2, offset2⟩⟩ := a
    rintro ⟨rfl, rfl⟩
    exact ⟨line, column, line2, column2, rfl⟩

/-- For the end of a span the order is turned around. -/
lemma merge_eq (a b : Span) :
    a.merge b = ⟨choose place a.start b.start, choose (toDual ∘ place) a.stop b.stop⟩ := by
  simp only [merge, choose, precedes_iff, Function.comp_apply, toDual_lt_toDual]

lemma covers_merge (a b : Span) : (a.merge b).Covers a ∧ (a.merge b).Covers b := by
  have hstart := rank_choose place a.start b.start
  have hstop : (choose (toDual ∘ place) a.stop b.stop).place = max a.stop.place b.stop.place :=
    rank_choose (toDual ∘ place) a.stop b.stop
  rw [merge_eq]
  refine ⟨⟨?_, ?_⟩, ⟨?_, ?_⟩⟩ <;> rw [upTo_iff] <;> simp [hstart, hstop]

/-- A merged span is in order if one of the spans is. -/
lemma merge_ordered (ha : a.start.UpTo a.stop) : (a.merge b).start.UpTo (a.merge b).stop := by
  obtain ⟨hstart, hstop⟩ := (covers_merge a b).1
  rw [upTo_iff] at *
  exact (hstart.trans ha).trans hstop

lemma merge_comm_iff : a.merge b = b.merge a ↔
    (a.start.place = b.start.place → a.start = b.start) ∧
      (a.stop.place = b.stop.place → a.stop = b.stop) := by
  rw [merge_eq, merge_eq, Span.mk.injEq, choose_comm_iff, choose_comm_iff]
  rfl

lemma Positioned.merge (ha : a.Positioned) (hb : b.Positioned) : (a.merge b).Positioned := by
  rw [positioned_iff] at *
  rw [merge_eq]
  constructor
  · rcases choose_eq_or place a.start b.start with h | h <;> simp only [h, ha, hb]
  · rcases choose_eq_or (toDual ∘ place) a.stop b.stop with h | h <;> simp only [h, ha, hb]

/-- Positions without offsets are the same if their places are. -/
lemma Positioned.merge_comm (ha : a.Positioned) (hb : b.Positioned) : a.merge b = b.merge a := by
  obtain ⟨l, c, l', c', rfl⟩ := ha
  obtain ⟨m, d, m', d', rfl⟩ := hb
  rw [merge_comm_iff]
  simp [ofPositions, place]

lemma Positioned.coversBytes (ha : a.Positioned) (hb : b.Positioned) : a.CoversBytes b := by
  rw [positioned_iff] at *
  exact ⟨by omega, by omega⟩

/-- All offsets stand at one place, and the second span is taken. -/
lemma merge_ofOffsets (s e s' e' : ℕ) :
    (ofOffsets s e).merge (ofOffsets s' e') = ofOffsets s' e' := by
  simp [merge, ofOffsets, Location.Precedes]

lemma ofOffsets_inj {s e s' e' : ℕ} : ofOffsets s e = ofOffsets s' e' ↔ s = s' ∧ e = e' := by
  simp [ofOffsets]

/-- **Merged spans follow reading order only.** Merging is associative and idempotent, keeps spans
in order and covers both spans in reading order; two spans can be exchanged unless two of their ends
share line and column and differ in their offsets. So spans that are known by line and column can
always be exchanged, and are covered in bytes as well. Of spans that are known by their offsets the
second one is the outcome: it is the least span over both, or covers both, only if the second one
does so itself, and they can be exchanged only if they are the same. -/
theorem merge_follows_reading_order (a b : Span) :
    a.merge a = a ∧ (∀ c, (a.merge b).merge c = a.merge (b.merge c)) ∧
    (a.start.UpTo a.stop → (a.merge b).start.UpTo (a.merge b).stop) ∧
    (a.merge b).Covers a ∧ (a.merge b).Covers b ∧
    (a.merge b = b.merge a ↔ (a.start.place = b.start.place → a.start = b.start) ∧
      (a.stop.place = b.stop.place → a.stop = b.stop)) ∧
    (∀ line start stop, (onLine line start stop).Positioned) ∧
    (a.Positioned → b.Positioned → a.merge b = b.merge a ∧ (a.merge b).Positioned ∧
      (a.merge b).CoversBytes a ∧ (a.merge b).CoversBytes b) ∧
    ∀ s e s' e', a = ofOffsets s e → b = ofOffsets s' e' →
      a.merge b = b ∧ (a.merge b = ofOffsets (min s s') (max e e') ↔ s' ≤ s ∧ e ≤ e') ∧
      ((a.merge b).CoversBytes a ↔ s' ≤ s ∧ e ≤ e') ∧ (a.merge b = b.merge a ↔ a = b) := by
  refine ⟨?_, fun c => ?_, merge_ordered, (covers_merge a b).1, (covers_merge a b).2,
    merge_comm_iff, fun line start stop => ⟨line, start, line, stop, rfl⟩,
    fun ha hb => ⟨ha.merge_comm hb,
      ha.merge hb, (ha.merge hb).coversBytes ha, (ha.merge hb).coversBytes hb⟩, ?_⟩
  · simp [merge]
  · simp only [merge_eq, choose_assoc]
  · rintro s e s' e' rfl rfl
    rw [merge_ofOffsets, merge_ofOffsets]
    refine ⟨rfl, ?_, ⟨fun h => ⟨h.start, h.stop⟩, fun h => ⟨h.1, h.2⟩⟩, eq_comm⟩
    rw [ofOffsets_inj]
    omega

/-- Two spans on different lines, the later one first. -/
theorem merge_follows_reading_order_lines :
    (onLine 4 3 10).Positioned ∧ (onLine 2 1 8).Positioned ∧
      (onLine 4 3 10).merge (onLine 2 1 8) = (onLine 2 1 8).merge (onLine 4 3 10) ∧
      (onLine 4 3 10).merge (onLine 2 1 8) = ofPositions 2 1 4 10 := by
  obtain ⟨-, -, -, -, -, -, hline, hpositions, -⟩ :=
    merge_follows_reading_order (onLine 4 3 10) (onLine 2 1 8)
  exact ⟨hline 4 3 10, hline 2 1 8, (hpositions (hline 4 3 10) (hline 2 1 8)).1, by decide⟩

/-- Of the bytes from 0 to 5 and from 3 to 9 the first three are lost. -/
theorem merge_loses_bytes :
    (ofOffsets 0 5).start.UpTo (ofOffsets 0 5).stop ∧
      (ofOffsets 3 9).start.UpTo (ofOffsets 3 9).stop ∧
      (ofOffsets 0 5).merge (ofOffsets 3 9) ≠ ofOffsets (min 0 3) (max 5 9) ∧
      (ofOffsets 0 5).merge (ofOffsets 3 9) ≠ (ofOffsets 3 9).merge (ofOffsets 0 5) ∧
      ¬((ofOffsets 0 5).merge (ofOffsets 3 9)).CoversBytes (ofOffsets 0 5) := by
  refine ⟨by decide, by decide, by decide, by decide, fun h => ?_⟩
  exact absurd h.start (by decide)

end Span
end MiddleEnd
