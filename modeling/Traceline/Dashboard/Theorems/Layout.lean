import Mathlib.Data.List.Chain
import Mathlib.Data.Set.BooleanAlgebra
import Mathlib.Data.Set.Disjoint
import Mathlib.Order.CompletePartialOrder
import Traceline.Dashboard.Resolve

-- No two blocks of a dashboard share a cell of its grid.
namespace Dashboard

-- A block and where it is.
abbrev Placed := BlockDef × Position

namespace Placed

-- The cells of the grid that a block takes.
def cells (p : Placed) : Set Position :=
  { c | c.row = p.2.row ∧ p.2.col ≤ c.col ∧ c.col < p.2.col + p.1.span }

-- In an earlier row, or further left in the same one.
def Before (p q : Placed) : Prop :=
  p.2.row < q.2.row ∨ p.2.row = q.2.row ∧ p.2.col + p.1.span ≤ q.2.col

-- The next block continues the row or starts the next one.
def Next (p q : Placed) : Prop :=
  q.2 = ⟨p.2.row, p.2.col + p.1.span⟩ ∨ q.2 = ⟨p.2.row + 1, 0⟩

theorem Before.disjoint {p q : Placed} (h : p.Before q) : Disjoint p.cells q.cells := by
  refine Set.disjoint_left.mpr ?_
  intro c ⟨hrow, hcol, hspan⟩ ⟨hrow', hcol', hspan'⟩
  unfold Before at h
  omega

end Placed

section Loop

variable {columns : Int} {blocks : List BlockDef} {cursor : Position} {p : Placed}

theorem layout_from_length : (layout_from columns blocks cursor).length = blocks.length := by
  induction blocks generalizing cursor with
  | nil                => rfl
  | cons block _ hi => exact congrArg (· + 1) hi

-- Behind the cursor, or in a later row.
def Position.Ahead (cursor c : Position) : Prop :=
  cursor.row < c.row ∨ cursor.row = c.row ∧ cursor.col ≤ c.col

theorem fit_eq {block : BlockDef} :
    fit columns cursor block = cursor ∨ fit columns cursor block = ⟨cursor.row + 1, 0⟩ := by
  unfold fit
  split
  case isTrue  => exact .inr rfl
  case isFalse => exact .inl rfl

theorem fit_ahead {block : BlockDef} : cursor.Ahead (fit columns cursor block) := by
  have h : fit columns cursor block = cursor ∨ fit columns cursor block = ⟨cursor.row + 1, 0⟩ :=
    fit_eq
  rcases h with h | h <;> rw [h]
  · exact .inr ⟨rfl, Int.le_refl _⟩
  · exact .inl (Int.lt_succ _)

-- Nothing is placed before the cursor.
theorem layout_from_ahead (hspan : ∀ b ∈ blocks, 1 ≤ b.span)
    (hp : p ∈ blocks.zip (layout_from columns blocks cursor)) : cursor.Ahead p.2 := by
  induction blocks generalizing cursor with
  | nil                  => simp at hp
  | cons block blocks hi =>
    have hfit : cursor.Ahead (fit columns cursor block) := fit_ahead
    have hpos := hspan block (.head _)
    rw [layout_from, List.zip_cons_cons, List.mem_cons] at hp
    rcases hp with rfl | hp
    · exact hfit
    · have := hi (fun b hb => hspan b (.tail _ hb)) hp
      unfold Position.Ahead at *
      dsimp only at *
      omega

theorem layout_from_within (hspan : ∀ b ∈ blocks, 1 ≤ b.span ∧ b.span ≤ columns)
    (hcursor : 0 ≤ cursor.row ∧ 0 ≤ cursor.col)
    (hp : p ∈ blocks.zip (layout_from columns blocks cursor)) :
    0 ≤ p.2.row ∧ 0 ≤ p.2.col ∧ p.2.col + p.1.span ≤ columns := by
  induction blocks generalizing cursor with
  | nil                  => simp at hp
  | cons block blocks hi =>
    obtain ⟨hpos, hle⟩ := hspan block (.head _)
    have hfit : 0 ≤ (fit columns cursor block).row ∧ 0 ≤ (fit columns cursor block).col ∧
        (fit columns cursor block).col + block.span ≤ columns := by
      unfold fit
      split
      case isTrue  => dsimp only; omega
      case isFalse => omega
    rw [layout_from, List.zip_cons_cons, List.mem_cons] at hp
    rcases hp with rfl | hp
    · exact hfit
    · exact hi (fun b hb => hspan b (.tail _ hb)) (by dsimp only; omega) hp

theorem layout_from_pairwise (hspan : ∀ b ∈ blocks, 1 ≤ b.span) :
    (blocks.zip (layout_from columns blocks cursor)).Pairwise Placed.Before := by
  induction blocks generalizing cursor with
  | nil                  => exact .nil
  | cons block blocks hi =>
    have htail : ∀ b ∈ blocks, 1 ≤ b.span := fun b hb => hspan b (.tail _ hb)
    exact .cons (fun _ hq => layout_from_ahead htail hq) (hi htail)

theorem layout_from_chain :
    (blocks.zip (layout_from columns blocks cursor)).IsChain Placed.Next := by
  induction blocks generalizing cursor with
  | nil                  => exact .nil
  | cons block blocks hi =>
    rw [layout_from, List.zip_cons_cons, List.isChain_cons]
    refine ⟨?_, hi⟩
    intro q hq
    cases blocks with
    | nil               => simp at hq
    | cons block' blocks =>
      rw [layout_from, List.zip_cons_cons, List.head?_cons, Option.mem_some_iff] at hq
      subst hq
      exact fit_eq

end Loop

-- The cells of the blocks are disjoint and within the columns, and the blocks go on row by row.
theorem layout_blocks_disjoint {blocks : List BlockDef} {columns : Int}
    (hspan : ∀ b ∈ blocks, 1 ≤ b.span ∧ b.span ≤ columns) :
    let placed : List Placed := blocks.zip (layout_blocks blocks columns)
    (layout_blocks blocks columns).length = blocks.length ∧
    placed.Pairwise (fun p q => Disjoint p.cells q.cells) ∧
    (∀ p ∈ placed, ∀ c ∈ p.cells, 0 ≤ c.row ∧ 0 ≤ c.col ∧ c.col < columns) ∧
    placed.Pairwise Placed.Before ∧
    placed.IsChain Placed.Next := by
  have hbefore : (blocks.zip (layout_from columns blocks ⟨0, 0⟩)).Pairwise Placed.Before :=
    layout_from_pairwise fun b hb => (hspan b hb).left
  refine ⟨layout_from_length, hbefore.imp Placed.Before.disjoint, ?_, hbefore, layout_from_chain⟩
  intro p hp c ⟨hrow, hcol, hend⟩
  have := layout_from_within hspan ⟨Int.le_refl 0, Int.le_refl 0⟩ hp
  omega

def grid_block (span : Int) : BlockDef where
  component := "run_table"
  span
  bind      := [("run", .str "$filters.run")]
  bind_keys := List.nodup_singleton _

-- The third block starts a row, and so does the fourth.
def wrapped : List BlockDef :=
  [grid_block 8, grid_block 4, grid_block 6, grid_block 7]

theorem layout_blocks_wrapped :
    layout_blocks wrapped 12 = [⟨0, 0⟩, ⟨0, 8⟩, ⟨1, 0⟩, ⟨2, 0⟩] ∧
    (wrapped.zip (layout_blocks wrapped 12)).Pairwise fun p q =>
      Disjoint (Placed.cells p) (Placed.cells q) :=
  ⟨by decide, (@layout_blocks_disjoint _ 12 (by decide)).right.left⟩

end Dashboard
