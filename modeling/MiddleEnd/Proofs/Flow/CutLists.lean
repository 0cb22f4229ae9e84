import MiddleEnd.Proofs.Check.Run
import MiddleEnd.Proofs.Flow.Positions

/-!
Where cutting comes by. All statement lists of a program are listed in the order in which they are
written, each with a flag whether the passes visit it: they do not visit those in the blocks of the
update of a loop. What is left after cutting are these lists, cut where they are visited.
-/

namespace MiddleEnd

structure Spot where
  block : List Stmt
  visited : Bool

/-- What the edit of all blocks makes of the list at a place. -/
def Spot.edited (f : BlockEdit) (s : Spot) : List Stmt :=
  if s.visited then (f.everywhere s.block).value else s.block

namespace Spot

@[simp] lemma edited_visited (f : BlockEdit) (ss : List Stmt) :
    edited f ⟨ss, true⟩ = (f.everywhere ss).value := rfl

@[simp] lemma edited_hidden (f : BlockEdit) (ss : List Stmt) : edited f ⟨ss, false⟩ = ss := rfl

end Spot

/-- The places that are left when a program is cut: nothing after a terminator is left of a visited
block, and everything of the other ones. -/
def Collector.spots : Collector Bool Spot where
  block visited ss :=
    if visited then [⟨ss, true⟩] else (Stmt.collectBlock .lists .nothing ss).map (⟨·, false⟩)
  enters := id
  removal visited := if visited then .afterTerminators else .nothing
  updates := false

def Program.spots (p : Program) : List Spot := Stmt.collectBlock .spots true p.stmts

lemma Stmt.spotsBlock_cons (s : Stmt) (ss : List Stmt) :
    Stmt.collectList .spots true true (s :: ss) =
      if s.isTerminator then s.collect .spots true true true
      else s.collect .spots true true true ++ Stmt.collectList .spots true true ss := rfl

/-- Cutting leaves the lists at these places, edited where they are visited. -/
lemma cutBlock_carries_spots : cutBlock.Carries .spots .lists true .nothing .nothing
    fun spots lists => lists = spots.map (Spot.edited cutBlock) where
  nil := rfl
  append hk hl := by rw [hk, hl, List.map_append]
  own _ _ _ _ := rfl
  arm _ := rfl
  removal := ⟨rfl, rfl⟩
  hidden ss := by
    have hspots : Stmt.collectBlock .spots false ss =
        (Stmt.collectBlock .lists .nothing ss).map (⟨·, false⟩) := List.foldr_cons_nil
    simp only [Collector.spots, Collector.lists_updates] at hspots ⊢
    rw [hspots, List.map_map]
    simp only [Function.comp_def, Spot.edited_hidden, List.map_id']
  visited := by
    intro ss ih
    refine congrArg₂ List.cons rfl ?_
    change Stmt.listsBlock .nothing .nothing (cutBlock.everywhere ss).value =
      (Stmt.collectList .spots true true ss).map _
    rw [BlockEdit.everywhere, Edit.bind_value, cutBlock_removes.lists]
    induction ss with
    | nil => rfl
    | cons s ss ihss =>
      rw [List.forall_mem_cons] at ih
      simp only [Stmt.editBlocksList, Edit.bind_value, Edit.pure_value,
        Stmt.listsBlock_afterTerminators, Stmt.isTerminator_editBlocks, Stmt.spotsBlock_cons]
      split
      · -- what follows a terminator is cut, and no spot of it is left
        exact ih.1
      · rw [List.map_append, ih.1, ihss ih.2]

/-- **Which lists cutting reaches.** The statement lists of a program after cutting are the lists at
the places that are left, in their order, each cut if it is visited and as it was otherwise. So no
list has a statement after a terminator exactly if this was so of the lists that are not visited,
which are those in the blocks of the updates of loops. -/
theorem cut_lists_iff (p : Program) :
    (Pass.cutUnreachable.run p).value.lists .nothing = p.spots.map (Spot.edited cutBlock) ∧
      ((∀ b ∈ (Pass.cutUnreachable.run p).value.lists .nothing, CutBlock b) ↔
        ∀ s ∈ p.spots, s.visited = false → CutBlock s.block) := by
  have hlists : (Pass.cutUnreachable.run p).value.lists .nothing =
      p.spots.map (Spot.edited cutBlock) :=
    cutBlock_carries_spots.everywhere p.stmts
  refine ⟨hlists, ?_⟩
  rw [hlists, List.forall_mem_map]
  refine forall₂_congr fun s _ => ?_
  obtain ⟨b, visited⟩ := s
  cases visited with
  | true =>
    have hcut : CutBlock (cutBlock.everywhere b).value := cutBlock_cutBlock _
    simp [hcut]
  | false => simp

/-- The program `for (; ; if (true) { break; print(1) }) {}`. -/
def busyUpdate : Program where
  stmts := [.forLoop {} none none (some (.ifElse {} (.boolean {} true) [.brk {},
    .expr (.call {} (.name {} "print") [.number {} 1] none)] .done)) []]

/-- The block of the update keeps its statement after the `break`. -/
theorem cut_lists_busyUpdate : ∃ q a, analyze busyUpdate = .ok (q, a) ∧
    ∃ b ∈ (Pass.cutUnreachable.run q).value.lists .nothing, ¬CutBlock b := by
  have haccepted : (analyze busyUpdate).toOption.map (fun r =>
      ((Pass.cutUnreachable.run r.1).value.lists .nothing).map (·.map Stmt.isTerminator)) =
        some [[false], [true, false], []] := by
    decide +kernel
  obtain ⟨r, h, hblocks⟩ := Except.exists_ok_of_map haccepted
  have hblock : [true, false] ∈ ((Pass.cutUnreachable.run r.1).value.lists .nothing).map
      (·.map Stmt.isTerminator) := by simp [hblocks]
  obtain ⟨b, hb, hterminators⟩ := List.mem_map.mp hblock
  refine ⟨r.1, r.2, h, b, hb, fun hcut => ?_⟩
  have hpairwise : [true, false].Pairwise fun s _ => s = false := by
    rw [← hterminators, List.pairwise_map]
    exact hcut
  simp at hpairwise

end MiddleEnd
