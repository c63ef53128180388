import Formula.Proofs.Siblings

/-!
# Siblings put together

The markup of siblings is put together from the markup of their runs of text and of their
constructs, by joining and by wrapping.  A relation between markup and siblings that joining and
wrapping keep holds for the markup of all siblings if it holds for the runs and the constructs.
-/

namespace Formula

open Writing

section Assembly

variable {settings : Settings} {ns g : List Node} {R : Text → List Node → Prop}

/-- The parts that lists of siblings are written as are joined to what all of them are written
as. -/
theorem exists_joined {write : List Piece → Except Fault Text} {gs : List (List Node)} {tm : Bool}
    (hjoin : ∀ parts nss, List.Forall₂ R parts nss → R (join (separator tm) parts) nss.flatten)
    (h : ∀ g ∈ gs, ∃ m, write (g.map (piece settings)) = .ok m ∧ R m g) :
  ∃ parts, (gs.map (List.map (piece settings))).mapM write = .ok parts
    ∧ R (join (separator tm) parts) gs.flatten
  := by
  obtain ⟨parts, hparts, hall⟩ := exists_mapM (R := fun g m => R m g) h
  refine ⟨parts, ?_, hjoin _ _ hall.flip⟩
  rw [List.mapM_map]
  apply hparts

/-- Siblings are written, and the relation holds for what is written, if it holds for their runs
of text and their constructs and is kept. -/
theorem exists_writePieces
    (hjoin : ∀ tm parts nss, List.Forall₂ R parts nss → R (join (separator tm) parts) nss.flatten)
    (hwrap : ∀ n ∈ ns, ∀ w ∈ n.outer, ∀ m g, R m g → R (wrap m w) g)
    (hrun : ∀ r, r ≠ [] → r ⊆ ns → ∀ f : TextFormat,
      (∀ n ∈ r, ∃ v scale, n.shape = .text v f scale) →
      ∀ tm, R (textRun settings.table tm f (r.flatMap (·.shape.value))) r)
    (hconstruct : ∀ n ∈ ns, n.shape.isText = false → ∀ tm,
      ∃ m, writeShape settings tm (n.shape.map (piece settings)) = .ok m ∧ R m [n]) (tm : Bool) :
  ∃ m, writePieces settings tm (ns.map (piece settings)) = .ok m ∧ R m ns
  := by
  -- The runs of a group.
  have hwriteRun : ∀ tm, ∀ r, r ≠ [] → r ⊆ ns →
      List.IsChain (fun n n' => (piece settings n).sameRun (piece settings n') = true) r →
      ∃ m, writeRun settings tm (r.map (piece settings)) = .ok m ∧ R m r := by
    intro tm r hne hsubset hchain
    obtain ⟨⟨l, s⟩, rest, rfl⟩ := List.exists_cons_of_ne_nil hne
    cases htext : s.isText with
    | true =>
      cases s with
      | text v f scale =>
        obtain ⟨hshapes, hwritten⟩ := writeRun_text hchain tm
        exact ⟨_, hwritten, hrun _ hne hsubset f hshapes tm⟩
      | _ => contradiction
    | false =>
      obtain ⟨rfl, hwritten⟩ := writeRun_construct htext hchain tm
      rw [hwritten]
      apply hconstruct _ (hsubset List.mem_cons_self) htext tm
  -- The groups, each inside of its wrappers.
  have hwritePlain : ∀ tm, ∀ g ⊆ ns,
      ∃ m, writePlain settings tm (g.map (piece settings)) = .ok m ∧ R m g := by
    intro tm g hsubset
    have hruns : ∀ r ∈ g.splitBy fun n n' => (piece settings n).sameRun (piece settings n'),
        ∃ m, writeRun settings tm (r.map (piece settings)) = .ok m ∧ R m r := by
      intro r hr
      apply hwriteRun tm r (List.ne_nil_of_mem_splitBy hr) _ (List.isChain_of_mem_splitBy hr)
      intro n hn
      apply hsubset
      rw [← List.flatten_splitBy
        (fun n n' => (piece settings n).sameRun (piece settings n')) g]
      apply List.mem_flatten_of_mem hr hn
    obtain ⟨parts, hparts, hR⟩ := exists_joined (hjoin tm) hruns
    rw [List.flatten_splitBy] at hR
    refine ⟨_, ?_, hR⟩
    rw [writePlain, splitBy_map, hparts]
    rfl
  have hwriteWrapped : ∀ g ∈ groups ns,
      ∃ m, writeWrapped settings tm (g.map (piece settings)) = .ok m ∧ R m g := by
    intro g hg
    have hsubset : g ⊆ ns := fun n hn => mem_of_mem_groups hg hn
    obtain ⟨n, rest, rfl⟩ := List.exists_cons_of_ne_nil (List.ne_nil_of_mem_splitBy hg)
    obtain ⟨body, hbody, hR⟩ :=
      hwritePlain (tm || n.outer.any (·.1 = .textMode)) (n :: rest) hsubset
    refine ⟨n.outer.foldl wrap body, ?_, ?_⟩
    · rw [writeWrapped, List.map_cons]
      simp only [List.head?_cons, Option.map_some, Option.getD_some, piece_outer]
      rw [← List.map_cons, hbody]
      rfl
    · have hfold : ∀ ws ⊆ n.outer, ∀ m, R m (n :: rest) → R (ws.foldl wrap m) (n :: rest) := by
        intro ws
        induction ws with
        | nil => exact fun _ _ h => h
        | cons w ws ih =>
          intro hws m hm
          obtain ⟨hw, hws⟩ := List.cons_subset.1 hws
          apply ih hws
          apply hwrap n (hsubset List.mem_cons_self) w hw m _ hm
      apply hfold _ (List.Subset.refl _) _ hR
  obtain ⟨parts, hparts, hR⟩ := exists_joined (hjoin tm) hwriteWrapped
  rw [groups, List.flatten_splitBy] at hR
  refine ⟨_, ?_, hR⟩
  rw [writePieces, splitBy_map]
  simp only [piece_outer]
  rw [← groups, hparts]
  rfl

/-- What is written for an equation satisfies a relation that joining and wrapping keep, if it
holds for runs of text, and for a construct whenever it holds for what stands in its slots. -/
theorem exists_written {Q : Node → Prop}
    (hjoin : ∀ tm parts nss, List.Forall₂ R parts nss → R (join (separator tm) parts) nss.flatten)
    (hwrap : ∀ n, Q n → ∀ w ∈ n.outer, ∀ m g, R m g → R (wrap m w) g)
    (hrun : ∀ r, r ≠ [] → (∀ n ∈ r, Q n) → ∀ f : TextFormat,
      (∀ n ∈ r, ∃ v scale, n.shape = .text v f scale) →
      ∀ tm, R (textRun settings.table tm f (r.flatMap (·.shape.value))) r)
    (hconstruct : ∀ n, Q n → n.shape.isText = false →
      (∀ slot ∈ n.shape.slots, ∀ tm,
        ∃ m, writePieces settings tm (slot.2.map (piece settings)) = .ok m ∧ R m slot.2) →
      ∀ tm, ∃ m, writeShape settings tm (n.shape.map (piece settings)) = .ok m ∧ R m [n])
    (h : ∀ n ∈ walk ns, Q n) (tm : Bool) :
  ∃ m, writePieces settings tm (ns.map (piece settings)) = .ok m ∧ R m ns
  := by
  have hsiblings : ∀ ns : List Node, (∀ n ∈ ns, Q n) →
      (∀ n ∈ ns, n.shape.isText = false → ∀ tm,
        ∃ m, writeShape settings tm (n.shape.map (piece settings)) = .ok m ∧ R m [n]) → ∀ tm,
      ∃ m, writePieces settings tm (ns.map (piece settings)) = .ok m ∧ R m ns := by
    intro ns hns hshapes tm
    apply exists_writePieces hjoin (fun n hn => hwrap n (hns n hn)) _ hshapes
    intro r hne hsubset
    apply hrun r hne fun n hn => hns n (hsubset hn)
  -- By induction on a node, every construct in it is written.
  have hnode : ∀ n : Node, (∀ k ∈ Tree.walk n, Q k) → n.shape.isText = false → ∀ tm,
      ∃ m, writeShape settings tm (n.shape.map (piece settings)) = .ok m ∧ R m [n] := by
    intro n
    induction n using Tree.induction with
    | h l s ih =>
      intro hwalk htext
      apply hconstruct _ (hwalk _ (Tree.mem_walk_self _)) htext
      intro slot hslot
      rw [Tree.walk_mk] at hwalk
      have hchild : ∀ n ∈ slot.2, ∀ k ∈ Tree.walk n, Q k := by
        intro n hn k hk
        apply hwalk k (List.mem_cons_of_mem _ _)
        apply List.mem_flatMap.2 ⟨n, List.mem_flatMap.2 ⟨slot, hslot, hn⟩, hk⟩
      apply hsiblings
      · intro n hn
        apply hchild n hn n (Tree.mem_walk_self n)
      · intro n hn
        apply ih n (Shape.children_subset s (List.mem_flatMap.2 ⟨slot, hslot, hn⟩)) (hchild n hn)
  apply hsiblings
  · intro n hn
    apply h n (mem_walk_of_mem hn)
  · intro n hn
    apply hnode n fun k hk => h k (List.mem_flatMap.2 ⟨n, hn, hk⟩)

end Assembly

end Formula
