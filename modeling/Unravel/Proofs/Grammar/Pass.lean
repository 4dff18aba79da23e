import Unravel.Proofs.Grammar.Inline
import Unravel.Proofs.Pass.Keeps

/-! Passes keep to the grammar: the tree and the recorded functions stay well-kinded. -/

namespace Unravel

open Node

structure Formed (tree : Node) (facts : Facts) : Prop where
  tree : tree.WellKinded
  recorded : facts.Recorded WellKinded

namespace Pass

variable {env : Env} {trail fs : Trail} {f : Frame} {n : Node} {facts : Facts} {o : Outcome}
  {l : Landing} {i : Nat}

theorem Env.Standard.answer_formed (h : env.Standard) (hanswer : Answers env i trail facts n o)
    (hformed : Formed (trail.plug n) facts) :
    (∀ c ∈ o.walk, c.Conforms) ∧
      ∀ r : Role, r.admits n.kind = true → r.Sits trail.seat? → o.Admitted r := by
  have hn : n.WellKinded := Trail.every_of_plug trail hformed.tree
  rcases h.answers_cases hanswer with hmove | hinline
  · exact ⟨hmove.wellKinded hn, fun r hr hseat => hmove.admitted hn hr hseat⟩
  · obtain ⟨m, rfl, hkind, hm, hexpression⟩ :=
      Rule.inlineReturn_wellKinded hinline hformed.tree hformed.recorded
    refine ⟨hm, fun r hr _ => ?_⟩
    rw [hkind] at hr
    exact Role.admits_expression hr rfl nofun nofun hexpression

theorem Lands.formed (h : Lands f o l) {r : Role} (hwalk : ∀ c ∈ o.walk, c.Conforms)
    (hadmitted : o.Admitted r) : ∀ m ∈ l.nodes, m.WellKinded ∧ r.admits m.kind = true := by
  intro m hm
  constructor
  · intro c hc
    rcases h.mem_walk hm hc with hold | rfl | ⟨ns, rfl, rfl⟩
    · exact hwalk c hold
    · exact .nil
    · refine .cons (List.all_eq_true.mpr fun s hs => ?_) .nil
      obtain ⟨s, hmem, rfl⟩ := List.mem_map.mp hs
      exact hadmitted.2 s hmem
  · cases h with
    | remove => cases hm
    | replace =>
      cases List.mem_singleton.mp hm
      exact hadmitted
    | splice =>
      obtain ⟨rfl, hall⟩ := hadmitted
      exact hall m hm
    | lone =>
      obtain ⟨rfl, hall⟩ := hadmitted
      exact hall m hm
    | nothing =>
      cases List.mem_singleton.mp hm
      rw [hadmitted.1]
      rfl
    | wrap =>
      cases List.mem_singleton.mp hm
      rw [hadmitted.1]
      rfl

/-- Names that are declared, labels and names of properties are never edited. -/
theorem Env.Standard.open_of_lands (hstandard : env.Standard)
    (hanswer : Answers env i (f :: fs) facts n o) (hlands : Lands f o l)
    (hconforms : (f.plug n).Conforms) : f.Open := by
  obtain ⟨d, hd, hadmits⟩ := Frame.exists_demand hconforms
  refine ⟨d, hd, fun hname => ?_⟩
  rw [hname] at hadmits
  have hkind : n.kind = .identifier := beq_iff_eq.mp hadmits
  rcases hstandard.answers_cases hanswer with hmove | hinline
  · have hread := hmove.isReference hlands.not_learn hkind
    exact (Frame.sits hd).read hread hname
  · obtain ⟨t, callee, arguments, fn, m, rfl, -⟩ := Rule.expands_of_inlineReturn hinline
    cases hkind

theorem Env.Standard.keeps_formed (h : env.Standard) : env.Keeps Formed where
  learn hanswer hformed := by
    refine ⟨hformed.tree, hformed.recorded.learn ?_⟩
    rintro name fn rfl
    have hmem := (h.learn_move hanswer).function_mem_walk.1
    exact (Trail.every_of_plug _ hformed.tree).below hmem
  leave _ hformed := ⟨hformed.tree, hformed.recorded.update (Trail.every_of_plug _ hformed.tree)⟩
  edit st hanswer hland hformed := by
    obtain ⟨hwalk, hadmitted⟩ := h.answer_formed hanswer hformed
    obtain ⟨f, fs, rfl, hlands, htakes, heq⟩ := edit_cases st hland
    rw [heq]
    refine ⟨hformed.tree.plugAll htakes ?_ ?_, hformed.recorded⟩
    · intro m hm
      obtain ⟨k, hk, next, rfl⟩ := exists_of_mem_install hm
      obtain ⟨d, hd, hn⟩ := Frame.exists_demand
        (Frame.every_plug.mp (Trail.every_of_plug fs hformed.tree)).1
      exact (hlands.formed hwalk (hadmitted d.role hn (Frame.sits hd)) k hk).1.number next
    · intro d hd hn m hm
      obtain ⟨k, hk, next, rfl⟩ := exists_of_mem_install hm
      rw [kind, head_number]
      exact (hlands.formed hwalk (hadmitted d.role hn (Frame.sits hd)) k hk).2

end Pass
end Unravel
