import Unravel.Proofs.Pass.Keeps
import Unravel.Proofs.Value

/-! Passes keep literals exact: the values that they put into the tree are known constants, known
elements and sums. -/

namespace Unravel

open Node

def Head.isExact : Head → Bool
  | .literal v => v.isExact
  | _ => true

abbrev Node.Exact (tree : Node) : Prop := tree.Every fun c => c.head.isExact = true

structure Exact (tree : Node) (facts : Facts) : Prop where
  tree : tree.Exact
  constants : ∀ e ∈ facts.constants, e.2.isExact = true
  arrays : ∀ e ∈ facts.arrays, ∀ v ∈ e.2, v.isExact = true
  recorded : facts.Recorded Node.Exact

theorem Table.mem_of_get? {α : Type} {t : Table α} {name : String} {a : α}
    (h : t.get? name = some a) : ∃ e ∈ t, e.2 = a := by
  obtain ⟨e, he, rfl⟩ := Option.map_eq_some_iff.mp h
  exact ⟨e, List.mem_of_find?_eq_some he, rfl⟩

namespace Rule

variable {site : Site} {n : Node} {o : Outcome}

theorem isExact_of_literalElements {lenient : Bool} {elements : List (Option Node)}
    {values : List Value} (h : literalElements lenient elements = some values)
    (hexact : EveryItems (fun c => c.head.isExact = true) elements) :
    ∀ v ∈ values, v.isExact = true := by
  have hcons {w : Value} {ws : List Value} {rest : Option (List Value)} (hw : w.isExact = true)
      (hrest : ∀ vs, rest = some vs → ∀ v ∈ vs, v.isExact = true)
      (hmap : rest.map (w :: ·) = some ws) : ∀ v ∈ ws, v.isExact = true := by
    obtain ⟨vs, hvs, rfl⟩ := Option.map_eq_some_iff.mp hmap
    exact List.forall_mem_cons.mpr ⟨hw, hrest vs hvs⟩
  induction elements generalizing values with
  | nil =>
    cases h
    exact nofun
  | cons c cs ih =>
    match c with
    | none => exact hcons rfl (fun vs hvs => ih hvs hexact) h
    | some (.mk t hd ss) =>
      obtain ⟨hc, hrest⟩ := everyItems_some.mp hexact
      unfold literalElements at h
      split at h
      · rename_i heq
        cases heq
      · rename_i heq
        cases heq
      · rename_i heq
        cases heq
        exact hcons hc.self (fun vs hvs => ih hvs hrest) h
      · rename_i heq
        cases heq
        split at h
        · exact hcons rfl (fun vs hvs => ih hvs hrest) h
        · cases h

theorem Known.isExact {v : Value} (h : Known site n v) {tree : Node}
    (hexact : Exact tree site.facts) (hn : n.Exact) : v.isExact = true := by
  cases h with
  | bool => rfl
  | undefined => rfl
  | constant hv =>
    obtain ⟨e, he, rfl⟩ := Table.mem_of_get? hv
    exact hexact.constants e he
  | element hvalues hv =>
    obtain ⟨e, he, rfl⟩ := Table.mem_of_get? hvalues
    exact hexact.arrays e he _ hv
  | sum ha hb hadd =>
    obtain ⟨w, hw, hw'⟩ := Value.add_ok (hn _ ha : Value.isExact _ = true) (hn _ hb)
    cases hadd.symm.trans hw
    exact hw'

theorem Made.isExact {c : Node} (h : Made site n c) {tree : Node} (hexact : Exact tree site.facts)
    (hn : n.Exact) : c.head.isExact = true := by
  cases h with
  | literal hv => exact hv.isExact hexact hn
  | empty => rfl
  | andTest => rfl
  | orTest => rfl
  | initial => rfl
  | final => rfl

theorem inlineReturn_exact (h : inlineReturn site n = .ok (some o))
    (hexact : Exact (site.trail.plug n) site.facts) : ∀ c ∈ o.walk, c.head.isExact = true := by
  obtain ⟨t, callee, arguments, fn, m, rfl, hcalled, hexpands, rfl⟩ := expands_of_inlineReturn h
  have hn : (Node.callExpression t callee arguments).Exact := Trail.every_of_plug _ hexact.tree
  have hcallee : callee ∈ (Node.callExpression t callee arguments).walk := by
    simp [walk, walkSlots, self_mem_walk]
  have hfn := every_called hcalled hcallee hexact.tree hexact.recorded
  intro c hc
  obtain ⟨-, hundefined | ⟨d, hd, heq⟩ | ⟨a, ha, d, hd, heq⟩⟩ := hexpands.head_of_mem_walk hc
  · rw [hundefined]
    rfl
  · rw [← heq]
    exact hfn d hd
  · rw [← heq]
    exact hn.below (mem_walk_of_argument ha) d hd

end Rule

namespace Pass

variable {env : Env} {trail : Trail} {n : Node} {facts : Facts} {o : Outcome} {i : Nat}

theorem Env.Standard.answer_exact (h : env.Standard) (hanswer : Answers env i trail facts n o)
    (hexact : Exact (trail.plug n) facts) : ∀ c ∈ o.walk, c.head.isExact = true := by
  rcases h.answers_cases hanswer with hmove | hinline
  · intro c hc
    have hn : n.Exact := Trail.every_of_plug trail hexact.tree
    rcases hmove.old_or_made hc with hold | hmade
    · exact hn c hold
    · exact hmade.isExact hexact hn
  · exact Rule.inlineReturn_exact hinline hexact

theorem Env.Standard.learn_exact (h : env.Standard) {fact : Fact}
    (hanswer : Answers env i trail facts n (.learn fact)) (hexact : Exact (trail.plug n) facts) :
    Exact (trail.plug n) (facts.learn fact).1 := by
  have hn : n.Exact := Trail.every_of_plug trail hexact.tree
  have hmove := h.learn_move hanswer
  have hrecorded : (facts.learn fact).1.Recorded Node.Exact := by
    refine hexact.recorded.learn ?_
    rintro name fn rfl
    exact hn.below hmove.function_mem_walk.1
  refine ⟨hexact.tree, ?_, ?_, hrecorded⟩
  · intro e he
    cases hmove with
    | @recordConstant t u w name ss ss' v =>
      rcases Table.mem_set he with he | rfl
      · exact hexact.constants e he
      · exact hn (.mk w (.literal v) ss') (by simp [walk, walkSlots])
    | recordArray => exact hexact.constants e he
    | recordDeclaration => exact hexact.constants e he
    | recordExpression => exact hexact.constants e he
  · intro e he
    cases hmove with
    | recordArray _ hvalues =>
      rcases Table.mem_set he with he | rfl
      · exact hexact.arrays e he
      · refine Rule.isExact_of_literalElements hvalues ?_
        simp only [Node.Exact, Node.variableDeclarator, every_mk, everySlots_one,
          everySlots_many] at hn
        exact hn.2.2.1.2.1
    | recordConstant => exact hexact.arrays e he
    | recordDeclaration => exact hexact.arrays e he
    | recordExpression => exact hexact.arrays e he

theorem Env.Standard.keeps_exact (h : env.Standard) : env.Keeps Exact where
  learn hanswer hexact := h.learn_exact hanswer hexact
  leave _ hexact := ⟨hexact.tree, hexact.constants, hexact.arrays,
    hexact.recorded.update (Trail.every_of_plug _ hexact.tree)⟩
  edit st hanswer hland hexact := by
    have hwalk := h.answer_exact hanswer hexact
    obtain ⟨f, fs, rfl, hlands, htakes, heq⟩ := edit_cases st hland
    rw [heq]
    refine ⟨?_, hexact.constants, hexact.arrays, hexact.recorded⟩
    refine Trail.every_exchange (fun _ => ()) (fun _ _ _ _ => rfl) (fun _ _ _ _ hc => hc) htakes rfl
      (fun hself => hself) ?_ hexact.tree
    intro m hm
    obtain ⟨k, hk, next, rfl⟩ := exists_of_mem_install hm
    refine every_number (P := fun c => c.head.isExact = true) ?_ (fun c hc => ?_) next
    · intro seat c s hc
      rw [head_relabel numbering_keepsHeads]
      exact hc
    · rcases hlands.mem_walk hk hc with hold | rfl | ⟨ns, -, rfl⟩
      · exact hwalk c hold
      · rfl
      · rfl

end Pass
end Unravel
