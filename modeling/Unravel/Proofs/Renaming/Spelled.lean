import Unravel.Proofs.Renaming.Unwrap
import Unravel.Proofs.Sharing.Structure

/-! Fixed names: of properties that are not computed, of keys and of labels. Renaming leaves them
alone, so the names that it exchanges must not turn up among them. They do not, for no rule and
neither of the two passes over functions edits a fixed name or makes one. -/

namespace Unravel

open Node

def Head.fixedSlot? : Head → Option Nat
  | .memberExpression false => some 1
  | .property false | .labeledStatement | .breakStatement | .continueStatement => some 0
  | _ => none

/-- Whether a fixed name may be spelled like this: as a literal, or as an identifier whose name is
not among `N`. -/
def Head.Spells (N : String → Prop) : Head → Prop
  | .identifier name => ¬ N name
  | .literal _ => True
  | _ => False

namespace Node

def fixedHead? (n : Node) : Option Head :=
  n.head.fixedSlot?.bind fun i => (n.slots.map Slot.single)[i]?.join.join

def Spelled (N : String → Prop) (n : Node) : Prop := ∀ h, n.fixedHead? = some h → h.Spells N

variable {N : String → Prop} {t t' : Tag} {h : Head} {ss ss' : List (Slot Node)}

theorem fixedHead?_mk (t : Tag) (h : Head) (ss : List (Slot Node)) : (Node.mk t h ss).fixedHead? =
    h.fixedSlot?.bind fun i => (ss.map Slot.single)[i]?.join.join := rfl

theorem fixedHead?_congr (hsame : ss.map Slot.single = ss'.map Slot.single) :
    (Node.mk t h ss).fixedHead? = (Node.mk t' h ss').fixedHead? := by
  rw [fixedHead?_mk, fixedHead?_mk, hsame]

theorem fixedHead?_eq_none {n : Node} (h : n.head.fixedSlot? = none) : n.fixedHead? = none := by
  rw [fixedHead?, h, Option.bind_none]

theorem spelled_of_no_slot {n : Node} (h : n.head.fixedSlot? = none) : n.Spelled N := by
  intro hd hhead
  rw [fixedHead?_eq_none h] at hhead
  cases hhead

theorem Spelled.congr (hn : (Node.mk t h ss).Spelled N)
    (hsame : ss.map Slot.single = ss'.map Slot.single) : (Node.mk t' h ss').Spelled N := by
  intro hd hhead
  rw [← fixedHead?_congr hsame] at hhead
  exact hn hd hhead

theorem spelled_relabel {τ : Type} {f : Relabel τ} (hf : f.KeepsHeads) :
    f.Carries (Spelled N) (Spelled N) := by
  rintro seat ⟨t, h, ss⟩ s hn
  have hhead : (f seat t h s).1.2 = h := hf seat t h s
  simp only [relabel, hhead]
  exact hn.congr (map_single_of_heads (heads_relabelSlots hf h _ ss _)).symm

theorem isReference_of_fixedSlot? {h : Head} {i : Nat} (hslot : h.fixedSlot? = some i) :
    isReference (h.kind.fields[i]?.map (⟨h, ·⟩)) = false := by
  unfold Head.fixedSlot? at hslot
  split at hslot <;> cases hslot <;> rfl

end Node

/-! Edits beside a fixed name. -/

theorem getElem?_append_cons_of_ne {α : Type} {l r : List α} {a b : α} {i : Nat}
    (hi : i ≠ l.length) : (l ++ a :: r)[i]? = (l ++ b :: r)[i]? := by
  rcases Nat.lt_or_gt_of_ne hi with hlt | hgt
  · rw [List.getElem?_append_left hlt, List.getElem?_append_left hlt]
  · obtain ⟨k, rfl⟩ := Nat.exists_eq_add_of_lt hgt
    rw [List.getElem?_append_right (by omega), List.getElem?_append_right (by omega)]
    have hk : l.length + k + 1 - l.length = k + 1 := by omega
    rw [hk, List.getElem?_cons_succ, List.getElem?_cons_succ]

namespace Frame

variable {N : String → Prop} {f : Frame} {n : Node} {ns : List Node}

theorem fixedHead?_plugAll (hf : f.Takes ns)
    (hslot : f.hole = .single → f.head.fixedSlot? ≠ some f.before.length) :
    (f.plugAll ns).fixedHead? = (f.plug n).fixedHead? := by
  obtain ⟨t, h, before, hole, after⟩ := f
  cases hole with
  | item left right =>
    refine fixedHead?_congr ?_
    simp [Slot.single]
  | single =>
    simp only [plugAll, plug, fixedHead?_mk, List.map_append, List.map_cons]
    cases hi : h.fixedSlot? with
    | none => rfl
    | some i =>
      have hne : i ≠ (before.reverse.map Slot.single).length := by
        rintro rfl
        simp [hi] at hslot
      rw [Option.bind_some, Option.bind_some, getElem?_append_cons_of_ne hne]

theorem spells_of_plug (hhole : f.hole = .single) (hslot : f.head.fixedSlot? = some f.before.length)
    (h : (f.plug n).Spelled N) : n.head.Spells N := by
  refine h _ ?_
  obtain ⟨t, hd, before, hole, after⟩ := f
  cases hhole
  change hd.fixedSlot? = some before.length at hslot
  have hlength : before.length = (before.reverse.map Slot.single).length := by simp
  simp only [plug, fixedHead?_mk, List.map_append, List.map_cons]
  rw [hslot, Option.bind_some, hlength, List.getElem?_append_right (Nat.le_refl _), Nat.sub_self]
  rfl

end Frame

/-! Passes. -/

structure Spelling (N : String → Prop) (tree : Node) (facts : Facts) : Prop where
  tree : tree.Every (Spelled N)
  recorded : facts.Recorded (Every (Spelled N))

namespace Rule

variable {N : String → Prop}

theorem Made.spelled {site : Site} {n c : Node} (h : Made site n c) : c.Spelled N := by
  cases h <;> exact spelled_of_no_slot rfl

section
variable {b : Binding}

theorem single_substituteSlots (h : Head) (fs : List Field) (ss : List (Slot Node)) (i : Nat)
    (hkeep : ∀ c, ss[i]? = some (.one (some c)) →
      (substitute b (fs[i]?.map (⟨h, ·⟩)) c).head = c.head) :
    ((substituteSlots b h fs ss).map Slot.single)[i]? = (ss.map Slot.single)[i]? := by
  induction ss generalizing fs i with
  | nil => rfl
  | cons s ss ih =>
    cases i with
    | zero =>
      obtain (_ | c) | cs := s
      · rfl
      · have hc := hkeep c rfl
        rw [← List.head?_eq_getElem?] at hc
        simp [substituteSlots, Slot.single, hc]
      · rfl
    | succ i =>
      have hrest := ih fs.tail i fun c hc => by
        rw [List.getElem?_tail]
        exact hkeep c hc
      obtain (_ | c) | cs := s <;> exact hrest

theorem carries_spelled : b.Carries (Spelled N) (Spelled N) := by
  intro t h ss hn
  have hsame : (Node.mk t h (substituteSlots b h h.kind.fields ss)).fixedHead? =
      (Node.mk t h ss).fixedHead? := by
    rw [fixedHead?_mk, fixedHead?_mk]
    cases hi : h.fixedSlot? with
    | none => rfl
    | some i =>
      rw [Option.bind_some, Option.bind_some, single_substituteSlots h _ ss i fun c _ => ?_]
      rcases substitute_cases b (h.kind.fields[i]?.map (⟨h, ·⟩)) c with ⟨name, a, -, hread, -⟩ |
        ⟨-, heq⟩ | ⟨u, hd, ss', rfl, heq⟩
      · rw [isReference_of_fixedSlot? hi] at hread
        cases hread
      · rw [heq]
      · rw [heq]
        rfl
  intro hd hhead
  rw [hsame] at hhead
  exact hn hd hhead

end

theorem Expands.every_spelled {arguments : List (Option Node)} {fn m : Node} {t : Tag}
    {callee : Node} (h : Expands arguments fn m) (hfn : fn.Every (Spelled N))
    (hcall : (Node.callExpression t callee arguments).Every (Spelled N)) : m.Every (Spelled N) := by
  have hliteral (t : Tag) (v : Value) : (Node.literal t v).Every (Spelled N) :=
    every_mk.mpr ⟨spelled_of_no_slot rfl, everySlots_nil⟩
  have hcopy (a : Node) (ha : a.Every (Spelled N)) : a.unmarked.Every (Spelled N) :=
    every_relabel (spelled_relabel unmarking_keepsHeads) none () a ha
  cases h with
  | @mk t' u hd self body result params name names hbody =>
    refine every_substitute ?_ (fun _ hc => hc) carries_spelled none _ (hcopy _ ?_)
    · intro p a ha
      rcases (mem_bind ha).2 with hmem | rfl
      · have harg : some a ∈ arguments := by simpa using hmem
        exact hcopy a (hcall.below (mem_walk_of_argument harg))
      · exact hcopy _ (hliteral _ _)
    · cases result with
      | none => exact hliteral _ _
      | some e =>
        have hreturn := hfn.below (Expands.return_mem_walk t' u hd hbody)
        exact (everySlots_one.mp (every_mk.mp hreturn).2).1

end Rule

namespace Pass

variable {N : String → Prop} {env : Env} {trail fs : Trail} {f : Frame} {n : Node} {facts : Facts}
  {o : Outcome} {l : Landing} {i : Nat}

theorem Env.Standard.answer_spelled (h : env.Standard) (hanswer : Answers env i trail facts n o)
    (hspelling : Spelling N (trail.plug n) facts) : ∀ c ∈ o.walk, c.Spelled N := by
  have hn : n.Every (Spelled N) := Trail.every_of_plug trail hspelling.tree
  rcases h.answers_cases hanswer with hmove | hinline
  · intro c hc
    rcases hmove.old_or_made hc with hold | hmade
    · exact hn c hold
    · exact hmade.spelled
  · obtain ⟨t, callee, arguments, fn, m, rfl, hcalled, hexpands, rfl⟩ :=
      Rule.expands_of_inlineReturn hinline
    have hcallee : callee ∈ (Node.callExpression t callee arguments).walk := by
      simp [walk, walkSlots, self_mem_walk]
    have hfn := Rule.every_called hcalled hcallee hspelling.tree hspelling.recorded
    exact hexpands.every_spelled hfn hn

/-- A fixed name is never edited. -/
theorem Env.Standard.fixedSlot?_ne_of_lands (hstandard : env.Standard)
    (hanswer : Answers env i (f :: fs) facts n o) (hlands : Lands f o l)
    (hspelled : (f.plug n).Spelled N) (hhole : f.hole = .single) :
    f.head.fixedSlot? ≠ some f.before.length := by
  intro hslot
  have hspells := Frame.spells_of_plug hhole hslot hspelled
  obtain ⟨t, h, ss⟩ := n
  rcases hstandard.answers_cases hanswer with hmove | hinline
  · cases h with
    | identifier name =>
      have hread : isReference f.seat? = true := hmove.isReference hlands.not_learn rfl
      have hclosed : isReference f.seat? = false := isReference_of_fixedSlot? hslot
      rw [hclosed] at hread
      cases hread
    | literal v => cases hmove
    | _ => cases hspells
  · obtain ⟨u, callee, arguments, fn, m, heq, -⟩ := Rule.expands_of_inlineReturn hinline
    cases heq
    cases hspells

theorem Env.Standard.keeps_spelling (h : env.Standard) : env.Keeps (Spelling N) where
  learn hanswer hspelling := by
    refine ⟨hspelling.tree, hspelling.recorded.learn ?_⟩
    rintro name fn rfl
    have hmem := (h.learn_move hanswer).function_mem_walk.1
    exact (Trail.every_of_plug _ hspelling.tree).below hmem
  leave _ hspelling :=
    ⟨hspelling.tree, hspelling.recorded.update (Trail.every_of_plug _ hspelling.tree)⟩
  edit st hanswer hland hspelling := by
    have hwalk := h.answer_spelled hanswer hspelling
    obtain ⟨f, fs, rfl, hlands, htakes, heq⟩ := edit_cases st hland
    rw [heq]
    refine ⟨?_, hspelling.recorded⟩
    refine Trail.every_exchange Node.head (fun _ _ _ _ => rfl) ?_ htakes rfl ?_ ?_ hspelling.tree
    · intro g c c' hcc hself
      exact hself.congr (map_single_of_heads (g.view_plug hcc))
    · intro hself hd hhead
      rw [Frame.fixedHead?_plugAll htakes (h.fixedSlot?_ne_of_lands hanswer hlands hself)] at hhead
      exact hself hd hhead
    · intro m hm
      obtain ⟨k, hk, next, rfl⟩ := exists_of_mem_install hm
      refine every_number (spelled_relabel numbering_keepsHeads) (fun c hc => ?_) next
      rcases hlands.mem_walk hk hc with hold | rfl | ⟨ns, rfl, rfl⟩
      · exact hwalk c hold
      · exact spelled_of_no_slot rfl
      · exact spelled_of_no_slot rfl

end Pass

/-! Factories and hoisting. -/

namespace Factory

variable {N : String → Prop}

theorem every_spelled_collapseHere {n : Node} (h : n.Every (Spelled N)) :
    (collapseHere n).Every (Spelled N) := by
  rcases collapseHere_cases n with heq | ⟨t, id, params, u, body, name, body', rfl, hbody, heq⟩
  · rw [heq]
    exact h
  rw [heq]
  let f : Frame := ⟨t, .functionDeclaration, [.many params, .one id], .single, []⟩
  have hplug : (f.plug (.blockStatement u body)).Every (Spelled N) := h
  obtain ⟨-, hbeside, hblock⟩ := Frame.every_plug.mp hplug
  have hold := everyItems_iff.mp (everySlots_many.mp (every_mk.mp hblock).2).1
  have hitems : EveryItems (Spelled N) body' := by
    refine everyItems_iff.mpr fun c hc => ?_
    rcases mem_collapsedBody? hbody hc with hc | ⟨v, argument, array, -, heq⟩
    · exact hold c hc
    · cases heq
      simp only [every_mk, everySlots_one, everySlots_nil, and_true]
      exact ⟨spelled_of_no_slot rfl, spelled_of_no_slot rfl⟩
  have hnow : (f.plug (.blockStatement u body')).Every (Spelled N) :=
    Frame.every_plug.mpr ⟨spelled_of_no_slot rfl, hbeside,
      every_mk.mpr ⟨spelled_of_no_slot rfl, everySlots_many.mpr ⟨hitems, everySlots_nil⟩⟩⟩
  exact hnow

theorem every_spelled_collapseAll (n : Node) (h : n.Every (Spelled N)) :
    (collapseAll n).Every (Spelled N) := by
  induction n with
  | h t hd ss ih =>
    rw [collapseAll]
    refine every_spelled_collapseHere (every_mk.mpr ⟨?_, everySlots_iff.mpr fun c hc => ?_⟩)
    · exact h.self.congr (map_single_of_heads (heads_collapseSlots ss)).symm
    · rw [childrenOf_collapseSlots] at hc
      obtain ⟨d, hd, rfl⟩ := List.mem_map.mp hc
      exact ih d hd (h.child hd)

end Factory

namespace Hoist

variable {N : String → Prop} {limit : Nat}

mutual

theorem liftNode_spelled (inList : Bool) : (depth : Nat) → (found : Report) → (n : Node) →
    (r : Lifted (Option Node)) → liftNode limit inList depth found n = .ok r →
    n.Every (Spelled N) →
    (∀ m, r.rest = some m → m.Every (Spelled N)) ∧ EveryItems (Spelled N) (r.lifted.map some)
  | depth, found, .mk t h ss, r, hr, hn => by
    obtain ⟨hself, hss⟩ := every_mk.mp hn
    have hslots {found : Report} {q : Lifted (List (Slot Node))}
        (hq : liftSlots limit (depth + 1) found ss = .ok q) :
        (Node.mk t h q.rest).Every (Spelled N) ∧ EveryItems (Spelled N) (q.lifted.map some) := by
      obtain ⟨hrest, hlifted⟩ := liftSlots_spelled (depth + 1) found ss q hq hss
      exact ⟨every_mk.mpr ⟨hself.congr (single_liftSlots hq).symm, hrest⟩, hlifted⟩
    cases liftNode_iff.mp hr with
    | kept _ _ hq =>
      obtain ⟨hnode, hlifted⟩ := hslots hq
      exact ⟨fun m hm => Option.some.inj hm ▸ hnode, hlifted⟩
    | dropped => exact ⟨nofun, everyItems_nil⟩
    | moved _ _ hq => exact ⟨nofun, everyItems_some.mpr (hslots hq)⟩

theorem liftSlots_spelled : (depth : Nat) → (found : Report) → (ss : List (Slot Node)) →
    (r : Lifted (List (Slot Node))) → liftSlots limit depth found ss = .ok r →
    EverySlots (Spelled N) ss →
    EverySlots (Spelled N) r.rest ∧ EveryItems (Spelled N) (r.lifted.map some)
  | depth, found, [], r, hr, _ => by
    cases hr
    exact ⟨everySlots_nil, everyItems_nil⟩
  | depth, found, .one none :: ss, r, hr, hss => by
    obtain ⟨q, hq, rfl⟩ := liftSlots_empty_iff.mp hr
    exact liftSlots_spelled depth found ss q hq hss
  | depth, found, .one (some c) :: ss, r, hr, hss => by
    obtain ⟨hc, hss⟩ := everySlots_one.mp hss
    obtain ⟨p, hp, q, hq, rfl⟩ := liftSlots_node_iff.mp hr
    obtain ⟨hone, hlifted⟩ := liftNode_spelled false depth found c p hp hc
    obtain ⟨hrest, hlifted'⟩ := liftSlots_spelled depth p.found ss q hq hss
    obtain ⟨m, hm, -⟩ := exists_rest hp
    rw [hm, List.map_append]
    exact ⟨everySlots_one.mpr ⟨hone m hm, hrest⟩, everyItems_append.mpr ⟨hlifted, hlifted'⟩⟩
  | depth, found, .many cs :: ss, r, hr, hss => by
    obtain ⟨hcs, hss⟩ := everySlots_many.mp hss
    obtain ⟨p, hp, q, hq, rfl⟩ := liftSlots_items_iff.mp hr
    obtain ⟨hitems, hlifted⟩ := liftItems_spelled depth found cs p hp hcs
    obtain ⟨hrest, hlifted'⟩ := liftSlots_spelled depth p.found ss q hq hss
    rw [List.map_append]
    exact ⟨everySlots_many.mpr ⟨hitems, hrest⟩, everyItems_append.mpr ⟨hlifted, hlifted'⟩⟩

theorem liftItems_spelled : (depth : Nat) → (found : Report) → (cs : List (Option Node)) →
    (r : Lifted (List (Option Node))) → liftItems limit depth found cs = .ok r →
    EveryItems (Spelled N) cs →
    EveryItems (Spelled N) r.rest ∧ EveryItems (Spelled N) (r.lifted.map some)
  | depth, found, [], r, hr, _ => by
    cases hr
    exact ⟨everyItems_nil, everyItems_nil⟩
  | depth, found, none :: cs, r, hr, hcs => by
    obtain ⟨q, hq, rfl⟩ := liftItems_hole_iff.mp hr
    exact liftItems_spelled depth found cs q hq hcs
  | depth, found, some c :: cs, r, hr, hcs => by
    obtain ⟨hc, hcs⟩ := everyItems_some.mp hcs
    obtain ⟨p, hp, q, hq, rfl⟩ := liftItems_node_iff.mp hr
    obtain ⟨hone, hlifted⟩ := liftNode_spelled true depth found c p hp hc
    obtain ⟨hrest, hlifted'⟩ := liftItems_spelled depth p.found cs q hq hcs
    rw [List.map_append]
    refine ⟨everyItems_append.mpr ⟨everyItems_map.mpr fun m hm => ?_, hrest⟩,
      everyItems_append.mpr ⟨hlifted, hlifted'⟩⟩
    exact hone m (Option.mem_toList.mp hm)

end

theorem every_spelled_hoist {tree : Node} (h : tree.Every (Spelled N)) :
    (hoist limit tree).1.Every (Spelled N) := by
  unfold hoist
  split
  · exact h
  · rename_i r hr
    obtain ⟨hone, hlifted⟩ := liftNode_spelled false 0 [] tree r hr h
    obtain ⟨root, hroot, -⟩ := exists_rest hr
    have hrest : root.Every (Spelled N) := hone root hroot
    simp only [hroot, Option.getD_some]
    split
    · rename_i tree' hprepend
      unfold prepend at hprepend
      split at hprepend <;> cases hprepend <;>
      · have hbody := (everySlots_many.mp (every_mk.mp hrest).2).1
        exact every_mk.mpr ⟨spelled_of_no_slot rfl,
          everySlots_many.mpr ⟨everyItems_append.mpr ⟨hlifted, hbody⟩, everySlots_nil⟩⟩
    · exact hrest

end Hoist

/-! What follows for an exchange of names. -/

namespace Node

variable {N : String → Prop} {ν : String → String}

theorem Spelled.steady (hν : ∀ name, ¬ N name → ν name = name) {n : Node} (h : n.Spelled N) :
    n.Steady ν := by
  rintro t object u name rfl
  exact hν name (h (.identifier name) rfl)

end Node

end Unravel
